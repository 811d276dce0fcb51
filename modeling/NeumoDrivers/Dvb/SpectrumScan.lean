import NeumoDrivers.Lib.Buffers
import NeumoDrivers.Lib.Passes

/-! Looking for transponders in a spectrum (`neumo-scan.c`).

    For each of many window sizes the edges of a plateau of about that width are marked; a rising edge
    and a falling one that fit give a candidate, which is measured and compared with the peaks that are
    kept. Indices are integers; levels are 32 bits wide and wrap around. An access outside an array has
    no result. -/

namespace Dvb.Scan
open Buffers Passes

/-- `struct spectrum_scan_state`: the spectrum, the frequencies of its bins, and the thresholds. -/
structure Spectrum where
  len : ℕ
  level : ℤ → Int32
  frequency : ℤ → Int32
  threshold : Int32
  threshold2 : Int32

def Spectrum.spectrum (ss : Spectrum) : Buffer Int32 := ⟨ss.len, ss.level⟩

def Spectrum.freq (ss : Spectrum) : Buffer Int32 := ⟨ss.len, ss.frequency⟩

/-- `struct spectrum_peak_internal_t`. -/
structure Peak where
  idx : ℤ
  lowestLeftIdx : ℤ
  lowestRightIdx : ℤ
  riseIdx : ℤ
  fallIdx : ℤ
  freq : Int32
  bw : Int32
  lowestLeftLevel : Int32
  lowestRightLevel : Int32
  meanSnr : Int32
  meanLevel : Int32
  fluctuation : Int32
  dipLevel : Int32
  dipSnr : Int32
  deriving DecidableEq

def dtabs (x : Int32) : Int32 := if x < 0 then -x else x

def dtmin (x y : Int32) : Int32 := if x < y then x else y

/-! ### Sums -/

def runningSumStep (psig : Buffer Int32) (s : Buffer Int32 × Int32) (i : ℤ) :
    Option (Buffer Int32 × Int32) := do
  let x ← psig.read i
  let pout ← s.1.write i (s.2 + x)
  some (pout, s.2 + x)

def runningSum (psig : Buffer Int32) (n : ℕ) : Option (Buffer Int32) := do
  let accu ← psig.read 0
  let (pout, _) ← (up 0 n).foldlM (runningSumStep psig) (⟨n, fun _ => 0⟩, accu)
  some pout

def noiseStep (psig : Buffer Int32) (s : Buffer Int32 × Int32) (i : ℤ) :
    Option (Buffer Int32 × Int32) := do
  let x ← psig.read i
  let y ← psig.read (i - 1)
  let z ← psig.read (i + 1)
  let accu := s.2 + dtabs (x * 2 - (y + z))
  let pout ← s.1.write i accu
  some (pout, accu)

def noiseEst (psig : Buffer Int32) (n : ℕ) : Option (Buffer Int32) := do
  let x ← psig.read 0
  let y ← psig.read 1
  let (pout, accu) ← (up 1 (n - 2)).foldlM (noiseStep psig) (⟨n, fun _ => 0⟩, dtabs (2 * x - y))
  -- the index the loop is left with
  let i : ℤ := max 1 (n - 1)
  let x ← psig.read i
  let y ← psig.read (i - 1)
  pout.write i (accu + dtabs (2 * x - y))

/-! ### Edges -/

def windows : List ℤ :=
  [2, 4, 6, 8, 10, 12, 14, 16, 18, 20, 22,
    24, 26, 28, 30, 32, 34, 36, 38, 40, 42, 44,
    46, 48, 50, 52, 54, 56, 58, 60, 62, 64, 66,
    68, 72, 74, 76, 80, 82, 86, 88, 92, 94, 98,
    102, 106, 108, 112, 116, 120, 126, 130, 134, 140, 144,
    150, 154, 160, 166, 172, 178, 184, 190, 198, 204, 212,
    220, 228, 236, 244, 252, 262, 270, 280, 290, 300, 312,
    322, 334, 346, 358, 370, 384, 398, 412, 426, 442, 456,
    474, 490, 508, 526, 544, 564, 584, 604, 626, 648, 670,
    694, 720, 744, 772, 798, 826, 856, 886, 918, 950, 984,
    1020, 1056, 1094, 1132, 1172, 1214, 1256, 1302, 1348, 1396, 1444,
    1496, 1548, 1604, 1660, 1720, 1780, 1844, 1910, 1976, 2048]

def falling : UInt8 := 1

def rising : UInt8 := 2

/-- The width of a slope, which is `d` unless that is too little or too much for the window. -/
def slopeWidth (w d : ℤ) : ℤ := if d ≤ 2 ∨ w ≤ 2 * d then 1 else d

/-- What the kernels carry along: `peak_marks`, and where the best response is and how much. -/
structure Slope where
  marks : Buffer UInt8
  besti : ℤ
  best : Int32

/-- A response at `i` above the threshold is marked, unless a better one is close; `apart` is how far
    the best one is. -/
def markSlope (flag : UInt8) (w i apart : ℤ) (response : Int32) (st : Slope) : Option Slope := do
  let besti := if 0 ≤ st.besti ∧ w / 4 ≤ apart then -1 else st.besti
  let (marks, besti) ←
    if 0 ≤ besti ∧ st.best ≤ response then do
      let m ← st.marks.read besti
      let marks ← st.marks.write besti (m &&& ~~~flag)
      some (marks, -1)
    else some (st.marks, besti)
  if 0 ≤ besti ∧ response < st.best then some ⟨marks, besti, st.best⟩
  else do
    let m ← marks.read i
    let marks ← marks.write i (m ||| flag)
    if st.best < response ∨ besti < 0 then some ⟨marks, i, response⟩ else some ⟨marks, besti, st.best⟩

def fallingStep (ss : Spectrum) (rs : Buffer Int32) (w delta : ℤ) (st : Slope) (i : ℤ) :
    Option Slope := do
  let x ← rs.read i
  let y ← rs.read (i - w)
  let right ← ss.spectrum.read (i + delta)
  let response := (x - y) / Int32.ofInt w - right
  if ss.threshold < response then markSlope falling w i (st.besti - i) response st else some st

def fallingKernel (ss : Spectrum) (rs : Buffer Int32) (w : ℤ) (marks : Buffer UInt8) :
    Option (Buffer UInt8) := do
  let delta := slopeWidth w (w * 16 / 200)
  let st ← (down (ss.len - delta - 1) (ss.len - delta - w).toNat).foldlM (fallingStep ss rs w delta)
    ⟨marks, -1, 0⟩
  some st.marks

def risingStep (ss : Spectrum) (rs : Buffer Int32) (w delta : ℤ) (st : Slope) (i : ℤ) :
    Option Slope := do
  let x ← rs.read (i + w)
  let y ← rs.read i
  let left ← ss.spectrum.read (i - delta)
  let response := (x - y) / Int32.ofInt w - left
  if ss.threshold < response then markSlope rising w i (i - st.besti) response st else some st

def risingKernel (ss : Spectrum) (rs : Buffer Int32) (w : ℤ) (marks : Buffer UInt8) :
    Option (Buffer UInt8) := do
  let delta := slopeWidth w (w * 16 / 200)
  let st ← (up delta (ss.len - w - delta).toNat).foldlM (risingStep ss rs w delta) ⟨marks, -1, 0⟩
  some st.marks

/-- What is analysed: `start_idx` and `end_idx`. -/
def startIdx (w : ℤ) : ℤ := if w * 16 / 200 = 0 then 1 else w * 16 / 200

def endIdx (ss : Spectrum) (w : ℤ) : ℤ :=
  if w * 16 / 200 = 0 then ss.len - 1 else ss.len - w * 16 / 200

/-- `spectral_init_level`: the marks. -/
def spectralInitLevel (ss : Spectrum) (rs : Buffer Int32) (w : ℤ) : Option (Buffer UInt8) := do
  let marks ← fallingKernel ss rs w ⟨ss.len, fun _ => 0⟩
  risingKernel ss rs w marks

/-! ### Candidates -/

def lowestStep (spectrum : Buffer Int32) (s : Int32 × ℤ) (i : ℤ) : Option (Int32 × ℤ) := do
  let x ← spectrum.read i
  some (if x < s.1 then (x, i) else s)

/-- A sample above `thresh` is counted, and the first one of a row is where the row starts. -/
def limitStep (spectrum : Buffer Int32) (thresh : Int32) (w : ℤ) (s : ℤ × ℤ) (i : ℤ) :
    Option ((ℤ × ℤ) × Bool) := do
  let x ← spectrum.read i
  if thresh ≤ x then
    some ((s.1 + 1, if s.1 = 0 then i else s.2), decide (w / 8 ≤ s.1 + 1))
  else some ((0, s.2), false)

/-- Where the first row of samples above `thresh` starts, of those that are long enough or last. -/
def limit3db (spectrum : Buffer Int32) (thresh : Int32) (w : ℤ) (l : List ℤ) (fallback : ℤ) :
    Option ℤ := do
  let (s, _) ← foldUntil (limitStep spectrum thresh w) l (0, fallback)
  some (if s.1 = 0 then fallback else s.2)

/-- The first index of `l` with a sample of at least `level`, or `after`. -/
def firstReaching (spectrum : Buffer Int32) (level : Int32) (after : ℤ) : List ℤ → Option ℤ
  | [] => some after
  | i :: l => do
    let x ← spectrum.read i
    if level ≤ x then some i else firstReaching spectrum level after l

/-- The average of the samples between two indices, from the running sum. -/
def meanBetween (rs : Buffer Int32) (a b : ℤ) : Option Int32 := do
  let x ← rs.read b
  let y ← rs.read a
  some ((x - y) / Int32.ofInt (b - a))

/-- What is lowest next to the peak, on both sides: the level and its index. -/
structure Valley where
  left : Int32
  leftI : ℤ
  right : Int32
  rightI : ℤ

def valley (ss : Spectrum) (w riseIdx fallIdx : ℤ) : Option Valley := do
  let delta := slopeWidth w (w * 16 / 100)
  let left := max (riseIdx - delta) 0
  let right := min (fallIdx + delta) ss.len
  let x ← ss.spectrum.read left
  let y ← ss.spectrum.read (right - 1)
  let l ← (up left (riseIdx - left).toNat).foldlM (lowestStep ss.spectrum) (x, left)
  let r ← (up (fallIdx + 1) (right - (fallIdx + 1)).toNat).foldlM (lowestStep ss.spectrum) (y, right - 1)
  some ⟨l.1, l.2, r.1, r.2⟩

/-- The limits of the peak: `left_3db_i` and `right_3db_i`. -/
def limits (ss : Spectrum) (w : ℤ) (v : Valley) (meanLevel : Int32) : Option (ℤ × ℤ) := do
  let thresh := meanLevel - 3000
  let left3db ← limit3db ss.spectrum thresh w (up v.leftI (v.rightI - v.leftI).toNat) v.leftI
  let right3db ← limit3db ss.spectrum thresh w (down v.rightI (v.rightI - v.leftI + 1).toNat) v.rightI
  some (left3db, right3db)

/-- The bounds of the top plateau: `left_top_i` and `right_top_i`. -/
def plateau (ss : Spectrum) (left3db right3db : ℤ) (meanLevel : Int32) : Option (ℤ × ℤ) := do
  let leftTop ← firstReaching ss.spectrum meanLevel (max left3db (right3db + 1))
    (up left3db (right3db - left3db + 1).toNat)
  let rightTop ← firstReaching ss.spectrum meanLevel (min right3db (leftTop - 1))
    (down right3db (right3db - leftTop + 1).toNat)
  some (leftTop, rightTop)

/-- The mean level again, from the top plateau if there is one. -/
def topLevel (rs : Buffer Int32) (leftTop rightTop : ℤ) (meanLevel : Int32) : Option Int32 :=
  if leftTop < rightTop then meanBetween rs leftTop rightTop else some meanLevel

/-- `process_candidate`: what is known of the peak between two edges. -/
def processCandidate (ss : Spectrum) (rs noise : Buffer Int32) (w riseIdx fallIdx : ℤ) :
    Option Peak := do
  let meanLevel ← meanBetween rs riseIdx fallIdx
  let x ← noise.read fallIdx
  let y ← noise.read riseIdx
  let fluctuation := 25 * (x - y) / (102 * Int32.ofInt (fallIdx - riseIdx))
  let v ← valley ss w riseIdx fallIdx
  let (left3db, right3db) ← limits ss w v meanLevel
  let (leftTop, rightTop) ← plateau ss left3db right3db meanLevel
  let meanLevel ← topLevel rs leftTop rightTop meanLevel
  let (left3db, right3db) ← limits ss w v meanLevel
  let dip ← ss.spectrum.read leftTop
  let (dipLevel, _) ← (up leftTop (rightTop - leftTop + 1).toNat).foldlM (lowestStep ss.spectrum)
    (dip, leftTop)
  let idx := (right3db + left3db).tdiv 2
  let freq ← ss.freq.read idx
  let freqRight ← ss.freq.read right3db
  let freqLeft ← ss.freq.read left3db
  let lowest := dtmin v.right v.left
  some { idx, freq, bw := freqRight - freqLeft, riseIdx := left3db, fallIdx := right3db,
         lowestLeftIdx := v.leftI, lowestRightIdx := v.rightI, lowestLeftLevel := v.left,
         lowestRightLevel := v.right, meanSnr := meanLevel - lowest, meanLevel, fluctuation, dipLevel,
         dipSnr := dipLevel - lowest }

/-! ### The peaks that are kept -/

def isPartOf (a b : Peak) : Prop :=
  (b.riseIdx ≤ a.riseIdx ∧ a.riseIdx ≤ b.fallIdx) ∧ b.riseIdx ≤ a.fallIdx ∧ a.fallIdx ≤ b.fallIdx

instance (a b : Peak) : Decidable (isPartOf a b) := inferInstanceAs (Decidable (_ ∧ _))

/-- Index `i` lies inside the peak. -/
def Peak.Contains (p : Peak) (i : ℤ) : Prop := p.riseIdx < i ∧ i < p.fallIdx

instance (p : Peak) (i : ℤ) : Decidable (p.Contains i) := inferInstanceAs (Decidable (_ ∧ _))

/-- 1 if `a` is better than `b`, -1 if `b` is better, 0 if they do not conflict. -/
def isBetterThan (a b : Peak) : ℤ :=
  if b.Contains a.lowestLeftIdx ∧ b.fluctuation * 8 ≤ b.meanLevel - a.lowestLeftLevel then 1
  else if b.Contains a.lowestRightIdx ∧ b.fluctuation * 8 ≤ b.meanLevel - a.lowestRightLevel then 1
  else if isPartOf a b then -1
  else if a.Contains b.lowestLeftIdx ∧ a.fluctuation * 8 ≤ a.meanLevel - b.lowestLeftLevel then -1
  else if a.Contains b.lowestRightIdx ∧ a.fluctuation * 8 ≤ a.meanLevel - b.lowestRightLevel then -1
  else if isPartOf b a then 1
  else if ¬ (b.Contains a.lowestLeftIdx ∨ b.Contains a.lowestRightIdx) ∧
      ¬ (a.Contains b.lowestLeftIdx ∨ a.Contains b.lowestRightIdx) then 0
  else if b.meanSnr ≤ a.meanSnr then 1 else -1

/-- The loop of `check_candidate_tp` over the kept peaks: those that are left, and whether the candidate
    is rejected. -/
def checkPeaks (cand : Peak) : List Peak → List Peak × Bool
  | [] => ([], false)
  | old :: rest =>
    if isBetterThan old cand = 0 then
      let (rest, rejected) := checkPeaks cand rest
      (old :: rest, rejected)
    else if 0 < isBetterThan old cand then (old :: rest, true)
    else checkPeaks cand rest

/-- `check_candidate_tp`: the result, and the peaks that are left. -/
def checkCandidateTp (ss : Spectrum) (cand : Peak) (peaks : List Peak) : ℤ × List Peak :=
  if cand.meanSnr < ss.threshold2 then (-1, peaks)
  else if cand.dipSnr ≤ ss.threshold then (-1, peaks)
  else
    let (peaks, rejected) := checkPeaks cand peaks
    (if rejected then -1 else 0, peaks)

def maxNumPeaks : ℕ := 1024 * 4

/-! ### The scan -/

/-- What is the same for all windows. -/
structure Sums where
  rs : Buffer Int32
  noise : Buffer Int32

/-- A candidate is kept, if it is better than those it conflicts with: the peaks, and whether there is
    room for no more. -/
def examine (ss : Spectrum) (si : Sums) (w riseIdx fallIdx : ℤ) (peaks : List Peak) :
    Option (List Peak × Bool) := do
  let cand ← processCandidate ss si.rs si.noise w riseIdx fallIdx
  let (result, peaks) := checkCandidateTp ss cand peaks
  if 0 ≤ result then
    -- `si->peaks` has `max_num_peaks` entries
    if peaks.length < maxNumPeaks then
      some (peaks ++ [cand], decide (maxNumPeaks ≤ peaks.length + 1))
    else none
  else some (peaks, false)

/-- `find_rising` and what is done for the index it returns. -/
def riseStep (ss : Spectrum) (si : Sums) (w : ℤ) (marks : Buffer UInt8) (fallIdx : ℤ)
    (peaks : List Peak) (i : ℤ) : Option (List Peak × Bool) := do
  let m ← marks.read i
  if m &&& rising ≠ 0 then examine ss si w i fallIdx peaks else some (peaks, false)

/-- How far from the falling edge a rising one may be. -/
def lowerLimit (w fallIdx : ℤ) : ℤ := max (fallIdx - w * 150 / 100) (startIdx w)

/-- The indices `find_rising` goes over for a falling edge. -/
def riseRange (w fallIdx : ℤ) : List ℤ := down (fallIdx - w) (fallIdx - w - lowerLimit w fallIdx).toNat

/-- `find_falling` and what is done for the index it returns. -/
def fallStep (ss : Spectrum) (si : Sums) (w : ℤ) (marks : Buffer UInt8) (peaks : List Peak) (i : ℤ) :
    Option (List Peak × Bool) := do
  let m ← marks.read i
  if m &&& falling ≠ 0 then foldUntil (riseStep ss si w marks i) (riseRange w i) peaks
  else some (peaks, false)

def fallRange (ss : Spectrum) (w : ℤ) : List ℤ := up (startIdx w) (endIdx ss w - startIdx w).toNat

/-- `scan_level`: the peaks after the candidates of a window. -/
def scanLevel (ss : Spectrum) (si : Sums) (peaks : List Peak) (w : ℤ) : Option (List Peak) := do
  let marks ← spectralInitLevel ss si.rs w
  let (peaks, _) ← foldUntil (fallStep ss si w marks) (fallRange ss w) peaks
  some peaks

/-- `spectral_scan_init`: for an empty spectrum, nothing is allocated. -/
def spectralScanInit (ss : Spectrum) : Option Sums :=
  if ss.len = 0 then some ⟨⟨0, fun _ => 0⟩, ⟨0, fun _ => 0⟩⟩
  else do
    let rs ← runningSum ss.spectrum ss.len
    let noise ← noiseEst ss.spectrum ss.len
    some ⟨rs, noise⟩

/-- `scan_all`: the peaks that are kept. -/
def scanAll (ss : Spectrum) : Option (List Peak) := do
  let si ← spectralScanInit ss
  windows.foldlM (scanLevel ss si) []

/-- What holds for all of a scan: the sums are those of the spectrum, and the windows before `w` leave
    the peaks `before`. -/
structure Enters (ss : Spectrum) (si : Sums) (w : ℤ) (before : List Peak) : Prop where
  sums : spectralScanInit ss = some si
  windows : ∃ pre post, windows = pre ++ w :: post ∧ pre.foldlM (scanLevel ss si) [] = some before

/-- The edges of window `w` are marked, and the scan comes to the falling edge `fallIdx` with the peaks
    `level` and to the rising edge `riseIdx` for it with `peaks`. -/
structure Examines (ss : Spectrum) (si : Sums) (w riseIdx fallIdx : ℤ) (peaks : List Peak) : Prop where
  edges : ∃ before level marks m m', Enters ss si w before ∧ spectralInitLevel ss si.rs w = some marks ∧
    Meets (fallStep ss si w marks) (fallRange ss w) before level fallIdx ∧
    marks.read fallIdx = some m ∧ m &&& falling ≠ 0 ∧
    Meets (riseStep ss si w marks fallIdx) (riseRange w fallIdx) level peaks riseIdx ∧
    marks.read riseIdx = some m' ∧ m' &&& rising ≠ 0

/-- The peaks in `si->peaks` at some point of the scan: when a window is begun, while a candidate is
    compared with the `n` first of them, when it is kept, and in the end. -/
inductive KeptAt (ss : Spectrum) : List Peak → Prop where
  | window {si w before} : Enters ss si w before → KeptAt ss before
  | compared {si w riseIdx fallIdx peaks cand} (n : ℕ) :
    Examines ss si w riseIdx fallIdx peaks →
      processCandidate ss si.rs si.noise w riseIdx fallIdx = some cand →
      KeptAt ss ((checkPeaks cand (peaks.take n)).1 ++ peaks.drop n)
  | kept {si w riseIdx fallIdx peaks peaks' done} : Examines ss si w riseIdx fallIdx peaks →
      examine ss si w riseIdx fallIdx peaks = some (peaks', done) → KeptAt ss peaks'
  | finished {peaks} : scanAll ss = some peaks → KeptAt ss peaks

/-! ### What holds at every point -/

section
variable {ss : Spectrum} {si : Sums} {cand : Peak} {peaks peaks' : List Peak} {marks : Buffer UInt8}
variable {w riseIdx fallIdx i : ℤ} {done : Bool} {P : List Peak → Prop}

/-- A comparison only takes peaks out. -/
theorem checkPeaks_sublist (cand : Peak) : ∀ peaks : List Peak, (checkPeaks cand peaks).1.Sublist peaks
  | [] => .slnil
  | old :: rest => by
    rw [checkPeaks]
    split_ifs
    · exact (checkPeaks_sublist cand rest).cons_cons old
    · exact List.Sublist.refl _
    · exact (checkPeaks_sublist cand rest).cons old

theorem checkCandidateTp_sublist : (checkCandidateTp ss cand peaks).2.Sublist peaks := by
  unfold checkCandidateTp
  split_ifs
  · exact List.Sublist.refl _
  · exact List.Sublist.refl _
  · exact checkPeaks_sublist cand peaks

variable (hsub : ∀ l l' : List Peak, l'.Sublist l → P l → P l')
variable (hex : ∀ si w riseIdx fallIdx peaks peaks' done, P peaks →
  examine ss si w riseIdx fallIdx peaks = some (peaks', done) → P peaks')
include hex

theorem riseStep_invariant (h : P peaks) (hx : riseStep ss si w marks fallIdx peaks i = some (peaks', done)) :
    P peaks' := by
  obtain ⟨m, -, hx⟩ := Option.bind_eq_some_iff.mp hx
  split_ifs at hx
  · exact hex _ _ _ _ _ _ _ h hx
  · cases hx
    exact h

theorem fallStep_invariant (h : P peaks) (hx : fallStep ss si w marks peaks i = some (peaks', done)) :
    P peaks' := by
  obtain ⟨m, -, hx⟩ := Option.bind_eq_some_iff.mp hx
  split_ifs at hx
  · exact foldUntil_invariant h (fun _ _ _ _ hp => riseStep_invariant hex hp) hx
  · cases hx
    exact h

theorem scanLevels_invariant {ws : List ℤ} (h : P peaks)
    (hx : ws.foldlM (scanLevel ss si) peaks = some peaks') : P peaks' := by
  induction ws generalizing peaks with
  | nil =>
    cases hx
    exact h
  | cons w ws ih =>
    rw [List.foldlM_cons] at hx
    obtain ⟨next, hnext, hx⟩ := Option.bind_eq_some_iff.mp hx
    obtain ⟨marks, -, hnext⟩ := Option.bind_eq_some_iff.mp hnext
    obtain ⟨⟨last, done⟩, hlast, hnext⟩ := Option.bind_eq_some_iff.mp hnext
    cases hnext
    exact ih (foldUntil_invariant h (fun _ _ _ _ hp => fallStep_invariant hex hp) hlast) hx

theorem Enters.invariant (h0 : P []) (h : Enters ss si w peaks) : P peaks := by
  obtain ⟨pre, post, -, hpre⟩ := h.windows
  exact scanLevels_invariant hex h0 hpre

theorem Examines.invariant (h0 : P []) (h : Examines ss si w riseIdx fallIdx peaks) : P peaks := by
  obtain ⟨before, level, marks, m, m', henter, -, hfall, -, -, hrise, -⟩ := h.edges
  have hlevel := hfall.invariant (henter.invariant hex h0) fun _ _ _ _ hp => fallStep_invariant hex hp
  exact hrise.invariant hlevel fun _ _ _ _ hp => riseStep_invariant hex hp

include hsub in
theorem KeptAt.invariant (h0 : P []) (h : KeptAt ss peaks) : P peaks := by
  induction h with
  | window henter => exact henter.invariant hex h0
  | @compared si w riseIdx fallIdx peaks cand n hx _ =>
    have hall := (checkPeaks_sublist cand (peaks.take n)).append (List.Sublist.refl (peaks.drop n))
    rw [List.take_append_drop] at hall
    exact hsub _ _ hall (hx.invariant hex h0)
  | kept hx hexamine => exact hex _ _ _ _ _ _ _ (hx.invariant hex h0) hexamine
  | finished hscan =>
    obtain ⟨si, -, hscan⟩ := Option.bind_eq_some_iff.mp hscan
    exact scanLevels_invariant hex h0 hscan

end

end Dvb.Scan

import NeumoDrivers.Lib.Polling

/-! Tuning once and waiting for the lock (`m88rs6060_tune_once` of `m88rs6060_drv.c`).

    Two loops poll the lock registers, one for a blind tune and one for the others. What the registers
    hold in each pass is an input (`PassReadings`). The fields of the state that have no part in the lock
    (the codes of the physical layer, the streams, the error counters) are left out, and with them what is
    done once the lock is there. -/

namespace M88rs.TuneLock
open Polling

inductive DeliverySystem where
  | undefined | dvbs | dvbs2
  deriving DecidableEq

/-- The fields of `m88rs6060_state` that tuning derives from the lock registers. -/
structure State where
  detectedDeliverySystem : DeliverySystem
  hasTimedout : Bool
  isMis : Bool
  demodLocked : Bool
  hasCarrier : Bool
  fecLocked : Bool
  hasViterbi : Bool
  hasSync : Bool
  hasSignal : Bool
  hasTimingLock : Bool
  hasLock : Bool

/-- What a pass of a wait meets: a stop, the registers of the lock, the polls of the register 0xE8 and
    then 0xE9, where the matype is; and in a blind tune the register 0xBE, which says that there is a code
    of the physical layer, and the polls of 0x24 while it is searched. -/
structure PassReadings where
  stop : Bool
  reg08 : UInt8
  reg0d : UInt8
  regd1 : UInt8
  rege8 : ℕ → UInt8
  rege9 : UInt8
  regbe : UInt8
  reg24 : ℕ → UInt8

def bit (reg n : UInt8) : Bool := reg >>> n &&& 1 ≠ 0

/-! ### One pass -/

/-- `m88rs6060_get_matype`; without an answer it is 0. -/
def getMatype (r : PassReadings) : UInt8 :=
  if (List.range 100).any fun i => r.rege8 i &&& 0x10 = 0x10 then r.rege9 else 0

/-- `m88rs6060_detect_mis` -/
def detectMis (r : PassReadings) : Bool := getMatype r &&& 0x20 ≠ 0x20

/-- Reserved bit 3: the signal is DVB-S2. -/
def PassReadings.isDvbs2 (r : PassReadings) : Bool := r.reg08 &&& 0x08 ≠ 0

/-- The flags of a DVB-S2 signal. -/
def dvbs2Flags (r : PassReadings) (st : State) : State :=
  let hasViterbi : Bool := r.reg0d &&& 0x80 ≠ 0
  { st with
    hasViterbi
    fecLocked := hasViterbi
    hasSync := hasViterbi
    hasCarrier := bit r.reg0d 2
    hasTimingLock := bit r.reg0d 1
    hasSignal := bit r.reg0d 0
    isMis := detectMis r
    detectedDeliverySystem := .dvbs2 }

/-- The flags of a DVB-S signal all say that it is locked. -/
def PassReadings.dvbsLocked (r : PassReadings) : Bool :=
  bit r.reg0d 0 && bit r.reg0d 2 && bit r.reg0d 1 && bit r.regd1 2 && bit r.regd1 1

/-- The flags of a DVB-S signal. -/
def dvbsFlags (r : PassReadings) (st : State) : State :=
  { st with
    hasTimedout := bit r.regd1 7
    hasViterbi := bit r.regd1 2
    fecLocked := bit r.regd1 2
    hasSync := bit r.regd1 1
    hasCarrier := bit r.reg0d 2
    hasTimingLock := bit r.reg0d 1
    hasSignal := bit r.reg0d 0
    hasLock := r.dvbsLocked }

/-- Why a wait is left. -/
inductive Left where
  | locked (sys : DeliverySystem)
  | stopped
  | timedOut
  | noPls
  deriving DecidableEq

/-- The system that was seen locked. -/
def Left.seen : Left → Option DeliverySystem
  | .locked sys => some sys
  | _ => none

/-- Whether a pass is to be the last; a stop is looked for in each twentieth. -/
def stopsAt (rs : ℕ → PassReadings) (i : ℕ) : Bool := i % 20 = 19 ∧ (rs i).stop

/-- A pass of `m88rs6060_wait_for_demod_lock_non_blind`, with the state and `is_dvbs2`. -/
def nonBlindPass (rs : ℕ → PassReadings) (i : ℕ) (s : State × Bool) : (State × Bool) × Option Left :=
  let r := rs i
  if stopsAt rs i then (s, some .stopped)
  else if r.isDvbs2 then
    let st := dvbs2Flags r s.1
    if r.reg0d = 0x8f then (({ st with demodLocked := true }, true), some (.locked .dvbs2))
    else ((st, s.2), none)
  else
    let st := dvbsFlags r s.1
    if st.hasLock then (({ st with demodLocked := true }, false), some (.locked .dvbs))
    else ((st, s.2), none)

/-- `m88rs6060_find_pls`: a thousand polls of register 0x24. -/
def findPls (r : PassReadings) : Bool := (List.range 1000).any fun i => r.reg24 i &&& 0x08 ≠ 0

/-- The register 0xBE says that there is a code of the physical layer. -/
def PassReadings.plsReady (r : PassReadings) : Bool := r.regbe = 0xfe

/-- A pass of `m88rs6060_wait_for_demod_lock_blind`, with the state and `pls_lock`. Reading register 0x08
    up to 50 times before changes nothing. -/
def blindPass (rs : ℕ → PassReadings) (i : ℕ) (s : State × Bool) : (State × Bool) × Option Left :=
  let r := rs i
  if stopsAt rs i then (s, some .stopped)
  else if ¬ s.2 ∧ r.plsReady ∧ ¬ findPls r then (s, some .noPls)
  else
    let plsLock := s.2 || r.plsReady
    if r.isDvbs2 then
      let st := dvbs2Flags r s.1
      -- register 0xBE is read again, and the pass is over whatever it holds
      if st.isMis ∧ ¬ plsLock ∧ r.reg0d &&& 0x0f = 0x0f then ((st, plsLock), none)
      else if r.reg0d = 0x8f then (({ st with demodLocked := true }, plsLock), some (.locked .dvbs2))
      else ((st, plsLock), none)
    else
      let st := dvbsFlags r s.1
      if st.hasLock then
        (({ st with demodLocked := true, detectedDeliverySystem := .dvbs }, plsLock),
          some (.locked .dvbs))
      else ((st, plsLock), none)

/-! ### The waits -/

/-- `m88rs6060_wait_for_demod_lock_non_blind` -/
def waitNonBlind (rs : ℕ → PassReadings) (st : State) : State × Left :=
  let (i, left, st, isDvbs2) := poll (nonBlindPass rs) .timedOut 150 0 (st, false)
  ({ st with
    hasTimedout := i = 150
    detectedDeliverySystem :=
      if st.hasLock then if isDvbs2 then .dvbs2 else .dvbs else .undefined }, left)

/-- `m88rs6060_wait_for_demod_lock_blind`. It returns at once if the code that is there cannot be found. -/
def waitBlind (rs : ℕ → PassReadings) (st : State) : State × Left :=
  let (i, left, st, _) := poll (blindPass rs) .timedOut 150 0 (st, false)
  if left = .noPls then (st, left)
  else
    ({ st with
      hasLock := st.demodLocked
      hasTimedout := i = 150
      detectedDeliverySystem := if st.demodLocked then st.detectedDeliverySystem else .undefined }, left)

/-! ### A tune -/

/-- A tune: what fails before the wait, and what the wait reads. -/
structure Tune where
  blind : Bool
  setTunerFails : Bool
  setDemodFails : Bool
  write00Fails : Bool
  writeB2Fails : Bool
  readings : ℕ → PassReadings

/-- The tune is given up before the wait. -/
def Tune.fails (t : Tune) : Bool :=
  t.setTunerFails || t.setDemodFails || (!t.blind && t.write00Fails) || t.writeB2Fails

/-- `clear_tune_state`; it leaves `has_lock` as it is. -/
def clearTuneState (st : State) : State :=
  { st with
    detectedDeliverySystem := .undefined
    hasTimedout := false
    isMis := false
    demodLocked := false
    hasCarrier := false
    fecLocked := false
    hasViterbi := false
    hasSync := false
    hasSignal := false
    hasTimingLock := false }

def Tune.wait (t : Tune) (st : State) : State × Left :=
  if t.blind then waitBlind t.readings st else waitNonBlind t.readings st

/-- `m88rs6060_tune_once`, and the reason for which the wait was left. -/
def tuneOnce (t : Tune) (st : State) : State × Option Left :=
  let st := clearTuneState st
  if t.fails then (st, none)
  else
    let (st, left) := t.wait { st with demodLocked := false, hasTimedout := false }
    (st, some left)

/-- One tune after the other. -/
def runTunes (st : State) (ts : List Tune) : State := ts.foldl (fun st t => (tuneOnce t st).1) st

/-- The system that is seen locked in a tune. -/
def seenLocked (t : Tune) (st : State) : Option DeliverySystem := (tuneOnce t st).2.bind Left.seen

/-- The tune ends with the lock and the system that it has seen. -/
structure Right (t : Tune) (st : State) : Prop where
  lock : (tuneOnce t st).1.hasLock = (seenLocked t st).isSome
  system : (tuneOnce t st).1.detectedDeliverySystem = (seenLocked t st).getD .undefined

/-! ### Where a wait is left -/

/-- Pass `i` of a wait that is not blind leaves it. -/
def nonBlindLeaves (rs : ℕ → PassReadings) (i : ℕ) : Option Left :=
  if stopsAt rs i then some .stopped
  else if (rs i).isDvbs2 then if (rs i).reg0d = 0x8f then some (.locked .dvbs2) else none
  else if (rs i).dvbsLocked then some (.locked .dvbs) else none

/-- A code of the physical layer was there before pass `i`. -/
def plsSeen (rs : ℕ → PassReadings) : ℕ → Bool
  | 0 => false
  | i + 1 => plsSeen rs i || (rs i).plsReady

/-- Pass `i` of a blind wait leaves it. -/
def blindLeaves (rs : ℕ → PassReadings) (i : ℕ) : Option Left :=
  if stopsAt rs i then some .stopped
  else if ¬ plsSeen rs i ∧ (rs i).plsReady ∧ ¬ findPls (rs i) then some .noPls
  else if (rs i).isDvbs2 then
    if detectMis (rs i) ∧ ¬ plsSeen rs (i + 1) ∧ (rs i).reg0d &&& 0x0f = 0x0f then none
    else if (rs i).reg0d = 0x8f then some (.locked .dvbs2)
    else none
  else if (rs i).dvbsLocked then some (.locked .dvbs) else none

variable {rs : ℕ → PassReadings} {st : State} {t : Tune}

/-- The lock from before the tune is still there at pass `i`: no pass has seen a DVB-S signal. -/
def Stale (rs : ℕ → PassReadings) (hadLock : Bool) (i : ℕ) : Prop :=
  hadLock = true ∧ ∀ j < i, (rs j).isDvbs2 = true

/-- What is known of the state before pass `i`: only a pass with a DVB-S signal changes `has_lock`, and
    only one with a DVB-S2 signal the system. -/
structure Waiting (rs : ℕ → PassReadings) (hadLock : Bool) (i : ℕ) (st : State) : Prop where
  demodLocked : st.demodLocked = false
  lock : st.hasLock = true ↔ Stale rs hadLock i
  system : st.detectedDeliverySystem = .undefined ↔ ∀ j < i, (rs j).isDvbs2 = false

theorem Waiting.dvbs2 {hadLock : Bool} {i : ℕ} (h : Waiting rs hadLock i st)
    (hs2 : (rs i).isDvbs2 = true) : Waiting rs hadLock (i + 1) (dvbs2Flags (rs i) st) := by
  refine ⟨h.demodLocked, ?_, ?_⟩
  · refine h.lock.trans ?_
    rw [Stale, Stale, Nat.forall_lt_succ_right, and_iff_left hs2]
  · refine iff_of_false (fun hsys => by cases hsys) fun hall => ?_
    rw [hall i (Nat.lt_succ_self i)] at hs2
    cases hs2

theorem Waiting.dvbs {hadLock : Bool} {i : ℕ} (h : Waiting rs hadLock i st)
    (hs : (rs i).isDvbs2 = false) (hopen : (rs i).dvbsLocked = false) :
    Waiting rs hadLock (i + 1) (dvbsFlags (rs i) st) := by
  refine ⟨h.demodLocked, ?_, ?_⟩
  · refine iff_of_false (fun hlock => ?_) fun hall => ?_
    · rw [show (dvbsFlags (rs i) st).hasLock = (rs i).dvbsLocked from rfl, hopen] at hlock
      cases hlock
    · have := hall.2 i (Nat.lt_succ_self i)
      rw [hs] at this
      cases this
  · refine h.system.trans ?_
    rw [Nat.forall_lt_succ_right, and_iff_left hs]

/-- What a pass does to the state, and whether the wait is left for it. A DVB-S lock leaves `sys`. -/
inductive PassEnds (rs : ℕ → PassReadings) (i : ℕ) (sys : DeliverySystem) (st : State) :
    State → Option Left → Prop where
  | stays (left : Left) (hseen : left.seen = none) : PassEnds rs i sys st st (some left)
  | locksDvbs2 : PassEnds rs i sys st { dvbs2Flags (rs i) st with demodLocked := true }
      (some (.locked .dvbs2))
  | goesDvbs2 (hs2 : (rs i).isDvbs2 = true) : PassEnds rs i sys st (dvbs2Flags (rs i) st) none
  | locksDvbs (hlocked : (rs i).dvbsLocked = true) : PassEnds rs i sys st
      { dvbsFlags (rs i) st with demodLocked := true, detectedDeliverySystem := sys }
      (some (.locked .dvbs))
  | goesDvbs (hs : (rs i).isDvbs2 = false) (hopen : (rs i).dvbsLocked = false) :
      PassEnds rs i sys st (dvbsFlags (rs i) st) none

theorem PassEnds.waiting {hadLock : Bool} {i : ℕ} {sys : DeliverySystem} {st' : State}
    (h : PassEnds rs i sys st st' none) (hw : Waiting rs hadLock i st) : Waiting rs hadLock (i + 1) st' := by
  cases h with
  | goesDvbs2 hs2 => exact hw.dvbs2 hs2
  | goesDvbs hs hopen => exact hw.dvbs hs hopen

theorem nonBlindPass_ends (rs : ℕ → PassReadings) (i : ℕ) (s : State × Bool) :
    (nonBlindPass rs i s).2 = nonBlindLeaves rs i ∧
      PassEnds rs i s.1.detectedDeliverySystem s.1 (nonBlindPass rs i s).1.1 (nonBlindPass rs i s).2 ∧
      ∀ sys, (nonBlindPass rs i s).2 = some (.locked sys) →
        (nonBlindPass rs i s).1.2 = decide (sys = .dvbs2) := by
  have hflag : (dvbsFlags (rs i) s.1).hasLock = (rs i).dvbsLocked := rfl
  rw [nonBlindPass, nonBlindLeaves]
  cases hstop : stopsAt rs i with
  | true => exact ⟨rfl, .stays .stopped rfl, nofun⟩
  | false =>
    cases hs2 : (rs i).isDvbs2 with
    | true =>
      by_cases hfull : (rs i).reg0d = 0x8f
      · simp only [hfull, if_true]
        exact ⟨rfl, .locksDvbs2, fun sys hsys => by cases hsys; rfl⟩
      · simp only [hfull, if_false]
        exact ⟨rfl, .goesDvbs2 hs2, nofun⟩
    | false =>
      simp only [Bool.false_eq_true, if_false]
      by_cases hlocked : (rs i).dvbsLocked = true
      · rw [if_pos (hflag.trans hlocked), if_pos hlocked]
        exact ⟨rfl, .locksDvbs hlocked, fun sys hsys => by cases hsys; rfl⟩
      · rw [if_neg fun hlock => hlocked (hflag.symm.trans hlock), if_neg hlocked]
        exact ⟨rfl, .goesDvbs hs2 (Bool.eq_false_iff.mpr hlocked), nofun⟩

theorem blindPass_ends (rs : ℕ → PassReadings) (i : ℕ) (st : State) :
    (blindPass rs i (st, plsSeen rs i)).2 = blindLeaves rs i ∧
      PassEnds rs i .dvbs st (blindPass rs i (st, plsSeen rs i)).1.1
        (blindPass rs i (st, plsSeen rs i)).2 ∧
      (blindLeaves rs i = none → (blindPass rs i (st, plsSeen rs i)).1.2 = plsSeen rs (i + 1)) := by
  have hflag : (dvbsFlags (rs i) st).hasLock = (rs i).dvbsLocked := rfl
  have hmis : (dvbs2Flags (rs i) st).isMis = detectMis (rs i) := rfl
  have hseen : (plsSeen rs i || (rs i).plsReady) = plsSeen rs (i + 1) := rfl
  rw [blindPass, blindLeaves]
  cases hstop : stopsAt rs i with
  | true => exact ⟨rfl, .stays .stopped rfl, nofun⟩
  | false =>
    by_cases hpls : ¬ plsSeen rs i = true ∧ (rs i).plsReady = true ∧ ¬ findPls (rs i) = true
    · simp only [hpls]
      exact ⟨rfl, .stays .noPls rfl, nofun⟩
    · simp only [hpls, if_false, hmis, hseen]
      cases hs2 : (rs i).isDvbs2 with
      | true =>
        by_cases hwait : detectMis (rs i) = true ∧ ¬ plsSeen rs (i + 1) = true ∧
            (rs i).reg0d &&& 0x0f = 0x0f
        · simp only [hwait, if_true]
          exact ⟨rfl, .goesDvbs2 hs2, fun _ => rfl⟩
        · simp only [hwait, if_false]
          by_cases hfull : (rs i).reg0d = 0x8f
          · simp only [hfull, if_true]
            exact ⟨rfl, .locksDvbs2, fun _ => rfl⟩
          · simp only [hfull, if_false]
            exact ⟨rfl, .goesDvbs2 hs2, fun _ => rfl⟩
      | false =>
        simp only [Bool.false_eq_true, if_false]
        by_cases hlocked : (rs i).dvbsLocked = true
        · rw [if_pos (hflag.trans hlocked), if_pos hlocked]
          exact ⟨rfl, .locksDvbs hlocked, fun _ => rfl⟩
        · rw [if_neg fun hlock => hlocked (hflag.symm.trans hlock), if_neg hlocked]
          exact ⟨rfl, .goesDvbs hs2 (Bool.eq_false_iff.mpr hlocked), fun _ => rfl⟩

/-! ### When a wait ends with what it has seen -/

/-- The lock and the system of the state are those that were seen. -/
def LeftRight (out : State × Left) : Prop :=
  out.1.hasLock = out.2.seen.isSome ∧ out.1.detectedDeliverySystem = out.2.seen.getD .undefined

/-- A wait that is not blind takes the lock from before for its own, and of a DVB-S2 lock only that. -/
def NonBlindSound (rs : ℕ → PassReadings) (hadLock : Bool) : ℕ × Left → Prop
  | (k, .locked .dvbs2) => Stale rs hadLock k
  | (_, .locked _) => True
  | (k, _) => ¬ Stale rs hadLock k

/-- A blind wait is left as it is where a code cannot be found. -/
def BlindSound (rs : ℕ → PassReadings) (hadLock : Bool) : ℕ × Left → Prop
  | (k, .noPls) => ¬ Stale rs hadLock k ∧ ∀ j < k, (rs j).isDvbs2 = false
  | _ => True

/-- Without a lock of its own a wait is right if and only if there is none left from before. -/
theorem unlocked_right_iff {left : Left} (hseen : left.seen = none) {P : Prop}
    (hlock : st.hasLock = true ↔ P)
    (hsystem : st.hasLock = false → st.detectedDeliverySystem = .undefined) :
    LeftRight (st, left) ↔ ¬ P := by
  rw [← hlock, Bool.not_eq_true]
  constructor
  · rintro ⟨hno, -⟩
    rw [hseen] at hno
    exact hno
  · intro hno
    refine ⟨?_, ?_⟩
    · rw [hseen]
      exact hno
    · rw [hseen]
      exact hsystem hno

theorem waitNonBlind_spec {hadLock : Bool} (h : Waiting rs hadLock 0 st) :
    (waitNonBlind rs st).1.demodLocked = (waitNonBlind rs st).2.seen.isSome ∧
      (LeftRight (waitNonBlind rs st) ↔
        NonBlindSound rs hadLock (leaveAt (nonBlindLeaves rs) .timedOut 150 0)) := by
  obtain ⟨⟨st', is2⟩, hpoll, hend⟩ := poll_rule (nonBlindPass rs) (nonBlindLeaves rs) .timedOut
    (fun i s => Waiting rs hadLock i s.1) 150 (s := (st, false)) h (by
      intro j s _ hs
      obtain ⟨hleave, hends, -⟩ := nonBlindPass_ends rs j s
      exact ⟨hleave, fun hnone => (hleave.trans hnone ▸ hends).waiting hs⟩)
  generalize leaveAt (nonBlindLeaves rs) .timedOut 150 0 = out at hpoll hend ⊢
  obtain ⟨i, left⟩ := out
  rw [waitNonBlind, hpoll]
  dsimp only at hend ⊢
  -- a wait that has seen nothing leaves the flag as it was
  have hunseen : Waiting rs hadLock i st' → left.seen = none → st'.demodLocked = left.seen.isSome ∧
      (LeftRight ({ st' with
          hasTimedout := i = 150
          detectedDeliverySystem := if st'.hasLock then if is2 then .dvbs2 else .dvbs else .undefined },
        left) ↔ ¬ Stale rs hadLock i) := fun hinv hseen =>
    ⟨hinv.demodLocked.trans (by rw [hseen]; rfl), unlocked_right_iff hseen hinv.lock fun hno => by
      dsimp only at hno ⊢
      rw [hno]
      rfl⟩
  rcases hend with ⟨rfl, rfl, hinv⟩ | ⟨k, s₀, -, rfl, hinv, heq⟩
  · exact hunseen hinv rfl
  · obtain ⟨-, hends, hsys⟩ := nonBlindPass_ends rs i s₀
    rw [heq] at hends hsys
    dsimp only at hends hsys
    cases left with
    | locked sys =>
      rw [hsys sys rfl]
      cases hends with
      | stays left hseen => cases hseen
      | locksDvbs2 =>
        refine ⟨rfl, fun hright => hinv.lock.mp hright.1, fun hstale => ?_⟩
        exact ⟨hinv.lock.mpr hstale, if_pos (hinv.lock.mpr hstale)⟩
      | locksDvbs hlocked => exact ⟨rfl, iff_of_true ⟨hlocked, if_pos hlocked⟩ trivial⟩
    | _ =>
      cases hends
      exact hunseen hinv rfl

theorem waitBlind_spec {hadLock : Bool} (h : Waiting rs hadLock 0 st) :
    (waitBlind rs st).1.demodLocked = (waitBlind rs st).2.seen.isSome ∧
      (LeftRight (waitBlind rs st) ↔
        BlindSound rs hadLock (leaveAt (blindLeaves rs) .timedOut 150 0)) := by
  obtain ⟨⟨st', plsLock⟩, hpoll, hend⟩ := poll_rule (blindPass rs) (blindLeaves rs) .timedOut
    (fun i s => Waiting rs hadLock i s.1 ∧ s.2 = plsSeen rs i) 150 (s := (st, false)) ⟨h, rfl⟩ (by
      rintro j ⟨s, _⟩ _ ⟨hs, rfl⟩
      obtain ⟨hleave, hends, hseen⟩ := blindPass_ends rs j s
      exact ⟨hleave, fun hnone => ⟨(hleave.trans hnone ▸ hends).waiting hs, hseen hnone⟩⟩)
  generalize leaveAt (blindLeaves rs) .timedOut 150 0 = out at hpoll hend ⊢
  obtain ⟨i, left⟩ := out
  rw [waitBlind, hpoll]
  dsimp only at hend ⊢
  rcases hend with ⟨rfl, rfl, hinv, -⟩ | ⟨k, ⟨s₀, _⟩, -, rfl, ⟨hinv, rfl⟩, heq⟩
  · have hopen := hinv.demodLocked
    exact ⟨hopen, iff_of_true ⟨hopen, if_neg (Bool.eq_false_iff.mp hopen)⟩ trivial⟩
  · obtain ⟨-, hends, -⟩ := blindPass_ends rs i s₀
    rw [heq] at hends
    dsimp only at hends
    have hopen := hinv.demodLocked
    cases left with
    | locked sys =>
      cases hends with
      | stays left hseen => cases hseen
      | locksDvbs2 => exact ⟨rfl, iff_of_true ⟨rfl, rfl⟩ trivial⟩
      | locksDvbs => exact ⟨rfl, iff_of_true ⟨rfl, rfl⟩ trivial⟩
    | noPls =>
      cases hends
      refine ⟨hopen, ?_⟩
      rw [BlindSound, ← hinv.lock, ← hinv.system, Bool.not_eq_true]
      exact Iff.rfl
    | _ =>
      cases hends
      exact ⟨hopen, iff_of_true ⟨hopen, if_neg (Bool.eq_false_iff.mp hopen)⟩ trivial⟩

/-! ### When a tune ends with what it has seen -/

theorem clearTuneState_waiting (st : State) (rs : ℕ → PassReadings) :
    Waiting rs st.hasLock 0
      { clearTuneState st with demodLocked := false, hasTimedout := false } := by
  refine ⟨rfl, ?_, iff_of_true rfl fun j hj => absurd hj (Nat.not_lt_zero j)⟩
  exact (and_iff_left fun j hj => absurd hj (Nat.not_lt_zero j)).symm

/-- Where and why the wait of the tune is left. -/
def Tune.leaving (t : Tune) : ℕ × Left :=
  leaveAt (if t.blind then blindLeaves t.readings else nonBlindLeaves t.readings) .timedOut 150 0

/-- There is no lock from before that the tune takes for its own, and no lock of its own that it misses. -/
def Tune.Sound (t : Tune) (hadLock : Bool) : Prop :=
  if t.fails then hadLock = false
  else if t.blind then BlindSound t.readings hadLock t.leaving
  else NonBlindSound t.readings hadLock t.leaving

/-- After any tunes a tune ends with the lock and the system it has seen if and only if no lock from
    before comes in between. -/
theorem tuneOnce_right_iff (st : State) (earlier : List Tune) (t : Tune) :
    Right t (runTunes st earlier) ↔ t.Sound (runTunes st earlier).hasLock := by
  generalize runTunes st earlier = st
  have hwaiting := clearTuneState_waiting st t.readings
  have hright : Right t st ↔ (tuneOnce t st).1.hasLock = (seenLocked t st).isSome ∧
      (tuneOnce t st).1.detectedDeliverySystem = (seenLocked t st).getD .undefined :=
    ⟨fun h => ⟨h.lock, h.system⟩, fun h => ⟨h.1, h.2⟩⟩
  rw [hright, seenLocked, tuneOnce, Tune.Sound, Tune.leaving]
  cases hfails : t.fails with
  | true => exact and_iff_left rfl
  | false =>
    cases hblind : t.blind with
    | true =>
      simp only [Tune.wait, hblind, if_true, if_false, Bool.false_eq_true, Option.bind_some]
      exact (waitBlind_spec hwaiting).2
    | false =>
      simp only [Tune.wait, hblind, if_false, Bool.false_eq_true, Option.bind_some]
      exact (waitNonBlind_spec hwaiting).2

/-- A DVB-S2 signal with all its lock bits. -/
def fullDvbs2 : PassReadings where
  stop := false
  reg08 := 0x08
  reg0d := 0x8f
  regd1 := 0
  rege8 _ := 0
  rege9 := 0
  regbe := 0
  reg24 _ := 0

/-- The state as it is allocated. -/
def freshState : State :=
  ⟨.undefined, false, false, false, false, false, false, false, false, false, false⟩

/-- The first tune of all sees a DVB-S2 signal locked at once, and ends without a lock. -/
theorem dvbs2_lock_missed :
    ¬ Right ⟨false, false, false, false, false, fun _ => fullDvbs2⟩ (runTunes freshState []) := by
  rintro ⟨hlock, -⟩
  exact absurd hlock (by decide)

end M88rs.TuneLock

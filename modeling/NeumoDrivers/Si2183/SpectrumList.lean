import Mathlib
import NeumoDrivers.Lib.Buffers

/-! Taking a spectrum with the si2183 (`si2183_spectrum_start` of `si2183_blindscan.c`).

    The firmware asks for a band to be tuned to, and reports another time that there are samples of the
    band to be read. What is read is kept where it lies in a window around the frequency that was tuned to
    last. The events of the firmware can come in any order (`Pass`). Frequencies are in kHz. -/

namespace Si2183
open Buffers

/-- `Si2183_SCAN_STATUS_RESPONSE_SCAN_STATUS`. -/
inductive ScanStatus where
  | idle | searching | ended | error | tuneRequest | digitalChannelFound | analogChannelFound | debug
  | unknown

/-- What is read of a band: how many words the chip says there are, the words, and before which of them
    the scan is to stop. -/
structure BandReadings where
  nbWord : Int32
  dcomRead : ℕ → Int32
  stop : ℕ → Bool

/-- What a pass of the search loop meets: a stop, an interaction of the firmware, a stop while the chip
    is busy, the status and its frequency, the readings of a band, a stop after that, and whether the
    action fails. -/
structure Pass where
  stop : Bool
  scanint : Bool
  stopBusy : Bool
  status : ScanStatus
  rfFreq : Int32
  band : BandReadings
  stopWait : Bool
  actionFails : Bool

/-- What is asked for, and the frequency that was tuned to last. -/
structure Request where
  scanStartFrequency : Int32
  scanEndFrequency : Int32
  frequency : UInt32

/-- What comes from outside: whether the tuner can be tuned, how much memory there is, for each
    allocation, of which none can be of 2 ^ 63 bytes; whether the scan gets to its search loop, and what
    each pass of that meets. -/
structure Env where
  tunerOps : Bool
  kzalloc : ℕ → UInt64 → Bool
  memory : ∀ i n, 2 ^ 63 ≤ n.toNat → kzalloc i n = false
  started : Bool
  pass : ℕ → Pass

/-- The fields of `ss` and of `p` that change, and `start_frequency`; a null pointer is an array without
    cells. -/
structure Scan where
  freq : Buffer Int32
  spectrum : Buffer Int32
  spectrumLen : Int32
  spectrumMaxLen : Int32
  startFrequency : UInt32
  frequency : UInt32

/-! ### Before the search -/

/-- `num_freq` -/
def numFreq (p : Request) (resolution : UInt32) : UInt32 :=
  ((p.scanEndFrequency - p.scanStartFrequency).toUInt32 + resolution - 1) / resolution

/-- What `kzalloc` returns for `len` cells. -/
def newArray (len : Int32) (success : Bool) : Buffer Int32 :=
  ⟨if success then len.toInt.toNat else 0, fun _ => 0⟩

def arrayBytes (len : Int32) : UInt64 := len.toInt64.toUInt64 * 4

/-- The state that `si2183_spectrum_start` sets up itself, for a resolution of 104 kHz. -/
def entry (p : Request) : Scan where
  freq := newArray 0 true
  spectrum := newArray 0 true
  spectrumLen := 0
  spectrumMaxLen := (numFreq p 104).toInt32
  startFrequency := p.scanStartFrequency.toUInt32
  frequency := p.frequency

/-- `si2183_spectrum_init`, for a resolution of 52 kHz. Its error is not heeded. -/
def spectrumInit (env : Env) (p : Request) (st : Scan) : Scan :=
  let len := (numFreq p 52).toInt32
  let freqOk := env.kzalloc 4 (arrayBytes len)
  let spectrumOk := env.kzalloc 5 (arrayBytes len)
  { st with
    freq := newArray len freqOk
    spectrum := newArray len spectrumOk
    spectrumLen := if freqOk ∧ spectrumOk then 0 else len
    spectrumMaxLen := len }

/-! ### A band -/

/-- The loop over the words of a band, `n` of which are left. -/
def readWords (r : BandReadings) (maxFftSize : ℕ) (tunedFreq : Int32) :
    ℕ → ℕ → Int32 → List (UInt32 × Int32) → List (UInt32 × Int32)
  | 0, _, _, out => out
  | n + 1, w, currentRF, out =>
    if w % 20 = 19 ∧ r.stop w then out
    else
      let out :=
        if w < r.nbWord.toInt ∧ out.length < maxFftSize then
          out ++ [((currentRF / 1000 + tunedFreq).toUInt32, r.dcomRead w / 0x6400 - 26605)]
        else out
      readWords r maxFftSize tunedFreq n (w + 1) (currentRF + 104100) out

/-- The frequency of the first word of a band. -/
def bandStart (tunedFreq nbWord : Int32) : Int32 := tunedFreq - nbWord * 104100 / 2000

/-- `si2183_get_spectrum_scan_fft_one_band` -/
def oneBand (r : BandReadings) (maxFftSize : ℕ) (tunedFreq : Int32) : List (UInt32 × Int32) :=
  readWords r maxFftSize (bandStart tunedFreq r.nbWord) 579 0 0 []

/-- A sample at the end of the spectrum, if there is room for it. -/
def Scan.append (st : Scan) (x : UInt32 × Int32) : Option Scan :=
  if st.spectrumLen < st.spectrumMaxLen then do
    let freq ← st.freq.write st.spectrumLen.toInt x.1.toInt32
    let spectrum ← st.spectrum.write st.spectrumLen.toInt x.2
    some { st with freq, spectrum, spectrumLen := st.spectrumLen + 1 }
  else some st

/-- The loop over the samples of a band. -/
def takeSamples : List (UInt32 × Int32) → Scan → Option Scan
  | [], st => some st
  | x :: xs, st =>
    if st.frequency + 25000 ≤ x.1 then some st
    else if x.1 < st.frequency - 25000 then takeSamples xs st
    else (st.append x).bind (takeSamples xs)

/-- Where the next band starts. -/
def nextStart (st : Scan) : Option UInt32 :=
  if 1 ≤ st.spectrumLen then
    (st.freq.read (st.spectrumLen.toInt - 1)).map fun f => f.toUInt32 + 104
  else some (st.startFrequency + 50000)

/-- The samples that the firmware reports are taken over. -/
def takeBand (r : BandReadings) (st : Scan) : Option Scan := do
  let st ← takeSamples (oneBand r 1024 st.frequency.toInt32) st
  let startFrequency ← nextStart st
  some { st with startFrequency }

/-! ### The search -/

/-- How a pass ends: with the next one, or with the call. -/
inductive Outcome where
  | again (st : Scan)
  | exit (st : Scan)

/-- One pass of the search loop. -/
def searchPass (endFrequency : UInt32) (r : Pass) (st : Scan) : Option Outcome :=
  if ¬ (st.spectrumLen < st.spectrumMaxLen ∧ st.startFrequency < endFrequency) then some (.exit st)
  else if r.stop then some (.exit st)
  else if ¬ r.scanint then some (.again st)
  else if r.stopBusy then some (.exit st)
  else
    match r.status with
    | .tuneRequest =>
      let st := { st with frequency := st.startFrequency + 25000 }
      some (if r.actionFails then .exit st else .again st)
    | .digitalChannelFound => some (.exit { st with frequency := r.rfFreq.toUInt32 })
    | .error | .ended => some (.exit st)
    | .debug => (takeBand r.band st).map fun st =>
        if r.stopWait ∨ r.actionFails then .exit st else .again st
    | .searching | .idle | .analogChannelFound | .unknown => some (.again st)

/-- The scan has the memory it asks for itself and gets to `si2183_spectrum_init`. -/
def Env.Accepts (env : Env) : Prop :=
  env.tunerOps ∧ env.kzalloc 0 0 ∧ env.kzalloc 1 0 ∧ env.kzalloc 2 4096 ∧ env.kzalloc 3 4096

instance (env : Env) : Decidable env.Accepts := inferInstanceAs (Decidable (_ ∧ _))

/-- The state in which pass `n` begins, if the scan gets that far. -/
def stateAt (env : Env) (p : Request) : ℕ → Option Scan
  | 0 => if env.Accepts ∧ env.started then some (spectrumInit env p (entry p)) else none
  | n + 1 =>
    (stateAt env p n).bind fun st =>
      match searchPass p.scanEndFrequency.toUInt32 (env.pass n) st with
      | some (.again st) => some st
      | _ => none

/-! ### What is read of a band -/

/-- The scan is not to stop before word `w`; that is looked at before each twentieth. -/
def BandReadings.goesOn (r : BandReadings) (w : ℕ) : Bool := decide ¬ (w % 20 = 19 ∧ r.stop w = true)

/-- How many words of a band are read. -/
def wordsRead (r : BandReadings) : ℕ :=
  min r.nbWord.toInt.toNat ((List.range 579).takeWhile r.goesOn).length

/-- How far the frequency of word `w` is from that of the first. -/
def wordOffset (w : ℕ) : ℕ := 104100 * w / 1000

/-- Word `w` of a band, as a sample. -/
def sample (r : BandReadings) (tunedFreq : Int32) (w : ℕ) : UInt32 × Int32 :=
  ((Int32.ofNat (wordOffset w) + bandStart tunedFreq r.nbWord).toUInt32, r.dcomRead w / 0x6400 - 26605)

theorem offset_div {w : ℕ} (h : w < 579) :
    Int32.ofNat (104100 * w) / 1000 = Int32.ofNat (wordOffset w) := by
  have hlarge : (Int32.ofNat (104100 * w)).toInt = (104100 * w : ℕ) :=
    Int32.toInt_ofNat_of_lt (by omega)
  have hsmall : (Int32.ofNat (wordOffset w)).toInt = wordOffset w :=
    Int32.toInt_ofNat_of_lt (by rw [wordOffset]; omega)
  rw [← Int32.toInt_inj, Int32.toInt_div_of_ne_right _ _ (by decide), hlarge, hsmall,
    show (1000 : Int32).toInt = (1000 : ℕ) from rfl, ← Int.ofNat_tdiv, wordOffset]

theorem filter_range_lt (m n : ℕ) : (List.range n).filter (· < m) = List.range (min m n) := by
  induction n with
  | zero => rw [Nat.min_zero]; rfl
  | succ n ih =>
    rw [List.range_succ, List.filter_append, ih, List.filter_singleton]
    by_cases hn : n < m
    · rw [decide_eq_true hn, cond_true, Nat.min_eq_right (by omega), Nat.min_eq_right (by omega),
        List.range_succ]
    · rw [decide_eq_false hn, cond_false, List.append_nil, Nat.min_eq_left (by omega),
        Nat.min_eq_left (by omega)]

theorem takeWhile_range (q : ℕ → Bool) (n : ℕ) :
    (List.range n).takeWhile q = List.range ((List.range n).takeWhile q).length := by
  have hprefix := List.prefix_iff_eq_take.mp (List.takeWhile_prefix (l := List.range n) q)
  have hle := (List.takeWhile_prefix (l := List.range n) q).length_le
  rw [List.length_range] at hle
  rw [List.take_range, Nat.min_eq_left hle] at hprefix
  exact hprefix

/-- The words from `w` on, as long as nothing is to stop. -/
theorem readWords_eq (r : BandReadings) (tunedFreq : Int32) : ∀ {n w : ℕ} (out : List (UInt32 × Int32)),
    w + n ≤ 579 → out.length ≤ w →
      readWords r 1024 (bandStart tunedFreq r.nbWord) n w (Int32.ofNat (104100 * w)) out =
        out ++ (((List.range' w n).takeWhile r.goesOn).filter
          (· < r.nbWord.toInt.toNat)).map (sample r tunedFreq)
  | 0, w, out, _, _ => by
    rw [readWords, List.range'_zero, List.takeWhile_nil, List.filter_nil, List.map_nil, List.append_nil]
  | n + 1, w, out, hn, hout => by
    rw [readWords, List.range'_succ]
    by_cases hstop : w % 20 = 19 ∧ r.stop w = true
    · have hgo : ¬ r.goesOn w = true := by
        rw [BandReadings.goesOn, decide_eq_true_iff]
        exact not_not.mpr hstop
      rw [if_pos hstop, List.takeWhile_cons_of_neg hgo, List.filter_nil, List.map_nil, List.append_nil]
    · have hgo : r.goesOn w = true := decide_eq_true hstop
      have hnext : Int32.ofNat (104100 * w) + 104100 = Int32.ofNat (104100 * (w + 1)) := by
        rw [Nat.mul_add, Int32.ofNat_add]
        rfl
      rw [if_neg hstop, List.takeWhile_cons_of_pos hgo, offset_div (by omega), hnext]
      by_cases hw : w < r.nbWord.toInt.toNat
      · rw [if_pos ⟨by omega, by omega⟩, readWords_eq r tunedFreq _ (by omega)
          (by rw [List.length_append, List.length_singleton]; omega),
          List.filter_cons, if_pos (decide_eq_true hw), List.map_cons, List.append_assoc]
        rfl
      · rw [if_neg (by omega), readWords_eq r tunedFreq _ (by omega) (by omega),
          List.filter_cons, if_neg (by rw [decide_eq_true_iff]; exact hw)]

theorem oneBand_eq (r : BandReadings) (tunedFreq : Int32) :
    oneBand r 1024 tunedFreq = (List.range (wordsRead r)).map (sample r tunedFreq) := by
  rw [oneBand, wordsRead]
  have hread := readWords_eq r tunedFreq (n := 579) (w := 0) [] (by decide) (by decide)
  rw [Nat.mul_zero, List.nil_append, ← List.range_eq_range', takeWhile_range, filter_range_lt] at hread
  exact hread

/-! ### What is taken over -/

variable {st : Scan} {r : BandReadings}

/-- The frequencies accumulated so far. -/
def Scan.freqs (st : Scan) : List ℤ :=
  (List.range st.spectrumLen.toInt.toNat).map fun k : ℕ => (st.freq.cell k).toInt

/-- The limit is one of the arrays. -/
structure Scan.Roomy (st : Scan) : Prop where
  nonneg : 0 ≤ st.spectrumLen.toInt
  le : st.spectrumLen.toInt ≤ st.spectrumMaxLen.toInt
  freq : st.spectrumMaxLen.toInt ≤ st.freq.size
  spectrum : st.spectrumMaxLen.toInt ≤ st.spectrum.size

/-- How many more samples there is room for. -/
def Scan.room (st : Scan) : ℕ := (st.spectrumMaxLen.toInt - st.spectrumLen.toInt).toNat

/-- What has become of `st`: the frequencies `new` were appended. -/
structure Scan.Grows (st : Scan) (new : List ℤ) (st' : Scan) : Prop where
  roomy : st'.Roomy
  freqs : st'.freqs = st.freqs ++ new
  frequency : st'.frequency = st.frequency
  room : st'.room + new.length = st.room

theorem Scan.Roomy.grows_nil (h : st.Roomy) : st.Grows [] st :=
  ⟨h, (List.append_nil _).symm, rfl, rfl⟩

theorem Scan.Grows.trans {new new' : List ℤ} {st' st'' : Scan} (h : st.Grows new st')
    (h' : st'.Grows new' st'') : st.Grows (new ++ new') st'' := by
  refine ⟨h'.roomy, ?_, h'.frequency.trans h.frequency, ?_⟩
  · rw [h'.freqs, h.freqs, List.append_assoc]
  · have h1 := h.room
    have h2 := h'.room
    rw [List.length_append]
    omega

theorem Scan.append_full (h : st.Roomy) (hroom : st.room = 0) (x : UInt32 × Int32) :
    st.append x = some st := by
  have hle := h.le
  refine if_neg fun hlt => ?_
  have := Int32.lt_iff_toInt_lt.mp hlt
  rw [Scan.room] at hroom
  omega

theorem Scan.append_room (h : st.Roomy) (hroom : 0 < st.room) (x : UInt32 × Int32) :
    ∃ st', st.append x = some st' ∧ st.Grows [x.1.toInt32.toInt] st' := by
  have hnonneg := h.nonneg
  have hfreq := h.freq
  have hspectrum := h.spectrum
  have hmax := Int32.toInt_lt st.spectrumMaxLen
  rw [Scan.room] at hroom
  have hlt : st.spectrumLen.toInt < st.spectrumMaxLen.toInt := by omega
  have hlen : (st.spectrumLen + 1).toInt = st.spectrumLen.toInt + 1 := by
    rw [Int32.toInt_add]
    exact Int.bmod_eq_of_le (by rw [show (1 : Int32).toInt = 1 from rfl]; omega)
      (by rw [show (1 : Int32).toInt = 1 from rfl]; omega)
  rw [Scan.append, if_pos (Int32.lt_iff_toInt_lt.mpr hlt),
    Buffer.write_inside ⟨by omega, by omega⟩, Buffer.write_inside ⟨by omega, by omega⟩]
  refine ⟨_, rfl, ⟨?_, ?_, h.freq, h.spectrum⟩, ?_, rfl, ?_⟩
  · dsimp only
    omega
  · dsimp only
    omega
  · have hnat : (st.spectrumLen.toInt + 1).toNat = st.spectrumLen.toInt.toNat + 1 := by omega
    have hcast : ((st.spectrumLen.toInt.toNat : ℕ) : ℤ) = st.spectrumLen.toInt := by omega
    simp only [Scan.freqs]
    rw [hlen, hnat, List.range_succ, List.map_append, List.map_singleton, hcast,
      Function.update_self]
    congr 1
    refine List.map_congr_left fun k hk => ?_
    have := List.mem_range.mp hk
    rw [Function.update_of_ne (by omega)]
  · simp only [Scan.room, List.length_singleton]
    omega

/-- The samples around `frequency`, up to the first one above. -/
def window (frequency : UInt32) (xs : List (UInt32 × Int32)) : List (UInt32 × Int32) :=
  (xs.takeWhile fun x => decide (x.1 < frequency + 25000)).filter fun x => frequency - 25000 ≤ x.1

theorem takeSamples_spec : ∀ (xs : List (UInt32 × Int32)) {st : Scan}, st.Roomy →
    ∃ st', takeSamples xs st = some st' ∧
      st.Grows (((window st.frequency xs).take st.room).map fun x => x.1.toInt32.toInt) st'
  | [], st, h => by
    rw [window, List.takeWhile_nil, List.filter_nil, List.take_nil, List.map_nil]
    exact ⟨st, rfl, h.grows_nil⟩
  | x :: xs, st, h => by
    rw [takeSamples, window]
    by_cases habove : st.frequency + 25000 ≤ x.1
    · rw [if_pos habove, List.takeWhile_cons_of_neg (by simpa using habove), List.filter_nil,
        List.take_nil, List.map_nil]
      exact ⟨st, rfl, h.grows_nil⟩
    · rw [if_neg habove, List.takeWhile_cons_of_pos (by simpa using habove)]
      by_cases hbelow : x.1 < st.frequency - 25000
      · rw [if_pos hbelow, List.filter_cons, if_neg (by simpa using hbelow)]
        exact takeSamples_spec xs h
      · rw [if_neg hbelow, List.filter_cons, if_pos (by simpa using hbelow)]
        rcases Nat.eq_zero_or_pos st.room with hroom | hroom
        · obtain ⟨st', htake, hgrows⟩ := takeSamples_spec xs h
          rw [hroom, List.take_zero, List.map_nil] at hgrows
          rw [Scan.append_full h hroom, hroom, List.take_zero, List.map_nil]
          exact ⟨st', htake, hgrows⟩
        · obtain ⟨st', happend, hgrows⟩ := Scan.append_room h hroom x
          obtain ⟨st'', htake, hgrows'⟩ := takeSamples_spec xs hgrows.roomy
          have hleft := hgrows.room
          rw [List.length_singleton] at hleft
          rw [← hleft, List.take_succ_cons, List.map_cons, happend]
          refine ⟨st'', htake, ?_⟩
          rw [hgrows.frequency] at hgrows'
          exact hgrows.trans hgrows'

/-- The words of a band that are taken over. -/
def takenWords (st : Scan) (r : BandReadings) : List ℕ :=
  let word w := (sample r st.frequency.toInt32 w).1
  (((List.range (wordsRead r)).takeWhile fun w => decide (word w < st.frequency + 25000)).filter
    fun w => st.frequency - 25000 ≤ word w).take st.room

/-- The frequency of word `w` of a band, as it is kept. -/
def wordFreq (st : Scan) (r : BandReadings) (w : ℕ) : ℤ :=
  (sample r st.frequency.toInt32 w).1.toInt32.toInt

theorem takenWords_eq (st : Scan) (r : BandReadings) :
    ((window st.frequency (oneBand r 1024 st.frequency.toInt32)).take st.room).map
      (fun x => x.1.toInt32.toInt) = (takenWords st r).map (wordFreq st r) := by
  rw [oneBand_eq, window, List.takeWhile_map, List.filter_map, ← List.map_take, List.map_map]
  simp only [takenWords, Function.comp_def]
  exact List.map_congr_left fun w _ => rfl

theorem nextStart_some (h : st.Roomy) : ∃ f, nextStart st = some f := by
  have hle := h.le
  have hfreq := h.freq
  rw [nextStart]
  by_cases hlen : 1 ≤ st.spectrumLen
  · have := Int32.le_iff_toInt_le.mp hlen
    rw [show (1 : Int32).toInt = 1 from rfl] at this
    rw [if_pos hlen, Buffer.read_inside ⟨by omega, by omega⟩]
    exact ⟨_, rfl⟩
  · rw [if_neg hlen]
    exact ⟨_, rfl⟩

theorem takeBand_spec (h : st.Roomy) (r : BandReadings) :
    ∃ st', takeBand r st = some st' ∧ st.Grows ((takenWords st r).map (wordFreq st r)) st' := by
  obtain ⟨st', htake, hgrows⟩ := takeSamples_spec (oneBand r 1024 st.frequency.toInt32) h
  obtain ⟨f, hf⟩ := nextStart_some hgrows.roomy
  rw [takenWords_eq] at hgrows
  refine ⟨{ st' with startFrequency := f }, ?_, ⟨⟨hgrows.roomy.nonneg, hgrows.roomy.le,
    hgrows.roomy.freq, hgrows.roomy.spectrum⟩, hgrows.freqs, hgrows.frequency, hgrows.room⟩⟩
  rw [takeBand, htake]
  simp only [Option.bind_eq_bind, Option.bind_some, hf]

/-! ### When the frequencies rise -/

/-- The first word that is taken over is above the last frequency, and the frequencies of all that are
    taken over are on one side of the largest number of 32 bits. -/
structure Fresh (st : Scan) (r : BandReadings) : Prop where
  above : ∀ last ∈ st.freqs.getLast?, ∀ w ∈ (takenWords st r).head?, last < wordFreq st r w
  oneSide : ∀ v ∈ takenWords st r, ∀ w ∈ takenWords st r,
    (bandStart st.frequency.toInt32 r.nbWord).toInt + wordOffset v < 2 ^ 31 →
      (bandStart st.frequency.toInt32 r.nbWord).toInt + wordOffset w < 2 ^ 31

theorem takenWords_lt {w : ℕ} (h : w ∈ takenWords st r) : w < 579 := by
  have hread := List.mem_range.mp
    ((List.takeWhile_sublist _).subset (List.mem_of_mem_filter (List.mem_of_mem_take h)))
  have hle := (List.takeWhile_prefix (l := List.range 579) r.goesOn).length_le
  rw [List.length_range] at hle
  rw [wordsRead] at hread
  omega

theorem takenWords_rising (st : Scan) (r : BandReadings) : (takenWords st r).Pairwise (· < ·) :=
  List.Pairwise.sublist ((List.take_sublist _ _).trans (List.filter_sublist.trans
    (List.takeWhile_sublist _))) List.pairwise_lt_range

theorem wordFreq_cases (st : Scan) (r : BandReadings) {w : ℕ} (hw : w < 579) :
    let y := (bandStart st.frequency.toInt32 r.nbWord).toInt + wordOffset w
    y < 2 ^ 31 ∧ wordFreq st r w = y ∨ 2 ^ 31 ≤ y ∧ wordFreq st r w = y - 2 ^ 32 := by
  intro y
  have hle := Int32.le_toInt (bandStart st.frequency.toInt32 r.nbWord)
  have hlt := Int32.toInt_lt (bandStart st.frequency.toInt32 r.nbWord)
  have hoff : wordOffset w < 60170 := by
    rw [wordOffset]
    omega
  have hval : wordFreq st r w = y.bmod (2 ^ 32) := by
    rw [wordFreq, sample, Int32.toInt32_toUInt32, Int32.toInt_add, Int32.toInt_ofNat_of_lt (by omega),
      Int.add_comm]
  by_cases hy : y < 2 ^ 31
  · exact .inl ⟨hy, by rw [hval, Int.bmod_eq_of_le (by omega) (by omega)]⟩
  · refine .inr ⟨by omega, ?_⟩
    rw [hval, ← Int.sub_bmod_right, Int.bmod_eq_of_le (by omega) (by omega)]
    rfl

theorem wordOffset_lt {v w : ℕ} (h : v < w) : wordOffset v < wordOffset w := by
  rw [wordOffset, wordOffset]
  omega

/-- The words that are taken over rise, unless they wrap around between. -/
theorem taken_rising_iff : ((takenWords st r).map (wordFreq st r)).Pairwise (· < ·) ↔
    ∀ v ∈ takenWords st r, ∀ w ∈ takenWords st r,
      (bandStart st.frequency.toInt32 r.nbWord).toInt + wordOffset v < 2 ^ 31 →
        (bandStart st.frequency.toInt32 r.nbWord).toInt + wordOffset w < 2 ^ 31 := by
  rw [List.pairwise_map]
  constructor
  · intro h v hv w hw hbelow
    obtain ⟨i, hi, rfl⟩ := List.getElem_of_mem hv
    obtain ⟨j, hj, rfl⟩ := List.getElem_of_mem hw
    rcases Nat.lt_trichotomy i j with hij | rfl | hij
    · have hrise := List.pairwise_iff_getElem.mp h i j hi hj hij
      have hle := Int32.le_toInt (bandStart st.frequency.toInt32 r.nbWord)
      have hoff : wordOffset (takenWords st r)[j] < 60170 := by
        have := takenWords_lt hw
        rw [wordOffset]
        omega
      rcases wordFreq_cases st r (takenWords_lt hv) with ⟨h1, h2⟩ | ⟨h1, h2⟩
      · rcases wordFreq_cases st r (takenWords_lt hw) with ⟨h3, h4⟩ | ⟨h3, h4⟩
        · exact h3
        · omega
      · omega
    · exact hbelow
    · have := wordOffset_lt (List.pairwise_iff_getElem.mp (takenWords_rising st r) j i hj hi hij)
      omega
  · intro h
    refine (takenWords_rising st r).imp_of_mem fun {v w} hv hw hvw => ?_
    have hoff := wordOffset_lt hvw
    have hside := h v hv w hw
    rcases wordFreq_cases st r (takenWords_lt hv) with ⟨h1, h2⟩ | ⟨h1, h2⟩
    · rcases wordFreq_cases st r (takenWords_lt hw) with ⟨h3, h4⟩ | ⟨h3, h4⟩ <;> omega
    · rcases wordFreq_cases st r (takenWords_lt hw) with ⟨h3, h4⟩ | ⟨h3, h4⟩ <;> omega

theorem append_rising_iff (h : st.freqs.Pairwise (· < ·)) :
    (st.freqs ++ (takenWords st r).map (wordFreq st r)).Pairwise (· < ·) ↔ Fresh st r := by
  rw [← List.isChain_iff_pairwise, List.isChain_append, List.isChain_iff_pairwise,
    List.isChain_iff_pairwise, taken_rising_iff]
  constructor
  · rintro ⟨-, hside, hlast⟩
    refine ⟨fun last hl w hw => hlast last hl _ ?_, hside⟩
    rw [List.head?_map, Option.mem_def.mp hw]
    rfl
  · rintro ⟨hlast, hside⟩
    refine ⟨h, hside, fun last hl f hf => ?_⟩
    rw [List.head?_map] at hf
    obtain ⟨w, hw, rfl⟩ := Option.map_eq_some_iff.mp (Option.mem_def.mp hf)
    exact hlast last hl w hw

/-! ### The whole scan -/

variable {env : Env} {p : Request}

/-- The frequencies rise, and there are no more of them than the arrays have cells. -/
structure Scan.Good (st : Scan) : Prop where
  rising : st.freqs.Pairwise (· < ·)
  freqRoom : st.spectrumLen.toInt ≤ st.freq.size
  spectrumRoom : st.spectrumLen.toInt ≤ st.spectrum.size

/-- The pass takes samples over. -/
def Debugs (p : Request) (r : Pass) (st : Scan) : Prop :=
  (st.spectrumLen < st.spectrumMaxLen ∧ st.startFrequency < p.scanEndFrequency.toUInt32) ∧
    r.stop = false ∧ r.scanint = true ∧ r.stopBusy = false ∧ r.status = .debug

/-- The states of a scan: as it is set up, as `si2183_spectrum_init` leaves it, in the loop over the
    samples of a band after `k` of them, and after a pass. -/
inductive Point (env : Env) (p : Request) : Scan → Prop where
  | entry : Point env p (entry p)
  | init : env.Accepts → Point env p (spectrumInit env p (Si2183.entry p))
  | sample {n : ℕ} {st st' : Scan} (k : ℕ) : stateAt env p n = some st → Debugs p (env.pass n) st →
      takeSamples ((oneBand (env.pass n).band 1024 st.frequency.toInt32).take k) st = some st' →
      Point env p st'
  | again {n : ℕ} {st st' : Scan} : stateAt env p n = some st →
      searchPass p.scanEndFrequency.toUInt32 (env.pass n) st = some (.again st') → Point env p st'
  | exit {n : ℕ} {st st' : Scan} : stateAt env p n = some st →
      searchPass p.scanEndFrequency.toUInt32 (env.pass n) st = some (.exit st') → Point env p st'

/-- The memory for the spectrum is there, or none is needed. -/
def InitRoom (env : Env) (p : Request) : Prop :=
  let len := (numFreq p 52).toInt32
  env.Accepts → env.kzalloc 4 (arrayBytes len) = true ∧ env.kzalloc 5 (arrayBytes len) = true ∨
    len.toInt ≤ 0

theorem Scan.freqs_of_nonpos (h : st.spectrumLen.toInt ≤ 0) : st.freqs = [] := by
  rw [Scan.freqs, Int.toNat_of_nonpos h]
  rfl

theorem entry_good (p : Request) : (entry p).Good := by
  refine ⟨?_, le_rfl, le_rfl⟩
  rw [show (entry p).freqs = [] from Scan.freqs_of_nonpos le_rfl]
  exact List.Pairwise.nil

theorem len_nonneg {len : Int32} {i : ℕ} (h : env.kzalloc i (arrayBytes len) = true) :
    0 ≤ len.toInt := by
  by_contra hneg
  have hle := Int32.le_toInt len
  have hint : len.toInt64.toInt = len.toInt := Int32.toInt_toInt64 len
  have hcond := BitVec.toInt_eq_toNat_cond len.toInt64.toBitVec
  change len.toInt64.toInt = _ at hcond
  have hlt := len.toInt64.toBitVec.isLt
  have hbig : 2 ^ 63 ≤ (arrayBytes len).toNat := by
    rw [arrayBytes, UInt64.toNat_mul]
    change 2 ^ 63 ≤ len.toInt64.toBitVec.toNat * 4 % 2 ^ 64
    split at hcond <;> omega
  rw [env.memory i _ hbig] at h
  cases h

theorem Scan.Roomy.good (h : st.Roomy) (hrising : st.freqs.Pairwise (· < ·)) : st.Good :=
  ⟨hrising, h.le.trans h.freq, h.le.trans h.spectrum⟩

theorem spectrumInit_cases (env : Env) (p : Request) :
    let len := (numFreq p 52).toInt32
    let st := spectrumInit env p (entry p)
    (env.kzalloc 4 (arrayBytes len) = true ∧ env.kzalloc 5 (arrayBytes len) = true) ∧ st.Roomy ∧
        st.spectrumLen.toInt = 0 ∨
      ¬ (env.kzalloc 4 (arrayBytes len) = true ∧ env.kzalloc 5 (arrayBytes len) = true) ∧
        st.spectrumLen = len ∧ st.spectrumMaxLen = len ∧ (st.freq.size = 0 ∨ st.spectrum.size = 0) := by
  intro len st
  by_cases hok : env.kzalloc 4 (arrayBytes len) = true ∧ env.kzalloc 5 (arrayBytes len) = true
  · left
    have hlen : st.spectrumLen = 0 := if_pos hok
    have hmax : st.spectrumMaxLen = len := rfl
    have hfreq : st.freq.size = len.toInt.toNat := if_pos hok.1
    have hspectrum : st.spectrum.size = len.toInt.toNat := if_pos hok.2
    have hnonneg := len_nonneg hok.1
    have hzero : st.spectrumLen.toInt = 0 := by
      rw [hlen]
      rfl
    exact ⟨hok, ⟨by omega, by rw [hmax]; omega, by rw [hmax]; omega, by rw [hmax]; omega⟩, hzero⟩
  · refine .inr ⟨hok, if_neg hok, rfl, ?_⟩
    rcases not_and_or.mp hok with hfreq | hspectrum
    · exact .inl (if_neg hfreq)
    · exact .inr (if_neg hspectrum)

theorem spectrumInit_good_iff : (spectrumInit env p (entry p)).Good ↔
    (env.kzalloc 4 (arrayBytes (numFreq p 52).toInt32) = true ∧
      env.kzalloc 5 (arrayBytes (numFreq p 52).toInt32) = true) ∨ (numFreq p 52).toInt32.toInt ≤ 0 := by
  rcases spectrumInit_cases env p with ⟨hok, hroomy, hzero⟩ | ⟨hno, hlen, hmax, hsize⟩
  · refine iff_of_true (hroomy.good ?_) (.inl hok)
    rw [Scan.freqs_of_nonpos hzero.le]
    exact List.Pairwise.nil
  · constructor
    · intro h
      have hfreq := h.freqRoom
      have hspectrum := h.spectrumRoom
      rw [hlen] at hfreq hspectrum
      right
      omega
    · intro h
      have hle := h.resolve_left hno
      refine ⟨?_, by rw [hlen]; omega, by rw [hlen]; omega⟩
      rw [Scan.freqs_of_nonpos (by rw [hlen]; exact hle)]
      exact List.Pairwise.nil

/-- The two states have the same spectrum. -/
def Scan.SameSpectrum (st st' : Scan) : Prop :=
  st'.freq = st.freq ∧ st'.spectrum = st.spectrum ∧ st'.spectrumLen = st.spectrumLen ∧
    st'.spectrumMaxLen = st.spectrumMaxLen

theorem Scan.SameSpectrum.good {st' : Scan} (h : st.SameSpectrum st') (hgood : st.Good) : st'.Good := by
  obtain ⟨h1, h2, h3, h4⟩ := h
  refine ⟨?_, by rw [h1, h3]; exact hgood.freqRoom, by rw [h2, h3]; exact hgood.spectrumRoom⟩
  rw [Scan.freqs, h1, h3]
  exact hgood.rising

theorem Scan.SameSpectrum.roomy {st' : Scan} (h : st.SameSpectrum st') (hroomy : st.Roomy) :
    st'.Roomy := by
  obtain ⟨h1, h2, h3, h4⟩ := h
  exact ⟨by rw [h3]; exact hroomy.nonneg, by rw [h3, h4]; exact hroomy.le,
    by rw [h1, h4]; exact hroomy.freq, by rw [h2, h4]; exact hroomy.spectrum⟩

/-- A pass that takes nothing over leaves the spectrum as it is. -/
theorem searchPass_quiet {r : Pass} (h : ¬ Debugs p r st) :
    (∃ st', searchPass p.scanEndFrequency.toUInt32 r st = some (.exit st') ∧ st.SameSpectrum st') ∨
      ∃ st', searchPass p.scanEndFrequency.toUInt32 r st = some (.again st') ∧ st.SameSpectrum st' ∧
        st.spectrumLen < st.spectrumMaxLen := by
  have same : st.SameSpectrum st := ⟨rfl, rfl, rfl, rfl⟩
  rw [searchPass]
  by_cases hroom : st.spectrumLen < st.spectrumMaxLen ∧ st.startFrequency < p.scanEndFrequency.toUInt32
  · rw [if_neg (not_not.mpr hroom)]
    cases hstop : r.stop with
    | true => exact .inl ⟨st, rfl, same⟩
    | false =>
      cases hscan : r.scanint with
      | false => exact .inr ⟨st, rfl, same, hroom.1⟩
      | true =>
        cases hbusy : r.stopBusy with
        | true => exact .inl ⟨st, rfl, same⟩
        | false =>
          cases hstatus : r.status with
          | debug => exact absurd ⟨hroom, hstop, hscan, hbusy, hstatus⟩ h
          | tuneRequest =>
            cases r.actionFails with
            | true => exact .inl ⟨_, rfl, rfl, rfl, rfl, rfl⟩
            | false => exact .inr ⟨_, rfl, ⟨rfl, rfl, rfl, rfl⟩, hroom.1⟩
          | digitalChannelFound => exact .inl ⟨_, rfl, rfl, rfl, rfl, rfl⟩
          | error => exact .inl ⟨_, rfl, same⟩
          | ended => exact .inl ⟨_, rfl, same⟩
          | idle => exact .inr ⟨_, rfl, same, hroom.1⟩
          | searching => exact .inr ⟨_, rfl, same, hroom.1⟩
          | analogChannelFound => exact .inr ⟨_, rfl, same, hroom.1⟩
          | unknown => exact .inr ⟨_, rfl, same, hroom.1⟩
  · rw [if_pos hroom]
    exact .inl ⟨st, rfl, same⟩

/-- A pass that takes samples over ends with what has become of the spectrum. -/
theorem searchPass_debugs {r : Pass} (h : Debugs p r st) (hroomy : st.Roomy) :
    ∃ st', st.Grows ((takenWords st r.band).map (wordFreq st r.band)) st' ∧
      (searchPass p.scanEndFrequency.toUInt32 r st = some (.exit st') ∨
        searchPass p.scanEndFrequency.toUInt32 r st = some (.again st')) := by
  obtain ⟨hroom, hstop, hscan, hbusy, hstatus⟩ := h
  obtain ⟨st', htake, hgrows⟩ := takeBand_spec hroomy r.band
  refine ⟨st', hgrows, ?_⟩
  rw [searchPass, if_neg (not_not.mpr hroom), hstop, hscan, hbusy, hstatus]
  simp only [htake, Option.map_some, if_false, not_true_eq_false, Bool.false_eq_true]
  by_cases hend : r.stopWait = true ∨ r.actionFails = true
  · rw [if_pos hend]
    exact .inl rfl
  · rw [if_neg hend]
    exact .inr rfl

theorem stateAt_zero (h : stateAt env p 0 = some st) :
    env.Accepts ∧ st = spectrumInit env p (entry p) := by
  rw [stateAt] at h
  split at h
  · rename_i hacc
    cases h
    exact ⟨hacc.1, rfl⟩
  · cases h

theorem stateAt_succ {n : ℕ} (h : stateAt env p (n + 1) = some st) :
    ∃ st₀, stateAt env p n = some st₀ ∧
      searchPass p.scanEndFrequency.toUInt32 (env.pass n) st₀ = some (.again st) := by
  rw [stateAt] at h
  obtain ⟨st₀, hst₀, hpass⟩ := Option.bind_eq_some_iff.mp h
  refine ⟨st₀, hst₀, ?_⟩
  split at hpass
  · rename_i hagain
    cases hpass
    exact hagain
  · cases hpass

theorem stateAt_point {n : ℕ} (h : stateAt env p n = some st) : Point env p st := by
  cases n with
  | zero =>
    obtain ⟨hacc, rfl⟩ := stateAt_zero h
    exact .init hacc
  | succ n =>
    obtain ⟨st₀, hst₀, hpass⟩ := stateAt_succ h
    exact .again hst₀ hpass

theorem stateAt_roomy {n : ℕ} (h : stateAt env p n = some st)
    (hroom : st.spectrumLen < st.spectrumMaxLen) : st.Roomy := by
  induction n generalizing st with
  | zero =>
    obtain ⟨-, rfl⟩ := stateAt_zero h
    rcases spectrumInit_cases env p with ⟨-, hroomy, -⟩ | ⟨-, hlen, hmax, -⟩
    · exact hroomy
    · rw [hlen, hmax] at hroom
      exact (Int32.lt_irrefl hroom).elim
  | succ n ih =>
    obtain ⟨st₀, hst₀, hpass⟩ := stateAt_succ h
    by_cases hdebug : Debugs p (env.pass n) st₀
    · obtain ⟨st', hgrows, hend | hend⟩ := searchPass_debugs hdebug (ih hst₀ hdebug.1.1)
      · rw [hend] at hpass
        cases hpass
      · rw [hend] at hpass
        cases hpass
        exact hgrows.roomy
    · rcases searchPass_quiet hdebug with ⟨st', hend, -⟩ | ⟨st', hend, hsame, hlt⟩
      · rw [hend] at hpass
        cases hpass
      · rw [hend] at hpass
        cases hpass
        exact hsame.roomy (ih hst₀ hlt)

theorem window_grows (f : UInt32) {xs ys : List (UInt32 × Int32)} (h : xs <+: ys) :
    window f xs <+: window f ys := by
  obtain ⟨zs, rfl⟩ := h
  refine List.IsPrefix.filter _ ?_
  rw [List.takeWhile_append]
  split
  · rename_i hall
    rw [(List.takeWhile_prefix _).eq_of_length hall]
    exact List.prefix_append _ _
  · exact List.prefix_rfl

/-- In the loop over the samples there is a part of what is there after it. -/
theorem sample_good (hroomy : st.Roomy) (hrising : st.freqs.Pairwise (· < ·)) (hfresh : Fresh st r)
    {k : ℕ} {st' : Scan}
    (h : takeSamples ((oneBand r 1024 st.frequency.toInt32).take k) st = some st') : st'.Good := by
  obtain ⟨st₁, htake, hgrows⟩ :=
    takeSamples_spec ((oneBand r 1024 st.frequency.toInt32).take k) hroomy
  rw [h] at htake
  cases htake
  refine hgrows.roomy.good ?_
  rw [hgrows.freqs]
  refine List.Pairwise.sublist ?_ ((append_rising_iff hrising).mpr hfresh)
  refine List.Sublist.append_left (List.IsPrefix.sublist ?_) _
  rw [← takenWords_eq]
  exact List.IsPrefix.map _ (List.IsPrefix.take (window_grows _ (List.take_prefix k _)) _)

/-- What holds in each state if all that is taken over is fresh. -/
theorem stateAt_good (hinit : InitRoom env p)
    (hfresh : ∀ n st, stateAt env p n = some st → Debugs p (env.pass n) st →
      Fresh st (env.pass n).band) {n : ℕ} (h : stateAt env p n = some st) : st.Good := by
  induction n generalizing st with
  | zero =>
    obtain ⟨hacc, rfl⟩ := stateAt_zero h
    exact spectrumInit_good_iff.mpr (hinit hacc)
  | succ n ih =>
    obtain ⟨st₀, hst₀, hpass⟩ := stateAt_succ h
    have hgood := ih hst₀
    by_cases hdebug : Debugs p (env.pass n) st₀
    · obtain ⟨st', hgrows, hend | hend⟩ := searchPass_debugs hdebug (stateAt_roomy hst₀ hdebug.1.1)
      · rw [hend] at hpass
        cases hpass
      · rw [hend] at hpass
        cases hpass
        refine hgrows.roomy.good ?_
        rw [hgrows.freqs]
        exact (append_rising_iff hgood.rising).mpr (hfresh n st₀ hst₀ hdebug)
    · rcases searchPass_quiet hdebug with ⟨st', hend, -⟩ | ⟨st', hend, hsame, -⟩
      · rw [hend] at hpass
        cases hpass
      · rw [hend] at hpass
        cases hpass
        exact hsame.good hgood

/-- The firmware asks for one band, and reports samples twice. -/
def twice : Env where
  tunerOps := true
  kzalloc _ n := decide (n.toNat < 2 ^ 63)
  memory _ n hn := decide_eq_false (by omega)
  started := true
  pass n := ⟨false, true, false, if n = 0 then .tuneRequest else .debug, 0,
    ⟨1, fun _ => 0, fun _ => false⟩, false, false⟩

end Si2183

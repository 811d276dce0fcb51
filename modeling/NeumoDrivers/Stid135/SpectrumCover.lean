import NeumoDrivers.Stid135.SpectrumFft
import Mathlib.Algebra.Order.Ring.Abs
import Mathlib.Tactic.Linarith

/-! The bands together cover the spectrum.

    The frequency of a bin is computed from its distance to the middle of the band, in steps, times the
    range of the band, and the position of the bin from the same distance; both come out the same as
    long as the product fits in 32 bits. -/

namespace Stid135.SpectrumFft
open Buffers Loop

/-! ### Products of 32 bits -/

theorem bmod_spec (x : ℤ) : ∃ q : ℤ, x.bmod (2 ^ 32) = x + q * 2 ^ 32 ∧
    -2 ^ 31 ≤ x.bmod (2 ^ 32) ∧ x.bmod (2 ^ 32) < 2 ^ 31 := by
  have hle := @Int.le_bmod x (2 ^ 32) (by decide)
  have hlt := @Int.bmod_lt x (2 ^ 32) (by decide)
  obtain ⟨q, hq⟩ : ((2 ^ 32 : ℕ) : ℤ) ∣ x.bmod (2 ^ 32) - x := Int.dvd_bmod_sub_self
  exact ⟨q, by omega, by omega, by omega⟩

theorem bmod_of_fits {x : ℤ} (h : -2 ^ 31 ≤ x) (h' : x < 2 ^ 31) : x.bmod (2 ^ 32) = x :=
  Int.bmod_eq_of_le (by omega) (by omega)

/-- The sizes an FFT can have. -/
def FftSize (n : ℕ) : Prop := n ∈ [256, 512, 1024, 2048, 4096]

theorem mul_div_size_iff {n : ℕ} (hn : FftSize n) (x : Int32) :
    x * Int32.ofNat n / Int32.ofNat n = x ↔ -2 ^ 31 ≤ n * x.toInt ∧ n * x.toInt < 2 ^ 31 := by
  obtain ⟨m, hm, hsize, h0⟩ : ∃ m : ℤ, (n : ℤ) * m = 2 ^ 32 ∧ (Int32.ofNat n).toInt = n ∧ 1 < n := by
    simp only [FftSize, List.mem_cons, List.not_mem_nil, or_false] at hn
    rcases hn with rfl | rfl | rfl | rfl | rfl
    exacts [⟨2 ^ 24, rfl, rfl, by decide⟩, ⟨2 ^ 23, rfl, rfl, by decide⟩, ⟨2 ^ 22, rfl, rfl, by decide⟩,
      ⟨2 ^ 21, rfl, rfl, by decide⟩, ⟨2 ^ 20, rfl, rfl, by decide⟩]
  obtain ⟨q, hq, hle, hlt⟩ := bmod_spec (x.toInt * n)
  have hmul : (x.toInt * n).bmod (2 ^ 32) = n * (x.toInt + q * m) := by
    rw [hq, ← hm]
    ring
  have hx := Int32.le_toInt x
  have hx' := Int32.toInt_lt x
  rw [hmul] at hle hlt
  have hdiv : (x * Int32.ofNat n / Int32.ofNat n).toInt = x.toInt + q * m := by
    rw [Int32.toInt_div, Int32.toInt_mul, hsize, hmul, Int.mul_tdiv_cancel_left _ (by omega),
      bmod_of_fits]
    · nlinarith
    · nlinarith
  have hsum : n * (x.toInt + q * m) = n * x.toInt + q * 2 ^ 32 := by
    rw [← hm]
    ring
  rw [hsum] at hle hlt
  rw [← Int32.toInt_inj, hdiv]
  constructor
  · intro h
    have hqm : q * m = 0 := by omega
    rcases Int.mul_eq_zero.mp hqm with rfl | rfl
    · omega
    · omega
  · intro h
    have hq0 : q = 0 := by omega
    rw [hq0]
    omega

/-! ### One band -/

variable {env : Env} {p : ScanRequest} {ss : Settings} {rfLevel : Buffer Level} {band : ℕ} {i : ℤ}

/-- What the settings of a request agree on. -/
structure Sized (ss : Settings) : Prop where
  size : FftSize ss.fftSize
  halves : ss.fftSize = 2 * (ss.useableSamples2 + ss.lostSamples2)
  lost : 51 ≤ ss.lostSamples2
  useable : 77 ≤ ss.useableSamples2
  mode : ss.mode = 6 → ss.fftSize = 256
  same : ss.mode ≠ 6 → fftSizeOfMode ss.mode = ss.fftSize

theorem Sized.of_pair (h : (ss.mode, ss.fftSize) ∈
    [(1, 4096), (2, 2048), (3, 1024), (4, 512), (5, 256), (6, 256)]) : Sized ss := by
  obtain ⟨fftSize, mode, _, _, _, _⟩ := ss
  simp only [List.mem_cons, List.not_mem_nil, or_false, Prod.mk.injEq] at h
  rcases h with ⟨rfl, rfl⟩ | ⟨rfl, rfl⟩ | ⟨rfl, rfl⟩ | ⟨rfl, rfl⟩ | ⟨rfl, rfl⟩ | ⟨rfl, rfl⟩
  all_goals
    refine ⟨?_, ?_, ?_, ?_, ?_, ?_⟩
    all_goals simp [FftSize, Settings.lostSamples2, Settings.useableSamples2, fftSizeOfMode]

theorem settings_pair (p : ScanRequest) :
    ((settings p).mode, (settings p).fftSize) = modeAndSize p.scanFftSize := by
  simp only [settings]

theorem settings_sized (p : ScanRequest) : Sized (settings p) := by
  apply Sized.of_pair
  rw [settings_pair]
  rcases modeAndSize_cases p.scanFftSize with ⟨-, hmem⟩ | ⟨-, heq⟩
  · exact List.mem_append_left [(6, 256)] hmem
  · rw [heq]
    decide

theorem Sized.le (hs : Sized ss) : ss.fftSize ≤ 4096 := by
  have hsize := hs.size
  simp only [FftSize, List.mem_cons, List.not_mem_nil, or_false] at hsize
  omega

/-- What the outside does when nothing goes wrong; memory of 2 ^ 63 bytes there is not. -/
structure Env.Succeeds (env : Env) : Prop where
  path : env.path ≤ 4
  lo : env.loError = false
  setup : env.setupError = false
  stop : ∀ band, env.stop band = false
  ready : ∀ band, (env.chip band).Ready
  error : ∀ band, (env.chip band).error = false
  memory : ∀ n : UInt64, 2 ^ 63 ≤ n.toNat → env.kzalloc n = false

/-- The levels of a band that the chip has when it is set to fewer points. -/
def Settings.Fetched (ss : Settings) (i : ℤ) : Prop := ss.mode = 6 → i < 126

def quietChip : PsdChip := ⟨0, fun _ _ => 0, fun _ _ => true, false⟩

theorem quietChip_ready : quietChip.Ready := fun _ => ⟨0, by decide, rfl⟩

/-- What is read when the chip is set to 128 points and the window is that of 256. -/
theorem quietChip_writes (mode32bit : Bool) :
    (∀ i ∈ (feStid135ReadPsdMem quietChip 0 mode32bit 128 46 210).1.map Prod.fst, 0 ≤ i ∧ i < 128) ∧
      (∀ k < 154, ((51 + k : ℕ) : ℤ) ∈
        (feStid135ReadPsdMem quietChip 0 mode32bit 128 46 210).1.map Prod.fst ↔ 51 + k < 128) ∧
      (feStid135ReadPsdMem quietChip 0 mode32bit 128 46 210).2 = .noError := by
  cases mode32bit <;> decide +kernel

theorem quietChip_window (henv : env.Succeeds) (band : ℕ) (mode32bit : Bool) :
    let out := feStid135ReadPsdMem (env.chip band) env.path mode32bit 128 46 210
    (∀ i ∈ out.1.map Prod.fst, 0 ≤ i ∧ i < 128) ∧
      (∀ i : ℤ, 51 ≤ i → i < 205 → (i ∈ out.1.map Prod.fst ↔ i < 128)) ∧ out.2 = .noError := by
  intro out
  obtain ⟨hpos, herr⟩ := readPsdMem_positions henv.path (Nat.zero_le 4) (henv.ready band)
    quietChip_ready (henv.error band) mode32bit 128 46 210
  obtain ⟨hin, hmem, hend⟩ := quietChip_writes mode32bit
  rw [hpos, herr]
  refine ⟨hin, fun i h51 h205 => ?_, hend⟩
  obtain ⟨k, rfl⟩ : ∃ k : ℕ, i = ((51 + k : ℕ) : ℤ) := ⟨(i - 51).toNat, by omega⟩
  rw [hmem k (by omega)]
  omega

theorem readPsdMem_band (hs : Sized ss) (henv : env.Succeeds) (band : ℕ) (mode32bit : Bool) :
    let out := feStid135ReadPsdMem (env.chip band) env.path mode32bit (fftSizeOfMode ss.mode)
      ss.startIdx ss.endIdx
    (∀ i ∈ out.1.map Prod.fst, 0 ≤ i ∧ i < 8192) ∧
      (∀ i : ℤ, ss.startIdx + 5 ≤ i → i < ss.endIdx - 5 →
        (i ∈ out.1.map Prod.fst ↔ (ss.mode = 6 → i < 128))) ∧ out.2 = .noError := by
  have hle := hs.le
  have hhalves := hs.halves
  have hlost := hs.lost
  by_cases h6 : ss.mode = 6
  · have hF := hs.mode h6
    have hU : ss.useableSamples2 = 77 := by rw [Settings.useableSamples2, hF]
    have hstart : ss.startIdx = 46 := by
      rw [Settings.startIdx]
      omega
    have hend : ss.endIdx = 210 := by
      rw [Settings.endIdx]
      omega
    obtain ⟨hin, hmem, herr⟩ := quietChip_window henv band mode32bit
    rw [hstart, hend, h6]
    refine ⟨fun i hi => ?_, fun i h51 h205 => ?_, herr⟩
    · have := hin i hi
      omega
    · rw [show fftSizeOfMode 6 = 128 from rfl, Nat.cast_ofNat, hmem i (by omega) (by omega)]
      simp
  · have hend : ss.endIdx = ss.fftSize - ss.startIdx := by
      rw [Settings.endIdx, Settings.startIdx]
      ring
    have hstart : ss.startIdx = ss.lostSamples2 - 5 := rfl
    rw [hs.same h6, hend, readPsdMem_window henv.path (henv.ready band) (by omega), henv.error]
    refine ⟨fun i hi => ?_, fun i h1 h2 => ?_, rfl⟩
    · rw [samplesFrom_mem_iff] at hi
      omega
    · rw [samplesFrom_mem_iff]
      omega

/-- The window is read from the chip: all of it, or what there is of it. -/
theorem feStid135Fft_spec (hs : Sized ss) (henv : env.Succeeds) (hsize : rfLevel.size = 8192)
    (band : ℕ) :
    ∃ rfLevel', feStid135Fft env band ss.mode rfLevel ss.startIdx ss.endIdx =
        some (rfLevel', .noError) ∧ rfLevel'.size = 8192 ∧
      ∀ i : ℤ, ss.startIdx + 5 ≤ i → i < ss.endIdx - 5 →
        ((rfLevel'.cell i).fresh = true ↔ (ss.mode = 6 → i < 128)) := by
  obtain ⟨hin, hmem, herr⟩ := readPsdMem_band hs henv band (env.mode32bit band)
  rw [feStid135Fft]
  generalize feStid135ReadPsdMem (env.chip band) env.path (env.mode32bit band)
    (fftSizeOfMode ss.mode) ss.startIdx ss.endIdx = out at hin hmem herr
  obtain ⟨writes, error⟩ := out
  dsimp only at hin hmem herr ⊢
  subst herr
  have hfst : (writes.map fun w => (w.1, (⟨w.2, true⟩ : Level))).map Prod.fst = writes.map Prod.fst := by
    rw [List.map_map]
    rfl
  have hinside : ∀ w ∈ writes.map fun w => (w.1, (⟨w.2, true⟩ : Level)),
      (rfLevel.map fun x => { x with fresh := false }).Inside w.1 := by
    intro w hw
    have := hin w.1 (hfst ▸ List.mem_map_of_mem hw)
    exact ⟨this.1, by rw [Buffer.map_size, hsize]; exact this.2⟩
  obtain ⟨rfLevel', hall, hsize', hcell⟩ := Buffer.writeAll_inside hinside
  refine ⟨rfLevel', by rw [hall]; rfl, by rw [hsize', Buffer.map_size, hsize], fun i h1 h2 => ?_⟩
  rw [← hmem i h1 h2]
  rcases hcell i with hi | ⟨hi, heq⟩
  · obtain ⟨w, hw, heq⟩ := List.mem_map.mp hi
    obtain ⟨hwi, hwc⟩ := Prod.mk.inj heq
    rw [← hwc, ← hwi]
    exact iff_of_true rfl (List.mem_map_of_mem hw)
  · rw [hfst] at hi
    rw [heq]
    exact iff_of_false Bool.false_ne_true hi

theorem scaleBin_spec {centerFreq : Int32} {temp : Buffer Int32 × Buffer Level}
    (h1 : temp.1.Inside i) (h2 : temp.2.Inside i) :
    ∃ temp', scaleBin env ss centerFreq i temp = some temp' ∧ temp'.1.size = temp.1.size ∧
      temp'.2.size = temp.2.size ∧
      temp'.1.cell = Function.update temp.1.cell i (binFrequency ss centerFreq i) ∧
      ∀ j, (temp'.2.cell j).fresh = (temp.2.cell j).fresh := by
  rw [scaleBin]
  simp only [Buffer.write_inside h1, Buffer.write_inside h2, Buffer.read_inside h2, Option.bind_eq_bind,
    Option.bind_some]
  refine ⟨_, rfl, rfl, rfl, rfl, fun j => ?_⟩
  dsimp only
  by_cases hj : j = i
  · rw [hj, Function.update_self]
    rfl
  · rw [Function.update_of_ne hj]

theorem scaleBins_spec (env : Env) (ss : Settings) (centerFreq : Int32) {freq : Buffer Int32} {n : ℕ}
    (hn : n ≤ 8192) (h1 : freq.size = 8192) (h2 : rfLevel.size = 8192) :
    ∃ temp, forUp (scaleBin env ss centerFreq) n 0 (freq, rfLevel) = some temp ∧
      temp.1.size = 8192 ∧ temp.2.size = 8192 ∧
      (∀ j : ℤ, 0 ≤ j → j < n → temp.1.cell j = binFrequency ss centerFreq j) ∧
      ∀ j, (temp.2.cell j).fresh = (rfLevel.cell j).fresh := by
  obtain ⟨temp, hloop, hinv⟩ := forUp_rule (fun (i : ℤ) (temp : Buffer Int32 × Buffer Level) =>
      temp.1.size = 8192 ∧ temp.2.size = 8192 ∧
      (∀ j : ℤ, 0 ≤ j → j < i → temp.1.cell j = binFrequency ss centerFreq j) ∧
      ∀ j, (temp.2.cell j).fresh = (rfLevel.cell j).fresh)
    (f := scaleBin env ss centerFreq) (n := n) (a := 0) (s := (freq, rfLevel))
    ⟨h1, h2, fun j h0 hj => absurd hj (by omega), fun _ => rfl⟩ (by
      rintro i temp h0 hn' ⟨hf, hr, hcell, hfresh⟩
      obtain ⟨temp', hstep, hf', hr', hcell', hfresh'⟩ :=
        @scaleBin_spec env ss i centerFreq temp ⟨h0, by omega⟩ ⟨h0, by omega⟩
      refine ⟨temp', hstep, hf'.trans hf, hr'.trans hr, fun j hj hlt => ?_, fun j =>
        (hfresh' j).trans (hfresh j)⟩
      rw [hcell']
      by_cases hji : j = i
      · rw [hji, Function.update_self]
      · rw [Function.update_of_ne hji]
        exact hcell j hj (by omega))
  rw [Int.zero_add] at hinv
  exact ⟨temp, hloop, hinv⟩

theorem patchBins_spec (hs : 6 ≤ ss.fftSize) (hle : ss.fftSize ≤ 4096) (hsize : rfLevel.size = 8192) :
    ∃ rfLevel', forUp (patchBin ss) 5 (-2) rfLevel = some rfLevel' ∧ rfLevel'.size = 8192 ∧
      ∀ j : ℤ, (rfLevel'.cell j).fresh =
        if ss.fftSize / 2 - 2 ≤ j ∧ j < ss.fftSize / 2 + 3 then
          (rfLevel.cell (ss.fftSize / 2 - 3)).fresh && (rfLevel.cell (ss.fftSize / 2 + 3)).fresh
        else (rfLevel.cell j).fresh := by
  obtain ⟨rfLevel', hloop, hinv⟩ := forUp_rule (fun (i : ℤ) (r : Buffer Level) => r.size = 8192 ∧
      ∀ j : ℤ, (r.cell j).fresh =
        if ss.fftSize / 2 - 2 ≤ j ∧ j < ss.fftSize / 2 + i then
          (rfLevel.cell (ss.fftSize / 2 - 3)).fresh && (rfLevel.cell (ss.fftSize / 2 + 3)).fresh
        else (rfLevel.cell j).fresh)
    (f := patchBin ss) (n := 5) (a := -2) (s := rfLevel)
    ⟨hsize, fun j => by rw [if_neg (by omega)]⟩ (by
      rintro i r hi hlt ⟨hr, hfresh⟩
      have hin : ∀ j : ℤ, 0 ≤ j → j < 8192 → r.Inside j := fun j h0 h => ⟨h0, by omega⟩
      have hx := hfresh (ss.fftSize / 2 - 3)
      have hy := hfresh (ss.fftSize / 2 + 3)
      rw [if_neg (by omega)] at hx hy
      rw [patchBin]
      simp only [Buffer.read_inside (hin (ss.fftSize / 2 - 3) (by omega) (by omega)),
        Buffer.read_inside (hin (ss.fftSize / 2 + 3) (by omega) (by omega)),
        Buffer.write_inside (hin (ss.fftSize / 2 + i) (by omega) (by omega)), Option.bind_eq_bind,
        Option.bind_some]
      refine ⟨_, rfl, hr, fun j => ?_⟩
      dsimp only
      by_cases hj : j = ss.fftSize / 2 + i
      · rw [hj, Function.update_self, Level.mid, hx, hy, if_pos (by omega)]
      · rw [Function.update_of_ne hj, hfresh]
        exact if_congr (by omega) rfl rfl)
  exact ⟨rfLevel', hloop, hinv⟩

/-- The frequencies of a band, and the levels that were read: but for a chip that is set to fewer points,
    all that are used. -/
theorem oneBand_spec (hs : Sized ss) (henv : env.Succeeds) {freq : Buffer Int32}
    (hfreq : freq.size = 8192) (hsize : rfLevel.size = 8192) (band : ℕ) (centerFreq : Int32) :
    ∃ freq' rfLevel', oneBand env ss band centerFreq freq rfLevel = some (freq', rfLevel', .noError) ∧
      freq'.size = 8192 ∧ rfLevel'.size = 8192 ∧
      (∀ i : ℤ, 0 ≤ i → i < ss.fftSize → freq'.cell i = binFrequency ss centerFreq i) ∧
      ∀ i : ℤ, ss.startIdx + 5 ≤ i → i < ss.endIdx - 5 →
        ((rfLevel'.cell i).fresh = true ↔ ss.Fetched i) := by
  have hle := hs.le
  have hhalves := hs.halves
  have hlost := hs.lost
  have huse := hs.useable
  have hstart : ss.startIdx = ss.lostSamples2 - 5 := rfl
  have hend : ss.endIdx = ss.fftSize - ss.lostSamples2 + 5 := rfl
  obtain ⟨read, hread, hreadSize, hfresh⟩ := feStid135Fft_spec hs henv hsize band
  obtain ⟨⟨freq', scaled⟩, hscale, hfreq', hscaled, hcell, hkeep⟩ :=
    scaleBins_spec env ss centerFreq (n := ss.fftSize) (by omega) hfreq hreadSize
  obtain ⟨patched, hpatch, hpatched, hmid⟩ := @patchBins_spec ss _ (by omega) (by omega) hscaled
  refine ⟨freq', patched, ?_, hfreq', hpatched, hcell, fun i h1 h2 => ?_⟩
  · rw [oneBand, hread]
    simp only [Option.bind_eq_bind, Option.bind_some, hscale, hpatch]
  · rw [hmid, hkeep, hkeep, hkeep, Settings.Fetched]
    by_cases hi : (ss.fftSize : ℤ) / 2 - 2 ≤ i ∧ i < ss.fftSize / 2 + 3
    · rw [if_pos hi, Bool.and_eq_true, hfresh _ (by omega) (by omega), hfresh _ (by omega) (by omega)]
      by_cases h6 : ss.mode = 6
      · have := hs.mode h6
        simp only [h6, true_imp_iff]
        omega
      · simp only [h6, false_imp_iff, and_self]
    · rw [if_neg hi, hfresh _ h1 h2]
      by_cases h6 : ss.mode = 6
      · have := hs.mode h6
        simp only [h6, true_imp_iff]
        omega
      · simp only [h6, false_imp_iff]

/-! ### Taking a band over -/

variable {st : Scan}

/-- The centre of the band whose first bin is bin `first` of the spectrum. -/
def centerFreq (ss : Settings) (first : ℕ) : Int32 :=
  ss.startFrequency + Int32.ofNat (first + ss.useableSamples2) * ss.frequencyStep

def spectrumLen (ss : Settings) : ℕ := ss.spectrumLen.toUInt32.toNat

/-- What a bin of the spectrum comes from: bands follow each other at `2 * useable_samples2` bins. -/
structure Bin.Placed (ss : Settings) (b : Bin) : Prop where
  position : b.position = ss.lostSamples2 + (b.idx % (2 * ss.useableSamples2) : ℕ)
  frequency : b.frequency =
    binFrequency ss (centerFreq ss (b.idx - b.idx % (2 * ss.useableSamples2))) b.position
  fresh : b.sample.fresh = true ↔ ss.Fetched b.position

/-- The spectrum up to `idx` is filled, one bin after the other. -/
structure Filled (ss : Settings) (st : Scan) : Prop where
  le : st.idx ≤ spectrumLen ss
  freqSize : st.freq.size = spectrumLen ss
  spectrumSize : st.spectrum.size = spectrumLen ss
  idxs : st.bins.map Bin.idx = List.range st.idx
  placed : ∀ b ∈ st.bins, b.Placed ss ∧ st.freq.cell b.idx = b.frequency ∧
    (st.spectrum.cell b.idx).fresh = b.sample.fresh
  tempFreqSize : st.tempFreq.size = 8192
  tempRfLevelSize : st.tempRfLevel.size = 8192

/-- The arrays of the band hold that of bin `first`. -/
structure Holds (ss : Settings) (first : ℕ) (st : Scan) : Prop where
  freq : ∀ i : ℤ, 0 ≤ i → i < ss.fftSize → st.tempFreq.cell i = binFrequency ss (centerFreq ss first) i
  level : ∀ i : ℤ, ss.startIdx + 5 ≤ i → i < ss.endIdx - 5 →
    ((st.tempRfLevel.cell i).fresh = true ↔ ss.Fetched i)

theorem Filled.bin_lt (h : Filled ss st) {b : Bin} (hb : b ∈ st.bins) : b.idx < st.idx := by
  have := List.mem_map_of_mem (f := Bin.idx) hb
  rw [h.idxs, List.mem_range] at this
  exact this

theorem average_some (correction : Int32) (hsize : rfLevel.size = 8192) (h0 : 0 ≤ i) (hi : i + 10 ≤ 8192) :
    ∃ x, average rfLevel i correction = some x := by
  obtain ⟨sum, hsum, -⟩ := forUp_rule (fun _ (_ : Int32) => True)
    (f := fun i sum => (rfLevel.read i).map fun x => sum + (x.value + correction)) (n := 10) (a := i)
    (s := 0) trivial fun j s hj hlt _ =>
      ⟨_, by rw [Buffer.read_inside ⟨by omega, by omega⟩]; rfl, trivial⟩
  exact ⟨_, by rw [average, hsum]; rfl⟩

/-- One bin: position `L + j` of the band goes to bin `first + j` of the spectrum. -/
theorem Filled.copyBin (correction : Int32) (hs : Sized ss) {first j : ℕ} (h : Filled ss st)
    (hb : Holds ss first st) (hfirst : 2 * ss.useableSamples2 ∣ first)
    (hidx : st.idx = first + j) (hj : j < 2 * ss.useableSamples2) (hlt : st.idx < spectrumLen ss) :
    ∃ freq spectrum f x, st.tempFreq.read (ss.lostSamples2 + j) = some f ∧
      st.freq.write st.idx f = some freq ∧ st.tempRfLevel.read (ss.lostSamples2 + j) = some x ∧
      st.spectrum.write st.idx (x.add correction) = some spectrum ∧
      Filled ss { st with idx := st.idx + 1, freq, spectrum, bins := st.bins ++
        [⟨st.idx, ss.lostSamples2 + j, f, x⟩] } := by
  have hle := hs.le
  have hhalves := hs.halves
  have hstart : ss.startIdx = ss.lostSamples2 - 5 := rfl
  have hend : ss.endIdx = ss.fftSize - ss.lostSamples2 + 5 := rfl
  have hin : (st.tempFreq.Inside (ss.lostSamples2 + j)) ∧ st.tempRfLevel.Inside (ss.lostSamples2 + j) :=
    ⟨⟨by omega, by rw [h.tempFreqSize]; omega⟩, ⟨by omega, by rw [h.tempRfLevelSize]; omega⟩⟩
  have hout : st.freq.Inside st.idx ∧ st.spectrum.Inside st.idx :=
    ⟨⟨by omega, by rw [h.freqSize]; omega⟩, ⟨by omega, by rw [h.spectrumSize]; omega⟩⟩
  have hmod : st.idx % (2 * ss.useableSamples2) = j := by
    obtain ⟨q, rfl⟩ := hfirst
    rw [hidx, Nat.mul_add_mod, Nat.mod_eq_of_lt hj]
  refine ⟨_, _, _, _, Buffer.read_inside hin.1, Buffer.write_inside hout.1, Buffer.read_inside hin.2,
    Buffer.write_inside hout.2, ?_⟩
  constructor
  · exact hlt
  · exact h.freqSize
  · exact h.spectrumSize
  · rw [List.map_append, h.idxs, List.range_succ]
    rfl
  · intro b hbin
    dsimp only at hbin ⊢
    rcases List.mem_append.mp hbin with hold | hnew
    · have hne : (b.idx : ℤ) ≠ st.idx := by
        have := h.bin_lt hold
        omega
      rw [Function.update_of_ne hne, Function.update_of_ne hne]
      exact h.placed b hold
    · rw [List.mem_singleton] at hnew
      subst hnew
      dsimp only
      rw [Function.update_self, Function.update_self]
      refine ⟨⟨?_, ?_, ?_⟩, rfl, rfl⟩
      · dsimp only
        rw [hmod]
      · dsimp only
        rw [hmod, hb.freq _ (by omega) (by omega), hidx, Nat.add_sub_cancel]
      · exact hb.level _ (by omega) (by omega)
  · exact h.tempFreqSize
  · exact h.tempRfLevelSize

/-- A rule for the loop over the bins of a band: each bin that there is room for keeps the invariant. -/
theorem copyBins_rule (ss : Settings) (correction : Int32) (inv : ℕ → Scan → Prop) {m : ℕ}
    (hstep : ∀ j st, j < m → inv j st → st.idx < spectrumLen ss → ∃ freq spectrum f x,
      st.tempFreq.read (ss.lostSamples2 + j) = some f ∧ st.freq.write st.idx f = some freq ∧
        st.tempRfLevel.read (ss.lostSamples2 + j) = some x ∧
        st.spectrum.write st.idx (x.add correction) = some spectrum ∧
        inv (j + 1) { st with idx := st.idx + 1, freq, spectrum, bins := st.bins ++
          [⟨st.idx, ss.lostSamples2 + j, f, x⟩] }) :
    ∀ {n j : ℕ} {st : Scan}, inv j st → j + n = m →
      ∃ st' k, copyBins ss correction n (ss.lostSamples2 + j) st = some st' ∧ inv k st' ∧ j ≤ k ∧
        k ≤ m ∧ (k = m ∨ spectrumLen ss ≤ st'.idx)
  | 0, j, st, h, hn => ⟨st, j, rfl, h, le_rfl, by omega, .inl (by omega)⟩
  | n + 1, j, st, h, hn => by
    rw [copyBins]
    by_cases hlt : st.idx < spectrumLen ss
    · obtain ⟨freq, spectrum, f, x, hf, hfreq, hx, hspectrum, hinv⟩ := hstep j st (by omega) h hlt
      obtain ⟨st', k, hst', hinv', hjk, hkm, hend⟩ := copyBins_rule ss correction inv hstep (n := n) hinv (by omega)
      refine ⟨st', k, ?_, hinv', by omega, hkm, hend⟩
      rw [if_pos (show st.idx < ss.spectrumLen.toUInt32.toNat from hlt)]
      simp only [hf, hfreq, hx, hspectrum, Option.bind_eq_bind, Option.bind_some]
      rw [← hst']
      congr 1
    · exact ⟨st, j, if_neg hlt, h, le_rfl, by omega, .inr (Nat.not_lt.mp hlt)⟩

/-- The bins of a band, or as many of them as the spectrum has room for. -/
theorem Filled.copyBins (correction : Int32) (hs : Sized ss) {first : ℕ}
    (hfirst : 2 * ss.useableSamples2 ∣ first) (h : Filled ss st) (hb : Holds ss first st)
    (hidx : st.idx = first) :
    ∃ st', copyBins ss correction (2 * ss.useableSamples2) ss.lostSamples2 st = some st' ∧
      Filled ss st' ∧ st'.idx = min (st.idx + 2 * ss.useableSamples2) (spectrumLen ss) := by
  obtain ⟨st', k, hst', ⟨hfill, -, hk⟩, -, hkm, hend⟩ := copyBins_rule ss correction
    (fun j st => Filled ss st ∧ Holds ss first st ∧ st.idx = first + j)
    (fun j st hj ⟨hfill, hhold, hjdx⟩ hlt => by
      obtain ⟨freq, spectrum, f, x, hf, hfreq, hx, hspectrum, hfill'⟩ :=
        hfill.copyBin correction hs hhold hfirst hjdx hj hlt
      exact ⟨freq, spectrum, f, x, hf, hfreq, hx, hspectrum, hfill', ⟨hhold.freq, hhold.level⟩,
        by dsimp only; omega⟩)
    (n := 2 * ss.useableSamples2) (j := 0) ⟨h, hb, hidx⟩ (Nat.zero_add _)
  rw [Int.natCast_zero, Int.add_zero] at hst'
  have hle := hfill.le
  exact ⟨st', hst', hfill, by omega⟩

theorem Filled.takeBand (hs : Sized ss) {first : ℕ} (hfirst : 2 * ss.useableSamples2 ∣ first)
    (h : Filled ss st) (hb : Holds ss first st) (hidx : st.idx = first) :
    ∃ st', takeBand ss st = some st' ∧ Filled ss st' ∧
      st'.idx = min (st.idx + 2 * ss.useableSamples2) (spectrumLen ss) := by
  have hle := hs.le
  have hhalves := hs.halves
  have hlost := hs.lost
  have huse := hs.useable
  obtain ⟨currentAvg, hcurrent⟩ := average_some 0
    (i := ss.lostSamples2 - 5) h.tempRfLevelSize (by omega) (by omega)
  obtain ⟨st', hcopy, hfill, hidx'⟩ := h.copyBins
    (if st.idx = 0 then 0 else -(currentAvg - st.lastAvg)) hs hfirst hb hidx
  obtain ⟨lastAvg, hlast⟩ := average_some
    (if st.idx = 0 then 0 else -(currentAvg - st.lastAvg)) (i := ss.fftSize - ss.lostSamples2 - 5)
    hfill.tempRfLevelSize (by omega) (by omega)
  have hn : ss.fftSize - ss.lostSamples2 - ss.lostSamples2 = 2 * ss.useableSamples2 := by omega
  rw [SpectrumFft.takeBand]
  simp only [hcurrent, hn, hcopy, hlast, Option.bind_eq_bind, Option.bind_some]
  exact ⟨_, rfl, ⟨hfill.le, hfill.freqSize, hfill.spectrumSize, hfill.idxs, hfill.placed,
    hfill.tempFreqSize, hfill.tempRfLevelSize⟩, hidx'⟩

/-! ### All bands -/

/-- Where the loop over the bands stands: at the first bin of a band, or at the end. -/
def AtBand (ss : Settings) (st : Scan) : Prop :=
  Filled ss st ∧ (st.idx < spectrumLen ss → 2 * ss.useableSamples2 ∣ st.idx)

theorem AtBand.pass (hs : Sized ss) (henv : env.Succeeds) (h : AtBand ss st)
    (hlt : st.idx < spectrumLen ss) :
    ∃ st', bandPass env ss st = .again st' ∧ AtBand ss st' ∧ st.idx < st'.idx := by
  obtain ⟨hfill, hdvd⟩ := h
  obtain ⟨tempFreq, tempRfLevel, hband, hfreqSize, hlevelSize, hfreq, hlevel⟩ := oneBand_spec hs henv
    hfill.tempFreqSize hfill.tempRfLevelSize st.sumLen (centerFreq ss st.idx)
  have hread : Filled ss { st with tempFreq, tempRfLevel } := ⟨hfill.le, hfill.freqSize,
    hfill.spectrumSize, hfill.idxs, hfill.placed, hfreqSize, hlevelSize⟩
  obtain ⟨st', htake, hfill', hidx⟩ := hread.takeBand hs (hdvd hlt) ⟨hfreq, hlevel⟩ rfl
  have huse := hs.useable
  refine ⟨st', ?_, ⟨hfill', fun hlt' => ?_⟩, by dsimp only at hidx; omega⟩
  · rw [bandPass, if_neg (by rw [spectrumLen] at hlt; omega), if_neg (by rw [henv.stop]; decide)]
    rw [centerFreq] at hband
    simp only [hband, htake, ne_eq, not_true_eq_false, if_false]
  · have hend : st'.idx = st.idx + 2 * ss.useableSamples2 := by
      dsimp only at hidx
      omega
    rw [hend]
    exact Nat.dvd_add (hdvd hlt) (Nat.dvd_refl _)

theorem bandPass_end (h : spectrumLen ss ≤ st.idx) : bandPass env ss st = .exit (.inl st) := if_pos h

/-- The loop over the bands ends with all bins written. -/
theorem bands_end (hs : Sized ss) (henv : env.Succeeds) (h : AtBand ss st) :
    ∃ st', Ends (bandPass env ss) st (.inl st') ∧ Filled ss st' ∧ st'.idx = spectrumLen ss := by
  obtain ⟨n, hn⟩ : ∃ n, n = spectrumLen ss - st.idx := ⟨_, rfl⟩
  induction n using Nat.strongRecOn generalizing st with
  | ind n ih =>
    by_cases hlt : st.idx < spectrumLen ss
    · obtain ⟨st', hpass, hat, hidx⟩ := h.pass hs henv hlt
      have hle := hat.1.le
      obtain ⟨last, hends, hlast⟩ := ih (spectrumLen ss - st'.idx) (by omega) hat rfl
      exact ⟨last, .again hpass hends, hlast⟩
    · have hle := h.1.le
      exact ⟨st, .exit (bandPass_end (by omega)), h.1, by omega⟩

/-- Taking the average correction back leaves each level where it is. -/
theorem unbias_spec (correction : Int32) {spectrum : Buffer Level} {n : ℕ} (hsize : spectrum.size = n) :
    ∃ spectrum', forUp (fun i (spectrum : Buffer Level) => do
        let x ← spectrum.read i
        spectrum.write i (x.add correction)) n 0 spectrum = some spectrum' ∧
      spectrum'.size = n ∧ ∀ j, (spectrum'.cell j).fresh = (spectrum.cell j).fresh := by
  obtain ⟨spectrum', hloop, hinv⟩ := forUp_rule (fun (_ : ℤ) (s : Buffer Level) => s.size = n ∧
      ∀ j, (s.cell j).fresh = (spectrum.cell j).fresh)
    (f := fun i (spectrum : Buffer Level) => do
        let x ← spectrum.read i
        spectrum.write i (x.add correction)) (n := n) (a := 0) (s := spectrum) ⟨hsize, fun _ => rfl⟩ (by
      rintro i s h0 hlt ⟨hs, hfresh⟩
      have hin : s.Inside i := ⟨h0, by omega⟩
      rw [Buffer.read_inside hin]
      refine ⟨_, Buffer.write_inside hin, hs, fun j => ?_⟩
      dsimp only
      by_cases hj : j = i
      · rw [hj, Function.update_self, ← hfresh i]
        rfl
      · rw [Function.update_of_ne hj, hfresh])
  exact ⟨spectrum', hloop, hinv⟩

theorem finish_spec (h : st.spectrum.size = ss.spectrumLen.toInt.toNat) :
    ∃ levels, finish ss st = .spectrum st.freq levels st.bins ∧
      ∀ j, (levels.cell j).fresh = (st.spectrum.cell j).fresh := by
  rw [finish]
  by_cases hbands : 4 < st.sumLen
  · obtain ⟨levels, hloop, -, hfresh⟩ := unbias_spec
      (-((st.sumCorrection - (st.minCorrection.1 + st.minCorrection.2 +
        st.maxCorrection.1 + st.maxCorrection.2)) / Int32.ofNat (st.sumLen - 4)))
      h
    exact ⟨levels, by rw [if_pos hbands]; dsimp only; rw [hloop], hfresh⟩
  · exact ⟨st.spectrum, by rw [if_neg hbands], fun _ => rfl⟩

/-! ### What is scanned -/

/-- The request is accepted: the range is not empty, and there is memory for the spectrum. -/
structure Env.Accepts (env : Env) (p : ScanRequest) : Prop where
  range : p.scanStartFrequency ≤ p.scanEndFrequency
  spectrum : env.kzalloc (spectrumBytes (settings p)) = true
  temp : env.kzalloc (8192 * 4) = true

theorem toUInt32_toNat_of_nonneg {x : Int32} (h : 0 ≤ x.toInt) : x.toUInt32.toNat = x.toInt.toNat := by
  have hcond := BitVec.toInt_eq_toNat_cond x.toBitVec
  change x.toInt = _ at hcond
  have hlt := x.toBitVec.isLt
  change x.toBitVec.toNat = _
  split at hcond <;> omega

theorem bytes_of_neg {x : Int32} (h : x.toInt < 0) : 2 ^ 63 ≤ (x.toInt64.toUInt64 * 4).toNat := by
  have hle := Int32.le_toInt x
  have hint : x.toInt64.toInt = x.toInt := Int32.toInt_toInt64 x
  have hcond := BitVec.toInt_eq_toNat_cond x.toInt64.toBitVec
  change x.toInt64.toInt = _ at hcond
  have hnat : x.toInt64.toUInt64.toNat = x.toInt64.toBitVec.toNat := rfl
  have hlt := x.toInt64.toBitVec.isLt
  rw [UInt64.toNat_mul, hnat]
  change 2 ^ 63 ≤ x.toInt64.toBitVec.toNat * 4 % 2 ^ 64
  split at hcond <;> omega

theorem Env.Accepts.len_nonneg (henv : env.Succeeds) (h : env.Accepts p) :
    0 ≤ (settings p).spectrumLen.toInt := by
  by_contra hneg
  have := henv.memory _ (bytes_of_neg (x := (settings p).spectrumLen) (by omega))
  rw [show (settings p).spectrumLen.toInt64.toUInt64 * 4 = spectrumBytes (settings p) from rfl,
    h.spectrum] at this
  cases this

theorem start_atBand : AtBand ss (start ss) ↔ spectrumLen ss = ss.spectrumLen.toInt.toNat := by
  constructor
  · intro h
    exact h.1.freqSize.symm
  · intro h
    refine ⟨⟨Nat.zero_le _, h.symm, h.symm, rfl, fun b hb => absurd hb List.not_mem_nil, rfl, rfl⟩,
      fun _ => Nat.dvd_zero _⟩

/-- An accepted scan ends with each bin of the spectrum written once, in order. -/
theorem scan_bins (henv : env.Succeeds) (h : env.Accepts p) :
    ∃ n freq levels bins, getSpectrumScanFft env p n = some (.spectrum freq levels bins) ∧
      bins.map Bin.idx = List.range (spectrumLen (settings p)) ∧
      ∀ b ∈ bins, b.Placed (settings p) ∧ freq.cell b.idx = b.frequency ∧
        (levels.cell b.idx).fresh = b.sample.fresh := by
  have hlen : spectrumLen (settings p) = (settings p).spectrumLen.toInt.toNat :=
    toUInt32_toNat_of_nonneg (h.len_nonneg henv)
  obtain ⟨st, ⟨n, hn⟩, hfill, hidx⟩ := bands_end (settings_sized p) henv (start_atBand.mpr hlen)
  obtain ⟨levels, hfinish, hfresh⟩ := finish_spec (hfill.spectrumSize.trans hlen)
  refine ⟨n, st.freq, levels, st.bins, ?_, by rw [hfill.idxs, hidx], fun b hb => ?_⟩
  · have hrange : ¬ p.scanEndFrequency < p.scanStartFrequency := by
      have := Int32.le_iff_toInt_le.mp h.range
      rw [Int32.lt_iff_toInt_lt]
      omega
    rw [getSpectrumScanFft]
    simp only [hrange, henv.lo, henv.setup, h.spectrum, h.temp, hn, if_false, and_self,
      not_true_eq_false, Option.map_some, Sum.elim_inl, hfinish, Bool.false_eq_true]
  · obtain ⟨hplaced, hfreq, hlevel⟩ := hfill.placed b hb
    exact ⟨hplaced, hfreq, (hfresh _).trans hlevel⟩

theorem scan_unique {m n : ℕ} {r r' : Result} (h : getSpectrumScanFft env p m = some r)
    (h' : getSpectrumScanFft env p n = some r') : r = r' := by
  rw [getSpectrumScanFft] at h h'
  split_ifs at h h'
  all_goals try exact Option.some.inj (h.symm.trans h')
  obtain ⟨x, hx, rfl⟩ := Option.map_eq_some_iff.mp h
  obtain ⟨y, hy, rfl⟩ := Option.map_eq_some_iff.mp h'
  rw [Ends.unique ⟨m, hx⟩ ⟨n, hy⟩]

/-! ### When the frequencies are right -/

/-- The product that the frequency of a bin goes through fits in 32 bits. -/
def Fits (size : ℕ) (x : Int32) : Prop := -2 ^ 31 ≤ size * x.toInt ∧ size * x.toInt < 2 ^ 31

/-- Bin `j` of a band has the frequency that is due. -/
theorem binFrequency_iff (ss : Settings) (hsize : FftSize ss.fftSize)
    (hhalves : ss.fftSize = 2 * (ss.useableSamples2 + ss.lostSamples2))
    (hrange : ss.range = ss.frequencyStep * Int32.ofNat ss.fftSize) (first j : ℕ) :
    binFrequency ss (centerFreq ss first) (ss.lostSamples2 + j) =
        ss.startFrequency + Int32.ofNat (first + j) * ss.frequencyStep ↔
      Fits ss.fftSize (Int32.ofInt (j - ss.useableSamples2) * ss.frequencyStep) := by
  have hpos : (ss.lostSamples2 : ℤ) + j - ss.fftSize / 2 = j - ss.useableSamples2 := by omega
  have hidx : Int32.ofNat (first + j) =
      Int32.ofInt (j - ss.useableSamples2) + Int32.ofNat (first + ss.useableSamples2) := by
    rw [← Int32.ofInt_eq_ofNat, ← Int32.ofInt_eq_ofNat, ← Int32.ofInt_add]
    congr 1
    push_cast
    ring
  rw [Fits, ← mul_div_size_iff hsize, binFrequency, hpos, hrange, centerFreq, hidx]
  generalize Int32.ofInt (j - ss.useableSamples2) = c
  generalize Int32.ofNat (first + ss.useableSamples2) = u
  rw [← Int32.mul_assoc, Int32.add_mul]
  constructor
  · intro h
    grind
  · intro h
    grind

/-- If the products of the first two bins of a band fit, then so does the product of the step, which is
    their difference. -/
theorem step_of_first_two {n : ℕ} {s : ℤ} (hn : FftSize n) (hle : -2 ^ 31 ≤ s) (hlt : s < 2 ^ 31)
    (h0 : -2 ^ 31 ≤ n * (-((n * 6 / 10 + 1) / 2 : ℕ) * s).bmod (2 ^ 32) ∧
      n * (-((n * 6 / 10 + 1) / 2 : ℕ) * s).bmod (2 ^ 32) < 2 ^ 31)
    (h1 : -2 ^ 31 ≤ n * ((1 - ((n * 6 / 10 + 1) / 2 : ℕ)) * s).bmod (2 ^ 32) ∧
      n * ((1 - ((n * 6 / 10 + 1) / 2 : ℕ)) * s).bmod (2 ^ 32) < 2 ^ 31) :
    |s| * ((n * 6 / 10 + 1) / 2 : ℕ) * n < 2 ^ 31 := by
  obtain ⟨q, hq, -, -⟩ := bmod_spec (-((n * 6 / 10 + 1) / 2 : ℕ) * s)
  obtain ⟨q', hq', -, -⟩ := bmod_spec ((1 - ((n * 6 / 10 + 1) / 2 : ℕ)) * s)
  rw [hq] at h0
  rw [hq'] at h1
  clear hq hq'
  simp only [FftSize, List.mem_cons, List.not_mem_nil, or_false] at hn
  rcases hn with rfl | rfl | rfl | rfl | rfl
  all_goals
    norm_num at h0 h1 ⊢
    obtain ⟨d, hd⟩ : ∃ d, d = q' - q := ⟨_, rfl⟩
    have hd0 : d = 0 := by omega
    have hq0 : q = 0 := by omega
    rcases abs_cases s with ⟨habs, -⟩ | ⟨habs, -⟩
    all_goals
      rw [habs]
      omega

/-- The product of a bin is no larger than that of the first. -/
theorem fits_of_step {n u : ℕ} {s c : ℤ} (hn : 0 < n) (h : |s| * u * n < 2 ^ 31) (hc : |c| ≤ u) :
    -2 ^ 31 ≤ n * (c * s).bmod (2 ^ 32) ∧ n * (c * s).bmod (2 ^ 32) < 2 ^ 31 := by
  have hmul : |c * s| * n < 2 ^ 31 := by
    rw [abs_mul]
    calc |c| * |s| * n ≤ u * |s| * n := by gcongr
      _ = |s| * u * n := by ring
      _ < 2 ^ 31 := h
  have hone : |c * s| ≤ |c * s| * n := le_mul_of_one_le_right (abs_nonneg _) (by omega)
  obtain ⟨hl, hr⟩ := abs_lt.mp (lt_of_le_of_lt hone hmul)
  rw [bmod_of_fits (by omega) hr]
  have hprod : |n * (c * s)| < 2 ^ 31 := by
    rw [abs_mul, Nat.abs_cast, mul_comm]
    exact hmul
  obtain ⟨hl', hr'⟩ := abs_lt.mp hprod
  exact ⟨by omega, hr'⟩

/-- The first bin, or the first two, decide for all. -/
theorem fits_all_iff (hs : Sized ss) (step : Int32) (len : ℕ) :
    (∀ j < len, j < 2 * ss.useableSamples2 →
        Fits ss.fftSize (Int32.ofInt (j - ss.useableSamples2) * step)) ↔
      (0 < len → Fits ss.fftSize (Int32.ofInt (-ss.useableSamples2) * step)) ∧
        (1 < len → |step.toInt| * ss.useableSamples2 * ss.fftSize < 2 ^ 31) := by
  have hint (c : ℤ) : (Int32.ofInt c * step).toInt = (c * step.toInt).bmod (2 ^ 32) := by
    rw [Int32.toInt_mul, Int32.toInt_ofInt]
    exact Int.bmod_mul_bmod
  have huse := hs.useable
  have hhalves := hs.halves
  simp only [Fits, hint]
  constructor
  · intro h
    have hfirst : 0 < len → _ := fun h0 => h 0 h0 (by omega)
    simp only [Int.natCast_zero, Int.zero_sub] at hfirst
    refine ⟨hfirst, fun h1 => ?_⟩
    have hsecond := h 1 h1 (by omega)
    rw [Int.natCast_one] at hsecond
    exact step_of_first_two hs.size (Int32.le_toInt step) (Int32.toInt_lt step) (hfirst (by omega))
      hsecond
  · rintro ⟨h0, h1⟩ j hj hju
    cases j with
    | zero =>
      rw [Int.natCast_zero, Int.zero_sub]
      exact h0 hj
    | succ j => exact fits_of_step (by omega) (h1 (by omega)) (abs_le.mpr ⟨by omega, by omega⟩)

/-! ### The bands cover the spectrum -/

/-- Every accepted scan ends, reads and writes nothing outside its arrays, and writes each bin of the
    spectrum once: with a level of the window of its band that was read for the band, and with the
    frequency that is due. -/
def Covers (p : ScanRequest) : Prop :=
  let ss := settings p
  ∀ env : Env, env.Succeeds → env.Accepts p → ∃ n freq levels bins,
    getSpectrumScanFft env p n = some (.spectrum freq levels bins) ∧
      (∀ k : ℕ, (k : ℤ) < ss.spectrumLen.toInt → (bins.map Bin.idx).count k = 1) ∧
      ∀ b ∈ bins, (b.idx : ℤ) < ss.spectrumLen.toInt ∧
        ss.startIdx ≤ b.position ∧ b.position < ss.endIdx ∧ b.sample.fresh = true ∧
        b.frequency = p.scanStartFrequency + Int32.ofNat b.idx * ss.frequencyStep ∧
        freq.cell b.idx = b.frequency ∧ (levels.cell b.idx).fresh = true

/-- The sizes of the FFT: the largest that is not above the size that is asked for, or the smallest. -/
def tableSize (scanFftSize : ℤ) : ℕ :=
  if scanFftSize ≤ 0 then 512 else if 4096 ≤ scanFftSize then 4096
  else if 2048 ≤ scanFftSize then 2048 else if 1024 ≤ scanFftSize then 1024
  else if 512 ≤ scanFftSize then 512 else 256

/-- The request has nothing to scan, or asks for what the arithmetic and the FFT have room for. -/
def ScanRequest.Feasible (p : ScanRequest) : Prop :=
  let size := tableSize p.scanFftSize.toInt
  let step := frequencyStep p.scanResolution size
  let len := (numBins p.scanStartFrequency p.scanEndFrequency step).toInt
  let useable : ℕ := (size * 6 / 10 + 1) / 2
  p.scanEndFrequency < p.scanStartFrequency ∨ len ≤ 0 ∨
    (0 < p.scanFftSize.toInt ∧ p.scanFftSize.toInt < 256 → len ≤ 75) ∧
      Fits size (Int32.ofInt (-useable) * step) ∧
      (1 < len → |step.toInt| * useable * size < 2 ^ 31)

theorem settings_fftSize (p : ScanRequest) :
    (settings p).fftSize = tableSize p.scanFftSize.toInt := by
  change (modeAndSize p.scanFftSize).2 = _
  rw [modeAndSize_eq, askedFftSize_eq, tableSize]
  grind

theorem settings_mode (p : ScanRequest) :
    (settings p).mode = 6 ↔ 0 < p.scanFftSize.toInt ∧ p.scanFftSize.toInt < 256 := by
  change (modeAndSize p.scanFftSize).1 = 6 ↔ _
  rcases modeAndSize_cases p.scanFftSize with ⟨hn, hmem⟩ | ⟨hn, heq⟩
  · refine iff_of_false (fun h6 => ?_) hn
    simp only [List.mem_cons, List.not_mem_nil, or_false] at hmem
    rcases hmem with h | h | h | h | h
    all_goals
      rw [h] at h6
      cases h6
  · rw [heq]
    exact iff_of_true rfl hn

/-- In terms of the settings. -/
theorem feasible_iff (p : ScanRequest) :
    p.Feasible ↔ p.scanEndFrequency < p.scanStartFrequency ∨ (settings p).spectrumLen.toInt ≤ 0 ∨
      ((settings p).mode = 6 → (settings p).spectrumLen.toInt ≤ 75) ∧
      Fits (settings p).fftSize
        (Int32.ofInt (-(settings p).useableSamples2) * (settings p).frequencyStep) ∧
      (1 < (settings p).spectrumLen.toInt →
        |(settings p).frequencyStep.toInt| * (settings p).useableSamples2 * (settings p).fftSize <
          2 ^ 31) := by
  have hstep : (settings p).frequencyStep = frequencyStep p.scanResolution (settings p).fftSize := by
    simp only [settings]
  have hlen : (settings p).spectrumLen =
      numBins p.scanStartFrequency p.scanEndFrequency (settings p).frequencyStep := by
    simp only [settings]
  rw [settings_mode, ScanRequest.Feasible, ← settings_fftSize, hlen, hstep]
  rfl

theorem settings_range (p : ScanRequest) :
    (settings p).range = (settings p).frequencyStep * Int32.ofNat (settings p).fftSize := by
  simp only [settings]

/-- A bin of the spectrum, where it is taken from given, has what is due if its band has it there. -/
theorem Bin.Placed.frequency_iff {b : Bin} (hb : b.Placed (settings p)) :
    b.frequency = p.scanStartFrequency + Int32.ofNat b.idx * (settings p).frequencyStep ↔
      Fits (settings p).fftSize (Int32.ofInt
        ((b.idx % (2 * (settings p).useableSamples2) : ℕ) - (settings p).useableSamples2) *
          (settings p).frequencyStep) := by
  have hle := Nat.mod_le b.idx (2 * (settings p).useableSamples2)
  have hstart : (settings p).startFrequency = p.scanStartFrequency := by simp only [settings]
  rw [hb.frequency, hb.position, ← binFrequency_iff (settings p) (settings_sized p).size (settings_sized p).halves
    (settings_range p) (b.idx - b.idx % (2 * (settings p).useableSamples2)), Nat.sub_add_cancel hle,
    hstart]

theorem Sized.mode_lost (hs : Sized ss) (h6 : ss.mode = 6) :
    ss.useableSamples2 = 77 ∧ ss.lostSamples2 = 51 := by
  have hsize := hs.mode h6
  have hhalves := hs.halves
  have huse : ss.useableSamples2 = 77 := by rw [Settings.useableSamples2, hsize]
  omega

/-- All calls succeed, and there is memory for all that is less than 2 ^ 63 bytes. -/
def idealEnv : Env where
  path := 1
  loError := false
  kzalloc n := decide (n.toNat < 2 ^ 63)
  setupError := false
  pbandx1000 := 0
  stLog10 _ := 0
  stop _ := false
  chip _ := quietChip
  mode32bit _ := false

theorem idealEnv_succeeds : idealEnv.Succeeds where
  path := by decide
  lo := rfl
  setup := rfl
  stop _ := rfl
  ready _ := quietChip_ready
  error _ := rfl
  memory n hn := decide_eq_false (by omega)

theorem idealEnv_accepts (hrange : p.scanStartFrequency ≤ p.scanEndFrequency)
    (hlen : 0 ≤ (settings p).spectrumLen.toInt) : idealEnv.Accepts p where
  range := hrange
  spectrum := by
    refine decide_eq_true ?_
    rw [spectrumBytes]
    generalize (settings p).spectrumLen = x at hlen ⊢
    have hlt := Int32.toInt_lt x
    have hint : x.toInt64.toInt = x.toInt := Int32.toInt_toInt64 x
    have hcond := BitVec.toInt_eq_toNat_cond x.toInt64.toBitVec
    change x.toInt64.toInt = _ at hcond
    rw [UInt64.toNat_mul]
    change x.toInt64.toBitVec.toNat * 4 % 2 ^ 64 < 2 ^ 63
    have := x.toInt64.toBitVec.isLt
    split at hcond <;> omega
  temp := by decide

theorem covers_of_feasible (h : p.Feasible) : Covers p := by
  intro env henv hacc
  have hs : Sized (settings p) := settings_sized p
  have hnonneg : 0 ≤ (settings p).spectrumLen.toInt := hacc.len_nonneg henv
  have hlen : spectrumLen (settings p) = (settings p).spectrumLen.toInt.toNat :=
    toUInt32_toNat_of_nonneg hnonneg
  obtain ⟨n, freq, levels, bins, hget, hidxs, hbins⟩ := scan_bins henv hacc
  refine ⟨n, freq, levels, bins, hget, fun k hk => ?_, fun b hb => ?_⟩
  · have hk' : (k : ℤ) < (settings p).spectrumLen.toInt := hk
    rw [hidxs, List.nodup_range.count]
    exact if_pos (List.mem_range.mpr (by omega))
  · have hlt : b.idx < spectrumLen (settings p) := by
      have := List.mem_map_of_mem (f := Bin.idx) hb
      rw [hidxs] at this
      exact List.mem_range.mp this
    obtain ⟨hplaced, hfreq, hlevel⟩ := hbins b hb
    rcases (feasible_iff p).mp h with hend | hle | ⟨hsmall, hfits⟩
    · have := Int32.le_iff_toInt_le.mp hacc.range
      have := Int32.lt_iff_toInt_lt.mp hend
      omega
    · change (settings p).spectrumLen.toInt ≤ 0 at hle
      omega
    · have huse := hs.useable
      have hlost := hs.lost
      have hhalves := hs.halves
      have hstart : (settings p).startIdx = (settings p).lostSamples2 - 5 := rfl
      have hend : (settings p).endIdx = (settings p).fftSize - (settings p).lostSamples2 + 5 := rfl
      have hmod := Nat.mod_lt b.idx (show 0 < 2 * (settings p).useableSamples2 by omega)
      have hmodle := Nat.mod_le b.idx (2 * (settings p).useableSamples2)
      have hpos := hplaced.position
      have hfresh : b.sample.fresh = true := hplaced.fresh.mpr fun h6 => by
        obtain ⟨hu, hl⟩ := hs.mode_lost h6
        have hle : (settings p).spectrumLen.toInt ≤ 75 := hsmall h6
        change b.position < 126
        omega
      have hall := (fits_all_iff hs (settings p).frequencyStep (spectrumLen (settings p))).mpr
        ⟨fun _ => hfits.1, fun h1 => hfits.2 (by omega)⟩
      refine ⟨by omega, by omega, by omega, hfresh, hplaced.frequency_iff.mpr ?_, hfreq,
        hlevel.trans hfresh⟩
      exact hall _ (by omega) hmod

theorem feasible_of_covers (h : Covers p) : p.Feasible := by
  rw [feasible_iff]
  have hs := settings_sized p
  by_cases hend : p.scanEndFrequency < p.scanStartFrequency
  · exact .inl hend
  right
  by_cases hle : (settings p).spectrumLen.toInt ≤ 0
  · exact .inl hle
  right
  have hrange : p.scanStartFrequency ≤ p.scanEndFrequency := by
    rw [Int32.le_iff_toInt_le]
    rw [Int32.lt_iff_toInt_lt] at hend
    omega
  have hacc := idealEnv_accepts hrange (by omega)
  have hlen : spectrumLen (settings p) = (settings p).spectrumLen.toInt.toNat :=
    toUInt32_toNat_of_nonneg (by omega)
  obtain ⟨n, freq, levels, bins, hget, -, hall⟩ := h idealEnv idealEnv_succeeds hacc
  obtain ⟨n', freq', levels', bins', hget', hidxs, hbins⟩ := scan_bins idealEnv_succeeds hacc
  obtain ⟨-, -, rfl⟩ := Result.spectrum.inj (scan_unique hget hget')
  -- every bin is there, with what is due
  have hbin : ∀ k < spectrumLen (settings p), ∃ b ∈ bins, b.idx = k := fun k hk => by
    rw [← List.mem_range, ← hidxs] at hk
    obtain ⟨b, hb, rfl⟩ := List.mem_map.mp hk
    exact ⟨b, hb, rfl⟩
  have hfits : ∀ j < spectrumLen (settings p), j < 2 * (settings p).useableSamples2 →
      Fits (settings p).fftSize (Int32.ofInt (j - (settings p).useableSamples2) *
        (settings p).frequencyStep) := by
    intro j hj hju
    obtain ⟨b, hb, rfl⟩ := hbin j hj
    obtain ⟨-, -, -, -, hfreq, -⟩ := hall b hb
    have := (hbins b hb).1.frequency_iff.mp hfreq
    rwa [Nat.mod_eq_of_lt hju] at this
  obtain ⟨hfirst, hstep⟩ := (fits_all_iff hs _ _).mp hfits
  refine ⟨fun h6 => ?_, hfirst (by omega), fun h1 => hstep (by omega)⟩
  by_contra hlong
  obtain ⟨hu, hl⟩ := hs.mode_lost h6
  obtain ⟨b, hb, hidx⟩ := hbin 75 (by omega)
  obtain ⟨-, -, -, hfresh, -⟩ := hall b hb
  have hplaced := (hbins b hb).1
  have hpos := hplaced.position
  have hlt : b.position < 126 := hplaced.fresh.mp hfresh h6
  rw [hidx, hu] at hpos
  omega

/-- The bands cover the spectrum if and only if the request is feasible: the FFT is not set to fewer
    points than a band has, or not many bins are asked for, and the range of a band fits in 32 bits. -/
theorem spectrum_covered_iff (p : ScanRequest) : Covers p ↔ p.Feasible :=
  ⟨feasible_of_covers, covers_of_feasible⟩

/-- With 128 points asked for, the bins from the middle of the first band on are not read. -/
theorem spectrum_uncovered : ¬ Covers ⟨950000, 2150000, 50, 128⟩ := by
  intro h
  rcases feasible_of_covers h with h | h | ⟨h, -⟩
  · revert h
    decide
  · revert h
    decide
  · have hlen := h (by decide)
    revert hlen
    decide

end Stid135.SpectrumFft

import Mathlib
import NeumoDrivers.Stid135.SpectrumCover

/-! Taking a spectrum with the FFT of the m88rs6060 (`get_spectrum_scan_fft` of `m88rs6060_fft.c`).

    The bands are put together as those of the stid135 are, with the same code. The tuner is set to whole
    MHz, so the bins of a band are labelled from a centre that was moved by up to 500 kHz; and a scan that
    is told to stop reports what it has as the spectrum. -/

namespace M88rs.SpectrumFft
open Buffers Loop
open Stid135.SpectrumFft (Settings Level Scan Bin numBins binFrequency takeBand finish start spectrumBytes
  spectrumLen centerFreq)

/-- What is asked for, in kHz. -/
structure ScanRange where
  scanStartFrequency : Int32
  scanEndFrequency : Int32

/-- The settings at the beginning of `get_spectrum_scan_fft`; the mode is not used. -/
def settings (p : ScanRange) : Settings :=
  let step : Int32 := 96000 / 512
  { fftSize := 512, mode := 0, startFrequency := p.scanStartFrequency, frequencyStep := step,
    range := step * 512, spectrumLen := numBins p.scanStartFrequency p.scanEndFrequency step }

/-! ### One band -/

/-- What the chip does for a band: whether it locks, what is read of register 0x9A, when the wait is told
    to stop, the gain, and what is read of register 0x9B for each bin. -/
structure Acquisition where
  agcLocked : Bool
  reg9a : ℕ → UInt32
  stop : ℕ → Bool
  strength : Int32
  reg9b : ℤ → UInt32 × UInt32

/-- What comes from outside: how much memory there is, for each allocation, of which none can be of 2 ^ 63
    bytes; when the scan is to stop; the logarithm; and the chip, for each band. -/
structure Env where
  kzalloc : ℕ → UInt64 → Bool
  memory : ∀ i n, 2 ^ 63 ≤ n.toNat → kzalloc i n = false
  stop : ℕ → Bool
  intlog10 : UInt32 → UInt32
  chip : ℕ → Acquisition

/-- The loop that waits for the FFT. -/
def waitFftDone (a : Acquisition) : ℕ → ℕ → Bool
  | 0, _ => false
  | n + 1, cnt =>
    if a.reg9a cnt &&& 0x80 = 0 then true
    else if a.stop cnt then false
    else waitFftDone a n (cnt + 1)

/-- The level of bin `i` of a band. -/
def binLevel (env : Env) (a : Acquisition) (i : ℤ) : Int32 :=
  let x := (a.reg9b i).2 <<< 8 ||| (a.reg9b i).1
  Int32.ofInt (((20000 * (env.intlog10 x).toNat) >>> 24 : ℕ) - (10 * a.strength).toInt - 108370 + 7000)

/-- Bin `i` of a band. -/
def readBin (env : Env) (ss : Settings) (a : Acquisition) (centerFreq : Int32) (i : ℤ)
    (temp : Buffer Int32 × Buffer Level) : Option (Buffer Int32 × Buffer Level) := do
  let freq ← temp.1.write i (binFrequency ss centerFreq i)
  let rfLevel ← temp.2.write i ⟨binLevel env a i, true⟩
  some (freq, rfLevel)

/-- `m88rs6060_get_spectrum_scan_fft_one_band`: the frequencies and levels of a band, and the error. The
    first wait that fails is an error, the one that is to follow it is not reached. -/
def oneBand (env : Env) (ss : Settings) (band : ℕ) (centerFreq : Int32) (freq : Buffer Int32)
    (rfLevel : Buffer Level) : Option (Buffer Int32 × Buffer Level × Int32) :=
  let a := env.chip band
  if ¬ a.agcLocked then some (freq, rfLevel, -1)
  else if ¬ waitFftDone a 200 0 then some (freq, rfLevel, -1)
  else do
    let rfLevel ← forUp (fun i rfLevel => rfLevel.write i ⟨0, false⟩) 32 0 rfLevel
    let (freq, rfLevel) ← forUp (readBin env ss a centerFreq) (ss.fftSize - 32) 32 (freq, rfLevel)
    some (freq, rfLevel, 0)

/-! ### All bands -/

inductive Result where
  | fullyDone
  | failed (error : Int32)
  | outside
  /-- `spectrum_present`. -/
  | present (freq : Buffer Int32) (levels : Buffer Level) (bins : List Bin)

/-- `iFreqKHz`: the centre of a band in whole MHz, which the tuner can be set to. -/
def wholeMhz (centerFreq : Int32) : Int32 := (centerFreq + 500) / 1000 * 1000

/-- One pass of the loop over the bands. A stop leaves it as its end does. -/
def bandPass (env : Env) (ss : Settings) (st : Scan) : Next Scan (Scan ⊕ Result) :=
  if ss.spectrumLen.toUInt32.toNat ≤ st.idx then .exit (.inl st)
  else
    let centerFreq := ss.startFrequency +
      Int32.ofNat (st.idx + ss.useableSamples2) * ss.frequencyStep
    if env.stop st.sumLen then .exit (.inl st)
    else
      match oneBand env ss st.sumLen (wholeMhz centerFreq) st.tempFreq st.tempRfLevel with
      | none => .exit (.inr .outside)
      | some (tempFreq, tempRfLevel, error) =>
        if error ≠ 0 then .exit (.inr (.failed error))
        else
          match takeBand ss { st with tempFreq, tempRfLevel } with
          | none => .exit (.inr .outside)
          | some st => .again st

/-- After the loop the levels are made up for the average correction, and the spectrum is present. -/
def report (ss : Settings) (st : Scan) : Result :=
  match finish ss st with
  | .spectrum freq levels bins => .present freq levels bins
  | _ => .outside

/-- `get_spectrum_scan_fft`, if no more than `n` passes of its loop are needed. -/
def getSpectrumScanFft (env : Env) (p : ScanRange) (n : ℕ) : Option Result :=
  let ss := settings p
  if p.scanEndFrequency < p.scanStartFrequency then some .fullyDone
  else if ¬ (env.kzalloc 0 (spectrumBytes ss) ∧ env.kzalloc 1 (spectrumBytes ss) ∧
      env.kzalloc 2 (8192 * 4) ∧ env.kzalloc 3 (8192 * 4)) then some (.failed (-1))
  else (run (bandPass env ss) n (start ss)).map (Sum.elim (report ss) id)

/-! ### Rounding to whole MHz -/

theorem tdiv_thousand (x : ℤ) :
    0 ≤ x ∧ x.tdiv 1000 * 1000 = x - x % 1000 ∨
      x < 0 ∧ x.tdiv 1000 * 1000 ≤ x + 999 ∧ x ≤ x.tdiv 1000 * 1000 := by
  rcases Int.lt_or_le x 0 with hx | hx
  · obtain ⟨y, rfl⟩ : ∃ y, x = -y := ⟨-x, (Int.neg_neg x).symm⟩
    right
    rw [Int.neg_tdiv, Int.tdiv_eq_ediv_of_nonneg (by omega)]
    omega
  · left
    rw [Int.tdiv_eq_ediv_of_nonneg hx]
    omega

theorem wholeMhz_toInt (c : Int32) :
    (wholeMhz c).toInt = ((c.toInt + 500).bmod (2 ^ 32)).tdiv 1000 * 1000 := by
  have hle := @Int.le_bmod (c.toInt + 500) (2 ^ 32) (by decide)
  have hlt := @Int.bmod_lt (c.toInt + 500) (2 ^ 32) (by decide)
  rw [wholeMhz, Int32.toInt_mul, Int32.toInt_div_of_ne_right _ _ (by decide), Int32.toInt_add,
    show (500 : Int32).toInt = 500 from rfl, show (1000 : Int32).toInt = 1000 from rfl]
  generalize (c.toInt + 500).bmod (2 ^ 32) = x at hle hlt ⊢
  apply Int.bmod_eq_of_le
  · rcases tdiv_thousand x with ⟨hx, heq⟩ | ⟨hx, hhi, hlo⟩ <;> omega
  · rcases tdiv_thousand x with ⟨hx, heq⟩ | ⟨hx, hhi, hlo⟩ <;> omega

/-- How far the labels of a band are from where its bins are due. -/
def shift (c : Int32) : Int32 := wholeMhz c - c

/-- The centre is less than a bin from a whole MHz. -/
structure NearMhz (c : ℤ) : Prop where
  le : -500 ≤ c
  lt : c + 500 < 2 ^ 31
  above : 313 < (c + 500) % 1000
  below : (c + 500) % 1000 < 687

theorem shift_toInt (c : Int32) : ∃ q : ℤ,
    (shift c).toInt = ((c.toInt + 500).bmod (2 ^ 32)).tdiv 1000 * 1000 - c.toInt + q * 2 ^ 32 := by
  obtain ⟨q, hq, -, -⟩ := Stid135.SpectrumFft.bmod_spec ((wholeMhz c).toInt - c.toInt)
  exact ⟨q, by rw [shift, Int32.toInt_sub, hq, wholeMhz_toInt]⟩

theorem shift_of_near {c : Int32} (h : NearMhz c.toInt) :
    (shift c).toInt = 500 - (c.toInt + 500) % 1000 := by
  obtain ⟨q, hq⟩ := shift_toInt c
  have hle := h.le
  have hlt := h.lt
  rw [Int.bmod_eq_of_le (by omega) (by omega), Int.tdiv_eq_ediv_of_nonneg (by omega)] at hq
  have h1 := Int32.le_toInt (shift c)
  have h2 := Int32.toInt_lt (shift c)
  omega

theorem shift_small_iff (c : Int32) : |(shift c).toInt| < 187 ↔ NearMhz c.toInt := by
  constructor
  · intro h
    obtain ⟨hl, hr⟩ := abs_lt.mp h
    obtain ⟨q, hq⟩ := shift_toInt c
    obtain ⟨q', hq', hle, hlt⟩ := Stid135.SpectrumFft.bmod_spec (c.toInt + 500)
    have hc := Int32.le_toInt c
    have hc' := Int32.toInt_lt c
    rw [hq'] at hq hle hlt
    rcases tdiv_thousand (c.toInt + 500 + q' * 2 ^ 32) with ⟨hx, heq⟩ | ⟨hx, hhi, hlo⟩
    · have hq0 : q' = 0 := by omega
      rw [hq0] at heq hq
      constructor <;> omega
    · exfalso
      omega
  · intro h
    have habove := h.above
    have hbelow := h.below
    rw [shift_of_near h, abs_lt]
    omega

/-! ### One band -/

variable {env : Env} {p : ScanRange} {st : Scan}

@[simp] theorem settings_fftSize (p : ScanRange) : (settings p).fftSize = 512 := rfl

@[simp] theorem settings_useable (p : ScanRange) : (settings p).useableSamples2 = 154 := by
  simp only [Settings.useableSamples2, settings_fftSize]

@[simp] theorem settings_lost (p : ScanRange) : (settings p).lostSamples2 = 102 := by
  rw [Settings.lostSamples2, settings_useable, settings_fftSize]

/-- The label of bin `k`: that of its place in the band, from the rounded centre. -/
def label (p : ScanRange) (k : ℕ) : Int32 :=
  binFrequency (settings p) (wholeMhz (centerFreq (settings p) (k - k % 308))) (102 + (k % 308 : ℕ))

/-- The label is off by what the centre of the band was moved. -/
theorem label_eq (p : ScanRange) (k : ℕ) : label p k =
    p.scanStartFrequency + Int32.ofNat k * 187 + shift (centerFreq (settings p) (k - k % 308)) := by
  have hj : k % 308 < 308 := Nat.mod_lt _ (by decide)
  have hfits : Stid135.SpectrumFft.Fits (settings p).fftSize
      (Int32.ofInt ((k % 308 : ℕ) - (settings p).useableSamples2) * (settings p).frequencyStep) := by
    rw [Stid135.SpectrumFft.Fits, Int32.toInt_mul, Int32.toInt_ofInt]
    rw [show (settings p).frequencyStep.toInt = 187 from rfl, settings_useable, Int.bmod_mul_bmod]
    exact Stid135.SpectrumFft.fits_of_step (u := 154) (by simp) (by simp)
      (abs_le.mpr ⟨by omega, by omega⟩)
  have hexact := (Stid135.SpectrumFft.binFrequency_iff (settings p)
    (by simp [Stid135.SpectrumFft.FftSize]) (by simp) rfl (k - k % 308) (k % 308)).mpr hfits
  rw [Nat.sub_add_cancel (Nat.mod_le k 308)] at hexact
  rw [label, shift]
  generalize centerFreq (settings p) (k - k % 308) = c at hexact ⊢
  change _ = (settings p).startFrequency + Int32.ofNat k * (settings p).frequencyStep + _
  rw [← hexact, settings_lost, binFrequency, binFrequency, Int32.add_assoc, Nat.cast_ofNat]
  congr 1
  rw [Int32.add_comm c, Int32.sub_add_cancel]

theorem readBins_spec (env : Env) (a : Acquisition) (c : Int32) {freq : Buffer Int32}
    {rfLevel : Buffer Level} (h1 : freq.size = 8192) (h2 : rfLevel.size = 8192) :
    ∃ temp, forUp (readBin env (settings p) a c) 480 32 (freq, rfLevel) = some temp ∧
      temp.1.size = 8192 ∧ temp.2.size = 8192 ∧
      ∀ j : ℤ, 32 ≤ j → j < 512 → temp.1.cell j = binFrequency (settings p) c j := by
  obtain ⟨temp, hloop, hsize1, hsize2, hcell⟩ := forUp_rule
    (fun (i : ℤ) (temp : Buffer Int32 × Buffer Level) => temp.1.size = 8192 ∧ temp.2.size = 8192 ∧
      ∀ j : ℤ, 32 ≤ j → j < i → temp.1.cell j = binFrequency (settings p) c j)
    (f := readBin env (settings p) a c) (n := 480) (a := 32) (s := (freq, rfLevel))
    ⟨h1, h2, fun j h0 hj => absurd hj (by omega)⟩ (by
      rintro i temp h0 hi ⟨hf, hr, hcell⟩
      have hin1 : temp.1.Inside i := ⟨by omega, by omega⟩
      have hin2 : temp.2.Inside i := ⟨by omega, by omega⟩
      rw [readBin, Buffer.write_inside hin1, Buffer.write_inside hin2]
      refine ⟨_, rfl, hf, hr, fun j hj hlt => ?_⟩
      dsimp only
      rcases eq_or_ne j i with rfl | hne
      · rw [Function.update_self]
      · rw [Function.update_of_ne hne]
        exact hcell j hj (by omega))
  exact ⟨temp, hloop, hsize1, hsize2, hcell⟩

theorem clearBins_spec {rfLevel : Buffer Level} (h : rfLevel.size = 8192) :
    ∃ rfLevel', forUp (fun i (rfLevel : Buffer Level) => rfLevel.write i ⟨0, false⟩) 32 0 rfLevel =
      some rfLevel' ∧ rfLevel'.size = 8192 :=
  forUp_rule (fun _ (r : Buffer Level) => r.size = 8192) h fun i r h0 hi hr =>
    ⟨_, Buffer.write_inside ⟨h0, by omega⟩, hr⟩

/-- The chip locks and the FFT is done in time. -/
def Acquisition.Done (a : Acquisition) : Prop := a.agcLocked = true ∧ waitFftDone a 200 0 = true

/-- A band that is read is labelled from the centre it is given; one that is not is an error. -/
theorem oneBand_spec (env : Env) (p : ScanRange) (band : ℕ) (c : Int32) {freq : Buffer Int32}
    {rfLevel : Buffer Level} (h1 : freq.size = 8192) (h2 : rfLevel.size = 8192) :
    ∃ freq' rfLevel' error, oneBand env (settings p) band c freq rfLevel =
        some (freq', rfLevel', error) ∧ freq'.size = 8192 ∧ rfLevel'.size = 8192 ∧
      (error = 0 → ∀ j : ℤ, 32 ≤ j → j < 512 → freq'.cell j = binFrequency (settings p) c j) ∧
      ((env.chip band).Done → error = 0) := by
  by_cases hlock : (env.chip band).agcLocked = true
  · by_cases hdone : waitFftDone (env.chip band) 200 0 = true
    · obtain ⟨cleared, hclear, hsize⟩ := clearBins_spec h2
      obtain ⟨⟨freq', rfLevel'⟩, hread, hs1, hs2, hcell⟩ :=
        readBins_spec (p := p) env (env.chip band) c h1 hsize
      refine ⟨freq', rfLevel', 0, ?_, hs1, hs2, fun _ => hcell, fun _ => rfl⟩
      simp only [oneBand, hlock, hdone, hclear, not_true_eq_false, if_false, Option.bind_eq_bind,
        Option.bind_some]
      rw [show (settings p).fftSize - 32 = 480 from rfl, hread, Option.bind_some]
    · exact ⟨freq, rfLevel, -1, by simp only [oneBand, hlock, hdone, not_true_eq_false, if_false,
        not_false_eq_true, if_true, Bool.false_eq_true], h1, h2,
        fun h => absurd h (by decide), fun h => absurd h.2 hdone⟩
  · exact ⟨freq, rfLevel, -1, by simp only [oneBand, hlock, not_false_eq_true, if_true,
      Bool.false_eq_true], h1, h2, fun h => absurd h (by decide), fun h => absurd h.1 hlock⟩

/-! ### The loop over the bands -/

/-- What is written when `band` bands are taken over, or the next one is in part. -/
structure Labelled (p : ScanRange) (band : ℕ) (st : Scan) : Prop where
  le : st.idx ≤ spectrumLen (settings p)
  freqSize : st.freq.size = spectrumLen (settings p)
  spectrumSize : st.spectrum.size = spectrumLen (settings p)
  idxs : st.bins.map Bin.idx = List.range st.idx
  labels : ∀ k < st.idx, st.freq.cell k = label p k
  tempFreqSize : st.tempFreq.size = 8192
  tempRfLevelSize : st.tempRfLevel.size = 8192
  sumLen : st.sumLen = band

/-- The array of the band has the labels of band `band`. -/
def Holds (p : ScanRange) (band : ℕ) (st : Scan) : Prop :=
  ∀ i : ℤ, 32 ≤ i → i < 512 →
    st.tempFreq.cell i = binFrequency (settings p) (wholeMhz (centerFreq (settings p) (308 * band))) i

theorem Labelled.copyBin {band j : ℕ} (correction : Int32) (h : Labelled p band st)
    (hb : Holds p band st) (hidx : st.idx = 308 * band + j) (hj : j < 308)
    (hlt : st.idx < spectrumLen (settings p)) :
    ∃ freq spectrum f x, st.tempFreq.read (102 + j) = some f ∧ st.freq.write st.idx f = some freq ∧
      st.tempRfLevel.read (102 + j) = some x ∧
      st.spectrum.write st.idx (x.add correction) = some spectrum ∧
      Labelled p band { st with idx := st.idx + 1, freq, spectrum, bins := st.bins ++
        [⟨st.idx, 102 + j, f, x⟩] } := by
  have hin : st.tempFreq.Inside (102 + j) ∧ st.tempRfLevel.Inside (102 + j) :=
    ⟨⟨by omega, by rw [h.tempFreqSize]; omega⟩, ⟨by omega, by rw [h.tempRfLevelSize]; omega⟩⟩
  have hout : st.freq.Inside st.idx ∧ st.spectrum.Inside st.idx :=
    ⟨⟨by omega, by rw [h.freqSize]; omega⟩, ⟨by omega, by rw [h.spectrumSize]; omega⟩⟩
  refine ⟨_, _, _, _, Buffer.read_inside hin.1, Buffer.write_inside hout.1, Buffer.read_inside hin.2,
    Buffer.write_inside hout.2, ?_⟩
  constructor
  · exact hlt
  · exact h.freqSize
  · exact h.spectrumSize
  · rw [List.map_append, h.idxs, List.range_succ]
    rfl
  · intro k hk
    dsimp only at hk ⊢
    rcases eq_or_ne k st.idx with rfl | hne
    · have hmod : st.idx % 308 = j := by omega
      rw [Function.update_self, hb _ (by omega) (by omega), label, hmod, hidx, Nat.add_sub_cancel]
    · rw [Function.update_of_ne (by omega)]
      exact h.labels k (by omega)
  · exact h.tempFreqSize
  · exact h.tempRfLevelSize
  · exact h.sumLen

theorem Labelled.takeBand {band : ℕ} (h : Labelled p band st) (hb : Holds p band st)
    (hidx : st.idx = 308 * band) :
    ∃ st', takeBand (settings p) st = some st' ∧ Labelled p (band + 1) st' ∧
      st'.idx = min (308 * (band + 1)) (spectrumLen (settings p)) := by
  obtain ⟨currentAvg, hcurrent⟩ := Stid135.SpectrumFft.average_some 0 (i := 97) h.tempRfLevelSize
    (by decide) (by decide)
  obtain ⟨st', k, hcopy, ⟨hlab, -, hk⟩, -, hkm, hend⟩ := Stid135.SpectrumFft.copyBins_rule
    (settings p) (if st.idx = 0 then 0 else -(currentAvg - st.lastAvg))
    (fun j st => Labelled p band st ∧ Holds p band st ∧ st.idx = 308 * band + j)
    (fun j st hj ⟨hlab, hhold, hjdx⟩ hlt => by
      obtain ⟨freq, spectrum, f, x, hf, hfreq, hx, hspectrum, hlab'⟩ :=
        hlab.copyBin _ hhold hjdx hj hlt
      rw [settings_lost, Nat.cast_ofNat]
      exact ⟨freq, spectrum, f, x, hf, hfreq, hx, hspectrum, hlab', hhold, by dsimp only; omega⟩)
    (n := 308) (j := 0) ⟨h, hb, hidx⟩ (Nat.zero_add _)
  obtain ⟨lastAvg, hlast⟩ := Stid135.SpectrumFft.average_some
    (if st.idx = 0 then 0 else -(currentAvg - st.lastAvg)) (i := 405) hlab.tempRfLevelSize (by decide)
    (by decide)
  have hle := hlab.le
  rw [settings_lost, Nat.cast_ofNat, Int.natCast_zero, Int.add_zero] at hcopy
  rw [Stid135.SpectrumFft.takeBand]
  simp only [settings_lost, settings_fftSize, Nat.cast_ofNat, Int.reduceSub, Nat.reduceSub, hcurrent,
    hcopy, hlast, Option.bind_eq_bind, Option.bind_some]
  exact ⟨_, rfl, ⟨hlab.le, hlab.freqSize, hlab.spectrumSize, hlab.idxs, hlab.labels, hlab.tempFreqSize,
    hlab.tempRfLevelSize, by dsimp only; rw [hlab.sumLen]⟩, by dsimp only; omega⟩

/-- Where the loop over the bands stands. -/
def AtBand (p : ScanRange) (band : ℕ) (st : Scan) : Prop :=
  Labelled p band st ∧ st.idx = min (308 * band) (spectrumLen (settings p))

/-- What a pass does: the loop is left at its end or for a stop, or for a band that cannot be read, or
    the next band is taken over. -/
theorem bandPass_cases (env : Env) {band : ℕ} (h : AtBand p band st) :
    bandPass env (settings p) st = .exit (.inl st) ∧
        (spectrumLen (settings p) ≤ st.idx ∨ env.stop band = true) ∨
      (∃ error, bandPass env (settings p) st = .exit (.inr (.failed error)) ∧ ¬ (env.chip band).Done) ∨
      ∃ st', bandPass env (settings p) st = .again st' ∧ AtBand p (band + 1) st' ∧ st.idx < st'.idx ∧
        env.stop band = false := by
  obtain ⟨hlab, hidx⟩ := h
  by_cases hlt : st.idx < spectrumLen (settings p)
  · have hband : st.idx = 308 * band := by omega
    have hroom : ¬ (settings p).spectrumLen.toUInt32.toNat ≤ st.idx := Nat.not_le.mpr hlt
    cases hstop : env.stop band with
    | true => exact .inl ⟨by simp only [bandPass, hroom, hlab.sumLen, hstop, if_false, if_true], .inr rfl⟩
    | false =>
      right
      obtain ⟨tempFreq, tempRfLevel, error, hone, hs1, hs2, hcell, hdone⟩ := oneBand_spec env p band
        (wholeMhz (centerFreq (settings p) st.idx)) hlab.tempFreqSize hlab.tempRfLevelSize
      rw [centerFreq] at hone
      by_cases herror : error = 0
      · right
        have hread : Labelled p band { st with tempFreq, tempRfLevel } := ⟨hlab.le, hlab.freqSize,
          hlab.spectrumSize, hlab.idxs, hlab.labels, hs1, hs2, hlab.sumLen⟩
        obtain ⟨st', htake, hlab', hidx'⟩ := hread.takeBand (by rw [hband] at hcell; exact hcell herror)
          hband
        rw [hlab.sumLen] at htake
        refine ⟨st', ?_, ⟨hlab', hidx'⟩, by omega, rfl⟩
        simp only [bandPass, hroom, hlab.sumLen, hstop, if_false, hone, herror, ne_eq,
          not_true_eq_false, htake, Bool.false_eq_true]
      · left
        exact ⟨error, by simp only [bandPass, hroom, hlab.sumLen, hstop, if_false, hone, ne_eq, herror,
          not_false_eq_true, if_true, Bool.false_eq_true], fun h => herror (hdone h)⟩
  · exact .inl ⟨if_pos (Nat.not_lt.mp hlt), .inl (Nat.not_lt.mp hlt)⟩

/-- What is known behind a pass that does not leave the loop. -/
theorem bandPass_again {band : ℕ} {t : Scan} (h : AtBand p band st)
    (hpass : bandPass env (settings p) st = .again t) :
    AtBand p (band + 1) t ∧ st.idx < t.idx ∧ env.stop band = false := by
  rcases bandPass_cases env h with ⟨hexit, -⟩ | ⟨error, hexit, -⟩ | ⟨st', hagain, hat', hlt, hgo⟩
  · rw [hexit] at hpass
    cases hpass
  · rw [hexit] at hpass
    cases hpass
  · rw [hagain] at hpass
    cases hpass
    exact ⟨hat', hlt, hgo⟩

theorem start_atBand (hlen : 0 ≤ (settings p).spectrumLen.toInt) : AtBand p 0 (start (settings p)) := by
  have hsize := (Stid135.SpectrumFft.toUInt32_toNat_of_nonneg hlen).symm
  refine ⟨⟨Nat.zero_le _, hsize, hsize, rfl, fun k hk => absurd hk (Nat.not_lt_zero k), rfl, rfl, rfl⟩,
    ?_⟩
  rw [Nat.mul_zero, Nat.zero_min]
  rfl

/-- Where the passes get, nothing was told to stop before. -/
theorem visits_atBand {s : Scan} (hs : AtBand p 0 s) (h : Visits (bandPass env (settings p)) s st) :
    ∃ band, AtBand p band st ∧ ∀ b < band, env.stop b = false := by
  refine @Visits.invariant _ _ _ _ _ (fun st => ∃ band, AtBand p band st ∧ ∀ b < band, env.stop b = false)
    ⟨0, hs, fun b hb => absurd hb (Nat.not_lt_zero b)⟩ ?_ h
  rintro a t ⟨band, hat, hgo⟩ hpass
  obtain ⟨hat', -, hstop⟩ := bandPass_again hat hpass
  refine ⟨band + 1, hat', fun b hb => ?_⟩
  rcases Nat.lt_succ_iff_lt_or_eq.mp hb with hb | rfl
  · exact hgo b hb
  · exact hstop

theorem bands_terminate (env : Env) (hlen : 0 ≤ (settings p).spectrumLen.toInt) :
    Terminates (bandPass env (settings p)) (start (settings p)) := by
  have hstep : ∀ a b, (∃ band, AtBand p band a) → bandPass env (settings p) a = .again b →
      (∃ band, AtBand p band b) ∧ spectrumLen (settings p) - b.idx < spectrumLen (settings p) - a.idx := by
    rintro a b ⟨band, hat⟩ hpass
    obtain ⟨hat', hlt, -⟩ := bandPass_again hat hpass
    have hle := hat'.1.le
    exact ⟨⟨_, hat'⟩, by omega⟩
  exact terminates_of_measure (fun st => spectrumLen (settings p) - st.idx) hstep ⟨0, start_atBand hlen⟩

theorem report_present {freq : Buffer Int32} {levels : Buffer Level} {bins : List Bin} {ss : Settings}
    (h : report ss st = .present freq levels bins) : freq = st.freq ∧ bins = st.bins := by
  rw [report] at h
  split at h
  · rename_i f l b hfinish
    cases h
    rw [finish] at hfinish
    split at hfinish
    · cases hfinish
    · cases hfinish
      exact ⟨rfl, rfl⟩
  · cases h

theorem len_nonneg_of_memory (h : env.kzalloc 0 (spectrumBytes (settings p)) = true) :
    0 ≤ (settings p).spectrumLen.toInt := by
  by_contra hneg
  have := env.memory 0 _ (Stid135.SpectrumFft.bytes_of_neg (x := (settings p).spectrumLen) (by omega))
  rw [show (settings p).spectrumLen.toInt64.toUInt64 * 4 = spectrumBytes (settings p) from rfl, h] at this
  cases this

/-- The memory there is to be. -/
def Env.Memory (env : Env) (p : ScanRange) : Prop :=
  env.kzalloc 0 (spectrumBytes (settings p)) ∧ env.kzalloc 1 (spectrumBytes (settings p)) ∧
    env.kzalloc 2 (8192 * 4) ∧ env.kzalloc 3 (8192 * 4)

theorem getSpectrumScanFft_accepted (hrange : ¬ p.scanEndFrequency < p.scanStartFrequency)
    (hmem : env.Memory p) (n : ℕ) : getSpectrumScanFft env p n =
      (run (bandPass env (settings p)) n (start (settings p))).map (Sum.elim (report (settings p)) id) := by
  rw [getSpectrumScanFft, if_neg hrange]
  exact if_neg (not_not.mpr hmem)

theorem getSpectrumScanFft_refused (env : Env) (p : ScanRange) (n : ℕ) :
    p.scanEndFrequency < p.scanStartFrequency ∧ getSpectrumScanFft env p n = some .fullyDone ∨
      ¬ p.scanEndFrequency < p.scanStartFrequency ∧ (env.Memory p ∨
        getSpectrumScanFft env p n = some (.failed (-1))) := by
  by_cases hrange : p.scanEndFrequency < p.scanStartFrequency
  · exact .inl ⟨hrange, by rw [getSpectrumScanFft, if_pos hrange]⟩
  · refine .inr ⟨hrange, ?_⟩
    by_cases hmem : env.Memory p
    · exact .inl hmem
    · exact .inr (by rw [getSpectrumScanFft, if_neg hrange]; exact if_pos hmem)

/-- A spectrum that is reported: as many bands as were taken over before the end or a stop. -/
theorem scan_present {n : ℕ} {freq : Buffer Int32} {levels : Buffer Level} {bins : List Bin}
    (h : getSpectrumScanFft env p n = some (.present freq levels bins)) :
    0 ≤ (settings p).spectrumLen.toInt ∧ ∃ band st, AtBand p band st ∧ (∀ b < band, env.stop b = false) ∧
      (spectrumLen (settings p) ≤ st.idx ∨ env.stop band = true) ∧ freq = st.freq ∧ bins = st.bins := by
  rcases getSpectrumScanFft_refused env p n with ⟨-, hdone⟩ | ⟨hrange, hmem | hfail⟩
  · rw [hdone] at h
    cases h
  · have hlen := len_nonneg_of_memory hmem.1
    rw [getSpectrumScanFft_accepted hrange hmem] at h
    obtain ⟨x, hrun, hx⟩ := Option.map_eq_some_iff.mp h
    obtain ⟨st, hvisits, hexit⟩ := Ends.visits ⟨n, hrun⟩
    obtain ⟨band, hat, hgo⟩ := visits_atBand (start_atBand hlen) hvisits
    refine ⟨hlen, band, st, hat, hgo, ?_⟩
    rcases bandPass_cases env hat with ⟨hend, hwhy⟩ | ⟨error, hend, -⟩ | ⟨st', hagain, -⟩
    · rw [hend] at hexit
      cases hexit
      exact ⟨hwhy, report_present hx⟩
    · rw [hend] at hexit
      cases hexit
      cases hx
    · rw [hagain] at hexit
      cases hexit
  · rw [hfail] at h
    cases h

theorem getSpectrumScanFft_ends (env : Env) (p : ScanRange) :
    ∃ n r, getSpectrumScanFft env p n = some r := by
  rcases getSpectrumScanFft_refused env p 0 with ⟨-, hdone⟩ | ⟨hrange, hmem | hfail⟩
  · exact ⟨0, _, hdone⟩
  · obtain ⟨r, n, hrun⟩ := bands_terminate env (len_nonneg_of_memory hmem.1)
    exact ⟨n, _, by rw [getSpectrumScanFft_accepted hrange hmem, hrun, Option.map_some]⟩
  · exact ⟨0, _, hfail⟩

theorem report_spec (p : ScanRange) (h : st.spectrum.size = (settings p).spectrumLen.toInt.toNat) :
    ∃ levels, report (settings p) st = .present st.freq levels st.bins := by
  obtain ⟨levels, hfinish, -⟩ := Stid135.SpectrumFft.finish_spec h
  exact ⟨levels, by rw [report, hfinish]⟩

/-- A scan of which every band can be read ends with a spectrum. -/
theorem scan_reports (env : Env) (p : ScanRange) (hrange : ¬ p.scanEndFrequency < p.scanStartFrequency) (hmem : env.Memory p)
    (hdone : ∀ band, (env.chip band).Done) :
    ∃ n freq levels bins, getSpectrumScanFft env p n = some (.present freq levels bins) := by
  have hlen := len_nonneg_of_memory hmem.1
  obtain ⟨x, n, hrun⟩ := bands_terminate env hlen
  obtain ⟨st, hvisits, hexit⟩ := Ends.visits ⟨n, hrun⟩
  obtain ⟨band, hat, -⟩ := visits_atBand (start_atBand hlen) hvisits
  rcases bandPass_cases env hat with ⟨hend, -⟩ | ⟨error, -, hfail⟩ | ⟨st', hagain, -⟩
  · rw [hend] at hexit
    cases hexit
    obtain ⟨levels, hreport⟩ := report_spec p
      (hat.1.spectrumSize.trans (Stid135.SpectrumFft.toUInt32_toNat_of_nonneg hlen))
    refine ⟨n, st.freq, levels, st.bins, ?_⟩
    rw [getSpectrumScanFft_accepted hrange hmem, hrun, Option.map_some, Sum.elim_inl, hreport]
  · exact absurd (hdone band) hfail
  · rw [hagain] at hexit
    cases hexit

/-! ### When the axis is right -/

/-- Every index of the spectrum was written once, and its frequencies rise and are within a step of where
    they are due. -/
structure Exact (p : ScanRange) (freq : Buffer Int32) (bins : List Bin) : Prop where
  once : ∀ k : ℕ, k < (settings p).spectrumLen.toInt → (bins.map Bin.idx).count k = 1
  rising : ∀ j k : ℕ, j < k → k < (settings p).spectrumLen.toInt →
    (freq.cell j).toInt < (freq.cell k).toInt
  close : ∀ k : ℕ, k < (settings p).spectrumLen.toInt →
    |(freq.cell k).toInt - (p.scanStartFrequency.toInt + k * (settings p).frequencyStep.toInt)| <
      (settings p).frequencyStep.toInt

/-- Nothing is to be scanned, as the number of bins wraps around to none; or the scan is not stopped at
    its beginning, one band is enough, its centre is near a whole MHz, and the last label still fits. -/
def ScanRange.OneNearBand (p : ScanRange) (stop : ℕ → Bool) : Prop :=
  let start := p.scanStartFrequency.toInt
  let width := p.scanEndFrequency.toInt - start
  2 ^ 32 - 373 < width ∨
    stop 0 = false ∧ width ≤ 57596 ∧ NearMhz (start + 28798) ∧
      start + (width - 1) / 187 * 187 + (500 - (start + 28798 + 500) % 1000) < 2 ^ 31

theorem step_toInt (p : ScanRange) : (settings p).frequencyStep.toInt = 187 := rfl

theorem numBins_cases (h : p.scanStartFrequency < p.scanEndFrequency) :
    let width := p.scanEndFrequency.toInt - p.scanStartFrequency.toInt
    0 < width ∧
      (width + 186 < 2 ^ 31 ∧ (settings p).spectrumLen.toInt = (width + 186) / 187 ∨
        2 ^ 31 ≤ width + 186 ∧ (settings p).spectrumLen.toInt ≤ 0 ∧
          ((settings p).spectrumLen.toInt = 0 ↔ 2 ^ 32 - 373 < width)) := by
  intro width
  have hwidth : 0 < width := Int.sub_pos.mpr (Int32.lt_iff_toInt_lt.mp h)
  have hle := Int32.le_toInt p.scanStartFrequency
  have hlt := Int32.toInt_lt p.scanEndFrequency
  refine ⟨hwidth, ?_⟩
  have hval : (settings p).spectrumLen.toInt = ((width + 186).bmod (2 ^ 32)).tdiv 187 := by
    change (numBins p.scanStartFrequency p.scanEndFrequency 187).toInt = _
    have hsum : (p.scanEndFrequency - p.scanStartFrequency + 187 - 1).toInt =
        (width + 186).bmod (2 ^ 32) := by
      rw [Int32.sub_eq_add_neg _ 1, Int32.add_assoc, show (187 : Int32) + -1 = 186 from rfl,
        Int32.toInt_add, Int32.toInt_sub, Int.bmod_add_bmod]
      rfl
    rw [numBins, Int32.toInt_div_of_ne_right _ _ (by decide), hsum]
    rfl
  rw [hval]
  obtain ⟨q, hq, h1, h2⟩ := Stid135.SpectrumFft.bmod_spec (width + 186)
  rw [hq] at h1 h2 ⊢
  by_cases hfits : width + 186 < 2 ^ 31
  · have hq0 : q = 0 := by omega
    rw [hq0, Int.zero_mul, Int.add_zero, Int.tdiv_eq_ediv_of_nonneg (by omega)]
    exact .inl ⟨hfits, rfl⟩
  · right
    refine ⟨by omega, ?_⟩
    by_cases hneg : width + 186 + q * 2 ^ 32 < 0
    · obtain ⟨y, hy⟩ : ∃ y, width + 186 + q * 2 ^ 32 = -y := ⟨_, (Int.neg_neg _).symm⟩
      rw [hy, Int.neg_tdiv, Int.tdiv_eq_ediv_of_nonneg (by omega)]
      omega
    · rw [Int.tdiv_eq_ediv_of_nonneg (by omega)]
      omega

theorem centerFreq_toInt (p : ScanRange) (first : ℕ) : (centerFreq (settings p) first).toInt =
    (p.scanStartFrequency.toInt + (first + 154) * 187).bmod (2 ^ 32) := by
  rw [centerFreq, settings_useable, Int32.toInt_add, Int32.toInt_mul, ← Int32.ofInt_eq_ofNat,
    Int32.toInt_ofInt, step_toInt, Int.bmod_mul_bmod, Int.add_bmod_bmod]
  push_cast
  rfl

theorem label_toInt (p : ScanRange) (k : ℕ) : (label p k).toInt =
    (p.scanStartFrequency.toInt + k * 187 +
      (shift (centerFreq (settings p) (k - k % 308))).toInt).bmod (2 ^ 32) := by
  rw [label_eq, Int32.toInt_add, Int32.toInt_add, Int32.toInt_mul, ← Int32.ofInt_eq_ofNat,
    Int32.toInt_ofInt, show (187 : Int32).toInt = 187 from rfl, Int.bmod_mul_bmod, Int.add_bmod_bmod,
    Int.bmod_add_bmod]
  rfl

/-- A label that is next to what is due. -/
theorem label_close {k : ℕ}
    (h : |(label p k).toInt - (p.scanStartFrequency.toInt + k * 187)| < 187) :
    NearMhz (centerFreq (settings p) (k - k % 308)).toInt ∧
      (label p k).toInt = p.scanStartFrequency.toInt + k * 187 +
        (shift (centerFreq (settings p) (k - k % 308))).toInt := by
  have hlabel := label_toInt p k
  rw [← shift_small_iff]
  generalize shift (centerFreq (settings p) (k - k % 308)) = d at hlabel ⊢
  obtain ⟨q, hq, -, -⟩ := Stid135.SpectrumFft.bmod_spec (p.scanStartFrequency.toInt + k * 187 + d.toInt)
  have hd := Int32.le_toInt d
  have hd' := Int32.toInt_lt d
  obtain ⟨hl, hr⟩ := abs_lt.mp h
  rw [hlabel, hq] at hl hr ⊢
  have hq0 : q = 0 := by omega
  rw [hq0] at hl hr ⊢
  exact ⟨abs_lt.mpr ⟨by omega, by omega⟩, by omega⟩

/-- The labels of a band whose centre is near a whole MHz, as long as they fit. -/
theorem label_of_near {k : ℕ} (h : NearMhz (centerFreq (settings p) (k - k % 308)).toInt)
    (hle : -2 ^ 31 + 187 ≤ p.scanStartFrequency.toInt)
    (hlt : p.scanStartFrequency.toInt + k * 187 +
      (shift (centerFreq (settings p) (k - k % 308))).toInt < 2 ^ 31) :
    (label p k).toInt = p.scanStartFrequency.toInt + k * 187 +
      (shift (centerFreq (settings p) (k - k % 308))).toInt := by
  obtain ⟨hl, hr⟩ := abs_lt.mp ((shift_small_iff _).mpr h)
  rw [label_toInt]
  exact Int.bmod_eq_of_le (by omega) (by omega)

theorem not_near_twice (p : ScanRange) (h : NearMhz (centerFreq (settings p) 0).toInt)
    (h' : NearMhz (centerFreq (settings p) 308).toInt) : False := by
  have h0 := centerFreq_toInt p 0
  have h1 := centerFreq_toInt p 308
  have hnear := h.above
  have hnear' := h.below
  have hnext := h'.above
  have hnext' := h'.below
  have hlo := h'.le
  have hlo' := h.le
  have hhi := h.lt
  obtain ⟨q, hq, -, hlt⟩ :=
    Stid135.SpectrumFft.bmod_spec (p.scanStartFrequency.toInt + ((0 : ℕ) + 154) * 187)
  obtain ⟨q', hq', -, hlt'⟩ :=
    Stid135.SpectrumFft.bmod_spec (p.scanStartFrequency.toInt + ((308 : ℕ) + 154) * 187)
  rw [hq] at hlt h0
  rw [hq'] at hlt' h1
  have hqq : q' = q := by omega
  omega

theorem count_range_iff {n k : ℕ} : (List.range n).count k = 1 ↔ k < n := by
  rw [List.nodup_range.count]
  split
  · exact iff_of_true rfl (List.mem_range.mp ‹_›)
  · exact iff_of_false Nat.zero_ne_one (fun h => absurd (List.mem_range.mpr h) ‹_›)

theorem near_of_first (h : NearMhz (centerFreq (settings p) 0).toInt) :
    NearMhz (p.scanStartFrequency.toInt + 28798) ∧
      (centerFreq (settings p) 0).toInt = p.scanStartFrequency.toInt + 28798 := by
  obtain ⟨q, hq, -, -⟩ :=
    Stid135.SpectrumFft.bmod_spec (p.scanStartFrequency.toInt + ((0 : ℕ) + 154) * 187)
  have hval := (centerFreq_toInt p 0).trans hq
  have hle := Int32.le_toInt p.scanStartFrequency
  have hlt := Int32.toInt_lt p.scanStartFrequency
  have h1 := h.le
  have h2 := h.lt
  have heq : (centerFreq (settings p) 0).toInt = p.scanStartFrequency.toInt + 28798 := by
    omega
  exact ⟨heq ▸ h, heq⟩

theorem first_of_near (h : NearMhz (p.scanStartFrequency.toInt + 28798)) :
    (centerFreq (settings p) 0).toInt = p.scanStartFrequency.toInt + 28798 := by
  have h1 := h.le
  have h2 := h.lt
  rw [centerFreq_toInt, Int.bmod_eq_of_le (by omega) (by omega)]
  rfl

theorem spectrumLen_eq (h : 0 ≤ (settings p).spectrumLen.toInt) :
    (spectrumLen (settings p) : ℤ) = (settings p).spectrumLen.toInt := by
  have := Stid135.SpectrumFft.toUInt32_toNat_of_nonneg h
  rw [spectrumLen]
  omega

/-- An axis that is right is that of one band, near a whole MHz. -/
theorem Labelled.near {band : ℕ} (h : p.scanStartFrequency < p.scanEndFrequency)
    (hnonneg : 0 ≤ (settings p).spectrumLen.toInt) (hlab : Labelled p band st)
    (hgo : ∀ b < band, env.stop b = false) (hidx : st.idx = min (308 * band) (spectrumLen (settings p)))
    (hexact : Exact p st.freq st.bins) : p.OneNearBand env.stop := by
  obtain ⟨hwidth, hlen⟩ := numBins_cases h
  have hnat := spectrumLen_eq hnonneg
  rw [ScanRange.OneNearBand]
  rcases hlen with ⟨hfits, hlen⟩ | ⟨-, hle, hzero⟩
  · right
    have hall : st.idx = spectrumLen (settings p) := by
      have hlast := hexact.once (spectrumLen (settings p) - 1) (by omega)
      rw [hlab.idxs, count_range_iff] at hlast
      have := hlab.le
      omega
    have hnear : ∀ k : ℕ, k < spectrumLen (settings p) →
        NearMhz (centerFreq (settings p) (k - k % 308)).toInt ∧
          (label p k).toInt = p.scanStartFrequency.toInt + k * 187 +
            (shift (centerFreq (settings p) (k - k % 308))).toInt := by
      intro k hk
      have hk' := hexact.close k (by omega)
      rw [hlab.labels k (by omega), step_toInt] at hk'
      exact label_close hk'
    obtain ⟨hfirst, heq⟩ := near_of_first (hnear 0 (by omega)).1
    have hone : spectrumLen (settings p) ≤ 308 := by
      by_contra hmore
      exact not_near_twice p (hnear 0 (by omega)).1 (hnear 308 (by omega)).1
    obtain ⟨hlastNear, hlast⟩ := hnear (spectrumLen (settings p) - 1) (by omega)
    have hmod : spectrumLen (settings p) - 1 - (spectrumLen (settings p) - 1) % 308 = 0 := by omega
    rw [hmod] at hlastNear hlast
    rw [shift_of_near hlastNear, heq] at hlast
    have htop := Int32.toInt_lt (label p (spectrumLen (settings p) - 1))
    exact ⟨hgo 0 (by omega), by omega, hfirst, by omega⟩
  · exact .inl (hzero.mp (by omega))

/-- A band near a whole MHz has all its labels moved by less than a step. -/
theorem Labelled.exact {band : ℕ} (hnonneg : 0 ≤ (settings p).spectrumLen.toInt)
    (hlab : Labelled p band st) (hall : st.idx = spectrumLen (settings p)) (hone : st.idx ≤ 308)
    (hnear : NearMhz (p.scanStartFrequency.toInt + 28798))
    (hlast : p.scanStartFrequency.toInt + (st.idx - 1) * 187 +
      (500 - (p.scanStartFrequency.toInt + 28798 + 500) % 1000) < 2 ^ 31) :
    Exact p st.freq st.bins := by
  have hnat := spectrumLen_eq hnonneg
  have hcenter := first_of_near hnear
  have hshift := shift_of_near (hcenter ▸ hnear)
  have hsmall := abs_lt.mp ((shift_small_iff _).mpr (hcenter ▸ hnear))
  rw [hshift, hcenter] at hsmall
  rw [hcenter] at hshift
  have hdue : ∀ k : ℕ, k < (settings p).spectrumLen.toInt → (st.freq.cell k).toInt =
      p.scanStartFrequency.toInt + k * 187 +
        (500 - (p.scanStartFrequency.toInt + 28798 + 500) % 1000) := by
    intro k hk
    have hmod : k - k % 308 = 0 := by omega
    have hle := hnear.le
    rw [hlab.labels k (by omega), label_of_near (by rw [hmod, hcenter]; exact hnear) (by omega)
      (by rw [hmod, hshift]; omega), hmod, hshift]
  constructor
  · intro k hk
    rw [hlab.idxs, count_range_iff]
    omega
  · intro j k hjk hk
    rw [hdue j (by omega), hdue k hk]
    omega
  · intro k hk
    rw [hdue k hk, step_toInt, abs_lt]
    omega

/-- The axis of a spectrum that is reported is right if and only if a single band near a whole MHz is
    enough for it and the scan was not stopped before that. -/
theorem axis_exact_iff (env : Env) (p : ScanRange) (h : p.scanStartFrequency < p.scanEndFrequency)
    {n : ℕ} {freq : Buffer Int32} {levels : Buffer Level} {bins : List Bin}
    (hpresent : getSpectrumScanFft env p n = some (.present freq levels bins)) :
    Exact p freq bins ↔ p.OneNearBand env.stop := by
  obtain ⟨hnonneg, band, st, ⟨hlab, hidx⟩, hgo, hwhy, rfl, rfl⟩ := scan_present hpresent
  refine ⟨hlab.near h hnonneg hgo hidx, fun hcond => ?_⟩
  obtain ⟨hwidth, hlen⟩ := numBins_cases h
  have hnat := spectrumLen_eq hnonneg
  have hmax := Int32.toInt_lt p.scanEndFrequency
  rcases hcond with hwrap | ⟨hstop, hone, hnear, hlast⟩
  · have hzero : (settings p).spectrumLen.toInt = 0 := by omega
    exact ⟨fun k hk => by omega, fun j k _ hk => by omega, fun k hk => by omega⟩
  · have hband : band ≠ 0 := by
      rintro rfl
      rcases hwhy with hle | hstop'
      · omega
      · rw [hstop] at hstop'
        cases hstop'
    exact hlab.exact hnonneg (by omega) (by omega) hnear (by omega)

theorem huge_refused : ∀ (_ : ℕ) (n : UInt64), 2 ^ 63 ≤ n.toNat → decide (n.toNat < 2 ^ 63) = false :=
  fun _ _ hn => decide_eq_false (by omega)

/-- A chip that locks at once and has the FFT done. -/
def quietEnv : Env where
  kzalloc _ n := decide (n.toNat < 2 ^ 63)
  memory := huge_refused
  stop _ := false
  intlog10 _ := 0
  chip _ := ⟨true, fun _ => 0, fun _ => false, 0, fun _ => (0, 0)⟩

theorem quietEnv_done (band : ℕ) : (quietEnv.chip band).Done :=
  ⟨rfl, by rw [waitFftDone]; exact if_pos (show (0 : UInt32) &&& 0x80 = 0 by decide)⟩

/-- A single band around 1000 MHz. -/
theorem axis_exact_narrow : ∃ n freq levels bins,
    getSpectrumScanFft quietEnv ⟨971202, 1021202⟩ n = some (.present freq levels bins) ∧
      Exact ⟨971202, 1021202⟩ freq bins := by
  obtain ⟨n, freq, levels, bins, h⟩ := scan_reports quietEnv ⟨971202, 1021202⟩
    (by decide) ⟨rfl, rfl, rfl, rfl⟩ quietEnv_done
  exact ⟨n, freq, levels, bins, h, (axis_exact_iff quietEnv _ (by decide) h).mpr
    (.inr ⟨rfl, by decide, ⟨by decide, by decide, by decide, by decide⟩, by decide⟩)⟩

/-- The whole range of a satellite, with nothing that goes wrong: its first bin is labelled 950202. -/
theorem axis_inexact : ∃ n freq levels bins,
    getSpectrumScanFft quietEnv ⟨950000, 2150000⟩ n = some (.present freq levels bins) ∧
      ¬ Exact ⟨950000, 2150000⟩ freq bins := by
  obtain ⟨n, freq, levels, bins, h⟩ := scan_reports quietEnv ⟨950000, 2150000⟩
    (by decide) ⟨rfl, rfl, rfl, rfl⟩ quietEnv_done
  refine ⟨n, freq, levels, bins, h, fun hexact => ?_⟩
  obtain ⟨hnonneg, band, st, ⟨hlab, hidx⟩, hgo, -, rfl, rfl⟩ := scan_present h
  rcases hlab.near (by decide) hnonneg hgo hidx hexact with hwrap | ⟨-, hone, -⟩
  · exact absurd hwrap (by decide)
  · exact absurd hone (by decide)

end M88rs.SpectrumFft

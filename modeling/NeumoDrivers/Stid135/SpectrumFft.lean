import NeumoDrivers.Lib.Buffers
import NeumoDrivers.Lib.Loop
import NeumoDrivers.Stid135.PsdMem

/-! Taking a spectrum with the FFT of a demodulator, as far as it goes over the bands and puts them
    together (`get_spectrum_scan_fft` of `stid135-fft.c`).

    A band is as many bins as the FFT has, of which only the middle is used: its edges overlap those of
    its neighbours, and are compared with them to level out the bands. -/

namespace Stid135.SpectrumFft
open Buffers Loop

/-- What is asked for: frequencies and resolution in kHz. -/
structure ScanRequest where
  scanStartFrequency : Int32
  scanEndFrequency : Int32
  scanResolution : Int32
  scanFftSize : Int32

/-- What is known before the first band: the mode of the chip, and what is kept in `ss`. -/
structure Settings where
  fftSize : ℕ
  mode : ℕ
  startFrequency : Int32
  frequencyStep : Int32
  range : Int32
  spectrumLen : Int32

/-- The size that is asked for, or its default, and not more than the chip has. -/
def askedFftSize (scanFftSize : Int32) : ℕ :=
  let fftSize := if 0 < scanFftSize then scanFftSize else 512
  (if 4096 ≤ fftSize then 4096 else fftSize).toInt.toNat

/-- The loop over the modes from `mode` on: the mode and the size of the table. -/
def searchMode (fftSize : ℕ) : ℕ → ℕ → ℕ → ℕ × ℕ
  | 0, mode, tableSize => (mode, tableSize)
  | n + 1, mode, tableSize =>
    let tableSize := tableSize >>> 1
    if tableSize ≤ fftSize then (mode, tableSize) else searchMode fftSize n (mode + 1) tableSize

def modeAndSize (scanFftSize : Int32) : ℕ × ℕ := searchMode (askedFftSize scanFftSize) 5 1 8192

def maxRange : Int32 := 60000

/-- `frequency_step`: the resolution that is asked for, or its default, and less if the range of a band
    would be too large. -/
def frequencyStep (scanResolution : Int32) (fftSize : ℕ) : Int32 :=
  let resolution := if scanResolution = 0 then 50 else scanResolution
  if maxRange ≤ resolution * Int32.ofNat fftSize then maxRange / Int32.ofNat fftSize else resolution

/-- `spectrum_len`. -/
def numBins (startFrequency endFrequency frequencyStep : Int32) : Int32 :=
  (endFrequency - startFrequency + frequencyStep - 1) / frequencyStep

/-- The settings at the beginning of `get_spectrum_scan_fft`. -/
def settings (p : ScanRequest) : Settings :=
  let mode := (modeAndSize p.scanFftSize).1
  let fftSize := (modeAndSize p.scanFftSize).2
  let step := frequencyStep p.scanResolution fftSize
  { fftSize, mode, startFrequency := p.scanStartFrequency, frequencyStep := step,
    range := step * Int32.ofNat fftSize,
    spectrumLen := numBins p.scanStartFrequency p.scanEndFrequency step }

namespace Settings
variable (ss : Settings)

def useableSamples2 : ℕ := (ss.fftSize * 6 / 10 + 1) / 2

def lostSamples2 : ℕ := ss.fftSize / 2 - ss.useableSamples2

/-- The window of a band that is read: `start_idx` and `end_idx`. -/
def startIdx : ℤ := ss.lostSamples2 - 5

def endIdx : ℤ := ss.fftSize - ss.lostSamples2 + 5

end Settings

/-- The size of the FFT in `fe_stid135_fft`, from the mode that is programmed. -/
def fftSizeOfMode (mode : ℕ) : ℕ := 1 <<< (13 - mode)

/-! ### One band -/

/-- A level in `temp_rf_level` or the spectrum, and whether it was read out of the chip in the last
    acquisition rather than being left from before. -/
structure Level where
  value : Int32
  fresh : Bool

def Level.add (x : Level) (d : Int32) : Level := ⟨x.value + d, x.fresh⟩

/-- The average of two levels. -/
def Level.mid (x y : Level) : Level := ⟨(x.value + y.value) / 2, x.fresh && y.fresh⟩

/-- What comes from outside: the demodulator, which calls fail, how much memory there is, the power of
    the band, the logarithm `STLog10`, when the scan is to stop, and for each band what the acquisition
    leaves in the chip and in which of its two layouts. -/
structure Env where
  path : ℕ
  loError : Bool
  kzalloc : UInt64 → Bool
  setupError : Bool
  pbandx1000 : Int32
  stLog10 : UInt32 → Int32
  stop : ℕ → Bool
  chip : ℕ → PsdChip
  mode32bit : ℕ → Bool

/-- `fe_stid135_fft`: `rf_level` with the samples of the window, and the error. -/
def feStid135Fft (env : Env) (band mode : ℕ) (rfLevel : Buffer Level) (startIdx endIdx : ℤ) :
    Option (Buffer Level × FeLlaError) :=
  let (writes, error) := feStid135ReadPsdMem (env.chip band) env.path (env.mode32bit band)
    (fftSizeOfMode mode) startIdx endIdx
  ((rfLevel.map fun x => { x with fresh := false }).writeAll
    (writes.map fun w => (w.1, ⟨w.2, true⟩))).map fun rfLevel => (rfLevel, error)

/-- The frequency of bin `i` of a band. -/
def binFrequency (ss : Settings) (centerFreq : Int32) (i : ℤ) : Int32 :=
  Int32.ofInt (i - ss.fftSize / 2) * ss.range / Int32.ofNat ss.fftSize + centerFreq

/-- What is added to the level of a bin. -/
def levelCorrection (env : Env) (ss : Settings) (f : Int32) : Int32 :=
  let pbandx1000 := env.pbandx1000 + Int32.ofNat ss.mode * 6020
  let delta := 10 * (3000 + env.stLog10 ss.range.toUInt32 - env.stLog10 (UInt32.ofNat ss.fftSize))
  let correction1000 := (f / 1000 - 1550) * 1000 / 600
  pbandx1000 - delta + correction1000 * correction1000 / 1000

/-- Bin `i` of a band: its frequency, and its level in the spectrum. -/
def scaleBin (env : Env) (ss : Settings) (centerFreq : Int32) (i : ℤ)
    (temp : Buffer Int32 × Buffer Level) : Option (Buffer Int32 × Buffer Level) := do
  let f := binFrequency ss centerFreq i
  let freq ← temp.1.write i f
  let x ← temp.2.read i
  let rfLevel ← temp.2.write i (x.add (levelCorrection env ss f))
  some (freq, rfLevel)

/-- The middle of a band is taken from its neighbours: `a = 3`. -/
def patchBin (ss : Settings) (i : ℤ) (rfLevel : Buffer Level) : Option (Buffer Level) := do
  let x ← rfLevel.read (ss.fftSize / 2 - 3)
  let y ← rfLevel.read (ss.fftSize / 2 + 3)
  rfLevel.write (ss.fftSize / 2 + i) (x.mid y)

/-- `stid135_get_spectrum_scan_fft_one_band`: the frequencies and levels of a band. -/
def oneBand (env : Env) (ss : Settings) (band : ℕ) (centerFreq : Int32) (freq : Buffer Int32)
    (rfLevel : Buffer Level) : Option (Buffer Int32 × Buffer Level × FeLlaError) := do
  let (rfLevel, error) ← feStid135Fft env band ss.mode rfLevel ss.startIdx ss.endIdx
  let (freq, rfLevel) ← forUp (scaleBin env ss centerFreq) ss.fftSize 0 (freq, rfLevel)
  let rfLevel ← forUp (patchBin ss) 5 (-2) rfLevel
  some (freq, rfLevel, error)

/-! ### All bands -/

/-- One bin of the spectrum as it is written: where, from which position of the band, with which
    frequency and which level of the band. -/
structure Bin where
  idx : ℕ
  position : ℤ
  frequency : Int32
  sample : Level

/-- The state of the loop over the bands; `bins` are the bins written so far, `min_correction` and
    `max_correction` are pairs. -/
structure Scan where
  idx : ℕ
  freq : Buffer Int32
  spectrum : Buffer Level
  tempFreq : Buffer Int32
  tempRfLevel : Buffer Level
  lastAvg : Int32
  minCorrection : Int32 × Int32
  maxCorrection : Int32 × Int32
  sumCorrection : Int32
  sumLen : ℕ
  bins : List Bin

inductive Result where
  | fullyDone
  | loError
  | noMemory
  | setupError
  | outside
  | stopped
  | failed (error : FeLlaError)
  | spectrum (freq : Buffer Int32) (levels : Buffer Level) (bins : List Bin)

/-- The average of ten levels from `i` on, each with `correction`. -/
def average (rfLevel : Buffer Level) (i : ℤ) (correction : Int32) : Option Int32 :=
  (forUp (fun i sum => (rfLevel.read i).map fun x => sum + (x.value + correction)) 10 i 0).map (· / 10)

/-- The two lowest, or with `better` the other way the two highest, of the corrections so far. -/
def track (better : Int32 → Int32 → Bool) (correction : Int32) (best : Int32 × Int32) : Int32 × Int32 :=
  if better correction best.1 then (correction, best.1)
  else if better correction best.2 then (best.1, correction)
  else best

/-- The bins of a band from position `i` on. -/
def copyBins (ss : Settings) (correction : Int32) : ℕ → ℤ → Scan → Option Scan
  | 0, _, st => some st
  | n + 1, i, st =>
    if st.idx < ss.spectrumLen.toUInt32.toNat then do
      let f ← st.tempFreq.read i
      let freq ← st.freq.write st.idx f
      let x ← st.tempRfLevel.read i
      let spectrum ← st.spectrum.write st.idx (x.add correction)
      copyBins ss correction n (i + 1)
        { st with idx := st.idx + 1, freq, spectrum, bins := st.bins ++ [⟨st.idx, i, f, x⟩] }
    else some st

/-- The levels of a band are taken over, from `lost_samples2` on. -/
def takeBand (ss : Settings) (st : Scan) : Option Scan := do
  let currentAvg ← average st.tempRfLevel (ss.lostSamples2 - 5) 0
  let correction := if st.idx = 0 then 0 else -(currentAvg - st.lastAvg)
  let st ← copyBins ss correction (ss.fftSize - ss.lostSamples2 - ss.lostSamples2) ss.lostSamples2 st
  let lastAvg ← average st.tempRfLevel (ss.fftSize - ss.lostSamples2 - 5) correction
  some { st with
    lastAvg
    minCorrection := track (fun x y => decide (x < y)) correction st.minCorrection
    maxCorrection := track (fun x y => decide (y < x)) correction st.maxCorrection
    sumCorrection := st.sumCorrection + correction
    sumLen := st.sumLen + 1 }

/-- One pass of the loop over the bands. -/
def bandPass (env : Env) (ss : Settings) (st : Scan) : Next Scan (Scan ⊕ Result) :=
  if ss.spectrumLen.toUInt32.toNat ≤ st.idx then .exit (.inl st)
  else
    let centerFreq := ss.startFrequency +
      Int32.ofNat (st.idx + ss.useableSamples2) * ss.frequencyStep
    if env.stop st.sumLen then .exit (.inr .stopped)
    else
      match oneBand env ss st.sumLen centerFreq st.tempFreq st.tempRfLevel with
      | none => .exit (.inr .outside)
      | some (tempFreq, tempRfLevel, error) =>
        if error ≠ .noError then .exit (.inr (.failed error))
        else
          match takeBand ss { st with tempFreq, tempRfLevel } with
          | none => .exit (.inr .outside)
          | some st => .again st

/-- After the last band: the average correction is taken back, without its two extremes on each side. -/
def finish (ss : Settings) (st : Scan) : Result :=
  let spectrum :=
    if 4 < st.sumLen then
      let sumCorrection := st.sumCorrection -
        (st.minCorrection.1 + st.minCorrection.2 + st.maxCorrection.1 + st.maxCorrection.2)
      let correction := sumCorrection / Int32.ofNat (st.sumLen - 4)
      forUp (fun i spectrum => do
        let x ← spectrum.read i
        spectrum.write i (x.add (-correction))) ss.spectrumLen.toInt.toNat 0 st.spectrum
    else some st.spectrum
  match spectrum with
  | none => .outside
  | some spectrum => .spectrum st.freq spectrum st.bins

/-- Before the first band. -/
def start (ss : Settings) : Scan where
  idx := 0
  freq := ⟨ss.spectrumLen.toInt.toNat, fun _ => 0⟩
  spectrum := ⟨ss.spectrumLen.toInt.toNat, fun _ => ⟨0, false⟩⟩
  tempFreq := ⟨8192, fun _ => 0⟩
  tempRfLevel := ⟨8192, fun _ => ⟨0, false⟩⟩
  lastAvg := 0
  minCorrection := (0x7fffffff, 0x7fffffff)
  maxCorrection := (-0x80000000, -0x80000000)
  sumCorrection := 0
  sumLen := 0
  bins := []

/-- The size of `freq` and of `spectrum` in bytes; `size_t` has 64 bits. -/
def spectrumBytes (ss : Settings) : UInt64 := ss.spectrumLen.toInt64.toUInt64 * 4

/-- `get_spectrum_scan_fft`, if no more than `n` passes of its loop are needed. -/
def getSpectrumScanFft (env : Env) (p : ScanRequest) (n : ℕ) : Option Result :=
  let ss := settings p
  if p.scanEndFrequency < p.scanStartFrequency then some .fullyDone
  else if env.loError then some .loError
  else if ¬ (env.kzalloc (spectrumBytes ss) ∧ env.kzalloc (8192 * 4)) then some .noMemory
  else if env.setupError then some .setupError
  else (run (bandPass env ss) n (start ss)).map (Sum.elim (finish ss) id)

/-! ### The mode and the size of the FFT -/

/-- `get_spectrum_scan_fft` and `fe_stid135_fft` agree on the size, and the window lies in the memory. -/
def SizesAgree (p : ScanRequest) : Prop :=
  let ss := settings p
  ss.fftSize = fftSizeOfMode ss.mode ∧ 0 ≤ ss.startIdx ∧ ss.endIdx ≤ fftSizeOfMode ss.mode

instance (p : ScanRequest) : Decidable (SizesAgree p) := inferInstanceAs (Decidable (_ ∧ _ ∧ _))

theorem askedFftSize_eq (n : Int32) :
    askedFftSize n = if n.toInt ≤ 0 then 512 else min n.toInt.toNat 4096 := by
  dsimp only [askedFftSize]
  by_cases hn : 0 < n
  · have hpos : 0 < n.toInt := Int32.lt_iff_toInt_lt.mp hn
    rw [if_pos hn, if_neg (show ¬ n.toInt ≤ 0 by omega)]
    by_cases hbig : 4096 ≤ n
    · have hle : 4096 ≤ n.toInt := Int32.le_iff_toInt_le.mp hbig
      have hmax : (4096 : Int32).toInt.toNat = 4096 := by decide
      rw [if_pos hbig]
      omega
    · have hlt : ¬ 4096 ≤ n.toInt := fun h => hbig (Int32.le_iff_toInt_le.mpr h)
      rw [if_neg hbig]
      omega
  · have hle : ¬ 0 < n.toInt := fun h => hn (Int32.lt_iff_toInt_lt.mpr h)
    rw [if_neg hn, if_pos (show n.toInt ≤ 0 by omega)]
    rfl

theorem modeAndSize_eq (n : Int32) :
    modeAndSize n =
      if 4096 ≤ askedFftSize n then (1, 4096) else if 2048 ≤ askedFftSize n then (2, 2048)
      else if 1024 ≤ askedFftSize n then (3, 1024) else if 512 ≤ askedFftSize n then (4, 512)
      else if 256 ≤ askedFftSize n then (5, 256) else (6, 256) := rfl

/-- The modes that are programmed, each with the size it goes with but for the last, where the loop is
    left at its end. -/
theorem modeAndSize_cases (n : Int32) :
    (¬ (0 < n.toInt ∧ n.toInt < 256) ∧
        modeAndSize n ∈ [(1, 4096), (2, 2048), (3, 1024), (4, 512), (5, 256)]) ∨
      (0 < n.toInt ∧ n.toInt < 256) ∧ modeAndSize n = (6, 256) := by
  have hasked := askedFftSize_eq n
  rw [modeAndSize_eq]
  by_cases hsmall : 0 < n.toInt ∧ n.toInt < 256
  · have hlt : askedFftSize n < 256 := by
      rw [hasked, if_neg (by omega)]
      omega
    refine .inr ⟨hsmall, ?_⟩
    iterate 5 rw [if_neg (by omega)]
  · have hle : 256 ≤ askedFftSize n := by
      rw [hasked]
      split <;> omega
    refine .inl ⟨hsmall, ?_⟩
    split_ifs <;> decide

/-- The sizes agree but for a size below the smallest that is asked for. -/
theorem sizes_agree_iff (p : ScanRequest) :
    SizesAgree p ↔ ¬ (0 < p.scanFftSize.toInt ∧ p.scanFftSize.toInt < 256) := by
  have hsettings : SizesAgree p ↔ (modeAndSize p.scanFftSize).2 =
        fftSizeOfMode (modeAndSize p.scanFftSize).1 ∧ _ := Iff.rfl
  rw [hsettings]
  rcases modeAndSize_cases p.scanFftSize with ⟨hn, hmem⟩ | ⟨hn, heq⟩
  · refine ⟨fun _ => hn, fun _ => ?_⟩
    simp only [List.mem_cons, List.not_mem_nil, or_false] at hmem
    rcases hmem with h | h | h | h | h
    all_goals
      simp only [Settings.startIdx, Settings.endIdx, Settings.lostSamples2, Settings.useableSamples2,
        settings, h]
      decide
  · refine ⟨fun h => ?_, fun h => absurd hn h⟩
    rw [heq] at h
    exact absurd h.1 (by decide)

/-- With 128 points asked for, bands of 256 are put together and the chip is set to 128. -/
theorem sizes_differ : ¬ SizesAgree ⟨950000, 2150000, 50, 128⟩ := by decide

end Stid135.SpectrumFft

import Mathlib.Data.List.Count
import Mathlib.Tactic.Common
import Mathlib.Tactic.Ring

/-! Reading the spectrum of an acquisition out of the chip (`fe_stid135_read_psd_mem`).

    The memory of the FFT has lines of 16 bytes, each four samples of 32 bits or eight of 16. A line is
    asked for by its number, of which the chip takes ten bits, and is then in 16 registers. The samples
    are in reverse order: sample `k` of `N` belongs to bin `N - 1 - k`. -/

namespace Stid135

/-- What an acquisition leaves in the chip: the scale of the samples, the 16 registers once a line has
    been asked for, how often `MEM_STAT` is read before the line is there, and whether a call to the
    chip reports an error. -/
structure PsdChip where
  expMax : ℕ
  memory : ℕ → ℕ → UInt8
  memStat : ℕ → ℕ → Bool
  error : Bool

inductive FeLlaError where | noError | badParameter | noData | i2cError
  deriving DecidableEq

/-- `1 << log_samples_per_line`. -/
def samplesPerLine (mode32bit : Bool) : ℤ := if mode32bit then 4 else 8

/-- The value of the sample in the registers from `4 * reg` or `2 * reg` on. -/
def sampleValue (mode32bit : Bool) (exp : ℕ) (image : ℕ → UInt8) (reg : ℕ) : Int32 :=
  let val (k : ℕ) : UInt32 := (image k).toUInt32
  let raw :=
    if mode32bit then
      ((val (4 * reg) &&& 7) <<< 24) + (val (4 * reg + 1) <<< 16) + (val (4 * reg + 2) <<< 8) +
        val (4 * reg + 3)
    else (val (2 * reg) <<< 8) + val (2 * reg + 1)
  (raw * 3000 * 2 ^ exp / 64).toInt32

/-- What `MEM_ADDR` holds after its two bytes are set. -/
def memAddr (line : ℤ) : ℕ := (line / 256 % 4 * 256 + line % 256).toNat

/-- The value of `timeout` after waiting for the end of a transfer. -/
def waitTransfer (memStat : ℕ → Bool) : ℕ → ℕ → ℕ
  | 0, timeout => timeout
  | n + 1, timeout => if memStat timeout then timeout else waitTransfer memStat n (timeout + 1)

/-- The registers of a line from `reg` on: what is written to `rf_level`. -/
def readRegisters (fftSize : ℤ) (value : ℕ → Int32) : ℕ → ℤ → ℤ → List (ℤ × Int32)
  | 0, _, _ => []
  | n + 1, reg, idx =>
    let rest := readRegisters fftSize value n (reg + 1) (idx + 1)
    if idx < 0 ∨ fftSize - 1 < idx then rest else (fftSize - 1 - idx, value reg.toNat) :: rest

/-- The lines from `line` on: what is written to `rf_level`, in order. -/
def readLines (chip : PsdChip) (mode32bit : Bool) (fftSize startIdx endIdx : ℤ) :
    ℕ → ℤ → ℤ → List (ℤ × Int32) × FeLlaError
  | 0, _, _ => ([], if chip.error then .i2cError else .noError)
  | n + 1, line, idx =>
    let startRegister := idx - line * samplesPerLine mode32bit
    let numRegisters := min (samplesPerLine mode32bit - startRegister) (endIdx - idx)
    if fftSize - 1 - startIdx < idx then ([], if chip.error then .i2cError else .noError)
    else if waitTransfer (chip.memStat (memAddr line)) 20 0 = 20 then ([], .noData)
    else
      let value := sampleValue mode32bit chip.expMax (chip.memory (memAddr line))
      let writes := readRegisters fftSize value numRegisters.toNat startRegister idx
      let (rest, error) := readLines chip mode32bit fftSize startIdx endIdx n (line + 1)
        (idx + numRegisters.toNat)
      (writes ++ rest, error)

/-- `fe_stid135_read_psd_mem`: what is written to `rf_level`, and the error. -/
def feStid135ReadPsdMem (chip : PsdChip) (path : ℕ) (mode32bit : Bool) (fftSize startIdx endIdx : ℤ) :
    List (ℤ × Int32) × FeLlaError :=
  -- FE_SAT_DEMOD_4
  if 4 < path then ([], .badParameter)
  else
    let startLine := (fftSize - 1 - (endIdx - 1)) / samplesPerLine mode32bit
    let endLine := (fftSize - 1 - (startIdx - 1) + samplesPerLine mode32bit - 1) /
      samplesPerLine mode32bit
    readLines chip mode32bit fftSize startIdx endIdx (endLine - startLine).toNat startLine
      (fftSize - 1 - (endIdx - 1))

/-- Sample `k` of the memory, which has 1024 lines. -/
def PsdChip.sample (chip : PsdChip) (mode32bit : Bool) (k : ℤ) : Int32 :=
  let line := k / samplesPerLine mode32bit % 1024
  sampleValue mode32bit chip.expMax (chip.memory line.toNat) (k % samplesPerLine mode32bit).toNat

/-- Each line that is asked for is there in time. -/
def PsdChip.Ready (chip : PsdChip) : Prop := ∀ addr, ∃ t < 20, chip.memStat addr t = true

variable {chip : PsdChip} {mode32bit : Bool} {fftSize startIdx endIdx idx line reg a b i : ℤ}
variable {memStat : ℕ → Bool} {value : ℕ → Int32} {n : ℕ}

theorem memAddr_eq (line : ℤ) : memAddr line = (line % 1024).toNat := by
  unfold memAddr
  congr 1
  omega

theorem waitTransfer_lt {t : ℕ} (h : memStat t = true) :
    ∀ {n k : ℕ}, k ≤ t → t < k + n → waitTransfer memStat n k < k + n
  | 0, k, hk, ht => by omega
  | n + 1, k, hk, ht => by
    rw [waitTransfer]
    split
    · omega
    next hnot =>
      have hne : k ≠ t := by
        rintro rfl
        exact hnot h
      have := waitTransfer_lt h (n := n) (k := k + 1) (by omega) (by omega)
      omega

theorem PsdChip.Ready.transfer (h : chip.Ready) (addr : ℕ) :
    waitTransfer (chip.memStat addr) 20 0 ≠ 20 := by
  obtain ⟨t, ht, hstat⟩ := h addr
  have := waitTransfer_lt hstat (n := 20) (Nat.zero_le t) (by omega)
  omega

/-- The samples from `k` on, each where it belongs. -/
def samplesFrom (chip : PsdChip) (mode32bit : Bool) (fftSize : ℤ) : ℕ → ℤ → List (ℤ × Int32)
  | 0, _ => []
  | n + 1, k => (fftSize - 1 - k, chip.sample mode32bit k) :: samplesFrom chip mode32bit fftSize n (k + 1)

theorem samplesFrom_add {m : ℕ} : ∀ {n : ℕ} {k : ℤ},
    samplesFrom chip mode32bit fftSize (n + m) k =
      samplesFrom chip mode32bit fftSize n k ++ samplesFrom chip mode32bit fftSize m (k + n)
  | 0, k => by simp [samplesFrom]
  | n + 1, k => by
    have hk : k + ((n + 1 : ℕ) : ℤ) = k + 1 + n := by
      push_cast
      ring
    rw [Nat.add_right_comm, samplesFrom, samplesFrom, samplesFrom_add, hk, List.cons_append]

theorem PsdChip.sample_eq (hreg : 0 ≤ reg) (hlt : reg < samplesPerLine mode32bit) :
    chip.sample mode32bit (line * samplesPerLine mode32bit + reg) =
      sampleValue mode32bit chip.expMax (chip.memory (memAddr line)) reg.toNat := by
  have hdiv : (line * samplesPerLine mode32bit + reg) / samplesPerLine mode32bit = line := by
    rw [Int.add_comm, Int.add_mul_ediv_right _ _ (by omega), Int.ediv_eq_zero_of_lt hreg hlt]
    omega
  have hmod : (line * samplesPerLine mode32bit + reg) % samplesPerLine mode32bit = reg := by
    rw [Int.add_comm, Int.add_mul_emod_self_right, Int.emod_eq_of_lt hreg hlt]
  rw [sample, hdiv, hmod, memAddr_eq]

/-- The registers of a line that lies in the memory are samples of that line. -/
theorem readRegisters_eq {n : ℕ} (hreg : 0 ≤ reg) (hlt : reg + n ≤ samplesPerLine mode32bit)
    (hidx : idx = line * samplesPerLine mode32bit + reg) (h0 : 0 ≤ idx) (hN : idx + n ≤ fftSize) :
    readRegisters fftSize (sampleValue mode32bit chip.expMax (chip.memory (memAddr line))) n reg idx =
      samplesFrom chip mode32bit fftSize n idx := by
  induction n generalizing reg idx with
  | zero => rfl
  | succ n ih =>
    push_cast at hlt hN
    have hin : ¬ (idx < 0 ∨ fftSize - 1 < idx) := by omega
    have hrest : readRegisters fftSize _ n (reg + 1) (idx + 1) =
        samplesFrom chip mode32bit fftSize n (idx + 1) :=
      ih (by omega) (by omega) (by omega) (by omega) (by omega)
    rw [readRegisters, samplesFrom, if_neg hin, hrest, hidx, PsdChip.sample_eq hreg (by omega)]

/-- The lines that are left of a window are unpacked: `idx` is either in the line that is read next, or
    at the end of the window. -/
theorem readLines_window {s : ℤ} (hready : chip.Ready) (he : endIdx = fftSize - s) (hs : 0 ≤ s)
    (h0 : 0 ≤ idx)
    (hline : idx < endIdx → line * samplesPerLine mode32bit ≤ idx ∧
      idx < line * samplesPerLine mode32bit + samplesPerLine mode32bit)
    (hn : idx < endIdx → endIdx ≤ (line + n) * samplesPerLine mode32bit) :
    readLines chip mode32bit fftSize s endIdx n line idx =
      (samplesFrom chip mode32bit fftSize (endIdx - idx).toNat idx,
        if chip.error then .i2cError else .noError) := by
  induction n generalizing line idx with
  | zero =>
    have hle : (endIdx - idx).toNat = 0 := by
      by_contra hne
      have := hline (by omega)
      have := hn (by omega)
      rw [Int.natCast_zero, Int.add_zero] at this
      omega
    rw [readLines, hle, samplesFrom]
  | succ n ih =>
    rw [readLines]
    by_cases hlt : idx < endIdx
    · have hin := hline hlt
      have hend := hn hlt
      have hmul : (line + 1) * samplesPerLine mode32bit =
          line * samplesPerLine mode32bit + samplesPerLine mode32bit := by ring
      have hnext : (line + (n + 1 : ℕ)) * samplesPerLine mode32bit =
          (line + 1 + n) * samplesPerLine mode32bit := by
        push_cast
        ring
      rw [hnext] at hend
      obtain ⟨c, hc, hcw, hce, hlast⟩ : ∃ c : ℕ, (min (samplesPerLine mode32bit -
          (idx - line * samplesPerLine mode32bit)) (endIdx - idx)).toNat = c ∧
          idx + c ≤ line * samplesPerLine mode32bit + samplesPerLine mode32bit ∧ idx + c ≤ endIdx ∧
          (idx + c < endIdx → idx + c = line * samplesPerLine mode32bit + samplesPerLine mode32bit) :=
        ⟨_, rfl, by omega, by omega, by omega⟩
      have hregs : readRegisters fftSize (sampleValue mode32bit chip.expMax (chip.memory (memAddr line)))
          c (idx - line * samplesPerLine mode32bit) idx = samplesFrom chip mode32bit fftSize c idx :=
        readRegisters_eq (by omega) (by omega) (by omega) h0 (by omega)
      have hrest : readLines chip mode32bit fftSize s endIdx n (line + 1) (idx + c) = _ :=
        ih (by omega) (fun h => by
          have := hlast h
          omega) (fun _ => hend)
      have hcount : (endIdx - idx).toNat = c + (endIdx - (idx + c)).toNat := by omega
      dsimp only
      rw [if_neg (by omega), if_neg (hready.transfer _), hc, hregs, hrest, hcount, samplesFrom_add]
    · have hle : (endIdx - idx).toNat = 0 := by omega
      rw [if_pos (by omega), hle, samplesFrom]

theorem readPsdMem_window {path : ℕ} {s : ℤ} (hpath : path ≤ 4) (hready : chip.Ready) (hs : 0 ≤ s) :
    feStid135ReadPsdMem chip path mode32bit fftSize s (fftSize - s) =
      (samplesFrom chip mode32bit fftSize (fftSize - s - s).toNat s,
        if chip.error then .i2cError else .noError) := by
  have hstart : fftSize - 1 - (fftSize - s - 1) = s := by ring
  rw [feStid135ReadPsdMem, if_neg (by omega), hstart]
  refine readLines_window hready rfl hs hs ?_ ?_
  · intro _
    cases mode32bit <;> simp only [samplesPerLine, if_true, if_false, Bool.false_eq_true] <;> omega
  · intro _
    cases mode32bit <;> simp only [samplesPerLine, if_true, if_false, Bool.false_eq_true] <;> omega

theorem samplesFrom_count (i : ℤ) : ∀ {n : ℕ} {k : ℤ},
    ((samplesFrom chip mode32bit fftSize n k).map Prod.fst).count i =
      if fftSize - (k + n) ≤ i ∧ i ≤ fftSize - 1 - k then 1 else 0
  | 0, k => by
    rw [if_neg (by omega)]
    rfl
  | n + 1, k => by
    rw [samplesFrom, List.map_cons, List.count_cons, samplesFrom_count i]
    push_cast
    by_cases hi : i = fftSize - 1 - k
    · rw [if_neg (by omega), if_pos (by simp [hi]), if_pos (by omega)]
    · rw [if_neg (c := (_ == i) = true) (by simpa using Ne.symm hi)]
      exact if_congr (by omega) rfl rfl

theorem samplesFrom_value {w : ℤ × Int32} {n : ℕ} {k : ℤ}
    (h : w ∈ samplesFrom chip mode32bit fftSize n k) :
    w.2 = chip.sample mode32bit (fftSize - 1 - w.1) := by
  induction n generalizing k with
  | zero => cases h
  | succ n ih =>
    rcases List.mem_cons.mp h with rfl | h
    · dsimp only
      rw [show fftSize - 1 - (fftSize - 1 - k) = k by ring]
    · exact ih h

theorem samplesFrom_mem_iff {n : ℕ} {k : ℤ} :
    i ∈ (samplesFrom chip mode32bit fftSize n k).map Prod.fst ↔
      fftSize - (k + n) ≤ i ∧ i ≤ fftSize - 1 - k := by
  rw [← List.count_pos_iff, samplesFrom_count]
  split <;> simp_all

/-- Which bins are written does not depend on what is read. -/
theorem readRegisters_positions (value value' : ℕ → Int32) : ∀ (n : ℕ) (reg idx : ℤ),
    (readRegisters fftSize value n reg idx).map Prod.fst =
      (readRegisters fftSize value' n reg idx).map Prod.fst
  | 0, _, _ => rfl
  | n + 1, reg, idx => by
    have ih := readRegisters_positions value value' n (reg + 1) (idx + 1)
    rw [readRegisters, readRegisters]
    split
    · exact ih
    · rw [List.map_cons, List.map_cons, ih]

theorem readLines_positions {chip' : PsdChip} (h : chip.Ready) (h' : chip'.Ready)
    (herror : chip.error = chip'.error) : ∀ (n : ℕ) (line idx : ℤ),
    (readLines chip mode32bit fftSize startIdx endIdx n line idx).1.map Prod.fst =
        (readLines chip' mode32bit fftSize startIdx endIdx n line idx).1.map Prod.fst ∧
      (readLines chip mode32bit fftSize startIdx endIdx n line idx).2 =
        (readLines chip' mode32bit fftSize startIdx endIdx n line idx).2
  | 0, line, idx => ⟨rfl, by rw [readLines, readLines, herror]⟩
  | n + 1, line, idx => by
    rw [readLines, readLines, herror]
    dsimp only
    split
    · exact ⟨rfl, rfl⟩
    · obtain ⟨hpos, herr⟩ := readLines_positions h h' herror n (line + 1)
        (idx + ((min (samplesPerLine mode32bit - (idx - line * samplesPerLine mode32bit))
          (endIdx - idx)).toNat : ℤ))
      rw [if_neg (h.transfer _), if_neg (h'.transfer _), List.map_append, List.map_append, hpos, herr]
      exact ⟨(List.append_left_inj _).mpr (readRegisters_positions _ _ _ _ _), rfl⟩

theorem readPsdMem_positions {chip' : PsdChip} {path path' : ℕ} (hpath : path ≤ 4) (hpath' : path' ≤ 4)
    (h : chip.Ready) (h' : chip'.Ready) (herror : chip.error = chip'.error) (mode32bit : Bool)
    (fftSize startIdx endIdx : ℤ) :
    (feStid135ReadPsdMem chip path mode32bit fftSize startIdx endIdx).1.map Prod.fst =
        (feStid135ReadPsdMem chip' path' mode32bit fftSize startIdx endIdx).1.map Prod.fst ∧
      (feStid135ReadPsdMem chip path mode32bit fftSize startIdx endIdx).2 =
        (feStid135ReadPsdMem chip' path' mode32bit fftSize startIdx endIdx).2 := by
  rw [feStid135ReadPsdMem, feStid135ReadPsdMem, if_neg (by omega), if_neg (by omega)]
  exact readLines_positions h h' herror _ _ _

end Stid135

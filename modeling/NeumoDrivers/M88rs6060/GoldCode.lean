import NeumoDrivers.Lib.LinearRegister
import Mathlib.Data.Fintype.BigOperators
import Mathlib.Tactic.FinCases

/-! The gold code of a physical layer scrambling code (`m88rs6060_drv.c`).

    The code is what a shift register of 18 bits holds after as many steps. The driver keeps the bits in
    a variable each, and begins with the nearest of 53 states it has listed, 5000 steps apart. The register
    is additive, so that 5000 steps of it have columns, and each entry is checked with the one before. -/

namespace M88rs
open LinearRegister Function

/-- The three bytes of a code. -/
structure Code where
  byte0 : UInt8
  byte1 : UInt8
  byte2 : UInt8
  deriving DecidableEq, Inhabited

/-- `PLS_List`. -/
def plsList : List (ℕ × Code) :=
  [(0, ⟨0x01, 0x00, 0x00⟩), (5000, ⟨0x0d, 0xe0, 0x00⟩), (10000, ⟨0x51, 0x15, 0x00⟩),
    (15000, ⟨0xcf, 0xc9, 0x00⟩), (20000, ⟨0x67, 0x33, 0x03⟩), (25000, ⟨0x02, 0xc9, 0x02⟩),
    (30000, ⟨0xe5, 0xc6, 0x01⟩), (35000, ⟨0xdb, 0xc0, 0x03⟩), (40000, ⟨0x7c, 0x5f, 0x02⟩),
    (45000, ⟨0x8d, 0x65, 0x00⟩), (50000, ⟨0x14, 0x96, 0x00⟩), (55000, ⟨0xf7, 0x61, 0x03⟩),
    (60000, ⟨0xbc, 0x28, 0x00⟩), (65000, ⟨0x77, 0xa9, 0x01⟩), (70000, ⟨0xe7, 0x05, 0x01⟩),
    (75000, ⟨0x88, 0x85, 0x01⟩), (80000, ⟨0x2f, 0xbb, 0x02⟩), (85000, ⟨0xe1, 0x07, 0x00⟩),
    (90000, ⟨0xd5, 0x67, 0x01⟩), (95000, ⟨0x94, 0x37, 0x03⟩), (100000, ⟨0x57, 0x39, 0x02⟩),
    (105000, ⟨0xc7, 0x03, 0x00⟩), (110000, ⟨0xbf, 0x12, 0x00⟩), (115000, ⟨0x50, 0x0e, 0x00⟩),
    (120000, ⟨0xca, 0xc4, 0x00⟩), (125000, ⟨0x46, 0xc3, 0x00⟩), (130000, ⟨0x2f, 0xc6, 0x01⟩),
    (135000, ⟨0x7c, 0xe5, 0x01⟩), (140000, ⟨0xb9, 0x36, 0x01⟩), (145000, ⟨0x9d, 0xe5, 0x01⟩),
    (150000, ⟨0xc4, 0x32, 0x01⟩), (155000, ⟨0x13, 0xb3, 0x00⟩), (160000, ⟨0x0c, 0x9f, 0x02⟩),
    (165000, ⟨0xb2, 0xb5, 0x03⟩), (170000, ⟨0xac, 0x7e, 0x01⟩), (175000, ⟨0xb6, 0xa2, 0x01⟩),
    (180000, ⟨0xb6, 0x3e, 0x01⟩), (185000, ⟨0x17, 0x2c, 0x02⟩), (190000, ⟨0xd7, 0x2a, 0x02⟩),
    (195000, ⟨0x93, 0x61, 0x02⟩), (200000, ⟨0x67, 0x92, 0x02⟩), (205000, ⟨0x38, 0x07, 0x01⟩),
    (210000, ⟨0xb4, 0x5a, 0x01⟩), (215000, ⟨0xed, 0x31, 0x02⟩), (220000, ⟨0x9e, 0x4d, 0x02⟩),
    (225000, ⟨0x17, 0x08, 0x02⟩), (230000, ⟨0x37, 0xb9, 0x00⟩), (235000, ⟨0x2c, 0xed, 0x00⟩),
    (240000, ⟨0xe0, 0x64, 0x00⟩), (245000, ⟨0x90, 0x39, 0x01⟩), (250000, ⟨0x35, 0x0e, 0x01⟩),
    (255000, ⟨0x1c, 0x9e, 0x02⟩), (260000, ⟨0x58, 0x78, 0x00⟩)]

/-- The variables `x0`, …, `x17`. -/
abbrev Cells := Fin 18 → UInt8

/-- The bits of a code. -/
def unpack (c : Code) : Cells := fun k =>
  if k.val < 8 then c.byte0 >>> UInt8.ofNat k &&& 0x01
  else if k.val < 16 then c.byte1 >>> UInt8.ofNat (k - 8) &&& 0x01
  else c.byte2 >>> UInt8.ofNat (k - 16) &&& 0x01

def pack (x : Cells) : Code where
  byte0 := (x 7 <<< 7) + (x 6 <<< 6) + (x 5 <<< 5) + (x 4 <<< 4) + (x 3 <<< 3) + (x 2 <<< 2) +
    (x 1 <<< 1) + (x 0 <<< 0)
  byte1 := (x 15 <<< 7) + (x 14 <<< 6) + (x 13 <<< 5) + (x 12 <<< 4) + (x 11 <<< 3) + (x 10 <<< 2) +
    (x 9 <<< 1) + (x 8 <<< 0)
  byte2 := (x 17 <<< 1) + x 16

def shift (x : Cells) : Cells := fun k =>
  if h : k.val + 1 < 18 then x ⟨k + 1, h⟩ else (x 0 ^^^ x 7) &&& 0x01

/-- `for (i = ulPLSIndex; i <= ulPLSCode; i++)`, so many passes: the code is what the cells hold before
    they are shifted. The counter is an `int` and must not overflow. -/
def passes : ℕ → ℕ → Code → Cells → Option Code
  | 0, _, code, _ => some code
  | n + 1, i, _, x => if i + 1 < 2 ^ 31 then passes n (i + 1) (pack x) (shift x) else none

/-- `m88rs6060_calc_PLS_gold_code`. -/
def calcPlsGoldCode (plsGoldCode : ℕ) : Option Code :=
  let plsListIndex := min (plsGoldCode / 5000) (plsList.length - 1)
  let (plsIndex, plsCode) := plsList.getD plsListIndex default
  passes (plsGoldCode + 1 - plsIndex) plsIndex plsCode (unpack plsCode)

/-! ### The plain register -/

/-- A step of the shift register: the new top bit is `x0 ^ x7`. -/
def plainStep (r : BitVec 18) : BitVec 18 :=
  BitVec.cons (r.getLsbD 0 ^^ r.getLsbD 7) (r.extractLsb' 1 17)

/-- The bytes of a register. -/
def Code.of (r : BitVec 18) : Code where
  byte0 := ⟨r.extractLsb' 0 8⟩
  byte1 := ⟨r.extractLsb' 8 8⟩
  byte2 := ⟨r.extractLsb' 16 8⟩

/-- The variables that hold the bits of a register. -/
def cells (r : BitVec 18) : Cells := fun k => if r.getLsbD k then 1 else 0

theorem getLsbD_plainStep (r : BitVec 18) {k : ℕ} (hk : k < 18) :
    (plainStep r).getLsbD k = if k = 17 then r.getLsbD 0 ^^ r.getLsbD 7 else r.getLsbD (k + 1) := by
  rw [plainStep, BitVec.getLsbD_cons]
  split
  · rfl
  · rw [BitVec.getLsbD_extractLsb', decide_eq_true (by omega), Bool.true_and, Nat.add_comm]

theorem plainStep_additive : Additive plainStep := by
  intro r s
  refine BitVec.eq_of_getLsbD_eq fun k hk => ?_
  rw [BitVec.getLsbD_xor, getLsbD_plainStep _ hk, getLsbD_plainStep _ hk, getLsbD_plainStep _ hk]
  simp only [BitVec.getLsbD_xor]
  split
  · rw [Bool.xor_assoc, Bool.xor_assoc, Bool.xor_left_comm (s.getLsbD 0)]
  · rfl

/-! ### The variables hold a register -/

theorem shift_cells (r : BitVec 18) : shift (cells r) = cells (plainStep r) := by
  funext k
  unfold shift cells
  rw [getLsbD_plainStep r k.isLt]
  by_cases hk : k.val = 17
  · rw [dif_neg (by omega), if_pos hk]
    change ((if r.getLsbD 0 then 1 else 0) ^^^ if r.getLsbD 7 then 1 else 0) &&& (1 : UInt8) = _
    cases r.getLsbD 0 <;> cases r.getLsbD 7 <;> decide
  · rw [dif_pos (by omega), if_neg hk]

theorem byte_eq_sum : ∀ y : BitVec 8,
    let bit (k : ℕ) : UInt8 := if y.getLsbD k then 1 else 0
    (bit 7 <<< 7) + (bit 6 <<< 6) + (bit 5 <<< 5) + (bit 4 <<< 4) + (bit 3 <<< 3) + (bit 2 <<< 2) +
      (bit 1 <<< 1) + (bit 0 <<< 0) = ⟨y⟩ := by
  decide +kernel

theorem byte_bit (b : UInt8) {k : ℕ} (hk : k < 8) :
    b >>> UInt8.ofNat k &&& 0x01 = if b.toBitVec.getLsbD k then 1 else 0 := by
  have hbit : b.toBitVec.getLsbD k = decide (b.toNat >>> k % 2 = 1) := by
    rw [Nat.shiftRight_eq_div_pow, ← Nat.testBit_eq_decide_div_mod_eq]
    rfl
  refine UInt8.toNat_inj.mp ?_
  rw [UInt8.toNat_and, UInt8.toNat_shiftRight, UInt8.toNat_ofNat_of_lt' (show k < 256 by omega), Nat.mod_eq_of_lt hk, hbit]
  change b.toNat >>> k &&& 1 = _
  rw [Nat.and_one_is_mod]
  rcases Nat.mod_two_eq_zero_or_one (b.toNat >>> k) with h | h <;> rw [h] <;> rfl

theorem pack_cells (r : BitVec 18) : pack (cells r) = Code.of r := by
  have h0 := byte_eq_sum (r.extractLsb' 0 8)
  have h8 := byte_eq_sum (r.extractLsb' 8 8)
  have h16 := byte_eq_sum (r.extractLsb' 16 8)
  simp only [BitVec.getLsbD_extractLsb', Nat.reduceLT, decide_true, Bool.true_and, Nat.reduceAdd] at h0 h8 h16
  have h2 : (cells r 17 <<< 1) + cells r 16 = ⟨r.extractLsb' 16 8⟩ := by
    have hout (k : ℕ) (hk : 18 ≤ k) : r.getLsbD k = false := BitVec.getLsbD_of_ge r k hk
    rw [← h16, hout 23 (by decide), hout 22 (by decide), hout 21 (by decide), hout 20 (by decide),
      hout 19 (by decide), hout 18 (by decide)]
    change ((if r.getLsbD 17 then (1 : UInt8) else 0) <<< 1) + (if r.getLsbD 16 then 1 else 0) = _
    cases r.getLsbD 17 <;> cases r.getLsbD 16 <;> decide
  rw [Code.of, ← h0, ← h8, ← h2]
  rfl

theorem unpack_of (r : BitVec 18) : unpack (Code.of r) = cells r := by
  funext k
  have hk := k.isLt
  have hbit {i : ℕ} (h : i ≤ k) (h8 : k < i + 8) :
      (r.extractLsb' i 8).getLsbD (k - i) = r.getLsbD k := by
    rw [BitVec.getLsbD_extractLsb', decide_eq_true (by omega), Bool.true_and, Nat.add_sub_cancel' h]
  unfold unpack cells
  split
  · rw [byte_bit _ ‹_›]
    exact congrArg (fun b : Bool => if b then (1 : UInt8) else 0) (hbit (Nat.zero_le _) (by omega))
  · split
    · rw [byte_bit _ (by omega)]
      exact congrArg (fun b : Bool => if b then (1 : UInt8) else 0) (hbit (by omega) (by omega))
    · rw [byte_bit _ (by omega)]
      exact congrArg (fun b : Bool => if b then (1 : UInt8) else 0) (hbit (by omega) (by omega))

/-! ### The listed states -/

/-- The register that the bytes are of. -/
def Code.contents (c : Code) : BitVec 18 :=
  (c.byte2.toBitVec ++ c.byte1.toBitVec ++ c.byte0.toBitVec).setWidth 18

/-- 5000 in binary. -/
def digits5000 : List Bool :=
  [true, false, false, true, true, true, false, false, false, true, false, false, false]

/-- The columns of 5000 steps. -/
def jumpColumns : List (BitVec 18) :=
  [57357, 114714, 229428, 196713, 131282, 420, 840, 59036, 118072, 236144, 210144, 158144, 54144,
    108288, 216576, 171009, 79875, 159750]

theorem power_digits5000 : power ((bits 18 0 18).map plainStep) digits5000 = jumpColumns := by
  decide +kernel

theorem jumpColumns_columns : Columns jumpColumns plainStep^[5000] := by
  have h := plainStep_additive.columns.power digits5000
  rwa [power_digits5000, show value 0 digits5000 = 5000 by decide] at h

/-- An entry of the list. -/
def entry (k : ℕ) : ℕ × Code := plsList.getD k default

theorem entry_index : ∀ k < 53, (entry k).1 = 5000 * k ∧ Code.of (entry k).2.contents = (entry k).2 := by
  decide +kernel

theorem entry_succ : ∀ k < 52, mix jumpColumns (entry k).2.contents = (entry (k + 1)).2.contents := by
  decide +kernel

/-- Each entry holds the plain register at its index. -/
theorem entry_contents : ∀ k < 53, (entry k).2.contents = plainStep^[5000 * k] 1
  | 0, _ => by decide
  | k + 1, hk => by
    rw [← entry_succ k (by omega), jumpColumns_columns, entry_contents k (by omega),
      ← iterate_add_apply, Nat.mul_succ, Nat.add_comm]

/-! ### The loop -/

/-- The code lags the register by one step. -/
theorem passes_cells : ∀ (n i : ℕ) (code : Code) (r : BitVec 18), i + n + 1 < 2 ^ 31 →
    passes (n + 1) i code (cells r) = some (Code.of (plainStep^[n] r))
  | 0, i, code, r, h => by
    rw [passes, if_pos (by omega), passes, pack_cells]
    rfl
  | n + 1, i, code, r, h => by
    rw [passes, if_pos (by omega), shift_cells, passes_cells n (i + 1) _ _ (by omega),
      iterate_succ_apply]

/-- The driver's code is what the plain register holds after as many steps from its first state, and so is
    each entry of its list. -/
theorem calcPlsGoldCode_eq_plain {n : ℕ} (h : n < 2 ^ 31 - 1) :
    calcPlsGoldCode n = some (Code.of (plainStep^[n] 0x00001)) ∧
      ∀ e ∈ plsList, e.2 = Code.of (plainStep^[e.1] 0x00001) := by
  have hentry (k : ℕ) (hk : k < 53) : (entry k).2 = Code.of (plainStep^[5000 * k] 1) := by
    rw [← entry_contents k hk, (entry_index k hk).2]
  constructor
  · obtain ⟨k, hk⟩ : ∃ k, k = min (n / 5000) 52 := ⟨_, rfl⟩
    have hle : 5000 * k ≤ n := by omega
    have hcode : calcPlsGoldCode n =
        passes (n + 1 - (entry k).1) (entry k).1 (entry k).2 (unpack (entry k).2) := by
      rw [hk]
      rfl
    rw [hcode, (entry_index k (by omega)).1, hentry k (by omega), unpack_of,
      show n + 1 - 5000 * k = n - 5000 * k + 1 by omega, passes_cells _ _ _ _ (by omega),
      ← iterate_add_apply, Nat.sub_add_cancel hle]
  · intro e he
    obtain ⟨k, hk, rfl⟩ := List.getElem_of_mem he
    have hk' : k < 53 := hk
    have hget : plsList.get ⟨k, hk⟩ = entry k := by
      rw [entry, List.getD_eq_getElem?_getD, List.getElem?_eq_getElem hk]
      rfl
    change (plsList.get ⟨k, hk⟩).2 = Code.of (plainStep^[(plsList.get ⟨k, hk⟩).1] 1)
    rw [hget, (entry_index k hk').1]
    exact hentry k hk'

theorem calcPlsGoldCode_5000 : calcPlsGoldCode 5000 = some (Code.of (plainStep^[5000] 0x00001)) ∧
    calcPlsGoldCode 5000 = some ⟨0x0d, 0xe0, 0x00⟩ :=
  ⟨(calcPlsGoldCode_eq_plain (by decide)).1, by decide⟩

end M88rs

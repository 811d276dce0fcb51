import Mathlib.Data.Nat.Bitwise
import Mathlib.Data.Nat.Log
import Mathlib.Tactic.Common

/-! The integer logarithm (`stv091x_chip.c`).

    It is the number of the highest bit, what a table has for the seven bits below it, and an
    interpolation between two entries of the table. The interpolation is computed in 32 bits and wraps
    around: what it leaves after the division by a thousand million is a number from 0 to 4 that comes and
    goes with the argument. So the logarithm falls where that number does. -/

namespace Stv091x

def precision : ℕ := 7

def log10Of2 : UInt32 := 301

/-- `logtable`. -/
def logtable : List ℕ :=
  [0, 6, 11, 17, 22, 28, 33, 39, 44, 50, 55, 61, 66, 71, 77, 82,
    87, 93, 98, 103, 109, 114, 119, 124, 129, 134, 140, 145, 150, 155, 160, 165,
    170, 175, 180, 185, 190, 195, 200, 205, 209, 214, 219, 224, 229, 234, 238, 243,
    248, 253, 257, 262, 267, 271, 276, 281, 285, 290, 295, 299, 304, 308, 313, 317,
    322, 326, 331, 335, 340, 344, 349, 353, 358, 362, 366, 371, 375, 379, 384, 388,
    392, 397, 401, 405, 409, 414, 418, 422, 426, 430, 435, 439, 443, 447, 451, 455,
    459, 464, 468, 472, 476, 480, 484, 488, 492, 496, 500, 504, 508, 512, 516, 520,
    524, 527, 531, 535, 539, 543, 547, 551, 555, 558, 562, 566, 570, 574, 577, 581,
    585, 589, 592, 596, 600, 604, 607, 611, 615, 618, 622, 626, 629, 633, 637, 640,
    644, 647, 651, 655, 658, 662, 665, 669, 672, 676, 679, 683, 687, 690, 693, 697,
    700, 704, 707, 711, 714, 718, 721, 725, 728, 731, 735, 738, 741, 745, 748, 752,
    755, 758, 762, 765, 768, 771, 775, 778, 781, 785, 788, 791, 794, 798, 801, 804,
    807, 811, 814, 817, 820, 823, 827, 830, 833, 836, 839, 842, 845, 849, 852, 855,
    858, 861, 864, 867, 870, 873, 877, 880, 883, 886, 889, 892, 895, 898, 901, 904,
    907, 910, 913, 916, 919, 922, 925, 928, 931, 934, 937, 940, 943, 945, 948, 951,
    954, 957, 960, 963, 966, 969, 972, 974, 977, 980, 983, 986, 989, 992, 994, 997]

/-- What `logtable[i]` is as a factor. -/
def logtableAt (i : ℕ) : UInt32 := UInt32.ofNat (logtable.getD i 0)

/-- `XtoPowerY`. -/
def xToPowerY (number : UInt32) : ℕ → UInt32
  | 0 => 1
  | power + 1 => xToPowerY number power * number

/-- The loop of `MostSignificantBit` with so many passes left: the highest bit is shifted up. -/
def msbFrom : ℕ → UInt32 → ℕ
  | 0, _ => 0
  | i + 1, x => if x &&& 0x80000000 = 0 then msbFrom i (x <<< 1) else i

/-- `MostSignificantBit`. -/
def mostSignificantBit (x : UInt32) : ℕ := if x = 0 then 0 else msbFrom 32 x

/-- `logindex`: the seven bits below the highest one, twice. -/
def logindexOf (value : UInt32) (msb : ℕ) : UInt32 :=
  let logindex :=
    if 0 < msb ∧ msb ≤ precision then value <<< UInt32.ofNat (precision - msb)
    else if 0 < msb then value >>> UInt32.ofNat (msb - precision)
    else 0
  (logindex &&& 0x7F) * 2

/-- `interpolation`. -/
def interpolationOf (value logindex inc entry next : UInt32) : UInt32 :=
  let interpolation := (value * 256 - (logindex + 256 * inc)) * entry / 2
  interpolation - (logindex + 1 + 256 * inc - 256 * value) * next / 2

/-- `STLog2`. -/
def stLog2 (value : UInt32) : UInt32 :=
  let msb := mostSignificantBit value
  let logindex := logindexOf value msb
  let inc := xToPowerY 2 msb
  let entry := logtableAt logindex.toNat
  let next := logtableAt (logindex + 1).toNat
  let interpolation := interpolationOf value logindex inc entry next
  UInt32.ofNat msb * 1000 + entry + interpolation / 1000000000

/-- `STLog10`. -/
def stLog10 (value : UInt32) : Int32 := (stLog2 value * log10Of2 / 1000).toInt32

/-! ### The parts of the argument -/

/-- The argument with its highest bit shifted to bit 31. -/
def scaled (v : ℕ) : ℕ := v * 2 ^ (31 - v.log2)

/-- The seven bits below the highest one. -/
def part (v : ℕ) : ℕ := scaled v / 2 ^ 24 - 128

/-- How far the argument is from the first with these bits, as the interpolation has it. -/
def gap (v : ℕ) : ℤ := 256 * v - (2 * part v + 256 * 2 ^ v.log2)

/-- The interpolation, modulo 2^32. -/
def wrapped (v : ℕ) : ℤ :=
  (gap v * logtable.getD (2 * part v) 0 % 2 ^ 32 / 2 -
    (1 - gap v) * logtable.getD (2 * part v + 1) 0 % 2 ^ 32 / 2) % 2 ^ 32

/-- How many thousand millions it is. -/
def carried (v : ℕ) : ℕ := (wrapped v).toNat / 1000000000

theorem carried_le (v : ℕ) : carried v ≤ 4 := by
  unfold carried wrapped
  omega

/-! ### The highest bit -/

variable {v k : ℕ}

theorem high_bit (x : UInt32) : x &&& 0x80000000 = 0 ↔ x.toNat < 2 ^ 31 := by
  rw [← UInt32.toNat_inj, UInt32.toNat_and]
  change x.toNat &&& 2 ^ 31 = 0 ↔ _
  have hx := x.toNat_lt
  rw [Nat.and_two_pow, Nat.testBit_eq_decide_div_mod_eq]
  by_cases h : x.toNat < 2 ^ 31
  · rw [Nat.div_eq_of_lt h]
    exact iff_of_true rfl h
  · rw [show x.toNat / 2 ^ 31 = 1 by omega]
    exact iff_of_false (by decide) h

/-- With the argument shifted up by as many bits, the loop comes to its logarithm. -/
theorem msbFrom_shifted : ∀ (n : ℕ) (x : UInt32) (v : ℕ), n ≤ 32 → 0 < v → v < 2 ^ n →
    x.toNat = v * 2 ^ (32 - n) → msbFrom n x = v.log2
  | 0, _, v, _, h0, hv, _ => by omega
  | n + 1, x, v, hn, h0, hv, hx => by
    have hpow : 2 ^ n * 2 ^ (32 - (n + 1)) = 2 ^ 31 := by
      rw [← Nat.pow_add]
      congr 1
      omega
    have hlt : x.toNat < 2 ^ 31 ↔ v < 2 ^ n := by
      rw [hx, ← hpow]
      exact Nat.mul_lt_mul_right (Nat.two_pow_pos _)
    rw [msbFrom]
    simp only [high_bit, hlt]
    split
    · rename_i hsmall
      refine msbFrom_shifted n _ v (by omega) h0 hsmall ?_
      have hdouble : v * 2 ^ (32 - n) = x.toNat * 2 := by
        rw [hx, Nat.mul_assoc, ← Nat.pow_succ, show (32 - (n + 1)).succ = 32 - n by omega]
      have hx31 := hlt.mpr hsmall
      rw [UInt32.toNat_shiftLeft, hdouble, Nat.shiftLeft_eq]
      exact Nat.mod_eq_of_lt (show x.toNat * 2 < 2 ^ 32 by omega)
    · rename_i hlarge
      exact ((Nat.log2_eq_iff (by omega)).mpr ⟨by omega, hv⟩).symm

theorem mostSignificantBit_eq {x : UInt32} (hx : 0 < x) : mostSignificantBit x = x.toNat.log2 := by
  have h0 : 0 < x.toNat := hx
  rw [mostSignificantBit, if_neg (by rintro rfl; exact absurd h0 (by decide))]
  exact msbFrom_shifted 32 x x.toNat le_rfl h0 x.toNat_lt (by simp)

theorem xToPowerY_two : ∀ {k : ℕ}, k < 32 → (xToPowerY 2 k).toNat = 2 ^ k
  | 0, _ => rfl
  | k + 1, hk => by
    rw [xToPowerY, UInt32.toNat_mul, xToPowerY_two (by omega)]
    exact Nat.mod_eq_of_lt (show 2 ^ (k + 1) < 2 ^ 32 from Nat.pow_lt_pow_right (by decide) hk)

theorem scaled_bounds (h0 : 0 < v) (hv : v < 2 ^ 32) : 2 ^ 31 ≤ scaled v ∧ scaled v < 2 ^ 32 := by
  have hlog : v.log2 < 32 := (Nat.log2_lt (by omega)).mpr hv
  have hlow := Nat.log2_self_le (show v ≠ 0 by omega)
  have hhigh := Nat.lt_log2_self (n := v)
  have h31 : 2 ^ v.log2 * 2 ^ (31 - v.log2) = 2 ^ 31 := by
    rw [← Nat.pow_add]
    congr 1
    omega
  have h32 : 2 ^ (v.log2 + 1) * 2 ^ (31 - v.log2) = 2 ^ 32 := by
    rw [← Nat.pow_add]
    congr 1
    omega
  rw [scaled, ← h31, ← h32]
  exact ⟨Nat.mul_le_mul_right _ hlow, Nat.mul_lt_mul_of_pos_right hhigh (Nat.two_pow_pos _)⟩

theorem scaled_div (hlog : v.log2 < 32) :
    scaled v / 2 ^ 24 = if v.log2 ≤ 7 then v * 2 ^ (7 - v.log2) else v / 2 ^ (v.log2 - 7) := by
  rw [scaled]
  split
  · rw [show 31 - v.log2 = 7 - v.log2 + 24 by omega, Nat.pow_add, ← Nat.mul_assoc]
    exact Nat.mul_div_cancel _ (by decide)
  · rw [show (2 : ℕ) ^ 24 = 2 ^ (v.log2 - 7) * 2 ^ (31 - v.log2) by rw [← Nat.pow_add]; congr 1; omega]
    exact Nat.mul_div_mul_right _ _ (Nat.two_pow_pos _)

theorem part_bounds (h0 : 0 < v) (hv : v < 2 ^ 32) :
    scaled v / 2 ^ 24 = 128 + part v ∧ part v < 128 := by
  have hbounds := scaled_bounds h0 hv
  unfold part
  omega

theorem logindexOf_toNat {value : UInt32} (h0 : 0 < value) :
    (logindexOf value value.toNat.log2).toNat = 2 * part value.toNat := by
  obtain ⟨v, hv⟩ : ∃ v, v = value.toNat := ⟨_, rfl⟩
  have hpos : 0 < v := by rw [hv]; exact h0
  have hlt : v < 2 ^ 32 := by rw [hv]; exact value.toNat_lt
  have hlog : v.log2 < 32 := (Nat.log2_lt (by omega)).mpr hlt
  obtain ⟨hdiv, hpart⟩ := part_bounds hpos hlt
  rw [scaled_div hlog] at hdiv
  rw [← hv, logindexOf]
  have hmask (x : UInt32) (hx : x.toNat = 128 + part v ∨ x.toNat = part v) :
      ((x &&& 0x7F) * 2).toNat = 2 * part v := by
    have hand : (x &&& 0x7F).toNat = part v := by
      rw [UInt32.toNat_and]
      change x.toNat &&& 2 ^ 7 - 1 = part v
      rw [Nat.and_two_pow_sub_one_eq_mod]
      omega
    rw [UInt32.toNat_mul, hand]
    exact (Nat.mod_eq_of_lt (show part v * 2 < 2 ^ 32 by omega)).trans (Nat.mul_comm _ _)
  have hamount (n : ℕ) (hn : n < 32) : (UInt32.ofNat n).toNat % 32 = n := by
    rw [UInt32.toNat_ofNat_of_lt' (show n < 2 ^ 32 by omega), Nat.mod_eq_of_lt hn]
  refine hmask _ ?_
  by_cases hk0 : v.log2 = 0
  · rw [if_neg (by omega), if_neg (by omega)]
    rw [if_pos (by omega), hk0] at hdiv
    have : v = 1 := by
      have := Nat.lt_log2_self (n := v)
      rw [hk0] at this
      omega
    right
    change 0 = part v
    omega
  by_cases hk7 : v.log2 ≤ 7
  · rw [if_pos hk7] at hdiv
    rw [if_pos ⟨by omega, hk7⟩, UInt32.toNat_shiftLeft, hamount _ (by unfold precision; omega),
      Nat.shiftLeft_eq, ← hv, precision, hdiv]
    exact .inl (Nat.mod_eq_of_lt (show 128 + part v < 2 ^ 32 by omega))
  · rw [if_neg hk7] at hdiv
    rw [if_neg (fun h => hk7 h.2), if_pos (by omega), UInt32.toNat_shiftRight,
      hamount _ (by unfold precision; omega), Nat.shiftRight_eq_div_pow, ← hv, precision, hdiv]
    exact .inl rfl

/-! ### The interpolation -/

theorem toNat_add_int (x y : UInt32) : ((x + y).toNat : ℤ) = (x.toNat + y.toNat) % 2 ^ 32 := by
  rw [UInt32.toNat_add]
  omega

theorem toNat_sub_int (x y : UInt32) : ((x - y).toNat : ℤ) = (x.toNat - y.toNat) % 2 ^ 32 := by
  have hy := y.toNat_lt
  rw [UInt32.toNat_sub]
  omega

theorem toNat_mul_int (x y : UInt32) : ((x * y).toNat : ℤ) = x.toNat * y.toNat % 2 ^ 32 := by
  rw [UInt32.toNat_mul]
  exact Int.natCast_mod _ _

/-- The interpolation wraps around as the integers modulo 2^32 do. -/
theorem interpolationOf_toNat {value logindex inc : UInt32} (entry next : UInt32) {gap : ℤ}
    (hgap : gap = 256 * value.toNat - (logindex.toNat + 256 * inc.toNat)) :
    ((interpolationOf value logindex inc entry next).toNat : ℤ) =
      (gap * entry.toNat % 2 ^ 32 / 2 - (1 - gap) * next.toNat % 2 ^ 32 / 2) % 2 ^ 32 := by
  have h256 : (256 : UInt32).toNat = 256 := rfl
  have hhalf (x : UInt32) : ((x / 2).toNat : ℤ) = x.toNat / 2 := by
    rw [UInt32.toNat_div]
    exact Int.natCast_ediv _ _
  have hfactor (x y : ℤ) : x % 2 ^ 32 * y % 2 ^ 32 = x * y % 2 ^ 32 := by
    rw [Int.mul_emod, Int.emod_emod, ← Int.mul_emod]
  rw [interpolationOf]
  simp only [toNat_sub_int, hhalf, toNat_mul_int, toNat_add_int, h256, UInt32.toNat_one, hfactor,
    Int.emod_add_emod, Int.add_emod_emod, Int.emod_sub_emod, Int.sub_emod_emod]
  rw [show (value.toNat : ℤ) * (256 : ℕ) = 256 * value.toNat by omega,
    show (logindex.toNat : ℤ) + (1 : ℕ) + (256 : ℕ) * inc.toNat - (256 : ℕ) * value.toNat =
      1 - (256 * value.toNat - (logindex.toNat + 256 * inc.toNat)) by omega, hgap]
  rfl

theorem logtable_lt (i : ℕ) : logtable.getD i 0 < 1000 := by
  have hall : ∀ x ∈ logtable, x < 1000 := by decide +kernel
  rw [List.getD_eq_getElem?_getD]
  cases hx : logtable[i]? with
  | none => exact Nat.zero_lt_succ _
  | some x => exact hall x (List.mem_of_getElem? hx)

theorem logtableAt_toNat (i : ℕ) : (logtableAt i).toNat = logtable.getD i 0 :=
  UInt32.toNat_ofNat_of_lt' (Nat.lt_trans (logtable_lt i) (by decide))

/-- The logarithm: the highest bit, the entry of the table, and what the interpolation leaves. -/
theorem stLog2_toNat {value : UInt32} (h0 : 0 < value) :
    (stLog2 value).toNat = 1000 * value.toNat.log2 + logtable.getD (2 * part value.toNat) 0 +
      carried value.toNat := by
  have hpos : 0 < value.toNat := h0
  have hlog : value.toNat.log2 < 32 := (Nat.log2_lt (by omega)).mpr value.toNat_lt
  have hpart := (part_bounds hpos value.toNat_lt).2
  have hindex := logindexOf_toNat h0
  have hnext : (logindexOf value value.toNat.log2 + 1).toNat = 2 * part value.toNat + 1 := by
    rw [UInt32.toNat_add, hindex]
    exact Nat.mod_eq_of_lt (show 2 * part value.toNat + 1 < 2 ^ 32 by omega)
  have hcarried := carried_le value.toNat
  have hentry := logtable_lt (2 * part value.toNat)
  have hgap : gap value.toNat = 256 * value.toNat - ((logindexOf value value.toNat.log2).toNat +
      256 * (xToPowerY 2 value.toNat.log2).toNat) := by
    rw [hindex, xToPowerY_two hlog, gap]
    push_cast
    rfl
  have hwrapped : (interpolationOf value (logindexOf value value.toNat.log2)
      (xToPowerY 2 value.toNat.log2) (logtableAt (2 * part value.toNat))
      (logtableAt (2 * part value.toNat + 1))).toNat = (wrapped value.toNat).toNat := by
    have h := interpolationOf_toNat (logtableAt (2 * part value.toNat))
      (logtableAt (2 * part value.toNat + 1)) hgap
    rw [logtableAt_toNat, logtableAt_toNat, ← wrapped] at h
    omega
  rw [stLog2]
  simp only [mostSignificantBit_eq h0, hindex, hnext]
  rw [UInt32.toNat_add, UInt32.toNat_add, UInt32.toNat_mul, UInt32.toNat_div, logtableAt_toNat,
    UInt32.toNat_ofNat_of_lt' (show value.toNat.log2 < 2 ^ 32 by omega), hwrapped]
  change ((value.toNat.log2 * 1000 % 2 ^ 32 + logtable.getD (2 * part value.toNat) 0) % 2 ^ 32 +
    carried value.toNat) % 2 ^ 32 = _
  omega

/-! ### Monotone -/

/-- What holds of each entry of the table for the seven bits it is for. -/
def ForEach (P : ℕ → ℕ → Prop) : ℕ → List ℕ → Prop
  | j, entry :: _ :: table => P j entry ∧ ForEach P (j + 1) table
  | _, _ => True

instance ForEach.decidable (P : ℕ → ℕ → Prop) [∀ j entry, Decidable (P j entry)] :
    ∀ (j : ℕ) (table : List ℕ), Decidable (ForEach P j table)
  | _, [] => .isTrue trivial
  | _, [_] => .isTrue trivial
  | j, entry :: _ :: table =>
    have := ForEach.decidable P (j + 1) table
    inferInstanceAs (Decidable (P j entry ∧ _))

theorem ForEach.getD {P : ℕ → ℕ → Prop} : ∀ {j : ℕ} {table : List ℕ} (i : ℕ), ForEach P j table →
    2 * i + 1 < table.length → P (j + i) (table.getD (2 * i) 0)
  | _, [], _, _, hlt => absurd hlt (Nat.not_lt_zero _)
  | _, [_], _, _, hlt => by
    rw [List.length_singleton] at hlt
    omega
  | j, entry :: _ :: table, 0, h, _ => h.1
  | j, entry :: _ :: table, i + 1, h, hlt => by
    have hrest := ForEach.getD i h.2 (by
      rw [List.length_cons, List.length_cons] at hlt
      omega)
    rwa [Nat.add_right_comm] at hrest

theorem logtable_length : logtable.length = 256 := by decide +kernel

theorem logtable_each {P : ℕ → ℕ → Prop} (h : ForEach P 0 logtable) {j : ℕ} (hj : j < 128) :
    P j (logtable.getD (2 * j) 0) := by
  have hentry := h.getD j (by rw [logtable_length]; omega)
  rwa [Nat.zero_add] at hentry

theorem logtable_step : ∀ j < 127, logtable.getD (2 * j) 0 + 4 < logtable.getD (2 * (j + 1)) 0 := by
  decide

theorem logtable_even_lt {i : ℕ} : ∀ {j : ℕ}, i < j → j < 128 →
    logtable.getD (2 * i) 0 + 4 < logtable.getD (2 * j) 0
  | 0, h, _ => absurd h (Nat.not_lt_zero _)
  | j + 1, h, hj => by
    have hstep := logtable_step j (by omega)
    rcases Nat.lt_succ_iff_lt_or_eq.mp h with hlt | rfl
    · have := logtable_even_lt hlt (by omega)
      omega
    · exact hstep

theorem logtable_even_le {j : ℕ} (hj : j < 128) : logtable.getD (2 * j) 0 + 4 < 1000 :=
  logtable_each (P := fun _ entry => entry + 4 < 1000) (by decide +kernel) hj

theorem log2_le {a b : ℕ} (hab : a ≤ b) : a.log2 ≤ b.log2 := by
  rw [Nat.log2_eq_log_two, Nat.log2_eq_log_two]
  exact Nat.log_mono_right hab

theorem part_le {a b : ℕ} (hab : a ≤ b) (hlog : a.log2 = b.log2) : part a ≤ part b := by
  have hscaled : scaled a ≤ scaled b := by
    rw [scaled, scaled, hlog]
    exact Nat.mul_le_mul_right _ hab
  exact Nat.sub_le_sub_right (Nat.div_le_div_right hscaled) _

/-- The logarithm only falls between arguments with the same eight highest bits, where the interpolation
    leaves less. -/
theorem stLog2_le_iff {a b : UInt32} (ha : 0 < a) (hab : a ≤ b) :
    stLog2 a ≤ stLog2 b ↔ (a.toNat.log2 = b.toNat.log2 → part a.toNat = part b.toNat →
      carried a.toNat ≤ carried b.toNat) := by
  have hle : a.toNat ≤ b.toNat := hab
  have ha0 : 0 < a.toNat := ha
  have hb0 : 0 < b.toNat := by omega
  have hlog := log2_le hle
  have hpa := (part_bounds ha0 a.toNat_lt).2
  have hpb := (part_bounds hb0 b.toNat_lt).2
  have hca := carried_le a.toNat
  rw [UInt32.le_iff_toNat_le, stLog2_toNat ha, stLog2_toNat hb0]
  by_cases hsame : a.toNat.log2 = b.toNat.log2
  · have hpart := part_le hle hsame
    rw [hsame]
    by_cases hp : part a.toNat = part b.toNat
    · rw [hp]
      exact ⟨fun h _ _ => by omega, fun h => by have := h rfl rfl; omega⟩
    · have := logtable_even_lt (show part a.toNat < part b.toNat by omega) hpb
      exact iff_of_true (by omega) fun _ h => absurd h hp
  · have := logtable_even_le hpa
    exact iff_of_true (by omega) fun h => absurd h hsame

theorem stLog2_lt {a : UInt32} (ha : 0 < a) : (stLog2 a).toNat < 32000 := by
  have ha0 : 0 < a.toNat := ha
  have hlog : a.toNat.log2 < 32 := (Nat.log2_lt (by omega)).mpr a.toNat_lt
  have := logtable_even_le (part_bounds ha0 a.toNat_lt).2
  have := carried_le a.toNat
  rw [stLog2_toNat ha]
  omega

theorem stLog10_le {a b : UInt32} (ha : 0 < a) (hb : 0 < b) (h : stLog2 a ≤ stLog2 b) :
    stLog10 a ≤ stLog10 b := by
  have hvalue {x : UInt32} (hx : 0 < x) : (stLog10 x).toInt = ((stLog2 x).toNat * 301 / 1000 : ℕ) := by
    have hlt := stLog2_lt hx
    have hproduct : (stLog2 x * log10Of2 / 1000).toNat = (stLog2 x).toNat * 301 / 1000 := by
      rw [UInt32.toNat_div, UInt32.toNat_mul]
      exact congrArg (· / 1000) (Nat.mod_eq_of_lt (show (stLog2 x).toNat * 301 < 2 ^ 32 by omega))
    rw [← hproduct]
    exact BitVec.toInt_eq_toNat_of_lt (show 2 * (stLog2 x * log10Of2 / 1000).toNat < 2 ^ 32 by omega)
  rw [Int32.le_iff_toInt_le, hvalue ha, hvalue hb]
  have : (stLog2 a).toNat ≤ (stLog2 b).toNat := h
  omega

/-! ### Accurate -/

/-- A number differs from a thousand times the binary logarithm by at most 10. -/
def Accurate (v log : ℕ) : Prop := 2 ^ log ≤ v ^ 1000 * 2 ^ 10 ∧ v ^ 1000 ≤ 2 ^ (log + 10)

instance (v log : ℕ) : Decidable (Accurate v log) := inferInstanceAs (Decidable (_ ∧ _))

/-- The bits below the highest and what the interpolation leaves, where the table is more than 10 too low
    from some argument on, and the last (scaled) argument for which it is not. -/
def limits : List (ℕ × ℕ × ℕ) :=
  [(0, 0, 2162420578), (0, 1, 2163919973), (1, 0, 2178971227), (1, 1, 2180482098),
    (2, 0, 2195648550), (2, 1, 2197170985), (3, 0, 2212453518), (3, 1, 2213987606),
    (4, 0, 2229387107), (4, 1, 2230932936), (5, 0, 2246450302), (5, 1, 2248007963),
    (6, 0, 2263644095), (7, 0, 2280969484), (8, 0, 2296834881), (8, 1, 2298427478),
    (9, 0, 2314414305), (11, 0, 2348349513), (12, 0, 2364683576), (20, 0, 2499513200)]

theorem limits_exact : ∀ l ∈ limits, l.2.2 ^ 1000 ≤ 2 ^ (31010 + logtable.getD (2 * l.1) 0 + l.2.1) ∧
    2 ^ (31010 + logtable.getD (2 * l.1) 0 + l.2.1) < (l.2.2 + 1) ^ 1000 := by
  decide +kernel

theorem limits_complete {j c : ℕ} (hj : j < 128) (hc : c < 2) : (∃ l ∈ limits, l.1 = j ∧ l.2.1 = c) ∨
    (129 + j) ^ 1000 ≤ 2 ^ (7010 + logtable.getD (2 * j) 0 + c) :=
  logtable_each (P := fun j entry => ∀ c < 2, (∃ l ∈ limits, l.1 = j ∧ l.2.1 = c) ∨
    (129 + j) ^ 1000 ≤ 2 ^ (7010 + entry + c)) (by decide +kernel) hj c hc

/-- With more than one left by the interpolation the table is not too low, and with four not too high. -/
theorem logtable_close {j : ℕ} (hj : j < 128) : (129 + j) ^ 1000 ≤ 2 ^ (7012 + logtable.getD (2 * j) 0) ∧
    2 ^ (7004 + logtable.getD (2 * j) 0) ≤ (128 + j) ^ 1000 * 2 ^ 10 :=
  logtable_each (P := fun j entry => (129 + j) ^ 1000 ≤ 2 ^ (7012 + entry) ∧
    2 ^ (7004 + entry) ≤ (128 + j) ^ 1000 * 2 ^ 10) (by decide +kernel) hj

/-- Both bounds, for the argument that is scaled. -/
theorem accurate_iff (h0 : 0 < v) (hv : v < 2 ^ 32) (t : ℕ) : Accurate v (1000 * v.log2 + t) ↔
    2 ^ (31000 + t) ≤ scaled v ^ 1000 * 2 ^ 10 ∧ scaled v ^ 1000 ≤ 2 ^ (31010 + t) := by
  have hlog : v.log2 < 32 := (Nat.log2_lt (by omega)).mpr hv
  have hscaled (n : ℕ) : scaled v ^ n = v ^ n * 2 ^ (n * (31 - v.log2)) := by
    rw [scaled, Nat.mul_pow, ← Nat.pow_mul, Nat.mul_comm (31 - v.log2)]
  have hpow (s : ℕ) : 2 ^ (1000 * v.log2 + s) * 2 ^ (1000 * (31 - v.log2)) = 2 ^ (31000 + s) := by
    rw [← Nat.pow_add]
    congr 1
    omega
  have hpos : 0 < 2 ^ (1000 * (31 - v.log2)) := Nat.two_pow_pos _
  unfold Accurate
  rw [hscaled 1000, ← hpow t, show 31010 + t = 31000 + (t + 10) by omega, ← hpow (t + 10), Nat.add_assoc,
    Nat.mul_right_comm]
  exact and_congr (Nat.mul_le_mul_right_iff hpos).symm (Nat.mul_le_mul_right_iff hpos).symm

theorem le_pow_of_le {n m a e d : ℕ} (h : 2 ^ e ≤ a ^ n * d) (hm : a * 2 ^ 24 ≤ m) :
    2 ^ (e + 24 * n) ≤ m ^ n * d := by
  calc 2 ^ (e + 24 * n) = 2 ^ e * (2 ^ 24) ^ n := by rw [Nat.pow_add, Nat.pow_mul]
    _ ≤ a ^ n * d * (2 ^ 24) ^ n := Nat.mul_le_mul_right _ h
    _ = (a * 2 ^ 24) ^ n * d := by rw [Nat.mul_pow, Nat.mul_right_comm]
    _ ≤ m ^ n * d := Nat.mul_le_mul_right _ (Nat.pow_le_pow_left hm n)

theorem pow_le_of_le {n m a e : ℕ} (h : a ^ n ≤ 2 ^ e) (hm : m ≤ a * 2 ^ 24) : m ^ n ≤ 2 ^ (e + 24 * n) := by
  calc m ^ n ≤ (a * 2 ^ 24) ^ n := Nat.pow_le_pow_left hm n
    _ = a ^ n * (2 ^ 24) ^ n := Nat.mul_pow ..
    _ ≤ 2 ^ e * (2 ^ 24) ^ n := Nat.mul_le_mul_right _ h
    _ = 2 ^ (e + 24 * n) := by rw [Nat.pow_add, Nat.pow_mul]

/-- The logarithm is never too high, and it is too low only beyond the limits. -/
theorem stLog2_accurate_iff {a : UInt32} (ha : 0 < a) : Accurate a.toNat (stLog2 a).toNat ↔
    ∀ l ∈ limits, l.1 = part a.toNat → l.2.1 = carried a.toNat → scaled a.toNat ≤ l.2.2 := by
  have ha0 : 0 < a.toNat := ha
  have halt : a.toNat < 2 ^ 32 := a.toNat_lt
  rw [stLog2_toNat ha, Nat.add_assoc, accurate_iff ha0 halt]
  obtain ⟨hdiv, hpart⟩ := part_bounds ha0 halt
  have hcarried := carried_le a.toNat
  generalize a.toNat = v at *
  have hlow : 2 ^ (31000 + (logtable.getD (2 * part v) 0 + carried v)) ≤ scaled v ^ 1000 * 2 ^ 10 := by
    refine Nat.le_trans (Nat.pow_le_pow_right Nat.two_pos ?_)
      (le_pow_of_le ((logtable_close hpart).2) (show (128 + part v) * 2 ^ 24 ≤ scaled v by omega))
    omega
  have hbelow : scaled v ≤ (129 + part v) * 2 ^ 24 := by omega
  constructor
  · rintro ⟨-, hhigh⟩ l hl hj hc
    have hexact := (limits_exact l hl).2
    rw [hj, hc, Nat.add_assoc] at hexact
    by_contra hbeyond
    have hpow (n : ℕ) : (l.2.2 + 1) ^ n ≤ scaled v ^ n := Nat.pow_le_pow_left (by omega) n
    have hle := hpow 1000
    omega
  · intro hlimit
    refine ⟨hlow, ?_⟩
    by_cases hc : carried v < 2
    · rcases limits_complete hpart hc with ⟨l, hl, hj, hcl⟩ | hfine
      · have hexact := (limits_exact l hl).1
        rw [hj, hcl, Nat.add_assoc] at hexact
        have hpow (n : ℕ) : scaled v ^ n ≤ l.2.2 ^ n := Nat.pow_le_pow_left (hlimit l hl hj hcl) n
        have hle := hpow 1000
        omega
      · refine Nat.le_trans (pow_le_of_le hfine hbelow) (Nat.pow_le_pow_right Nat.two_pos ?_)
        omega
    · refine Nat.le_trans (pow_le_of_le ((logtable_close hpart).1) hbelow) (Nat.pow_le_pow_right Nat.two_pos ?_)
      omega

end Stv091x

import Mathlib.Logic.Function.Basic
import Mathlib.Data.List.Basic
import Mathlib.Tactic.Common

/-! Fields of byte registers.

    A field is a register with a mask; its value is what the mask leaves of the register, shifted down to
    the lowest bit of the mask. Writing a field reads the register, puts the value under the mask and
    writes the register back, so that fields whose masks do not meet are independent (`Apart`). -/

namespace BitFields
open Function

abbrev Byte := BitVec 8

/-- The number of the lowest bit of a mask. -/
def position (mask : Byte) : ℕ := ((List.range 8).find? fun i => mask.getLsbD i).getD 7

/-- The value under a mask. -/
def extract (mask b : Byte) : Byte := (b &&& mask) >>> position mask

/-- A byte with a value put under a mask. -/
def insert (mask v b : Byte) : Byte := (b &&& ~~~mask) + (mask &&& (v <<< position mask))

/-- What is left of a value that is put under a mask. -/
def fit (mask v : Byte) : Byte := extract mask (v <<< position mask)

variable {mask mask' b v : Byte} {i : ℕ}

theorem position_low (h : i < position mask) : mask.getLsbD i = false := by
  rw [position] at h
  cases hfind : (List.range 8).find? fun i => mask.getLsbD i with
  | none =>
    rw [hfind] at h
    have hi : i ∈ List.range 8 := List.mem_range.mpr (Nat.lt_trans h (by decide))
    simpa using List.find?_eq_none.mp hfind i hi
  | some k =>
    rw [hfind] at h
    simpa using (List.find?_range_eq_some.mp hfind).2.2 i h

theorem position_set (h : mask ≠ 0) : mask.getLsbD (position mask) = true := by
  rw [position]
  cases hfind : (List.range 8).find? fun i => mask.getLsbD i with
  | none =>
    refine absurd (BitVec.eq_of_getLsbD_eq fun i hi => ?_) h
    simpa using List.find?_eq_none.mp hfind i (List.mem_range.mpr hi)
  | some k => exact (List.find?_range_eq_some.mp hfind).1

theorem insert_eq_or : insert mask v b = (b &&& ~~~mask) ||| (mask &&& (v <<< position mask)) := by
  refine BitVec.add_eq_or_of_and_eq_zero _ _ (BitVec.eq_of_getLsbD_eq fun i hi => ?_)
  simp only [BitVec.getLsbD_and, BitVec.getLsbD_not, hi, decide_true, Bool.true_and,
    BitVec.getLsbD_zero]
  cases mask.getLsbD i <;> simp

theorem extract_insert : extract mask (insert mask v b) = fit mask v := by
  rw [fit, extract, extract, insert_eq_or]
  congr 1
  refine BitVec.eq_of_getLsbD_eq fun i hi => ?_
  simp only [BitVec.getLsbD_and, BitVec.getLsbD_or, BitVec.getLsbD_not, hi, decide_true,
    Bool.true_and]
  cases mask.getLsbD i <;> simp

theorem fit_extract : fit mask (extract mask b) = extract mask b := by
  rw [fit, extract, extract]
  congr 1
  refine BitVec.eq_of_getLsbD_eq fun i hi => ?_
  simp only [BitVec.getLsbD_and, BitVec.getLsbD_shiftLeft, BitVec.getLsbD_ushiftRight, hi,
    decide_true, Bool.true_and]
  by_cases hlow : i < position mask
  · simp [position_low hlow]
  · rw [Nat.add_sub_of_le (Nat.not_lt.mp hlow)]
    simp [hlow]

theorem extract_insert_apart (h : mask &&& mask' = 0) :
    extract mask' (insert mask v b) = extract mask' b := by
  rw [extract, extract, insert_eq_or]
  congr 1
  refine BitVec.eq_of_getLsbD_eq fun i hi => ?_
  have hbit : (mask &&& mask').getLsbD i = false := by
    rw [h]
    exact BitVec.getLsbD_zero
  rw [BitVec.getLsbD_and] at hbit
  simp only [BitVec.getLsbD_and, BitVec.getLsbD_or, BitVec.getLsbD_not, hi, decide_true,
    Bool.true_and]
  cases hm : mask.getLsbD i <;> cases hm' : mask'.getLsbD i <;> simp_all

theorem extract_not (h : mask ≠ 0) : extract mask (~~~b) ≠ extract mask b := by
  intro heq
  have hbit := congrArg (fun b : Byte => b.getLsbD 0) heq
  have hset := position_set h
  have hlt : position mask < 8 := BitVec.lt_of_getLsbD hset
  simp only [extract, BitVec.getLsbD_ushiftRight, BitVec.getLsbD_and, BitVec.getLsbD_not, hset,
    Nat.add_zero, hlt, decide_true, Bool.true_and, Bool.and_true] at hbit
  cases hb : b.getLsbD (position mask) <;> simp [hb] at hbit

theorem extract_ones : extract 0xFF b = b := by
  have hzero : position 0xFF = 0 := by decide
  rw [extract, hzero, BitVec.ushiftRight_zero]
  exact BitVec.and_allOnes

theorem insert_ones : insert 0xFF v b = v := by
  have hfit : extract 0xFF (insert 0xFF v b) = fit 0xFF v := extract_insert
  have hzero : position 0xFF = 0 := by decide
  rw [extract_ones, fit, extract_ones, hzero, BitVec.shiftLeft_zero] at hfit
  exact hfit

/-! ### Fields of a register file -/

/-- A field of one of the registers `R`. -/
structure BitField (R : Type) where
  reg : R
  mask : Byte
  deriving DecidableEq

variable {R : Type} [DecidableEq R] {m : R → Byte} {x y : BitField R}

def BitField.get (x : BitField R) (m : R → Byte) : Byte := extract x.mask (m x.reg)

def BitField.put (x : BitField R) (v : Byte) (m : R → Byte) : R → Byte :=
  update m x.reg (insert x.mask v (m x.reg))

/-- Neither of two fields is changed when the other one is written. -/
def BitField.Apart (x y : BitField R) : Prop := x.reg ≠ y.reg ∨ x.mask &&& y.mask = 0

instance : Decidable (x.Apart y) := inferInstanceAs (Decidable (_ ∨ _))

theorem BitField.get_put : x.get (x.put v m) = fit x.mask v := by
  rw [BitField.get, BitField.put, update_self, extract_insert]

theorem BitField.get_put_apart (h : x.Apart y) : y.get (x.put v m) = y.get m := by
  rw [BitField.get, BitField.get, BitField.put]
  by_cases hreg : y.reg = x.reg
  · rw [hreg, update_self, extract_insert_apart (h.resolve_left fun hne => hne hreg.symm)]
  · rw [update_of_ne hreg]

/-- Write one field after the other. -/
def putAll : List (BitField R × Byte) → (R → Byte) → R → Byte
  | [], m => m
  | (x, v) :: l, m => putAll l (x.put v m)

variable {l : List (BitField R × Byte)}

theorem get_putAll_apart (h : ∀ p ∈ l, p.1.Apart y) : y.get (putAll l m) = y.get m := by
  induction l generalizing m with
  | nil => rfl
  | cons p l ih =>
    rw [putAll, ih fun q hq => h q (List.mem_cons_of_mem _ hq),
      BitField.get_put_apart (h p List.mem_cons_self)]

theorem get_putAll (hl : l.Pairwise fun p q => q.1.Apart p.1) {p : BitField R × Byte} (hp : p ∈ l) :
    p.1.get (putAll l m) = fit p.1.mask p.2 := by
  induction l generalizing m with
  | nil => cases hp
  | cons q l ih =>
    rw [List.pairwise_cons] at hl
    rw [putAll]
    rcases List.mem_cons.mp hp with rfl | hmem
    · rw [get_putAll_apart hl.1, BitField.get_put]
    · exact ih hl.2 hmem

/-! ### Words -/

section
variable {w : ℕ} {r x m : BitVec w}

theorem add_beside (h : x &&& m = x) : (r &&& ~~~m) + x = (r &&& ~~~m) ||| x := by
  refine BitVec.add_eq_or_of_and_eq_zero _ _ ?_
  rw [← h]
  ext i hi
  simp only [BitVec.getElem_and, BitVec.getElem_not, BitVec.getElem_zero]
  cases m[i] <;> simp

theorem beside_and (h : x &&& m = x) : ((r &&& ~~~m) + x) &&& m = x := by
  rw [add_beside h]
  ext i hi
  have hbit := congrArg (fun b : BitVec w => b[i]) h
  simp only [BitVec.getElem_and, BitVec.getElem_or, BitVec.getElem_not] at hbit ⊢
  cases hm : m[i] <;> simp_all

theorem beside_and_not (h : x &&& m = x) : ((r &&& ~~~m) + x) &&& ~~~m = r &&& ~~~m := by
  rw [add_beside h]
  ext i hi
  have hbit := congrArg (fun b : BitVec w => b[i]) h
  simp only [BitVec.getElem_and, BitVec.getElem_or, BitVec.getElem_not] at hbit ⊢
  cases hm : m[i] <;> simp_all

theorem beside_low {l : BitVec w} (h : x &&& m = x) (hr : r &&& l = r) (hm : m &&& l = m) :
    ((r &&& ~~~m) + x) &&& l = (r &&& ~~~m) + x := by
  rw [add_beside h]
  ext i hi
  have hx := congrArg (fun b : BitVec w => b[i]) h
  have hr := congrArg (fun b : BitVec w => b[i]) hr
  have hm := congrArg (fun b : BitVec w => b[i]) hm
  simp only [BitVec.getElem_and, BitVec.getElem_or, BitVec.getElem_not] at hx hr hm ⊢
  cases hl : l[i] <;> simp_all

end

end BitFields

import Mathlib.Data.BitVec
import Mathlib.Logic.Function.Basic
import Mathlib.Tactic.Common

/-! Sets of numbers as bits in words of 32. -/

namespace Bitset
open Function

abbrev Words := ℕ → BitVec 32

def mem (b : Words) (i : ℕ) : Bool := (b (i / 32)).getLsbD (i % 32)

def insert (b : Words) (i : ℕ) : Words := update b (i / 32) (b (i / 32) ||| 1#32 <<< (i % 32))

def erase (b : Words) (i : ℕ) : Words := update b (i / 32) (b (i / 32) &&& ~~~(1#32 <<< (i % 32)))

theorem getLsbD_mask {m n : ℕ} (hn : n < 32) : (1#32 <<< m).getLsbD n = decide (n = m) := by
  rw [BitVec.getLsbD_shiftLeft, decide_eq_true hn, Bool.true_and, BitVec.getLsbD_one, Bool.eq_iff_iff]
  simp only [Bool.and_eq_true, Bool.not_eq_true', decide_eq_false_iff_not, decide_eq_true_eq]
  omega

theorem and_mask_eq_zero_iff {x : BitVec 32} {n : ℕ} (hn : n < 32) :
    x &&& 1#32 <<< n = 0 ↔ x.getLsbD n = false := by
  constructor
  · intro h
    have hbit := congrArg (BitVec.getLsbD · n) h
    simpa [BitVec.getLsbD_and, getLsbD_mask hn] using hbit
  · intro h
    refine BitVec.eq_of_getLsbD_eq fun m hm => ?_
    rw [BitVec.getLsbD_and, getLsbD_mask hm]
    by_cases hmn : m = n
    · simp [hmn, h]
    · simp [hmn]

theorem same_bit_iff {i j : ℕ} (hword : j / 32 = i / 32) : j % 32 = i % 32 ↔ j = i := by omega

@[simp] theorem mem_insert (b : Words) (i j : ℕ) : mem (insert b i) j = (mem b j || decide (j = i)) := by
  rw [mem, insert]
  by_cases hword : j / 32 = i / 32
  · rw [hword, update_self, BitVec.getLsbD_or, getLsbD_mask (Nat.mod_lt j (by decide)), mem, hword]
    simp only [same_bit_iff hword]
  · have hne : j ≠ i := fun heq => hword (heq ▸ rfl)
    simp [update_of_ne hword, mem, hne]

@[simp] theorem mem_erase (b : Words) (i j : ℕ) : mem (erase b i) j = (mem b j && !decide (j = i)) := by
  rw [mem, erase]
  by_cases hword : j / 32 = i / 32
  · have hlt := Nat.mod_lt j (show 32 > 0 by decide)
    rw [hword, update_self, BitVec.getLsbD_and, BitVec.getLsbD_not, getLsbD_mask hlt, mem, hword]
    simp only [same_bit_iff hword, decide_eq_true hlt, Bool.true_and]
  · have hne : j ≠ i := fun heq => hword (heq ▸ rfl)
    simp [update_of_ne hword, mem, hne]

@[simp] theorem mem_empty (i : ℕ) : mem (fun _ => 0) i = false := BitVec.getLsbD_zero

end Bitset

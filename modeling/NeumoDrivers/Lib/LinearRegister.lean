import Mathlib.Logic.Function.Iterate
import Mathlib.Tactic.Common

/-! Registers that are fed back through exclusive or.

    Such a step is additive, so that it is known from what it makes of single bits: these are its columns.
    The columns of two steps in a row are those of the second, mixed by those of the first, and so many
    steps are taken by squaring. -/

namespace LinearRegister

variable {w : ℕ} {f g : BitVec w → BitVec w} {cols cols' : List (BitVec w)} {r s : BitVec w} {k m n : ℕ}

/-- The step commutes with exclusive or. -/
def Additive (f : BitVec w → BitVec w) : Prop := ∀ r s, f (r ^^^ s) = f r ^^^ f s

/-- The columns for the bits that are set, where bit `k` has the first. -/
def mixFrom (r : BitVec w) : ℕ → List (BitVec w) → BitVec w
  | _, [] => 0#w
  | k, c :: cols => (if r.getLsbD k then c else 0#w) ^^^ mixFrom r (k + 1) cols

def mix (cols : List (BitVec w)) (r : BitVec w) : BitVec w := mixFrom r 0 cols

/-- `cols` are the columns of the step. -/
def Columns (cols : List (BitVec w)) (f : BitVec w → BitVec w) : Prop := ∀ r, mix cols r = f r

/-- The single bits from `k` on: `m` of them. -/
def bits (w : ℕ) : ℕ → ℕ → List (BitVec w)
  | _, 0 => []
  | k, m + 1 => BitVec.twoPow w k :: bits w (k + 1) m

theorem Additive.zero (hf : Additive f) : f 0#w = 0#w := by
  have h := hf 0#w 0#w
  rwa [BitVec.xor_self, BitVec.xor_self] at h

theorem Additive.mixFrom (hf : Additive f) (r : BitVec w) : ∀ (k : ℕ) (cols : List (BitVec w)),
    f (mixFrom r k cols) = LinearRegister.mixFrom r k (cols.map f)
  | _, [] => hf.zero
  | k, c :: cols => by
    rw [LinearRegister.mixFrom, hf, hf.mixFrom r (k + 1) cols, List.map_cons, LinearRegister.mixFrom]
    split
    · rfl
    · rw [hf.zero]

theorem mixFrom_xor (r s : BitVec w) : ∀ (k : ℕ) (cols : List (BitVec w)),
    mixFrom (r ^^^ s) k cols = mixFrom r k cols ^^^ mixFrom s k cols
  | _, [] => (BitVec.xor_self).symm
  | k, c :: cols => by
    rw [mixFrom, mixFrom, mixFrom, mixFrom_xor r s (k + 1) cols, BitVec.getLsbD_xor]
    have hbit : (if (r.getLsbD k ^^ s.getLsbD k) then c else 0#w) =
        (if r.getLsbD k then c else 0#w) ^^^ (if s.getLsbD k then c else 0#w) := by
      cases r.getLsbD k <;> cases s.getLsbD k <;> simp
    rw [hbit]
    ac_rfl

theorem mix_additive (cols : List (BitVec w)) : Additive (mix cols) := fun r s => mixFrom_xor r s 0 cols

/-- What the single bits from `k` on mix to are the bits of the register from there. -/
theorem getLsbD_mixFrom_bits (r : BitVec w) {i : ℕ} (hi : i < w) : ∀ k m : ℕ,
    (mixFrom r k (bits w k m)).getLsbD i = (decide (k ≤ i ∧ i < k + m) && r.getLsbD i)
  | k, 0 => by
    rw [bits, mixFrom, BitVec.getLsbD_zero, decide_eq_false (by omega), Bool.false_and]
  | k, m + 1 => by
    rw [bits, mixFrom, BitVec.getLsbD_xor, getLsbD_mixFrom_bits r hi (k + 1) m]
    have hbit : (if r.getLsbD k then BitVec.twoPow w k else 0#w).getLsbD i =
        (decide (k = i) && r.getLsbD i) := by
      by_cases hk : k = i
      · subst hk
        cases hr : r.getLsbD k <;> simp [hi]
      · split
        · rw [BitVec.getLsbD_twoPow, decide_eq_false hk, Bool.and_false, Bool.false_and]
        · rw [BitVec.getLsbD_zero, decide_eq_false hk, Bool.false_and]
    rw [hbit]
    by_cases hk : k = i
    · subst hk
      rw [decide_eq_true rfl, decide_eq_false (by omega), decide_eq_true (by omega), Bool.false_and,
        Bool.xor_false]
    · rw [decide_eq_false hk, Bool.false_and, Bool.false_xor,
        show decide (k + 1 ≤ i ∧ i < k + 1 + m) = decide (k ≤ i ∧ i < k + (m + 1)) from
          decide_eq_decide.mpr (by omega)]

theorem mix_bits (r : BitVec w) : mix (bits w 0 w) r = r := by
  refine BitVec.eq_of_getLsbD_eq fun i hi => ?_
  rw [mix, getLsbD_mixFrom_bits r hi, decide_eq_true (by omega), Bool.true_and]

theorem Additive.columns (hf : Additive f) : Columns ((bits w 0 w).map f) f := fun r => by
  rw [mix, ← hf.mixFrom r 0, ← mix, mix_bits]

theorem Columns.comp (hf : Columns cols f) (hg : Columns cols' g) :
    Columns (cols'.map (mix cols)) (f ∘ g) := fun r => by
  rw [Function.comp_apply, ← hf, ← hg r]
  exact ((mix_additive cols).mixFrom r 0 cols').symm

/-- The number with these binary digits, the highest first. -/
def value (n : ℕ) : List Bool → ℕ
  | [] => n
  | b :: digits => value (2 * n + b.toNat) digits

/-- From the columns of so many steps, those of twice as many, and one more for a digit that is set. -/
def powerFrom (cols : List (BitVec w)) (acc : List (BitVec w)) : List Bool → List (BitVec w)
  | [] => acc
  | b :: digits =>
    let double := acc.map (mix acc)
    powerFrom cols (if b then double.map (mix cols) else double) digits

theorem Columns.powerFrom (hf : Columns cols f) : ∀ (digits : List Bool) {acc : List (BitVec w)} {n : ℕ},
    Columns acc f^[n] → Columns (powerFrom cols acc digits) f^[value n digits]
  | [], _, _, hacc => hacc
  | b :: digits, acc, n, hacc => by
    refine hf.powerFrom digits ?_
    have hdouble : Columns (acc.map (mix acc)) f^[2 * n] := by
      rw [Nat.two_mul, Function.iterate_add]
      exact hacc.comp hacc
    cases b with
    | false => exact hdouble
    | true =>
      rw [Bool.toNat_true, Nat.add_comm, Function.iterate_add]
      exact hf.comp hdouble

/-- The columns of as many steps as the digits say. -/
def power (cols : List (BitVec w)) (digits : List Bool) : List (BitVec w) :=
  powerFrom cols (bits w 0 w) digits

theorem Columns.power (hf : Columns cols f) (digits : List Bool) :
    Columns (power cols digits) f^[value 0 digits] :=
  hf.powerFrom digits fun r => mix_bits r

end LinearRegister

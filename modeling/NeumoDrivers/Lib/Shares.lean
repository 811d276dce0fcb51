import Mathlib.Algebra.BigOperators.Group.Finset.Piecewise
import Mathlib.Algebra.Order.BigOperators.Group.Finset
import Mathlib.Data.Fintype.Basic

/-! What many parties have between them.

    Each of finitely many parties is in some place, and a place comes with a share of something: a
    reference, a lock, a turn. `total` adds the shares up; when one party moves, the total changes by
    the difference of two shares. -/

namespace Shares

variable {D α : Type} [Fintype D] {share share' : α → ℕ} {at' : D → α} {d : D} {x : α}

/-- The shares of all parties together. -/
def total (share : α → ℕ) (at' : D → α) : ℕ := ∑ d, share (at' d)

theorem share_le_total (share : α → ℕ) (at' : D → α) (d : D) : share (at' d) ≤ total share at' :=
  Finset.single_le_sum (f := fun d => share (at' d)) (fun _ _ => Nat.zero_le _) (Finset.mem_univ d)

theorem total_eq_zero : total share at' = 0 ↔ ∀ d, share (at' d) = 0 := by
  simp [total]

theorem total_le (h : ∀ x, share x ≤ share' x) : total share at' ≤ total share' at' :=
  Finset.sum_le_sum fun _ _ => h _

theorem total_add (share share' : α → ℕ) (at' : D → α) :
    total (fun x => share x + share' x) at' = total share at' + total share' at' :=
  Finset.sum_add_distrib

/-- One party moves. -/
theorem total_update [DecidableEq D] (share : α → ℕ) (at' : D → α) (d : D) (x : α) :
    total share (Function.update at' d x) + share (at' d) = total share at' + share x := by
  have hnew := Finset.add_sum_erase Finset.univ (fun e => share (Function.update at' d x e))
    (Finset.mem_univ d)
  have hold := Finset.add_sum_erase Finset.univ (fun e => share (at' e)) (Finset.mem_univ d)
  have hrest : ∑ e ∈ Finset.univ.erase d, share (Function.update at' d x e) =
      ∑ e ∈ Finset.univ.erase d, share (at' e) := by
    refine Finset.sum_congr rfl fun e he => ?_
    rw [Function.update_of_ne (Finset.ne_of_mem_erase he)]
  simp only [Function.update_self] at hnew
  rw [total, total]
  omega

end Shares

import Mathlib.Data.List.Perm.Basic

/-! Tallies: how many entries of a list belong to each of some things.

    A reference count is right when it is the tally of the list of references. -/

namespace Tally

variable {α β : Type} [DecidableEq β] {f g : α → β} {l : List α} {a : α} {b : β}

/-- The number of entries that belong to `b`. -/
def tally (f : α → β) (l : List α) (b : β) : ℕ := l.countP fun a => f a = b

@[simp] theorem tally_nil : tally f [] b = 0 := rfl

theorem tally_cons : tally f (a :: l) b = tally f l b + if f a = b then 1 else 0 := by
  simp [tally, List.countP_cons]

theorem tally_pos : 0 < tally f l b ↔ ∃ a ∈ l, f a = b := by
  simp [tally, List.countP_pos_iff]

theorem tally_eq_zero : tally f l b = 0 ↔ ∀ a ∈ l, f a ≠ b := by
  simp [tally, List.countP_eq_zero]

theorem tally_congr (h : ∀ a ∈ l, f a = g a) : tally f l b = tally g l b := by
  refine List.countP_congr fun a ha => ?_
  rw [h a ha]

theorem tally_perm {l' : List α} (h : l.Perm l') : tally f l b = tally f l' b := h.countP_eq _

theorem tally_erase [DecidableEq α] (ha : a ∈ l) :
    tally f l b = tally f (l.erase a) b + if f a = b then 1 else 0 := by
  rw [tally_perm (List.perm_cons_erase ha), tally_cons]

end Tally

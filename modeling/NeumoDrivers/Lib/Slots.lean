import Mathlib.Logic.Function.Basic
import Mathlib.Data.List.Basic

/-! An array whose slots are given out and taken back.

    A slot holds a value, and is in use for some values only. Next to the array stands the list of those
    who think that a slot is theirs. `Single` says that there is one of them for each slot in use, and
    none for the others. -/

namespace Slots
open Function

variable {ι α O : Type} {used : α → Prop} {array : ι → α} {owner : ι → List O} {i : ι} {x : α} {o : O}

/-- A slot in use has one owner. -/
def Single (used : α → Prop) (array : ι → α) (owner : ι → List O) : Prop :=
  ∀ i, (¬used (array i) ∧ owner i = []) ∨ (used (array i) ∧ ∃ o, owner i = [o])

theorem Single.used_of_mem (h : Single used array owner) (ho : o ∈ owner i) :
    used (array i) ∧ owner i = [o] := by
  rcases h i with ⟨-, hnone⟩ | ⟨hused, o', hone⟩
  · rw [hnone] at ho
    cases ho
  · rw [hone, List.mem_singleton] at ho
    exact ⟨hused, ho ▸ hone⟩

theorem Single.owner_of_free (h : Single used array owner) (hfree : ¬used (array i)) :
    owner i = [] := by
  rcases h i with ⟨-, hnone⟩ | ⟨hused, -⟩
  · exact hnone
  · exact absurd hused hfree

variable [DecidableEq ι]

/-- A slot that is free is given out. -/
theorem Single.give (h : Single used array owner) (hfree : ¬used (array i)) (hx : used x) (o : O) :
    Single used (update array i x) (update owner i (o :: owner i)) := by
  intro j
  by_cases hj : j = i
  · subst hj
    rw [update_self, update_self, h.owner_of_free hfree]
    exact .inr ⟨hx, o, rfl⟩
  · rw [update_of_ne hj, update_of_ne hj]
    exact h j

/-- The owner of a slot gives it back. -/
theorem Single.take [DecidableEq O] (h : Single used array owner) (ho : o ∈ owner i)
    (hx : ¬used x) : Single used (update array i x) (update owner i ((owner i).erase o)) := by
  intro j
  by_cases hj : j = i
  · subst hj
    rw [update_self, update_self, (h.used_of_mem ho).2, List.erase_cons_head]
    exact .inl ⟨hx, rfl⟩
  · rw [update_of_ne hj, update_of_ne hj]
    exact h j

theorem Single.change (h : Single used array owner) (ho : o ∈ owner i) (hx : used x) :
    Single used (update array i x) owner := by
  intro j
  by_cases hj : j = i
  · subst hj
    rw [update_self]
    exact .inr ⟨hx, o, (h.used_of_mem ho).2⟩
  · rw [update_of_ne hj]
    exact h j

end Slots

import Mathlib.Data.List.Basic
import Mathlib.Tactic.Common

/-! Reading the elements of a list, each of which may fail.

    The whole reading fails as soon as one element does, so two readings agree where the elements do. -/

namespace Readings

variable {ε α β : Type} {f g : α → Option β} {l : List α}

theorem mapM_cons_eq (f : α → Option β) (a : α) (l : List α) :
    (a :: l).mapM f = (f a).bind fun b => (l.mapM f).map (b :: ·) := by
  rw [List.mapM_cons]
  cases f a with
  | none => rfl
  | some b => cases l.mapM f <;> rfl

theorem mapM_eq_none_iff : l.mapM f = none ↔ ∃ a ∈ l, f a = none := by
  induction l with
  | nil => exact ⟨nofun, nofun⟩
  | cons a l ih =>
    rw [mapM_cons_eq, List.exists_mem_cons_iff, ← ih]
    cases f a with
    | none => simp
    | some b => cases l.mapM f <;> simp

theorem mapM_eq_iff (hg : ∀ a ∈ l, g a ≠ none) : l.mapM f = l.mapM g ↔ ∀ a ∈ l, f a = g a := by
  induction l with
  | nil => simp
  | cons a l ih =>
    obtain ⟨hga, hgl⟩ := List.forall_mem_cons.mp hg
    have hrest : l.mapM g ≠ none := fun hnone =>
      let ⟨a, ha, hno⟩ := mapM_eq_none_iff.mp hnone
      hgl a ha hno
    rw [mapM_cons_eq, mapM_cons_eq, List.forall_mem_cons, ← ih hgl]
    obtain ⟨b, hb⟩ := Option.ne_none_iff_exists'.mp hga
    obtain ⟨bs, hbs⟩ := Option.ne_none_iff_exists'.mp hrest
    rw [hb, hbs]
    cases f a with
    | none => simp
    | some b' => cases l.mapM f <;> simp

theorem mapM_singletons (f : α → Option β) (l : List α) :
    (l.mapM fun a => (f a).map fun b => [b]).map List.flatten = l.mapM f := by
  induction l with
  | nil => rfl
  | cons a l ih =>
    rw [mapM_cons_eq, mapM_cons_eq, ← ih]
    cases f a with
    | none => rfl
    | some b => cases l.mapM (fun a => (f a).map fun b => [b]) <;> rfl

theorem toOption_mapM (f : α → Except ε β) (l : List α) :
    (l.mapM f).toOption = l.mapM fun a => (f a).toOption := by
  induction l with
  | nil => rfl
  | cons a l ih =>
    rw [mapM_cons_eq, ← ih, List.mapM_cons]
    cases f a with
    | error e => rfl
    | ok b => cases l.mapM f <;> rfl

end Readings

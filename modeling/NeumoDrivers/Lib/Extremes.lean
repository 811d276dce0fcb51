import Mathlib.Order.Bounds.Basic

/-! The least and the greatest entry of a list, found in one pass.

    The pass holds the least entry so far and the greatest one seen so far, and looks at an entry as a
    new greatest one only where it is not a new least one. It starts from a greatest and a least element
    `top` and `bottom` of all entries, the other way round. The least entry is always found; the
    greatest one exactly when it stands behind another entry, or when nothing could exceed it. -/

/-- What the pass holds. -/
structure Extremes (α : Type) where
  low : α
  high : α

namespace Extremes

variable {α : Type} [LinearOrder α] {e : Extremes α} {l : List α} {x y top bottom : α}

def see (e : Extremes α) (x : α) : Extremes α where
  low := if x < e.low then x else e.low
  high := if x < e.low then e.high else if e.high < x then x else e.high

/-! ### One entry -/

theorem see_low_le : (e.see x).low ≤ e.low := by
  rw [see]
  dsimp only
  split
  next h => exact h.le
  next => exact le_rfl

theorem see_low_le_entry : (e.see x).low ≤ x := by
  rw [see]
  dsimp only
  split
  next => exact le_rfl
  next h => exact not_lt.mp h

theorem high_le_see : e.high ≤ (e.see x).high := by
  rw [see]
  dsimp only
  split
  next => exact le_rfl
  next =>
    split
    next h => exact h.le
    next => exact le_rfl

theorem entry_le_see (h : e.low ≤ x) : x ≤ (e.see x).high := by
  rw [see]
  dsimp only
  rw [if_neg (not_lt.mpr h)]
  split
  next => exact le_rfl
  next h => exact not_lt.mp h

theorem see_low_eq (e : Extremes α) (x : α) : (e.see x).low = e.low ∨ (e.see x).low = x := by
  rw [see]
  dsimp only
  split
  next => exact .inr rfl
  next => exact .inl rfl

theorem see_high_eq (e : Extremes α) (x : α) :
    (e.see x).high = e.high ∨ e.low ≤ x ∧ (e.see x).high = x := by
  rw [see]
  dsimp only
  split
  next => exact .inl rfl
  next hlow =>
    split
    next => exact .inr ⟨not_lt.mp hlow, rfl⟩
    next => exact .inl rfl

/-! ### The pass -/

theorem foldl_low_le : ∀ (l : List α) (e : Extremes α), (l.foldl see e).low ≤ e.low
  | [], _ => le_rfl
  | _ :: l, _ => (foldl_low_le l _).trans see_low_le

theorem foldl_low_le_mem : ∀ {l : List α} {e : Extremes α}, x ∈ l → (l.foldl see e).low ≤ x
  | y :: l, e, h => by
    rw [List.foldl_cons]
    rcases List.mem_cons.mp h with rfl | h
    · exact (foldl_low_le l _).trans see_low_le_entry
    · exact foldl_low_le_mem h

theorem foldl_low_eq : ∀ (l : List α) (e : Extremes α),
    (l.foldl see e).low = e.low ∨ (l.foldl see e).low ∈ l
  | [], _ => .inl rfl
  | y :: l, e => by
    rw [List.foldl_cons]
    rcases foldl_low_eq l (e.see y) with h | h
    · rw [h]
      rcases e.see_low_eq y with h | h
      · exact .inl h
      · exact .inr (List.mem_cons.mpr (.inl h))
    · exact .inr (List.mem_cons_of_mem _ h)

theorem high_le_foldl : ∀ (l : List α) (e : Extremes α), e.high ≤ (l.foldl see e).high
  | [], _ => le_rfl
  | _ :: l, _ => high_le_see.trans (high_le_foldl l _)

theorem foldl_high_eq : ∀ (l : List α) (e : Extremes α),
    (l.foldl see e).high = e.high ∨ (l.foldl see e).high ∈ l
  | [], _ => .inl rfl
  | y :: l, e => by
    rw [List.foldl_cons]
    rcases foldl_high_eq l (e.see y) with h | h
    · rw [h]
      rcases e.see_high_eq y with h | ⟨-, h⟩
      · exact .inl h
      · exact .inr (List.mem_cons.mpr (.inl h))
    · exact .inr (List.mem_cons_of_mem _ h)

/-- An entry not below the least one so far is seen wherever it stands. -/
theorem mem_le_foldl_high : ∀ {l : List α} {e : Extremes α}, x ∈ l → e.low ≤ x →
    x ≤ (l.foldl see e).high
  | y :: l, e, h, hlow => by
    rw [List.foldl_cons]
    rcases List.mem_cons.mp h with rfl | h
    · exact (entry_le_see hlow).trans (high_le_foldl l _)
    · exact mem_le_foldl_high h (see_low_le.trans hlow)

def pass (top bottom : α) (l : List α) : Extremes α := l.foldl see ⟨top, bottom⟩

theorem isLeast_low (hne : l ≠ []) (htop : ∀ x ∈ l, x ≤ top) :
    IsLeast { x | x ∈ l } (pass top bottom l).low := by
  refine ⟨?_, fun x hx => foldl_low_le_mem hx⟩
  rcases foldl_low_eq l ⟨top, bottom⟩ with h | h
  · -- Nothing is below the top: any entry is the top.
    obtain ⟨x, hx⟩ := List.exists_mem_of_ne_nil l hne
    have hle : top ≤ x := h.ge.trans (foldl_low_le_mem hx)
    have hlow : (pass top bottom l).low = x := h.trans (hle.antisymm (htop x hx))
    exact hlow ▸ hx
  · exact h

theorem high_le (hbottom : ∀ x ∈ l, bottom ≤ x) (hy : IsGreatest { x | x ∈ l } y) :
    (pass top bottom l).high ≤ y := by
  rcases foldl_high_eq l ⟨top, bottom⟩ with h | h
  · exact h.le.trans (hbottom y hy.1)
  · exact hy.2 h

/-- The greatest entry stands behind another one, or is the top, or there is nothing above the
    bottom. -/
def Seen (top bottom : α) (l : List α) : Prop :=
  ∃ y, IsGreatest { x | x ∈ l } y ∧ (y ∈ l.tail ∨ y = top ∨ y = bottom)

theorem isGreatest_high_iff (htop : ∀ x ∈ l, x ≤ top) (hbottom : ∀ x ∈ l, bottom ≤ x) :
    IsGreatest { x | x ∈ l } (pass top bottom l).high ↔ Seen top bottom l := by
  constructor
  · intro h
    refine ⟨_, h, ?_⟩
    cases l with
    | nil => exact .inr (.inr rfl)
    | cons first rest =>
      rw [pass, List.foldl_cons]
      rcases foldl_high_eq rest (see ⟨top, bottom⟩ first) with heq | hmem
      · rw [heq]
        rcases see_high_eq ⟨top, bottom⟩ first with heq | ⟨hle, heq⟩
        · exact .inr (.inr heq)
        · exact .inr (.inl (heq.trans ((htop first List.mem_cons_self).antisymm hle)))
      · exact .inl hmem
  · rintro ⟨y, hy, hseen⟩
    suffices hle : y ≤ (pass top bottom l).high from
      (hle.antisymm (high_le hbottom hy)) ▸ hy
    rcases hseen with htail | rfl | rfl
    · cases l with
      | nil => cases htail
      | cons first rest =>
        -- Behind the first entry the least one so far is at most that one.
        rw [pass, List.foldl_cons]
        exact mem_le_foldl_high htail (see_low_le_entry.trans (hy.2 List.mem_cons_self))
    · exact mem_le_foldl_high hy.1 le_rfl
    · exact high_le_foldl l ⟨top, y⟩

end Extremes

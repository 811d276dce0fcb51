import Mathlib.Tactic.Common
import Mathlib.Data.List.Basic
import Mathlib.Data.List.GetD

/-! Memory that is read in blocks.

    Memory is a function from places to symbols; `block m p n` is what it holds in the `n` places from
    `p` on. A block is cut where one likes (`block_add`), and what lies behind a cut is a block again
    (`drop_block`). A copy changes the places it is made to and no others. -/

namespace Memory

variable {α : Type} {m : ℕ → α} {p n k : ℕ} {u v : List α}

/-- What the memory holds in the `n` places from `p` on. -/
def block (m : ℕ → α) (p n : ℕ) : List α := (List.range n).map fun i => m (p + i)

@[simp] theorem length_block (m : ℕ → α) (p n : ℕ) : (block m p n).length = n := by
  simp [block]

@[simp] theorem block_zero (m : ℕ → α) (p : ℕ) : block m p 0 = [] := rfl

theorem block_add (m : ℕ → α) (p k n : ℕ) : block m p (k + n) = block m p k ++ block m (p + k) n := by
  simp [block, List.range_add, Function.comp_def, Nat.add_assoc]

theorem block_shift (m : ℕ → α) (p k n : ℕ) : block (fun i => m (p + i)) k n = block m (p + k) n := by
  simp [block, Nat.add_assoc]

theorem take_block (h : k ≤ n) : (block m p n).take k = block m p k := by
  obtain ⟨l, rfl⟩ := Nat.exists_eq_add_of_le h
  rw [block_add, List.take_left' (length_block m p k)]

theorem drop_block (m : ℕ → α) (p k n : ℕ) : (block m p n).drop k = block m (p + k) (n - k) := by
  rcases Nat.le_total k n with h | h
  · obtain ⟨l, rfl⟩ := Nat.exists_eq_add_of_le h
    rw [block_add, List.drop_left' (length_block m p k), Nat.add_sub_cancel_left]
  · rw [List.drop_eq_nil_of_le (by rwa [length_block]), Nat.sub_eq_zero_of_le h, block_zero]

theorem getD_block (hk : k < n) (d : α) : (block m p n).getD k d = m (p + k) := by
  simp [block, List.getD_eq_getElem?_getD, hk]

theorem block_left (h : block m p n = u ++ v) : block m p u.length = u := by
  have hlen : n = u.length + v.length := by
    rw [← length_block m p n, h, List.length_append]
  rw [hlen, block_add] at h
  exact (List.append_inj h (length_block m p u.length)).1

theorem block_right (h : block m p n = u ++ v) : block m (p + u.length) (n - u.length) = v := by
  rw [← drop_block, h, List.drop_left]

theorem block_getD (l : List α) (d : α) (h : p + n ≤ l.length) :
    block (fun i => l.getD i d) p n = (l.drop p).take n := by
  refine List.ext_getElem (by rw [length_block, List.length_take, List.length_drop]; omega) ?_
  intro i hi hi'
  rw [length_block] at hi
  have hplace : (block (fun i => l.getD i d) p n).getD i d = l.getD (p + i) d := getD_block hi d
  rw [List.getD_eq_getElem _ _ (by rwa [length_block]),
    List.getD_eq_getElem _ _ (by omega)] at hplace
  rw [hplace, List.getElem_take, List.getElem_drop]

/-! ### Copies into memory -/

/-- The memory behind a copy of `l` to the places from `p` on. -/
def overwrite (m : ℕ → α) (p : ℕ) (l : List α) : ℕ → α :=
  fun k => if p ≤ k then (l[k - p]?).getD (m k) else m k

theorem overwrite_nil (m : ℕ → α) (p : ℕ) : overwrite m p [] = m := by
  funext k
  rw [overwrite, List.getElem?_nil, Option.getD_none, ite_self]

theorem overwrite_before (l : List α) (h : k < p) : overwrite m p l k = m k :=
  if_neg (Nat.not_le.mpr h)

theorem overwrite_behind {l : List α} (h : p + l.length ≤ k) : overwrite m p l k = m k := by
  rw [overwrite, if_pos (by omega), List.getElem?_eq_none (by omega), Option.getD_none]

theorem overwrite_append (m : ℕ → α) (p : ℕ) (u v : List α) :
    overwrite (overwrite m p u) (p + u.length) v = overwrite m p (u ++ v) := by
  funext k
  by_cases h : p + u.length ≤ k
  · rw [overwrite, if_pos h, overwrite_behind h, overwrite, if_pos (by omega),
      List.getElem?_append_right (by omega), Nat.sub_add_eq]
  · rw [overwrite_before v (by omega)]
    by_cases hp : p ≤ k
    · rw [overwrite, overwrite, if_pos hp, if_pos hp, List.getElem?_append_left (by omega)]
    · rw [overwrite_before _ (by omega), overwrite_before _ (by omega)]

theorem block_overwrite (m : ℕ → α) (p : ℕ) (l : List α) : block (overwrite m p l) p l.length = l := by
  refine List.ext_getElem (length_block _ _ _) fun i hi hi' => ?_
  simp only [block, List.getElem_map, List.getElem_range, overwrite]
  rw [if_pos (Nat.le_add_right p i), Nat.add_sub_cancel_left, List.getElem?_eq_getElem hi',
    Option.getD_some]

theorem block_overwrite_inside {l : List α} {x : ℕ} (h : x + n ≤ l.length) :
    block (overwrite m p l) (p + x) n = (l.drop x).take n := by
  have hdrop : l.drop x = block (overwrite m p l) (p + x) (l.length - x) := by
    rw [← drop_block, block_overwrite]
  rw [hdrop, take_block (by omega)]

end Memory

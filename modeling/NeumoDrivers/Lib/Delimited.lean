import Mathlib.Tactic.Common
import Mathlib.Data.List.Basic

/-! Records that tell their own length.

    The first symbols of a record say how long it is. `split` cuts a window into the records that
    are complete in it and the rest. A window of whole records followed by an unfinished one splits
    into exactly these (`split_flatten`), and what is left over may be split again together with
    what comes behind it (`split_append`). -/

namespace Delimited

/-- How long the record at the start of a window is, if that can be told yet. -/
structure Delimiter (α : Type) where
  size : List α → Option ℕ
  size_pos : ∀ {w n}, size w = some n → 0 < n
  size_append : ∀ {u n}, size u = some n → ∀ v, size (u ++ v) = some n

variable {α : Type} (D : Delimiter α) {w u v r : List α} {n : ℕ}

/-- The window starts with a whole record of `n` symbols. -/
def Starts (w : List α) (n : ℕ) : Prop := D.size w = some n ∧ n ≤ w.length

/-- The whole records at the start of a window, and the rest. -/
def split (w : List α) : List (List α) × List α :=
  match _hsize : D.size w with
  | none => ([], w)
  | some n =>
    if n ≤ w.length then
      let r := split (w.drop n)
      (w.take n :: r.1, r.2)
    else ([], w)
termination_by w.length
decreasing_by
  have hpos := D.size_pos _hsize
  rw [List.length_drop]
  omega

/-- Nothing is complete at the start of the window. -/
def Stuck (w : List α) : Prop := ∀ n, D.size w = some n → w.length < n

variable {D}

theorem split_stuck (h : Stuck D w) : split D w = ([], w) := by
  rw [split]
  split
  · rfl
  · rename_i n hn
    rw [if_neg (Nat.not_le.mpr (h n hn))]

theorem split_starts (h : Starts D w n) :
    split D w = (w.take n :: (split D (w.drop n)).1, (split D (w.drop n)).2) := by
  rw [split]
  split
  · rename_i hnone
    rw [h.1] at hnone
    cases hnone
  · rename_i m hm
    obtain rfl : n = m := Option.some.inj (h.1.symm.trans hm)
    rw [if_pos h.2]

theorem starts_or_stuck (w : List α) : (∃ n, Starts D w n) ∨ Stuck D w := by
  rcases hsize : D.size w with _ | n
  · exact Or.inr fun n hn => by rw [hsize] at hn; cases hn
  · rcases Nat.lt_or_ge w.length n with hlt | hle
    · refine Or.inr fun m hm => ?_
      obtain rfl : n = m := Option.some.inj (hsize.symm.trans hm)
      exact hlt
    · exact Or.inl ⟨n, hsize, hle⟩

theorem split_record (hr : D.size r = some r.length) (v : List α) :
    split D (r ++ v) = (r :: (split D v).1, (split D v).2) := by
  have hstarts : Starts D (r ++ v) r.length :=
    ⟨D.size_append hr v, by rw [List.length_append]; exact Nat.le_add_right ..⟩
  rw [split_starts hstarts, List.take_left, List.drop_left]

theorem split_flatten {rs : List (List α)} (hrs : ∀ r ∈ rs, D.size r = some r.length)
    (h : Stuck D v) : split D (rs.flatten ++ v) = (rs, v) := by
  induction rs with
  | nil => exact split_stuck h
  | cons r rs ih =>
    rw [List.flatten_cons, List.append_assoc, split_record (hrs r List.mem_cons_self),
      ih fun r' hr' => hrs r' (List.mem_cons_of_mem _ hr')]

theorem stuck_of_unfinished (hr : D.size (u ++ v) = some (u ++ v).length) (hv : v ≠ []) :
    Stuck D u := by
  intro n hn
  have hlen : n = (u ++ v).length := Option.some.inj ((D.size_append hn v).symm.trans hr)
  have hpos := List.length_pos_of_ne_nil hv
  rw [hlen, List.length_append]
  omega

end Delimited

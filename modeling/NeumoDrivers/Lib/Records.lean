import Mathlib.Tactic.Common
import Mathlib.Data.List.Basic

/-! Fixed-length records in a stream.

    A stream is a run of records of `n` symbols each. `feed n pend w` takes in the piece `w` when
    the symbols `pend` of an unfinished record are already held: it returns the records finished by
    `w` and the symbols then held. Feeding piece by piece is feeding the whole (`feed_append`), so
    where the stream is cut never matters; and on a stream that is a concatenation of records it
    returns exactly these (`feed_flatten`). -/

namespace Records

variable {α β : Type}

/-- Take in a piece of the stream, `pend` being the unfinished record. -/
def feed (n : ℕ) : List α → List α → List (List α) × List α
  | pend, [] => ([], pend)
  | pend, a :: w =>
    if pend.length + 1 = n then
      let r := feed n [] w
      ((pend ++ [a]) :: r.1, r.2)
    else feed n (pend ++ [a]) w

@[simp] theorem feed_nil (n : ℕ) (pend : List α) : feed n pend [] = ([], pend) := rfl

/-- Feeding piece by piece is feeding the whole. -/
theorem feed_append (n : ℕ) (pend u v : List α) :
    feed n pend (u ++ v) =
      ((feed n pend u).1 ++ (feed n (feed n pend u).2 v).1, (feed n (feed n pend u).2 v).2) := by
  induction u generalizing pend with
  | nil => simp
  | cons a u ih =>
    simp only [List.cons_append, feed]
    split
    · rw [ih]; rfl
    · rw [ih]

theorem feed_short (n : ℕ) (pend u : List α) (h : pend.length + u.length < n) :
    feed n pend u = ([], pend ++ u) := by
  induction u generalizing pend with
  | nil => simp
  | cons a u ih =>
    simp only [List.length_cons] at h
    rw [feed, if_neg (by omega), ih _ (by simp only [List.length_append, List.length_singleton]; omega),
      List.append_assoc, List.singleton_append]

theorem feed_full (n : ℕ) (pend u : List α) (hu : u ≠ []) (h : pend.length + u.length = n) :
    feed n pend u = ([pend ++ u], []) := by
  obtain ⟨v, a, rfl⟩ := (List.eq_nil_or_concat u).resolve_left hu
  simp only [List.concat_eq_append, List.length_append, List.length_singleton] at h ⊢
  rw [feed_append, feed_short n pend v (by omega)]
  simp only [feed, List.length_append, List.nil_append, List.append_assoc]
  rw [if_pos (by omega)]

theorem feed_pend_lt (n : ℕ) (pend u : List α) (h : pend.length < n) :
    (feed n pend u).2.length < n := by
  induction u generalizing pend with
  | nil => exact h
  | cons a u ih =>
    rw [feed]
    split
    · exact ih [] (by simp only [List.length_nil]; omega)
    · exact ih _ (by simp only [List.length_append, List.length_singleton]; omega)

/-- On whole records followed by an unfinished one, `feed` returns exactly these records. -/
theorem feed_flatten (n : ℕ) (rs : List (List α)) (tail : List α) (hn : 0 < n)
    (hrs : ∀ r ∈ rs, r.length = n) (ht : tail.length < n) :
    feed n [] (rs.flatten ++ tail) = (rs, tail) := by
  induction rs with
  | nil => simpa using feed_short n [] tail (by simpa using ht)
  | cons r rs ih =>
    have hr : r.length = n := hrs r (by simp)
    have hne : r ≠ [] := by rintro rfl; simp at hr; omega
    rw [List.flatten_cons, List.append_assoc, feed_append, feed_full n [] r hne (by simpa using hr),
      ih fun r' h => hrs r' (List.mem_cons_of_mem _ h)]
    rfl

/-! ### Records of one length, one behind another -/

section Rows

variable {f : β → List α} {n : ℕ}

theorem length_rows (hf : ∀ b, (f b).length = n) (l : List β) :
    (l.flatMap f).length = n * l.length := by
  induction l with
  | nil => rfl
  | cons b l ih => rw [List.flatMap_cons, List.length_append, hf, ih, List.length_cons, Nat.mul_succ,
      Nat.add_comm]

theorem take_rows (hf : ∀ b, (f b).length = n) (l : List β) (k : ℕ) :
    (l.take k).flatMap f = (l.flatMap f).take (n * k) := by
  induction l generalizing k with
  | nil => simp
  | cons b l ih =>
    cases k with
    | zero => rfl
    | succ k =>
      rw [List.take_succ_cons, List.flatMap_cons, List.flatMap_cons, ih, Nat.mul_succ, Nat.add_comm,
        ← hf b, List.take_length_add_append]

theorem drop_rows (hf : ∀ b, (f b).length = n) (l : List β) (k : ℕ) :
    (l.drop k).flatMap f = (l.flatMap f).drop (n * k) := by
  induction l generalizing k with
  | nil => simp
  | cons b l ih =>
    cases k with
    | zero => rfl
    | succ k =>
      rw [List.drop_succ_cons, List.flatMap_cons, ih, Nat.mul_succ, Nat.add_comm, ← hf b,
        List.drop_length_add_append]

end Rows

end Records

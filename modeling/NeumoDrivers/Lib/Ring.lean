import Mathlib.Tactic.Common
import Mathlib.Data.List.Rotate
import Mathlib.Data.Nat.ModEq

/-! Circular arrays.

    `data.rotate i` is the array seen from the cell `i` on, going round at the end. Seen from where
    a copy starts, a copy that goes round in two pieces is a plain copy to the front, and a read in
    two pieces is a plain `take`; so a queue kept in the array is the first cells of the view from
    its read position (`front`), writing behind it appends and reading on drops.

    `Queue` is the queue itself, with what became of each item that left it. -/

namespace Ring

variable {α : Type} {data src : List α} {a : α} {i j k m n p : ℕ}

/-- `k` cells of the array from `i` on, going round. -/
def front (data : List α) (i k : ℕ) : List α := (data.rotate i).take k

/-- `src` copied to the cells from `p` on; it does not go round. -/
def store (data : List α) (p : ℕ) (src : List α) : List α :=
  data.take p ++ src ++ data.drop (p + src.length)

theorem length_store (h : p + src.length ≤ data.length) : (store data p src).length = data.length := by
  simp only [store, List.length_append, List.length_take, List.length_drop]
  omega

theorem length_front (hk : k ≤ data.length) : (front data i k).length = k := by
  rw [front, List.length_take, List.length_rotate, Nat.min_eq_left hk]

theorem front_mod (hn : data.length = n) : front data (i % n) k = front data i k := by
  rw [front, front, ← hn, List.rotate_mod]

theorem drop_rotate (hk : k ≤ data.length) :
    (data.rotate i).drop k ++ (data.rotate i).take k = data.rotate (i + k) := by
  have hk' : k ≤ (data.rotate i).length := by rwa [List.length_rotate]
  rw [← List.rotate_rotate, List.rotate_eq_drop_append_take hk']

/-- Reading on: what is left behind the first `m` cells. -/
theorem drop_front (hn : data.length = n) (hm : m ≤ k) (hk : k ≤ n) :
    (front data i k).drop m = front data ((i + m) % n) (k - m) := by
  rw [front_mod hn, front, front, ← drop_rotate (by omega), List.drop_take,
    List.take_append_of_le_length (by rw [List.length_drop, List.length_rotate]; omega)]

theorem take_front (hm : m ≤ k) : (front data i k).take m = front data i m := by
  rw [front, front, List.take_take, Nat.min_eq_left hm]

theorem getElem?_front (hn : data.length = n) (hj : j < k) (hk : k ≤ n) :
    (front data i k)[j]? = data[(i + j) % n]? := by
  subst hn
  rw [front, List.getElem?_take_of_lt hj, List.getElem?_rotate (by omega), Nat.add_comm]

/-! ### Copies -/

theorem take_straight (h : p + k ≤ data.length) : (data.drop p).take k = front data p k := by
  rw [front, List.rotate_eq_drop_append_take (by omega),
    List.take_append_of_le_length (by rw [List.length_drop]; omega)]

/-- A read that goes round. -/
theorem take_round (hn : data.length = n) (hp : p ≤ n) (hk : n - p ≤ k) (hle : k ≤ n) :
    (data.drop p).take (n - p) ++ (data.drop 0).take (k - (n - p)) = front data p k := by
  subst hn
  have hlen : (data.drop p).length = data.length - p := List.length_drop ..
  have hall : (data.drop p).take (data.length - p) = data.drop p :=
    List.take_of_length_le (Nat.le_of_eq hlen)
  have hmore : (data.drop p).take k = data.drop p := List.take_of_length_le (hlen ▸ hk)
  rw [front, List.rotate_eq_drop_append_take hp, List.take_append, hlen, hall, hmore,
    List.drop_zero, List.take_take, Nat.min_eq_left (show k - (data.length - p) ≤ p by omega)]

theorem rotate_store (h : p + src.length ≤ data.length) :
    (store data p src).rotate p = src ++ (data.rotate p).drop src.length := by
  have htake : (data.take p).length = p := by rw [List.length_take]; omega
  rw [List.rotate_eq_drop_append_take (by rw [length_store h]; omega),
    List.rotate_eq_drop_append_take (show p ≤ data.length by omega), store,
    List.append_assoc, List.drop_left' htake, List.take_left' htake,
    List.drop_append_of_le_length (by rw [List.length_drop]; omega), List.drop_drop,
    List.append_assoc]

/-- A copy that goes round. -/
theorem rotate_store_round (hn : data.length = n) (hp : p ≤ n) (hround : n - p ≤ src.length)
    (hle : src.length ≤ n) :
    (store (store data p (src.take (n - p))) 0 (src.drop (n - p))).rotate p =
      src ++ (data.rotate p).drop src.length := by
  subst hn
  have htake : (src.take (data.length - p)).length = data.length - p := by
    rw [List.length_take, Nat.min_eq_left hround]
  have hend : p + (data.length - p) = data.length := by omega
  have hfirst : store data p (src.take (data.length - p)) =
      data.take p ++ src.take (data.length - p) := by
    rw [store, htake, hend, List.drop_length, List.append_nil]
  have hsecond : store (data.take p ++ src.take (data.length - p)) 0 (src.drop (data.length - p)) =
      (src.drop (data.length - p) ++ (data.take p).drop (src.drop (data.length - p)).length) ++
        src.take (data.length - p) := by
    rw [store, List.take_zero, List.nil_append, Nat.zero_add, List.drop_append_of_le_length
      (by rw [List.length_drop, List.length_take]; omega), List.append_assoc]
  have hhead : (src.drop (data.length - p) ++
      (data.take p).drop (src.drop (data.length - p)).length).length = p := by
    simp only [List.length_append, List.length_drop, List.length_take]
    omega
  have hnone : (data.drop p).drop src.length = [] :=
    List.drop_eq_nil_of_le (by rw [List.length_drop]; exact hround)
  rw [hfirst, hsecond, List.rotate_eq_drop_append_take
    (by rw [List.length_append, hhead, htake]; omega), List.drop_left' hhead, List.take_left' hhead,
    List.rotate_eq_drop_append_take hp, ← List.append_assoc, List.take_append_drop,
    List.drop_append, hnone, List.nil_append, List.length_drop, List.length_drop]

/-- Writing behind the front extends it. -/
theorem front_write {data' : List α} (hn : data.length = n) (hlen : data'.length = n)
    (hfit : k + src.length ≤ n) (hp : p = (i + k) % n)
    (h : data'.rotate p = src ++ (data.rotate p).drop src.length) :
    front data' i (k + src.length) = front data i k ++ src := by
  subst hn
  have hk : k ≤ data.length := by omega
  have hrot : data'.rotate (i + k) = src ++ (data.rotate (i + k)).drop src.length := by
    rw [hp, List.rotate_mod, ← hlen, List.rotate_mod] at h
    exact h
  rw [← drop_rotate (hlen ▸ hk), ← drop_rotate hk, List.drop_append_of_le_length
    (by rw [List.length_drop, List.length_rotate]; omega), ← List.append_assoc] at hrot
  obtain ⟨hdrop, htake⟩ := List.append_inj' hrot
    (by simp only [List.length_take, List.length_rotate]; omega)
  rw [front, front, ← List.take_append_drop k (data'.rotate i), htake, hdrop, List.take_append,
    List.take_of_length_le (by rw [List.length_take]; omega), List.length_take, List.length_rotate,
    Nat.min_eq_left hk, Nat.add_sub_cancel_left, List.take_left]

theorem rotate_set (hn : data.length = n) (hj : j < n) :
    (data.set ((i + j) % n) a).rotate i = (data.rotate i).set j a := by
  subst hn
  apply List.ext_getElem
  · simp only [List.length_rotate, List.length_set]
  · intro l h1 h2
    simp only [List.length_rotate, List.length_set] at h1 h2
    simp only [List.getElem_rotate, List.getElem_set, List.length_set]
    by_cases hl : j = l
    · subst hl
      rw [if_pos (by rw [Nat.add_comm]), if_pos rfl]
    · rw [if_neg hl, if_neg]
      intro heq
      rw [Nat.add_comm l i] at heq
      have hmod : Nat.ModEq data.length j l := Nat.ModEq.add_left_cancel' i heq
      exact hl (Nat.ModEq.eq_of_lt_of_lt hmod hj h1)

theorem front_set (hn : data.length = n) (hj : j < n) :
    front (data.set ((i + j) % n) a) i k = (front data i k).set j a := by
  rw [front, front, rotate_set hn hj, List.take_set]

theorem front_push (hn : data.length = n) (hk : k < n) :
    front (data.set ((i + k) % n) a) i (k + 1) = front data i k ++ [a] := by
  have hlen : (data.rotate i).length = n := by rw [List.length_rotate, hn]
  rw [front_set hn hk, front, front, List.take_add_one, List.set_append_right _ _
    (by rw [List.length_take]; omega), List.length_take, hlen, Nat.min_eq_left (by omega),
    Nat.sub_self, List.getElem?_eq_getElem (by omega)]
  rfl

/-! ### The queue -/

/-- What is done with a queue. -/
inductive Use (α : Type) where
  | write (items : List α)
  | read (n : ℕ)
  | flush

/-- The items held, and those that left: `true` for an item read, `false` for one flushed. -/
structure Queue (α : Type) where
  held : List α
  passed : List (Bool × α)

def Queue.use (q : Queue α) : Use α → Queue α
  | .write items => { q with held := q.held ++ items }
  | .read n => ⟨q.held.drop n, q.passed ++ (q.held.take n).map fun a => (true, a)⟩
  | .flush => ⟨[], q.passed ++ q.held.map fun a => (false, a)⟩

/-- The queue after the uses `us`, empty at first. -/
def Queue.after (us : List (Use α)) : Queue α := us.foldl Queue.use ⟨[], []⟩

/-- Everything written, in order. -/
def written (us : List (Use α)) : List α :=
  us.flatMap fun
    | .write items => items
    | _ => []

/-- The items read, in order. -/
def Queue.taken (q : Queue α) : List α := (q.passed.filter Prod.fst).map Prod.snd

theorem Queue.after_concat (us : List (Use α)) (u : Use α) :
    Queue.after (us ++ [u]) = (Queue.after us).use u := by
  rw [Queue.after, List.foldl_append]
  rfl

theorem Queue.taken_read (q : Queue α) (n : ℕ) :
    (q.use (.read n)).taken = q.taken ++ q.held.take n := by
  have hall : ((q.held.take n).map fun a => (true, a)).filter Prod.fst =
      (q.held.take n).map fun a => (true, a) := by
    refine List.filter_eq_self.mpr fun b hb => ?_
    obtain ⟨a, _, rfl⟩ := List.mem_map.mp hb
    rfl
  rw [Queue.taken, Queue.use, List.filter_append, List.map_append, hall, List.map_map]
  exact congrArg (q.taken ++ ·) (List.map_id _)

theorem Queue.taken_flush (q : Queue α) : (q.use .flush).taken = q.taken := by
  simp [Queue.taken, Queue.use, List.filter_map, Function.comp_def]

theorem Queue.written_after (us : List (Use α)) :
    written us = (Queue.after us).passed.map Prod.snd ++ (Queue.after us).held := by
  induction us using List.reverseRecOn with
  | nil => rfl
  | append_singleton us u ih =>
    rw [Queue.after_concat, written, List.flatMap_append, ← written, ih]
    cases u with
    | write items => simp [Queue.use]
    | read n => simp [Queue.use, Function.comp_def]
    | flush => simp [Queue.use, Function.comp_def]

end Ring

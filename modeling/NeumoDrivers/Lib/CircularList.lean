import Mathlib.Tactic.Common
import Mathlib.Data.List.Chain
import Mathlib.Data.List.Nodup

/-! Circular lists with links in both directions.

    The head and the entries have a link to the node behind and one to the node before them. The
    links are words of memory: one may also hold nothing, or a value `other` that some other use of
    the same memory has left in it. `Linked` says that the links from the head on lead through the
    entries of a list and back; adding an entry behind the head and taking an entry out keep that,
    and walking the list finds the entries. -/

namespace CircularList
open Function

/-- A word of memory. The node `none` is the head. -/
inductive Word (ι κ : Type) where
  | null
  | node (n : Option ι)
  | other (k : κ)
  deriving DecidableEq

structure Links (ι κ : Type) where
  next : Option ι → Word ι κ
  prev : Option ι → Word ι κ

variable {ι κ : Type} [DecidableEq ι] {m m' : Links ι κ} {es xs ys : List ι} {i : ι} {k : κ}

namespace Links

def setNext (m : Links ι κ) (n : Option ι) (w : Word ι κ) : Links ι κ :=
  { m with next := update m.next n w }

def setPrev (m : Links ι κ) (n : Option ι) (w : Word ι κ) : Links ι κ :=
  { m with prev := update m.prev n w }

/-- `INIT_LIST_HEAD`. -/
def init (m : Links ι κ) : Links ι κ := (m.setNext none (.node none)).setPrev none (.node none)

/-- `list_add`, behind the head. Where the head does not lead to a node, its `prev` is not there to
    be written. -/
def add (m : Links ι κ) (i : ι) : Links ι κ :=
  let w := m.next none
  let m := match w with
    | .node n => m.setPrev n (.node (some i))
    | _ => m
  ((m.setNext (some i) w).setPrev (some i) (.node none)).setNext none (.node (some i))

/-- `list_del`. -/
def del (m : Links ι κ) (i : ι) : Links ι κ :=
  let prev := m.prev (some i)
  let next := m.next (some i)
  let m := match next with
    | .node n => m.setPrev n prev
    | _ => m
  match prev with
  | .node p => m.setNext p next
  | _ => m

end Links

/-- The entries that are found by following links, `n` of them at most. -/
def follow (link : Option ι → Word ι κ) : ℕ → Word ι κ → List ι
  | n + 1, .node (some i) => i :: follow link n (link (some i))
  | _, _ => []

/-- `list_for_each_entry`. -/
def Links.forward (m : Links ι κ) (n : ℕ) : List ι := follow m.next n (m.next none)

/-- `list_for_each_entry_reverse`. -/
def Links.backward (m : Links ι κ) (n : ℕ) : List ι := follow m.prev n (m.prev none)

/-- One node leads to the other, and back. -/
def Joined (m : Links ι κ) (a b : Option ι) : Prop := m.next a = .node b ∧ m.prev b = .node a

instance [DecidableEq κ] (a b : Option ι) : Decidable (Joined m a b) :=
  inferInstanceAs (Decidable (_ ∧ _))

/-- The links lead from the head through the entries and back to the head. -/
structure Linked (m : Links ι κ) (es : List ι) : Prop where
  chain : List.IsChain (Joined m) (none :: (es.map some ++ [none]))
  nodup : es.Nodup

instance [DecidableEq κ] (m : Links ι κ) (es : List ι) : Decidable (Linked m es) :=
  decidable_of_iff (List.IsChain (Joined m) (none :: (es.map some ++ [none])) ∧ es.Nodup)
    ⟨fun h => ⟨h.1, h.2⟩, fun h => ⟨h.1, h.2⟩⟩

omit [DecidableEq ι] in
/-- A part of the list whose links are the same. -/
theorem chain_congr {l : List (Option ι)} (h : l.IsChain (Joined m))
    (hnext : ∀ x ∈ l.dropLast, m'.next x = m.next x)
    (hprev : ∀ y ∈ l.tail, m'.prev y = m.prev y) : l.IsChain (Joined m') := by
  induction l with
  | nil => exact .nil
  | cons a l ih =>
    cases l with
    | nil => exact .singleton a
    | cons b l =>
      rw [List.isChain_cons_cons] at h ⊢
      obtain ⟨⟨hab, hba⟩, hl⟩ := h
      rw [List.dropLast_cons_cons] at hnext
      rw [List.tail_cons] at hprev
      refine ⟨⟨(hnext a List.mem_cons_self).trans hab, (hprev b List.mem_cons_self).trans hba⟩, ?_⟩
      refine ih hl (fun x hx => hnext x (List.mem_cons_of_mem _ hx)) fun y hy => ?_
      exact hprev y (List.mem_cons_of_mem _ hy)

theorem linked_init (m : Links ι κ) : Linked m.init [] := by
  refine ⟨?_, List.nodup_nil⟩
  rw [List.map_nil, List.nil_append, List.isChain_cons_cons]
  refine ⟨⟨?_, ?_⟩, .singleton _⟩
  · simp [Links.init, Links.setNext, Links.setPrev]
  · simp [Links.init, Links.setPrev, Links.setNext]

omit [DecidableEq ι] in
theorem behind_cases (es : List ι) (hes : es.Nodup) :
    ∃ b t, es.map some ++ [none] = b :: t ∧ b ∉ t ∧ (b :: t).dropLast = es.map some := by
  have hnodup : (es.map some ++ [none]).Nodup := by
    simpa [List.nodup_append] using hes.map fun _ _ => Option.some.inj
  cases hl : es.map some ++ [none] with
  | nil => simp at hl
  | cons b t =>
    rw [hl, List.nodup_cons] at hnodup
    exact ⟨b, t, rfl, hnodup.1, by rw [← hl, List.dropLast_concat]⟩

theorem Linked.add (h : Linked m es) (hi : i ∉ es) : Linked (m.add i) (i :: es) := by
  obtain ⟨b, t, hbt, hb, hdrop⟩ := behind_cases es h.nodup
  have hchain := h.chain
  rw [hbt, List.isChain_cons_cons] at hchain
  obtain ⟨⟨hnext, hprev⟩, hrest⟩ := hchain
  have hbi : b ≠ some i := by
    rintro rfl
    have hmem : some i ∈ es.map some ++ [none] := by rw [hbt]; exact List.mem_cons_self
    simp [hi] at hmem
  have hti : some i ∉ t := by
    intro hmem
    have hmem' : some i ∈ es.map some ++ [none] := by
      rw [hbt]
      exact List.mem_cons_of_mem _ hmem
    simp [hi] at hmem'
  have hadd : m.add i = (((m.setPrev b (.node (some i))).setNext (some i) (.node b)).setPrev
      (some i) (.node none)).setNext none (.node (some i)) := by
    rw [Links.add, hnext]
  refine ⟨?_, List.nodup_cons.mpr ⟨hi, h.nodup⟩⟩
  rw [List.map_cons, List.cons_append, hbt, hadd, List.isChain_cons_cons, List.isChain_cons_cons]
  refine ⟨⟨?_, ?_⟩, ⟨?_, ?_⟩, chain_congr hrest ?_ ?_⟩
  · simp [Links.setNext]
  · simp [Links.setPrev, Links.setNext]
  · simp [Links.setNext, Links.setPrev]
  · simp [Links.setPrev, Links.setNext, update_of_ne hbi]
  · intro x hx
    rw [hdrop] at hx
    obtain ⟨e, he, rfl⟩ := List.mem_map.mp hx
    have hei : some e ≠ some i := by
      rintro heq
      exact hi (Option.some.inj heq ▸ he)
    simp [Links.setNext, Links.setPrev, update_of_ne hei]
  · intro y hy
    rw [List.tail_cons] at hy
    have hyb : y ≠ b := fun heq => hb (heq ▸ hy)
    have hyi : y ≠ some i := fun heq => hti (heq ▸ hy)
    simp [Links.setNext, Links.setPrev, update_of_ne hyb, update_of_ne hyi]

theorem Linked.del (h : Linked m (xs ++ i :: ys)) : Linked (m.del i) (xs ++ ys) := by
  have hnodup := h.nodup
  rw [List.nodup_append, List.nodup_cons] at hnodup
  obtain ⟨hxs, ⟨hiys, hys⟩, hdisjoint⟩ := hnodup
  obtain ⟨b, t, hbt, hb, -⟩ := behind_cases ys hys
  -- the node before the entry
  obtain ⟨pre, a, hpre⟩ : ∃ pre a, none :: xs.map some = pre ++ [a] := by
    rcases List.eq_nil_or_concat (none :: xs.map some) with hnil | ⟨pre, a, h⟩
    · cases hnil
    · exact ⟨pre, a, by rw [h, List.concat_eq_append]⟩
  have hfront : (pre ++ [a]).Nodup := by
    rw [← hpre, List.nodup_cons]
    exact ⟨by simp, hxs.map fun _ _ => Option.some.inj⟩
  have hapre : a ∉ pre := fun hmem => by
    rw [List.nodup_append] at hfront
    exact hfront.2.2 a hmem a List.mem_cons_self rfl
  have hchain := h.chain
  have hsplit : none :: ((xs ++ i :: ys).map some ++ [none]) = pre ++ a :: some i :: b :: t := by
    rw [List.map_append, List.map_cons, List.append_assoc, List.cons_append, hbt,
      ← List.cons_append, hpre, List.append_assoc]
    rfl
  rw [hsplit, List.isChain_append_cons_cons, List.isChain_cons_cons] at hchain
  obtain ⟨hpart, ⟨hai, hia⟩, ⟨hib, hbi⟩, hrest⟩ := hchain
  have hdel : m.del i = (m.setPrev b (.node a)).setNext a (.node b) := by
    rw [Links.del, hib, hia]
  have hmap : none :: ((xs ++ ys).map some ++ [none]) = pre ++ a :: b :: t := by
    rw [List.map_append, List.append_assoc, hbt, ← List.cons_append, hpre, List.append_assoc]
    rfl
  refine ⟨?_, ?_⟩
  · rw [hmap, hdel, List.isChain_append_cons_cons]
    refine ⟨chain_congr hpart ?_ ?_, ⟨?_, ?_⟩, chain_congr hrest ?_ ?_⟩
    · intro x hx
      rw [List.dropLast_concat] at hx
      have hxa : x ≠ a := fun heq => hapre (heq ▸ hx)
      simp [Links.setNext, Links.setPrev, update_of_ne hxa]
    · intro y hy
      rw [← hpre, List.tail_cons] at hy
      obtain ⟨e, he, rfl⟩ := List.mem_map.mp hy
      have hyb : some e ≠ b := by
        rintro rfl
        have hmem : some e ∈ ys.map some ++ [none] := by rw [hbt]; exact List.mem_cons_self
        have hey : e ∈ ys := by simpa using hmem
        exact hdisjoint e he e (List.mem_cons_of_mem _ hey) rfl
      simp [Links.setNext, Links.setPrev, update_of_ne hyb]
    · simp [Links.setNext]
    · simp [Links.setNext, Links.setPrev]
    · intro x hx
      have hmem : x ∈ ys.map some := by
        rw [← hbt, List.dropLast_concat] at hx
        exact hx
      obtain ⟨e, he, rfl⟩ := List.mem_map.mp hmem
      have hxa : some e ≠ a := by
        rintro rfl
        have hfirst : some e ∈ none :: xs.map some := by rw [hpre]; simp
        have hex : e ∈ xs := by simpa using hfirst
        exact hdisjoint e hex e (List.mem_cons_of_mem _ he) rfl
      simp [Links.setNext, Links.setPrev, update_of_ne hxa]
    · intro y hy
      have hyb : y ≠ b := fun heq => hb (heq ▸ hy)
      simp [Links.setNext, Links.setPrev, update_of_ne hyb]
  · rw [List.nodup_append]
    exact ⟨hxs, hys, fun x hx y hy => hdisjoint x hx y (List.mem_cons_of_mem _ hy)⟩

theorem Linked.erase (h : Linked m es) (hi : i ∈ es) : Linked (m.del i) (es.erase i) := by
  obtain ⟨xs, ys, -, rfl, herase⟩ := List.exists_erase_eq hi
  rw [herase]
  exact h.del

omit [DecidableEq ι] in
/-- Following the links of a part of the list. -/
theorem follow_chain {link : Option ι → Word ι κ} (es : List ι) :
    ∀ (a : Option ι) (n : ℕ), (a :: (es.map some ++ [none])).IsChain
      (fun x y => link x = .node y) → es.length ≤ n → follow link n (link a) = es := by
  induction es with
  | nil =>
    intro a n h _
    rw [List.map_nil, List.nil_append, List.isChain_pair] at h
    rw [h]
    cases n with
    | zero => rfl
    | succ n => rfl
  | cons e es ih =>
    intro a n h hn
    rw [List.map_cons, List.cons_append, List.isChain_cons_cons] at h
    obtain ⟨ha, hrest⟩ := h
    rw [List.length_cons] at hn
    obtain ⟨n, rfl⟩ : ∃ k, n = k + 1 := ⟨n - 1, by omega⟩
    rw [ha, follow, ih (some e) n hrest (by omega)]

omit [DecidableEq ι] in
theorem Linked.forward (h : Linked m es) {n : ℕ} (hn : es.length ≤ n) : m.forward n = es :=
  follow_chain es none n (h.chain.imp fun _ _ hab => hab.1) hn

omit [DecidableEq ι] in
theorem Linked.backward (h : Linked m es) {n : ℕ} (hn : es.length ≤ n) :
    m.backward n = es.reverse := by
  refine follow_chain es.reverse none n ?_ (by simpa using hn)
  have hrev : (none :: (es.map some ++ [none])).reverse =
      none :: (es.reverse.map some ++ [none]) := by
    rw [List.reverse_cons, List.reverse_append, List.map_reverse]
    rfl
  rw [← hrev, List.isChain_reverse]
  exact h.chain.imp fun _ _ hab => hab.2

omit [DecidableEq ι] in
/-- `list_empty`. -/
theorem Linked.empty_iff (h : Linked m es) : m.next none = .node none ↔ es = [] := by
  cases es with
  | nil =>
    have hchain := h.chain
    rw [List.map_nil, List.nil_append, List.isChain_pair] at hchain
    exact ⟨fun _ => rfl, fun _ => hchain.1⟩
  | cons e es =>
    have hchain := h.chain
    rw [List.map_cons, List.cons_append, List.isChain_cons_cons] at hchain
    rw [hchain.1.1]
    simp

omit [DecidableEq ι] in
theorem Linked.next_node (h : Linked m es) : ∃ n, m.next none = .node n := by
  cases es with
  | nil => exact ⟨none, h.empty_iff.mpr rfl⟩
  | cons e es =>
    have hchain := h.chain
    rw [List.map_cons, List.cons_append, List.isChain_cons_cons] at hchain
    exact ⟨some e, hchain.1.1⟩

end CircularList

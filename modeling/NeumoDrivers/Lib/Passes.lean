import Mathlib.Data.Int.Order.Basic
import Mathlib.Tactic.Common

/-! Passes over a list whose steps may fail, and may end the pass.

    A step has no result where it fails, as for an access outside an array. `Meets` names the states in
    which the elements are come to: a pass has a result if and only if every step it comes to has one,
    and what every step keeps holds wherever the pass comes. -/

namespace Passes

/-- The indices `a`, `a + 1`, …: `n` of them. -/
def up (a : ℤ) : ℕ → List ℤ
  | 0 => []
  | n + 1 => a :: up (a + 1) n

/-- The indices `a`, `a - 1`, …: `n` of them. -/
def down (a : ℤ) : ℕ → List ℤ
  | 0 => []
  | n + 1 => a :: down (a - 1) n

theorem mem_up {i a : ℤ} {n : ℕ} : i ∈ up a n ↔ a ≤ i ∧ i < a + n := by
  induction n generalizing a with
  | zero => simp [up]
  | succ n ih =>
    rw [up, List.mem_cons, ih]
    omega

theorem mem_down {i a : ℤ} {n : ℕ} : i ∈ down a n ↔ a - n < i ∧ i ≤ a := by
  induction n generalizing a with
  | zero => simp [down]
  | succ n ih =>
    rw [down, List.mem_cons, ih]
    omega

/-- A pass that a step may end: the state, and whether it was ended. -/
def foldUntil {σ α : Type} (g : σ → α → Option (σ × Bool)) : List α → σ → Option (σ × Bool)
  | [], s => some (s, false)
  | a :: l, s => (g s a).bind fun (s, done) => if done then some (s, true) else foldUntil g l s

/-- The pass over `l` from `s` comes to `a` in the state `t`. -/
inductive Meets {σ α : Type} (g : σ → α → Option (σ × Bool)) : List α → σ → σ → α → Prop where
  | here {l s a} : Meets g (a :: l) s s a
  | later {l s a t u b} : g s a = some (t, false) → Meets g l t u b → Meets g (a :: l) s u b

variable {σ α : Type} {f : σ → α → Option σ} {g : σ → α → Option (σ × Bool)} {l : List α} {s t u : σ}
variable {a : α}

/-- A pass that takes every element has a result if an invariant gives each step one, and the result
    keeps it. -/
theorem foldlM_rule (inv : σ → Prop) (hs : inv s)
    (hstep : ∀ s a, a ∈ l → inv s → ∃ s', f s a = some s' ∧ inv s') :
    ∃ s', l.foldlM f s = some s' ∧ inv s' := by
  induction l generalizing s with
  | nil => exact ⟨s, rfl, hs⟩
  | cons a l ih =>
    obtain ⟨t, ht, hinv⟩ := hstep s a List.mem_cons_self hs
    obtain ⟨u, hu, hend⟩ := ih hinv fun s b hb => hstep s b (List.mem_cons_of_mem _ hb)
    exact ⟨u, by rw [List.foldlM_cons, ht]; exact hu, hend⟩

/-- A counting pass has a result if an invariant of the index gives each step one. -/
theorem foldlM_up_rule {f : σ → ℤ → Option σ} (inv : ℤ → σ → Prop) {a : ℤ} {n : ℕ} (hs : inv a s)
    (hstep : ∀ s i, a ≤ i → i < a + n → inv i s → ∃ s', f s i = some s' ∧ inv (i + 1) s') :
    ∃ s', (up a n).foldlM f s = some s' ∧ inv (a + n) s' := by
  induction n generalizing a s with
  | zero => exact ⟨s, rfl, by rwa [Int.natCast_zero, Int.add_zero]⟩
  | succ n ih =>
    obtain ⟨t, ht, hinv⟩ := hstep s a le_rfl (by omega) hs
    obtain ⟨u, hu, hend⟩ := ih hinv fun s i hi hi' => hstep s i (by omega) (by omega)
    refine ⟨u, by rw [up, List.foldlM_cons, ht]; exact hu, ?_⟩
    rwa [show a + (n + 1 : ℕ) = a + 1 + n by omega]

/-- What a counting pass that has a result leaves keeps what every step keeps. -/
theorem foldlM_up_keeps {g : σ → ℤ → Option σ} (inv : ℤ → σ → Prop) {a : ℤ} {n : ℕ}
    (hs : inv a s) (hstep : ∀ s i s', inv i s → g s i = some s' → inv (i + 1) s')
    (h : (up a n).foldlM g s = some t) : inv (a + n) t := by
  induction n generalizing a s with
  | zero =>
    cases h
    rwa [Int.natCast_zero, Int.add_zero]
  | succ n ih =>
    rw [up, List.foldlM_cons] at h
    obtain ⟨u, hu, h⟩ := Option.bind_eq_some_iff.mp h
    have hend := ih (hstep s a u hs hu) h
    rwa [show a + (n + 1 : ℕ) = a + 1 + n by omega]

theorem foldlM_down_keeps {g : σ → ℤ → Option σ} (inv : ℤ → σ → Prop) {a : ℤ} {n : ℕ}
    (hs : inv a s) (hstep : ∀ s i s', inv i s → g s i = some s' → inv (i - 1) s')
    (h : (down a n).foldlM g s = some t) : inv (a - n) t := by
  induction n generalizing a s with
  | zero =>
    cases h
    rwa [Int.natCast_zero, Int.sub_zero]
  | succ n ih =>
    rw [down, List.foldlM_cons] at h
    obtain ⟨u, hu, h⟩ := Option.bind_eq_some_iff.mp h
    have hend := ih (hstep s a u hs hu) h
    rwa [show a - (n + 1 : ℕ) = a - 1 - n by omega]

theorem foldlM_congr {f g : σ → α → Option σ} (h : ∀ s, ∀ a ∈ l, f s a = g s a) (s : σ) :
    l.foldlM f s = l.foldlM g s := by
  induction l generalizing s with
  | nil => rfl
  | cons a l ih =>
    rw [List.foldlM_cons, List.foldlM_cons, h s a List.mem_cons_self]
    exact congrArg _ (funext fun t => ih (fun s b hb => h s b (List.mem_cons_of_mem _ hb)) t)

theorem Meets.mem (h : Meets g l s t a) : a ∈ l := by
  induction h with
  | here => exact List.mem_cons_self
  | later _ _ ih => exact List.mem_cons_of_mem _ ih

/-- What the steps keep holds wherever the pass comes. -/
theorem Meets.invariant {inv : σ → Prop} (hs : inv s)
    (hstep : ∀ s a s' done, inv s → g s a = some (s', done) → inv s') (h : Meets g l s t a) : inv t := by
  induction h with
  | here => exact hs
  | later hg _ ih => exact ih (hstep _ _ _ _ hs hg)

theorem foldUntil_invariant {inv : σ → Prop} {done : Bool} (hs : inv s)
    (hstep : ∀ s a s' done, inv s → g s a = some (s', done) → inv s')
    (h : foldUntil g l s = some (t, done)) : inv t := by
  induction l generalizing s with
  | nil =>
    cases h
    exact hs
  | cons a l ih =>
    obtain ⟨⟨u, stop⟩, hu, h⟩ := Option.bind_eq_some_iff.mp h
    have hinv := hstep s a u stop hs hu
    cases stop with
    | true =>
      cases h
      exact hinv
    | false => exact ih hinv h

/-- A pass that may be ended has a result if an invariant gives each step one, and the result keeps it. -/
theorem foldUntil_rule (inv : σ → Prop) (hs : inv s)
    (hstep : ∀ s a, a ∈ l → inv s → ∃ s' done, g s a = some (s', done) ∧ inv s') :
    ∃ s' done, foldUntil g l s = some (s', done) ∧ inv s' := by
  induction l generalizing s with
  | nil => exact ⟨s, false, rfl, hs⟩
  | cons a l ih =>
    obtain ⟨t, done, ht, hinv⟩ := hstep s a List.mem_cons_self hs
    rw [foldUntil, ht]
    cases done with
    | true => exact ⟨t, true, rfl, hinv⟩
    | false => exact ih hinv fun s b hb => hstep s b (List.mem_cons_of_mem _ hb)

theorem meets_cons_iff {b : α} (h : g s a = some (t, false)) :
    Meets g (a :: l) s u b ↔ (u = s ∧ b = a) ∨ Meets g l t u b := by
  constructor
  · intro hm
    cases hm with
    | here => exact .inl ⟨rfl, rfl⟩
    | later hg hm =>
      rw [h] at hg
      cases hg
      exact .inr hm
  · rintro (⟨rfl, rfl⟩ | hm)
    · exact .here
    · exact .later h hm

theorem foldUntil_isSome_iff :
    (foldUntil g l s).isSome ↔ ∀ t a, Meets g l s t a → (g t a).isSome := by
  induction l generalizing s with
  | nil =>
    refine iff_of_true rfl fun t a h => ?_
    cases h
  | cons a l ih =>
    rw [foldUntil]
    cases hg : g s a with
    | none => exact iff_of_false (by simp) fun h => by simpa [hg] using h s a .here
    | some r =>
      obtain ⟨t, done⟩ := r
      cases done with
      | true =>
        refine iff_of_true rfl fun u b hm => ?_
        cases hm with
        | here => rw [hg]; rfl
        | later hg' _ => rw [hg] at hg'; cases hg'
      | false =>
        simp only [Option.bind_some, Bool.false_eq_true, if_false]
        rw [ih]
        constructor
        · intro h u b hm
          rcases (meets_cons_iff hg).mp hm with ⟨rfl, rfl⟩ | hm
          · rw [hg]
            rfl
          · exact h u b hm
        · intro h u b hm
          exact h u b ((meets_cons_iff hg).mpr (.inr hm))

theorem foldlM_isSome_iff :
    (l.foldlM f s).isSome ↔
      ∀ pre a post t, l = pre ++ a :: post → pre.foldlM f s = some t → (f t a).isSome := by
  induction l generalizing s with
  | nil =>
    refine iff_of_true rfl fun pre a post t h => ?_
    cases pre <;> cases h
  | cons b l ih =>
    rw [List.foldlM_cons]
    cases hb : f s b with
    | none => exact iff_of_false (by simp) fun h => by simpa [hb] using h [] b l s rfl rfl
    | some u =>
      rw [Option.bind_eq_bind, Option.bind_some, ih]
      constructor
      · intro h pre a post t hl ht
        cases pre with
        | nil =>
          obtain ⟨rfl, rfl⟩ := List.cons.inj hl
          cases ht
          rw [hb]
          rfl
        | cons c pre =>
          obtain ⟨rfl, rfl⟩ := List.cons.inj hl
          rw [List.foldlM_cons, hb] at ht
          exact h pre a post t rfl ht
      · intro h pre a post t hl ht
        refine h (b :: pre) a post t (by rw [hl]; rfl) ?_
        rw [List.foldlM_cons, hb]
        exact ht

end Passes

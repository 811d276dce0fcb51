import Mathlib.Tactic.Common
import Mathlib.Data.Option.Defs

/-! Loops with early exits.

    A loop is a body `σ → Next σ ρ`: a pass either goes round again from a new state or leaves the
    loop with a result. `run` gives the result within a number of passes, `Terminates` says that
    some number of passes is enough, and `Visits` names the states a pass is started in. A measure
    that falls with every pass makes the loop end; a set of states the body never leaves makes it
    run for ever. -/

namespace Loop

/-- One pass: go round again, or leave the loop. -/
inductive Next (σ ρ : Type) where
  | again (s : σ)
  | exit (r : ρ)

variable {σ ρ : Type}

/-- The result of the loop within `n` passes. -/
def run (body : σ → Next σ ρ) : ℕ → σ → Option ρ
  | 0, _ => none
  | n + 1, s =>
    match body s with
    | .again s' => run body n s'
    | .exit r => some r

/-- The loop ends with the result `r`. -/
def Ends (body : σ → Next σ ρ) (s : σ) (r : ρ) : Prop := ∃ n, run body n s = some r

def Terminates (body : σ → Next σ ρ) (s : σ) : Prop := ∃ r, Ends body s r

/-- The states in which a pass of the loop started in `s` begins. -/
inductive Visits (body : σ → Next σ ρ) (s : σ) : σ → Prop where
  | start : Visits body s s
  | pass {t u : σ} : Visits body s t → body t = .again u → Visits body s u

variable {body : σ → Next σ ρ} {s t : σ} {r r' : ρ}

theorem run_exit (h : body s = .exit r) (n : ℕ) : run body (n + 1) s = some r := by
  rw [run, h]

theorem run_again (h : body s = .again t) (n : ℕ) : run body (n + 1) s = run body n t := by
  rw [run, h]

theorem Ends.exit (h : body s = .exit r) : Ends body s r := ⟨1, run_exit h 0⟩

theorem Ends.again (h : body s = .again t) (ht : Ends body t r) : Ends body s r := by
  obtain ⟨n, hn⟩ := ht
  exact ⟨n + 1, by rw [run_again h, hn]⟩

theorem ends_again_iff (h : body s = .again t) : Ends body s r ↔ Ends body t r := by
  refine ⟨?_, Ends.again h⟩
  rintro ⟨n, hn⟩
  cases n with
  | zero => simp [run] at hn
  | succ n => exact ⟨n, by rwa [run_again h] at hn⟩

theorem run_mono {m n : ℕ} (hmn : m ≤ n) (h : run body m s = some r) : run body n s = some r := by
  induction m generalizing n s with
  | zero => simp [run] at h
  | succ m ih =>
    obtain ⟨n, rfl⟩ : ∃ k, n = k + 1 := ⟨n - 1, by omega⟩
    cases hb : body s with
    | again t => rw [run_again hb] at h ⊢; exact ih (by omega) h
    | exit q => rw [run_exit hb] at h ⊢; exact h

theorem Ends.unique (h : Ends body s r) (h' : Ends body s r') : r = r' := by
  obtain ⟨n, hn⟩ := h
  obtain ⟨m, hm⟩ := h'
  have := run_mono (Nat.le_max_left n m) hn
  rw [run_mono (Nat.le_max_right n m) hm] at this
  exact (Option.some.inj this).symm

theorem Visits.head (h : body s = .again t) {u : σ} (hu : Visits body t u) : Visits body s u := by
  induction hu with
  | start => exact .pass .start h
  | pass _ hb ih => exact .pass ih hb

theorem visits_iff {u : σ} :
    Visits body s u ↔ u = s ∨ ∃ t, body s = .again t ∧ Visits body t u := by
  constructor
  · intro hu
    induction hu with
    | start => exact .inl rfl
    | @pass v w _ hb ih =>
      rcases ih with rfl | ⟨t, ht, hv⟩
      · exact .inr ⟨w, hb, .start⟩
      · exact .inr ⟨t, ht, .pass hv hb⟩
  · rintro (rfl | ⟨t, ht, hu⟩)
    · exact .start
    · exact hu.head ht

theorem Ends.visits (h : Ends body s r) : ∃ t, Visits body s t ∧ body t = .exit r := by
  obtain ⟨n, hn⟩ := h
  induction n generalizing s with
  | zero => simp [run] at hn
  | succ n ih =>
    cases hb : body s with
    | exit q =>
      rw [run_exit hb, Option.some.injEq] at hn
      exact ⟨s, .start, hn ▸ hb⟩
    | again t =>
      rw [run_again hb] at hn
      obtain ⟨u, hu, hexit⟩ := ih hn
      exact ⟨u, hu.head hb, hexit⟩

/-- The state after `n` passes, if the loop gets that far. -/
def after (body : σ → Next σ ρ) : ℕ → σ → Option σ
  | 0, s => some s
  | n + 1, s =>
    match body s with
    | .again t => after body n t
    | .exit _ => none

theorem Visits.of_after : ∀ {n : ℕ} {s : σ}, after body n s = some t → Visits body s t
  | 0, s, h => by
    cases h
    exact .start
  | n + 1, s, h => by
    rw [after] at h
    cases hb : body s with
    | again u =>
      rw [hb] at h
      exact (Visits.of_after h).head hb
    | exit r =>
      rw [hb] at h
      cases h

theorem Visits.invariant {inv : σ → Prop} (hs : inv s)
    (hstep : ∀ a b, inv a → body a = .again b → inv b) (h : Visits body s t) : inv t := by
  induction h with
  | start => exact hs
  | pass _ hb ih => exact hstep _ _ ih hb

/-- Every pass that does not leave the loop is one of `R`. -/
def Steps (R : σ → σ → Prop) (body : σ → Next σ ρ) (s : σ) : Prop :=
  ∀ t u, Visits body s t → body t = .again u → R t u

theorem Steps.exit {R : σ → σ → Prop} (h : body s = .exit r) : Steps R body s := by
  intro t u hvisits hpass
  rcases visits_iff.mp hvisits with rfl | ⟨v, hv, -⟩
  · rw [h] at hpass
    cases hpass
  · rw [h] at hv
    cases hv

theorem steps_again_iff {R : σ → σ → Prop} (h : body s = .again t) :
    Steps R body s ↔ R s t ∧ Steps R body t := by
  constructor
  · intro hs
    exact ⟨hs s t .start h, fun u v hu hpass => hs u v (hu.head h) hpass⟩
  · rintro ⟨hR, ht⟩ u v hu hpass
    rcases visits_iff.mp hu with rfl | ⟨w, hw, hvisits⟩
    · rw [h] at hpass
      cases hpass
      exact hR
    · rw [h] at hw
      cases hw
      exact ht u v hvisits hpass

/-- A measure that falls with every pass bounds the number of passes. -/
theorem run_of_measure {inv : σ → Prop} (m : σ → ℕ)
    (hstep : ∀ a b, inv a → body a = .again b → inv b ∧ m b < m a) (hs : inv s) :
    ∃ r, run body (m s + 1) s = some r := by
  induction hk : m s using Nat.strongRecOn generalizing s with
  | ind k ih =>
    cases hb : body s with
    | exit r => exact ⟨r, run_exit hb _⟩
    | again t =>
      obtain ⟨ht, hlt⟩ := hstep s t hs hb
      obtain ⟨r, hr⟩ := ih (m t) (by omega) ht rfl
      exact ⟨r, by rw [run_again hb]; exact run_mono (by omega) hr⟩

theorem terminates_of_measure {inv : σ → Prop} (m : σ → ℕ)
    (hstep : ∀ a b, inv a → body a = .again b → inv b ∧ m b < m a) (hs : inv s) :
    Terminates body s := by
  obtain ⟨r, hr⟩ := run_of_measure m hstep hs
  exact ⟨r, _, hr⟩

theorem Visits.terminates (h : Visits body s t) (hs : Terminates body s) : Terminates body t := by
  induction h with
  | start => exact hs
  | pass _ hb ih =>
    obtain ⟨r, hr⟩ := ih
    exact ⟨r, (ends_again_iff hb).mp hr⟩

theorem Visits.ends (h : Visits body s t) (ht : Ends body t r) : Ends body s r := by
  induction h with
  | start => exact ht
  | pass _ hb ih => exact ih (ht.again hb)

/-- A set of states that every pass stays in is never left. -/
theorem not_terminates_of_trap {trap : σ → Prop}
    (hstep : ∀ a, trap a → ∃ b, body a = .again b ∧ trap b) (h : Visits body s t) (ht : trap t) :
    ¬ Terminates body s := by
  have never : ∀ n a, trap a → run body n a = none := by
    intro n
    induction n with
    | zero => intro a _; rfl
    | succ n ih =>
      intro a ha
      obtain ⟨b, hb, htb⟩ := hstep a ha
      rw [run_again hb, ih b htb]
  intro hs
  obtain ⟨r, n, hn⟩ := h.terminates hs
  rw [never n t ht] at hn
  simp at hn

/-- What the passes of a loop do, one pass after the other. -/
def trace {α : Type} (acts : σ → List α) (body : σ → Next σ ρ) : ℕ → σ → List α
  | 0, _ => []
  | n + 1, s =>
    acts s ++
      match body s with
      | .again t => trace acts body n t
      | .exit _ => []

section
variable {α : Type} {acts : σ → List α}

theorem trace_exit (h : body s = .exit r) (n : ℕ) : trace acts body (n + 1) s = acts s := by
  rw [trace, h, List.append_nil]

theorem trace_again (h : body s = .again t) (n : ℕ) :
    trace acts body (n + 1) s = acts s ++ trace acts body n t := by
  rw [trace, h]

/-- Whatever is done is done by a pass that the loop visits. -/
theorem Visits.of_mem_trace {a : α} : ∀ {n : ℕ} {s : σ}, a ∈ trace acts body n s →
    ∃ t, Visits body s t ∧ a ∈ acts t
  | 0, s, h => by simp [trace] at h
  | n + 1, s, h => by
    cases hb : body s with
    | exit r =>
      rw [trace_exit hb] at h
      exact ⟨s, .start, h⟩
    | again t =>
      rw [trace_again hb] at h
      rcases List.mem_append.mp h with h | h
      · exact ⟨s, .start, h⟩
      · obtain ⟨u, hu, ha⟩ := Visits.of_mem_trace h
        exact ⟨u, hu.head hb, ha⟩

/-- Two bodies that agree on every pass whose acts are all alike lead to one result. -/
theorem run_congr {body' : σ → Next σ ρ} {alike : α → Prop}
    (hpass : ∀ t, (∀ a ∈ acts t, alike a) → body' t = body t) :
    ∀ {n : ℕ} {s : σ}, (∀ a ∈ trace acts body n s, alike a) → run body' n s = run body n s
  | 0, _, _ => rfl
  | n + 1, s, h => by
    cases hb : body s with
    | exit r =>
      rw [trace_exit hb] at h
      rw [run_exit hb, run_exit ((hpass s h).trans hb)]
    | again t =>
      rw [trace_again hb] at h
      rw [run_again hb, run_again ((hpass s fun a ha => h a (List.mem_append_left _ ha)).trans hb)]
      exact run_congr hpass fun a ha => h a (List.mem_append_right _ ha)

end

/-- Two passes go on alike or leave alike. -/
inductive Next.Rel {σ τ ρ κ : Type} (R : σ → τ → Prop) (Q : ρ → κ → Prop) :
    Next σ ρ → Next τ κ → Prop where
  | again {s : σ} {t : τ} (h : R s t) : Rel R Q (.again s) (.again t)
  | exit {r : ρ} {r' : κ} (h : Q r r') : Rel R Q (.exit r) (.exit r')

/-- Two loops whose passes keep step lead to related results. -/
theorem run_rel {σ τ ρ κ : Type} {R : σ → τ → Prop} {Q : ρ → κ → Prop} {body : σ → Next σ ρ}
    {body' : τ → Next τ κ} {ok : τ → Prop}
    (hstep : ∀ a b, R a b → ok b → Next.Rel R Q (body a) (body' b)) (n : ℕ) :
    ∀ {s : σ} {t : τ}, R s t → (∀ u, Visits body' t u → ok u) →
      Option.Rel Q (run body n s) (run body' n t) := by
  induction n with
  | zero => exact fun _ _ => .none
  | succ n ih =>
    intro s t h hok
    have hpass := hstep s t h (hok t .start)
    rw [run, run]
    generalize hb' : body' t = y at hpass
    generalize body s = x at hpass
    cases hpass with
    | again h' => exact ih h' fun u hu => hok u (hu.head hb')
    | exit hq => exact .some hq

end Loop

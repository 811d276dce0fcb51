import Mathlib.Logic.Function.Basic

/-! Lock discipline of a trace.

    A trace acquires and releases locks and touches what they protect. It keeps the discipline from
    the locks `held` if it acquires no lock that is held, releases and touches only under the lock,
    and ends with the locks it began with. -/

namespace LockTrace
open Function

inductive Event (L : Type*) where
  | acquire (l : L)
  | release (l : L)
  | touch (l : L)

variable {L : Type*} [DecidableEq L] {held : L → Bool} {events rest : List (Event L)} {l : L}

/-- The locks held after an event, if it is allowed. -/
def Event.after (held : L → Bool) : Event L → Option (L → Bool)
  | .acquire l => if held l then none else some (update held l true)
  | .release l => if held l then some (update held l false) else none
  | .touch l => if held l then some held else none

def Keeps (held : L → Bool) (events : List (Event L)) : Prop :=
  events.foldlM Event.after held = some held

theorem keeps_nil : Keeps held [] := rfl

theorem Keeps.append_iff (h : Keeps held events) :
    Keeps held (events ++ rest) ↔ Keeps held rest := by
  rw [Keeps, Keeps, List.foldlM_append, h]
  rfl

theorem Keeps.append (h : Keeps held events) (h' : Keeps held rest) : Keeps held (events ++ rest) :=
  h.append_iff.mpr h'

theorem keeps_touch (h : held l = true) : Keeps held (.touch l :: rest) ↔ Keeps held rest := by
  have hone : Keeps held [.touch l] := by
    rw [Keeps, List.foldlM_cons, Event.after, if_pos h]
    rfl
  exact hone.append_iff

theorem not_keeps_touch (h : held l = false) : ¬ Keeps held (.touch l :: rest) := by
  rw [Keeps, List.foldlM_cons, Event.after, h]
  rintro ⟨⟩

theorem keeps_under (h : held l = false) :
    Keeps held (.acquire l :: events ++ [.release l]) ↔ Keeps (update held l true) events := by
  rw [Keeps, Keeps, List.foldlM_append, List.foldlM_cons, Event.after, h]
  simp only [Bool.false_eq_true, if_false, Option.bind_eq_bind, Option.bind_some]
  rcases events.foldlM Event.after (update held l true) with _ | held'
  · simp
  · simp only [Option.bind_some, List.foldlM_cons, List.foldlM_nil, Event.after, Option.some.injEq]
    constructor
    · intro hend
      -- only the lock itself can differ
      split at hend
      · rename_i hheld
        have hback : update held' l false = held := Option.some.inj hend
        rw [← hback, update_idem, ← hheld, update_eq_self]
      · cases hend
    · rintro rfl
      rw [update_self, if_pos rfl, update_idem, ← h, update_eq_self]
      rfl

theorem keeps_touches (hall : ∀ ev ∈ events, ∃ l, ev = .touch l) :
    Keeps held events ↔ ∀ l, .touch l ∈ events → held l = true := by
  induction events with
  | nil => exact ⟨by rintro - l ⟨⟩, fun _ => keeps_nil⟩
  | cons ev rest ih =>
    obtain ⟨k, rfl⟩ := hall ev List.mem_cons_self
    have ih := ih fun ev hev => hall ev (List.mem_cons_of_mem _ hev)
    rcases hk : held k with _ | _
    · refine ⟨fun h => absurd h (not_keeps_touch hk), fun h => ?_⟩
      rw [h k List.mem_cons_self] at hk
      cases hk
    · rw [keeps_touch hk, ih]
      refine ⟨fun h l hl => ?_, fun h l hl => h l (List.mem_cons_of_mem _ hl)⟩
      rcases List.mem_cons.mp hl with heq | hl
      · cases heq
        exact hk
      · exact h l hl

/-! ### Traces that break the discipline -/

/-- Some event on the trace is not allowed. -/
def Blocked (held : L → Bool) (events : List (Event L)) : Prop :=
  events.foldlM Event.after held = none

theorem Blocked.not_keeps (h : Blocked held events) : ¬ Keeps held (events ++ rest) := by
  rw [Keeps, List.foldlM_append, h]
  rintro ⟨⟩

theorem blocked_under (h : held l = false) (hblock : Blocked (update held l true) events) :
    Blocked held (.acquire l :: events ++ [.release l]) := by
  rw [Blocked, List.foldlM_append, List.foldlM_cons, Event.after, h]
  simp only [Bool.false_eq_true, if_false, Option.bind_eq_bind, Option.bind_some]
  rw [hblock]
  rfl

theorem blocked_touches (hall : ∀ ev ∈ events, ∃ l, ev = .touch l) (hl : .touch l ∈ events)
    (h : held l = false) : Blocked held events := by
  induction events with
  | nil => cases hl
  | cons ev rest ih =>
    obtain ⟨k, rfl⟩ := hall ev List.mem_cons_self
    rw [Blocked, List.foldlM_cons, Event.after]
    rcases hk : held k with _ | _
    · rfl
    · rcases List.mem_cons.mp hl with heq | hl
      · cases heq
        rw [h] at hk
        cases hk
      · exact ih (fun ev hev => hall ev (List.mem_cons_of_mem _ hev)) hl

end LockTrace

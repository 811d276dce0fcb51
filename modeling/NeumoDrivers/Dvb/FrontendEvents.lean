import NeumoDrivers.Demux.Cell
import NeumoDrivers.Lib.Ring

/-! The frontend's event queue.

    The last 63 events wait in a ring; one more pushes the oldest out and sets a flag, and the next
    reader is told so and finds the queue emptied. A reader first checks the flag and the positions
    and takes its event afterwards, so that other calls may come between; a reader that found
    nothing waits until the positions differ. Clearing empties the queue but leaves the flag. -/

namespace Dvb
open Demux

/-- `MAX_EVENT` -/
abbrev maxEvent : ℕ := 64

/-- `struct dvb_frontend_event`, for any type of tuning parameters. -/
structure DvbFrontendEvent (π : Type) where
  status : UInt32
  parameters : π
  deriving DecidableEq

/-- `struct neumo_dvb_fe_events` -/
structure FeEvents (π : Type) where
  events : Buff (DvbFrontendEvent π) maxEvent
  eventw : ℕ
  eventr : ℕ
  overflow : Bool

/-- What a call of `dvb_frontend_get_event` returns; `nothing` is for calls that return nothing and
    for readers that have not returned yet. -/
inductive EventResult (π : Type) where
  | nothing
  | event (e : DvbFrontendEvent π)
  | eoverflow
  | ewouldblock
  | erestartsys
  deriving DecidableEq

variable {π : Type}

/-- `neumo_dvb_frontend_add_event`; the parameters are those in `dvb_parameters_out`. -/
def addEvent (events : FeEvents π) (status : UInt32) (parametersOut : π) : FeEvents π :=
  let wp := (events.eventw + 1) % maxEvent
  let events :=
    if wp = events.eventr then
      { events with overflow := true, eventr := (events.eventr + 1) % maxEvent }
    else events
  { events with events := events.events.put events.eventw ⟨status, parametersOut⟩, eventw := wp }

/-- `neumo_dvb_frontend_clear_events` -/
def clearEvents (events : FeEvents π) : FeEvents π := { events with eventr := events.eventw }

/-- `dvb_frontend_test_event` -/
def testEvent (events : FeEvents π) : Bool := events.eventw ≠ events.eventr

/-- What `dvb_frontend_get_event` does before it takes an event. -/
inductive Checked (π : Type) where
  | returns (r : EventResult π) (events : FeEvents π)
  | waits
  | takes

def getEventChecks (events : FeEvents π) (nonblock : Bool) : Checked π :=
  if events.overflow then
    .returns .eoverflow { events with overflow := false, eventr := events.eventw }
  else if events.eventw = events.eventr then
    if nonblock then .returns .ewouldblock events else .waits
  else .takes

/-- How `dvb_frontend_get_event` takes its event. -/
def getEventTake (events : FeEvents π) : Option (DvbFrontendEvent π × FeEvents π) :=
  events.events.cells[events.eventr]?.map fun e =>
    (e, { events with eventr := (events.eventr + 1) % maxEvent })

/-- The queue and its readers: those that wait, and those that passed their checks and are about to
    take an event. -/
structure EventState (π : Type) where
  events : FeEvents π
  waiting : ℕ
  taking : ℕ

inductive EventStep (π : Type) where
  | add (status : UInt32) (parametersOut : π)
  | clear
  | get (nonblock : Bool)
  | woken
  | interrupted
  | take
  deriving DecidableEq

def EventState.step (s : EventState π) : EventStep π → Option (EventResult π × EventState π)
  | .add status parametersOut =>
    some (.nothing, { s with events := addEvent s.events status parametersOut })
  | .clear => some (.nothing, { s with events := clearEvents s.events })
  | .get nonblock =>
    match getEventChecks s.events nonblock with
    | .returns r events => some (r, { s with events })
    | .waits => some (.nothing, { s with waiting := s.waiting + 1 })
    | .takes => some (.nothing, { s with taking := s.taking + 1 })
  | .woken =>
    if 0 < s.waiting ∧ testEvent s.events then
      some (.nothing, { s with waiting := s.waiting - 1, taking := s.taking + 1 })
    else none
  | .interrupted =>
    if 0 < s.waiting then some (.erestartsys, { s with waiting := s.waiting - 1 }) else none
  | .take =>
    if 0 < s.taking then
      (getEventTake s.events).map fun (e, events) =>
        (.event e, { s with events, taking := s.taking - 1 })
    else none

/-! ### What the queue is for -/

/-- How an event left the queue. -/
inductive Fate where
  | returned
  | overflow
  | cleared
  deriving DecidableEq

/-- The events waiting, whether one was lost by overflow since the last report or clear, and the
    events that left with their fate. -/
structure EventQueue (ε : Type) where
  held : List ε
  lost : Bool
  passed : List (Fate × ε)

variable {ε : Type}

def EventQueue.empty : EventQueue ε := ⟨[], false, []⟩

/-- Let the first `n` events go. -/
def EventQueue.pass (q : EventQueue ε) (fate : Fate) (n : ℕ) : EventQueue ε :=
  { q with held := q.held.drop n, passed := q.passed ++ (q.held.take n).map fun e => (fate, e) }

def EventQueue.push (q : EventQueue ε) (e : ε) : EventQueue ε := { q with held := q.held ++ [e] }

/-- The queue has room for `maxEvent - 1` events. -/
def EventQueue.add (q : EventQueue ε) (e : ε) : EventQueue ε :=
  if q.held.length + 1 = maxEvent then ({ q with lost := true }.pass .overflow 1).push e
  else q.push e

/-- Empty the queue and forget about losses. -/
def EventQueue.reset (q : EventQueue ε) (fate : Fate) : EventQueue ε :=
  { q.pass fate q.held.length with lost := false }

/-- A reader is told of a loss first, and then gets the oldest event. -/
def EventQueue.answer (q : EventQueue (DvbFrontendEvent π)) :
    EventStep π → EventResult π × EventQueue (DvbFrontendEvent π)
  | .add status parametersOut => (.nothing, q.add ⟨status, parametersOut⟩)
  | .clear => (.nothing, q.reset .cleared)
  | .get nonblock =>
    if q.lost then (.eoverflow, q.reset .overflow)
    else if q.held = [] ∧ nonblock then (.ewouldblock, q)
    else (.nothing, q)
  | .woken => (.nothing, q)
  | .interrupted => (.erestartsys, q)
  | .take =>
    if q.lost then (.eoverflow, q.reset .overflow)
    else
      match q.held with
      | [] => (.nothing, q)
      | e :: _ => (.event e, q.pass .returned 1)

/-- The events added, in order. -/
def added (cs : List (EventStep π)) : List (DvbFrontendEvent π) :=
  cs.filterMap fun
    | .add status parametersOut => some ⟨status, parametersOut⟩
    | _ => none

/-- The events readers returned with, in order. -/
def returned (rs : List (EventResult π)) : List (DvbFrontendEvent π) :=
  rs.filterMap fun
    | .event e => some e
    | _ => none

/-- The events that left the queue with a reader. -/
def EventQueue.taken (q : EventQueue ε) : List ε :=
  (q.passed.filter fun x => x.1 = .returned).map Prod.snd

theorem EventQueue.all_pass (q : EventQueue ε) (fate : Fate) (n : ℕ) :
    (q.pass fate n).passed.map Prod.snd ++ (q.pass fate n).held =
      q.passed.map Prod.snd ++ q.held := by
  simp only [EventQueue.pass, List.map_append, List.map_map, Function.comp_def, List.map_id',
    List.append_assoc, List.take_append_drop]

theorem EventQueue.taken_pass (q : EventQueue ε) {fate : Fate} (hfate : fate ≠ .returned) (n : ℕ) :
    (q.pass fate n).taken = q.taken := by
  have hnone : ((q.held.take n).map fun e => (fate, e)).filter (fun x => x.1 = .returned) = [] := by
    refine List.filter_eq_nil_iff.mpr fun x hx => ?_
    obtain ⟨e, -, rfl⟩ := List.mem_map.mp hx
    simpa using hfate
  rw [EventQueue.taken, EventQueue.pass, List.filter_append, hnone, List.append_nil]
  rfl

variable {q : EventQueue (DvbFrontendEvent π)} {c : EventStep π}

theorem EventQueue.all_answer :
    (q.answer c).2.passed.map Prod.snd ++ (q.answer c).2.held =
      q.passed.map Prod.snd ++ q.held ++ added [c] := by
  have hreset : ∀ fate, (q.reset fate).passed.map Prod.snd ++ (q.reset fate).held =
      q.passed.map Prod.snd ++ q.held := fun fate => q.all_pass fate q.held.length
  cases c with
  | add status parametersOut =>
    simp only [EventQueue.answer, EventQueue.add]
    split
    · have hpass := ({ q with lost := true } : EventQueue _).all_pass .overflow 1
      simp only [EventQueue.push, ← List.append_assoc, hpass]
      rfl
    · simp only [EventQueue.push, ← List.append_assoc]
      rfl
  | clear => simpa [EventQueue.answer, added] using hreset .cleared
  | get nonblock =>
    simp only [EventQueue.answer]
    split
    · simpa [added] using hreset .overflow
    · split <;> simp [added]
  | woken => simp [EventQueue.answer, added]
  | interrupted => simp [EventQueue.answer, added]
  | take =>
    simp only [EventQueue.answer]
    split
    · simpa [added] using hreset .overflow
    · split
      · simp [added]
      · simpa [added] using q.all_pass .returned 1

theorem EventQueue.taken_answer :
    (q.answer c).2.taken = q.taken ++ returned [(q.answer c).1] := by
  have hreset : ∀ {fate}, fate ≠ .returned → (q.reset fate).taken = q.taken :=
    fun hfate => q.taken_pass hfate q.held.length
  cases c with
  | add status parametersOut =>
    simp only [EventQueue.answer, EventQueue.add]
    split
    · have hpass := ({ q with lost := true } : EventQueue _).taken_pass
        (show Fate.overflow ≠ .returned by decide) 1
      rw [returned, List.filterMap_cons_none rfl, List.filterMap_nil, List.append_nil]
      exact hpass
    · simp [returned, EventQueue.push, EventQueue.taken]
  | clear => simpa [EventQueue.answer, returned] using hreset (by decide)
  | get nonblock =>
    simp only [EventQueue.answer]
    split
    · simpa [returned] using hreset (by decide)
    · split <;> simp [returned]
  | woken => simp [EventQueue.answer, returned]
  | interrupted => simp [EventQueue.answer, returned]
  | take =>
    simp only [EventQueue.answer]
    split
    · simpa [returned] using hreset (by decide)
    · split
      · simp [returned]
      · next e rest hheld => simp [returned, EventQueue.taken, EventQueue.pass, hheld]

/-- The answers to a series of calls, and the queue after them. -/
def EventQueue.run (q : EventQueue (DvbFrontendEvent π)) :
    List (EventStep π) → List (EventResult π) × EventQueue (DvbFrontendEvent π)
  | [] => ([], q)
  | c :: cs => ((q.answer c).1 :: ((q.answer c).2.run cs).1, ((q.answer c).2.run cs).2)

theorem EventQueue.all_run (cs : List (EventStep π)) (q : EventQueue (DvbFrontendEvent π)) :
    (q.run cs).2.passed.map Prod.snd ++ (q.run cs).2.held =
      q.passed.map Prod.snd ++ q.held ++ added cs := by
  induction cs generalizing q with
  | nil => rw [added, List.filterMap_nil, List.append_nil]; rfl
  | cons c cs ih =>
    rw [EventQueue.run, ih, EventQueue.all_answer, List.append_assoc, added, added,
      ← List.filterMap_append]
    rfl

theorem EventQueue.taken_run (cs : List (EventStep π)) (q : EventQueue (DvbFrontendEvent π)) :
    (q.run cs).2.taken = q.taken ++ returned (q.run cs).1 := by
  induction cs generalizing q with
  | nil => rw [EventQueue.run, returned, List.filterMap_nil, List.append_nil]
  | cons c cs ih =>
    rw [EventQueue.run, ih, EventQueue.taken_answer, List.append_assoc, returned, returned,
      ← List.filterMap_append]
    rfl

/-! ### The ring is the queue -/

/-- The ring holds what the queue holds. -/
structure FeEvents.Follows (events : FeEvents π) (q : EventQueue (DvbFrontendEvent π)) : Prop where
  eventr_lt : events.eventr < maxEvent
  eventw_eq : events.eventw = (events.eventr + q.held.length) % maxEvent
  length_lt : q.held.length < maxEvent
  held_eq : Ring.front events.events.cells events.eventr q.held.length = q.held
  lost_eq : events.overflow = q.lost

variable {events : FeEvents π} {s s' : EventState π}

theorem FeEvents.Follows.empty_iff (h : events.Follows q) :
    events.eventw = events.eventr ↔ q.held = [] := by
  have hr := h.eventr_lt
  have hw := h.eventw_eq
  have hl := h.length_lt
  rw [← List.length_eq_zero_iff]
  simp only [maxEvent] at hr hw hl
  omega

theorem FeEvents.Follows.full_iff (h : events.Follows q) :
    (events.eventw + 1) % maxEvent = events.eventr ↔ q.held.length + 1 = maxEvent := by
  have hr := h.eventr_lt
  have hw := h.eventw_eq
  have hl := h.length_lt
  simp only [maxEvent] at hr hw hl ⊢
  omega

theorem FeEvents.Follows.pass (h : events.Follows q) (fate : Fate) {n : ℕ}
    (hn : n ≤ q.held.length) :
    FeEvents.Follows { events with eventr := (events.eventr + n) % maxEvent } (q.pass fate n) := by
  have hlen : (q.pass fate n).held.length = q.held.length - n := List.length_drop ..
  refine ⟨Nat.mod_lt _ (by decide), ?_, ?_, ?_, h.lost_eq⟩
  · rw [hlen, Nat.mod_add_mod, Nat.add_assoc, Nat.add_sub_cancel' hn]
    exact h.eventw_eq
  · rw [hlen]
    exact Nat.lt_of_le_of_lt (Nat.sub_le ..) h.length_lt
  · have hdrop := Ring.drop_front (i := events.eventr) events.events.size hn
      (Nat.le_of_lt h.length_lt)
    rw [h.held_eq] at hdrop
    rw [hlen]
    exact hdrop.symm

/-- Writing at the write position of a queue that is not full. -/
theorem FeEvents.Follows.push (h : events.Follows q) (e : DvbFrontendEvent π)
    (hroom : q.held.length + 1 < maxEvent) :
    FeEvents.Follows { events with
      events := events.events.put events.eventw e
      eventw := (events.eventw + 1) % maxEvent } (q.push e) := by
  have hlen : (q.push e).held.length = q.held.length + 1 := List.length_append
  refine ⟨h.eventr_lt, ?_, by rw [hlen]; exact hroom, ?_, h.lost_eq⟩
  · rw [hlen, h.eventw_eq, Nat.mod_add_mod, Nat.add_assoc]
  · rw [hlen, h.eventw_eq]
    have hpush := Ring.front_push (a := e) (i := events.eventr) events.events.size h.length_lt
    rw [h.held_eq] at hpush
    exact hpush

theorem FeEvents.Follows.add (h : events.Follows q) (status : UInt32) (parametersOut : π) :
    (addEvent events status parametersOut).Follows (q.add ⟨status, parametersOut⟩) := by
  have hlen := h.length_lt
  by_cases hfull : q.held.length + 1 = maxEvent
  · rw [addEvent, EventQueue.add, if_pos hfull, if_pos (h.full_iff.mpr hfull)]
    have hflag : FeEvents.Follows { events with overflow := true } { q with lost := true } :=
      { h with lost_eq := rfl }
    have hone : 1 ≤ q.held.length := by
      simp only [maxEvent] at hfull
      omega
    refine (hflag.pass .overflow hone).push _ ?_
    rw [EventQueue.pass, List.length_drop, Nat.sub_add_cancel hone]
    exact hlen
  · rw [addEvent, EventQueue.add, if_neg hfull, if_neg (fun hw => hfull (h.full_iff.mp hw))]
    exact h.push _ (by omega)

theorem FeEvents.Follows.reset (h : events.Follows q) (fate : Fate) {flag : Bool}
    (hflag : flag = false) :
    FeEvents.Follows { events with overflow := flag, eventr := events.eventw } (q.reset fate) := by
  have hpass := h.pass fate (Nat.le_refl _)
  rw [← h.eventw_eq] at hpass
  exact { hpass with lost_eq := hflag }

theorem FeEvents.Follows.take (h : events.Follows q) {e : DvbFrontendEvent π}
    {rest : List (DvbFrontendEvent π)} (hheld : q.held = e :: rest) :
    ∃ events', getEventTake events = some (e, events') ∧ events'.Follows (q.pass .returned 1) := by
  have hget := Ring.getElem?_front (i := events.eventr) (j := 0) events.events.size
    (show 0 < q.held.length by rw [hheld]; exact Nat.succ_pos _) (Nat.le_of_lt h.length_lt)
  rw [h.held_eq, hheld, Nat.add_zero, Nat.mod_eq_of_lt h.eventr_lt, List.getElem?_cons_zero] at hget
  refine ⟨_, by rw [getEventTake, ← hget]; rfl, h.pass .returned ?_⟩
  rw [hheld]
  exact Nat.succ_le_succ (Nat.zero_le _)

/-! ### Runs -/

/-- The results of a series of steps, and the state after them. -/
def EventState.run : EventState π → List (EventStep π) →
    Option (List (EventResult π) × EventState π)
  | s, [] => some ([], s)
  | s, c :: cs => do
    let (r, s) ← s.step c
    let (rs, s) ← s.run cs
    some (r :: rs, s)

/-- Nothing is cleared while the overflow flag is set; and when a reader takes its event, the flag is
    not set and an event is there, as its checks found. -/
def EventState.Orderly (s : EventState π) : EventStep π → Prop
  | .clear => s.events.overflow = false
  | .take => s.events.overflow = false ∧ s.events.eventw ≠ s.events.eventr
  | _ => True

/-- Every step of the series is made in a state where it is orderly. -/
def EventState.AllOrderly : EventState π → List (EventStep π) → Prop
  | _, [] => True
  | s, c :: cs => s.Orderly c ∧ ∀ r s', s.step c = some (r, s') → s'.AllOrderly cs

/-- An orderly step does what the queue does. -/
theorem EventState.step_answer (h : s.events.Follows q) (hc : s.Orderly c) {r : EventResult π}
    (hs : s.step c = some (r, s')) : r = (q.answer c).1 ∧ s'.events.Follows (q.answer c).2 := by
  cases c with
  | add status parametersOut =>
    cases hs
    exact ⟨rfl, h.add status parametersOut⟩
  | clear =>
    cases hs
    exact ⟨rfl, h.reset .cleared hc⟩
  | get nonblock =>
    simp only [EventState.step, getEventChecks, h.lost_eq, h.empty_iff] at hs
    simp only [EventQueue.answer]
    by_cases hlost : q.lost
    · rw [if_pos hlost] at hs ⊢
      cases hs
      exact ⟨rfl, h.reset .overflow rfl⟩
    · rw [if_neg hlost] at hs ⊢
      by_cases hempty : q.held = []
      · rw [if_pos hempty] at hs
        cases nonblock <;> cases hs
        · rw [if_neg (by simp)]
          exact ⟨rfl, h⟩
        · rw [if_pos ⟨hempty, rfl⟩]
          exact ⟨rfl, h⟩
      · rw [if_neg hempty] at hs
        cases hs
        rw [if_neg fun hc => hempty hc.1]
        exact ⟨rfl, h⟩
  | woken =>
    rw [EventState.step] at hs
    split at hs
    · cases hs
      exact ⟨rfl, h⟩
    · cases hs
  | interrupted =>
    rw [EventState.step] at hs
    split at hs
    · cases hs
      exact ⟨rfl, h⟩
    · cases hs
  | take =>
    obtain ⟨hflag, hsome⟩ := hc
    rw [h.lost_eq] at hflag
    rw [Ne, h.empty_iff] at hsome
    obtain ⟨e, rest, hheld⟩ := List.exists_cons_of_ne_nil hsome
    obtain ⟨events', htake, hpass⟩ := h.take hheld
    rw [EventState.step, htake] at hs
    simp only [EventQueue.answer, hflag, hheld]
    split at hs
    · cases hs
      exact ⟨rfl, hpass⟩
    · cases hs

/-- A run of orderly steps gives the queue's answers. -/
theorem EventState.run_answers {cs : List (EventStep π)} {rs : List (EventResult π)}
    (h : s.events.Follows q) (hcs : s.AllOrderly cs) (hrun : s.run cs = some (rs, s')) :
    rs = (q.run cs).1 ∧ s'.events.Follows (q.run cs).2 := by
  induction cs generalizing s q rs with
  | nil =>
    cases hrun
    exact ⟨rfl, h⟩
  | cons c cs ih =>
    obtain ⟨hc, hrest⟩ := hcs
    rw [EventState.run] at hrun
    cases hstep : s.step c with
    | none =>
      rw [hstep] at hrun
      cases hrun
    | some out =>
      obtain ⟨r, t⟩ := out
      rw [hstep] at hrun
      obtain ⟨hr, hfollows⟩ := step_answer h hc hstep
      cases htail : t.run cs with
      | none =>
        simp only [Option.bind_eq_bind, Option.bind_some, htail] at hrun
        cases hrun
      | some out =>
        obtain ⟨rs', t'⟩ := out
        simp only [Option.bind_eq_bind, Option.bind_some, htail] at hrun
        cases hrun
        obtain ⟨hrs, hend⟩ := ih hfollows (hrest r t hstep) htail
        rw [hr, hrs]
        exact ⟨rfl, hend⟩

/-- The queue as it is at first. -/
def EventState.init (events : Buff (DvbFrontendEvent π) maxEvent) : EventState π :=
  ⟨⟨events, 0, 0, false⟩, 0, 0⟩

/-- In a run of orderly steps every call returns what the queue answers: a reader gets the oldest
    event waiting, and is told of an overflow exactly when an event was lost by one since the last
    report or clear. The events returned are some of those added, in order and each once; every
    other event added is waiting, was cleared or was lost by an overflow. -/
theorem frontend_events_orderly {mem : Buff (DvbFrontendEvent π) maxEvent}
    {cs : List (EventStep π)} {rs : List (EventResult π)}
    (hcs : (EventState.init mem).AllOrderly cs) (hrun : (EventState.init mem).run cs = some (rs, s)) :
    rs = (EventQueue.empty.run cs).1 ∧
      s.events.overflow = (EventQueue.empty.run cs).2.lost ∧
      added cs = (EventQueue.empty.run cs).2.passed.map Prod.snd ++
        (EventQueue.empty.run cs).2.held ∧
      returned rs = (EventQueue.empty.run cs).2.taken ∧
      (returned rs).Sublist (added cs) := by
  have hinit : (EventState.init mem).events.Follows EventQueue.empty :=
    ⟨Nat.succ_pos _, rfl, Nat.succ_pos _, rfl, rfl⟩
  obtain ⟨hrs, hend⟩ := EventState.run_answers hinit hcs hrun
  have hall := EventQueue.all_run cs EventQueue.empty
  have htaken := EventQueue.taken_run cs EventQueue.empty
  have hadded : added cs = (EventQueue.empty.run cs).2.passed.map Prod.snd ++
      (EventQueue.empty.run cs).2.held := hall.symm
  have hreturned : returned rs = (EventQueue.empty.run cs).2.taken := by
    rw [hrs]
    exact htaken.symm
  refine ⟨hrs, hend.lost_eq, hadded, hreturned, ?_⟩
  rw [hadded, hreturned]
  exact (List.filter_sublist.map Prod.snd).trans (List.sublist_append_left _ _)

/-- An event added and taken. -/
theorem frontend_events_orderly_one :
    ∃ s : EventState Unit, (EventState.init ⟨List.replicate 64 ⟨0, ()⟩, rfl⟩).run
        [.add 1 (), .get false, .take] = some ([.nothing, .nothing, .event ⟨1, ()⟩], s) ∧
      s.events.overflow = false := by
  have hcs : (EventState.init ⟨List.replicate 64 ⟨0, ()⟩, rfl⟩ : EventState Unit).AllOrderly
      [.add 1 (), .get false, .take] := by
    refine ⟨trivial, ?_⟩
    rintro _ _ ⟨⟩
    refine ⟨trivial, ?_⟩
    rintro _ _ ⟨⟩
    exact ⟨⟨rfl, by decide⟩, fun _ _ _ => trivial⟩
  exact ⟨_, rfl, (frontend_events_orderly hcs rfl).2.1⟩

/-- An overflow, a clear, and an event added after it. -/
def clearAfterOverflow : List (EventStep Unit) :=
  List.replicate 64 (.add 1 ()) ++ [.clear, .add 2 (), .get true, .get true]

/-- The reader is told of the overflow from before the clear, and the event added since is gone,
    while the queue has nothing to report and keeps it. -/
theorem frontend_events_stale_overflow :
    ((EventState.init ⟨List.replicate 64 ⟨0, ()⟩, rfl⟩).run clearAfterOverflow).map Prod.fst =
        some (List.replicate 66 .nothing ++ [.eoverflow, .ewouldblock]) ∧
      (EventQueue.empty.run clearAfterOverflow).1 = List.replicate 68 .nothing ∧
      (EventQueue.empty.run clearAfterOverflow).2.held = [⟨2, ()⟩] := by
  decide +kernel

end Dvb

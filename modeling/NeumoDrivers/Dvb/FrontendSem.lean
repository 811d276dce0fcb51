import Mathlib.Data.Fintype.Option
import NeumoDrivers.Lib.Holders
import NeumoDrivers.Dvb.FrontendEvents

/-! The frontend's semaphore.

    The thread, most ioctls and the stop request of `FE_ALGO_CTRL` take the semaphore around what
    they do with the driver. `dvb_frontend_test_event`, the wait condition of a blocking
    `FE_GET_EVENT`, gives the semaphore back before it looks at the queue and takes it again
    afterwards; it was written for callers that hold it. `dvb_frontend_do_ioctl` now dispatches
    `FE_GET_EVENT` without taking the semaphore, so the wait condition lends out a semaphore that
    nobody handed in, and two actors may be at the driver at once. -/

namespace Dvb
open Holders

/-- Where an actor is. `waits`, `lent` and `tested` belong to an evaluation of the wait condition;
    the flag says whether it is one of the wait loop or the first one, before the loop. -/
inductive SemPc where
  | idle
  | inside
  | waits (looping : Bool)
  | lent (looping : Bool)
  | tested (looping found : Bool)
  | sleeps
  | takes
  deriving DecidableEq

/-- What an actor has of the semaphore: it is inside a section that began with a `down`, or between
    the `up` and the `down` of a wait condition. -/
inductive SemPart where
  | held
  | loan
  deriving DecidableEq

def SemPc.part : SemPc → Option SemPart
  | .inside => some .held
  | .lent _ | .tested _ _ => some .loan
  | _ => none

/-- The semaphore, the event queue and the actors: `none` is the frontend thread, the others are
    callers on file handles of their own. -/
structure SemState (ι π : Type) where
  sem : ℕ
  events : FeEvents π
  pc : Option ι → SemPc

/-- One atomic action. `enter` and `leave` are the `down` and the `up` around an iteration of the
    thread, an ioctl or a stop request; inside, events are added and cleared. The others are the
    steps of `FE_GET_EVENT`. -/
inductive SemStep (ι π : Type) where
  | enter (a : Option ι)
  | leave (a : Option ι)
  | add (a : Option ι) (status : UInt32) (parametersOut : π)
  | clear (a : Option ι)
  | getEvent (i : ι) (nonblock : Bool)
  | condUp (i : ι)
  | condTest (i : ι)
  | condDown (i : ι)
  | wake (i : ι)
  | interrupted (i : ι)
  | take (i : ι)
  deriving DecidableEq

variable {ι π : Type} [DecidableEq ι] [Fintype ι]

/-- The actor goes on. -/
def SemState.goes (s : SemState ι π) (a : Option ι) (pc : SemPc) : SemState ι π :=
  { s with pc := Function.update s.pc a pc }

/-- `down`, which waits for the semaphore. -/
def SemState.down (s : SemState ι π) : Option (SemState ι π) :=
  if 0 < s.sem then some { s with sem := s.sem - 1 } else none

def SemState.up (s : SemState ι π) : SemState ι π := { s with sem := s.sem + 1 }

def SemState.step (s : SemState ι π) : SemStep ι π → Option (SemState ι π)
  | .enter a => if s.pc a = .idle then s.down.map fun s => s.goes a .inside else none
  | .leave a => if s.pc a = .inside then some (s.up.goes a .idle) else none
  | .add a status parametersOut =>
    if s.pc a = .inside then some { s with events := addEvent s.events status parametersOut }
    else none
  | .clear a => if s.pc a = .inside then some { s with events := clearEvents s.events } else none
  | .getEvent i nonblock =>
    if s.pc (some i) = .idle then
      match getEventChecks s.events nonblock with
      | .returns _ events => some { s with events }
      | .waits => some (s.goes (some i) (.waits false))
      | .takes => some (s.goes (some i) .takes)
    else none
  | .condUp i =>
    match s.pc (some i) with
    | .waits looping => some (s.up.goes (some i) (.lent looping))
    | _ => none
  | .condTest i =>
    match s.pc (some i) with
    | .lent looping => some (s.goes (some i) (.tested looping (testEvent s.events)))
    | _ => none
  | .condDown i =>
    match s.pc (some i) with
    | .tested looping found =>
      s.down.map fun s => s.goes (some i)
        (if found then .takes else if looping then .sleeps else .waits true)
    | _ => none
  | .wake i => if s.pc (some i) = .sleeps then some (s.goes (some i) (.waits true)) else none
  | .interrupted i => if s.pc (some i) = .sleeps then some (s.goes (some i) .idle) else none
  | .take i =>
    if s.pc (some i) = .takes then
      (getEventTake s.events).map fun (_, events) => { s with events }.goes (some i) .idle
    else none

/-- The frontend has just been started: `neumo_dvb_frontend_start` took the semaphore for the thread,
    and `neumo_dvb_frontend_open` emptied the queue. -/
def SemState.started (events : Demux.Buff (DvbFrontendEvent π) maxEvent) : SemState ι π where
  sem := 0
  events := ⟨events, 0, 0, false⟩
  pc := fun a => if a = none then .inside else .idle

/-- The actors that have a part in the semaphore of the given kind. -/
def SemState.num (s : SemState ι π) (part : SemPart) : ℕ := count (fun a => (s.pc a).part) part

/-- What a semaphore is for. -/
structure SemState.Exclusive (s : SemState ι π) : Prop where
  balance : s.sem + s.num .held = 1
  alone : s.num .held ≤ 1

/-- The states of a run, the last one first. -/
inductive SemRun (s₀ : SemState ι π) : List (SemStep ι π) → SemState ι π → Prop where
  | nil : SemRun s₀ [] s₀
  | step {steps : List (SemStep ι π)} {s s' : SemState ι π} {c : SemStep ι π}
      (run : SemRun s₀ steps s) (h : s.step c = some s') : SemRun s₀ (c :: steps) s'

variable {s s' s₀ : SemState ι π} {steps : List (SemStep ι π)} {a : Option ι} {pc : SemPc}
  {part : SemPart}

/-! ### What an actor's move does to the parts -/

omit [Fintype ι] in
@[simp] theorem goes_sem : (s.goes a pc).sem = s.sem := rfl

omit [Fintype ι] in
theorem parts_goes : (fun b => ((s.goes a pc).pc b).part) =
    Function.update (fun b => (s.pc b).part) a pc.part := by
  funext b
  rcases eq_or_ne b a with rfl | hb
  · simp [SemState.goes]
  · simp [SemState.goes, hb]

theorem num_goes_same (h : (s.pc a).part = pc.part) : (s.goes a pc).num part = s.num part := by
  rw [SemState.num, parts_goes, ← h, Function.update_eq_self, SemState.num]

theorem num_goes_other (h : (s.pc a).part ≠ some part) (h' : pc.part ≠ some part) :
    (s.goes a pc).num part = s.num part := by
  rw [SemState.num, parts_goes, count_update_of_ne (f := fun b => (s.pc b).part) h h', SemState.num]

theorem num_goes_gain (h : (s.pc a).part ≠ some part) (h' : pc.part = some part) :
    (s.goes a pc).num part = s.num part + 1 := by
  rw [SemState.num, parts_goes, h', count_update_gain (f := fun b => (s.pc b).part) h, SemState.num]

theorem num_goes_lose (h : (s.pc a).part = some part) (h' : pc.part ≠ some part) :
    (s.goes a pc).num part + 1 = s.num part := by
  rw [SemState.num, parts_goes, count_update_lose (f := fun b => (s.pc b).part) h h', SemState.num]

/-- What one step does: an actor takes up a part or gives it back, with the semaphore in step, or
    the parts stay as they are. -/
inductive SemStep.Moves (s : SemState ι π) : SemStep ι π → SemState ι π → Prop where
  | enter {a : Option ι} (hpc : s.pc a = .idle) (hsem : 0 < s.sem) :
      Moves s (.enter a) (SemState.goes { s with sem := s.sem - 1 } a .inside)
  | leave {a : Option ι} (hpc : s.pc a = .inside) : Moves s (.leave a) (s.up.goes a .idle)
  | lend {i : ι} {looping : Bool} (hpc : s.pc (some i) = .waits looping) :
      Moves s (.condUp i) (s.up.goes (some i) (.lent looping))
  | back {i : ι} {looping found : Bool} (hpc : s.pc (some i) = .tested looping found)
      (hsem : 0 < s.sem) {pc : SemPc} (hnext : pc.part = none) :
      Moves s (.condDown i) (SemState.goes { s with sem := s.sem - 1 } (some i) pc)
  | same {c : SemStep ι π} {s' : SemState ι π} (hsem : s'.sem = s.sem)
      (hparts : ∀ part, s'.num part = s.num part) (hcond : ∀ i, c ≠ .condUp i) : Moves s c s'

omit [DecidableEq ι] [Fintype ι] in
theorem down_eq_some {t : SemState ι π} :
    s.down = some t ↔ 0 < s.sem ∧ { s with sem := s.sem - 1 } = t := by
  rw [SemState.down, Option.ite_none_right_eq_some, Option.some.injEq]

theorem SemState.step_moves {c : SemStep ι π} (h : s.step c = some s') : c.Moves s s' := by
  cases c with
  | enter a =>
    simp only [SemState.step] at h
    split_ifs at h with hpc
    obtain ⟨t, hdown, rfl⟩ := Option.map_eq_some_iff.mp h
    obtain ⟨hsem, rfl⟩ := down_eq_some.mp hdown
    exact .enter hpc hsem
  | leave a =>
    simp only [SemState.step] at h
    split_ifs at h with hpc
    cases h
    exact .leave hpc
  | add a status parametersOut =>
    simp only [SemState.step] at h
    split_ifs at h with hpc
    cases h
    exact .same rfl (fun _ => rfl) nofun
  | clear a =>
    simp only [SemState.step] at h
    split_ifs at h with hpc
    cases h
    exact .same rfl (fun _ => rfl) nofun
  | getEvent i nonblock =>
    simp only [SemState.step] at h
    split_ifs at h with hpc
    split at h
    all_goals
      cases h
      refine .same rfl (fun part => ?_) nofun
    · rfl
    · exact num_goes_same (by rw [hpc]; rfl)
    · exact num_goes_same (by rw [hpc]; rfl)
  | condUp i =>
    simp only [SemState.step] at h
    split at h
    · rename_i looping hpc
      cases h
      exact .lend hpc
    · cases h
  | condTest i =>
    simp only [SemState.step] at h
    split at h
    · rename_i looping hpc
      cases h
      exact .same rfl (fun part => num_goes_same (by rw [hpc]; rfl)) nofun
    · cases h
  | condDown i =>
    simp only [SemState.step] at h
    split at h
    · rename_i looping found hpc
      obtain ⟨t, hdown, rfl⟩ := Option.map_eq_some_iff.mp h
      obtain ⟨hsem, rfl⟩ := down_eq_some.mp hdown
      refine .back hpc hsem ?_
      cases found
      · cases looping <;> rfl
      · rfl
    · cases h
  | wake i =>
    simp only [SemState.step] at h
    split_ifs at h with hpc
    cases h
    exact .same rfl (fun part => num_goes_same (by rw [hpc]; rfl)) nofun
  | interrupted i =>
    simp only [SemState.step] at h
    split_ifs at h with hpc
    cases h
    exact .same rfl (fun part => num_goes_same (by rw [hpc]; rfl)) nofun
  | take i =>
    simp only [SemState.step] at h
    split_ifs at h with hpc
    obtain ⟨⟨e, events⟩, -, rfl⟩ := Option.map_eq_some_iff.mp h
    exact .same rfl (fun part => num_goes_same (s := { s with events }) (by simp only [hpc]; rfl)) nofun

/-! ### Runs -/

/-- The semaphore and the sections add up to 1 and what is out on loan. -/
def SemState.Balanced (s : SemState ι π) : Prop := s.sem + s.num .held = 1 + s.num .loan

theorem SemStep.Moves.balanced {c : SemStep ι π} (h : c.Moves s s') (hs : s.Balanced) :
    s'.Balanced := by
  rw [SemState.Balanced] at hs ⊢
  cases h with
  | @enter a hpc hsem =>
    have hnone : (s.pc a).part = none := by rw [hpc]; rfl
    have hin : (SemState.goes { s with sem := s.sem - 1 } a .inside).num .held =
        s.num .held + 1 := num_goes_gain (by simp [hnone]) rfl
    have hloan : (SemState.goes { s with sem := s.sem - 1 } a .inside).num .loan =
        s.num .loan := num_goes_other (by simp [hnone]) nofun
    rw [hin, hloan, goes_sem]
    change s.sem - 1 + (s.num .held + 1) = 1 + s.num .loan
    omega
  | @leave a hpc =>
    have hsome : (s.pc a).part = some .held := by rw [hpc]; rfl
    have hin : (s.up.goes a .idle).num .held + 1 = s.num .held :=
      num_goes_lose hsome nofun
    have hloan : (s.up.goes a .idle).num .loan = s.num .loan :=
      num_goes_other (by simp [SemState.up, hsome]) nofun
    rw [hloan, goes_sem]
    change s.sem + 1 + (s.up.goes a .idle).num .held = 1 + s.num .loan
    omega
  | @lend i looping hpc =>
    have hnone : (s.pc (some i)).part = none := by rw [hpc]; rfl
    have hin : (s.up.goes (some i) (.lent looping)).num .held = s.num .held :=
      num_goes_other (by simp [SemState.up, hnone]) nofun
    have hloan : (s.up.goes (some i) (.lent looping)).num .loan = s.num .loan + 1 :=
      num_goes_gain (by simp [SemState.up, hnone]) rfl
    rw [hin, hloan, goes_sem]
    change s.sem + 1 + s.num .held = 1 + (s.num .loan + 1)
    omega
  | @back i looping found hpc hsem pc hnext =>
    have hsome : (s.pc (some i)).part = some .loan := by rw [hpc]; rfl
    have hin : (SemState.goes { s with sem := s.sem - 1 } (some i) pc).num .held =
        s.num .held := num_goes_other (by simp [hsome]) (by simp [hnext])
    have hloan : (SemState.goes { s with sem := s.sem - 1 } (some i) pc).num .loan + 1 =
        s.num .loan := num_goes_lose hsome (by simp [hnext])
    rw [hin, goes_sem]
    change s.sem - 1 + s.num .held = 1 + _
    omega
  | same hsem hparts _ => rw [hsem, hparts, hparts, hs]

theorem SemStep.Moves.loan {c : SemStep ι π} (h : c.Moves s s') (hcond : ∀ i, c ≠ .condUp i)
    (hs : s.num .loan = 0) : s'.num .loan = 0 := by
  cases h with
  | enter hpc hsem => exact (num_goes_other (by simp [hpc, SemPc.part]) (by simp [SemPc.part])).trans hs
  | leave hpc => exact (num_goes_other (by simp [SemState.up, hpc, SemPc.part])
      (by simp [SemPc.part])).trans hs
  | @lend i looping hpc => exact absurd rfl (hcond i)
  | back hpc hsem hnext =>
    have hlose := @num_goes_lose _ _ _ _ { s with sem := s.sem - 1 } _ _ .loan
      (by rw [hpc]; rfl) (by rw [hnext]; nofun)
    have hsame : SemState.num { s with sem := s.sem - 1 } .loan = s.num .loan := rfl
    omega
  | same hsem hparts _ => rw [hparts, hs]

omit [DecidableEq ι] in
theorem started_parts (events : Demux.Buff (DvbFrontendEvent π) maxEvent) (part : SemPart) :
    (SemState.started events : SemState ι π).num part = if part = .held then 1 else 0 := by
  cases part with
  | held =>
    rw [SemState.num, if_pos rfl,
      @count_eq_one _ _ _ _ (fun a => ((SemState.started events).pc a).part) none .held rfl]
    intro a ha
    by_contra hne
    simp [SemState.started, hne, SemPc.part] at ha
  | loan =>
    rw [SemState.num, if_neg nofun, count_eq_zero]
    intro a ha
    simp only [SemState.started] at ha
    split at ha <;> cases ha

variable {events : Demux.Buff (DvbFrontendEvent π) maxEvent}

theorem SemRun.balanced (h : SemRun (.started events) steps s) : s.Balanced := by
  induction h with
  | nil =>
    rw [SemState.Balanced, started_parts, started_parts]
    rfl
  | step _ hstep ih => exact (SemState.step_moves hstep).balanced ih

theorem SemRun.loan (h : SemRun (.started events) steps s)
    (hcond : ∀ i, .condUp i ∉ steps) : s.num .loan = 0 := by
  induction h with
  | nil => exact started_parts events .loan
  | @step cs t t' c _ hstep ih =>
    refine (SemState.step_moves hstep).loan ?_ (ih fun i hi => hcond i (.tail _ hi))
    rintro i rfl
    exact hcond i (.head _)

omit [DecidableEq ι] in
theorem SemState.Balanced.exclusive_iff (h : s.Balanced) : s.Exclusive ↔ s.num .loan = 0 := by
  rw [SemState.Balanced] at h
  constructor
  · intro hs
    have := hs.balance
    omega
  · intro hloan
    exact ⟨by omega, by omega⟩

/-! ### When the wait condition is evaluated -/

/-- Not on the way through the wait condition. -/
def SemPc.awake : SemPc → Bool
  | .idle | .inside | .takes => true
  | _ => false

/-- A blocking `FE_GET_EVENT` that finds the queue empty and nothing to report. -/
def SemStep.Waits (c : SemStep ι π) (s : SemState ι π) : Prop :=
  ∃ i, c = .getEvent i false ∧ s.events.overflow = false ∧ s.events.eventw = s.events.eventr

omit [Fintype ι] in
theorem awake_goes (hs : ∀ b, (s.pc b).awake = true) (h : pc.awake = true) (b : Option ι) :
    ((s.goes a pc).pc b).awake = true := by
  rcases eq_or_ne b a with rfl | hb
  · simpa [SemState.goes] using h
  · simpa [SemState.goes, hb] using hs b

theorem getEventChecks_waits {events : FeEvents π} {nonblock : Bool}
    (h : getEventChecks events nonblock = .waits) :
    nonblock = false ∧ events.overflow = false ∧ events.eventw = events.eventr := by
  rw [getEventChecks] at h
  split_ifs at h with hover hempty hnonblock
  exact ⟨by simpa using hnonblock, by simpa using hover, hempty⟩

omit [Fintype ι] in
/-- Only a call that finds nothing sets out for the wait condition. -/
theorem SemState.step_awake {c : SemStep ι π} (h : s.step c = some s') (hc : ¬ c.Waits s)
    (hs : ∀ b, (s.pc b).awake = true) :
    (∀ b, (s'.pc b).awake = true) ∧ ∀ i, c ≠ .condUp i := by
  have hno : ∀ {b} {p : SemPc}, s.pc b = p → p.awake = false → False := by
    intro b p hpc hp
    have := hs b
    rw [hpc, hp] at this
    cases this
  cases c with
  | enter a =>
    simp only [SemState.step] at h
    split_ifs at h with hpc
    obtain ⟨t, hdown, rfl⟩ := Option.map_eq_some_iff.mp h
    obtain ⟨hsem, rfl⟩ := down_eq_some.mp hdown
    exact ⟨awake_goes hs rfl, nofun⟩
  | leave a =>
    simp only [SemState.step] at h
    split_ifs at h
    cases h
    exact ⟨awake_goes hs rfl, nofun⟩
  | add a status parametersOut =>
    simp only [SemState.step] at h
    split_ifs at h
    cases h
    exact ⟨hs, nofun⟩
  | clear a =>
    simp only [SemState.step] at h
    split_ifs at h
    cases h
    exact ⟨hs, nofun⟩
  | getEvent i nonblock =>
    simp only [SemState.step] at h
    split_ifs at h
    split at h
    · cases h
      exact ⟨hs, nofun⟩
    · rename_i hchecks
      obtain ⟨rfl, hempty⟩ := getEventChecks_waits hchecks
      exact absurd ⟨i, rfl, hempty⟩ hc
    · cases h
      exact ⟨awake_goes hs rfl, nofun⟩
  | condUp i =>
    simp only [SemState.step] at h
    split at h
    · rename_i hpc
      exact (hno hpc rfl).elim
    · cases h
  | condTest i =>
    simp only [SemState.step] at h
    split at h
    · rename_i hpc
      exact (hno hpc rfl).elim
    · cases h
  | condDown i =>
    simp only [SemState.step] at h
    split at h
    · rename_i hpc
      exact (hno hpc rfl).elim
    · cases h
  | wake i =>
    simp only [SemState.step] at h
    split_ifs at h with hpc
    exact (hno hpc rfl).elim
  | interrupted i =>
    simp only [SemState.step] at h
    split_ifs at h with hpc
    exact (hno hpc rfl).elim
  | take i =>
    simp only [SemState.step] at h
    split_ifs at h
    obtain ⟨⟨e, events⟩, -, rfl⟩ := Option.map_eq_some_iff.mp h
    exact ⟨awake_goes hs rfl, nofun⟩

omit [Fintype ι] in
/-- As long as every blocking `FE_GET_EVENT` finds something, the wait condition is not evaluated. -/
theorem SemRun.never_waits {events : Demux.Buff (DvbFrontendEvent π) maxEvent}
    (hrun : SemRun (.started events) steps s)
    (hfinds : ∀ c cs t, c :: cs <:+ steps → SemRun (.started events) cs t → ¬ c.Waits t) :
    (∀ b, (s.pc b).awake = true) ∧ ∀ i, .condUp i ∉ steps := by
  induction hrun with
  | nil =>
    refine ⟨fun b => ?_, by simp⟩
    simp only [SemState.started]
    split <;> rfl
  | @step cs t t' c hrun hstep ih =>
    obtain ⟨hawake, hcond⟩ := ih fun c' cs' t' hcs =>
      hfinds c' cs' t' (hcs.trans (List.suffix_cons ..))
    obtain ⟨hawake', hc⟩ :=
      SemState.step_awake hstep (hfinds c cs t (List.suffix_refl _) hrun) hawake
    refine ⟨hawake', fun i hi => ?_⟩
    rcases List.mem_cons.mp hi with hi | hi
    · exact hc i hi.symm
    · exact hcond i hi

omit [DecidableEq ι] [Fintype ι] in
theorem SemRun.suffix [DecidableEq ι] {cs : List (SemStep ι π)} (h : SemRun s₀ steps s)
    (hcs : cs <:+ steps) : ∃ t, SemRun s₀ cs t := by
  induction h with
  | nil => exact ⟨s₀, List.suffix_nil.mp hcs ▸ .nil⟩
  | step hrun hstep ih =>
    rcases List.suffix_cons_iff.mp hcs with rfl | hcs
    · exact ⟨_, hrun.step hstep⟩
    · exact ih hcs

/-- In every run of any number of callers beside the thread, the semaphore and the sections add up to
    1 in each state, with at most one actor in a section, if and only if no caller evaluates the wait
    condition of a blocking `FE_GET_EVENT`; none does as long as every such call finds something. -/
theorem semaphore_excludes (events : Demux.Buff (DvbFrontendEvent π) maxEvent)
    (steps : List (SemStep ι π)) (s : SemState ι π) (hrun : SemRun (.started events) steps s) :
    ((∀ cs t, cs <:+ steps → SemRun (.started events) cs t → t.Exclusive) ↔
      ∀ i, .condUp i ∉ steps) ∧
    ((∀ c cs t, c :: cs <:+ steps → SemRun (.started events) cs t → ¬ c.Waits t) →
      ∀ i, .condUp i ∉ steps) := by
  refine ⟨?_, fun hfinds => (hrun.never_waits hfinds).2⟩
  constructor
  · intro hall i hi
    obtain ⟨l, cs, rfl⟩ := List.mem_iff_append.mp hi
    obtain ⟨t, ht⟩ := hrun.suffix (List.suffix_append l _)
    have hloan := ht.balanced.exclusive_iff.mp (hall _ t (List.suffix_append l _) ht)
    cases ht with
    | @step _ t' _ _ hrun' hstep =>
      cases SemState.step_moves hstep with
      | @lend _ looping hpc =>
        have hgain : (t'.up.goes (some i) (.lent looping)).num .loan = t'.up.num .loan + 1 :=
          num_goes_gain (by simp [SemState.up, hpc, SemPc.part]) rfl
        omega
      | same _ _ hcond => exact hcond i rfl
  · intro hcond cs t hcs ht
    exact ht.balanced.exclusive_iff.mpr (ht.loan fun i hi => hcond i (hcs.mem hi))

theorem semaphore_excludes_idle : ∃ t : SemState (Fin 2) Unit,
    SemRun (.started (Demux.Buff.mk (List.replicate 64 ⟨0, ()⟩) rfl))
      [.getEvent 0 true, .leave none] t ∧ t.Exclusive := by
  let events : Demux.Buff (DvbFrontendEvent Unit) maxEvent := ⟨List.replicate 64 ⟨0, ()⟩, rfl⟩
  have hleave : SemRun (ι := Fin 2) (.started events) [.leave none] _ := .step .nil rfl
  have hget := hleave.step (c := .getEvent 0 true) rfl
  exact ⟨_, hget, (semaphore_excludes _ _ _ hget).1.mpr (by decide) _ _ List.suffix_rfl hget⟩

/-- A caller waits for an event while the thread is in a section; the wait condition lends the
    semaphore out, and another caller enters. -/
theorem two_inside :
    ¬ ∀ (events : Demux.Buff (DvbFrontendEvent Unit) maxEvent) steps (s : SemState (Fin 2) Unit),
      SemRun (.started events) steps s → s.Exclusive := by
  intro hclaim
  let events : Demux.Buff (DvbFrontendEvent Unit) maxEvent := ⟨List.replicate 64 ⟨0, ()⟩, rfl⟩
  have hboth := hclaim events [.enter (some 1), .condUp 0, .getEvent 0 false] _
    (.step (.step (.step .nil rfl) rfl) rfl)
  exact absurd hboth.alone (by decide)

end Dvb

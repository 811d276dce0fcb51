import NeumoDrivers.Dvb.CamChanges

/-! When no change of the CAM is lost (`neumo-dvb-ca-en50221.c`).

    The thread looks for changes at the start of a pass and after each packet. The second look does
    nothing but end the pass: with interrupts the change is still counted then, but what a poll has
    told it does not tell again, and the pass that follows sees the state and the CAM agree. -/

namespace Dvb

variable {ι : Type} {irq : Bool} {s s' : CamSystem ι}

namespace CamSystem

/-- The thread goes on to exchange link data without another look. -/
def Committed (s : CamSystem ι) : Prop :=
  match s.pc with
  | .dispatch => s.slot.slotState = .linkInit ∨ s.slot.slotState = .running
  | .linkInit | .readData _ => True
  | _ => False

/-- The events that lose no change. With interrupts, none comes between the thread's look and the
    link data, and a reset finds no removal pending. Without, a poll that only ends the pass finds no
    change of a CAM that is there, and one that looks for the CAM finds it there, unchanged. A write
    gets the lock while no change is pending, and does not fail in a slot that is shut down; nor does
    `camready_irq` assign the state of such a slot. -/
def Heeded (irq : Bool) (s : CamSystem ι) : CamEvent ι → Prop
  | .change => irq = true → ¬s.Committed
  | .validate => s.slot.slotState ≠ .none
  | .reset => irq = true → s.slot.slotState ≠ .none → 0 < s.slot.camchangeCount →
    s.slot.camchangeType ≠ .removed
  | .write _ failed =>
    if s.slot.slotState = .none then failed = false else s.slot.camchangeCount = 0
  | .thread a =>
    match s.pc with
    | .pollCamGone _ => irq = false → s.present = true ∧ s.unreported = 0
    | .recheck _ => irq = false → a.opened = true → s.present = true → s.unreported = 0
    | _ => True
  | .camready | .checkRunning _ => True

/-! ### What always holds -/

/-- The state of the slot tells whether the CAM is there. -/
def Agrees (s : CamSystem ι) : Prop := s.slot.slotState = .none ↔ s.present = false

/-- What holds where the pass is. -/
def AtPc (irq : Bool) (s : CamSystem ι) : Prop :=
  match s.pc with
  | .idle | .check => irq = false → s.owed = true → s.present = false ∨ 0 < s.unreported
  | .changed => 0 < s.slot.camchangeCount ∧ (irq = false → s.looked = false)
  | .assign => 0 < s.slot.camchangeCount ∧ (irq = false → s.looked = false) ∧
    s.slot.slotState = .none ∧ s.owed = false
  | .count => 0 < s.slot.camchangeCount ∧ (irq = false → s.looked = false) ∧
    (s.owed = true → 1 < s.slot.camchangeCount) ∧
    (irq = true → s.slot.camchangeCount = 1 → s.Agrees) ∧ (irq = false → s.owed = false)
  | .dispatch => (irq = false → s.owed = false) ∧
    (s.slot.slotState = .linkInit ∨ s.slot.slotState = .running → s.owed = false)
  | .linkInit | .readData _ => s.slot.slotState ≠ .none ∧ s.owed = false
  | .pollCamGone still => s.slot.slotState ≠ .none ∧ still ≠ .none ∧ (irq = false → s.owed = false)
  | .recheck _ => s.slot.slotState ≠ .none ∧ (irq = false → s.owed = false)

structure CamInv (irq : Bool) (s : CamSystem ι) : Prop where
  late : s.late = false
  owed : s.owed = true → 0 < s.slot.camchangeCount ∧ s.slot.slotState ≠ .none
  irqType : irq = true → (s.slot.camchangeType = .inserted ↔ s.present = true)
  irqDone : irq = true → s.slot.camchangeCount = 0 → s.Agrees
  polled : irq = false → s.unreported = 0 → s.looked = true → s.Agrees
  atPc : s.AtPc irq

theorem CamInv.init : CamInv irq (CamSystem.init : CamSystem ι) := by
  refine ⟨rfl, ?_, ?_, ?_, ?_, ?_⟩ <;> simp [CamSystem.init, Agrees, AtPc]

theorem CamInv.noneLost (h : CamInv irq s) : s.NoneLost irq := by
  refine ⟨h.late, fun hprocessed => ?_⟩
  cases irq with
  | true => exact h.irqDone rfl hprocessed
  | false => exact h.polled rfl hprocessed.1 hprocessed.2

/-! ### The events -/

theorem CamInv.change [DecidableEq ι] (h : CamInv irq s) (hheeded : irq = true → ¬s.Committed)
    (hs : s.step irq .change = some s') : CamInv irq s' := by
  obtain ⟨hlate, howed, htype, hdone, hpolled, hpc⟩ := h
  rw [CamSystem.step] at hs
  cases irq with
  | true =>
    cases hs
    have hno := hheeded rfl
    refine ⟨hlate, ?_, ?_, ?_, nofun, ?_⟩
    · intro howed'
      refine ⟨Nat.succ_pos _, ?_⟩
      simp only [camchangeIrq, report] at howed' ⊢
      grind
    · intro _
      simp only [camchangeIrq, report, presentType]
      grind
    · intro _ hcount
      cases hcount
    · rw [AtPc] at hpc ⊢
      rw [Committed] at hno
      simp only [camchangeIrq, report, Agrees]
      cases hcase : s.pc <;> simp only [hcase] at hpc hno ⊢ <;> grind
  | false =>
    cases hs
    refine ⟨hlate, howed, nofun, nofun, ?_, ?_⟩
    · intro _ hunreported
      cases hunreported
    · rw [AtPc] at hpc ⊢
      simp only [Agrees]
      cases hcase : s.pc <;> simp only [hcase] at hpc ⊢ <;> grind

theorem CamInv.camready [DecidableEq ι] (h : CamInv irq s)
    (hs : s.step irq .camready = some s') : CamInv irq s' := by
  cases hs
  exact ⟨h.late, h.owed, h.irqType, h.irqDone, h.polled, h.atPc⟩

/-- An assignment that leaves the slot out of state `NONE`, and does not let the thread exchange link
    data that it would not have exchanged. -/
theorem CamInv.setState (h : CamInv irq s) {state : SlotState} (hold : s.slot.slotState ≠ .none)
    (hnew : state ≠ .none) (hlink : s.pc ≠ .dispatch ∨ state ≠ .linkInit ∧ state ≠ .running) :
    CamInv irq (s.setState state) := by
  obtain ⟨hlate, howed, htype, hdone, hpolled, hpc⟩ := h
  refine ⟨hlate, fun howed' => ⟨(howed howed').1, hnew⟩, htype, ?_, ?_, ?_⟩
  · intro hirq hcount
    have hagrees := hdone hirq hcount
    simp only [Agrees, CamSystem.setState] at hagrees ⊢
    grind
  · intro hirq hunreported hlooked
    have hagrees := hpolled hirq hunreported hlooked
    simp only [Agrees, CamSystem.setState] at hagrees ⊢
    grind
  · rw [AtPc] at hpc ⊢
    simp only [Agrees, CamSystem.setState] at hpc ⊢
    cases hcase : s.pc <;> simp only [hcase] at hpc hlink ⊢ <;> grind

theorem CamInv.validate [DecidableEq ι] (h : CamInv irq s) (hheeded : s.slot.slotState ≠ .none)
    (hs : s.step irq .validate = some s') : CamInv irq s' := by
  rw [CamSystem.step] at hs
  split at hs
  · cases hs
    have hset : CamInv irq (s.setState .validate) :=
      h.setState hheeded nofun (.inr ⟨nofun, nofun⟩)
    obtain ⟨hlate, howed, htype, hdone, hpolled, hpc⟩ := hset
    exact ⟨hlate, howed, htype, hdone, hpolled, hpc⟩
  · cases hs

theorem CamInv.reset [DecidableEq ι] (h : CamInv irq s)
    (hheeded : irq = true → s.slot.slotState ≠ .none → 0 < s.slot.camchangeCount →
      s.slot.camchangeType ≠ .removed)
    (hs : s.step irq .reset = some s') : CamInv irq s' := by
  obtain ⟨hlate, howed, htype, hdone, hpolled, hpc⟩ := h
  rw [CamSystem.step] at hs
  split at hs
  · cases hs
  · rename_i hidle
    rw [not_not] at hidle
    split at hs
    · cases hs
      exact ⟨hlate, howed, htype, hdone, hpolled, hpc⟩
    · rename_i hstate
      cases irq with
      | true =>
        cases hs
        refine ⟨hlate, ?_, ?_, ?_, nofun, ?_⟩
        · simp [camchangeIrq, report, slotShutdown, CamSystem.setState]
        · intro _
          have hpresent : s.present = true := by
            have hdone' := hdone rfl
            have htype' := htype rfl
            have hheeded' := hheeded rfl hstate
            rw [Agrees] at hdone'
            cases hkind : s.slot.camchangeType <;> grind
          simp [camchangeIrq, report, slotShutdown, CamSystem.setState, hpresent]
        · intro _ hcount
          cases hcount
        · simp [AtPc, camchangeIrq, report, slotShutdown, CamSystem.setState, hidle]
      | false =>
        cases hs
        refine ⟨hlate, nofun, nofun, nofun, fun _ _ => nofun, ?_⟩
        simp [AtPc, slotShutdown, CamSystem.setState, hidle]

theorem CamInv.checkRunning [DecidableEq ι] {i : ι} (h : CamInv irq s)
    (hs : s.step irq (.checkRunning i) = some s') : CamInv irq s' := by
  cases hs
  exact ⟨h.late, h.owed, h.irqType, h.irqDone, h.polled, h.atPc⟩

theorem CamInv.linkData (h : CamInv irq s) (howed : s.owed = false) : CamInv irq s.linkData := by
  refine ⟨?_, h.owed, h.irqType, h.irqDone, h.polled, h.atPc⟩
  simp [CamSystem.linkData, h.late, howed]

theorem CamInv.write [DecidableEq ι] {i : ι} {failed : Bool} (h : CamInv irq s)
    (hheeded : if s.slot.slotState = .none then failed = false else s.slot.camchangeCount = 0)
    (hs : s.step irq (.write i failed) = some s') : CamInv irq s' := by
  have howed : s.owed = false := by
    have howed := h.owed
    split at hheeded <;> grind
  obtain ⟨hlate, howed', htype, hdone, hpolled, hpc⟩ := h.linkData howed
  rw [CamSystem.step] at hs
  split at hs
  · cases hs
  · rename_i hidle
    rw [not_or, not_not] at hidle
    cases hs
    have hwritten : CamInv irq
        { s.linkData with writing := Function.update s.linkData.writing i false } :=
      ⟨hlate, howed', htype, hdone, hpolled, hpc⟩
    dsimp only
    split
    · rename_i hfailed
      have hstate : s.slot.slotState ≠ .none := by
        intro hnone
        rw [if_pos hnone, hfailed] at hheeded
        cases hheeded
      refine hwritten.setState hstate nofun (.inl ?_)
      change s.pc ≠ .dispatch
      rw [hidle.1]
      exact nofun
    · exact hwritten

/-! ### The thread -/

theorem CamInv.goto (h : CamInv irq s) {pc : PassPc} (hpc : (s.goto pc).AtPc irq) :
    CamInv irq (s.goto pc) :=
  ⟨h.late, h.owed, h.irqType, h.irqDone, h.polled, hpc⟩

theorem CamInv.rest (h : CamInv irq s)
    (hpc : irq = false → s.owed = true → s.present = false ∨ 0 < s.unreported) :
    CamInv irq (s.goto .idle) :=
  h.goto hpc

/-- The pass ends with an assignment. -/
theorem CamInv.leave (h : CamInv irq s) {state : SlotState} (hold : s.slot.slotState ≠ .none)
    (hnew : state ≠ .none)
    (hpc : irq = false → s.owed = true → s.present = false ∨ 0 < s.unreported) :
    CamInv irq ((s.setState state).goto .idle) :=
  (h.rest hpc).setState hold hnew (.inl nofun)

theorem CamInv.dispatch (h : CamInv irq s) (hpc : s.pc = .dispatch) (a : CamAnswer) :
    CamInv irq (s.dispatch a) := by
  have hatPc := h.atPc
  rw [AtPc, hpc] at hatPc
  obtain ⟨howed, hlink⟩ := hatPc
  have hrest : irq = false → s.owed = true → s.present = false ∨ 0 < s.unreported := by
    intro hirq howed'
    rw [howed hirq] at howed'
    cases howed'
  rw [CamSystem.dispatch]
  split
  · exact h.rest hrest
  · exact h.rest hrest
  · rename_i hstate
    exact h.leave (hstate ▸ nofun) nofun hrest
  · rename_i hstate
    split
    · exact h.leave (hstate ▸ nofun) nofun hrest
    · exact h.rest hrest
  · rename_i hstate
    split
    · exact h.goto ⟨hstate ▸ nofun, nofun, howed⟩
    · split
      · exact h.leave (hstate ▸ nofun) nofun hrest
      · exact h.leave (hstate ▸ nofun) nofun hrest
  · rename_i hstate
    split
    · exact h.leave (hstate ▸ nofun) nofun hrest
    · split
      · exact h.leave (hstate ▸ nofun) nofun hrest
      · exact h.rest hrest
  · rename_i hstate
    exact h.goto ⟨hstate ▸ nofun, hlink (.inl hstate)⟩
  · rename_i hstate
    split
    · exact h.goto ⟨hstate ▸ nofun, hlink (.inr hstate)⟩
    · exact h.rest hrest

/-- The slot after a poll that tells a change. -/
def told (s : CamSystem ι) (left : ℕ) : CamSystem ι :=
  { s.report with
    unreported := min left (s.unreported - 1)
    slot := { s.slot with camchangeType := s.presentType, camchangeCount := 1 } }

/-- What `dvb_ca_en50221_check_camstatus` finds. With interrupts it only looks at the count; a poll that
    tells no change has found the CAM as the state of the slot has it. -/
inductive Look (irq : Bool) (s : CamSystem ι) : Bool × CamSystem ι → Prop where
  | pending : irq = true → 0 < s.slot.camchangeCount → Look irq s (true, s)
  | quiet : irq = true → s.slot.camchangeCount = 0 → Look irq s (false, s)
  | told (left : ℕ) : irq = false → 0 < s.unreported ∨ ¬s.Agrees → Look irq s (true, s.told left)
  | same : irq = false → s.unreported = 0 → s.Agrees → Look irq s (false, s)
  | ready : irq = false → s.unreported = 0 → s.Agrees → s.slot.slotState = .waitReady →
    Look irq s (false, s.setState .validate)

theorem checkCamstatus_look (irq : Bool) (s : CamSystem ι) (a : CamAnswer) :
    Look irq s (s.checkCamstatus irq a) := by
  rw [checkCamstatus]
  cases irq with
  | true =>
    by_cases hcount : s.slot.camchangeCount = 0
    · simpa [hcount] using Look.quiet rfl hcount
    · simpa [hcount] using Look.pending rfl (Nat.pos_of_ne_zero hcount)
  | false =>
    have hagrees : (s.present != (s.slot.slotState != .none)) = false ↔ s.Agrees := by
      rw [Agrees]
      cases s.present <;> simp
    by_cases hchanged : 0 < s.unreported ∨ ¬s.Agrees
    · have htold : (decide (0 < s.unreported) || (s.present != (s.slot.slotState != .none))) =
          true := by
        rw [Bool.or_eq_true, decide_eq_true_eq]
        refine hchanged.imp_right fun hno => ?_
        rwa [← hagrees, Bool.not_eq_false] at hno
      rw [if_neg Bool.false_ne_true]
      dsimp only [pollSlotStatus]
      rw [if_pos htold]
      exact .told a.left rfl hchanged
    · rw [not_or, not_lt, Nat.le_zero, not_not] at hchanged
      obtain ⟨hnone, hsame⟩ := hchanged
      have hquiet : (decide (0 < s.unreported) || (s.present != (s.slot.slotState != .none))) =
          false := by
        rw [hagrees.mpr hsame, hnone]
        rfl
      have hs : { s with unreported := min a.left (s.unreported - 1) } = s := by
        rw [hnone, Nat.zero_sub, Nat.min_zero, ← hnone]
      rw [if_neg Bool.false_ne_true]
      dsimp only [pollSlotStatus]
      rw [if_neg (Bool.eq_false_iff.mp hquiet)]
      split
      · rename_i hready
        rw [hs]
        exact .ready rfl hnone hsame hready.1
      · rw [hs]
        exact .same rfl hnone hsame

/-- A poll that tells a change owes a shutdown, unless there is nothing to shut down. -/
theorem CamInv.told (h : CamInv irq s) (hirq : irq = false) (left : ℕ) {pc : PassPc}
    (hpc : ((s.told left).goto pc).AtPc irq) : CamInv irq ((s.told left).goto pc) := by
  refine ⟨h.late, fun howed => ⟨Nat.one_pos, ?_⟩, ?_, ?_, fun _ _ => nofun, hpc⟩
  · have howed' := h.owed
    simp only [CamSystem.told, CamSystem.goto, report] at howed ⊢
    grind
  · rw [hirq]
    exact nofun
  · rw [hirq]
    exact nofun

/-- Nothing is owed when a poll has told no change. -/
theorem CamInv.notOwed (h : CamInv irq s) (hnone : s.unreported = 0) (hagrees : s.Agrees)
    (hpc : s.owed = true → s.present = false ∨ 0 < s.unreported) : s.owed = false := by
  have howed := h.owed
  rw [Agrees] at hagrees
  by_contra hyes
  rw [Bool.not_eq_false] at hyes
  rcases hpc hyes with hgone | hmore
  · exact (howed hyes).2 (hagrees.mpr hgone)
  · omega

theorem CamInv.check (h : CamInv irq s) (hpc : s.pc = .check) (a : CamAnswer) :
    CamInv irq (s.threadStep irq a) := by
  have hatPc := h.atPc
  have hlook := checkCamstatus_look irq s a
  rw [AtPc, hpc] at hatPc
  rw [threadStep, hpc]
  dsimp only
  generalize s.checkCamstatus irq a = result at hlook
  have hlooked : ∀ s' : CamSystem ι, CamInv irq s' → s'.owed = false → (irq = false → s'.Agrees) →
      CamInv irq ({ s' with looked := true }.goto .dispatch) :=
    fun s' h' howed hagrees => ⟨h'.late, h'.owed, h'.irqType, h'.irqDone,
      fun hirq _ _ => hagrees hirq, fun _ => howed, fun _ => howed⟩
  cases hlook with
  | pending hirq hcount =>
    exact h.goto ⟨hcount, fun hno => by rw [hirq] at hno; cases hno⟩
  | quiet hirq hcount =>
    refine hlooked s h ?_ (fun hno => by rw [hirq] at hno; cases hno)
    have howed := h.owed
    grind
  | told left hirq _ => exact h.told hirq left ⟨Nat.one_pos, fun _ => rfl⟩
  | same hirq hnone hagrees =>
    exact hlooked s h (h.notOwed hnone hagrees (hatPc hirq)) fun _ => hagrees
  | ready hirq hnone hagrees hready =>
    have hstate : s.slot.slotState ≠ .none := by
      rw [hready]
      exact nofun
    have hset : CamInv irq (s.setState .validate) :=
      h.setState hstate nofun (.inr ⟨nofun, nofun⟩)
    refine hlooked _ hset (h.notOwed hnone hagrees (hatPc hirq)) fun _ => ?_
    rw [Agrees] at hagrees ⊢
    refine iff_of_false nofun ?_
    exact fun hgone => hstate (hagrees.mpr hgone)

/-- After a packet, a look that finds a change ends the pass. A poll has to have found the CAM gone
    then: the next pass finds it gone again, or another change. -/
theorem CamInv.recheck (h : CamInv irq s) {k : ℕ} (hpc : s.pc = .recheck k) (a : CamAnswer)
    (hheeded : irq = false → a.opened = true → s.present = true → s.unreported = 0) :
    CamInv irq (s.threadStep irq a) := by
  have hatPc := h.atPc
  have hlook := checkCamstatus_look irq s a
  rw [AtPc, hpc] at hatPc
  obtain ⟨hstate, howed⟩ := hatPc
  have hrest : irq = false → s.owed = true → s.present = false ∨ 0 < s.unreported := by
    intro hirq howed'
    rw [howed hirq] at howed'
    cases howed'
  have hnext : ∀ s' : CamSystem ι, CamInv irq s' → s'.owed = false →
      s'.slot.slotState ≠ .none → CamInv irq (if k + 1 ≥ maxRxPacketsPerIteration then
        s'.goto .idle else s'.goto (.readData (k + 1))) := by
    intro s' h' hno hstate'
    split
    · exact h'.rest fun _ hyes => by rw [hno] at hyes; cases hyes
    · exact h'.goto ⟨hstate', hno⟩
  rw [threadStep, hpc]
  dsimp only
  split
  · exact h.rest hrest
  · rename_i hopened
    rw [not_not] at hopened
    generalize s.checkCamstatus irq a = result at hlook
    cases hlook with
    | pending hirq hcount => exact h.rest hrest
    | quiet hirq hcount =>
      refine hnext s h ?_ hstate
      have howed := h.owed
      grind
    | told left hirq hchanged =>
      refine h.told hirq left fun _ _ => .inl ?_
      change s.present = false
      have hpresent := hheeded hirq hopened
      simp only [Agrees] at hchanged
      grind
    | same hirq hnone hagrees => exact hnext s h (howed hirq) hstate
    | ready hirq hnone hagrees hready =>
      have hset : CamInv irq (s.setState .validate) :=
        h.setState hstate nofun (.inr ⟨nofun, nofun⟩)
      exact hnext _ hset (howed hirq) nofun

theorem CamInv.changed (h : CamInv irq s) (hpc : s.pc = .changed) (a : CamAnswer) :
    CamInv irq (s.threadStep irq a) := by
  have hatPc := h.atPc
  rw [AtPc, hpc] at hatPc
  obtain ⟨hcount, hlooked⟩ := hatPc
  rw [threadStep, hpc]
  dsimp only
  split
  · refine ⟨h.late, nofun, h.irqType, fun _ hnone => absurd hnone (Nat.ne_of_gt hcount), ?_,
      ⟨hcount, hlooked, rfl, rfl⟩⟩
    intro hirq _ hyes
    have hno : s.looked = true := hyes
    rw [hlooked hirq] at hno
    cases hno
  · rename_i hnone
    rw [not_not] at hnone
    have howed : s.owed = false := by
      by_contra hyes
      exact (h.owed (Bool.not_eq_false _ ▸ hyes)).2 hnone
    exact h.goto ⟨hcount, hlooked, hnone, howed⟩

theorem CamInv.assign (h : CamInv irq s) (hpc : s.pc = .assign) (a : CamAnswer) :
    CamInv irq (s.threadStep irq a) := by
  have hatPc := h.atPc
  rw [AtPc, hpc] at hatPc
  obtain ⟨hcount, hlooked, hnone, howed⟩ := hatPc
  have hno : ∀ {P : Prop}, s.owed = true → P := by
    intro P hyes
    rw [howed] at hyes
    cases hyes
  have hpolled : ∀ {P : Prop}, irq = false → s.looked = true → P := by
    intro P hirq hyes
    rw [hlooked hirq] at hyes
    cases hyes
  rw [threadStep, hpc]
  dsimp only
  split
  · rename_i htype
    refine ⟨h.late, hno, h.irqType, fun _ hzero => absurd hzero (Nat.ne_of_gt hcount),
      fun hirq _ => hpolled hirq, ⟨hcount, hlooked, hno, fun hirq _ => ?_, fun _ => howed⟩⟩
    have hpresent := (h.irqType hirq).mp htype
    refine iff_of_false nofun ?_
    change s.present ≠ false
    rw [hpresent]
    exact nofun
  · rename_i htype
    refine h.goto ⟨hcount, hlooked, hno, fun hirq _ => iff_of_true hnone ?_, fun _ => howed⟩
    change s.present = false
    have hiff := h.irqType hirq
    grind

theorem CamInv.count (h : CamInv irq s) (hpc : s.pc = .count) (a : CamAnswer) :
    CamInv irq (s.threadStep irq a) := by
  have hatPc := h.atPc
  rw [AtPc, hpc] at hatPc
  obtain ⟨hcount, hlooked, hmore, hlast, howed⟩ := hatPc
  rw [threadStep, hpc]
  refine ⟨h.late, fun hyes => ⟨?_, (h.owed hyes).2⟩, h.irqType, ?_, ?_, ?_⟩
  · have hmore' := hmore hyes
    simp only [CamSystem.goto]
    omega
  · intro hirq hzero
    simp only [CamSystem.goto] at hzero
    exact hlast hirq (by omega)
  · intro hirq _ hyes
    have hno : s.looked = true := hyes
    rw [hlooked hirq] at hno
    cases hno
  · intro hirq hyes
    have hno : s.owed = true := hyes
    rw [howed hirq] at hno
    cases hno

theorem CamInv.initLink (h : CamInv irq s) (hpc : s.pc = .linkInit) (a : CamAnswer) :
    CamInv irq (s.threadStep irq a) := by
  have hatPc := h.atPc
  rw [AtPc, hpc] at hatPc
  obtain ⟨hstate, howed⟩ := hatPc
  have hlink := h.linkData howed
  have hno : irq = false → s.linkData.owed = true →
      s.linkData.present = false ∨ 0 < s.linkData.unreported := by
    intro _ hyes
    have hyes' : s.owed = true := hyes
    rw [howed] at hyes'
    cases hyes'
  rw [threadStep, hpc]
  dsimp only
  split
  · exact hlink.goto ⟨hstate, nofun, fun _ => howed⟩
  · split
    · exact hlink.leave hstate nofun hno
    · exact hlink.leave hstate nofun hno

theorem CamInv.readPacket (h : CamInv irq s) {k : ℕ} (hpc : s.pc = .readData k) (a : CamAnswer) :
    CamInv irq (s.threadStep irq a) := by
  have hatPc := h.atPc
  rw [AtPc, hpc] at hatPc
  obtain ⟨hstate, howed⟩ := hatPc
  have hlink := h.linkData howed
  have hno : ∀ {P : Prop}, irq = false → s.owed = true → P := by
    intro P _ hyes
    rw [howed] at hyes
    cases hyes
  rw [threadStep, hpc]
  dsimp only
  split
  · exact h.rest hno
  · exact hlink.rest hno
  · exact hlink.leave hstate nofun hno
  · exact hlink.goto ⟨hstate, fun _ => howed⟩

theorem CamInv.camGone (h : CamInv irq s) {still : SlotState} (hpc : s.pc = .pollCamGone still)
    (a : CamAnswer) (hheeded : irq = false → s.present = true ∧ s.unreported = 0) :
    CamInv irq (s.threadStep irq a) := by
  have hatPc := h.atPc
  rw [AtPc, hpc] at hatPc
  obtain ⟨hstate, hstill, howed⟩ := hatPc
  have hno : irq = false → s.owed = true → s.present = false ∨ 0 < s.unreported := by
    intro hirq hyes
    rw [howed hirq] at hyes
    cases hyes
  rw [threadStep, hpc]
  dsimp only
  rw [CamSystem.pollCamGone]
  cases irq with
  | true => exact h.leave hstate hstill hno
  | false =>
    obtain ⟨hpresent, hnone⟩ := hheeded rfl
    have hs : { s with unreported := min a.left (s.unreported - 1) } = s := by
      rw [hnone, Nat.zero_sub, Nat.min_zero, ← hnone]
    have hquiet : (decide (0 < s.unreported) || !s.present) = false := by
      rw [hnone, hpresent]
      rfl
    rw [if_neg Bool.false_ne_true]
    dsimp only [pollSlotStatus]
    rw [if_neg (Bool.eq_false_iff.mp hquiet), if_pos hpresent, hs]
    exact h.leave hstate hstill hno

/-- One step of the thread. -/
theorem CamInv.thread [DecidableEq ι] {a : CamAnswer} (h : CamInv irq s)
    (hheeded : s.Heeded irq (.thread a)) (hs : s.step irq (.thread a) = some s') :
    CamInv irq s' := by
  cases hs
  rw [Heeded] at hheeded
  cases hpc : s.pc with
  | idle =>
    have hatPc := h.atPc
    rw [AtPc, hpc] at hatPc
    rw [threadStep, hpc]
    exact h.goto hatPc
  | check => exact h.check hpc a
  | changed => exact h.changed hpc a
  | assign => exact h.assign hpc a
  | count => exact h.count hpc a
  | dispatch =>
    rw [threadStep, hpc]
    exact h.dispatch hpc a
  | linkInit => exact h.initLink hpc a
  | pollCamGone still =>
    rw [hpc] at hheeded
    exact h.camGone hpc a hheeded
  | readData k => exact h.readPacket hpc a
  | recheck k =>
    rw [hpc] at hheeded
    exact h.recheck hpc a hheeded

/-! ### Runs -/

/-- One step keeps what holds. -/
theorem CamInv.step [DecidableEq ι] {e : CamEvent ι} (h : CamInv irq s) (hheeded : s.Heeded irq e)
    (hs : s.step irq e = some s') : CamInv irq s' := by
  cases e with
  | change => exact h.change hheeded hs
  | camready => exact h.camready hs
  | validate => exact h.validate hheeded hs
  | reset => exact h.reset hheeded hs
  | checkRunning i => exact h.checkRunning hs
  | write i failed => exact h.write hheeded hs
  | thread a => exact h.thread hheeded hs

end CamSystem

open CamSystem

theorem CamRun.inv [DecidableEq ι] (hrun : CamRun irq (CamSystem.Heeded irq) s) : CamInv irq s := by
  induction hrun with
  | init => exact CamInv.init
  | step _ hheeded hs ih => exact ih.step hheeded hs

/-- Whatever the order of changes, resets, writes and steps of the thread, no change is lost while
    all of them are heeded. -/
theorem cam_changes_kept [DecidableEq ι] (hrun : CamRun irq (CamSystem.Heeded irq) s) :
    s.NoneLost irq :=
  hrun.inv.noneLost

/-- The state a series of steps leads to, if each of them can be made. -/
def CamSystem.steps [DecidableEq ι] (irq : Bool) :
    List (CamEvent ι) → CamSystem ι → Option (CamSystem ι)
  | [], s => some s
  | e :: es, s => (s.step irq e).bind (CamSystem.steps irq es)

theorem CamRun.steps [DecidableEq ι] {ok : CamSystem ι → CamEvent ι → Prop} (hok : ∀ s e, ok s e) :
    ∀ (es : List (CamEvent ι)) {s s' : CamSystem ι}, CamRun irq ok s →
      CamSystem.steps irq es s = some s' → CamRun irq ok s' := by
  intro es
  induction es with
  | nil =>
    intro s s' hrun h
    cases h
    exact hrun
  | cons e es ih =>
    intro s s' hrun h
    obtain ⟨t, ht, hrest⟩ := Option.bind_eq_some_iff.mp h
    exact ih (hrun.step (hok s e) ht) hrest

/-- Everything goes well, and there is data to read. -/
def fineAnswer : CamAnswer where
  left := 0
  camReady := true
  opened := true
  expired := false
  parsed := true
  written := true
  moduleFree := true
  linked := true
  memory := true
  read := .packet

/-- A CAM is inserted, and a pass handles that. -/
theorem cam_changes_kept_insert : ∃ s : CamSystem Unit,
    s.slot = ⟨.uninitialised, 0, .inserted⟩ ∧ s.pc = .check ∧ s.NoneLost true := by
  have hinit : CamRun true (CamSystem.Heeded true) (.init : CamSystem Unit) := .init
  have hinsert := hinit.step (e := .change) (fun _ hno => hno) rfl
  have hstart := hinsert.step (e := .thread fineAnswer) trivial rfl
  have hcheck := hstart.step (e := .thread fineAnswer) trivial rfl
  have hshut := hcheck.step (e := .thread fineAnswer) trivial rfl
  have hassign := hshut.step (e := .thread fineAnswer) trivial rfl
  have hcount := hassign.step (e := .thread fineAnswer) trivial rfl
  exact ⟨_, rfl, rfl, cam_changes_kept hcount⟩

/-- A polled CAM is exchanged while the thread reads from it. The look after the packet ends the pass,
    and the next pass reads on. -/
def exchangedWhileRead : List (CamEvent Unit) :=
  .change :: List.replicate 21 (.thread fineAnswer) ++ [.change, .change] ++
    List.replicate 5 (.thread fineAnswer)

theorem cam_change_lost :
    ¬∀ (irq : Bool) (s : CamSystem Unit), CamRun irq (fun _ _ => True) s → s.NoneLost irq := by
  intro hclaim
  have hlate : (CamSystem.steps false exchangedWhileRead .init).any fun s => s.late := by
    decide +kernel
  obtain ⟨s, hs, hbad⟩ := (Option.any_eq_true _ _).mp hlate
  have hlink := (hclaim false s (CamRun.init.steps (fun _ _ => trivial) _ hs)).link
  rw [hbad] at hlink
  cases hlink

end Dvb

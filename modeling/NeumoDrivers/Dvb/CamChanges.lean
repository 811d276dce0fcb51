import NeumoDrivers.Dvb.CaSlots

/-! The CAM in a slot comes and goes (`neumo-dvb-ca-en50221.c`).

    A card reports a change of the CAM by an interrupt, or in its answer when it is polled. The thread
    of the device handles what has been reported at the start of a pass over the slot, holding the
    lock of the slot all the while; an interrupt does not wait for the lock. `CA_RESET` and a write
    hold the lock as well, but a write looks at the state of the slot before it takes it.

    A step is what happens without an interrupt in between that matters: a call of
    `camchange_irq`, a poll, an assignment, an exchange of link data with the CAM. What the card and
    the clock answer is part of the step. -/

namespace Dvb

inductive CamchangeType where | removed | inserted
  deriving DecidableEq

/-- Of `struct dvb_ca_slot` what the changes are about. -/
structure CamSlot where
  slotState : SlotState
  camchangeCount : ℕ
  camchangeType : CamchangeType
  deriving DecidableEq

def maxRxPacketsPerIteration : ℕ := 10

/-- How far a pass of `dvb_ca_en50221_thread_state_machine` has got. -/
inductive PassPc where
  | idle
  | check
  | changed
  | assign
  | count
  | dispatch
  | linkInit
  /-- `dvb_ca_en50221_poll_cam_gone`, and the state that the slot gets if the CAM is still there. -/
  | pollCamGone (still : SlotState)
  | readData (pktcount : ℕ)
  | recheck (pktcount : ℕ)
  deriving DecidableEq

/-- What `dvb_ca_en50221_read_data` does: it has no room for a packet, finds no data or fails, fails
    so that the link has to be initialised again, or reads a packet. -/
inductive ReadResult where | noRoom | nothing | linkError | packet
  deriving DecidableEq

/-- What the thread is told in a step. `left` bounds how many changes a poll leaves to the next one;
    `written` is the result of the write of `CMDREG_RS`, `moduleFree` the bit `STATUSREG_FR`. -/
structure CamAnswer where
  left : ℕ
  camReady : Bool
  opened : Bool
  expired : Bool
  parsed : Bool
  written : Bool
  moduleFree : Bool
  linked : Bool
  memory : Bool
  read : ReadResult
  deriving DecidableEq

/-- The slot and who works on it. `readying` says that `camready_irq` has found the slot waiting,
    `writing` which writes have found it running. `present` is the CAM itself, and `unreported` the
    number of its changes that a poll has not told yet. Of what has happened, `owed` notes that a
    change was reported while the slot was not in state `NONE`, and the slot was not shut down since;
    `looked` that a pass has found nothing changed since the last report or reset; and `late` that
    link data was exchanged while a shutdown was owed. -/
structure CamSystem (ι : Type) where
  slot : CamSlot
  pc : PassPc
  readying : Bool
  writing : ι → Bool
  present : Bool
  unreported : ℕ
  owed : Bool
  looked : Bool
  late : Bool

/-- The CAM is inserted or removed; `camready_irq` tests the state, and assigns it; `CA_RESET`; a write
    tests the state, and calls `dvb_ca_en50221_write_data`, which may end in a write error; the thread
    makes the next step of a pass. -/
inductive CamEvent (ι : Type) where
  | change
  | camready
  | validate
  | reset
  | checkRunning (i : ι)
  | write (i : ι) (failed : Bool)
  | thread (answer : CamAnswer)
  deriving DecidableEq

variable {ι : Type} [DecidableEq ι] (irq : Bool)

namespace CamSystem

/-- `neumo_dvb_ca_en50221_init` -/
def init : CamSystem ι where
  slot := ⟨.none, 0, .removed⟩
  pc := .idle
  readying := false
  writing := fun _ => false
  present := false
  unreported := 0
  owed := false
  looked := false
  late := false

variable (s : CamSystem ι)

def setState (state : SlotState) : CamSystem ι :=
  { s with slot := { s.slot with slotState := state } }

def goto (pc : PassPc) : CamSystem ι := { s with pc := pc }

def report : CamSystem ι :=
  { s with owed := s.owed || s.slot.slotState != .none, looked := false }

/-- Link data is read or written. -/
def linkData : CamSystem ι := { s with late := s.late || s.owed }

/-- `neumo_dvb_ca_en50221_camchange_irq` -/
def camchangeIrq (type : CamchangeType) : CamSystem ι :=
  { s.report with
    slot := { s.slot with camchangeType := type, camchangeCount := s.slot.camchangeCount + 1 } }

/-- `dvb_ca_en50221_slot_shutdown` -/
def slotShutdown : CamSystem ι := { s.setState .none with owed := false }

/-- What a poll finds inserted. -/
def presentType : CamchangeType := if s.present then .inserted else .removed

/-- A poll tells a change, if there is one to tell, and leaves others to the next poll. -/
def pollSlotStatus (left : ℕ) : Bool × CamSystem ι :=
  (decide (0 < s.unreported), { s with unreported := min left (s.unreported - 1) })

/-- `dvb_ca_en50221_check_camstatus` -/
def checkCamstatus (a : CamAnswer) : Bool × CamSystem ι :=
  if irq then (decide (s.slot.camchangeCount ≠ 0), s)
  else
    let (changed, s) := s.pollSlotStatus a.left
    if changed || (s.present != (s.slot.slotState != .none)) then
      (true, { s.report with
        slot := { s.slot with camchangeType := s.presentType, camchangeCount := 1 } })
    else if s.slot.slotState = .waitReady ∧ a.camReady then (false, s.setState .validate)
    else (false, s)

/-- `dvb_ca_en50221_poll_cam_gone`, and what the pass does when the CAM is not gone. -/
def pollCamGone (a : CamAnswer) (still : SlotState) : CamSystem ι :=
  if irq then s.setState still
  else
    let (changed, s) := s.pollSlotStatus a.left
    let s := if changed || !s.present then s.report else s
    if s.present then s.setState still else s.setState .none

/-- The CAM state machine. -/
def dispatch (a : CamAnswer) : CamSystem ι :=
  match s.slot.slotState with
  | .none | .invalid => s.goto .idle
  | .uninitialised => (s.setState .waitReady).goto .idle
  | .waitReady => if a.expired then (s.setState .invalid).goto .idle else s.goto .idle
  | .validate =>
    if ¬a.parsed then s.goto (.pollCamGone .invalid)
    else if ¬a.written then (s.setState .invalid).goto .idle
    else (s.setState .waitFr).goto .idle
  | .waitFr =>
    if a.expired then (s.setState .invalid).goto .idle
    else if a.moduleFree then (s.setState .linkInit).goto .idle
    else s.goto .idle
  | .linkInit => s.goto .linkInit
  | .running => if a.opened then s.goto (.readData 0) else s.goto .idle

/-- The next step of a pass. -/
def threadStep (a : CamAnswer) : CamSystem ι :=
  match s.pc with
  | .idle => s.goto .check
  | .check =>
    match s.checkCamstatus irq a with
    | (true, s) => s.goto .changed
    | (false, s) => { s with looked := true }.goto .dispatch
  | .changed => (if s.slot.slotState ≠ .none then s.slotShutdown else s).goto .assign
  | .assign =>
    (if s.slot.camchangeType = .inserted then s.setState .uninitialised else s).goto .count
  | .count =>
    { s with slot := { s.slot with camchangeCount := s.slot.camchangeCount - 1 } }.goto .check
  | .dispatch => s.dispatch a
  | .linkInit =>
    if ¬a.linked then s.linkData.goto (.pollCamGone .uninitialised)
    else if ¬a.memory then (s.linkData.setState .invalid).goto .idle
    else (s.linkData.setState .running).goto .idle
  | .pollCamGone still => (s.pollCamGone irq a still).goto .idle
  | .readData k =>
    match a.read with
    | .noRoom => s.goto .idle
    | .nothing => s.linkData.goto .idle
    | .linkError => (s.linkData.setState .linkInit).goto .idle
    | .packet => s.linkData.goto (.recheck k)
  | .recheck k =>
    if ¬a.opened then s.goto .idle
    else
      match s.checkCamstatus irq a with
      | (true, s) => s.goto .idle
      | (false, s) =>
        if k + 1 ≥ maxRxPacketsPerIteration then s.goto .idle else s.goto (.readData (k + 1))

/-- One step. -/
def step : CamEvent ι → Option (CamSystem ι)
  | .change =>
    let s := { s with present := !s.present }
    if irq then some (s.camchangeIrq s.presentType)
    else some { s with unreported := s.unreported + 1 }
  | .camready => some { s with readying := s.readying || s.slot.slotState = .waitReady }
  | .validate =>
    if s.readying then some { s.setState .validate with readying := false } else none
  | .reset =>
    if s.pc ≠ .idle then none
    else if s.slot.slotState = .none then some s
    else
      let s := { s.slotShutdown with looked := false }
      if irq then some (s.camchangeIrq .inserted) else some s
  | .checkRunning i =>
    some { s with writing := Function.update s.writing i (s.slot.slotState = .running) }
  | .write i failed =>
    if s.pc ≠ .idle ∨ ¬s.writing i then none
    else
      let s := { s.linkData with writing := Function.update s.writing i false }
      some (if failed then s.setState .linkInit else s)
  | .thread a => some (s.threadStep irq a)

/-- All that has been reported has been handled, and everything has been reported. -/
def Processed : Prop :=
  if irq then s.slot.camchangeCount = 0 else s.unreported = 0 ∧ s.looked = true

/-- No change is lost. -/
structure NoneLost : Prop where
  link : s.late = false
  state : s.Processed irq → (s.slot.slotState = .none ↔ s.present = false)

end CamSystem

/-- The states of the runs whose steps all meet `ok`. -/
inductive CamRun (ok : CamSystem ι → CamEvent ι → Prop) : CamSystem ι → Prop where
  | init : CamRun ok .init
  | step {s s' : CamSystem ι} {e : CamEvent ι} (run : CamRun ok s) (hok : ok s e)
      (h : s.step irq e = some s') : CamRun ok s'

end Dvb

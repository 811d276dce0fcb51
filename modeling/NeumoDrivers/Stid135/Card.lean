import Mathlib

/-! Sharing the RF inputs and tuners of a card (`stid135-fe.c`, `stid135_drv.h`).

    A card has up to two chips, four RF inputs that both chips share, and four tuners on each chip;
    tuner `i` of a chip serves RF input `i`. A demodulator uses one tuner of its own chip at a time.
    `reserveTunerAndRfIn` decides on a request and keeps the counts, `selectRfIn` then switches the
    hardware over. A request runs under the lock of the card, so it is one step. `err` stands for
    the driver calls a request makes: whether one of them reports an error, which is all that
    `select_rf_in_` looks at. -/

namespace Stid135

abbrev ChipNo := Fin 2

/-- The number of an RF input, or of a tuner of a chip. -/
abbrev RfInNo := Fin 4

/-- `struct stv_reservation_t`; a resource nobody uses has owner and config id -1. -/
structure Reservation where
  owner : ℤ
  configId : ℤ
  useCount : ℕ
  deriving DecidableEq

inductive SecVoltage where | v13 | v18 | off
  deriving DecidableEq

inductive SecTone where | on | off
  deriving DecidableEq

structure RfIn where
  controllingChip : Option ChipNo
  voltage : SecVoltage
  tone : SecTone
  secConfigured : Bool
  unicableMode : Bool
  reservation : Reservation
  deriving DecidableEq

structure Tuner where
  poweredOn : Bool
  activeRfIn : Option RfInNo
  reservation : Reservation
  deriving DecidableEq

/-- What `struct stv` keeps for one demodulator. -/
structure Stv where
  isMaster : Bool
  legacyRfIn : Bool
  activeTuner : Option RfInNo
  quattroRfInMask : UInt8
  quattroRfIn : UInt8
  deriving DecidableEq

/-- The card with its chips and the demodulators `D`. -/
structure Card (D : Type) where
  rfIns : RfInNo → RfIn
  tuners : ChipNo → RfInNo → Tuner
  demods : D → Stv

inductive MultiswitchMode where | quattro | diseqc | unicable
  deriving DecidableEq

/-- What is fixed when the demodulators are attached. -/
structure Board (D : Type) [Fintype D] where
  chip : D → ChipNo
  rfInputs : D → List ℤ
  defaultRfInput : D → ℤ
  multiswitchMode : ChipNo → MultiswitchMode
  setVoltage : ChipNo → Bool
  /-- `use_count` is an `uint32_t`. -/
  few : Fintype.card D < 2 ^ 32

inductive ReservationMode where | masterOrSlave | master | slave
  deriving DecidableEq

/-- `struct fe_rf_input_control`. -/
structure RfInputControl where
  owner : ℤ
  configId : ℤ
  unicableMode : Bool
  rfIn : ℤ
  mode : ReservationMode
  deriving DecidableEq

/-- `enum fe_ioctl_result`. -/
inductive Result where | master | slave | retry | unchanged | released | failed | einval
  deriving DecidableEq

def Result.granted (r : Result) : Bool := r = .master || r = .slave

/-- `use_count++` and `--use_count`. -/
def incr (n : ℕ) : ℕ := if n = 2 ^ 32 - 1 then 0 else n + 1

def decr (n : ℕ) : ℕ := if n = 0 then 2 ^ 32 - 1 else n - 1

/-! ### The card when attached -/

def initReservation : Reservation := ⟨-1, -1, 0⟩

def initRfIn : RfIn := ⟨none, .off, .off, false, false, initReservation⟩

def initTuner : Tuner := ⟨false, none, initReservation⟩

def Card.init (D : Type) : Card D :=
  ⟨fun _ => initRfIn, fun _ _ => initTuner, fun _ => ⟨false, false, none, 0, 0⟩⟩

/-! ### Looking up and storing -/

section
variable {D : Type} [DecidableEq D]

def Card.setRfIn (card : Card D) (i : RfInNo) (r : RfIn) : Card D :=
  { card with rfIns := Function.update card.rfIns i r }

def Card.setTuner (card : Card D) (c : ChipNo) (i : RfInNo) (t : Tuner) : Card D :=
  { card with tuners := Function.update card.tuners c (Function.update (card.tuners c) i t) }

def Card.setDemod (card : Card D) (d : D) (s : Stv) : Card D :=
  { card with demods := Function.update card.demods d s }

section
omit [DecidableEq D]
variable (card : Card D) (c : ChipNo) (i : RfInNo) (r : RfIn) (t : Tuner)

@[simp] theorem Card.setRfIn_rfIns (k : RfInNo) :
    (card.setRfIn i r).rfIns k = if k = i then r else card.rfIns k :=
  Function.update_apply ..

@[simp] theorem Card.setRfIn_tuners : (card.setRfIn i r).tuners = card.tuners := rfl

@[simp] theorem Card.setRfIn_demods : (card.setRfIn i r).demods = card.demods := rfl

@[simp] theorem Card.setTuner_rfIns : (card.setTuner c i t).rfIns = card.rfIns := rfl

@[simp] theorem Card.setTuner_tuners (c' : ChipNo) (k : RfInNo) :
    (card.setTuner c i t).tuners c' k = if c' = c ∧ k = i then t else card.tuners c' k := by
  rcases eq_or_ne c' c with rfl | hc
  · simp [Card.setTuner, Function.update_apply]
  · simp [Card.setTuner, hc]

@[simp] theorem Card.setTuner_demods : (card.setTuner c i t).demods = card.demods := rfl

end

@[simp] theorem Card.setDemod_rfIns (card : Card D) (d : D) (s : Stv) :
    (card.setDemod d s).rfIns = card.rfIns := rfl

@[simp] theorem Card.setDemod_tuners (card : Card D) (d : D) (s : Stv) :
    (card.setDemod d s).tuners = card.tuners := rfl

@[simp] theorem Card.setDemod_demods (card : Card D) (d e : D) (s : Stv) :
    (card.setDemod d s).demods e = if e = d then s else card.demods e :=
  Function.update_apply ..

variable [Fintype D]

/-- The tuner a demodulator uses. -/
def Card.tunerOf (card : Card D) (B : Board D) (d : D) : Option Tuner :=
  (card.demods d).activeTuner.map (card.tuners (B.chip d))

/-- `active_rf_in(state)`. -/
def Card.activeRfIn (card : Card D) (B : Board D) (d : D) : Option RfInNo :=
  (card.tunerOf B d).bind Tuner.activeRfIn

end

/-- The RF input with a number, if it is one of the four. -/
def rfInOf (n : ℤ) : Option RfInNo :=
  if h : 0 ≤ n ∧ n < 4 then some ⟨n.toNat, by omega⟩ else none

/-! ### Deciding on a request -/

/-- Whether the tuner asked for can be had. The sole user of a tuner may do with it what it likes;
    anybody else can only share it with the same config id. -/
def checkTuner (ic : RfInputControl) (tuner : Reservation) (sameTuner willBeMaster : Bool) :
    Except Result Bool :=
  if tuner.useCount = 1 ∧ sameTuner then .ok willBeMaster
  else if 0 < tuner.useCount then
    if ic.mode = .master then
      if tuner.configId < ic.configId then .error .retry else .error .failed
    else if tuner.configId < ic.configId then .error .retry
    else if ic.configId < tuner.configId then .error .failed
    else .ok false
  else .ok willBeMaster

/-- Whether the RF input asked for can be had. It is the use count of the tuner that is looked at,
    and first its config id; the tests for masters and slaves are the same. -/
def checkRfIn (ic : RfInputControl) (tuner rfIn : Reservation)
    (sameRfIn legacyRfIn willBeMaster : Bool) : Except Result Bool :=
  if rfIn.useCount = 1 ∧ sameRfIn then .ok willBeMaster
  else if 0 < tuner.useCount then
    if tuner.configId < ic.configId then .error .retry
    else if ic.configId < rfIn.configId ∧ ¬ legacyRfIn then .error .failed
    else if rfIn.configId ≠ ic.configId then .error .retry
    else .ok false
  else .ok willBeMaster

section
variable {D : Type} [DecidableEq D] [Fintype D]

/-- Whether a resource is in use for another owner. -/
def Reservation.usedByOther (r : Reservation) (ic : RfInputControl) : Bool :=
  0 < r.useCount ∧ r.owner ≠ ic.owner

/-- The decision: what the request fails with, or whether it is granted as master. -/
def reserveDecision (B : Board D) (card : Card D) (d : D) (ic : RfInputControl) (i : RfInNo) :
    Except Result Bool :=
  let newTuner := card.tuners (B.chip d) i
  let newRfIn := card.rfIns i
  let oldRfIn := card.activeRfIn B d
  let legacyRfIn := (card.demods d).legacyRfIn
  if (card.tunerOf B d).any fun t => t.reservation.owner ≠ ic.owner then .error .failed
  else if oldRfIn.any fun j => (card.rfIns j).reservation.owner ≠ ic.owner then .error .failed
  else if newTuner.reservation.usedByOther ic then .error .failed
  else if newRfIn.reservation.usedByOther ic then .error .failed
  else
    match checkTuner ic newTuner.reservation ((card.demods d).activeTuner = some i)
        (ic.mode ≠ .slave) with
    | .error r => .error r
    | .ok willBeMaster =>
      match checkRfIn ic newTuner.reservation newRfIn.reservation (oldRfIn = some i) legacyRfIn
          willBeMaster with
      | .error r => .error r
      | .ok willBeMaster =>
        if ¬ willBeMaster ∧ ¬ legacyRfIn ∧ ¬ newRfIn.secConfigured then .error .retry
        else if ¬ willBeMaster ∧ ic.unicableMode ∧ ¬ newRfIn.unicableMode then .error .failed
        else .ok willBeMaster

/-! ### Keeping the counts -/

/-- One user fewer, unless it stays; a resource without users has no owner. -/
def Reservation.leave (r : Reservation) (stays : Bool) : Reservation :=
  let r := if stays then r else { r with useCount := decr r.useCount }
  if r.useCount = 0 then { r with owner := -1, configId := -1 } else r

/-- One user more, unless it was one already; `free` tells whether the resource has no owner. -/
def Reservation.join (r : Reservation) (ic : RfInputControl) (stays willBeMaster : Bool)
    (free : ℤ → Bool) : Reservation :=
  let r := if willBeMaster then { r with configId := ic.configId } else r
  let r := if stays then r else { r with useCount := incr r.useCount }
  if free r.owner then { r with owner := ic.owner, configId := ic.configId } else r

def RfIn.leave (r : RfIn) (stays : Bool) : RfIn :=
  { r with reservation := r.reservation.leave stays }

def Tuner.leave (t : Tuner) (stays : Bool) : Tuner :=
  { t with reservation := t.reservation.leave stays }

/-- A master has the secondary equipment to configure first. -/
def RfIn.join (r : RfIn) (ic : RfInputControl) (stays willBeMaster : Bool) : RfIn :=
  { r with
    secConfigured := if willBeMaster then false else r.secConfigured
    reservation := r.reservation.join ic stays willBeMaster fun owner => owner = -1 }

def Tuner.join (t : Tuner) (ic : RfInputControl) (stays willBeMaster : Bool) : Tuner :=
  { t with reservation := t.reservation.join ic stays willBeMaster fun owner => owner < 0 }

/-- Give back what the demodulator uses, except what it goes on to use. -/
def releaseOld (B : Board D) (card : Card D) (d : D) (next : Option RfInNo) : Card D :=
  let c := B.chip d
  let card' :=
    match card.activeRfIn B d with
    | none => card
    | some j => card.setRfIn j ((card.rfIns j).leave (next = some j))
  match (card.demods d).activeTuner with
  | none => card'
  | some j => card'.setTuner c j ((card'.tuners c j).leave (next = some j))

/-- Make the reservation; `sameRfIn` and `sameTuner` tell what the demodulator used before. -/
def takeNew (B : Board D) (card : Card D) (d : D) (ic : RfInputControl) (i : RfInNo)
    (sameRfIn sameTuner willBeMaster : Bool) : Card D :=
  let c := B.chip d
  (card.setRfIn i ((card.rfIns i).join ic sameRfIn willBeMaster)).setTuner c i
    ((card.tuners c i).join ic sameTuner willBeMaster)

/-- `reserve_tuner_and_rf_in_`; without a request it gives back what the demodulator uses. -/
def reserveTunerAndRfIn (B : Board D) (card : Card D) (d : D) :
    Option RfInputControl → Card D × Result
  | none => (releaseOld B card d none, .released)
  | some ic =>
    match rfInOf ic.rfIn with
    | none => (card, .failed)
    | some i =>
      match reserveDecision B card d ic i with
      | .error r => (card, r)
      | .ok willBeMaster =>
        (takeNew B (releaseOld B card d (some i)) d ic i (card.activeRfIn B d = some i)
          ((card.demods d).activeTuner = some i) willBeMaster,
        if willBeMaster then .master else .slave)

/-! ### Switching over -/

/-- Tone and voltage off when the RF input has no users. -/
def RfIn.shut (r : RfIn) : RfIn :=
  if r.reservation.useCount = 0 ∧ r.controllingChip.isSome then
    { r with voltage := .off, tone := .off, controllingChip := none, secConfigured := false }
  else r

/-- Standby. -/
def Tuner.shut (t : Tuner) : Tuner := { t with poweredOn := false, activeRfIn := none }

/-- Have the RF input controlled by a chip, `c` if there is none yet. -/
def RfIn.connect (r : RfIn) (c : ChipNo) : RfIn :=
  if r.controllingChip.isSome then r
  else { r with controllingChip := some c, tone := .off, voltage := .off }

/-- Power on the tuner and bind it to RF input `i` if it is bound to none yet. -/
def Tuner.connect (t : Tuner) (i : RfInNo) : Tuner :=
  { t with poweredOn := true, activeRfIn := if t.activeRfIn.isSome then t.activeRfIn else some i }

/-- Close the RF input the demodulator used before, if nobody uses it now. -/
def closeOldRfIn (card : Card D) : Option RfInNo → Card D
  | none => card
  | some j => card.setRfIn j (card.rfIns j).shut

/-- Close the tuner it used before; then it uses none, until it has the new one. -/
def closeOldTuner (B : Board D) (card : Card D) (d : D) : Option RfInNo → Card D
  | none => card
  | some j =>
    let c := B.chip d
    let t := card.tuners c j
    if t.reservation.useCount = 0 then
      (card.setTuner c j t.shut).setDemod d { card.demods d with activeTuner := none }
    else card

/-- Connect the new tuner and RF input and let the demodulator use them. -/
def openNew (B : Board D) (card : Card D) (d : D) (i : RfInNo) : Card D :=
  let c := B.chip d
  ((card.setTuner c i ((card.tuners c i).connect i)).setRfIn i ((card.rfIns i).connect c)).setDemod d
    { card.demods d with activeTuner := some i }

/-- The number of a tuner or RF input, or -1. -/
def numberOf (o : Option RfInNo) : ℤ := o.elim (-1) fun i => (i : ℕ)

/-- The request asks for what the demodulator uses already, with the config id of its tuner. -/
def isUnchanged (B : Board D) (card : Card D) (d : D) (ic : RfInputControl) : Bool :=
  ic.rfIn = numberOf (card.activeRfIn B d) ∧ ic.rfIn = numberOf (card.demods d).activeTuner ∧
    ((card.tunerOf B d).elim (-1) fun t => t.reservation.configId) = ic.configId

/-- `stid135_select_rf_in_`. -/
def selectRfIn (B : Board D) (card : Card D) (d : D) (err : Bool) :
    Option RfInputControl → Card D × Result
  | none =>
    let oldRfIn := card.activeRfIn B d
    let oldTuner := (card.demods d).activeTuner
    let card := (reserveTunerAndRfIn B card d none).1
    let card := closeOldTuner B (closeOldRfIn card oldRfIn) d oldTuner
    (card.setDemod d ⟨false, false, none, 0, 0⟩, .released)
  | some ic =>
    if isUnchanged B card d ic then (card, .unchanged)
    else
      let oldRfIn := card.activeRfIn B d
      let oldTuner := (card.demods d).activeTuner
      let (card, result) := reserveTunerAndRfIn B card d (some ic)
      match rfInOf ic.rfIn with
      | none => (card, result)
      | some i =>
        if ¬ result.granted then (card, result)
        else
          let card := openNew B (closeOldTuner B (closeOldRfIn card oldRfIn) d oldTuner) d i
          if err then (card, .failed)
          else
            let isMaster := result = .master
            let card := card.setDemod d { card.demods d with isMaster := isMaster }
            let r := card.rfIns i
            (if isMaster then card.setRfIn i { r with unicableMode := ic.unicableMode } else card,
              result)

/-! ### Callers that never ask -/

/-- The RF input of a caller that never asks for one; in quattro mode only when voltage and tone
    are both known. -/
def legacyRfInNo (B : Board D) (card : Card D) (d : D) : Option ℤ :=
  match B.multiswitchMode (B.chip d) with
  | .quattro =>
    if (card.demods d).quattroRfInMask ≠ 3 then none
    else some (card.demods d).quattroRfIn.toNat
  | .unicable => some 3
  | .diseqc => some (B.defaultRfInput d)

/-- The request for a caller that makes none; its mode is left uninitialised. -/
def legacyControl (rfIn : ℤ) (mode : ReservationMode) : RfInputControl := ⟨-1, 1, false, rfIn, mode⟩

/-- `stid135_select_rf_in_legacy_`; the answer is `none` when it makes no request. -/
def selectRfInLegacy (B : Board D) (card : Card D) (d : D) (mode : ReservationMode) (err : Bool) :
    Card D × Option Result :=
  if (card.activeRfIn B d).isSome then (card, none)
  else
    let card := card.setDemod d { card.demods d with legacyRfIn := true }
    match legacyRfInNo B card d with
    | none => (card, none)
    | some rfIn =>
      let (card, result) := selectRfIn B card d err (some (legacyControl rfIn mode))
      (card, some result)

/-- What the callers of `stid135_select_rf_in_legacy_` get. -/
def legacyError : Option Result → ℤ
  | some .failed => -1
  | _ => 0

end

end Stid135

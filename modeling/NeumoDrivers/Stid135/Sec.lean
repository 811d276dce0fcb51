import NeumoDrivers.Stid135.Card

/-! The calls of a card (`stid135-fe.c`): requests for RF inputs, voltage, tone and DiSEqC for the
    secondary equipment, and sleep.

    Next to the card and the value it returns, a call has its events: the locks it takes and gives
    back, the chips whose registers it works on, and the DiSEqC messages it sends. The voltage is
    switched by the PCIe bridge and so is no event. `Hw` is what the hardware answers. -/

namespace Stid135

/-- `FE_UNICABLE_DISEQC_RETRY`. -/
def unicableDiseqcRetry : ℤ := 10

def Result.code : Result → ℤ
  | .master => 0
  | .slave => 1
  | .retry => 2
  | .unchanged => 3
  | .released => 4
  | .failed => -1
  | .einval => -22

inductive Event where
  | lock (c : ChipNo)
  | unlock (c : ChipNo)
  | lockCard
  | unlockCard
  | access (c : ChipNo)
  | send (c : ChipNo) (i : RfInNo) (msg : List UInt8)
  deriving DecidableEq

/-- Whether a driver call of the request for an RF input reports an error, whether one for the
    secondary equipment does, and how often a DiSEqC message has to be waited for. -/
structure Hw where
  err : Bool
  secErr : Bool
  waits : ℕ

structure Outcome (D : Type) where
  card : Card D
  ret : ℤ
  events : List Event

section
variable {D : Type} [DecidableEq D] [Fintype D]

/-! ### Selecting an RF input -/

/-- The tone of the old RF input goes off on the chip that controls it. That chip's lock is taken
    only where the own chip is not locked, and it is the own chip that `chip_chip_lock` locks. -/
def closeOldRfInEvents (B : Board D) (card : Card D) (d : D) (held : Bool) :
    Option RfInNo → List Event
  | none => []
  | some j =>
    match (card.rfIns j).controllingChip with
    | none => []
    | some c =>
      if (card.rfIns j).reservation.useCount ≠ 0 then []
      else if c ≠ B.chip d ∧ ¬ held then [.lock (B.chip d), .access c, .unlock (B.chip d)]
      else [.access c]

def closeOldTunerEvents (B : Board D) (card : Card D) (d : D) : Option RfInNo → List Event
  | none => []
  | some j =>
    if (card.tuners (B.chip d) j).reservation.useCount = 0 then [.access (B.chip d)] else []

/-- Tuner on, DiSEqC block set up, multiplexer switched. -/
def openNewEvents (B : Board D) (card : Card D) (d : D) (i : RfInNo) : List Event :=
  (if (card.tuners (B.chip d) i).poweredOn then [] else [.access (B.chip d)]) ++
    (if (card.rfIns i).controllingChip.isSome then [] else [.access (B.chip d)]) ++
    [.access (B.chip d)]

/-- What `stid135_select_rf_in_` does next to `selectRfIn`; `held` tells whether the caller has
    locked the chip. -/
def selectRfInEvents (B : Board D) (card : Card D) (d : D) (held : Bool) :
    Option RfInputControl → List Event
  | none =>
    let oldRfIn := card.activeRfIn B d
    let oldTuner := (card.demods d).activeTuner
    let card := (reserveTunerAndRfIn B card d none).1
    closeOldRfInEvents B card d held oldRfIn ++
      closeOldTunerEvents B (closeOldRfIn card oldRfIn) d oldTuner
  | some ic =>
    if isUnchanged B card d ic then []
    else
      let oldRfIn := card.activeRfIn B d
      let oldTuner := (card.demods d).activeTuner
      let (card, result) := reserveTunerAndRfIn B card d (some ic)
      match rfInOf ic.rfIn with
      | none => []
      | some i =>
        if ¬ result.granted then []
        else
          closeOldRfInEvents B card d held oldRfIn ++
            closeOldTunerEvents B (closeOldRfIn card oldRfIn) d oldTuner ++
            openNewEvents B (closeOldTuner B (closeOldRfIn card oldRfIn) d oldTuner) d i

/-- What `stid135_select_rf_in_legacy_` does next to `selectRfInLegacy`. -/
def selectRfInLegacyEvents (B : Board D) (card : Card D) (d : D) (mode : ReservationMode)
    (held : Bool) : List Event :=
  if (card.activeRfIn B d).isSome then []
  else
    let card := card.setDemod d { card.demods d with legacyRfIn := true }
    match legacyRfInNo B card d with
    | none => []
    | some rfIn => selectRfInEvents B card d held (some (legacyControl rfIn mode))

/-- Events under the lock of the card, and of a chip. -/
def onCard (events : List Event) : List Event := .lockCard :: events ++ [.unlockCard]

def onChip (c : ChipNo) (events : List Event) : List Event := .lock c :: events ++ [.unlock c]

/-- How `stid135_set_voltage`, `stid135_set_tone` and `stid135_send_burst` select an RF input. -/
def legacyOnChip (B : Board D) (card : Card D) (d : D) (mode : ReservationMode) : List Event :=
  if (card.activeRfIn B d).isSome then []
  else onChip (B.chip d) (onCard (selectRfInLegacyEvents B card d mode true))

/-! ### The calls -/

/-- `stid135_set_rf_input`. -/
def setRfInput (B : Board D) (card : Card D) (d : D) (ic : RfInputControl) (hw : Hw) : Outcome D :=
  if ic.rfIn ∈ B.rfInputs d then
    let card := card.setDemod d { card.demods d with legacyRfIn := ic.configId < 0 }
    let (card', result) := selectRfIn B card d hw.err (some ic)
    ⟨card', result.code, onChip (B.chip d) (onCard (selectRfInEvents B card d true (some ic)))⟩
  else ⟨card, Result.einval.code, onChip (B.chip d) []⟩

/-- `stid135_tune`, as far as it selects an RF input. -/
def tune (B : Board D) (card : Card D) (d : D) (mode : ReservationMode) (hw : Hw) : Outcome D :=
  let (card', result) := selectRfInLegacy B card d mode hw.err
  ⟨card', legacyError result,
    onChip (B.chip d)
      (if (card.activeRfIn B d).isSome then []
      else onCard (selectRfInLegacyEvents B card d mode true))⟩

/-- The bit of the RF input in quattro mode that a voltage or tone gives, noted once. -/
def noteQuattro (B : Board D) (card : Card D) (d : D) (bit : UInt8) (set : Bool) : Card D :=
  let s := card.demods d
  if B.multiswitchMode (B.chip d) = .quattro ∧ s.quattroRfInMask &&& bit = 0 then
    card.setDemod d
      { s with
        quattroRfInMask := s.quattroRfInMask ||| bit
        quattroRfIn := if set then s.quattroRfIn ||| bit else s.quattroRfIn &&& ~~~ bit }
  else card

/-- Whether a demodulator may switch the voltage: the master, the last user unless it is off, and
    everybody in unicable mode unless it is off. -/
def maySetVoltage (s : Stv) (r : RfIn) (voltage : SecVoltage) : Bool :=
  s.isMaster ∨ (r.reservation.useCount = 1 ∧ voltage ≠ .off) ∨ (r.unicableMode ∧ voltage ≠ .off)

/-- `stid135_set_voltage` from where the RF input is known. -/
def applyVoltage (B : Board D) (card : Card D) (d : D) (voltage : SecVoltage) (i : RfInNo) :
    Outcome D :=
  let s := card.demods d
  let r := card.rfIns i
  if ¬ maySetVoltage s r voltage then
    ⟨card, if r.voltage ≠ voltage ∧ voltage ≠ .off then -1 else 0, []⟩
  else if ¬ B.setVoltage (B.chip d) then ⟨card, 0, []⟩
  else if r.unicableMode ∧ r.voltage = .v18 ∧ voltage = .v18 then ⟨card, unicableDiseqcRetry, []⟩
  else if 1 < r.reservation.useCount ∧ ¬ s.legacyRfIn then ⟨card, 0, onCard []⟩
  else ⟨card.setRfIn i { r with voltage := voltage }, 0, onCard []⟩

/-- `stid135_set_voltage`. -/
def setVoltage (B : Board D) (card : Card D) (d : D) (voltage : SecVoltage)
    (mode : ReservationMode) (hw : Hw) : Outcome D :=
  let card := noteQuattro B card d 2 (voltage = .v18)
  let legacy := B.setVoltage (B.chip d) ∧ card.activeRfIn B d = none
  if legacy ∧ voltage = .off then ⟨card, 0, []⟩
  else
    let events := if legacy then legacyOnChip B card d mode else []
    let card := if legacy then (selectRfInLegacy B card d mode hw.err).1 else card
    match card.activeRfIn B d with
    | none => ⟨card, -1, events⟩
    | some i =>
      let out := applyVoltage B card d voltage i
      { out with events := events ++ out.events }

/-- `stid135_set_tone` from where the RF input is known. When no chip controls it the function
    returns without giving back the lock. -/
def applyTone (B : Board D) (card : Card D) (d : D) (tone : SecTone) (i : RfInNo) (hw : Hw) :
    Outcome D :=
  let r := card.rfIns i
  if ¬ (card.demods d).isMaster then ⟨card, if r.tone ≠ tone then -1 else 0, []⟩
  else
    match r.controllingChip with
    | none => ⟨card, -1, [.lock (B.chip d)]⟩
    | some c =>
      ⟨card.setRfIn i { r with tone := tone }, if hw.secErr then -1 else 0,
        onChip (B.chip d) [.access c]⟩

/-- `stid135_set_tone`. -/
def setTone (B : Board D) (card : Card D) (d : D) (tone : SecTone) (mode : ReservationMode)
    (hw : Hw) : Outcome D :=
  let card := noteQuattro B card d 1 (tone = .on)
  let events := legacyOnChip B card d mode
  let card := (selectRfInLegacy B card d mode hw.err).1
  match card.activeRfIn B d with
  | none => ⟨card, -1, events⟩
  | some i =>
    let out := applyTone B card d tone i hw
    { out with events := events ++ out.events }

/-- `fe_stid135_diseqc_send`; `state_chip_sleep` gives back the own chip's lock for a while. -/
def diseqcSendEvents (own c : ChipNo) (i : RfInNo) (msg : List UInt8) : ℕ → List Event
  | 0 => [.access c, .send c i msg]
  | n + 1 => diseqcSendEvents own c i msg n ++ [.unlock own, .lock own, .access c]

/-- `stid135_send_long_master_cmd_` from where the RF input is known. -/
def applyMasterCmd (B : Board D) (card : Card D) (d : D) (msg : List UInt8) (i : RfInNo) (hw : Hw)
    (legacyErr : ℤ) : ℤ × List Event :=
  let s := card.demods d
  let r := card.rfIns i
  if ¬ s.isMaster ∧ ¬ r.unicableMode then (0, [])
  else
    match r.controllingChip with
    | none => (-1, [])
    | some c =>
      if r.secConfigured ∧ ¬ s.legacyRfIn ∧ ¬ s.isMaster ∧ ¬ r.unicableMode then (0, [])
      else
        (if legacyErr ≠ 0 ∨ hw.secErr then -1 else 0,
          .access c :: diseqcSendEvents (B.chip d) c i msg hw.waits)

/-- `stid135_send_long_master_cmd`. -/
def sendLongMasterCmd (B : Board D) (card : Card D) (d : D) (msg : List UInt8)
    (mode : ReservationMode) (hw : Hw) : Outcome D :=
  let c := B.chip d
  if B.multiswitchMode c = .quattro then ⟨card, -1, onChip c []⟩
  else
    let events := if (card.activeRfIn B d).isSome then []
      else onCard (selectRfInLegacyEvents B card d mode true)
    let (card, result) := selectRfInLegacy B card d mode hw.err
    match card.activeRfIn B d with
    | none => ⟨card, -1, onChip c events⟩
    | some i =>
      let (ret, sent) := applyMasterCmd B card d msg i hw (legacyError result)
      ⟨card, ret, onChip c (events ++ sent)⟩

/-- `stid135_recv_slave_reply`; it selects an RF input before it locks the chip. -/
def recvSlaveReply (B : Board D) (card : Card D) (d : D) (mode : ReservationMode) (hw : Hw) :
    Outcome D :=
  let c := B.chip d
  if B.multiswitchMode c = .quattro then ⟨card, 0, []⟩
  else
    let events := if (card.activeRfIn B d).isSome then []
      else onCard (selectRfInLegacyEvents B card d mode false)
    let (card, result) := selectRfInLegacy B card d mode hw.err
    match card.activeRfIn B d with
    | none => ⟨card, -1, events⟩
    | some i =>
      if (card.rfIns i).secConfigured ∧ ¬ (card.demods d).legacyRfIn then
        ⟨card, legacyError result, events ++ onChip c (onCard [])⟩
      else ⟨card, if hw.secErr then -1 else 0, events ++ onChip c (onCard [] ++ [.access c])⟩

/-- `stid135_send_burst`. -/
def sendBurst (B : Board D) (card : Card D) (d : D) (mode : ReservationMode) (hw : Hw) :
    Outcome D :=
  if B.multiswitchMode (B.chip d) = .quattro then ⟨card, -1, []⟩
  else
    let events := legacyOnChip B card d mode
    let (card, result) := selectRfInLegacy B card d mode hw.err
    match card.activeRfIn B d with
    | none => ⟨card, -1, events⟩
    | some _ => ⟨card, if (card.demods d).isMaster then legacyError result else 0, events⟩

/-- `stid135_set_sec_ready`; also what a spectrum or constellation scan does first. -/
def setSecReady (B : Board D) (card : Card D) (d : D) : Outcome D :=
  match card.activeRfIn B d with
  | none => ⟨card, -1, onChip (B.chip d) []⟩
  | some i =>
    ⟨card.setRfIn i { card.rfIns i with secConfigured := true }, 0, onChip (B.chip d) (onCard [])⟩

/-- `stid135_sleep`. -/
def sleep (B : Board D) (card : Card D) (d : D) (hw : Hw) : Outcome D :=
  if (card.activeRfIn B d).isSome then
    ⟨(selectRfIn B card d hw.err none).1, 0,
      onChip (B.chip d) (onCard (selectRfInEvents B card d true none))⟩
  else ⟨card, 0, []⟩

/-! ### Runs -/

/-- What a demodulator can be called with. -/
inductive Call where
  | setRfInput (ic : RfInputControl)
  | tune (mode : ReservationMode)
  | setVoltage (voltage : SecVoltage) (mode : ReservationMode)
  | setTone (tone : SecTone) (mode : ReservationMode)
  | sendLongMasterCmd (msg : List UInt8) (mode : ReservationMode)
  | recvSlaveReply (mode : ReservationMode)
  | sendBurst (mode : ReservationMode)
  | setSecReady
  | sleep

/-- One call on a demodulator. -/
def step (B : Board D) (card : Card D) (d : D) (hw : Hw) : Call → Outcome D
  | .setRfInput ic => setRfInput B card d ic hw
  | .tune mode => tune B card d mode hw
  | .setVoltage voltage mode => setVoltage B card d voltage mode hw
  | .setTone tone mode => setTone B card d tone mode hw
  | .sendLongMasterCmd msg mode => sendLongMasterCmd B card d msg mode hw
  | .recvSlaveReply mode => recvSlaveReply B card d mode hw
  | .sendBurst mode => sendBurst B card d mode hw
  | .setSecReady => setSecReady B card d
  | .sleep => sleep B card d hw

/-- The states that any calls in any order lead to. -/
inductive Reachable (B : Board D) : Card D → Prop where
  | init : Reachable B (Card.init D)
  | call {card : Card D} (d : D) (hw : Hw) (call : Call) :
      Reachable B card → Reachable B (step B card d hw call).card

end

end Stid135

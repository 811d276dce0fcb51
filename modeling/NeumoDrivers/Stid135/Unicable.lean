import NeumoDrivers.Stid135.Masters

/-! Raising the voltage on a unicable bus (`stid135_set_voltage`).

    The recorded voltage is tested before the card is locked and written after, so a call has two
    turns, and the calls of the demodulators on one RF input interleave between them. -/

namespace Stid135
open Function

variable {D : Type} [DecidableEq D] [Fintype D] {B : Board D} {card : Card D} {d e : D}
variable {i : RfInNo}

/-! ### The two turns of a call -/

/-- What `stid135_set_voltage` returns without locking the card, if it does. -/
def voltageTest (B : Board D) (card : Card D) (d : D) (voltage : SecVoltage) (i : RfInNo) :
    Option ℤ :=
  let r := card.rfIns i
  if ¬ maySetVoltage (card.demods d) r voltage then
    some (if r.voltage ≠ voltage ∧ voltage ≠ .off then -1 else 0)
  else if ¬ B.setVoltage (B.chip d) then some 0
  else if r.unicableMode ∧ r.voltage = .v18 ∧ voltage = .v18 then some unicableDiseqcRetry
  else none

/-- Whether the voltage is recorded under the lock: not while others use the RF input, except for a
    caller that never asked for it. -/
def recordsVoltage (card : Card D) (d : D) (i : RfInNo) : Bool :=
  ¬ (1 < (card.rfIns i).reservation.useCount ∧ ¬ (card.demods d).legacyRfIn)

/-- What happens under the lock; the call then returns 0. -/
def voltageRecord (card : Card D) (d : D) (voltage : SecVoltage) (i : RfInNo) : Card D :=
  if recordsVoltage card d i then card.setRfIn i { card.rfIns i with voltage := voltage } else card

omit [DecidableEq D] in
/-- A call that nothing comes between. -/
theorem applyVoltage_eq (voltage : SecVoltage) :
    applyVoltage B card d voltage i =
      match voltageTest B card d voltage i with
      | some ret => ⟨card, ret, []⟩
      | none => ⟨voltageRecord card d voltage i, 0, onCard []⟩ := by
  rw [applyVoltage, voltageTest]
  split
  · rfl
  · split
    · rfl
    · split
      · rfl
      · split
        · rename_i hskip
          have hrec : recordsVoltage card d i = false := decide_eq_false (not_not_intro hskip)
          rw [voltageRecord, hrec]
          rfl
        · rename_i hskip
          have hrec : recordsVoltage card d i = true := decide_eq_true hskip
          rw [voltageRecord, hrec]
          rfl

/-! ### Interleaved calls -/

inductive Turn where | test (voltage : SecVoltage) | record

/-- An RF input and the calls of its users: the voltage a demodulator has still to record, who
    recorded the voltage last, and who was told that it raised the voltage and has not lowered it
    since. -/
structure Bus (D : Type) where
  card : Card D
  pending : D → Option SecVoltage
  setter : Option D
  raised : D → Bool

/-- A call of the demodulator for a voltage returns. -/
def told (raised : D → Bool) (d : D) (voltage : SecVoltage) (ret : ℤ) : D → Bool :=
  match voltage with
  | .v18 => if ret = 0 then update raised d true else raised
  | .v13 => update raised d false
  | .off => raised

def Bus.next (B : Board D) (i : RfInNo) (bus : Bus D) (d : D) : Turn → Bus D
  | .test voltage =>
    let card := noteQuattro B bus.card d 2 (voltage = .v18)
    match voltageTest B card d voltage i with
    | some ret => { bus with card := card, raised := told bus.raised d voltage ret }
    | none => { bus with card := card, pending := update bus.pending d (some voltage) }
  | .record =>
    match bus.pending d with
    | none => bus
    | some voltage =>
      ⟨voltageRecord bus.card d voltage i, update bus.pending d none,
        if recordsVoltage bus.card d i then some d else bus.setter, told bus.raised d voltage 0⟩

/-- The turn that a demodulator can take: one call at a time. -/
def Bus.enabled (bus : Bus D) (d : D) : Turn → Bool
  | .test _ => (bus.pending d).isNone
  | .record => (bus.pending d).isSome

/-- A call for 18 V returns 0 in this turn. -/
def Bus.Raises (B : Board D) (i : RfInNo) (bus : Bus D) (d : D) : Turn → Prop
  | .test voltage => voltage = .v18 ∧
      voltageTest B (noteQuattro B bus.card d 2 true) d .v18 i = some 0
  | .record => bus.pending d = some .v18

/-- The calls of the users of an RF input in unicable mode in any order, in turns that are `Good`. -/
inductive BusRun (B : Board D) (i : RfInNo) (Good : Bus D → D → Turn → Prop) : Bus D → Prop where
  | start {card : Card D} : Reachable B card → (card.rfIns i).unicableMode = true →
      BusRun B i Good ⟨card, fun _ => none, none, fun _ => false⟩
  | turn {bus : Bus D} (d : D) (t : Turn) : BusRun B i Good bus →
      bus.card.activeRfIn B d = some i → bus.enabled d t = true → Good bus d t →
      BusRun B i Good (bus.next B i d t)

/-! ### When the voltage excludes the others -/

variable {bus : Bus D}

/-- The chip can switch the voltage; 18 V is recorded, and not over another one's 18 V that came
    after the test; and what is recorded over 18 V is the 13 V of who recorded them. -/
def Recorded (B : Board D) (i : RfInNo) (bus : Bus D) (d : D) : Turn → Prop
  | .test voltage => voltage = .v18 → B.setVoltage (B.chip d) = true
  | .record => ∀ voltage, bus.pending d = some voltage →
      (voltage = .v18 → recordsVoltage bus.card d i = true) ∧
        (recordsVoltage bus.card d i = true → (bus.card.rfIns i).voltage = .v18 →
          voltage ≠ .off ∧ ∀ e, bus.setter = some e → e = d)

/-- Who has raised the voltage is the one who recorded it. -/
structure Bus.Held (i : RfInNo) (bus : Bus D) : Prop where
  unicable : (bus.card.rfIns i).unicableMode = true
  holder : ∀ d, bus.raised d = true → (bus.card.rfIns i).voltage = .v18 ∧ bus.setter = some d

theorem noteQuattro_rfIns (bit : UInt8) (set : Bool) :
    (noteQuattro B card d bit set).rfIns = card.rfIns := by
  rw [noteQuattro]
  split <;> rfl

omit [DecidableEq D] in
/-- In unicable mode a test is passed unless the voltage is raised. -/
theorem voltageTest_v18 (huni : (card.rfIns i).unicableMode = true)
    (hset : B.setVoltage (B.chip d) = true) :
    voltageTest B card d .v18 i =
      if (card.rfIns i).voltage = .v18 then some unicableDiseqcRetry else none := by
  have hmay : maySetVoltage (card.demods d) (card.rfIns i) .v18 = true := by
    simp [maySetVoltage, huni]
  simp [voltageTest, hmay, hset, huni]

omit [Fintype D] in
theorem told_other {raised : D → Bool} {voltage : SecVoltage} {ret : ℤ} (he : e ≠ d) :
    told raised d voltage ret e = raised e := by
  cases voltage with
  | v18 =>
    simp only [told]
    split
    · exact update_of_ne he ..
    · rfl
  | v13 => exact update_of_ne he ..
  | off => rfl

omit [Fintype D] in
/-- Only 18 V raise the voltage. -/
theorem told_self {raised : D → Bool} {voltage : SecVoltage} {ret : ℤ}
    (h : told raised d voltage ret d = true) :
    voltage = .v18 ∧ ret = 0 ∨ raised d = true ∧ voltage ≠ .v13 := by
  cases voltage with
  | v18 =>
    simp only [told] at h
    split at h
    · rename_i hret
      exact Or.inl ⟨rfl, hret⟩
    · exact Or.inr ⟨h, by rintro ⟨⟩⟩
  | v13 =>
    rw [told, update_self] at h
    cases h
  | off => exact Or.inr ⟨h, by rintro ⟨⟩⟩

/-- A test that is answered at once raises nothing. -/
theorem Bus.Held.test (h : bus.Held i) (voltage : SecVoltage)
    (hgood : Recorded B i bus d (.test voltage)) : (bus.next B i d (.test voltage)).Held i := by
  have hrf := @noteQuattro_rfIns _ _ _ B bus.card d 2 (voltage = .v18)
  rw [Bus.next]
  generalize noteQuattro B bus.card d 2 (voltage = .v18) = card at hrf
  split
  · rename_i ret htest
    refine ⟨by rw [hrf]; exact h.unicable, fun e he => ?_⟩
    rw [hrf]
    rcases eq_or_ne e d with rfl | hne
    · rcases told_self he with ⟨rfl, rfl⟩ | ⟨hold, _⟩
      · rw [voltageTest_v18 (by rw [hrf]; exact h.unicable) (hgood rfl)] at htest
        split at htest
        · cases htest
        · cases htest
      · exact h.holder e hold
    · exact h.holder e ((told_other hne).symm.trans he)
  · refine ⟨by rw [hrf]; exact h.unicable, fun e he => ?_⟩
    rw [hrf]
    exact h.holder e he

theorem Bus.Held.record (h : bus.Held i) (hgood : Recorded B i bus d .record) :
    (bus.next B i d .record).Held i := by
  rw [Bus.next]
  rcases hpend : bus.pending d with _ | voltage
  · exact h
  obtain ⟨hraise, hover⟩ := hgood voltage hpend
  dsimp only
  rcases hrec : recordsVoltage bus.card d i with _ | _
  · have hlow : voltage ≠ .v18 := by
      rintro rfl
      rw [hraise rfl] at hrec
      cases hrec
    have hcard : voltageRecord bus.card d voltage i = bus.card := by
      rw [voltageRecord, hrec]
      rfl
    rw [hcard]
    refine ⟨h.unicable, fun e he => ?_⟩
    rcases eq_or_ne e d with rfl | hne
    · rcases told_self he with ⟨rfl, _⟩ | ⟨hold, _⟩
      · exact absurd rfl hlow
      · exact h.holder e hold
    · exact h.holder e ((told_other hne).symm.trans he)
  · have hcard : voltageRecord bus.card d voltage i =
        bus.card.setRfIn i { bus.card.rfIns i with voltage := voltage } := by
      rw [voltageRecord, hrec]
      rfl
    rw [hcard]
    refine ⟨by simpa using h.unicable, fun e he => ?_⟩
    rcases eq_or_ne e d with rfl | hne
    · rcases told_self he with ⟨rfl, _⟩ | ⟨hold, hnot⟩
      · exact ⟨by simp, rfl⟩
      · have hoff := (hover hrec (h.holder e hold).1).1
        cases voltage with
        | v18 => exact ⟨by simp, rfl⟩
        | v13 => exact absurd rfl hnot
        | off => exact absurd rfl hoff
    · obtain ⟨hv, hset⟩ := h.holder e ((told_other hne).symm.trans he)
      exact absurd ((hover hrec hv).2 e hset) hne

theorem BusRun.held (h : BusRun B i (Recorded B i) bus) : bus.Held i := by
  induction h with
  | start _ huni => exact ⟨huni, by rintro d ⟨⟩⟩
  | turn d t _ _ _ hgood ih =>
    cases t with
    | test voltage => exact ih.test voltage hgood
    | record => exact ih.record hgood

/-- Where 18 V are always recorded, and lowered by who recorded them, nobody is told that it raised
    the voltage while another one has. -/
theorem unicable_exclusion (h : BusRun B i (Recorded B i) bus) {t : Turn}
    (hgood : Recorded B i bus d t) (hraises : bus.Raises B i d t) (he : e ≠ d) :
    bus.raised e = false := by
  have hheld := h.held
  by_contra hraised
  rw [Bool.not_eq_false] at hraised
  obtain ⟨hv, hset⟩ := hheld.holder e hraised
  cases t with
  | test voltage =>
    obtain ⟨rfl, htest⟩ := hraises
    have hrf := @noteQuattro_rfIns _ _ _ B bus.card d 2 true
    rw [voltageTest_v18 (by rw [hrf]; exact hheld.unicable) (hgood rfl), hrf, if_pos hv] at htest
    cases htest
  | record =>
    obtain ⟨hraise, hover⟩ := hgood .v18 hraises
    exact he ((hover (hraise rfl) hv).2 e hset)

/-- Owner 7 asks for RF input 0 in unicable mode, to be master if possible. -/
def askUnicable : Call := .setRfInput ⟨7, 1, true, 0, .masterOrSlave⟩

/-- A user alone on the bus is told that it raised the voltage. -/
theorem unicable_exclusion_twin :
    let card := (step twinBoard (Card.init Bool) false goodHw askUnicable).card
    let bus : Bus Bool := ⟨card, fun _ => none, none, fun _ => false⟩
    (bus.next twinBoard 0 false (.test .v18)).raised true = false := by
  intro card bus
  have hreach : Reachable twinBoard card := .call false goodHw askUnicable .init
  have hrun : BusRun twinBoard 0 (Recorded twinBoard 0) bus := .start hreach (by decide)
  have htest : BusRun twinBoard 0 (Recorded twinBoard 0) (bus.next twinBoard 0 false (.test .v18)) :=
    .turn false (.test .v18) hrun (by decide) (by decide) (fun _ => by decide)
  refine @unicable_exclusion _ _ _ _ false true 0 _ htest .record ?_ rfl (by decide)
  intro voltage _
  exact ⟨fun _ => by decide, fun _ hv => absurd hv (by decide)⟩

/-- Of two users that asked for the RF input neither call is recorded, and both return 0. -/
theorem unicable_shared : ¬ ∀ (bus : Bus Bool), BusRun twinBoard 0 (fun _ _ _ => True) bus →
    ∀ (d e : Bool) (t : Turn), bus.card.activeRfIn twinBoard d = some 0 →
      bus.enabled d t = true → bus.Raises twinBoard 0 d t → e ≠ d → bus.raised e = false := by
  intro h
  have hreach : Reachable twinBoard _ :=
    .call true goodHw (.setRfInput ⟨7, 1, true, 0, .slave⟩)
      (.call false goodHw .setSecReady (.call false goodHw askUnicable .init))
  have hstart : BusRun twinBoard 0 (fun _ _ _ => True) _ := .start hreach (by decide)
  have hfirst := (hstart.turn false (.test .v18) (by decide) (by decide) trivial).turn false .record
    (by decide) (by decide) trivial
  have hsecond := hfirst.turn true (.test .v18) (by decide) (by decide) trivial
  exact absurd (h _ hsecond true false .record (by decide) (by decide) rfl (by decide)) (by decide)

end Stid135

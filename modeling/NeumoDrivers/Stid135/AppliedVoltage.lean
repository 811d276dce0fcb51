import NeumoDrivers.Stid135.LnbPower
import NeumoDrivers.Stid135.Refusals

/-! Whether a voltage that was asked for is there when the call returns (`stid135_set_voltage`).

    Next to the card goes the `Power` of its RF inputs, which is what `chip->set_voltage` last switched
    each of them to. A card records no voltage that it did not apply. But the call returns 0 for a
    caller that may switch the voltage also where it leaves the voltage alone: when others use the RF
    input, and when the chip of the caller cannot switch voltages. -/

namespace Stid135
open Function

variable {D : Type} [DecidableEq D] [Fintype D] {B : Board D} {card card' : Card D} {d e : D}
variable {ic : RfInputControl} {i k : RfInNo} {m err : Bool} {mode : ReservationMode} {hw : Hw}
variable {voltage : SecVoltage}

/-- The voltage that each RF input was last switched to. -/
abbrev Power := RfInNo → SecVoltage

variable {power power' : Power}

/-! ### What is switched -/

/-- Voltage off when the old RF input has no users; the chip that controls it does that, if it can. -/
def closeOldRfInPower (B : Board D) (card : Card D) (power : Power) : Option RfInNo → Power
  | none => power
  | some j =>
    if (card.rfIns j).reservation.useCount = 0 then
      match (card.rfIns j).controllingChip with
      | none => power
      | some c => if B.setVoltage c then update power j .off else power
    else power

/-- What `stid135_select_rf_in_` switches next to `selectRfIn`. -/
def selectRfInPower (B : Board D) (card : Card D) (d : D) (power : Power) :
    Option RfInputControl → Power
  | none => closeOldRfInPower B (reserveTunerAndRfIn B card d none).1 power (card.activeRfIn B d)
  | some ic =>
    if isUnchanged B card d ic then power
    else
      let (card', result) := reserveTunerAndRfIn B card d (some ic)
      match rfInOf ic.rfIn with
      | none => power
      | some _ =>
        if ¬ result.granted then power
        else closeOldRfInPower B card' power (card.activeRfIn B d)

/-- What the request in a call switches, after the flags it notes before. -/
def askedPower (B : Board D) (d : D) (power : Power) : Card D × Option RfInputControl → Power
  | (_, none) => power
  | (card, some ic) => selectRfInPower B card d power (some ic)

/-- What `stid135_set_voltage` switches from where the RF input is known. -/
def applyVoltagePower (B : Board D) (card : Card D) (power : Power) (d : D) (voltage : SecVoltage)
    (i : RfInNo) : Power :=
  match voltageTest B card d voltage i with
  | some _ => power
  | none => if recordsVoltage card d i then update power i voltage else power

/-- What a call switches. -/
def Call.switches (B : Board D) (card : Card D) (power : Power) (d : D) (err : Bool) : Call → Power
  | .setVoltage voltage mode =>
    let asked := (Call.setVoltage voltage mode).ask B card d
    let power := askedPower B d power asked
    let card := (answerTo B d err asked).1
    match card.activeRfIn B d with
    | none => power
    | some i => applyVoltagePower B card power d voltage i
  | .sleep => if (card.activeRfIn B d).isSome then selectRfInPower B card d power none else power
  | call => askedPower B d power (call.ask B card d)

/-- The states that any calls in any order lead to, with the voltages of the RF inputs; what these
    were before the card was attached is not known. -/
inductive PowerRun (B : Board D) : Card D → Power → Prop where
  | init (power : Power) : PowerRun B (Card.init D) power
  | call {card : Card D} {power : Power} (d : D) (hw : Hw) (call : Call) : PowerRun B card power →
      PowerRun B (step B card d hw call).card (call.switches B card power d hw.err)

theorem PowerRun.reachable (h : PowerRun B card power) : Reachable B card := by
  induction h with
  | init => exact .init
  | call d hw call _ ih => exact .call d hw call ih

/-! ### What is recorded was applied -/

/-- A voltage that is recorded is the one the RF input was switched to. -/
def Powered (card : Card D) (power : Power) : Prop :=
  ∀ k, (card.rfIns k).voltage ≠ .off → power k = (card.rfIns k).voltage

omit [DecidableEq D] [Fintype D] in
/-- Where the voltages recorded stay as they are or go off, what is recorded was applied. -/
theorem Powered.lower (h : Powered card power)
    (hlow : ∀ k, (card'.rfIns k).voltage = (card.rfIns k).voltage ∨ (card'.rfIns k).voltage = .off) :
    Powered card' power := by
  intro k hon
  rcases hlow k with heq | hoff
  · rw [heq] at hon ⊢
    exact h k hon
  · exact absurd hoff hon

omit [DecidableEq D] in
/-- Only an RF input that is closed is switched off. -/
theorem closeOldRfInPower_eq {j : RfInNo}
    (hopen : k = j → ¬((card.rfIns j).reservation.useCount = 0 ∧
      (card.rfIns j).controllingChip.isSome = true)) :
    closeOldRfInPower B card power (some j) k = power k := by
  rw [closeOldRfInPower]
  split
  · rename_i hzero
    cases hchip : (card.rfIns j).controllingChip with
    | none => rfl
    | some c =>
      have hk : k ≠ j := fun hk => hopen hk ⟨hzero, by rw [hchip]; rfl⟩
      dsimp only
      split
      · exact update_of_ne hk ..
      · rfl
  · rfl

omit [DecidableEq D] in
theorem Powered.closeOldRfIn (h : Powered card power) (o : Option RfInNo) :
    Powered (closeOldRfIn card o) (closeOldRfInPower B card power o) := by
  cases o with
  | none => exact h
  | some j =>
    intro k hon
    rw [Stid135.closeOldRfIn, Card.setRfIn_rfIns] at hon ⊢
    by_cases hclosed : k = j ∧ (card.rfIns j).reservation.useCount = 0 ∧
        (card.rfIns j).controllingChip.isSome = true
    · rw [if_pos hclosed.1, RfIn.shut, if_pos hclosed.2] at hon
      exact absurd rfl hon
    · have hsame : (if k = j then (card.rfIns j).shut else card.rfIns k) = card.rfIns k := by
        split
        · rename_i hk
          subst hk
          exact if_neg fun hshut => hclosed ⟨rfl, hshut⟩
        · rfl
      rw [hsame] at hon ⊢
      rw [closeOldRfInPower_eq fun hk hshut => hclosed ⟨hk, hshut⟩]
      exact h k hon

omit [DecidableEq D] in
theorem reserve_voltage (request : Option RfInputControl) :
    ((reserveTunerAndRfIn B card d request).1.rfIns k).voltage = (card.rfIns k).voltage := by
  have hrelease : ∀ next, ((releaseOld B card d next).rfIns k).voltage = (card.rfIns k).voltage := by
    intro next
    have hleft : ∀ o : Option RfInNo, ((match o with
        | none => card
        | some j => card.setRfIn j ((card.rfIns j).leave (next = some j))).rfIns k).voltage =
          (card.rfIns k).voltage := by
      intro o
      cases o with
      | none => rfl
      | some j =>
        simp only [Card.setRfIn_rfIns]
        split
        · rename_i hk
          rw [hk]
          rfl
        · rfl
    unfold releaseOld
    dsimp only
    split
    · exact hleft _
    · exact hleft _
  cases request with
  | none => exact hrelease none
  | some ic =>
    rw [reserveTunerAndRfIn]
    split
    · rfl
    · split
      · rfl
      · rw [takeNew, Card.setTuner_rfIns, Card.setRfIn_rfIns]
        split
        · rename_i hk
          subst hk
          exact hrelease _
        · exact hrelease _

theorem openNew_voltage : ((openNew B card d i).rfIns k).voltage = (card.rfIns k).voltage ∨
    ((openNew B card d i).rfIns k).voltage = .off := by
  simp only [openNew, Card.setDemod_rfIns, Card.setRfIn_rfIns]
  split
  · rename_i hk
    subst hk
    rw [RfIn.connect]
    split
    · exact Or.inl rfl
    · exact Or.inr rfl
  · exact Or.inl rfl

/-- A request keeps what is recorded applied, whatever it is answered with. -/
theorem Powered.selectRfIn (h : Powered card power) (request : Option RfInputControl) :
    Powered (selectRfIn B card d err request).1 (selectRfInPower B card d power request) := by
  have hreserved : Powered (reserveTunerAndRfIn B card d request).1 power :=
    h.lower fun k => Or.inl (reserve_voltage request)
  cases request with
  | none =>
    refine (hreserved.closeOldRfIn (card.activeRfIn B d)).lower fun k => Or.inl ?_
    rw [Stid135.selectRfIn]
    dsimp only
    rw [Card.setDemod_rfIns, closeOldTuner_rfIns]
  | some ic =>
    rw [Stid135.selectRfIn, selectRfInPower]
    split
    · exact h
    · generalize reserveTunerAndRfIn B card d (some ic) = reserved at hreserved ⊢
      obtain ⟨card', result⟩ := reserved
      dsimp only at hreserved ⊢
      cases rfInOf ic.rfIn with
      | none => exact hreserved
      | some i =>
        dsimp only
        split
        · exact hreserved
        · have hclosed := hreserved.closeOldRfIn (B := B) (card.activeRfIn B d)
          have hopened : Powered (openNew B (closeOldTuner B (Stid135.closeOldRfIn card'
              (card.activeRfIn B d)) d (card.demods d).activeTuner) d i) _ :=
            hclosed.lower fun k => by
              have hvoltage := @openNew_voltage _ _ _ B (closeOldTuner B (Stid135.closeOldRfIn card'
                (card.activeRfIn B d)) d (card.demods d).activeTuner) d i k
              rwa [closeOldTuner_rfIns] at hvoltage
          split
          · exact hopened
          · refine hopened.lower fun k => Or.inl ?_
            by_cases hmaster : result = .master
            · rw [if_pos hmaster, Card.setRfIn_rfIns]
              split
              · rename_i hk
                rw [hk]
                rfl
              · rfl
            · rw [if_neg hmaster]
              rfl

omit [DecidableEq D] in
theorem Powered.applyVoltage (h : Powered card power) :
    Powered (applyVoltage B card d voltage i).card (applyVoltagePower B card power d voltage i) := by
  rw [applyVoltage_eq, applyVoltagePower]
  cases voltageTest B card d voltage i with
  | some ret => exact h
  | none =>
    intro k hon
    dsimp only at hon ⊢
    rw [voltageRecord] at hon ⊢
    split
    · rename_i hrec
      rw [if_pos hrec, Card.setRfIn_rfIns] at hon
      rw [Card.setRfIn_rfIns]
      by_cases hk : k = i
      · subst hk
        rw [if_pos rfl, update_self]
      · rw [if_neg hk] at hon ⊢
        rw [update_of_ne hk]
        exact h k hon
    · rename_i hrec
      rw [if_neg hrec] at hon
      exact h k hon

theorem ask_powered (h : Powered card power) (call : Call) :
    Powered (call.ask B card d).1 power :=
  h.lower fun k => Or.inl (by rw [ask_rfIns])

theorem Powered.answerTo {asked : Card D × Option RfInputControl} (h : Powered asked.1 power) :
    Powered (answerTo B d err asked).1 (askedPower B d power asked) := by
  obtain ⟨card, request⟩ := asked
  cases request with
  | none => exact h
  | some ic => exact Powered.selectRfIn h (some ic)

omit [DecidableEq D] in
theorem applyTone_voltage {tone : SecTone} :
    ((applyTone B card d tone i hw).card.rfIns k).voltage = (card.rfIns k).voltage := by
  rw [applyTone]
  split
  · rfl
  · split
    · rfl
    · rw [Card.setRfIn_rfIns]
      split
      · rename_i hk
        rw [hk]
      · rfl

/-- After its request only a call for a voltage records one. -/
theorem step_voltage {call : Call} (hcall : ∀ voltage mode, call ≠ .setVoltage voltage mode) :
    ((step B card d hw call).card.rfIns k).voltage =
      ((call.answer B card d hw.err).1.rfIns k).voltage := by
  cases call with
  | setRfInput ic =>
    simp only [step, setRfInput, Call.answer, Call.ask]
    split <;> rfl
  | tune mode => simp only [step, tune, Call.answer, Call.ask, selectRfInLegacy_eq]
  | setVoltage voltage mode => exact absurd rfl (hcall voltage mode)
  | setTone tone mode =>
    simp only [step, setTone, Call.answer, Call.ask, selectRfInLegacy_eq]
    split
    · rfl
    · exact applyTone_voltage
  | sendLongMasterCmd msg mode =>
    simp only [step, sendLongMasterCmd, Call.answer, Call.ask, selectRfInLegacy_eq]
    split
    · rfl
    · split <;> rfl
  | recvSlaveReply mode =>
    simp only [step, recvSlaveReply, Call.answer, Call.ask, selectRfInLegacy_eq]
    split
    · rfl
    · split
      · rfl
      · split <;> rfl
  | sendBurst mode =>
    simp only [step, sendBurst, Call.answer, Call.ask, selectRfInLegacy_eq]
    split
    · rfl
    · split <;> rfl
  | setSecReady =>
    simp only [step, setSecReady, Call.answer, Call.ask, answerTo]
    split
    · rfl
    · rw [Card.setRfIn_rfIns]
      split
      · rename_i hk
        rw [hk]
      · rfl
  | sleep =>
    simp only [step, sleep, Call.answer, selectRfIn_none]
    split <;> rfl

theorem setVoltage_answer : (Call.setVoltage voltage mode).answer B card d err =
    answerTo B d err ((Call.setVoltage voltage mode).ask B card d) := rfl

theorem Powered.setVoltage (h : Powered card power) :
    Powered (setVoltage B card d voltage mode hw).card
      ((Call.setVoltage voltage mode).switches B card power d hw.err) := by
  have hanswer : Powered (Call.answer B card d hw.err (.setVoltage voltage mode)).1
      (askedPower B d power ((Call.setVoltage voltage mode).ask B card d)) :=
    (ask_powered h _).answerTo
  rw [setVoltage_eq, Call.switches]
  dsimp only
  rw [← setVoltage_answer]
  split
  · rename_i hoff
    have hidle : (Call.answer B card d hw.err (.setVoltage voltage mode)).1.activeRfIn B d = none := by
      rw [setVoltage_answer, Call.ask, if_neg fun hask => hask.2.2 hoff.2]
      exact hoff.1.2
    rw [hidle]
    exact hanswer
  · cases (Call.answer B card d hw.err (.setVoltage voltage mode)).1.activeRfIn B d with
    | none => exact hanswer
    | some i => exact hanswer.applyVoltage

theorem Powered.step (h : Powered card power) (call : Call) :
    Powered (step B card d hw call).card (call.switches B card power d hw.err) := by
  have hasked : Powered (Stid135.answerTo B d hw.err (call.ask B card d)).1
      (askedPower B d power (call.ask B card d)) := (ask_powered h call).answerTo
  cases call with
  | setVoltage voltage mode => exact Powered.setVoltage h
  | sleep =>
    rw [Stid135.step, sleep, Call.switches]
    have hreleased : Powered (Stid135.selectRfIn B card d hw.err none).1 _ := h.selectRfIn none
    split
    · exact hreleased
    · exact h
  | _ => exact hasked.lower fun k => Or.inl (step_voltage (by rintro _ _ ⟨⟩))

theorem PowerRun.powered (h : PowerRun B card power) : Powered card power := by
  induction h with
  | init => exact fun _ hon => absurd rfl hon
  | call d hw call _ ih => exact ih.step call

/-! ### What a call gives -/

/-- The voltage is recorded for the RF input of the demodulator, and is what it is switched to. -/
def TookEffect (B : Board D) (card : Card D) (power : Power) (d : D) (voltage : SecVoltage) : Prop :=
  ∃ i, card.activeRfIn B d = some i ∧ (card.rfIns i).voltage = voltage ∧ power i = voltage

/-- The RF input of the demodulator has the voltage already; or the demodulator may not switch it; or
    its chip can, and the RF input is its own or it never asked for it. -/
def VoltageHeeded (B : Board D) (card : Card D) (d : D) (voltage : SecVoltage) : Prop :=
  ∀ i, card.activeRfIn B d = some i → (card.rfIns i).voltage = voltage ∨
    maySetVoltage (card.demods d) (card.rfIns i) voltage = false ∨
    (B.setVoltage (B.chip d) = true ∧ recordsVoltage card d i = true)

omit [DecidableEq D] in
/-- Who may switch the voltage, and can, and is not left out, does so, unless 18 V are there already. -/
theorem applyVoltage_applied (h : Powered card power)
    (hmay : maySetVoltage (card.demods d) (card.rfIns i) voltage = true)
    (hcan : B.setVoltage (B.chip d) = true) (hrec : recordsVoltage card d i = true) :
    ((applyVoltage B card d voltage i).card.rfIns i).voltage = voltage ∧
      applyVoltagePower B card power d voltage i i = voltage := by
  rw [applyVoltage_eq, applyVoltagePower]
  by_cases hbusy : (card.rfIns i).unicableMode = true ∧ (card.rfIns i).voltage = .v18 ∧
      voltage = .v18
  · have htest : voltageTest B card d voltage i = some unicableDiseqcRetry := by
      rw [voltageTest, if_neg (not_not_intro hmay), if_neg (not_not_intro hcan), if_pos hbusy]
    rw [htest]
    obtain ⟨-, hv, rfl⟩ := hbusy
    refine ⟨hv, ?_⟩
    rw [← hv]
    exact h i (by rw [hv]; rintro ⟨⟩)
  · have htest : voltageTest B card d voltage i = none := by
      rw [voltageTest, if_neg (not_not_intro hmay), if_neg (not_not_intro hcan), if_neg hbusy]
    rw [htest]
    dsimp only
    rw [voltageRecord, if_pos hrec, if_pos hrec, Card.setRfIn_rfIns, if_pos rfl, update_self]
    exact ⟨rfl, rfl⟩

omit [DecidableEq D] in
/-- Who may switch the voltage is answered 0 also where it cannot or is left out. -/
theorem applyVoltage_skipped (hmay : maySetVoltage (card.demods d) (card.rfIns i) voltage = true)
    (hno : ¬(B.setVoltage (B.chip d) = true ∧ recordsVoltage card d i = true))
    (hdiff : (card.rfIns i).voltage ≠ voltage) :
    (applyVoltage B card d voltage i).card = card ∧ (applyVoltage B card d voltage i).ret = 0 := by
  have hbusy : ¬((card.rfIns i).unicableMode = true ∧ (card.rfIns i).voltage = .v18 ∧
      voltage = .v18) := fun hbusy => hdiff (hbusy.2.1.trans hbusy.2.2.symm)
  rw [applyVoltage_eq]
  by_cases hcan : B.setVoltage (B.chip d) = true
  · have htest : voltageTest B card d voltage i = none := by
      rw [voltageTest, if_neg (not_not_intro hmay), if_neg (not_not_intro hcan), if_neg hbusy]
    rw [htest]
    dsimp only
    rw [voltageRecord, if_neg fun hrec => hno ⟨hcan, hrec⟩]
    exact ⟨rfl, rfl⟩
  · have htest : voltageTest B card d voltage i = some 0 := by
      rw [voltageTest, if_neg (not_not_intro hmay), if_pos hcan]
    rw [htest]
    exact ⟨rfl, rfl⟩

omit [DecidableEq D] in
theorem applyVoltage_same (hsame : (card.rfIns i).voltage = voltage) :
    ((applyVoltage B card d voltage i).card.rfIns i).voltage = voltage := by
  rw [applyVoltage_eq]
  cases voltageTest B card d voltage i with
  | some ret => exact hsame
  | none =>
    dsimp only
    rw [voltageRecord]
    split
    · rw [Card.setRfIn_rfIns, if_pos rfl]
    · exact hsame

omit [DecidableEq D] in
theorem applyVoltage_heeded (h : Powered card power) (hon : voltage ≠ .off) :
    ((applyVoltage B card d voltage i).ret = 0 →
        ((applyVoltage B card d voltage i).card.rfIns i).voltage = voltage ∧
          applyVoltagePower B card power d voltage i i = voltage) ↔
      (card.rfIns i).voltage = voltage ∨
        maySetVoltage (card.demods d) (card.rfIns i) voltage = false ∨
        (B.setVoltage (B.chip d) = true ∧ recordsVoltage card d i = true) := by
  have hpower : ((applyVoltage B card d voltage i).card.rfIns i).voltage = voltage →
      applyVoltagePower B card power d voltage i i = voltage := by
    intro hv
    rw [h.applyVoltage i (by rw [hv]; exact hon), hv]
  by_cases hmay : maySetVoltage (card.demods d) (card.rfIns i) voltage = true
  · by_cases hdone : B.setVoltage (B.chip d) = true ∧ recordsVoltage card d i = true
    · exact iff_of_true (fun _ => applyVoltage_applied h hmay hdone.1 hdone.2)
        (Or.inr (Or.inr hdone))
    · constructor
      · intro hzero
        by_contra hdiff
        obtain ⟨hcard, hret⟩ := applyVoltage_skipped hmay hdone fun heq => hdiff (Or.inl heq)
        have hv := (hzero hret).1
        rw [hcard] at hv
        exact hdiff (Or.inl hv)
      · rintro (heq | hno | hyes) _
        · have hkept := applyVoltage_same (B := B) (d := d) heq
          exact ⟨hkept, hpower hkept⟩
        · rw [hmay] at hno
          cases hno
        · exact absurd hyes hdone
  · rw [Bool.not_eq_true] at hmay
    refine iff_of_true (fun hzero => ?_) (Or.inr (Or.inl hmay))
    have hsame : (card.rfIns i).voltage = voltage := by
      by_contra hdiff
      rw [applyVoltage, if_pos (by rw [hmay]; rintro ⟨⟩), if_pos ⟨hdiff, hon⟩] at hzero
      cases hzero
    have hkept := applyVoltage_same (B := B) (d := d) hsame
    exact ⟨hkept, hpower hkept⟩

omit [DecidableEq D] in
theorem SecOnly.activeRfIn (h : SecOnly B d card card') :
    card'.activeRfIn B e = card.activeRfIn B e := by
  rw [Card.activeRfIn, Card.activeRfIn, Card.tunerOf, Card.tunerOf, h.demods, h.tuners]

omit [DecidableEq D] in
theorem applyVoltage_activeRfIn (hact : card.activeRfIn B d = some i) :
    (applyVoltage B card d voltage i).card.activeRfIn B d = some i :=
  (applyVoltage_sec hact).activeRfIn.trans hact

theorem selectRfIn_legacyRfIn :
    ((selectRfIn B card d err (some ic)).1.demods d).legacyRfIn = (card.demods d).legacyRfIn := by
  have hgrant : ∀ i m, ((card.grant B d ic i m).demods d).legacyRfIn = (card.demods d).legacyRfIn := by
    intro i m
    rw [grant_demods, if_pos rfl]
  have hanswered := @selectRfIn_answered _ _ _ B card d ic err
  generalize selectRfIn B card d err (some ic) = out at hanswered ⊢
  cases hanswered with
  | refused r _ _ => rfl
  | broken i m _ _ _ _ => exact hgrant i m
  | granted i m _ _ _ _ =>
    rw [← hgrant i m]
    cases m <;> simp [Card.crown]

omit [DecidableEq D] in
theorem SameUse.activeRfIn (h : SameUse card card') :
    card'.activeRfIn B d = card.activeRfIn B d := by
  have huse : (card'.demods d).activeTuner = (card.demods d).activeTuner := congrFun h.uses d
  rw [Card.activeRfIn, Card.activeRfIn, Card.tunerOf, Card.tunerOf, huse, h.tuners]

/-- A demodulator that has no RF input gets one as a caller that never asks. -/
theorem setVoltage_selects (hidle : card.activeRfIn B d = none)
    (hi : (Call.answer B card d err (.setVoltage voltage mode)).1.activeRfIn B d = some i) :
    B.setVoltage (B.chip d) = true ∧
      recordsVoltage (Call.answer B card d err (.setVoltage voltage mode)).1 d i = true := by
  rw [setVoltage_answer] at hi ⊢
  cases hreq : ((Call.setVoltage voltage mode).ask B card d).2 with
  | none =>
    have hnone : answerTo B d err ((Call.setVoltage voltage mode).ask B card d) =
        (((Call.setVoltage voltage mode).ask B card d).1, none) := by
      rw [← Prod.mk.eta (p := (Call.setVoltage voltage mode).ask B card d), hreq, answerTo]
    rw [hnone, (Call.ask_sameUse _).activeRfIn, hidle] at hi
    cases hi
  | some ic =>
    have hsome : answerTo B d err ((Call.setVoltage voltage mode).ask B card d) =
        ((selectRfIn B ((Call.setVoltage voltage mode).ask B card d).1 d err (some ic)).1,
          some (selectRfIn B ((Call.setVoltage voltage mode).ask B card d).1 d err (some ic)).2) := by
      rw [← Prod.mk.eta (p := (Call.setVoltage voltage mode).ask B card d), hreq, answerTo]
    have hflag : ((answerTo B d err ((Call.setVoltage voltage mode).ask B card d)).1.demods
        d).legacyRfIn = true := by
      rw [hsome, selectRfIn_legacyRfIn]
      exact ask_legacy hreq
    refine ⟨?_, decide_eq_true fun hskip => hskip.2 hflag⟩
    by_contra hno
    rw [Call.ask, if_neg fun hask => hno hask.1] at hreq
    cases hreq

/-- A demodulator that has one asks for none. -/
theorem setVoltage_asks_none (huse : card.activeRfIn B d = some i) :
    (Call.answer B card d err (.setVoltage voltage mode)).1 =
      noteQuattro B card d 2 (voltage = .v18) := by
  have hact := (@noteQuattro_flags _ _ _ B card d 2 (voltage = .v18)).2.2
  rw [setVoltage_answer, Call.ask, if_neg fun hask => by
    rw [hact, huse] at hask
    cases hask.2.1]
  rfl

theorem setVoltage_known (huse : card.activeRfIn B d = some i) :
    let noted := noteQuattro B card d 2 (voltage = .v18)
    let out := step B card d hw (.setVoltage voltage mode)
    out.card = (applyVoltage B noted d voltage i).card ∧
      out.ret = (applyVoltage B noted d voltage i).ret ∧
      (Call.setVoltage voltage mode).switches B card power d hw.err =
        applyVoltagePower B noted power d voltage i := by
  have hact := (@noteQuattro_flags _ _ _ B card d 2 (voltage = .v18)).2.2.trans huse
  have hnone : ¬(B.setVoltage (B.chip d) = true ∧
      (noteQuattro B card d 2 (voltage = .v18)).activeRfIn B d = none) := by
    rintro ⟨-, hidle⟩
    rw [hact] at hidle
    cases hidle
  have hask : (Call.setVoltage voltage mode).ask B card d =
      (noteQuattro B card d 2 (voltage = .v18), none) :=
    if_neg fun hask => hnone ⟨hask.1, hask.2.1⟩
  dsimp only
  rw [step, setVoltage_eq, Call.switches, setVoltage_asks_none huse]
  dsimp only
  rw [if_neg fun hoff => hnone hoff.1, hask, answerTo, hact]
  exact ⟨rfl, rfl, rfl⟩

/-- In every reachable state a call for a voltage that returns 0 took effect exactly when the RF input
    had the voltage, or the demodulator may not switch it, or it is switched. -/
theorem voltage_applied (h : PowerRun B card power) (d : D) (hon : voltage ≠ .off)
    (mode : ReservationMode) (hw : Hw) :
    ((step B card d hw (.setVoltage voltage mode)).ret = 0 →
        TookEffect B (step B card d hw (.setVoltage voltage mode)).card
          ((Call.setVoltage voltage mode).switches B card power d hw.err) d voltage) ↔
      VoltageHeeded B card d voltage := by
  cases huse : card.activeRfIn B d with
  | none =>
    have hanswer : Powered (Call.answer B card d hw.err (.setVoltage voltage mode)).1
        (askedPower B d power ((Call.setVoltage voltage mode).ask B card d)) :=
      (ask_powered h.powered _).answerTo
    have hselects := fun i => @setVoltage_selects _ _ _ B card d i hw.err mode voltage huse
    rw [step, setVoltage_eq, Call.switches]
    dsimp only
    rw [if_neg fun hoff => hon hoff.2, ← setVoltage_answer]
    generalize (Call.answer B card d hw.err (.setVoltage voltage mode)).1 = card' at *
    refine iff_of_true ?_ fun i hi => by rw [huse] at hi; cases hi
    cases hi : card'.activeRfIn B d with
    | none => rintro ⟨⟩
    | some i =>
      intro hret
      have heffect := (applyVoltage_heeded hanswer hon).mpr (Or.inr (Or.inr (hselects i hi))) hret
      exact ⟨i, applyVoltage_activeRfIn hi, heffect⟩
  | some i =>
    obtain ⟨hmaster, hlegacy, hact⟩ := @noteQuattro_flags _ _ _ B card d 2 (voltage = .v18)
    have hrf := @noteQuattro_rfIns _ _ _ B card d 2 (voltage = .v18)
    have hnoted : Powered (noteQuattro B card d 2 (voltage = .v18)) power :=
      h.powered.lower fun k => Or.inl (by rw [hrf])
    obtain ⟨hcard, hret, hpower⟩ := @setVoltage_known _ _ _ B card d i mode hw voltage power huse
    rw [hcard, hret, hpower]
    have hheeded := applyVoltage_heeded (B := B) (d := d) (i := i) hnoted hon
    have hkept := @applyVoltage_activeRfIn _ _ B _ d i voltage (hact.trans huse)
    rw [hrf, recordsVoltage, hlegacy, hrf, maySetVoltage, hmaster] at hheeded
    constructor
    · intro htook k hk
      rw [huse] at hk
      cases hk
      refine hheeded.mp fun hret => ?_
      obtain ⟨j, hj, heffect⟩ := htook hret
      rw [hkept] at hj
      cases hj
      exact heffect
    · intro hcond hret
      exact ⟨i, hkept, hheeded.mpr (hcond i huse) hret⟩

/-- A master that is alone switches the voltage on. -/
theorem voltage_applied_twin :
    let card := (step twinBoard (Card.init Bool) false goodHw askFirst).card
    let power := askFirst.switches twinBoard (Card.init Bool) (fun _ => .v18) false false
    TookEffect twinBoard (step twinBoard card false goodHw (.setVoltage .v13 .slave)).card
      ((Call.setVoltage .v13 .slave).switches twinBoard card power false false) false .v13 := by
  intro card power
  have hrun : PowerRun twinBoard card power := .call false goodHw askFirst (.init fun _ => .v18)
  have hheeded : VoltageHeeded twinBoard card false .v13 := by
    rw [VoltageHeeded]
    decide
  exact (voltage_applied hrun false (by decide) .slave goodHw).mpr hheeded (by decide)

/-- A master that shares its RF input is told that it switched the voltage, which stays as it was. -/
theorem voltage_skipped : ¬ ∀ card power, PowerRun twinBoard card power →
    ∀ (d : Bool) (voltage : SecVoltage) (mode : ReservationMode) (hw : Hw), voltage ≠ .off →
      (step twinBoard card d hw (.setVoltage voltage mode)).ret = 0 →
      TookEffect twinBoard (step twinBoard card d hw (.setVoltage voltage mode)).card
        ((Call.setVoltage voltage mode).switches twinBoard card power d hw.err) d voltage := by
  intro h
  have hshared : PowerRun twinBoard _ _ :=
    .call true goodHw (.setRfInput ⟨7, 1, false, 0, .slave⟩)
      (.call false goodHw .setSecReady
        (.call false goodHw (.setVoltage .v13 .slave)
          (.call false goodHw askFirst (.init fun _ => .off))))
  obtain ⟨i, hi, hvoltage, -⟩ := h _ _ hshared false .v18 .slave goodHw (by decide) (by decide)
  have hzero : i = 0 := by
    rw [← Option.some.injEq, ← hi]
    decide
  subst hzero
  exact absurd hvoltage (by decide)

end Stid135

import NeumoDrivers.Stid135.SecMaster
import NeumoDrivers.Stid135.Unicable

/-! Who powers down an LNB (`stid135_set_voltage`).

    The LNB of an RF input should lose its power only when nobody else uses it, and its last user
    should be able to power it down. A slave that is the last user may switch to any voltage but off,
    where the comment says that it may power down; and a caller that never asked for its RF input
    powers it down as master whoever else uses it. -/

namespace Stid135
open Holders

variable {D : Type} [DecidableEq D] [Fintype D] {B : Board D} {card card' : Card D} {d e : D}
variable {ic : RfInputControl} {i k : RfInNo} {m err : Bool} {mode : ReservationMode} {hw : Hw}
variable {voltage : SecVoltage} {call : Call}

/-- What a call for a voltage should do: nobody else's LNB is powered down, and the last user's is when
    it asks for that. -/
structure PowerSafe (B : Board D) (card : Card D) (d : D) (voltage : SecVoltage) (card' : Card D) :
    Prop where
  kept : ∀ k e, e ≠ d → card.activeRfIn B e = some k → (card'.rfIns k).voltage = .off →
    (card.rfIns k).voltage = .off
  last : ∀ k, voltage = .off → card.activeRfIn B d = some k →
    (∀ e, card.activeRfIn B e = some k → e = d) → (card'.rfIns k).voltage = .off

/-- When it does: the caller that asks for a power down of what is not off is a master that can switch
    the voltage, if it is the last user, and else no such master that never asked for its RF input. -/
def PowerKept (B : Board D) (card : Card D) (d : D) (voltage : SecVoltage) : Prop :=
  voltage = .off → ∀ k, card.activeRfIn B d = some k → (card.rfIns k).voltage ≠ .off →
    if (card.rfIns k).reservation.useCount = 1 then
      (card.demods d).isMaster = true ∧ B.setVoltage (B.chip d) = true
    else ¬((card.demods d).isMaster = true ∧ B.setVoltage (B.chip d) = true ∧
      (card.demods d).legacyRfIn = true)

/-! ### A call for another voltage -/

/-- A request of a demodulator that uses nothing leaves every voltage that is on. -/
theorem Card.Inv.grant_on (h : card.Inv B) (hidle : card.uses d = none)
    (hon : (card.rfIns k).voltage ≠ .off) :
    ((card.grant B d ic i m).rfIns k).voltage = (card.rfIns k).voltage := by
  rw [h.grant_rfIns]
  by_cases hk : k = i
  · subst hk
    have hused : 0 < (card.rfIns k).reservation.useCount := by
      refine Nat.pos_of_ne_zero fun hzero => hon ?_
      exact ((h.rfIns k).idle hzero).voltage
    have hchip : (card.rfIns k).controllingChip.isSome = true := (h.rfIns k).chip hused
    rw [if_pos rfl, RfIn.connect_of_chip (by exact hchip)]
    rfl
  · rw [if_neg hk, hidle, if_neg nofun]

omit [Fintype D] in
theorem crown_voltage :
    ((card.crown d ic i m).rfIns k).voltage = (card.rfIns k).voltage := by
  cases m with
  | false => rfl
  | true =>
    simp only [Card.crown, if_true, Card.setRfIn_rfIns]
    split
    · rename_i hk
      subst hk
      rfl
    · rfl

theorem Card.Inv.selectRfIn_on (h : card.Inv B) (hidle : card.uses d = none)
    (hon : (card.rfIns k).voltage ≠ .off) :
    ((selectRfIn B card d err (some ic)).1.rfIns k).voltage = (card.rfIns k).voltage := by
  have hanswered := @selectRfIn_answered _ _ _ B card d ic err
  generalize selectRfIn B card d err (some ic) = out at hanswered ⊢
  cases hanswered with
  | refused r _ _ => rfl
  | broken i m _ _ _ _ => exact h.grant_on hidle hon
  | granted i m _ _ _ _ => exact crown_voltage.trans (h.grant_on hidle hon)

theorem Card.Inv.setVoltage_asks (h : card.Inv B)
    (hasked : ((Call.setVoltage voltage mode).ask B card d).2 = some ic) : card.uses d = none := by
  have hsame := @noteQuattro_sameUse _ _ _ B card d 2 (voltage = .v18)
  have hnoted := (h.sameUse hsame).activeRfIn_eq d
  rw [hsame.uses] at hnoted
  rw [Call.ask] at hasked
  split at hasked
  · rename_i hlegacy
    exact hnoted.symm.trans hlegacy.2.1
  · cases hasked

theorem Card.Inv.answer_on (h : card.Inv B) (hon : (card.rfIns k).voltage ≠ .off) :
    ((Call.answer B card d err (.setVoltage voltage mode)).1.rfIns k).voltage =
      (card.rfIns k).voltage := by
  have hsame := @Call.ask_sameUse _ _ _ B card d (.setVoltage voltage mode)
  have hrf := @ask_rfIns _ _ _ B card d (.setVoltage voltage mode)
  have hidle := fun ic => @Card.Inv.setVoltage_asks _ _ _ B card d ic mode voltage h
  rw [drivesSec_answer rfl]
  generalize (Call.setVoltage voltage mode).ask B card d = asked at hsame hrf hidle
  obtain ⟨card', request⟩ := asked
  have hrf' : card'.rfIns = card.rfIns := hrf
  cases request with
  | none => rw [answerTo, hrf']
  | some ic =>
    have hidle' : card'.uses d = none := (congrFun hsame.uses d).trans (hidle ic rfl)
    have hkept : ((selectRfIn B card' d err (some ic)).1.rfIns k).voltage =
        (card'.rfIns k).voltage :=
      (h.sameUse hsame).selectRfIn_on hidle' (by rw [hrf']; exact hon)
    rw [hrf'] at hkept
    exact hkept

omit [DecidableEq D] in
theorem applyVoltage_on (hvoltage : voltage ≠ .off) (hon : (card.rfIns k).voltage ≠ .off) :
    ((applyVoltage B card d voltage i).card.rfIns k).voltage ≠ .off := by
  rw [applyVoltage]
  split
  · exact hon
  · split
    · exact hon
    · split
      · exact hon
      · split
        · exact hon
        · simp only [Card.setRfIn_rfIns]
          split
          · exact hvoltage
          · exact hon

/-- Who asks for another voltage than off powers nothing down. -/
theorem Card.Inv.setVoltage_on (h : card.Inv B) (hvoltage : voltage ≠ .off)
    (hon : (card.rfIns k).voltage ≠ .off) :
    ((setVoltage B card d voltage mode hw).card.rfIns k).voltage ≠ .off := by
  have hanswer := @Card.Inv.answer_on _ _ _ B card d k hw.err mode voltage h hon
  rw [← hanswer] at hon
  rw [setVoltage_eq]
  dsimp only
  split
  · exact hon
  · split
    · exact hon
    · exact applyVoltage_on hvoltage hon

/-! ### A call for a power down -/

/-- Whether the demodulator powers down the RF input when it is asked to. -/
def powersDown (B : Board D) (card : Card D) (d : D) (k : RfInNo) : Prop :=
  card.activeRfIn B d = some k ∧ (card.demods d).isMaster = true ∧
    B.setVoltage (B.chip d) = true ∧
      ((card.rfIns k).reservation.useCount ≤ 1 ∨ (card.demods d).legacyRfIn = true)

instance : Decidable (powersDown B card d k) := inferInstanceAs (Decidable (_ ∧ _ ∧ _ ∧ (_ ∨ _)))

theorem noteQuattro_flags (bit : UInt8) (set : Bool) :
    ((noteQuattro B card d bit set).demods d).isMaster = (card.demods d).isMaster ∧
      ((noteQuattro B card d bit set).demods d).legacyRfIn = (card.demods d).legacyRfIn ∧
      (noteQuattro B card d bit set).activeRfIn B d = card.activeRfIn B d := by
  rw [noteQuattro]
  split
  · simp [Card.activeRfIn, Card.tunerOf]
  · exact ⟨rfl, rfl, rfl⟩

omit [DecidableEq D] in
/-- What is asked for where the RF input is known is done by a master that is alone or never asked. -/
theorem applyVoltage_off :
    ((applyVoltage B card d .off i).card.rfIns k).voltage =
      if k = i ∧ (card.demods d).isMaster = true ∧ B.setVoltage (B.chip d) = true ∧
          ((card.rfIns i).reservation.useCount ≤ 1 ∨ (card.demods d).legacyRfIn = true) then .off
      else (card.rfIns k).voltage := by
  have hmay : maySetVoltage (card.demods d) (card.rfIns i) .off = (card.demods d).isMaster := by
    simp [maySetVoltage]
  rw [applyVoltage, hmay]
  by_cases hmaster : (card.demods d).isMaster = true
  · by_cases hcan : B.setVoltage (B.chip d) = true
    · by_cases halone : (card.rfIns i).reservation.useCount ≤ 1 ∨ (card.demods d).legacyRfIn = true
      · have hskip : ¬(1 < (card.rfIns i).reservation.useCount ∧
            ¬(card.demods d).legacyRfIn = true) := by
          rintro ⟨hmany, hasked⟩
          rcases halone with hone | hlegacy
          · exact absurd hmany (Nat.not_lt_of_le hone)
          · exact hasked hlegacy
        simp only [hmaster, hcan, halone, hskip, not_true_eq_false, if_false, and_true, reduceCtorEq,
          and_false, Card.setRfIn_rfIns]
        split <;> rfl
      · have hskip : 1 < (card.rfIns i).reservation.useCount ∧
            ¬(card.demods d).legacyRfIn = true := by
          rw [not_or, Nat.not_le] at halone
          exact halone
        simp [hmaster, hcan, hskip]
    · simp [hmaster, hcan]
  · simp [hmaster]

theorem setVoltage_off :
    ((setVoltage B card d .off mode hw).card.rfIns k).voltage =
      if powersDown B card d k then .off else (card.rfIns k).voltage := by
  obtain ⟨hmaster, hlegacy, hact⟩ := @noteQuattro_flags _ _ _ B card d 2 false
  have hrf := @noteQuattro_rfIns _ _ _ B card d 2 false
  have hnoted : noteQuattro B card d 2 (SecVoltage.off = .v18) = noteQuattro B card d 2 false := rfl
  rw [setVoltage]
  dsimp only
  rw [hnoted, hact]
  generalize noteQuattro B card d 2 false = noted at *
  cases huse : card.activeRfIn B d with
  | none =>
    have hnot : ¬powersDown B card d k := by
      rintro ⟨hk, -⟩
      rw [huse] at hk
      cases hk
    rw [if_neg hnot]
    split
    · rw [hrf]
    · rename_i hcan
      rw [if_neg fun hboth => hcan ⟨hboth, rfl⟩, hact, huse]
      exact congrArg (fun rfIns => (rfIns k).voltage) hrf
  | some i =>
    have hnone : ¬(B.setVoltage (B.chip d) = true ∧ some i = none) := by
      rintro ⟨-, h⟩
      cases h
    rw [if_neg fun h => hnone h.1, if_neg hnone, hact, huse]
    dsimp only
    rw [applyVoltage_off, hmaster, hlegacy, hrf]
    refine if_congr ?_ rfl rfl
    rw [powersDown, huse, Option.some.injEq]
    constructor
    · rintro ⟨rfl, h⟩
      exact ⟨rfl, h⟩
    · rintro ⟨rfl, h⟩
      exact ⟨rfl, h⟩

/-! ### Every call -/

omit [DecidableEq D] in
/-- A demodulator is the last user if and only if the count is 1. -/
theorem Card.Inv.alone_iff (h : card.Inv B) (huse : card.activeRfIn B d = some k) :
    (card.rfIns k).reservation.useCount = 1 ↔ ∀ e, card.activeRfIn B e = some k → e = d := by
  have huse' : card.uses d = some k := (h.activeRfIn_eq d).symm.trans huse
  rw [h.rfInUse, count_eq_one huse']
  simp only [h.activeRfIn_eq]

/-- In every reachable state a call powers down as it should exactly when the last user is a master
    and others have asked for their RF input. -/
theorem lnb_power (h : Reachable B card) (d : D) (voltage : SecVoltage) (mode : ReservationMode)
    (hw : Hw) : PowerSafe B card d voltage (step B card d hw (.setVoltage voltage mode)).card ↔
      PowerKept B card d voltage := by
  have hinv := h.inv
  rw [step]
  by_cases hvoltage : voltage = .off
  · subst hvoltage
    constructor
    · rintro ⟨hkept, hlast⟩ - k huse hon
      split
      · rename_i hone
        have hdown := hlast k rfl huse ((hinv.alone_iff huse).mp hone)
        rw [setVoltage_off] at hdown
        split at hdown
        · rename_i hpowers
          exact ⟨hpowers.2.1, hpowers.2.2.1⟩
        · exact absurd hdown hon
      · rename_i hmany
        rintro ⟨hmaster, hcan, hlegacy⟩
        rw [hinv.alone_iff huse] at hmany
        simp only [not_forall] at hmany
        obtain ⟨e, he, hne⟩ := hmany
        refine hon (hkept k e hne he ?_)
        rw [setVoltage_off, if_pos ⟨huse, hmaster, hcan, .inr hlegacy⟩]
    · intro hok
      refine ⟨fun k e hne he hdown => ?_, fun k _ huse honly => ?_⟩
      · by_contra hon
        rw [setVoltage_off] at hdown
        split at hdown
        · rename_i hpowers
          obtain ⟨huse, hmaster, hcan, halone⟩ := hpowers
          have hmany : (card.rfIns k).reservation.useCount ≠ 1 := fun hone =>
            hne ((hinv.alone_iff huse).mp hone e he)
          have hpos := hinv.rfIn_pos ((hinv.activeRfIn_eq d).symm.trans huse)
          have hkept := hok rfl k huse hon
          rw [if_neg hmany] at hkept
          rcases halone with hone | hlegacy
          · omega
          · exact hkept ⟨hmaster, hcan, hlegacy⟩
        · exact hon hdown
      · by_contra hon
        have hone := (hinv.alone_iff huse).mpr honly
        rw [setVoltage_off] at hon
        split at hon
        · exact hon rfl
        · rename_i hnot
          have hkept := hok rfl k huse hon
          rw [if_pos hone] at hkept
          exact hnot ⟨huse, hkept.1, hkept.2, .inl (Nat.le_of_eq hone)⟩
  · refine iff_of_true ⟨fun k e _ _ hdown => ?_, fun _ hoff => absurd hoff hvoltage⟩
      fun hoff => absurd hoff hvoltage
    by_contra hon
    exact hinv.setVoltage_on hvoltage hon hdown

/-- A demodulator becomes master of RF input 0 and switches the voltage on. -/
def powerUp (B : Board Bool) : Card Bool :=
  (step B (step B (Card.init Bool) false goodHw askFirst).card false goodHw
    (.setVoltage .v13 .slave)).card

theorem reachable_powerUp (B : Board Bool) : Reachable B (powerUp B) :=
  .call false goodHw _ (.call false goodHw _ .init)

theorem lnb_power_up : PowerSafe twinBoard (powerUp twinBoard) false .off
    (step twinBoard (powerUp twinBoard) false goodHw (.setVoltage .off .slave)).card := by
  refine (lnb_power (reachable_powerUp twinBoard) false .off .slave goodHw).mpr ?_
  rw [PowerKept]
  decide

/-- The other one becomes its slave, and stays alone. -/
def aloneSlave : Card Bool :=
  let card := (step twinBoard (powerUp twinBoard) false goodHw .setSecReady).card
  let card := (step twinBoard card true goodHw (.setRfInput ⟨7, 1, false, 0, .slave⟩)).card
  (step twinBoard card false goodHw .sleep).card

theorem reachable_aloneSlave : Reachable twinBoard aloneSlave :=
  .call false goodHw _ (.call true goodHw _ (.call false goodHw _ (reachable_powerUp twinBoard)))

/-- A request without a config id, which counts as none. -/
def askLegacy : Call := .setRfInput ⟨7, -1, false, 0, .masterOrSlave⟩

/-- Two demodulators that ask like this use the same RF input. -/
def bothLegacy : Card Bool :=
  let card := (step twinBoard (Card.init Bool) false goodHw askLegacy).card
  let card := (step twinBoard card false goodHw (.setVoltage .v13 .slave)).card
  (step twinBoard card true goodHw askLegacy).card

theorem reachable_bothLegacy : Reachable twinBoard bothLegacy :=
  .call true goodHw _ (.call false goodHw _ (.call false goodHw _ .init))

/-- A slave that is the last user cannot power down, and a caller that never asked powers down what
    another one uses. -/
theorem power_unsafe :
    (¬∀ card, Reachable twinBoard card → ∀ (d : Bool) (mode : ReservationMode) (hw : Hw) (k : RfInNo),
      card.activeRfIn twinBoard d = some k →
      (∀ e, card.activeRfIn twinBoard e = some k → e = d) →
      ((step twinBoard card d hw (.setVoltage .off mode)).card.rfIns k).voltage = .off) ∧
    ¬∀ card, Reachable twinBoard card → ∀ (d : Bool) (mode : ReservationMode) (hw : Hw) (k : RfInNo)
      (e : Bool), e ≠ d → card.activeRfIn twinBoard e = some k →
      ((step twinBoard card d hw (.setVoltage .off mode)).card.rfIns k).voltage = .off →
      (card.rfIns k).voltage = .off := by
  refine ⟨fun h => ?_, fun h => ?_⟩
  · have hoff := h aloneSlave reachable_aloneSlave true .slave goodHw 0 (by decide) (by decide)
    exact absurd hoff (by decide)
  · have hoff := h bothLegacy reachable_bothLegacy false .slave goodHw 0 true (by decide) (by decide)
      (by decide)
    exact absurd hoff (by decide)

end Stid135

import NeumoDrivers.Stid135.AppliedVoltage

/-! A caller that never asks for an RF input, alone on the one it gets
    (`stid135_select_rf_in_legacy_`).

    The request made for it has no mode: what is on the stack in that place decides whether the caller
    becomes a master, and so whether its calls for voltages and tones are applied. -/

namespace Stid135

variable {D : Type} [DecidableEq D] [Fintype D] {B : Board D} {card card' : Card D} {d e : D}
variable {ic : RfInputControl} {i k : RfInNo} {m err : Bool} {mode : ReservationMode} {hw : Hw}
variable {voltage : SecVoltage} {power power' : Power}

/-- What `reserve_tuner_and_rf_in_` makes of the mode of a request: 0 is for a master or slave and 1
    for a master, and it takes everything else for a slave. -/
def reservationMode (word : UInt32) : ReservationMode :=
  if word = 0 then .masterOrSlave else if word = 1 then .master else .slave

theorem reservationMode_slave {word : UInt32} : reservationMode word = .slave ↔ ¬(word < 2) := by
  rw [reservationMode]
  split
  · rename_i hzero
    subst hzero
    exact iff_of_false nofun (by decide)
  · split
    · rename_i hone
      subst hone
      exact iff_of_false nofun (by decide)
    · rename_i hzero hone
      refine iff_of_true rfl fun hlt => ?_
      have hnat : word.toNat < 2 := hlt
      rcases Nat.lt_succ_iff_lt_or_eq.mp hnat with h0 | h1
      · exact hzero (UInt32.toNat_inj.mp (Nat.lt_one_iff.mp h0))
      · exact hone (UInt32.toNat_inj.mp h1)

/-! ### Control of the secondary equipment -/

/-- `FE_SET_VOLTAGE` and `FE_SET_TONE`. -/
def Call.switchesSec : Call → Bool
  | .setVoltage .. | .setTone .. => true
  | _ => false

/-- The voltage asked for is there, or the tone that was asked for has been switched by the chip that
    controls the RF input. -/
def CallApplied (B : Board D) (card : Card D) (power : Power) (d : D) (hw : Hw) (call : Call) : Prop :=
  match call with
  | .setVoltage voltage _ =>
    TookEffect B (step B card d hw call).card (call.switches B card power d hw.err) d voltage
  | .setTone tone _ => ∃ i c, (step B card d hw call).card.activeRfIn B d = some i ∧
      ((step B card d hw call).card.rfIns i).tone = tone ∧
      (card.rfIns i).controllingChip = some c ∧ .access c ∈ (step B card d hw call).events
  | _ => True

/-- What follows while the demodulator switches voltages and tones only, whatever the others do. -/
inductive Later (B : Board D) (d : D) (card : Card D) (power : Power) : Card D → Power → Prop where
  | refl : Later B d card power card power
  | call {card' : Card D} {power' : Power} (e : D) (hw : Hw) (call : Call) :
      Later B d card power card' power' → (e = d → call.switchesSec = true) →
      Later B d card power (step B card' e hw call).card (call.switches B card' power' e hw.err)

/-- The demodulator is master of the RF input, and its calls for voltages and tones are applied. -/
structure Controls (B : Board D) (card : Card D) (power : Power) (d : D) (i : RfInNo) : Prop where
  master : (card.demods d).isMaster = true
  active : card.activeRfIn B d = some i
  applied : ∀ {card' power'}, Later B d card power card' power' → ∀ hw call,
    call.switchesSec = true → CallApplied B card' power' d hw call

/-! ### A master that never asks -/

/-- A demodulator that is master of an RF input it did not ask for. -/
structure Served (B : Board D) (card : Card D) (power : Power) (d : D) (i : RfInNo) : Prop where
  run : PowerRun B card power
  master : (card.demods d).isMaster = true
  legacy : (card.demods d).legacyRfIn = true
  active : card.activeRfIn B d = some i

theorem Served.step_ne (h : Served B card power d i) (he : d ≠ e) (hw : Hw) (call : Call) :
    Served B (step B card e hw call).card (call.switches B card power e hw.err) d i := by
  have hrun := h.run.call e hw call
  have hdemod : (step B card e hw call).card.demods d = card.demods d := by
    rw [(step_sec call).demods, answer_demods_ne he]
  refine ⟨hrun, by rw [hdemod]; exact h.master, by rw [hdemod]; exact h.legacy, ?_⟩
  rw [hrun.reachable.inv.activeRfIn_eq, step_uses_ne he, ← h.run.reachable.inv.activeRfIn_eq]
  exact h.active

/-- A demodulator that has an RF input asks for none before it switches something. -/
theorem answer_noted {call : Call} (hsec : call.switchesSec = true) (hact : card.activeRfIn B d = some i) :
    ∃ bit set, (call.answer B card d err).1 = noteQuattro B card d bit set := by
  have hnoted : ∀ bit set, (noteQuattro B card d bit set).activeRfIn B d = some i := by
    intro bit set
    rw [(noteQuattro_flags bit set).2.2, hact]
  cases call with
  | setVoltage voltage mode => exact ⟨2, _, setVoltage_asks_none hact⟩
  | setTone tone mode =>
    refine ⟨1, tone = .on, ?_⟩
    rw [drivesSec_answer rfl, Call.ask, legacyAsk, if_pos (by rw [hnoted]; rfl)]
    rfl
  | _ => cases hsec

theorem Served.step_self (h : Served B card power d i) {call : Call}
    (hsec : call.switchesSec = true) :
    Served B (step B card d hw call).card (call.switches B card power d hw.err) d i := by
  have hrun := h.run.call d hw call
  obtain ⟨bit, set, hanswer⟩ := @answer_noted _ _ _ B card d i hw.err call hsec h.active
  obtain ⟨hmaster, hlegacy, hact⟩ := @noteQuattro_flags _ _ _ B card d bit set
  have hsec := @step_sec _ _ _ B card d hw call
  rw [hanswer] at hsec
  refine ⟨hrun, ?_, ?_, ?_⟩
  · rw [hsec.demods, hmaster]
    exact h.master
  · rw [hsec.demods, hlegacy]
    exact h.legacy
  · rw [hsec.activeRfIn]
    exact hact.trans h.active

theorem Served.later (h : Served B card power d i) (hlater : Later B d card power card' power') :
    Served B card' power' d i := by
  induction hlater with
  | refl => exact h
  | call e hw call _ hself ih =>
    rcases eq_or_ne d e with rfl | hne
    · exact ih.step_self (hself rfl)
    · exact ih.step_ne hne hw call

omit [DecidableEq D] in
theorem applyTone_activeRfIn {tone : SecTone} (hact : card.activeRfIn B d = some i) :
    (applyTone B card d tone i hw).card.activeRfIn B d = some i :=
  (applyTone_sec hact).activeRfIn.trans hact

/-- What such a demodulator asks for is applied, if its chip can switch voltages. -/
theorem Served.applied (h : Served B card power d i) (hcan : B.setVoltage (B.chip d) = true) (hw : Hw)
    {call : Call} (hsec : call.switchesSec = true) : CallApplied B card power d hw call := by
  have hinv := h.run.reachable.inv
  cases call with
  | setVoltage voltage mode =>
    obtain ⟨hmaster, hlegacy, hact⟩ := @noteQuattro_flags _ _ _ B card d 2 (voltage = .v18)
    have hrf := @noteQuattro_rfIns _ _ _ B card d 2 (voltage = .v18)
    have hnoted : Powered (noteQuattro B card d 2 (voltage = .v18)) power :=
      h.run.powered.lower fun k => Or.inl (by rw [hrf])
    obtain ⟨hcard, -, hpower⟩ := @setVoltage_known _ _ _ B card d i mode hw voltage power h.active
    have hmay : maySetVoltage ((noteQuattro B card d 2 (voltage = .v18)).demods d)
        ((noteQuattro B card d 2 (voltage = .v18)).rfIns i) voltage = true := by
      rw [maySetVoltage, hmaster, h.master]
      simp
    have hrec : recordsVoltage (noteQuattro B card d 2 (voltage = .v18)) d i = true := by
      rw [recordsVoltage, hlegacy, h.legacy]
      simp
    rw [CallApplied, hcard, hpower]
    exact ⟨i, applyVoltage_activeRfIn (hact.trans h.active),
      applyVoltage_applied hnoted hmay hcan hrec⟩
  | setTone tone mode =>
    obtain ⟨hmaster, -, hact⟩ := @noteQuattro_flags _ _ _ B card d 1 (tone = .on)
    have hrf := @noteQuattro_rfIns _ _ _ B card d 1 (tone = .on)
    have hnoted := hact.trans h.active
    obtain ⟨c, hc⟩ := Option.isSome_iff_exists.mp
      ((hinv.rfIns i).chip (hinv.rfIn_pos ((hinv.activeRfIn_eq d).symm.trans h.active)))
    have hselect : (selectRfInLegacy B (noteQuattro B card d 1 (tone = .on)) d mode hw.err).1 =
        noteQuattro B card d 1 (tone = .on) := by
      rw [selectRfInLegacy, if_pos (by rw [hnoted]; rfl)]
    have hevents : .access c ∈ (applyTone B (noteQuattro B card d 1 (tone = .on)) d tone i hw).events ∧
        ((applyTone B (noteQuattro B card d 1 (tone = .on)) d tone i hw).card.rfIns i).tone = tone := by
      rw [applyTone, if_neg (by rw [hmaster, h.master]; simp), hrf, hc]
      exact ⟨by simp [onChip], by simp⟩
    refine ⟨i, c, ?_⟩
    rw [step, setTone]
    dsimp only
    rw [hselect, hnoted]
    exact ⟨applyTone_activeRfIn hnoted, hevents.2, hc, List.mem_append_right _ hevents.1⟩
  | _ => cases hsec

/-! ### What the request of such a caller gives -/

/-- Who uses nothing after a request did not before. -/
theorem answerTo_idle {asked : Card D × Option RfInputControl}
    (hidle : (answerTo B d err asked).1.uses d = none) :
    asked.1.uses d = none ∧
      ((answerTo B d err asked).1.demods d).isMaster = (asked.1.demods d).isMaster := by
  obtain ⟨card, request⟩ := asked
  cases request with
  | none => exact ⟨hidle, rfl⟩
  | some ic =>
    rw [answerTo] at hidle ⊢
    have hanswered := @selectRfIn_answered _ _ _ B card d ic err
    generalize selectRfIn B card d err (some ic) = out at hanswered hidle ⊢
    cases hanswered with
    | refused r _ _ => exact ⟨hidle, rfl⟩
    | broken k m _ _ _ _ =>
      rw [grant_uses_self] at hidle
      cases hidle
    | granted k m _ _ _ _ =>
      rw [crown_uses, grant_uses_self] at hidle
      cases hidle

theorem Reachable.idle_master (h : Reachable B card) : ∀ d, card.uses d = none →
    (card.demods d).isMaster = false := by
  induction h with
  | init => exact fun _ _ => rfl
  | @call card e hw call _ ih =>
    intro d hidle
    rw [step_uses] at hidle
    rw [(step_sec call).demods]
    rcases eq_or_ne d e with rfl | hne
    · have hasked : (answerTo B d hw.err (call.ask B card d)).1.uses d = none →
          ((answerTo B d hw.err (call.ask B card d)).1.demods d).isMaster = false := by
        intro hnone
        obtain ⟨hbefore, hsame⟩ := answerTo_idle hnone
        rw [hsame, ask_isMaster]
        exact ih d ((congrFun call.ask_sameUse.uses d).symm.trans hbefore)
      cases call with
      | sleep =>
        rw [Call.answer] at hidle ⊢
        split
        · rw [release_demods, if_pos rfl]
        · rename_i hact
          rw [if_neg hact] at hidle
          exact ih d hidle
      | _ => exact hasked hidle
    · rw [answer_demods_ne hne]
      refine ih d ?_
      rw [← hidle, Card.uses, Card.uses, answer_demods_ne hne]

omit [DecidableEq D] in
/-- Nothing is in the way of who uses nothing and asks for what nobody uses. -/
theorem Card.Inv.decide_free (h : card.Inv B) (hidle : card.uses d = none)
    (hfree : (card.rfIns i).reservation.useCount = 0)
    (hlegacy : (card.demods d).legacyRfIn = true) (huni : ic.unicableMode = false) :
    reserveDecision B card d ic i = .ok (ic.mode ≠ .slave) := by
  have htuner : (card.tuners (B.chip d) i).reservation.useCount = 0 :=
    Nat.le_zero.mp (hfree ▸ h.tuner_le (B.chip d) i)
  have hactive : (card.demods d).activeTuner = none := hidle
  have hold : card.tunerOf B d = none := by rw [Card.tunerOf, hactive, Option.map_none]
  simp [reserveDecision, hold, h.activeRfIn_eq, hidle, hactive, Reservation.usedByOther, hfree, htuner,
    checkTuner, checkRfIn, hlegacy, huni]

theorem legacyRfInNo_noted :
    legacyRfInNo B (card.setDemod d { card.demods d with legacyRfIn := true }) d =
      legacyRfInNo B card d := by
  rw [legacyRfInNo, legacyRfInNo]
  simp

/-- The request of a caller that never asks, for an RF input that nobody uses. -/
theorem legacy_request (h : card.Inv B) (hidle : card.uses d = none)
    (hfree : (card.rfIns i).reservation.useCount = 0)
    (hno : legacyRfInNo B card d = some ((i : ℕ) : ℤ)) :
    let noted := card.setDemod d { card.demods d with legacyRfIn := true }
    let ic := legacyControl (i : ℕ) mode
    (selectRfInLegacy B card d mode err).1 =
      if err then noted.grant B d ic i (mode ≠ .slave)
      else (noted.grant B d ic i (mode ≠ .slave)).crown d ic i (mode ≠ .slave) := by
  dsimp only
  set noted := card.setDemod d { card.demods d with legacyRfIn := true } with hnoted
  have hsame : SameUse card noted := SameUse.setDemod rfl
  have hidle' : noted.uses d = none := (congrFun hsame.uses d).trans hidle
  have hdec : reserveDecision B noted d (legacyControl (i : ℕ) mode) i = .ok (mode ≠ .slave) :=
    (h.sameUse hsame).decide_free hidle' hfree (by simp [hnoted]) rfl
  have hno' : legacyRfInNo B noted d = some ((i : ℕ) : ℤ) := legacyRfInNo_noted.trans hno
  have hnum : rfInOf (legacyControl (i : ℕ) mode).rfIn = some i := rfInOf_eq_some.mpr rfl
  have hnew : isUnchanged B noted d (legacyControl (i : ℕ) mode) = false :=
    isUnchanged_eq_false hnum (by rw [hidle']; rintro ⟨⟩)
  rw [selectRfInLegacy, if_neg (by rw [h.activeRfIn_eq, hidle]; rintro ⟨⟩)]
  dsimp only
  rw [← hnoted, hno']
  dsimp only
  rw [selectRfIn_some, if_neg (by rw [hnew]; rintro ⟨⟩), hnum]
  dsimp only
  rw [hdec]
  dsimp only
  split <;> rfl

/-- A caller that never asks gets the RF input that is looked up for it, or none. -/
theorem legacy_gets (hidle : card.uses d = none) (hnone : card.activeRfIn B d = none)
    (huse : (selectRfInLegacy B card d mode err).1.uses d = some i) :
    legacyRfInNo B card d = some ((i : ℕ) : ℤ) := by
  rw [selectRfInLegacy, if_neg (by rw [hnone]; rintro ⟨⟩)] at huse
  dsimp only at huse
  rw [legacyRfInNo_noted] at huse
  have hsame : SameUse card (card.setDemod d { card.demods d with legacyRfIn := true }) :=
    SameUse.setDemod rfl
  have hidle' := (congrFun hsame.uses d).trans hidle
  generalize card.setDemod d { card.demods d with legacyRfIn := true } = noted at huse hidle'
  cases hno : legacyRfInNo B card d with
  | none =>
    rw [hno] at huse
    dsimp only at huse
    rw [hidle'] at huse
    cases huse
  | some n =>
    rw [hno] at huse
    dsimp only at huse
    have hanswered := @selectRfIn_answered _ _ _ B noted d (legacyControl n mode) err
    generalize selectRfIn B noted d err (some (legacyControl n mode)) = out at hanswered huse
    have hnum : ∀ k, rfInOf (legacyControl n mode).rfIn = some k → some k = some i →
        some n = some ((i : ℕ) : ℤ) := by
      rintro k hk ⟨⟩
      exact congrArg some (rfInOf_eq_some.mp hk)
    cases hanswered with
    | refused r _ _ =>
      dsimp only at huse
      rw [hidle'] at huse
      cases huse
    | broken k m hk _ _ _ =>
      rw [grant_uses_self] at huse
      exact hnum k hk huse
    | granted k m hk _ _ _ =>
      rw [crown_uses, grant_uses_self] at huse
      exact hnum k hk huse

theorem PowerRun.legacy (h : PowerRun B card power) (hnone : card.activeRfIn B d = none)
    (mode : ReservationMode) (err : Bool) :
    PowerRun B (selectRfInLegacy B card d mode err).1 power := by
  have hrun := h.call d ⟨err, false, 0⟩ (.tune mode)
  have hpower : (Call.tune mode).switches B card power d err = power := by
    change askedPower B d power (legacyAsk B card d mode) = power
    rw [legacyAsk, if_neg (by rw [hnone]; rintro ⟨⟩)]
    dsimp only
    have hsame : SameUse card (card.setDemod d { card.demods d with legacyRfIn := true }) :=
      SameUse.setDemod rfl
    have hnoted : (card.setDemod d { card.demods d with legacyRfIn := true }).activeRfIn B d = none :=
      hsame.activeRfIn.trans hnone
    cases legacyRfInNo B (card.setDemod d { card.demods d with legacyRfIn := true }) d with
    | none => rfl
    | some n =>
      rw [Option.map_some, askedPower, selectRfInPower, hnoted]
      split
      · rfl
      · dsimp only
        split
        · rfl
        · split <;> rfl
  rw [hpower] at hrun
  exact hrun

/-! ### Alone on the default RF input -/

omit [DecidableEq D] in
theorem applyVoltage_cannot (hno : ¬B.setVoltage (B.chip d) = true) :
    (applyVoltage B card d voltage i).card = card := by
  rw [applyVoltage, if_pos hno]
  split <;> rfl

/-- A caller that never asks, when nobody uses its default RF input, controls its secondary equipment
    exactly when no driver call reports an error, the word on the stack reads as a master or slave or as
    a master, its chip can switch voltages, and the RF input looked up for it is the default one. -/
theorem legacy_controls (h : PowerRun B card power) (hnone : card.activeRfIn B d = none)
    (hdefault : B.defaultRfInput d = (i : ℕ)) (hfree : (card.rfIns i).reservation.useCount = 0)
    (word : UInt32) (err : Bool) :
    Controls B (selectRfInLegacy B card d (reservationMode word) err).1 power d i ↔
      err = false ∧ word < 2 ∧ B.setVoltage (B.chip d) = true ∧
        legacyRfInNo B card d = some (B.defaultRfInput d) := by
  have hinv := h.reachable.inv
  have hidle : card.uses d = none := (hinv.activeRfIn_eq d).symm.trans hnone
  have hrun := h.legacy hnone (reservationMode word) err
  have hinv' := hrun.reachable.inv
  rw [hdefault]
  constructor
  · rintro ⟨hmaster, hactive, happlied⟩
    have huse := (hinv'.activeRfIn_eq d).symm.trans hactive
    have hno := legacy_gets hidle hnone huse
    have hcard := @legacy_request _ _ _ B card d i err (reservationMode word) hinv hidle hfree hno
    dsimp only at hcard
    have hmade : err = false ∧ reservationMode word ≠ .slave := by
      rw [hcard] at hmaster
      split at hmaster
      · rw [grant_isMaster, Card.setDemod_demods, if_pos rfl] at hmaster
        exact absurd hmaster (by rw [h.reachable.idle_master d hidle]; nofun)
      · rename_i herr
        rw [crown_isMaster] at hmaster
        exact ⟨Bool.eq_false_iff.mpr herr, of_decide_eq_true hmaster⟩
    refine ⟨hmade.1, ?_, ?_, hno⟩
    · by_contra hslave
      exact hmade.2 (reservationMode_slave.mpr hslave)
    · -- a chip that cannot switch voltages has at most one of two
      by_contra hcannot
      have hrecorded : ∀ voltage, voltage =
          ((selectRfInLegacy B card d (reservationMode word) err).1.rfIns i).voltage := by
        intro voltage
        have hknown := @setVoltage_known _ _ _ B (selectRfInLegacy B card d (reservationMode word) err).1
          d i .slave ⟨false, false, 0⟩ voltage power hactive
        obtain ⟨k, hk, hv, -⟩ := happlied .refl ⟨false, false, 0⟩ (.setVoltage voltage .slave) rfl
        have hrf := @noteQuattro_rfIns _ _ _ B
          (selectRfInLegacy B card d (reservationMode word) err).1 d 2 (voltage = .v18)
        rw [hknown.1, applyVoltage_cannot hcannot] at hk hv
        rw [(noteQuattro_flags _ _).2.2, hactive] at hk
        cases hk
        rw [hrf] at hv
        exact hv.symm
      exact absurd ((hrecorded .v13).trans (hrecorded .v18).symm) nofun
  · rintro ⟨rfl, hword, hcan, hno⟩
    have hcard := @legacy_request _ _ _ B card d i false (reservationMode word) hinv hidle hfree hno
    dsimp only at hcard
    rw [if_neg nofun] at hcard
    have hmode : reservationMode word ≠ .slave := fun hslave => reservationMode_slave.mp hslave hword
    have hserved : Served B (selectRfInLegacy B card d (reservationMode word) false).1 power d i := by
      refine ⟨hrun, ?_, ?_, ?_⟩
      · rw [hcard, crown_isMaster]
        exact decide_eq_true hmode
      · rw [hcard, decide_eq_true hmode]
        simp [Card.crown, grant_demods]
      · rw [hinv'.activeRfIn_eq, hcard, crown_uses, grant_uses_self]
    exact ⟨hserved.master, hserved.active, fun hlater hw call hsec =>
      (hserved.later hlater).applied hcan hw hsec⟩

/-- The first caller on a card, with 0 on the stack. -/
theorem legacy_controls_twin :
    Controls twinBoard (selectRfInLegacy twinBoard (Card.init Bool) false (reservationMode 0) false).1
      (fun _ => .off) false 0 :=
  (legacy_controls (.init fun _ => .off) rfl rfl rfl 0 false).mpr
    ⟨rfl, by decide, rfl, by decide⟩

/-- With another word on the stack the only user of an RF input is no master. -/
theorem legacy_slave : ¬ ∀ card power, PowerRun twinBoard card power → ∀ (d : Bool) (i : RfInNo),
    card.activeRfIn twinBoard d = none → twinBoard.defaultRfInput d = (i : ℕ) →
    (card.rfIns i).reservation.useCount = 0 → ∀ word : UInt32,
      Controls twinBoard (selectRfInLegacy twinBoard card d (reservationMode word) false).1 power
        d i := by
  intro h
  have hmaster := (h (Card.init Bool) (fun _ => .off) (.init _) false 0 rfl rfl rfl 2).master
  exact absurd hmaster (by decide)

end Stid135

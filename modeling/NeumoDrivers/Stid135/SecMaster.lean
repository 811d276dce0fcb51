import NeumoDrivers.Stid135.Masters

/-! Who drives the secondary equipment.

    A demodulator that is no master cannot switch voltage or tone of an RF input it shares, nor
    send DiSEqC messages, because its `isMaster` is off. `isMaster` is set by requests that are
    granted only, and so goes stale when a master moves to another RF input and the hardware
    reports an error (`Stranded`). -/

namespace Stid135
open Holders

variable {D : Type} [DecidableEq D] [Fintype D] {B : Board D} {card card' : Card D} {d e : D}
variable {ic : RfInputControl} {i k : RfInNo} {m err : Bool} {mode : ReservationMode} {hw : Hw}
variable {call : Call} {masters : D → Option RfInNo}

/-- The request of a master for another RF input is granted, and then the hardware reports an
    error. -/
def Stranded (B : Board D) (card : Card D) (d : D) (err : Bool) (call : Call) : Prop :=
  err = true ∧ (card.demods d).isMaster = true ∧
    ∃ ic i m, (call.ask B card d).2 = some ic ∧ rfInOf ic.rfIn = some i ∧ card.uses d ≠ some i ∧
      reserveDecision B (call.ask B card d).1 d ic i = .ok m

/-- Calls that strand no master. -/
def Orderly (B : Board D) (card : Card D) (d : D) (hw : Hw) (call : Call) : Prop :=
  ¬ Stranded B card d hw.err call

/-- Who takes itself for a master is one. -/
def Crowned (card : Card D) (masters : D → Option RfInNo) : Prop :=
  ∀ d, (card.demods d).isMaster = true → ∃ i, masters d = some i

theorem ask_isMaster : ((call.ask B card d).1.demods d).isMaster = (card.demods d).isMaster := by
  obtain ⟨_, _, _, hnoted⟩ := @Call.ask_noted _ _ _ B card d call
  rw [hnoted, Card.setDemod_demods, if_pos rfl]

omit [Fintype D] in
theorem crown_isMaster : ((card.crown d ic i m).demods d).isMaster = m := by
  cases m <;> simp [Card.crown]

omit [Fintype D] in
theorem crown_uses : (card.crown d ic i m).uses d = card.uses d := by
  cases m <;> simp [Card.crown, Card.uses]

theorem grant_isMaster : ((card.grant B d ic i m).demods d).isMaster = (card.demods d).isMaster := by
  rw [grant_demods, if_pos rfl]

/-- The demodulator of a call is a master afterwards if it takes itself for one. -/
theorem mastersAfter_crowned (hcrown : (card.demods d).isMaster = true → ∃ i, masters d = some i)
    (huses : ∀ i, masters d = some i → card.uses d = some i) (hgood : ¬ Stranded B card d err call)
    (hmaster : ((call.answer B card d err).1.demods d).isMaster = true) :
    ∃ i, mastersAfter B card d err call masters d = some i := by
  -- without an answer it stays what it was
  have hstays : (call.answer B card d err).2 ≠ some .master →
      (call.answer B card d err).2 ≠ some .slave → (card.demods d).isMaster = true →
      (call.answer B card d err).1.uses d = card.uses d →
      ∃ i, mastersAfter B card d err call masters d = some i := by
    intro hnot hnot' hold huse
    obtain ⟨i, hi⟩ := hcrown hold
    refine ⟨i, ?_⟩
    rw [mastersAfter_self, masterAfter, if_neg hnot, if_neg hnot', huse, huses i hi, hi, if_pos rfl]
  have hask : ∀ a, a = call.ask B card d → call.answer B card d err = answerTo B d err a →
      ∃ i, mastersAfter B card d err call masters d = some i := by
    rintro ⟨card', _ | ic⟩ ha hans
    · rw [hans] at hstays hmaster
      have hm := @ask_isMaster _ _ _ B card d call
      have hu := congrFun (@Call.ask_sameUse _ _ _ B card d call).uses d
      rw [← ha] at hm hu
      exact hstays (by rintro ⟨⟩) (by rintro ⟨⟩) (hm ▸ hmaster) hu
    · have hm := @ask_isMaster _ _ _ B card d call
      have hu := congrFun (@Call.ask_sameUse _ _ _ B card d call).uses d
      rw [← ha] at hm hu
      have hreq := @selectRfIn_answered _ _ _ B card' d ic err
      have hfst : (call.answer B card d err).1 = (selectRfIn B card' d err (some ic)).1 := by
        rw [hans]
        rfl
      have hsnd : (call.answer B card d err).2 = some (selectRfIn B card' d err (some ic)).2 := by
        rw [hans]
        rfl
      simp only [mastersAfter_self, hfst, hsnd] at hstays hmaster ⊢
      generalize selectRfIn B card' d err (some ic) = out at hreq hmaster hstays ⊢
      cases hreq with
      | refused r hr _ =>
        refine hstays ?_ ?_ (hm ▸ hmaster) hu
        · rintro ⟨⟩
          rcases hr with hr | hr | hr <;> cases hr
        · rintro ⟨⟩
          rcases hr with hr | hr | hr <;> cases hr
      | broken i m hno hdec _ herr =>
        rw [grant_isMaster, hm] at hmaster
        refine hstays (by rintro ⟨⟩) (by rintro ⟨⟩) hmaster ?_
        rw [grant_uses_self]
        by_contra hne
        exact hgood ⟨herr, hmaster, ic, i, m, by rw [← ha], hno, fun h => hne h.symm,
          by rw [← ha]; exact hdec⟩
      | granted i m hno hdec _ _ =>
        rw [crown_isMaster] at hmaster
        subst hmaster
        have hmade : (grantResult true : Option Result) = some .master := rfl
        have huse : ((card'.grant B d ic i true).crown d ic i true).uses d = some i := by
          rw [crown_uses, grant_uses_self]
        exact ⟨i, (if_pos hmade).trans huse⟩
  cases call with
  | sleep =>
    rw [Call.answer] at hmaster hstays
    split at hmaster
    · rw [release_demods, if_pos rfl] at hmaster
      cases hmaster
    · rename_i hact
      rw [if_neg hact] at hstays
      exact hstays (by rintro ⟨⟩) (by rintro ⟨⟩) hmaster rfl
  | _ => exact hask _ rfl rfl

theorem MasterRun.crowned (h : MasterRun B (Orderly B) card masters) : Crowned card masters := by
  induction h with
  | init => rintro d ⟨⟩
  | @call card masters f hw call hrun hgood ih =>
    intro d hd
    rw [(step_sec call).demods] at hd
    rcases eq_or_ne d f with rfl | hne
    · exact mastersAfter_crowned (ih d) (fun i => hrun.uses) hgood hd
    · rw [answer_demods_ne hne] at hd
      rw [mastersAfter_ne hne]
      exact ih d hd

/-! ### What others use -/

/-- The request of a demodulator does not touch voltage and tone of what another one uses. -/
theorem Card.Inv.grant_sec (h : card.Inv B) (he : e ≠ d) (huse : card.uses e = some k) :
    ((card.grant B d ic i m).rfIns k).voltage = (card.rfIns k).voltage ∧
      ((card.grant B d ic i m).rfIns k).tone = (card.rfIns k).tone := by
  rw [h.grant_rfIns]
  split
  · rename_i hk
    subst hk
    have hchip : (card.rfIns k).controllingChip.isSome = true := (h.rfIns k).chip (h.rfIn_pos huse)
    rw [RfIn.connect_of_chip (by exact hchip)]
    exact ⟨rfl, rfl⟩
  · rename_i hk
    split
    · rename_i hd
      have hcount := h.leave_count (x := some i) hd fun heq => hk (Option.some.inj heq).symm
      rw [RfIn.shut_of_pos]
      · exact ⟨rfl, rfl⟩
      · rw [hcount]
        exact count_pos (d := e) (by rw [Function.update_of_ne he]; exact huse)
    · exact ⟨rfl, rfl⟩

theorem Card.Inv.selectRfIn_sec (h : card.Inv B) (he : e ≠ d) (huse : card.uses e = some k) :
    ((selectRfIn B card d err (some ic)).1.rfIns k).voltage = (card.rfIns k).voltage ∧
      ((selectRfIn B card d err (some ic)).1.rfIns k).tone = (card.rfIns k).tone := by
  have hans := @selectRfIn_answered _ _ _ B card d ic err
  generalize selectRfIn B card d err (some ic) = out at hans ⊢
  cases hans with
  | refused r _ _ => exact ⟨rfl, rfl⟩
  | broken i m _ _ _ _ => exact h.grant_sec he huse
  | granted i m _ _ _ _ =>
    have hgrant : ((card.grant B d ic i m).rfIns k).voltage = (card.rfIns k).voltage ∧
        ((card.grant B d ic i m).rfIns k).tone = (card.rfIns k).tone := h.grant_sec he huse
    cases m with
    | false => exact hgrant
    | true =>
      simp only [Card.crown, if_true, Card.setRfIn_rfIns]
      split
      · rename_i hk
        subst hk
        exact hgrant
      · exact hgrant

theorem ask_rfIns : (call.ask B card d).1.rfIns = card.rfIns := by
  obtain ⟨_, _, _, hnoted⟩ := @Call.ask_noted _ _ _ B card d call
  rw [hnoted]
  rfl

/-! ### The calls for the secondary equipment -/

/-- `FE_SET_VOLTAGE`, `FE_SET_TONE` and the sending of DiSEqC messages. -/
def Call.drivesSec : Call → Bool
  | .setVoltage .. | .setTone .. | .sendLongMasterCmd .. => true
  | _ => false

def Event.isSend : Event → Bool
  | .send .. => true
  | _ => false

theorem drivesSec_answer (hsec : call.drivesSec = true) :
    call.answer B card d err = answerTo B d err (call.ask B card d) := by
  cases call <;> first | rfl | cases hsec

theorem Card.Inv.answer_sec (h : card.Inv B) (hsec : call.drivesSec = true) (he : e ≠ d)
    (huse : card.uses e = some k) :
    ((call.answer B card d err).1.rfIns k).voltage = (card.rfIns k).voltage ∧
      ((call.answer B card d err).1.rfIns k).tone = (card.rfIns k).tone := by
  rw [drivesSec_answer hsec]
  have hsame := @Call.ask_sameUse _ _ _ B card d call
  have hrf := @ask_rfIns _ _ _ B card d call
  generalize call.ask B card d = asked at hsame hrf ⊢
  obtain ⟨card', _ | ic⟩ := asked
  · rw [answerTo, hrf]
    exact ⟨rfl, rfl⟩
  · have hinv : card'.Inv B := h.sameUse hsame
    have heq : ((selectRfIn B card' d err (some ic)).1.rfIns k).voltage = (card'.rfIns k).voltage ∧
        ((selectRfIn B card' d err (some ic)).1.rfIns k).tone = (card'.rfIns k).tone :=
      hinv.selectRfIn_sec he (by rw [hsame.uses]; exact huse)
    rw [hrf] at heq
    exact heq

/-- No event sends a DiSEqC message. -/
def Quiet (events : List Event) : Prop := ∀ ev ∈ events, ev.isSend = false

theorem Quiet.append {l l' : List Event} (h : Quiet l) (h' : Quiet l') : Quiet (l ++ l') := by
  intro ev hev
  rcases List.mem_append.mp hev with hev | hev
  · exact h ev hev
  · exact h' ev hev

theorem Quiet.onCard {l : List Event} (h : Quiet l) : Quiet (onCard l) := by
  refine Quiet.append (l := .lockCard :: l) ?_ (by rintro ev (_ | ⟨_, ⟨⟩⟩); rfl)
  rintro ev (_ | ⟨_, hev⟩)
  · rfl
  · exact h ev hev

theorem Quiet.onChip {l : List Event} (c : ChipNo) (h : Quiet l) : Quiet (onChip c l) := by
  refine Quiet.append (l := .lock c :: l) ?_ (by rintro ev (_ | ⟨_, ⟨⟩⟩); rfl)
  rintro ev (_ | ⟨_, hev⟩)
  · rfl
  · exact h ev hev

theorem Quiet.nil : Quiet [] := by
  rintro ev ⟨⟩

omit [DecidableEq D] in
theorem closeOldRfInEvents_quiet (held : Bool) (o : Option RfInNo) :
    Quiet (closeOldRfInEvents B card d held o) := by
  intro ev hev
  unfold closeOldRfInEvents at hev
  split at hev
  · cases hev
  · split at hev
    · cases hev
    · split_ifs at hev
      · cases hev
      · simp only [List.mem_cons, List.not_mem_nil, or_false] at hev
        rcases hev with rfl | rfl | rfl <;> rfl
      · rw [List.mem_singleton.mp hev]
        rfl

omit [DecidableEq D] in
theorem closeOldTunerEvents_quiet (o : Option RfInNo) : Quiet (closeOldTunerEvents B card d o) := by
  intro ev hev
  unfold closeOldTunerEvents at hev
  split at hev
  · cases hev
  · split_ifs at hev
    · rw [List.mem_singleton.mp hev]
      rfl
    · cases hev

omit [DecidableEq D] in
theorem openNewEvents_quiet : Quiet (openNewEvents B card d i) := by
  intro ev hev
  unfold openNewEvents at hev
  split_ifs at hev <;> simp at hev <;> rw [hev] <;> rfl

theorem selectRfInEvents_quiet (held : Bool) (request : Option RfInputControl) :
    Quiet (selectRfInEvents B card d held request) := by
  cases request with
  | none => exact (closeOldRfInEvents_quiet held _).append (closeOldTunerEvents_quiet _)
  | some ic =>
    rw [selectRfInEvents]
    split
    · exact Quiet.nil
    · simp only
      split
      · exact Quiet.nil
      · split
        · exact Quiet.nil
        · exact ((closeOldRfInEvents_quiet held _).append (closeOldTunerEvents_quiet _)).append
            openNewEvents_quiet

theorem selectRfInLegacyEvents_quiet (held : Bool) :
    Quiet (selectRfInLegacyEvents B card d mode held) := by
  rw [selectRfInLegacyEvents]
  split
  · exact Quiet.nil
  · simp only
    split
    · exact Quiet.nil
    · exact selectRfInEvents_quiet held _

theorem legacyOnChip_quiet : Quiet (legacyOnChip B card d mode) := by
  rw [legacyOnChip]
  split
  · exact Quiet.nil
  · exact ((selectRfInLegacyEvents_quiet true).onCard).onChip _

/-- A demodulator that is no master leaves alone what it shares outside of unicable mode. -/
theorem drivesSec_idle (hsec : call.drivesSec = true)
    (hact : (call.answer B card d hw.err).1.activeRfIn B d = some i)
    (hmaster : ((call.answer B card d hw.err).1.demods d).isMaster = false)
    (hshared : ((call.answer B card d hw.err).1.rfIns i).reservation.useCount ≠ 1)
    (huni : ((call.answer B card d hw.err).1.rfIns i).unicableMode = false) :
    (step B card d hw call).card.rfIns i = (call.answer B card d hw.err).1.rfIns i ∧
      Quiet (step B card d hw call).events := by
  cases call with
  | setVoltage voltage mode =>
    have happly : ∀ c : Card D, (c.demods d).isMaster = false →
        (c.rfIns i).reservation.useCount ≠ 1 → (c.rfIns i).unicableMode = false →
        (applyVoltage B c d voltage i).card = c ∧ (applyVoltage B c d voltage i).events = [] := by
      intro c hm hs hu
      rw [applyVoltage, if_pos (by simp [maySetVoltage, hm, hs, hu])]
      exact ⟨rfl, rfl⟩
    rw [step, setVoltage_eq]
    simp only [hact]
    split
    · exact ⟨rfl, Quiet.nil⟩
    · obtain ⟨hcard, hevents⟩ := happly _ hmaster hshared huni
      rw [hcard, hevents, List.append_nil]
      refine ⟨rfl, ?_⟩
      split
      · exact legacyOnChip_quiet
      · exact Quiet.nil
  | setTone tone mode =>
    simp only [Call.answer, Call.ask] at hact hmaster hshared huni ⊢
    simp only [step, setTone, selectRfInLegacy_eq, hact, applyTone, hmaster, Bool.false_eq_true,
      not_false_eq_true, if_true, List.append_nil]
    exact ⟨by trivial, legacyOnChip_quiet⟩
  | sendLongMasterCmd msg mode =>
    simp only [Call.answer, Call.ask] at hact hmaster hshared huni ⊢
    simp only [step, sendLongMasterCmd, selectRfInLegacy_eq]
    split
    · exact ⟨rfl, Quiet.nil.onChip _⟩
    · rename_i hmode
      rw [if_neg hmode] at hact hmaster hshared huni
      have hcmd : ∀ n, applyMasterCmd B (answerTo B d hw.err (legacyAsk B card d mode)).1 d msg i hw n
          = (0, []) := by
        intro n
        rw [applyMasterCmd, if_pos (by simp [hmaster, huni])]
      simp only [hact, hcmd, List.append_nil]
      refine ⟨by trivial, Quiet.onChip _ ?_⟩
      split
      · exact Quiet.nil
      · exact (selectRfInLegacyEvents_quiet true).onCard
  | _ => cases hsec

/-- A call for the secondary equipment strands no master: it asks only when it uses nothing. -/
theorem drivesSec_orderly (hsec : call.drivesSec = true) (hinv : card.Inv B)
    (hcrown : Crowned card masters) (huses : ∀ d i, masters d = some i → card.uses d = some i) :
    ¬ Stranded B card d err call := by
  rintro ⟨-, hmaster, ic, -, -, hask, -⟩
  obtain ⟨i, hi⟩ := hcrown d hmaster
  have hact : ∀ c : Card D, SameUse card c → (c.activeRfIn B d).isSome = true := by
    intro c hc
    rw [(hinv.sameUse hc).activeRfIn_eq, hc.uses, huses d i hi]
    rfl
  have hlegacy : ∀ c : Card D, SameUse card c → ∀ mode, (legacyAsk B c d mode).2 = none := by
    intro c hc mode
    rw [legacyAsk, if_pos (hact c hc)]
  have hnone : (call.ask B card d).2 = none := by
    cases call with
    | setVoltage voltage mode =>
      simp only [Call.ask]
      split
      · exact hlegacy _ (noteQuattro_sameUse _ _) mode
      · rfl
    | setTone tone mode => exact hlegacy _ (noteQuattro_sameUse _ _) mode
    | sendLongMasterCmd msg mode =>
      simp only [Call.ask]
      split
      · rfl
      · exact hlegacy _ (SameUse.refl card) mode
    | _ => cases hsec
  rw [hnone] at hask
  cases hask

/-- In a run that strands no master, a demodulator which is not the master of its RF input switches
    neither voltage nor tone of it and sends no message while another one uses it. -/
theorem only_master_drives (h : MasterRun B (Orderly B) card masters) (hsec : call.drivesSec = true)
    (hd : (call.answer B card d hw.err).1.activeRfIn B d = some i)
    (hmaster : mastersAfter B card d hw.err call masters d ≠ some i) (he : e ≠ d)
    (hshared : card.activeRfIn B e = some i)
    (huni : ((call.answer B card d hw.err).1.rfIns i).unicableMode = false) :
    ((step B card d hw call).card.rfIns i).voltage = (card.rfIns i).voltage ∧
      ((step B card d hw call).card.rfIns i).tone = (card.rfIns i).tone ∧
      ∀ c k msg, .send c k msg ∉ (step B card d hw call).events := by
  have hinv := h.reachable.inv
  have hinv' : (call.answer B card d hw.err).1.Inv B := hinv.answer_inv call
  rw [hinv.activeRfIn_eq] at hshared
  have hact := hd
  rw [hinv'.activeRfIn_eq] at hd
  have hidle : ((call.answer B card d hw.err).1.demods d).isMaster = false := by
    by_contra hcrowned
    rw [Bool.not_eq_false] at hcrowned
    have huses : ∀ d i, masters d = some i → card.uses d = some i := fun d i => h.uses
    obtain ⟨j, hj⟩ := mastersAfter_crowned (h.crowned d) (huses d)
      (drivesSec_orderly hsec hinv h.crowned huses) hcrowned
    rw [mastersAfter_self] at hj hmaster
    rcases masterAfter_eq_some hj with ⟨_, huse⟩ | ⟨huse, _⟩
    · exact hmaster (hj.trans (huse.symm.trans hd))
    · exact hmaster (hj.trans (huse.symm.trans hd))
  have hmany : ((call.answer B card d hw.err).1.rfIns i).reservation.useCount ≠ 1 := by
    intro hone
    rw [hinv'.rfInUse] at hone
    refine he ((count_eq_one hd).mp hone e ?_)
    rw [Card.uses, answer_demods_ne he]
    exact hshared
  obtain ⟨hrf, hquiet⟩ := drivesSec_idle hsec hact hidle hmany huni
  obtain ⟨hv, ht⟩ : ((call.answer B card d hw.err).1.rfIns i).voltage = (card.rfIns i).voltage ∧
      ((call.answer B card d hw.err).1.rfIns i).tone = (card.rfIns i).tone :=
    hinv.answer_sec hsec he hshared
  rw [hrf]
  refine ⟨hv, ht, fun c k msg hsend => ?_⟩
  exact absurd (hquiet _ hsend) (by simp [Event.isSend])

/-- Calls one after the other, and the masters they lead to. -/
def runCalls (B : Board D) : List (D × Hw × Call) → Card D × (D → Option RfInNo) →
    Card D × (D → Option RfInNo)
  | [], state => state
  | (d, hw, call) :: calls, (card, masters) =>
    runCalls B calls ((step B card d hw call).card, mastersAfter B card d hw.err call masters)

theorem runCalls_run : ∀ (calls : List (D × Hw × Call)) {card masters},
    MasterRun B (Orderly B) card masters → (∀ c ∈ calls, c.2.1.err = false) →
    MasterRun B (Orderly B) (runCalls B calls (card, masters)).1 (runCalls B calls (card, masters)).2
  | [], _, _, h, _ => h
  | (d, hw, call) :: calls, _, _, h, hgood => by
    rw [runCalls]
    refine runCalls_run calls (h.call d hw call ?_) fun c hc => hgood c (List.mem_cons_of_mem _ hc)
    rintro ⟨herr, -⟩
    rw [hgood _ List.mem_cons_self] at herr
    cases herr

/-- A demodulator becomes master of RF input 0 and one of the other chip its slave. -/
def shareFirst : List (Bool × Hw × Call) :=
  [(false, goodHw, askFirst), (false, goodHw, .setSecReady),
    (true, goodHw, .setRfInput ⟨7, 1, false, 0, .slave⟩)]

theorem only_master_drives_twin :
    let state := runCalls twinBoard shareFirst (Card.init Bool, fun _ => none)
    let call : Call := .setTone .on .slave
    ((step twinBoard state.1 true goodHw call).card.rfIns 0).voltage = (state.1.rfIns 0).voltage ∧
      ((step twinBoard state.1 true goodHw call).card.rfIns 0).tone = (state.1.rfIns 0).tone ∧
      ∀ c k msg, .send c k msg ∉ (step twinBoard state.1 true goodHw call).events := by
  intro state call
  have hrun : MasterRun twinBoard (Orderly twinBoard) state.1 state.2 :=
    runCalls_run shareFirst .init (by decide)
  exact @only_master_drives _ _ _ _ _ true false 0 goodHw call _ hrun (by decide) (by decide)
    (by decide) (by decide) (by decide) (by decide)

/-- Both demodulators are masters, of different RF inputs, when the hardware reports an error to
    one that is becoming a slave of the other. -/
def strandFirst : List (Bool × Hw × Call) :=
  [(false, goodHw, askFirst), (true, goodHw, .setRfInput ⟨7, 1, false, 1, .masterOrSlave⟩),
    (true, goodHw, .setSecReady),
    (false, ⟨true, false, 0⟩, .setRfInput ⟨7, 1, false, 1, .slave⟩)]

theorem runCalls_any : ∀ (calls : List (D × Hw × Call)) {card masters},
    MasterRun B (fun _ _ _ _ => True) card masters →
    MasterRun B (fun _ _ _ _ => True) (runCalls B calls (card, masters)).1
      (runCalls B calls (card, masters)).2
  | [], _, _, h => h
  | (d, hw, call) :: calls, _, _, h => runCalls_any calls (h.call d hw call trivial)

/-- Then it switches the tone of an RF input that another one is the master of. -/
theorem stranded_drives : ¬ ∀ card masters, MasterRun twinBoard (fun _ _ _ _ => True) card masters →
    ∀ (d e : Bool) (i : RfInNo) (hw : Hw) (call : Call), call.drivesSec = true →
      (call.answer twinBoard card d hw.err).1.activeRfIn twinBoard d = some i →
      mastersAfter twinBoard card d hw.err call masters d ≠ some i → e ≠ d →
      card.activeRfIn twinBoard e = some i →
      ((call.answer twinBoard card d hw.err).1.rfIns i).unicableMode = false →
      ((step twinBoard card d hw call).card.rfIns i).tone = (card.rfIns i).tone := by
  intro h
  have hrun := @runCalls_any _ _ _ twinBoard strandFirst (Card.init Bool) (fun _ => none) .init
  have hsame := h _ _ hrun false true 1 goodHw (.setTone .on .slave) (by decide) (by decide)
    (by decide) (by decide) (by decide) (by decide)
  exact absurd hsame (by decide)

end Stid135

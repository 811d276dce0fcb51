import NeumoDrivers.Stid135.Requests

/-! Who is master of an RF input.

    `mastersAfter` follows the answers that demodulators get: the one that was told to be master of
    an RF input is its master as long as it uses it. A request is answered so while others use the
    RF input only if they do so through the other chip (`Contested`). -/

namespace Stid135
open Holders

variable {D : Type} [DecidableEq D] [Fintype D] {B : Board D} {card card' : Card D} {d e : D}
variable {ic : RfInputControl} {i k : RfInNo} {m err : Bool} {mode : ReservationMode} {hw : Hw}
variable {call : Call} {masters : D → Option RfInNo}

/-- The RF input that a demodulator is master of after an answer: `use` is the one it then uses,
    `old` what it was master of. -/
def masterAfter (result : Option Result) (use old : Option RfInNo) : Option RfInNo :=
  if result = some .master then use
  else if result = some .slave then none
  else if use = old then old
  else none

/-- Each demodulator's RF input if it is its master, after a call on `d`. -/
def mastersAfter (B : Board D) (card : Card D) (d : D) (err : Bool) (call : Call)
    (masters : D → Option RfInNo) : D → Option RfInNo :=
  let (card', result) := call.answer B card d err
  Function.update masters d (masterAfter result (card'.uses d) (masters d))

theorem mastersAfter_self : mastersAfter B card d err call masters d =
    masterAfter (call.answer B card d err).2 ((call.answer B card d err).1.uses d) (masters d) :=
  Function.update_self ..

theorem masterAfter_eq_some {result : Option Result} {use old : Option RfInNo}
    (h : masterAfter result use old = some i) :
    result = some .master ∧ use = some i ∨ use = some i ∧ old = some i := by
  rw [masterAfter] at h
  split at h
  · rename_i hres
    exact Or.inl ⟨hres, h⟩
  · split at h
    · cases h
    · split at h
      · rename_i huse
        exact Or.inr ⟨huse.trans h, h⟩
      · cases h

theorem mastersAfter_ne (he : e ≠ d) : mastersAfter B card d err call masters e = masters e :=
  Function.update_of_ne he ..

/-- Runs with the masters they lead to, all of whose calls are in order. -/
inductive MasterRun (B : Board D) (Good : Card D → D → Hw → Call → Prop) :
    Card D → (D → Option RfInNo) → Prop where
  | init : MasterRun B Good (Card.init D) fun _ => none
  | call {card : Card D} {masters : D → Option RfInNo} (d : D) (hw : Hw) (call : Call) :
      MasterRun B Good card masters → Good card d hw call →
      MasterRun B Good (step B card d hw call).card (mastersAfter B card d hw.err call masters)

variable {Good : Card D → D → Hw → Call → Prop}

theorem MasterRun.reachable (h : MasterRun B Good card masters) : Reachable B card := by
  induction h with
  | init => exact .init
  | call d hw call _ _ ih => exact .call d hw call ih

/-! ### A call does not touch the other demodulators -/

omit [Fintype D] in
theorem crown_demods_ne (he : e ≠ d) : (card.crown d ic i m).demods e = card.demods e := by
  have hset : (card.setDemod d { card.demods d with isMaster := m }).demods e = card.demods e := by
    rw [Card.setDemod_demods, if_neg he]
  cases m with
  | false => exact hset
  | true => exact hset

theorem selectRfIn_demods_ne (he : e ≠ d) (request : Option RfInputControl) :
    (selectRfIn B card d err request).1.demods e = card.demods e := by
  cases request with
  | none =>
    rw [selectRfIn_none, release_demods, if_neg he]
  | some ic =>
    have hgrant : ∀ i m, (card.grant B d ic i m).demods e = card.demods e := fun i m => by
      rw [grant_demods, if_neg he]
    have hans := @selectRfIn_answered _ _ _ B card d ic err
    generalize selectRfIn B card d err (some ic) = out at hans ⊢
    cases hans with
    | refused r _ _ => rfl
    | broken i m _ _ _ _ => exact hgrant i m
    | granted i m _ _ _ _ => exact (crown_demods_ne he).trans (hgrant i m)

theorem ask_demods_ne (he : e ≠ d) : (call.ask B card d).1.demods e = card.demods e := by
  obtain ⟨_, _, _, hnoted⟩ := @Call.ask_noted _ _ _ B card d call
  rw [hnoted, Card.setDemod_demods, if_neg he]

theorem answer_demods_ne (he : e ≠ d) :
    (call.answer B card d err).1.demods e = card.demods e := by
  have hask : (answerTo B d err (call.ask B card d)).1.demods e = card.demods e := by
    have hbefore := @ask_demods_ne _ _ _ B card d e call he
    rcases hasked : call.ask B card d with ⟨card', _ | ic⟩
    · rw [hasked] at hbefore
      exact hbefore
    · rw [hasked] at hbefore
      exact (selectRfIn_demods_ne he _).trans hbefore
  cases call with
  | sleep =>
    rw [Call.answer]
    split
    · rw [release_demods, if_neg he]
    · rfl
  | _ => exact hask

theorem step_uses : (step B card d hw call).card.uses = (call.answer B card d hw.err).1.uses :=
  funext fun e => congrArg (fun f => (f e).activeTuner) (step_sec call).demods

theorem step_uses_ne (he : e ≠ d) : (step B card d hw call).card.uses e = card.uses e := by
  rw [step_uses, Card.uses, answer_demods_ne he]
  rfl

theorem MasterRun.uses (h : MasterRun B Good card masters) {d : D} {i : RfInNo}
    (hd : masters d = some i) : card.uses d = some i := by
  induction h generalizing d i with
  | init => cases hd
  | @call card masters f hw call _ _ ih =>
    rcases eq_or_ne d f with rfl | hne
    · rw [mastersAfter_self] at hd
      rw [step_uses]
      rcases masterAfter_eq_some hd with ⟨_, huse⟩ | ⟨huse, _⟩
      · exact huse
      · exact huse
    · rw [mastersAfter_ne hne] at hd
      rw [step_uses_ne hne]
      exact ih hd

/-! ### When a master does not come alone -/


omit [DecidableEq D] in
/-- With others on the RF input, a request can make a master only through the other chip. -/
theorem Card.Inv.decideShares_master (h : card.Inv B) (he : e ≠ d) (huse : card.uses e = some i) :
    decideShares B card d ic i = .ok true ↔
      ic.mode ≠ .slave ∧ (card.tuners (B.chip d) i).reservation.useCount = 0 := by
  -- the demodulator is not the only user
  have hnot : ¬ ((card.rfIns i).reservation.useCount = 1 ∧ card.uses d = some i) := by
    rintro ⟨hone, hd⟩
    rw [h.rfInUse] at hone
    exact he ((count_eq_one hd).mp hone e huse)
  rcases Nat.eq_zero_or_pos (card.tuners (B.chip d) i).reservation.useCount with h0 | hpos
  · have htuner : checkTuner ic (card.tuners (B.chip d) i).reservation (card.uses d = some i)
        (ic.mode ≠ .slave) = .ok (ic.mode ≠ .slave) := by
      simp [checkTuner, h0]
    have hrf : ∀ l m, checkRfIn ic (card.tuners (B.chip d) i).reservation
        (card.rfIns i).reservation (card.uses d = some i) l m = .ok m := by
      intro l m
      simp [checkRfIn, h0]
    simp only [decideShares, htuner, hrf]
    by_cases hslave : ic.mode = .slave
    · simp only [hslave, ne_eq, not_true_eq_false, decide_false, false_and, iff_false]
      split_ifs <;> rintro ⟨⟩
    · simp [hslave, h0]
  · refine ⟨fun hdec => ?_, fun hdec => absurd hdec.2 (Nat.ne_of_gt hpos)⟩
    rw [decideShares] at hdec
    split at hdec
    · cases hdec
    · split at hdec
      · cases hdec
      · rename_i m hcheck
        rw [checkRfIn, if_neg (by simpa using hnot), if_pos hpos] at hcheck
        split_ifs at hcheck
        cases hcheck
        split_ifs at hdec <;> cases hdec

/-- A call makes its demodulator the master of an RF input. -/
def MadeMaster (B : Board D) (card : Card D) (d : D) (err : Bool) (call : Call) (i : RfInNo) :
    Prop :=
  (call.answer B card d err).2 = some .master ∧ (call.answer B card d err).1.uses d = some i

/-- A call asks, not as a slave, for an RF input whose users are all on the other chip, and nothing
    else is in the way. -/
def Contested (B : Board D) (card : Card D) (d : D) (err : Bool) (call : Call) (i : RfInNo) : Prop :=
  ∃ ic, (call.ask B card d).2 = some ic ∧ rfInOf ic.rfIn = some i ∧ ic.mode ≠ .slave ∧
    (card.tuners (B.chip d) i).reservation.useCount = 0 ∧
    0 < (card.rfIns i).reservation.useCount ∧ card.OwnersOk d ic i ∧ err = false

/-- Whom a request makes master. -/
theorem selectRfIn_master :
    (selectRfIn B card d err (some ic)).2 = .master ∧
        (selectRfIn B card d err (some ic)).1.uses d = some i ↔
      rfInOf ic.rfIn = some i ∧ reserveDecision B card d ic i = .ok true ∧
        isUnchanged B card d ic = false ∧ err = false := by
  have hcrown : ∀ i m, ((card.grant B d ic i m).crown d ic i m).uses d = some i := by
    intro i m
    rw [Card.uses, Card.crown]
    cases m <;> simp [grant_demods]
  constructor
  · rintro ⟨hres, huse⟩
    have hans := @selectRfIn_answered _ _ _ B card d ic err
    generalize selectRfIn B card d err (some ic) = out at hans hres huse
    cases hans with
    | refused r hr _ =>
      cases hres
      rcases hr with hr | hr | hr <;> cases hr
    | broken j m _ _ _ _ => cases hres
    | granted j m hno hdec hnew herr =>
      rw [hcrown] at huse
      cases huse
      cases m with
      | false => cases hres
      | true => exact ⟨hno, hdec, hnew, herr⟩
  · rintro ⟨hno, hdec, hnew, herr⟩
    rw [selectRfIn_some, if_neg (by rw [hnew]; exact Bool.false_ne_true)]
    simp only [hno, hdec, herr, Bool.false_eq_true, if_false]
    exact ⟨rfl, hcrown i true⟩

omit [Fintype D] [DecidableEq D] in
theorem SameUse.ownersOk (h : SameUse card card') :
    card'.OwnersOk d ic i ↔ card.OwnersOk d ic i := by
  simp only [Card.OwnersOk, Card.OldOwner, h.uses, h.reservation]

omit [DecidableEq D] in
theorem isUnchanged_eq_false (hno : rfInOf ic.rfIn = some i) (hd : card.uses d ≠ some i) :
    isUnchanged B card d ic = false := by
  rw [isUnchanged, decide_eq_false_iff_not]
  rintro ⟨-, heq, -⟩
  rw [rfInOf_eq_some.mp hno] at heq
  exact hd (numberOf_eq.mp heq.symm)

theorem Card.Inv.madeMaster_iff (h : card.Inv B) :
    MadeMaster B card d err call i ∧ (∃ e, e ≠ d ∧ card.uses e = some i) ↔
      Contested B card d err call i := by
  have hsame : SameUse card (call.ask B card d).1 := call.ask_sameUse
  have hinv := h.sameUse hsame
  -- only a call that asks is answered
  have hanswer : MadeMaster B card d err call i ↔ ∃ ic, (call.ask B card d).2 = some ic ∧
      (selectRfIn B (call.ask B card d).1 d err (some ic)).2 = .master ∧
      (selectRfIn B (call.ask B card d).1 d err (some ic)).1.uses d = some i := by
    have hask : (answerTo B d err (call.ask B card d)).2 = some .master ∧
        (answerTo B d err (call.ask B card d)).1.uses d = some i ↔
        ∃ ic, (call.ask B card d).2 = some ic ∧
          (selectRfIn B (call.ask B card d).1 d err (some ic)).2 = .master ∧
          (selectRfIn B (call.ask B card d).1 d err (some ic)).1.uses d = some i := by
      rcases call.ask B card d with ⟨card', _ | ic⟩
      · simp [answerTo]
      · simp [answerTo]
    cases call with
    | sleep =>
      rw [MadeMaster, Call.answer]
      constructor
      · rintro ⟨hres, -⟩
        split at hres <;> cases hres
      · rintro ⟨ic, hic, -⟩
        cases hic
    | _ => exact hask
  rw [hanswer]
  constructor
  · rintro ⟨⟨ic, hic, hmaster⟩, e, he, huse⟩
    obtain ⟨hno, hdec, hnew, herr⟩ := selectRfIn_master.mp hmaster
    rcases hinv.reserveDecision_eq d ic i with ⟨howners, heq⟩ | ⟨_, heq⟩
    · rw [heq, hinv.decideShares_master he (by rw [hsame.uses]; exact huse), hsame.tuners] at hdec
      exact ⟨ic, hic, hno, hdec.1, hdec.2, h.rfIn_pos huse, hsame.ownersOk.mp howners, herr⟩
    · rw [heq] at hdec
      cases hdec
  · rintro ⟨ic, hic, hno, hmode, hfree, hpos, howners, herr⟩
    have hd : card.uses d ≠ some i := fun hd => Nat.ne_of_gt (h.tuner_pos hd) hfree
    obtain ⟨e, huse⟩ : ∃ e, card.uses e = some i := by
      by_contra hnone
      rw [h.rfInUse, count_eq_zero.mpr fun e he => hnone ⟨e, he⟩] at hpos
      exact absurd hpos (Nat.lt_irrefl 0)
    have he : e ≠ d := fun heq => hd (heq ▸ huse)
    refine ⟨⟨ic, hic, selectRfIn_master.mpr ⟨hno, ?_, ?_, herr⟩⟩, e, he, huse⟩
    · rcases hinv.reserveDecision_eq d ic i with ⟨_, heq⟩ | ⟨hnot, _⟩
      · rw [heq, hinv.decideShares_master he (by rw [hsame.uses]; exact huse), hsame.tuners]
        exact ⟨hmode, hfree⟩
      · exact absurd (hsame.ownersOk.mpr howners) hnot
    · exact isUnchanged_eq_false hno (by rw [hsame.uses]; exact hd)

/-- In a run without contested requests, a master is alone when it is told so. -/
theorem MasterRun.made_alone (h : MasterRun B Good card masters)
    (hgood : ¬ Contested B card d err call i) (hmade : MadeMaster B card d err call i) :
    ∀ e, e ≠ d → card.uses e ≠ some i := by
  intro e he huse
  exact hgood (h.reachable.inv.madeMaster_iff.mp ⟨hmade, e, he, huse⟩)

/-- Calls that make no request for an RF input whose users are all on the other chip. -/
def Uncontested (B : Board D) (card : Card D) (d : D) (hw : Hw) (call : Call) : Prop :=
  ∀ i, ¬ Contested B card d hw.err call i

/-- A run of such calls grants an RF input to a master only when nobody else uses it, and no RF
    input ever has two masters. -/
theorem single_master (h : MasterRun B (Uncontested B) card masters) :
    (∀ d hw call i, Uncontested B card d hw call → MadeMaster B card d hw.err call i →
        ∀ e, e ≠ d → card.activeRfIn B e ≠ some i) ∧
      ∀ d e i, masters d = some i → masters e = some i → d = e := by
  refine ⟨fun d hw call i hgood hmade e he => ?_, ?_⟩
  · rw [h.reachable.inv.activeRfIn_eq]
    exact h.made_alone (hgood i) hmade e he
  · induction h with
    | init => rintro d e i ⟨⟩
    | @call card masters f hw call hrun hgood ih =>
      -- of two masters at most one is new, and a new one found nobody
      have hnew : ∀ d i, mastersAfter B card f hw.err call masters f = some i → d ≠ f →
          masters d = some i → masters f = some i := by
        intro d i hf hd hold
        rw [mastersAfter_self] at hf
        rcases masterAfter_eq_some hf with ⟨hres, huse⟩ | ⟨_, hstill⟩
        · exact absurd (hrun.uses hold) (hrun.made_alone (hgood i) ⟨hres, huse⟩ d hd)
        · exact hstill
      intro d e i hd he
      rcases eq_or_ne d f with rfl | hdf
      · rcases eq_or_ne e d with rfl | hed
        · rfl
        · have hold : masters e = some i := by
            rwa [mastersAfter_ne hed] at he
          exact ih d e i (hnew e i hd hed hold) hold
      · have hold : masters d = some i := by
          rwa [mastersAfter_ne hdf] at hd
        rcases eq_or_ne e f with rfl | hef
        · exact ih d e i hold (hnew d i he hdf hold)
        · rw [mastersAfter_ne hef] at he
          exact ih d e i hold he

/-- A request of owner 7 for RF input 0, to be master if possible. -/
def askFirst : Call := .setRfInput ⟨7, 1, false, 0, .masterOrSlave⟩

theorem single_master_twin :
    let masters := mastersAfter twinBoard (Card.init Bool) false false askFirst fun _ => none
    masters false = some 0 ∧ ∀ e, masters e = some 0 → e = false := by
  have hfree : Uncontested twinBoard (Card.init Bool) false goodHw askFirst := by
    rintro i ⟨ic, -, -, -, -, hpos, -⟩
    exact absurd hpos (Nat.lt_irrefl 0)
  have hrun : MasterRun twinBoard (Uncontested twinBoard) _ _ :=
    .call false goodHw askFirst .init hfree
  exact ⟨by decide, fun e he => (single_master hrun).2 e false 0 he (by decide)⟩

/-- The demodulators of both chips become masters of RF input 0. -/
theorem two_masters : ¬ ∀ card masters, MasterRun twinBoard (fun _ _ _ _ => True) card masters →
    ∀ d e i, masters d = some i → masters e = some i → d = e := by
  intro h
  have hrun : MasterRun twinBoard (fun _ _ _ _ => True) _ _ :=
    .call true goodHw askFirst (.call false goodHw askFirst .init trivial) trivial
  exact absurd (h _ _ hrun false true 0 (by decide) (by decide)) (by decide)

end Stid135

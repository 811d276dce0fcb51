import NeumoDrivers.Stid135.Masters

/-! For whom an RF input is in use.

    `ownersAfter` follows the owners that demodulators have reserved for. All that use one RF input
    have the owner noted there (`OwnedBy`), and a request of another owner fails, unless the
    demodulator uses what is asked for already: then the owner is not looked at. -/

namespace Stid135
open Holders

variable {D : Type} [DecidableEq D] [Fintype D] {B : Board D} {card card' : Card D} {d e : D}
variable {ic : RfInputControl} {i k : RfInNo} {m err : Bool} {hw : Hw} {call : Call}
variable {owners : D → ℤ}

/-- The owner for whom each demodulator has reserved last, after a call on `d`. -/
def ownersAfter (B : Board D) (card : Card D) (d : D) (call : Call) (owners : D → ℤ) : D → ℤ :=
  match call.ask B card d with
  | (_, none) => owners
  | (card', some ic) => if reserves B card' d ic then Function.update owners d ic.owner else owners

/-- Runs with the owners they lead to. -/
inductive OwnerRun (B : Board D) : Card D → (D → ℤ) → Prop where
  | init (owners : D → ℤ) : OwnerRun B (Card.init D) owners
  | call {card : Card D} {owners : D → ℤ} (d : D) (hw : Hw) (call : Call) :
      OwnerRun B card owners →
      OwnerRun B (step B card d hw call).card (ownersAfter B card d call owners)

theorem OwnerRun.reachable (h : OwnerRun B card owners) : Reachable B card := by
  induction h with
  | init => exact .init
  | call d hw call _ ih => exact .call d hw call ih

/-- Who uses an RF input has reserved for its owner. -/
def OwnedBy (card : Card D) (owners : D → ℤ) : Prop :=
  ∀ d i, card.uses d = some i → (card.rfIns i).reservation.owner = owners d

omit [DecidableEq D] [Fintype D] in
theorem OwnedBy.sameUse (h : OwnedBy card owners) (hsame : SameUse card card') :
    OwnedBy card' owners := by
  intro d i hd
  rw [hsame.uses] at hd
  rw [hsame.reservation]
  exact h d i hd

theorem OwnedBy.release (h : OwnedBy card owners) (hinv : card.Inv B) (d : D) :
    OwnedBy (card.release B d) owners := by
  intro e k he
  have hcounted := hinv.release_counted d
  have hpos := hcounted.rfIn_pos he
  rw [release_uses] at he
  rcases eq_or_ne e d with rfl | hne
  · rw [Function.update_self] at he
    cases he
  · rw [Function.update_of_ne hne] at he
    rw [hinv.release_rfIns] at hpos ⊢
    split
    · rename_i hd
      rw [if_pos hd] at hpos
      rw [RfIn.owner_leave (Nat.ne_of_gt hpos)]
      exact h e k he
    · exact h e k he

/-- After a grant the demodulator has what belongs to the one who asked. -/
theorem OwnedBy.grant (h : OwnedBy card owners) (hinv : card.Inv B) (hs : card.Shared B d ic i) :
    OwnedBy (card.grant B d ic i m) (Function.update owners d ic.owner) := by
  intro e k he
  have hcounted : (card.grant B d ic i m).Counted B := hinv.grant_counted
  have hpos := hcounted.rfIn_pos he
  rw [grant_uses] at he
  rcases eq_or_ne e d with rfl | hne
  · rw [Function.update_self] at he ⊢
    cases he
    exact hinv.grant_owner hs
  · rw [Function.update_of_ne hne] at he ⊢
    rcases eq_or_ne k i with rfl | hk
    · rw [hinv.grant_owner hs, ← h e k he, hs.newRfIn (hinv.rfIn_pos he)]
    · rw [hinv.grant_owner_ne hk (Nat.ne_of_gt hpos)]
      exact h e k he

theorem OwnedBy.answer (h : OwnedBy card owners) (hinv : card.Inv B) :
    OwnedBy (call.answer B card d err).1 (ownersAfter B card d call owners) := by
  have hask : OwnedBy (answerTo B d err (call.ask B card d)).1 (ownersAfter B card d call owners) := by
    have hsame := @Call.ask_sameUse _ _ _ B card d call
    rw [ownersAfter]
    generalize call.ask B card d = asked at hsame ⊢
    obtain ⟨card', _ | ic⟩ := asked
    · exact h.sameUse hsame
    · have hinv' : card'.Inv B := hinv.sameUse hsame
      have h' : OwnedBy card' owners := h.sameUse hsame
      have hans := @selectRfIn_answered _ _ _ B card' d ic err
      simp only [answerTo]
      generalize selectRfIn B card' d err (some ic) = out at hans ⊢
      cases hans with
      | refused r _ hnot =>
        rw [if_neg (by rw [hnot]; exact Bool.false_ne_true)]
        exact h'
      | broken i m hno hdec hnew _ =>
        rw [if_pos (reserves_iff.mpr ⟨hnew, i, m, hno, hdec⟩)]
        exact h'.grant hinv' (hinv'.shared hdec)
      | granted i m hno hdec hnew _ =>
        rw [if_pos (reserves_iff.mpr ⟨hnew, i, m, hno, hdec⟩)]
        have hgrant := h'.grant (m := m) hinv' (hinv'.shared hdec)
        have hcounted : (card'.grant B d ic i m).Counted B := hinv'.grant_counted
        exact hgrant.sameUse (crown_sameUse (hcounted.rfIn_pos grant_uses_self))
  cases call with
  | sleep =>
    rw [Call.answer]
    split
    · exact h.release hinv d
    · exact h
  | _ => exact hask

theorem OwnerRun.ownedBy (h : OwnerRun B card owners) : OwnedBy card owners := by
  induction h with
  | init => rintro d i ⟨⟩
  | call d hw call hrun ih =>
    have hinv := hrun.reachable.inv
    exact (ih.answer hinv).sameUse ((hinv.answer_inv call).secOnly (step_sec call))

omit [DecidableEq D] in
theorem Card.Inv.isUnchanged_sameUse (h : card.Inv B) (hsame : SameUse card card') :
    isUnchanged B card' d ic = isUnchanged B card d ic := by
  have huse : (card'.demods d).activeTuner = (card.demods d).activeTuner :=
    congrFun hsame.uses d
  rw [isUnchanged, isUnchanged, (h.sameUse hsame).activeRfIn_eq, h.activeRfIn_eq, hsame.uses,
    Card.tunerOf, Card.tunerOf, huse, hsame.tuners]

/-- A request for an RF input that is in use for another owner. -/
def ForAnother (B : Board D) (card : Card D) (owners : D → ℤ) (ic : RfInputControl) : Prop :=
  ∃ i e, rfInOf ic.rfIn = some i ∧ card.activeRfIn B e = some i ∧ owners e ≠ ic.owner

/-- All users of an RF input have reserved it for one owner, and the request of another one fails if
    and only if the demodulator does not use what is asked for already. -/
theorem one_owner (h : OwnerRun B card owners) :
    (∀ d e i, card.activeRfIn B d = some i → card.activeRfIn B e = some i →
        owners d = owners e) ∧
      ∀ d (hw : Hw) (call : Call) ic, (call.ask B card d).2 = some ic → ForAnother B card owners ic →
        ((call.answer B card d hw.err).2 = some .failed ↔ isUnchanged B card d ic = false) := by
  have hinv := h.reachable.inv
  have howned := h.ownedBy
  refine ⟨fun d e i hd he => ?_, fun d hw call ic hask hother => ?_⟩
  · rw [hinv.activeRfIn_eq] at hd he
    rw [← howned d i hd, howned e i he]
  · obtain ⟨i, e, hno, he, hne⟩ := hother
    rw [hinv.activeRfIn_eq] at he
    have hsame := @Call.ask_sameUse _ _ _ B card d call
    have hanswer : (call.answer B card d hw.err).2 =
        some (selectRfIn B (call.ask B card d).1 d hw.err (some ic)).2 := by
      have hto : (answerTo B d hw.err (call.ask B card d)).2 =
          some (selectRfIn B (call.ask B card d).1 d hw.err (some ic)).2 := by
        rcases hasked : call.ask B card d with ⟨card', request⟩
        rw [hasked] at hask
        cases hask
        rfl
      cases call with
      | sleep => cases hask
      | _ => exact hto
    have hnot : ¬ (call.ask B card d).1.OwnersOk d ic i := by
      rw [hsame.ownersOk]
      rintro ⟨-, hnew⟩
      exact hne ((howned e i he).symm.trans (hnew (hinv.rfIn_pos he)))
    rw [hanswer, selectRfIn_some, hinv.isUnchanged_sameUse hsame]
    rcases isUnchanged B card d ic with _ | _
    · rcases (hinv.sameUse hsame).reserveDecision_eq d ic i with ⟨hok, _⟩ | ⟨_, hdec⟩
      · exact absurd hok hnot
      · simp [hno, hdec]
    · simp

theorem one_owner_twin :
    let card := (step twinBoard (Card.init Bool) false goodHw askFirst).card
    let call : Call := .setRfInput ⟨8, 1, false, 0, .slave⟩
    (call.answer twinBoard card true false).2 = some .failed := by
  intro card call
  have hrun : OwnerRun twinBoard card
      (ownersAfter twinBoard (Card.init Bool) false askFirst fun _ => 0) :=
    .call false goodHw askFirst (.init _)
  refine ((one_owner hrun).2 true goodHw call ⟨8, 1, false, 0, .slave⟩ ?_ ?_).mpr ?_
  · decide
  · exact ⟨0, false, by decide, by decide, by decide⟩
  · decide

/-- A demodulator that owner 7 uses is not refused to owner 8. -/
theorem other_owner_unchanged : ¬ ∀ card owners, OwnerRun twinBoard card owners →
    ∀ (d : Bool) (hw : Hw) (call : Call) ic, (call.ask twinBoard card d).2 = some ic →
      ForAnother twinBoard card owners ic →
      (call.answer twinBoard card d hw.err).2 = some .failed := by
  intro h
  have hrun : OwnerRun twinBoard _ _ := .call false goodHw askFirst (.init fun _ => 0)
  have hfailed := h _ _ hrun false goodHw (.setRfInput ⟨8, 1, false, 0, .masterOrSlave⟩)
    ⟨8, 1, false, 0, .masterOrSlave⟩ (by decide) ⟨0, false, by decide, by decide, by decide⟩
  exact absurd hfailed (by decide)

end Stid135

import NeumoDrivers.Stid135.SecMaster
import NeumoDrivers.Stid135.Owners

/-! What a request that is refused leaves behind, and what a slave can rely on.

    A request sets `legacyRfIn` before anything is decided, and a hardware error is reported after
    the reservation is made; otherwise a refused request leaves the reservations as they were. -/

namespace Stid135
open Holders

variable {D : Type} [DecidableEq D] [Fintype D] {B : Board D} {card card' : Card D} {d e : D}
variable {ic : RfInputControl} {i k : RfInNo} {m err : Bool} {hw : Hw} {call : Call}

/-! ### Refused requests -/

/-- Two cards with the same reservations. -/
structure SameReservations (card card' : Card D) : Prop where
  rfIns : ∀ i, (card'.rfIns i).reservation = (card.rfIns i).reservation ∧
    (card'.rfIns i).secConfigured = (card.rfIns i).secConfigured ∧
    (card'.rfIns i).controllingChip = (card.rfIns i).controllingChip
  tuners : ∀ c i, (card'.tuners c i).reservation = (card.tuners c i).reservation
  demods : ∀ d, (card'.demods d).activeTuner = (card.demods d).activeTuner ∧
    (card'.demods d).isMaster = (card.demods d).isMaster ∧
    (card'.demods d).legacyRfIn = (card.demods d).legacyRfIn

omit [DecidableEq D] [Fintype D] in
theorem SameReservations.symm (h : SameReservations card card') : SameReservations card' card :=
  ⟨fun i => ⟨(h.rfIns i).1.symm, (h.rfIns i).2.1.symm, (h.rfIns i).2.2.symm⟩,
    fun c i => (h.tuners c i).symm,
    fun d => ⟨(h.demods d).1.symm, (h.demods d).2.1.symm, (h.demods d).2.2.symm⟩⟩

omit [DecidableEq D] [Fintype D] in
theorem SameReservations.trans {card'' : Card D} (h : SameReservations card card')
    (h' : SameReservations card' card'') : SameReservations card card'' :=
  ⟨fun i => ⟨(h'.rfIns i).1.trans (h.rfIns i).1, (h'.rfIns i).2.1.trans (h.rfIns i).2.1,
      (h'.rfIns i).2.2.trans (h.rfIns i).2.2⟩,
    fun c i => (h'.tuners c i).trans (h.tuners c i),
    fun d => ⟨(h'.demods d).1.trans (h.demods d).1, (h'.demods d).2.1.trans (h.demods d).2.1,
      (h'.demods d).2.2.trans (h.demods d).2.2⟩⟩

/-- What a call notes about its caller before it asks: whether it never asks by itself. -/
def Call.legacyFlag : Call → Bool
  | .setRfInput ic => ic.configId < 0
  | _ => true

/-- The hardware reports an error to a request that is granted and not just for what the
    demodulator has. -/
def Botched (B : Board D) (card : Card D) (d : D) (err : Bool) (call : Call) : Prop :=
  err = true ∧ ∃ ic i m, (call.ask B card d).2 = some ic ∧ rfInOf ic.rfIn = some i ∧
    reserveDecision B card d ic i = .ok m ∧ ¬ (m = false ∧ card.uses d = some i ∧ 0 ≤ ic.owner)

theorem ask_legacy (hask : (call.ask B card d).2 = some ic) :
    ((call.ask B card d).1.demods d).legacyRfIn = call.legacyFlag := by
  have hlegacy : ∀ (c : Card D) mode, (legacyAsk B c d mode).2 = some ic →
      ((legacyAsk B c d mode).1.demods d).legacyRfIn = true := by
    intro c mode h
    rw [legacyAsk] at h ⊢
    split at h
    · cases h
    · rename_i hact
      rw [if_neg hact]
      simp
  cases call <;> simp only [Call.ask, Call.legacyFlag] at hask ⊢
  · split at hask
    · rename_i hvalid
      rw [if_pos hvalid]
      simp
    · cases hask
  · exact hlegacy _ _ hask
  · split at hask
    · rename_i hcond
      rw [if_pos hcond]
      exact hlegacy _ _ hask
    · cases hask
  · exact hlegacy _ _ hask
  · split at hask
    · cases hask
    · rename_i hmode
      rw [if_neg hmode]
      exact hlegacy _ _ hask
  · split at hask
    · cases hask
    · rename_i hmode
      rw [if_neg hmode]
      exact hlegacy _ _ hask
  · split at hask
    · cases hask
    · rename_i hmode
      rw [if_neg hmode]
      exact hlegacy _ _ hask
  · cases hask
  · cases hask

omit [DecidableEq D] in
/-- The decision looks at the flag and at nothing else of the demodulator but its tuner. -/
theorem reserveDecision_congr (hsame : SameUse card card') (hrf : card'.rfIns = card.rfIns)
    (hflag : (card'.demods d).legacyRfIn = (card.demods d).legacyRfIn) :
    reserveDecision B card' d ic i = reserveDecision B card d ic i := by
  have huse : (card'.demods d).activeTuner = (card.demods d).activeTuner := congrFun hsame.uses d
  have htuner : card'.tunerOf B d = card.tunerOf B d := by
    rw [Card.tunerOf, Card.tunerOf, huse, hsame.tuners]
  have hact : card'.activeRfIn B d = card.activeRfIn B d := by
    rw [Card.activeRfIn, Card.activeRfIn, htuner]
  simp only [reserveDecision, htuner, hact, hrf, hsame.tuners, hflag, huse]

/-- An answer comes from a request. -/
theorem answer_asked {r : Result} (hres : (call.answer B card d err).2 = some r)
    (hr : r ≠ .released) : ∃ ic, (call.ask B card d).2 = some ic ∧
      call.answer B card d err =
        ((selectRfIn B (call.ask B card d).1 d err (some ic)).1,
          some (selectRfIn B (call.ask B card d).1 d err (some ic)).2) := by
  have hto : (answerTo B d err (call.ask B card d)).2 = some r →
      ∃ ic, (call.ask B card d).2 = some ic ∧ answerTo B d err (call.ask B card d) =
        ((selectRfIn B (call.ask B card d).1 d err (some ic)).1,
          some (selectRfIn B (call.ask B card d).1 d err (some ic)).2) := by
    rcases call.ask B card d with ⟨card', _ | ic⟩
    · rintro ⟨⟩
    · intro _
      exact ⟨ic, rfl, rfl⟩
  cases call with
  | sleep =>
    rw [Call.answer] at hres
    split at hres
    · cases hres
      exact absurd rfl hr
    · cases hres
  | _ => exact hto hres

/-! ### A grant that changes nothing -/

theorem Reservation.join_stays {r : Reservation} {free : ℤ → Bool} (h : free r.owner = false) :
    r.join ic true false free = r := by
  simp [Reservation.join, h]

/-- A slave that gets again what it has changes nothing. -/
theorem Card.Inv.grant_slave (h : card.Inv B) (hs : card.Shared B d ic i)
    (hd : card.uses d = some i) (howner : 0 ≤ ic.owner) :
    SameReservations card (card.grant B d ic i false) := by
  have hrf := h.rfIn_pos hd
  have ht := h.tuner_pos hd
  refine ⟨fun k => ?_, fun c k => ?_, fun e => ?_⟩
  · have hk : (card.grant B d ic i false).rfIns k = card.rfIns k := by
      rw [h.grant_rfIns]
      split
      · rename_i hk
        subst hk
        have hfree : decide ((card.rfIns k).reservation.owner = -1) = false := by
          rw [hs.newRfIn hrf, decide_eq_false_iff_not]
          omega
        rw [RfIn.join, decide_eq_true hd, Reservation.join_stays hfree]
        exact RfIn.connect_of_chip ((h.rfIns k).chip hrf)
      · rename_i hk
        rw [if_neg fun heq => hk (Option.some.inj (heq.symm.trans hd))]
    rw [hk]
    exact ⟨rfl, rfl, rfl⟩
  · rw [h.grant_tuners]
    split
    · rename_i hk
      obtain ⟨rfl, rfl⟩ := hk
      have hfree : decide ((card.tuners (B.chip d) k).reservation.owner < 0) = false := by
        rw [hs.newTuner ht, decide_eq_false_iff_not]
        omega
      rw [Tuner.join, decide_eq_true hd, Tuner.connect, Reservation.join_stays hfree]
    · rename_i hk
      rw [if_neg]
      intro hplace
      obtain ⟨hc, huse⟩ := Card.place_eq_some.mp hplace
      exact hk ⟨hc.symm, Option.some.inj (huse.symm.trans hd)⟩
  · rw [grant_demods]
    split
    · rename_i he
      subst he
      exact ⟨hd.symm, rfl, rfl⟩
    · exact ⟨rfl, rfl, rfl⟩

/-- All other grants change something. -/
theorem Card.Inv.grant_changes (h : card.Inv B) (hs : card.Shared B d ic i)
    (hno : rfInOf ic.rfIn = some i) (hnew : isUnchanged B card d ic = false)
    (hnot : ¬ (m = false ∧ card.uses d = some i ∧ 0 ≤ ic.owner)) :
    ¬ SameReservations card (card.grant B d ic i m) := by
  intro hsame
  have hd : card.uses d = some i := by
    have huse := (hsame.demods d).1
    rw [grant_demods, if_pos rfl] at huse
    exact huse.symm
  have ht := h.tuner_pos hd
  -- the config id of the tuner is another one afterwards
  have hconfig : (card.tuners (B.chip d) i).reservation.configId ≠ ic.configId := by
    intro heq
    rw [isUnchanged, decide_eq_false_iff_not, h.activeRfIn_eq, hd, rfInOf_eq_some.mp hno] at hnew
    have huse : (card.demods d).activeTuner = some i := hd
    rw [Card.tunerOf, huse] at hnew
    exact hnew ⟨rfl, rfl, heq⟩
  have hafter := hsame.tuners (B.chip d) i
  rw [h.grant_tuners, if_pos ⟨rfl, rfl⟩] at hafter
  refine hconfig ((congrArg Reservation.configId hafter).symm.trans ?_)
  simp only [Tuner.connect, Tuner.join, Reservation.join, hd, decide_true, if_true]
  cases m with
  | true =>
    simp only [if_true]
    split <;> rfl
  | false =>
    have howner : (card.tuners (B.chip d) i).reservation.owner < 0 := by
      rw [hs.newTuner ht]
      exact Int.not_le.mp fun hle => hnot ⟨rfl, hd, hle⟩
    simp [howner]

/-- A refused request leaves the reservations alone if and only if the flag of its caller stays
    the same and no granted reservation comes to an error of the hardware. -/
theorem refused_unchanged (h : Reachable B card)
    (hres : (call.answer B card d hw.err).2 = some .retry ∨
      (call.answer B card d hw.err).2 = some .failed) :
    SameReservations card (call.answer B card d hw.err).1 ↔
      (card.demods d).legacyRfIn = call.legacyFlag ∧ ¬ Botched B card d hw.err call := by
  have hinv := h.inv
  obtain ⟨ic, hask, hans⟩ : ∃ ic, (call.ask B card d).2 = some ic ∧ call.answer B card d hw.err =
      ((selectRfIn B (call.ask B card d).1 d hw.err (some ic)).1,
        some (selectRfIn B (call.ask B card d).1 d hw.err (some ic)).2) := by
    rcases hres with hres | hres
    · exact answer_asked hres (by rintro ⟨⟩)
    · exact answer_asked hres (by rintro ⟨⟩)
  have hsame := @Call.ask_sameUse _ _ _ B card d call
  have hrf := @ask_rfIns _ _ _ B card d call
  have hflag := ask_legacy hask
  have hmaster := @ask_isMaster _ _ _ B card d call
  have hother : ∀ e, e ≠ d → (call.ask B card d).1.demods e = card.demods e :=
    fun e he => ask_demods_ne he
  rw [hans] at hres ⊢
  rw [Botched, hask]
  generalize call.ask B card d = asked at hsame hrf hflag hmaster hother hres ⊢
  obtain ⟨card', request⟩ := asked
  have hinv' : card'.Inv B := hinv.sameUse hsame
  -- once the flag is the same, the decision is the same, and so are all reservations before it
  have hbefore : (card.demods d).legacyRfIn = call.legacyFlag → SameReservations card card' := by
    intro heq
    refine ⟨fun k => by rw [hrf]; exact ⟨rfl, rfl, rfl⟩, fun c k => by rw [hsame.tuners],
      fun e => ⟨congrFun hsame.uses e, ?_⟩⟩
    rcases eq_or_ne e d with rfl | he
    · exact ⟨hmaster, hflag.trans heq.symm⟩
    · rw [hother e he]
      exact ⟨rfl, rfl⟩
  have hdecision : (card.demods d).legacyRfIn = call.legacyFlag → ∀ i,
      reserveDecision B card' d ic i = reserveDecision B card d ic i :=
    fun heq i => reserveDecision_congr hsame hrf (hflag.trans heq.symm)
  have hnew : isUnchanged B card' d ic = false := by
    by_contra hold
    rw [Bool.not_eq_false] at hold
    rw [selectRfIn_some, if_pos hold] at hres
    rcases hres with ⟨⟨⟩⟩ | ⟨⟨⟩⟩
  have hreq := @selectRfIn_answered _ _ _ B card' d ic hw.err
  generalize selectRfIn B card' d hw.err (some ic) = out at hreq hres ⊢
  cases hreq with
  | refused r _ hnot =>
    refine ⟨fun hsm => ?_, fun hgood => hbefore hgood.1⟩
    have heq : (card.demods d).legacyRfIn = call.legacyFlag := (hsm.demods d).2.2.symm.trans hflag
    refine ⟨heq, ?_⟩
    rintro ⟨-, _, i, m, ⟨rfl⟩, hno, hdec, -⟩
    rw [← hdecision heq] at hdec
    rw [reserves_iff.mpr ⟨hnew, i, m, hno, hdec⟩] at hnot
    cases hnot
  | broken i m hno hdec _ herr =>
    have hs := hinv'.shared hdec
    constructor
    · intro hsm
      have heq : (card.demods d).legacyRfIn = call.legacyFlag := by
        have hl := (hsm.demods d).2.2
        rw [grant_demods, if_pos rfl] at hl
        exact hl.symm.trans hflag
      refine ⟨heq, ?_⟩
      rintro ⟨-, _, j, m', ⟨rfl⟩, hno', hdec', hnot⟩
      cases hno.symm.trans hno'
      rw [← hdecision heq, hdec] at hdec'
      cases hdec'
      rw [← hsame.uses] at hnot
      exact hinv'.grant_changes hs hno hnew hnot ((hbefore heq).symm.trans hsm)
    · rintro ⟨heq, hgood⟩
      obtain ⟨rfl, huse, howner⟩ : m = false ∧ card'.uses d = some i ∧ 0 ≤ ic.owner := by
        by_contra hnot
        rw [hsame.uses] at hnot
        exact hgood ⟨herr, ic, i, m, rfl, hno, by rw [← hdecision heq]; exact hdec, hnot⟩
      exact (hbefore heq).trans (hinv'.grant_slave hs huse howner)
  | granted i m _ _ _ _ =>
    cases m <;> rcases hres with ⟨⟨⟩⟩ | ⟨⟨⟩⟩

theorem refused_unchanged_twin :
    let card := (step twinBoard (Card.init Bool) false goodHw askFirst).card
    let call : Call := .setRfInput ⟨8, 2, false, 0, .master⟩
    SameReservations card (call.answer twinBoard card true false).1 := by
  intro card call
  have hreach : Reachable twinBoard card := .call false goodHw askFirst .init
  refine (@refused_unchanged _ _ _ _ _ true goodHw call hreach (Or.inr (by decide))).mpr
    ⟨by decide, ?_⟩
  rintro ⟨⟨⟩, -⟩

/-- The first request on a card keeps its reservation although it fails. -/
theorem failed_keeps : ¬ ∀ (card : Card Bool) (d : Bool) (hw : Hw) (call : Call),
    Reachable twinBoard card →
    (call.answer twinBoard card d hw.err).2 = some .retry ∨
      (call.answer twinBoard card d hw.err).2 = some .failed →
    SameReservations card (call.answer twinBoard card d hw.err).1 := by
  intro h
  have hsame := h (Card.init Bool) false ⟨true, false, 0⟩ askFirst .init (Or.inr (by decide))
  exact absurd (hsame.rfIns 0).1 (by decide)

/-! ### What a slave can rely on -/

/-- The result of `stid135_set_rf_input`. -/
def requestResult (B : Board D) (card : Card D) (d : D) (ic : RfInputControl) (err : Bool) :
    Result :=
  if ic.rfIn ∈ B.rfInputs d then
    (selectRfIn B (card.setDemod d { card.demods d with legacyRfIn := ic.configId < 0 }) d err
      (some ic)).2
  else .einval

/-- What a request that names a config id may be answered with: as slave only if the equipment is
    configured for that config id, and with a refusal if others use the RF input for another one. -/
def Compatible (card : Card D) (d : D) (ic : RfInputControl) (r : Result) : Prop :=
  (r = .slave → ∃ i, rfInOf ic.rfIn = some i ∧ (card.rfIns i).secConfigured = true ∧
    (card.rfIns i).reservation.configId = ic.configId) ∧
  ∀ i, rfInOf ic.rfIn = some i → (∃ e, e ≠ d ∧ card.uses e = some i) →
    (card.rfIns i).reservation.configId ≠ ic.configId → r = .retry ∨ r = .failed ∨ r = .einval

/-- Whether a slave finds the equipment as it wants it, its config id apart. -/
def RfIn.Fits (r : RfIn) (ic : RfInputControl) : Prop :=
  r.secConfigured = true ∧ (ic.unicableMode = true → r.unicableMode = true)

/-- Whether nobody on this chip uses the tuner, or only the demodulator uses the RF input. -/
def Untested (B : Board D) (card : Card D) (d : D) (i : RfInNo) : Prop :=
  (card.tuners (B.chip d) i).reservation.useCount = 0 ∨
    card.uses d = some i ∧ (card.rfIns i).reservation.useCount = 1

/-- The requests that get around the test of the RF input's config id, on one that is in use for
    another config id: the demodulator has it for the config id asked for, going by its tuner, while
    others use it; or nothing is tested, the owner is the right one and the hardware follows. -/
def Incompatible (B : Board D) (card : Card D) (d : D) (ic : RfInputControl) (err : Bool) : Prop :=
  ic.rfIn ∈ B.rfInputs d ∧ ∃ i, rfInOf ic.rfIn = some i ∧
    (card.rfIns i).reservation.configId ≠ ic.configId ∧
    (isUnchanged B card d ic = true ∧ (∃ e, e ≠ d ∧ card.uses e = some i) ∨
      isUnchanged B card d ic = false ∧ card.OwnersOk d ic i ∧ err = false ∧
        Untested B card d i ∧
        (ic.mode = .slave ∧ (card.rfIns i).Fits ic ∨
          ic.mode ≠ .slave ∧ ∃ e, e ≠ d ∧ card.uses e = some i))

omit [DecidableEq D] in
/-- Without a test it is the mode that decides. -/
theorem Card.Inv.decideShares_untested (h : card.Inv B) (ic : RfInputControl)
    (hflag : (card.demods d).legacyRfIn = false) (huntested : Untested B card d i) :
    (ic.mode ≠ .slave → decideShares B card d ic i = .ok true) ∧
      (ic.mode = .slave → (decideShares B card d ic i = .ok false ↔ (card.rfIns i).Fits ic) ∧
        decideShares B card d ic i ≠ .ok true) := by
  have htuner : checkTuner ic (card.tuners (B.chip d) i).reservation (card.uses d = some i)
      (ic.mode ≠ .slave) = .ok (ic.mode ≠ .slave) := by
    rcases huntested with h0 | ⟨hd, hone⟩
    · simp [checkTuner, h0]
    · have hle := h.tuner_le (B.chip d) i
      have hpos := h.tuner_pos hd
      rw [checkTuner, if_pos ⟨by omega, by rw [decide_eq_true hd]⟩]
  have hrf : ∀ l w, checkRfIn ic (card.tuners (B.chip d) i).reservation (card.rfIns i).reservation
      (card.uses d = some i) l w = .ok w := by
    intro l w
    rcases huntested with h0 | ⟨hd, hone⟩
    · simp [checkRfIn, h0]
    · rw [checkRfIn, if_pos ⟨hone, by rw [decide_eq_true hd]⟩]
  refine ⟨fun hmode => ?_, fun hmode => ?_⟩
  · simp only [decideShares, htuner, hrf]
    simp [hmode]
  · simp only [decideShares, htuner, hrf, hflag, RfIn.Fits]
    rw [hmode]
    rcases (card.rfIns i).secConfigured with _ | _
    · simp
    · rcases ic.unicableMode with _ | _
      · simp
      · rcases (card.rfIns i).unicableMode with _ | _ <;> simp

omit [DecidableEq D] in
/-- With the test there are slaves only, and they find what they need. -/
theorem decideShares_tested (ic : RfInputControl)
    (hflag : (card.demods d).legacyRfIn = false) (htested : ¬ Untested B card d i)
    (hdec : decideShares B card d ic i = .ok m) :
    m = false ∧ (card.rfIns i).reservation.configId = ic.configId ∧
      (card.rfIns i).secConfigured = true := by
  have hpos : 0 < (card.tuners (B.chip d) i).reservation.useCount :=
    Nat.pos_of_ne_zero fun h0 => htested (Or.inl h0)
  have hnot : ¬ ((card.rfIns i).reservation.useCount = 1 ∧
      decide (card.uses d = some i) = true) := by
    rintro ⟨hone, hd⟩
    exact htested (Or.inr ⟨of_decide_eq_true hd, hone⟩)
  rw [decideShares] at hdec
  split at hdec
  · cases hdec
  · split at hdec
    · cases hdec
    · rename_i w hcheck
      rw [checkRfIn, if_neg hnot, if_pos hpos] at hcheck
      split_ifs at hcheck with _ _ hconfig
      cases hcheck
      refine ⟨?_, not_not.mp hconfig, ?_⟩
      · split_ifs at hdec <;> cases hdec <;> rfl
      · by_contra hnsec
        rw [if_pos ⟨Bool.false_ne_true, by rw [hflag]; exact Bool.false_ne_true, hnsec⟩] at hdec
        cases hdec

/-- Once it is known that the request names a config id, the answer is the decision's. -/
theorem Card.Inv.compatible_iff (h : card.Inv B) (hflag : (card.demods d).legacyRfIn = false)
    (hvalid : ic.rfIn ∈ B.rfInputs d) :
    Compatible card d ic (selectRfIn B card d err (some ic)).2 ↔ ¬ Incompatible B card d ic err := by
  constructor
  · rintro ⟨hslave, hrefuse⟩ ⟨-, i, hno, hconfig, ⟨hold, hothers⟩ | ⟨hnew, howners, herr, huntested,
      hgrant⟩⟩
    · have hres := hrefuse i hno hothers hconfig
      rw [selectRfIn_some, if_pos hold] at hres
      rcases hres with ⟨⟨⟩⟩ | ⟨⟨⟩⟩ | ⟨⟨⟩⟩
    · have hdec : reserveDecision B card d ic i = decideShares B card d ic i := by
        rcases h.reserveDecision_eq d ic i with ⟨-, heq⟩ | ⟨hnot, -⟩
        · exact heq
        · exact absurd howners hnot
      have hfree := h.decideShares_untested ic hflag huntested
      have hres : ∀ m, decideShares B card d ic i = .ok m →
          (selectRfIn B card d err (some ic)).2 = grantResult m := by
        intro m hm
        rw [selectRfIn_some, if_neg (by rw [hnew]; exact Bool.false_ne_true)]
        simp only [hno, hdec, hm, herr, Bool.false_eq_true, if_false]
      rcases hgrant with ⟨hmode, hfits⟩ | ⟨hmode, hothers⟩
      · obtain ⟨j, hj, -, heq⟩ := hslave (hres false ((hfree.2 hmode).1.mpr hfits))
        cases hno.symm.trans hj
        exact hconfig heq
      · have hbad := hrefuse i hno hothers hconfig
        rw [hres true (hfree.1 hmode)] at hbad
        rcases hbad with ⟨⟨⟩⟩ | ⟨⟨⟩⟩ | ⟨⟨⟩⟩
  · intro hgood
    rw [selectRfIn_some]
    split
    · rename_i hold
      refine ⟨by rintro ⟨⟩, fun i hno hothers hconfig => ?_⟩
      exact absurd ⟨hvalid, i, hno, hconfig, Or.inl ⟨hold, hothers⟩⟩ hgood
    · rename_i hnew
      have hnew' : isUnchanged B card d ic = false := Bool.eq_false_iff.mpr hnew
      rcases hno : rfInOf ic.rfIn with _ | i
      · exact ⟨by rintro ⟨⟩, fun _ _ _ _ => Or.inr (Or.inl rfl)⟩
      · rcases hdec : reserveDecision B card d ic i with r | m
        · simp only [hdec]
          rcases reserveDecision_error hdec with rfl | rfl
          · exact ⟨by rintro ⟨⟩, fun _ _ _ _ => Or.inl rfl⟩
          · exact ⟨by rintro ⟨⟩, fun _ _ _ _ => Or.inr (Or.inl rfl)⟩
        · simp only [hdec]
          cases herr : err with
          | true => exact ⟨by rintro ⟨⟩, fun _ _ _ _ => Or.inr (Or.inl rfl)⟩
          | false =>
            obtain ⟨howners, heq⟩ : card.OwnersOk d ic i ∧
                reserveDecision B card d ic i = decideShares B card d ic i := by
              rcases h.reserveDecision_eq d ic i with hok | ⟨-, hbad⟩
              · exact hok
              · rw [hbad] at hdec
                cases hdec
            rw [heq] at hdec
            have hfree := @Card.Inv.decideShares_untested _ _ _ _ d i h ic hflag
            have htest := @decideShares_tested _ _ B _ _ i m ic hflag
            cases m with
            | true =>
              refine ⟨by rintro ⟨⟩, fun j hj hothers hconfig => absurd ?_ hgood⟩
              cases hno.symm.trans hj
              have huntested : Untested B card d i := by
                by_contra htested
                cases (htest htested hdec).1
              have hmode : ic.mode ≠ .slave := fun hmode => ((hfree huntested).2 hmode).2 hdec
              exact ⟨hvalid, i, hno, hconfig,
                Or.inr ⟨hnew', howners, herr, huntested, Or.inr ⟨hmode, hothers⟩⟩⟩
            | false =>
              have hfit : (card.rfIns i).secConfigured = true ∧
                  (card.rfIns i).reservation.configId = ic.configId := by
                by_cases huntested : Untested B card d i
                · have hmode : ic.mode = .slave := by
                    by_contra hmode
                    rw [(hfree huntested).1 hmode] at hdec
                    cases hdec
                  have hfits := ((hfree huntested).2 hmode).1.mp hdec
                  refine ⟨hfits.1, ?_⟩
                  by_contra hconfig
                  exact hgood ⟨hvalid, i, hno, hconfig,
                    Or.inr ⟨hnew', howners, herr, huntested, Or.inl ⟨hmode, hfits⟩⟩⟩
                · obtain ⟨-, hconfig, hsec⟩ := htest huntested hdec
                  exact ⟨hsec, hconfig⟩
              refine ⟨fun _ => ⟨i, hno, hfit⟩, fun j hj _ hconfig => ?_⟩
              cases hno.symm.trans hj
              exact absurd hfit.2 hconfig

/-- A request that names a config id is answered as it should be if and only if it does not get
    around the test. -/
theorem slave_compatible (h : Reachable B card) (hid : 0 ≤ ic.configId) :
    Compatible card d ic (requestResult B card d ic err) ↔ ¬ Incompatible B card d ic err := by
  have hinv := h.inv
  by_cases hvalid : ic.rfIn ∈ B.rfInputs d
  · obtain ⟨card', hcard'⟩ : ∃ c, c = card.setDemod d
      { card.demods d with legacyRfIn := (ic.configId < 0 : Bool) } := ⟨_, rfl⟩
    have hsame : SameUse card card' := by
      rw [hcard']
      exact SameUse.setDemod rfl
    have hrf : card'.rfIns = card.rfIns := by rw [hcard']; rfl
    have hflag : (card'.demods d).legacyRfIn = false := by
      rw [hcard', Card.setDemod_demods, if_pos rfl, decide_eq_false_iff_not]
      omega
    have hresult : requestResult B card d ic err = (selectRfIn B card' d err (some ic)).2 := by
      rw [requestResult, if_pos hvalid, hcard']
    have hcompat : ∀ r, Compatible card d ic r ↔ Compatible card' d ic r := by
      intro r
      rw [Compatible, Compatible, hrf, hsame.uses]
    have hbad : Incompatible B card d ic err ↔ Incompatible B card' d ic err := by
      simp only [Incompatible, Untested, hrf, hsame.uses, hsame.tuners, hsame.ownersOk,
        hinv.isUnchanged_sameUse hsame]
    rw [hresult, hcompat, hbad]
    exact (hinv.sameUse hsame).compatible_iff hflag hvalid
  · rw [requestResult, if_neg hvalid]
    refine ⟨fun _ hbad => hvalid hbad.1, fun _ => ⟨by rintro ⟨⟩, fun _ _ _ _ => ?_⟩⟩
    exact Or.inr (Or.inr rfl)

theorem slave_compatible_twin :
    let card := (step twinBoard (Card.init Bool) false goodHw askFirst).card
    let ic : RfInputControl := ⟨7, 2, false, 1, .slave⟩
    Compatible card false ic (requestResult twinBoard card false ic false) := by
  intro card ic
  have hreach : Reachable twinBoard card := .call false goodHw askFirst .init
  refine (@slave_compatible _ _ _ _ _ false ic false hreach (by decide)).mpr ?_
  rintro ⟨-, i, hno, -, ⟨hold, -⟩ | ⟨-, -, -, -, ⟨-, hsec, -⟩ | ⟨hmode, -⟩⟩⟩
  · exact absurd hold (by decide)
  · cases hno
    exact absurd hsec (by decide)
  · exact hmode rfl

/-- The other chip becomes master of an RF input that is in use for another config id. -/
theorem incompatible_granted : ¬ ∀ (card : Card Bool) (d : Bool) (ic : RfInputControl) (err : Bool),
    Reachable twinBoard card → 0 ≤ ic.configId →
      Compatible card d ic (requestResult twinBoard card d ic err) := by
  intro h
  have hreach : Reachable twinBoard _ := .call false goodHw askFirst .init
  have hcompat := h _ true ⟨7, 2, false, 0, .masterOrSlave⟩ false hreach (by decide)
  have hres := hcompat.2 0 (by decide) ⟨false, by decide, by decide⟩ (by decide)
  revert hres
  decide

end Stid135

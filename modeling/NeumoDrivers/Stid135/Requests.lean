import NeumoDrivers.Stid135.Sec
import NeumoDrivers.Stid135.UseCount

/-! What the calls of a card do to its reservations.

    `selectRfIn_some` says once what a request can do: nothing, or a grant, with or without the
    note of who is master. All other changes of a card leave users and reservations as they are
    (`SameUse`). So every call keeps `Card.Inv`, and it holds in every reachable state. -/

namespace Stid135
open Holders

variable {D : Type} [DecidableEq D] [Fintype D] {B : Board D} {card card' : Card D} {d e : D}
variable {ic : RfInputControl} {i k : RfInNo} {m err : Bool} {mode : ReservationMode} {hw : Hw}

/-! ### What a request does -/

/-- Note who is master, and the unicable mode a master asks for. -/
def Card.crown (card : Card D) (d : D) (ic : RfInputControl) (i : RfInNo) (m : Bool) : Card D :=
  let card := card.setDemod d { card.demods d with isMaster := m }
  if m then card.setRfIn i { card.rfIns i with unicableMode := ic.unicableMode } else card

theorem rfInOf_eq_some {n : ℤ} : rfInOf n = some i ↔ n = (i : ℕ) := by
  rw [rfInOf]
  constructor
  · intro h
    split at h
    · rename_i hin
      cases h
      exact (Int.toNat_of_nonneg hin.1).symm
    · cases h
  · rintro rfl
    rw [dif_pos ⟨by omega, by omega⟩]
    rfl

theorem numberOf_eq {o : Option RfInNo} : numberOf o = (i : ℕ) ↔ o = some i := by
  rcases o with _ | j
  · rw [numberOf]
    simp
  · rw [numberOf, Option.elim_some, Int.ofNat_inj, Fin.val_inj, Option.some.injEq]

theorem checkTuner_error {tuner : Reservation} {same wish : Bool} {r : Result}
    (h : checkTuner ic tuner same wish = .error r) : r = .retry ∨ r = .failed := by
  unfold checkTuner at h
  split_ifs at h <;> cases h <;> simp

theorem checkRfIn_error {tuner rfIn : Reservation} {same legacy wish : Bool} {r : Result}
    (h : checkRfIn ic tuner rfIn same legacy wish = .error r) : r = .retry ∨ r = .failed := by
  unfold checkRfIn at h
  split_ifs at h <;> cases h <;> simp

omit [DecidableEq D] in
theorem reserveDecision_error {r : Result} (h : reserveDecision B card d ic i = .error r) :
    r = .retry ∨ r = .failed := by
  unfold reserveDecision at h
  simp only at h
  split_ifs at h
  · cases h
    exact Or.inr rfl
  · cases h
    exact Or.inr rfl
  · cases h
    exact Or.inr rfl
  · cases h
    exact Or.inr rfl
  · split at h
    · rename_i hcheck
      cases h
      exact checkTuner_error hcheck
    · split at h
      · rename_i hcheck
        cases h
        exact checkRfIn_error hcheck
      · split_ifs at h <;> cases h <;> simp

/-- The answer to a request that reserves, when the hardware follows. -/
def grantResult (m : Bool) : Result := if m then .master else .slave

theorem grantResult_granted (m : Bool) : (grantResult m).granted = true := by
  cases m <;> rfl

/-- Everything that a request can do. -/
theorem selectRfIn_some :
    selectRfIn B card d err (some ic) =
      if isUnchanged B card d ic then (card, .unchanged)
      else
        match rfInOf ic.rfIn with
        | none => (card, .failed)
        | some i =>
          match reserveDecision B card d ic i with
          | .error r => (card, r)
          | .ok m =>
            if err then (card.grant B d ic i m, .failed)
            else ((card.grant B d ic i m).crown d ic i m, grantResult m) := by
  rw [selectRfIn]
  split
  · rfl
  · rcases hno : rfInOf ic.rfIn with _ | i
    · have hres : reserveTunerAndRfIn B card d (some ic) = (card, .failed) := by
        rw [reserveTunerAndRfIn, hno]
      simp only [hres]
    · rcases hdec : reserveDecision B card d ic i with r | m
      · have hres : reserveTunerAndRfIn B card d (some ic) = (card, r) := by
          simp only [reserveTunerAndRfIn, hno, hdec]
        have hr : r.granted = false := by
          rcases reserveDecision_error hdec with rfl | rfl <;> rfl
        simp [hres, hr, hdec]
      · have hres : reserveTunerAndRfIn B card d (some ic) =
            (takeNew B (releaseOld B card d (some i)) d ic i (card.activeRfIn B d = some i)
              (card.uses d = some i) m, grantResult m) := by
          simp only [reserveTunerAndRfIn, hno, hdec]
          rfl
        simp only [hres, hdec, grantResult_granted, not_true_eq_false, if_false]
        cases err <;> cases m <;> rfl

/-- Whether a request leads to a reservation. -/
def reserves (B : Board D) (card : Card D) (d : D) (ic : RfInputControl) : Bool :=
  !isUnchanged B card d ic &&
    match rfInOf ic.rfIn with
    | none => false
    | some i => (reserveDecision B card d ic i).toBool

omit [DecidableEq D] in
theorem reserves_iff : reserves B card d ic = true ↔ isUnchanged B card d ic = false ∧
    ∃ i m, rfInOf ic.rfIn = some i ∧ reserveDecision B card d ic i = .ok m := by
  rw [reserves, Bool.and_eq_true, Bool.not_eq_true']
  refine and_congr_right fun _ => ?_
  rcases rfInOf ic.rfIn with _ | i
  · simp
  · rcases hdec : reserveDecision B card d ic i with r | m
    · simp [hdec, Except.toBool]
    · simp [hdec, Except.toBool]

/-- The three ways a request ends: nothing happens, it is granted but the hardware reports an
    error, or it is granted. -/
inductive Answered (B : Board D) (card : Card D) (d : D) (ic : RfInputControl) (err : Bool) :
    Card D × Result → Prop where
  | refused (r : Result) : r = .unchanged ∨ r = .retry ∨ r = .failed →
      reserves B card d ic = false → Answered B card d ic err (card, r)
  | broken (i : RfInNo) (m : Bool) : rfInOf ic.rfIn = some i →
      reserveDecision B card d ic i = .ok m → isUnchanged B card d ic = false → err = true →
      Answered B card d ic err (card.grant B d ic i m, .failed)
  | granted (i : RfInNo) (m : Bool) : rfInOf ic.rfIn = some i →
      reserveDecision B card d ic i = .ok m → isUnchanged B card d ic = false → err = false →
      Answered B card d ic err ((card.grant B d ic i m).crown d ic i m, grantResult m)

theorem selectRfIn_answered : Answered B card d ic err (selectRfIn B card d err (some ic)) := by
  rw [selectRfIn_some]
  split
  · rename_i hold
    exact .refused _ (Or.inl rfl) (by rw [reserves, hold]; rfl)
  · rename_i hnew
    split
    · rename_i hno
      exact .refused _ (Or.inr (Or.inr rfl)) (by simp [reserves, hno])
    · rename_i i hno
      split
      · rename_i hdec
        exact .refused _ (Or.inr (reserveDecision_error hdec))
          (by simp [reserves, hno, hdec, Except.toBool])
      · rename_i m hdec
        split
        · rename_i herr
          exact .broken i m hno hdec (Bool.eq_false_iff.mpr hnew) herr
        · rename_i herr
          exact .granted i m hno hdec (Bool.eq_false_iff.mpr hnew) (Bool.eq_false_iff.mpr herr)

theorem selectRfIn_none : selectRfIn B card d err none = (card.release B d, .released) := rfl

omit [DecidableEq D] in
theorem Card.Inv.shared (h : card.Inv B) (hdec : reserveDecision B card d ic i = .ok m) :
    card.Shared B d ic i := by
  unfold reserveDecision at hdec
  simp only [h.activeRfIn_eq] at hdec
  split_ifs at hdec with hold hrf htuner hnew
  refine ⟨fun j hj => ?_, fun hpos => ?_, fun hpos => ?_⟩
  · rw [hj] at hrf
    simpa using hrf
  · simpa [Reservation.usedByOther, hpos] using hnew
  · simpa [Reservation.usedByOther, hpos] using htuner

omit [DecidableEq D] in
/-- The owner of a tuner that is in use is the owner of its RF input. -/
theorem Card.Inv.tunerOf_owner (h : card.Inv B) (d : D) (owner : ℤ) :
    ((card.tunerOf B d).any fun t => t.reservation.owner ≠ owner) =
      (card.uses d).any fun j => (card.rfIns j).reservation.owner ≠ owner := by
  rw [Card.tunerOf]
  rcases hd : (card.demods d).activeTuner with _ | j
  · have huse : card.uses d = none := hd
    rw [huse]
    rfl
  · have huse : card.uses d = some j := hd
    rw [huse, Option.map_some, Option.any_some, Option.any_some,
      (h.tuners _ j).owner (h.tuner_pos huse)]

/-- Whether the owner of what the demodulator uses is the one who asks. -/
def Card.OldOwner (card : Card D) (d : D) (ic : RfInputControl) : Prop :=
  ∀ j, card.uses d = some j → (card.rfIns j).reservation.owner = ic.owner

/-- The owner checks of a request. -/
def Card.OwnersOk (card : Card D) (d : D) (ic : RfInputControl) (i : RfInNo) : Prop :=
  card.OldOwner d ic ∧
    (0 < (card.rfIns i).reservation.useCount → (card.rfIns i).reservation.owner = ic.owner)

/-- The decision after the owner checks. -/
def decideShares (B : Board D) (card : Card D) (d : D) (ic : RfInputControl) (i : RfInNo) :
    Except Result Bool :=
  let tuner := (card.tuners (B.chip d) i).reservation
  let rfIn := card.rfIns i
  let legacyRfIn := (card.demods d).legacyRfIn
  match checkTuner ic tuner (card.uses d = some i) (ic.mode ≠ .slave) with
  | .error r => .error r
  | .ok m =>
    match checkRfIn ic tuner rfIn.reservation (card.uses d = some i) legacyRfIn m with
    | .error r => .error r
    | .ok m =>
      if ¬ m ∧ ¬ legacyRfIn ∧ ¬ rfIn.secConfigured then .error .retry
      else if ¬ m ∧ ic.unicableMode ∧ ¬ rfIn.unicableMode then .error .failed
      else .ok m

omit [DecidableEq D] in
theorem Card.Inv.reserveDecision_eq (h : card.Inv B) (d : D) (ic : RfInputControl) (i : RfInNo) :
    (card.OwnersOk d ic i ∧ reserveDecision B card d ic i = decideShares B card d ic i) ∨
      (¬ card.OwnersOk d ic i ∧ reserveDecision B card d ic i = .error .failed) := by
  have hold : (card.uses d).any (fun j => (card.rfIns j).reservation.owner ≠ ic.owner) = true ↔
      ¬ card.OldOwner d ic := by
    rw [Card.OldOwner, Option.any_eq_true]
    simp
  have hrf : (card.rfIns i).reservation.usedByOther ic = true ↔
      ¬ (0 < (card.rfIns i).reservation.useCount →
        (card.rfIns i).reservation.owner = ic.owner) := by
    simp [Reservation.usedByOther]
  have htuner : (card.tuners (B.chip d) i).reservation.usedByOther ic = true →
      (card.rfIns i).reservation.usedByOther ic = true := by
    simp only [Reservation.usedByOther, decide_eq_true_eq]
    rintro ⟨hpos, howner⟩
    rw [(h.tuners _ i).owner hpos] at howner
    exact ⟨Nat.lt_of_lt_of_le hpos (h.tuner_le _ i), howner⟩
  have hdef : reserveDecision B card d ic i =
      if (card.uses d).any fun j => (card.rfIns j).reservation.owner ≠ ic.owner then .error .failed
      else if (card.tuners (B.chip d) i).reservation.usedByOther ic then .error .failed
      else if (card.rfIns i).reservation.usedByOther ic then .error .failed
      else decideShares B card d ic i := by
    rw [reserveDecision]
    simp only [h.activeRfIn_eq, h.tunerOf_owner]
    split
    · rfl
    · rfl
  by_cases hok : card.OwnersOk d ic i
  · left
    refine ⟨hok, ?_⟩
    rw [hdef, if_neg (by rw [hold]; exact not_not_intro hok.1),
      if_neg fun ht => hrf.mp (htuner ht) hok.2, if_neg fun hr => hrf.mp hr hok.2]
  · right
    refine ⟨hok, ?_⟩
    rw [hdef]
    split
    · rfl
    · rename_i hfirst
      split
      · rfl
      · split
        · rfl
        · rename_i hthird
          rw [hold, not_not] at hfirst
          rw [hrf, not_not] at hthird
          exact absurd ⟨hfirst, hthird⟩ hok

/-! ### Changes that leave users and reservations alone -/

/-- Only flags of demodulators and the secondary equipment of RF inputs in use differ. -/
structure SameUse (card card' : Card D) : Prop where
  uses : card'.uses = card.uses
  tuners : card'.tuners = card.tuners
  reservation : ∀ i, (card'.rfIns i).reservation = (card.rfIns i).reservation
  chip : ∀ i, (card'.rfIns i).controllingChip = (card.rfIns i).controllingChip
  idle : ∀ i, (card.rfIns i).reservation.useCount = 0 → card'.rfIns i = card.rfIns i

omit [DecidableEq D] [Fintype D] in
theorem SameUse.refl (card : Card D) : SameUse card card :=
  ⟨rfl, rfl, fun _ => rfl, fun _ => rfl, fun _ _ => rfl⟩

omit [DecidableEq D] [Fintype D] in
theorem SameUse.trans {card'' : Card D} (h : SameUse card card') (h' : SameUse card' card'') :
    SameUse card card'' := by
  refine ⟨h'.uses.trans h.uses, h'.tuners.trans h.tuners,
    fun i => (h'.reservation i).trans (h.reservation i), fun i => (h'.chip i).trans (h.chip i),
    fun i h0 => ?_⟩
  rw [h'.idle i (by rw [h.reservation]; exact h0), h.idle i h0]

omit [DecidableEq D] in
theorem SameUse.place (h : SameUse card card') : card'.place B = card.place B := by
  funext d
  rw [Card.place, Card.place, h.uses]

omit [Fintype D] in
theorem SameUse.setDemod {s : Stv} (hs : s.activeTuner = card.uses d) :
    SameUse card (card.setDemod d s) := by
  refine ⟨funext fun e => ?_, rfl, fun _ => rfl, fun _ => rfl, fun _ _ => rfl⟩
  rw [Card.uses, Card.setDemod_demods]
  split
  · rename_i he
    rw [he]
    exact hs
  · rfl

omit [DecidableEq D] [Fintype D] in
theorem SameUse.setRfIn {r : RfIn} (hpos : 0 < (card.rfIns i).reservation.useCount)
    (hres : r.reservation = (card.rfIns i).reservation)
    (hchip : r.controllingChip = (card.rfIns i).controllingChip) :
    SameUse card (card.setRfIn i r) := by
  refine ⟨rfl, rfl, fun k => ?_, fun k => ?_, fun k h0 => ?_⟩ <;> rw [Card.setRfIn_rfIns] <;> split
  · rename_i hk
    rw [hk, hres]
  · rfl
  · rename_i hk
    rw [hk, hchip]
  · rfl
  · rename_i hk
    rw [hk] at h0
    exact absurd h0 (Nat.ne_of_gt hpos)
  · rfl

omit [DecidableEq D] in
theorem Card.Inv.sameUse (h : card.Inv B) (hsame : SameUse card card') : card'.Inv B := by
  refine ⟨⟨fun i => ?_, fun c i => ?_⟩, fun i => ⟨fun h0 => ?_, fun hpos => ?_⟩, fun c i => ?_⟩
  · rw [hsame.reservation, hsame.uses]
    exact h.rfInUse i
  · rw [hsame.tuners, hsame.place]
    exact h.tunerUse c i
  · rw [hsame.reservation] at h0
    rw [hsame.idle i h0]
    exact (h.rfIns i).idle h0
  · rw [hsame.reservation] at hpos
    rw [hsame.chip]
    exact (h.rfIns i).chip hpos
  · rw [hsame.tuners]
    have ht := h.tuners c i
    refine ⟨ht.idle, ht.bound, fun hpos => ?_⟩
    rw [hsame.reservation]
    exact ht.owner hpos

omit [Fintype D] in
theorem crown_sameUse (hpos : 0 < (card.rfIns i).reservation.useCount) :
    SameUse card (card.crown d ic i m) := by
  have hset : SameUse card (card.setDemod d { card.demods d with isMaster := m }) :=
    SameUse.setDemod rfl
  cases m with
  | false => exact hset
  | true => exact hset.trans (SameUse.setRfIn hpos rfl rfl)

theorem Card.Inv.selectRfIn_inv (h : card.Inv B) (d : D) (err : Bool)
    (request : Option RfInputControl) : (selectRfIn B card d err request).1.Inv B := by
  cases request with
  | none => exact h.release_inv d
  | some ic =>
    have hans := @selectRfIn_answered _ _ _ B card d ic err
    generalize selectRfIn B card d err (some ic) = out at hans ⊢
    cases hans with
    | refused r _ _ => exact h
    | broken i m _ hdec _ _ => exact h.grant_inv (h.shared hdec)
    | granted i m _ hdec _ _ =>
      have hgrant := h.grant_inv (m := m) (h.shared hdec)
      exact hgrant.sameUse (crown_sameUse (hgrant.rfIn_pos grant_uses_self))

/-! ### The request in a call -/

/-- What `selectRfInLegacy` asks for, and the card with its note that the caller never asks. -/
def legacyAsk (B : Board D) (card : Card D) (d : D) (mode : ReservationMode) :
    Card D × Option RfInputControl :=
  if (card.activeRfIn B d).isSome then (card, none)
  else
    let card := card.setDemod d { card.demods d with legacyRfIn := true }
    (card, (legacyRfInNo B card d).map fun rfIn => legacyControl rfIn mode)

/-- What a call asks for, and the card with what it notes before. -/
def Call.ask (B : Board D) (card : Card D) (d : D) : Call → Card D × Option RfInputControl
  | .setRfInput ic =>
    if ic.rfIn ∈ B.rfInputs d then
      (card.setDemod d { card.demods d with legacyRfIn := ic.configId < 0 }, some ic)
    else (card, none)
  | .tune mode => legacyAsk B card d mode
  | .setVoltage voltage mode =>
    let card := noteQuattro B card d 2 (voltage = .v18)
    if B.setVoltage (B.chip d) ∧ card.activeRfIn B d = none ∧ voltage ≠ .off then
      legacyAsk B card d mode
    else (card, none)
  | .setTone tone mode => legacyAsk B (noteQuattro B card d 1 (tone = .on)) d mode
  | .sendLongMasterCmd _ mode => if B.multiswitchMode (B.chip d) = .quattro then (card, none)
    else legacyAsk B card d mode
  | .recvSlaveReply mode => if B.multiswitchMode (B.chip d) = .quattro then (card, none)
    else legacyAsk B card d mode
  | .sendBurst mode => if B.multiswitchMode (B.chip d) = .quattro then (card, none)
    else legacyAsk B card d mode
  | .setSecReady => (card, none)
  | .sleep => (card, none)

/-- The card after the request, and its answer. -/
def answerTo (B : Board D) (d : D) (err : Bool) :
    Card D × Option RfInputControl → Card D × Option Result
  | (card, none) => (card, none)
  | (card, some ic) => ((selectRfIn B card d err (some ic)).1, some (selectRfIn B card d err (some ic)).2)

/-- The answer to the request in a call, and the card then; all that a call does afterwards is to
    work on the secondary equipment. -/
def Call.answer (B : Board D) (card : Card D) (d : D) (err : Bool) (call : Call) :
    Card D × Option Result :=
  match call with
  | .sleep => if (card.activeRfIn B d).isSome then (card.release B d, some .released) else (card, none)
  | call => answerTo B d err (call.ask B card d)

theorem selectRfInLegacy_eq :
    selectRfInLegacy B card d mode err = answerTo B d err (legacyAsk B card d mode) := by
  rw [selectRfInLegacy, legacyAsk]
  split
  · rfl
  · simp only
    split
    · rename_i hno
      rw [hno]
      rfl
    · rename_i hno
      rw [hno]
      rfl

/-- Nothing differs but what a demodulator has noted of its requests. -/
def Noted (d : D) (card card' : Card D) : Prop :=
  ∃ legacyRfIn mask rfIn, card' = card.setDemod d
    { card.demods d with legacyRfIn, quattroRfInMask := mask, quattroRfIn := rfIn }

omit [Fintype D] in
theorem Noted.refl (d : D) (card : Card D) : Noted d card card :=
  ⟨_, _, _, by rw [Card.setDemod, Function.update_eq_self]⟩

omit [Fintype D] in
theorem Noted.trans {card'' : Card D} (h : Noted d card card') (h' : Noted d card' card'') :
    Noted d card card'' := by
  obtain ⟨_, _, _, rfl⟩ := h
  obtain ⟨_, _, _, rfl⟩ := h'
  exact ⟨_, _, _, by simp [Card.setDemod]; rfl⟩

omit [Fintype D] in
theorem Noted.sameUse (h : Noted d card card') : SameUse card card' := by
  obtain ⟨_, _, _, rfl⟩ := h
  exact SameUse.setDemod rfl

theorem noteQuattro_noted (bit : UInt8) (set : Bool) : Noted d card (noteQuattro B card d bit set) := by
  rw [noteQuattro]
  split
  · exact ⟨_, _, _, rfl⟩
  · exact .refl d card

theorem legacyAsk_noted : Noted d card (legacyAsk B card d mode).1 := by
  rw [legacyAsk]
  split
  · exact .refl d card
  · exact ⟨_, _, _, rfl⟩

theorem noteQuattro_sameUse (bit : UInt8) (set : Bool) :
    SameUse card (noteQuattro B card d bit set) := (noteQuattro_noted bit set).sameUse

theorem legacyAsk_sameUse : SameUse card (legacyAsk B card d mode).1 := legacyAsk_noted.sameUse

theorem Call.ask_noted (call : Call) : Noted d card (call.ask B card d).1 := by
  cases call with
  | setRfInput ic =>
    rw [Call.ask]
    split
    · exact ⟨_, _, _, rfl⟩
    · exact .refl d card
  | tune mode => exact legacyAsk_noted
  | setVoltage voltage mode =>
    rw [Call.ask]
    split
    · exact (noteQuattro_noted _ _).trans legacyAsk_noted
    · exact noteQuattro_noted _ _
  | setTone tone mode => exact (noteQuattro_noted _ _).trans legacyAsk_noted
  | sendLongMasterCmd msg mode =>
    rw [Call.ask]
    split
    · exact .refl d card
    · exact legacyAsk_noted
  | recvSlaveReply mode =>
    rw [Call.ask]
    split
    · exact .refl d card
    · exact legacyAsk_noted
  | sendBurst mode =>
    rw [Call.ask]
    split
    · exact .refl d card
    · exact legacyAsk_noted
  | setSecReady => exact .refl d card
  | sleep => exact .refl d card

theorem Call.ask_sameUse (call : Call) : SameUse card (call.ask B card d).1 := call.ask_noted.sameUse

theorem Card.Inv.answerTo_inv {asked : Card D × Option RfInputControl} (h : asked.1.Inv B) :
    (answerTo B d err asked).1.Inv B := by
  obtain ⟨card, request⟩ := asked
  cases request with
  | none => exact h
  | some ic => exact h.selectRfIn_inv d err (some ic)

theorem Card.Inv.answer_inv (h : card.Inv B) (call : Call) : (call.answer B card d err).1.Inv B := by
  have hask : (answerTo B d err (call.ask B card d)).1.Inv B :=
    (h.sameUse call.ask_sameUse).answerTo_inv
  cases call with
  | sleep =>
    rw [Call.answer]
    split
    · exact h.release_inv d
    · exact h
  | _ => exact hask

/-- Only voltage, tone and `secConfigured` of the RF input that a demodulator uses differ. -/
structure SecOnly (B : Board D) (d : D) (card card' : Card D) : Prop where
  demods : card'.demods = card.demods
  tuners : card'.tuners = card.tuners
  rfIns : ∀ i, card'.rfIns i = card.rfIns i ∨ card.activeRfIn B d = some i ∧
    ∃ v t c, card'.rfIns i = { card.rfIns i with voltage := v, tone := t, secConfigured := c }

omit [DecidableEq D] in
theorem SecOnly.refl (card : Card D) : SecOnly B d card card := ⟨rfl, rfl, fun _ => Or.inl rfl⟩

omit [DecidableEq D] in
theorem SecOnly.setRfIn {v : SecVoltage} {t : SecTone} {c : Bool}
    (hact : card.activeRfIn B d = some i) :
    SecOnly B d card
      (card.setRfIn i { card.rfIns i with voltage := v, tone := t, secConfigured := c }) := by
  refine ⟨rfl, rfl, fun k => ?_⟩
  rw [Card.setRfIn_rfIns]
  split
  · rename_i hk
    subst hk
    exact Or.inr ⟨hact, v, t, c, rfl⟩
  · exact Or.inl rfl

omit [DecidableEq D] in
theorem Card.Inv.secOnly (h : card.Inv B) (hsec : SecOnly B d card card') : SameUse card card' := by
  refine ⟨funext fun e => congrArg (fun f => (f e).activeTuner) hsec.demods, hsec.tuners,
    fun i => ?_, fun i => ?_, fun i h0 => ?_⟩
  · rcases hsec.rfIns i with heq | ⟨_, v, t, c, heq⟩ <;> rw [heq]
  · rcases hsec.rfIns i with heq | ⟨_, v, t, c, heq⟩ <;> rw [heq]
  · rcases hsec.rfIns i with heq | ⟨hact, _⟩
    · exact heq
    · rw [h.activeRfIn_eq] at hact
      exact absurd h0 (Nat.ne_of_gt (h.rfIn_pos hact))

omit [DecidableEq D] in
theorem applyVoltage_sec {voltage : SecVoltage} (hact : card.activeRfIn B d = some i) :
    SecOnly B d card (applyVoltage B card d voltage i).card := by
  rw [applyVoltage]
  split
  · exact SecOnly.refl card
  · split
    · exact SecOnly.refl card
    · split
      · exact SecOnly.refl card
      · split
        · exact SecOnly.refl card
        · exact SecOnly.setRfIn hact

omit [DecidableEq D] in
theorem applyTone_sec {tone : SecTone} (hact : card.activeRfIn B d = some i) :
    SecOnly B d card (applyTone B card d tone i hw).card := by
  rw [applyTone]
  split
  · exact SecOnly.refl card
  · split
    · exact SecOnly.refl card
    · exact SecOnly.setRfIn hact

/-- `setVoltage` after its request. -/
theorem setVoltage_eq (voltage : SecVoltage) :
    setVoltage B card d voltage mode hw =
      let noted := noteQuattro B card d 2 (voltage = .v18)
      let card' := (Call.answer B card d hw.err (.setVoltage voltage mode)).1
      let legacy := B.setVoltage (B.chip d) ∧ noted.activeRfIn B d = none
      let events := if legacy then legacyOnChip B noted d mode else []
      if legacy ∧ voltage = .off then ⟨card', 0, []⟩
      else
        match card'.activeRfIn B d with
        | none => ⟨card', -1, events⟩
        | some i =>
          let out := applyVoltage B card' d voltage i
          { out with events := events ++ out.events } := by
  by_cases hlegacy : B.setVoltage (B.chip d) = true ∧
      (noteQuattro B card d 2 (voltage = .v18)).activeRfIn B d = none
  · by_cases hoff : voltage = .off
    · subst hoff
      simp only [setVoltage, Call.answer, Call.ask, answerTo, hlegacy.1, hlegacy.2, ne_eq,
        not_true_eq_false, and_false, if_false, and_self, if_true]
    · simp only [setVoltage, Call.answer, Call.ask, hlegacy, hoff, ne_eq, not_false_eq_true,
        and_self, and_false, if_true, if_false, selectRfInLegacy_eq] <;> rfl
  · have hnot : ¬ (B.setVoltage (B.chip d) = true ∧
        (noteQuattro B card d 2 (voltage = .v18)).activeRfIn B d = none ∧ voltage ≠ .off) :=
      fun h => hlegacy ⟨h.1, h.2.1⟩
    simp only [setVoltage, Call.answer, Call.ask, answerTo, hlegacy, hnot, false_and, if_false] <;>
      rfl

theorem step_sec (call : Call) :
    SecOnly B d (call.answer B card d hw.err).1 (step B card d hw call).card := by
  cases call with
  | setRfInput ic =>
    simp only [step, setRfInput, Call.answer, Call.ask]
    split
    · exact SecOnly.refl _
    · exact SecOnly.refl _
  | tune mode =>
    simp only [step, tune, Call.answer, Call.ask, selectRfInLegacy_eq]
    exact SecOnly.refl _
  | setVoltage voltage mode =>
    rw [step, setVoltage_eq]
    simp only
    split
    · exact SecOnly.refl _
    · split
      · exact SecOnly.refl _
      · rename_i hact
        exact applyVoltage_sec hact
  | setTone tone mode =>
    simp only [step, setTone, Call.answer, Call.ask, selectRfInLegacy_eq]
    split
    · exact SecOnly.refl _
    · rename_i hact
      exact applyTone_sec hact
  | sendLongMasterCmd msg mode =>
    simp only [step, sendLongMasterCmd, Call.answer, Call.ask, selectRfInLegacy_eq]
    split
    · exact SecOnly.refl _
    · split
      · exact SecOnly.refl _
      · exact SecOnly.refl _
  | recvSlaveReply mode =>
    simp only [step, recvSlaveReply, Call.answer, Call.ask, selectRfInLegacy_eq]
    split
    · exact SecOnly.refl _
    · split
      · exact SecOnly.refl _
      · split
        · exact SecOnly.refl _
        · exact SecOnly.refl _
  | sendBurst mode =>
    simp only [step, sendBurst, Call.answer, Call.ask, selectRfInLegacy_eq]
    split
    · exact SecOnly.refl _
    · split
      · exact SecOnly.refl _
      · exact SecOnly.refl _
  | setSecReady =>
    simp only [step, setSecReady, Call.answer, Call.ask, answerTo]
    split
    · exact SecOnly.refl _
    · rename_i hact
      exact SecOnly.setRfIn hact
  | sleep =>
    simp only [step, sleep, Call.answer, selectRfIn_none]
    split
    · exact SecOnly.refl _
    · exact SecOnly.refl _

/-! ### Every reachable state -/

omit [DecidableEq D] in
theorem Card.init_inv (B : Board D) : (Card.init D).Inv B := by
  have hcount : ∀ i, count (Card.init D).uses i = 0 := fun _ => count_none
  have hplace : ∀ x, count ((Card.init D).place B) x = 0 := fun _ => count_none
  refine ⟨⟨fun i => (hcount i).symm, fun c i => (hplace _).symm⟩, fun i => ⟨fun _ => ?_, ?_⟩,
    fun c i => ⟨fun _ => rfl, ?_, ?_⟩⟩
  · exact ⟨rfl, rfl, rfl, rfl, rfl⟩
  · rintro ⟨⟩
  · rintro ⟨⟩
  · rintro ⟨⟩

theorem Card.Inv.step_inv (h : card.Inv B) (d : D) (hw : Hw) (call : Call) :
    (step B card d hw call).card.Inv B := by
  have hanswer : (call.answer B card d hw.err).1.Inv B := h.answer_inv call
  exact hanswer.sameUse (hanswer.secOnly (step_sec call))

theorem Reachable.inv (h : Reachable B card) : card.Inv B := by
  induction h with
  | init => exact Card.init_inv B
  | call d hw call _ ih => exact ih.step_inv d hw call

/-- Every use count is the number of users, and what nobody uses is switched off. -/
theorem use_counts (h : Reachable B card) :
    (∀ i, (card.rfIns i).reservation.useCount =
        (Finset.univ.filter fun d => card.activeRfIn B d = some i).card) ∧
      (∀ c i, (card.tuners c i).reservation.useCount =
        (Finset.univ.filter fun d => B.chip d = c ∧ (card.demods d).activeTuner = some i).card) ∧
      (∀ i, (card.rfIns i).reservation.useCount = 0 →
        (card.rfIns i).controllingChip = none ∧ (card.rfIns i).secConfigured = false ∧
          (card.rfIns i).voltage = .off ∧ (card.rfIns i).tone = .off) ∧
      ∀ c i, (card.tuners c i).reservation.useCount = 0 →
        (card.tuners c i).poweredOn = false ∧ (card.tuners c i).activeRfIn = none := by
  have hinv := h.inv
  refine ⟨fun i => ?_, fun c i => ?_, fun i h0 => ?_, fun c i h0 => ?_⟩
  · rw [hinv.rfInUse, count]
    simp only [hinv.activeRfIn_eq]
  · rw [hinv.tunerUse, count]
    simp only [Card.place_eq_some]
    rfl
  · have hidle := (hinv.rfIns i).idle h0
    exact ⟨hidle.chip, hidle.sec, hidle.voltage, hidle.tone⟩
  · rw [(hinv.tuners c i).idle h0]
    exact ⟨rfl, rfl⟩

/-- A card with two chips and a demodulator on each. -/
def twinBoard : Board Bool where
  chip d := if d then 1 else 0
  rfInputs _ := [0, 1, 2, 3]
  defaultRfInput _ := 0
  multiswitchMode _ := .diseqc
  setVoltage _ := true
  few := by decide

/-- Hardware that does what it is told. -/
def goodHw : Hw := ⟨false, false, 0⟩

theorem use_counts_twin :
    let card := (step twinBoard (Card.init Bool) true goodHw
      (.setRfInput ⟨7, 1, false, 2, .master⟩)).card
    (card.rfIns 2).reservation.useCount = 1 ∧
      (card.rfIns 2).reservation.useCount =
        (Finset.univ.filter fun d => card.activeRfIn twinBoard d = some 2).card := by
  intro card
  have hreach : Reachable twinBoard card := .call true goodHw _ .init
  exact ⟨by decide, (use_counts hreach).1 2⟩

end Stid135

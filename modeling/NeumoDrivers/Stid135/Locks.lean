import NeumoDrivers.Lib.LockTrace
import NeumoDrivers.Stid135.Refusals

/-! The chip locks (`state_chip_lock`, `chip_chip_lock`, `card_lock`).

    A call locks its own chip, but the RF input it works on can be controlled by the other one. -/

namespace Stid135
open LockTrace Function

variable {D : Type} [DecidableEq D] [Fintype D] {B : Board D} {card card' : Card D} {d : D}
variable {ic : RfInputControl} {i j : RfInNo} {c : ChipNo} {m err : Bool} {hw : Hw} {call : Call}
variable {held : Option ChipNo → Bool} {events : List Event}

/-- What an event does to the locks of the chips, and to that of the card. -/
def Event.onLock : Event → LockTrace.Event (Option ChipNo)
  | .lock c => .acquire (some c)
  | .unlock c => .release (some c)
  | .lockCard => .acquire none
  | .unlockCard => .release none
  | .access c => .touch (some c)
  | .send c _ _ => .touch (some c)

/-- Chips are worked on under their locks, no lock is taken twice, and all are given back. -/
def Disciplined (events : List Event) : Prop := Keeps (fun _ => false) (events.map Event.onLock)

theorem map_onChip : (onChip c events).map Event.onLock =
    .acquire (some c) :: events.map Event.onLock ++ [.release (some c)] := by
  simp [onChip, Event.onLock]

theorem map_onCard : (onCard events).map Event.onLock =
    .acquire none :: events.map Event.onLock ++ [.release none] := by
  simp [onCard, Event.onLock]

theorem keeps_onChip (h : held (some c) = false) :
    Keeps held ((onChip c events).map Event.onLock) ↔
      Keeps (update held (some c) true) (events.map Event.onLock) := by
  rw [map_onChip]
  exact keeps_under h

theorem keeps_onCard (h : held none = false) :
    Keeps held ((onCard events).map Event.onLock) ↔
      Keeps (update held none true) (events.map Event.onLock) := by
  rw [map_onCard]
  exact keeps_under h

/-- Events that work on chips and take no lock. -/
theorem keeps_accesses (hall : ∀ ev ∈ events, ∃ c, ev = .access c) :
    Keeps held (events.map Event.onLock) ↔ ∀ c, .access c ∈ events → held (some c) = true := by
  have hmem : ∀ c, .touch (some c) ∈ events.map Event.onLock ↔ .access c ∈ events := by
    intro c
    rw [List.mem_map]
    constructor
    · rintro ⟨ev, hev, heq⟩
      obtain ⟨c', rfl⟩ := hall ev hev
      cases heq
      exact hev
    · intro hev
      exact ⟨_, hev, rfl⟩
  rw [keeps_touches]
  · refine ⟨fun h c hc => h (some c) ((hmem c).mpr hc), ?_⟩
    rintro h (_ | c) hc
    · obtain ⟨ev, hev, heq⟩ := List.mem_map.mp hc
      obtain ⟨c', rfl⟩ := hall ev hev
      cases heq
    · exact h c ((hmem c).mp hc)
  · intro ev hev
    obtain ⟨ev', hev', rfl⟩ := List.mem_map.mp hev
    obtain ⟨c', rfl⟩ := hall ev' hev'
    exact ⟨some c', rfl⟩

/-! ### The chips that a request works on -/

/-- The demodulator is the last user of an RF input that a chip controls, and goes on to another or
    to none. -/
def Card.Abandons (card : Card D) (d : D) (next : Option RfInNo) (c : ChipNo) : Prop :=
  ∃ j, card.uses d = some j ∧ next ≠ some j ∧ (card.rfIns j).reservation.useCount = 1 ∧
    (card.rfIns j).controllingChip = some c

omit [DecidableEq D] in
theorem mem_closeOldRfInEvents {ev : Event} :
    ev ∈ closeOldRfInEvents B card d true (some j) ↔
      (card.rfIns j).reservation.useCount = 0 ∧
        ∃ c, (card.rfIns j).controllingChip = some c ∧ ev = .access c := by
  rw [closeOldRfInEvents]
  rcases (card.rfIns j).controllingChip with _ | c
  · simp
  · by_cases h0 : (card.rfIns j).reservation.useCount = 0
    · simp [h0]
    · simp [h0]

omit [DecidableEq D] in
/-- The RF input that is left has no users afterwards if this was the last one. -/
theorem Card.Inv.mem_close (h : card.Inv B) (next : Option RfInNo) {ev : Event} :
    ev ∈ closeOldRfInEvents B (releaseOld B card d next) d true (card.uses d) ↔
      ∃ c, card.Abandons d next c ∧ ev = .access c := by
  rcases hd : card.uses d with _ | j
  · simp [closeOldRfInEvents, Card.Abandons, hd]
  · have hpos := h.rfIn_pos hd
    have hleave : (releaseOld B card d next).rfIns j = (card.rfIns j).leave (next = some j) := by
      rw [h.releaseOld_rfIns, if_pos hd]
    have hzero : ((card.rfIns j).leave (next = some j)).reservation.useCount = 0 ↔
        next ≠ some j ∧ (card.rfIns j).reservation.useCount = 1 := by
      by_cases hnext : next = some j
      · rw [decide_eq_true hnext, RfIn.leave_stays hpos]
        exact ⟨fun h0 => absurd h0 (Nat.ne_of_gt hpos), fun h0 => absurd hnext h0.1⟩
      · rw [decide_eq_false hnext]
        have hcount : ((card.rfIns j).leave false).reservation.useCount =
            (card.rfIns j).reservation.useCount - 1 := Reservation.useCount_leave hpos
        rw [hcount]
        exact ⟨fun h0 => ⟨hnext, by omega⟩, fun h0 => by omega⟩
    rw [mem_closeOldRfInEvents, hleave, hzero]
    constructor
    · rintro ⟨⟨hnext, hone⟩, c, hc, rfl⟩
      exact ⟨c, ⟨j, hd, hnext, hone, hc⟩, rfl⟩
    · rintro ⟨c, ⟨j', hd', hnext, hone, hc⟩, rfl⟩
      cases hd.symm.trans hd'
      exact ⟨⟨hnext, hone⟩, c, hc, rfl⟩

omit [DecidableEq D] in
/-- Taking the new RF input does not change what is to be closed. -/
theorem closeOldRfInEvents_takeNew (same same' : Bool) :
    closeOldRfInEvents B
        (takeNew B (releaseOld B card d (some i)) d ic i (card.uses d = some i) same' m) d same
        (card.uses d) =
      closeOldRfInEvents B (releaseOld B card d (some i)) d same (card.uses d) := by
  rcases hd : card.uses d with _ | j
  · rfl
  · have hrf : ∀ k, (takeNew B (releaseOld B card d (some i)) d ic i (some j = some i) same' m).rfIns
        k = if k = i then ((releaseOld B card d (some i)).rfIns i).join ic (some j = some i) m
          else (releaseOld B card d (some i)).rfIns k := by
      intro k
      simp [takeNew]
    rw [closeOldRfInEvents, closeOldRfInEvents, hrf]
    by_cases hj : j = i
    · subst hj
      have hcount : (((releaseOld B card d (some j)).rfIns j).join ic true m).reservation.useCount =
          ((releaseOld B card d (some j)).rfIns j).reservation.useCount := by
        rw [RfIn.join, Reservation.useCount_join]
        rfl
      simp only [if_true, decide_true]
      rw [hcount]
      rfl
    · rw [if_neg hj]

omit [DecidableEq D] in
theorem mem_closeOldTunerEvents {o : Option RfInNo} {ev : Event}
    (h : ev ∈ closeOldTunerEvents B card d o) : ev = .access (B.chip d) := by
  unfold closeOldTunerEvents at h
  split at h
  · cases h
  · split at h
    · exact List.mem_singleton.mp h
    · cases h

omit [DecidableEq D] in
theorem mem_openNewEvents {ev : Event} :
    ev ∈ openNewEvents B card d i ↔ ev = .access (B.chip d) := by
  rw [openNewEvents]
  split <;> split <;> simp

/-- A request that is granted works on the own chip, and on the one that controls what it leaves. -/
theorem Card.Inv.mem_selectRfIn (h : card.Inv B) {ev : Event} :
    ev ∈ selectRfInEvents B card d true (some ic) ↔ reserves B card d ic = true ∧
      (ev = .access (B.chip d) ∨ ∃ c, card.Abandons d (rfInOf ic.rfIn) c ∧ ev = .access c) := by
  rw [selectRfInEvents, reserves]
  rcases isUnchanged B card d ic with _ | _
  · rcases hno : rfInOf ic.rfIn with _ | i
    · simp
    · rcases hdec : reserveDecision B card d ic i with r | m
      · have hres : reserveTunerAndRfIn B card d (some ic) = (card, r) := by
          simp only [reserveTunerAndRfIn, hno, hdec]
        have hr : r.granted = false := by
          rcases reserveDecision_error hdec with rfl | rfl <;> rfl
        simp [hres, hr, hdec, Except.toBool]
      · have hres : reserveTunerAndRfIn B card d (some ic) =
            (takeNew B (releaseOld B card d (some i)) d ic i (card.uses d = some i)
              (card.uses d = some i) m, grantResult m) := by
          simp only [reserveTunerAndRfIn, hno, hdec, h.activeRfIn_eq]
          rfl
        have hact : (card.demods d).activeTuner = card.uses d := rfl
        simp only [hres, hdec, grantResult_granted, h.activeRfIn_eq, hact, Bool.false_eq_true,
          if_false, not_true_eq_false, List.mem_append, mem_openNewEvents, closeOldRfInEvents_takeNew,
          h.mem_close, Bool.not_false, Bool.true_and, Except.toBool, true_and]
        constructor
        · rintro ((hc | ht) | hn)
          · exact Or.inr hc
          · exact Or.inl (mem_closeOldTunerEvents ht)
          · exact Or.inl hn
        · rintro (hn | hc)
          · exact Or.inr hn
          · exact Or.inl (Or.inl hc)
  · simp

theorem Card.Inv.mem_selectRfIn_none (h : card.Inv B) {ev : Event} (hev : ev ≠ .access (B.chip d)) :
    ev ∈ selectRfInEvents B card d true none ↔ ∃ c, card.Abandons d none c ∧ ev = .access c := by
  simp only [selectRfInEvents, reserveTunerAndRfIn, List.mem_append, h.activeRfIn_eq, h.mem_close]
  constructor
  · rintro (hc | ht)
    · exact hc
    · exact absurd (mem_closeOldTunerEvents ht) hev
  · exact Or.inl

/-- Without an old RF input it is all the same whether the caller has locked the chip. -/
theorem Card.Inv.selectRfInEvents_fresh (h : card.Inv B) (hd : card.uses d = none) :
    selectRfInEvents B card d false (some ic) = selectRfInEvents B card d true (some ic) := by
  have hact : card.activeRfIn B d = none := (h.activeRfIn_eq d).trans hd
  rw [selectRfInEvents, selectRfInEvents]
  simp only [hact, closeOldRfInEvents]

/-! ### Requests under the lock of the own chip -/

section
variable (hown : ∀ c, held (some c) = true ↔ c = B.chip d)
include hown

theorem Card.Inv.keeps_select (h : card.Inv B) :
    Keeps held ((selectRfInEvents B card d true (some ic)).map Event.onLock) ↔
      ¬ (reserves B card d ic = true ∧
        ∃ c, c ≠ B.chip d ∧ card.Abandons d (rfInOf ic.rfIn) c) := by
  rw [keeps_accesses]
  · constructor
    · rintro hall ⟨hres, c, hc, haband⟩
      exact hc ((hown c).mp (hall c (h.mem_selectRfIn.mpr ⟨hres, Or.inr ⟨c, haband, rfl⟩⟩)))
    · intro hgood c hc
      rw [hown]
      by_contra hne
      rcases h.mem_selectRfIn.mp hc with ⟨hres, ⟨⟨⟩⟩ | ⟨c', haband, ⟨⟩⟩⟩
      · exact hne rfl
      · exact hgood ⟨hres, c, hne, haband⟩
  · intro ev hev
    rcases h.mem_selectRfIn.mp hev with ⟨-, hev | ⟨c, -, hev⟩⟩
    · exact ⟨_, hev⟩
    · exact ⟨c, hev⟩

theorem Card.Inv.keeps_release (h : card.Inv B) :
    Keeps held ((selectRfInEvents B card d true none).map Event.onLock) ↔
      ¬ ∃ c, c ≠ B.chip d ∧ card.Abandons d none c := by
  rw [keeps_accesses]
  · constructor
    · rintro hall ⟨c, hc, haband⟩
      have hne : Event.access c ≠ .access (B.chip d) := fun heq => hc (Event.access.inj heq)
      exact hc ((hown c).mp (hall c ((h.mem_selectRfIn_none hne).mpr ⟨c, haband, rfl⟩)))
    · intro hgood c hc
      rw [hown]
      by_contra hne
      have hev : Event.access c ≠ .access (B.chip d) := fun heq => hne (Event.access.inj heq)
      obtain ⟨c', haband, ⟨⟩⟩ := (h.mem_selectRfIn_none hev).mp hc
      exact hgood ⟨c, hne, haband⟩
  · intro ev hev
    by_cases hev' : ev = .access (B.chip d)
    · exact ⟨_, hev'⟩
    · obtain ⟨c, -, heq⟩ := (h.mem_selectRfIn_none hev').mp hev
      exact ⟨c, heq⟩

theorem Card.Inv.keeps_legacy (h : card.Inv B) (mode : ReservationMode) :
    Keeps held ((selectRfInLegacyEvents B card d mode true).map Event.onLock) := by
  rw [selectRfInLegacyEvents]
  split
  · exact keeps_nil
  · rename_i hact
    simp only
    split
    · exact keeps_nil
    · have hinv := h.sameUse (@SameUse.setDemod _ _ card d { card.demods d with legacyRfIn := true } rfl)
      rw [hinv.keeps_select hown]
      rintro ⟨-, c, -, j, hj, -⟩
      rw [Card.uses, Card.setDemod_demods, if_pos rfl] at hj
      rw [h.activeRfIn_eq, Card.uses, hj] at hact
      exact hact rfl

end

omit [DecidableEq D] in
/-- The own chip is locked, then the card. -/
theorem own_held (c : ChipNo) :
    update (update (fun _ : Option ChipNo => false) (some (B.chip d)) true) none true (some c) =
      true ↔ c = B.chip d := by
  rw [update_of_ne (by rintro ⟨⟩), update_apply]
  simp

theorem Card.Inv.keeps_legacyOnChip (h : card.Inv B) (mode : ReservationMode) :
    Keeps (fun _ => false) ((legacyOnChip B card d mode).map Event.onLock) := by
  rw [legacyOnChip]
  split
  · exact keeps_nil
  · rw [keeps_onChip rfl, keeps_onCard (by rw [update_of_ne (by rintro ⟨⟩)])]
    exact h.keeps_legacy own_held mode

/-! ### What a call works on -/

/-- A call makes a request that reserves. -/
def Call.Gets (B : Board D) (card : Card D) (d : D) (call : Call) (ic : RfInputControl) : Prop :=
  (call.ask B card d).2 = some ic ∧ reserves B (call.ask B card d).1 d ic = true

/-- The RF input that a call for the secondary equipment works on, and whether its demodulator is
    marked as master then: what it has, or what its request gets. -/
def Call.WorksOn (B : Board D) (card : Card D) (d : D) (err : Bool) (call : Call) (i : RfInNo)
    (master : Bool) : Prop :=
  (card.uses d = some i ∧ (card.demods d).isMaster = master) ∨
    (card.uses d = none ∧ ∃ ic m, (call.ask B card d).2 = some ic ∧ rfInOf ic.rfIn = some i ∧
      reserveDecision B (call.ask B card d).1 d ic i = .ok m ∧
      (if err then (card.demods d).isMaster else m) = master)

/-- The other chip controls an RF input. -/
def Card.Foreign (card : Card D) (B : Board D) (d : D) (i : RfInNo) : Prop :=
  ∃ c, c ≠ B.chip d ∧ (card.rfIns i).controllingChip = some c

theorem drivesSec_ask (h : card.Inv B) (hsec : call.drivesSec = true) (hd : card.uses d = some j) :
    (call.ask B card d).2 = none := by
  have hlegacy : ∀ (c : Card D) mode, SameUse card c → (legacyAsk B c d mode).2 = none := by
    intro c mode hsame
    have hact : c.activeRfIn B d = some j := by
      rw [(h.sameUse hsame).activeRfIn_eq, hsame.uses, hd]
    rw [legacyAsk, hact]
    rfl
  cases call with
  | setVoltage voltage mode =>
    rw [Call.ask]
    split
    · exact hlegacy _ _ (noteQuattro_sameUse _ _)
    · rfl
  | setTone tone mode => exact hlegacy _ _ (noteQuattro_sameUse _ _)
  | sendLongMasterCmd msg mode =>
    rw [Call.ask]
    split
    · rfl
    · exact hlegacy _ _ (SameUse.refl card)
  | _ => cases hsec

/-- What a call works on, in terms of the state before it. -/
theorem Card.Inv.worksOn (h : card.Inv B) (hsec : call.drivesSec = true) (master : Bool) :
    ((call.answer B card d err).1.uses d = some i ∧
        ((call.answer B card d err).1.demods d).isMaster = master) ↔
      call.WorksOn B card d err i master := by
  rw [drivesSec_answer hsec]
  have hsame := @Call.ask_sameUse _ _ _ B card d call
  have hmaster := @ask_isMaster _ _ _ B card d call
  have hnone := fun j => @drivesSec_ask _ _ _ B card d j call h hsec
  rw [Call.WorksOn]
  generalize call.ask B card d = asked at hsame hmaster hnone ⊢
  obtain ⟨card', _ | ic⟩ := asked
  · rw [answerTo, hsame.uses, hmaster]
    constructor
    · exact Or.inl
    · rintro (hhas | ⟨-, ic, m, ⟨⟩, -⟩)
      exact hhas
  · have hd : card.uses d = none := by
      by_contra hd
      obtain ⟨j, hj⟩ := Option.ne_none_iff_exists'.mp hd
      cases hnone j hj
    have hd' : card'.uses d = none := by rw [hsame.uses, hd]
    have hreq := @selectRfIn_answered _ _ _ B card' d ic err
    rw [answerTo]
    generalize selectRfIn B card' d err (some ic) = out at hreq ⊢
    simp only [hd, reduceCtorEq, false_and, false_or, true_and]
    cases hreq with
    | refused r _ hnot =>
      constructor
      · rintro ⟨huse, -⟩
        cases hd'.symm.trans huse
      · rintro ⟨_, m, ⟨rfl⟩, hno, hdec, -⟩
        have hnew : isUnchanged B card' d ic = false :=
          isUnchanged_eq_false hno (by rw [hd']; rintro ⟨⟩)
        rw [reserves_iff.mpr ⟨hnew, i, m, hno, hdec⟩] at hnot
        cases hnot
    | broken k m hno hdec _ herr =>
      simp only [grant_uses_self, grant_isMaster, herr, if_true]
      constructor
      · rintro ⟨⟨rfl⟩, hm⟩
        exact ⟨ic, m, rfl, hno, hdec, hmaster.symm.trans hm⟩
      · rintro ⟨_, m', ⟨rfl⟩, hno', -, hm⟩
        exact ⟨hno.symm.trans hno', hmaster.trans hm⟩
    | granted k m hno hdec _ herr =>
      simp only [crown_uses, grant_uses_self, crown_isMaster, herr, Bool.false_eq_true, if_false]
      constructor
      · rintro ⟨⟨rfl⟩, hm⟩
        exact ⟨ic, m, rfl, hno, hdec, hm⟩
      · rintro ⟨_, m', ⟨rfl⟩, hno', hdec', rfl⟩
        cases hno.symm.trans hno'
        cases hdec.symm.trans hdec'
        exact ⟨rfl, rfl⟩

/-- A request does not make the other chip control an RF input, or stop it, that a demodulator
    then works on; and the RF input is in unicable mode as before, but for a master. -/
theorem Card.Inv.worksOn_rfIn (h : card.Inv B) (hsec : call.drivesSec = true)
    (hd : (call.answer B card d err).1.uses d = some i) :
    ((call.answer B card d err).1.Foreign B d i ↔ card.Foreign B d i) ∧
      (((call.answer B card d err).1.demods d).isMaster = false →
        ((call.answer B card d err).1.rfIns i).unicableMode = (card.rfIns i).unicableMode) := by
  rw [drivesSec_answer hsec] at hd ⊢
  have hsame := @Call.ask_sameUse _ _ _ B card d call
  have hrf := @ask_rfIns _ _ _ B card d call
  have hnone := fun j => @drivesSec_ask _ _ _ B card d j call h hsec
  generalize call.ask B card d = asked at hsame hrf hnone hd ⊢
  obtain ⟨card', _ | ic⟩ := asked
  · rw [answerTo, Card.Foreign, Card.Foreign, hrf]
    exact ⟨Iff.rfl, fun _ => rfl⟩
  · have hinv : card'.Inv B := h.sameUse hsame
    have hfree : card'.uses d = none := by
      rw [hsame.uses]
      by_contra hd
      obtain ⟨j, hj⟩ := Option.ne_none_iff_exists'.mp hd
      cases hnone j hj
    -- a grant connects the RF input to the own chip if no chip controls it
    have hgrant : ∀ m, (card'.grant B d ic i m).Foreign B d i ↔ card.Foreign B d i := by
      intro m
      rw [Card.Foreign, Card.Foreign, hinv.grant_rfIns, if_pos rfl, hrf, RfIn.connect, RfIn.join]
      rcases hchip : (card.rfIns i).controllingChip with _ | c
      · simp
      · simp
    have huni : ∀ m, ((card'.grant B d ic i m).rfIns i).unicableMode =
        (card.rfIns i).unicableMode := by
      intro m
      rw [hinv.grant_rfIns, if_pos rfl, hrf, RfIn.connect]
      split <;> rfl
    have hreq := @selectRfIn_answered _ _ _ B card' d ic err
    rw [answerTo] at hd ⊢
    generalize selectRfIn B card' d err (some ic) = out at hreq hd ⊢
    cases hreq with
    | refused r _ hnot => cases hfree.symm.trans hd
    | broken k m _ _ _ _ =>
      rw [grant_uses_self] at hd
      cases hd
      exact ⟨hgrant m, fun _ => huni m⟩
    | granted k m _ _ _ _ =>
      rw [crown_uses, grant_uses_self] at hd
      cases hd
      cases m with
      | false => exact ⟨hgrant false, fun _ => huni false⟩
      | true =>
        refine ⟨?_, fun hm => ?_⟩
        · rw [← hgrant true, Card.Foreign, Card.Foreign, Card.crown]
          simp
        · rw [crown_isMaster] at hm
          cases hm

/-! ### The discipline -/

/-- The calls that work on a chip whose lock they do not hold: a demodulator leaves an RF input as
    its last user, or drives one, that the other chip controls; or it waits for a DiSEqC reply
    without an RF input and gets one. -/
def Unlocked (B : Board D) (card : Card D) (d : D) (err : Bool) (call : Call) : Prop :=
  match call with
  | .setRfInput _ => ∃ ic, call.Gets B card d ic ∧
      ∃ c, c ≠ B.chip d ∧ card.Abandons d (rfInOf ic.rfIn) c
  | .setTone .. => ∃ i, call.WorksOn B card d err i true ∧ card.Foreign B d i
  | .sendLongMasterCmd .. => B.multiswitchMode (B.chip d) ≠ .quattro ∧
      ∃ i master, call.WorksOn B card d err i master ∧
        (master = true ∨ (card.rfIns i).unicableMode = true) ∧ card.Foreign B d i
  | .recvSlaveReply _ => card.uses d = none ∧ ∃ ic, call.Gets B card d ic
  | .sleep => ∃ c, c ≠ B.chip d ∧ card.Abandons d none c
  | _ => False

omit [DecidableEq D] [Fintype D] in
theorem SameUse.abandons (hsame : SameUse card card') (hrf : card'.rfIns = card.rfIns)
    {next : Option RfInNo} : card'.Abandons d next c ↔ card.Abandons d next c := by
  rw [Card.Abandons, Card.Abandons, hrf, hsame.uses]

theorem setRfInput_disciplined (h : card.Inv B) :
    Disciplined (setRfInput B card d ic hw).events ↔ ¬ Unlocked B card d err (.setRfInput ic) := by
  have hask : (Call.setRfInput ic).ask B card d = if ic.rfIn ∈ B.rfInputs d then
      (card.setDemod d { card.demods d with legacyRfIn := ic.configId < 0 }, some ic)
      else (card, none) := rfl
  simp only [Disciplined, setRfInput, Unlocked, Call.Gets, hask]
  split
  · have hsame : SameUse card
        (card.setDemod d { card.demods d with legacyRfIn := (ic.configId < 0 : Bool) }) :=
      SameUse.setDemod rfl
    rw [keeps_onChip rfl, keeps_onCard (by rw [update_of_ne (by rintro ⟨⟩)]),
      (h.sameUse hsame).keeps_select own_held]
    simp [hsame.abandons rfl]
  · rw [keeps_onChip rfl]
    simp [keeps_nil]

theorem tune_disciplined (h : card.Inv B) (mode : ReservationMode) :
    Disciplined (tune B card d mode hw).events := by
  simp only [Disciplined, tune]
  rw [keeps_onChip rfl]
  split
  · exact keeps_nil
  · rw [keeps_onCard (by rw [update_of_ne (by rintro ⟨⟩)])]
    exact h.keeps_legacy own_held mode

theorem setVoltage_disciplined (h : card.Inv B) (voltage : SecVoltage) (mode : ReservationMode) :
    Disciplined (setVoltage B card d voltage mode hw).events := by
  have hnoted := h.sameUse (@noteQuattro_sameUse _ _ _ B card d 2 (voltage = .v18))
  have hcard : Keeps (fun _ => false) ((onCard []).map Event.onLock) := by
    rw [keeps_onCard rfl]
    exact keeps_nil
  have happly : ∀ (card : Card D) i,
      Keeps (fun _ => false) ((applyVoltage B card d voltage i).events.map Event.onLock) := by
    intro card i
    rw [applyVoltage]
    split_ifs <;> first | exact keeps_nil | exact hcard
  simp only [Disciplined, setVoltage]
  split
  · exact keeps_nil
  · have hlegacy : ∀ p : Prop, [Decidable p] → Keeps (fun _ => false)
        ((if p then legacyOnChip B (noteQuattro B card d 2 (voltage = .v18)) d mode
          else []).map Event.onLock) := by
      intro p _
      split
      · exact hnoted.keeps_legacyOnChip mode
      · exact keeps_nil
    split
    · exact hlegacy _
    · rw [List.map_append]
      exact (hlegacy _).append (happly _ _)

theorem sendBurst_disciplined (h : card.Inv B) (mode : ReservationMode) :
    Disciplined (sendBurst B card d mode hw).events := by
  rw [Disciplined, sendBurst]
  split
  · exact keeps_nil
  · simp only
    split
    · exact h.keeps_legacyOnChip mode
    · exact h.keeps_legacyOnChip mode

omit [DecidableEq D] in
theorem setSecReady_disciplined : Disciplined (setSecReady B card d).events := by
  rw [Disciplined, setSecReady]
  split
  · rw [keeps_onChip rfl]
    exact keeps_nil
  · rw [keeps_onChip rfl, keeps_onCard (by rw [update_of_ne (by rintro ⟨⟩)])]
    exact keeps_nil

theorem sleep_disciplined (h : card.Inv B) :
    Disciplined (sleep B card d hw).events ↔ ¬ Unlocked B card d err .sleep := by
  rw [Disciplined, sleep, Unlocked]
  split
  · rw [keeps_onChip rfl, keeps_onCard (by rw [update_of_ne (by rintro ⟨⟩)]),
      h.keeps_release own_held]
  · rename_i hact
    refine iff_of_true keeps_nil ?_
    rintro ⟨c, -, j, hj, -⟩
    rw [h.activeRfIn_eq, hj] at hact
    exact hact rfl

omit [DecidableEq D] in
/-- A chip controls the RF input that a demodulator uses. -/
theorem Card.Inv.own_controls (h : card.Inv B) (hd : card.uses d = some i) :
    ∃ c, (card.rfIns i).controllingChip = some c ∧ (card.Foreign B d i ↔ c ≠ B.chip d) := by
  obtain ⟨c, hc⟩ := Option.isSome_iff_exists.mp ((h.rfIns i).chip (h.rfIn_pos hd))
  refine ⟨c, hc, ?_⟩
  rw [Card.Foreign, hc]
  constructor
  · rintro ⟨_, hne, ⟨rfl⟩⟩
    exact hne
  · intro hne
    exact ⟨c, hne, rfl⟩

theorem setTone_disciplined (h : card.Inv B) (tone : SecTone) (mode : ReservationMode) :
    Disciplined (setTone B card d tone mode hw).events ↔
      ¬ Unlocked B card d hw.err (.setTone tone mode) := by
  have hnoted := h.sameUse (@noteQuattro_sameUse _ _ _ B card d 1 (tone = .on))
  have hcard : (selectRfInLegacy B (noteQuattro B card d 1 (tone = .on)) d mode hw.err).1 =
      ((Call.setTone tone mode).answer B card d hw.err).1 := by
    rw [selectRfInLegacy_eq]
    rfl
  have hinv := @Card.Inv.answer_inv _ _ _ _ _ d hw.err h (.setTone tone mode)
  have hworks := fun i => @Card.Inv.worksOn _ _ _ _ _ d i hw.err (.setTone tone mode) h rfl true
  have hrfIn := fun i => @Card.Inv.worksOn_rfIn _ _ _ _ _ d i hw.err (.setTone tone mode) h rfl
  simp only [Disciplined, setTone, hcard, Unlocked, ← hworks]
  generalize ((Call.setTone tone mode).answer B card d hw.err).1 = card' at hinv hrfIn ⊢
  rw [hinv.activeRfIn_eq]
  rcases hd : card'.uses d with _ | i
  · exact iff_of_true (hnoted.keeps_legacyOnChip mode) (by rintro ⟨i, ⟨⟨⟩, -⟩, -⟩)
  · obtain ⟨c, hc, hforeign⟩ := hinv.own_controls hd
    have hiff : (∃ k, (some i = some k ∧ (card'.demods d).isMaster = true) ∧ card.Foreign B d k) ↔
        (card'.demods d).isMaster = true ∧ c ≠ B.chip d := by
      constructor
      · rintro ⟨k, ⟨⟨rfl⟩, hm⟩, hf⟩
        exact ⟨hm, hforeign.mp ((hrfIn i hd).1.mpr hf)⟩
      · rintro ⟨hm, hne⟩
        exact ⟨i, ⟨rfl, hm⟩, (hrfIn i hd).1.mp (hforeign.mpr hne)⟩
    simp only [hiff]
    rw [List.map_append, (hnoted.keeps_legacyOnChip mode).append_iff, applyTone]
    rcases hm : (card'.demods d).isMaster with _ | _
    · exact iff_of_true keeps_nil (by rintro ⟨⟨⟩, -⟩)
    · simp only [hc, not_true_eq_false, if_false, true_and, ne_eq, not_not]
      rw [keeps_onChip rfl, keeps_accesses (by rintro ev (_ | ⟨_, ⟨⟩⟩); exact ⟨c, rfl⟩)]
      constructor
      · intro hall
        have hheld := hall c List.mem_cons_self
        rw [update_apply] at hheld
        by_contra hne
        rw [if_neg fun heq => hne (Option.some.inj heq)] at hheld
        cases hheld
      · rintro rfl c' hc'
        cases List.mem_singleton.mp hc'
        exact update_self ..

theorem keeps_diseqcSend (hheld : held (some c) = true) (msg : List UInt8) (n : ℕ) :
    Keeps held ((diseqcSendEvents c c i msg n).map Event.onLock) := by
  induction n with
  | zero => exact (keeps_touch hheld).mpr ((keeps_touch hheld).mpr keeps_nil)
  | succ n ih =>
    rw [diseqcSendEvents, List.map_append]
    refine ih.append ?_
    simp [Keeps, Event.onLock, LockTrace.Event.after, hheld, update_eq_self_iff]

omit [DecidableEq D] in
/-- A DiSEqC message under the lock of the own chip. -/
theorem Card.Inv.keeps_masterCmd (h : card.Inv B) (hd : card.uses d = some i)
    (hown : ∀ c, held (some c) = true ↔ c = B.chip d) (msg : List UInt8) (legacyErr : ℤ) :
    Keeps held ((applyMasterCmd B card d msg i hw legacyErr).2.map Event.onLock) ↔
      ¬ (((card.demods d).isMaster = true ∨ (card.rfIns i).unicableMode = true) ∧
        card.Foreign B d i) := by
  obtain ⟨c, hc, hforeign⟩ := h.own_controls hd
  rw [hforeign, applyMasterCmd]
  simp only [hc]
  split
  · rename_i hskip
    refine iff_of_true keeps_nil ?_
    rintro ⟨hm | huni, -⟩
    · exact hskip.1 hm
    · exact hskip.2 huni
  · rename_i hdrives
    have hdrives : (card.demods d).isMaster = true ∨ (card.rfIns i).unicableMode = true := by
      by_contra hnot
      exact hdrives ⟨fun hm => hnot (Or.inl hm), fun huni => hnot (Or.inr huni)⟩
    split
    · rename_i hskip
      rcases hdrives with hm | huni
      · exact absurd hm hskip.2.2.1
      · exact absurd huni hskip.2.2.2
    · simp only [hdrives, true_and, not_not, ne_eq]
      by_cases hcown : c = B.chip d
      · have hheld := (hown c).mpr hcown
        refine iff_of_true ?_ hcown
        rw [← hcown, List.map_cons]
        exact (keeps_touch hheld).mpr (keeps_diseqcSend hheld msg hw.waits)
      · refine iff_of_false ?_ hcown
        rw [List.map_cons]
        refine not_keeps_touch (Bool.eq_false_iff.mpr ?_)
        rw [ne_eq, hown]
        exact hcown

theorem sendLongMasterCmd_disciplined (h : card.Inv B) (msg : List UInt8) (mode : ReservationMode) :
    Disciplined (sendLongMasterCmd B card d msg mode hw).events ↔
      ¬ Unlocked B card d hw.err (.sendLongMasterCmd msg mode) := by
  rw [Disciplined, sendLongMasterCmd, Unlocked]
  split
  · rename_i hquattro
    refine iff_of_true ((keeps_onChip rfl).mpr keeps_nil) ?_
    rintro ⟨hnot, -⟩
    exact hnot hquattro
  · rename_i hquattro
    have hcard : (selectRfInLegacy B card d mode hw.err).1 =
        ((Call.sendLongMasterCmd msg mode).answer B card d hw.err).1 := by
      have hask : (Call.sendLongMasterCmd msg mode).ask B card d = legacyAsk B card d mode :=
        if_neg hquattro
      rw [selectRfInLegacy_eq, drivesSec_answer rfl, hask]
    have hinv := @Card.Inv.answer_inv _ _ _ _ _ d hw.err h (.sendLongMasterCmd msg mode)
    have hworks := fun i master =>
      @Card.Inv.worksOn _ _ _ _ _ d i hw.err (.sendLongMasterCmd msg mode) h rfl master
    have hrfIn := fun i =>
      @Card.Inv.worksOn_rfIn _ _ _ _ _ d i hw.err (.sendLongMasterCmd msg mode) h rfl
    have hlegacy : Keeps (update (fun _ => false) (some (B.chip d)) true)
        ((if (card.activeRfIn B d).isSome then []
          else onCard (selectRfInLegacyEvents B card d mode true)).map Event.onLock) := by
      split
      · exact keeps_nil
      · rw [keeps_onCard (by rw [update_of_ne (by rintro ⟨⟩)])]
        exact h.keeps_legacy own_held mode
    simp only [hcard, ← hworks]
    generalize ((Call.sendLongMasterCmd msg mode).answer B card d hw.err).1 = card' at hinv hrfIn ⊢
    rw [hinv.activeRfIn_eq]
    rcases hd : card'.uses d with _ | i
    · refine iff_of_true ((keeps_onChip rfl).mpr hlegacy) ?_
      rintro ⟨-, i, master, ⟨⟨⟩, -⟩, -⟩
    · obtain ⟨hforeign, huni⟩ := hrfIn i hd
      have hiff : (∃ k master, (some i = some k ∧ (card'.demods d).isMaster = master) ∧
            (master = true ∨ (card.rfIns k).unicableMode = true) ∧ card.Foreign B d k) ↔
          ((card'.demods d).isMaster = true ∨ (card'.rfIns i).unicableMode = true) ∧
            card'.Foreign B d i := by
        rw [hforeign]
        rcases hm : (card'.demods d).isMaster with _ | _
        · rw [huni hm]
          simp
        · simp
      simp only [hiff]
      rw [keeps_onChip rfl, List.map_append, hlegacy.append_iff, hinv.keeps_masterCmd hd]
      · simp [hquattro]
      · intro c
        rw [update_apply]
        simp

/-- Without the lock of the chip a caller that never asks must not be granted anything. -/
theorem Card.Inv.legacy_unlocked (h : card.Inv B) (hd : card.uses d = none)
    (mode : ReservationMode) (err : Bool) :
    (∃ ic, (legacyAsk B card d mode).2 = some ic ∧
        reserves B (legacyAsk B card d mode).1 d ic = true) ∧
      Blocked (fun _ => false)
        ((onCard (selectRfInLegacyEvents B card d mode false)).map Event.onLock) ∨
    (¬ ∃ ic, (legacyAsk B card d mode).2 = some ic ∧
        reserves B (legacyAsk B card d mode).1 d ic = true) ∧
      selectRfInLegacyEvents B card d mode false = [] ∧
      (selectRfInLegacy B card d mode err).1.uses d = none := by
  have hact : ¬ (card.activeRfIn B d).isSome = true := by
    rw [h.activeRfIn_eq, hd]
    exact Bool.false_ne_true
  have hsame := @legacyAsk_sameUse _ _ _ B card d mode
  rw [selectRfInLegacyEvents, selectRfInLegacy_eq]
  simp only [legacyAsk, if_neg hact] at hsame ⊢
  generalize card.setDemod d { card.demods d with legacyRfIn := true } = noted at hsame ⊢
  have hinv : noted.Inv B := h.sameUse hsame
  have hfree : noted.uses d = none := by rw [hsame.uses, hd]
  rcases hno : legacyRfInNo B noted d with _ | rfIn
  · right
    exact ⟨by rintro ⟨ic, ⟨⟩, -⟩, rfl, hfree⟩
  · simp only [Option.map_some, Option.some.injEq, exists_eq_left']
    rw [hinv.selectRfInEvents_fresh hfree]
    rcases hres : reserves B noted d (legacyControl rfIn mode) with _ | _
    · right
      refine ⟨Bool.false_ne_true, List.eq_nil_iff_forall_not_mem.mpr fun ev hev => ?_, ?_⟩
      · rw [(hinv.mem_selectRfIn.mp hev).1] at hres
        cases hres
      · have hreq := @selectRfIn_answered _ _ _ B noted d (legacyControl rfIn mode) err
        rw [answerTo]
        generalize selectRfIn B noted d err (some (legacyControl rfIn mode)) = out at hreq ⊢
        cases hreq with
        | refused r _ _ => exact hfree
        | broken k m hk hdec hnew _ =>
          rw [reserves_iff.mpr ⟨hnew, k, m, hk, hdec⟩] at hres
          cases hres
        | granted k m hk hdec hnew _ =>
          rw [reserves_iff.mpr ⟨hnew, k, m, hk, hdec⟩] at hres
          cases hres
    · left
      refine ⟨rfl, ?_⟩
      rw [map_onCard]
      refine blocked_under rfl (@blocked_touches _ _ _ _ (some (B.chip d)) ?_ ?_ ?_)
      · intro ev hev
        obtain ⟨ev', hev', rfl⟩ := List.mem_map.mp hev
        rcases hinv.mem_selectRfIn.mp hev' with ⟨-, rfl | ⟨c, -, rfl⟩⟩
        · exact ⟨_, rfl⟩
        · exact ⟨some c, rfl⟩
      · exact List.mem_map.mpr ⟨_, hinv.mem_selectRfIn.mpr ⟨hres, Or.inl rfl⟩, rfl⟩
      · exact update_of_ne (by rintro ⟨⟩) ..

theorem recvSlaveReply_disciplined (h : card.Inv B) (mode : ReservationMode) :
    Disciplined (recvSlaveReply B card d mode hw).events ↔
      ¬ Unlocked B card d hw.err (.recvSlaveReply mode) := by
  have hask : (Call.recvSlaveReply mode).ask B card d =
      if B.multiswitchMode (B.chip d) = .quattro then (card, none) else legacyAsk B card d mode := rfl
  rw [Disciplined, recvSlaveReply, Unlocked]
  simp only [Call.Gets, hask]
  split
  · exact iff_of_true keeps_nil (by rintro ⟨-, ic, ⟨⟨⟩, -⟩⟩)
  · have hnil : Keeps (fun _ => false) ((onCard []).map Event.onLock) := by
      rw [keeps_onCard rfl]
      exact keeps_nil
    have hreply : ∀ rest : List Event, (∀ ev ∈ rest, ev = .access (B.chip d)) →
        Keeps (fun _ => false) ((onChip (B.chip d) (onCard [] ++ rest)).map Event.onLock) := by
      intro rest hall
      rw [keeps_onChip rfl, List.map_append]
      refine Keeps.append ?_ ?_
      · rw [keeps_onCard (by rw [update_of_ne (by rintro ⟨⟩)])]
        exact keeps_nil
      · rw [keeps_accesses fun ev hev => ⟨_, hall ev hev⟩]
        intro c hc
        rw [Event.access.inj (hall _ hc)]
        exact update_self ..
    have hact := h.activeRfIn_eq d
    rcases hd : card.uses d with _ | j
    · -- without an RF input there is a request, which the lock of the chip does not cover
      rw [hd] at hact
      simp only [hact, Option.isSome_none, Bool.false_eq_true, if_false, true_and]
      rcases h.legacy_unlocked hd mode hw.err with ⟨hgets, hblock⟩ | ⟨hnot, hempty, hfree⟩
      · refine iff_of_false ?_ (not_not_intro hgets)
        split
        · rw [← List.append_nil (List.map _ _)]
          exact hblock.not_keeps
        · split
          · rw [List.map_append]
            exact hblock.not_keeps
          · rw [List.map_append]
            exact hblock.not_keeps
      · have hinv := @Card.Inv.answerTo_inv _ _ _ B d hw.err _ (h.sameUse
          (@legacyAsk_sameUse _ _ _ B card d mode))
        rw [← selectRfInLegacy_eq] at hinv
        rw [← hinv.activeRfIn_eq] at hfree
        simp only [hfree, hempty]
        exact iff_of_true hnil hnot
    · rw [hd] at hact
      have hsel : selectRfInLegacy B card d mode hw.err = (card, none) := by
        rw [selectRfInLegacy, hact]
        rfl
      refine iff_of_true ?_ (by rintro ⟨⟨⟩, -⟩)
      simp only [hsel, hact, Option.isSome_some, if_true, List.nil_append]
      split
      · have hdone := hreply [] (by rintro ev ⟨⟩)
        rwa [List.append_nil] at hdone
      · exact hreply _ fun ev hev => List.mem_singleton.mp hev

/-- A call keeps the discipline if and only if it does not have to work on a chip whose lock it does
    not hold. -/
theorem lock_discipline (h : Reachable B card) :
    Disciplined (step B card d hw call).events ↔ ¬ Unlocked B card d hw.err call := by
  have hinv := h.inv
  cases call with
  | setRfInput ic => exact setRfInput_disciplined hinv
  | tune mode => exact iff_of_true (tune_disciplined hinv mode) not_false
  | setVoltage voltage mode => exact iff_of_true (setVoltage_disciplined hinv voltage mode) not_false
  | setTone tone mode => exact setTone_disciplined hinv tone mode
  | sendLongMasterCmd msg mode => exact sendLongMasterCmd_disciplined hinv msg mode
  | recvSlaveReply mode => exact recvSlaveReply_disciplined hinv mode
  | sendBurst mode => exact iff_of_true (sendBurst_disciplined hinv mode) not_false
  | setSecReady => exact iff_of_true setSecReady_disciplined not_false
  | sleep => exact sleep_disciplined hinv

theorem lock_discipline_twin :
    let card := (step twinBoard (Card.init Bool) false goodHw askFirst).card
    Disciplined (step twinBoard card false goodHw .sleep).events := by
  intro card
  have hreach : Reachable twinBoard card := .call false goodHw askFirst .init
  refine (@lock_discipline _ _ _ _ _ false goodHw .sleep hreach).mpr ?_
  rintro ⟨c, hc, j, hj, -, -, hchip⟩
  cases hj
  exact hc (Option.some.inj hchip).symm

/-- The master leaves before its slave on the other chip, which then switches the tone off. -/
theorem undisciplined_sleep : ¬ ∀ (card : Card Bool) (d : Bool) (hw : Hw) (call : Call),
    Reachable twinBoard card → Disciplined (step twinBoard card d hw call).events := by
  intro h
  have hreach : Reachable twinBoard _ :=
    .call false goodHw .sleep
      (.call true goodHw (.setRfInput ⟨7, 1, false, 0, .slave⟩)
        (.call false goodHw .setSecReady (.call false goodHw askFirst .init)))
  refine (@sleep_disciplined _ _ _ _ _ true false goodHw hreach.inv).mp (h _ true goodHw .sleep hreach)
    ⟨0, by decide, 0, by decide, by rintro ⟨⟩, by decide, by decide⟩

end Stid135

import NeumoDrivers.Lib.Holders
import NeumoDrivers.Stid135.Card

/-! The use counts of a card.

    `Card.Inv` says that the counts are the numbers of users and that a resource without users is
    switched off. A request that is granted changes a card in one way only (`grant_rfIns`,
    `grant_tuners`, `grant_demods`), a release in another, and every other call leaves the
    reservations alone; so the invariant holds in every reachable state. -/

namespace Stid135
open Holders

variable {D : Type} [DecidableEq D] [Fintype D] {B : Board D} {card card' : Card D} {d e : D}
variable {ic : RfInputControl} {i k : RfInNo} {c : ChipNo} {m : Bool} {r : RfIn} {t : Tuner}

omit [DecidableEq D] [Fintype D] in
/-- The number of the tuner, and so of the RF input, that each demodulator uses. -/
def Card.uses (card : Card D) : D → Option RfInNo := fun d => (card.demods d).activeTuner

omit [DecidableEq D] in
/-- The tuner that each demodulator uses. -/
def Card.place (card : Card D) (B : Board D) : D → Option (ChipNo × RfInNo) :=
  fun d => (card.uses d).map fun i => (B.chip d, i)

/-- As attached, but for `unicableMode`, which is left as it was. -/
structure RfIn.Idle (r : RfIn) : Prop where
  chip : r.controllingChip = none
  voltage : r.voltage = .off
  tone : r.tone = .off
  sec : r.secConfigured = false
  reservation : r.reservation = initReservation

structure RfIn.Ok (r : RfIn) : Prop where
  idle : r.reservation.useCount = 0 → r.Idle
  chip : 0 < r.reservation.useCount → r.controllingChip.isSome = true

/-- The tuner for RF input `i` in the state `r`. -/
structure Tuner.Ok (t : Tuner) (i : RfInNo) (r : RfIn) : Prop where
  idle : t.reservation.useCount = 0 → t = initTuner
  bound : 0 < t.reservation.useCount → t.poweredOn = true ∧ t.activeRfIn = some i
  owner : 0 < t.reservation.useCount → t.reservation.owner = r.reservation.owner

/-- Every use count is the number of users. -/
structure Card.Counted (card : Card D) (B : Board D) : Prop where
  rfInUse : ∀ i, (card.rfIns i).reservation.useCount = count card.uses i
  tunerUse : ∀ c i, (card.tuners c i).reservation.useCount = count (card.place B) (c, i)

structure Card.Inv (card : Card D) (B : Board D) : Prop extends card.Counted B where
  rfIns : ∀ i, (card.rfIns i).Ok
  tuners : ∀ c i, (card.tuners c i).Ok i (card.rfIns i)

/-! ### What the invariant says of one demodulator -/

omit [DecidableEq D] in
theorem Card.place_eq_some : card.place B d = some (c, i) ↔ B.chip d = c ∧ card.uses d = some i := by
  rw [Card.place, Option.map_eq_some_iff]
  constructor
  · rintro ⟨j, hj, heq⟩
    cases heq
    exact ⟨rfl, hj⟩
  · rintro ⟨rfl, hi⟩
    exact ⟨i, hi, rfl⟩

omit [DecidableEq D] in
theorem Card.place_of_uses (h : card.uses d = some i) : card.place B d = some (B.chip d, i) :=
  Card.place_eq_some.mpr ⟨rfl, h⟩

omit [DecidableEq D] in
theorem Card.Counted.tuner_pos (h : card.Counted B) (hd : card.uses d = some i) :
    0 < (card.tuners (B.chip d) i).reservation.useCount := by
  rw [h.tunerUse]
  exact count_pos (Card.place_of_uses hd)

omit [DecidableEq D] in
theorem Card.Counted.rfIn_pos (h : card.Counted B) (hd : card.uses d = some i) :
    0 < (card.rfIns i).reservation.useCount := by
  rw [h.rfInUse]
  exact count_pos hd

omit [DecidableEq D] in
theorem Card.Inv.activeRfIn_eq (h : card.Inv B) (d : D) : card.activeRfIn B d = card.uses d := by
  rw [Card.activeRfIn, Card.tunerOf]
  cases hd : (card.demods d).activeTuner with
  | none => exact hd.symm
  | some i => exact ((h.tuners _ i).bound (h.tuner_pos hd)).2.trans hd.symm

omit [DecidableEq D] in
/-- A tuner has no more users than its RF input. -/
theorem Card.Counted.tuner_le (h : card.Counted B) (c : ChipNo) (i : RfInNo) :
    (card.tuners c i).reservation.useCount ≤ (card.rfIns i).reservation.useCount := by
  rw [h.tunerUse, h.rfInUse]
  refine Finset.card_le_card fun d hd => ?_
  simp only [Finset.mem_filter, Finset.mem_univ, true_and] at hd ⊢
  exact (Card.place_eq_some.mp hd).2

omit [DecidableEq D] in
theorem Card.Counted.rfIn_lt (h : card.Counted B) (i : RfInNo) :
    (card.rfIns i).reservation.useCount < 2 ^ 32 := by
  rw [h.rfInUse]
  exact Nat.lt_of_le_of_lt (count_le_card _ _) B.few

/-! ### Values -/

/-- A tuner in standby if it has no users. -/
def Tuner.shutIfFree (t : Tuner) : Tuner := if t.reservation.useCount = 0 then t.shut else t

theorem incr_eq {n : ℕ} (h : n + 1 < 2 ^ 32) : incr n = n + 1 := by
  rw [incr, if_neg (by omega)]

theorem decr_eq {n : ℕ} (hpos : 0 < n) : decr n = n - 1 := by
  rw [decr, if_neg (by omega)]

theorem Reservation.leave_stays {r : Reservation} (h : 0 < r.useCount) : r.leave true = r := by
  simp only [Reservation.leave, if_true]
  rw [if_neg (by omega)]

theorem Reservation.useCount_leave {r : Reservation} (hpos : 0 < r.useCount) :
    (r.leave false).useCount = r.useCount - 1 := by
  simp only [Reservation.leave, Bool.false_eq_true, if_false, decr_eq hpos]
  split <;> rfl

theorem Reservation.leave_last {r : Reservation} (h : (r.leave false).useCount = 0) :
    r.leave false = initReservation := by
  simp only [Reservation.leave, Bool.false_eq_true, if_false] at h ⊢
  split at h
  · rename_i h0
    rw [if_pos h0, h0]
    rfl
  · rename_i h0
    exact absurd h h0

theorem Reservation.leave_owner {r : Reservation} (h : (r.leave false).useCount ≠ 0) :
    (r.leave false).owner = r.owner ∧ (r.leave false).configId = r.configId := by
  simp only [Reservation.leave, Bool.false_eq_true, if_false] at h ⊢
  split at h
  · rename_i h0
    exact absurd h0 h
  · rename_i h0
    rw [if_neg h0]
    exact ⟨rfl, rfl⟩

theorem Reservation.useCount_join (r : Reservation) (ic : RfInputControl) (stays m : Bool)
    (free : ℤ → Bool) :
    (r.join ic stays m free).useCount = if stays then r.useCount else incr r.useCount := by
  simp only [Reservation.join]
  split_ifs <;> rfl

/-- After a grant the resource is owned by the one who asked. -/
theorem Reservation.owner_join {r : Reservation} (stays m : Bool) {free : ℤ → Bool}
    (hused : 0 < r.useCount → r.owner = ic.owner) (hfree : r.useCount = 0 → free r.owner = true) :
    (r.join ic stays m free).owner = ic.owner := by
  rcases Nat.eq_zero_or_pos r.useCount with h0 | hpos
  · simp only [Reservation.join]
    cases stays <;> cases m <;> simp [hfree h0]
  · simp only [Reservation.join]
    cases stays <;> cases m <;> simp only [Bool.false_eq_true, if_false, if_true] <;> split <;>
      first
      | rfl
      | exact hused hpos

theorem RfIn.Ok.leave (h : r.Ok) (hpos : 0 < r.reservation.useCount) : (r.leave false).shut.Ok := by
  have hchip : (r.leave false).controllingChip.isSome = true := h.chip hpos
  rw [RfIn.shut]
  split
  · rename_i hfree
    exact ⟨fun _ => ⟨rfl, rfl, rfl, rfl, Reservation.leave_last hfree.1⟩,
      fun hused => absurd hfree.1 (Nat.ne_of_gt hused)⟩
  · rename_i hused
    exact ⟨fun h0 => absurd ⟨h0, hchip⟩ hused, fun _ => hchip⟩

theorem Tuner.Ok.leave (h : t.Ok i r) (hpos : 0 < t.reservation.useCount)
    {r' : RfIn} (howner : (t.leave false).reservation.useCount ≠ 0 →
      r'.reservation.owner = r.reservation.owner) : (t.leave false).shutIfFree.Ok i r' := by
  rw [Tuner.shutIfFree]
  split
  · rename_i hfree
    refine ⟨fun _ => ?_, fun hused => absurd hfree (Nat.ne_of_gt hused),
      fun hused => absurd hfree (Nat.ne_of_gt hused)⟩
    rw [initTuner, ← Reservation.leave_last hfree]
    rfl
  · rename_i hused
    refine ⟨fun h0 => absurd h0 hused, fun _ => h.bound hpos, fun _ => ?_⟩
    rw [howner hused]
    exact (Reservation.leave_owner hused).1.trans (h.owner hpos)

theorem RfIn.connect_ok (c : ChipNo) (hpos : 0 < r.reservation.useCount) : (r.connect c).Ok := by
  rw [RfIn.connect]
  split
  · rename_i hchip
    exact ⟨fun h0 => absurd h0 (Nat.ne_of_gt hpos), fun _ => hchip⟩
  · exact ⟨fun h0 => absurd h0 (Nat.ne_of_gt hpos), fun _ => rfl⟩

@[simp] theorem RfIn.reservation_connect (r : RfIn) (c : ChipNo) :
    (r.connect c).reservation = r.reservation := by
  rw [RfIn.connect]
  split <;> rfl

@[simp] theorem RfIn.reservation_shut (r : RfIn) : r.shut.reservation = r.reservation := by
  rw [RfIn.shut]
  split <;> rfl

@[simp] theorem Tuner.reservation_shutIfFree (t : Tuner) :
    t.shutIfFree.reservation = t.reservation := by
  rw [Tuner.shutIfFree]
  split <;> rfl

theorem RfIn.connect_of_chip (h : r.controllingChip.isSome = true) : r.connect c = r := if_pos h

theorem RfIn.shut_of_pos (h : 0 < r.reservation.useCount) : r.shut = r :=
  if_neg fun hfree => Nat.ne_of_gt h hfree.1

theorem Tuner.shutIfFree_of_pos (h : 0 < t.reservation.useCount) : t.shutIfFree = t :=
  if_neg (Nat.ne_of_gt h)

theorem RfIn.leave_stays (h : 0 < r.reservation.useCount) : r.leave true = r := by
  rw [RfIn.leave, Reservation.leave_stays h]

theorem Tuner.leave_stays (h : 0 < t.reservation.useCount) : t.leave true = t := by
  rw [Tuner.leave, Reservation.leave_stays h]

theorem Tuner.connect_ok (hbound : t.activeRfIn = none ∨ t.activeRfIn = some i)
    (hpos : 0 < t.reservation.useCount) (howner : t.reservation.owner = r.reservation.owner) :
    (t.connect i).Ok i r := by
  refine ⟨fun h0 => absurd h0 (Nat.ne_of_gt hpos), fun _ => ⟨rfl, ?_⟩, fun _ => howner⟩
  rcases hbound with h | h
  · simp [Tuner.connect, h]
  · simp [Tuner.connect, h]

/-! ### A granted request and a release -/

/-- The card after a granted request, but for what a grant notes about masters. -/
def Card.grant (card : Card D) (B : Board D) (d : D) (ic : RfInputControl) (i : RfInNo) (m : Bool) :
    Card D :=
  openNew B
    (closeOldTuner B
      (closeOldRfIn
        (takeNew B (releaseOld B card d (some i)) d ic i (card.activeRfIn B d = some i)
          (card.uses d = some i) m)
        (card.activeRfIn B d))
      d (card.uses d))
    d i

/-- The card after a release. -/
def Card.release (card : Card D) (B : Board D) (d : D) : Card D :=
  (closeOldTuner B (closeOldRfIn (releaseOld B card d none) (card.activeRfIn B d)) d
    (card.uses d)).setDemod d ⟨false, false, none, 0, 0⟩

omit [DecidableEq D] in
theorem Card.Inv.releaseOld_rfIns (h : card.Inv B) (next : Option RfInNo) (k : RfInNo) :
    (releaseOld B card d next).rfIns k =
      if card.uses d = some k then (card.rfIns k).leave (next = some k) else card.rfIns k := by
  have hact := h.activeRfIn_eq d
  rw [releaseOld]
  cases hd : (card.demods d).activeTuner with
  | none =>
    have huse : card.uses d = none := hd
    simp [hact, huse]
  | some j =>
    have huse : card.uses d = some j := hd
    simp only [hact, huse, Card.setTuner_rfIns, Card.setRfIn_rfIns, Option.some.injEq]
    by_cases hk : k = j
    · subst hk
      simp
    · rw [if_neg hk, if_neg (Ne.symm hk)]

omit [DecidableEq D] in
theorem Card.Inv.releaseOld_tuners (h : card.Inv B) (next : Option RfInNo) (c : ChipNo)
    (k : RfInNo) :
    (releaseOld B card d next).tuners c k =
      if card.place B d = some (c, k) then (card.tuners c k).leave (next = some k)
      else card.tuners c k := by
  have hact := h.activeRfIn_eq d
  rw [releaseOld]
  cases hd : (card.demods d).activeTuner with
  | none =>
    have huse : card.uses d = none := hd
    simp [hact, huse, Card.place]
  | some j =>
    have huse : card.uses d = some j := hd
    simp only [hact, huse, Card.setTuner_tuners, Card.setRfIn_tuners, Card.place_eq_some,
      Option.some.injEq]
    by_cases hk : c = B.chip d ∧ k = j
    · obtain ⟨rfl, rfl⟩ := hk
      simp
    · rw [if_neg hk, if_neg fun hk' => hk ⟨hk'.1.symm, hk'.2.symm⟩]

omit [DecidableEq D] in
@[simp] theorem releaseOld_demods (next : Option RfInNo) :
    (releaseOld B card d next).demods = card.demods := by
  rw [releaseOld]
  split <;> split <;> rfl

omit [Fintype D] [DecidableEq D] in
theorem closeOldRfIn_rfIns (o : Option RfInNo) (k : RfInNo) :
    (closeOldRfIn card o).rfIns k = if o = some k then (card.rfIns k).shut else card.rfIns k := by
  cases o with
  | none => rfl
  | some j =>
    rw [closeOldRfIn, Card.setRfIn_rfIns]
    rcases eq_or_ne k j with rfl | hk
    · simp
    · rw [if_neg hk, if_neg fun heq => hk (Option.some.inj heq).symm]

omit [Fintype D] [DecidableEq D] in
@[simp] theorem closeOldRfIn_tuners (o : Option RfInNo) :
    (closeOldRfIn card o).tuners = card.tuners := by
  cases o <;> rfl

omit [Fintype D] [DecidableEq D] in
@[simp] theorem closeOldRfIn_demods (o : Option RfInNo) :
    (closeOldRfIn card o).demods = card.demods := by
  cases o <;> rfl

@[simp] theorem closeOldTuner_rfIns (o : Option RfInNo) :
    (closeOldTuner B card d o).rfIns = card.rfIns := by
  cases o with
  | none => rfl
  | some j =>
    simp only [closeOldTuner]
    split <;> rfl

theorem closeOldTuner_tuners (o : Option RfInNo) (c : ChipNo) (k : RfInNo) :
    (closeOldTuner B card d o).tuners c k =
      if B.chip d = c ∧ o = some k then (card.tuners c k).shutIfFree else card.tuners c k := by
  cases o with
  | none => simp [closeOldTuner]
  | some j =>
    simp only [closeOldTuner, Option.some.injEq]
    split
    · rename_i hfree
      rw [Card.setDemod_tuners, Card.setTuner_tuners]
      by_cases hk : c = B.chip d ∧ k = j
      · obtain ⟨rfl, rfl⟩ := hk
        simp [Tuner.shutIfFree, hfree]
      · rw [if_neg hk, if_neg fun hk' => hk ⟨hk'.1.symm, hk'.2.symm⟩]
    · rename_i hused
      split
      · rename_i hk
        obtain ⟨rfl, rfl⟩ := hk
        rw [Tuner.shutIfFree, if_neg hused]
      · rfl

/-- It says of the demodulator at most that it uses no tuner. -/
theorem closeOldTuner_demods (o : Option RfInNo) :
    (closeOldTuner B card d o).demods = card.demods ∨
      (closeOldTuner B card d o).demods =
        Function.update card.demods d { card.demods d with activeTuner := none } := by
  cases o with
  | none => exact Or.inl rfl
  | some j =>
    simp only [closeOldTuner]
    split
    · exact Or.inr rfl
    · exact Or.inl rfl

theorem Card.Inv.grant_rfIns (h : card.Inv B) (m : Bool) (k : RfInNo) :
    (card.grant B d ic i m).rfIns k =
      if k = i then ((card.rfIns i).join ic (card.uses d = some i) m).connect (B.chip d)
      else if card.uses d = some k then ((card.rfIns k).leave false).shut else card.rfIns k := by
  have hact := h.activeRfIn_eq d
  simp only [Card.grant, openNew, takeNew, Card.setDemod_rfIns, Card.setRfIn_rfIns,
    Card.setTuner_rfIns, closeOldTuner_rfIns, closeOldRfIn_rfIns, hact, h.releaseOld_rfIns, if_true]
  by_cases hk : k = i
  · subst hk
    simp only [if_true]
    by_cases hd : card.uses d = some k
    · -- it goes on to use the RF input
      have hpos := h.rfIn_pos hd
      simp only [hd, if_true, decide_true, RfIn.leave_stays hpos]
      rw [RfIn.shut_of_pos]
      rw [RfIn.join, Reservation.useCount_join]
      exact hpos
    · simp only [if_neg hd]
  · simp only [if_neg hk]
    split
    · rw [show decide (some i = some k) = false from
        decide_eq_false fun heq => hk (Option.some.inj heq).symm]
    · rfl

theorem Card.Inv.grant_tuners (h : card.Inv B) (m : Bool) (c : ChipNo) (k : RfInNo) :
    (card.grant B d ic i m).tuners c k =
      if c = B.chip d ∧ k = i then ((card.tuners c i).join ic (card.uses d = some i) m).connect i
      else if card.place B d = some (c, k) then ((card.tuners c k).leave false).shutIfFree
      else card.tuners c k := by
  have hact := h.activeRfIn_eq d
  simp only [Card.grant, openNew, takeNew, Card.setDemod_tuners, Card.setRfIn_tuners,
    Card.setTuner_tuners, closeOldTuner_tuners, closeOldRfIn_tuners, hact, h.releaseOld_tuners,
    Card.place_eq_some, true_and, and_true, if_true]
  by_cases hk : c = B.chip d ∧ k = i
  · obtain ⟨rfl, rfl⟩ := hk
    simp only [and_self, if_true, true_and]
    by_cases hd : card.uses d = some k
    · have hpos := h.tuner_pos hd
      simp only [hd, if_true, decide_true, Tuner.leave_stays hpos]
      rw [Tuner.shutIfFree_of_pos]
      rw [Tuner.join, Reservation.useCount_join]
      exact hpos
    · simp only [if_neg hd]
  · simp only [if_neg hk]
    split
    · rename_i hplace
      rw [show decide (some i = some k) = false from
        decide_eq_false fun heq => hk ⟨hplace.1.symm, (Option.some.inj heq).symm⟩]
    · rfl

theorem grant_demods (e : D) :
    (card.grant B d ic i m).demods e =
      if e = d then { card.demods d with activeTuner := some i } else card.demods e := by
  have hclose := @closeOldTuner_demods _ _ _ B
    (closeOldRfIn
      (takeNew B (releaseOld B card d (some i)) d ic i (card.activeRfIn B d = some i)
        (card.uses d = some i) m) (card.activeRfIn B d)) d (card.uses d)
  simp only [closeOldRfIn_demods, takeNew, Card.setTuner_demods, Card.setRfIn_demods,
    releaseOld_demods] at hclose
  simp only [Card.grant, openNew, takeNew, Card.setDemod_demods, Card.setRfIn_demods,
    Card.setTuner_demods]
  rcases hclose with hclose | hclose
  · rw [hclose]
  · rw [hclose, Function.update_self]
    split
    · rfl
    · rename_i he
      rw [Function.update_of_ne he]

theorem grant_uses : (card.grant B d ic i m).uses = Function.update card.uses d (some i) := by
  funext e
  rw [Card.uses, grant_demods, Function.update_apply]
  split <;> rfl

theorem grant_place :
    (card.grant B d ic i m).place B = Function.update (card.place B) d (some (B.chip d, i)) := by
  funext e
  rw [Card.place, grant_uses]
  rcases eq_or_ne e d with rfl | he
  · simp
  · simp [he, Card.place]

theorem Card.Inv.release_rfIns (h : card.Inv B) (k : RfInNo) :
    (card.release B d).rfIns k =
      if card.uses d = some k then ((card.rfIns k).leave false).shut else card.rfIns k := by
  simp only [Card.release, Card.setDemod_rfIns, closeOldTuner_rfIns, closeOldRfIn_rfIns,
    h.activeRfIn_eq d, h.releaseOld_rfIns]
  split
  · rfl
  · rfl

theorem Card.Inv.release_tuners (h : card.Inv B) (c : ChipNo) (k : RfInNo) :
    (card.release B d).tuners c k =
      if card.place B d = some (c, k) then ((card.tuners c k).leave false).shutIfFree
      else card.tuners c k := by
  simp only [Card.release, Card.setDemod_tuners, closeOldTuner_tuners, closeOldRfIn_tuners,
    h.releaseOld_tuners, Card.place_eq_some]
  split
  · rfl
  · rfl

theorem release_demods (e : D) :
    (card.release B d).demods e =
      if e = d then ⟨false, false, none, 0, 0⟩ else card.demods e := by
  have hclose := @closeOldTuner_demods _ _ _ B
    (closeOldRfIn (releaseOld B card d none) (card.activeRfIn B d)) d (card.uses d)
  simp only [closeOldRfIn_demods, releaseOld_demods] at hclose
  rw [Card.release, Card.setDemod_demods]
  split
  · rfl
  · rename_i he
    rcases hclose with hclose | hclose
    · rw [hclose]
    · rw [hclose, Function.update_of_ne he]

theorem release_uses : (card.release B d).uses = Function.update card.uses d none := by
  funext e
  rw [Card.uses, release_demods, Function.update_apply]
  split <;> rfl

theorem release_place : (card.release B d).place B = Function.update (card.place B) d none := by
  funext e
  rw [Card.place, release_uses]
  rcases eq_or_ne e d with rfl | he
  · simp
  · simp [he, Card.place]

/-! ### The invariant is kept -/

/-- One user fewer, where the demodulator was one. -/
theorem Card.Counted.leave_count (h : card.Counted B) {x : Option RfInNo} (hd : card.uses d = some k)
    (hx : x ≠ some k) :
    ((card.rfIns k).leave false).reservation.useCount = count (Function.update card.uses d x) k := by
  rw [RfIn.leave, Reservation.useCount_leave (h.rfIn_pos hd), h.rfInUse, ← count_update_lose hd hx]
  rfl

theorem Card.Counted.leave_count_tuner (h : card.Counted B) {x : Option (ChipNo × RfInNo)}
    (hd : card.place B d = some (c, k)) (hx : x ≠ some (c, k)) :
    ((card.tuners c k).leave false).reservation.useCount =
      count (Function.update (card.place B) d x) (c, k) := by
  have hpos : 0 < (card.tuners c k).reservation.useCount := by
    rw [h.tunerUse]
    exact count_pos hd
  rw [Tuner.leave, Reservation.useCount_leave hpos, h.tunerUse, ← count_update_lose hd hx]
  rfl

theorem Card.Inv.release_counted (h : card.Inv B) (d : D) : (card.release B d).Counted B := by
  constructor
  · intro k
    rw [h.release_rfIns, release_uses]
    split
    · rename_i hd
      rw [RfIn.reservation_shut]
      exact h.leave_count hd (by rintro ⟨⟩)
    · rename_i hd
      rw [count_update_of_ne hd (by rintro ⟨⟩)]
      exact h.rfInUse k
  · intro c k
    rw [h.release_tuners, release_place]
    split
    · rename_i hd
      rw [Tuner.reservation_shutIfFree]
      exact h.leave_count_tuner hd (by rintro ⟨⟩)
    · rename_i hd
      rw [count_update_of_ne hd (by rintro ⟨⟩)]
      exact h.tunerUse c k

theorem RfIn.owner_leave (h : ((r.leave false).shut).reservation.useCount ≠ 0) :
    ((r.leave false).shut).reservation.owner = r.reservation.owner := by
  rw [RfIn.reservation_shut] at h ⊢
  exact (Reservation.leave_owner h).1

theorem Card.Inv.release_inv (h : card.Inv B) (d : D) : (card.release B d).Inv B := by
  have hcounted := h.release_counted d
  refine ⟨hcounted, fun k => ?_, fun c k => ?_⟩
  · rw [h.release_rfIns]
    split
    · rename_i hd
      exact (h.rfIns k).leave (h.rfIn_pos hd)
    · exact h.rfIns k
  · -- the RF input has users as long as the tuner has, and so the same owner as before
    have howner : ((card.release B d).tuners c k).reservation.useCount ≠ 0 →
        ((card.release B d).rfIns k).reservation.owner = (card.rfIns k).reservation.owner := by
      intro hused
      have hle := hcounted.tuner_le c k
      rw [h.release_rfIns] at hle ⊢
      split
      · rename_i hd
        rw [if_pos hd] at hle
        exact RfIn.owner_leave (by omega)
      · rfl
    have hold : (card.release B d).tuners c k = _ := h.release_tuners c k
    split at hold
    · rename_i hd
      obtain ⟨rfl, huse⟩ := Card.place_eq_some.mp hd
      rw [hold] at howner ⊢
      rw [Tuner.reservation_shutIfFree] at howner
      exact (h.tuners _ k).leave (h.tuner_pos huse) howner
    · rw [hold] at howner ⊢
      exact ⟨(h.tuners c k).idle, (h.tuners c k).bound, fun hused => by
        rw [howner (Nat.ne_of_gt hused)]
        exact (h.tuners c k).owner hused⟩

/-- Who may share: what is in use and asked for, or was used before, has the owner who asks. -/
structure Card.Shared (card : Card D) (B : Board D) (d : D) (ic : RfInputControl) (i : RfInNo) :
    Prop where
  oldRfIn : ∀ j, card.uses d = some j → (card.rfIns j).reservation.owner = ic.owner
  newRfIn : 0 < (card.rfIns i).reservation.useCount → (card.rfIns i).reservation.owner = ic.owner
  newTuner : 0 < (card.tuners (B.chip d) i).reservation.useCount →
    (card.tuners (B.chip d) i).reservation.owner = ic.owner

theorem Card.Inv.grant_counted (h : card.Inv B) : (card.grant B d ic i m).Counted B := by
  constructor
  · intro k
    rw [h.grant_rfIns, grant_uses]
    rcases eq_or_ne k i with rfl | hk
    · rw [if_pos rfl, RfIn.reservation_connect, RfIn.join, Reservation.useCount_join]
      by_cases hd : card.uses d = some k
      · rw [decide_eq_true hd, if_pos rfl, h.rfInUse, ← hd, Function.update_eq_self]
      · have hlt := h.rfIn_lt k
        have hgain := count_update_gain hd
        rw [decide_eq_false hd, if_neg (by simp), hgain, h.rfInUse, incr_eq]
        have hle := count_le_card (Function.update card.uses d (some k)) k
        have hfew := B.few
        omega
    · rw [if_neg hk]
      have hne : some i ≠ some k := fun heq => hk (Option.some.inj heq).symm
      split
      · rename_i hd
        rw [RfIn.reservation_shut]
        exact h.leave_count hd hne
      · rename_i hd
        rw [count_update_of_ne hd hne]
        exact h.rfInUse k
  · intro c k
    rw [h.grant_tuners, grant_place]
    by_cases hk : c = B.chip d ∧ k = i
    · obtain ⟨rfl, rfl⟩ := hk
      rw [if_pos ⟨rfl, rfl⟩]
      simp only [Tuner.connect, Tuner.join, Reservation.useCount_join]
      by_cases hd : card.uses d = some k
      · rw [decide_eq_true hd, if_pos rfl, h.tunerUse, ← Card.place_of_uses hd,
          Function.update_eq_self]
      · have hout : card.place B d ≠ some (B.chip d, k) := fun hp => hd (Card.place_eq_some.mp hp).2
        have hgain := count_update_gain hout
        rw [decide_eq_false hd, if_neg (by simp), hgain, h.tunerUse, incr_eq]
        have hle := count_le_card
          (Function.update (card.place B) d (some (B.chip d, k))) (B.chip d, k)
        have hfew := B.few
        omega
    · rw [if_neg hk]
      have hne : some (B.chip d, i) ≠ some (c, k) := by
        rintro ⟨⟩
        exact hk ⟨rfl, rfl⟩
      split
      · rename_i hd
        rw [Tuner.reservation_shutIfFree]
        exact h.leave_count_tuner hd hne
      · rename_i hd
        rw [count_update_of_ne hd hne]
        exact h.tunerUse c k

theorem grant_uses_self : (card.grant B d ic i m).uses d = some i := by
  rw [grant_uses, Function.update_self]

theorem Card.Inv.grant_owner (h : card.Inv B) (hs : card.Shared B d ic i) :
    ((card.grant B d ic i m).rfIns i).reservation.owner = ic.owner := by
  rw [h.grant_rfIns, if_pos rfl, RfIn.reservation_connect, RfIn.join]
  refine Reservation.owner_join _ _ hs.newRfIn fun h0 => ?_
  rw [((h.rfIns i).idle h0).reservation]
  rfl

/-- All other RF inputs in use keep their owners. -/
theorem Card.Inv.grant_owner_ne (h : card.Inv B) (hk : k ≠ i)
    (hused : ((card.grant B d ic i m).rfIns k).reservation.useCount ≠ 0) :
    ((card.grant B d ic i m).rfIns k).reservation.owner = (card.rfIns k).reservation.owner := by
  rw [h.grant_rfIns, if_neg hk] at hused ⊢
  split
  · rename_i hd
    rw [if_pos hd] at hused
    exact RfIn.owner_leave hused
  · rfl

theorem Card.Inv.grant_inv (h : card.Inv B) (hs : card.Shared B d ic i) :
    (card.grant B d ic i m).Inv B := by
  have hcounted : (card.grant B d ic i m).Counted B := h.grant_counted
  refine ⟨hcounted, fun k => ?_, fun c k => ?_⟩
  · rcases eq_or_ne k i with rfl | hk
    · have hpos := hcounted.rfIn_pos grant_uses_self
      rw [h.grant_rfIns, if_pos rfl] at hpos ⊢
      rw [RfIn.reservation_connect] at hpos
      exact RfIn.connect_ok _ hpos
    · rw [h.grant_rfIns, if_neg hk]
      split
      · rename_i hd
        exact (h.rfIns k).leave (h.rfIn_pos hd)
      · exact h.rfIns k
  · by_cases hk : c = B.chip d ∧ k = i
    · -- the tuner asked for
      obtain ⟨rfl, rfl⟩ := hk
      have hpos := hcounted.tuner_pos grant_uses_self
      have howner := h.grant_owner (m := m) hs
      rw [h.grant_tuners, if_pos ⟨rfl, rfl⟩] at hpos ⊢
      refine Tuner.connect_ok ?_ hpos ?_
      · rcases Nat.eq_zero_or_pos (card.tuners (B.chip d) k).reservation.useCount with h0 | hused
        · left
          rw [(h.tuners _ k).idle h0]
          rfl
        · exact Or.inr ((h.tuners _ k).bound hused).2
      · rw [howner]
        refine Reservation.owner_join _ _ hs.newTuner fun h0 => ?_
        rw [(h.tuners _ k).idle h0]
        rfl
    · have howner : ((card.grant B d ic i m).tuners c k).reservation.useCount ≠ 0 →
          0 < (card.tuners c k).reservation.useCount →
          ((card.grant B d ic i m).rfIns k).reservation.owner =
            (card.rfIns k).reservation.owner := by
        intro hused hold
        have hle := hcounted.tuner_le c k
        rcases eq_or_ne k i with rfl | hki
        · rw [h.grant_owner hs, hs.newRfIn (Nat.lt_of_lt_of_le hold (h.tuner_le c k))]
        · exact h.grant_owner_ne hki (by omega)
      have hold : (card.grant B d ic i m).tuners c k = _ := h.grant_tuners m c k
      rw [if_neg hk] at hold
      split at hold
      · rename_i hd
        obtain ⟨rfl, huse⟩ := Card.place_eq_some.mp hd
        rw [hold] at howner ⊢
        rw [Tuner.reservation_shutIfFree] at howner
        have hpos := h.tuner_pos huse
        exact (h.tuners _ k).leave hpos fun hused => howner hused hpos
      · rw [hold] at howner ⊢
        exact ⟨(h.tuners c k).idle, (h.tuners c k).bound, fun hused => by
          rw [howner (Nat.ne_of_gt hused) hused]
          exact (h.tuners c k).owner hused⟩

end Stid135

import NeumoDrivers.Demux.Bbframes

/-! How far a call of `bbf_output_ts_bytes` gets.

    `Passes` says what one pass of its loop can do, whatever the header claims. From it: the loop
    ends within the passes allowed, a call never goes beyond its piece, and it reads at least one
    byte of it unless the sub-stream `Stalls`. A sub-stream that stalls is left as it is, so the same
    call made again comes to the same. -/

namespace Demux
open Loop

variable {β : Type} [Cell β] {packet : Packet β} {s t u : BbfPos β} {a b : BbframesStream β}

omit [Cell β] in
/-- Same mode and same length of a user packet. -/
def SameFormat (a b : BbframesStream β) : Prop := b.hemMode = a.hemMode ∧ b.upl = a.upl

/-- In high-efficiency mode a user packet has its 188 bytes. -/
def HemLength (a : BbframesStream β) : Prop := a.hemMode = true → a.upl = 188

omit [Cell β] in
theorem SameFormat.refl (a : BbframesStream β) : SameFormat a a := ⟨rfl, rfl⟩

omit [Cell β] in
theorem SameFormat.trans {c : BbframesStream β} (h : SameFormat a b) (h' : SameFormat b c) :
    SameFormat a c :=
  ⟨h'.1.trans h.1, h'.2.trans h.2⟩

omit [Cell β] in
theorem SameFormat.hemLength (h : SameFormat a b) (ha : HemLength a) : HemLength b := by
  intro hb
  rw [h.2]
  exact ha (h.1 ▸ hb)

/-! ### One pass -/

/-- `u` is `s` with a user packet begun, if none was. -/
structure Opened (s u : BbfPos β) : Prop where
  format : SameFormat s.bbf u.bbf
  total : u.p + u.num = s.p + s.num
  begun : s.bbf.ts.buffIdx ≠ 0 → u = s
  hem : s.bbf.ts.buffIdx = 0 → s.bbf.hemMode = true →
    u.bbf.ts.buffIdx = 1 ∧ u.num = s.num ∧ u.bbf.bbfPayloadBytesLeft = s.bbf.bbfPayloadBytesLeft
  normal : s.bbf.ts.buffIdx = 0 → s.bbf.hemMode = false →
    u.bbf.ts.buffIdx = 1 ∧ u.num = s.num - 1 ∧
      u.bbf.bbfPayloadBytesLeft = s.bbf.bbfPayloadBytesLeft - 1

theorem openUserPacket_opened (h : openUserPacket packet s = .ok u) : Opened s u := by
  simp only [openUserPacket] at h
  split_ifs at h with hidx hhem hcrc
  · cases h
    exact ⟨⟨rfl, rfl⟩, rfl, fun hne => absurd hidx hne, fun _ _ => ⟨rfl, rfl, rfl⟩,
      fun _ hno => by rw [hhem] at hno; cases hno⟩
  · cases h
    refine ⟨⟨rfl, rfl⟩, ?_, fun hne => absurd hidx hne, fun _ hyes => absurd hyes hhem,
      fun _ _ => ⟨rfl, rfl, rfl⟩⟩
    simp only
    omega
  · cases h
    exact ⟨⟨rfl, rfl⟩, rfl, fun _ => rfl, fun h0 => absurd h0 hidx, fun h0 => absurd h0 hidx⟩

theorem openUserPacket_error (h : openUserPacket packet s = .error b) : SameFormat s.bbf b := by
  simp only [openUserPacket] at h
  split_ifs at h
  cases h
  exact ⟨rfl, rfl⟩

/-- Bytes the pass moves on by, and those of them it keeps. -/
def BbfPos.step (u : BbfPos β) : ℤ := min (u.bbf.upl - u.bbf.ts.buffIdx) u.num

def BbfPos.out (u : BbfPos β) : ℤ := min u.bbf.bbfPayloadBytesLeft u.step

/-- What is to be kept would not end within the buffer. -/
def BbfPos.Overruns (u : BbfPos β) : Prop :=
  0 < u.out ∧ u.bbf.ts.buffIdx < 200 ∧
    (u.bbf.ts.buffIdx + u.out < 0 ∨ 200 ≤ u.bbf.ts.buffIdx + u.out)

/-- What one pass of the loop can do. -/
inductive Passes (s : BbfPos β) : Next (BbfPos β) (BbfOut β) → Prop where
  | idle (hidle : ¬ (0 < s.num ∧ s.bbf.ts.buffIdx ≤ s.bbf.upl)) :
      Passes s (.exit (.ptr s.bbf s.p))
  | null {b : BbframesStream β} (hsame : SameFormat s.bbf b) : Passes s (.exit (.null b))
  | wild : Passes s (.exit .wild)
  | stop {u : BbfPos β} (hnum : 0 < s.num) (hidx : s.bbf.ts.buffIdx ≤ s.bbf.upl)
      (hopen : Opened s u) (hstop : u.step = 0 ∨ u.Overruns) : Passes s (.exit (.ptr u.bbf u.p))
  | last {u : BbfPos β} {b : BbframesStream β} (hnum : 0 < s.num)
      (hidx : s.bbf.ts.buffIdx ≤ s.bbf.upl) (hopen : Opened s u) (hsame : SameFormat u.bbf b)
      (hstep : u.step ≠ 0) : Passes s (.exit (.ptr b (u.p + u.num)))
  | again {u t : BbfPos β} (hnum : 0 < s.num) (hidx : s.bbf.ts.buffIdx ≤ s.bbf.upl)
      (hopen : Opened s u) (hsame : SameFormat u.bbf t.bbf) (hstep : u.step ≠ 0)
      (hp : t.p = u.p + u.step) (htotal : t.num = u.num - u.step)
      (hleft : t.bbf.bbfPayloadBytesLeft = u.bbf.bbfPayloadBytesLeft - max u.out 0)
      (hmore : t.bbf.bbfPayloadBytesLeft ≠ 0)
      (hkept : t.bbf.ts.buffIdx = u.bbf.ts.buffIdx + u.out ∨
        t.bbf.ts.buffIdx = 0 ∧ u.bbf.ts.buffIdx + u.out = u.bbf.upl)
      (hinside : 0 < u.out → 0 ≤ u.bbf.ts.buffIdx) : Passes s (.again t)

theorem storeUserBytes_ok {p n : ℤ} (h : storeUserBytes packet a p n = .ok b) :
    SameFormat a b ∧ b.ts.buffIdx = a.ts.buffIdx ∧
      b.bbfPayloadBytesLeft = a.bbfPayloadBytesLeft - max n 0 ∧ (0 < n → 0 ≤ a.ts.buffIdx) := by
  by_cases hpos : 0 < n
  · simp only [storeUserBytes, if_pos hpos] at h
    split at h
    · cases h
    · split at h
      · cases h
      · split at h
        · cases h
        · rename_i buff hbuff
          cases h
          refine ⟨⟨rfl, rfl⟩, rfl, by simp only; omega, fun _ => ?_⟩
          by_contra hneg
          rw [Buff.memcpy, dif_neg fun hin => hneg hin.1] at hbuff
          cases hbuff
  · rw [storeUserBytes, if_neg hpos] at h
    cases h
    exact ⟨SameFormat.refl _, rfl, by omega, fun hn => absurd hn hpos⟩

theorem storeUserBytes_error {p n : ℤ} {r : BbfOut β}
    (h : storeUserBytes packet a p n = .error r) :
    r = .null a ∨ r = .wild ∨
      r = .ptr a p ∧ 0 < n ∧ a.ts.buffIdx < 200 ∧
        (a.ts.buffIdx + n < 0 ∨ 200 ≤ a.ts.buffIdx + n) := by
  by_cases hpos : 0 < n
  · simp only [storeUserBytes, if_pos hpos] at h
    split at h
    · cases h
      exact Or.inl rfl
    · rename_i hfull
      split at h
      · rename_i hover
        cases h
        exact Or.inr (Or.inr ⟨rfl, hpos, Int.not_le.mp hfull, hover⟩)
      · split at h
        · cases h
          exact Or.inr (Or.inl rfl)
        · cases h
  · rw [storeUserBytes, if_neg hpos] at h
    cases h

omit [Cell β] in
theorem deliverIfComplete_spec (b : BbframesStream β) :
    SameFormat b (deliverIfComplete b) ∧
      (deliverIfComplete b).bbfPayloadBytesLeft = b.bbfPayloadBytesLeft ∧
      ((deliverIfComplete b).ts.buffIdx = b.ts.buffIdx ∨
        (deliverIfComplete b).ts.buffIdx = 0 ∧ b.ts.buffIdx = b.upl) := by
  rw [deliverIfComplete]
  split
  · rename_i hfull
    exact ⟨⟨rfl, rfl⟩, rfl, Or.inr ⟨rfl, hfull⟩⟩
  · exact ⟨SameFormat.refl _, rfl, Or.inl rfl⟩

theorem bbfBody_passes (packet : Packet β) (s : BbfPos β) : Passes s (bbfBody packet s) := by
  rw [bbfBody]
  split_ifs with hrun
  · obtain ⟨hnum, hidx⟩ := hrun
    cases hopen : openUserPacket packet s with
    | error b => exact .null (openUserPacket_error hopen)
    | ok u =>
      have ho := openUserPacket_opened hopen
      have hstep : min (u.bbf.upl - u.bbf.ts.buffIdx) u.num = u.step := rfl
      have hout : min u.bbf.bbfPayloadBytesLeft u.step = u.out := rfl
      simp only [hstep, hout]
      split_ifs with hn
      · exact .stop hnum hidx ho (Or.inl hn)
      · cases hstore : storeUserBytes packet u.bbf u.p u.out with
        | error r =>
          rcases storeUserBytes_error hstore with rfl | rfl | ⟨rfl, hover⟩
          · exact .null ho.format
          · exact .wild
          · exact .stop hnum hidx ho (Or.inr hover)
        | ok b =>
          obtain ⟨hsame, hbidx, hbleft, hinside⟩ := storeUserBytes_ok hstore
          have hle : b.ts.buffIdx + u.out ≤ b.upl := by
            have := hsame.2
            simp only [BbfPos.out, BbfPos.step]
            omega
          obtain ⟨hsame', hleft', hidx'⟩ :=
            deliverIfComplete_spec (b.setIdx (min (b.ts.buffIdx + u.out) b.upl))
          have hset : (b.setIdx (min (b.ts.buffIdx + u.out) b.upl)).ts.buffIdx =
              u.bbf.ts.buffIdx + u.out := by
            rw [← hbidx]
            exact Int.min_eq_left hle
          have hsame'' : SameFormat u.bbf
              (deliverIfComplete (b.setIdx (min (b.ts.buffIdx + u.out) b.upl))) :=
            hsame.trans hsame'
          have hupl : (b.setIdx (min (b.ts.buffIdx + u.out) b.upl)).upl = u.bbf.upl := hsame.2
          have hleft'' : (deliverIfComplete
              (b.setIdx (min (b.ts.buffIdx + u.out) b.upl))).bbfPayloadBytesLeft =
              u.bbf.bbfPayloadBytesLeft - max u.out 0 := hleft'.trans hbleft
          rw [hset, hupl] at hidx'
          simp only [closeUserPacket]
          rw [if_neg fun hover => by
            have : b.upl < b.ts.buffIdx + u.out := hover.1
            omega]
          split_ifs with hend
          · have hp : u.p + u.step + (u.num - u.step) = u.p + u.num := by omega
            rw [hp]
            exact .last hnum hidx ho hsame'' hn
          · exact .again hnum hidx ho hsame'' hn rfl rfl hleft'' hend hidx' hinside
  · exact .idle hrun

/-! ### The loop -/

/-- Falls with every pass. A pass reads a byte, except that user packets of no bytes are begun again
    and again until the count of data bytes left runs through 0. -/
def bbfFuel (s : BbfPos β) : ℕ :=
  s.num.toNat +
    if s.bbf.upl = 0 ∧ s.bbf.ts.buffIdx = 0 then
      if 0 ≤ s.bbf.bbfPayloadBytesLeft then s.bbf.bbfPayloadBytesLeft.toNat + 2 else 1
    else 0

omit [Cell β] in
/-- A pass never moves back, and stays within the bytes left. -/
theorem Opened.moves (h : Opened s u) (hhem : HemLength s.bbf) (hnum : 0 < s.num)
    (hidx : s.bbf.ts.buffIdx ≤ s.bbf.upl) :
    0 ≤ u.num ∧ u.step ≤ u.num ∧ s.p ≤ u.p ∧ s.p ≤ u.p + u.step := by
  have htotal := h.total
  have hupl := h.format.2
  have hstep : u.step = min (u.bbf.upl - u.bbf.ts.buffIdx) u.num := rfl
  by_cases h0 : s.bbf.ts.buffIdx = 0
  · rcases Bool.eq_false_or_eq_true s.bbf.hemMode with hm | hm
    · obtain ⟨hone, hsame, _⟩ := h.hem h0 hm
      have := hhem hm
      omega
    · obtain ⟨hone, hless, _⟩ := h.normal h0 hm
      omega
  · obtain rfl : u = s := h.begun h0
    omega

omit [Cell β] in
theorem Passes.falls (hhem : HemLength s.bbf) (h : Passes s (.again t)) :
    HemLength t.bbf ∧ bbfFuel t < bbfFuel s := by
  cases h with
  | again hnum hidx hopen hsame hstep hp htotal hleft hmore hkept hinside =>
    rename_i u
    refine ⟨(hopen.format.trans hsame).hemLength hhem, ?_⟩
    have hupl := hopen.format.2
    have hupl' := hsame.2
    have hmin : u.step = min (u.bbf.upl - u.bbf.ts.buffIdx) u.num := rfl
    have hout : u.out = min u.bbf.bbfPayloadBytesLeft u.step := rfl
    have htot := hopen.total
    have hmove := hopen.moves hhem hnum hidx
    by_cases h0 : s.bbf.ts.buffIdx = 0
    · rcases Bool.eq_false_or_eq_true s.bbf.hemMode with hm | hm
      · obtain ⟨hone, hsame', _⟩ := hopen.hem h0 hm
        have := hhem hm
        simp only [bbfFuel]
        split_ifs <;> omega
      · obtain ⟨hone, hless, hone'⟩ := hopen.normal h0 hm
        simp only [bbfFuel]
        split_ifs <;> omega
    · have hus := hopen.begun h0
      subst hus
      simp only [bbfFuel]
      split_ifs <;> omega

theorem run_bbfBody_ends (packet : Packet β) (hhem : HemLength s.bbf) :
    ∃ r, run (bbfBody packet) (bbfPasses s) s = some r := by
  have hfall : ∀ a b : BbfPos β, HemLength a.bbf → bbfBody packet a = .again b →
      HemLength b.bbf ∧ bbfFuel b < bbfFuel a := by
    intro a b ha hab
    have hpass := bbfBody_passes packet a
    rw [hab] at hpass
    exact hpass.falls ha
  obtain ⟨r, hr⟩ := run_of_measure bbfFuel hfall hhem
  refine ⟨r, run_mono ?_ hr⟩
  simp only [bbfFuel, bbfPasses]
  split_ifs <;> omega

/-- What the loop comes to, started in `s` and with the bytes before `p` certainly read. -/
def BbfOut.Within (s : BbfPos β) (p : ℤ) : BbfOut β → Prop
  | .null b => SameFormat s.bbf b
  | .ptr b p' => SameFormat s.bbf b ∧ p ≤ p' ∧ p' ≤ s.p + s.num
  | .wild => True
  | .hang => False

omit [Cell β] in
theorem BbfOut.Within.again {r : BbfOut β} {p q : ℤ} (h : BbfOut.Within t q r)
    (hsame : SameFormat s.bbf t.bbf) (htotal : t.p + t.num = s.p + s.num) (hpq : p ≤ q) :
    BbfOut.Within s p r := by
  cases r with
  | null b => exact hsame.trans h
  | ptr b p' =>
    obtain ⟨hb, hlo, hhi⟩ := h
    exact ⟨hsame.trans hb, by omega, by omega⟩
  | wild => trivial
  | hang => exact h

/-- The loop stays within its piece. -/
theorem run_bbfBody_within {r : BbfOut β} (k : ℕ) (hhem : HemLength s.bbf) (hnum : 0 ≤ s.num)
    (hrun : run (bbfBody packet) k s = some r) : BbfOut.Within s s.p r := by
  induction k generalizing s with
  | zero => cases hrun
  | succ k ih =>
    have hpass := bbfBody_passes packet s
    cases hb : bbfBody packet s with
    | exit q =>
      rw [run_exit hb, Option.some.injEq] at hrun
      subst hrun
      rw [hb] at hpass
      cases hpass with
      | idle hidle => exact ⟨SameFormat.refl _, Int.le_refl _, by omega⟩
      | null hsame => exact hsame
      | wild => trivial
      | stop hpos hidx hopen hstop =>
        have hmove := hopen.moves hhem hpos hidx
        have htotal := hopen.total
        exact ⟨hopen.format, hmove.2.2.1, by omega⟩
      | last hpos hidx hopen hsame hstep =>
        have htotal := hopen.total
        exact ⟨hopen.format.trans hsame, by omega, by omega⟩
    | again t =>
      rw [run_again hb] at hrun
      rw [hb] at hpass
      have hfall := hpass.falls hhem
      cases hpass with
      | again hpos hidx hopen hsame hstep hp htotal hleft hmore hkept hinside =>
        have hmove := hopen.moves hhem hpos hidx
        have htot := hopen.total
        exact (ih hfall.1 (by omega) hrun).again (hopen.format.trans hsame) (by omega) (by omega)

/-- The loop is about to read: a user packet is to be begun, or one of no bytes has gone astray. -/
def BbfPos.Going (s : BbfPos β) : Prop :=
  0 < s.num ∧ (s.bbf.ts.buffIdx = 0 ∧ 0 ≤ s.bbf.upl ∨
    s.bbf.upl = 0 ∧ s.bbf.ts.buffIdx < 0 ∧ s.bbf.bbfPayloadBytesLeft < 0)

/-- From such a point the loop reads a byte. -/
theorem run_bbfBody_reads {r : BbfOut β} (k : ℕ) (hhem : HemLength s.bbf) (hgo : s.Going)
    (hrun : run (bbfBody packet) k s = some r) : BbfOut.Within s (s.p + 1) r := by
  induction k generalizing s with
  | zero => cases hrun
  | succ k ih =>
    obtain ⟨hnum, hcase⟩ := hgo
    have hpass := bbfBody_passes packet s
    cases hb : bbfBody packet s with
    | exit q =>
      rw [run_exit hb, Option.some.injEq] at hrun
      subst hrun
      rw [hb] at hpass
      cases hpass with
      | idle hidle => omega
      | null hsame => exact hsame
      | wild => trivial
      | stop hpos hidx hopen hstop =>
        rename_i u
        have hmove := hopen.moves hhem hpos hidx
        have htotal := hopen.total
        have hupl := hopen.format.2
        have hstep : u.step = min (u.bbf.upl - u.bbf.ts.buffIdx) u.num := rfl
        have hout : u.out = min u.bbf.bbfPayloadBytesLeft u.step := rfl
        simp only [BbfPos.Overruns] at hstop
        refine ⟨hopen.format, ?_, by omega⟩
        rcases hcase with ⟨h0, hpos'⟩ | ⟨hzero, hneg, hleft⟩
        · rcases Bool.eq_false_or_eq_true s.bbf.hemMode with hm | hm
          · have hone := hopen.hem h0 hm
            have := hhem hm
            omega
          · have hone := hopen.normal h0 hm
            omega
        · have := hopen.begun (by omega)
          subst this
          omega
      | last hpos hidx hopen hsame hstep =>
        have htotal := hopen.total
        exact ⟨hopen.format.trans hsame, by omega, by omega⟩
    | again t =>
      rw [run_again hb] at hrun
      rw [hb] at hpass
      have hfall := hpass.falls hhem
      cases hpass with
      | again hpos hidx hopen hsame hstep hp htotal hleft hmore hkept hinside =>
        rename_i u
        have hmove := hopen.moves hhem hpos hidx
        have htot := hopen.total
        have hupl := hopen.format.2
        have hupl' := hsame.2
        have hstep' : u.step = min (u.bbf.upl - u.bbf.ts.buffIdx) u.num := rfl
        have hout : u.out = min u.bbf.bbfPayloadBytesLeft u.step := rfl
        by_cases hread : s.p < t.p
        · exact (run_bbfBody_within k hfall.1 (by omega) hrun).again (hopen.format.trans hsame)
            (by omega) (by omega)
        · -- a user packet of no bytes was begun and ended
          obtain ⟨hgo, hp'⟩ : t.Going ∧ t.p = s.p := by
            rw [BbfPos.Going]
            rcases hcase with ⟨h0, hpos'⟩ | ⟨hzero, hneg, hleft'⟩
            · rcases Bool.eq_false_or_eq_true s.bbf.hemMode with hm | hm
              · have hone := hopen.hem h0 hm
                have := hhem hm
                omega
              · have hone := hopen.normal h0 hm
                omega
            · have := hopen.begun (by omega)
              subst this
              omega
          exact (ih hfall.1 hgo hrun).again (hopen.format.trans hsame) (by omega) (by omega)

theorem bbfLoop_within (packet : Packet β) (hhem : HemLength s.bbf) (hnum : 0 ≤ s.num) :
    BbfOut.Within s s.p (bbfLoop packet s) := by
  obtain ⟨r, hr⟩ := run_bbfBody_ends packet hhem
  rw [bbfLoop, hr]
  exact run_bbfBody_within _ hhem hnum hr

theorem bbfLoop_reads (packet : Packet β) (hhem : HemLength s.bbf) (hgo : s.Going) :
    BbfOut.Within s (s.p + 1) (bbfLoop packet s) := by
  obtain ⟨r, hr⟩ := run_bbfBody_ends packet hhem
  rw [bbfLoop, hr]
  exact run_bbfBody_reads _ hhem hgo hr

/-! ### The call -/

/-- A user packet is begun that is already too long, or would not end within the buffer. -/
def BbframesStream.Stalls (b : BbframesStream β) (num : ℤ) : Prop :=
  b.ts.synced = true ∧ b.ts.buffIdx ≠ 0 ∧ (b.upl ≤ b.ts.buffIdx ∨ BbfPos.Overruns ⟨b, 0, num⟩)

instance (s : BbfPos β) : Decidable s.Overruns := inferInstanceAs (Decidable (_ ∧ _ ∧ _))

instance (b : BbframesStream β) (num : ℤ) : Decidable (b.Stalls num) :=
  inferInstanceAs (Decidable (_ ∧ _ ∧ _))

theorem bbfOutputTsBytes_stalls (packet : Packet β) (p : ℤ) {num : ℤ} (h : b.Stalls num) :
    bbfOutputTsBytes packet b p num = .ptr b p := by
  obtain ⟨hts, hidx, hcase⟩ := h
  have hbody : bbfBody packet ⟨b, p, num⟩ = .exit (.ptr b p) := by
    rw [bbfBody]
    split_ifs with hrun
    · obtain ⟨hnum, hle⟩ : 0 < num ∧ b.ts.buffIdx ≤ b.upl := hrun
      simp only [openUserPacket, if_neg hidx]
      rcases hcase with hupl | ⟨hpos, hroom, hover⟩
      · rw [if_pos (by omega)]
      · have hout : min b.bbfPayloadBytesLeft (min (b.upl - b.ts.buffIdx) num) =
            BbfPos.out ⟨b, 0, num⟩ := rfl
        have hstep : min (b.upl - b.ts.buffIdx) num ≠ 0 := by omega
        rw [if_neg hstep, hout]
        simp only [storeUserBytes]
        rw [if_pos hpos, if_neg (Int.not_le.mpr hroom), if_pos hover]
    · rfl
  rw [bbfOutputTsBytes, if_pos hts, bbfLoop, bbfPasses, run_exit hbody, Option.getD_some]

/-- A call never goes beyond its piece. -/
theorem bbfOutputTsBytes_within (packet : Packet β) (p num : ℤ) (hhem : HemLength b)
    (hnum : 0 ≤ num) : BbfOut.Within ⟨b, p, num⟩ p (bbfOutputTsBytes packet b p num) := by
  rw [bbfOutputTsBytes]
  split_ifs with hts
  · exact bbfLoop_within packet hhem hnum
  · generalize hk : min (b.syncd - b.ts.buffIdx) num = k
    simp only
    split_ifs with hneg hnull
    · exact ⟨SameFormat.refl _, by omega, Int.le_refl _⟩
    · exact ⟨rfl, rfl⟩
    · have hloop := bbfLoop_within packet (s := ⟨skipPartial b k, p + k, num - k⟩) hhem
        (by simp only; omega)
      exact hloop.again ⟨rfl, rfl⟩ (by simp only; omega) (by simp only; omega)

/-- A call reads a byte, or the sub-stream stalls. -/
theorem bbfOutputTsBytes_reads (packet : Packet β) (p : ℤ) {num : ℤ} (hhem : HemLength b)
    (hupl : 0 ≤ b.upl) (hnum : 0 < num) (hgo : ¬ b.Stalls num) :
    BbfOut.Within ⟨b, p, num⟩ (p + 1) (bbfOutputTsBytes packet b p num) := by
  rw [bbfOutputTsBytes]
  split_ifs with hts
  · by_cases hidx : b.ts.buffIdx = 0
    · exact bbfLoop_reads packet hhem ⟨hnum, Or.inl ⟨hidx, hupl⟩⟩
    · -- the first pass reads on in the user packet that is begun
      have hlt : b.ts.buffIdx < b.upl :=
        Int.not_le.mp fun hle => hgo ⟨hts, hidx, Or.inl hle⟩
      have hfits : ¬ BbfPos.Overruns ⟨b, 0, num⟩ := fun ho => hgo ⟨hts, hidx, Or.inr ho⟩
      have hpass := bbfBody_passes packet ⟨b, p, num⟩
      obtain ⟨r, hr⟩ := run_bbfBody_ends packet (s := ⟨b, p, num⟩) hhem
      rw [bbfLoop, hr, Option.getD_some]
      cases hb : bbfBody packet ⟨b, p, num⟩ with
      | exit q =>
        rw [bbfPasses, run_exit hb, Option.some.injEq] at hr
        subst hr
        rw [hb] at hpass
        cases hpass with
        | idle hidle => exact absurd ⟨hnum, Int.le_of_lt hlt⟩ hidle
        | null hsame => exact hsame
        | wild => trivial
        | stop hpos hle hopen hstop =>
          have hus := hopen.begun hidx
          subst hus
          rcases hstop with hstep | hover
          · simp only [BbfPos.step] at hstep
            omega
          · exact absurd hover hfits
        | last hpos hle hopen hsame hstep =>
          rename_i u b'
          have htotal : u.p + u.num = p + num := hopen.total
          exact ⟨hopen.format.trans hsame, by omega, by simp only; omega⟩
      | again t =>
        rw [bbfPasses, run_again hb] at hr
        rw [hb] at hpass
        have hfall := hpass.falls hhem
        cases hpass with
        | again hpos hle hopen hsame hstep hp htotal hleft hmore hkept hinside =>
          have hus := hopen.begun hidx
          subst hus
          simp only [BbfPos.step] at hp htotal
          exact (run_bbfBody_within _ hfall.1 (by omega) hr).again hsame (by simp only; omega)
            (by omega)
  · generalize hk : min (b.syncd - b.ts.buffIdx) num = k
    simp only
    split_ifs with hneg hnull
    · exact ⟨SameFormat.refl _, by omega, Int.le_refl _⟩
    · exact ⟨rfl, rfl⟩
    · by_cases h0 : k = 0
      · -- the first user packet begins with the piece
        subst h0
        have hidx : (skipPartial b 0).ts.buffIdx = 0 := by
          simp only [skipPartial]
          rw [if_pos (by omega)]
        have hloop := bbfLoop_reads packet (s := ⟨skipPartial b 0, p + 0, num - 0⟩) hhem
          ⟨by simp only; omega, Or.inl ⟨hidx, hupl⟩⟩
        exact hloop.again ⟨rfl, rfl⟩ (by simp only; omega) (by simp only; omega)
      · have hloop := bbfLoop_within packet (s := ⟨skipPartial b k, p + k, num - k⟩) hhem
          (by simp only; omega)
        exact hloop.again ⟨rfl, rfl⟩ (by simp only; omega) (by simp only; omega)

end Demux

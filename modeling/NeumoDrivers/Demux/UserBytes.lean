import NeumoDrivers.Demux.UserPackets

/-! Where the bytes of a user packet come from, in either mode.

    `own` says of a cell that it belongs to the data fields of one stream. A stream is `Sound` when
    all that its feeds got and all that its buffer holds is its own; the driver's sync byte comes
    in front. A call that is given only its own bytes, and that meets no error, keeps it so
    (`bbfOutputTsBytes_sound`): it reads its piece to the end, and takes no padding for data. -/

namespace Demux
open Loop

variable {β : Type} [Cell β]

/-- The sync byte followed by cells of the stream's own. -/
def OwnPacket (own : β → Prop) (up : List β) : Prop :=
  ∃ bytes, up = withSync bytes ∧ ∀ c ∈ bytes, own c

/-- User packets are of a length that the feeds and the buffer can take. -/
def Fits (bbf : BbframesStream β) : Prop := 188 ≤ bbf.upl ∧ bbf.upl < 200

structure Sound (own : β → Prop) (bbf : BbframesStream β) : Prop where
  fed : ∀ up ∈ bbf.feeds, OwnPacket own up
  left : 0 ≤ bbf.bbfPayloadBytesLeft
  idx : 0 ≤ bbf.ts.buffIdx
  fits : bbf.synced = true → Fits bbf
  inside : bbf.ts.synced = true → bbf.ts.buffIdx < bbf.upl
  held : bbf.ts.synced = true → 0 < bbf.ts.buffIdx →
    OwnPacket own (bbf.ts.buff.cells.take bbf.ts.buffIdx.toNat)

/-- The fields that a call does not change once a stream is in step. -/
structure SameFrame (bbf bbf' : BbframesStream β) : Prop where
  hem : bbf'.hemMode = bbf.hemMode
  upl : bbf'.upl = bbf.upl
  syncd : bbf'.syncd = bbf.syncd
  synced : bbf'.synced = bbf.synced
  ts : bbf'.ts.synced = bbf.ts.synced

omit [Cell β] in
theorem SameFrame.refl (bbf : BbframesStream β) : SameFrame bbf bbf := ⟨rfl, rfl, rfl, rfl, rfl⟩

omit [Cell β] in
theorem SameFrame.trans {a b c : BbframesStream β} (h : SameFrame a b) (h' : SameFrame b c) :
    SameFrame a c :=
  ⟨h'.hem.trans h.hem, h'.upl.trans h.upl, h'.syncd.trans h.syncd, h'.synced.trans h.synced,
    h'.ts.trans h.ts⟩

/-- A user packet begins at `s`, and the CRC-8 of the one before is not what the stream says. -/
def CrcFails (packet : Packet β) (s : BbfPos β) : Prop :=
  0 < s.num ∧ s.bbf.ts.buffIdx = 0 ∧ s.bbf.hemMode = false ∧
    s.bbf.bbfCrc8 ≠ (packet.byte s.p).toNat ∧ 0 ≤ s.bbf.bbfCrc8

/-- A position in the loop of a call that is given its own bytes. In normal mode a call that has
    padding only must not begin a user packet with it. -/
structure Reading (own : β → Prop) (packet : Packet β) (s : BbfPos β) : Prop where
  sound : Sound own s.bbf
  synced : s.bbf.synced = true
  inStep : s.bbf.ts.synced = true
  pos : 0 ≤ s.p
  num : 0 ≤ s.num
  slot : 0 < s.num → s.bbf.bbfPayloadBytesLeft = 0 → s.bbf.hemMode = true ∨ 0 < s.bbf.ts.buffIdx
  mine : ∀ c ∈ packet.read s.p (min s.bbf.bbfPayloadBytesLeft s.num), own c

omit [Cell β] in
/-- The first cells of a packet that begins with the sync byte. -/
theorem OwnPacket.take {own : β → Prop} [Cell β] {l : List β} {n m : ℕ} (h : OwnPacket own (l.take n))
    (hm : 0 < m) (hmn : m ≤ n) : OwnPacket own (l.take m) := by
  obtain ⟨bytes, heq, hown⟩ := h
  refine ⟨bytes.take (m - 1), ?_, fun c hc => hown c (List.mem_of_mem_take hc)⟩
  have hl : l.take m = (l.take n).take m := by rw [List.take_take, Nat.min_eq_left hmn]
  obtain ⟨k, rfl⟩ : ∃ k, m = k + 1 := ⟨m - 1, by omega⟩
  rw [hl, heq, withSync, List.take_succ_cons]
  rfl

theorem OwnPacket.append {own : β → Prop} {up bytes : List β} (h : OwnPacket own up)
    (hb : ∀ c ∈ bytes, own c) : OwnPacket own (up ++ bytes) := by
  obtain ⟨pre, rfl, hpre⟩ := h
  refine ⟨pre ++ bytes, rfl, fun c hc => ?_⟩
  rcases List.mem_append.mp hc with hc | hc
  · exact hpre c hc
  · exact hb c hc

/-! ### One pass -/

/-- Beginning a user packet, if one is due, leaves the sync byte at least in the buffer; in normal
    mode it reads a byte. -/
theorem openUserPacket_reading {own : β → Prop} {packet : Packet β} {s : BbfPos β}
    (h : Reading own packet s) (hnum : 0 < s.num) :
    (∃ bbf, openUserPacket packet s = .error bbf ∧ CrcFails packet s) ∨
    ∃ t, openUserPacket packet s = .ok t ∧ Reading own packet t ∧ 0 < t.bbf.ts.buffIdx ∧
      SameFrame s.bbf t.bbf ∧ t.num ≤ s.num ∧ t.p + t.num = s.p + s.num ∧
      t.bbf.bbfPayloadBytesLeft - min t.bbf.bbfPayloadBytesLeft t.num =
        s.bbf.bbfPayloadBytesLeft - min s.bbf.bbfPayloadBytesLeft s.num := by
  have hleft := h.sound.left
  have hidx := h.sound.idx
  have hin := h.sound.inside h.inStep
  have hfits := h.sound.fits h.synced
  by_cases h0 : s.bbf.ts.buffIdx = 0
  · have hbuff : (s.bbf.ts.buff.put 0 (Cell.lit 0x47)).cells.take 1 = withSync [] :=
      Buff.take_put_zero _ _ (by decide)
    have hheld : OwnPacket own ((s.bbf.ts.buff.put 0 (Cell.lit 0x47)).cells.take 1) :=
      ⟨[], hbuff, by simp⟩
    by_cases hhem : s.bbf.hemMode = true
    · refine Or.inr ⟨{ s with bbf := { s.bbf with ts := { s.bbf.ts with
          buff := s.bbf.ts.buff.put 0 (Cell.lit 0x47), buffIdx := 1 } } },
        by rw [openUserPacket, if_pos h0, if_pos hhem], ?_, Int.zero_lt_one,
        ⟨rfl, rfl, rfl, rfl, rfl⟩, Int.le_refl _, rfl, rfl⟩
      refine ⟨⟨h.sound.fed, hleft, Int.one_nonneg, fun _ => hfits, fun _ => ?_, fun _ _ => hheld⟩,
        h.synced, h.inStep, h.pos, h.num, fun _ _ => Or.inl hhem, h.mine⟩
      exact Int.lt_of_lt_of_le (show (1 : ℤ) < 188 by decide) hfits.1
    · by_cases hcrc : s.bbf.bbfCrc8 ≠ (packet.byte s.p).toNat ∧ 0 ≤ s.bbf.bbfCrc8
      · refine Or.inl ⟨_, by rw [openUserPacket, if_pos h0, if_neg hhem, if_pos hcrc], hnum, h0, ?_, hcrc⟩
        simpa using hhem
      · -- padding does not begin a user packet, so a data byte stands in the place of the sync byte
        have hpos : 0 < s.bbf.bbfPayloadBytesLeft := by
          by_contra hneg
          rcases h.slot hnum (by omega) with hh | hh
          · exact hhem hh
          · omega
        have hread : packet.read s.p (min s.bbf.bbfPayloadBytesLeft s.num) =
            packet.read s.p 1 ++
              packet.read (s.p + 1) (min (s.bbf.bbfPayloadBytesLeft - 1) (s.num - 1)) := by
          rw [← packet.read_add h.pos (by decide) (by omega)]
          congr 1
          omega
        refine Or.inr ⟨⟨{ s.bbf with
            ts := { s.bbf.ts with buff := s.bbf.ts.buff.put 0 (Cell.lit 0x47), buffIdx := 1 }
            bbfCrc8 := 0, bbfPayloadBytesLeft := s.bbf.bbfPayloadBytesLeft - 1 },
            s.p + 1, s.num - 1⟩,
          by rw [openUserPacket, if_pos h0, if_neg hhem, if_neg hcrc], ?_,
          Int.zero_lt_one, ⟨rfl, rfl, rfl, rfl, rfl⟩, ?_, ?_, ?_⟩
        · refine ⟨⟨h.sound.fed, ?_, Int.one_nonneg, fun _ => hfits, fun _ => ?_, fun _ _ => hheld⟩,
            h.synced, h.inStep, ?_, ?_, fun _ _ => Or.inr Int.zero_lt_one, ?_⟩
          · exact Int.sub_nonneg_of_le hpos
          · exact Int.lt_of_lt_of_le (show (1 : ℤ) < 188 by decide) hfits.1
          · exact Int.le_trans h.pos (Int.le_add_of_nonneg_right (by decide))
          · exact Int.sub_nonneg_of_le hnum
          · intro c hc
            exact h.mine c (by rw [hread]; exact List.mem_append_right _ hc)
        · exact Int.sub_le_self _ (by decide)
        · simp only
          omega
        · simp only
          omega
  · refine Or.inr ⟨s, by rw [openUserPacket, if_neg h0], h, by omega, SameFrame.refl _,
      Int.le_refl _, rfl, rfl⟩

/-- Copying own bytes behind own bytes. -/
theorem storeUserBytes_reading {own : β → Prop} {packet : Packet β} {s : BbfPos β}
    (h : Reading own packet s) (hidx : 0 < s.bbf.ts.buffIdx) {out : ℤ} (hout : 0 ≤ out)
    (hleft : out ≤ s.bbf.bbfPayloadBytesLeft) (hnum : out ≤ s.num)
    (hfit : s.bbf.ts.buffIdx + out ≤ s.bbf.upl) :
    ∃ bbf, storeUserBytes packet s.bbf s.p out = .ok bbf ∧ SameFrame s.bbf bbf ∧
      bbf.feeds = s.bbf.feeds ∧ bbf.ts.buffIdx = s.bbf.ts.buffIdx ∧
      bbf.bbfPayloadBytesLeft = s.bbf.bbfPayloadBytesLeft - out ∧
      OwnPacket own (bbf.ts.buff.cells.take (bbf.ts.buffIdx + out).toNat) := by
  have hheld := h.sound.held h.inStep hidx
  have hupl := (h.sound.fits h.synced).2
  by_cases hpos : 0 < out
  · obtain ⟨buff, hstore, hbuff⟩ :=
      storeUserBytes_append packet s.bbf s.p out _ hpos (by omega) (by omega) rfl
    have hmine : ∀ c ∈ packet.read s.p out, own c := by
      intro c hc
      refine h.mine c ?_
      have hsplit := packet.read_add h.pos hout
        (show 0 ≤ min s.bbf.bbfPayloadBytesLeft s.num - out by omega)
      rw [show out + (min s.bbf.bbfPayloadBytesLeft s.num - out) =
        min s.bbf.bbfPayloadBytesLeft s.num by omega] at hsplit
      rw [hsplit]
      exact List.mem_append_left _ hc
    refine ⟨_, hstore, ⟨rfl, rfl, rfl, rfl, rfl⟩, rfl, rfl, rfl, ?_⟩
    simp only [hbuff]
    exact hheld.append hmine
  · obtain rfl : out = 0 := by omega
    refine ⟨s.bbf, storeUserBytes_zero packet s.bbf s.p, SameFrame.refl _, rfl, rfl, ?_, ?_⟩
    · rw [Int.sub_zero]
    · rw [Int.add_zero]
      exact hheld

/-- Handing over a finished packet, or keeping an unfinished one, leaves the stream sound. -/
theorem deliverIfComplete_sound {own : β → Prop} (bbf : BbframesStream β)
    (hfed : ∀ up ∈ bbf.feeds, OwnPacket own up) (hleft : 0 ≤ bbf.bbfPayloadBytesLeft)
    (hidx : 0 < bbf.ts.buffIdx) (hle : bbf.ts.buffIdx ≤ bbf.upl) (hfits : Fits bbf)
    (hheld : OwnPacket own (bbf.ts.buff.cells.take bbf.ts.buffIdx.toNat)) :
    Sound own (deliverIfComplete bbf) ∧ SameFrame bbf (deliverIfComplete bbf) ∧
      (deliverIfComplete bbf).bbfPayloadBytesLeft = bbf.bbfPayloadBytesLeft := by
  have hupl := hfits.1
  rw [deliverIfComplete]
  split
  · rename_i heq
    refine ⟨⟨fun up hup => ?_, hleft, Int.le_refl 0, fun _ => hfits, fun _ => ?_, ?_⟩,
      ⟨rfl, rfl, rfl, rfl, rfl⟩, rfl⟩
    · rcases List.mem_append.mp hup with hup | hup
      · exact hfed up hup
      · rw [List.mem_singleton.mp hup]
        exact hheld.take (by decide) (by omega)
    · exact Int.lt_of_lt_of_le (show (0 : ℤ) < 188 by decide) hupl
    · intro _ hlt
      exact absurd hlt (Int.lt_irrefl 0)
  · rename_i hne
    exact ⟨⟨hfed, hleft, Int.le_of_lt hidx, fun _ => hfits, fun _ => by omega, fun _ _ => hheld⟩,
      SameFrame.refl _, rfl⟩

/-- What a finished call leaves: its piece is read and the data bytes of it are counted. -/
def ReadsAll (own : β → Prop) (bbf : BbframesStream β) (p num : ℤ) : BbfOut β → Prop
  | .ptr bbf' q =>
    q = p + num ∧ Sound own bbf' ∧ SameFrame bbf bbf' ∧
      bbf'.bbfPayloadBytesLeft = bbf.bbfPayloadBytesLeft - min bbf.bbfPayloadBytesLeft num
  | _ => False

/-- A pass either finds a CRC-8 error, or ends the call with its piece read, or goes on from a
    later position of the same kind. -/
theorem bbfBody_reading {own : β → Prop} {packet : Packet β} {s : BbfPos β}
    (h : Reading own packet s) :
    CrcFails packet s ∨ (∃ r, bbfBody packet s = .exit r ∧ ReadsAll own s.bbf s.p s.num r) ∨
    ∃ t, bbfBody packet s = .again t ∧ Reading own packet t ∧ t.num < s.num ∧
      ∀ r, ReadsAll own t.bbf t.p t.num r → ReadsAll own s.bbf s.p s.num r := by
  have hleft := h.sound.left
  have hin := h.sound.inside h.inStep
  by_cases hnum : 0 < s.num
  · rcases openUserPacket_reading h hnum with ⟨_, _, hcrc⟩ | ⟨t, hopen, ht, hpos, hsame, hlt, hend, hcount⟩
    · exact Or.inl hcrc
    · refine Or.inr ?_
      have hleft' := ht.sound.left
      have hin' := ht.sound.inside ht.inStep
      have hfits := ht.sound.fits ht.synced
      have hfed := ht.sound.fed
      have hnum' := ht.num
      obtain ⟨n, hn⟩ : ∃ n, n = min (t.bbf.upl - t.bbf.ts.buffIdx) t.num := ⟨_, rfl⟩
      obtain ⟨out, hout⟩ : ∃ out, out = min t.bbf.bbfPayloadBytesLeft n := ⟨_, rfl⟩
      by_cases hn0 : n = 0
      · refine Or.inl ⟨.ptr t.bbf t.p, ?_, by omega, ht.sound, hsame, by omega⟩
        rw [bbfBody, if_pos ⟨hnum, by omega⟩, hopen]
        simp only [← hn, if_pos hn0]
      · obtain ⟨bbf, hstore, hframe, hfeeds, hidx, hbl, hheld⟩ :=
          storeUserBytes_reading ht hpos (show 0 ≤ out by omega) (by omega) (by omega) (by omega)
        have hbody : bbfBody packet s = closeUserPacket { t with bbf := bbf } n out := by
          rw [bbfBody, if_pos ⟨hnum, by omega⟩, hopen]
          simp only [← hn, if_neg hn0, ← hout, hstore]
        have hupl := hframe.upl
        have hfit : bbf.ts.buffIdx + out ≤ bbf.upl := by omega
        have hfits' : Fits bbf := by rw [Fits, hupl]; exact hfits
        rw [closeUserPacket_eq { t with bbf := bbf } n out hfit] at hbody
        obtain ⟨hsound, hdframe, hdleft⟩ := deliverIfComplete_sound
          (bbf.setIdx (bbf.ts.buffIdx + out)) (by rw [← hfeeds] at hfed; exact hfed)
          (show 0 ≤ bbf.bbfPayloadBytesLeft by omega) (show 0 < bbf.ts.buffIdx + out by omega) hfit
          hfits' hheld
        obtain ⟨bbf', hbbf'⟩ : ∃ bbf', bbf' = deliverIfComplete (bbf.setIdx (bbf.ts.buffIdx + out)) :=
          ⟨_, rfl⟩
        simp only [← hbbf'] at hbody hsound hdframe hdleft
        have hdl : bbf'.bbfPayloadBytesLeft = t.bbf.bbfPayloadBytesLeft - out := hdleft.trans hbl
        have hset : SameFrame bbf (bbf.setIdx (bbf.ts.buffIdx + out)) := ⟨rfl, rfl, rfl, rfl, rfl⟩
        have hall : SameFrame t.bbf bbf' := hframe.trans (hset.trans hdframe)
        by_cases hlast : bbf'.bbfPayloadBytesLeft = 0
        · refine Or.inl ⟨.ptr bbf' (t.p + t.num), by rw [hbody, if_pos hlast], hend, hsound, hsame.trans hall, ?_⟩
          omega
        · -- the user packet was completed within the data field
          have hno : out = n := by omega
          subst hno
          have hread := packet.read_add ht.pos (show 0 ≤ out by omega)
            (show 0 ≤ min t.bbf.bbfPayloadBytesLeft t.num - out by omega)
          rw [show out + (min t.bbf.bbfPayloadBytesLeft t.num - out) =
            min t.bbf.bbfPayloadBytesLeft t.num by omega] at hread
          refine Or.inr ⟨_, by rw [hbody, if_neg hlast], ⟨hsound, hall.synced.trans ht.synced,
            hall.ts.trans ht.inStep, ?_, ?_, fun _ h0 => absurd h0 hlast, ?_⟩, ?_, ?_⟩
          · exact Int.add_nonneg ht.pos (by omega)
          · exact Int.sub_nonneg_of_le (by omega)
          · intro c hc
            refine ht.mine c ?_
            rw [hread]
            refine List.mem_append_right _ ?_
            rwa [hdl, show min (t.bbf.bbfPayloadBytesLeft - out) (t.num - out) =
              min t.bbf.bbfPayloadBytesLeft t.num - out by omega] at hc
          · simp only
            omega
          · rintro r hr
            cases r with
            | ptr b q =>
              obtain ⟨hq, hb, hbf, hbl'⟩ := hr
              refine ⟨?_, hb, (hsame.trans hall).trans hbf, ?_⟩
              · simp only at hq
                omega
              · simp only at hbl'
                omega
            | null b => exact hr
            | wild => exact hr
            | hang => exact hr
  · refine Or.inr (Or.inl ⟨.ptr s.bbf s.p, ?_, ?_, h.sound, SameFrame.refl _, ?_⟩)
    · rw [bbfBody, if_neg (by omega)]
    · have := h.num
      omega
    · have := h.num
      omega

/-! ### The loop and the call -/

/-- Where the loop of a call starts: behind the bytes skipped up to the first user packet. -/
def bbfStart (bbf : BbframesStream β) (p num : ℤ) : BbfPos β :=
  if bbf.ts.synced then ⟨bbf, p, num⟩
  else
    let n := min (bbf.syncd - bbf.ts.buffIdx) num
    ⟨skipPartial bbf n, p + n, num - n⟩

/-- A call meets no error: the first user packet begins within the data field, no padding stands
    where a user packet of normal mode would begin, and no user packet fails its CRC-8. -/
structure Proper (packet : Packet β) (bbf : BbframesStream β) (p num : ℤ) : Prop where
  skip : bbf.ts.synced = false → bbf.ts.buffIdx ≤ bbf.syncd →
    min (bbf.syncd - bbf.ts.buffIdx) num ≤ bbf.bbfPayloadBytesLeft
  slot : 0 < (bbfStart bbf p num).num → (bbfStart bbf p num).bbf.bbfPayloadBytesLeft = 0 →
    bbf.hemMode = true ∨ 0 < (bbfStart bbf p num).bbf.ts.buffIdx
  crc : ∀ s, Visits (bbfBody packet) (bbfStart bbf p num) s → ¬ CrcFails packet s

/-- A loop that finds no CRC-8 error reads its piece to the end, within the passes allowed. -/
theorem bbfLoop_reading {own : β → Prop} {packet : Packet β} {s : BbfPos β}
    (h : Reading own packet s) (hcrc : ∀ t, Visits (bbfBody packet) s t → ¬ CrcFails packet t) :
    ∃ bbf, bbfLoop packet s = .ptr bbf (s.p + s.num) ∧ Sound own bbf ∧ SameFrame s.bbf bbf ∧
      bbf.bbfPayloadBytesLeft =
        s.bbf.bbfPayloadBytesLeft - min s.bbf.bbfPayloadBytesLeft s.num := by
  have hrun : ∀ k (t : BbfPos β), t.num.toNat < k → Reading own packet t →
      (∀ u, Visits (bbfBody packet) t u → ¬ CrcFails packet u) →
      ∃ r, run (bbfBody packet) k t = some r ∧ ReadsAll own t.bbf t.p t.num r := by
    intro k
    induction k with
    | zero => intro t hlt; omega
    | succ k ih =>
      intro t hlt ht hcrc
      rcases bbfBody_reading ht with hbad | ⟨r, hbody, hr⟩ | ⟨u, hbody, hu, hdec, hback⟩
      · exact absurd hbad (hcrc t .start)
      · exact ⟨r, run_exit hbody k, hr⟩
      · have := hu.num
        obtain ⟨r, hrun, hr⟩ := ih u (by omega) hu fun w hw => hcrc w (hw.head hbody)
        exact ⟨r, by rw [run_again hbody, hrun], hback r hr⟩
  obtain ⟨r, hr, hreads⟩ := hrun (bbfPasses s) s (by rw [bbfPasses]; omega) h hcrc
  cases r with
  | ptr bbf q =>
    obtain ⟨rfl, hsound, hsame, hleft⟩ := hreads
    exact ⟨bbf, by rw [bbfLoop, hr, Option.getD_some], hsound, hsame, hleft⟩
  | null b => exact absurd hreads id
  | wild => exact absurd hreads id
  | hang => exact absurd hreads id

/-- A stream that skipped past the place where its first user packet begins only waits. -/
theorem bbfOutputTsBytes_past (packet : Packet β) (bbf : BbframesStream β) (p num : ℤ)
    (hts : bbf.ts.synced = false) (hpast : bbf.syncd < bbf.ts.buffIdx) :
    bbfOutputTsBytes packet bbf p num = .ptr bbf (p + num) := by
  rw [bbfOutputTsBytes, hts]
  simp only [Bool.false_eq_true, if_false]
  rw [if_pos (by omega)]

/-- Bytes that a stream skips are none of its user packets. -/
theorem skipPartial_sound {own : β → Prop} {bbf : BbframesStream β} (h : Sound own bbf)
    (hts : bbf.ts.synced = false) {n : ℤ} (hn : 0 ≤ n)
    (hleft : n ≤ bbf.bbfPayloadBytesLeft) (hfits : Fits bbf) : Sound own (skipPartial bbf n) := by
  have hidx := h.idx
  have h0 : 0 ≤ (skipPartial bbf n).ts.buffIdx := by
    simp only [skipPartial]
    split <;> omega
  refine ⟨h.fed, Int.sub_nonneg_of_le hleft, h0, h.fits, ?_, ?_⟩
  · intro hsync
    simp only [skipPartial, hts, Bool.false_or, decide_eq_true_eq] at hsync
    simp only [skipPartial, if_pos hsync]
    exact Int.lt_of_lt_of_le (show (0 : ℤ) < 188 by decide) hfits.1
  · intro hsync hpos
    simp only [skipPartial, hts, Bool.false_or, decide_eq_true_eq] at hsync
    simp only [skipPartial, if_pos hsync] at hpos
    exact absurd hpos (Int.lt_irrefl 0)

/-- A proper call on bytes of the stream's own keeps the stream sound and reads its piece to the
    end. -/
theorem bbfOutputTsBytes_sound {own : β → Prop} {packet : Packet β} {bbf : BbframesStream β}
    {p num : ℤ} (h : Sound own bbf) (hsync : bbf.synced = true) (hp : 0 ≤ p) (hnum : 0 ≤ num)
    (hproper : Proper packet bbf p num)
    (hmine : ∀ c ∈ packet.read p (min bbf.bbfPayloadBytesLeft num), own c)
    (hstep : bbf.ts.synced = true ∨ bbf.ts.buffIdx ≤ bbf.syncd) :
    ∃ bbf', bbfOutputTsBytes packet bbf p num = .ptr bbf' (p + num) ∧ Sound own bbf' ∧
      bbf'.bbfPayloadBytesLeft = bbf.bbfPayloadBytesLeft - min bbf.bbfPayloadBytesLeft num ∧
      bbf'.synced = true ∧ (bbf'.ts.synced = true ∨ bbf'.ts.buffIdx ≤ bbf'.syncd) := by
  have hfits := h.fits hsync
  rcases Bool.eq_false_or_eq_true bbf.ts.synced with hts | hts
  · have hstart : bbfStart bbf p num = ⟨bbf, p, num⟩ := by rw [bbfStart, if_pos hts]
    have hslot := hproper.slot
    have hcrc := hproper.crc
    rw [hstart] at hslot hcrc
    obtain ⟨bbf', hloop, hsound, hsame, hleft⟩ := bbfLoop_reading
      ⟨h, hsync, hts, hp, hnum, hslot, hmine⟩ hcrc
    refine ⟨bbf', ?_, hsound, hleft, hsame.synced.trans hsync, Or.inl (hsame.ts.trans hts)⟩
    rw [bbfOutputTsBytes, if_pos hts, hloop]
  · have hle := hstep.resolve_left (by rw [hts]; decide)
    obtain ⟨n, hn⟩ : ∃ n, n = min (bbf.syncd - bbf.ts.buffIdx) num := ⟨_, rfl⟩
    have hskip : n ≤ bbf.bbfPayloadBytesLeft := hn ▸ hproper.skip hts hle
    have hpart := skipPartial_sound h hts (show 0 ≤ n by omega) hskip hfits
    have hstart : bbfStart bbf p num = ⟨skipPartial bbf n, p + n, num - n⟩ := by
      rw [bbfStart, hts, hn]
      rfl
    have hcall : bbfOutputTsBytes packet bbf p num =
        bbfLoop packet ⟨skipPartial bbf n, p + n, num - n⟩ := by
      rw [bbfOutputTsBytes, hts]
      simp only [Bool.false_eq_true, if_false, ← hn]
      rw [if_neg (by omega), if_neg]
      simp only [skipPartial]
      omega
    have hleft : (skipPartial bbf n).bbfPayloadBytesLeft = bbf.bbfPayloadBytesLeft - n := rfl
    by_cases hat : bbf.ts.buffIdx + n = bbf.syncd
    · -- the first user packet begins in this piece
      have hts' : (skipPartial bbf n).ts.synced = true := by simp [skipPartial, hat]
      have hslot := hproper.slot
      have hcrc := hproper.crc
      rw [hstart] at hslot hcrc
      have hread := packet.read_add hp (show 0 ≤ n by omega)
        (show 0 ≤ min bbf.bbfPayloadBytesLeft num - n by omega)
      rw [show n + (min bbf.bbfPayloadBytesLeft num - n) = min bbf.bbfPayloadBytesLeft num by omega]
        at hread
      have hmine' : ∀ c ∈ packet.read (p + n)
          (min (skipPartial bbf n).bbfPayloadBytesLeft (num - n)), own c := by
        intro c hc
        rw [hleft, show min (bbf.bbfPayloadBytesLeft - n) (num - n) =
          min bbf.bbfPayloadBytesLeft num - n by omega] at hc
        exact hmine c (by rw [hread]; exact List.mem_append_right _ hc)
      obtain ⟨bbf', hloop, hsound, hsame, hleft'⟩ := bbfLoop_reading
        ⟨hpart, hsync, hts', Int.add_nonneg hp (by omega), Int.sub_nonneg_of_le (by omega), hslot,
          hmine'⟩ hcrc
      refine ⟨bbf', ?_, hsound, ?_, hsame.synced.trans hsync, Or.inl (hsame.ts.trans hts')⟩
      · rw [hcall, hloop]
        congr 1
        simp only
        omega
      · simp only [hleft] at hleft'
        omega
    · have hall : n = num := by omega
      subst hall
      refine ⟨skipPartial bbf n, ?_, hpart, ?_, hsync, Or.inr ?_⟩
      · rw [hcall, Int.sub_self, bbfLoop_none _ _ (Int.le_refl 0)]
      · rw [hleft]
        omega
      · simp only [skipPartial, if_neg hat]
        omega

theorem bbfBody_hemMode {packet : Packet β} {s t : BbfPos β} (h : bbfBody packet s = .again t) :
    t.bbf.hemMode = s.bbf.hemMode := by
  have hopen : ∀ u, openUserPacket packet s = .ok u → u.bbf.hemMode = s.bbf.hemMode := by
    intro u hu
    simp only [openUserPacket] at hu
    split_ifs at hu <;> cases hu <;> rfl
  have hstore : ∀ b p n b', storeUserBytes packet b p n = .ok b' → b'.hemMode = b.hemMode := by
    intro b p n b' hb
    simp only [storeUserBytes] at hb
    split_ifs at hb
    · split at hb <;> cases hb
      rfl
    · split at hb <;> cases hb
      rfl
    · cases hb
      rfl
  have hdeliver : ∀ b : BbframesStream β, (deliverIfComplete b).hemMode = b.hemMode := by
    intro b
    rw [deliverIfComplete]
    split <;> rfl
  rw [bbfBody] at h
  split_ifs at h
  split at h
  · cases h
  · rename_i u hu
    simp only at h
    split_ifs at h
    split at h
    · cases h
    · rename_i b hb
      simp only [closeUserPacket] at h
      split_ifs at h
      cases h
      rw [hdeliver]
      exact (hstore _ _ _ _ hb).trans (hopen u hu)

/-- In high-efficiency mode a call meets no error once the first user packet begins within the data
    field. -/
theorem proper_of_hem (packet : Packet β) (bbf : BbframesStream β) (p num : ℤ)
    (hhem : bbf.hemMode = true)
    (hskip : bbf.ts.synced = false → bbf.ts.buffIdx ≤ bbf.syncd →
      min (bbf.syncd - bbf.ts.buffIdx) num ≤ bbf.bbfPayloadBytesLeft) :
    Proper packet bbf p num := by
  have hstart : (bbfStart bbf p num).bbf.hemMode = true := by
    rw [bbfStart]
    split
    · exact hhem
    · exact hhem
  refine ⟨hskip, fun _ _ => Or.inl hhem, fun s hs hcrc => ?_⟩
  have hs' : s.bbf.hemMode = true := by
    clear hcrc
    induction hs with
    | start => exact hstart
    | pass _ hb ih => exact (bbfBody_hemMode hb).trans ih
  rw [hcrc.2.2.1] at hs'
  cases hs'

/-! ### Padding -/

/-- Between two user packets of high-efficiency mode the next one may be begun already, or not: that
    makes no difference. `begun` is the stream with it begun. -/
def BbframesStream.begun (bbf : BbframesStream β) : BbframesStream β :=
  if bbf.ts.synced then
    { bbf with
      ts :=
        { bbf.ts with
          buff := bbf.ts.buff.put 0 (Cell.lit 0x47)
          buffIdx :=
            if bbf.hemMode = true ∧ bbf.ts.buffIdx = 0 then 1 else bbf.ts.buffIdx } }
  else bbf

/-- The data field is read, and what follows is not taken for a user packet. -/
def Idle (bbf : BbframesStream β) : Prop :=
  bbf.bbfPayloadBytesLeft = 0 ∧ bbf.ts.synced = true ∧ (bbf.hemMode = true ∨ 0 < bbf.ts.buffIdx)

instance (bbf : BbframesStream β) : Decidable (Idle bbf) := inferInstanceAs (Decidable (_ ∧ _ ∧ _))

/-- The sync byte stands in the buffer of a stream that has begun a user packet. -/
theorem Sound.put_sync {own : β → Prop} {bbf : BbframesStream β} (h : Sound own bbf)
    (hts : bbf.ts.synced = true) (hidx : 0 < bbf.ts.buffIdx) :
    bbf.ts.buff.put 0 (Cell.lit 0x47) = bbf.ts.buff := by
  obtain ⟨bytes, heq, _⟩ := h.held hts hidx
  obtain ⟨c, cs, hcs⟩ := List.exists_cons_of_length_pos
    (show 0 < bbf.ts.buff.cells.length by rw [bbf.ts.buff.size]; omega)
  obtain ⟨k, hk⟩ : ∃ k, bbf.ts.buffIdx.toNat = k + 1 := ⟨bbf.ts.buffIdx.toNat - 1, by omega⟩
  rw [hk, hcs, List.take_succ_cons, withSync, List.cons.injEq] at heq
  refine Buff.ext ?_
  simp only [Buff.put]
  rw [hcs, List.set_cons_zero, heq.1]

/-- A stream that has begun a user packet is its own `begun`. -/
theorem Sound.begun_of_pos {own : β → Prop} {bbf : BbframesStream β} (h : Sound own bbf)
    (hidx : 0 < bbf.ts.buffIdx) : bbf.begun = bbf := by
  rw [BbframesStream.begun]
  split
  · rename_i hts
    rw [h.put_sync hts hidx, if_neg (by omega)]
  · rfl

@[simp] theorem BbframesStream.begun_feeds (bbf : BbframesStream β) :
    bbf.begun.feeds = bbf.feeds := by
  rw [begun]
  split <;> rfl

@[simp] theorem BbframesStream.begun_hemMode (bbf : BbframesStream β) :
    bbf.begun.hemMode = bbf.hemMode := by
  rw [begun]
  split <;> rfl

@[simp] theorem BbframesStream.begun_inStep (bbf : BbframesStream β) :
    bbf.begun.ts.synced = bbf.ts.synced := by
  rw [begun]
  split <;> rfl

@[simp] theorem BbframesStream.begun_begun (bbf : BbframesStream β) : bbf.begun.begun = bbf.begun := by
  rcases Bool.eq_false_or_eq_true bbf.ts.synced with hts | hts
  · rcases Bool.eq_false_or_eq_true bbf.hemMode with hhem | hhem
    · by_cases h0 : bbf.ts.buffIdx = 0
      · simp [begun, hts, hhem, h0]
      · simp [begun, hts, hhem, h0]
    · simp [begun, hts, hhem]
  · simp [begun, hts]

theorem Sound.begun {own : β → Prop} {bbf : BbframesStream β} (h : Sound own bbf)
    (hsync : bbf.synced = true) (hidle : Idle bbf) : Sound own bbf.begun := by
  by_cases hpos : 0 < bbf.ts.buffIdx
  · rw [h.begun_of_pos hpos]
    exact h
  · obtain ⟨hleft, hts, hmode⟩ := hidle
    have hidx := h.idx
    have h0 : bbf.ts.buffIdx = 0 := by omega
    have hhem : bbf.hemMode = true := hmode.resolve_right hpos
    have hfits := h.fits hsync
    have hbegun : bbf.begun =
        { bbf with ts := { bbf.ts with
            buff := bbf.ts.buff.put 0 (Cell.lit 0x47), buffIdx := 1 } } := by
      rw [BbframesStream.begun, if_pos hts, if_pos ⟨hhem, h0⟩]
    rw [hbegun]
    refine ⟨h.fed, h.left, Int.one_nonneg, h.fits, fun _ => ?_, fun _ _ => ⟨[], ?_, by simp⟩⟩
    · exact Int.lt_of_lt_of_le (show (1 : ℤ) < 188 by decide) hfits.1
    · exact Buff.take_put_zero _ _ (by decide)

/-- An idle stream ignores what it is given. -/
theorem bbfOutputTsBytes_idle {own : β → Prop} {packet : Packet β} {bbf : BbframesStream β}
    {p num : ℤ} (h : Sound own bbf) (hsync : bbf.synced = true) (hidle : Idle bbf)
    (hnum : 0 < num) : bbfOutputTsBytes packet bbf p num = .ptr bbf.begun (p + num) := by
  obtain ⟨hleft, hts, hmode⟩ := hidle
  have hfits := h.fits hsync
  have hin := h.inside hts
  have hidx := h.idx
  have hupl := hfits.1
  have hbegun : 0 < bbf.begun.ts.buffIdx ∧ bbf.begun.ts.buffIdx < bbf.begun.upl := by
    rw [BbframesStream.begun, if_pos hts]
    simp only
    split
    · omega
    · rcases hmode with hmode | hmode
      · simp only [hmode, true_and] at *
        omega
      · omega
  have hopen : openUserPacket packet ⟨bbf, p, num⟩ = .ok ⟨bbf.begun, p, num⟩ := by
    by_cases hpos : 0 < bbf.ts.buffIdx
    · rw [openUserPacket, if_neg (by simp only; omega), h.begun_of_pos hpos]
    · have h0 : bbf.ts.buffIdx = 0 := by omega
      have hhem : bbf.hemMode = true := hmode.resolve_right hpos
      rw [openUserPacket, if_pos h0, if_pos hhem, BbframesStream.begun, if_pos hts,
        if_pos ⟨hhem, h0⟩]
  have hbleft : bbf.begun.bbfPayloadBytesLeft = 0 := by
    rw [BbframesStream.begun, if_pos hts]
    exact hleft
  obtain ⟨n, hn⟩ : ∃ n, n = min (bbf.begun.upl - bbf.begun.ts.buffIdx) num := ⟨_, rfl⟩
  have hout : min bbf.begun.bbfPayloadBytesLeft n = 0 := by omega
  have hset : bbf.begun.setIdx (bbf.begun.ts.buffIdx + 0) = bbf.begun := by
    rw [Int.add_zero]
    rfl
  have hkeep : deliverIfComplete bbf.begun = bbf.begun := by
    rw [deliverIfComplete, if_neg (by omega)]
  have hbody : bbfBody packet ⟨bbf, p, num⟩ = .exit (.ptr bbf.begun (p + num)) := by
    rw [bbfBody, if_pos ⟨hnum, Int.le_of_lt hin⟩, hopen]
    simp only [← hn, hout]
    rw [if_neg (by omega), storeUserBytes_zero]
    simp only
    rw [closeUserPacket_eq _ n 0 (by simp only; omega)]
    simp only [hset, hkeep]
    rw [if_pos hbleft]
  rw [bbfOutputTsBytes, if_pos hts, bbfLoop, bbfPasses, run_exit hbody, Option.getD_some]

/-- Whether the next user packet is begun already makes no difference to a call. -/
theorem bbfOutputTsBytes_begun {own : β → Prop} {packet : Packet β} {bbf : BbframesStream β}
    {p num : ℤ} (h : Sound own bbf) (hsync : bbf.synced = true) (hnum : 0 < num)
    (hcrc : bbf.ts.synced = true → ¬ CrcFails packet ⟨bbf, p, num⟩) :
    bbfOutputTsBytes packet bbf.begun p num = bbfOutputTsBytes packet bbf p num := by
  rcases Bool.eq_false_or_eq_true bbf.ts.synced with hts | hts
  · by_cases hpos : 0 < bbf.ts.buffIdx
    · rw [h.begun_of_pos hpos]
    · have hidx := h.idx
      have h0 : bbf.ts.buffIdx = 0 := by omega
      have hfits := (h.fits hsync).1
      have hbts : bbf.begun.ts.synced = true := by
        rw [BbframesStream.begun, if_pos hts]
        exact hts
      have hbody : bbfBody packet ⟨bbf.begun, p, num⟩ = bbfBody packet ⟨bbf, p, num⟩ := by
        have hopen : openUserPacket packet ⟨bbf.begun, p, num⟩ =
            openUserPacket packet ⟨bbf, p, num⟩ := by
          rcases Bool.eq_false_or_eq_true bbf.hemMode with hhem | hhem
          · simp [openUserPacket, BbframesStream.begun, hts, h0, hhem]
          · have hno : ¬ (bbf.bbfCrc8 ≠ (packet.byte p).toNat ∧ 0 ≤ bbf.bbfCrc8) :=
              fun hand => hcrc hts ⟨hnum, h0, hhem, hand⟩
            simp only [openUserPacket, BbframesStream.begun, hts, h0, hhem, if_true,
              Bool.false_eq_true, false_and, if_false, Buff.put_put]
            rw [if_neg hno, if_neg hno]
        have hle : bbf.begun.ts.buffIdx ≤ bbf.begun.upl := by
          simp only [BbframesStream.begun, hts, if_true]
          split <;> omega
        rw [bbfBody, bbfBody, hopen, if_pos ⟨hnum, hle⟩, if_pos ⟨hnum, by simp only; omega⟩]
      have hpasses : bbfPasses (⟨bbf.begun, p, num⟩ : BbfPos β) = bbfPasses ⟨bbf, p, num⟩ := by
        rw [BbframesStream.begun, if_pos hts]
        rfl
      rw [bbfOutputTsBytes, bbfOutputTsBytes, if_pos hts, if_pos hbts, bbfLoop, bbfLoop, hpasses,
        bbfPasses, run, run, hbody]
  · rw [BbframesStream.begun, hts]
    rfl

end Demux

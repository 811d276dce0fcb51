import NeumoDrivers.Lib.Records
import NeumoDrivers.Demux.Bbframes

/-! User packets in high-efficiency mode.

    There a data field is a run of user packets of 187 bytes, the sync bytes being left out, and
    nothing marks where one begins: the first BBFRAME says how many bytes to skip (SYNCD), from
    there on the decoder counts. `Align` is what it has to remember between two calls, `feed` what
    a piece of data makes of it, and `Aligned` relates it to the fields of a stream.
    `bbfOutputTsBytes_aligned` is the refinement: a call takes in the data bytes of its piece as
    `feed` does, ignores the padding behind them and reads all the bytes it is given. -/

namespace Demux
open Loop

variable {β : Type} [Cell β]

/-- Bytes of a user packet that are sent in high-efficiency mode. -/
def hemPacketLen : ℕ := 187

/-- The alignment on user packets: so many bytes to go to the first one, or the bytes collected of
    the current one. -/
inductive Align (β : Type) where
  | skip (todo : ℕ)
  | run (pend : List β)

/-- Take in a piece of data: the user packets it completes, and the alignment behind it. -/
def Align.feed : Align β → List β → List (List β) × Align β
  | .skip todo, u =>
    if u.length < todo then ([], .skip (todo - u.length))
    else
      let r := Records.feed hemPacketLen [] (u.drop todo)
      (r.1, .run r.2)
  | .run pend, u =>
    let r := Records.feed hemPacketLen pend u
    (r.1, .run r.2)

/-- A user packet as the feeds get it, with its sync byte. -/
def withSync (up : List β) : List β := Cell.lit 0x47 :: up

omit [Cell β] in
theorem Align.feed_append (a : Align β) (u v : List β) :
    a.feed (u ++ v) = ((a.feed u).1 ++ ((a.feed u).2.feed v).1, ((a.feed u).2.feed v).2) := by
  cases a with
  | run pend => simp only [Align.feed, Records.feed_append]
  | skip todo =>
    rcases Nat.lt_or_ge u.length todo with hu | hu
    · have hd : (u ++ v).drop todo = v.drop (todo - u.length) := by
        rw [List.drop_append, List.drop_of_length_le (by omega), List.nil_append]
      simp only [Align.feed, List.length_append, if_pos hu, hd]
      rcases Nat.lt_or_ge (u.length + v.length) todo with hv | hv
      · rw [if_pos hv, if_pos (by omega), Nat.sub_sub, List.nil_append]
      · rw [if_neg (by omega), if_neg (by omega), List.nil_append]
    · have hd : (u ++ v).drop todo = u.drop todo ++ v := by
        rw [List.drop_append_of_le_length hu]
      have hl : ¬ (u ++ v).length < todo := by rw [List.length_append]; omega
      simp only [Align.feed, if_neg hl, if_neg (Nat.not_lt.mpr hu), hd, Records.feed_append]

omit [Cell β] in
theorem Align.feed_nil (a : Align β) : (a.feed []).1 = [] := by
  cases a with
  | run pend => rfl
  | skip todo =>
    rw [Align.feed]
    split
    · rfl
    · rw [List.drop_nil]; rfl

/-- The buffer behind the sync byte holds `pend`, or nothing has been begun. -/
def TsStream.Collects (ts : TsStream β) (pend : List β) : Prop :=
  (ts.buffIdx = 0 ∧ pend = []) ∨
    (ts.buffIdx = pend.length + 1 ∧ ts.buff.cells.take (pend.length + 1) = withSync pend)

/-- The fields of a stream in high-efficiency mode say that its alignment is `a`. -/
def Aligned (bbf : BbframesStream β) (a : Align β) : Prop :=
  bbf.hemMode = true ∧ bbf.upl = 188 ∧
    match a with
    | .skip todo =>
      bbf.ts.synced = false ∧ 0 ≤ bbf.ts.buffIdx ∧ bbf.ts.buffIdx + todo = bbf.syncd
    | .run pend => bbf.ts.synced = true ∧ pend.length < hemPacketLen ∧ bbf.ts.Collects pend

/-- What a call leaves: other than these fields nothing changes. -/
def BbframesStream.took (bbf : BbframesStream β) (ts : TsStream β) (ups : List (List β))
    (left : ℤ) : BbframesStream β :=
  { bbf with ts := ts, feeds := bbf.feeds ++ ups.map withSync, bbfPayloadBytesLeft := left }

/-! ### One pass of the loop -/

/-- Beginning a packet in high-efficiency mode only writes the sync byte. -/
theorem openUserPacket_hem (packet : Packet β) (s : BbfPos β) (pend : List β)
    (hhem : s.bbf.hemMode = true) (hc : s.bbf.ts.Collects pend) :
    ∃ ts, openUserPacket packet s = .ok { s with bbf := { s.bbf with ts := ts } } ∧
      ts.synced = s.bbf.ts.synced ∧ ts.buffIdx = pend.length + 1 ∧
      ts.buff.cells.take (pend.length + 1) = withSync pend := by
  rcases hc with ⟨h0, rfl⟩ | ⟨hidx, htake⟩
  · refine ⟨{ s.bbf.ts with buff := s.bbf.ts.buff.put 0 (Cell.lit 0x47), buffIdx := 1 }, ?_, rfl,
      rfl, ?_⟩
    · rw [openUserPacket, if_pos h0, if_pos hhem]
    · exact Buff.take_put_zero _ _ (by decide)
  · refine ⟨s.bbf.ts, ?_, rfl, hidx, htake⟩
    rw [openUserPacket, if_neg (by omega)]

/-- What fits behind the cells in the buffer extends them. -/
theorem storeUserBytes_append (packet : Packet β) (bbf : BbframesStream β) (p out : ℤ)
    (held : List β) (hout : 0 < out) (hidx : 0 ≤ bbf.ts.buffIdx) (hfit : bbf.ts.buffIdx + out < 200)
    (hheld : bbf.ts.buff.cells.take bbf.ts.buffIdx.toNat = held) :
    ∃ buff, storeUserBytes packet bbf p out =
        .ok { bbf with
              ts := { bbf.ts with buff := buff }
              bbfCrc8 :=
                if bbf.hemMode then bbf.bbfCrc8
                else extendCrc8 bbf.bbfCrc8 ((packet.read p out).map Cell.val)
              bbfPayloadBytesLeft := bbf.bbfPayloadBytesLeft - out } ∧
      buff.cells.take (bbf.ts.buffIdx + out).toNat = held ++ packet.read p out := by
  have hlen : (packet.read p out).length = out.toNat := packet.length_read p out
  obtain ⟨buff, hcpy, hbuff⟩ :=
    bbf.ts.buff.memcpy_append hidx _ (packet.read p out) hheld (by rw [hlen]; omega)
  have hmin : min out (200 - bbf.ts.buffIdx) = out := by omega
  refine ⟨buff, ?_, ?_⟩
  · rw [storeUserBytes]
    simp only [if_pos hout]
    rw [if_neg (by omega), if_neg (by omega), hmin, hcpy]
  · rw [Int.toNat_add hidx (Int.le_of_lt hout), ← hlen]
    exact hbuff

theorem storeUserBytes_zero (packet : Packet β) (bbf : BbframesStream β) (p : ℤ) :
    storeUserBytes packet bbf p 0 = .ok bbf := by
  rw [storeUserBytes]
  rfl

/-- A pass that has begun a user packet and has cells to take. -/
theorem bbfBody_store {packet : Packet β} {s u : BbfPos β} {n out : ℤ} (hnum : 0 < s.num)
    (hidx : s.bbf.ts.buffIdx ≤ s.bbf.upl) (hopen : openUserPacket packet s = .ok u)
    (hn : min (u.bbf.upl - u.bbf.ts.buffIdx) u.num = n) (hn0 : n ≠ 0)
    (hout : out = min u.bbf.bbfPayloadBytesLeft n) :
    bbfBody packet s =
      match storeUserBytes packet u.bbf u.p out with
      | .error r => .exit r
      | .ok bbf => closeUserPacket { u with bbf := bbf } n out := by
  rw [bbfBody, if_pos ⟨hnum, hidx⟩, hopen]
  simp only [hn, ← hout]
  exact if_neg hn0

/-- A finished packet of 188 cells goes to the feeds. -/
theorem deliver_withSync (bbf : BbframesStream β) (up : List β)
    (htake : bbf.ts.buff.cells.take 188 = withSync up) :
    deliver bbf = { bbf.setIdx 0 with feeds := bbf.feeds ++ [withSync up] } := by
  rw [deliver, htake]
  rfl

omit [Cell β] in
/-- While no more than a packet is in the buffer, closing moves on and hands over. -/
theorem closeUserPacket_eq (s : BbfPos β) (n out : ℤ) (h : s.bbf.ts.buffIdx + out ≤ s.bbf.upl) :
    closeUserPacket s n out =
      if (deliverIfComplete (s.bbf.setIdx (s.bbf.ts.buffIdx + out))).bbfPayloadBytesLeft = 0 then
        .exit (.ptr (deliverIfComplete (s.bbf.setIdx (s.bbf.ts.buffIdx + out))) (s.p + s.num))
      else
        .again ⟨deliverIfComplete (s.bbf.setIdx (s.bbf.ts.buffIdx + out)), s.p + n, s.num - n⟩ := by
  have hmin : min (s.bbf.ts.buffIdx + out) s.bbf.upl = s.bbf.ts.buffIdx + out := Int.min_eq_left h
  have hp : s.p + n + (s.num - n) = s.p + s.num := by omega
  have hno : ¬ ((s.bbf.setIdx (s.bbf.ts.buffIdx + out)).upl < s.bbf.ts.buffIdx + out ∧
      ((s.bbf.setIdx (s.bbf.ts.buffIdx + out)).upl < 0 ∨
        200 ≤ (s.bbf.setIdx (s.bbf.ts.buffIdx + out)).upl)) :=
    fun hand => absurd hand.1 (Int.not_lt.mpr h)
  simp only [closeUserPacket, hmin, if_neg hno, hp]

/-- Once `bytes` of the piece are copied behind `pend`, closing leaves what `Records.feed` says. -/
theorem closeUserPacket_hem (s : BbfPos β) (n out : ℤ) (pend bytes : List β)
    (hupl : s.bbf.upl = 188) (hout : (bytes.length : ℤ) = out)
    (hidx : s.bbf.ts.buffIdx = pend.length + 1)
    (htake : s.bbf.ts.buff.cells.take (pend.length + 1 + out.toNat) = withSync (pend ++ bytes))
    (hpend : pend.length < hemPacketLen) (hfit : pend.length + bytes.length ≤ hemPacketLen) :
    ∃ ts, ts.synced = s.bbf.ts.synced ∧ ts.Collects (Records.feed hemPacketLen pend bytes).2 ∧
      let bbf := s.bbf.took ts (Records.feed hemPacketLen pend bytes).1 s.bbf.bbfPayloadBytesLeft
      closeUserPacket s n out =
        if s.bbf.bbfPayloadBytesLeft = 0 then .exit (.ptr bbf (s.p + s.num))
        else .again ⟨bbf, s.p + n, s.num - n⟩ := by
  simp only [hemPacketLen] at hpend hfit
  rw [closeUserPacket_eq s n out (by omega)]
  rcases Nat.lt_or_ge (pend.length + bytes.length) 187 with hlt | hge
  · have hf : Records.feed hemPacketLen pend bytes = ([], pend ++ bytes) :=
      Records.feed_short _ _ _ hlt
    have hkeep : deliverIfComplete (s.bbf.setIdx (s.bbf.ts.buffIdx + out)) =
        s.bbf.setIdx (s.bbf.ts.buffIdx + out) := by
      rw [deliverIfComplete, if_neg]
      simp only [BbframesStream.setIdx]
      omega
    refine ⟨{ s.bbf.ts with buffIdx := s.bbf.ts.buffIdx + out }, rfl, Or.inr ⟨?_, ?_⟩, ?_⟩
    · rw [hf, List.length_append]; push_cast; rw [hidx]; omega
    · rw [hf, List.length_append]
      rw [show pend.length + bytes.length + 1 = pend.length + 1 + out.toNat by omega]
      exact htake
    · rw [hkeep, hf]
      simp only [BbframesStream.took, BbframesStream.setIdx, List.map_nil, List.append_nil]
      rfl
  · have hb : bytes ≠ [] := by rintro rfl; simp at hge; omega
    have hf : Records.feed hemPacketLen pend bytes = ([pend ++ bytes], []) :=
      Records.feed_full _ _ _ hb (show pend.length + bytes.length = 187 by omega)
    rw [show pend.length + 1 + out.toNat = 188 by omega] at htake
    have hdeliver : deliverIfComplete (s.bbf.setIdx (s.bbf.ts.buffIdx + out)) =
        { s.bbf.setIdx 0 with feeds := s.bbf.feeds ++ [withSync (pend ++ bytes)] } := by
      rw [deliverIfComplete, if_pos,
        deliver_withSync (s.bbf.setIdx (s.bbf.ts.buffIdx + out)) (pend ++ bytes) htake]
      · rfl
      · simp only [BbframesStream.setIdx]
        omega
    refine ⟨{ s.bbf.ts with buffIdx := 0 }, rfl, Or.inl ⟨rfl, by rw [hf]⟩, ?_⟩
    rw [hdeliver, hf]
    rfl

/-- One pass in high-efficiency mode takes in the next data bytes up to the end of the user packet;
    it is the last pass when the data field ends there. -/
theorem bbfBody_hem (packet : Packet β) (s : BbfPos β) (pend : List β)
    (hhem : s.bbf.hemMode = true) (hupl : s.bbf.upl = 188) (hc : s.bbf.ts.Collects pend)
    (hpend : pend.length < hemPacketLen) (hnum : 0 < s.num) (hleft : 0 ≤ s.bbf.bbfPayloadBytesLeft)
    {n out : ℤ} (hn : n = min ((hemPacketLen : ℤ) - pend.length) s.num)
    (hout : out = min s.bbf.bbfPayloadBytesLeft n) :
    ∃ ts, ts.synced = s.bbf.ts.synced ∧
      ts.Collects (Records.feed hemPacketLen pend (packet.read s.p out)).2 ∧
      let bbf := s.bbf.took ts (Records.feed hemPacketLen pend (packet.read s.p out)).1
        (s.bbf.bbfPayloadBytesLeft - out)
      bbfBody packet s =
        if s.bbf.bbfPayloadBytesLeft - out = 0 then .exit (.ptr bbf (s.p + s.num))
        else .again ⟨bbf, s.p + n, s.num - n⟩ := by
  have hidx : s.bbf.ts.buffIdx ≤ s.bbf.upl := by
    simp only [hemPacketLen] at hpend
    rcases hc with ⟨h, -⟩ | ⟨h, -⟩ <;> omega
  obtain ⟨ts, hopen, hsync, htsidx, htake⟩ := openUserPacket_hem packet s pend hhem hc
  have hn' : min (s.bbf.upl - ts.buffIdx) s.num = n := by
    simp only [hemPacketLen] at hn
    omega
  simp only [hemPacketLen] at hpend hn
  have hread : ((packet.read s.p out).length : ℤ) = out := by
    rw [packet.length_read]; omega
  have hbody := bbfBody_store hnum hidx hopen hn' (by omega) hout
  by_cases hpos : out ≤ 0
  · -- padding: nothing is copied
    obtain rfl : out = 0 := by omega
    obtain ⟨ts', hs', hc', hclose⟩ :=
      closeUserPacket_hem ⟨{ s.bbf with ts := ts }, s.p, s.num⟩ n 0 pend
        (packet.read s.p 0) hupl hread htsidx (by simpa [Packet.read_zero] using htake)
        hpend (by simp only [Packet.read_zero, List.length_nil, hemPacketLen]; omega)
    refine ⟨ts', hs'.trans hsync, hc', ?_⟩
    rw [hbody, storeUserBytes_zero]
    simp only [Int.sub_zero]
    exact hclose
  · obtain ⟨buff, hstore, hbuff⟩ :=
      storeUserBytes_append packet { s.bbf with ts := ts } s.p out (withSync pend) (by omega)
        (by simp only; omega) (by simp only; omega) (by simp only [htsidx]; exact htake)
    simp only [if_pos hhem] at hstore
    obtain ⟨ts', hs', hc', hclose⟩ :=
      closeUserPacket_hem
        ⟨{ s.bbf with
            ts := { ts with buff := buff }
            bbfPayloadBytesLeft := s.bbf.bbfPayloadBytesLeft - out }, s.p, s.num⟩ n out pend
        (packet.read s.p out) hupl hread htsidx
        (by rw [show pend.length + 1 + out.toNat = (ts.buffIdx + out).toNat by omega]; exact hbuff) hpend
        (by simp only [hemPacketLen]; omega)
    refine ⟨ts', hs'.trans hsync, hc', ?_⟩
    rw [hbody]
    simp only [hstore]
    exact hclose

/-! ### The loop and the call -/

theorem BbframesStream.took_nil (bbf : BbframesStream β) :
    bbf.took bbf.ts [] bbf.bbfPayloadBytesLeft = bbf := by
  simp [BbframesStream.took]

theorem BbframesStream.took_took (bbf : BbframesStream β) (ts ts' : TsStream β)
    (ups ups' : List (List β)) (left left' : ℤ) :
    (bbf.took ts ups left).took ts' ups' left' = bbf.took ts' (ups ++ ups') left' := by
  simp only [BbframesStream.took, List.map_append, List.append_assoc]

theorem bbfLoop_none (packet : Packet β) (s : BbfPos β) (h : s.num ≤ 0) :
    bbfLoop packet s = .ptr s.bbf s.p := by
  have hbody : bbfBody packet s = .exit (.ptr s.bbf s.p) := by rw [bbfBody, if_neg (by omega)]
  rw [bbfLoop, bbfPasses, run_exit hbody, Option.getD_some]

/-- From inside the run of user packets on, the loop takes in the data bytes as `Records.feed` does
    and reads the piece to its end. -/
theorem run_bbfBody_hem (packet : Packet β) (k : ℕ) (s : BbfPos β) (pend : List β)
    (hhem : s.bbf.hemMode = true) (hupl : s.bbf.upl = 188) (hc : s.bbf.ts.Collects pend)
    (hpend : pend.length < hemPacketLen) (hp : 0 ≤ s.p) (hnum : 0 ≤ s.num)
    (hleft : 0 ≤ s.bbf.bbfPayloadBytesLeft) (hk : s.num.toNat < k) {d : ℤ}
    (hd : d = min s.bbf.bbfPayloadBytesLeft s.num) :
    ∃ ts, ts.synced = s.bbf.ts.synced ∧
      ts.Collects (Records.feed hemPacketLen pend (packet.read s.p d)).2 ∧
      run (bbfBody packet) k s =
        some (.ptr (s.bbf.took ts (Records.feed hemPacketLen pend (packet.read s.p d)).1
          (s.bbf.bbfPayloadBytesLeft - d)) (s.p + s.num)) := by
  induction k generalizing s pend d with
  | zero => omega
  | succ k ih =>
    by_cases h0 : s.num = 0
    · have hd0 : d = 0 := by omega
      have hbody : bbfBody packet s = .exit (.ptr s.bbf s.p) := by
        rw [bbfBody, if_neg (by omega)]
      refine ⟨s.bbf.ts, rfl, ?_, ?_⟩
      · rw [hd0, Packet.read_zero, Records.feed_nil]; exact hc
      · rw [run_exit hbody, hd0, Packet.read_zero, Records.feed_nil, h0, Int.sub_zero, Int.add_zero,
          BbframesStream.took_nil]
    · obtain ⟨n, hn⟩ : ∃ n, n = min ((hemPacketLen : ℤ) - pend.length) s.num := ⟨_, rfl⟩
      obtain ⟨out, hout⟩ : ∃ out, out = min s.bbf.bbfPayloadBytesLeft n := ⟨_, rfl⟩
      obtain ⟨ts, hs, hcol, hbody⟩ :=
        bbfBody_hem packet s pend hhem hupl hc hpend (by omega) hleft hn hout
      by_cases hlast : s.bbf.bbfPayloadBytesLeft - out = 0
      · have hdo : d = out := by omega
        subst hdo
        simp only [if_pos hlast] at hbody
        exact ⟨ts, hs, hcol, run_exit hbody k⟩
      · -- the packet was completed within the data field, so all `n` bytes were data
        have hno : out = n := by omega
        subst hno
        have hpend' := Records.feed_pend_lt hemPacketLen pend (packet.read s.p out) hpend
        simp only [if_neg hlast] at hbody
        obtain ⟨ts', hs', hcol', hrun⟩ :=
          ih ⟨s.bbf.took ts (Records.feed hemPacketLen pend (packet.read s.p out)).1
              (s.bbf.bbfPayloadBytesLeft - out), s.p + out, s.num - out⟩ _ hhem hupl hcol hpend'
            (by show 0 ≤ s.p + out; omega) (by show 0 ≤ s.num - out; omega)
            (by show 0 ≤ s.bbf.bbfPayloadBytesLeft - out; omega)
            (by show (s.num - out).toNat < k; omega)
            (d := d - out)
            (by show d - out = min (s.bbf.bbfPayloadBytesLeft - out) (s.num - out); omega)
        have hread : packet.read s.p d = packet.read s.p out ++ packet.read (s.p + out) (d - out) := by
          rw [← packet.read_add hp (by omega) (by omega)]
          congr 1; omega
        refine ⟨ts', hs'.trans hs, ?_, ?_⟩
        · rw [hread, Records.feed_append]; exact hcol'
        · rw [run_again hbody, hrun, hread, Records.feed_append, BbframesStream.took_took]
          congr 2
          · congr 1
            show s.bbf.bbfPayloadBytesLeft - out - (d - out) = _
            omega
          · show s.p + out + (s.num - out) = _
            omega

theorem bbfLoop_hem (packet : Packet β) (s : BbfPos β) (pend : List β)
    (ha : Aligned s.bbf (.run pend)) (hp : 0 ≤ s.p) (hnum : 0 ≤ s.num)
    (hleft : 0 ≤ s.bbf.bbfPayloadBytesLeft) {d : ℤ} (hd : d = min s.bbf.bbfPayloadBytesLeft s.num) :
    ∃ ts, Aligned (s.bbf.took ts (Records.feed hemPacketLen pend (packet.read s.p d)).1
          (s.bbf.bbfPayloadBytesLeft - d))
        (.run (Records.feed hemPacketLen pend (packet.read s.p d)).2) ∧
      bbfLoop packet s =
        .ptr (s.bbf.took ts (Records.feed hemPacketLen pend (packet.read s.p d)).1
          (s.bbf.bbfPayloadBytesLeft - d)) (s.p + s.num) := by
  obtain ⟨hhem, hupl, hs, hpend, hc⟩ := ha
  obtain ⟨ts, hs', hc', hrun⟩ := run_bbfBody_hem packet (bbfPasses s) s pend hhem hupl hc hpend hp
    hnum hleft (by simp only [bbfPasses]; omega) hd
  refine ⟨ts, ⟨hhem, hupl, hs'.trans hs, Records.feed_pend_lt _ _ _ hpend, hc'⟩, ?_⟩
  rw [bbfLoop, hrun, Option.getD_some]

/-- In high-efficiency mode a call reads its whole piece, takes in the data bytes of it as
    `Align.feed` does, and changes nothing else. -/
theorem bbfOutputTsBytes_aligned (packet : Packet β) (bbf : BbframesStream β) (p num : ℤ)
    (a : Align β) (ha : Aligned bbf a) (hp : 0 ≤ p) (hnum : 0 ≤ num)
    (hleft : 0 ≤ bbf.bbfPayloadBytesLeft)
    (hskip : ∀ todo, a = .skip todo → todo ≤ bbf.bbfPayloadBytesLeft)
    {d : ℤ} (hd : d = min bbf.bbfPayloadBytesLeft num) :
    ∃ ts,
      Aligned (bbf.took ts (a.feed (packet.read p d)).1 (bbf.bbfPayloadBytesLeft - d))
        (a.feed (packet.read p d)).2 ∧
      bbfOutputTsBytes packet bbf p num =
        .ptr (bbf.took ts (a.feed (packet.read p d)).1 (bbf.bbfPayloadBytesLeft - d)) (p + num) := by
  cases a with
  | run pend =>
    obtain ⟨ts, ha', hloop⟩ := bbfLoop_hem packet ⟨bbf, p, num⟩ pend ha hp hnum hleft hd
    refine ⟨ts, ha', ?_⟩
    rw [bbfOutputTsBytes, if_pos ha.2.2.1]
    exact hloop
  | skip todo =>
    have htodo := hskip todo rfl
    obtain ⟨hhem, hupl, hs, hidx, hsum⟩ := ha
    have hn : min (bbf.syncd - bbf.ts.buffIdx) num = min (todo : ℤ) num := by omega
    have hstart : bbfOutputTsBytes packet bbf p num =
        bbfLoop packet ⟨skipPartial bbf (min todo num), p + min (todo : ℤ) num,
          num - min (todo : ℤ) num⟩ := by
      rw [bbfOutputTsBytes, if_neg (by simp [hs])]
      simp only [hn]
      rw [if_neg (by omega), if_neg (by simp only [skipPartial]; omega)]
    rcases Int.lt_or_le num todo with hlt | hge
    · -- the first packet does not begin in this piece
      have hdn : d = num := by omega
      have hmin : min (todo : ℤ) num = num := by omega
      have hlen : (packet.read p d).length < todo := by rw [packet.length_read]; omega
      have hne : ¬ bbf.ts.buffIdx + num = bbf.syncd := by omega
      have hf : (Align.skip todo : Align β).feed (packet.read p d) =
          ([], .skip (todo - (packet.read p d).length)) := by
        rw [Align.feed, if_pos hlen]
      refine ⟨{ bbf.ts with buffIdx := bbf.ts.buffIdx + num }, ?_, ?_⟩
      · rw [hf, packet.length_read]
        refine ⟨hhem, hupl, hs, ?_, ?_⟩
        · show 0 ≤ bbf.ts.buffIdx + num
          omega
        · show bbf.ts.buffIdx + num + ((todo - d.toNat : ℕ) : ℤ) = bbf.syncd
          omega
      · rw [hstart, hf, hmin, Int.sub_self, bbfLoop_none _ _ (Int.le_refl 0)]
        simp [skipPartial, BbframesStream.took, hne, hdn]
    · -- skip to the first packet, then collect
      have hmin : min (todo : ℤ) num = todo := by omega
      have hat : bbf.ts.buffIdx + todo = bbf.syncd := hsum
      have ha' : Aligned (skipPartial bbf todo) (.run []) :=
        ⟨hhem, hupl, by simp [skipPartial, hat], by simp [hemPacketLen],
          Or.inl ⟨by simp [skipPartial, hat], rfl⟩⟩
      have hlen : ¬ (packet.read p d).length < todo := by rw [packet.length_read]; omega
      have hread : (packet.read p d).drop todo = packet.read (p + todo) (d - todo) := by
        have h := packet.read_add hp (Int.natCast_nonneg todo) (show 0 ≤ d - todo by omega)
        rw [show (todo : ℤ) + (d - todo) = d by omega] at h
        rw [h, List.drop_append_of_le_length (by simp), List.drop_of_length_le (by simp),
          List.nil_append]
      obtain ⟨ts, hts, hloop⟩ := bbfLoop_hem packet
        ⟨skipPartial bbf todo, p + todo, num - todo⟩ [] ha' (by show 0 ≤ p + todo; omega)
        (by show 0 ≤ num - todo; omega)
        (by show 0 ≤ bbf.bbfPayloadBytesLeft - todo; omega) (d := d - todo)
        (by show d - todo = min (bbf.bbfPayloadBytesLeft - todo) (num - todo); omega)
      have hl : bbf.bbfPayloadBytesLeft - todo - (d - todo) = bbf.bbfPayloadBytesLeft - d := by omega
      have hq : p + todo + (num - todo) = p + num := by omega
      refine ⟨ts, ?_, ?_⟩
      · simp only [Align.feed, if_neg hlen, hread]
        have h := hts
        simp only [skipPartial, hl] at h
        exact h
      · rw [hstart, hmin, hloop]
        simp only [Align.feed, if_neg hlen, hread, hq]
        simp only [skipPartial, BbframesStream.took, hl]

end Demux

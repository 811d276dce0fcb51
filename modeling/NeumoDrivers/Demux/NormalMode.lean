import NeumoDrivers.Demux.UserBytes

/-! User packets in either mode.

    In normal mode a user packet has 188 bytes of the data field, the first of which is not its sync
    byte but the CRC-8 of the packet before. `UserRun` is what a decoder has to remember in the run of
    user packets, `feed` what data bytes make of it: nothing, where a CRC-8 does not agree. `Takes`
    relates it to the fields of a sub-stream, and `bbfLoop_run` is the refinement for the loop of a
    call that does not begin a user packet where no data byte is left. -/

namespace Demux
open Loop

variable {β : Type} [Cell β]

/-- Where a decoder stands in the run of user packets: in high-efficiency mode with the bytes
    collected of the current one; in normal mode between two of them, the CRC-8 of the last one known
    or not, or behind the byte that stands for the sync byte. -/
inductive UserRun (β : Type) where
  | hem (pend : List β)
  | between (prev : Option UInt8)
  | within (pend : List β)

namespace UserRun

/-- Before the first user packet. -/
def start (hem : Bool) : UserRun β := if hem then .hem [] else .between none

/-- The CRC-8 of the bytes of a user packet. -/
def crc8 (up : List β) : UInt8 := computeCrc8 (up.map Cell.val)

/-- One data byte: the user packet it completes, if any. -/
def push : UserRun β → β → Option (List (List β) × UserRun β)
  | .hem pend, c =>
    some (if pend.length + 1 = hemPacketLen then ([pend ++ [c]], .hem []) else ([], .hem (pend ++ [c])))
  | .between prev, c =>
    if prev = none ∨ prev = some (Cell.val c) then some ([], .within []) else none
  | .within pend, c =>
    some (if pend.length + 1 = hemPacketLen then
        ([pend ++ [c]], .between (some (crc8 (pend ++ [c]))))
      else ([], .within (pend ++ [c])))

/-- Data bytes: the user packets they complete; `none` where a CRC-8 does not agree. -/
def feed : UserRun β → List β → Option (List (List β) × UserRun β)
  | r, [] => some ([], r)
  | r, c :: u => (r.push c).bind fun q => (q.2.feed u).map fun t => (q.1 ++ t.1, t.2)

theorem feed_nil (r : UserRun β) : r.feed [] = some ([], r) := rfl

theorem feed_append (r : UserRun β) (u v : List β) :
    r.feed (u ++ v) = (r.feed u).bind fun q => (q.2.feed v).map fun t => (q.1 ++ t.1, t.2) := by
  induction u generalizing r with
  | nil => simp [feed]
  | cons c u ih =>
    rw [List.cons_append, feed, feed]
    cases r.push c with
    | none => rfl
    | some q =>
      simp only [Option.bind_some, ih]
      cases q.2.feed u with
      | none => rfl
      | some t =>
        simp only [Option.bind_some, Option.map_some]
        cases t.2.feed v with
        | none => rfl
        | some w => simp [List.append_assoc]

/-- In high-efficiency mode no byte is wrong. -/
theorem feed_hem (pend u : List β) :
    (UserRun.hem pend).feed u =
      some ((Records.feed hemPacketLen pend u).1, .hem (Records.feed hemPacketLen pend u).2) := by
  induction u generalizing pend with
  | nil => rfl
  | cons c u ih =>
    rw [feed, push, Option.bind_some, Records.feed]
    split
    · simp [ih]
    · simp [ih]

/-- Bytes that leave the user packet unfinished. -/
theorem feed_within_short (pend u : List β) (h : pend.length + u.length < hemPacketLen) :
    (UserRun.within pend).feed u = some ([], .within (pend ++ u)) := by
  induction u generalizing pend with
  | nil => simp [feed]
  | cons c u ih =>
    simp only [List.length_cons] at h
    rw [feed, push, if_neg (by omega), Option.bind_some, ih _ (by simp; omega)]
    simp

/-- Bytes that end with the user packet. -/
theorem feed_within_full (pend u : List β) (hu : u ≠ [])
    (h : pend.length + u.length = hemPacketLen) :
    (UserRun.within pend).feed u = some ([pend ++ u], .between (some (crc8 (pend ++ u)))) := by
  obtain ⟨v, c, rfl⟩ := (List.eq_nil_or_concat u).resolve_left hu
  simp only [List.concat_eq_append, List.length_append, List.length_singleton] at h ⊢
  rw [feed_append, feed_within_short pend v (by omega)]
  simp only [Option.bind_some, feed, push, List.length_append]
  rw [if_pos (by omega)]
  simp

/-- The mode of the stream. -/
def inHem : UserRun β → Bool
  | .hem _ => true
  | _ => false

end UserRun

/-- What `bbf_crc8` says of the user packet before. -/
def crcField (prev : Option UInt8) : ℤ := prev.elim (-1) fun c => c.toNat

/-- The fields of a sub-stream in normal mode. -/
structure Normal (bbf : BbframesStream β) : Prop where
  mode : bbf.hemMode = false
  upl : bbf.upl = 188
  inStep : bbf.ts.synced = true

/-- The fields of a sub-stream say where it stands in the run of user packets. -/
def BbframesStream.Takes (bbf : BbframesStream β) : UserRun β → Prop
  | .hem pend => Aligned bbf (.run pend)
  | .between prev => Normal bbf ∧ bbf.ts.buffIdx = 0 ∧ bbf.bbfCrc8 = crcField prev
  | .within pend =>
    Normal bbf ∧ pend.length < hemPacketLen ∧ bbf.ts.buffIdx = pend.length + 1 ∧
      bbf.ts.buff.cells.take (pend.length + 1) = withSync pend ∧
      bbf.bbfCrc8 = (UserRun.crc8 pend).toNat

/-- What a call leaves of a sub-stream: so many data bytes to come, these user packets delivered. -/
structure Took (bbf bbf' : BbframesStream β) (ups : List (List β)) (d : ℤ) : Prop where
  left : bbf'.bbfPayloadBytesLeft = bbf.bbfPayloadBytesLeft - d
  feeds : bbf'.feeds = bbf.feeds ++ ups.map withSync

theorem Took.trans {a b c : BbframesStream β} {ups ups' : List (List β)} {d d' : ℤ}
    (h : Took a b ups d) (h' : Took b c ups' d') : Took a c (ups ++ ups') (d + d') := by
  refine ⟨?_, ?_⟩
  · rw [h'.left, h.left]
    omega
  · rw [h'.feeds, h.feeds, List.map_append, List.append_assoc]

/-! ### One pass in normal mode -/

theorem extendCrc8_crc8 (pend u : List β) :
    extendCrc8 (UserRun.crc8 pend).toNat (u.map Cell.val) = (UserRun.crc8 (pend ++ u)).toNat := by
  have hlt : (UserRun.crc8 pend).toNat < 256 := UInt8.toNat_lt _
  have hbyte : UInt8.ofNat (((UserRun.crc8 pend).toNat : ℤ) % 256).toNat = UserRun.crc8 pend := by
    rw [Int.emod_eq_of_lt (by omega) (by omega), Int.toNat_natCast, UInt8.ofNat_toNat]
  rw [extendCrc8, hbyte, UserRun.crc8, UserRun.crc8, computeCrc8, computeCrc8, List.map_append,
    List.foldl_append]

/-- Copying within the user packet extends it. -/
theorem storeUserBytes_within (packet : Packet β) {bbf : BbframesStream β} {pend : List β}
    (ht : bbf.Takes (.within pend)) {p out : ℤ} (hout : 0 < out)
    (hfit : pend.length + out ≤ hemPacketLen) :
    ∃ buff, storeUserBytes packet bbf p out =
        .ok { bbf with
              ts := { bbf.ts with buff := buff }
              bbfCrc8 := (UserRun.crc8 (pend ++ packet.read p out)).toNat
              bbfPayloadBytesLeft := bbf.bbfPayloadBytesLeft - out } ∧
      buff.cells.take (pend.length + 1 + out.toNat) = withSync (pend ++ packet.read p out) := by
  obtain ⟨hnormal, _, hidx, htake, hcrc⟩ := ht
  simp only [hemPacketLen] at hfit
  have hpre : bbf.ts.buff.cells.take bbf.ts.buffIdx.toNat = withSync pend := by
    rw [hidx]; exact htake
  obtain ⟨buff, hstore, hbuff⟩ :=
    storeUserBytes_append packet bbf p out (withSync pend) hout (by omega) (by omega) hpre
  refine ⟨buff, ?_, ?_⟩
  · rw [hstore]
    simp only [hnormal.mode, Bool.false_eq_true, if_false, hcrc, extendCrc8_crc8]
  · rw [show pend.length + 1 + out.toNat = (bbf.ts.buffIdx + out).toNat by omega]
    exact hbuff

/-- With `bytes` behind `pend` in the buffer, closing leaves what `feed` says of them. -/
theorem closeUserPacket_within (s : BbfPos β) (n : ℤ) (pend bytes : List β)
    (hnormal : Normal s.bbf) (hpend : pend.length < hemPacketLen)
    (hidx : s.bbf.ts.buffIdx = pend.length + 1)
    (htake : s.bbf.ts.buff.cells.take (pend.length + 1 + bytes.length) = withSync (pend ++ bytes))
    (hcrc : s.bbf.bbfCrc8 = (UserRun.crc8 (pend ++ bytes)).toNat)
    (hfit : pend.length + bytes.length ≤ hemPacketLen) :
    ∃ b ups r, (UserRun.within pend).feed bytes = some (ups, r) ∧ b.Takes r ∧ r.inHem = false ∧
      Took s.bbf b ups 0 ∧
      closeUserPacket s n bytes.length =
        if s.bbf.bbfPayloadBytesLeft = 0 then .exit (.ptr b (s.p + s.num))
        else .again ⟨b, s.p + n, s.num - n⟩ := by
  obtain ⟨hmode, hupl, hsync⟩ := hnormal
  simp only [hemPacketLen] at hpend hfit
  rw [closeUserPacket_eq s n bytes.length (by omega)]
  rcases Nat.lt_or_ge (pend.length + bytes.length) 187 with hlt | hge
  · have hkeep : deliverIfComplete (s.bbf.setIdx (s.bbf.ts.buffIdx + bytes.length)) =
        s.bbf.setIdx (s.bbf.ts.buffIdx + bytes.length) := by
      rw [deliverIfComplete, if_neg]
      simp only [BbframesStream.setIdx]
      omega
    refine ⟨s.bbf.setIdx (s.bbf.ts.buffIdx + bytes.length), [], .within (pend ++ bytes),
      UserRun.feed_within_short pend bytes hlt, ⟨⟨hmode, hupl, hsync⟩, ?_, ?_, ?_, hcrc⟩, rfl,
      ⟨?_, ?_⟩, by rw [hkeep]; rfl⟩
    · rw [List.length_append]
      exact hlt
    · rw [List.length_append]
      simp only [BbframesStream.setIdx]
      omega
    · rw [List.length_append, show pend.length + bytes.length + 1 =
        pend.length + 1 + bytes.length by omega]
      exact htake
    · rw [Int.sub_zero]
      rfl
    · simp [BbframesStream.setIdx]
  · have hne : bytes ≠ [] := by
      rintro rfl
      simp only [List.length_nil] at hge
      omega
    have hdeliver : deliverIfComplete (s.bbf.setIdx (s.bbf.ts.buffIdx + bytes.length)) =
        { s.bbf.setIdx 0 with feeds := s.bbf.feeds ++ [withSync (pend ++ bytes)] } := by
      rw [show pend.length + 1 + bytes.length = 188 by omega] at htake
      rw [deliverIfComplete, if_pos,
        deliver_withSync (s.bbf.setIdx (s.bbf.ts.buffIdx + bytes.length)) (pend ++ bytes) htake]
      · rfl
      · simp only [BbframesStream.setIdx]
        omega
    refine ⟨{ s.bbf.setIdx 0 with feeds := s.bbf.feeds ++ [withSync (pend ++ bytes)] },
      [pend ++ bytes], .between (some (UserRun.crc8 (pend ++ bytes))),
      UserRun.feed_within_full pend bytes hne (by simp only [hemPacketLen]; omega),
      ⟨⟨hmode, hupl, hsync⟩, rfl, hcrc⟩, rfl, ⟨?_, rfl⟩, by rw [hdeliver]; rfl⟩
    rw [Int.sub_zero]
    rfl

/-- A pass within a user packet takes in data bytes up to its end; it is the last pass when the data
    field ends there. -/
theorem bbfBody_within (packet : Packet β) {s : BbfPos β} {pend : List β}
    (ht : s.bbf.Takes (.within pend)) (hnum : 0 < s.num) (hleft : 0 ≤ s.bbf.bbfPayloadBytesLeft)
    {n out : ℤ} (hn : n = min ((hemPacketLen : ℤ) - pend.length) s.num)
    (hout : out = min s.bbf.bbfPayloadBytesLeft n) :
    ∃ b ups r, (UserRun.within pend).feed (packet.read s.p out) = some (ups, r) ∧ b.Takes r ∧
      r.inHem = false ∧ Took s.bbf b ups out ∧
      bbfBody packet s =
        if s.bbf.bbfPayloadBytesLeft - out = 0 then .exit (.ptr b (s.p + s.num))
        else .again ⟨b, s.p + n, s.num - n⟩ := by
  obtain ⟨hnormal, hpend, hidx, htake, hcrc⟩ := ht
  have hupl := hnormal.upl
  simp only [hemPacketLen] at hpend hn
  have hopen : openUserPacket packet s = .ok s := by rw [openUserPacket, if_neg (by omega)]
  have hn' : min (s.bbf.upl - s.bbf.ts.buffIdx) s.num = n := by omega
  have hlen : (packet.read s.p out).length = out.toNat := packet.length_read s.p out
  have hbody := bbfBody_store hnum (by omega) hopen hn' (by omega) hout
  by_cases hpos : 0 < out
  · obtain ⟨buff, hstore, hbuff⟩ := storeUserBytes_within packet
      (show s.bbf.Takes (.within pend) from ⟨hnormal, hpend, hidx, htake, hcrc⟩) (p := s.p) hpos
      (by simp only [hemPacketLen]; omega)
    obtain ⟨b, ups, r, hfeed, hb, hr, htook, hclose⟩ := closeUserPacket_within
      ⟨{ s.bbf with
          ts := { s.bbf.ts with buff := buff }
          bbfCrc8 := (UserRun.crc8 (pend ++ packet.read s.p out)).toNat
          bbfPayloadBytesLeft := s.bbf.bbfPayloadBytesLeft - out }, s.p, s.num⟩ n pend
      (packet.read s.p out) ⟨hnormal.mode, hupl, hnormal.inStep⟩ hpend hidx
      (by rw [hlen]; exact hbuff) rfl (by rw [hlen]; simp only [hemPacketLen]; omega)
    refine ⟨b, ups, r, hfeed, hb, hr, ⟨?_, htook.feeds⟩, ?_⟩
    · rw [htook.left, Int.sub_zero]
    · rw [hlen, Int.toNat_of_nonneg (Int.le_of_lt hpos)] at hclose
      rw [hbody, hstore]
      exact hclose
  · -- padding: nothing is copied
    obtain rfl : out = 0 := by omega
    obtain ⟨b, ups, r, hfeed, hb, hr, htook, hclose⟩ := closeUserPacket_within s n pend []
      hnormal hpend hidx (by simpa using htake)
      (by simpa using hcrc) (by simp only [hemPacketLen, List.length_nil]; omega)
    rw [Packet.read_zero]
    refine ⟨b, ups, r, hfeed, hb, hr, htook, ?_⟩
    rw [hbody, storeUserBytes_zero, Int.sub_zero]
    exact hclose

/-- Beginning a user packet takes the byte that stands for its sync byte, if that is the CRC-8 of the
    one before. -/
theorem openUserPacket_between (packet : Packet β) {s : BbfPos β} {prev : Option UInt8}
    (ht : s.bbf.Takes (.between prev)) (hcrc : prev = none ∨ prev = some (packet.byte s.p)) :
    ∃ b, openUserPacket packet s = .ok ⟨b, s.p + 1, s.num - 1⟩ ∧ b.Takes (.within []) ∧
      Took s.bbf b [] 1 := by
  obtain ⟨hnormal, hidx, hfield⟩ := ht
  have hagrees : ¬ (s.bbf.bbfCrc8 ≠ (packet.byte s.p).toNat ∧ 0 ≤ s.bbf.bbfCrc8) := by
    rw [hfield]
    rcases hcrc with rfl | rfl
    · simp [crcField]
    · simp [crcField]
  refine ⟨{ s.bbf with
      ts := { s.bbf.ts with buff := s.bbf.ts.buff.put 0 (Cell.lit 0x47), buffIdx := 1 }
      bbfCrc8 := 0, bbfPayloadBytesLeft := s.bbf.bbfPayloadBytesLeft - 1 }, ?_,
    ⟨⟨hnormal.mode, hnormal.upl, hnormal.inStep⟩, (by decide : 0 < 187), rfl,
      Buff.take_put_zero _ _ (by decide), rfl⟩, rfl, by simp⟩
  rw [openUserPacket, if_pos hidx]
  simp only [hnormal.mode, Bool.false_eq_true, if_false, if_neg hagrees]

/-- What a pass in normal mode has done: it took `m` data bytes as `feed` says, and it was the last
    one or others have to follow. -/
structure Passed (packet : Packet β) (s : BbfPos β) (r : UserRun β) (m : ℤ) (b : BbframesStream β)
    (ups : List (List β)) (r' : UserRun β) : Prop where
  fed : r.feed (packet.read s.p m) = some (ups, r')
  takes : b.Takes r'
  mode : r'.inHem = false
  took : Took s.bbf b ups m
  count : 0 ≤ m
  ends : (m = min s.bbf.bbfPayloadBytesLeft s.num ∧
      bbfBody packet s = .exit (.ptr b (s.p + s.num))) ∨
    (0 < m ∧ m < s.bbf.bbfPayloadBytesLeft ∧ m ≤ s.num ∧
      bbfBody packet s = .again ⟨b, s.p + m, s.num - m⟩)

theorem passed_within (packet : Packet β) {s : BbfPos β} {pend : List β}
    (ht : s.bbf.Takes (.within pend)) (hnum : 0 < s.num) (hleft : 0 ≤ s.bbf.bbfPayloadBytesLeft) :
    ∃ m b ups r, Passed packet s (.within pend) m b ups r := by
  have hpend := ht.2.1
  obtain ⟨n, hn⟩ : ∃ n, n = min ((hemPacketLen : ℤ) - pend.length) s.num := ⟨_, rfl⟩
  obtain ⟨out, hout⟩ : ∃ out, out = min s.bbf.bbfPayloadBytesLeft n := ⟨_, rfl⟩
  obtain ⟨b, ups, r, hfeed, hb, hr, htook, hbody⟩ :=
    bbfBody_within packet ht hnum hleft hn hout
  refine ⟨out, b, ups, r, hfeed, hb, hr, htook, by omega, ?_⟩
  by_cases hlast : s.bbf.bbfPayloadBytesLeft - out = 0
  · exact Or.inl ⟨by omega, by rw [hbody, if_pos hlast]⟩
  · -- the user packet ends within the data field, so all `n` bytes are data
    obtain rfl : out = n := by omega
    exact Or.inr ⟨by omega, by omega, by omega, by rw [hbody, if_neg hlast]⟩

theorem passed_between (packet : Packet β) {s : BbfPos β} {prev : Option UInt8}
    (ht : s.bbf.Takes (.between prev)) (hp : 0 ≤ s.p) (hnum : 0 < s.num)
    (hleft : 0 < s.bbf.bbfPayloadBytesLeft)
    (hcrc : prev = none ∨ prev = some (packet.byte s.p)) :
    ∃ m b ups r, Passed packet s (.between prev) m b ups r := by
  obtain ⟨c, hopen, hc, htook⟩ := openUserPacket_between packet ht hcrc
  have hleft' := htook.left
  have hidx : s.bbf.ts.buffIdx = 0 := ht.2.1
  have hupl : s.bbf.upl = 188 := ht.1.upl
  have hcupl : c.upl = 188 := hc.1.upl
  have hcidx : c.ts.buffIdx = 1 := hc.2.2.1
  have hone : (UserRun.between prev).feed (packet.read s.p 1) = some ([], .within []) := by
    have hread : packet.read s.p 1 = [packet s.p.toNat] := rfl
    rw [hread, UserRun.feed, UserRun.push]
    simp only [Packet.byte] at hcrc
    rw [if_pos hcrc]
    rfl
  by_cases hend : s.num = 1
  · refine ⟨1, c, [], .within [], hone, hc, rfl, htook, by decide, Or.inl ⟨by omega, ?_⟩⟩
    rw [bbfBody, if_pos ⟨hnum, by omega⟩, hopen]
    simp only [hcupl, hcidx, hend]
    rfl
  · -- the rest of the pass is that of a position within the user packet
    obtain ⟨m, b, ups, r, h⟩ := passed_within packet (s := ⟨c, s.p + 1, s.num - 1⟩) hc
      (by simp only; omega) (by simp only; omega)
    have hbody : bbfBody packet s = bbfBody packet ⟨c, s.p + 1, s.num - 1⟩ := by
      have hopen' : openUserPacket packet ⟨c, s.p + 1, s.num - 1⟩ =
          .ok ⟨c, s.p + 1, s.num - 1⟩ := by
        rw [openUserPacket, if_neg (by simp only; omega)]
      rw [bbfBody, bbfBody, if_pos ⟨hnum, by omega⟩, if_pos ⟨by simp only; omega, by simp only; omega⟩,
        hopen, hopen']
    have hcount := h.count
    have hread := packet.read_add hp (show (0 : ℤ) ≤ 1 by decide) hcount
    have hfed := h.fed
    have hends := h.ends
    simp only at hfed hends
    refine ⟨1 + m, b, ups, r, ?_, h.takes, h.mode, ?_, by omega, ?_⟩
    · rw [hread, UserRun.feed_append, hone, Option.bind_some, hfed]
      rfl
    · exact htook.trans h.took
    · rcases hends with ⟨hm, hexit⟩ | ⟨hpos, hlt, hle, hagain⟩
      · refine Or.inl ⟨by omega, ?_⟩
        rw [hbody, hexit]
        congr 2
        omega
      · refine Or.inr ⟨by omega, by omega, by omega, ?_⟩
        rw [hbody, hagain]
        congr 2 <;> omega

/-! ### The loop and the call -/

/-- Data bytes that come in two pieces, of which the first is taken. -/
theorem UserRun.feed_rest {r r' t : UserRun β} {u v : List β} {ups ups' : List (List β)}
    (hu : r.feed u = some (ups, r')) (h : r.feed (u ++ v) = some (ups', t)) :
    ∃ more, r'.feed v = some (more, t) ∧ ups' = ups ++ more := by
  rw [feed_append, hu, Option.bind_some, Option.map_eq_some_iff] at h
  obtain ⟨⟨more, t'⟩, hmore, heq⟩ := h
  rw [Prod.mk.injEq] at heq
  obtain ⟨rfl, rfl⟩ := heq
  exact ⟨more, hmore, rfl⟩

/-- Where a user packet begins, the byte in place of its sync byte agrees. -/
theorem UserRun.feed_between {prev : Option UInt8} {c : β} {u : List β}
    {out : List (List β) × UserRun β} (h : (UserRun.between prev).feed (c :: u) = some out) :
    prev = none ∨ prev = some (Cell.val c) := by
  rw [feed, push] at h
  by_contra hno
  rw [if_neg hno, Option.bind_none] at h
  cases h

/-- The loop of a call takes in the data bytes as `feed` says and reads the piece to its end, if no
    user packet is to begin where no data byte is left. -/
theorem run_bbfBody_normal (packet : Packet β) (k : ℕ) {s : BbfPos β} {r r' : UserRun β}
    {ups : List (List β)} (ht : s.bbf.Takes r) (hmode : r.inHem = false) (hp : 0 ≤ s.p)
    (hnum : 0 ≤ s.num) (hleft : 0 ≤ s.bbf.bbfPayloadBytesLeft)
    (hslot : 0 < s.num → s.bbf.bbfPayloadBytesLeft = 0 → ∀ prev, r ≠ .between prev)
    (hk : s.num.toNat < k) {d : ℤ} (hd : d = min s.bbf.bbfPayloadBytesLeft s.num)
    (hfeed : r.feed (packet.read s.p d) = some (ups, r')) :
    ∃ b, run (bbfBody packet) k s = some (.ptr b (s.p + s.num)) ∧ b.Takes r' ∧
      Took s.bbf b ups d := by
  induction k generalizing s r ups d with
  | zero => omega
  | succ k ih =>
    by_cases h0 : s.num = 0
    · obtain rfl : d = 0 := by omega
      have hbody : bbfBody packet s = .exit (.ptr s.bbf s.p) := by
        rw [bbfBody, if_neg (by omega)]
      rw [Packet.read_zero, UserRun.feed_nil, Option.some.injEq, Prod.mk.injEq] at hfeed
      obtain ⟨rfl, rfl⟩ := hfeed
      exact ⟨s.bbf, by rw [run_exit hbody, h0, Int.add_zero], ht, by omega, by simp⟩
    · have hpass : ∃ m b ups r₁, Passed packet s r m b ups r₁ := by
        cases r with
        | hem pend => cases hmode
        | within pend => exact passed_within packet ht (by omega) hleft
        | between prev =>
          have hdue : 0 < s.bbf.bbfPayloadBytesLeft := by
            by_contra hno
            exact hslot (by omega) (by omega) prev rfl
          have hread : packet.read s.p d = packet.read s.p 1 ++ packet.read (s.p + 1) (d - 1) := by
            rw [← packet.read_add hp (by decide) (by omega)]
            congr 1
            omega
          rw [hread] at hfeed
          exact passed_between packet ht hp (by omega) hdue (UserRun.feed_between hfeed)
      obtain ⟨m, b, ups₁, r₁, h⟩ := hpass
      have hcount := h.count
      have htook := h.took
      have hleft' := htook.left
      rcases h.ends with ⟨hm, hexit⟩ | ⟨hpos, hlt, hle, hagain⟩
      · obtain rfl : m = d := by omega
        rw [h.fed, Option.some.injEq, Prod.mk.injEq] at hfeed
        obtain ⟨rfl, rfl⟩ := hfeed
        exact ⟨b, run_exit hexit k, h.takes, htook⟩
      · have hread : packet.read s.p d = packet.read s.p m ++ packet.read (s.p + m) (d - m) := by
          rw [← packet.read_add hp hcount (by omega)]
          congr 1
          omega
        rw [hread] at hfeed
        obtain ⟨more, hmore, rfl⟩ := UserRun.feed_rest h.fed hfeed
        obtain ⟨b', hrun, hb', htook'⟩ := ih (s := ⟨b, s.p + m, s.num - m⟩) h.takes h.mode
          (by simp only; omega) (by simp only; omega) (by simp only; omega)
          (fun _ hzero => by simp only at hzero; omega) (by simp only; omega)
          (d := d - m) (by simp only; omega) hmore
        refine ⟨b', ?_, hb', ?_⟩
        · rw [run_again hagain, hrun]
          congr 2
          simp only
          omega
        · have hall := htook.trans htook'
          rw [show m + (d - m) = d by omega] at hall
          exact hall

/-- No user packet of normal mode is to begin where no data byte is left. -/
def Slot (s : BbfPos β) : Prop :=
  0 < s.num → s.bbf.bbfPayloadBytesLeft = 0 → s.bbf.hemMode = true ∨ 0 < s.bbf.ts.buffIdx

/-- The loop of a call in either mode. -/
theorem bbfLoop_run (packet : Packet β) {s : BbfPos β} {r r' : UserRun β} {ups : List (List β)}
    (ht : s.bbf.Takes r) (hp : 0 ≤ s.p) (hnum : 0 ≤ s.num) (hleft : 0 ≤ s.bbf.bbfPayloadBytesLeft)
    (hslot : Slot s) {d : ℤ} (hd : d = min s.bbf.bbfPayloadBytesLeft s.num)
    (hfeed : r.feed (packet.read s.p d) = some (ups, r')) :
    ∃ b, bbfLoop packet s = .ptr b (s.p + s.num) ∧ b.Takes r' ∧ Took s.bbf b ups d := by
  cases hr : r with
  | hem pend =>
    subst hr
    obtain ⟨ts, ha, hloop⟩ := bbfLoop_hem packet s pend ht hp hnum hleft hd
    rw [UserRun.feed_hem, Option.some.injEq, Prod.mk.injEq] at hfeed
    obtain ⟨rfl, rfl⟩ := hfeed
    exact ⟨_, hloop, ha, rfl, rfl⟩
  | between prev =>
    subst hr
    have hslot' : 0 < s.num → s.bbf.bbfPayloadBytesLeft = 0 →
        ∀ p : Option UInt8, (UserRun.between prev : UserRun β) ≠ .between p := by
      intro hn h0
      rcases hslot hn h0 with hhem | hidx
      · rw [ht.1.mode] at hhem
        cases hhem
      · rw [ht.2.1] at hidx
        exact absurd hidx (Int.lt_irrefl 0)
    obtain ⟨b, hrun, hb, htook⟩ := run_bbfBody_normal packet (bbfPasses s) ht rfl hp hnum hleft
      hslot' (by simp only [bbfPasses]; omega) hd hfeed
    exact ⟨b, by rw [bbfLoop, hrun, Option.getD_some], hb, htook⟩
  | within pend =>
    subst hr
    obtain ⟨b, hrun, hb, htook⟩ := run_bbfBody_normal packet (bbfPasses s) ht rfl hp hnum hleft
      (fun _ _ _ => by rintro ⟨⟩) (by simp only [bbfPasses]; omega) hd hfeed
    exact ⟨b, by rw [bbfLoop, hrun, Option.getD_some], hb, htook⟩

/-- What a sub-stream does with the next data bytes: it has so many to skip before its first user
    packet, or stands in the run of user packets. -/
inductive Intake (β : Type) where
  | skip (hem : Bool) (todo : ℕ)
  | run (r : UserRun β)

namespace Intake

def feed : Intake β → List β → Option (List (List β) × Intake β)
  | .skip hem todo, u =>
    if u.length < todo then some ([], .skip hem (todo - u.length))
    else ((UserRun.start hem).feed (u.drop todo)).map fun q => (q.1, .run q.2)
  | .run r, u => (r.feed u).map fun q => (q.1, .run q.2)

/-- The mode of the stream. -/
def inHem : Intake β → Bool
  | .skip hem _ => hem
  | .run r => r.inHem

/-- The bytes still to be skipped, if any, are among so many. -/
def Within : Intake β → ℤ → Prop
  | .skip _ todo, left => todo ≤ left
  | .run _, _ => True

end Intake

/-- The fields of a sub-stream say what it does with the next data bytes. -/
def BbframesStream.Awaits (bbf : BbframesStream β) : Intake β → Prop
  | .skip hem todo =>
    bbf.hemMode = hem ∧ bbf.upl = 188 ∧ bbf.ts.synced = false ∧ 0 ≤ bbf.ts.buffIdx ∧
      bbf.ts.buffIdx + todo = bbf.syncd ∧ bbf.bbfCrc8 = -1
  | .run r => bbf.Takes r

/-- The bytes up to the first user packet are skipped. -/
theorem skipPartial_takes {bbf : BbframesStream β} {hem : Bool} {todo : ℕ}
    (h : bbf.Awaits (.skip hem todo)) : (skipPartial bbf todo).Takes (UserRun.start hem) := by
  obtain ⟨hmode, hupl, hsync, hidx, hsum, hcrc⟩ := h
  cases hem with
  | true =>
    exact ⟨hmode, hupl, by simp [skipPartial, hsum], (by decide : 0 < 187),
      Or.inl ⟨by simp [skipPartial, hsum], rfl⟩⟩
  | false =>
    exact ⟨⟨hmode, hupl, by simp [skipPartial, hsum]⟩, by simp [skipPartial, hsum], hcrc⟩

/-- In either mode a call reads its whole piece, and takes in the data bytes of it as `feed` says. -/
theorem bbfOutputTsBytes_intake (packet : Packet β) {bbf : BbframesStream β} {p num : ℤ}
    {a a' : Intake β} {ups : List (List β)} (ha : bbf.Awaits a) (hp : 0 ≤ p) (hnum : 0 ≤ num)
    (hleft : 0 ≤ bbf.bbfPayloadBytesLeft) (hskip : a.Within bbf.bbfPayloadBytesLeft)
    (hslot : Slot (bbfStart bbf p num)) {d : ℤ} (hd : d = min bbf.bbfPayloadBytesLeft num)
    (hfeed : a.feed (packet.read p d) = some (ups, a')) :
    ∃ b, bbfOutputTsBytes packet bbf p num = .ptr b (p + num) ∧ b.Awaits a' ∧
      a'.Within b.bbfPayloadBytesLeft ∧ Took bbf b ups d := by
  cases a with
  | run r =>
    rw [Intake.feed, Option.map_eq_some_iff] at hfeed
    obtain ⟨⟨ups', r'⟩, hrun, heq⟩ := hfeed
    rw [Prod.mk.injEq] at heq
    obtain ⟨rfl, rfl⟩ := heq
    have hsync : bbf.ts.synced = true := by
      cases r with
      | hem pend => exact ha.2.2.1
      | between prev => exact ha.1.inStep
      | within pend => exact ha.1.inStep
    rw [bbfStart, if_pos hsync] at hslot
    obtain ⟨b, hloop, hb, htook⟩ := bbfLoop_run packet (s := ⟨bbf, p, num⟩) ha hp hnum hleft hslot
      hd hrun
    exact ⟨b, by rw [bbfOutputTsBytes, if_pos hsync, hloop], hb, trivial, htook⟩
  | skip hem todo =>
    have htakes := skipPartial_takes ha
    obtain ⟨hmode, hupl, hsync, hidx, hsum, hcrc⟩ := ha
    have htodo : (todo : ℤ) ≤ bbf.bbfPayloadBytesLeft := hskip
    have hn : min (bbf.syncd - bbf.ts.buffIdx) num = min (todo : ℤ) num := by omega
    have hstart : bbfStart bbf p num = ⟨skipPartial bbf (min todo num), p + min (todo : ℤ) num,
        num - min (todo : ℤ) num⟩ := by
      rw [bbfStart, hsync]
      simp only [Bool.false_eq_true, if_false, hn]
    have hcall : bbfOutputTsBytes packet bbf p num = bbfLoop packet (bbfStart bbf p num) := by
      rw [bbfOutputTsBytes, hsync, hstart]
      simp only [Bool.false_eq_true, if_false, hn]
      rw [if_neg (by omega), if_neg (by simp only [skipPartial]; omega)]
    rw [hcall]
    rw [hstart] at hslot ⊢
    rcases Int.lt_or_le num todo with hlt | hge
    · -- the first packet does not begin in this piece
      have hmin : min (todo : ℤ) num = num := by omega
      have hlen : (packet.read p d).length < todo := by rw [packet.length_read]; omega
      have hne : ¬ bbf.ts.buffIdx + num = bbf.syncd := by omega
      rw [Intake.feed, if_pos hlen, Option.some.injEq, Prod.mk.injEq] at hfeed
      obtain ⟨rfl, rfl⟩ := hfeed
      rw [packet.length_read, hmin, Int.sub_self, bbfLoop_none _ _ (Int.le_refl 0)]
      refine ⟨skipPartial bbf num, rfl, ⟨hmode, hupl, ?_, ?_, ?_, hcrc⟩, ?_, ?_, ?_⟩
      · simp [skipPartial, hsync, hne]
      · simp only [skipPartial, if_neg hne]
        omega
      · simp only [skipPartial, if_neg hne]
        omega
      · simp only [Intake.Within, skipPartial]
        omega
      · simp only [skipPartial]
        omega
      · simp [skipPartial]
    · -- skip to the first packet, then go on
      have hmin : min (todo : ℤ) num = todo := by omega
      have hlen : ¬ (packet.read p d).length < todo := by rw [packet.length_read]; omega
      have hread : (packet.read p d).drop todo = packet.read (p + todo) (d - todo) := by
        have h := packet.read_add hp (Int.natCast_nonneg todo) (show 0 ≤ d - todo by omega)
        rw [show (todo : ℤ) + (d - todo) = d by omega] at h
        rw [h, List.drop_append_of_le_length (by simp), List.drop_of_length_le (by simp),
          List.nil_append]
      rw [Intake.feed, if_neg hlen, hread, Option.map_eq_some_iff] at hfeed
      obtain ⟨⟨ups', r'⟩, hrun, heq⟩ := hfeed
      rw [Prod.mk.injEq] at heq
      obtain ⟨rfl, rfl⟩ := heq
      rw [hmin] at hslot ⊢
      obtain ⟨b, hloop, hb, htook⟩ := bbfLoop_run packet
        (s := ⟨skipPartial bbf todo, p + todo, num - todo⟩) htakes (by simp only; omega)
        (by simp only; omega) (by simp only [skipPartial]; omega) hslot
        (by simp only [skipPartial]; omega) hrun
      have hleft' := htook.left
      simp only [skipPartial] at hleft'
      refine ⟨b, ?_, hb, trivial, ?_, htook.feeds⟩
      · rw [hloop]
        congr 1
        simp only
        omega
      · omega

end Demux

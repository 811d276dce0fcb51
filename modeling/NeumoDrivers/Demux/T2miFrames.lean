import NeumoDrivers.Demux.StidFrames
import NeumoDrivers.Demux.T2miLoop
import NeumoDrivers.Demux.T2miStages

/-! BBFRAMEs in high-efficiency mode, sent in T2-MI packets.

    A `T2miFrame` is a T2-MI packet of type 0 with such a BBFRAME. The decoder that has read so many
    bytes of it stands in its packet header, in its 13-byte header, or behind both (`At`), wherever
    the transport packets are cut. `frame_pass` says that a pass of the loop moves on in the packet,
    and `t2mi_roundtrip` what any number of them delivers. -/

namespace Demux
open Loop

variable {β : Type} [Cell β]

/-- The byte at a place of a list of cells. -/
def byteAt (l : List β) (i : ℕ) : UInt8 := Cell.val (l.getD i (Cell.lit 0))

/-- A BBFRAME in which a user packet starts, in a T2-MI packet: its lengths are those of the headers,
    and the CRC-8 of the BBHEADER is that of high-efficiency mode. -/
structure T2miFrame (β : Type) [Cell β] where
  header : List β
  bbheader : List β
  field : List β
  pad : List β
  crc : List β
  header_size : header.length = 6
  bbheader_size : bbheader.length = 13
  crc_size : crc.length = 4
  type_eq : byteAt header 0 = 0
  payload_size :
    (be16 (byteAt header 4) (byteAt header 5) + 7) / 8 = 13 + ((field ++ pad).length : ℤ)
  hem : bbheaderMode (fun i => byteAt bbheader (3 + i)) = 1
  field_size : be16 (byteAt bbheader 7) (byteAt bbheader 8) / 8 = (field.length : ℤ)
  starts : be16 (byteAt bbheader 10) (byteAt bbheader 11) / 8 < (field.length : ℤ)

namespace T2miFrame

variable (f : T2miFrame β) (i : ℕ)

/-- The `packet_count` of the T2-MI packet. -/
def count : ℤ := (byteAt f.header 1).toNat

def plp : ℕ := (byteAt f.bbheader 1).toNat

/-- Bytes of the data field up to the first user packet, as the header says. -/
def syncd : ℕ := (be16 (byteAt f.bbheader 10) (byteAt f.bbheader 11) / 8).toNat

def bytes : List β := f.header ++ (f.bbheader ++ ((f.field ++ f.pad) ++ f.crc))

/-- Where the payload ends and the CRC begins. -/
def payloadEnd : ℕ := 19 + (f.field ++ f.pad).length

theorem length_bytes : f.bytes.length = f.payloadEnd + 4 := by
  rw [bytes, List.length_append, List.length_append, List.length_append, f.header_size,
    f.bbheader_size, f.crc_size, payloadEnd]
  omega

theorem be16_syncd : be16 (byteAt f.bbheader 10) (byteAt f.bbheader 11) / 8 = (f.syncd : ℤ) := by
  rw [syncd, Int.toNat_of_nonneg (by unfold be16; omega)]

theorem syncd_lt : f.syncd < f.field.length := by
  have h := f.starts
  rw [f.be16_syncd] at h
  exact_mod_cast h

variable {i} {n : ℕ}

/-! Which part of the T2-MI packet some bytes of it are. -/

theorem bytes_header (h : i + n ≤ 6) : (f.bytes.drop i).take n = (f.header.drop i).take n := by
  have hsize := f.header_size
  rw [bytes, List.drop_append_of_le_length (by omega),
    List.take_append_of_le_length (by rw [List.length_drop]; omega)]

theorem bytes_bbheader (hge : 6 ≤ i) (h : i + n ≤ 19) :
    (f.bytes.drop i).take n = (f.bbheader.drop (i - 6)).take n := by
  have hsize := f.bbheader_size
  rw [bytes, List.drop_append, List.drop_of_length_le (by rw [f.header_size]; omega),
    List.nil_append, f.header_size, List.drop_append_of_le_length (by omega),
    List.take_append_of_le_length (by rw [List.length_drop]; omega)]

theorem bytes_field (hge : 19 ≤ i) (h : i + n ≤ f.payloadEnd) :
    ((f.bytes.drop i).take n).take (f.field.length - (i - 19)) =
      (f.field.drop (i - 19)).take n := by
  have hdata : (f.bytes.drop i).take n = ((f.field ++ f.pad).drop (i - 19)).take n := by
    rw [payloadEnd] at h
    rw [bytes, List.drop_append, List.drop_of_length_le (by rw [f.header_size]; omega),
      List.nil_append, f.header_size, List.drop_append,
      List.drop_of_length_le (by rw [f.bbheader_size]; omega), List.nil_append, f.bbheader_size,
      Nat.sub_sub, List.drop_append_of_le_length (by omega),
      List.take_append_of_le_length (by rw [List.length_drop]; omega)]
  rw [hdata, List.take_take, Nat.min_comm, ← List.take_take, List.drop_append]
  congr 1
  rw [← List.length_drop, List.take_left]

end T2miFrame

/-! ### Where the decoder stands -/

/-- A sub-stream that is subscribed to, what its feeds got and how it is aligned, with the pid and
    the continuity counter of the transport packets. -/
structure Serves (pid cc : ℤ) (plp : ℕ) (t2mi : T2miStream β) (fed : List (List β))
    (P : BbframesStream β → Prop) : Prop where
  pid_eq : t2mi.emb.embeddingPid = pid
  cc_eq : t2mi.emb.ccCounter = cc
  sub : ∃ bbf, t2mi.emb.bbfStreams plp = some bbf ∧ bbf.feeds = fed ∧ P bbf

/-- Nothing of this is touched. -/
structure SameSubs (t2mi t2mi' : T2miStream β) : Prop where
  pid_eq : t2mi'.emb.embeddingPid = t2mi.emb.embeddingPid
  cc_eq : t2mi'.emb.ccCounter = t2mi.emb.ccCounter
  streams : t2mi'.emb.bbfStreams = t2mi.emb.bbfStreams

section
omit [Cell β]
variable {pid cc : ℤ} {plp : ℕ} {t2mi t2mi' : T2miStream β} {fed : List (List β)}
  {P : BbframesStream β → Prop}

theorem Serves.of_same (h : Serves pid cc plp t2mi fed P) (hsame : SameSubs t2mi t2mi') :
    Serves pid cc plp t2mi' fed P :=
  ⟨hsame.pid_eq.trans h.pid_eq, hsame.cc_eq.trans h.cc_eq, hsame.streams ▸ h.sub⟩

end

namespace T2miFrame

/-- So many bytes of the packet header are read. -/
structure Heading (f : T2miFrame β) (i : ℕ) (t2mi : T2miStream β) : Prop where
  lt : i < 6
  idx : t2mi.headerIdx = i
  due : t2miFrameIsComplete t2mi = true ∨ 0 < t2mi.headerIdx
  synced : 0 < i → t2mi.synced = true
  crc : 0 < i → t2mi.crcIdx = 0
  got : t2mi.buff.cells.take i = f.header.take i
  follows : t2mi.emb.packetCount < 0 ∨ (t2mi.emb.packetCount + 1) % 256 = f.count

/-- The packet header is read, and some bytes of the 13-byte header. -/
structure Headed (f : T2miFrame β) (i : ℕ) (t2mi : T2miStream β) : Prop where
  ge : 6 ≤ i
  lt : i < 19
  synced : t2mi.synced = true
  idx : t2mi.headerIdx = 0
  crc : t2mi.crcIdx = 0
  payload : t2mi.t2miPayloadBytesLeft = (f.payloadEnd : ℤ) - i
  left : t2mi.bbheaderBytesLeft = 19 - i
  bbidx : t2mi.bbheaderIdx = i - 6
  type : t2mi.packetType = 0
  count : t2mi.emb.packetCount = f.count
  got : t2mi.buff.cells.take (i - 6) = f.bbheader.take (i - 6)

/-- Both headers are read, and some bytes of payload and CRC. -/
structure Inside (f : T2miFrame β) (plp i : ℕ) (t2mi : T2miStream β) : Prop where
  ge : 19 ≤ i
  le : i ≤ f.payloadEnd + 4
  synced : t2mi.synced = true
  idx : t2mi.headerIdx = 0
  left : t2mi.bbheaderBytesLeft = 0
  payload : t2mi.t2miPayloadBytesLeft = (f.payloadEnd - i : ℕ)
  crc : t2mi.crcIdx = (i - f.payloadEnd : ℕ)
  type : t2mi.packetType = 0
  count : t2mi.emb.packetCount = f.count
  current : t2mi.emb.currentBbf = some plp

/-- The user packets that some first bytes of the data field complete, and the alignment after
    them. -/
def fedBy (f : T2miFrame β) (tr : Track β) (n : ℕ) : List (List β) × Align β :=
  if n = 0 then ([], tr.resume f.syncd) else (tr.resume f.syncd).feed (f.field.take n)

theorem fedBy_add (f : T2miFrame β) (tr : Track β) (m : ℕ) {n : ℕ} (hn : n ≠ 0) :
    f.fedBy tr (m + n) =
      ((f.fedBy tr m).1 ++ ((f.fedBy tr m).2.feed ((f.field.drop m).take n)).1,
        ((f.fedBy tr m).2.feed ((f.field.drop m).take n)).2) := by
  rw [fedBy, if_neg (by omega), List.take_add, Align.feed_append, fedBy]
  split
  · rename_i h0
    subst h0
    rw [List.take_zero, ← Align.feed_append, List.nil_append]
    rfl
  · rfl

/-- The decoder has read so many bytes of the T2-MI packet; `fed` and `tr` are what the feeds had
    and how the sub-stream was aligned before it. -/
inductive At (pid cc : ℤ) (plp : ℕ) (f : T2miFrame β) (fed : List (List β)) (tr : Track β) (i : ℕ)
    (t2mi : T2miStream β) : Prop where
  | heading (h : f.Heading i t2mi) (hsub : Serves pid cc plp t2mi fed (Resumes · tr))
  | headed (h : f.Headed i t2mi) (hsub : Serves pid cc plp t2mi fed (Resumes · tr))
  | inside (h : f.Inside plp i t2mi)
      (hsub : Serves pid cc plp t2mi (fed ++ (f.fedBy tr (i - 19)).1.map withSync)
        (Follows · (f.field.length - (i - 19)) (f.fedBy tr (i - 19)).2))

end T2miFrame

/-! ### Single stretches -/

namespace T2miFrame

variable {f : T2miFrame β} {packet : Packet β} {t2mi : T2miStream β} {p num : ℤ} {i n plp : ℕ}

omit [Cell β] in
/-- Bytes of a header copied behind those before them. -/
theorem take_memcpy {l : List β} {buff buff' : Buff β 188} (hgot : buff.cells.take i = l.take i)
    (hread : packet.read p n = (l.drop i).take n) (hsize : i + n ≤ 188) {j : ℤ} (hj : j = i)
    (hcpy : buff.memcpy j (packet.read p n) = some buff') :
    buff'.cells.take (i + n) = l.take (i + n) := by
  subst hj
  obtain ⟨b, hb, htake⟩ := buff.memcpy_append (Int.natCast_nonneg i) _ (packet.read p n) hgot
    (by rw [Packet.length_read]; exact hsize)
  rw [hcpy, Option.some.injEq] at hb
  subst hb
  rw [Packet.length_read, hread, Int.toNat_natCast, Int.toNat_natCast] at htake
  rw [htake, List.take_add]

theorem byte_eq {l : List β} {buff : Buff β 188} {m : ℕ}
    (hgot : buff.cells.take m = l) {j : ℕ} (hj : j < m) : buff.byte j = byteAt l j := by
  rw [Buff.byte, byteAt, ← hgot]
  simp only [List.getD_eq_getElem?_getD, List.getElem?_take_of_lt hj]

/-- The fields of the packet header. -/
theorem readT2miHeader_frame (hgot : t2mi.buff.cells.take 6 = f.header)
    (hfollows : t2mi.emb.packetCount < 0 ∨ (t2mi.emb.packetCount + 1) % 256 = f.count)
    (hcrc : t2mi.crcIdx = 0) :
    f.Headed 6 { readT2miHeader t2mi with synced := true } ∧
      SameSubs t2mi { readT2miHeader t2mi with synced := true } := by
  have hbyte : ∀ j, j < 6 → t2mi.buff.byte j = byteAt f.header j :=
    fun j hj => byte_eq hgot hj
  have hcount : ((t2mi.buff.byte 1).toNat : ℤ) = f.count := by
    rw [hbyte 1 (by decide)]
    rfl
  have htype : (t2mi.buff.byte 0).toNat = 0 := by
    rw [hbyte 0 (by decide), f.type_eq]
    rfl
  have hlen := f.payload_size
  rw [← hbyte 4 (by decide), ← hbyte 5 (by decide)] at hlen
  have hno : ¬ (0 ≤ t2mi.emb.packetCount ∧
      (t2mi.emb.packetCount + 1) % 256 ≠ ((t2mi.buff.byte 1).toNat : ℤ)) := by
    rw [hcount]
    rintro ⟨hpos, hne⟩
    rcases hfollows with h | h
    · omega
    · exact hne h
  simp only [readT2miHeader]
  rw [if_neg hno]
  simp only [htype]
  refine ⟨⟨Nat.le_refl 6, by decide, rfl, rfl, hcrc, ?_, rfl, rfl, rfl, hcount, rfl⟩, rfl, rfl, rfl⟩
  rw [payloadEnd]
  simp only [hlen]
  push_cast
  omega

/-- Bytes of the packet header. -/
theorem Heading.stage (h : f.Heading i t2mi) (hp : p < 188)
    (hn : (n : ℤ) = min (188 - p) (6 - i)) (hread : packet.read p n = (f.header.drop i).take n) :
    ∃ t, SameSubs t2mi t ∧
      (i + n < 6 → f.Heading (i + n) t ∧ t2miHeaderStage packet t2mi p num = .exit (.done t)) ∧
      (i + n = 6 → f.Headed 6 t ∧ t2miHeaderStage packet t2mi p num =
        .again ⟨t, p + n, 188 - (p + n), .bbheader⟩) := by
  have hlt := h.lt
  have hidx := h.idx
  obtain ⟨buff, hcpy, hstage⟩ := @t2miHeaderStage_due _ _ packet t2mi p num n
    (show 0 ≤ t2mi.headerIdx by omega) (by omega) hp h.due (by rw [hidx]; exact hn)
  have hgot : buff.cells.take (i + n) = f.header.take (i + n) :=
    take_memcpy h.got hread (by omega) hidx hcpy
  have hcrc : (t2mi.tookHeader buff n).crcIdx = 0 := by
    simp only [T2miStream.tookHeader]
    split
    · rfl
    · exact h.crc (by omega)
  have hcount : (t2mi.tookHeader buff n).emb.packetCount = t2mi.emb.packetCount := by
    simp only [T2miStream.tookHeader]
    split <;> rfl
  have hsame : ∀ b, SameSubs t2mi { t2mi.tookHeader buff n with synced := b } := by
    intro b
    refine ⟨?_, ?_, ?_⟩
    · simp only [T2miStream.tookHeader]
      split <;> rfl
    · simp only [T2miStream.tookHeader]
      split <;> rfl
    · exact T2miStream.tookHeader_bbfStreams t2mi buff n
  by_cases h6 : i + n = 6
  · rw [if_pos (by omega)] at hstage
    rw [h6, List.take_of_length_le (Nat.le_of_eq f.header_size)] at hgot
    obtain ⟨hheaded, hsubs⟩ := @readT2miHeader_frame _ _ _ (t2mi.tookHeader buff n) hgot
      (by rw [hcount]; exact h.follows) hcrc
    have htook := hsame t2mi.synced
    refine ⟨_, ⟨?_, ?_, ?_⟩, fun hlt6 => absurd h6 (by omega), fun _ => ⟨hheaded, hstage⟩⟩
    · exact hsubs.pid_eq.trans htook.pid_eq
    · exact hsubs.cc_eq.trans htook.cc_eq
    · exact hsubs.streams.trans htook.streams
  · rw [if_neg (by omega)] at hstage
    refine ⟨_, hsame true, fun hlt6 => ⟨⟨hlt6, ?_, Or.inr ?_, fun _ => rfl, fun _ => hcrc, hgot, ?_⟩,
      hstage⟩,
      fun h => absurd h h6⟩
    · simp only [T2miStream.tookHeader]
      omega
    · simp only [T2miStream.tookHeader]
      omega
    · simp only [hcount]
      exact h.follows

/-- The PLP prefix and the BBHEADER lead to the sub-stream of the PLP, which takes the header over. -/
theorem readT2miBbheader_frame {pid cc : ℤ} {fed : List (List β)} {tr : Track β}
    (hgot : t2mi.buff.cells.take 13 = f.bbheader) (hleft : t2mi.bbheaderBytesLeft = 0)
    (hpay : t2mi.t2miPayloadBytesLeft = ((f.field ++ f.pad).length : ℤ))
    (hsync : t2mi.synced = true) (hidx : t2mi.headerIdx = 0) (hcrc : t2mi.crcIdx = 0)
    (htype : t2mi.packetType = 0) (hcount : t2mi.emb.packetCount = f.count) (hplp : f.plp = plp)
    (hready : tr.Ready) (hsub : Serves pid cc plp t2mi fed (Resumes · tr)) :
    ∃ t, readT2miBbheader t2mi p = .done (t, some p, true) ∧ f.Inside plp 19 t ∧
      Serves pid cc plp t fed (Follows · f.field.length (tr.resume f.syncd)) := by
  obtain ⟨bbf, hbbf, hfed, htr⟩ := hsub.sub
  have hbyte : ∀ j, j < 13 → t2mi.buff.byte j = byteAt f.bbheader j := fun j hj => byte_eq hgot hj
  have hmode : bbheaderMode (fun j => t2mi.buff.byte (3 + j)) = 1 := by
    rw [← f.hem, bbheaderMode, bbheaderMode]
    congr 2
    · refine List.map_congr_left fun j hj => ?_
      rw [List.mem_range] at hj
      exact hbyte _ (by omega)
    · exact hbyte _ (by decide)
  have hkey : (t2mi.buff.byte 1).toNat = plp := by
    rw [hbyte 1 (by decide), ← hplp]
    rfl
  have hfollows := parseBbheader_follows htr hready ((t2mi.buff.byte (3 + 1)).toNat : ℤ)
    (fun j => t2mi.buff.byte (3 + j))
    (by rw [hbyte _ (by decide), hbyte _ (by decide)]; exact f.field_size)
    (by rw [hbyte _ (by decide), hbyte _ (by decide)]; exact f.be16_syncd) f.syncd_lt
  have hselect : ∀ emb : EmbeddedStream β, emb.bbfStreams = t2mi.emb.bbfStreams → ∀ d,
      selectPlp emb (t2mi.buff.byte 1).toNat d = some plp := by
    intro emb hemb d
    rw [selectPlp, if_pos]
    · simp only [Int.toNat_natCast, hkey]
    · rw [Int.toNat_natCast, hkey, hemb, hbbf]
      rfl
  have hstreams := embeddedStreamSetMatype_bbfStreams t2mi.emb (t2mi.buff.byte 1).toNat
    (t2mi.buff.byte (3 + 0))
  have hfits : ¬ t2mi.t2miPayloadBytesLeft < (f.field.length : ℤ) := by
    rw [hpay, List.length_append]
    push_cast
    omega
  simp only [readT2miBbheader, hleft, ne_eq, not_true_eq_false, if_false, hmode,
    Int.toNat_natCast, hselect _ hstreams, hstreams, hbbf]
  rw [if_neg (by decide), show decide (¬ (1 : UInt8) = 0) = true from rfl, hfollows.due,
    if_neg hfits]
  refine ⟨_, rfl, ⟨Nat.le_refl _, ?_, hsync, hidx, rfl, ?_, ?_, htype, ?_, rfl⟩, ?_, ?_, ?_⟩
  · rw [payloadEnd]
    omega
  · simp only [hpay, payloadEnd, Nat.add_sub_cancel_left]
  · simp only [hcrc, payloadEnd]
    omega
  · rw [← hcount]
    exact embeddedStreamSetMatype_packetCount ..
  · exact (embeddedStreamSetMatype_embeddingPid ..).trans hsub.pid_eq
  · exact (embeddedStreamSetMatype_ccCounter ..).trans hsub.cc_eq
  · exact ⟨_, EmbeddedStream.put_bbfStreams_self, hfed, hfollows⟩

/-- Bytes of the 13-byte header that do not complete it. -/
theorem Headed.part (h : f.Headed i t2mi) (hp : p ≤ 188) (hn : (n : ℤ) = 188 - p)
    (hlt : i + n < 19) (hread : packet.read p n = (f.bbheader.drop (i - 6)).take n) :
    ∃ t, SameSubs t2mi t ∧ f.Headed (i + n) t ∧
      t2miBbheaderStage packet t2mi p (188 - p) = .exit (.done t) := by
  have hge := h.ge
  have hbbidx := h.bbidx
  have hleft := h.left
  obtain ⟨buff, hcpy, hstage⟩ := @t2miBbheaderStage_part _ _ packet t2mi p n (by omega) (by omega)
    hp hn (by omega)
  have hgot : buff.cells.take (i - 6 + n) = f.bbheader.take (i - 6 + n) :=
    take_memcpy h.got hread (by omega) (by omega) hcpy
  refine ⟨_, ⟨?_, ?_, T2miStream.tookBbheader_bbfStreams ..⟩, ⟨by omega, hlt, h.synced, h.idx,
    h.crc, ?_, ?_, ?_, h.type, ?_, ?_⟩, hstage⟩
  · simp only [T2miStream.tookBbheader]
    split <;> rfl
  · simp only [T2miStream.tookBbheader]
    split <;> rfl
  · simp only [T2miStream.tookBbheader, h.payload]
    push_cast
    omega
  · simp only [T2miStream.tookBbheader]
    push_cast
    omega
  · simp only [T2miStream.tookBbheader]
    push_cast
    omega
  · rw [← h.count]
    simp only [T2miStream.tookBbheader]
    split <;> rfl
  · rw [show i + n - 6 = i - 6 + n by omega]
    exact hgot

/-- The bytes that complete the 13-byte header. -/
theorem Headed.whole {pid cc : ℤ} {fed : List (List β)} {tr : Track β} (h : f.Headed i t2mi)
    (hn : i + n = 19) (hp : p + n ≤ 188)
    (hread : packet.read p n = (f.bbheader.drop (i - 6)).take n) (hplp : f.plp = plp)
    (hready : tr.Ready) (hsub : Serves pid cc plp t2mi fed (Resumes · tr)) :
    ∃ t, t2miBbheaderStage packet t2mi p (188 - p) =
        .again ⟨t, p + n, 188 - (p + n), .payload⟩ ∧
      f.Inside plp 19 t ∧
      Serves pid cc plp t fed (Follows · f.field.length (tr.resume f.syncd)) := by
  have hge := h.ge
  have hlt := h.lt
  have hbbidx := h.bbidx
  have hleft := h.left
  obtain ⟨buff, hcpy, hstage, _⟩ := @t2miBbheaderStage_whole _ _ packet t2mi p n (by omega)
    (by omega) (by omega) (by omega) hp
  have hgot : buff.cells.take (i - 6 + n) = f.bbheader.take (i - 6 + n) :=
    take_memcpy h.got hread (by omega) (by omega) hcpy
  rw [show i - 6 + n = 13 by omega, List.take_of_length_le (Nat.le_of_eq f.bbheader_size)] at hgot
  have hcount : (t2mi.tookBbheader buff n).emb.packetCount = f.count := by
    rw [← h.count]
    simp only [T2miStream.tookBbheader]
    split <;> rfl
  have htook : Serves pid cc plp (t2mi.tookBbheader buff n) fed (Resumes · tr) := by
    refine hsub.of_same ⟨?_, ?_, T2miStream.tookBbheader_bbfStreams ..⟩
    · simp only [T2miStream.tookBbheader]
      split <;> rfl
    · simp only [T2miStream.tookBbheader]
      split <;> rfl
  obtain ⟨t, hreads, hinside, hserves⟩ := @readT2miBbheader_frame _ _ f
    (t2mi.tookBbheader buff n) (p + n) plp pid cc fed tr hgot
    (by simp only [T2miStream.tookBbheader]; omega)
    (by simp only [T2miStream.tookBbheader, h.payload, payloadEnd]; push_cast; omega)
    h.synced h.idx h.crc h.type hcount hplp hready htook
  exact ⟨t, hstage t hreads, hinside, hserves⟩

/-- Payload bytes go to the sub-stream, which takes in those of the data field. -/
theorem Inside.payload_stage {pid cc : ℤ} {fed : List (List β)} {tr : Track β}
    (h : f.Inside plp i t2mi) (hi : i ≤ f.payloadEnd) (hp0 : 0 ≤ p) (hp : p ≤ 188)
    (hn : (n : ℤ) = min ((f.payloadEnd : ℤ) - i) (188 - p))
    (hread : packet.read p n = (f.bytes.drop i).take n)
    (hsub : Serves pid cc plp t2mi (fed ++ (f.fedBy tr (i - 19)).1.map withSync)
      (Follows · (f.field.length - (i - 19)) (f.fedBy tr (i - 19)).2)) :
    ∃ t, t2miPayloadStage packet t2mi p (188 - p) = .again ⟨t, p + n, 188 - (p + n), .crc⟩ ∧
      f.Inside plp (i + n) t ∧
      Serves pid cc plp t (fed ++ (f.fedBy tr (i + n - 19)).1.map withSync)
        (Follows · (f.field.length - (i + n - 19)) (f.fedBy tr (i + n - 19)).2) := by
  have hge := h.ge
  have hpay := h.payload
  have hnum : (n : ℤ) = min t2mi.t2miPayloadBytesLeft (188 - p) := by omega
  by_cases h0 : n = 0
  · subst h0
    refine ⟨t2mi, ?_, h, hsub⟩
    rw [t2miPayloadStage_none h.current (by omega)]
    simp
  · obtain ⟨bbf, hbbf, hfed, hfollows⟩ := hsub.sub
    obtain ⟨bbf', hout, _, hfollows', hfed'⟩ := hfollows.output packet hp0 (Int.natCast_nonneg n)
    rw [hread, f.bytes_field hge (by omega)] at hfollows' hfed'
    rw [Int.toNat_natCast] at hfollows'
    have hfeed : f.fedBy tr (i + n - 19) =
        ((f.fedBy tr (i - 19)).1 ++ ((f.fedBy tr (i - 19)).2.feed
            ((f.field.drop (i - 19)).take n)).1,
          ((f.fedBy tr (i - 19)).2.feed ((f.field.drop (i - 19)).take n)).2) := by
      rw [show i + n - 19 = i - 19 + n by omega, f.fedBy_add tr _ h0]
    refine ⟨_, t2miPayloadStage_output h.current hbbf h.type hnum (by omega) hout (Int.le_refl _),
      ⟨by omega, by omega, h.synced, h.idx, h.left, ?_, ?_, h.type, h.count, h.current⟩,
      hsub.pid_eq, hsub.cc_eq, bbf', EmbeddedStream.put_bbfStreams_self, ?_, ?_⟩
    · simp only [hpay]
      omega
    · simp only [h.crc]
      omega
    · rw [hfed', hfed, hfeed, List.map_append, List.append_assoc]
    · rw [hfeed, show f.field.length - (i + n - 19) = f.field.length - (i - 19) - n by omega]
      exact hfollows'

/-- CRC bytes are counted. -/
theorem Inside.crc_stage (h : f.Inside plp i t2mi) (hi : f.payloadEnd ≤ i)
    (hlt : i < f.payloadEnd + 4) (hp : p < 188)
    (hn : (n : ℤ) = min ((f.payloadEnd : ℤ) + 4 - i) (188 - p)) :
    ∃ t, SameSubs t2mi t ∧ f.Inside plp (i + n) t ∧
      t2miCrcStage packet t2mi p (188 - p) = .again ⟨t, p + n, 188 - (p + n), .header⟩ := by
  have hge := h.ge
  have hpay := h.payload
  have hcrc := h.crc
  obtain ⟨errors, hstage⟩ := @t2miCrcStage_due _ _ packet t2mi p n (by omega) (by omega) hp
    (by omega)
  refine ⟨_, ?_, ?_, hstage⟩
  · exact ⟨rfl, rfl, rfl⟩
  · refine ⟨by omega, by omega, h.synced, h.idx, h.left, ?_, ?_, h.type, h.count, h.current⟩
    · simp only [hpay]
      omega
    · simp only [hcrc]
      omega

end T2miFrame

/-! ### A pass of the loop -/

/-- Whatever the loop leads to from `s'`, it leads to from `s`. -/
def Continues (packet : Packet β) (s s' : T2miPos β) : Prop :=
  ∀ out, Ends (t2miBody packet) s' out → Ends (t2miBody packet) s out

section
variable {packet : Packet β} {s s' s'' : T2miPos β}

theorem Continues.trans (h : Continues packet s s') (h' : Continues packet s' s'') :
    Continues packet s s'' := fun out hout => h out (h' out hout)

theorem Continues.again (h : t2miBody packet s = .again s') : Continues packet s s' :=
  fun _ => Ends.again h

/-- Leaving the loop at the end of the packet is going on to its end. -/
theorem Continues.exit {t2mi : T2miStream β} {p num : ℤ} (h : t2miBody packet s = .exit (.done t2mi))
    (hp : 188 ≤ p) : Continues packet s ⟨t2mi, p, num, .header⟩ := by
  intro out hout
  have hend : Ends (t2miBody packet) ⟨t2mi, p, num, .header⟩ (.done t2mi) :=
    .exit (t2miHeaderStage_end hp)
  rw [hout.unique hend]
  exact .exit h

omit [Cell β] in
/-- The cells from a position on are the first of some cells; so are those behind the next few. -/
theorem read_spells {p : ℤ} {n : ℕ} {u rest later : List β} (hp0 : 0 ≤ p) (hp : p + n ≤ 188)
    (hn : n ≤ u.length) (h : packet.read p (188 - p) ++ rest = u ++ later) :
    packet.read p n = u.take n ∧
      packet.read (p + n) (188 - (p + n)) ++ rest = u.drop n ++ later := by
  have hsplit := packet.read_add hp0 (Int.natCast_nonneg n) (show 0 ≤ 188 - (p + n) by omega)
  rw [show (n : ℤ) + (188 - (p + n)) = 188 - p by omega] at hsplit
  rw [hsplit, List.append_assoc, ← List.take_append_drop n u, List.append_assoc] at h
  have hlen : (packet.read p n).length = (u.take n).length := by
    rw [Packet.length_read, Int.toNat_natCast, List.length_take, Nat.min_eq_left hn]
  exact List.append_inj h hlen

end

namespace T2miFrame

variable {f : T2miFrame β} {packet : Packet β} {t2mi : T2miStream β} {p num pid cc : ℤ}
  {i n plp : ℕ} {fed : List (List β)} {tr : Track β} {rest later : List β}

/-- From `s`, with so many bytes of the T2-MI packet read, the loop gets back to its top or ends,
    after it read more bytes of this T2-MI packet if there are any. -/
def Moves (pid cc : ℤ) (plp : ℕ) (f : T2miFrame β) (fed : List (List β)) (tr : Track β)
    (packet : Packet β) (s : T2miPos β) (i : ℕ) : Prop :=
  ∃ (n : ℕ) (t : T2miStream β), s.p + n ≤ 188 ∧ i + n ≤ f.bytes.length ∧ (s.p < 188 → 0 < n) ∧
    f.At pid cc plp fed tr (i + n) t ∧
    Continues packet s ⟨t, s.p + n, 188 - (s.p + n), .header⟩

/-- A stretch that read some bytes, and what follows. -/
theorem Moves.after {stage : T2miStage} {t : T2miStream β} {s : T2miPos β}
    (h : f.Moves pid cc plp fed tr packet ⟨t, s.p + n, 188 - (s.p + n), stage⟩ (i + n))
    (hs : Continues packet s ⟨t, s.p + n, 188 - (s.p + n), stage⟩) :
    f.Moves pid cc plp fed tr packet s i := by
  obtain ⟨m, u, hp, hi, hpos, hat, hgo⟩ := h
  simp only at hp hpos hgo
  have hsum : s.p + n + m = s.p + (n + m : ℕ) := by push_cast; omega
  refine ⟨n + m, u, by omega, by omega, fun hlt => ?_, ?_, ?_⟩
  · by_cases h0 : n = 0
    · have := hpos (by omega)
      omega
    · omega
  · rw [← Nat.add_assoc]
    exact hat
  · rw [← hsum]
    exact hs.trans hgo

theorem Moves.exit {s : T2miPos β} {t : T2miStream β} (hn : s.p + n = 188)
    (hlen : i + n ≤ f.bytes.length) (hat : f.At pid cc plp fed tr (i + n) t)
    (hs : t2miBody packet s = .exit (.done t)) : f.Moves pid cc plp fed tr packet s i :=
  ⟨n, t, Int.le_of_eq hn, hlen, fun hlt => by omega, hat, .exit hs (Int.le_of_eq hn.symm)⟩

/-- A stretch that read nothing, and what follows. -/
theorem Moves.pass {stage stage' : T2miStage} {t : T2miStream β}
    (h : f.Moves pid cc plp fed tr packet ⟨t, p, num, stage'⟩ i)
    (hs : t2miBody packet ⟨t, p, num, stage⟩ = .again ⟨t, p, num, stage'⟩) :
    f.Moves pid cc plp fed tr packet ⟨t, p, num, stage⟩ i := by
  obtain ⟨n, u, hp, hi, hpos, hat, hgo⟩ := h
  exact ⟨n, u, hp, hi, hpos, hat, (Continues.again hs).trans hgo⟩

theorem fedBy_end (hi : f.payloadEnd ≤ i) :
    f.fedBy tr (i - 19) = (tr.resume f.syncd).feed f.field ∧ f.field.length - (i - 19) = 0 := by
  have hlen : f.field.length ≤ i - 19 := by
    rw [payloadEnd, List.length_append] at hi
    omega
  have hpos := f.syncd_lt
  rw [fedBy, if_neg (by omega), List.take_of_length_le hlen]
  exact ⟨rfl, Nat.sub_eq_zero_of_le hlen⟩

theorem Inside.crc_moves (h : f.Inside plp i t2mi) (hp : p ≤ 188)
    (hi : i < f.payloadEnd → p = 188) (hlast : i < f.payloadEnd + 4 ∨ p = 188)
    (hsub : Serves pid cc plp t2mi (fed ++ (f.fedBy tr (i - 19)).1.map withSync)
      (Follows · (f.field.length - (i - 19)) (f.fedBy tr (i - 19)).2)) :
    f.Moves pid cc plp fed tr packet ⟨t2mi, p, 188 - p, .crc⟩ i := by
  have hle := h.le
  have hlen := f.length_bytes
  by_cases hend : p = 188
  · subst hend
    refine ⟨0, t2mi, Int.le_refl _, by omega, fun hlt => absurd hlt (by simp), .inside h hsub, ?_⟩
    refine Continues.again ?_
    rw [t2miBody, t2miCrcStage_pass (by simp)]
    simp
  · obtain ⟨n, hn⟩ : ∃ n : ℕ, (n : ℤ) = min ((f.payloadEnd : ℤ) + 4 - i) (188 - p) :=
      ⟨(min ((f.payloadEnd : ℤ) + 4 - i) (188 - p)).toNat, Int.toNat_of_nonneg (by omega)⟩
    obtain ⟨t, hsame, hinside, hstage⟩ :=
      @crc_stage _ _ _ packet _ _ _ _ _ h (by omega) (by omega) (by omega) hn
    refine ⟨n, t, by simp only; omega, by omega, fun _ => by omega, .inside hinside ?_, .again hstage⟩
    obtain ⟨hfed, hleft⟩ := @fedBy_end _ _ f i tr (by omega)
    obtain ⟨hfed', hleft'⟩ := @fedBy_end _ _ f (i + n) tr (by omega)
    rw [hfed', hleft', ← hfed, ← hleft]
    exact hsub.of_same hsame

theorem Inside.payload_moves (h : f.Inside plp i t2mi) (hp0 : 0 ≤ p) (hp : p ≤ 188)
    (hlast : i < f.payloadEnd + 4)
    (hread : packet.read p (188 - p) ++ rest = f.bytes.drop i ++ later)
    (hsub : Serves pid cc plp t2mi (fed ++ (f.fedBy tr (i - 19)).1.map withSync)
      (Follows · (f.field.length - (i - 19)) (f.fedBy tr (i - 19)).2)) :
    f.Moves pid cc plp fed tr packet ⟨t2mi, p, 188 - p, .payload⟩ i := by
  have hlen := f.length_bytes
  by_cases hi : i ≤ f.payloadEnd
  · obtain ⟨n, hn⟩ : ∃ n : ℕ, (n : ℤ) = min ((f.payloadEnd : ℤ) - i) (188 - p) :=
      ⟨(min ((f.payloadEnd : ℤ) - i) (188 - p)).toNat, Int.toNat_of_nonneg (by omega)⟩
    obtain ⟨hbytes, _⟩ := read_spells hp0 (show p + n ≤ 188 by omega)
      (by rw [List.length_drop]; omega) hread
    obtain ⟨t, hstage, hinside, hserves⟩ := h.payload_stage hi hp0 hp hn hbytes hsub
    exact Moves.after (s := ⟨t2mi, p, 188 - p, .payload⟩)
      (hinside.crc_moves (by simp only; omega) (by simp only; omega) (Or.inl (by omega)) hserves)
      (.again hstage)
  · have hpay := h.payload
    have hpass : t2miPayloadStage packet t2mi p (188 - p) = .again ⟨t2mi, p, 188 - p, .crc⟩ :=
      t2miPayloadStage_none h.current (by omega)
    exact Moves.pass (h.crc_moves hp (by omega) (Or.inl hlast) hsub) hpass

theorem Headed.moves (h : f.Headed i t2mi) (hp0 : 0 ≤ p) (hp : p ≤ 188) (hplp : f.plp = plp)
    (hready : tr.Ready) (hread : packet.read p (188 - p) ++ rest = f.bytes.drop i ++ later)
    (hsub : Serves pid cc plp t2mi fed (Resumes · tr)) :
    f.Moves pid cc plp fed tr packet ⟨t2mi, p, 188 - p, .bbheader⟩ i := by
  have hge := h.ge
  have hlt := h.lt
  have hlen := f.length_bytes
  have hend : 19 ≤ f.payloadEnd := Nat.le_add_right ..
  obtain ⟨n, hn⟩ : ∃ n : ℕ, (n : ℤ) = min (19 - (i : ℤ)) (188 - p) :=
    ⟨(min (19 - (i : ℤ)) (188 - p)).toNat, Int.toNat_of_nonneg (by omega)⟩
  obtain ⟨hbytes, hrest⟩ := read_spells hp0 (show p + n ≤ 188 by omega)
    (by rw [List.length_drop]; omega) hread
  rw [f.bytes_bbheader hge (by omega)] at hbytes
  rw [List.drop_drop] at hrest
  by_cases hpart : i + n < 19
  · obtain ⟨t, hsame, hheaded, hstage⟩ := h.part hp (by omega) hpart hbytes
    exact Moves.exit (s := ⟨t2mi, p, 188 - p, .bbheader⟩) (by simp only; omega) (by omega)
      (.headed hheaded (hsub.of_same hsame)) hstage
  · have hwhole : i + n = 19 := by omega
    obtain ⟨t, hstage, hinside, hserves⟩ := h.whole hwhole (by omega) hbytes hplp hready hsub
    rw [hwhole] at hrest
    have hmoves := @Inside.payload_moves _ _ _ _ _ (p + n) _ _ _ _ fed tr _ _ hinside (by omega)
      (by omega) (by omega) hrest (by
        rw [Nat.sub_self, Nat.sub_zero, fedBy, if_pos rfl, List.map_nil, List.append_nil]
        exact hserves)
    rw [← hwhole] at hmoves
    exact Moves.after (s := ⟨t2mi, p, 188 - p, .bbheader⟩) hmoves (.again hstage)

/-- From the top of the loop, in the middle of a T2-MI packet or before it. -/
theorem frame_pass (h : f.At pid cc plp fed tr i t2mi) (hi : i < f.bytes.length) (hp0 : 0 ≤ p)
    (hp : p < 188) (hplp : f.plp = plp) (hready : tr.Ready)
    (hread : packet.read p (188 - p) ++ rest = f.bytes.drop i ++ later) :
    f.Moves pid cc plp fed tr packet ⟨t2mi, p, 188 - p, .header⟩ i := by
  have hlen := f.length_bytes
  have hend : 19 ≤ f.payloadEnd := Nat.le_add_right ..
  cases h with
  | heading h hsub =>
    have hlt := h.lt
    obtain ⟨n, hn⟩ : ∃ n : ℕ, (n : ℤ) = min (188 - p) (6 - (i : ℤ)) :=
      ⟨(min (188 - p) (6 - (i : ℤ))).toNat, Int.toNat_of_nonneg (by omega)⟩
    obtain ⟨hbytes, hrest⟩ := read_spells hp0 (show p + n ≤ 188 by omega)
      (by rw [List.length_drop]; omega) hread
    rw [f.bytes_header (by omega)] at hbytes
    rw [List.drop_drop] at hrest
    obtain ⟨t, hsame, hpart, hwhole⟩ := @Heading.stage _ _ _ _ _ _ (188 - p) _ _ h hp hn hbytes
    by_cases h6 : i + n < 6
    · obtain ⟨hheading, hstage⟩ := hpart h6
      exact Moves.exit (s := ⟨t2mi, p, 188 - p, .header⟩) (by simp only; omega) (by omega)
        (.heading hheading (hsub.of_same hsame)) hstage
    · have heq : i + n = 6 := by omega
      obtain ⟨hheaded, hstage⟩ := hwhole heq
      rw [heq] at hrest
      have hmoves := hheaded.moves (p := p + n) (by omega) (by omega) hplp hready hrest
        (hsub.of_same hsame)
      rw [← heq] at hmoves
      exact Moves.after (s := ⟨t2mi, p, 188 - p, .header⟩) hmoves (.again hstage)
  | headed h hsub =>
    have hpay := h.payload
    have hlt := h.lt
    have hopen : t2miFrameIsComplete t2mi = false := by
      rw [t2miFrameIsComplete, h.synced, h.crc]
      simp
    exact Moves.pass (h.moves hp0 (by omega) hplp hready hread hsub)
      (t2miHeaderStage_inside hp hopen h.idx)
  | inside h hsub =>
    have hpay := h.payload
    have hcrc := h.crc
    have hopen : t2miFrameIsComplete t2mi = false := by
      rw [t2miFrameIsComplete, h.synced]
      simp only [not_true_eq_false, or_false, decide_eq_false_iff_not]
      omega
    have hinner : f.Moves pid cc plp fed tr packet ⟨t2mi, p, 188 - p, .bbheader⟩ i :=
      Moves.pass (h.payload_moves hp0 (by omega) (by omega) hread hsub)
        (t2miBbheaderStage_inside (Int.le_of_eq h.left))
    exact Moves.pass hinner (t2miHeaderStage_inside hp hopen h.idx)

end T2miFrame

end Demux

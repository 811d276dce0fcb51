import NeumoDrivers.Dvb.Ringbuffer
import NeumoDrivers.Lib.Loop

/-! The packet layer of the ring buffer.

    A packet is stored as two bytes of length, a byte that says whether it was disposed of, and its
    data. Disposing of a packet only sets that byte; the space is freed once every older packet was
    disposed of too. A packet is known by the position of its header in the array. -/

namespace Dvb
open Demux Loop

def pktReady : UInt8 := 0
def pktDisposed : UInt8 := 1

/-- `DVB_RINGBUFFER_PKTHDRSIZE` -/
def pkthdrsize : ℕ := 3

def einval : ℤ := 22

/-- A value stored in an `int`. -/
def toInt (x : ℤ) : ℤ := Int.bmod x (2 ^ 32)

namespace DvbRingbuffer

variable {size : ℕ}

/-- `DVB_RINGBUFFER_PEEK` -/
def peek (rbuf : DvbRingbuffer size) (offs : ℕ) : UInt8 :=
  rbuf.data.byte ((rbuf.pread + offs) % size)

/-- `dvb_ringbuffer_pkt_write`; `dvb_ringbuffer_write` cannot fail, so the write position is never
    put back. -/
def pktWrite (rbuf : DvbRingbuffer size) (buf : List UInt8) : Option (DvbRingbuffer size) :=
  let rbuf := rbuf.writeByte (UInt8.ofNat (buf.length >>> 8))
  let rbuf := rbuf.writeByte (UInt8.ofNat (buf.length &&& 0xff))
  let rbuf := rbuf.writeByte pktReady
  rbuf.write buf

/-- The length in the header at `idx`. -/
def pktlen (rbuf : DvbRingbuffer size) (idx : ℕ) : ℕ :=
  (rbuf.data.byte idx).toNat <<< 8 ||| (rbuf.data.byte ((idx + 1) % size)).toNat

/-- `dvb_ringbuffer_pkt_read`: the bytes copied, or the error. The offset is compared as a
    `size_t`. -/
def pktRead (rbuf : DvbRingbuffer size) (idx : ℕ) (offset : Int32) (len : ℕ) :
    Option (Except ℤ (List UInt8)) :=
  let pktlen := rbuf.pktlen idx
  let offset := (offset.toInt % 2 ^ 64).toNat
  if pktlen < offset then some (.error (-einval))
  else do
    let len := if pktlen < offset + len then pktlen - offset else len
    let (bytes, _) ← copyOut rbuf.data ((idx + pkthdrsize + offset) % size) len
    some (.ok bytes)

/-- The byte that `dvb_ringbuffer_pkt_dispose` sets first. -/
def markDisposed (rbuf : DvbRingbuffer size) (idx : ℕ) : DvbRingbuffer size :=
  { rbuf with data := rbuf.data.put ((idx + 2) % size) pktDisposed }

/-- One pass of its loop that cleans up disposed packets. -/
def cleanBody (rbuf : DvbRingbuffer size) : Next (DvbRingbuffer size) (DvbRingbuffer size) :=
  if (pkthdrsize : ℤ) < rbuf.avail then
    if rbuf.peek 2 = pktDisposed then
      let pktlen := (rbuf.peek 0).toNat <<< 8 ||| (rbuf.peek 1).toNat
      .again (rbuf.skip (pktlen + pkthdrsize))
    -- first packet is not disposed, so we stop cleaning now
    else .exit rbuf
  else .exit rbuf

/-- `dvb_ringbuffer_pkt_dispose` -/
def PktDispose (rbuf : DvbRingbuffer size) (idx : ℕ) (rbuf' : DvbRingbuffer size) : Prop :=
  Ends cleanBody (rbuf.markDisposed idx) rbuf'

/-- Where the search of `dvb_ringbuffer_pkt_next` starts, and how far that is from the read
    position; no `idx` is the source's `-1`. -/
def nextStart (rbuf : DvbRingbuffer size) (idx : Option ℕ) : ℤ × ℕ :=
  let idx : ℕ :=
    match idx with
    | none => rbuf.pread
    | some idx => (idx + rbuf.pktlen idx + pkthdrsize) % size
  let consumed := toInt ((idx : ℤ) - rbuf.pread)
  (if consumed < 0 then toInt (consumed + size) else consumed, idx)

def nextBody (rbuf : DvbRingbuffer size) : ℤ × ℕ → Next (ℤ × ℕ) (Option (ℕ × ℕ))
  | (consumed, idx) =>
    if (pkthdrsize : ℤ) < rbuf.avail - consumed then
      let curpktlen := rbuf.pktlen idx
      if rbuf.data.byte ((idx + 2) % size) = pktReady then .exit (some (idx, curpktlen))
      else .again (toInt (consumed + (curpktlen + pkthdrsize : ℕ)),
        (idx + curpktlen + pkthdrsize) % size)
    -- no packets available
    else .exit none

/-- `dvb_ringbuffer_pkt_next`: the next packet's position and length. -/
def PktNext (rbuf : DvbRingbuffer size) (idx : Option ℕ) (r : Option (ℕ × ℕ)) : Prop :=
  Ends rbuf.nextBody (rbuf.nextStart idx) r

/-- What calling `dvb_ringbuffer_pkt_next` again and again lists, from `idx` on. -/
inductive Enumerates (rbuf : DvbRingbuffer size) : Option ℕ → List (ℕ × ℕ) → Prop where
  | done {idx : Option ℕ} (h : rbuf.PktNext idx none) : Enumerates rbuf idx []
  | next {idx : Option ℕ} {i len : ℕ} {l : List (ℕ × ℕ)} (h : rbuf.PktNext idx (some (i, len)))
      (hl : Enumerates rbuf (some i) l) : Enumerates rbuf idx ((i, len) :: l)

/-! ### Packets in the buffer -/

/-- A packet that was written: where its header is, its bytes, and whether it was disposed of. -/
structure Pkt where
  pos : ℕ
  bytes : List UInt8
  disposed : Bool
  deriving DecidableEq

/-- The packet as it is stored. -/
def Pkt.frame (p : Pkt) : List UInt8 :=
  UInt8.ofNat (p.bytes.length >>> 8) :: UInt8.ofNat (p.bytes.length &&& 0xff) ::
    (if p.disposed then pktDisposed else pktReady) :: p.bytes

/-- The space that packets take. -/
def space (ps : List Pkt) : ℕ := (ps.flatMap Pkt.frame).length

/-- The packets lie one behind the other from `i` on. -/
def Laid (size : ℕ) : ℕ → List Pkt → Prop
  | _, [] => True
  | i, p :: ps => p.pos = i % size ∧ Laid size (i + p.frame.length) ps

/-- The buffer holds exactly these packets. -/
structure Holds (ps : List Pkt) (rbuf : DvbRingbuffer size) : Prop where
  sound : rbuf.Sound
  held_eq : rbuf.held = ps.flatMap Pkt.frame
  laid : Laid size rbuf.pread ps
  sizes : ∀ p ∈ ps, 1 ≤ p.bytes.length ∧ p.bytes.length ≤ 65535

variable {rbuf rbuf' : DvbRingbuffer size} {p : Pkt} {ps qs : List Pkt} {i o : ℕ}

@[simp] theorem Pkt.length_frame (p : Pkt) : p.frame.length = p.bytes.length + 3 := rfl

@[simp] theorem space_nil : space [] = 0 := rfl

@[simp] theorem space_cons (p : Pkt) (ps : List Pkt) :
    space (p :: ps) = p.bytes.length + 3 + space ps := by
  rw [space, List.flatMap_cons, List.length_append, Pkt.length_frame, space]

@[simp] theorem space_append (ps qs : List Pkt) : space (ps ++ qs) = space ps + space qs := by
  rw [space, List.flatMap_append, List.length_append, space, space]

theorem laid_append : Laid size i (qs ++ ps) ↔ Laid size i qs ∧ Laid size (i + space qs) ps := by
  induction qs generalizing i with
  | nil => simp [Laid]
  | cons q qs ih =>
    rw [List.cons_append, Laid, Laid, ih, space_cons, Pkt.length_frame, and_assoc, Nat.add_assoc]

theorem laid_mod : Laid size (i % size) ps ↔ Laid size i ps := by
  induction ps generalizing i with
  | nil => rfl
  | cons p ps ih =>
    rw [Laid, Laid, Nat.mod_mod, ← ih, Nat.mod_add_mod, ih]

theorem length_field {n : ℕ} (hn : n ≤ 65535) :
    (UInt8.ofNat (n >>> 8)).toNat <<< 8 ||| (UInt8.ofNat (n &&& 0xff)).toNat = n := by
  have hlow : n &&& 0xff = n % 256 := Nat.and_two_pow_sub_one_eq_mod n 8
  have hhigh : n >>> 8 = n / 256 := Nat.shiftRight_eq_div_pow n 8
  have hlt : n % 256 < 2 ^ 8 := Nat.mod_lt n (by decide)
  rw [hlow, hhigh, UInt8.toNat_ofNat', UInt8.toNat_ofNat', Nat.mod_mod,
    Nat.mod_eq_of_lt (show n / 256 < 2 ^ 8 by omega), ← Nat.shiftLeft_add_eq_or_of_lt hlt,
    Nat.shiftLeft_eq]
  omega

theorem toInt_of_small {x : ℤ} (hge : -2 ^ 31 ≤ x) (hlt : x < 2 ^ 31) : toInt x = x :=
  Int.bmod_eq_of_le (by omega) (by omega)

theorem Holds.avail_eq (h : Holds ps rbuf) : rbuf.avail = space ps := by
  rw [← h.sound.length_held, h.held_eq, space]

theorem Holds.tail (h : Holds (qs ++ ps) rbuf) {p : Pkt} (hp : p ∈ ps) :
    1 ≤ p.bytes.length ∧ p.bytes.length ≤ 65535 :=
  h.sizes p (List.mem_append_right _ hp)

theorem Holds.pos_eq (h : Holds (qs ++ p :: ps) rbuf) :
    p.pos = (rbuf.pread + space qs) % size :=
  (laid_append.mp h.laid).2.1

/-- The bytes of a held packet. -/
theorem Holds.byte (h : Holds (qs ++ p :: ps) rbuf) {j : ℕ} (hj : j < p.frame.length) :
    rbuf.data.byte ((rbuf.pread + (space qs + j)) % size) = p.frame.getD j 0 := by
  rw [Pkt.length_frame] at hj
  rw [h.sound.byte_held (by rw [h.avail_eq, space_append, space_cons]; omega), h.held_eq,
    List.flatMap_append, List.getD_append_right _ _ _ _ (by rw [space]; omega),
    List.flatMap_cons, List.getD_append _ _ _ _ (by rw [Pkt.length_frame, space]; omega), space,
    Nat.add_sub_cancel_left]

/-- The header of a held packet. -/
theorem Holds.header (h : Holds (qs ++ p :: ps) rbuf) :
    rbuf.pktlen p.pos = p.bytes.length ∧
      rbuf.data.byte ((p.pos + 2) % size) = if p.disposed then pktDisposed else pktReady := by
  have hlen := (h.tail List.mem_cons_self).2
  have h0 := h.byte (show 0 < p.frame.length from Nat.succ_pos _)
  have h1 := h.byte (show 1 < p.frame.length by rw [Pkt.length_frame]; omega)
  have h2 := h.byte (show 2 < p.frame.length by rw [Pkt.length_frame]; omega)
  rw [← Nat.add_assoc, ← Nat.mod_add_mod, ← h.pos_eq] at h1 h2
  rw [Nat.add_zero, ← h.pos_eq] at h0
  refine ⟨?_, h2⟩
  rw [pktlen, h0, h1]
  exact length_field hlen

/-! ### Finding the next packet -/

/-- What a search answers for a packet. -/
def Pkt.found (p : Pkt) : ℕ × ℕ := (p.pos, p.bytes.length)

/-- The search finds the first packet from where it stands that was not disposed of. -/
theorem Holds.search (h : Holds (qs ++ ps) rbuf) (hsize : size < 2 ^ 31) :
    Ends rbuf.nextBody ((space qs : ℤ), (rbuf.pread + space qs) % size)
      ((ps.find? fun p => !p.disposed).map Pkt.found) := by
  induction ps generalizing qs with
  | nil =>
    refine .exit ?_
    have havail := h.avail_eq
    rw [List.append_nil] at havail
    rw [nextBody, if_neg (by rw [havail, pkthdrsize]; omega)]
    rfl
  | cons p ps ih =>
    have havail := h.avail_eq
    have hbounds := h.sound.avail_bounds
    have hlen := (h.tail List.mem_cons_self).1
    obtain ⟨hpktlen, hstatus⟩ := h.header
    rw [space_append, space_cons] at havail
    have hmore : (pkthdrsize : ℤ) < rbuf.avail - space qs := by
      rw [havail, pkthdrsize]
      omega
    rw [← h.pos_eq]
    by_cases hd : p.disposed
    · have hpos : (p.pos + p.bytes.length + pkthdrsize) % size =
          (rbuf.pread + space (qs ++ [p])) % size := by
        rw [h.pos_eq, Nat.add_assoc, Nat.mod_add_mod, space_append, space_cons, space_nil,
          Nat.add_zero, Nat.add_assoc, pkthdrsize]
      have hconsumed : toInt (space qs + (p.bytes.length + pkthdrsize : ℕ)) =
          ((space (qs ++ [p]) : ℕ) : ℤ) := by
        rw [space_append, space_cons, space_nil, pkthdrsize,
          toInt_of_small (by omega) (by omega)]
        omega
      rw [List.find?_cons_of_neg (by simp [hd])]
      have hnext : Holds ((qs ++ [p]) ++ ps) rbuf := by rwa [List.append_assoc]
      refine .again ?_ (ih hnext)
      rw [nextBody, if_pos hmore, hstatus, if_pos hd, if_neg (by decide), hpktlen, hpos,
        hconsumed]
    · rw [List.find?_cons_of_pos (by simp [hd])]
      refine .exit ?_
      rw [nextBody, if_pos hmore, hstatus, if_neg hd, if_pos rfl, hpktlen]
      rfl

theorem Holds.next_none (h : Holds ps rbuf) (hsize : size < 2 ^ 31) :
    rbuf.PktNext none ((ps.find? fun p => !p.disposed).map Pkt.found) := by
  have hstart : rbuf.nextStart none = (((space [] : ℕ) : ℤ), (rbuf.pread + space []) % size) := by
    simp only [nextStart, Int.sub_self, space_nil, Nat.add_zero, Nat.mod_eq_of_lt h.sound.pread_lt]
    rfl
  rw [PktNext, hstart]
  have hall : Holds ([] ++ ps) rbuf := h
  exact hall.search hsize

/-- A search from a packet starts behind it. -/
theorem Holds.next_some (h : Holds (qs ++ p :: ps) rbuf) (hsize : size < 2 ^ 31) :
    rbuf.PktNext (some p.pos) ((ps.find? fun p => !p.disposed).map Pkt.found) := by
  have havail := h.avail_eq
  obtain ⟨-, hlt⟩ := h.sound.avail_bounds
  have hr := h.sound.pread_lt
  have hspace : space (qs ++ [p]) = space qs + p.bytes.length + 3 := by
    rw [space_append, space_cons, space_nil]
    omega
  rw [space_append, space_cons] at havail
  have hidx : (p.pos + p.bytes.length + pkthdrsize) % size =
      (rbuf.pread + space (qs ++ [p])) % size := by
    rw [h.pos_eq, Nat.add_assoc, Nat.mod_add_mod, hspace, pkthdrsize]
    congr 1
    omega
  have hstart : rbuf.nextStart (some p.pos) =
      (((space (qs ++ [p]) : ℕ) : ℤ), (rbuf.pread + space (qs ++ [p])) % size) := by
    simp only [nextStart, h.header.1, hidx]
    rcases Nat.lt_or_ge (rbuf.pread + space (qs ++ [p])) size with hin | hround
    · rw [Nat.mod_eq_of_lt hin, toInt_of_small (by omega) (by omega), if_neg (by omega)]
      congr 1
      omega
    · rw [Nat.mod_eq_sub_mod hround, Nat.mod_eq_of_lt (by omega),
        toInt_of_small (x := ((rbuf.pread + space (qs ++ [p]) - size : ℕ) : ℤ) - rbuf.pread)
          (by omega) (by omega),
        if_pos (by omega), toInt_of_small (by omega) (by omega)]
      congr 1
      omega
  rw [PktNext, hstart]
  exact Holds.search (by rwa [List.append_assoc]) hsize

/-- Searching again and again lists the packets that were not disposed of. -/
theorem Holds.enumerates (h : Holds (qs ++ ps) rbuf) (hsize : size < 2 ^ 31) {idx : Option ℕ}
    (hidx : rbuf.PktNext idx ((ps.find? fun p => !p.disposed).map Pkt.found)) :
    rbuf.Enumerates idx ((ps.filter fun p => !p.disposed).map Pkt.found) := by
  induction ps generalizing qs idx with
  | nil => exact .done hidx
  | cons p ps ih =>
    have h' : Holds ((qs ++ [p]) ++ ps) rbuf := by rwa [List.append_assoc]
    by_cases hd : p.disposed
    · rw [List.find?_cons_of_neg (by simp [hd])] at hidx
      rw [List.filter_cons_of_neg (by simp [hd])]
      exact ih h' hidx
    · rw [List.find?_cons_of_pos (by simp [hd])] at hidx
      rw [List.filter_cons_of_pos (by simp [hd])]
      exact .next hidx (ih h' (h.next_some hsize))

theorem Enumerates.unique {idx : Option ℕ} {l l' : List (ℕ × ℕ)} (h : rbuf.Enumerates idx l)
    (h' : rbuf.Enumerates idx l') : l = l' := by
  induction h generalizing l' with
  | done hnone =>
    cases h' with
    | done => rfl
    | next hsome => cases Ends.unique hnone hsome
  | next hsome _ ih =>
    cases h' with
    | done hnone => cases Ends.unique hsome hnone
    | next hsome' hl =>
      cases Ends.unique hsome hsome'
      rw [ih hl]

/-! ### Writing -/

theorem Sound.writeByte (h : rbuf.Sound) (hfit : 1 ≤ rbuf.free) (byte : UInt8) :
    (rbuf.writeByte byte).Sound ∧ (rbuf.writeByte byte).pread = rbuf.pread ∧
      (rbuf.writeByte byte).held = rbuf.held ++ [byte] := by
  obtain ⟨rbuf', hw, hs, hr, hheld⟩ := h.write [byte] hfit
  rw [write_singleton h.pwrite_lt, Option.some.injEq] at hw
  subst hw
  exact ⟨hs, hr, hheld⟩

/-- A packet written lies behind the others, at the old write position. -/
theorem Holds.pktWrite (h : Holds ps rbuf) {buf : List UInt8} (hlen : 1 ≤ buf.length)
    (hlen' : buf.length ≤ 65535) (hfit : (3 + buf.length : ℕ) ≤ rbuf.free) :
    ∃ rbuf', rbuf.pktWrite buf = some rbuf' ∧ Holds (ps ++ [⟨rbuf.pwrite, buf, false⟩]) rbuf' := by
  have hfree := h.sound.free_add_avail
  have hl := h.sound.length_held
  obtain ⟨hs1, hr1, hh1⟩ := h.sound.writeByte (by omega) (UInt8.ofNat (buf.length >>> 8))
  have hl1 := hs1.length_held
  have hf1 := hs1.free_add_avail
  rw [hh1, List.length_append, List.length_singleton] at hl1
  obtain ⟨hs2, hr2, hh2⟩ := hs1.writeByte (by omega) (UInt8.ofNat (buf.length &&& 0xff))
  have hl2 := hs2.length_held
  have hf2 := hs2.free_add_avail
  rw [hh2, hh1, List.length_append, List.length_append, List.length_singleton,
    List.length_singleton] at hl2
  obtain ⟨hs3, hr3, hh3⟩ := hs2.writeByte (by omega) pktReady
  have hl3 := hs3.length_held
  have hf3 := hs3.free_add_avail
  rw [hh3, hh2, hh1, List.length_append, List.length_append, List.length_append,
    List.length_singleton, List.length_singleton, List.length_singleton] at hl3
  obtain ⟨rbuf', hw, hs, hr, hh⟩ := hs3.write buf (by omega)
  have hpread : rbuf'.pread = rbuf.pread := by rw [hr, hr3, hr2, hr1]
  refine ⟨rbuf', hw, hs, ?_, ?_, ?_⟩
  · rw [hh, hh3, hh2, hh1, h.held_eq, List.flatMap_append, List.append_assoc, List.append_assoc,
      List.append_assoc]
    simp [Pkt.frame]
  · rw [laid_append, hpread]
    refine ⟨h.laid, ?_, trivial⟩
    rw [h.sound.pwrite_eq, h.avail_eq, Int.toNat_natCast]
  · intro p hp
    rcases List.mem_append.mp hp with hp | hp
    · exact h.sizes p hp
    · cases List.mem_singleton.mp hp
      exact ⟨hlen, hlen'⟩

/-! ### Disposing -/

theorem Holds.mark (h : Holds (qs ++ p :: ps) rbuf) :
    Holds (qs ++ { p with disposed := true } :: ps) (rbuf.markDisposed p.pos) := by
  have havail := h.avail_eq
  obtain ⟨-, hlt⟩ := h.sound.avail_bounds
  have hspace : space (qs ++ p :: ps) = space qs + (p.bytes.length + 3 + space ps) := by
    rw [space_append, space_cons]
  have hpos : (p.pos + 2) % size = (rbuf.pread + (space qs + 2)) % size := by
    rw [h.pos_eq, Nat.mod_add_mod, Nat.add_assoc]
  have hflags : (qs.flatMap Pkt.frame ++ (p.frame ++ ps.flatMap Pkt.frame)).set (space qs + 2)
      pktDisposed = qs.flatMap Pkt.frame ++
        ({ p with disposed := true : Pkt }.frame ++ ps.flatMap Pkt.frame) := by
    rw [space, List.set_append_right _ _ (by omega), Nat.add_sub_cancel_left]
    rfl
  refine ⟨⟨h.sound.pread_lt, h.sound.pwrite_lt⟩, ?_, ?_, ?_⟩
  · have hheld : (rbuf.markDisposed p.pos).held = rbuf.held.set (space qs + 2) pktDisposed := by
      rw [held, held, markDisposed, hpos]
      exact Ring.front_set rbuf.data.size (by omega)
    rw [hheld, h.held_eq, List.flatMap_append, List.flatMap_cons, List.flatMap_append,
      List.flatMap_cons, hflags]
  · have hlaid := laid_append.mp h.laid
    exact laid_append.mpr hlaid
  · intro r hr
    rcases List.mem_append.mp hr with hr | hr
    · exact h.sizes r (List.mem_append_left _ hr)
    · rcases List.mem_cons.mp hr with rfl | hr
      · exact h.tail (p := p) List.mem_cons_self
      · exact h.tail (List.mem_cons_of_mem _ hr)

theorem Holds.skip (h : Holds (p :: ps) rbuf) : Holds ps (rbuf.skip (p.bytes.length + pkthdrsize)) := by
  have havail := h.avail_eq
  rw [space_cons] at havail
  obtain ⟨hs, hheld⟩ := h.sound.skip (p.bytes.length + pkthdrsize)
    (by rw [pkthdrsize, havail]; omega)
  refine ⟨hs, ?_, ?_, fun r hr => h.sizes r (List.mem_cons_of_mem _ hr)⟩
  · rw [hheld, h.held_eq, List.flatMap_cons]
    exact List.drop_left' rfl
  · exact laid_mod.mpr h.laid.2

theorem Holds.clean (h : Holds ps rbuf) :
    ∃ rbuf', Ends cleanBody rbuf rbuf' ∧ Holds (ps.dropWhile Pkt.disposed) rbuf' := by
  induction ps generalizing rbuf with
  | nil =>
    refine ⟨rbuf, .exit ?_, h⟩
    rw [cleanBody, if_neg (by rw [h.avail_eq, pkthdrsize, space_nil]; omega)]
  | cons p ps ih =>
    have havail := h.avail_eq
    have hlen := (h.sizes p List.mem_cons_self).1
    have hall : Holds ([] ++ p :: ps) rbuf := h
    have hpos := hall.pos_eq
    obtain ⟨hpktlen, hstatus⟩ := hall.header
    rw [space_nil, Nat.add_zero] at hpos
    rw [space_cons] at havail
    have hpeek2 : rbuf.peek 2 = if p.disposed then pktDisposed else pktReady := by
      rw [← hstatus, hpos, Nat.mod_add_mod, peek]
    have hpeek : (rbuf.peek 0).toNat <<< 8 ||| (rbuf.peek 1).toNat = p.bytes.length := by
      rw [← hpktlen, pktlen, hpos, Nat.mod_add_mod, peek, peek, Nat.add_zero]
    have hmore : (pkthdrsize : ℤ) < rbuf.avail := by
      rw [havail, pkthdrsize]
      omega
    by_cases hd : p.disposed
    · obtain ⟨rbuf', hends, hholds⟩ := ih h.skip
      rw [List.dropWhile_cons_of_pos hd]
      refine ⟨rbuf', .again ?_ hends, hholds⟩
      rw [cleanBody, if_pos hmore, hpeek2, if_pos hd, if_pos rfl, hpeek]
    · rw [List.dropWhile_cons_of_neg hd]
      refine ⟨rbuf, .exit ?_, h⟩
      rw [cleanBody, if_pos hmore, hpeek2, if_neg hd, if_neg (by decide)]

/-! ### Reading -/

/-- What a read of a held packet gives: its bytes from the offset on, no more than asked for. -/
def Pkt.readAt (p : Pkt) (offset : ℤ) (len : ℕ) : Except ℤ (List UInt8) :=
  if 0 ≤ offset ∧ offset ≤ p.bytes.length then .ok ((p.bytes.drop offset.toNat).take len)
  else .error (-einval)

/-- The bytes of a held packet, seen from the read position. -/
theorem Holds.bytes_front (h : Holds (qs ++ p :: ps) rbuf) {m n : ℕ}
    (hmn : m + n ≤ p.bytes.length) :
    Ring.front rbuf.data.cells ((p.pos + pkthdrsize + m) % size) n = (p.bytes.drop m).take n := by
  have havail := h.avail_eq
  obtain ⟨-, hlt⟩ := h.sound.avail_bounds
  rw [space_append, space_cons] at havail
  have hpos : (p.pos + pkthdrsize + m) % size = (rbuf.pread + (space qs + 3 + m)) % size := by
    rw [h.pos_eq, Nat.add_assoc, Nat.mod_add_mod, pkthdrsize]
    congr 1
    omega
  have hdrop := Ring.drop_front (i := rbuf.pread) rbuf.data.size
    (show space qs + 3 + m ≤ rbuf.avail.toNat by omega) (by omega)
  have hheld : rbuf.held.drop (space qs + 3 + m) =
      p.bytes.drop m ++ ps.flatMap Pkt.frame := by
    rw [h.held_eq, List.flatMap_append, List.flatMap_cons, Nat.add_assoc, ← List.drop_drop, space,
      List.drop_left, ← List.drop_drop, Pkt.frame]
    simp only [List.cons_append, List.drop_succ_cons, List.drop_zero]
    exact List.drop_append_of_le_length (by omega)
  rw [held, hdrop, ← hpos] at hheld
  have htake := @Ring.take_front _ rbuf.data.cells ((p.pos + pkthdrsize + m) % size)
    (rbuf.avail.toNat - (space qs + 3 + m)) n (by omega)
  rw [← htake, hheld, List.take_append_of_le_length (by rw [List.length_drop]; omega)]

theorem Holds.pktRead (h : Holds (qs ++ p :: ps) rbuf) (offset : Int32) (len : ℕ) :
    rbuf.pktRead p.pos offset len = some (p.readAt offset.toInt len) := by
  have hlen := (h.tail List.mem_cons_self).2
  have havail := h.avail_eq
  obtain ⟨-, hlt⟩ := h.sound.avail_bounds
  rw [space_append, space_cons] at havail
  have hmin := offset.le_toInt
  have hmax := offset.toInt_lt
  rw [DvbRingbuffer.pktRead, h.header.1]
  by_cases hneg : 0 ≤ offset.toInt
  · rw [Int.emod_eq_of_lt hneg (by omega)]
    by_cases hbig : p.bytes.length < offset.toInt.toNat
    · have herr : p.readAt offset.toInt len = .error (-einval) := if_neg (by omega)
      rw [if_pos hbig, herr]
    · have hok : p.readAt offset.toInt len = .ok ((p.bytes.drop offset.toInt.toNat).take len) :=
        if_pos ⟨hneg, by omega⟩
      obtain ⟨n, hn⟩ : ∃ n, n = if p.bytes.length < offset.toInt.toNat + len then
        p.bytes.length - offset.toInt.toNat else len := ⟨_, rfl⟩
      have hfit : offset.toInt.toNat + n ≤ p.bytes.length := by
        rw [hn]
        split <;> omega
      have hsize : 0 < size := Nat.zero_lt_of_lt h.sound.pread_lt
      obtain ⟨q, hcopy, -⟩ := copyOut_eq rbuf.data
        (Nat.mod_lt (p.pos + pkthdrsize + offset.toInt.toNat) hsize) (show n < size by omega)
      have htake : (p.bytes.drop offset.toInt.toNat).take n =
          (p.bytes.drop offset.toInt.toNat).take len := by
        rw [hn]
        split
        · rw [List.take_of_length_le (by rw [List.length_drop]),
            List.take_of_length_le (by rw [List.length_drop]; omega)]
        · rfl
      rw [h.bytes_front hfit, htake] at hcopy
      simp only [if_neg hbig, ← hn, hcopy, hok]
      rfl
  · have hbig : p.bytes.length < (offset.toInt % 2 ^ 64).toNat := by omega
    have herr : p.readAt offset.toInt len = .error (-einval) := if_neg fun hc => hneg hc.1
    rw [if_pos hbig, herr]

/-! ### Runs -/

/-- The packets whose space is not free: those from the first one on that was not disposed of. -/
def kept (log : List Pkt) : List Pkt := log.dropWhile Pkt.disposed

/-- A fresh buffer after packets that fit were written and packets still kept were disposed of, in
    any order; `log` has the packets written, in that order. Reading packets and searching for them
    change nothing. -/
inductive PktRun (data : Buff UInt8 size) : List Pkt → DvbRingbuffer size → Prop where
  | init : PktRun data [] (init data)
  | write {log : List Pkt} {rbuf rbuf' : DvbRingbuffer size} {buf : List UInt8}
      (h : PktRun data log rbuf) (hlen : 1 ≤ buf.length) (hlen' : buf.length ≤ 65535)
      (hfit : (3 + buf.length : ℕ) ≤ rbuf.free) (hw : rbuf.pktWrite buf = some rbuf') :
      PktRun data (log ++ [⟨rbuf.pwrite, buf, false⟩]) rbuf'
  | dispose {gone qs ps : List Pkt} {p : Pkt} {rbuf rbuf' : DvbRingbuffer size}
      (h : PktRun data (gone ++ qs ++ p :: ps) rbuf)
      (hkept : kept (gone ++ qs ++ p :: ps) = qs ++ p :: ps)
      (hd : rbuf.PktDispose p.pos rbuf') :
      PktRun data (gone ++ qs ++ { p with disposed := true } :: ps) rbuf'

variable {log gone : List Pkt}

theorem kept_append_ready (log : List Pkt) (hp : p.disposed = false) :
    kept (log ++ [p]) = kept log ++ [p] := by
  induction log with
  | nil => rw [kept, List.nil_append, List.dropWhile_cons_of_neg (by simp [hp])]; rfl
  | cons q log ih =>
    rw [kept, kept, List.cons_append, List.dropWhile_cons, List.dropWhile_cons]
    split
    · exact ih
    · rfl

theorem gone_disposed (h : kept (gone ++ ps) = ps) : ∀ q ∈ gone, q.disposed := by
  have hlen := congrArg List.length (List.takeWhile_append_dropWhile (p := Pkt.disposed)
    (l := gone ++ ps))
  rw [kept] at h
  rw [h, List.length_append, List.length_append, Nat.add_right_cancel_iff] at hlen
  have hpre : (gone ++ ps).takeWhile Pkt.disposed = gone := by
    have hprefix := List.takeWhile_prefix Pkt.disposed (l := gone ++ ps)
    exact (List.prefix_of_prefix_length_le hprefix (List.prefix_append gone ps)
      (Nat.le_of_eq hlen)).eq_of_length hlen
  intro q hq
  rw [← hpre] at hq
  exact List.all_eq_true.mp List.all_takeWhile q hq

theorem kept_gone (hgone : ∀ q ∈ gone, q.disposed) (ps : List Pkt) :
    kept (gone ++ ps) = kept ps := by
  induction gone with
  | nil => rfl
  | cons q gone ih =>
    rw [kept, List.cons_append, List.dropWhile_cons_of_pos (hgone q List.mem_cons_self)]
    exact ih fun r hr => hgone r (List.mem_cons_of_mem _ hr)

/-- Disposing of a kept packet frees the packets no longer kept. -/
theorem Holds.dispose (h : Holds (qs ++ p :: ps) rbuf)
    (hgone : ∀ q ∈ gone, q.disposed) :
    ∃ rbuf', rbuf.PktDispose p.pos rbuf' ∧
      Holds (kept (gone ++ qs ++ { p with disposed := true } :: ps)) rbuf' := by
  obtain ⟨rbuf', hends, hholds⟩ := h.mark.clean
  refine ⟨rbuf', hends, ?_⟩
  rw [List.append_assoc, kept_gone hgone]
  exact hholds

theorem holds_init (data : Buff UInt8 size) (hsize : 0 < size) : Holds [] (init data) where
  sound := ⟨hsize, hsize⟩
  held_eq := by simp [held, avail, init, Ring.front]
  laid := trivial
  sizes := by simp

theorem PktRun.holds {data : Buff UInt8 size} (hsize : 0 < size) (h : PktRun data log rbuf) :
    Holds (kept log) rbuf := by
  induction h with
  | init => exact holds_init data hsize
  | write _ hlen hlen' hfit hw ih =>
    obtain ⟨rbuf', hw', hholds⟩ := ih.pktWrite hlen hlen' hfit
    rw [hw, Option.some.injEq] at hw'
    rw [hw', kept_append_ready _ rfl]
    exact hholds
  | dispose _ hkept hd ih =>
    rw [hkept] at ih
    rw [List.append_assoc] at hkept
    obtain ⟨rbuf', hd', hholds⟩ := ih.dispose (gone_disposed hkept)
    rw [Ends.unique hd hd']
    exact hholds

theorem filter_kept (log : List Pkt) :
    ((kept log).filter fun p => !p.disposed) = log.filter fun p => !p.disposed := by
  induction log with
  | nil => rfl
  | cons p log ih =>
    by_cases hd : p.disposed
    · rw [kept, List.dropWhile_cons_of_pos hd, List.filter_cons_of_neg (by simp [hd])]
      exact ih
    · rw [kept, List.dropWhile_cons_of_neg hd]

/-- The packet layer. After any run: searching from the start again and again ends, with exactly the
    packets written and not disposed of, in writing order and with their lengths; a search from a
    kept packet gives the next one not disposed of; the bytes waiting are those of the packets from
    the first one on that was not disposed of, so that disposing frees the longest run of disposed
    packets at the front and nothing more; a kept packet reads as it was written; a packet that fits
    can be written and a kept packet can be disposed of. -/
theorem ringbuffer_packets {data : Buff UInt8 size} (hsize : 0 < size) (hint : size < 2 ^ 31)
    (h : PktRun data log rbuf) :
    (∀ l, rbuf.Enumerates none l ↔ l = (log.filter fun p => !p.disposed).map Pkt.found) ∧
    rbuf.avail = (((kept log).map fun p => 3 + p.bytes.length).sum : ℕ) ∧
    (∀ buf, 1 ≤ buf.length → buf.length ≤ 65535 → (3 + buf.length : ℕ) ≤ rbuf.free →
      ∃ rbuf', rbuf.pktWrite buf = some rbuf') ∧
    ∀ gone qs p ps, log = gone ++ qs ++ p :: ps → kept log = qs ++ p :: ps →
      (∀ offset len, rbuf.pktRead p.pos offset len = some (p.readAt offset.toInt len)) ∧
      (∀ r, rbuf.PktNext (some p.pos) r ↔ r = (ps.find? fun p => !p.disposed).map Pkt.found) ∧
      ∃ rbuf', rbuf.PktDispose p.pos rbuf' := by
  have hholds := h.holds hsize
  refine ⟨?_, ?_, ?_, ?_⟩
  · have hall : rbuf.Enumerates none (((kept log).filter fun p => !p.disposed).map Pkt.found) :=
      @Holds.enumerates _ _ (kept log) [] hholds hint _ (hholds.next_none hint)
    rw [filter_kept] at hall
    refine fun l => ⟨fun hl => hl.unique hall, ?_⟩
    rintro rfl
    exact hall
  · rw [hholds.avail_eq, space, List.length_flatMap]
    congr 2
    exact List.map_congr_left fun p _ => by rw [Pkt.length_frame, Nat.add_comm]
  · intro buf hlen hlen' hfit
    obtain ⟨rbuf', hw, -⟩ := hholds.pktWrite hlen hlen' hfit
    exact ⟨rbuf', hw⟩
  · rintro gone qs p ps rfl hkept
    rw [hkept] at hholds
    rw [List.append_assoc] at hkept
    refine ⟨hholds.pktRead, fun r => ⟨fun hr => hr.unique (hholds.next_some hint), ?_⟩, ?_⟩
    · rintro rfl
      exact hholds.next_some hint
    · obtain ⟨rbuf', hd, -⟩ := hholds.dispose (gone_disposed hkept)
      exact ⟨rbuf', hd⟩

/-- Two packets, the first disposed of. -/
theorem ringbuffer_packets_two :
    ∃ rbuf : DvbRingbuffer 12,
      PktRun (Buff.zeros 12) [⟨0, [1, 2], true⟩, ⟨5, [3], false⟩] rbuf ∧
        rbuf.Enumerates none [(5, 1)] := by
  have h1 : PktRun (Buff.zeros 12) ([] ++ [⟨0, [1, 2], false⟩])
      ⟨⟨[0, 2, 0, 1, 2, 0, 0, 0, 0, 0, 0, 0], rfl⟩, 0, 5, 0⟩ :=
    .write .init (by decide) (by decide) (by decide) rfl
  have h2 : PktRun (Buff.zeros 12) ([⟨0, [1, 2], false⟩] ++ [⟨5, [3], false⟩])
      ⟨⟨[0, 2, 0, 1, 2, 0, 1, 0, 3, 0, 0, 0], rfl⟩, 0, 9, 0⟩ :=
    .write h1 (by decide) (by decide) (by decide) rfl
  have h3 : PktRun (Buff.zeros 12) ([] ++ [] ++ ⟨0, [1, 2], true⟩ :: [⟨5, [3], false⟩])
      ⟨⟨[0, 2, 1, 1, 2, 0, 1, 0, 3, 0, 0, 0], rfl⟩, 5, 9, 0⟩ :=
    .dispose (p := ⟨0, [1, 2], false⟩) h2 rfl ⟨2, rfl⟩
  exact ⟨_, h3, ((ringbuffer_packets (by decide) (by decide) h3).1 _).mpr rfl⟩

end DvbRingbuffer

end Dvb

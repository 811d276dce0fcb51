import NeumoDrivers.Demux.FilterDecisions
import NeumoDrivers.Dvb.Ule
import Mathlib

/-! Datagrams in sections, multiprotocol encapsulation (`neumo-dvb-net.c`).

    An interface of the MPE kind has one section feed, with a filter for every address it listens to.
    The destination of a datagram is spread over the header of its section, last byte first. That the
    filters can be allocated is taken for granted. -/

namespace Dvb.Mpe
open Demux Ule Memory

/-! ### The filters -/

def maskNormal : List UInt8 := List.replicate ethAlen 0xff
def maskAllmulti : List UInt8 := [0xff, 0xff, 0xff, 0x00, 0x00, 0x00]
def macAllmulti : List UInt8 := [0x01, 0x00, 0x5e, 0x00, 0x00, 0x00]
def maskPromisc : List UInt8 := List.replicate ethAlen 0x00

/-- The bytes of a filter, or of its mask. -/
def secBytes (first : UInt8) (mac : List UInt8) : List UInt8 :=
  [first, 0, 0, mac.getD 5 0, mac.getD 4 0, 0, 0, 0, mac.getD 3 0, mac.getD 2 0, mac.getD 1 0,
    mac.getD 0 0, 0, 0, 0, 0, 0, 0]

/-- `dvb_net_filter_sec_set`, and `prepare_secfilters` for the filter. -/
def dvbNetFilterSecSet (mac macMask : List UInt8) : SectionFilter :=
  prepareSecfilter (secBytes 0x3e mac) (secBytes 0xff macMask)
    (List.replicate DMX_MAX_FILTER_SIZE 0xff)

/-- The filters that `dvb_net_feed_start` sets, one after the other. -/
def secfilters (dev : NetDevice) : List SectionFilter :=
  match dev.rxMode with
  | .uni => [dvbNetFilterSecSet dev.devAddr maskNormal]
  | .multi =>
    dvbNetFilterSecSet dev.devAddr maskNormal ::
      (dev.multiMacs.take dev.multiNum).map fun mac => dvbNetFilterSecSet mac maskNormal
  | .allMulti =>
    [dvbNetFilterSecSet dev.devAddr maskNormal, dvbNetFilterSecSet macAllmulti maskAllmulti]
  | .promisc => [dvbNetFilterSecSet dev.devAddr maskPromisc]

/-- `dvb_net_feed_start`, for an interface of the MPE kind. A filter is put in front of those that the
    feed has, and `dvb_net_sec_callback` returns 0. -/
def dvbNetFeedStart (dev : NetDevice) (checkCrc32 : List UInt8 → UInt32) : SectionUse where
  isFiltering := true
  sectionFilter := (secfilters dev).reverse
  checkCrc := true
  checkCrc32 := checkCrc32
  cb := fun _ => 0

/-! ### A section -/

/-- What `dvb_net_sec` changes: the statistics of the device, the packets that `netif_rx` has got, and
    how often an skb was asked for. -/
structure NetState where
  rxPackets : ℕ
  rxBytes : ℕ
  rxErrors : ℕ
  rxDropped : ℕ
  rxLengthErrors : ℕ
  rxCrcErrors : ℕ
  rxFrameErrors : ℕ
  received : List Ule.Received
  allocs : ℕ

/-- A packet is counted and passed on. -/
def NetState.netifRx (st : NetState) (packet : Ule.Received) : NetState :=
  { st with
    rxPackets := st.rxPackets + 1
    rxBytes := st.rxBytes + packet.data.length
    received := st.received ++ [packet] }

/-- The length of the LLC/SNAP header, `snap`. -/
def snapOf (pkt : List UInt8) : ℕ := if pkt.getD 5 0 &&& 0x02 ≠ 0 then 8 else 0

/-- The Ethernet header for a section. -/
def ethHeader (pkt : List UInt8) (snap : ℕ) : List UInt8 :=
  [pkt.getD 11 0, pkt.getD 10 0, pkt.getD 9 0, pkt.getD 8 0, pkt.getD 4 0, pkt.getD 3 0] ++ zeroAddr ++
    if snap ≠ 0 then [pkt.getD 18 0, pkt.getD 19 0]
    else if pkt.getD 12 0 >>> 4 = 6 then [0x86, 0xdd] else [0x08, 0x00]

variable (dev : NetDevice) (alloc : SkbAllocator)

/-- `dvb_net_sec` from the call of `dev_alloc_skb` on. -/
def passUp (st : NetState) (pkt : List UInt8) (snap : ℕ) : Except Stop NetState := do
  let n := st.allocs
  let st := { st with allocs := n + 1 }
  if alloc.fails n then return { st with rxDropped := st.rxDropped + 1 }
  -- two of the bytes are reserved
  let skb : SkBuff := ⟨2, [], fun i => alloc.memory n (2 + i), pkt.length - 4 - 12 + 14 - snap⟩
  let skb ← skb.putData (ethHeader pkt snap ++
    (pkt.drop (12 + snap)).take (pkt.length - 12 - 4 - snap))
  return st.netifRx (dvbNetEthTypeTrans dev skb)

/-- `dvb_net_sec` -/
def dvbNetSec (st : NetState) (pkt : List UInt8) : Except Stop NetState :=
  if pkt.length < 16 then
    .ok { st with rxErrors := st.rxErrors + 1, rxLengthErrors := st.rxLengthErrors + 1 }
  else if pkt.getD 5 0 &&& 0x3c ≠ 0 then
    .ok { st with rxErrors := st.rxErrors + 1, rxCrcErrors := st.rxCrcErrors + 1 }
  else if pkt.getD 5 0 &&& 0x02 ≠ 0 ∧
      (pkt.length < 24 ∨ (pkt.drop 12).take 6 ≠ [0xaa, 0xaa, 0x03, 0, 0, 0]) then
    .ok { st with rxDropped := st.rxDropped + 1 }
  else
    if pkt.getD 7 0 ≠ 0 then
      .ok { st with rxErrors := st.rxErrors + 1, rxFrameErrors := st.rxFrameErrors + 1 }
    else passUp dev alloc st pkt (snapOf pkt)

variable {dev alloc} {st : NetState} {pkt : List UInt8} {snap n : ℕ}

/-! ### The statistics -/

/-- What the counters say after `n` sections. -/
structure NetState.Counts (st : NetState) (n : ℕ) : Prop where
  sections : st.rxPackets + st.rxErrors + st.rxDropped = n
  errors : st.rxErrors = st.rxLengthErrors + st.rxCrcErrors + st.rxFrameErrors
  packets : st.rxPackets = st.received.length
  bytes : st.rxBytes = (st.received.map fun packet => packet.data.length).sum

/-- The frame that a section is made into. -/
def frame (pkt : List UInt8) (snap : ℕ) : List UInt8 :=
  ethHeader pkt snap ++ (pkt.drop (12 + snap)).take (pkt.length - 12 - 4 - snap)

theorem length_ethHeader (pkt : List UInt8) (snap : ℕ) : (ethHeader pkt snap).length = ethHlen := by
  rw [ethHeader]
  split_ifs <;> rfl

/-- The room in the skb is what the frame needs. -/
theorem length_frame (hlong : 16 + snap ≤ pkt.length) :
    (frame pkt snap).length = pkt.length - 4 - 12 + 14 - snap := by
  rw [frame, List.length_append, length_ethHeader, List.length_take, List.length_drop, ethHlen]
  omega

/-- What `netif_rx` gets for a section, in the `n`-th skb. -/
def packetOf (dev : NetDevice) (alloc : SkbAllocator) (n : ℕ) (pkt : List UInt8) (snap : ℕ) :
    Ule.Received :=
  dvbNetEthTypeTrans dev
    ⟨2, frame pkt snap, fun i => alloc.memory n (2 + ((frame pkt snap).length + i)), 0⟩

/-- The skb, if there is one, is full when the frame is in it. -/
theorem passUp_eq (hlong : 16 + snap ≤ pkt.length) : passUp dev alloc st pkt snap =
    .ok (if alloc.fails st.allocs then
        { st with allocs := st.allocs + 1, rxDropped := st.rxDropped + 1 }
      else NetState.netifRx { st with allocs := st.allocs + 1 }
        (packetOf dev alloc st.allocs pkt snap)) := by
  rw [passUp]
  dsimp only
  split_ifs with hmem
  · rfl
  · have hlen := length_frame hlong
    rw [← frame, SkBuff.putData, if_pos (Nat.le_of_eq hlen), hlen, Nat.sub_self, packetOf, hlen]
    rfl

/-- What is behind the Ethernet header. -/
theorem packetOf_data : (packetOf dev alloc n pkt snap).data =
    (pkt.drop (12 + snap)).take (pkt.length - 12 - 4 - snap) := by
  have hfits : ethHlen ≤ (frame pkt snap).length := by
    rw [frame, List.length_append, length_ethHeader]
    exact Nat.le_add_right ..
  rw [packetOf, dvbNetEthTypeTrans]
  dsimp only
  rw [SkBuff.pull, SkBuff.len, if_pos hfits]
  exact List.drop_left' (length_ethHeader pkt snap)

theorem NetState.Counts.passUp (h : st.Counts n) (hlong : 16 + snap ≤ pkt.length) :
    ∃ st', passUp dev alloc st pkt snap = .ok st' ∧ st'.Counts (n + 1) := by
  obtain ⟨hsections, herrors, hpackets, hbytes⟩ := h
  refine ⟨_, passUp_eq hlong, ?_⟩
  split_ifs
  · exact ⟨by dsimp only; omega, herrors, hpackets, hbytes⟩
  · rw [NetState.netifRx]
    refine ⟨by dsimp only; omega, herrors, ?_, ?_⟩
    · rw [List.length_append, ← hpackets]
      rfl
    · rw [List.map_append, List.sum_append, ← hbytes]
      rfl

/-- A section never stops the kernel, and is counted once. -/
theorem NetState.Counts.section (h : st.Counts n) (pkt : List UInt8) :
    ∃ st', dvbNetSec dev alloc st pkt = .ok st' ∧ st'.Counts (n + 1) := by
  have hcounts := h
  obtain ⟨hsections, herrors, hpackets, hbytes⟩ := h
  rw [dvbNetSec]
  split_ifs with hshort hscrambled hllc hlast
  · exact ⟨_, rfl, by dsimp only; omega, by dsimp only; omega, hpackets, hbytes⟩
  · exact ⟨_, rfl, by dsimp only; omega, by dsimp only; omega, hpackets, hbytes⟩
  · exact ⟨_, rfl, by dsimp only; omega, herrors, hpackets, hbytes⟩
  · exact ⟨_, rfl, by dsimp only; omega, by dsimp only; omega, hpackets, hbytes⟩
  · refine hcounts.passUp ?_
    rw [snapOf]
    split_ifs with hsnap
    · have := (not_or.mp fun hbad => hllc ⟨hsnap, hbad⟩).1
      omega
    · omega

/-- The state when nothing has been received. -/
def netInit : NetState := ⟨0, 0, 0, 0, 0, 0, 0, [], 0⟩

theorem counts_run : ∀ (pkts : List (List UInt8)) {st : NetState} {n : ℕ}, st.Counts n →
    ∃ st', pkts.foldlM (dvbNetSec dev alloc) st = .ok st' ∧ st'.Counts (n + pkts.length)
  | [], st, n, h => ⟨st, rfl, h⟩
  | pkt :: pkts, st, n, h => by
    obtain ⟨st₁, hfirst, hcounts⟩ := @NetState.Counts.section dev alloc st n h pkt
    obtain ⟨st', hrun, hrest⟩ := counts_run pkts hcounts
    refine ⟨st', ?_, ?_⟩
    · rw [List.foldlM_cons, hfirst]
      exact hrun
    · rwa [List.length_cons, Nat.add_comm pkts.length, ← Nat.add_assoc]

/-- Whatever sections come, none stops the kernel, and the statistics tell each of them once. -/
theorem sections_counted (dev : NetDevice) (alloc : SkbAllocator) (pkts : List (List UInt8)) :
    ∃ st, pkts.foldlM (dvbNetSec dev alloc) netInit = .ok st ∧ st.Counts pkts.length := by
  obtain ⟨st, hrun, hcounts⟩ := @counts_run dev alloc pkts netInit 0 ⟨rfl, rfl, rfl, rfl⟩
  exact ⟨st, hrun, by rwa [Nat.zero_add] at hcounts⟩

/-! ### Who is listening -/

variable {mac mask dest : List UInt8} {buf : ℕ → UInt8} {i : ℕ}

/-- The destination of the datagram in a section. -/
def destination (buf : ℕ → UInt8) : List UInt8 := [11, 10, 9, 8, 4, 3].map buf

/-- The destination agrees with an address in the bits of the mask. -/
def Agrees (mask mac dest : List UInt8) : Prop :=
  ∀ k < ethAlen, mask.getD k 0 &&& (mac.getD k 0 ^^^ dest.getD k 0) = 0

theorem ff_and (x : UInt8) : 0xff &&& x = x := UInt8.neg_one_and

theorem and_ff (x : UInt8) : x &&& 0xff = x := UInt8.and_neg_one

theorem secMode (hi : i < DVB_DEMUX_MASK_MAX) :
    (List.replicate DMX_MAX_FILTER_SIZE (0xff : UInt8)).getD i 0 = 0xff := List.getD_replicate _ hi

theorem secfilter_positive (hi : i < DVB_DEMUX_MASK_MAX) :
    (dvbNetFilterSecSet mac mask).positive buf i =
      (secBytes 0xff mask).getD i 0 &&& ((secBytes 0x3e mac).getD i 0 ^^^ buf i) := by
  rw [SectionFilter.positive, dvbNetFilterSecSet, prepareSecfilter]
  dsimp only
  rw [map_range_getD _ hi, secMode hi, and_ff]

theorem secfilter_doneq : (dvbNetFilterSecSet mac mask).doneq = false := by
  rw [dvbNetFilterSecSet, prepareSecfilter]
  dsimp only
  rw [List.any_map, List.any_eq_false]
  intro i hi
  rw [Function.comp_apply, secMode (List.mem_range.mp hi), show ~~~(0xff : UInt8) = 0 from rfl,
    UInt8.and_zero]
  rintro ⟨⟩

theorem forall_lt_six {p : ℕ → Prop} :
    (∀ k < ethAlen, p k) ↔ p 0 ∧ p 1 ∧ p 2 ∧ p 3 ∧ p 4 ∧ p 5 := by
  simp only [ethAlen, Nat.forall_lt_succ_right, Nat.not_lt_zero, IsEmpty.forall_iff, implies_true,
    true_and, and_assoc]

/-- A filter looks at the table id and at the six bytes of the destination. -/
theorem passes_iff : filterPasses buf (dvbNetFilterSecSet mac mask) = true ↔
    buf 0 = 0x3e ∧ Agrees mask mac (destination buf) := by
  have hall : (∀ i < DVB_DEMUX_MASK_MAX, (dvbNetFilterSecSet mac mask).positive buf i = 0) ↔
      ∀ i < 18, (secBytes 0xff mask).getD i 0 &&& ((secBytes 0x3e mac).getD i 0 ^^^ buf i) = 0 :=
    forall₂_congr fun i hi => by rw [secfilter_positive hi]
  rw [filterPasses_iff, secfilter_doneq, hall, Agrees, forall_lt_six]
  simp only [Nat.forall_lt_succ_right, Nat.not_lt_zero, IsEmpty.forall_iff, implies_true, true_and]
  simp [secBytes, destination, ff_and, @eq_comm _ (buf 0)]
  tauto

theorem eq_of_getD {l l' : List UInt8} (hl : l.length = ethAlen) (hl' : l'.length = ethAlen)
    (h : ∀ k < ethAlen, l.getD k 0 = l'.getD k 0) : l = l' := by
  refine List.ext_getElem (hl.trans hl'.symm) fun k hk hk' => ?_
  have hsame := h k (hl ▸ hk)
  rwa [List.getD_eq_getElem _ _ hk, List.getD_eq_getElem _ _ hk'] at hsame

theorem agrees_normal (hmac : mac.length = ethAlen) (hdest : dest.length = ethAlen) :
    Agrees maskNormal mac dest ↔ mac = dest := by
  have hmask : ∀ k < ethAlen, maskNormal.getD k 0 = 0xff := by decide
  constructor
  · intro h
    refine eq_of_getD hmac hdest fun k hk => ?_
    have hk' := h k hk
    rwa [hmask k hk, ff_and, UInt8.xor_eq_zero_iff] at hk'
  · rintro rfl k hk
    rw [UInt8.xor_self, UInt8.and_zero]

theorem agrees_promisc : Agrees maskPromisc mac dest := by
  rw [Agrees, forall_lt_six]
  simp [maskPromisc, ethAlen]

/-- The addresses of IPv4 multicast begin alike. -/
theorem agrees_allmulti (hdest : dest.length = ethAlen) :
    Agrees maskAllmulti macAllmulti dest ↔ dest.take 3 = macAllmulti.take 3 := by
  rcases dest with _ | ⟨a, _ | ⟨b, _ | ⟨c, l⟩⟩⟩ <;> try cases hdest
  rw [Agrees, forall_lt_six]
  simp [maskAllmulti, macAllmulti, ff_and, @eq_comm _ a, @eq_comm _ c]

/-- How often a section with this destination is given to the interface. -/
def copies (dev : NetDevice) (dest : List UInt8) : ℕ :=
  let own := if dev.devAddr = dest then 1 else 0
  match dev.rxMode with
  | .uni => own
  | .multi => own + (dev.multiMacs.take dev.multiNum).count dest
  | .allMulti => own + if dest.take 3 = macAllmulti.take 3 then 1 else 0
  | .promisc => 1

/-- The addresses that the interface has are MAC addresses. -/
structure Proper (dev : NetDevice) : Prop where
  own : dev.devAddr.length = ethAlen
  multi : ∀ mac ∈ dev.multiMacs, mac.length = ethAlen

theorem countP_secfilters (hdev : Proper dev) (htable : buf 0 = 0x3e) :
    (secfilters dev).countP (filterPasses buf) = copies dev (destination buf) := by
  have hdest : (destination buf).length = ethAlen := rfl
  have hpasses (mac mask : List UInt8) : filterPasses buf (dvbNetFilterSecSet mac mask) = true ↔
      Agrees mask mac (destination buf) := passes_iff.trans (and_iff_right htable)
  have hown : (filterPasses buf (dvbNetFilterSecSet dev.devAddr maskNormal) = true) ↔
      dev.devAddr = destination buf := (hpasses _ _).trans (agrees_normal hdev.own hdest)
  rw [secfilters, copies]
  cases dev.rxMode with
  | uni => simp only [List.countP_singleton, hown]
  | multi =>
    simp only [List.countP_cons, hown, List.countP_map]
    rw [Nat.add_comm, List.count]
    congr 1
    refine List.countP_congr fun mac hmac => ?_
    rw [Function.comp_apply, hpasses,
      agrees_normal (hdev.multi mac (List.mem_of_mem_take hmac)) hdest, beq_iff_eq]
  | allMulti =>
    simp only [List.countP_cons, List.countP_nil, hown, hpasses, agrees_allmulti hdest]
    omega
  | promisc => simp only [List.countP_singleton, hpasses, agrees_promisc, if_true]

/-! ### A datagram on its way -/

/-- A datagram, with the two bytes of its type if it has an LLC/SNAP header. -/
structure Datagram where
  dest : List UInt8
  llc : Option (UInt8 × UInt8)
  payload : List UInt8
  dest_length : dest.length = ethAlen
  payload_ne : payload ≠ []

namespace Datagram
variable (d : Datagram) (b1 b2 : UInt8) {crc : List UInt8}

def llcHeader : List UInt8 :=
  match d.llc with
  | none => []
  | some (a, b) => [0xaa, 0xaa, 0x03, 0, 0, 0, a, b]

/-- The header of a section; `b1` and `b2` hold its length. -/
def header : List UInt8 :=
  [0x3e, b1, b2, d.dest.getD 5 0, d.dest.getD 4 0, if d.llc.isNone then 0xc1 else 0xc3, 0, 0,
    d.dest.getD 3 0, d.dest.getD 2 0, d.dest.getD 1 0, d.dest.getD 0 0]

def encode (crc : List UInt8) : List UInt8 := d.header b1 b2 ++ d.llcHeader ++ d.payload ++ crc

def proto : List UInt8 :=
  match d.llc with
  | none => if d.payload.getD 0 0 >>> 4 = 6 then [0x86, 0xdd] else [0x08, 0x00]
  | some (a, b) => [a, b]

/-- What arrives: an Ethernet frame without a source. -/
def frame : List UInt8 := d.dest ++ zeroAddr ++ d.proto ++ d.payload

theorem six (d : Datagram) : [d.dest.getD 0 0, d.dest.getD 1 0, d.dest.getD 2 0, d.dest.getD 3 0,
    d.dest.getD 4 0, d.dest.getD 5 0] = d.dest := by
  refine eq_of_getD rfl d.dest_length (forall_lt_six.mpr ⟨rfl, rfl, rfl, rfl, rfl, rfl⟩)

theorem length_encode (hcrc : crc.length = 4) : (d.encode b1 b2 crc).length =
    12 + d.llcHeader.length + d.payload.length + 4 := by
  simp only [Datagram.encode, List.length_append, hcrc]
  rfl

/-- What the flags of the header say. -/
theorem flags_encode (hcrc : crc.length = 4) : (d.encode b1 b2 crc).getD 5 0 &&& 0x3c = 0 ∧
    snapOf (d.encode b1 b2 crc) = d.llcHeader.length ∧
      ¬((d.encode b1 b2 crc).getD 5 0 &&& 0x02 ≠ 0 ∧ ((d.encode b1 b2 crc).length < 24 ∨
        ((d.encode b1 b2 crc).drop 12).take 6 ≠ [0xaa, 0xaa, 0x03, 0, 0, 0])) := by
  have hflags : (d.encode b1 b2 crc).getD 5 0 = if d.llc.isNone then 0xc1 else 0xc3 := rfl
  rw [snapOf, hflags, d.length_encode b1 b2 hcrc, encode, llcHeader]
  cases d.llc with
  | none => exact ⟨rfl, rfl, fun h => h.1 rfl⟩
  | some type =>
    refine ⟨show (0xc3 : UInt8) &&& 0x3c = 0 by decide,
      if_pos (show (0xc3 : UInt8) &&& 0x02 ≠ 0 by decide), ?_⟩
    rintro ⟨-, hlt | hne⟩
    · simp at hlt
      omega
    · exact hne rfl

theorem payload_encode (hcrc : crc.length = 4) :
    ((d.encode b1 b2 crc).drop (12 + d.llcHeader.length)).take
      ((d.encode b1 b2 crc).length - 12 - 4 - d.llcHeader.length) = d.payload := by
  have hhead : (d.header b1 b2 ++ d.llcHeader).length = 12 + d.llcHeader.length :=
    List.length_append
  rw [d.length_encode b1 b2 hcrc, Datagram.encode, List.append_assoc, List.drop_left' hhead]
  exact List.take_left' (by omega)

/-- The header that the section gets, and what is left of it. -/
theorem frame_encode (hcrc : crc.length = 4) :
    Mpe.frame (d.encode b1 b2 crc) d.llcHeader.length = d.frame := by
  have hproto : (if d.llcHeader.length ≠ 0 then
      [(d.encode b1 b2 crc).getD 18 0, (d.encode b1 b2 crc).getD 19 0]
      else if (d.encode b1 b2 crc).getD 12 0 >>> 4 = 6 then [0x86, 0xdd] else [0x08, 0x00]) =
        d.proto := by
    obtain ⟨x, xs, hxs⟩ := List.exists_cons_of_ne_nil d.payload_ne
    rw [encode, proto, llcHeader, hxs]
    cases d.llc with
    | none => rfl
    | some type => rfl
  rw [Mpe.frame, d.payload_encode b1 b2 hcrc, frame, ethHeader, hproto]
  exact congrArg (· ++ zeroAddr ++ d.proto ++ d.payload) d.six

/-- The section of a datagram is made into its frame. -/
theorem dvbNetSec_encode (hcrc : crc.length = 4) (hmem : alloc.fails st.allocs = false) :
    ∃ packet, dvbNetSec dev alloc st (d.encode b1 b2 crc) =
        .ok (NetState.netifRx { st with allocs := st.allocs + 1 } packet) ∧
      packet.mac = d.frame ∧ packet.data = d.payload := by
  have hlen := d.length_encode b1 b2 hcrc
  obtain ⟨hclear, hsnap, hllc⟩ := d.flags_encode b1 b2 hcrc
  have hpos := List.length_pos_of_ne_nil d.payload_ne
  have hsingle : ¬(d.encode b1 b2 crc).getD 7 0 ≠ 0 := not_not.mpr rfl
  refine ⟨packetOf dev alloc st.allocs (d.encode b1 b2 crc) d.llcHeader.length, ?_, ?_, ?_⟩
  · rw [dvbNetSec, if_neg (by omega), if_neg (not_not.mpr hclear), if_neg hllc, if_neg hsingle, hsnap,
      passUp_eq (by omega), hmem, if_neg Bool.false_ne_true]
  · rw [packetOf, d.frame_encode b1 b2 hcrc]
    rfl
  · rw [packetOf_data, d.payload_encode b1 b2 hcrc]

end Datagram

/-- The same section, several times. -/
theorem foldlM_encode (d : Datagram) {b1 b2 : UInt8} {crc : List UInt8} (hcrc : crc.length = 4)
    (hmem : ∀ n, alloc.fails n = false) : ∀ (n : ℕ) (st : NetState),
    ∃ st' new, (List.replicate n (d.encode b1 b2 crc)).foldlM (dvbNetSec dev alloc) st = .ok st' ∧
      st'.received = st.received ++ new ∧ new.length = n ∧
      ∀ packet ∈ new, packet.mac = d.frame ∧ packet.data = d.payload
  | 0, st => ⟨st, [], rfl, (List.append_nil _).symm, rfl, by simp⟩
  | n + 1, st => by
    obtain ⟨packet, hpass, hframe⟩ :=
      @Datagram.dvbNetSec_encode dev alloc st d b1 b2 crc hcrc (hmem st.allocs)
    obtain ⟨st', new, hrun, hnew, hlen, hall⟩ := foldlM_encode d hcrc hmem n
      (NetState.netifRx { st with allocs := st.allocs + 1 } packet)
    refine ⟨st', packet :: new, ?_, ?_, by rw [List.length_cons, hlen], ?_⟩
    · rw [List.replicate_succ, List.foldlM_cons, hpass]
      exact hrun
    · rw [hnew, NetState.netifRx, List.append_assoc]
      rfl
    · exact List.forall_mem_cons.mpr ⟨hframe, hall⟩

variable {checkCrc32 : List UInt8 → UInt32} {t : SectionFeed} {s : List UInt8}

/-- The section in the buffer is given to `dvb_net_sec` once for each filter that it passes. -/
theorem feed_copies (hdev : Proper dev) (hat : sectionAt t.secbufBase t.secbuf = s)
    (hcrc : checkCrc32 s = 0) (htable : t.secbufBase t.secbuf = 0x3e) (hnone : t.delivered = []) :
    (swfilterSectionFeed (dvbNetFeedStart dev checkCrc32)
      { t with seclen := sectionLength t.at }).delivered =
        List.replicate (copies dev (destination fun j => t.secbufBase (t.secbuf + j))) s := by
  obtain ⟨flags, seclen, heq⟩ := swfilterSectionFeed_eq (dvbNetFeedStart dev checkCrc32)
    ({ t with seclen := sectionLength t.at }) rfl
  have hgiven : given (dvbNetFeedStart dev checkCrc32) t.secbufBase t.secbuf =
      passed (dvbNetFeedStart dev checkCrc32) t.secbufBase t.secbuf (secfilters dev).reverse := by
    rw [given]
    split_ifs with hwanted
    · rfl
    · refine ((passed_eq_nil _).mpr fun hex => hwanted ⟨rfl, ?_, hex⟩).symm
      rw [hat]
      exact fun hbad => hbad.2.2 hcrc
  rw [heq]
  dsimp only
  rw [hnone, List.nil_append, hgiven, passed_eq (fun _ => Int.le_refl 0), hat, List.map_const',
    ← List.countP_eq_length_filter, List.countP_reverse, countP_secfilters hdev htable]

/-- What the section feed and `dvb_net_sec` make of the section of a datagram: for each filter that
    listens to its destination one Ethernet frame with the datagram in it. -/
theorem datagram_arrives (hdev : Proper dev) (hmem : ∀ n, alloc.fails n = false) (d : Datagram)
    {b1 b2 : UInt8} {crc : List UInt8} (hlen : crc.length = 4)
    (hat : sectionAt t.secbufBase t.secbuf = d.encode b1 b2 crc)
    (hcrc : checkCrc32 (d.encode b1 b2 crc) = 0) (hnone : t.delivered = []) (st : NetState) :
    ∃ st' new, (swfilterSectionFeed (dvbNetFeedStart dev checkCrc32)
        { t with seclen := sectionLength t.at }).delivered.foldlM (dvbNetSec dev alloc) st = .ok st' ∧
      st'.received = st.received ++ new ∧ new.length = copies dev d.dest ∧
      ∀ packet ∈ new, packet.mac = d.frame ∧ packet.data = d.payload := by
  have hbegins : ∀ i < 12, t.secbufBase (t.secbuf + i) = (d.encode b1 b2 crc).getD i 0 := by
    intro i hi
    rw [← hat]
    refine sectionAt_begins t.secbufBase t.secbuf i ?_
    rw [hat, d.length_encode b1 b2 hlen]
    omega
  have hdest : destination (fun j => t.secbufBase (t.secbuf + j)) = d.dest := by
    rw [← d.six]
    refine List.map_congr_left fun i hi => hbegins i ?_
    revert i
    decide
  rw [feed_copies hdev hat hcrc (hbegins 0 (by decide)) hnone, hdest]
  exact foldlM_encode d hlen hmem _ st

/-- An interface on its own address. -/
def ownAddress : NetDevice := ⟨[2, 0, 0, 0, 0, 1], List.replicate ethAlen 0xff, .uni, 0, []⟩

def smallDatagram : Datagram := ⟨[2, 0, 0, 0, 0, 1], none, [0x45], by decide, by decide⟩

def smallSection : SectionFeed :=
  { idleFeed with secbufBase := fun i => (smallDatagram.encode 0xb0 14 [0, 0, 0, 0]).getD i 0 }

theorem datagram_arrives_once : ∃ st' new,
    (swfilterSectionFeed (dvbNetFeedStart ownAddress fun _ => 0)
      { smallSection with seclen := 17 }).delivered.foldlM
        (dvbNetSec ownAddress ⟨fun _ => false, fun _ _ => 0⟩) netInit = .ok st' ∧
      st'.received = [] ++ new ∧ new.length = 1 ∧
      ∀ packet ∈ new, packet.mac = smallDatagram.frame ∧ packet.data = [0x45] :=
  @datagram_arrives ownAddress ⟨fun _ => false, fun _ _ => 0⟩ (fun _ => 0) smallSection
    ⟨by decide, by decide⟩ (fun _ => rfl) smallDatagram 0xb0 14 [0, 0, 0, 0] rfl (by decide) rfl rfl
    netInit

end Dvb.Mpe

import NeumoDrivers.Demux.Crc
import NeumoDrivers.Lib.Loop
import NeumoDrivers.Lib.Memory
import Mathlib.Data.Int.Basic

/-! Ultra Lightweight Encapsulation (`neumo-dvb-net.c`).

    `dvbNetUle` decodes the SNDUs in the TS cells of one pid and hands the packets in them to the
    network stack. Pointers are places in the buffer of the call, or offsets from the `data` of the
    skb. What is handed over is collected in `received`, and `allocs` counts the skbs that were asked
    for. The statistics of the device are left out. -/

namespace Dvb.Ule
open Loop Memory

def tsSz : ℕ := 188
def tsSync : UInt8 := 0x47
def tsTei : UInt8 := 0x80
def tsSc : UInt8 := 0xC0
def tsPusi : UInt8 := 0x40

def ethAlen : ℕ := 6
def ethHlen : ℕ := 14
def ethP8023Min : ℕ := 0x600
def ethP8023 : ℕ := 1
def ethP8022 : ℕ := 4

/-- How a call does not come to its end: a loop has not ended, the kernel stops in `skb_put` or
    `skb_push`, or a handler is taken from behind the end of a table. -/
inductive Stop where | hang | panic | wild
  deriving DecidableEq

/-! ### Socket buffers -/

/-- What lies between `data` and `tail` of an skb, what its memory holds from `tail` on, and how much
    room it has in front of `data` and behind `tail`. -/
structure SkBuff where
  headroom : ℕ
  data : List UInt8
  behind : ℕ → UInt8
  tailroom : ℕ

namespace SkBuff
variable (skb : SkBuff)

def len : ℕ := skb.data.length

/-- The byte at `data[i]`, also when that is behind `tail`. -/
def byte (i : ℕ) : UInt8 := skb.data.getD i (skb.behind (i - skb.len))

/-- `ntohs` of the two bytes at `data[i]`. -/
def ntohs (i : ℕ) : ℕ := (skb.byte i).toNat * 256 + (skb.byte (i + 1)).toNat

/-- `skb_put_data`, where `skb_over_panic` may stop the kernel. -/
def putData (bytes : List UInt8) : Except Stop SkBuff :=
  if bytes.length ≤ skb.tailroom then
    .ok { skb with
      data := skb.data ++ bytes
      behind := fun i => skb.behind (bytes.length + i)
      tailroom := skb.tailroom - bytes.length }
  else .error .panic

/-- `tail -= n`, `len -= n` -/
def trim (n : ℕ) : SkBuff :=
  { skb with
    data := skb.data.take (skb.len - n)
    behind := fun i => skb.byte (skb.len - n + i)
    tailroom := skb.tailroom + n }

/-- `skb_pull` does nothing when there is less in the skb. -/
def pull (n : ℕ) : SkBuff :=
  if n ≤ skb.len then { skb with headroom := skb.headroom + n, data := skb.data.drop n } else skb

/-- `skb_push`, and what is written to the place that it makes. -/
def push (bytes : List UInt8) : Except Stop SkBuff :=
  if bytes.length ≤ skb.headroom then
    .ok { skb with headroom := skb.headroom - bytes.length, data := bytes ++ skb.data }
  else .error .panic

end SkBuff

/-- What `dev_alloc_skb` does when it is called for the `n`th time: whether it fails, and what is in
    the memory it gives. -/
structure SkbAllocator where
  fails : ℕ → Bool
  memory : ℕ → ℕ → UInt8

/-! ### The device -/

inductive RxMode where | uni | multi | allMulti | promisc
  deriving DecidableEq

/-- Of `struct net_device` and `struct dvb_net_priv` what the decoder only reads. -/
structure NetDevice where
  devAddr : List UInt8
  broadcast : List UInt8
  rxMode : RxMode
  multiNum : ℕ
  multiMacs : List (List UInt8)

inductive PktType where | host | broadcast | multicast
  deriving DecidableEq

/-- A packet that `netif_rx` gets: from its MAC header on, from `data` on, and what it is. -/
structure Received where
  mac : List UInt8
  data : List UInt8
  protocol : ℕ
  pktType : PktType
  deriving DecidableEq

/-- `dvb_net_eth_type_trans`, which leaves the MAC header in front of `data`. -/
def dvbNetEthTypeTrans (dev : NetDevice) (skb : SkBuff) : Received :=
  let raw := skb.pull ethHlen
  { mac := skb.data
    data := raw.data
    protocol :=
      if skb.ntohs 12 ≥ ethP8023Min then skb.ntohs 12
      else if raw.byte 0 = 0xFF ∧ raw.byte 1 = 0xFF then ethP8023
      else ethP8022
    pktType :=
      if skb.byte 0 &&& 1 ≠ 0 then
        if block skb.byte 0 ethAlen = dev.broadcast then .broadcast else .multicast
      else .host }

/-- `struct dvb_net_priv`: the state of the decoder. -/
structure DvbNetPriv where
  needPusi : Bool
  tscc : ℕ
  uleSkb : Option SkBuff
  uleNextHdr : ℕ
  uleSnduLen : ℕ
  uleSnduType : ℕ
  uleSnduType1 : Bool
  uleDbit : ℕ
  uleBridged : Bool
  uleSnduRemain : ℕ
  allocs : ℕ
  received : List Received

/-- `reset_ule`: Prepare for a new ULE SNDU: reset the decoder state. -/
def DvbNetPriv.resetUle (p : DvbNetPriv) : DvbNetPriv :=
  { p with
    uleSkb := none
    uleNextHdr := 0
    uleSnduLen := 0
    uleSnduType := 0
    uleSnduType1 := false
    uleSnduRemain := 0
    uleDbit := 0xFF
    uleBridged := false }

/-- `dvb_net_feed_start` for a feed of type `DVB_NET_FEEDTYPE_ULE`. -/
def DvbNetPriv.feedStart : DvbNetPriv :=
  { needPusi := true
    tscc := 0
    uleSkb := none
    uleNextHdr := 0
    uleSnduLen := 0
    uleSnduType := 0
    uleSnduType1 := false
    uleDbit := 0xFF
    uleBridged := false
    uleSnduRemain := 0
    allocs := 0
    received := [] }

/-! ### Extension headers -/

/-- A handler tells how many bytes it consumes, or that the SNDU has to be discarded. -/
def ExtHandler : Type := SkBuff → DvbNetPriv → ℤ × DvbNetPriv

def uleTestSndu : ExtHandler := fun _ p => (-1, p)

def uleBridgedSndu : ExtHandler := fun skb p =>
  let hProto := skb.ntohs (p.uleNextHdr + 12)
  let framelen : ℤ := p.uleSnduLen - (p.uleNextHdr + ethHlen)
  if hProto < ethP8023Min ∧ framelen ≠ hProto then (-1, p)
  else (0, { p with uleBridged := true })

/-- Table of mandatory extension header handlers. -/
def uleMandatoryExtHandlers : ℕ → Option ExtHandler
  | 0 => some uleTestSndu
  | 1 => some uleBridgedSndu
  | _ => none

def extHlen (type : ℕ) : ℕ := (type &&& 0x0700) >>> 8
def extHtype (type : ℕ) : ℕ := type &&& 0x00FF

/-- `handle_one_ule_extension`. The tables have 255 entries; the only handler of an optional header,
    for padding, does nothing. -/
def handleOneUleExtension (skb : SkBuff) (p : DvbNetPriv) : Except Stop (ℤ × DvbNetPriv) :=
  if extHtype p.uleSnduType = 255 then .error .wild
  else if extHlen p.uleSnduType = 0 then
    match uleMandatoryExtHandlers (extHtype p.uleSnduType) with
    | none => .ok (-1, p)
    | some handler =>
      let (extLen, p) := handler skb p
      if extLen ≥ 0 then
        let nextHdr := p.uleNextHdr + extLen.toNat
        if ¬p.uleBridged then
          .ok (extLen, { p with uleSnduType := skb.ntohs nextHdr, uleNextHdr := nextHdr + 2 })
        else
          let offset := (if p.uleDbit ≠ 0 then 2 else 3) * ethAlen
          .ok (extLen,
            { p with uleSnduType := skb.ntohs (nextHdr + offset), uleNextHdr := nextHdr })
      else .ok (extLen, p)
  else
    let extLen := extHlen p.uleSnduType <<< 1
    let nextHdr := p.uleNextHdr + extLen
    .ok (extLen, { p with uleSnduType := skb.ntohs (nextHdr - 2), uleNextHdr := nextHdr })

/-- One turn of the loop of `handle_ule_extensions`. -/
def uleExtensionBody (skb : SkBuff) :
    ℤ × DvbNetPriv → Next (ℤ × DvbNetPriv) (Except Stop (ℤ × DvbNetPriv))
  | (totalExtLen, p) =>
    match handleOneUleExtension skb p with
    | .error e => .exit (.error e)
    | .ok (l, p) =>
      if l < 0 then .exit (.ok (l, p))
      else if p.uleSnduType < ethP8023Min then .again (totalExtLen + l, p)
      else .exit (.ok (totalExtLen + l, p))

/-- `handle_ule_extensions`, if its loop ends within `turns` turns. -/
def handleUleExtensions (turns : ℕ) (skb : SkBuff) (p : DvbNetPriv) :
    Except Stop (ℤ × DvbNetPriv) :=
  (run (uleExtensionBody skb) turns (0, { p with uleNextHdr := 0 })).getD (.error .hang)

/-! ### A complete SNDU -/

/-- `dvb_net_ule_should_drop` -/
def dvbNetUleShouldDrop (dev : NetDevice) (skb : SkBuff) : Bool :=
  if dev.rxMode = .promisc then false
  else if skb.byte 0 &&& 0x01 ≠ 0 then
    if block skb.byte 0 ethAlen ≠ List.replicate ethAlen 0xFF then
      if dev.rxMode = .multi then
        decide (block skb.byte 0 ethAlen ∉ dev.multiMacs.take dev.multiNum)
      else decide (dev.rxMode ≠ .allMulti)
    else false
  else decide (block skb.byte 0 ethAlen ≠ dev.devAddr)

/-- The two bytes of a field, most significant first. -/
def htons (n : ℕ) : List UInt8 := [UInt8.ofNat (n / 256), UInt8.ofNat n]

def zeroAddr : List UInt8 := List.replicate ethAlen 0

/-- The end of `dvb_net_ule_check_crc`: construct or assure the Ethernet header, and stuff the packet
    into the protocol stack. -/
def uleNetifRx (dev : NetDevice) (destAddr : List UInt8) (skb : SkBuff) (p : DvbNetPriv) :
    Except Stop DvbNetPriv := do
  let skb ←
    if ¬p.uleBridged then skb.push (destAddr ++ zeroAddr ++ htons p.uleSnduType) else .ok skb
  return { p with
    uleBridged := false
    received := p.received ++ [dvbNetEthTypeTrans dev skb] }

/-- `dvb_net_ule_check_crc` from the extension headers on. -/
def uleExtensions (dev : NetDevice) (turns : ℕ) (destAddr : List UInt8) (skb : SkBuff)
    (p : DvbNetPriv) : Except Stop DvbNetPriv :=
  if p.uleSnduType < ethP8023Min then do
    let (l, p) ← handleUleExtensions turns skb p
    if l < 0 then return p
    else uleNetifRx dev destAddr (skb.pull l.toNat) p
  else uleNetifRx dev destAddr skb p

/-- `dvb_net_ule_check_crc` -/
def dvbNetUleCheckCrc (dev : NetDevice) (turns : ℕ) (skb : SkBuff) (uleCrc expectedCrc : UInt32)
    (p : DvbNetPriv) : Except Stop DvbNetPriv :=
  if uleCrc ≠ expectedCrc then .ok p
  else
    let skb := skb.trim 4
    if p.uleDbit = 0 then
      if dvbNetUleShouldDrop dev skb then .ok p
      else uleExtensions dev turns (block skb.byte 0 ethAlen) (skb.pull ethAlen) p
    else uleExtensions dev turns zeroAddr skb p

/-- `crc32_be` of the kernel: no inversion, most significant bit first, the polynomial of the demux. -/
def crc32Be (crc : UInt32) (bytes : List UInt8) : UInt32 := Demux.extendCrc32 crc bytes

def iovCrc32 (crc : UInt32) (iov : List (List UInt8)) : UInt32 := iov.foldl crc32Be crc

/-- Complete payload in `skb`: check its CRC32, and prepare for the next SNDU. -/
def uleComplete (dev : NetDevice) (turns : ℕ) (skb : SkBuff) (p : DvbNetPriv) :
    Except Stop DvbNetPriv :=
  let ulen := if p.uleDbit ≠ 0 then p.uleSnduLen ||| 0x8000 else p.uleSnduLen
  let uleCrc :=
    iovCrc32 0xFFFFFFFF [htons ulen, htons p.uleSnduType, skb.data.take (skb.len - 4)]
  let tail := fun i => (skb.byte (skb.len - 4 + i)).toUInt32
  let expectedCrc := tail 0 <<< 24 ||| tail 1 <<< 16 ||| tail 2 <<< 8 ||| tail 3
  (dvbNetUleCheckCrc dev turns skb uleCrc expectedCrc p).map DvbNetPriv.resetUle

/-! ### The decoder -/

/-- The local variables of `dvb_net_ule`, and the state of the decoder. -/
structure DvbNetUleHandle where
  priv : DvbNetPriv
  ts : ℕ
  fromWhere : ℕ
  tsRemain : ℕ
  newTs : Bool

namespace DvbNetUleHandle
variable (buf : ℕ → UInt8) (h : DvbNetUleHandle)

def tsByte (i : ℕ) : UInt8 := buf (h.ts + i)
def fromByte (i : ℕ) : UInt8 := buf (h.fromWhere + i)

def nextTs : DvbNetUleHandle := { h with ts := h.ts + tsSz }

/-- Drop what was decoded of an SNDU, reset the state and resync on PUSI. -/
def resync : DvbNetUleHandle := { h with priv := { h.priv.resetUle with needPusi := true } }

/-- `ts_remain -= n` in a `u8`. -/
def skip (n : ℕ) : DvbNetUleHandle :=
  { h with fromWhere := h.fromWhere + n, tsRemain := (h.tsRemain + 256 - n % 256) % 256 }

/-- `dvb_net_ule_new_ts_cell`: whether to continue with another pass of the loop. -/
def newTsCell : Bool × DvbNetUleHandle :=
  if h.tsByte buf 0 ≠ tsSync ∨ h.tsByte buf 1 &&& tsTei ≠ 0 ∨ h.tsByte buf 3 &&& tsSc ≠ 0 then
    (true, h.resync.nextTs)
  else (false, { h with tsRemain := 184, fromWhere := h.ts + 4 })

/-- `dvb_net_ule_ts_pusi`: Find beginning of first ULE SNDU in current TS cell. -/
def tsPusiSync : Bool × DvbNetUleHandle :=
  if h.tsByte buf 1 &&& tsPusi ≠ 0 then
    let h := { h with priv := { h.priv with tscc := (h.tsByte buf 3 &&& 0x0F).toNat } }
    let pointer := (h.tsByte buf 4).toNat
    if pointer > h.tsRemain then (true, h.nextTs)
    else (false, { h with fromWhere := h.ts + 4 }.skip (1 + pointer))
  else (true, h.nextTs)

/-- `dvb_net_ule_new_ts` -/
def newTsCheck : Bool × DvbNetUleHandle :=
  if (h.tsByte buf 3 &&& 0x0F).toNat ≠ h.priv.tscc then (true, h.resync)
  else
    let h := { h with priv := { h.priv with tscc := (h.priv.tscc + 1) % 16 } }
    if h.tsByte buf 1 &&& tsPusi ≠ 0 then
      let pointer := (h.fromByte buf 0).toNat
      if ¬h.priv.needPusi ∧ (¬(pointer : ℤ) < h.tsRemain - 1 ∨ pointer ≠ h.priv.uleSnduRemain) then
        (true, h.resync)
      else
        let h :=
          if ¬h.priv.needPusi then h.skip 1
          else { h with priv := { h.priv with needPusi := false } }
        if h.priv.uleSnduRemain > 183 then
          (false, { h with priv := h.priv.resetUle }.skip (h.tsByte buf 4).toNat)
        else (false, h)
    else (false, h)

/-- The length field of a new SNDU. -/
def readLength : DvbNetUleHandle :=
  let field := (h.fromByte buf 0).toNat * 256 + (h.fromByte buf 1).toNat
  let priv :=
    if field &&& 0x8000 ≠ 0 then { h.priv with uleSnduLen := field &&& 0x7FFF, uleDbit := 1 }
    else { h.priv with uleSnduLen := field, uleDbit := 0 }
  { h with priv := priv }

/-- The type field of a new SNDU. -/
def readType : DvbNetUleHandle :=
  if h.priv.uleSnduType1 then
    { h with priv := { h.priv with
        uleSnduType1 := false
        uleSnduType := h.priv.uleSnduType ||| (h.fromByte buf 0).toNat } }.skip 1
  else
    { h with priv := { h.priv with
        uleSnduType := (h.fromByte buf 0).toNat * 256 + (h.fromByte buf 1).toNat } }.skip 2

/-- The skb of a new SNDU, with room for an Ethernet header and one more address in front. -/
def allocSkb (alloc : SkbAllocator) : ℤ × DvbNetUleHandle :=
  let n := h.priv.allocs
  let h := { h with priv := { h.priv with allocs := n + 1 } }
  if alloc.fails n then (-1, h)
  else
    (0, { h with priv := { h.priv with
      uleSnduRemain := h.priv.uleSnduLen
      uleSkb := some ⟨ethHlen + ethAlen, [], alloc.memory n, h.priv.uleSnduLen⟩ } })

/-- `dvb_net_ule_new_payload` from the length field on. -/
def payloadHeader (alloc : SkbAllocator) : ℤ × DvbNetUleHandle :=
  let h := { h with priv := { h.priv with uleSnduRemain := h.priv.uleSnduLen + 2 } }
  if h.tsRemain = 0 then (1, { h with newTs := true }.nextTs)
  else if h.tsRemain = 1 then
    let h := { h with priv := { h.priv with
      uleSnduRemain := h.priv.uleSnduRemain - 1
      uleSnduType := (h.fromByte buf 0).toNat * 256
      uleSnduType1 := true } }.skip 1
    (1, { h with newTs := true }.nextTs)
  else (h.readType buf).allocSkb alloc

/-- `dvb_net_ule_new_payload` -/
def newPayload (alloc : SkbAllocator) : ℤ × DvbNetUleHandle :=
  if h.tsRemain < 2 then
    (1, { h with priv := { h.priv with uleSnduLen := 0, needPusi := true } }.nextTs)
  else if h.priv.uleSnduLen = 0 then
    let h := h.readLength buf
    if h.priv.uleSnduLen < 5 then
      let priv := { h.priv with uleSnduLen := 0, needPusi := true }
      (1, { h with priv := priv, newTs := true }.nextTs)
    else (h.skip 2).payloadHeader buf alloc
  else h.payloadHeader buf alloc

/-- The end of a pass: the next SNDU starts right there, or in another TS cell. -/
def nextSndu : DvbNetUleHandle :=
  if 2 ≤ h.tsRemain ∧ ¬(h.fromByte buf 0 = 0xFF ∧ h.fromByte buf 1 = 0xFF) then
    { h with
      newTs := false
      priv := { h.priv with uleSkb := none, uleSnduType1 := false, uleSnduLen := 0 } }
  else
    let h := { h with newTs := true }.nextTs
    if h.priv.uleSkb.isNone then
      { h with priv := { h.priv with needPusi := true, uleSnduType1 := false, uleSnduLen := 0 } }
    else h

end DvbNetUleHandle

section
variable (dev : NetDevice) (alloc : SkbAllocator) (turns : ℕ) (buf : ℕ → UInt8)

/-- Copy data into the current skb. -/
def uleCopy (skb : SkBuff) (h : DvbNetUleHandle) :
    Next DvbNetUleHandle (Except Stop DvbNetPriv) :=
  let howMuch := min h.priv.uleSnduRemain h.tsRemain
  match skb.putData (block buf h.fromWhere howMuch) with
  | .error e => .exit (.error e)
  | .ok skb =>
    let priv := { h.priv with
      uleSkb := some skb, uleSnduRemain := h.priv.uleSnduRemain - howMuch }
    let h := { h.skip howMuch with priv := priv }
    if h.priv.uleSnduRemain = 0 then
      match uleComplete dev turns skb h.priv with
      | .error e => .exit (.error e)
      | .ok priv => .again ({ h with priv := priv }.nextSndu buf)
    else .again (h.nextSndu buf)

/-- A pass from the start of a payload on. -/
def ulePayload (h : DvbNetUleHandle) : Next DvbNetUleHandle (Except Stop DvbNetPriv) :=
  match h.priv.uleSkb with
  | some skb => uleCopy dev turns buf skb h
  | none =>
    let (ret, h) := h.newPayload buf alloc
    if ret < 0 then .exit (.ok h.priv)
    else if ret ≠ 0 then .again h
    else
      match h.priv.uleSkb with
      | some skb => uleCopy dev turns buf skb h
      | none => .exit (.error .panic)

/-- A pass of the loop of `dvb_net_ule`, the end of the buffer being at `tsEnd`. -/
def uleBody (tsEnd : ℕ) (h : DvbNetUleHandle) :
    Next DvbNetUleHandle (Except Stop DvbNetPriv) :=
  if tsEnd ≤ h.ts then .exit (.ok h.priv)
  else
    match if h.newTs then h.newTsCell buf else (false, h) with
    | (true, h) => .again h
    | (false, h) =>
      match if h.priv.needPusi then h.tsPusiSync buf else (false, h) with
      | (true, h) => .again h
      | (false, h) =>
        match if h.newTs then h.newTsCheck buf else (false, h) with
        | (true, h) => .again h
        | (false, h) => ulePayload dev alloc turns buf h

/-- How the loop of `dvb_net_ule` begins. -/
def DvbNetPriv.handle (priv : DvbNetPriv) : DvbNetUleHandle :=
  { priv := priv, ts := 0, fromWhere := 0, tsRemain := 0, newTs := true }

/-- `dvb_net_ule`: the state of the decoder after a call, if its loop ends within `passes` passes and
    no loop over extension headers takes more than `turns` turns. -/
def dvbNetUle (passes : ℕ) (priv : DvbNetPriv) (bufLen : ℕ) : Except Stop DvbNetPriv :=
  (run (uleBody dev alloc turns buf bufLen) passes priv.handle).getD (.error .hang)

end

/-- The buffer of a call: the memory from its first byte on, and how many bytes belong to it. -/
structure Call where
  buf : ℕ → UInt8
  bufLen : ℕ

/-- Calls of `dvb_net_ule`, one after the other. -/
def dvbNetUleCalls (dev : NetDevice) (alloc : SkbAllocator) (turns passes : ℕ)
    (priv : DvbNetPriv) (calls : List Call) : Except Stop DvbNetPriv :=
  calls.foldlM (fun priv call => dvbNetUle dev alloc turns call.buf passes priv call.bufLen) priv

end Dvb.Ule

import NeumoDrivers.Lib.Loop
import NeumoDrivers.Demux.Cell

/-! Sections on a pid (`neumo-dvb-demux.c`).

    The payload of packets is collected in `secbuf_base`: bytes up to `tsfeedp` have been received,
    those up to `secbufp` delivered, and `secbuf` points to the next section. A packet with PUSI has
    a pointer to the first section that starts in it; from there on the buffer is filled from its
    start again. What `dprintk` shows is left out. -/

namespace Demux
open Loop

def DMX_MAX_SECTION_SIZE : ℕ := 4096
def DMX_MAX_SECFEED_SIZE : ℕ := DMX_MAX_SECTION_SIZE + 188
def DVB_DEMUX_MASK_MAX : ℕ := 18

def DMX_BUFFER_FLAG_HAD_CRC32_DISCARD : UInt32 := 1
def DMX_BUFFER_FLAG_DISCONTINUITY_DETECTED : UInt32 := 8
def DMX_BUFFER_FLAG_DISCONTINUITY_INDICATOR : UInt32 := 16

/-- `struct neumo_dvb_demux_section_filter`. -/
structure SectionFilter where
  filterValue : List UInt8
  maskandmode : List UInt8
  maskandnotmode : List UInt8
  doneq : Bool

/-- `prepare_secfilters`, for one filter. -/
def prepareSecfilter (filterValue filterMask filterMode : List UInt8) : SectionFilter :=
  let maskandnotmode := (List.range DVB_DEMUX_MASK_MAX).map fun i =>
    filterMask.getD i 0 &&& ~~~filterMode.getD i 0
  { filterValue
    maskandmode := (List.range DVB_DEMUX_MASK_MAX).map fun i =>
      filterMask.getD i 0 &&& filterMode.getD i 0
    maskandnotmode
    doneq := maskandnotmode.any fun b => b != 0 }

/-- What stays as it is while a feed is filtering: its filters, whether they check the CRC and how,
    and the callback of its user. -/
structure SectionUse where
  isFiltering : Bool
  sectionFilter : List SectionFilter
  checkCrc : Bool
  checkCrc32 : List UInt8 → UInt32
  cb : List UInt8 → ℤ

structure SectionFeed where
  cc : UInt8
  pusiSeen : Bool
  bufferFlags : UInt32
  secbufBase : ℕ → UInt8
  secbuf : ℕ
  secbufp : ℕ
  seclen : ℕ
  tsfeedp : ℕ
  /-- The sections given to the callback. -/
  delivered : List (List UInt8)

variable (use : SectionUse)

def SectionFeed.setBufFlags (feed : SectionFeed) (flag : UInt32) : SectionFeed :=
  { feed with bufferFlags := feed.bufferFlags ||| flag }

/-- The byte `secbuf[i]`. -/
def SectionFeed.at (feed : SectionFeed) (i : ℕ) : UInt8 := feed.secbufBase (feed.secbuf + i)

/-- The bytes `secbuf[0..seclen)`. -/
def SectionFeed.section (feed : SectionFeed) : List UInt8 :=
  (List.range feed.seclen).map feed.at

def sectionLength (buf : ℕ → UInt8) : ℕ := 3 + (buf 1 &&& 0x0f).toNat <<< 8 + (buf 2).toNat

/-- The number of payload bytes of a packet; 0 for a corrupted one. -/
def payload (tsp : Packet UInt8) : ℕ :=
  if tsp 3 &&& 0x10 = 0 then 0
  else if tsp 3 &&& 0x20 ≠ 0 then
    if tsp 4 > 183 then 0 else 184 - 1 - (tsp 4).toNat
  else 184

/-- The loop over the bytes of a filter; `none` when one of them fails. -/
def maskLoop (buf : ℕ → UInt8) (f : SectionFilter) : List ℕ → UInt8 → Option UInt8
  | [], neq => some neq
  | i :: is, neq =>
    let xor := f.filterValue.getD i 0 ^^^ buf i
    if f.maskandmode.getD i 0 &&& xor ≠ 0 then none
    else maskLoop buf f is (neq ||| (f.maskandnotmode.getD i 0 &&& xor))

/-- `neumo_dvb_dmx_swfilter_sectionfilter`. -/
def swfilterSectionfilter (feed : SectionFeed) (f : SectionFilter) : SectionFeed × ℤ :=
  match maskLoop feed.at f (List.range DVB_DEMUX_MASK_MAX) 0 with
  | none => (feed, 0)
  | some neq =>
    if f.doneq ∧ neq = 0 then (feed, 0)
    else ({ feed with delivered := feed.delivered ++ [feed.section] }, use.cb feed.section)

/-- The loop of `neumo_dvb_dmx_swfilter_section_feed` over the filters. -/
def feedFilters (feed : SectionFeed) : List SectionFilter → SectionFeed
  | [] => { feed with seclen := 0 }
  | f :: next =>
    let (feed, ret) := swfilterSectionfilter use feed f
    if ret < 0 then feed else feedFilters feed next

/-- `neumo_dvb_dmx_swfilter_section_feed`; its result is not looked at. -/
def swfilterSectionFeed (feed : SectionFeed) : SectionFeed :=
  if ¬use.isFiltering then feed
  else if use.sectionFilter = [] then feed
  else if use.checkCrc ∧ feed.at 1 &&& 0x80 ≠ 0 ∧ use.checkCrc32 feed.section ≠ 0 then
    feed.setBufFlags DMX_BUFFER_FLAG_HAD_CRC32_DISCARD
  else feedFilters use feed use.sectionFilter

/-- `neumo_dvb_dmx_swfilter_section_new`. -/
def swfilterSectionNew (feed : SectionFeed) : SectionFeed :=
  let feed :=
    if feed.secbufp < feed.tsfeedp then
      let n := feed.tsfeedp - feed.secbufp
      if feed.at 0 ≠ 0xff ∨ feed.at (n - 1) ≠ 0xff then
        feed.setBufFlags DMX_BUFFER_FLAG_DISCONTINUITY_DETECTED
      else feed
    else feed
  { feed with tsfeedp := 0, secbufp := 0, seclen := 0, secbuf := 0 }

/-- One pass of the loop that delivers the sections found. -/
def dumpBody (limit : ℕ) (feed : SectionFeed) : Next SectionFeed SectionFeed :=
  if feed.secbufp + 2 < limit then
    let seclen := sectionLength feed.at
    if seclen = 0 ∨ seclen > DMX_MAX_SECTION_SIZE ∨ seclen + feed.secbufp > limit then .exit feed
    else
      let feed := { feed with seclen := seclen }
      let feed :=
        if feed.pusiSeen then swfilterSectionFeed use feed
        else feed.setBufFlags DMX_BUFFER_FLAG_DISCONTINUITY_DETECTED
      .again { feed with secbufp := feed.secbufp + seclen, secbuf := feed.secbuf + seclen }
  else .exit feed

/-- `memcopy(secbuf_base + i, src)`. -/
def copyInto (base : ℕ → UInt8) (i : ℕ) (src : List UInt8) : ℕ → UInt8 := fun j =>
  if i ≤ j ∧ j < i + src.length then src.getD (j - i) 0 else base j

/-- The second part of `neumo_dvb_dmx_swfilter_section_copy_dump`: copy what there is room for, and
    dump all the sections found. Every pass of the loop takes 3 bytes at least. -/
def copyAndDump (feed : SectionFeed) (buf : List UInt8) : SectionFeed :=
  if buf.length = 0 then feed
  else
    let feed := { feed with
      secbufBase := copyInto feed.secbufBase feed.tsfeedp buf
      tsfeedp := feed.tsfeedp + buf.length }
    let limit := feed.tsfeedp
    if limit > DMX_MAX_SECFEED_SIZE then feed
    else
      let feed := { feed with secbuf := feed.secbufp }
      (run (dumpBody use limit) (limit + 1) feed).getD feed

/-- `neumo_dvb_dmx_swfilter_section_copy_dump`. -/
def swfilterSectionCopyDump (feed : SectionFeed) (buf : List UInt8) : SectionFeed :=
  if feed.tsfeedp ≥ DMX_MAX_SECFEED_SIZE then feed
  else if feed.tsfeedp + buf.length > DMX_MAX_SECFEED_SIZE then
    let len := DMX_MAX_SECFEED_SIZE - feed.tsfeedp
    copyAndDump use (feed.setBufFlags DMX_BUFFER_FLAG_DISCONTINUITY_DETECTED) (buf.take len)
  else copyAndDump use feed buf

/-- What `neumo_dvb_dmx_swfilter_section_packet` does with the continuity counter: after a
    discontinuity it drops what it has and waits for the next PUSI. -/
def checkContinuity (feed : SectionFeed) (buf : Packet UInt8) : SectionFeed :=
  let cc := buf 3 &&& 0x0f
  let ccok := (feed.cc + 1) &&& 0x0f = cc
  let dc_i := buf 3 &&& 0x20 ≠ 0 ∧ buf 4 > 0 ∧ buf 5 &&& 0x80 ≠ 0
  let feed :=
    if ¬ccok ∨ dc_i then
      let feed := feed.setBufFlags (if dc_i then DMX_BUFFER_FLAG_DISCONTINUITY_INDICATOR
        else DMX_BUFFER_FLAG_DISCONTINUITY_DETECTED)
      swfilterSectionNew { feed with pusiSeen := false }
    else feed
  { feed with cc := cc }

/-- `neumo_dvb_dmx_swfilter_section_packet`; `none` when it returns -1. -/
def swfilterSectionPacket (feed : SectionFeed) (buf : Packet UInt8) : Option SectionFeed :=
  let count := payload buf
  if count = 0 then none
  else
    let p := 188 - count
    let feed := checkContinuity feed buf
    if buf 1 &&& 0x40 ≠ 0 then
      if count > 1 ∧ (buf p).toNat < count then
        let before_len := (buf p).toNat
        let feed := swfilterSectionCopyDump use feed (buf.read (p + 1) before_len)
        let feed := swfilterSectionNew { feed with pusiSeen := true }
        let after_len := count - 1 - before_len
        some (swfilterSectionCopyDump use feed (buf.read (p + 1 + before_len) after_len))
      else some (feed.setBufFlags DMX_BUFFER_FLAG_DISCONTINUITY_DETECTED)
    else some (swfilterSectionCopyDump use feed (buf.read p count))

/-- What `dmx_section_feed_start_filtering` does to the buffer. -/
def startSectionFiltering (feed : SectionFeed) : SectionFeed :=
  { feed with tsfeedp := 0, secbuf := 0, secbufp := 0, seclen := 0, pusiSeen := false }

/-- `neumo_dvb_dmx_swfilter_packet_type`, for a feed of sections. -/
def swfilterPacketType (feed : SectionFeed) (buf : Packet UInt8) : SectionFeed :=
  if ¬use.isFiltering then feed
  else
    match swfilterSectionPacket use feed buf with
    | some feed => feed
    | none => { feed with seclen := 0, secbufp := 0 }

/-- The packets of the pid, one after another. -/
def sectionPackets (feed : SectionFeed) (packets : List (Packet UInt8)) : SectionFeed :=
  packets.foldl (swfilterPacketType use) feed

end Demux

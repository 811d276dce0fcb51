import NeumoDrivers.Dmxdev.Filter

/-! The functions that the demux registers for its filters (`neumo-dvb-demux.c`).

    A demux has an array of feeds, for pids and for sections, and an array of section filters. A feed
    that is in use is in the list of the container it was allocated in and counts as a user of it.
    What comes from outside is `answers`, one for each call that asks: whether the wait for a mutex is
    interrupted, whether memory can be had, and what `start_feed` of the card returns. `stop_feed` is
    there and its result is not looked at. -/

namespace Dmx
open Function
open Demux (FeedsNo BbfNo EmbeddedStreamType DvbDemux)

inductive DvbDmxState where | free | allocated | ready | go
  deriving DecidableEq

inductive DvbDmxFilterType where | ts | sec
  deriving DecidableEq

def DMX_MAX_PID : ℕ := 0x2000

/-- `struct neumo_dvb_demux_feed`. `isFiltering` and `priv` are those of the stream of a pid or of the
    section feed in it; `priv` tells whether the filter has written itself there. -/
structure Feed where
  state : DvbDmxState
  type : DvbDmxFilterType
  pid : ℕ
  tsType : ℕ
  pesType : ℕ
  parentFeeds : FeedsNo
  isFiltering : Bool
  priv : Bool
  sectionFilter : List SecFilterNo

/-- `struct neumo_dvb_demux_section_filter`. -/
structure SectionFilter where
  state : DvbDmxState
  feed : SecFeedNo

structure Answer where
  interrupted : Bool
  memory : Bool
  startFeed : Except Errno Unit

structure NeumoDvbDemux where
  /-- The containers and the streams embedded in transport streams. -/
  streams : DvbDemux
  outputFeedList : FeedsNo → List ℕ
  feednum : ℕ
  feedarray : ℕ → Feed
  filternum : ℕ
  sectionFilter : SecFilterNo → SectionFilter
  pesfilter : ℕ → Option ℕ
  answers : ℕ → Answer
  asked : ℕ
  /-- A function was called with `NULL` for a stream. -/
  crashed : Bool

namespace NeumoDvbDemux

variable (demux : NeumoDvbDemux)

def answer : Answer := demux.answers demux.asked

def ask : NeumoDvbDemux := { demux with asked := demux.asked + 1 }

def setFeed (i : ℕ) (feed : Feed) : NeumoDvbDemux :=
  { demux with feedarray := update demux.feedarray i feed }

def setSectionFilter (f : SecFilterNo) (filter : SectionFilter) : NeumoDvbDemux :=
  { demux with sectionFilter := update demux.sectionFilter f filter }

/-! ### Feeds -/

/-- `dvb_dmx_feed_alloc`. -/
def feedAlloc : Option ℕ :=
  (List.range demux.feednum).find? fun i => (demux.feedarray i).state = .free

/-- `dvb_dmx_section_filter_alloc`. -/
def sectionFilterAlloc : Option SecFilterNo :=
  (List.range demux.filternum).find? fun f => (demux.sectionFilter f).state = .free

/-- `dvb_demux_output_feed_add`. -/
def outputFeedAdd (i : ℕ) : NeumoDvbDemux :=
  let feeds := (demux.feedarray i).parentFeeds
  if i ∈ demux.outputFeedList feeds then demux
  else
    let container := demux.streams.feeds feeds
    { demux with
      outputFeedList := update demux.outputFeedList feeds (i :: demux.outputFeedList feeds)
      streams := demux.streams.setFeeds feeds
        { container with refcount := container.refcount + 1 } }

/-- `dvb_demux_output_feed_del`. -/
def outputFeedDel (i : ℕ) : NeumoDvbDemux :=
  let feeds := (demux.feedarray i).parentFeeds
  if i ∉ demux.outputFeedList feeds then demux
  else
    { demux with
      outputFeedList := update demux.outputFeedList feeds ((demux.outputFeedList feeds).erase i)
      streams := Demux.putFeeds demux.streams feeds }

/-! ### Streams of a pid -/

/-- `dvbdmx_allocate_neumo_pid_stream`. -/
def allocateNeumoPidStream (pid tsType pesType : ℕ) (parent : Option FeedsNo) :
    Except (Errno × Option PidStreamNo) PidStreamNo × NeumoDvbDemux :=
  if pid > DMX_MAX_PID then (.error (EINVAL, none), demux)
  else if demux.answer.interrupted then (.error (ERESTARTSYS, none), demux.ask)
  else
    let demux := demux.ask
    match demux.feedAlloc with
    | none => (.error (EBUSY, none), demux)
    | some i =>
      let feed := { demux.feedarray i with
        state := .allocated, type := .ts, pid := 0xffff
        parentFeeds := parent.getD .default, isFiltering := false, priv := false }
      let demux := demux.setFeed i feed
      if tsType &&& TS_DECODER ≠ 0 ∧ (pesType ≥ DMX_PES_OTHER ∨
          demux.pesfilter pesType ≠ none ∧ demux.pesfilter pesType ≠ some i) then
        (.error (EINVAL, some i), demux)
      else
        let demux := if tsType &&& TS_DECODER ≠ 0 then
          { demux with pesfilter := update demux.pesfilter pesType (some i) } else demux
        let demux := demux.outputFeedAdd i
        (.ok i, demux.setFeed i
          { feed with pid := pid, tsType := tsType, pesType := pesType, state := .ready })

/-- The assignment to `neumo_pid_stream->priv`. -/
def setPriv (i : PidStreamNo) : NeumoDvbDemux :=
  demux.setFeed i { demux.feedarray i with priv := true }

/-- `demux_ts_feed_start_filtering`. -/
def startFiltering (i : PidStreamNo) : Except Errno Unit × NeumoDvbDemux :=
  let feed := demux.feedarray i
  if demux.answer.interrupted then (.error ERESTARTSYS, demux.ask)
  else if feed.state ≠ .ready ∨ feed.type ≠ .ts then (.error EINVAL, demux.ask)
  else
    match demux.answer.startFeed with
    | .error e => (.error e, demux.ask)
    | .ok () => (.ok (), demux.ask.setFeed i { feed with isFiltering := true, state := .go })

/-- `demux_ts_feed_stop_filtering`. -/
def stopFiltering (i : PidStreamNo) : NeumoDvbDemux :=
  let feed := demux.feedarray i
  if feed.state ≠ .go then demux
  else demux.setFeed i { feed with isFiltering := false, state := .allocated }

/-- `feed->section_filter->state = DMX_STATE_FREE`, for what `section_filter` points to. -/
def freeSectionFilter (feed : Feed) : NeumoDvbDemux :=
  match feed.sectionFilter with
  | [] => demux
  | f :: _ => demux.setSectionFilter f { demux.sectionFilter f with state := .free }

/-- `dvbdmx_release_neumo_pid_stream`. -/
def releaseNeumoPidStream (i : PidStreamNo) : NeumoDvbDemux :=
  let feed := demux.feedarray i
  if feed.state = .free then demux
  else
    let demux := (demux.setFeed i { feed with state := .free }).freeSectionFilter feed
    let demux := demux.outputFeedDel i
    let demux := demux.setFeed i { feed with state := .free, pid := 0xffff }
    if feed.tsType &&& TS_DECODER ≠ 0 ∧ feed.pesType < DMX_PES_OTHER then
      { demux with pesfilter := update demux.pesfilter feed.pesType none }
    else demux

/-! ### Embedded streams -/

/-- `dvbdmx_allocate_stid_stream` and `dvbdmx_allocate_t2mi_stream`. -/
def allocateStream (type : EmbeddedStreamType) (embeddingPid isi : ℤ) (parent : Option FeedsNo) :
    Except Errno (BbfNo × FeedsNo) × NeumoDvbDemux :=
  if demux.answer.interrupted then (.error ERESTARTSYS, demux.ask)
  else
    match Demux.allocateStream demux.streams embeddingPid isi (parent.getD type.parent)
      demux.answer.memory with
    | (streams, none) => (.error EBUSY, { demux.ask with streams := streams })
    | (streams, some b) => (.ok (b, .ofBbf b), { demux.ask with streams := streams })

/-- `dvbdmx_release_bbframes_stream`. -/
def releaseBbfStream (stream : Option BbfNo) : NeumoDvbDemux :=
  match stream with
  | none => { demux with crashed := true }
  | some b => { demux with streams := Demux.bbframesStreamRelease demux.streams b }

/-! ### Sections -/

/-- `dvbdmx_allocate_section_feed`; `check_crc` is for the sections only. -/
def allocateSectionFeed (pid : ℕ) (parent : Option FeedsNo) :
    Except Errno SecFeedNo × NeumoDvbDemux :=
  if pid > 0x1fff then (.error EINVAL, demux)
  else if demux.answer.interrupted then (.error ERESTARTSYS, demux.ask)
  else
    let demux := demux.ask
    match demux.feedAlloc with
    | none => (.error EBUSY, demux)
    | some i =>
      let feed := { demux.feedarray i with
        state := .allocated, type := .sec, pid := 0xffff, sectionFilter := []
        parentFeeds := parent.getD .default, isFiltering := false, priv := false }
      let demux := (demux.setFeed i feed).outputFeedAdd i
      (.ok i, demux.setFeed i { feed with pid := pid, state := .ready })

/-- `dvbdmx_release_section_feed`. -/
def releaseSectionFeed (i : SecFeedNo) : NeumoDvbDemux :=
  let feed := demux.feedarray i
  if feed.state = .free then demux
  else
    let demux := (demux.setFeed i { feed with state := .free }).outputFeedDel i
    demux.setFeed i { feed with state := .free, pid := 0xffff }

/-- `dmx_section_feed_allocate_filter`. -/
def allocateSectionFilter (i : SecFeedNo) : Except Errno SecFilterNo × NeumoDvbDemux :=
  if demux.answer.interrupted then (.error ERESTARTSYS, demux.ask)
  else
    match demux.sectionFilterAlloc with
    | none => (.error EBUSY, demux.ask)
    | some f =>
      let feed := demux.feedarray i
      (.ok f, (demux.ask.setSectionFilter f ⟨.ready, i⟩).setFeed i
        { feed with sectionFilter := f :: feed.sectionFilter })

/-- `dmx_section_feed_start_filtering`. -/
def startSectionFiltering (i : SecFeedNo) : Except Errno Unit × NeumoDvbDemux :=
  let feed := demux.feedarray i
  if demux.answer.interrupted then (.error ERESTARTSYS, demux.ask)
  else if feed.isFiltering then (.error EBUSY, demux.ask)
  else if feed.sectionFilter = [] then (.error EINVAL, demux.ask)
  else
    match demux.answer.startFeed with
    | .error e => (.error e, demux.ask)
    | .ok () => (.ok (), demux.ask.setFeed i { feed with isFiltering := true, state := .go })

/-- `dmx_section_feed_stop_filtering`. -/
def stopSectionFiltering (i : SecFeedNo) : NeumoDvbDemux :=
  demux.setFeed i { demux.feedarray i with state := .ready, isFiltering := false }

/-- `dmx_section_feed_release_filter`. -/
def releaseSectionFilter (i : SecFeedNo) (f : SecFilterNo) : NeumoDvbDemux :=
  if (demux.sectionFilter f).feed ≠ i then demux
  else
    let demux := if (demux.feedarray i).isFiltering then demux.stopSectionFiltering i else demux
    let feed := demux.feedarray i
    (demux.setFeed i { feed with sectionFilter := feed.sectionFilter.erase f }).setSectionFilter f
      { demux.sectionFilter f with state := .free }

end NeumoDvbDemux

/-- The functions that `neumo_dvb_dmx_init` and the allocations register. -/
def dvbDmx : DmxDemux NeumoDvbDemux where
  kzalloc demux := (demux.answer.memory, demux.ask)
  vmalloc demux := (demux.answer.memory, demux.ask)
  getFeFeeds _ := .fe
  allocateStream type embeddingPid isi parent demux :=
    demux.allocateStream type embeddingPid isi parent
  releaseBbfStream stream demux := demux.releaseBbfStream stream
  allocateNeumoPidStream pid tsType pesType parent demux :=
    demux.allocateNeumoPidStream pid tsType pesType parent
  releaseNeumoPidStream stream demux := demux.releaseNeumoPidStream stream
  setPriv stream demux := demux.setPriv stream
  startFiltering stream demux := demux.startFiltering stream
  stopFiltering stream demux := demux.stopFiltering stream
  allocateSectionFeed pid _ parent demux := demux.allocateSectionFeed pid parent
  releaseSectionFeed sec demux := demux.releaseSectionFeed sec
  allocateSectionFilter sec demux := demux.allocateSectionFilter sec
  releaseSectionFilter sec secfilter demux := demux.releaseSectionFilter sec secfilter
  startSectionFiltering sec demux := demux.startSectionFiltering sec
  stopSectionFiltering sec demux := demux.stopSectionFiltering sec

end Dmx

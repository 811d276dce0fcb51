import NeumoDrivers.Lib.CircularList
import NeumoDrivers.Demux.Subscriptions

/-! A filter of the demux device (`neumo-dmxdev.c`).

    The ioctls on one file descriptor work on one filter. Its union `feed` is a list of what is to be
    started, or a section feed: the first word of the head of the list is also the pointer `sec`.
    What the demux does is a parameter, as in the driver: `DmxDemux` is the table of functions that a
    demux registers, over a state of its own, and tells besides whether memory can be had.

    A function returns its result and the device. Entries of the list are numbered as `kzalloc`
    gives them. Three fields are kept for the proofs: `added`, the entries that have been added to the
    list and not taken out; `secInUse`, the section feed that was found or allocated last, until it
    is released; and `misused`, set when the list is used while it is not a list of `added`, or `sec`
    is called while it is not `secInUse`. The other filters are only looked at when they are section
    filters; the loops that do so never find the filter itself, which is not running then. -/

namespace Dmx
open CircularList Function
open Demux (FeedsNo BbfNo EmbeddedStreamType)

/-- The number `e` of an error `-e`. -/
abbrev Errno := ℕ

def ENOMEM : Errno := 12
def EBUSY : Errno := 16
def ENODEV : Errno := 19
def EINVAL : Errno := 22
def ERESTARTSYS : Errno := 512

abbrev EntryNo := ℕ
abbrev PidStreamNo := ℕ
abbrev SecFeedNo := ℕ
abbrev SecFilterNo := ℕ

inductive DmxdevType where | none | sec | pes
  deriving DecidableEq

inductive NeumoDmxdevState where
  | free | allocated | setStreamSelect | setPes | go | done | timedout
  deriving DecidableEq

def NeumoDmxdevState.toNat : NeumoDmxdevState → ℕ
  | free => 0
  | allocated => 1
  | setStreamSelect => 2
  | setPes => 3
  | go => 4
  | done => 5
  | timedout => 6

instance : LE NeumoDmxdevState := ⟨fun a b => a.toNat ≤ b.toNat⟩
instance : LT NeumoDmxdevState := ⟨fun a b => a.toNat < b.toNat⟩
instance (a b : NeumoDmxdevState) : Decidable (a ≤ b) :=
  inferInstanceAs (Decidable (a.toNat ≤ b.toNat))
instance (a b : NeumoDmxdevState) : Decidable (a < b) :=
  inferInstanceAs (Decidable (a.toNat < b.toNat))

theorem NeumoDmxdevState.not_lt {a b : NeumoDmxdevState} : ¬a < b ↔ b ≤ a := Nat.not_lt

theorem NeumoDmxdevState.not_le {a b : NeumoDmxdevState} : ¬a ≤ b ↔ b < a := Nat.not_le

theorem setPes_lt_go : NeumoDmxdevState.setPes < .go := by decide

/-- `struct dmx_sct_filter_params`, with its flags. -/
structure SctFilterParams where
  pid : ℕ
  checkCrc : Bool
  oneshot : Bool
  immediateStart : Bool

inductive DmxOutput where | decoder | tap | tsTap | tsdemuxTap | demuxTap
  deriving DecidableEq

def DMX_PES_OTHER : ℕ := 20

/-- `struct dmx_pes_filter_params`, with its flag. -/
structure PesFilterParams where
  pid : ℕ
  output : DmxOutput
  pesType : ℕ
  immediateStart : Bool

inductive Params where
  | none
  | sec (params : SctFilterParams)
  | pes (params : PesFilterParams)

/-- An entry of the list: `struct neumo_dmx_pid_feed`, `struct neumo_dmx_stid_stream` or
    `struct neumo_dmx_t2mi_stream`. -/
inductive Entry where
  | pid (pid : ℕ) (neumoPidStream : Option PidStreamNo)
  | embedded (type : EmbeddedStreamType) (embeddingPid isi : ℤ) (stream : Option BbfNo)
      (feeds : Option FeedsNo)

structure Filter where
  /-- `filter.sec`. -/
  secfilter : Option SecFilterNo
  /-- The union. -/
  feed : Links EntryNo SecFeedNo
  params : Params
  type : DmxdevType
  state : NeumoDmxdevState
  /-- `buffer.data` has been allocated. -/
  bufferData : Bool
  currentFeeds : Option FeedsNo

/-- Another filter, of type `DMXDEV_TYPE_SEC`. -/
structure SecUser where
  state : NeumoDmxdevState
  pid : ℕ
  sec : SecFeedNo

structure Dmxdev (δ : Type) where
  filter : Filter
  entries : EntryNo → Entry
  nextEntry : EntryNo
  others : List SecUser
  demux : δ
  added : List EntryNo
  secInUse : Option SecFeedNo
  misused : Bool

/-- `struct neumo_dmx_demux`. An allocation of a stream of a pid that fails may leave a pointer. -/
structure DmxDemux (δ : Type) where
  kzalloc : δ → Bool × δ
  vmalloc : δ → Bool × δ
  getFeFeeds : δ → FeedsNo
  allocateStream (type : EmbeddedStreamType) (embeddingPid isi : ℤ) (parent : Option FeedsNo) :
    δ → Except Errno (BbfNo × FeedsNo) × δ
  releaseBbfStream (stream : Option BbfNo) : δ → δ
  allocateNeumoPidStream (pid tsType pesType : ℕ) (parent : Option FeedsNo) :
    δ → Except (Errno × Option PidStreamNo) PidStreamNo × δ
  releaseNeumoPidStream (stream : PidStreamNo) : δ → δ
  /-- The filter writes itself into `priv` of the stream. -/
  setPriv (stream : PidStreamNo) : δ → δ
  startFiltering (stream : PidStreamNo) : δ → Except Errno Unit × δ
  stopFiltering (stream : PidStreamNo) : δ → δ
  allocateSectionFeed (pid : ℕ) (checkCrc : Bool) (parent : Option FeedsNo) :
    δ → Except Errno SecFeedNo × δ
  releaseSectionFeed (sec : SecFeedNo) : δ → δ
  allocateSectionFilter (sec : SecFeedNo) : δ → Except Errno SecFilterNo × δ
  releaseSectionFilter (sec : SecFeedNo) (secfilter : SecFilterNo) : δ → δ
  startSectionFiltering (sec : SecFeedNo) : δ → Except Errno Unit × δ
  stopSectionFiltering (sec : SecFeedNo) : δ → δ

variable {δ : Type} (ops : DmxDemux δ) (dev : Dmxdev δ)

/-- The pointer `sec` as a word of the union. -/
def secWord : Option SecFeedNo → Word EntryNo SecFeedNo
  | none => .null
  | some k => .other k

namespace Dmxdev

/-! ### The fields -/

def setState (state : NeumoDmxdevState) : Dmxdev δ :=
  { dev with filter := { dev.filter with state := state } }

def setFeed (feed : Links EntryNo SecFeedNo) : Dmxdev δ :=
  { dev with filter := { dev.filter with feed := feed } }

def setEntry (i : EntryNo) (entry : Entry) : Dmxdev δ :=
  { dev with entries := update dev.entries i entry }

def setCurrentFeeds (feeds : Option FeedsNo) : Dmxdev δ :=
  { dev with filter := { dev.filter with currentFeeds := feeds } }

def setSecfilter (secfilter : Option SecFilterNo) : Dmxdev δ :=
  { dev with filter := { dev.filter with secfilter := secfilter } }

/-- A function of the demux without a result. -/
def call (f : δ → δ) : Dmxdev δ := { dev with demux := f dev.demux }

/-! ### The union -/

/-- `feed.dmxdev_feed_list` is used. -/
def useList : Dmxdev δ :=
  { dev with misused := dev.misused || !decide (Linked dev.filter.feed dev.added) }

/-- The entries as the loops over the list find them; each has been allocated. -/
def forward : List EntryNo := dev.filter.feed.forward dev.nextEntry

def backward : List EntryNo := dev.filter.feed.backward dev.nextEntry

def listAdd (i : EntryNo) : Dmxdev δ :=
  { dev.useList.setFeed (dev.filter.feed.add i) with added := i :: dev.added }

def listDel (i : EntryNo) : Dmxdev δ :=
  { dev.useList.setFeed (dev.filter.feed.del i) with added := dev.added.erase i }

/-- `feed.sec`. -/
def sec : Word EntryNo SecFeedNo := dev.filter.feed.next none

def setSec (sec : Option SecFeedNo) : Dmxdev δ :=
  dev.setFeed (dev.filter.feed.setNext none (secWord sec))

/-- `feed.sec` is found or allocated. -/
def takeSec (k : SecFeedNo) : Dmxdev δ := { dev.setSec (some k) with secInUse := some k }

/-- A function of `feed.sec` is called. -/
def callSec (f : SecFeedNo → δ → δ) : Dmxdev δ :=
  match dev.sec with
  | .other k =>
    { dev.call (f k) with misused := dev.misused || dev.secInUse != some k }
  | _ => { dev with misused := true }

end Dmxdev

open Dmxdev

/-! ### Stopping -/

/-- The body of the loop of `dvb_dmxdev_feed_stop`. -/
def stopEntry (i : EntryNo) : Dmxdev δ :=
  match dev.entries i with
  | .pid _ (some stream) => dev.call (ops.stopFiltering stream)
  | _ => dev

/-- `dvb_dmxdev_feed_stop`. -/
def feedStop : Dmxdev δ :=
  let dev := dev.setState .setPes
  match dev.filter.type with
  | .sec => dev.callSec ops.stopSectionFiltering
  | .pes => dev.useList.forward.foldl (stopEntry ops) dev.useList
  | .none => dev

def SecUser.Runs (user : SecUser) (pid : ℕ) : Prop := .go ≤ user.state ∧ user.pid = pid

instance (user : SecUser) (pid : ℕ) : Decidable (user.Runs pid) :=
  inferInstanceAs (Decidable (_ ∧ _))

/-- The first other filter that runs on the pid, and the filters with that one in state
    `DMXDEV_STATE_GO`. -/
def restartFirst (pid : ℕ) : List SecUser → Option SecFeedNo × List SecUser
  | [] => (none, [])
  | user :: users =>
    if user.Runs pid then (some user.sec, { user with state := .go } :: users)
    else
      let (sec, users) := restartFirst pid users
      (sec, user :: users)

def Params.secPid : Params → ℕ
  | .sec params => params.pid
  | .pes params => params.pid
  | .none => 0

def Params.checkCrc : Params → Bool
  | .sec params => params.checkCrc
  | _ => false

/-- `dvb_dmxdev_feed_restart`; for another section filter `dvb_dmxdev_feed_start` sets the state and
    starts its feed. -/
def feedRestart : Dmxdev δ :=
  match restartFirst dev.filter.params.secPid dev.others with
  | (some k, others) =>
    { dev with others := others }.call fun demux => (ops.startSectionFiltering k demux).2
  | (none, _) => { dev.callSec ops.releaseSectionFeed with secInUse := none }

/-- The body of the loop of `dvb_dmxdev_filter_stop`. -/
def releaseEntry (i : EntryNo) : Dmxdev δ :=
  match dev.entries i with
  | .pid pid (some stream) =>
    (dev.call (ops.releaseNeumoPidStream stream)).setEntry i (.pid pid none)
  | .pid pid none => dev.setEntry i (.pid pid none)
  | .embedded _ _ _ stream _ => dev.call (ops.releaseBbfStream stream)

/-- `dvb_dmxdev_filter_stop`, for a section filter. -/
def stopSection : Dmxdev δ :=
  match dev.sec with
  | .null => dev
  | _ =>
    let dev := feedStop ops dev
    let dev := match dev.filter.secfilter with
      | some secfilter => dev.callSec fun k => ops.releaseSectionFilter k secfilter
      | none => dev
    (feedRestart ops dev).setSec none

/-- `dvb_dmxdev_filter_stop`. -/
def filterStop : Except Errno Unit × Dmxdev δ :=
  if dev.filter.state < .go then (.ok (), dev)
  else
    match dev.filter.type with
    | .sec => (.ok (), stopSection ops dev)
    | .pes =>
      let dev := (feedStop ops dev).useList
      (.ok (), dev.forward.foldl (releaseEntry ops) dev)
    | .none => (.error EINVAL, dev)

/-- `dvb_dmxdev_delete_pids`. -/
def deletePids : Dmxdev δ := dev.useList.forward.foldl listDel dev.useList

/-- `dvb_dmxdev_filter_reset`. -/
def filterReset (targetState : NeumoDmxdevState) : Dmxdev δ :=
  if dev.filter.state ≤ targetState then dev
  else
    let dev := if dev.filter.type = .pes then deletePids dev else dev
    { dev with
      filter := { dev.filter with type := .none, currentFeeds := none, state := targetState } }

/-! ### Starting -/

def TS_PACKET : ℕ := 1
def TS_PAYLOAD_ONLY : ℕ := 2
def TS_DECODER : ℕ := 4
def TS_DEMUX : ℕ := 8

/-- The type of the stream that `dvb_dmxdev_start_pid_feed` asks for. -/
def PesFilterParams.tsType (params : PesFilterParams) : ℕ :=
  let tsType := if params.pesType < DMX_PES_OTHER then TS_DECODER else 0
  match params.output with
  | .tsTap => tsType ||| TS_PACKET
  | .tsdemuxTap => tsType ||| (TS_PACKET ||| TS_DEMUX)
  | .demuxTap => tsType ||| (TS_PACKET ||| TS_DEMUX ||| TS_PAYLOAD_ONLY)
  | .tap => tsType ||| (TS_PACKET ||| TS_DEMUX ||| TS_PAYLOAD_ONLY)
  | .decoder => tsType

def Params.pesParams : Params → PesFilterParams
  | .pes params => params
  | _ => ⟨0, .decoder, 0, false⟩

/-- `dvb_dmxdev_start_pid_feed`. -/
def startPidFeed (i : EntryNo) (pid : ℕ) : Except Errno Unit × Dmxdev δ :=
  let para := dev.filter.params.pesParams
  match ops.allocateNeumoPidStream pid para.tsType para.pesType dev.filter.currentFeeds
    dev.demux with
  | (.error (e, stream), demux) =>
    (.error e, { dev with demux := demux }.setEntry i (.pid pid stream))
  | (.ok stream, demux) =>
    let dev := { dev with demux := ops.setPriv stream demux }.setEntry i (.pid pid (some stream))
    match ops.startFiltering stream dev.demux with
    | (.error e, demux) =>
      (.error e, { dev with demux := demux }.call (ops.releaseNeumoPidStream stream))
    | (.ok (), demux) => (.ok (), { dev with demux := demux })

/-- An allocation that fails leaves the stream of the entry as it is, and is not looked at. -/
def allocateEmbedded (i : EntryNo) (type : EmbeddedStreamType) (embeddingPid isi : ℤ)
    (feeds : Option FeedsNo) : Dmxdev δ :=
  match ops.allocateStream type embeddingPid isi dev.filter.currentFeeds dev.demux with
  | (.error _, demux) => { dev with demux := demux }.setCurrentFeeds feeds
  | (.ok (stream, feeds), demux) =>
    ({ dev with demux := demux }.setEntry i
      (.embedded type embeddingPid isi (some stream) (some feeds))).setCurrentFeeds (some feeds)

/-- The body of the loop of `dvb_dmxdev_filter_start`. -/
def startEntry (i : EntryNo) : Except Errno Unit × Dmxdev δ :=
  match dev.entries i with
  | .pid pid _ => startPidFeed ops dev i pid
  | .embedded type embeddingPid isi _ feeds =>
    (.ok (), allocateEmbedded ops dev i type embeddingPid isi feeds)

/-- The loop of `dvb_dmxdev_filter_start`. -/
def startEntries (dev : Dmxdev δ) : List EntryNo → Except Errno Unit × Dmxdev δ
  | [] => (.ok (), dev)
  | i :: is =>
    match startEntry ops dev i with
    | (.error e, dev) => (.error e, (filterStop ops dev).2)
    | (.ok (), dev) => startEntries dev is

/-- A filter in the section feed `k`, and its start. -/
def startSecfilter (k : SecFeedNo) : Except Errno Unit × Dmxdev δ :=
  let result := ops.allocateSectionFilter k dev.demux
  let dev := dev.callSec fun k demux => (ops.allocateSectionFilter k demux).2
  match result.1 with
  | .error e =>
    let dev := feedRestart ops dev
    (.error e, dev.callSec fun k demux => (ops.startSectionFiltering k demux).2)
  | .ok secfilter =>
    let dev := dev.setSecfilter (some secfilter)
    ((ops.startSectionFiltering k dev.demux).1,
      dev.callSec fun k demux => (ops.startSectionFiltering k demux).2)

/-- `dvb_dmxdev_filter_start`, for a section filter. -/
def startSection : Except Errno Unit × Dmxdev δ :=
  let para := dev.filter.params
  let dev := (dev.setSecfilter none).setSec none
  match dev.others.find? fun user => user.Runs para.secPid with
  | some user => startSecfilter ops (feedStop ops (dev.takeSec user.sec)) user.sec
  | none =>
    match ops.allocateSectionFeed para.secPid para.checkCrc dev.filter.currentFeeds dev.demux with
    | (.error e, demux) => (.error e, { dev with demux := demux })
    | (.ok k, demux) => startSecfilter ops ({ dev with demux := demux }.takeSec k) k

/-- The buffer of the filter; `false` without memory for it. -/
def allocateBuffer : Bool × Dmxdev δ :=
  if dev.filter.bufferData then (true, dev)
  else
    let (ok, demux) := ops.vmalloc dev.demux
    (ok, { dev with demux := demux, filter := { dev.filter with bufferData := ok } })

/-- `dvb_dmxdev_filter_start`. -/
def filterStart : Except Errno Unit × Dmxdev δ :=
  if dev.filter.state < .setPes then (.error EINVAL, dev)
  else
    let dev := if .go ≤ dev.filter.state then (filterStop ops dev).2 else dev
    match allocateBuffer ops dev with
    | (false, dev) => (.error ENOMEM, dev)
    | (true, dev) =>
      let (ret, dev) := match dev.filter.type with
        | .sec => startSection ops dev
        | .pes => startEntries ops dev.useList dev.useList.backward
        | .none => (.error EINVAL, dev)
      match ret with
      | .error e => (.error e, dev)
      | .ok () => (.ok (), dev.setState .go)

/-! ### The ioctls -/

/-- `dvb_dmxdev_add_pid`. -/
def addPid (pid : ℕ) : Except Errno Unit × Dmxdev δ :=
  if dev.filter.type ≠ .pes ∨ dev.filter.state < .setStreamSelect then (.error EINVAL, dev)
  else
    let output := dev.filter.params.pesParams.output
    let dev := if output ≠ .tsdemuxTap ∧ output ≠ .tsTap then dev.useList else dev
    if output ≠ .tsdemuxTap ∧ output ≠ .tsTap ∧ dev.filter.feed.next none ≠ .node none then
      (.error EINVAL, dev)
    else
      match ops.kzalloc dev.demux with
      | (false, demux) => (.error ENOMEM, { dev with demux := demux })
      | (true, demux) =>
        let i := dev.nextEntry
        let dev := { dev with demux := demux, nextEntry := i + 1 }.setEntry i (.pid pid none)
        if dev.filter.feed.next none = .null then (.error EINVAL, dev.useList)
        else
          let dev := dev.listAdd i
          if .go ≤ dev.filter.state then startPidFeed ops dev i pid else (.ok (), dev)

/-- The body of the loop of `dvb_dmxdev_remove_pid`. -/
def removeEntry (pid : ℕ) (i : EntryNo) : Dmxdev δ :=
  match dev.entries i with
  | .pid p (some stream) =>
    if p = pid then
      ((dev.call (ops.stopFiltering stream)).call (ops.releaseNeumoPidStream stream)).listDel i
    else dev
  | _ => dev

/-- `dvb_dmxdev_remove_pid`. -/
def removePid (pid : ℕ) : Except Errno Unit × Dmxdev δ :=
  if dev.filter.type ≠ .pes ∨ dev.filter.state < .setStreamSelect then (.error EINVAL, dev)
  else (.ok (), dev.useList.forward.foldl (fun dev i => removeEntry ops dev pid i) dev.useList)

/-- `dvb_dmxdev_section_filter_set`. -/
def sectionFilterSet (params : SctFilterParams) : Except Errno Unit × Dmxdev δ :=
  let dev := (filterStop ops dev).2
  let dev := { dev with
    filter := { dev.filter with type := .sec, params := .sec params, state := .setPes } }
  if params.immediateStart then filterStart ops dev else (.ok (), dev)

/-- `dvb_dmxdev_pes_filter_set`. -/
def pesFilterSet (params : PesFilterParams) : Except Errno Unit × Dmxdev δ :=
  let dev := filterReset (filterStop ops dev).2 .setStreamSelect
  if params.pesType > DMX_PES_OTHER then (.error EINVAL, dev)
  else
    let dev := { dev with
      filter := { dev.filter with type := .pes, params := .pes params, state := .setPes } }
    match addPid ops dev params.pid with
    | (.error e, dev) => (.error e, dev)
    | (.ok (), dev) => if params.immediateStart then filterStart ops dev else (.ok (), dev)

/-- `dvb_dmxdev_add_stid_stream` and `dvb_dmxdev_add_t2mi_stream`. -/
def addStream (type : EmbeddedStreamType) (embeddingPid isi : ℤ) :
    Except Errno Unit × Dmxdev δ :=
  match ops.kzalloc dev.demux with
  | (false, demux) => (.error ENOMEM, { dev with demux := demux })
  | (true, demux) =>
    let i := dev.nextEntry
    let dev := { dev with demux := demux, nextEntry := i + 1 }.setEntry i
      (.embedded type embeddingPid isi none none)
    (.ok (), dev.listAdd i)

/-- `dvb_dmxdev_filter_free`. -/
def filterFree : Dmxdev δ :=
  let dev := filterReset (filterStop ops dev).2 .allocated
  { dev with filter := { dev.filter with bufferData := false, state := .free } }

/-- What a program does with the file descriptor, and what happens to the filter meanwhile: a section
    is given to `dvb_dmxdev_section_callback`, or the timer expires. -/
inductive Request where
  | start
  | stop
  | setFilter (params : SctFilterParams)
  | setPesFilter (params : PesFilterParams)
  | setStidStream (embeddingPid isi : ℤ)
  | setT2miStream (embeddingPid isi : ℤ)
  | setFeStream
  | addPid (pid : ℕ)
  | removePid (pid : ℕ)
  | close
  | sectionCallback
  | filterTimeout

/-- The state after `dvb_dmxdev_section_callback`. -/
def sectionCallback : Dmxdev δ :=
  match dev.filter.type, dev.filter.params with
  | .sec, .sec params =>
    if dev.filter.state = .go ∧ params.oneshot then dev.setState .done else dev
  | _, _ => dev

/-- `dvb_dmxdev_filter_timeout`; the timer runs while a section filter does. -/
def filterTimeout : Dmxdev δ :=
  if dev.filter.type = .sec ∧ dev.filter.state = .go then dev.setState .timedout else dev

/-- `dvb_demux_do_ioctl`, `close`, and the events. -/
def doIoctl : Request → Except Errno Unit × Dmxdev δ
  | .start => filterStart ops dev
  | .stop => filterStop ops dev
  | .setFilter params => sectionFilterSet ops dev params
  | .setPesFilter params => pesFilterSet ops dev params
  | .setStidStream embeddingPid isi => addStream ops dev .stid embeddingPid isi
  | .setT2miStream embeddingPid isi => addStream ops dev .t2mi embeddingPid isi
  | .setFeStream => (.ok (), dev.setCurrentFeeds (some (ops.getFeFeeds dev.demux)))
  | .addPid pid => addPid ops dev pid
  | .removePid pid => removePid ops dev pid
  | .close => (.ok (), filterFree ops dev)
  | .sectionCallback => (.ok (), sectionCallback dev)
  | .filterTimeout => (.ok (), filterTimeout dev)

/-- `neumo_dvb_demux_open` finds a filter that is free. -/
def demuxOpen : Dmxdev δ :=
  { dev with
    filter := { dev.filter with
      feed := dev.filter.feed.init
      bufferData := false
      type := .none
      state := .allocated }
    added := []
    secInUse := none
    misused := false }

end Dmx

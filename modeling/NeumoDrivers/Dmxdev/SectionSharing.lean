import NeumoDrivers.Demux.SectionFilters
import NeumoDrivers.Demux.Crc
import NeumoDrivers.Dmxdev.DemuxRuns

/-! Section filters that share a feed (`neumo-dmxdev.c`, `neumo-dvb-demux.c`).

    The section filters of a device that run on one pid have one section feed together: the first
    allocates it, with its own CRC flag and its own parent stream, and the others take it over. A
    filter that starts or stops stops the feed, and it is then started again for all.

    Sections arrive in packets. Where one begins, a feed that is filtering takes to collecting it;
    it is lost when the feed is started anew before its end. -/

namespace Dmx
open Function
open Demux (FeedsNo DmxFilter DmxSectionFilter)

/-- A filter of type `DMXDEV_TYPE_SEC`, with the two fields of its unions. -/
structure SecFile where
  state : NeumoDmxdevState
  params : SctFilterParams
  /-- `params.sec.filter`. -/
  filter : DmxFilter
  /-- `buffer.data` has been allocated. -/
  data : Bool
  currentFeeds : Option FeedsNo
  sec : Option SecFeedNo
  secfilter : Option SecFilterNo

/-- A section, as it lies in the buffer of a feed, with what follows it. -/
abbrev SectionBytes := ℕ → UInt8

structure SecDevice where
  filternum : ℕ
  filter : ℕ → SecFile
  demux : NeumoDvbDemux
  /-- `check_crc` of the section feeds. -/
  checkCrc : SecFeedNo → Bool
  /-- The section feed has seen the beginning of the section that is under way. -/
  receiving : SecFeedNo → Bool
  /-- `filter` of the section filters. -/
  secfilter : SecFilterNo → DmxSectionFilter
  /-- `filter.priv` of the section filters. -/
  priv : SecFilterNo → ℕ
  checkCrc32 : List UInt8 → UInt32

/-- The checksum of a section is there and is wrong. -/
def wrongCrc (checkCrc32 : List UInt8 → UInt32) (buf : SectionBytes) : Bool :=
  buf 1 &&& 0x80 ≠ 0 ∧ checkCrc32 ((List.range (Demux.sectionLength buf)).map buf) ≠ 0

namespace SecDevice

def setFile (dev : SecDevice) (i : ℕ) (file : SecFile) : SecDevice :=
  { dev with filter := update dev.filter i file }

def setState (dev : SecDevice) (i : ℕ) (state : NeumoDmxdevState) : SecDevice :=
  dev.setFile i { dev.filter i with state := state }

/-- The loop that looks for a filter that runs on the pid. -/
def first (dev : SecDevice) (pid : ℕ) : Option ℕ :=
  (List.range dev.filternum).find? fun i =>
    .go ≤ (dev.filter i).state ∧ (dev.filter i).params.pid = pid

/-- `start_section_filtering`. What the feed has collected is dropped. -/
def startSectionFiltering (dev : SecDevice) (k : SecFeedNo) : Except Errno Unit × SecDevice :=
  match dev.demux.startSectionFiltering k with
  | (.error e, demux) => (.error e, { dev with demux := demux })
  | (.ok (), demux) =>
    (.ok (), { dev with demux := demux, receiving := update dev.receiving k false })

/-- `dvb_dmxdev_feed_stop`. -/
def feedStop (dev : SecDevice) (i : ℕ) : SecDevice :=
  let dev := dev.setState i .setPes
  match (dev.filter i).sec with
  | none => dev
  | some k => { dev with demux := dev.demux.stopSectionFiltering k }

/-- `dvb_dmxdev_feed_start`. -/
def feedStart (dev : SecDevice) (i : ℕ) : SecDevice :=
  let dev := dev.setState i .go
  match (dev.filter i).sec with
  | none => dev
  | some k => (dev.startSectionFiltering k).2

/-- `dvb_dmxdev_feed_restart`. -/
def feedRestart (dev : SecDevice) (i : ℕ) : SecDevice :=
  match dev.first (dev.filter i).params.pid with
  | some j => dev.feedStart j
  | none =>
    match (dev.filter i).sec with
    | none => dev
    | some k => { dev with demux := dev.demux.releaseSectionFeed k }

/-- `release_section_filter`, where there is a filter. -/
def releaseSecfilter (dev : SecDevice) (i : ℕ) (k : SecFeedNo) : SecDevice :=
  match (dev.filter i).secfilter with
  | none => dev
  | some f => { dev with demux := dev.demux.releaseSectionFilter k f }

/-- `dvb_dmxdev_filter_stop`. -/
def filterStop (dev : SecDevice) (i : ℕ) : SecDevice :=
  if (dev.filter i).state < .go then dev
  else
    match (dev.filter i).sec with
    | none => dev
    | some k =>
      let dev := ((dev.feedStop i).releaseSecfilter i k).feedRestart i
      dev.setFile i { dev.filter i with sec := none }

/-- What `dvb_dmxdev_filter_start` does when it has a feed. -/
def startSecfilter (dev : SecDevice) (i : ℕ) (k : SecFeedNo) : Except Errno Unit × SecDevice :=
  match dev.demux.allocateSectionFilter k with
  | (.error e, demux) =>
    (.error e, (({ dev with demux := demux }.feedRestart i).startSectionFiltering k).2)
  | (.ok f, demux) =>
    let dev := { dev with
      demux := demux
      filter := update dev.filter i { dev.filter i with secfilter := some f }
      priv := update dev.priv f i
      secfilter := update dev.secfilter f
        (Demux.fillSecfilter (dev.secfilter f) (dev.filter i).filter) }
    match dev.startSectionFiltering k with
    | (.error e, dev) => (.error e, dev)
    | (.ok (), dev) => (.ok (), dev.setState i .go)

/-- The filter has its buffer, and no feed yet. -/
def prepare (dev : SecDevice) (i : ℕ) : SecDevice :=
  dev.setFile i { dev.filter i with data := true, sec := none, secfilter := none }

/-- The feed of a filter that runs on the pid already. -/
def found (dev : SecDevice) (i : ℕ) : Option SecFeedNo :=
  (dev.first (dev.filter i).params.pid).bind fun j => (dev.filter j).sec

/-- `dvb_dmxdev_filter_start` from the search for a feed on. -/
def startFeed (dev : SecDevice) (i : ℕ) : Except Errno Unit × SecDevice :=
  match dev.found i with
  | some k =>
    ((dev.setFile i { dev.filter i with sec := some k }).feedStop i).startSecfilter i k
  | none =>
    match dev.demux.allocateSectionFeed (dev.filter i).params.pid (dev.filter i).currentFeeds with
    | (.error e, demux) => (.error e, { dev with demux := demux })
    | (.ok k, demux) =>
      let dev := { dev with
        demux := demux
        filter := update dev.filter i { dev.filter i with sec := some k }
        checkCrc := update dev.checkCrc k (dev.filter i).params.checkCrc
        receiving := update dev.receiving k false }
      dev.startSecfilter i k

/-- `dvb_dmxdev_filter_start`; `memory` tells whether memory for the buffer can be had. -/
def filterStart (dev : SecDevice) (i : ℕ) (memory : Bool) : Except Errno Unit × SecDevice :=
  if (dev.filter i).state < .setPes then (.error EINVAL, dev)
  else
    let dev := dev.filterStop i
    if ¬(dev.filter i).data ∧ ¬memory then (.error ENOMEM, dev)
    else (dev.prepare i).startFeed i

/-- `dvb_dmxdev_section_filter_set`; with `DMX_IMMEDIATE_START` a start follows. -/
def sectionFilterSet (dev : SecDevice) (i : ℕ) (params : SctFilterParams) (filter : DmxFilter) :
    SecDevice :=
  let dev := dev.filterStop i
  dev.setFile i { dev.filter i with
    params := params, filter := Demux.invertMode filter, state := .setPes }

/-- `dvb_dmxdev_filter_free`. -/
def filterFree (dev : SecDevice) (i : ℕ) : SecDevice :=
  let dev := dev.filterStop i
  dev.setFile i { dev.filter i with state := .free, currentFeeds := none, data := false }

/-! ### Sections -/

/-- The feeds that a section of the stream goes to. -/
def collects (dev : SecDevice) (parent : FeedsNo) (pid : ℕ) (k : SecFeedNo) : Bool :=
  k ∈ dev.demux.outputFeedList parent ∧ (dev.demux.feedarray k).pid = pid ∧
    (dev.demux.feedarray k).isFiltering

/-- A packet in which a section begins. -/
def beginSection (dev : SecDevice) (parent : FeedsNo) (pid : ℕ) : SecDevice :=
  { dev with receiving := fun k => dev.receiving k || dev.collects parent pid k }

/-- `neumo_dvb_dmx_swfilter_section_feed`: the section filters that pass the section. -/
def swfilterSectionFeed (dev : SecDevice) (buf : SectionBytes) (k : SecFeedNo) :
    List SecFilterNo :=
  if dev.checkCrc k ∧ wrongCrc dev.checkCrc32 buf then []
  else (dev.demux.feedarray k).sectionFilter.filter fun f =>
    Demux.filterPasses buf (dev.secfilter f).prepared

/-- `dvb_dmxdev_section_callback`, and the filters that have got the section. -/
def sectionCallback (got : List ℕ × SecDevice) (i : ℕ) : List ℕ × SecDevice :=
  if (got.2.filter i).state ≠ .go then got
  else (got.1 ++ [i],
    if (got.2.filter i).params.oneshot then got.2.setState i .done else got.2)

/-- The filters that are called back, one after the other. -/
def called (dev : SecDevice) (parent : FeedsNo) (pid : ℕ) (buf : SectionBytes) : List ℕ :=
  ((dev.demux.outputFeedList parent).filter fun k =>
    dev.collects parent pid k && dev.receiving k).flatMap fun k =>
      (dev.swfilterSectionFeed buf k).map dev.priv

/-- The packet in which the section ends. -/
def endSection (dev : SecDevice) (parent : FeedsNo) (pid : ℕ) (buf : SectionBytes) :
    List ℕ × SecDevice :=
  (dev.called parent pid buf).foldl sectionCallback
    ([], { dev with receiving := fun k => dev.receiving k && !dev.collects parent pid k })

end SecDevice

/-! ### Runs -/

inductive SecAct where
  | setFilter (i : ℕ) (params : SctFilterParams) (filter : DmxFilter)
  | setCurrentFeeds (i : ℕ) (feeds : Option FeedsNo)
  | start (i : ℕ) (memory : Bool)
  | stop (i : ℕ)
  | free (i : ℕ)
  | timeout (i : ℕ)
  | beginSection (parent : FeedsNo) (pid : ℕ)
  | endSection (parent : FeedsNo) (pid : ℕ) (buf : SectionBytes)

def SecAct.run (dev : SecDevice) : SecAct → SecDevice
  | .setFilter i params filter => dev.sectionFilterSet i params filter
  | .setCurrentFeeds i feeds => dev.setFile i { dev.filter i with currentFeeds := feeds }
  | .start i memory => (dev.filterStart i memory).2
  | .stop i => dev.filterStop i
  | .free i => dev.filterFree i
  | .timeout i => dev.setState i .timedout
  | .beginSection parent pid => dev.beginSection parent pid
  | .endSection parent pid buf => (dev.endSection parent pid buf).2

/-- There is such a filter, and the timer of one runs only where it is started. -/
def SecAct.Allowed (dev : SecDevice) : SecAct → Prop
  | .setFilter i _ _ => i < dev.filternum
  | .setCurrentFeeds i _ => i < dev.filternum
  | .start i _ => i < dev.filternum
  | .stop i => i < dev.filternum
  | .free i => i < dev.filternum
  | .timeout i => i < dev.filternum ∧ (dev.filter i).state = .go
  | .beginSection _ _ => True
  | .endSection _ _ _ => True

/-- A filter by itself: what its user has asked for, whether it is started and not done, the stream
    its sections come from, and whether the section under way has begun since it was started. -/
structure Alone where
  params : SctFilterParams
  filter : DmxFilter
  currentFeeds : Option FeedsNo
  running : Bool
  parent : FeedsNo
  seen : Bool

namespace Alone

def stop (alone : Alone) : Alone := { alone with running := false }

/-- A start, and whether it succeeds. -/
def start (alone : Alone) (ok : Bool) : Alone :=
  if ok then
    { alone with running := true, parent := alone.currentFeeds.getD .default, seen := false }
  else alone.stop

/-- The stream is the one that the filter is for. -/
def hears (alone : Alone) (parent : FeedsNo) (pid : ℕ) : Bool :=
  alone.running ∧ alone.parent = parent ∧ alone.params.pid = pid

/-- The sections that the filter is to get. -/
def receives (alone : Alone) (checkCrc32 : List UInt8 → UInt32) (parent : FeedsNo) (pid : ℕ)
    (buf : SectionBytes) : Bool :=
  alone.hears parent pid && alone.seen &&
    Demux.filterPasses buf (Demux.secfilterOf ⟨.replicate _ 0, .replicate _ 0, .replicate _ 0⟩
      alone.filter) && !(alone.params.checkCrc && wrongCrc checkCrc32 buf)

def beginSection (alone : Alone) (parent : FeedsNo) (pid : ℕ) : Alone :=
  { alone with seen := alone.seen || alone.hears parent pid }

def endSection (alone : Alone) (checkCrc32 : List UInt8 → UInt32) (parent : FeedsNo) (pid : ℕ)
    (buf : SectionBytes) : Alone :=
  { alone with
    seen := alone.seen && !alone.hears parent pid
    running := alone.running &&
      !(alone.params.oneshot && alone.receives checkCrc32 parent pid buf) }

end Alone

/-- The filters, each by itself, after the device has done an action. Of the device itself only the
    results of its calls are looked at. -/
def SecAct.alone (dev : SecDevice) (alone : ℕ → Alone) : SecAct → ℕ → Alone
  | .setFilter i params filter =>
    update alone i { (alone i).stop with params := params, filter := filter }
  | .setCurrentFeeds i feeds => update alone i { alone i with currentFeeds := feeds }
  | .start i memory =>
    update alone i ((alone i).start (dev.filterStart i memory).1.isOk)
  | .stop i => update alone i (alone i).stop
  | .free i => update alone i { (alone i).stop with currentFeeds := none }
  | .timeout i => update alone i (alone i).stop
  | .beginSection parent pid => fun i => (alone i).beginSection parent pid
  | .endSection parent pid buf => fun i =>
    (alone i).endSection dev.checkCrc32 parent pid buf

namespace SecDevice

/-- The device as it is opened: nothing has been started. -/
def init (filternum : ℕ) (demux : NeumoDvbDemux) (file : ℕ → SecFile)
    (secfilter : SecFilterNo → DmxSectionFilter) (checkCrc32 : List UInt8 → UInt32) : SecDevice where
  filternum := filternum
  filter i := { file i with state := .allocated, currentFeeds := none }
  demux := demux
  checkCrc _ := false
  receiving _ := false
  secfilter := secfilter
  priv _ := 0
  checkCrc32 := checkCrc32

/-! ### The steps that leave the other filters alone -/

/-- The answer to the call after the next `n` lets a feed be started. -/
def StartsAfter (dev : SecDevice) (n : ℕ) : Prop :=
  (dev.demux.answers (dev.demux.asked + n)).interrupted = false ∧
    (dev.demux.answers (dev.demux.asked + n)).startFeed = .ok ()

/-- A section filter can be had. -/
def CanFilter (dev : SecDevice) : Prop :=
  dev.demux.answer.interrupted = false ∧ dev.demux.sectionFilterAlloc ≠ none

/-- Another filter that runs on the pid of the filter. -/
def firstOther (dev : SecDevice) (i : ℕ) : Option ℕ :=
  (List.range dev.filternum).find? fun j =>
    j ≠ i ∧ .go ≤ (dev.filter j).state ∧ (dev.filter j).params.pid = (dev.filter i).params.pid

/-- Where the filter that stops is not the only one on its pid, the first of the others is not done,
    no section is under way in the feed, and the feed can be started again. -/
def StopKept (dev : SecDevice) (i : ℕ) : Prop :=
  .go ≤ (dev.filter i).state → ∀ j ∈ dev.firstOther i, (dev.filter j).state = .go ∧
    (∀ k ∈ (dev.filter j).sec, dev.receiving k = false) ∧ dev.StartsAfter 0

/-- Where the filter that starts is not the only one on its pid, no section is under way in the feed
    and the feed can be started again. If the filter gets a section filter, it wants the same as
    those that run; if not, the first of them is not done. -/
def StartKept (dev : SecDevice) (i : ℕ) : Prop :=
  ∀ j ∈ dev.firstOther i, ∀ k ∈ (dev.filter j).sec,
    dev.receiving k = false ∧ dev.StartsAfter 1 ∧
      (dev.CanFilter →
        dev.checkCrc k = (dev.filter i).params.checkCrc ∧
          (dev.demux.feedarray k).parentFeeds = (dev.filter i).currentFeeds.getD .default) ∧
      (¬dev.CanFilter → (dev.filter j).state = .go)

instance (dev : SecDevice) (n : ℕ) : Decidable (dev.StartsAfter n) :=
  inferInstanceAs (Decidable (_ ∧ _))

instance (dev : SecDevice) : Decidable dev.CanFilter := inferInstanceAs (Decidable (_ ∧ _))

instance (dev : SecDevice) (i : ℕ) : Decidable (dev.StopKept i) :=
  inferInstanceAs (Decidable (_ → ∀ j ∈ dev.firstOther i, _ ∧ (∀ k ∈ (dev.filter j).sec, _) ∧ _))

instance (dev : SecDevice) (i : ℕ) : Decidable (dev.StartKept i) :=
  inferInstanceAs (Decidable (∀ j ∈ dev.firstOther i, ∀ k ∈ (dev.filter j).sec,
    _ ∧ _ ∧ (dev.CanFilter → _ ∧ _) ∧ (¬dev.CanFilter → _)))

end SecDevice

instance (dev : SecDevice) (act : SecAct) : Decidable (act.Allowed dev) :=
  match act with
  | .setFilter i _ _ => inferInstanceAs (Decidable (i < dev.filternum))
  | .setCurrentFeeds i _ => inferInstanceAs (Decidable (i < dev.filternum))
  | .start i _ => inferInstanceAs (Decidable (i < dev.filternum))
  | .stop i => inferInstanceAs (Decidable (i < dev.filternum))
  | .free i => inferInstanceAs (Decidable (i < dev.filternum))
  | .timeout _ => inferInstanceAs (Decidable (_ ∧ _))
  | .beginSection _ _ => inferInstanceAs (Decidable True)
  | .endSection _ _ _ => inferInstanceAs (Decidable True)

def SecAct.Kept (dev : SecDevice) : SecAct → Prop
  | .setFilter i _ _ => dev.StopKept i
  | .start i memory => .setPes ≤ (dev.filter i).state → dev.StopKept i ∧
      ((dev.filter i).data ∨ memory → (dev.filterStop i).StartKept i)
  | .stop i => dev.StopKept i
  | .free i => dev.StopKept i
  | _ => True

instance (dev : SecDevice) (act : SecAct) : Decidable (act.Kept dev) :=
  match act with
  | .setFilter i _ _ => inferInstanceAs (Decidable (dev.StopKept i))
  | .setCurrentFeeds _ _ => inferInstanceAs (Decidable True)
  | .start i memory => inferInstanceAs (Decidable (.setPes ≤ (dev.filter i).state →
      dev.StopKept i ∧ ((dev.filter i).data ∨ memory → (dev.filterStop i).StartKept i)))
  | .stop i => inferInstanceAs (Decidable (dev.StopKept i))
  | .free i => inferInstanceAs (Decidable (dev.StopKept i))
  | .timeout _ => inferInstanceAs (Decidable True)
  | .beginSection _ _ => inferInstanceAs (Decidable True)
  | .endSection _ _ _ => inferInstanceAs (Decidable True)

/-- A device, and its filters each by itself, after actions of which `Ok` is asked. -/
inductive SecRun (Ok : SecDevice → SecAct → Prop) : SecDevice → (ℕ → Alone) → Prop where
  | init (filternum feednum secfilternum : ℕ) (answers : ℕ → Answer) (file : ℕ → SecFile)
      (secfilter : SecFilterNo → DmxSectionFilter) (checkCrc32 : List UInt8 → UInt32)
      (alone : ℕ → Alone) (hidle : ∀ i, (alone i).running = false ∧ (alone i).currentFeeds = none) :
    SecRun Ok (.init filternum (.init feednum secfilternum answers) file secfilter checkCrc32) alone
  | step {dev : SecDevice} {alone : ℕ → Alone} (act : SecAct) : SecRun Ok dev alone →
    act.Allowed dev → Ok dev act → SecRun Ok (act.run dev) (act.alone dev alone)

end Dmx

import NeumoDrivers.Dmxdev.Callbacks

/-! The feeds of a demux (`neumo-dvb-demux.c`).

    Slots of the array are given out again, and a slot that is free keeps what its last user left in
    it. `SameFeeds` compares two demuxes in what can be seen of them: the feeds in use, the lists and
    the counts of the containers, the decoders' feeds and the embedded streams. -/

namespace Dmx
open Function
open Demux (FeedsNo BbfNo)

variable {demux demux' demux'' : NeumoDvbDemux} {i j : ℕ}

/-! ### What can be seen of a feed -/

/-- A feed in use, without the fields that its type does not use. -/
def Feed.view (feed : Feed) : Option Feed :=
  if feed.state = .free then none
  else
    match feed.type with
    | .ts => some { feed with sectionFilter := [] }
    | .sec => some { feed with tsType := 0, pesType := 0 }

theorem Feed.view_eq_none {feed : Feed} : feed.view = none ↔ feed.state = .free := by
  rw [Feed.view]
  split
  · simp [*]
  · split <;> simp [*]

theorem Feed.view_of_free {feed : Feed} (h : feed.state = .free) : feed.view = none :=
  Feed.view_eq_none.mpr h

theorem Feed.view_ts {feed : Feed} (hstate : feed.state ≠ .free) (htype : feed.type = .ts) :
    feed.view = some { feed with sectionFilter := [] } := by
  rw [Feed.view, if_neg hstate, htype]

theorem Feed.view_sec {feed : Feed} (hstate : feed.state ≠ .free) (htype : feed.type = .sec) :
    feed.view = some { feed with tsType := 0, pesType := 0 } := by
  rw [Feed.view, if_neg hstate, htype]

/-- Equal views of feeds in use agree on every field that is in use. -/
theorem Feed.fields_of_view {a b : Feed} (h : a.view = b.view) (hstate : a.state ≠ .free) :
    b.state = a.state ∧ b.type = a.type ∧ b.pid = a.pid ∧ b.parentFeeds = a.parentFeeds ∧
      b.isFiltering = a.isFiltering ∧ b.priv = a.priv ∧
      (a.type = .ts → b.tsType = a.tsType ∧ b.pesType = a.pesType) := by
  have hstate' : b.state ≠ .free := by
    intro hfree
    rw [Feed.view_of_free hfree, Feed.view_eq_none] at h
    exact hstate h
  cases ha : a.type <;> cases hb : b.type <;>
    simp only [Feed.view, if_neg hstate, if_neg hstate', ha, hb, Option.some.injEq,
      Feed.mk.injEq, reduceCtorEq, false_and, and_false] at h <;> simp [h]

structure SameFeeds (demux demux' : NeumoDvbDemux) : Prop where
  feednum : demux'.feednum = demux.feednum
  view : ∀ i, (demux'.feedarray i).view = (demux.feedarray i).view
  list : demux'.outputFeedList = demux.outputFeedList
  pesfilter : demux'.pesfilter = demux.pesfilter
  containers : demux'.streams.feeds = demux.streams.feeds
  embs : demux'.streams.embs = demux.streams.embs
  bbfs : demux'.streams.bbfs = demux.streams.bbfs

theorem SameFeeds.refl (demux : NeumoDvbDemux) : SameFeeds demux demux :=
  ⟨rfl, fun _ => rfl, rfl, rfl, rfl, rfl, rfl⟩

theorem SameFeeds.symm (h : SameFeeds demux demux') : SameFeeds demux' demux :=
  ⟨h.feednum.symm, fun i => (h.view i).symm, h.list.symm, h.pesfilter.symm, h.containers.symm,
    h.embs.symm, h.bbfs.symm⟩

theorem SameFeeds.trans (h : SameFeeds demux demux') (h' : SameFeeds demux' demux'') :
    SameFeeds demux demux'' :=
  ⟨h'.feednum.trans h.feednum, fun i => (h'.view i).trans (h.view i), h'.list.trans h.list,
    h'.pesfilter.trans h.pesfilter, h'.containers.trans h.containers, h'.embs.trans h.embs,
    h'.bbfs.trans h.bbfs⟩

theorem SameFeeds.ask (demux : NeumoDvbDemux) : SameFeeds demux demux.ask :=
  ⟨rfl, fun _ => rfl, rfl, rfl, rfl, rfl, rfl⟩

theorem SameFeeds.free_iff (h : SameFeeds demux demux') (i : ℕ) :
    (demux'.feedarray i).state = .free ↔ (demux.feedarray i).state = .free := by
  rw [← Feed.view_eq_none, ← Feed.view_eq_none, h.view]

theorem SameFeeds.feedAlloc (h : SameFeeds demux demux') : demux'.feedAlloc = demux.feedAlloc := by
  rw [NeumoDvbDemux.feedAlloc, NeumoDvbDemux.feedAlloc, h.feednum]
  simp only [h.free_iff]

/-! ### What always holds -/

/-- What is listed or decoded is in use. -/
structure Valid (demux : NeumoDvbDemux) : Prop where
  listed : ∀ f, ∀ i ∈ demux.outputFeedList f,
    (demux.feedarray i).state ≠ .free ∧ (demux.feedarray i).parentFeeds = f
  nodup : ∀ f, (demux.outputFeedList f).Nodup
  decoded : ∀ q i, demux.pesfilter q = some i → (demux.feedarray i).state ≠ .free ∧
    (demux.feedarray i).type = .ts ∧ (demux.feedarray i).tsType &&& TS_DECODER ≠ 0 ∧
    (demux.feedarray i).pesType = q ∧ q < DMX_PES_OTHER

/-- The demux as `neumo_dvb_dmx_init` leaves it. -/
def NeumoDvbDemux.init (feednum filternum : ℕ) (answers : ℕ → Answer) : NeumoDvbDemux where
  streams := Demux.dvbDmxInit
  outputFeedList _ := []
  feednum := feednum
  feedarray _ := ⟨.free, .ts, 0, 0, 0, .default, false, false, []⟩
  filternum := filternum
  sectionFilter _ := ⟨.free, 0⟩
  pesfilter _ := none
  answers := answers
  asked := 0
  crashed := false

theorem valid_init (feednum filternum : ℕ) (answers : ℕ → Answer) :
    Valid (.init feednum filternum answers) :=
  ⟨nofun, fun _ => List.nodup_nil, nofun⟩

/-- A filter on a demux of which nothing is in use. -/
def idleDevice : Dmxdev NeumoDvbDemux where
  filter := ⟨none, ⟨fun _ => .null, fun _ => .null⟩, .none, .none, .free, false, none⟩
  entries _ := .pid 0 none
  nextEntry := 0
  others := []
  demux := .init 4 4 fun _ => ⟨false, true, .ok ()⟩
  added := []
  secInUse := none
  misused := false

theorem Valid.notMem (h : Valid demux) (hfree : (demux.feedarray i).state = .free) (f : FeedsNo) :
    i ∉ demux.outputFeedList f :=
  fun hmem => (h.listed f i hmem).1 hfree

theorem Valid.notDecoded (h : Valid demux) (hfree : (demux.feedarray i).state = .free) (q : ℕ) :
    demux.pesfilter q ≠ some i :=
  fun hdec => (h.decoded q i hdec).1 hfree

theorem feedAlloc_free (h : demux.feedAlloc = some i) : (demux.feedarray i).state = .free := by
  simpa using List.find?_some h

/-! ### Lists and counts -/

@[simp] theorem ask_feedarray : demux.ask.feedarray = demux.feedarray := rfl

@[simp] theorem setFeed_feedarray (feed : Feed) :
    (demux.setFeed i feed).feedarray = update demux.feedarray i feed := rfl

@[simp] theorem outputFeedAdd_feedarray :
    (demux.outputFeedAdd i).feedarray = demux.feedarray := by
  rw [NeumoDvbDemux.outputFeedAdd]
  split <;> rfl

@[simp] theorem outputFeedDel_feedarray :
    (demux.outputFeedDel i).feedarray = demux.feedarray := by
  rw [NeumoDvbDemux.outputFeedDel]
  split <;> rfl

@[simp] theorem freeSectionFilter_feedarray (feed : Feed) :
    (demux.freeSectionFilter feed).feedarray = demux.feedarray := by
  rw [NeumoDvbDemux.freeSectionFilter]
  split <;> rfl

/-! ### Streams of a pid -/

/-- The feed of a stream of a pid in slot `i`, before it is started. -/
def pidFeed (demux : NeumoDvbDemux) (i pid tsType pesType : ℕ) (parent : FeedsNo) : Feed :=
  { demux.feedarray i with
    state := .ready, type := .ts, pid := pid, tsType := tsType, pesType := pesType
    parentFeeds := parent, isFiltering := false, priv := false }

/-- Slot `i` is taken, and its feed listed. -/
def opened (demux : NeumoDvbDemux) (i pid tsType pesType : ℕ) (parent : FeedsNo) :
    NeumoDvbDemux :=
  { ((demux.setFeed i (pidFeed demux i pid tsType pesType parent)).outputFeedAdd i) with
    pesfilter := if tsType &&& TS_DECODER ≠ 0 then update demux.pesfilter pesType (some i)
      else demux.pesfilter }

/-- A decoder has another feed for this type. -/
def Conflict (demux : NeumoDvbDemux) (i tsType pesType : ℕ) : Prop :=
  tsType &&& TS_DECODER ≠ 0 ∧ (pesType ≥ DMX_PES_OTHER ∨
    demux.pesfilter pesType ≠ none ∧ demux.pesfilter pesType ≠ some i)

/-- The slot is taken and not given back. -/
def leaked (demux : NeumoDvbDemux) (i : ℕ) (parent : FeedsNo) : NeumoDvbDemux :=
  demux.setFeed i { demux.feedarray i with
    state := .allocated, type := .ts, pid := 0xffff
    parentFeeds := parent, isFiltering := false, priv := false }

/-- What `dvbdmx_allocate_neumo_pid_stream` can do. -/
theorem allocateNeumoPidStream_cases (demux : NeumoDvbDemux) (pid tsType pesType : ℕ)
    (parent : Option FeedsNo) :
    (∃ e demux', demux.allocateNeumoPidStream pid tsType pesType parent =
        (.error (e, none), demux') ∧ (demux' = demux ∨ demux' = demux.ask)) ∨
      ∃ i, demux.feedAlloc = some i ∧
        (Conflict demux i tsType pesType ∧
            demux.allocateNeumoPidStream pid tsType pesType parent =
              (.error (EINVAL, some i), leaked demux.ask i (parent.getD .default)) ∨
          ¬Conflict demux i tsType pesType ∧
            demux.allocateNeumoPidStream pid tsType pesType parent =
              (.ok i, opened demux.ask i pid tsType pesType (parent.getD .default))) := by
  rw [NeumoDvbDemux.allocateNeumoPidStream]
  split
  · exact .inl ⟨_, _, rfl, .inl rfl⟩
  · split
    · exact .inl ⟨_, _, rfl, .inr rfl⟩
    · dsimp only
      split
      · exact .inl ⟨_, _, rfl, .inr rfl⟩
      · rename_i i hi
        refine .inr ⟨i, hi, ?_⟩
        split
        · rename_i hconflict
          exact .inl ⟨hconflict, rfl⟩
        · rename_i hconflict
          refine .inr ⟨hconflict, ?_⟩
          rw [opened]
          split <;> simp [NeumoDvbDemux.outputFeedAdd, NeumoDvbDemux.setFeed, pidFeed] <;>
            split <;> simp

/-- The stream of a pid as the filter starts it. -/
def primed (demux : NeumoDvbDemux) (i pid tsType pesType : ℕ) (parent : FeedsNo) :
    NeumoDvbDemux :=
  (opened demux.ask i pid tsType pesType parent).setPriv i

/-- The stream of a pid when it has been started. -/
def running (demux : NeumoDvbDemux) (i pid tsType pesType : ℕ) (parent : FeedsNo) :
    NeumoDvbDemux :=
  (primed demux i pid tsType pesType parent).ask.setFeed i
    { pidFeed demux i pid tsType pesType parent with priv := true, isFiltering := true, state := .go }

theorem primed_feedarray (pid tsType pesType : ℕ) (parent : FeedsNo) :
    (primed demux i pid tsType pesType parent).feedarray = update demux.feedarray i
      { pidFeed demux i pid tsType pesType parent with priv := true } := by
  simp [primed, opened, NeumoDvbDemux.setPriv, pidFeed]

theorem running_feedarray (pid tsType pesType : ℕ) (parent : FeedsNo) :
    (running demux i pid tsType pesType parent).feedarray = update demux.feedarray i
      { pidFeed demux i pid tsType pesType parent with
        priv := true, isFiltering := true, state := .go } := by
  simp [running, primed_feedarray]

/-- A stream that has been allocated is started unless the demux or the card refuses. -/
theorem startFiltering_primed (demux : NeumoDvbDemux) (i pid tsType pesType : ℕ)
    (parent : FeedsNo) :
    (∃ e, (primed demux i pid tsType pesType parent).startFiltering i =
        (.error e, (primed demux i pid tsType pesType parent).ask)) ∨
      (primed demux i pid tsType pesType parent).startFiltering i =
        (.ok (), running demux i pid tsType pesType parent) := by
  have hfeed : (primed demux i pid tsType pesType parent).feedarray i =
      { pidFeed demux i pid tsType pesType parent with priv := true } := by
    rw [primed_feedarray, update_self]
  rw [NeumoDvbDemux.startFiltering, hfeed]
  dsimp only
  split
  · exact .inl ⟨_, rfl⟩
  · split
    · exact .inl ⟨_, rfl⟩
    · split
      · exact .inl ⟨_, rfl⟩
      · exact .inr rfl

theorem stopFiltering_feedarray (demux : NeumoDvbDemux) (i : ℕ) :
    (demux.stopFiltering i).feedarray = update demux.feedarray i
      (if (demux.feedarray i).state = .go then
        { demux.feedarray i with isFiltering := false, state := .allocated }
      else demux.feedarray i) := by
  rw [NeumoDvbDemux.stopFiltering]
  by_cases hgo : (demux.feedarray i).state = .go
  · simp [hgo]
  · simp [hgo]

theorem releaseNeumoPidStream_feedarray (demux : NeumoDvbDemux) (i : ℕ) :
    (demux.releaseNeumoPidStream i).feedarray = update demux.feedarray i
      (if (demux.feedarray i).state = .free then demux.feedarray i
      else { demux.feedarray i with state := .free, pid := 0xffff }) := by
  rw [NeumoDvbDemux.releaseNeumoPidStream]
  by_cases hfree : (demux.feedarray i).state = .free
  · simp [hfree]
  · simp only [hfree, if_false]
    split <;> simp

/-! ### A stream of a pid, as a filter starts it -/

/-- The demux with the stream that the filter gets in slot `s`. -/
def Dmxdev.opened (dev : Dmxdev NeumoDvbDemux) (s pid : ℕ) : NeumoDvbDemux :=
  Dmx.opened dev.demux.ask s pid dev.filter.params.pesParams.tsType
    dev.filter.params.pesParams.pesType (dev.filter.currentFeeds.getD .default)

def Dmxdev.primed (dev : Dmxdev NeumoDvbDemux) (s pid : ℕ) : NeumoDvbDemux :=
  Dmx.primed dev.demux s pid dev.filter.params.pesParams.tsType
    dev.filter.params.pesParams.pesType (dev.filter.currentFeeds.getD .default)

def Dmxdev.running (dev : Dmxdev NeumoDvbDemux) (s pid : ℕ) : NeumoDvbDemux :=
  Dmx.running dev.demux s pid dev.filter.params.pesParams.tsType
    dev.filter.params.pesParams.pesType (dev.filter.currentFeeds.getD .default)

def Dmxdev.leaked (dev : Dmxdev NeumoDvbDemux) (s : ℕ) : NeumoDvbDemux :=
  Dmx.leaked dev.demux.ask s (dev.filter.currentFeeds.getD .default)

def Dmxdev.Conflict (dev : Dmxdev NeumoDvbDemux) (s : ℕ) : Prop :=
  Dmx.Conflict dev.demux s dev.filter.params.pesParams.tsType dev.filter.params.pesParams.pesType

/-- The stream that a filter asks for. -/
def Dmxdev.askStream {δ : Type} (ops : DmxDemux δ) (dev : Dmxdev δ) (pid : ℕ) :
    Except (Errno × Option PidStreamNo) PidStreamNo × δ :=
  ops.allocateNeumoPidStream pid dev.filter.params.pesParams.tsType
    dev.filter.params.pesParams.pesType dev.filter.currentFeeds dev.demux

/-- What `dvb_dmxdev_start_pid_feed` can do. -/
inductive PidStart (dev : Dmxdev NeumoDvbDemux) (i : EntryNo) (pid : ℕ) :
    Except Errno Unit × Dmxdev NeumoDvbDemux → Prop where
  | refused (e : Errno) (demux : NeumoDvbDemux) : demux = dev.demux ∨ demux = dev.demux.ask →
    dev.askStream dvbDmx pid = (.error (e, none), demux) →
    PidStart dev i pid (.error e, { dev with demux := demux }.setEntry i (.pid pid none))
  | leaked (s : ℕ) : dev.demux.feedAlloc = some s → dev.Conflict s →
    dev.askStream dvbDmx pid = (.error (EINVAL, some s), dev.leaked s) →
    PidStart dev i pid (.error EINVAL,
      { dev with demux := dev.leaked s }.setEntry i (.pid pid (some s)))
  | stopped (s : ℕ) (e : Errno) : dev.demux.feedAlloc = some s → ¬dev.Conflict s →
    dev.askStream dvbDmx pid = (.ok s, dev.opened s pid) →
    (dvbDmx.startFiltering s (dev.primed s pid)).1 = .error e →
    PidStart dev i pid (.error e,
      { dev with demux := (dev.primed s pid).ask.releaseNeumoPidStream s }.setEntry i
        (.pid pid (some s)))
  | started (s : ℕ) : dev.demux.feedAlloc = some s → ¬dev.Conflict s →
    dev.askStream dvbDmx pid = (.ok s, dev.opened s pid) →
    (dvbDmx.startFiltering s (dev.primed s pid)).1 = .ok () →
    PidStart dev i pid (.ok (),
      { dev with demux := dev.running s pid }.setEntry i (.pid pid (some s)))

theorem startPidFeed_cases (dev : Dmxdev NeumoDvbDemux) (i : EntryNo) (pid : ℕ) :
    PidStart dev i pid (startPidFeed dvbDmx dev i pid) := by
  have hask : dvbDmx.allocateNeumoPidStream pid dev.filter.params.pesParams.tsType
      dev.filter.params.pesParams.pesType dev.filter.currentFeeds dev.demux =
      dev.askStream dvbDmx pid := rfl
  rw [startPidFeed]
  dsimp only
  rw [hask]
  rcases allocateNeumoPidStream_cases dev.demux pid dev.filter.params.pesParams.tsType
    dev.filter.params.pesParams.pesType dev.filter.currentFeeds with
    ⟨e, demux, heq, hdemux⟩ | ⟨s, hs, ⟨hconflict, heq⟩ | ⟨hconflict, heq⟩⟩
  · have heq' : dev.askStream dvbDmx pid = _ := heq
    rw [heq']
    exact .refused e demux hdemux heq
  · have heq' : dev.askStream dvbDmx pid = _ := heq
    rw [heq']
    exact .leaked s hs hconflict heq
  · have heq' : dev.askStream dvbDmx pid = _ := heq
    rw [heq']
    have hprimed : dvbDmx.setPriv s (Dmx.opened dev.demux.ask s pid
        dev.filter.params.pesParams.tsType dev.filter.params.pesParams.pesType
        (dev.filter.currentFeeds.getD .default)) = dev.primed s pid := rfl
    dsimp only [Dmxdev.setEntry]
    rw [hprimed]
    rcases startFiltering_primed dev.demux s pid dev.filter.params.pesParams.tsType
      dev.filter.params.pesParams.pesType (dev.filter.currentFeeds.getD .default) with
      ⟨e, hstart⟩ | hstart
    · have hstart' : dvbDmx.startFiltering s (dev.primed s pid) =
          (.error e, (dev.primed s pid).ask) := hstart
      rw [hstart']
      exact .stopped s e hs hconflict heq (congrArg Prod.fst hstart')
    · have hstart' : dvbDmx.startFiltering s (dev.primed s pid) =
          (.ok (), dev.running s pid) := hstart
      rw [hstart']
      exact .started s hs hconflict heq (congrArg Prod.fst hstart')

variable {δ : Type}

/-- The demux gives a stream for the pid, and it can be started. -/
def PidStarts (ops : DmxDemux δ) (dev : Dmxdev δ) (pid : ℕ) : Prop :=
  ∃ s demux, dev.askStream ops pid = (.ok s, demux) ∧
    (ops.startFiltering s (ops.setPriv s demux)).1 = .ok ()

theorem startPidFeed_ok_iff (ops : DmxDemux δ) (dev : Dmxdev δ) (i : EntryNo) (pid : ℕ) :
    (startPidFeed ops dev i pid).1 = .ok () ↔ PidStarts ops dev pid := by
  rw [startPidFeed, PidStarts, Dmxdev.askStream]
  dsimp only
  split
  · rename_i heq
    simp [heq]
  · rename_i s demux heq
    rw [heq]
    dsimp only [Dmxdev.setEntry]
    split
    · rename_i e demux' hstart
      refine iff_of_false (by simp) ?_
      rintro ⟨s', demux', hsame, hok⟩
      cases hsame
      rw [hstart] at hok
      cases hok
    · rename_i demux' hstart
      refine iff_of_true rfl ⟨s, demux, rfl, ?_⟩
      rw [hstart]

/-- What an entry asks for is had. -/
def EntryStarts (ops : DmxDemux δ) (dev : Dmxdev δ) (i : EntryNo) : Prop :=
  match dev.entries i with
  | .pid pid _ => PidStarts ops dev pid
  | .embedded type embeddingPid isi _ _ =>
    ∃ r, (ops.allocateStream type embeddingPid isi dev.filter.currentFeeds dev.demux).1 = .ok r

/-- One entry after another has what it asks for. -/
def AllStart (ops : DmxDemux δ) (dev : Dmxdev δ) : List EntryNo → Prop
  | [] => True
  | i :: is => EntryStarts ops dev i ∧ AllStart ops (startEntry ops dev i).2 is

end Dmx

import NeumoDrivers.Lib.Slots
import NeumoDrivers.Dmxdev.SectionStart

/-! Who the feeds and the section filters of a demux belong to (`neumo-dvb-demux.c`).

    Callers get slots of the two arrays and give them back. `Books` is the demux together with the
    callers that have been given a slot, and `Act` a call of one of them. A caller only passes on what
    it has been given and still has; its arguments are any others.

    `dvbdmx_allocate_neumo_pid_stream` looks at the type of a decoder's stream when it has taken the
    slot already, and does not give it back. Only `dvbdmx_allocate_section_feed` clears
    `section_filter`, but `dvbdmx_release_neumo_pid_stream` frees what that points to. -/

namespace Dmx
open Function
open Demux (FeedsNo)

abbrev Caller := ℕ

structure Books where
  demux : NeumoDvbDemux
  feedOwner : ℕ → List Caller
  filterOwner : SecFilterNo → List Caller

/-- A call of a caller. `card` tells whether `stop_feed` of the card succeeds. -/
inductive Act where
  | allocatePid (c : Caller) (pid tsType pesType : ℕ) (parent : Option FeedsNo)
  | allocateSec (c : Caller) (pid : ℕ) (parent : Option FeedsNo)
  | releasePid (c : Caller) (s : ℕ)
  | releaseSec (c : Caller) (s : ℕ)
  | allocateFilter (c : Caller) (s : ℕ)
  | releaseFilter (c : Caller) (s : ℕ) (f : SecFilterNo)
  | startPid (c : Caller) (s : ℕ)
  | stopPid (c : Caller) (s : ℕ) (card : Bool)
  | startSec (c : Caller) (s : ℕ)
  | stopSec (c : Caller) (s : ℕ) (card : Bool)

variable {b b' : Books} {demux : NeumoDvbDemux} {s : ℕ} {f : SecFilterNo} {c : Caller} {act : Act}

namespace Books

def giveFeed (b : Books) (c : Caller) (s : ℕ) : Books :=
  { b with feedOwner := update b.feedOwner s (c :: b.feedOwner s) }

def takeFeed (b : Books) (c : Caller) (s : ℕ) : Books :=
  { b with feedOwner := update b.feedOwner s ((b.feedOwner s).erase c) }

def giveFilter (b : Books) (c : Caller) (f : SecFilterNo) : Books :=
  { b with filterOwner := update b.filterOwner f (c :: b.filterOwner f) }

def takeFilter (b : Books) (c : Caller) (f : SecFilterNo) : Books :=
  { b with filterOwner := update b.filterOwner f ((b.filterOwner f).erase c) }

end Books

/-- A call: whether it succeeds, and what it leaves. -/
def Act.run (b : Books) : Act → Bool × Books
  | .allocatePid c pid tsType pesType parent =>
    match b.demux.allocateNeumoPidStream pid tsType pesType parent with
    | (.ok s, demux) => (true, { b with demux := demux }.giveFeed c s)
    | (.error _, demux) => (false, { b with demux := demux })
  | .allocateSec c pid parent =>
    match b.demux.allocateSectionFeed pid parent with
    | (.ok s, demux) => (true, { b with demux := demux }.giveFeed c s)
    | (.error _, demux) => (false, { b with demux := demux })
  | .releasePid c s =>
    if (b.demux.feedarray s).state = .free then (false, b)
    else (true, { b with demux := b.demux.releaseNeumoPidStream s }.takeFeed c s)
  | .releaseSec c s =>
    if (b.demux.feedarray s).state = .free then (false, b)
    else (true, { b with demux := b.demux.releaseSectionFeed s }.takeFeed c s)
  | .allocateFilter c s =>
    match b.demux.allocateSectionFilter s with
    | (.ok f, demux) => (true, { b with demux := demux }.giveFilter c f)
    | (.error _, demux) => (false, { b with demux := demux })
  | .releaseFilter c s f =>
    if (b.demux.sectionFilter f).feed ≠ s then (false, b)
    else (true, { b with demux := b.demux.releaseSectionFilter s f }.takeFilter c f)
  | .startPid _ s =>
    match b.demux.startFiltering s with
    | (.ok _, demux) => (true, { b with demux := demux })
    | (.error _, demux) => (false, { b with demux := demux })
  | .stopPid _ s card =>
    if (b.demux.feedarray s).state ≠ .go then (false, b)
    else (card, { b with demux := b.demux.stopFiltering s })
  | .startSec _ s =>
    match b.demux.startSectionFiltering s with
    | (.ok _, demux) => (true, { b with demux := demux })
    | (.error _, demux) => (false, { b with demux := demux })
  | .stopSec _ s card => (card, { b with demux := b.demux.stopSectionFiltering s })

/-- The caller has the feed, and it is of the type that the function takes. -/
def Books.Has (b : Books) (c : Caller) (s : ℕ) (type : DvbDmxFilterType) : Prop :=
  c ∈ b.feedOwner s ∧ (b.demux.feedarray s).type = type

/-- The caller has what it passes on. -/
def Act.Allowed (b : Books) : Act → Prop
  | .allocatePid .. => True
  | .allocateSec .. => True
  | .releasePid c s => b.Has c s .ts
  | .releaseSec c s => b.Has c s .sec
  | .allocateFilter c s => b.Has c s .sec
  | .releaseFilter c s f => b.Has c s .sec ∧ c ∈ b.filterOwner f
  | .startPid c s => b.Has c s .ts
  | .stopPid c s _ => b.Has c s .ts
  | .startSec c s => b.Has c s .sec
  | .stopSec c s _ => b.Has c s .sec

/-- The steps that do not go wrong. A stream of a pid is not refused for its type when its slot has
    been taken, `section_filter` of the stream that is released does not point to a filter in use, a
    filter is in the list of the feed it is released from, and where `stop_feed` of the card fails
    there is nothing to stop. -/
def Act.Kept (b : Books) : Act → Prop
  | .allocatePid _ pid tsType pesType _ => pid ≤ DMX_MAX_PID → b.demux.answer.interrupted = false →
      ∀ s, b.demux.feedAlloc = some s → ¬Conflict b.demux s tsType pesType
  | .releasePid _ s => ∀ f ∈ (b.demux.feedarray s).sectionFilter.head?,
      (b.demux.sectionFilter f).state = .free
  | .releaseFilter _ s f => (b.demux.sectionFilter f).feed = s →
      f ∈ (b.demux.feedarray s).sectionFilter
  | .stopPid _ s card => (b.demux.feedarray s).state = .go → card = true
  | .stopSec _ s card => card = true ∨
      (b.demux.feedarray s).state = .ready ∧ (b.demux.feedarray s).isFiltering = false
  | _ => True

/-- The feed that a call releases. -/
def Act.releases : Act → Option ℕ
  | .releasePid _ s => some s
  | .releaseSec _ s => some s
  | _ => none

def Books.init (feednum filternum : ℕ) (answers : ℕ → Answer) : Books :=
  ⟨.init feednum filternum answers, fun _ => [], fun _ => []⟩

/-- Calls of any callers, of which `Ok` is asked. -/
inductive BooksRun (Ok : Books → Act → Prop) : Books → Prop where
  | init (feednum filternum : ℕ) (answers : ℕ → Answer) :
    BooksRun Ok (.init feednum filternum answers)
  | step {b : Books} (act : Act) : BooksRun Ok b → act.Allowed b → Ok b act →
    BooksRun Ok (act.run b).2

/-! ### What is expected -/

def Feed.InUse (feed : Feed) : Prop := feed.state ≠ .free

def SectionFilter.InUse (filter : SectionFilter) : Prop := filter.state ≠ .free

/-- What is not free belongs to one caller. -/
structure Books.Owned (b : Books) : Prop where
  feeds : Slots.Single Feed.InUse b.demux.feedarray b.feedOwner
  filters : Slots.Single SectionFilter.InUse b.demux.sectionFilter b.filterOwner

/-- A call that fails changes no slot, and the release of a feed changes no filter. -/
structure Act.Safe (b : Books) (act : Act) : Prop where
  failed : (act.run b).1 = false → (act.run b).2.demux.feedarray = b.demux.feedarray ∧
    (act.run b).2.demux.sectionFilter = b.demux.sectionFilter
  released : act.releases.isSome → (act.run b).2.demux.sectionFilter = b.demux.sectionFilter

/-! ### What a call does to the section filters -/

@[simp] theorem ask_sectionFilter : demux.ask.sectionFilter = demux.sectionFilter := rfl

@[simp] theorem setFeed_sectionFilter (feed : Feed) :
    (demux.setFeed s feed).sectionFilter = demux.sectionFilter := rfl

@[simp] theorem outputFeedAdd_sectionFilter :
    (demux.outputFeedAdd s).sectionFilter = demux.sectionFilter := by
  rw [NeumoDvbDemux.outputFeedAdd]
  split <;> rfl

@[simp] theorem outputFeedDel_sectionFilter :
    (demux.outputFeedDel s).sectionFilter = demux.sectionFilter := by
  rw [NeumoDvbDemux.outputFeedDel]
  split <;> rfl

theorem stopFiltering_sectionFilter :
    (demux.stopFiltering s).sectionFilter = demux.sectionFilter := by
  rw [NeumoDvbDemux.stopFiltering]
  split <;> rfl

/-- A filter that is free stays as it is. -/
theorem freeSectionFilter_sectionFilter {feed : Feed}
    (hfree : ∀ f ∈ feed.sectionFilter.head?, (demux.sectionFilter f).state = .free) :
    (demux.freeSectionFilter feed).sectionFilter = demux.sectionFilter := by
  rw [NeumoDvbDemux.freeSectionFilter]
  cases hfilter : feed.sectionFilter with
  | nil => rfl
  | cons f fs =>
    have hstate := hfree f (by rw [hfilter]; rfl)
    have hsame : { demux.sectionFilter f with state := .free } = demux.sectionFilter f := by
      rw [← hstate]
    dsimp only
    rw [hsame]
    exact update_eq_self f demux.sectionFilter

theorem releaseNeumoPidStream_sectionFilter (hfree : ∀ f ∈
      (demux.feedarray s).sectionFilter.head?, (demux.sectionFilter f).state = .free) :
    (demux.releaseNeumoPidStream s).sectionFilter = demux.sectionFilter := by
  rw [NeumoDvbDemux.releaseNeumoPidStream]
  dsimp only
  split
  · rfl
  · have hfreed := @freeSectionFilter_sectionFilter
      (demux.setFeed s { demux.feedarray s with state := .free }) (demux.feedarray s) hfree
    split <;> simp [hfreed]

theorem releaseSectionFeed_sectionFilter :
    (demux.releaseSectionFeed s).sectionFilter = demux.sectionFilter := by
  rw [NeumoDvbDemux.releaseSectionFeed]
  dsimp only
  split
  · rfl
  · simp

/-! ### Whether a call fails -/

/-- A stream that is refused for its type is refused when a slot has been taken. -/
theorem conflict_of_leaked {pid tsType pesType : ℕ} {parent : Option FeedsNo}
    {demux' : NeumoDvbDemux} {e : Errno}
    (h : demux.allocateNeumoPidStream pid tsType pesType parent = (.error (e, some s), demux')) :
    pid ≤ DMX_MAX_PID ∧ demux.answer.interrupted = false := by
  rw [NeumoDvbDemux.allocateNeumoPidStream] at h
  split at h
  · cases h
  · rename_i hpid
    split at h
    · cases h
    · rename_i hanswer
      exact ⟨Nat.le_of_not_lt hpid, Bool.eq_false_iff.mpr hanswer⟩

/-- What a call can do to a slot or a filter. -/
inductive Change (b : Books) : Bool → Books → Prop where
  | none (ok : Bool) (demux : NeumoDvbDemux) : demux.feedarray = b.demux.feedarray →
    demux.sectionFilter = b.demux.sectionFilter → Change b ok { b with demux := demux }
  | give (c : Caller) (s : ℕ) (demux : NeumoDvbDemux) (feed : Feed) :
    (b.demux.feedarray s).state = .free → feed.state ≠ .free →
    demux.feedarray = update b.demux.feedarray s feed →
    demux.sectionFilter = b.demux.sectionFilter →
    Change b true ({ b with demux := demux }.giveFeed c s)
  | take (c : Caller) (s : ℕ) (demux : NeumoDvbDemux) (feed : Feed) : c ∈ b.feedOwner s →
    feed.state = .free → demux.feedarray = update b.demux.feedarray s feed →
    demux.sectionFilter = b.demux.sectionFilter →
    Change b true ({ b with demux := demux }.takeFeed c s)
  | change (c : Caller) (s : ℕ) (demux : NeumoDvbDemux) (feed : Feed) : c ∈ b.feedOwner s →
    feed.state ≠ .free → demux.feedarray = update b.demux.feedarray s feed →
    demux.sectionFilter = b.demux.sectionFilter → Change b true { b with demux := demux }
  | giveFilter (c : Caller) (s : ℕ) (f : SecFilterNo) (demux : NeumoDvbDemux) (feed : Feed)
    (filter : SectionFilter) : c ∈ b.feedOwner s → feed.state ≠ .free →
    (b.demux.sectionFilter f).state = .free → filter.state ≠ .free →
    demux.feedarray = update b.demux.feedarray s feed →
    demux.sectionFilter = update b.demux.sectionFilter f filter →
    Change b true ({ b with demux := demux }.giveFilter c f)
  | takeFilter (c : Caller) (s : ℕ) (f : SecFilterNo) (demux : NeumoDvbDemux) (feed : Feed)
    (filter : SectionFilter) : c ∈ b.feedOwner s → feed.state ≠ .free → c ∈ b.filterOwner f →
    filter.state = .free → demux.feedarray = update b.demux.feedarray s feed →
    demux.sectionFilter = update b.demux.sectionFilter f filter →
    Change b true ({ b with demux := demux }.takeFilter c f)

theorem Books.Owned.used (h : b.Owned) (hc : c ∈ b.feedOwner s) :
    (b.demux.feedarray s).state ≠ .free :=
  (h.feeds.used_of_mem hc).1

theorem opened_feedarray (pid tsType pesType : ℕ) (parent : FeedsNo) :
    (opened demux s pid tsType pesType parent).feedarray =
      update demux.feedarray s (pidFeed demux s pid tsType pesType parent) := by
  simp [opened]

theorem opened_sectionFilter (pid tsType pesType : ℕ) (parent : FeedsNo) :
    (opened demux s pid tsType pesType parent).sectionFilter = demux.sectionFilter := by
  simp [opened]

theorem sectionFilterAlloc_free (h : demux.sectionFilterAlloc = some f) :
    (demux.sectionFilter f).state = .free := by
  simpa using List.find?_some h

theorem change_run (howned : b.Owned) (hallowed : act.Allowed b) (hkept : act.Kept b) :
    Change b (act.run b).1 (act.run b).2 := by
  cases act with
  | allocatePid c pid tsType pesType parent =>
    rw [Act.run]
    rcases allocateNeumoPidStream_cases b.demux pid tsType pesType parent with
      ⟨e, demux, heq, hdemux⟩ | ⟨s, hs, ⟨hconflict, heq⟩ | ⟨-, heq⟩⟩
    · rw [heq]
      rcases hdemux with rfl | rfl <;> exact .none false _ rfl rfl
    · obtain ⟨hpid, hanswer⟩ := conflict_of_leaked heq
      exact absurd hconflict (hkept hpid hanswer s hs)
    · rw [heq]
      refine .give c s _ _ (feedAlloc_free hs) ?_ (opened_feedarray pid tsType pesType _)
        (opened_sectionFilter pid tsType pesType _)
      rintro ⟨⟩
  | allocateSec c pid parent =>
    rw [Act.run]
    rcases allocateSectionFeed_cases b.demux pid parent with ⟨e, demux, heq, hdemux⟩ | ⟨s, hs, heq⟩
    · rw [heq]
      rcases hdemux with rfl | rfl <;> exact .none false _ rfl rfl
    · rw [heq]
      refine .give c s _ _ (feedAlloc_free hs) ?_ (openedSec_feedarray pid _) (by simp [openedSec])
      rintro ⟨⟩
  | releasePid c s =>
    have hused := howned.used hallowed.1
    have hfeeds := releaseNeumoPidStream_feedarray b.demux s
    rw [if_neg hused] at hfeeds
    rw [Act.run, if_neg hused]
    exact .take c s _ _ hallowed.1 rfl hfeeds (releaseNeumoPidStream_sectionFilter hkept)
  | releaseSec c s =>
    have hused := howned.used hallowed.1
    have hfeeds : (b.demux.releaseSectionFeed s).feedarray = update b.demux.feedarray s
        { b.demux.feedarray s with state := .free, pid := 0xffff } := by
      rw [NeumoDvbDemux.releaseSectionFeed, if_neg hused]
      simp
    rw [Act.run, if_neg hused]
    exact .take c s _ _ hallowed.1 rfl hfeeds releaseSectionFeed_sectionFilter
  | allocateFilter c s =>
    have hused := howned.used hallowed.1
    rw [Act.run]
    rcases allocateSectionFilter_cases b.demux s with ⟨e, heq⟩ | ⟨f, hf, heq⟩
    · rw [heq]
      exact .none false _ rfl rfl
    · rw [heq]
      refine .giveFilter c s f _ _ _ hallowed.1 ?_ (sectionFilterAlloc_free hf) ?_
        (filtered_feedarray f) rfl
      · exact hused
      · rintro ⟨⟩
  | releaseFilter c s f =>
    have hused := howned.used hallowed.1.1
    rw [Act.run]
    split
    · exact .none false _ rfl rfl
    · rename_i hfeed
      obtain ⟨feed, hstate, hfeeds, hfilters⟩ : ∃ feed : Feed, feed.state ≠ .free ∧
          (b.demux.releaseSectionFilter s f).feedarray = update b.demux.feedarray s feed ∧
          (b.demux.releaseSectionFilter s f).sectionFilter = update b.demux.sectionFilter f
            { b.demux.sectionFilter f with state := .free } := by
        rw [NeumoDvbDemux.releaseSectionFilter, if_neg hfeed]
        dsimp only
        split
        · refine ⟨_, ?_, update_idem .., rfl⟩
          simp [NeumoDvbDemux.stopSectionFiltering]
        · refine ⟨_, ?_, rfl, rfl⟩
          exact hused
      exact .takeFilter c s f _ feed _ hallowed.1.1 hstate hallowed.2 rfl hfeeds hfilters
  | startPid c s =>
    rw [Act.run, NeumoDvbDemux.startFiltering]
    split
    · rename_i hstart
      split at hstart
      · cases hstart
      · split at hstart
        · cases hstart
        · split at hstart
          · cases hstart
          · cases hstart
            refine .change c s _ _ hallowed.1 ?_ rfl rfl
            rintro ⟨⟩
    · rename_i hstart
      split at hstart
      · cases hstart
        exact .none false _ rfl rfl
      · split at hstart
        · cases hstart
          exact .none false _ rfl rfl
        · split at hstart
          · cases hstart
            exact .none false _ rfl rfl
          · cases hstart
  | stopPid c s card =>
    rw [Act.run]
    split
    · exact .none false _ rfl rfl
    · rename_i hgo
      have hgo' : (b.demux.feedarray s).state = .go := not_not.mp hgo
      have hfeeds := stopFiltering_feedarray b.demux s
      rw [if_pos hgo'] at hfeeds
      rw [hkept hgo']
      refine .change c s _ _ hallowed.1 ?_ hfeeds stopFiltering_sectionFilter
      rintro ⟨⟩
  | startSec c s =>
    rw [Act.run]
    rcases startSectionFiltering_cases b.demux s with ⟨e, heq⟩ | ⟨-, -, heq⟩
    · rw [heq]
      exact .none false _ rfl rfl
    · rw [heq]
      refine .change c s _ _ hallowed.1 ?_ rfl rfl
      rintro ⟨⟩
  | stopSec c s card =>
    rw [Act.run]
    rcases hkept with rfl | ⟨hready, hidle⟩
    · refine .change c s _ _ hallowed.1 ?_ rfl rfl
      rintro ⟨⟩
    · refine .none card _ ?_ rfl
      have hsame : { b.demux.feedarray s with state := .ready, isFiltering := false } =
          b.demux.feedarray s := by
        rw [← hready, ← hidle]
      rw [NeumoDvbDemux.stopSectionFiltering, setFeed_feedarray, hsame, update_eq_self]

theorem Books.Owned.change {ok : Bool} (howned : b.Owned) (h : Change b ok b') : b'.Owned := by
  obtain ⟨hfeeds, hfilters⟩ := howned
  cases h with
  | none ok demux heq heq' => exact ⟨heq.symm ▸ hfeeds, heq'.symm ▸ hfilters⟩
  | give c s demux feed hfree hstate heq heq' =>
    exact ⟨heq.symm ▸ hfeeds.give (not_not.mpr hfree) hstate c, heq'.symm ▸ hfilters⟩
  | take c s demux feed hc hstate heq heq' =>
    exact ⟨heq.symm ▸ hfeeds.take hc (not_not.mpr hstate), heq'.symm ▸ hfilters⟩
  | change c s demux feed hc hstate heq heq' =>
    exact ⟨heq.symm ▸ hfeeds.change hc hstate, heq'.symm ▸ hfilters⟩
  | giveFilter c s f demux feed filter hc hstate hfree hfilter heq heq' =>
    exact ⟨heq.symm ▸ hfeeds.change hc hstate,
      heq'.symm ▸ hfilters.give (not_not.mpr hfree) hfilter c⟩
  | takeFilter c s f demux feed filter hc hstate hf hfilter heq heq' =>
    exact ⟨heq.symm ▸ hfeeds.change hc hstate,
      heq'.symm ▸ hfilters.take hf (not_not.mpr hfilter)⟩

theorem Books.Owned.safe (howned : b.Owned) (hallowed : act.Allowed b) (hkept : act.Kept b) :
    act.Safe b := by
  refine ⟨fun hfailed => ?_, fun hreleases => ?_⟩
  · have hchange := change_run howned hallowed hkept
    generalize (act.run b).1 = ok, (act.run b).2 = b' at *
    subst hfailed
    cases hchange with
    | none ok demux heq heq' => exact ⟨heq, heq'⟩
  · cases act with
    | releasePid c s =>
      rw [Act.run, if_neg (howned.used hallowed.1)]
      exact releaseNeumoPidStream_sectionFilter hkept
    | releaseSec c s =>
      rw [Act.run, if_neg (howned.used hallowed.1)]
      exact releaseSectionFeed_sectionFilter
    | _ => cases hreleases

theorem owned_init (feednum filternum : ℕ) (answers : ℕ → Answer) :
    (Books.init feednum filternum answers).Owned := by
  refine ⟨fun s => .inl ⟨?_, rfl⟩, fun f => .inl ⟨?_, rfl⟩⟩
  · exact not_not.mpr rfl
  · exact not_not.mpr rfl

theorem BooksRun.owned (h : BooksRun (fun b act => act.Kept b) b) : b.Owned := by
  induction h with
  | init feednum filternum answers => exact owned_init feednum filternum answers
  | step act _ hallowed hkept ih => exact ih.change (change_run ih hallowed hkept)

/-- As long as no call goes wrong, every slot in use has one owner, a call that fails changes nothing,
    and a feed that is released takes no filter with it. -/
theorem bookkeeping (hrun : BooksRun (fun b act => act.Kept b) b) :
    b.Owned ∧ ∀ act : Act, act.Allowed b → act.Kept b → act.Safe b :=
  ⟨hrun.owned, fun _ hallowed hkept => hrun.owned.safe hallowed hkept⟩

/-- A demux of which nothing is in use, with a card that accepts everything. -/
def Books.idle : Books := .init 4 4 fun _ => ⟨false, true, .ok ()⟩

theorem bookkeeping_section :
    ((Act.allocateSec 0 0x10 none).run .idle).2.Owned ∧
      (Act.releaseSec 0 0).Safe ((Act.allocateSec 0 0x10 none).run .idle).2 := by
  have hbooks := bookkeeping (.step (Act.allocateSec 0 0x10 none)
    (.init 4 4 fun _ => ⟨false, true, .ok ()⟩) trivial trivial)
  exact ⟨hbooks.1, hbooks.2 (.releaseSec 0 0) ⟨by decide, rfl⟩ trivial⟩

/-- A decoder's stream of a type that no decoder has. -/
def Act.refusedPid : Act := .allocatePid 0 0x100 TS_DECODER DMX_PES_OTHER none

/-- A section feed goes back with a filter in it, and its slot becomes that of a pid. -/
def Books.reused : Books :=
  let b := ((Act.allocateSec 0 0x10 none).run idle).2
  let b := ((Act.allocateFilter 0 0).run b).2
  let b := ((Act.releaseSec 0 0).run b).2
  ((Act.allocatePid 1 0x100 0 DMX_PES_OTHER none).run b).2

theorem booksRun_reused : BooksRun (fun _ _ => True) Books.reused := by
  refine .step _ (.step _ (.step _ (.step _ (.init 4 4 _) ?_ trivial) ?_ trivial) ?_ trivial) ?_
    trivial
  · trivial
  · exact ⟨by decide, rfl⟩
  · exact ⟨by decide, rfl⟩
  · trivial

/-- A slot is in use and belongs to nobody; the release of a stream frees another caller's filter. -/
theorem slot_lost : (¬∀ b, BooksRun (fun _ _ => True) b → b.Owned) ∧
    ¬∀ b, BooksRun (fun _ _ => True) b → ∀ act : Act, act.Allowed b → act.Safe b := by
  refine ⟨fun h => ?_, fun h => ?_⟩
  · have howned := h _ (.step Act.refusedPid (.init 4 4 fun _ => ⟨false, true, .ok ()⟩) trivial
      trivial)
    rcases howned.feeds 0 with ⟨hfree, -⟩ | ⟨-, c, hone⟩
    · exact hfree nofun
    · cases hone
  · have hsafe := h _ booksRun_reused (.releasePid 1 0) ⟨by decide, rfl⟩
    have hsame := congrArg (fun filters => (filters 0).state) (hsafe.released rfl)
    exact absurd hsame (by decide)

end Dmx

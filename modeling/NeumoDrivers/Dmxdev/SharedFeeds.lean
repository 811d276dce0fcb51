import NeumoDrivers.Dmxdev.SectionSharing
import NeumoDrivers.Dmxdev.Bookkeeping

/-! Who uses the section feeds of a device (`neumo-dmxdev.c`).

    A filter that has been started and not stopped uses a feed and a section filter in it. A feed that
    is filtering has the filters of its users, and no others: what a start that failed has left behind
    is never started again. -/

namespace Dmx
open Function
open Demux (FeedsNo)

variable {dev dev' : SecDevice} {i j : ℕ} {k k' : SecFeedNo} {f g : SecFilterNo}

/-- The filter uses the feed `k`, and the section filter `f` in it. -/
structure SecDevice.Uses (dev : SecDevice) (i : ℕ) (k : SecFeedNo) (f : SecFilterNo) : Prop where
  sec : (dev.filter i).sec = some k
  secfilter : (dev.filter i).secfilter = some f
  type : (dev.demux.feedarray k).type = .sec
  state : (dev.demux.feedarray k).state = .go
  filtering : (dev.demux.feedarray k).isFiltering = true
  pid : (dev.demux.feedarray k).pid = (dev.filter i).params.pid
  listed : k ∈ dev.demux.outputFeedList (dev.demux.feedarray k).parentFeeds
  crc : dev.checkCrc k = (dev.filter i).params.checkCrc
  mem : f ∈ (dev.demux.feedarray k).sectionFilter
  taken : (dev.demux.sectionFilter f).state ≠ .free
  feed : (dev.demux.sectionFilter f).feed = k
  priv : dev.priv f = i
  bytes : ∃ old, dev.secfilter f = Demux.fillSecfilter old (dev.filter i).filter

/-- The filter has been started, and not stopped since. -/
def SecDevice.Started (dev : SecDevice) (i : ℕ) : Prop :=
  i < dev.filternum ∧ .go ≤ (dev.filter i).state

structure SecDevice.Sound (dev : SecDevice) : Prop where
  valid : Valid dev.demux
  uses : ∀ i, dev.Started i → ∃ k f, dev.Uses i k f
  shared : ∀ i j, dev.Started i → dev.Started j →
    (dev.filter i).params.pid = (dev.filter j).params.pid → (dev.filter i).sec = (dev.filter j).sec
  nodup : ∀ k, (dev.demux.feedarray k).isFiltering = true →
    (dev.demux.feedarray k).sectionFilter.Nodup
  owned : ∀ k, (dev.demux.feedarray k).isFiltering = true →
    ∀ f ∈ (dev.demux.feedarray k).sectionFilter, ∃ i, dev.Started i ∧ dev.Uses i k f

/-- What a call for filter `i` leaves alone: the other filters, the feeds but `k`, and the section
    filters but `f`. -/
structure Touches (dev dev' : SecDevice) (i : ℕ) (k : Option SecFeedNo) (f : Option SecFilterNo) :
    Prop where
  filternum : dev'.filternum = dev.filternum
  files : ∀ j, j ≠ i → dev'.filter j = dev.filter j
  feeds : ∀ k', some k' ≠ k → dev'.demux.feedarray k' = dev.demux.feedarray k'
  lists : ∀ k', some k' ≠ k → ∀ p,
    k' ∈ dev'.demux.outputFeedList p ↔ k' ∈ dev.demux.outputFeedList p
  flags : ∀ k', some k' ≠ k → dev'.checkCrc k' = dev.checkCrc k' ∧
    dev'.receiving k' = dev.receiving k'
  filters : ∀ g, some g ≠ f → dev'.demux.sectionFilter g = dev.demux.sectionFilter g ∧
    dev'.priv g = dev.priv g ∧ dev'.secfilter g = dev.secfilter g
  checkCrc32 : dev'.checkCrc32 = dev.checkCrc32

namespace SecDevice

theorem Uses.unique (h : dev.Uses i k f) (h' : dev.Uses i k' g) : k = k' ∧ f = g := by
  refine ⟨?_, ?_⟩
  · exact Option.some.inj (h.sec.symm.trans h'.sec)
  · exact Option.some.inj (h.secfilter.symm.trans h'.secfilter)

theorem Uses.owner (h : dev.Uses i k f) (h' : dev.Uses j k' f) : i = j :=
  h.priv.symm.trans h'.priv

variable {l : Option SecFeedNo} {m : Option SecFilterNo}

theorem Uses.touch (h : dev.Uses j k g) (ht : Touches dev dev' i l m) (hj : j ≠ i)
    (hk : some k ≠ l) (hg : some g ≠ m) : dev'.Uses j k g := by
  have hfile := ht.files j hj
  have hfeed := ht.feeds k hk
  obtain ⟨hcrc, -⟩ := ht.flags k hk
  obtain ⟨hfilter, hpriv, hbytes⟩ := ht.filters g hg
  constructor
  · rw [hfile]
    exact h.sec
  · rw [hfile]
    exact h.secfilter
  · rw [hfeed]
    exact h.type
  · rw [hfeed]
    exact h.state
  · rw [hfeed]
    exact h.filtering
  · rw [hfeed, hfile]
    exact h.pid
  · rw [hfeed, ht.lists k hk]
    exact h.listed
  · rw [hcrc, hfile]
    exact h.crc
  · rw [hfeed]
    exact h.mem
  · rw [hfilter]
    exact h.taken
  · rw [hfilter]
    exact h.feed
  · rw [hpriv]
    exact h.priv
  · rw [hbytes, hfile]
    exact h.bytes

/-- A filter goes on using a feed when other filters come or go in it. -/
theorem Uses.refilter (h : dev.Uses j k g) {filters : List SecFilterNo}
    (hfile : dev'.filter j = dev.filter j)
    (hfeed : dev'.demux.feedarray k = { dev.demux.feedarray k with
      sectionFilter := filters, isFiltering := true, state := .go })
    (hmem : g ∈ filters) (hlist : dev'.demux.outputFeedList = dev.demux.outputFeedList)
    (hcrc : dev'.checkCrc = dev.checkCrc)
    (hfilter : dev'.demux.sectionFilter g = dev.demux.sectionFilter g)
    (hpriv : dev'.priv g = dev.priv g) (hbytes : dev'.secfilter g = dev.secfilter g) :
    dev'.Uses j k g := by
  constructor
  · rw [hfile]
    exact h.sec
  · rw [hfile]
    exact h.secfilter
  · rw [hfeed]
    exact h.type
  · rw [hfeed]
  · rw [hfeed]
  · rw [hfeed, hfile]
    exact h.pid
  · rw [hfeed, hlist]
    exact h.listed
  · rw [hcrc, hfile]
    exact h.crc
  · rw [hfeed]
    exact hmem
  · rw [hfilter]
    exact h.taken
  · rw [hfilter]
    exact h.feed
  · rw [hpriv]
    exact h.priv
  · rw [hbytes, hfile]
    exact h.bytes

theorem Started.touch (h : dev.Started j) (ht : Touches dev dev' i l m) (hj : j ≠ i) :
    dev'.Started j := by
  rw [Started, ht.files j hj, ht.filternum]
  exact h

theorem Started.untouch (h : dev'.Started j) (ht : Touches dev dev' i l m) (hj : j ≠ i) :
    dev.Started j := by
  rw [Started, ht.files j hj, ht.filternum] at h
  exact h

/-- What is to be shown of a call: about the feed that it touches, and about the filter it is for. -/
structure Settled (dev dev' : SecDevice) (i : ℕ) (l : Option SecFeedNo) (m : Option SecFilterNo) :
    Prop where
  valid : Valid dev'.demux
  /-- The section filter is not one of the others. -/
  own : ∀ j k g, j ≠ i → dev.Started j → dev.Uses j k g → some g ≠ m
  /-- The filter had no other feed. -/
  before : ∀ k g, dev.Started i → dev.Uses i k g → some k = l
  /-- The others go on using the feed. -/
  others : ∀ j k g, j ≠ i → dev.Started j → some k = l → dev.Uses j k g → dev'.Uses j k g
  heard : ∀ j k g, j ≠ i → dev.Started j → some k = l → dev.Uses j k g →
    (dev'.demux.feedarray k).parentFeeds = (dev.demux.feedarray k).parentFeeds ∧
      dev'.receiving k = dev.receiving k
  nodup : ∀ k, some k = l → (dev'.demux.feedarray k).isFiltering = true →
    (dev'.demux.feedarray k).sectionFilter.Nodup
  owned : ∀ k, some k = l → (dev'.demux.feedarray k).isFiltering = true →
    ∀ g ∈ (dev'.demux.feedarray k).sectionFilter, ∃ j, dev'.Started j ∧ dev'.Uses j k g
  after : dev'.Started i → ∃ k g, some k = l ∧ dev'.Uses i k g ∧
    ∀ j, j ≠ i → dev.Started j → (dev.filter j).params.pid = (dev'.filter i).params.pid →
      (dev.filter j).sec = some k

theorem Settled.others_use (h : Settled dev dev' i l m) (ht : Touches dev dev' i l m)
    (hj : j ≠ i) (hstarted : dev.Started j) (huses : dev.Uses j k g) : dev'.Uses j k g := by
  by_cases hk : some k = l
  · exact h.others j k g hj hstarted hk huses
  · exact huses.touch ht hj hk (h.own j k g hj hstarted huses)

theorem Sound.settle (hsound : dev.Sound) (ht : Touches dev dev' i l m)
    (h : Settled dev dev' i l m) : dev'.Sound := by
  refine ⟨h.valid, fun j hj => ?_, fun a b ha hb hpid => ?_, fun k hk => ?_, fun k hk g hg => ?_⟩
  · by_cases hji : j = i
    · subst hji
      obtain ⟨k, g, -, huses, -⟩ := h.after hj
      exact ⟨k, g, huses⟩
    · have hstarted := hj.untouch ht hji
      obtain ⟨k, g, huses⟩ := hsound.uses j hstarted
      exact ⟨k, g, h.others_use ht hji hstarted huses⟩
  · by_cases hai : a = i
    · by_cases hbi : b = i
      · rw [hai, hbi]
      · subst hai
        obtain ⟨k, g, -, huses, hpids⟩ := h.after ha
        rw [ht.files b hbi] at hpid ⊢
        rw [huses.sec]
        exact (hpids b hbi (hb.untouch ht hbi) hpid.symm).symm
    · by_cases hbi : b = i
      · subst hbi
        obtain ⟨k, g, -, huses, hpids⟩ := h.after hb
        rw [ht.files a hai] at hpid ⊢
        rw [huses.sec]
        exact hpids a hai (ha.untouch ht hai) hpid
      · rw [ht.files a hai, ht.files b hbi] at hpid ⊢
        exact hsound.shared a b (ha.untouch ht hai) (hb.untouch ht hbi) hpid
  · by_cases hkl : some k = l
    · exact h.nodup k hkl hk
    · rw [ht.feeds k hkl] at hk ⊢
      exact hsound.nodup k hk
  · by_cases hkl : some k = l
    · exact h.owned k hkl hk g hg
    · rw [ht.feeds k hkl] at hk hg
      obtain ⟨j, hstarted, huses⟩ := hsound.owned k hk g hg
      have hji : j ≠ i := by
        rintro rfl
        exact hkl (h.before k g hstarted huses)
      exact ⟨j, hstarted.touch ht hji, h.others_use ht hji hstarted huses⟩

/-! ### Looking for another filter -/

theorem firstOther_some (h : dev.firstOther i = some j) :
    j ≠ i ∧ dev.Started j ∧ (dev.filter j).params.pid = (dev.filter i).params.pid := by
  have hmem := List.mem_of_find?_eq_some h
  have hfound := List.find?_some h
  simp only [decide_eq_true_eq] at hfound
  obtain ⟨hji, hgo, hpid⟩ := hfound
  exact ⟨hji, ⟨List.mem_range.mp hmem, hgo⟩, hpid⟩

theorem firstOther_none (h : dev.firstOther i = none) (hj : j ≠ i) (hstarted : dev.Started j) :
    (dev.filter j).params.pid ≠ (dev.filter i).params.pid := by
  intro hpid
  refine List.find?_eq_none.mp h j (List.mem_range.mpr hstarted.1) ?_
  exact decide_eq_true ⟨hj, hstarted.2, hpid⟩

/-- A filter that is not started does not find itself. -/
theorem first_eq (hn : dev'.filternum = dev.filternum)
    (hfiles : ∀ j, j ≠ i → dev'.filter j = dev.filter j) (hidle : ¬.go ≤ (dev'.filter i).state) :
    dev'.first (dev.filter i).params.pid = dev.firstOther i := by
  rw [first, firstOther, hn]
  congr 1
  funext j
  by_cases hj : j = i
  · subst hj
    simp [hidle]
  · rw [hfiles j hj]
    simp [hj]

end SecDevice

/-! ### The demux -/

variable {demux : NeumoDvbDemux}

/-- The demux when a filter has left the feed `k`, which is stopped. -/
def left (demux : NeumoDvbDemux) (k : SecFeedNo) (f : SecFilterNo) : NeumoDvbDemux :=
  (demux.setFeed k { demux.feedarray k with
    state := .ready, isFiltering := false
    sectionFilter := (demux.feedarray k).sectionFilter.erase f }).setSectionFilter f
      { demux.sectionFilter f with state := .free }

theorem left_eq (hfeed : (demux.sectionFilter f).feed = k) :
    (demux.stopSectionFiltering k).releaseSectionFilter k f = left demux k f := by
  have hstopped : ((demux.stopSectionFiltering k).feedarray k).isFiltering = false := by
    simp [NeumoDvbDemux.stopSectionFiltering]
  have hfeed' : ¬((demux.stopSectionFiltering k).sectionFilter f).feed ≠ k := not_not.mpr hfeed
  rw [NeumoDvbDemux.releaseSectionFilter, if_neg hfeed', hstopped]
  simp [NeumoDvbDemux.stopSectionFiltering, NeumoDvbDemux.setFeed,
    NeumoDvbDemux.setSectionFilter, left]

theorem Valid.left (h : Valid demux) (k : SecFeedNo) (f : SecFilterNo) :
    Valid (left demux k f) := by
  have hset : Valid (demux.setFeed k { demux.feedarray k with
      state := .ready, isFiltering := false
      sectionFilter := (demux.feedarray k).sectionFilter.erase f }) :=
    h.change (fun _ => nofun) rfl rfl rfl rfl
  exact hset.setSectionFilter f _

theorem left_others (hk : k' ≠ k) : (left demux k f).feedarray k' = demux.feedarray k' := by
  simp [left, NeumoDvbDemux.setSectionFilter, update_of_ne hk]

theorem left_filters (hg : g ≠ f) : (left demux k f).sectionFilter g = demux.sectionFilter g := by
  simp [left, NeumoDvbDemux.setSectionFilter, update_of_ne hg]

/-- The feed is started. -/
def filtering (demux : NeumoDvbDemux) (k : SecFeedNo) : NeumoDvbDemux :=
  demux.ask.setFeed k { demux.feedarray k with isFiltering := true, state := .go }

theorem Valid.filtering (h : Valid demux) (k : SecFeedNo) : Valid (filtering demux k) :=
  h.ask.change (fun _ => nofun) rfl rfl rfl rfl

theorem filtering_left (demux : NeumoDvbDemux) (k : SecFeedNo) (f : SecFilterNo) :
    (filtering (left demux k f) k).feedarray k = { demux.feedarray k with
      sectionFilter := (demux.feedarray k).sectionFilter.erase f
      isFiltering := true, state := .go } := by
  simp [filtering, left, NeumoDvbDemux.setSectionFilter]

/-- Releasing a section feed leaves the others where they are. -/
theorem releaseSectionFeed_others (demux : NeumoDvbDemux) (hk : k' ≠ k) :
    (demux.releaseSectionFeed k).feedarray k' = demux.feedarray k' ∧
      ∀ p, k' ∈ (demux.releaseSectionFeed k).outputFeedList p ↔ k' ∈ demux.outputFeedList p := by
  rw [NeumoDvbDemux.releaseSectionFeed]
  split
  · exact ⟨rfl, fun _ => Iff.rfl⟩
  · dsimp only
    rw [NeumoDvbDemux.outputFeedDel]
    split
    · refine ⟨?_, fun _ => Iff.rfl⟩
      simp [update_of_ne hk]
    · refine ⟨?_, fun p => ?_⟩
      · simp [NeumoDvbDemux.setFeed, update_of_ne hk]
      · by_cases hp : p = (demux.feedarray k).parentFeeds
        · subst hp
          simp [NeumoDvbDemux.setFeed, List.mem_erase_of_ne hk]
        · simp [NeumoDvbDemux.setFeed, update_of_ne hp]

theorem releaseSectionFeed_self (demux : NeumoDvbDemux) (k : SecFeedNo) :
    ∃ pid, (demux.releaseSectionFeed k).feedarray k =
      { demux.feedarray k with state := .free, pid := pid } := by
  rw [NeumoDvbDemux.releaseSectionFeed]
  split
  · rename_i hfree
    refine ⟨(demux.feedarray k).pid, ?_⟩
    rw [← hfree]
  · exact ⟨0xffff, by simp⟩

/-- Listing a feed leaves the others where they are. -/
theorem openedSec_lists (demux : NeumoDvbDemux) (k pid : ℕ) (parent : FeedsNo) :
    (∀ k', k' ≠ k → ∀ p, k' ∈ (openedSec demux k pid parent).outputFeedList p ↔
      k' ∈ demux.outputFeedList p) ∧
      k ∈ (openedSec demux k pid parent).outputFeedList parent := by
  have hparent : ((demux.setFeed k (secFeed demux k pid parent)).feedarray k).parentFeeds =
      parent := by
    simp [secFeed]
  rw [openedSec, NeumoDvbDemux.outputFeedAdd, hparent]
  split
  · rename_i hmem
    exact ⟨fun _ _ _ => Iff.rfl, hmem⟩
  · refine ⟨fun k' hk p => ?_, ?_⟩
    · by_cases hp : p = parent
      · subst hp
        simp [NeumoDvbDemux.setFeed, hk]
      · simp [NeumoDvbDemux.setFeed, update_of_ne hp]
    · simp

theorem openedSec_sectionFilter (demux : NeumoDvbDemux) (k pid : ℕ) (parent : FeedsNo) :
    (openedSec demux k pid parent).sectionFilter = demux.sectionFilter := by
  simp [openedSec]

/-! ### Starting a feed -/

namespace SecDevice

theorem startSectionFiltering_ok (hstarts : dev.StartsAfter 0)
    (hidle : (dev.demux.feedarray k).isFiltering = false)
    (hsome : (dev.demux.feedarray k).sectionFilter ≠ []) :
    dev.startSectionFiltering k = (.ok (), { dev with
      demux := dev.demux.ask.setFeed k
        { dev.demux.feedarray k with isFiltering := true, state := .go }
      receiving := update dev.receiving k false }) := by
  obtain ⟨hanswer, hcard⟩ := hstarts
  have hanswer' : dev.demux.answer.interrupted = false := hanswer
  have hcard' : dev.demux.answer.startFeed = .ok () := hcard
  have hstart : dev.demux.startSectionFiltering k = (.ok (), dev.demux.ask.setFeed k
      { dev.demux.feedarray k with isFiltering := true, state := .go }) := by
    rw [NeumoDvbDemux.startSectionFiltering]
    simp [hanswer', hcard', hidle, hsome]
  rw [startSectionFiltering, hstart]

/-- A feed that is filtering, or has no filters, is not started. -/
theorem startSectionFiltering_not (hno : (dev.demux.feedarray k).isFiltering = true ∨
      (dev.demux.feedarray k).sectionFilter = []) :
    ∃ e, dev.startSectionFiltering k = (.error e, { dev with demux := dev.demux.ask }) := by
  rw [startSectionFiltering]
  rcases startSectionFiltering_cases dev.demux k with ⟨e, heq⟩ | ⟨hidle, hsome, -⟩
  · rw [heq]
    exact ⟨e, rfl⟩
  · rcases hno with hyes | hnone
    · rw [hyes] at hidle
      cases hidle
    · exact absurd hnone hsome

theorem setState_eq_self {state : NeumoDmxdevState} (h : (dev.filter i).state = state) :
    dev.setState i state = dev := by
  subst h
  rw [setState, setFile, update_eq_self]

/-! ### Stopping a filter -/

/-- The device where filter `i` has stopped; others may still use its feed. -/
def stopped (dev : SecDevice) (i : ℕ) (demux : NeumoDvbDemux) : SecDevice :=
  { dev with
    filter := update dev.filter i { dev.filter i with state := .setPes, sec := none }
    demux := demux }

/-- The device before the feed is restarted. -/
def leaving (dev : SecDevice) (i : ℕ) (k : SecFeedNo) (f : SecFilterNo) : SecDevice :=
  { dev.setState i .setPes with demux := left dev.demux k f }

theorem filterStop_eq (h : dev.Uses i k f) (hstarted : dev.Started i) :
    dev.filterStop i = ((dev.leaving i k f).feedRestart i).setFile i
      { ((dev.leaving i k f).feedRestart i).filter i with sec := none } := by
  have hgo : ¬(dev.filter i).state < .go := NeumoDmxdevState.not_lt.mpr hstarted.2
  have hsec : ((dev.setState i .setPes).filter i).sec = some k := by
    simp [setState, setFile, h.sec]
  have hsecfilter : ((dev.setState i .setPes).filter i).secfilter = some f := by
    simp [setState, setFile, h.secfilter]
  have hleft : (dev.feedStop i).releaseSecfilter i k = dev.leaving i k f := by
    rw [feedStop]
    rw [hsec]
    dsimp only
    rw [releaseSecfilter, hsecfilter, leaving, ← left_eq h.feed]
    rfl
  rw [filterStop, if_neg hgo, h.sec]
  dsimp only
  rw [hleft]

theorem first_leaving (i : ℕ) (k : SecFeedNo) (f : SecFilterNo) :
    (dev.leaving i k f).first ((dev.leaving i k f).filter i).params.pid = dev.firstOther i := by
  have hpid : ((dev.leaving i k f).filter i).params.pid = (dev.filter i).params.pid := by
    simp [leaving, setState, setFile]
  rw [hpid]
  refine first_eq rfl (fun j hj => ?_) ?_
  · simp [leaving, setState, setFile, update_of_ne hj]
  · simp only [leaving, setState, setFile, update_self]
    decide

/-- The last filter on a pid releases the feed. -/
theorem filterStop_last (h : dev.Uses i k f) (hstarted : dev.Started i)
    (hnone : dev.firstOther i = none) :
    dev.filterStop i = dev.stopped i ((left dev.demux k f).releaseSectionFeed k) := by
  have hsec : ((dev.leaving i k f).filter i).sec = some k := by
    simp [leaving, setState, setFile, h.sec]
  have hrestart : (dev.leaving i k f).feedRestart i =
      { dev.leaving i k f with demux := (left dev.demux k f).releaseSectionFeed k } := by
    rw [feedRestart, first_leaving, hnone]
    dsimp only
    rw [hsec]
    rfl
  rw [filterStop_eq h hstarted, hrestart]
  simp [leaving, stopped, setState, setFile]

/-- Where there is another filter on the pid, it starts the feed again. -/
theorem filterStop_shared {g : SecFilterNo} (h : dev.Uses i k f) (hstarted : dev.Started i)
    (hkept : dev.StopKept i) (hsome : dev.firstOther i = some j) (huses : dev.Uses j k g) :
    dev.filterStop i = dev.stopped i (filtering (left dev.demux k f) k) := by
  obtain ⟨hji, -, -⟩ := firstOther_some hsome
  obtain ⟨hgo, hquiet, hstarts⟩ := hkept hstarted.2 j hsome
  have hfile : (dev.leaving i k f).filter j = dev.filter j := by
    simp [leaving, setState, setFile, update_of_ne hji]
  have hgf : g ≠ f := by
    rintro rfl
    exact hji (huses.owner h)
  have hmem : g ∈ ((dev.leaving i k f).demux.feedarray k).sectionFilter := by
    simp [leaving, left, NeumoDvbDemux.setSectionFilter, List.mem_erase_of_ne hgf, huses.mem]
  have hidle : ((dev.leaving i k f).demux.feedarray k).isFiltering = false := by
    simp [leaving, left, NeumoDvbDemux.setSectionFilter]
  have hstarts' : (dev.leaving i k f).StartsAfter 0 := hstarts
  have hrestart : (dev.leaving i k f).feedRestart i = { dev.leaving i k f with
      demux := filtering (left dev.demux k f) k } := by
    rw [feedRestart, first_leaving, hsome]
    dsimp only
    rw [feedStart, setState_eq_self (hfile ▸ hgo)]
    rw [hfile, huses.sec]
    dsimp only
    rw [startSectionFiltering_ok hstarts' hidle (List.ne_nil_of_mem hmem)]
    have hreceiving : update (dev.leaving i k f).receiving k false = dev.receiving :=
      update_eq_self_iff.mpr (hquiet k huses.sec).symm
    dsimp only
    rw [hreceiving]
    rfl
  rw [filterStop_eq h hstarted, hrestart]
  simp [leaving, stopped, setState, setFile]

variable {demux : NeumoDvbDemux}

theorem stopped_self (dev : SecDevice) (i : ℕ) (demux : NeumoDvbDemux) :
    (dev.stopped i demux).filter i = { dev.filter i with state := .setPes, sec := none } :=
  update_self ..

theorem stopped_other (dev : SecDevice) (demux : NeumoDvbDemux) (hj : j ≠ i) :
    (dev.stopped i demux).filter j = dev.filter j :=
  update_of_ne hj ..

theorem not_started_stopped (i : ℕ) (demux : NeumoDvbDemux) : ¬(dev.stopped i demux).Started i := by
  rintro ⟨-, hgo⟩
  rw [stopped_self] at hgo
  exact absurd hgo (NeumoDmxdevState.not_le.mpr setPes_lt_go)

theorem touches_last (i : ℕ) (k : SecFeedNo) (f : SecFilterNo) :
    Touches dev (dev.stopped i ((left dev.demux k f).releaseSectionFeed k)) i (some k) (some f) := by
  refine ⟨rfl, fun j hj => update_of_ne hj .., fun k' hk => ?_, fun k' hk p => ?_,
    fun k' hk => ⟨rfl, rfl⟩, fun g hg => ⟨?_, rfl, rfl⟩, rfl⟩
  · have hne : k' ≠ k := fun heq => hk (congrArg some heq)
    exact (releaseSectionFeed_others _ hne).1.trans (left_others hne)
  · have hne : k' ≠ k := fun heq => hk (congrArg some heq)
    exact (releaseSectionFeed_others _ hne).2 p
  · have hne : g ≠ f := fun heq => hg (congrArg some heq)
    exact (congrFun releaseSectionFeed_sectionFilter g).trans (left_filters hne)

theorem touches_shared (i : ℕ) (k : SecFeedNo) (f : SecFilterNo) :
    Touches dev (dev.stopped i (filtering (left dev.demux k f) k)) i (some k) (some f) := by
  refine ⟨rfl, fun j hj => update_of_ne hj .., fun k' hk => ?_, fun k' hk p => Iff.rfl,
    fun k' hk => ⟨rfl, rfl⟩, fun g hg => ⟨?_, rfl, rfl⟩, rfl⟩
  · have hne : k' ≠ k := fun heq => hk (congrArg some heq)
    exact (update_of_ne hne ..).trans (left_others hne)
  · have hne : g ≠ f := fun heq => hg (congrArg some heq)
    exact left_filters hne

/-- After a stop it is enough to look at the feed that was used. -/
theorem Uses.stopped_settled (huses : dev.Uses i k f) (hvalid : Valid demux)
    (hparent : (demux.feedarray k).parentFeeds = (dev.demux.feedarray k).parentFeeds)
    (hothers : ∀ j g, j ≠ i → dev.Started j → dev.Uses j k g → (dev.stopped i demux).Uses j k g)
    (hnodup : (demux.feedarray k).isFiltering = true → (demux.feedarray k).sectionFilter.Nodup)
    (howned : (demux.feedarray k).isFiltering = true → ∀ g ∈ (demux.feedarray k).sectionFilter,
      ∃ j, j ≠ i ∧ dev.Started j ∧ dev.Uses j k g) :
    Settled dev (dev.stopped i demux) i (some k) (some f) := by
  refine ⟨hvalid, ?_, ?_, ?_, ?_, ?_, ?_, fun hi => absurd hi (not_started_stopped i demux)⟩
  · rintro j k' g hj - huses' heq
    cases heq
    exact hj (huses'.owner huses)
  · rintro k' g - huses'
    rw [(huses'.unique huses).1]
  · rintro j k' g hj hstarted heq huses'
    cases heq
    exact hothers j g hj hstarted huses'
  · rintro j k' g - - heq -
    cases heq
    exact ⟨hparent, rfl⟩
  · rintro k' heq
    cases heq
    exact hnodup
  · rintro k' heq hfiltering g hg
    cases heq
    obtain ⟨j, hj, hstarted, huses'⟩ := howned hfiltering g hg
    refine ⟨j, ?_, hothers j g hj hstarted huses'⟩
    rw [Started, stopped_other dev demux hj]
    exact hstarted

/-- A stop of the last filter on a pid. -/
theorem Sound.stop_last (h : dev.Sound) (huses : dev.Uses i k f) (hstarted : dev.Started i)
    (hnone : dev.firstOther i = none) :
    Settled dev (dev.filterStop i) i (some k) (some f) := by
  obtain ⟨pid, hself⟩ := releaseSectionFeed_self (left dev.demux k f) k
  have hidle : (((left dev.demux k f).releaseSectionFeed k).feedarray k).isFiltering = false := by
    rw [hself]
    simp [left, NeumoDvbDemux.setSectionFilter]
  have htype : ((left dev.demux k f).feedarray k).type = .sec := by
    simp [left, NeumoDvbDemux.setSectionFilter, huses.type]
  have hvalid : Valid ((left dev.demux k f).releaseSectionFeed k) :=
    (h.valid.left k f).releaseSec htype
  rw [filterStop_last huses hstarted hnone]
  have hparent : (((left dev.demux k f).releaseSectionFeed k).feedarray k).parentFeeds =
      (dev.demux.feedarray k).parentFeeds := by
    rw [hself]
    simp [left, NeumoDvbDemux.setSectionFilter]
  refine huses.stopped_settled hvalid hparent ?_ ?_ ?_
  · intro j g hj hstarted' huses'
    have hpid := huses'.pid.symm.trans huses.pid
    exact absurd hpid (firstOther_none hnone hj hstarted')
  · intro hfiltering
    rw [hidle] at hfiltering
    cases hfiltering
  · intro hfiltering
    rw [hidle] at hfiltering
    cases hfiltering

/-- A stop where another filter runs on the pid. -/
theorem Sound.stop_shared (h : dev.Sound) (huses : dev.Uses i k f) (hstarted : dev.Started i)
    (hkept : dev.StopKept i) (hsome : dev.firstOther i = some j) :
    dev.filterStop i = dev.stopped i (filtering (left dev.demux k f) k) ∧
      Settled dev (dev.filterStop i) i (some k) (some f) := by
  obtain ⟨hji, hstarted', hpid⟩ := firstOther_some hsome
  obtain ⟨k', g, huses'⟩ := h.uses j hstarted'
  have hsec := h.shared j i hstarted' hstarted hpid
  rw [huses'.sec, huses.sec] at hsec
  cases hsec
  have hstop := filterStop_shared huses hstarted hkept hsome huses'
  have hvalid : Valid (filtering (left dev.demux k f) k) := (h.valid.left k f).filtering k
  refine ⟨hstop, ?_⟩
  rw [hstop]
  have hparent : ((filtering (left dev.demux k f) k).feedarray k).parentFeeds =
      (dev.demux.feedarray k).parentFeeds := by
    rw [filtering_left]
  refine huses.stopped_settled hvalid hparent ?_ ?_ ?_
  · rintro j' g' hj' - huses''
    have hne : g' ≠ f := by
      rintro rfl
      exact hj' (huses''.owner huses)
    refine huses''.refilter (stopped_other dev _ hj') (filtering_left dev.demux k f) ?_ rfl rfl
      (left_filters hne) rfl rfl
    exact (List.mem_erase_of_ne hne).mpr huses''.mem
  · rintro -
    rw [filtering_left]
    exact (h.nodup k huses.filtering).erase f
  · rintro - g' hg'
    rw [filtering_left] at hg'
    obtain ⟨hne, hmem⟩ := ((h.nodup k huses.filtering).mem_erase_iff).mp hg'
    obtain ⟨j', hstarted'', huses''⟩ := h.owned k huses.filtering g' hmem
    refine ⟨j', ?_, hstarted'', huses''⟩
    rintro rfl
    exact hne (huses''.unique huses).2

end SecDevice

end Dmx

import NeumoDrivers.Dmxdev.SharedFeeds

/-! Starting a filter where others run (`neumo-dmxdev.c`).

    A filter gets a feed of its own, or joins the others on its pid. Where it fails, the feed of its
    own is released or never started, and that of the others is started again. -/

namespace Dmx
open Function
open Demux (FeedsNo)

namespace SecDevice

variable {dev dev' : SecDevice} {i j : ℕ} {k k' : SecFeedNo} {f g : SecFilterNo}

/-! ### The parts of a start -/

/-- The device where filter `i` has got the section filter `f`. -/
def taking (dev : SecDevice) (i : ℕ) (k : SecFeedNo) (f : SecFilterNo) : SecDevice :=
  { dev with
    demux := filtered dev.demux.ask k f
    filter := update dev.filter i { dev.filter i with secfilter := some f }
    priv := update dev.priv f i
    secfilter := update dev.secfilter f
      (Demux.fillSecfilter (dev.secfilter f) (dev.filter i).filter) }

/-- The device where a feed has been started. -/
def serving (dev : SecDevice) (k : SecFeedNo) : SecDevice :=
  { dev with demux := filtering dev.demux k, receiving := update dev.receiving k false }

/-- The device after a call that has only asked. -/
def asked (dev : SecDevice) : SecDevice := { dev with demux := dev.demux.ask }

/-- What `start_section_filtering` can do. -/
theorem startSectionFiltering_result (dev : SecDevice) (k : SecFeedNo) :
    (∃ e, dev.startSectionFiltering k = (.error e, dev.asked)) ∨
      dev.startSectionFiltering k = (.ok (), dev.serving k) := by
  rw [startSectionFiltering]
  rcases startSectionFiltering_cases dev.demux k with ⟨e, heq⟩ | ⟨-, -, heq⟩
  · rw [heq]
    exact .inl ⟨e, rfl⟩
  · rw [heq]
    exact .inr rfl

/-- What follows when a section filter has been had. -/
theorem startSecfilter_some (hcan : dev.demux.answer.interrupted = false)
    (hsome : dev.demux.sectionFilterAlloc = some f) :
    dev.startSecfilter i k =
      match (dev.taking i k f).startSectionFiltering k with
      | (.error e, dev) => (.error e, dev)
      | (.ok (), dev) => (.ok (), dev.setState i .go) := by
  have halloc : dev.demux.allocateSectionFilter k = (.ok f, filtered dev.demux.ask k f) := by
    rw [NeumoDvbDemux.allocateSectionFilter, hcan]
    dsimp only
    rw [hsome]
    rfl
  rw [startSecfilter, halloc]
  rfl

theorem startSecfilter_none (hcan : ¬dev.CanFilter) :
    ∃ e, dev.startSecfilter i k =
      (.error e, ((dev.asked.feedRestart i).startSectionFiltering k).2) := by
  rw [startSecfilter]
  rcases allocateSectionFilter_cases dev.demux k with ⟨e, heq⟩ | ⟨f, hf, heq⟩
  · rw [heq]
    exact ⟨e, rfl⟩
  · refine absurd ⟨?_, ?_⟩ hcan
    · by_contra hno
      rw [NeumoDvbDemux.allocateSectionFilter, if_pos (by simpa using hno)] at heq
      cases heq
    · rw [hf]
      rintro ⟨⟩

/-! ### What the parts touch -/

variable {l : Option SecFeedNo} {m : Option SecFilterNo}

theorem touches_trans {dev'' : SecDevice} (h : Touches dev dev' i l m)
    (h' : Touches dev' dev'' i l m) : Touches dev dev'' i l m := by
  refine ⟨h'.filternum.trans h.filternum, fun j hj => (h'.files j hj).trans (h.files j hj),
    fun k hk => (h'.feeds k hk).trans (h.feeds k hk),
    fun k hk p => (h'.lists k hk p).trans (h.lists k hk p), fun k hk => ?_, fun g hg => ?_,
    h'.checkCrc32.trans h.checkCrc32⟩
  · obtain ⟨hcrc, hreceiving⟩ := h.flags k hk
    obtain ⟨hcrc', hreceiving'⟩ := h'.flags k hk
    exact ⟨hcrc'.trans hcrc, hreceiving'.trans hreceiving⟩
  · obtain ⟨hfilter, hpriv, hbytes⟩ := h.filters g hg
    obtain ⟨hfilter', hpriv', hbytes'⟩ := h'.filters g hg
    exact ⟨hfilter'.trans hfilter, hpriv'.trans hpriv, hbytes'.trans hbytes⟩

theorem touches_refl (dev : SecDevice) : Touches dev dev i l m :=
  ⟨rfl, fun _ _ => rfl, fun _ _ => rfl, fun _ _ _ => Iff.rfl, fun _ _ => ⟨rfl, rfl⟩,
    fun _ _ => ⟨rfl, rfl, rfl⟩, rfl⟩

theorem touches_setFile (dev : SecDevice) (i : ℕ) (file : SecFile) :
    Touches dev (dev.setFile i file) i l m :=
  ⟨rfl, fun _ hj => update_of_ne hj .., fun _ _ => rfl, fun _ _ _ => Iff.rfl, fun _ _ => ⟨rfl, rfl⟩,
    fun _ _ => ⟨rfl, rfl, rfl⟩, rfl⟩

/-- Only the demux changes, and of it the feed `k`. -/
theorem touches_feed (dev : SecDevice) {demux : NeumoDvbDemux}
    (hfeeds : ∀ k', k' ≠ k → demux.feedarray k' = dev.demux.feedarray k')
    (hlists : ∀ k', k' ≠ k → ∀ p, k' ∈ demux.outputFeedList p ↔ k' ∈ dev.demux.outputFeedList p)
    (hfilters : demux.sectionFilter = dev.demux.sectionFilter) :
    Touches dev { dev with demux := demux } i (some k) m := by
  refine ⟨rfl, fun _ _ => rfl, fun k' hk => hfeeds k' ?_, fun k' hk => hlists k' ?_,
    fun _ _ => ⟨rfl, rfl⟩, fun g _ => ⟨congrFun hfilters g, rfl, rfl⟩, rfl⟩
  · exact fun heq => hk (congrArg some heq)
  · exact fun heq => hk (congrArg some heq)

theorem touches_asked (dev : SecDevice) : Touches dev dev.asked i l m :=
  ⟨rfl, fun _ _ => rfl, fun _ _ => rfl, fun _ _ _ => Iff.rfl, fun _ _ => ⟨rfl, rfl⟩,
    fun _ _ => ⟨rfl, rfl, rfl⟩, rfl⟩

theorem touches_serving (dev : SecDevice) (k : SecFeedNo) :
    Touches dev (dev.serving k) i (some k) m := by
  refine ⟨rfl, fun _ _ => rfl, fun k' hk => update_of_ne ?_ .., fun _ _ _ => Iff.rfl,
    fun k' hk => ⟨rfl, update_of_ne ?_ ..⟩, fun _ _ => ⟨rfl, rfl, rfl⟩, rfl⟩
  · exact fun heq => hk (congrArg some heq)
  · exact fun heq => hk (congrArg some heq)

theorem touches_taking (dev : SecDevice) (i : ℕ) (k : SecFeedNo) (f : SecFilterNo) :
    Touches dev (dev.taking i k f) i (some k) (some f) := by
  refine ⟨rfl, fun _ hj => update_of_ne hj .., fun k' hk => update_of_ne ?_ ..,
    fun _ _ _ => Iff.rfl, fun _ _ => ⟨rfl, rfl⟩, fun g hg => ?_, rfl⟩
  · exact fun heq => hk (congrArg some heq)
  · have hne : g ≠ f := fun heq => hg (congrArg some heq)
    exact ⟨update_of_ne hne .., update_of_ne hne .., update_of_ne hne ..⟩

/-- What is known of a start from the search for a feed on, whatever it comes to. -/
structure Starts (dev : SecDevice) (r : Except Errno Unit × SecDevice) (i : ℕ) : Prop where
  change : ∃ l m, Touches dev r.2 i l m ∧ Settled dev r.2 i l m
  params : (r.2.filter i).params = (dev.filter i).params
  filter : (r.2.filter i).filter = (dev.filter i).filter
  currentFeeds : (r.2.filter i).currentFeeds = (dev.filter i).currentFeeds
  go : (r.2.filter i).state = .go ↔ r.1.isOk = true
  stopped : r.1.isOk = false → ¬.go ≤ (r.2.filter i).state
  parent : r.1.isOk = true → ∀ k ∈ (r.2.filter i).sec,
    (r.2.demux.feedarray k).parentFeeds = (dev.filter i).currentFeeds.getD .default ∧
      r.2.receiving k = false

/-! ### Where nothing comes of it -/

theorem go_le_of_eq {state : NeumoDmxdevState} (h : state = .go) : .go ≤ state := by
  rw [h]
  exact Nat.le_refl _

/-- A failed start that has touched no feed that is used. -/
theorem starts_failed (hidle : ¬dev.Started i) {e : Errno}
    (ht : Touches dev dev' i l m) (hvalid : Valid dev'.demux)
    (hown : ∀ j k g, dev.Started j → dev.Uses j k g → some g ≠ m)
    (hunused : ∀ j k g, dev.Started j → dev.Uses j k g → some k ≠ l)
    (hfeed : ∀ k, some k = l → (dev'.demux.feedarray k).isFiltering = false)
    (hparams : (dev'.filter i).params = (dev.filter i).params)
    (hfilter : (dev'.filter i).filter = (dev.filter i).filter)
    (hcurrent : (dev'.filter i).currentFeeds = (dev.filter i).currentFeeds)
    (hstate : ¬.go ≤ (dev'.filter i).state) : Starts dev (.error e, dev') i := by
  have hnot : ¬dev'.Started i := fun h => hstate h.2
  refine ⟨⟨l, m, ht, hvalid, fun j k g _ => hown j k g, fun k g h => absurd h hidle,
    fun j k g _ h heq huses => absurd heq (hunused j k g h huses),
    fun j k g _ h heq huses => absurd heq (hunused j k g h huses), ?_, ?_,
    fun h => absurd h hnot⟩, hparams, hfilter, hcurrent, ?_, fun _ => hstate, nofun⟩
  · intro k hk hfiltering
    rw [hfeed k hk] at hfiltering
    cases hfiltering
  · intro k hk hfiltering
    rw [hfeed k hk] at hfiltering
    cases hfiltering
  · exact ⟨fun h => absurd (go_le_of_eq h) hstate, nofun⟩

/-! ### A feed of its own -/

/-- The device where filter `i` has allocated the feed `k`. -/
def owning (dev : SecDevice) (i : ℕ) (k : SecFeedNo) : SecDevice :=
  { dev with
    demux := openedSec dev.demux.ask k (dev.filter i).params.pid
      ((dev.filter i).currentFeeds.getD .default)
    filter := update dev.filter i { dev.filter i with sec := some k }
    checkCrc := update dev.checkCrc k (dev.filter i).params.checkCrc
    receiving := update dev.receiving k false }

theorem startFeed_none (hfound : dev.found i = none) :
    (∃ e, dev.startFeed i = (.error e, dev) ∨ dev.startFeed i = (.error e, dev.asked)) ∨
      ∃ k, (dev.demux.feedarray k).state = .free ∧
        dev.startFeed i = (dev.owning i k).startSecfilter i k := by
  rw [startFeed, hfound]
  dsimp only
  rcases allocateSectionFeed_cases dev.demux (dev.filter i).params.pid (dev.filter i).currentFeeds
    with ⟨e, demux, heq, rfl | rfl⟩ | ⟨k, hk, heq⟩
  · rw [heq]
    exact .inl ⟨e, .inl rfl⟩
  · rw [heq]
    exact .inl ⟨e, .inr rfl⟩
  · rw [heq]
    exact .inr ⟨k, feedAlloc_free hk, rfl⟩

/-- The device where the feed `k` has been released. -/
def releasing (dev : SecDevice) (k : SecFeedNo) : SecDevice :=
  { dev with demux := dev.demux.releaseSectionFeed k }

theorem owning_feed (dev : SecDevice) (i : ℕ) (k : SecFeedNo) :
    (dev.owning i k).demux.feedarray k = secFeed dev.demux.ask k (dev.filter i).params.pid
      ((dev.filter i).currentFeeds.getD .default) := by
  simp [owning, openedSec_feedarray]

theorem touches_owning (dev : SecDevice) (i : ℕ) (k : SecFeedNo) :
    Touches dev (dev.owning i k) i (some k) m := by
  obtain ⟨hlists, -⟩ := openedSec_lists dev.demux.ask k (dev.filter i).params.pid
    ((dev.filter i).currentFeeds.getD .default)
  have hne : ∀ k' : SecFeedNo, some k' ≠ some k → k' ≠ k :=
    fun k' hk heq => hk (congrArg some heq)
  refine ⟨rfl, fun _ hj => update_of_ne hj .., fun k' hk => ?_, fun k' hk => hlists k' (hne k' hk),
    fun k' hk => ⟨update_of_ne (hne k' hk) .., update_of_ne (hne k' hk) ..⟩,
    fun g _ => ⟨?_, rfl, rfl⟩, rfl⟩
  · simp [owning, openedSec_feedarray, update_of_ne (hne k' hk)]
  · exact congrFun (openedSec_sectionFilter ..) g

theorem Uses.ne_of_free (h : dev.Uses j k' g) (hk : (dev.demux.feedarray k).state = .free) :
    k' ≠ k := by
  rintro rfl
  rw [h.state] at hk
  cases hk

theorem Uses.filter_ne_of_free (h : dev.Uses j k g) (hf : (dev.demux.sectionFilter f).state = .free) :
    g ≠ f := by
  rintro rfl
  exact h.taken hf

theorem Sound.owning_valid (hsound : dev.Sound) (hk : (dev.demux.feedarray k).state = .free) (i : ℕ) :
    Valid (dev.owning i k).demux :=
  (opens_openedSec hsound.valid hk (dev.filter i).params.pid _).valid hsound.valid

theorem Valid.taking (h : Valid dev.demux) (i : ℕ) (k : SecFeedNo) (f : SecFilterNo) :
    Valid (dev.taking i k f).demux := by
  have hset : Valid ((dev.demux.ask.setSectionFilter f ⟨.ready, k⟩).setFeed k
      { dev.demux.feedarray k with
        sectionFilter := f :: (dev.demux.feedarray k).sectionFilter }) :=
    (h.ask.setSectionFilter f ⟨.ready, k⟩).change id rfl rfl rfl rfl
  exact hset

/-- The feed that has been allocated is released when no section filter can be had. -/
theorem owning_restart (hnone : dev.firstOther i = none) (hidle : ¬.go ≤ (dev.filter i).state) :
    (dev.owning i k).asked.feedRestart i = (dev.owning i k).asked.releasing k := by
  have hpid : ((dev.owning i k).asked.filter i).params.pid = (dev.filter i).params.pid := by
    simp [asked, owning]
  have hsec : ((dev.owning i k).asked.filter i).sec = some k := by
    simp [asked, owning]
  have hfirst : (dev.owning i k).asked.first (dev.filter i).params.pid = dev.firstOther i := by
    refine first_eq rfl (fun j hj => update_of_ne hj ..) ?_
    simpa [asked, owning] using hidle
  rw [feedRestart, hpid, hfirst, hnone]
  dsimp only
  rw [hsec]
  rfl

theorem Sound.starts_unfiltered (hsound : dev.Sound) (hidle : ¬.go ≤ (dev.filter i).state)
    (hnone : dev.firstOther i = none) (hk : (dev.demux.feedarray k).state = .free)
    (hcan : ¬(dev.owning i k).CanFilter) :
    Starts dev ((dev.owning i k).startSecfilter i k) i := by
  obtain ⟨e, heq⟩ := @startSecfilter_none _ i k hcan
  obtain ⟨pid, hself⟩ := releaseSectionFeed_self (dev.owning i k).asked.demux k
  have hfeed := owning_feed dev i k
  have hlist : (((dev.owning i k).asked.releasing k).demux.feedarray k).sectionFilter = [] := by
    rw [releasing, hself, asked, ask_feedarray, hfeed]
    rfl
  have hfiltering : (((dev.owning i k).asked.releasing k).demux.feedarray k).isFiltering =
      false := by
    rw [releasing, hself, asked, ask_feedarray, hfeed]
    rfl
  have htype : ((dev.owning i k).asked.demux.feedarray k).type = .sec := by
    rw [asked, ask_feedarray, hfeed]
    rfl
  obtain ⟨e', hnot⟩ := startSectionFiltering_not (.inr hlist)
  have hvalid := ((hsound.owning_valid hk i).ask.releaseSec htype).ask
  have htouches : Touches dev ((dev.owning i k).asked.releasing k).asked i (some k) none := by
    refine touches_trans (touches_owning dev i k) (touches_trans (touches_asked _) ?_)
    refine touches_feed _ (fun k' hk' => ?_) (fun k' hk' => ?_) ?_
    · exact (releaseSectionFeed_others _ hk').1
    · exact (releaseSectionFeed_others _ hk').2
    · exact releaseSectionFeed_sectionFilter
  rw [heq, owning_restart hnone hidle, hnot]
  refine starts_failed (fun h => hidle h.2) htouches hvalid (fun _ _ _ _ _ => nofun) ?_ ?_ ?_ ?_ ?_ ?_
  · rintro j k' g - huses heq'
    exact huses.ne_of_free hk (Option.some.inj heq')
  · rintro k' heq'
    cases heq'
    exact hfiltering
  · simp [asked, releasing, owning]
  · simp [asked, releasing, owning]
  · simp [asked, releasing, owning]
  · simpa [asked, releasing, owning] using hidle

/-- A filter that has got a section filter and whose feed has been started. -/
theorem uses_serving (hsec : (dev.filter i).sec = some k)
    (htype : (dev.demux.feedarray k).type = .sec)
    (hpid : (dev.demux.feedarray k).pid = (dev.filter i).params.pid)
    (hlisted : k ∈ dev.demux.outputFeedList (dev.demux.feedarray k).parentFeeds)
    (hcrc : dev.checkCrc k = (dev.filter i).params.checkCrc) :
    (((dev.taking i k f).serving k).setState i .go).Uses i k f := by
  constructor
  · simpa [setState, setFile, serving, taking] using hsec
  · simp [setState, setFile, serving, taking]
  · simpa [setState, setFile, serving, taking, filtering, filtered] using htype
  · simp [setState, setFile, serving, taking, filtering]
  · simp [setState, setFile, serving, taking, filtering]
  · simpa [setState, setFile, serving, taking, filtering, filtered] using hpid
  · have hparent : ((((dev.taking i k f).serving k).setState i .go).demux.feedarray k).parentFeeds =
        (dev.demux.feedarray k).parentFeeds := by
      simp [setState, setFile, serving, taking, filtering, filtered]
    rw [hparent]
    exact hlisted
  · simpa [setState, setFile, serving, taking] using hcrc
  · simp [setState, setFile, serving, taking, filtering, filtered]
  · simp [setState, setFile, serving, taking, filtering, filtered, NeumoDvbDemux.setSectionFilter]
  · simp [setState, setFile, serving, taking, filtering, filtered, NeumoDvbDemux.setSectionFilter]
  · simp [setState, setFile, serving, taking]
  · exact ⟨dev.secfilter f, by simp [setState, setFile, serving, taking]⟩

theorem Sound.starts_own (hsound : dev.Sound) (hi : i < dev.filternum)
    (hidle : ¬.go ≤ (dev.filter i).state) (hnone : dev.firstOther i = none)
    (hk : (dev.demux.feedarray k).state = .free)
    (hcan : (dev.owning i k).demux.answer.interrupted = false)
    (hsome : (dev.owning i k).demux.sectionFilterAlloc = some f) :
    Starts dev ((dev.owning i k).startSecfilter i k) i := by
  have hfeed := owning_feed dev i k
  obtain ⟨-, hlisted⟩ := openedSec_lists dev.demux.ask k (dev.filter i).params.pid
    ((dev.filter i).currentFeeds.getD .default)
  have hf : (dev.demux.sectionFilter f).state = .free := by
    have hfree := sectionFilterAlloc_free hsome
    rwa [owning, openedSec_sectionFilter] at hfree
  have hown : ∀ j k' g, dev.Started j → dev.Uses j k' g → some g ≠ some f :=
    fun j k' g _ huses heq => huses.filter_ne_of_free hf (Option.some.inj heq)
  have hunused : ∀ j k' g, dev.Started j → dev.Uses j k' g → some k' ≠ some k :=
    fun j k' g _ huses heq => huses.ne_of_free hk (Option.some.inj heq)
  have htaking : Touches dev ((dev.owning i k).taking i k f) i (some k) (some f) :=
    touches_trans (touches_owning dev i k) (touches_taking _ i k f)
  have hvalid := Valid.taking (hsound.owning_valid hk i) i k f
  rw [startSecfilter_some hcan hsome]
  rcases startSectionFiltering_result ((dev.owning i k).taking i k f) k with ⟨e, heq⟩ | heq
  · rw [heq]
    refine starts_failed (fun h => hidle h.2) (touches_trans htaking (touches_asked _)) hvalid.ask
      hown hunused ?_ ?_ ?_ ?_ ?_
    · rintro k' heq'
      cases heq'
      simp [asked, taking, filtered, hfeed, secFeed]
    · simp [asked, taking, owning]
    · simp [asked, taking, owning]
    · simp [asked, taking, owning]
    · simpa [asked, taking, owning] using hidle
  · rw [heq]
    have huses : ((((dev.owning i k).taking i k f).serving k).setState i .go).Uses i k f := by
      refine uses_serving ?_ ?_ ?_ ?_ ?_
      · simp [owning]
      · rw [hfeed]
        rfl
      · rw [hfeed]
        simp [owning, secFeed]
      · rw [hfeed]
        exact hlisted
      · simp [owning]
    have hlist : ((((((dev.owning i k).taking i k f).serving k).setState i .go).demux.feedarray
        k).sectionFilter) = [f] := by
      simp [setState, setFile, serving, filtering, taking, filtered, hfeed, secFeed]
    have hstarted : ((((dev.owning i k).taking i k f).serving k).setState i .go).Started i := by
      refine ⟨hi, ?_⟩
      simp only [setState, setFile, update_self]
      decide
    refine ⟨⟨some k, some f, ?_, ?_⟩, ?_, ?_, ?_, ?_, by rintro ⟨⟩, ?_⟩
    · exact touches_trans htaking (touches_trans (touches_serving _ k) (touches_setFile _ i _))
    · refine ⟨Valid.filtering hvalid k, fun j k' g _ => hown j k' g,
        fun _ _ h => absurd h.2 hidle,
        fun j k' g _ h heq' huses' => absurd heq' (hunused j k' g h huses'),
        fun j k' g _ h heq' huses' => absurd heq' (hunused j k' g h huses'), ?_, ?_, ?_⟩
      · rintro k' heq' -
        cases heq'
        rw [hlist]
        exact List.nodup_singleton f
      · rintro k' heq' - g hg
        cases heq'
        rw [hlist, List.mem_singleton] at hg
        subst hg
        exact ⟨i, hstarted, huses⟩
      · rintro -
        refine ⟨k, f, rfl, huses, fun j hj h hpid => ?_⟩
        refine absurd (hpid.trans ?_) (firstOther_none hnone hj h)
        simp [setState, setFile, serving, taking, owning]
    · simp [setState, setFile, serving, taking, owning]
    · simp [setState, setFile, serving, taking, owning]
    · simp [setState, setFile, serving, taking, owning]
    · simp [setState, setFile, Except.isOk, Except.toBool]
    · rintro - k' hk'
      rw [huses.sec] at hk'
      cases hk'
      simp [setState, setFile, serving, filtering, taking, filtered, hfeed, secFeed]

/-! ### A feed of others -/

/-- The device where filter `i` has taken over the feed `k`, which is stopped. -/
def joining (dev : SecDevice) (i : ℕ) (k : SecFeedNo) : SecDevice :=
  { dev with
    filter := update dev.filter i { dev.filter i with sec := some k, state := .setPes }
    demux := dev.demux.stopSectionFiltering k }

theorem startFeed_some (hfound : dev.found i = some k) :
    dev.startFeed i = (dev.joining i k).startSecfilter i k := by
  have hsec : (((dev.setFile i { dev.filter i with sec := some k }).setState i .setPes).filter
      i).sec = some k := by
    simp [setState, setFile]
  have hjoining : (dev.setFile i { dev.filter i with sec := some k }).feedStop i =
      dev.joining i k := by
    rw [feedStop, hsec]
    simp [joining, setState, setFile]
  rw [startFeed, hfound]
  dsimp only
  rw [hjoining]

theorem joining_feed (dev : SecDevice) (i : ℕ) (k : SecFeedNo) :
    (dev.joining i k).demux.feedarray k =
      { dev.demux.feedarray k with state := .ready, isFiltering := false } := by
  simp [joining, NeumoDvbDemux.stopSectionFiltering]

theorem touches_joining (dev : SecDevice) (i : ℕ) (k : SecFeedNo) :
    Touches dev (dev.joining i k) i (some k) m := by
  refine ⟨rfl, fun _ hj => update_of_ne hj .., fun k' hk => update_of_ne ?_ .., fun _ _ _ => Iff.rfl,
    fun _ _ => ⟨rfl, rfl⟩, fun _ _ => ⟨rfl, rfl, rfl⟩, rfl⟩
  exact fun heq => hk (congrArg some heq)

theorem Sound.joining_valid (hsound : dev.Sound) (i : ℕ) (k : SecFeedNo) :
    Valid (dev.joining i k).demux :=
  hsound.valid.change (fun _ => nofun) rfl rfl rfl rfl

/-- A feed that can be started is started. -/
theorem startSectionFiltering_serving (hstarts : dev.StartsAfter 0)
    (hidle : (dev.demux.feedarray k).isFiltering = false)
    (hmem : g ∈ (dev.demux.feedarray k).sectionFilter) :
    dev.startSectionFiltering k = (.ok (), dev.serving k) :=
  startSectionFiltering_ok hstarts hidle (List.ne_nil_of_mem hmem)

/-- Without a section filter the feed is started again for the others. -/
theorem joining_restart (huses : dev.Uses j k g) (hsome : dev.firstOther i = some j)
    (hgo : (dev.filter j).state = .go) (hstarts : dev.StartsAfter 1) :
    (dev.joining i k).asked.feedRestart i = (dev.joining i k).asked.serving k := by
  obtain ⟨hji, -, -⟩ := firstOther_some hsome
  have hpid : ((dev.joining i k).asked.filter i).params.pid = (dev.filter i).params.pid := by
    simp [asked, joining]
  have hfirst : (dev.joining i k).asked.first (dev.filter i).params.pid = dev.firstOther i := by
    refine first_eq rfl (fun j hj => update_of_ne hj ..) ?_
    simp only [asked, joining, update_self]
    decide
  have hfile : (dev.joining i k).asked.filter j = dev.filter j := update_of_ne hji ..
  have hfeed : (dev.joining i k).asked.demux.feedarray k =
      { dev.demux.feedarray k with state := .ready, isFiltering := false } :=
    joining_feed dev i k
  rw [feedRestart, hpid, hfirst, hsome]
  dsimp only
  rw [feedStart, setState_eq_self (hfile ▸ hgo)]
  rw [hfile, huses.sec]
  dsimp only
  rw [@startSectionFiltering_serving _ k g hstarts (by rw [hfeed]) (by rw [hfeed]; exact huses.mem)]

/-- Where a filter joins others it is enough to look at the filters of the feed. -/
theorem Sound.join_settled (hsound : dev.Sound) (hidle : ¬.go ≤ (dev.filter i).state)
    (hsome : dev.firstOther i = some j) (huses : dev.Uses j k g)
    (ht : Touches dev dev' i (some k) m) (hvalid : Valid dev'.demux)
    (hown : ∀ j k g, dev.Started j → dev.Uses j k g → some g ≠ m) {filters : List SecFilterNo}
    (hfeed : dev'.demux.feedarray k = { dev.demux.feedarray k with
      sectionFilter := filters, isFiltering := true, state := .go })
    (hsub : ∀ g ∈ (dev.demux.feedarray k).sectionFilter, g ∈ filters) (hnodup : filters.Nodup)
    (hlist : dev'.demux.outputFeedList = dev.demux.outputFeedList)
    (hcrc : dev'.checkCrc = dev.checkCrc) (hreceiving : dev'.receiving k = dev.receiving k)
    (hnew : ∀ g ∈ filters, g ∈ (dev.demux.feedarray k).sectionFilter ∨
      dev'.Started i ∧ dev'.Uses i k g)
    (hafter : dev'.Started i → (∃ g, dev'.Uses i k g) ∧
      (dev'.filter i).params = (dev.filter i).params) : Settled dev dev' i (some k) m := by
  obtain ⟨hji, hstarted, hpid⟩ := firstOther_some hsome
  have hothers : ∀ j' g', j' ≠ i → dev.Started j' → dev.Uses j' k g' → dev'.Uses j' k g' := by
    intro j' g' hj' hstarted' huses'
    obtain ⟨hfilter, hpriv, hbytes⟩ := ht.filters g' (hown j' k g' hstarted' huses')
    exact huses'.refilter (ht.files j' hj') hfeed (hsub g' huses'.mem) hlist hcrc hfilter hpriv
      hbytes
  refine ⟨hvalid, fun j' k' g' _ => hown j' k' g', fun _ _ h => absurd h.2 hidle, ?_, ?_, ?_, ?_,
    ?_⟩
  · rintro j' k' g' hj' hstarted' heq huses'
    cases heq
    exact hothers j' g' hj' hstarted' huses'
  · rintro j' k' g' - - heq -
    cases heq
    rw [hfeed]
    exact ⟨rfl, hreceiving⟩
  · rintro k' heq -
    cases heq
    rw [hfeed]
    exact hnodup
  · rintro k' heq - g' hg'
    cases heq
    rw [hfeed] at hg'
    rcases hnew g' hg' with hold | ⟨hstarted', huses'⟩
    · obtain ⟨j', hstarted', huses'⟩ := hsound.owned k huses.filtering g' hold
      have hj' : j' ≠ i := by
        rintro rfl
        exact hidle hstarted'.2
      exact ⟨j', hstarted'.touch ht hj', hothers j' g' hj' hstarted' huses'⟩
    · exact ⟨i, hstarted', huses'⟩
  · intro hstarted'
    obtain ⟨⟨g', huses'⟩, hparams⟩ := hafter hstarted'
    refine ⟨k, g', rfl, huses', fun j' hj' hstarted'' hpid' => ?_⟩
    rw [hparams] at hpid'
    exact (hsound.shared j' j hstarted'' hstarted (hpid'.trans hpid.symm)).trans huses.sec

theorem Sound.joins_unfiltered (hsound : dev.Sound) (hidle : ¬.go ≤ (dev.filter i).state)
    (hsome : dev.firstOther i = some j) (huses : dev.Uses j k g)
    (hquiet : dev.receiving k = false) (hcan : ¬dev.CanFilter) (hgo : (dev.filter j).state = .go)
    (hstarts : dev.StartsAfter 1) : Starts dev ((dev.joining i k).startSecfilter i k) i := by
  have hcan' : ¬(dev.joining i k).CanFilter := hcan
  obtain ⟨e, heq⟩ := @startSecfilter_none _ i k hcan'
  have hrestart := joining_restart huses hsome hgo hstarts
  have hfiltering : (((dev.joining i k).asked.serving k).demux.feedarray k).isFiltering = true := by
    simp [serving, filtering]
  obtain ⟨e', hnot⟩ := startSectionFiltering_not (.inl hfiltering)
  have htouches : Touches dev ((dev.joining i k).asked.serving k).asked i (some k) none :=
    touches_trans (touches_joining dev i k)
      (touches_trans (touches_asked _) (touches_trans (touches_serving _ k) (touches_asked _)))
  have hvalid := (Valid.filtering (hsound.joining_valid i k).ask k).ask
  have hstate : ¬.go ≤ (((dev.joining i k).asked.serving k).asked.filter i).state := by
    simp only [asked, serving, joining, update_self]
    decide
  have hfeed : ((dev.joining i k).asked.serving k).asked.demux.feedarray k =
      { dev.demux.feedarray k with
        sectionFilter := (dev.demux.feedarray k).sectionFilter, isFiltering := true, state := .go } := by
    simp [asked, serving, filtering, joining, NeumoDvbDemux.stopSectionFiltering]
  have hreceiving : ((dev.joining i k).asked.serving k).asked.receiving k = dev.receiving k :=
    (update_self ..).trans hquiet.symm
  rw [heq, hrestart, hnot]
  refine ⟨⟨some k, none, htouches, ?_⟩, ?_, ?_, ?_, ?_, fun _ => hstate, by rintro ⟨⟩⟩
  · exact hsound.join_settled hidle hsome huses htouches hvalid (fun _ _ _ _ _ => by rintro ⟨⟩) hfeed
      (fun _ hg => hg) (hsound.nodup k huses.filtering) rfl rfl hreceiving (fun _ hg => .inl hg)
      fun h => absurd h.2 hstate
  · simp [asked, serving, joining]
  · simp [asked, serving, joining]
  · simp [asked, serving, joining]
  · exact ⟨fun h => absurd (go_le_of_eq h) hstate, by rintro ⟨⟩⟩

theorem Sound.joins (hsound : dev.Sound) (hi : i < dev.filternum)
    (hidle : ¬.go ≤ (dev.filter i).state) (hsome : dev.firstOther i = some j)
    (huses : dev.Uses j k g) (hquiet : dev.receiving k = false) (hcan : dev.CanFilter)
    (hcrc : dev.checkCrc k = (dev.filter i).params.checkCrc)
    (hparent : (dev.demux.feedarray k).parentFeeds = (dev.filter i).currentFeeds.getD .default)
    (hstarts : dev.StartsAfter 1) : Starts dev ((dev.joining i k).startSecfilter i k) i := by
  obtain ⟨hanswer, halloc⟩ := hcan
  obtain ⟨f, hsomef⟩ := Option.ne_none_iff_exists'.mp halloc
  obtain ⟨hji, hstarted, hpid⟩ := firstOther_some hsome
  have hf : (dev.demux.sectionFilter f).state = .free := sectionFilterAlloc_free hsomef
  have hown : ∀ j k' g, dev.Started j → dev.Uses j k' g → some g ≠ some f :=
    fun j k' g _ huses heq => huses.filter_ne_of_free hf (Option.some.inj heq)
  have hnew : f ∉ (dev.demux.feedarray k).sectionFilter := by
    intro hmem
    obtain ⟨j', -, huses'⟩ := hsound.owned k huses.filtering f hmem
    exact huses'.taken hf
  have hidle' : (((dev.joining i k).taking i k f).demux.feedarray k).isFiltering = false := by
    simp [taking, filtered, joining_feed]
  have hmem : f ∈ (((dev.joining i k).taking i k f).demux.feedarray k).sectionFilter := by
    simp [taking, filtered]
  have hstart : ((dev.joining i k).taking i k f).startSectionFiltering k =
      (.ok (), ((dev.joining i k).taking i k f).serving k) :=
    startSectionFiltering_serving hstarts hidle' hmem
  have hfeed := joining_feed dev i k
  have huses' : ((((dev.joining i k).taking i k f).serving k).setState i .go).Uses i k f := by
    refine uses_serving ?_ ?_ ?_ ?_ ?_
    · simp [joining]
    · rw [hfeed]
      exact huses.type
    · rw [hfeed]
      simpa [joining] using huses.pid.trans hpid
    · rw [hfeed]
      exact huses.listed
    · simpa [joining] using hcrc
  have hstarted' : ((((dev.joining i k).taking i k f).serving k).setState i .go).Started i := by
    refine ⟨hi, ?_⟩
    simp only [setState, setFile, update_self]
    decide
  have htouches : Touches dev ((((dev.joining i k).taking i k f).serving k).setState i .go) i
      (some k) (some f) :=
    touches_trans (touches_joining dev i k) (touches_trans (touches_taking _ i k f)
      (touches_trans (touches_serving _ k) (touches_setFile _ i _)))
  have hvalid := Valid.filtering (Valid.taking (hsound.joining_valid i k) i k f) k
  have hfeed' : ((((dev.joining i k).taking i k f).serving k).setState i .go).demux.feedarray k =
      { dev.demux.feedarray k with
        sectionFilter := f :: (dev.demux.feedarray k).sectionFilter
        isFiltering := true, state := .go } := by
    simp [setState, setFile, serving, filtering, taking, filtered, hfeed]
  have hreceiving : ((((dev.joining i k).taking i k f).serving k).setState i .go).receiving k =
      dev.receiving k :=
    (update_self ..).trans hquiet.symm
  have hparams : (((((dev.joining i k).taking i k f).serving k).setState i .go).filter i).params =
      (dev.filter i).params := by
    simp [setState, setFile, serving, taking, joining]
  have hanswer' : (dev.joining i k).demux.answer.interrupted = false := hanswer
  have hsomef' : (dev.joining i k).demux.sectionFilterAlloc = some f := hsomef
  rw [startSecfilter_some hanswer' hsomef', hstart]
  refine ⟨⟨some k, some f, htouches, ?_⟩, hparams, ?_, ?_, ?_, by rintro ⟨⟩, ?_⟩
  · refine hsound.join_settled hidle hsome huses htouches hvalid hown hfeed'
      (fun _ hg => List.mem_cons_of_mem _ hg) ?_ rfl rfl hreceiving (fun g' hg' => ?_)
      fun _ => ⟨⟨f, huses'⟩, hparams⟩
    · exact List.nodup_cons.mpr ⟨hnew, hsound.nodup k huses.filtering⟩
    · rcases List.mem_cons.mp hg' with rfl | hold
      · exact .inr ⟨hstarted', huses'⟩
      · exact .inl hold
  · simp [setState, setFile, serving, taking, joining]
  · simp [setState, setFile, serving, taking, joining]
  · simp [setState, setFile, Except.isOk, Except.toBool]
  · rintro - k' hk'
    rw [huses'.sec] at hk'
    cases hk'
    rw [hfeed']
    exact ⟨hparent, update_self ..⟩

end SecDevice

end Dmx

import NeumoDrivers.Dmxdev.SharedStart

/-! Section filters on one pid do not disturb each other (`neumo-dmxdev.c`, `neumo-dvb-demux.c`).

    What a filter gets is compared with what it would get by itself. They agree as long as filters
    that share a feed want the same of it, and the feed is started again for those that are left. -/

namespace Dmx
open Function
open Demux (FeedsNo DmxFilter DmxSectionFilter)

variable {dev dev' : SecDevice} {i j : ℕ} {k k' : SecFeedNo} {f g : SecFilterNo}
  {a : Alone} {parent : FeedsNo} {pid : ℕ} {buf : SectionBytes}

/-- A filter of the device is as it would be by itself. -/
structure Alone.Fits (a : Alone) (dev : SecDevice) (i : ℕ) : Prop where
  currentFeeds : (dev.filter i).currentFeeds = a.currentFeeds
  params : .setPes ≤ (dev.filter i).state → (dev.filter i).params = a.params
  filter : .setPes ≤ (dev.filter i).state → (dev.filter i).filter = Demux.invertMode a.filter
  running : a.running = true ↔ (dev.filter i).state = .go
  parent : .go ≤ (dev.filter i).state → ∀ k ∈ (dev.filter i).sec,
    (dev.demux.feedarray k).parentFeeds = a.parent
  seen : (dev.filter i).state = .go → ∀ k ∈ (dev.filter i).sec, dev.receiving k = a.seen

/-- What a call for filter `i` does to the others. -/
structure Keeps (dev dev' : SecDevice) (i : ℕ) : Prop where
  sound : dev'.Sound
  filternum : dev'.filternum = dev.filternum
  checkCrc32 : dev'.checkCrc32 = dev.checkCrc32
  files : ∀ j, j ≠ i → dev'.filter j = dev.filter j
  heard : ∀ j, j ≠ i → dev.Started j → ∀ k ∈ (dev.filter j).sec,
    (dev'.demux.feedarray k).parentFeeds = (dev.demux.feedarray k).parentFeeds ∧
      dev'.receiving k = dev.receiving k

/-- What a call does to the filter it is for, beside starting or stopping it. -/
structure Same (dev dev' : SecDevice) (i : ℕ) : Prop where
  params : (dev'.filter i).params = (dev.filter i).params
  filter : (dev'.filter i).filter = (dev.filter i).filter
  currentFeeds : (dev'.filter i).currentFeeds = (dev.filter i).currentFeeds
  set : .setPes ≤ (dev'.filter i).state → .setPes ≤ (dev.filter i).state

namespace SecDevice

variable {l : Option SecFeedNo} {m : Option SecFilterNo}

theorem Sound.keeps (h : dev.Sound) (ht : Touches dev dev' i l m) (hs : Settled dev dev' i l m) :
    Keeps dev dev' i := by
  refine ⟨h.settle ht hs, ht.filternum, ht.checkCrc32, ht.files, fun j hj hstarted k hk => ?_⟩
  obtain ⟨k', g, huses⟩ := h.uses j hstarted
  have hk' : k' = k := Option.some.inj (huses.sec.symm.trans hk)
  subst hk'
  by_cases hl : some k' = l
  · exact hs.heard j k' g hj hstarted hl huses
  · rw [ht.feeds k' hl]
    exact ⟨rfl, (ht.flags k' hl).2⟩

theorem Sound.keeps_refl (h : dev.Sound) (i : ℕ) : Keeps dev dev i :=
  ⟨h, rfl, rfl, fun _ _ => rfl, fun _ _ _ _ _ => ⟨rfl, rfl⟩⟩

theorem keeps_trans {dev'' : SecDevice} (h : Keeps dev dev' i) (h' : Keeps dev' dev'' i) :
    Keeps dev dev'' i := by
  refine ⟨h'.sound, h'.filternum.trans h.filternum, h'.checkCrc32.trans h.checkCrc32,
    fun j hj => (h'.files j hj).trans (h.files j hj), fun j hj hstarted k hk => ?_⟩
  have hstarted' : dev'.Started j := by
    rw [Started, h.files j hj, h.filternum]
    exact hstarted
  obtain ⟨hparent, hreceiving⟩ := h.heard j hj hstarted k hk
  obtain ⟨hparent', hreceiving'⟩ := h'.heard j hj hstarted' k (by rwa [h.files j hj])
  exact ⟨hparent'.trans hparent, hreceiving'.trans hreceiving⟩

theorem setFile_self (dev : SecDevice) (i : ℕ) (file : SecFile) :
    (dev.setFile i file).filter i = file :=
  update_self ..

/-- A filter that is not started is changed. -/
theorem Sound.setFile (h : dev.Sound) (hidle : ¬.go ≤ (dev.filter i).state) {file : SecFile}
    (hfile : ¬.go ≤ file.state) : Keeps dev (dev.setFile i file) i := by
  have hafter : ¬.go ≤ ((dev.setFile i file).filter i).state := by
    rwa [setFile_self]
  refine @Sound.keeps _ _ _ none none h (touches_setFile dev i file) ⟨h.valid,
    fun _ _ _ _ _ _ => nofun, fun _ _ hstarted => absurd hstarted.2 hidle,
    fun _ _ _ _ _ => nofun, fun _ _ _ _ _ => nofun, fun _ => nofun, fun _ => nofun,
    fun hstarted => absurd hstarted.2 hafter⟩

/-! ### The calls -/

theorem Sound.stop (h : dev.Sound) (hi : i < dev.filternum) (hkept : dev.StopKept i) :
    Keeps dev (dev.filterStop i) i ∧ Same dev (dev.filterStop i) i ∧
      ¬.go ≤ ((dev.filterStop i).filter i).state ∧
      ((dev.filterStop i).filter i).data = (dev.filter i).data := by
  by_cases hgo : .go ≤ (dev.filter i).state
  · have hstarted : dev.Started i := ⟨hi, hgo⟩
    obtain ⟨k, f, huses⟩ := h.uses i hstarted
    have hset : NeumoDmxdevState.setPes ≤ (dev.filter i).state :=
      Nat.le_trans (by decide) hgo
    have hstopped : ∀ demux, Same dev (dev.stopped i demux) i ∧
        ¬.go ≤ ((dev.stopped i demux).filter i).state ∧
        ((dev.stopped i demux).filter i).data = (dev.filter i).data := by
      intro demux
      rw [stopped_self]
      refine ⟨⟨?_, ?_, ?_, fun _ => hset⟩, fun hgo' => ?_, rfl⟩
      · rw [stopped_self]
      · rw [stopped_self]
      · rw [stopped_self]
      · rw [← stopped_self dev i demux] at hgo'
        exact not_started_stopped i demux ⟨hi, hgo'⟩
    cases hfirst : dev.firstOther i with
    | none =>
      have hsettled := h.stop_last huses hstarted hfirst
      rw [filterStop_last huses hstarted hfirst] at hsettled ⊢
      exact ⟨h.keeps (touches_last i k f) hsettled, hstopped _⟩
    | some j =>
      obtain ⟨hstop, hsettled⟩ := h.stop_shared huses hstarted hkept hfirst
      rw [hstop] at hsettled ⊢
      exact ⟨h.keeps (touches_shared i k f) hsettled, hstopped _⟩
  · have hstop : dev.filterStop i = dev := by
      rw [filterStop, if_pos (NeumoDmxdevState.not_le.mp hgo)]
    rw [hstop]
    exact ⟨h.keeps_refl i, ⟨rfl, rfl, rfl, id⟩, hgo, rfl⟩

theorem found_eq (hidle : ¬.go ≤ (dev.filter i).state) :
    dev.found i = (dev.firstOther i).bind fun j => (dev.filter j).sec := by
  rw [found, first_eq rfl (fun _ _ => rfl) hidle]

theorem Sound.starts (h : dev.Sound) (hi : i < dev.filternum)
    (hidle : ¬.go ≤ (dev.filter i).state) (hkept : dev.StartKept i) :
    Starts dev (dev.startFeed i) i := by
  cases hfirst : dev.firstOther i with
  | none =>
    have hfound : dev.found i = none := by
      rw [found_eq hidle, hfirst]
      rfl
    have hnot : ¬dev.Started i := fun hstarted => hidle hstarted.2
    have hown : ∀ j k g, dev.Started j → dev.Uses j k g → some g ≠ none := fun _ _ _ _ _ => nofun
    have hunused : ∀ j k g, dev.Started j → dev.Uses j k g → some k ≠ none := fun _ _ _ _ _ => nofun
    have hfeed : ∀ k, some k = none → (dev.demux.feedarray k).isFiltering = false := fun _ => nofun
    rcases startFeed_none hfound with ⟨e, heq | heq⟩ | ⟨k, hk, heq⟩
    · rw [heq]
      exact starts_failed hnot (touches_refl dev) h.valid hown hunused hfeed rfl rfl rfl hidle
    · rw [heq]
      exact starts_failed hnot (touches_asked dev) h.valid.ask hown hunused hfeed rfl rfl rfl hidle
    · rw [heq]
      by_cases hcan : (dev.owning i k).CanFilter
      · obtain ⟨f, hf⟩ := Option.ne_none_iff_exists'.mp hcan.2
        exact h.starts_own hi hidle hfirst hk hcan.1 hf
      · exact h.starts_unfiltered hidle hfirst hk hcan
  | some j =>
    obtain ⟨hji, hstarted, hpid⟩ := firstOther_some hfirst
    obtain ⟨k, g, huses⟩ := h.uses j hstarted
    have hfound : dev.found i = some k := by
      rw [found_eq hidle, hfirst]
      exact huses.sec
    obtain ⟨hquiet, hstarts, hcan, hcannot⟩ := hkept j hfirst k huses.sec
    rw [startFeed_some hfound]
    by_cases hfilter : dev.CanFilter
    · obtain ⟨hcrc, hparent⟩ := hcan hfilter
      exact h.joins hi hidle hfirst huses hquiet hfilter hcrc hparent hstarts
    · exact h.joins_unfiltered hidle hfirst huses hquiet hfilter (hcannot hfilter) hstarts

theorem startKept_prepare (h : dev.StartKept i) : (dev.prepare i).StartKept i := by
  have hfiles : ∀ j, j ≠ i → (dev.prepare i).filter j = dev.filter j :=
    fun j hj => update_of_ne hj ..
  have hparams : ((dev.prepare i).filter i).params = (dev.filter i).params := by
    simp [prepare, setFile]
  have hcurrent : ((dev.prepare i).filter i).currentFeeds = (dev.filter i).currentFeeds := by
    simp [prepare, setFile]
  have hfirst : (dev.prepare i).firstOther i = dev.firstOther i := by
    rw [firstOther, firstOther, hparams]
    congr 1
    funext j
    by_cases hj : j = i
    · simp [hj]
    · rw [hfiles j hj]
  intro j hj k hk
  rw [hfirst] at hj
  obtain ⟨hji, -, -⟩ := firstOther_some hj
  rw [hfiles j hji] at hk
  rw [hparams, hcurrent, hfiles j hji]
  exact h j hj k hk

/-- A start, with its result. -/
structure StartOk (dev : SecDevice) (r : Except Errno Unit × SecDevice) (i : ℕ) : Prop where
  keeps : Keeps dev r.2 i
  same : Same dev r.2 i
  go : (r.2.filter i).state = .go ↔ r.1.isOk = true
  stopped : r.1.isOk = false → ¬.go ≤ (r.2.filter i).state
  parent : r.1.isOk = true → ∀ k ∈ (r.2.filter i).sec,
    (r.2.demux.feedarray k).parentFeeds = (dev.filter i).currentFeeds.getD .default ∧
      r.2.receiving k = false

theorem startOk_error (h : Keeps dev dev' i) (hsame : Same dev dev' i) (e : Errno)
    (hidle : ¬.go ≤ (dev'.filter i).state) : StartOk dev (.error e, dev') i :=
  ⟨h, hsame, ⟨fun hgo => absurd (go_le_of_eq hgo) hidle, nofun⟩, fun _ => hidle, nofun⟩

theorem Sound.start (h : dev.Sound) (hi : i < dev.filternum) {memory : Bool}
    (hkept : (SecAct.start i memory).Kept dev) : StartOk dev (dev.filterStart i memory) i := by
  rw [filterStart]
  split
  · rename_i hlt
    have hidle : ¬.go ≤ (dev.filter i).state :=
      NeumoDmxdevState.not_le.mpr (Nat.lt_trans hlt setPes_lt_go)
    exact startOk_error (h.keeps_refl i) ⟨rfl, rfl, rfl, id⟩ _ hidle
  · rename_i hset
    obtain ⟨hstopKept, hstartKept⟩ := hkept (NeumoDmxdevState.not_lt.mp hset)
    obtain ⟨hkeeps, hsame, hidle, hdata⟩ := h.stop hi hstopKept
    dsimp only
    split
    · exact startOk_error hkeeps hsame _ hidle
    · rename_i hmemory
      rw [hdata] at hmemory
      have hstartKept' := startKept_prepare (hstartKept (by simpa [imp_iff_not_or] using hmemory))
      have hidle' : ¬.go ≤ (((dev.filterStop i).prepare i).filter i).state := by
        simpa [prepare, SecDevice.setFile] using hidle
      have hprepare : Keeps (dev.filterStop i) ((dev.filterStop i).prepare i) i :=
        hkeeps.sound.setFile hidle hidle
      have hi' : i < ((dev.filterStop i).prepare i).filternum := by
        rw [hprepare.filternum, hkeeps.filternum]
        exact hi
      obtain ⟨⟨l, m, htouches, hsettled⟩, hparams, hfilter, hcurrent, hgo, hstopped, hparent⟩ :=
        hprepare.sound.starts hi' hidle' hstartKept'
      have hfile : ((dev.filterStop i).prepare i).filter i = { (dev.filterStop i).filter i with
          data := true, sec := none, secfilter := none } :=
        setFile_self ..
      rw [hfile] at hparams hfilter hcurrent hparent
      refine ⟨keeps_trans hkeeps (keeps_trans hprepare (hprepare.sound.keeps htouches hsettled)),
        ⟨hparams.trans hsame.params, hfilter.trans hsame.filter,
          hcurrent.trans hsame.currentFeeds, fun _ => NeumoDmxdevState.not_lt.mp hset⟩,
        hgo, hstopped, ?_⟩
      rw [← hsame.currentFeeds]
      exact hparent

/-! ### Sections -/

/-- A device in which nothing but the states of filters that stay started, and what is being
    received, is another. -/
theorem Sound.same (h : dev.Sound) (hn : dev'.filternum = dev.filternum)
    (hdemux : dev'.demux = dev.demux) (hcrc : dev'.checkCrc = dev.checkCrc)
    (hbytes : dev'.secfilter = dev.secfilter) (hpriv : dev'.priv = dev.priv)
    (hfiles : ∀ i, (dev'.filter i).sec = (dev.filter i).sec ∧
      (dev'.filter i).secfilter = (dev.filter i).secfilter ∧
      (dev'.filter i).params = (dev.filter i).params ∧
      (dev'.filter i).filter = (dev.filter i).filter ∧
      (.go ≤ (dev'.filter i).state ↔ .go ≤ (dev.filter i).state)) : dev'.Sound := by
  have huses : ∀ {i k f}, dev.Uses i k f → dev'.Uses i k f := by
    intro i k f huses
    obtain ⟨hsec, hsecfilter, hparams, hfilter, -⟩ := hfiles i
    constructor
    · rw [hsec]
      exact huses.sec
    · rw [hsecfilter]
      exact huses.secfilter
    · rw [hdemux]
      exact huses.type
    · rw [hdemux]
      exact huses.state
    · rw [hdemux]
      exact huses.filtering
    · rw [hdemux, hparams]
      exact huses.pid
    · rw [hdemux]
      exact huses.listed
    · rw [hcrc, hparams]
      exact huses.crc
    · rw [hdemux]
      exact huses.mem
    · rw [hdemux]
      exact huses.taken
    · rw [hdemux]
      exact huses.feed
    · rw [hpriv]
      exact huses.priv
    · rw [hbytes, hfilter]
      exact huses.bytes
  have hstarted : ∀ i, dev'.Started i ↔ dev.Started i := by
    intro i
    obtain ⟨-, -, -, -, hgo⟩ := hfiles i
    rw [Started, Started, hn, hgo]
  refine ⟨?_, fun i hi => ?_, fun i j hi hj hpid => ?_, ?_, fun k hk f hf => ?_⟩
  · rw [hdemux]
    exact h.valid
  · obtain ⟨k, f, hkf⟩ := h.uses i ((hstarted i).mp hi)
    exact ⟨k, f, huses hkf⟩
  · obtain ⟨hsec, -, hparams, -, -⟩ := hfiles i
    obtain ⟨hsec', -, hparams', -, -⟩ := hfiles j
    rw [hparams, hparams'] at hpid
    rw [hsec, hsec']
    exact h.shared i j ((hstarted i).mp hi) ((hstarted j).mp hj) hpid
  · rw [hdemux]
    exact h.nodup
  · rw [hdemux] at hk hf
    obtain ⟨i, hi, hkf⟩ := h.owned k hk f hf
    exact ⟨i, (hstarted i).mpr hi, huses hkf⟩

/-- The section filter of a feed that is filtering is used by the filter in it. -/
theorem Sound.uses_priv (h : dev.Sound) (hk : (dev.demux.feedarray k).isFiltering = true)
    (hf : f ∈ (dev.demux.feedarray k).sectionFilter) :
    dev.Started (dev.priv f) ∧ dev.Uses (dev.priv f) k f := by
  obtain ⟨i, hstarted, huses⟩ := h.owned k hk f hf
  rw [huses.priv]
  exact ⟨hstarted, huses⟩

theorem mem_swfilterSectionFeed : f ∈ dev.swfilterSectionFeed buf k ↔
    ¬(dev.checkCrc k = true ∧ wrongCrc dev.checkCrc32 buf = true) ∧
      f ∈ (dev.demux.feedarray k).sectionFilter ∧
      Demux.filterPasses buf (dev.secfilter f).prepared = true := by
  rw [swfilterSectionFeed]
  split
  · rename_i hdiscard
    simp [hdiscard]
  · rename_i hkeep
    simp [hkeep]

theorem collects_iff : dev.collects parent pid k = true ↔
    k ∈ dev.demux.outputFeedList parent ∧ (dev.demux.feedarray k).pid = pid ∧
      (dev.demux.feedarray k).isFiltering = true := by
  simp [collects]

theorem mem_called : i ∈ dev.called parent pid buf ↔
    ∃ k, dev.collects parent pid k = true ∧ dev.receiving k = true ∧
      ∃ f ∈ dev.swfilterSectionFeed buf k, dev.priv f = i := by
  simp only [called, List.mem_flatMap, List.mem_filter, List.mem_map, Bool.and_eq_true]
  constructor
  · rintro ⟨k, ⟨-, hcollects, hreceiving⟩, f, hf, hi⟩
    exact ⟨k, hcollects, hreceiving, f, hf, hi⟩
  · rintro ⟨k, hcollects, hreceiving, f, hf, hi⟩
    exact ⟨k, ⟨(collects_iff.mp hcollects).1, hcollects, hreceiving⟩, f, hf, hi⟩

/-- A filter is called back through its own feed and section filter only. -/
theorem Sound.mem_called_iff (h : dev.Sound) (huses : dev.Uses i k f) :
    i ∈ dev.called parent pid buf ↔ dev.collects parent pid k = true ∧ dev.receiving k = true ∧
      f ∈ dev.swfilterSectionFeed buf k := by
  rw [mem_called]
  constructor
  · rintro ⟨k', hcollects, hreceiving, g, hg, hi⟩
    obtain ⟨-, -, hfiltering⟩ := collects_iff.mp hcollects
    obtain ⟨-, hmem, -⟩ := mem_swfilterSectionFeed.mp hg
    obtain ⟨-, huses'⟩ := h.uses_priv hfiltering hmem
    rw [hi] at huses'
    obtain ⟨rfl, rfl⟩ := huses.unique huses'
    exact ⟨hcollects, hreceiving, hg⟩
  · rintro ⟨hcollects, hreceiving, hf⟩
    exact ⟨k, hcollects, hreceiving, f, hf, huses.priv⟩

theorem Sound.called_nodup (h : dev.Sound) : (dev.called parent pid buf).Nodup := by
  have huses : ∀ k, dev.collects parent pid k = true → ∀ f ∈ dev.swfilterSectionFeed buf k,
      dev.Uses (dev.priv f) k f := by
    intro k hk f hf
    obtain ⟨-, -, hfiltering⟩ := collects_iff.mp hk
    exact (h.uses_priv hfiltering (mem_swfilterSectionFeed.mp hf).2.1).2
  have hcollects : ∀ k ∈ (dev.demux.outputFeedList parent).filter fun k =>
      dev.collects parent pid k && dev.receiving k, dev.collects parent pid k = true := by
    intro k hk
    exact (Bool.and_eq_true _ _ ▸ (List.mem_filter.mp hk).2).1
  rw [called, List.nodup_flatMap]
  refine ⟨fun k hk => ?_, ?_⟩
  · have hk' := hcollects k hk
    obtain ⟨-, -, hfiltering⟩ := collects_iff.mp hk'
    have hnodup : (dev.swfilterSectionFeed buf k).Nodup := by
      rw [swfilterSectionFeed]
      split
      · exact List.nodup_nil
      · exact (h.nodup k hfiltering).filter _
    refine hnodup.map_on fun f hf g hg heq => ?_
    have hf' := huses k hk' f hf
    rw [heq] at hf'
    exact (hf'.unique (huses k hk' g hg)).2
  · have hnodup := (h.valid.nodup parent).filter fun k =>
      dev.collects parent pid k && dev.receiving k
    refine List.Pairwise.imp_of_mem ?_ hnodup
    intro k k' hk hk' hne i hi hi'
    obtain ⟨f, hf, rfl⟩ := List.mem_map.mp hi
    obtain ⟨g, hg, heq⟩ := List.mem_map.mp hi'
    have hg' := huses k' (hcollects k' hk') g hg
    rw [heq] at hg'
    exact hne ((huses k (hcollects k hk) f hf).unique hg').1

/-- A filter after the callbacks of `is`. -/
def calledBack (dev : SecDevice) (is : List ℕ) (i : ℕ) : SecFile :=
  if i ∈ is ∧ (dev.filter i).state = .go ∧ (dev.filter i).params.oneshot = true then
    { dev.filter i with state := .done }
  else dev.filter i

/-- The callbacks of filters that are called once. -/
theorem foldl_sectionCallback {is : List ℕ} (hnodup : is.Nodup) : ∀ (got : List ℕ) (dev : SecDevice),
    is.foldl sectionCallback (got, dev) =
      (got ++ is.filter (fun i => (dev.filter i).state = .go),
        { dev with filter := dev.calledBack is }) := by
  induction is with
  | nil =>
    intro got dev
    have hsame : dev.calledBack [] = dev.filter := by
      funext i
      simp [calledBack]
    simp [hsame]
  | cons i is ih =>
    intro got dev
    obtain ⟨hi, hnodup'⟩ := List.nodup_cons.mp hnodup
    have hne : ∀ j ∈ is, j ≠ i := fun j hj heq => hi (heq ▸ hj)
    rw [List.foldl_cons, sectionCallback]
    by_cases hgo : (dev.filter i).state = .go
    · rw [if_neg (not_not.mpr hgo)]
      by_cases honeshot : (dev.filter i).params.oneshot = true
      · rw [if_pos honeshot, ih hnodup']
        have hothers : ∀ j, j ≠ i → (dev.setState i .done).filter j = dev.filter j :=
          fun j hj => update_of_ne hj ..
        have hgot : (is.filter fun j => ((dev.setState i .done).filter j).state = .go) =
            is.filter fun j => (dev.filter j).state = .go := by
          refine List.filter_congr fun j hj => ?_
          rw [hothers j (hne j hj)]
        rw [hgot, List.filter_cons_of_pos (by simpa using hgo), List.append_assoc]
        congr 2
        funext j
        by_cases hj : j = i
        · subst hj
          simp [calledBack, hi, hgo, honeshot, setState, setFile]
        · rw [calledBack, calledBack, hothers j hj]
          simp [hj]
      · rw [if_neg honeshot, ih hnodup', List.filter_cons_of_pos (by simpa using hgo),
          List.append_assoc]
        congr 2
        funext j
        by_cases hj : j = i
        · subst hj
          simp [calledBack, hi, honeshot]
        · simp [calledBack, hj]
    · rw [if_pos hgo, ih hnodup', List.filter_cons_of_neg (by simpa using hgo)]
      congr 2
      funext j
      by_cases hj : j = i
      · subst hj
        simp [calledBack, hi, hgo]
      · simp [calledBack, hj]

end SecDevice

/-! ### A filter by itself -/

/-- What an earlier user has left in a section filter does not matter. -/
theorem passes_any (buf : SectionBytes) (x y : DmxSectionFilter) (user : DmxFilter) :
    Demux.filterPasses buf (Demux.secfilterOf x user) =
      Demux.filterPasses buf (Demux.secfilterOf y user) := by
  have hs : ∀ i < Demux.DVB_DEMUX_MASK_MAX,
      buf i = ((List.range Demux.DVB_DEMUX_MASK_MAX).map buf).getD i 0 := by
    intro i hi
    exact (Demux.map_range_getD buf hi).symm
  rw [Bool.eq_iff_iff, Demux.filterPasses_user hs, Demux.filterPasses_user hs]

theorem hears_iff : a.hears parent pid = true ↔
    a.running = true ∧ a.parent = parent ∧ a.params.pid = pid := by
  simp [Alone.hears]

namespace Alone

/-- A feed collects what its users hear. -/
theorem Fits.hears_eq (h : a.Fits dev i) (hsound : dev.Sound) (huses : dev.Uses i k f)
    (hgo : (dev.filter i).state = .go) : a.hears parent pid = dev.collects parent pid k := by
  have hparams : (dev.filter i).params = a.params := h.params (by rw [hgo]; decide)
  have hparent := h.parent (SecDevice.go_le_of_eq hgo) k huses.sec
  rw [Bool.eq_iff_iff, hears_iff, SecDevice.collects_iff, ← hparent, ← hparams, ← huses.pid]
  constructor
  · rintro ⟨-, hp, hpid⟩
    exact ⟨hp ▸ huses.listed, hpid, huses.filtering⟩
  · rintro ⟨hmem, hpid, -⟩
    exact ⟨h.running.mpr hgo, (hsound.valid.listed parent k hmem).2, hpid⟩

/-- A filter gets what it would get by itself. -/
theorem Fits.receives_iff (h : a.Fits dev i) (hsound : dev.Sound) (hi : i < dev.filternum) :
    a.receives dev.checkCrc32 parent pid buf = true ↔
      i ∈ dev.called parent pid buf ∧ (dev.filter i).state = .go := by
  by_cases hgo : (dev.filter i).state = .go
  · obtain ⟨k, f, huses⟩ := hsound.uses i ⟨hi, SecDevice.go_le_of_eq hgo⟩
    have hset : NeumoDmxdevState.setPes ≤ (dev.filter i).state := by rw [hgo]; decide
    have hpasses : Demux.filterPasses buf (dev.secfilter f).prepared = Demux.filterPasses buf
        (Demux.secfilterOf ⟨.replicate _ 0, .replicate _ 0, .replicate _ 0⟩ a.filter) := by
      obtain ⟨old, hold⟩ := huses.bytes
      rw [hold, h.filter hset]
      exact passes_any buf old _ a.filter
    rw [hsound.mem_called_iff huses, SecDevice.mem_swfilterSectionFeed, ← h.hears_eq hsound huses hgo,
      h.seen hgo k huses.sec, huses.crc, h.params hset, hpasses]
    simp only [receives, Bool.and_eq_true, Bool.not_eq_true', Bool.and_eq_false_iff, hgo, huses.mem,
      true_and, and_true, not_and_or, Bool.not_eq_true]
    constructor
    · rintro ⟨⟨⟨hhears, hseen⟩, hpass⟩, hcrc⟩
      exact ⟨hhears, hseen, hcrc, hpass⟩
    · rintro ⟨hhears, hseen, hcrc, hpass⟩
      exact ⟨⟨⟨hhears, hseen⟩, hpass⟩, hcrc⟩
  · have hidle : a.running = false := Bool.eq_false_iff.mpr fun hrunning => hgo (h.running.mp hrunning)
    simp [receives, hears, hidle, hgo]

theorem Fits.keeps (h : a.Fits dev j) (hkeeps : Keeps dev dev' i) (hj : j ≠ i)
    (hlt : j < dev.filternum) : a.Fits dev' j := by
  have hfile := hkeeps.files j hj
  constructor
  · rw [hfile]
    exact h.currentFeeds
  · rw [hfile]
    exact h.params
  · rw [hfile]
    exact h.filter
  · rw [hfile]
    exact h.running
  · rw [hfile]
    intro hgo k hk
    exact (hkeeps.heard j hj ⟨hlt, hgo⟩ k hk).1.trans (h.parent hgo k hk)
  · rw [hfile]
    intro hgo k hk
    exact (hkeeps.heard j hj ⟨hlt, SecDevice.go_le_of_eq hgo⟩ k hk).2.trans (h.seen hgo k hk)

theorem Fits.stop (h : a.Fits dev i) (hsame : Same dev dev' i)
    (hidle : ¬.go ≤ (dev'.filter i).state) : a.stop.Fits dev' i := by
  constructor
  · exact hsame.currentFeeds.trans h.currentFeeds
  · exact fun hset => hsame.params.trans (h.params (hsame.set hset))
  · exact fun hset => hsame.filter.trans (h.filter (hsame.set hset))
  · exact ⟨nofun, fun hgo => absurd (SecDevice.go_le_of_eq hgo) hidle⟩
  · exact fun hgo => absurd hgo hidle
  · exact fun hgo => absurd (SecDevice.go_le_of_eq hgo) hidle

theorem Fits.start (h : a.Fits dev i) {r : Except Errno Unit × SecDevice}
    (hstart : SecDevice.StartOk dev r i) : (a.start r.1.isOk).Fits r.2 i := by
  rw [Alone.start]
  cases hok : r.1.isOk with
  | false => exact h.stop hstart.same (hstart.stopped hok)
  | true =>
    have hgo := hstart.go.mpr hok
    constructor
    · exact hstart.same.currentFeeds.trans h.currentFeeds
    · exact fun hset => hstart.same.params.trans (h.params (hstart.same.set hset))
    · exact fun hset => hstart.same.filter.trans (h.filter (hstart.same.set hset))
    · exact ⟨fun _ => hgo, fun _ => rfl⟩
    · rintro - k hk
      have hcurrent := congrArg (fun feeds => feeds.getD .default) h.currentFeeds
      exact (hstart.parent hok k hk).1.trans hcurrent
    · rintro - k hk
      exact (hstart.parent hok k hk).2

end Alone

/-! ### Runs -/

/-- The device is sound, and each filter as it would be by itself. -/
structure Independent (dev : SecDevice) (alone : ℕ → Alone) : Prop where
  sound : dev.Sound
  fits : ∀ i, i < dev.filternum → (alone i).Fits dev i

variable {alone : ℕ → Alone}

theorem Independent.call (h : Independent dev alone) (hkeeps : Keeps dev dev' i)
    (hfits : a.Fits dev' i) : Independent dev' (update alone i a) := by
  refine ⟨hkeeps.sound, fun j hj => ?_⟩
  by_cases hji : j = i
  · subst hji
    rw [update_self]
    exact hfits
  · rw [update_of_ne hji]
    rw [hkeeps.filternum] at hj
    exact (h.fits j hj).keeps hkeeps hji hj

theorem Independent.stop (h : Independent dev alone) (hi : i < dev.filternum)
    (hkept : dev.StopKept i) : Independent (dev.filterStop i) (update alone i (alone i).stop) := by
  obtain ⟨hkeeps, hsame, hidle, -⟩ := h.sound.stop hi hkept
  exact h.call hkeeps ((h.fits i hi).stop hsame hidle)

/-- A filter that is stopped, and then changed. -/
theorem Independent.stop_set (h : Independent dev alone) (hi : i < dev.filternum)
    (hkept : dev.StopKept i) {file : SecFile} (hfile : ¬.go ≤ file.state)
    (hcurrent : file.currentFeeds = a.currentFeeds)
    (hset : .setPes ≤ file.state → file.params = a.params ∧
      file.filter = Demux.invertMode a.filter) (hrunning : a.running = false) :
    Independent ((dev.filterStop i).setFile i file) (update alone i a) := by
  obtain ⟨hkeeps, -, hidle, -⟩ := h.sound.stop hi hkept
  have hkeeps' := SecDevice.keeps_trans hkeeps (hkeeps.sound.setFile hidle hfile)
  refine h.call hkeeps' ?_
  constructor
  · rw [SecDevice.setFile_self]
    exact hcurrent
  · rw [SecDevice.setFile_self]
    exact fun hle => (hset hle).1
  · rw [SecDevice.setFile_self]
    exact fun hle => (hset hle).2
  · rw [SecDevice.setFile_self, hrunning]
    exact ⟨nofun, fun hgo => absurd (SecDevice.go_le_of_eq hgo) hfile⟩
  · rw [SecDevice.setFile_self]
    exact fun hgo => absurd hgo hfile
  · rw [SecDevice.setFile_self]
    exact fun hgo => absurd (SecDevice.go_le_of_eq hgo) hfile

theorem Independent.setCurrentFeeds (h : Independent dev alone) (hi : i < dev.filternum)
    (feeds : Option FeedsNo) :
    Independent (dev.setFile i { dev.filter i with currentFeeds := feeds })
      (update alone i { alone i with currentFeeds := feeds }) := by
  have hfits := h.fits i hi
  have hfile := SecDevice.setFile_self dev i { dev.filter i with currentFeeds := feeds }
  have hothers : ∀ j, j ≠ i →
      (dev.setFile i { dev.filter i with currentFeeds := feeds }).filter j = dev.filter j :=
    fun j hj => update_of_ne hj ..
  have hsound : (dev.setFile i { dev.filter i with currentFeeds := feeds }).Sound := by
    refine h.sound.same rfl rfl rfl rfl rfl fun j => ?_
    by_cases hj : j = i
    · subst hj
      rw [hfile]
      exact ⟨rfl, rfl, rfl, rfl, Iff.rfl⟩
    · rw [hothers j hj]
      exact ⟨rfl, rfl, rfl, rfl, Iff.rfl⟩
  refine h.call ⟨hsound, rfl, rfl, hothers, fun _ _ _ _ _ => ⟨rfl, rfl⟩⟩ ?_
  constructor
  · rw [hfile]
  · rw [hfile]
    exact hfits.params
  · rw [hfile]
    exact hfits.filter
  · rw [hfile]
    exact hfits.running
  · rw [hfile]
    exact hfits.parent
  · rw [hfile]
    exact hfits.seen

theorem free_lt_setPes : NeumoDmxdevState.free < .setPes := by decide

theorem allocated_lt_setPes : NeumoDmxdevState.allocated < .setPes := by decide

theorem go_le_timedout : NeumoDmxdevState.go ≤ .timedout := by decide

theorem go_le_done : NeumoDmxdevState.go ≤ .done := by decide

/-- A filter that is done stays started. -/
theorem Independent.timeout (h : Independent dev alone) (hi : i < dev.filternum)
    (hgo : (dev.filter i).state = .go) :
    Independent (dev.setState i .timedout) (update alone i (alone i).stop) := by
  have hfits := h.fits i hi
  have hle := SecDevice.go_le_of_eq hgo
  have hset : NeumoDmxdevState.setPes ≤ (dev.filter i).state := Nat.le_trans (by decide) hle
  have hfile : (dev.setState i .timedout).filter i = { dev.filter i with state := .timedout } :=
    SecDevice.setFile_self ..
  have hothers : ∀ j, j ≠ i → (dev.setState i .timedout).filter j = dev.filter j :=
    fun j hj => update_of_ne hj ..
  have hsound : (dev.setState i .timedout).Sound := by
    refine h.sound.same rfl rfl rfl rfl rfl fun j => ?_
    by_cases hj : j = i
    · subst hj
      rw [hfile]
      exact ⟨rfl, rfl, rfl, rfl, fun _ => hle, fun _ => go_le_timedout⟩
    · rw [hothers j hj]
      exact ⟨rfl, rfl, rfl, rfl, Iff.rfl⟩
  refine h.call ⟨hsound, rfl, rfl, hothers, fun _ _ _ _ _ => ⟨rfl, rfl⟩⟩ ?_
  constructor
  · rw [hfile]
    exact hfits.currentFeeds
  · rw [hfile]
    exact fun _ => hfits.params hset
  · rw [hfile]
    exact fun _ => hfits.filter hset
  · rw [hfile]
    exact ⟨nofun, nofun⟩
  · rw [hfile]
    exact fun _ => hfits.parent hle
  · rw [hfile]
    exact nofun

theorem Independent.beginSection (h : Independent dev alone) (parent : FeedsNo) (pid : ℕ) :
    Independent (dev.beginSection parent pid) fun i => (alone i).beginSection parent pid := by
  refine ⟨h.sound.same rfl rfl rfl rfl rfl fun _ => ⟨rfl, rfl, rfl, rfl, Iff.rfl⟩, fun i hi => ?_⟩
  have hfits := h.fits i hi
  refine ⟨hfits.currentFeeds, hfits.params, hfits.filter, hfits.running, hfits.parent,
    fun hgo k hk => ?_⟩
  obtain ⟨k', f, huses⟩ := h.sound.uses i ⟨hi, SecDevice.go_le_of_eq hgo⟩
  obtain rfl : k' = k := Option.some.inj (huses.sec.symm.trans hk)
  have hseen := hfits.seen hgo k' hk
  have hhears : (alone i).hears parent pid = dev.collects parent pid k' :=
    hfits.hears_eq h.sound huses hgo
  have hgoal : (dev.receiving k' || dev.collects parent pid k') =
      ((alone i).seen || (alone i).hears parent pid) := by
    rw [hhears, hseen]
  exact hgoal

theorem calledBack_same (dev : SecDevice) (is : List ℕ) (i : ℕ) :
    (dev.calledBack is i).sec = (dev.filter i).sec ∧
      (dev.calledBack is i).secfilter = (dev.filter i).secfilter ∧
      (dev.calledBack is i).params = (dev.filter i).params ∧
      (dev.calledBack is i).filter = (dev.filter i).filter ∧
      (.go ≤ (dev.calledBack is i).state ↔ .go ≤ (dev.filter i).state) := by
  rw [SecDevice.calledBack]
  split
  · rename_i hdone
    have hle := SecDevice.go_le_of_eq hdone.2.1
    exact ⟨rfl, rfl, rfl, rfl, fun _ => hle, fun _ => go_le_done⟩
  · exact ⟨rfl, rfl, rfl, rfl, Iff.rfl⟩

/-- The device after a section, and the filters that have got it. -/
theorem SecDevice.Sound.endSection_eq (h : dev.Sound) (parent : FeedsNo) (pid : ℕ)
    (buf : SectionBytes) : dev.endSection parent pid buf =
      ((dev.called parent pid buf).filter fun i => (dev.filter i).state = .go, { dev with
        receiving := fun k => dev.receiving k && !dev.collects parent pid k
        filter := dev.calledBack (dev.called parent pid buf) }) := by
  rw [SecDevice.endSection, SecDevice.foldl_sectionCallback h.called_nodup]
  rfl

/-- What a filter is after a section. -/
theorem Alone.Fits.endSection (h : a.Fits dev i) (hsound : dev.Sound) (hi : i < dev.filternum)
    (hhears : (dev.filter i).state = .go → ∀ k ∈ (dev.filter i).sec,
      a.hears parent pid = dev.collects parent pid k) :
    (a.endSection dev.checkCrc32 parent pid buf).Fits (dev.endSection parent pid buf).2 i := by
  rw [hsound.endSection_eq]
  have hreceives : a.receives dev.checkCrc32 parent pid buf = true ↔
      i ∈ dev.called parent pid buf ∧ (dev.filter i).state = .go := h.receives_iff hsound hi
  by_cases hdone : i ∈ dev.called parent pid buf ∧ (dev.filter i).state = .go ∧
      (dev.filter i).params.oneshot = true
  · have hfile : dev.calledBack (dev.called parent pid buf) i =
        { dev.filter i with state := .done } := if_pos hdone
    obtain ⟨hcalled, hgo, honeshot⟩ := hdone
    have hle := SecDevice.go_le_of_eq hgo
    have hset : NeumoDmxdevState.setPes ≤ (dev.filter i).state := Nat.le_trans (by decide) hle
    constructor
    · dsimp only
      rw [hfile]
      exact h.currentFeeds
    · dsimp only
      rw [hfile]
      exact fun _ => h.params hset
    · dsimp only
      rw [hfile]
      exact fun _ => h.filter hset
    · dsimp only
      rw [hfile]
      refine ⟨fun hrunning => ?_, nofun⟩
      rw [h.params hset] at honeshot
      simp [Alone.endSection, honeshot, hreceives.mpr ⟨hcalled, hgo⟩] at hrunning
    · dsimp only
      rw [hfile]
      exact fun _ => h.parent hle
    · dsimp only
      rw [hfile]
      exact nofun
  · have hfile : dev.calledBack (dev.called parent pid buf) i = dev.filter i := if_neg hdone
    constructor
    · dsimp only
      rw [hfile]
      exact h.currentFeeds
    · dsimp only
      rw [hfile]
      exact h.params
    · dsimp only
      rw [hfile]
      exact h.filter
    · dsimp only
      rw [hfile, ← h.running]
      simp only [Alone.endSection, Bool.and_eq_true, Bool.not_eq_true', Bool.and_eq_false_iff]
      refine ⟨And.left, fun hrunning => ⟨hrunning, ?_⟩⟩
      have hgo := h.running.mp hrunning
      have hset : NeumoDmxdevState.setPes ≤ (dev.filter i).state := by rw [hgo]; decide
      by_contra hno
      obtain ⟨honeshot, hreceived⟩ := not_or.mp hno
      refine hdone ⟨(hreceives.mp ?_).1, hgo, ?_⟩
      · exact Bool.not_eq_false _ ▸ hreceived
      · rw [h.params hset]
        exact Bool.not_eq_false _ ▸ honeshot
    · dsimp only
      rw [hfile]
      exact h.parent
    · dsimp only
      rw [hfile]
      intro hgo k hk
      rw [← hhears hgo k hk, h.seen hgo k hk]
      rfl

theorem Independent.endSection (h : Independent dev alone) (parent : FeedsNo) (pid : ℕ)
    (buf : SectionBytes) : Independent (dev.endSection parent pid buf).2
      fun i => (alone i).endSection dev.checkCrc32 parent pid buf := by
  have heq := h.sound.endSection_eq parent pid buf
  refine ⟨?_, fun i hi => ?_⟩
  · rw [heq]
    exact h.sound.same rfl rfl rfl rfl rfl fun i => calledBack_same dev _ i
  · have hi' : i < dev.filternum := by
      rw [heq] at hi
      exact hi
    refine (h.fits i hi').endSection h.sound hi' fun hgo k hk => ?_
    obtain ⟨k', f, huses⟩ := h.sound.uses i ⟨hi', SecDevice.go_le_of_eq hgo⟩
    obtain rfl : k' = k := Option.some.inj (huses.sec.symm.trans hk)
    exact (h.fits i hi').hears_eq h.sound huses hgo

theorem Independent.run (h : Independent dev alone) (act : SecAct) (hallowed : act.Allowed dev)
    (hkept : act.Kept dev) : Independent (act.run dev) (act.alone dev alone) := by
  cases act with
  | setFilter i params filter =>
    refine h.stop_set hallowed hkept ?_ ?_ (fun _ => ⟨rfl, rfl⟩) rfl
    · exact NeumoDmxdevState.not_le.mpr setPes_lt_go
    · obtain ⟨-, hsame, -, -⟩ := h.sound.stop hallowed hkept
      exact hsame.currentFeeds.trans (h.fits i hallowed).currentFeeds
  | setCurrentFeeds i feeds => exact h.setCurrentFeeds hallowed feeds
  | start i memory =>
    have hstart := h.sound.start hallowed hkept
    exact h.call hstart.keeps ((h.fits i hallowed).start hstart)
  | stop i => exact h.stop hallowed hkept
  | free i =>
    refine h.stop_set hallowed hkept ?_ rfl (fun hset => ?_) rfl
    · exact NeumoDmxdevState.not_le.mpr (Nat.lt_trans free_lt_setPes setPes_lt_go)
    · exact absurd hset (NeumoDmxdevState.not_le.mpr free_lt_setPes)
  | timeout i => exact h.timeout hallowed.1 hallowed.2
  | beginSection parent pid => exact h.beginSection parent pid
  | endSection parent pid buf => exact h.endSection parent pid buf

theorem SecRun.independent (h : SecRun (fun dev act => act.Kept dev) dev alone) :
    Independent dev alone := by
  induction h with
  | init filternum feednum secfilternum answers file secfilter checkCrc32 alone hidle =>
    have hnot : ∀ i, ¬NeumoDmxdevState.go ≤ ((SecDevice.init filternum
        (.init feednum secfilternum answers) file secfilter checkCrc32).filter i).state := by
      intro i hgo
      exact NeumoDmxdevState.not_le.mpr (Nat.lt_trans allocated_lt_setPes setPes_lt_go) hgo
    refine ⟨⟨valid_init .., fun i hi => absurd hi.2 (hnot i), fun i _ hi => absurd hi.2 (hnot i),
      fun _ => nofun, fun _ => nofun⟩, fun i _ => ⟨(hidle i).2.symm, fun hset => ?_, fun hset => ?_,
        ?_, fun hgo => absurd hgo (hnot i), nofun⟩⟩
    · exact absurd hset (NeumoDmxdevState.not_le.mpr allocated_lt_setPes)
    · exact absurd hset (NeumoDmxdevState.not_le.mpr allocated_lt_setPes)
    · rw [(hidle i).1]
      exact ⟨nofun, nofun⟩
  | step act _ hallowed hkept ih => exact ih.run act hallowed hkept

/-- The acts can be done one after the other. -/
def PlaysSec (Ok : SecDevice → SecAct → Prop) : List SecAct → SecDevice → Prop
  | [], _ => True
  | act :: acts, dev => act.Allowed dev ∧ Ok dev act ∧ PlaysSec Ok acts (act.run dev)

def playSec (acts : List SecAct) (s : SecDevice × (ℕ → Alone)) : SecDevice × (ℕ → Alone) :=
  acts.foldl (fun s act => (act.run s.1, act.alone s.1 s.2)) s

theorem PlaysSec.run {Ok : SecDevice → SecAct → Prop} : ∀ {acts : List SecAct} {dev : SecDevice}
    {alone : ℕ → Alone}, PlaysSec Ok acts dev → SecRun Ok dev alone →
    SecRun Ok (playSec acts (dev, alone)).1 (playSec acts (dev, alone)).2
  | [], _, _, _, hrun => hrun
  | act :: _, _, _, ⟨hallowed, hok, hplays⟩, hrun => hplays.run (hrun.step act hallowed hok)

instance PlaysSec.decidable : ∀ (acts : List SecAct) (dev : SecDevice),
    Decidable (PlaysSec (fun dev act => act.Kept dev) acts dev)
  | [], _ => inferInstanceAs (Decidable True)
  | act :: acts, dev =>
    have := PlaysSec.decidable acts (act.run dev)
    inferInstanceAs (Decidable (_ ∧ _ ∧ _))

/-- A device with two filters, and with the checksum that sections have. -/
def twoFilters : SecDevice :=
  .init 2 (.init 4 4 fun _ => ⟨false, true, .ok ()⟩)
    (fun _ => ⟨.free, ⟨0, false, false, false⟩, Demux.openFilter, false, none, none, none⟩)
    (fun _ => ⟨.replicate _ 0, .replicate _ 0, .replicate _ 0⟩) (Demux.extendCrc32 0xffffffff)

def byThemselves : ℕ → Alone := fun _ =>
  ⟨⟨0, false, false, false⟩, Demux.openFilter, none, false, .default, false⟩

/-- Both are started for all sections on pid 17, and the second may check the CRC. -/
def startBoth (checkCrc : Bool) : List SecAct :=
  [.setFilter 0 ⟨17, false, false, false⟩ Demux.openFilter, .start 0 true,
    .setFilter 1 ⟨17, checkCrc, false, false⟩ Demux.openFilter, .start 1 true,
    .beginSection .default 17]

theorem run_init (Ok : SecDevice → SecAct → Prop) : SecRun Ok twoFilters byThemselves :=
  .init 2 4 4 _ _ _ _ byThemselves fun _ => ⟨rfl, rfl⟩

/-- A section of three bytes whose checksum is wrong. -/
def spoilt : SectionBytes := fun i => if i = 1 then 0x80 else 0

end Dmx

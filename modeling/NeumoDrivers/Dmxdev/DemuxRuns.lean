import NeumoDrivers.Dmxdev.SectionStart

/-! What the users of a demux do to it (`neumo-dvb-demux.c`).

    All filters of a device, and the frontend, call the functions of one demux. `Call` is a call with
    its arguments, and `DemuxRun` what a demux goes through; all that is asked of the callers is that
    a section feed is released as one. -/

namespace Dmx
open Function
open Demux (FeedsNo BbfNo DvbDemux)

variable {demux demux' : NeumoDvbDemux} {streams streams' : DvbDemux} {i s : ℕ}

/-! ### Feeds that change -/

/-- A feed that changes but stays what it is. -/
theorem Valid.change (h : Valid demux) {feed : Feed}
    (hstate : (demux.feedarray i).state ≠ .free → feed.state ≠ .free)
    (hparent : feed.parentFeeds = (demux.feedarray i).parentFeeds)
    (htype : feed.type = (demux.feedarray i).type)
    (hts : feed.tsType = (demux.feedarray i).tsType)
    (hpes : feed.pesType = (demux.feedarray i).pesType) : Valid (demux.setFeed i feed) := by
  refine ⟨fun f j hj => ?_, h.nodup, fun q j hj => ?_⟩
  · obtain ⟨hused, hf⟩ := h.listed f j hj
    rw [setFeed_feedarray]
    by_cases hji : j = i
    · subst hji
      rw [update_self]
      exact ⟨hstate hused, hparent.trans hf⟩
    · rw [update_of_ne hji]
      exact ⟨hused, hf⟩
  · have hdecoded := h.decoded q j hj
    rw [setFeed_feedarray]
    by_cases hji : j = i
    · subst hji
      rw [update_self, htype, hts, hpes]
      exact ⟨hstate hdecoded.1, hdecoded.2⟩
    · rw [update_of_ne hji]
      exact hdecoded

theorem Valid.ask (h : Valid demux) : Valid demux.ask := h.same (.ask demux)

theorem Valid.setSectionFilter (h : Valid demux) (f : SecFilterNo) (filter : SectionFilter) :
    Valid (demux.setSectionFilter f filter) :=
  ⟨h.listed, h.nodup, h.decoded⟩

theorem Valid.setFilters (h : Valid demux) (i : ℕ) (filters : List SecFilterNo) (f : SecFilterNo)
    (filter : SectionFilter) : Valid ((demux.setFeed i { demux.feedarray i with
      sectionFilter := filters }).setSectionFilter f filter) := by
  have hset : Valid (demux.setFeed i { demux.feedarray i with sectionFilter := filters }) :=
    h.change id rfl rfl rfl rfl
  exact hset.setSectionFilter f filter

/-- A slot that is free, no longer listed and not decoded. -/
theorem Valid.free (h : Valid demux) (hothers : ∀ j, j ≠ s → demux'.feedarray j = demux.feedarray j)
    (hlist : ∀ f, (demux'.outputFeedList f).Sublist (demux.outputFeedList f))
    (hself : ∀ f, s ∉ demux'.outputFeedList f)
    (hpes : ∀ q j, demux'.pesfilter q = some j → j ≠ s ∧ demux.pesfilter q = some j) :
    Valid demux' := by
  refine ⟨fun f j hj => ?_, fun f => (h.nodup f).sublist (hlist f), fun q j hj => ?_⟩
  · rw [hothers j fun hjs => hself f (hjs ▸ hj)]
    exact h.listed f j ((hlist f).subset hj)
  · obtain ⟨hjs, hj⟩ := hpes q j hj
    rw [hothers j hjs]
    exact h.decoded q j hj

theorem Valid.leak (h : Valid demux) (hfree : (demux.feedarray s).state = .free)
    (parent : FeedsNo) : Valid (leaked demux s parent) := by
  refine ⟨fun f j hj => ?_, h.nodup, fun q j hj => ?_⟩
  · have hjs : j ≠ s := fun heq => h.notMem hfree f (heq ▸ hj)
    rw [leaked, setFeed_feedarray, update_of_ne hjs]
    exact h.listed f j hj
  · have hjs : j ≠ s := fun heq => h.notDecoded hfree q (heq ▸ hj)
    rw [leaked, setFeed_feedarray, update_of_ne hjs]
    exact h.decoded q j hj

/-- A feed that is taken from its list is in none. -/
theorem outputFeedDel_lists (hparent : ∀ f, s ∈ demux.outputFeedList f →
    (demux.feedarray s).parentFeeds = f) (hnodup : ∀ f, (demux.outputFeedList f).Nodup) :
    (∀ f, ((demux.outputFeedDel s).outputFeedList f).Sublist (demux.outputFeedList f)) ∧
      (∀ f, s ∉ (demux.outputFeedDel s).outputFeedList f) ∧
      (demux.outputFeedDel s).pesfilter = demux.pesfilter := by
  by_cases hmem : s ∈ demux.outputFeedList (demux.feedarray s).parentFeeds
  · rw [outputFeedDel_eq rfl hmem]
    dsimp only
    refine ⟨fun f => ?_, fun f hf => ?_, rfl⟩
    · by_cases heq : f = (demux.feedarray s).parentFeeds
      · subst heq
        rw [update_self]
        exact List.erase_sublist
      · rw [update_of_ne heq]
    · by_cases heq : f = (demux.feedarray s).parentFeeds
      · subst heq
        rw [update_self] at hf
        exact (hnodup _).not_mem_erase hf
      · rw [update_of_ne heq] at hf
        exact heq (hparent f hf).symm
  · rw [NeumoDvbDemux.outputFeedDel, if_pos hmem]
    refine ⟨fun f => List.Sublist.refl _, fun f hf => hmem ?_, rfl⟩
    rw [hparent f hf]
    exact hf

theorem Valid.releasePid (h : Valid demux) (s : ℕ) : Valid (demux.releaseNeumoPidStream s) := by
  obtain ⟨sectionFilter, hfilter⟩ := freeSectionFilter_eq
    (demux.setFeed s { demux.feedarray s with state := .free }) (demux.feedarray s)
  have hlists := @outputFeedDel_lists { demux.setFeed s { demux.feedarray s with state := .free }
    with sectionFilter := sectionFilter } s (fun f hf => by simpa using (h.listed f s hf).2) h.nodup
  obtain ⟨hlist, hself, hpes⟩ := hlists
  have hothers := releaseNeumoPidStream_feedarray demux s
  rw [NeumoDvbDemux.releaseNeumoPidStream] at hothers ⊢
  split at hothers
  · rename_i hfree
    rw [if_pos hfree]
    exact h
  · rename_i hused
    dsimp only at hothers
    rw [if_neg hused]
    dsimp only
    rw [hfilter] at hothers ⊢
    refine Valid.free (s := s) h (fun j hj => ?_) ?_ ?_ fun q j hj => ?_
    · rw [hothers, update_of_ne hj]
    · split <;> exact hlist
    · split <;> exact hself
    · by_cases hdecodes : (demux.feedarray s).tsType &&& TS_DECODER ≠ 0 ∧
          (demux.feedarray s).pesType < DMX_PES_OTHER
      · rw [if_pos hdecodes] at hj
        have hj' : update demux.pesfilter (demux.feedarray s).pesType none q = some j := by
          have heq := congrArg (fun p => update p (demux.feedarray s).pesType none q) hpes
          exact heq.symm.trans hj
        by_cases hq : q = (demux.feedarray s).pesType
        · rw [hq, update_self] at hj'
          cases hj'
        · rw [update_of_ne hq] at hj'
          refine ⟨?_, hj'⟩
          rintro rfl
          exact hq (h.decoded q j hj').2.2.2.1.symm
      · rw [if_neg hdecodes] at hj
        have hj' : demux.pesfilter q = some j := (congrFun hpes q).symm.trans hj
        refine ⟨?_, hj'⟩
        rintro rfl
        obtain ⟨-, -, hts, hq, hlt⟩ := h.decoded q j hj'
        exact hdecodes ⟨hts, hq ▸ hlt⟩

theorem Valid.releaseSec (h : Valid demux) (htype : (demux.feedarray s).type = .sec) :
    Valid (demux.releaseSectionFeed s) := by
  have hlists := @outputFeedDel_lists (demux.setFeed s { demux.feedarray s with state := .free }) s
    (fun f hf => by simpa using (h.listed f s hf).2) h.nodup
  obtain ⟨hlist, hself, hpes⟩ := hlists
  rw [NeumoDvbDemux.releaseSectionFeed]
  split
  · exact h
  · refine h.free (fun j hj => ?_) hlist hself fun q j hj => ?_
    · simp [update_of_ne hj]
    · have hj' : demux.pesfilter q = some j := (congrFun hpes q).symm.trans hj
      refine ⟨?_, hj'⟩
      rintro rfl
      have hts := (h.decoded q j hj').2.1
      rw [htype] at hts
      cases hts

/-! ### Embedded streams -/

/-- A stream that has not been given out yet is not used, and is not found. -/
structure Fresh (streams : DvbDemux) : Prop where
  unused : ∀ b, streams.nextBbf ≤ b → (streams.bbfs b).refcount = 0
  known : ∀ e key b, (streams.embs e).bbfStreams key = some b → b < streams.nextBbf

theorem Fresh.same (h : Fresh streams) (hbbfs : streams'.bbfs = streams.bbfs)
    (hembs : streams'.embs = streams.embs) (hnext : streams'.nextBbf = streams.nextBbf) :
    Fresh streams' := by
  refine ⟨?_, ?_⟩
  · rw [hbbfs, hnext]
    exact h.unused
  · rw [hembs, hnext]
    exact h.known

theorem Fresh.add (h : Fresh streams) (hstreams : demux.streams = streams) (i : ℕ) :
    Fresh (demux.outputFeedAdd i).streams := by
  subst hstreams
  rw [NeumoDvbDemux.outputFeedAdd]
  split
  · exact h
  · exact h.same rfl rfl rfl

theorem Fresh.del (h : Fresh streams) (hstreams : demux.streams = streams) (i : ℕ) :
    Fresh (demux.outputFeedDel i).streams := by
  subst hstreams
  rw [NeumoDvbDemux.outputFeedDel]
  split
  · exact h
  · exact h.same rfl rfl rfl

/-- Finding the embedded stream on a pid leaves the streams in it alone. -/
theorem findOrAllocEmb_same {parent : FeedsNo} {embeddingPid : ℤ} {ok : Bool}
    {r : Option Demux.EmbNo}
    (h : Demux.findOrAllocEmb streams embeddingPid parent ok = (streams', r)) :
    streams'.bbfs = streams.bbfs ∧ streams'.nextBbf = streams.nextBbf ∧
      (r = none → streams'.feeds = streams.feeds ∧ streams'.embs = streams.embs) ∧
      ∀ e key b, (streams'.embs e).bbfStreams key = some b →
        ∃ e, (streams.embs e).bbfStreams key = some b := by
  rw [Demux.findOrAllocEmb] at h
  dsimp only at h
  split at h
  · split at h
    · cases h
      exact ⟨rfl, rfl, fun _ => ⟨rfl, rfl⟩, fun e _ _ hb => ⟨e, hb⟩⟩
    · cases h
      refine ⟨rfl, rfl, nofun, fun e key b hb => ?_⟩
      have hb' : (update streams.embs streams.nextEmb ⟨1, embeddingPid, parent, fun _ => none⟩
          e).bbfStreams key = some b := hb
      by_cases he : e = streams.nextEmb
      · rw [he, update_self] at hb'
        cases hb'
      · rw [update_of_ne he] at hb'
        exact ⟨e, hb'⟩
  · rename_i found _
    cases h
    refine ⟨rfl, rfl, nofun, fun e key b hb => ?_⟩
    have hb' : (update streams.embs found { streams.embs found with
        refcount := (streams.embs found).refcount + 1 } e).bbfStreams key = some b := hb
    by_cases he : e = found
    · rw [he, update_self] at hb'
      exact ⟨found, hb'⟩
    · rw [update_of_ne he] at hb'
      exact ⟨e, hb'⟩

theorem Fresh.findEmb (h : Fresh streams) {parent : FeedsNo} {embeddingPid : ℤ} {ok : Bool}
    {r : Option Demux.EmbNo}
    (hemb : Demux.findOrAllocEmb streams embeddingPid parent ok = (streams', r)) :
    Fresh streams' := by
  obtain ⟨hbbfs, hnext, -, hknown⟩ := findOrAllocEmb_same hemb
  refine ⟨?_, fun e key b hb => ?_⟩
  · rw [hbbfs, hnext]
    exact h.unused
  · obtain ⟨e', hb'⟩ := hknown e key b hb
    rw [hnext]
    exact h.known e' key b hb'

theorem Fresh.allocateBbf (h : Fresh streams) {found : Demux.EmbNo} {isi : ℤ} {b : BbfNo}
    (halloc : Demux.findOrAllocBbfStream streams found isi = (streams', b)) :
    Fresh streams' ∧ (streams.bbfs b).refcount < (streams'.bbfs b).refcount ∧
      ∀ j, j ≠ b → streams'.bbfs j = streams.bbfs j := by
  rw [Demux.findOrAllocBbfStream] at halloc
  dsimp only at halloc
  split at halloc
  · rename_i hnone
    cases halloc
    have hzero := h.unused streams.nextBbf (Nat.le_refl _)
    have hbbfs : ∀ j, j ≠ streams.nextBbf → update streams.bbfs streams.nextBbf
        ⟨1, Demux.bbfKey isi, found⟩ j = streams.bbfs j := fun j hj => update_of_ne hj ..
    refine ⟨⟨fun j hj => ?_, fun e key b hb => ?_⟩, ?_, hbbfs⟩
    · have hj' : streams.nextBbf < j := hj
      exact (congrArg _ (hbbfs j (Nat.ne_of_gt hj'))).trans (h.unused j (Nat.le_of_lt hj'))
    · obtain ⟨emb, hemb, hb'⟩ : ∃ emb : Demux.Emb, emb.bbfStreams =
            update (streams.embs found).bbfStreams (Demux.bbfKey isi) (some streams.nextBbf) ∧
          (update streams.embs found emb e).bbfStreams key = some b := ⟨_, rfl, hb⟩
      have hgoal : b < streams.nextBbf + 1 := by
        by_cases he : e = found
        · rw [he, update_self, hemb] at hb'
          by_cases hkey : key = Demux.bbfKey isi
          · rw [hkey, update_self] at hb'
            cases hb'
            exact Nat.lt_succ_self _
          · rw [update_of_ne hkey] at hb'
            exact Nat.lt_succ_of_lt (h.known found key b hb')
        · rw [update_of_ne he] at hb'
          exact Nat.lt_succ_of_lt (h.known e key b hb')
      exact hgoal
    · have hone : (update streams.bbfs streams.nextBbf ⟨1, Demux.bbfKey isi, found⟩
          streams.nextBbf).refcount = 1 := by rw [update_self]
      have hlt : (streams.bbfs streams.nextBbf).refcount < 1 := by omega
      exact Nat.lt_of_lt_of_eq hlt hone.symm
  · rename_i b' hb'
    cases halloc
    have hlt := h.known found _ b hb'
    refine ⟨⟨fun j hj => ?_, h.known⟩, ?_, fun j hj => update_of_ne hj ..⟩
    · have hj' : streams.nextBbf ≤ j := hj
      have hne : j ≠ b := Nat.ne_of_gt (Nat.lt_of_lt_of_le hlt hj')
      exact (congrArg _ (update_of_ne hne ..)).trans (h.unused j hj')
    · have hmore : (update streams.bbfs b { streams.bbfs b with
          refcount := (streams.bbfs b).refcount + 1 } b).refcount =
          (streams.bbfs b).refcount + 1 := by rw [update_self]
      exact Nat.lt_of_lt_of_eq (Nat.lt_succ_self _) hmore.symm

/-- A stream that is given is used once more, and no other less. -/
theorem Fresh.allocate {parent : FeedsNo} {embeddingPid isi : ℤ} {ok : Bool} {b : BbfNo}
    (h : Fresh streams)
    (halloc : Demux.allocateStream streams embeddingPid isi parent ok = (streams', some b)) :
    Fresh streams' ∧ (streams.bbfs b).refcount < (streams'.bbfs b).refcount ∧
      ∀ j, j ≠ b → streams'.bbfs j = streams.bbfs j := by
  rw [Demux.allocateStream] at halloc
  split at halloc
  · cases halloc
  · rename_i mid found hemb
    obtain ⟨hbbfs, -, -, -⟩ := findOrAllocEmb_same hemb
    have hmid := h.findEmb hemb
    dsimp only at halloc
    rw [← hbbfs]
    cases hbbf : Demux.findOrAllocBbfStream mid found isi with
    | mk last b' =>
      rw [hbbf] at halloc
      cases halloc
      exact hmid.allocateBbf hbbf

/-- Streams that are used less, and found no more than before. -/
theorem Fresh.less (h : Fresh streams) (hnext : streams'.nextBbf = streams.nextBbf)
    (hcount : ∀ b, (streams'.bbfs b).refcount ≤ (streams.bbfs b).refcount)
    (hknown : ∀ e key b, (streams'.embs e).bbfStreams key = some b →
      (streams.embs e).bbfStreams key = some b) : Fresh streams' := by
  refine ⟨fun b hb => ?_, fun e key b hb => ?_⟩
  · have hzero := h.unused b (hnext ▸ hb)
    exact Nat.le_zero.mp (hzero ▸ hcount b)
  · rw [hnext]
    exact h.known e key b (hknown e key b hb)

theorem Fresh.allocateStream (h : Fresh streams) (embeddingPid isi : ℤ) (parent : FeedsNo)
    (ok : Bool) : Fresh (Demux.allocateStream streams embeddingPid isi parent ok).1 := by
  rw [Demux.allocateStream]
  split
  · rename_i hemb
    exact h.findEmb hemb
  · rename_i hemb
    exact ((h.findEmb hemb).allocateBbf rfl).1

/-- What is known after a stream has been erased was known before. -/
theorem erased_known (streams : DvbDemux) (b : BbfNo) {e : Demux.EmbNo} {key : ℕ} {j : BbfNo}
    (hj : ((Demux.bbframesStreamRelease_ streams b).embs e).bbfStreams key = some j) :
    (streams.embs e).bbfStreams key = some j := by
  obtain ⟨emb, hemb, hj'⟩ : ∃ emb : Demux.Emb, emb.bbfStreams =
        update (streams.embs (streams.bbfs b).parentEmbeddedStream).bbfStreams
          (Demux.bbfKey (streams.bbfs b).isi) none ∧
      (update streams.embs (streams.bbfs b).parentEmbeddedStream emb e).bbfStreams key = some j :=
    ⟨_, rfl, hj⟩
  by_cases he : e = (streams.bbfs b).parentEmbeddedStream
  · subst he
    rw [update_self, hemb] at hj'
    by_cases hkey : key = Demux.bbfKey (streams.bbfs b).isi
    · rw [hkey] at hj'
      simp at hj'
    · rwa [update_of_ne hkey] at hj'
  · rwa [update_of_ne he] at hj'

theorem Fresh.putBbf (h : Fresh streams) (b : BbfNo) : Fresh (Demux.putBbf streams b) := by
  have hset : Fresh (streams.setBbf b
      { streams.bbfs b with refcount := (streams.bbfs b).refcount - 1 }) := by
    refine h.less rfl (fun j => ?_) fun _ _ _ hb => hb
    rw [DvbDemux.setBbf]
    by_cases hj : j = b
    · subst hj
      simp
    · simp [update_of_ne hj]
  rw [Demux.putBbf]
  split
  · refine hset.less rfl (fun _ => Nat.le_refl _) fun e key j hj => ?_
    exact erased_known _ b hj
  · exact hset

theorem Fresh.releaseEmb (h : Fresh streams) (e : Demux.EmbNo) :
    Fresh (Demux.embeddedStreamRelease streams e) := by
  have hset : Fresh (streams.setEmb e
      { streams.embs e with refcount := (streams.embs e).refcount - 1 }) := by
    refine h.less rfl (fun _ => Nat.le_refl _) fun e' key b hb => ?_
    rw [DvbDemux.setEmb] at hb
    dsimp only at hb
    by_cases he : e' = e
    · subst he
      rw [update_self] at hb
      exact hb
    · rw [update_of_ne he] at hb
      exact hb
  rw [Demux.embeddedStreamRelease]
  split
  · exact hset.same rfl rfl rfl
  · exact hset

theorem Fresh.release (h : Fresh streams) (b : BbfNo) :
    Fresh (Demux.bbframesStreamRelease streams b) :=
  (h.putBbf b).releaseEmb _

theorem Fresh.setBbframesState (h : Fresh streams) (embeddingIsOn : Bool) (pid isi : ℤ)
    (ok : Bool) : Fresh (Demux.setBbframesState streams embeddingIsOn pid isi ok) := by
  have hdrop : Fresh (Demux.dropFeStream streams) := by
    rw [Demux.dropFeStream]
    split
    · exact h
    · exact (h.release _).same rfl rfl rfl
  have halloc := hdrop.allocateStream pid isi .fe ok
  rw [Demux.setBbframesState]
  dsimp only
  split
  · split
    · rename_i hnone
      rw [hnone] at halloc
      exact halloc.same rfl rfl rfl
    · rename_i hsome
      rw [hsome] at halloc
      exact halloc.same rfl rfl rfl
  · exact hdrop.same rfl rfl rfl

/-! ### Runs -/

/-- A call of a function of the demux. -/
inductive Call where
  | kzalloc
  | allocateStream (type : Demux.EmbeddedStreamType) (embeddingPid isi : ℤ)
    (parent : Option FeedsNo)
  | releaseBbfStream (stream : Option BbfNo)
  | setBbframesState (embeddingIsOn : Bool) (pid isi : ℤ)
  | allocateNeumoPidStream (pid tsType pesType : ℕ) (parent : Option FeedsNo)
  | releaseNeumoPidStream (stream : PidStreamNo)
  | setPriv (stream : PidStreamNo)
  | startFiltering (stream : PidStreamNo)
  | stopFiltering (stream : PidStreamNo)
  | allocateSectionFeed (pid : ℕ) (parent : Option FeedsNo)
  | releaseSectionFeed (sec : SecFeedNo)
  | allocateSectionFilter (sec : SecFeedNo)
  | releaseSectionFilter (sec : SecFeedNo) (secfilter : SecFilterNo)
  | startSectionFiltering (sec : SecFeedNo)
  | stopSectionFiltering (sec : SecFeedNo)

def Call.run (demux : NeumoDvbDemux) : Call → NeumoDvbDemux
  | .kzalloc => demux.ask
  | .allocateStream type embeddingPid isi parent =>
    (demux.allocateStream type embeddingPid isi parent).2
  | .releaseBbfStream stream => demux.releaseBbfStream stream
  | .setBbframesState embeddingIsOn pid isi =>
    { demux.ask with streams :=
        Demux.setBbframesState demux.streams embeddingIsOn pid isi demux.answer.memory }
  | .allocateNeumoPidStream pid tsType pesType parent =>
    (demux.allocateNeumoPidStream pid tsType pesType parent).2
  | .releaseNeumoPidStream stream => demux.releaseNeumoPidStream stream
  | .setPriv stream => demux.setPriv stream
  | .startFiltering stream => (demux.startFiltering stream).2
  | .stopFiltering stream => demux.stopFiltering stream
  | .allocateSectionFeed pid parent => (demux.allocateSectionFeed pid parent).2
  | .releaseSectionFeed sec => demux.releaseSectionFeed sec
  | .allocateSectionFilter sec => (demux.allocateSectionFilter sec).2
  | .releaseSectionFilter sec secfilter => demux.releaseSectionFilter sec secfilter
  | .startSectionFiltering sec => (demux.startSectionFiltering sec).2
  | .stopSectionFiltering sec => demux.stopSectionFiltering sec

/-- What is released as a section feed is one. -/
def Call.Typed (demux : NeumoDvbDemux) : Call → Prop
  | .releaseSectionFeed sec => (demux.feedarray sec).type = .sec
  | _ => True

inductive DemuxRun : NeumoDvbDemux → Prop where
  | init (feednum filternum : ℕ) (answers : ℕ → Answer) : DemuxRun (.init feednum filternum answers)
  | step {demux : NeumoDvbDemux} (call : Call) : DemuxRun demux → call.Typed demux →
    DemuxRun (call.run demux)

theorem Valid.call (h : Valid demux) {call : Call} (htyped : call.Typed demux) :
    Valid (call.run demux) := by
  cases call with
  | kzalloc => exact h.ask
  | allocateStream type embeddingPid isi parent =>
    rw [Call.run, NeumoDvbDemux.allocateStream]
    split
    · exact h.ask
    · split <;> exact ⟨h.listed, h.nodup, h.decoded⟩
  | releaseBbfStream stream => cases stream <;> exact ⟨h.listed, h.nodup, h.decoded⟩
  | setBbframesState embeddingIsOn pid isi => exact ⟨h.listed, h.nodup, h.decoded⟩
  | allocateNeumoPidStream pid tsType pesType parent =>
    rw [Call.run]
    rcases allocateNeumoPidStream_cases demux pid tsType pesType parent with
      ⟨e, demux', heq, hdemux⟩ | ⟨k, hk, ⟨-, heq⟩ | ⟨hconflict, heq⟩⟩
    · rw [heq]
      rcases hdemux with rfl | rfl
      · exact h
      · exact h.ask
    · rw [heq]
      exact h.ask.leak (feedAlloc_free hk) _
    · rw [heq]
      have hopens : Opens demux demux.ask ⟨parent.getD .default, .ts, tsType, pesType⟩ [] :=
        opens_nil.mpr (.ask demux)
      exact (hopens.opened h (feedAlloc_free hk) rfl hconflict pid).valid h
  | releaseNeumoPidStream stream => exact h.releasePid stream
  | setPriv stream => exact h.change id rfl rfl rfl rfl
  | startFiltering stream =>
    rw [Call.run, NeumoDvbDemux.startFiltering]
    split
    · exact h.ask
    · split
      · exact h.ask
      · split
        · exact h.ask
        · exact h.ask.change (fun _ => by rintro ⟨⟩) rfl rfl rfl rfl
  | stopFiltering stream =>
    rw [Call.run, NeumoDvbDemux.stopFiltering]
    split
    · exact h
    · exact h.change (fun _ => by rintro ⟨⟩) rfl rfl rfl rfl
  | allocateSectionFeed pid parent =>
    rcases allocateSectionFeed_cases demux pid parent with ⟨e, demux', heq, hdemux⟩ | ⟨k, hk, heq⟩
    · rw [Call.run, heq]
      rcases hdemux with rfl | rfl
      · exact h
      · exact h.ask
    · rw [Call.run, heq]
      exact (opens_openedSec h (feedAlloc_free hk) pid _).valid h
  | releaseSectionFeed sec => exact h.releaseSec htyped
  | allocateSectionFilter sec =>
    rcases allocateSectionFilter_cases demux sec with ⟨e, heq⟩ | ⟨f, -, heq⟩
    · rw [Call.run, heq]
      exact h.ask
    · rw [Call.run, heq]
      refine (h.ask.setSectionFilter f ⟨.ready, sec⟩).change ?_ rfl rfl rfl rfl
      exact id
  | releaseSectionFilter sec secfilter =>
    rw [Call.run, NeumoDvbDemux.releaseSectionFilter]
    split
    · exact h
    · split
      · have hstop : Valid (demux.stopSectionFiltering sec) :=
          h.change (fun _ => by rintro ⟨⟩) rfl rfl rfl rfl
        exact hstop.setFilters sec _ secfilter _
      · exact h.setFilters sec _ secfilter _
  | startSectionFiltering sec =>
    rcases startSectionFiltering_cases demux sec with ⟨e, heq⟩ | ⟨-, -, heq⟩
    · rw [Call.run, heq]
      exact h.ask
    · rw [Call.run, heq]
      exact h.ask.change (fun _ => by rintro ⟨⟩) rfl rfl rfl rfl
  | stopSectionFiltering sec => exact h.change (fun _ => by rintro ⟨⟩) rfl rfl rfl rfl

theorem Fresh.call (h : Fresh demux.streams) (call : Call) : Fresh (call.run demux).streams := by
  cases call with
  | kzalloc => exact h
  | allocateStream type embeddingPid isi parent =>
    rw [Call.run, NeumoDvbDemux.allocateStream]
    have halloc := h.allocateStream embeddingPid isi (parent.getD type.parent) demux.answer.memory
    split
    · exact h
    · split
      · rename_i heq
        rwa [heq] at halloc
      · rename_i heq
        rwa [heq] at halloc
  | releaseBbfStream stream =>
    cases stream with
    | none => exact h
    | some b => exact h.release b
  | setBbframesState embeddingIsOn pid isi =>
    exact h.setBbframesState embeddingIsOn pid isi demux.answer.memory
  | allocateNeumoPidStream pid tsType pesType parent =>
    rw [Call.run]
    rcases allocateNeumoPidStream_cases demux pid tsType pesType parent with
      ⟨e, demux', heq, hdemux⟩ | ⟨k, hk, ⟨-, heq⟩ | ⟨-, heq⟩⟩
    · rw [heq]
      rcases hdemux with rfl | rfl <;> exact h
    · rw [heq]
      exact h
    · rw [heq]
      exact h.add (by rfl) k
  | releaseNeumoPidStream stream =>
    rw [Call.run, NeumoDvbDemux.releaseNeumoPidStream]
    split
    · exact h
    · obtain ⟨sectionFilter, hfilter⟩ := freeSectionFilter_eq
        (demux.setFeed stream { demux.feedarray stream with state := .free })
        (demux.feedarray stream)
      dsimp only
      rw [hfilter]
      split <;> exact h.del (by rfl) stream
  | setPriv stream => exact h
  | startFiltering stream =>
    rw [Call.run, NeumoDvbDemux.startFiltering]
    split
    · exact h
    · split
      · exact h
      · split <;> exact h
  | stopFiltering stream =>
    rw [Call.run, NeumoDvbDemux.stopFiltering]
    split <;> exact h
  | allocateSectionFeed pid parent =>
    rw [Call.run]
    rcases allocateSectionFeed_cases demux pid parent with ⟨e, demux', heq, hdemux⟩ | ⟨k, hk, heq⟩
    · rw [heq]
      rcases hdemux with rfl | rfl <;> exact h
    · rw [heq]
      exact h.add (by rfl) k
  | releaseSectionFeed sec =>
    rw [Call.run, NeumoDvbDemux.releaseSectionFeed]
    split
    · exact h
    · exact h.del (by rfl) sec
  | allocateSectionFilter sec =>
    rcases allocateSectionFilter_cases demux sec with ⟨e, heq⟩ | ⟨f, -, heq⟩ <;>
      rw [Call.run, heq] <;> exact h
  | releaseSectionFilter sec secfilter =>
    rw [Call.run, NeumoDvbDemux.releaseSectionFilter]
    split
    · exact h
    · split <;> exact h
  | startSectionFiltering sec =>
    rcases startSectionFiltering_cases demux sec with ⟨e, heq⟩ | ⟨-, -, heq⟩ <;>
      rw [Call.run, heq] <;> exact h
  | stopSectionFiltering sec => exact h

theorem DemuxRun.valid (h : DemuxRun demux) : Valid demux := by
  induction h with
  | init feednum filternum answers => exact valid_init feednum filternum answers
  | step call _ htyped ih => exact ih.call htyped

theorem DemuxRun.fresh (h : DemuxRun demux) : Fresh demux.streams := by
  induction h with
  | init feednum filternum answers => exact ⟨fun _ _ => rfl, nofun⟩
  | step call _ _ ih => exact ih.call call

/-- Over any run of calls, what a list holds or a decoder has is in use and in no list twice, and an
    embedded stream that was never given out has no user and is not found. -/
theorem demux_consistent (h : DemuxRun demux) : Valid demux ∧ Fresh demux.streams :=
  ⟨h.valid, h.fresh⟩

theorem demux_consistent_section :
    let demux := Call.run (.init 4 4 fun _ => ⟨false, true, .ok ()⟩) (.allocateSectionFeed 17 none)
    Valid demux ∧ Fresh demux.streams :=
  demux_consistent (.step (.allocateSectionFeed 17 none) (.init 4 4 _) trivial)

end Dmx

import NeumoDrivers.Dmxdev.DemuxFeeds

/-! Feeds that are opened and closed again (`neumo-dvb-demux.c`).

    An allocation takes the first free slot, puts it in the list of its container and counts it there,
    and a feed for a decoder is noted as such. `Opens` says that a demux is as another one with some
    feeds more. A release takes back what the last allocation did. -/

namespace Dmx
open Function
open Demux (FeedsNo BbfNo)

variable {demux demux' demux'' : NeumoDvbDemux} {i k s : ℕ} {ss : List ℕ}

/-- What the feeds of one start have in common. -/
structure Kind where
  parent : FeedsNo
  type : DvbDmxFilterType
  tsType : ℕ
  pesType : ℕ

variable {kind : Kind}

def Kind.Of (kind : Kind) (feed : Feed) : Prop :=
  feed.state ≠ .free ∧ feed.type = kind.type ∧ feed.parentFeeds = kind.parent ∧
    (kind.type = .ts → feed.tsType = kind.tsType ∧ feed.pesType = kind.pesType)

def Kind.Decodes (kind : Kind) : Prop := kind.type = .ts ∧ kind.tsType &&& TS_DECODER ≠ 0

/-- Feeds for a decoder are noted, one at most. -/
def Noted (demux demux' : NeumoDvbDemux) (kind : Kind) (ss : List ℕ) : Prop :=
  (ss = [] ∨ ¬kind.Decodes) ∧ demux'.pesfilter = demux.pesfilter ∨
    ∃ s, ss = [s] ∧ kind.Decodes ∧ kind.pesType < DMX_PES_OTHER ∧
      demux.pesfilter kind.pesType = none ∧
      demux'.pesfilter = update demux.pesfilter kind.pesType (some s)

/-- The demux has feeds in the slots `ss` more, the newest first. -/
structure Opens (demux demux' : NeumoDvbDemux) (kind : Kind) (ss : List ℕ) : Prop where
  feednum : demux'.feednum = demux.feednum
  nodup : ss.Nodup
  free : ∀ s ∈ ss, (demux.feedarray s).state = .free
  own : ∀ s ∈ ss, kind.Of (demux'.feedarray s)
  view : ∀ s, s ∉ ss → (demux'.feedarray s).view = (demux.feedarray s).view
  list : demux'.outputFeedList =
    update demux.outputFeedList kind.parent (ss ++ demux.outputFeedList kind.parent)
  containers : demux'.streams.feeds = update demux.streams.feeds kind.parent
    { demux.streams.feeds kind.parent with
      refcount := (demux.streams.feeds kind.parent).refcount + ss.length }
  embs : demux'.streams.embs = demux.streams.embs
  bbfs : demux'.streams.bbfs = demux.streams.bbfs
  noted : Noted demux demux' kind ss

theorem opens_nil : Opens demux demux' kind [] ↔ SameFeeds demux demux' := by
  constructor
  · intro h
    refine ⟨h.feednum, fun i => h.view i (List.not_mem_nil), ?_, ?_, ?_, h.embs, h.bbfs⟩
    · rw [h.list, List.nil_append, update_eq_self]
    · rcases h.noted with ⟨-, heq⟩ | ⟨s, heq, -⟩
      · exact heq
      · cases heq
    · rw [h.containers]
      exact update_eq_self _ _
  · intro h
    refine ⟨h.feednum, List.nodup_nil, nofun, nofun, fun i _ => h.view i, ?_, ?_, h.embs, h.bbfs,
      .inl ⟨.inl rfl, h.pesfilter⟩⟩
    · rw [h.list, List.nil_append, update_eq_self]
    · rw [h.containers]
      exact (update_eq_self _ _).symm

theorem Kind.Of.same {a b : Feed} (h : kind.Of a) (hview : b.view = a.view) : kind.Of b := by
  obtain ⟨hstate, htype, -, hparent, -, -, hts⟩ := Feed.fields_of_view hview.symm h.1
  refine ⟨hstate ▸ h.1, htype.trans h.2.1, hparent.trans h.2.2.1, fun hkind => ?_⟩
  obtain ⟨hts', hpes'⟩ := h.2.2.2 hkind
  obtain ⟨hts, hpes⟩ := hts (h.2.1.trans hkind)
  exact ⟨hts.trans hts', hpes.trans hpes'⟩

theorem Opens.same (h : Opens demux demux' kind ss) (hsame : SameFeeds demux' demux'') :
    Opens demux demux'' kind ss := by
  refine ⟨hsame.feednum.trans h.feednum, h.nodup, h.free, fun s hs => (h.own s hs).same
    (hsame.view s), fun s hs => (hsame.view s).trans (h.view s hs), hsame.list.trans h.list,
    hsame.containers.trans h.containers, hsame.embs.trans h.embs, hsame.bbfs.trans h.bbfs, ?_⟩
  rw [Noted, hsame.pesfilter]
  exact h.noted

theorem Opens.wasFree (h : Opens demux demux' kind ss) (hk : (demux'.feedarray k).state = .free) :
    k ∉ ss ∧ (demux.feedarray k).state = .free := by
  have hnew : k ∉ ss := fun hmem => (h.own k hmem).1 hk
  refine ⟨hnew, ?_⟩
  rw [← Feed.view_eq_none, ← h.view k hnew, Feed.view_eq_none]
  exact hk

theorem Opens.valid (hvalid : Valid demux) (h : Opens demux demux' kind ss) : Valid demux' := by
  have hold : ∀ i, (demux.feedarray i).state ≠ .free → i ∉ ss :=
    fun i hi hmem => hi (h.free i hmem)
  refine ⟨fun f i hi => ?_, fun f => ?_, fun q i hi => ?_⟩
  · have hcases : i ∈ ss ∧ f = kind.parent ∨ i ∈ demux.outputFeedList f := by
      rw [h.list] at hi
      by_cases hf : f = kind.parent
      · subst hf
        rw [update_self, List.mem_append] at hi
        exact hi.imp_left fun hmem => ⟨hmem, rfl⟩
      · rw [update_of_ne hf] at hi
        exact .inr hi
    rcases hcases with ⟨hmem, rfl⟩ | hmem
    · exact ⟨(h.own i hmem).1, (h.own i hmem).2.2.1⟩
    · obtain ⟨hstate, hparent⟩ := hvalid.listed f i hmem
      obtain ⟨hstate', -, -, hparent', -⟩ :=
        Feed.fields_of_view (h.view i (hold i hstate)).symm hstate
      exact ⟨hstate' ▸ hstate, hparent'.trans hparent⟩
  · rw [h.list]
    by_cases hf : f = kind.parent
    · subst hf
      rw [update_self, List.nodup_append]
      refine ⟨h.nodup, hvalid.nodup _, fun a ha b hb => ?_⟩
      rintro rfl
      exact hold a (hvalid.listed _ a hb).1 ha
    · rw [update_of_ne hf]
      exact hvalid.nodup f
  · have hcases : demux.pesfilter q = some i ∨
        i ∈ ss ∧ kind.Decodes ∧ kind.pesType < DMX_PES_OTHER ∧ q = kind.pesType := by
      rcases h.noted with ⟨-, heq⟩ | ⟨s, heq, hdecodes, hlt, -, hpes⟩
      · rw [heq] at hi
        exact .inl hi
      · rw [hpes] at hi
        by_cases hq : q = kind.pesType
        · subst hq
          rw [update_self, Option.some.injEq] at hi
          subst hi
          exact .inr ⟨heq ▸ List.mem_singleton_self s, hdecodes, hlt, rfl⟩
        · rw [update_of_ne hq] at hi
          exact .inl hi
    rcases hcases with hpes | ⟨hmem, hdecodes, hlt, rfl⟩
    · obtain ⟨hstate, htype, hts, hq, hlt⟩ := hvalid.decoded q i hpes
      obtain ⟨hstate', htype', -, -, -, -, hsame⟩ :=
        Feed.fields_of_view (h.view i (hold i hstate)).symm hstate
      obtain ⟨hts', hpes'⟩ := hsame htype
      rw [hstate', htype', hts', hpes']
      exact ⟨hstate, htype, hts, hq, hlt⟩
    · obtain ⟨hstate, htype, -, hsame⟩ := h.own i hmem
      obtain ⟨hts, hpes⟩ := hsame hdecodes.1
      rw [htype, hts, hpes]
      exact ⟨hstate, hdecodes.1, hdecodes.2, rfl, hlt⟩

theorem Valid.same (h : Valid demux) (hsame : SameFeeds demux demux') : Valid demux' :=
  @Opens.valid _ _ [] ⟨.fe, .sec, 0, 0⟩ h (opens_nil.mpr hsame)

/-! ### Opening -/

/-- A free slot is taken by a feed, which is listed. -/
theorem Opens.add (hvalid : Valid demux) (h : Opens demux demux' kind ss)
    (hk : (demux'.feedarray k).state = .free) (feed : Feed) (hfeed : kind.Of feed)
    {pesfilter : ℕ → Option ℕ} (hnoted : ∀ demux'' : NeumoDvbDemux, demux''.pesfilter = pesfilter →
      Noted demux demux'' kind (k :: ss)) :
    Opens demux { ((demux'.setFeed k feed).outputFeedAdd k) with pesfilter := pesfilter } kind
      (k :: ss) := by
  obtain ⟨hnew, hfree⟩ := h.wasFree hk
  have hnotin : k ∉ demux'.outputFeedList kind.parent := by
    rw [h.list, update_self, List.mem_append]
    rintro (hmem | hmem)
    · exact hnew hmem
    · exact hvalid.notMem hfree _ hmem
  have hadd : (demux'.setFeed k feed).outputFeedAdd k = { demux'.setFeed k feed with
      outputFeedList := update demux'.outputFeedList kind.parent
        (k :: demux'.outputFeedList kind.parent)
      streams := demux'.streams.setFeeds kind.parent { demux'.streams.feeds kind.parent with
        refcount := (demux'.streams.feeds kind.parent).refcount + 1 } } := by
    rw [NeumoDvbDemux.outputFeedAdd, setFeed_feedarray, update_self, hfeed.2.2.1]
    exact if_neg hnotin
  rw [hadd]
  refine ⟨h.feednum, List.nodup_cons.mpr ⟨hnew, h.nodup⟩, ?_, ?_, ?_, ?_, ?_, h.embs, h.bbfs,
    hnoted _ rfl⟩
  · exact List.forall_mem_cons.mpr ⟨hfree, h.free⟩
  · intro s hs
    by_cases hsk : s = k
    · subst hsk
      simpa using hfeed
    · simpa [update_of_ne hsk] using h.own s ((List.mem_cons.mp hs).resolve_left hsk)
  · intro s hs
    rw [List.mem_cons, not_or] at hs
    simpa [update_of_ne hs.1] using h.view s hs.2
  · dsimp only
    rw [h.list, update_self, update_idem]
    rfl
  · dsimp only [Demux.DvbDemux.setFeeds]
    rw [h.containers, update_self, update_idem]
    rfl

theorem Opens.setFeed (h : Opens demux demux' kind ss) (hs : s ∈ ss) {feed : Feed}
    (hfeed : kind.Of feed) : Opens demux (demux'.setFeed s feed) kind ss := by
  refine ⟨h.feednum, h.nodup, h.free, fun j hj => ?_, fun j hj => ?_, h.list, h.containers, h.embs,
    h.bbfs, h.noted⟩
  · by_cases hjs : j = s
    · subst hjs
      simpa using hfeed
    · simpa [update_of_ne hjs] using h.own j hj
  · have hjs : j ≠ s := fun heq => hj (heq ▸ hs)
    simpa [update_of_ne hjs] using h.view j hj

theorem Opens.ask (h : Opens demux demux' kind ss) : Opens demux demux'.ask kind ss :=
  h.same (.ask demux')

/-! ### Closing -/

/-- The newest feed is given up: its slot is free, and it is taken from its list. -/
theorem Opens.drop (h : Opens demux demux' kind (s :: ss))
    (hfeednum : demux''.feednum = demux'.feednum) (hself : (demux''.feedarray s).state = .free)
    (hothers : ∀ j, j ≠ s → demux''.feedarray j = demux'.feedarray j)
    (hlist : demux''.outputFeedList = update demux'.outputFeedList kind.parent
      ((demux'.outputFeedList kind.parent).erase s))
    (hstreams : demux''.streams = Demux.putFeeds demux'.streams kind.parent)
    (hnoted : Noted demux demux'' kind ss) : Opens demux demux'' kind ss := by
  obtain ⟨hnew, hnodup⟩ := List.nodup_cons.mp h.nodup
  refine ⟨hfeednum.trans h.feednum, hnodup, fun j hj => h.free j (List.mem_cons_of_mem s hj),
    fun j hj => ?_, fun j hj => ?_, ?_, ?_, ?_, ?_, hnoted⟩
  · have hjs : j ≠ s := fun heq => hnew (heq ▸ hj)
    rw [hothers j hjs]
    exact h.own j (List.mem_cons_of_mem s hj)
  · by_cases hjs : j = s
    · subst hjs
      rw [Feed.view_of_free hself, Feed.view_of_free (h.free j List.mem_cons_self)]
    · rw [hothers j hjs]
      refine h.view j fun hmem => ?_
      exact (List.mem_cons.mp hmem).elim hjs hj
  · rw [hlist, h.list, update_self, update_idem, List.cons_append, List.erase_cons_head]
  · rw [hstreams, Demux.putFeeds, Demux.DvbDemux.setFeeds]
    dsimp only
    rw [h.containers, update_self, update_idem]
    rfl
  · rw [hstreams]
    exact h.embs
  · rw [hstreams]
    exact h.bbfs

theorem outputFeedDel_eq {f : FeedsNo} (hparent : (demux.feedarray s).parentFeeds = f)
    (hmem : s ∈ demux.outputFeedList f) : demux.outputFeedDel s = { demux with
      outputFeedList := update demux.outputFeedList f ((demux.outputFeedList f).erase s)
      streams := Demux.putFeeds demux.streams f } := by
  rw [NeumoDvbDemux.outputFeedDel, hparent]
  exact if_neg (not_not_intro hmem)

theorem Opens.mem_list (h : Opens demux demux' kind ss) (hs : s ∈ ss) :
    s ∈ demux'.outputFeedList kind.parent := by
  rw [h.list, update_self, List.mem_append]
  exact .inl hs

/-! ### Streams of a pid -/

/-- What the streams of one filter have in common. -/
def Dmxdev.pidKind (dev : Dmxdev NeumoDvbDemux) : Kind where
  parent := dev.filter.currentFeeds.getD .default
  type := .ts
  tsType := dev.filter.params.pesParams.tsType
  pesType := dev.filter.params.pesParams.pesType

/-- A stream that is given without conflict is noted if it is for a decoder. -/
theorem Opens.noted_opened (hvalid : Valid demux) (h : Opens demux demux' kind ss)
    (hk : (demux'.feedarray k).state = .free) (htype : kind.type = .ts)
    (hconflict : ¬Conflict demux' k kind.tsType kind.pesType)
    (hpes : demux''.pesfilter = if kind.tsType &&& TS_DECODER ≠ 0 then
      update demux'.pesfilter kind.pesType (some k) else demux'.pesfilter) :
    Noted demux demux'' kind (k :: ss) := by
  have hfree := (h.wasFree hk).2
  by_cases hdecodes : kind.tsType &&& TS_DECODER ≠ 0
  · rw [if_pos hdecodes] at hpes
    rw [Conflict, not_and, not_or, not_and_not_right] at hconflict
    obtain ⟨hlt, hnone⟩ := hconflict hdecodes
    rcases h.noted with ⟨hss, heq⟩ | ⟨s, rfl, -, -, -, heq⟩
    · refine .inr ⟨k, ?_, ⟨htype, hdecodes⟩, Nat.not_le.mp hlt, ?_, ?_⟩
      · rw [hss.resolve_right fun hno => hno ⟨htype, hdecodes⟩]
      · by_contra hsome
        rw [heq] at hnone
        exact hvalid.notDecoded hfree _ (hnone hsome)
      · rw [hpes, heq]
    · rw [heq, update_self] at hnone
      have hsk : s = k := Option.some.inj (hnone nofun)
      subst hsk
      exact absurd hk (h.own s (List.mem_singleton_self s)).1
  · rw [if_neg hdecodes] at hpes
    have hno : ¬kind.Decodes := fun h => hdecodes h.2
    rcases h.noted with ⟨-, heq⟩ | ⟨s, -, hyes, -⟩
    · exact .inl ⟨.inr hno, hpes.trans heq⟩
    · exact absurd hyes hno

theorem Opens.opened (hvalid : Valid demux) (h : Opens demux demux' kind ss)
    (hk : (demux'.feedarray k).state = .free) (htype : kind.type = .ts)
    (hconflict : ¬Conflict demux' k kind.tsType kind.pesType) (pid : ℕ) :
    Opens demux (opened demux' k pid kind.tsType kind.pesType kind.parent) kind (k :: ss) := by
  refine h.add hvalid hk (pidFeed demux' k pid kind.tsType kind.pesType kind.parent) ?_
    fun demux'' hpes => h.noted_opened hvalid hk htype hconflict hpes
  exact ⟨nofun, htype.symm, rfl, fun _ => ⟨rfl, rfl⟩⟩

theorem Opens.primed (hvalid : Valid demux) (h : Opens demux demux' kind ss)
    (hk : (demux'.feedarray k).state = .free) (htype : kind.type = .ts)
    (hconflict : ¬Conflict demux' k kind.tsType kind.pesType) (pid : ℕ) :
    Opens demux (primed demux' k pid kind.tsType kind.pesType kind.parent) kind (k :: ss) := by
  have hopened := h.ask.opened hvalid hk htype hconflict pid
  have hself := hopened.own k List.mem_cons_self
  exact hopened.setFeed List.mem_cons_self hself

theorem Opens.running (hvalid : Valid demux) (h : Opens demux demux' kind ss)
    (hk : (demux'.feedarray k).state = .free) (htype : kind.type = .ts)
    (hconflict : ¬Conflict demux' k kind.tsType kind.pesType) (pid : ℕ) :
    Opens demux (running demux' k pid kind.tsType kind.pesType kind.parent) kind (k :: ss) := by
  refine (h.primed hvalid hk htype hconflict pid).ask.setFeed List.mem_cons_self ?_
  exact ⟨nofun, htype.symm, rfl, fun _ => ⟨rfl, rfl⟩⟩

theorem Opens.stop (h : Opens demux demux' kind ss) (hs : s ∈ ss) :
    Opens demux (demux'.stopFiltering s) kind ss := by
  rw [NeumoDvbDemux.stopFiltering]
  split
  · exact h
  · obtain ⟨-, htype, hparent, hts⟩ := h.own s hs
    exact h.setFeed hs ⟨by rintro ⟨⟩, htype, hparent, hts⟩

theorem freeSectionFilter_eq (demux : NeumoDvbDemux) (feed : Feed) :
    ∃ sectionFilter, demux.freeSectionFilter feed =
      { demux with sectionFilter := sectionFilter } := by
  rw [NeumoDvbDemux.freeSectionFilter]
  split
  · exact ⟨demux.sectionFilter, rfl⟩
  · exact ⟨_, rfl⟩

theorem Opens.release (h : Opens demux demux' kind (s :: ss)) (htype : kind.type = .ts) :
    Opens demux (demux'.releaseNeumoPidStream s) kind ss := by
  obtain ⟨hstate, -, hparent, hts⟩ := h.own s List.mem_cons_self
  obtain ⟨hts, hpes⟩ := hts htype
  obtain ⟨sectionFilter, hfilter⟩ := freeSectionFilter_eq
    (demux'.setFeed s { demux'.feedarray s with state := .free }) (demux'.feedarray s)
  have hdel := @outputFeedDel_eq { demux'.setFeed s { demux'.feedarray s with state := .free } with
    sectionFilter := sectionFilter } s kind.parent (by simpa using hparent)
    (h.mem_list List.mem_cons_self)
  rw [NeumoDvbDemux.releaseNeumoPidStream, if_neg hstate]
  dsimp only
  rw [hfilter, hdel, hts, hpes]
  by_cases hdecodes : kind.tsType &&& TS_DECODER ≠ 0 ∧ kind.pesType < DMX_PES_OTHER
  · rw [if_pos hdecodes]
    refine h.drop rfl ?_ ?_ rfl rfl ?_
    · simp
    · intro j hj
      simp [update_of_ne hj]
    · rcases h.noted with ⟨hss, -⟩ | ⟨s', hs, -, -, hnone, heq⟩
      · refine (hss.resolve_left (List.cons_ne_nil s ss) ⟨htype, hdecodes.1⟩).elim
      · obtain ⟨rfl, rfl⟩ := List.cons.inj hs
        refine .inl ⟨.inl rfl, ?_⟩
        dsimp only [NeumoDvbDemux.setFeed]
        rw [heq, update_idem, ← hnone, update_eq_self]
  · rw [if_neg hdecodes]
    refine h.drop rfl ?_ ?_ rfl rfl ?_
    · simp
    · intro j hj
      simp [update_of_ne hj]
    · rcases h.noted with ⟨hss, heq⟩ | ⟨s', -, hyes, hlt, -⟩
      · exact .inl ⟨.inr (hss.resolve_left (List.cons_ne_nil s ss)), heq⟩
      · exact absurd ⟨hyes.2, hlt⟩ hdecodes

end Dmx

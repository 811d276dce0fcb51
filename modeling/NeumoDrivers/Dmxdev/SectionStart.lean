import NeumoDrivers.Dmxdev.UnionUse
import NeumoDrivers.Dmxdev.OpenFeeds

/-! Starting a section filter (`neumo-dmxdev.c`, `neumo-dvb-demux.c`).

    A section filter takes over the feed of another filter that runs on its pid, or allocates one, then
    takes a filter in it and starts it. -/

namespace Dmx
open CircularList Function Dmxdev
open Demux (FeedsNo)

section
variable {δ : Type} {ops : DmxDemux δ} {dev : Dmxdev δ} {demux : δ} {k : SecFeedNo} {e : Errno}

/-! ### The filter -/

theorem callSec_demux (hsec : dev.sec = .other k) (f : SecFeedNo → δ → δ) :
    (dev.callSec f).demux = f k dev.demux := by
  rw [callSec, hsec]
  rfl

theorem callSec_filter (dev : Dmxdev δ) (f : SecFeedNo → δ → δ) :
    (dev.callSec f).filter = dev.filter := by
  rw [callSec]
  split <;> rfl

theorem callSec_others (dev : Dmxdev δ) (f : SecFeedNo → δ → δ) :
    (dev.callSec f).others = dev.others := by
  rw [callSec]
  split <;> rfl

theorem feedRestart_filter (ops : DmxDemux δ) (dev : Dmxdev δ) :
    (feedRestart ops dev).filter = dev.filter := by
  rw [feedRestart]
  split
  · rfl
  · exact callSec_filter dev _

theorem sharedSec_sec (ops : DmxDemux δ) (dev : Dmxdev δ) (k : SecFeedNo) :
    (sharedSec ops dev k).sec = .other k :=
  sec_setSec _ (some k)

theorem ownSec_sec (dev : Dmxdev δ) (k : SecFeedNo) (demux : δ) :
    (ownSec dev k demux).sec = .other k :=
  sec_setSec _ (some k)

/-- The demux after `dvb_dmxdev_feed_restart`. -/
def restarted (ops : DmxDemux δ) (dev : Dmxdev δ) (k : SecFeedNo) (demux : δ) : δ :=
  match dev.others.find? fun user => user.Runs dev.filter.params.secPid with
  | some user => (ops.startSectionFiltering user.sec demux).2
  | none => ops.releaseSectionFeed k demux

theorem feedRestart_demux (hsec : dev.sec = .other k) :
    (feedRestart ops dev).demux = restarted ops dev k dev.demux := by
  have hfirst := restartFirst_eq dev.filter.params.secPid dev.others
  rw [feedRestart, restarted]
  cases hresult : restartFirst dev.filter.params.secPid dev.others with
  | mk first others =>
    rw [hresult] at hfirst
    cases hfind : dev.others.find? fun user => user.Runs dev.filter.params.secPid with
    | none =>
      rw [hfind] at hfirst
      obtain rfl : first = none := hfirst
      exact callSec_demux hsec _
    | some user =>
      rw [hfind] at hfirst
      obtain rfl : first = some user.sec := hfirst
      rfl

theorem startSecfilter_state (ops : DmxDemux δ) (dev : Dmxdev δ) (k : SecFeedNo) :
    (startSecfilter ops dev k).2.filter.state = dev.filter.state := by
  rw [startSecfilter]
  dsimp only
  split
  · rw [callSec_filter, feedRestart_filter, callSec_filter]
  · rw [callSec_filter, setSecfilter, callSec_filter]

theorem startSecfilter_ok {f : SecFilterNo} (hsec : dev.sec = .other k)
    (halloc : ops.allocateSectionFilter k dev.demux = (.ok f, demux)) :
    (startSecfilter ops dev k).1 = (ops.startSectionFiltering k demux).1 ∧
      (startSecfilter ops dev k).2.demux = (ops.startSectionFiltering k demux).2 := by
  have hdemux := callSec_demux hsec fun k demux => (ops.allocateSectionFilter k demux).2
  have hfilter := callSec_filter dev fun k demux => (ops.allocateSectionFilter k demux).2
  rw [halloc] at hdemux
  rw [startSecfilter]
  dsimp only
  generalize dev.callSec (fun k demux => (ops.allocateSectionFilter k demux).2) = dev' at *
  rw [halloc]
  have hsec' : (dev'.setSecfilter (some f)).sec = .other k :=
    (congrArg (fun filter => filter.feed.next none) hfilter).trans hsec
  have hdemux' : (dev'.setSecfilter (some f)).demux = demux := hdemux
  dsimp only
  rw [callSec_demux hsec', hdemux']
  exact ⟨rfl, rfl⟩

/-- Without a filter the feed goes back, and is started all the same. -/
theorem startSecfilter_error (hsec : dev.sec = .other k)
    (halloc : ops.allocateSectionFilter k dev.demux = (.error e, demux)) :
    (startSecfilter ops dev k).1 = .error e ∧ (startSecfilter ops dev k).2.demux =
      (ops.startSectionFiltering k (restarted ops dev k demux)).2 := by
  have hdemux := callSec_demux hsec fun k demux => (ops.allocateSectionFilter k demux).2
  have hfilter := callSec_filter dev fun k demux => (ops.allocateSectionFilter k demux).2
  have hothers := callSec_others dev fun k demux => (ops.allocateSectionFilter k demux).2
  rw [halloc] at hdemux
  rw [startSecfilter]
  dsimp only
  generalize dev.callSec (fun k demux => (ops.allocateSectionFilter k demux).2) = dev' at *
  rw [halloc]
  have hsec' : dev'.sec = .other k :=
    (congrArg (fun filter => filter.feed.next none) hfilter).trans hsec
  have hsec'' : (feedRestart ops dev').sec = .other k :=
    (congrArg (fun filter => filter.feed.next none) (feedRestart_filter ops dev')).trans hsec'
  have hrestarted : restarted ops dev' k demux = restarted ops dev k demux := by
    rw [restarted, restarted, hothers, hfilter]
  dsimp only
  rw [callSec_demux hsec'', feedRestart_demux hsec', hdemux, hrestarted]
  exact ⟨rfl, rfl⟩

/-- A start of a section filter that takes over a feed leaves the filter in the state of one that has
    been stopped; otherwise the state stays as it is. -/
theorem startSection_state (ops : DmxDemux δ) (htype : dev.filter.type = .sec) :
    (startSection ops dev).2.filter.state = .setPes ∨
      (startSection ops dev).2.filter.state = dev.filter.state := by
  cases hfind : dev.others.find? fun user => user.Runs dev.filter.params.secPid with
  | some user =>
    rw [startSection_shared ops htype hfind, startSecfilter_state]
    exact .inl rfl
  | none =>
    cases halloc : ops.allocateSectionFeed dev.filter.params.secPid dev.filter.params.checkCrc
      dev.filter.currentFeeds dev.demux with
    | mk result demux =>
      cases result with
      | error e =>
        rw [startSection_refused ops hfind halloc]
        exact .inr rfl
      | ok k =>
        rw [startSection_own ops hfind halloc, startSecfilter_state]
        exact .inr rfl

end

/-! ### The demux -/

variable {demux demux' : NeumoDvbDemux} {k : SecFeedNo} {ss : List ℕ}

/-- The section feed in slot `k`, before it has a filter. -/
def secFeed (demux : NeumoDvbDemux) (k pid : ℕ) (parent : FeedsNo) : Feed :=
  { demux.feedarray k with
    state := .ready, type := .sec, pid := pid, sectionFilter := []
    parentFeeds := parent, isFiltering := false, priv := false }

/-- Slot `k` is taken by a section feed, which is listed. -/
def openedSec (demux : NeumoDvbDemux) (k pid : ℕ) (parent : FeedsNo) : NeumoDvbDemux :=
  (demux.setFeed k (secFeed demux k pid parent)).outputFeedAdd k

theorem openedSec_feedarray (pid : ℕ) (parent : FeedsNo) :
    (openedSec demux k pid parent).feedarray =
      update demux.feedarray k (secFeed demux k pid parent) := by
  simp [openedSec]

/-- A feed may be changed after it has been listed. -/
theorem outputFeedAdd_setFeed {feed feed' : Feed} (h : feed'.parentFeeds = feed.parentFeeds) :
    ((demux.setFeed k feed).outputFeedAdd k).setFeed k feed' =
      (demux.setFeed k feed').outputFeedAdd k := by
  rw [NeumoDvbDemux.outputFeedAdd, NeumoDvbDemux.outputFeedAdd, setFeed_feedarray,
    setFeed_feedarray, update_self, update_self, h]
  by_cases hmem : k ∈ demux.outputFeedList feed.parentFeeds
  · refine Eq.trans ?_ (if_pos hmem).symm
    refine (congrArg (NeumoDvbDemux.setFeed · k feed') (if_pos hmem)).trans ?_
    simp [NeumoDvbDemux.setFeed]
  · refine Eq.trans ?_ (if_neg hmem).symm
    refine (congrArg (NeumoDvbDemux.setFeed · k feed') (if_neg hmem)).trans ?_
    simp [NeumoDvbDemux.setFeed]

/-- What `dvbdmx_allocate_section_feed` can do. -/
theorem allocateSectionFeed_cases (demux : NeumoDvbDemux) (pid : ℕ) (parent : Option FeedsNo) :
    (∃ e demux', demux.allocateSectionFeed pid parent = (.error e, demux') ∧
        (demux' = demux ∨ demux' = demux.ask)) ∨
      ∃ k, demux.feedAlloc = some k ∧ demux.allocateSectionFeed pid parent =
        (.ok k, openedSec demux.ask k pid (parent.getD .default)) := by
  rw [NeumoDvbDemux.allocateSectionFeed]
  split
  · exact .inl ⟨_, _, rfl, .inl rfl⟩
  · split
    · exact .inl ⟨_, _, rfl, .inr rfl⟩
    · dsimp only
      split
      · exact .inl ⟨_, _, rfl, .inr rfl⟩
      · rename_i k hk
        exact .inr ⟨k, hk, congrArg (Prod.mk _) (outputFeedAdd_setFeed rfl)⟩

/-- What `dmx_section_feed_start_filtering` can do. -/
theorem startSectionFiltering_cases (demux : NeumoDvbDemux) (k : SecFeedNo) :
    (∃ e, demux.startSectionFiltering k = (.error e, demux.ask)) ∨
      (demux.feedarray k).isFiltering = false ∧ (demux.feedarray k).sectionFilter ≠ [] ∧
        demux.startSectionFiltering k = (.ok (), demux.ask.setFeed k
          { demux.feedarray k with isFiltering := true, state := .go }) := by
  rw [NeumoDvbDemux.startSectionFiltering]
  dsimp only
  split
  · exact .inl ⟨_, rfl⟩
  · split
    · exact .inl ⟨_, rfl⟩
    · rename_i hidle
      split
      · exact .inl ⟨_, rfl⟩
      · rename_i hsome
        split
        · exact .inl ⟨_, rfl⟩
        · exact .inr ⟨Bool.eq_false_iff.mpr hidle, hsome, rfl⟩

/-- The section feed with a filter more. -/
def filtered (demux : NeumoDvbDemux) (k : SecFeedNo) (f : SecFilterNo) : NeumoDvbDemux :=
  (demux.setSectionFilter f ⟨.ready, k⟩).setFeed k
    { demux.feedarray k with sectionFilter := f :: (demux.feedarray k).sectionFilter }

theorem filtered_feedarray (f : SecFilterNo) : (filtered demux k f).feedarray =
    update demux.feedarray k
      { demux.feedarray k with sectionFilter := f :: (demux.feedarray k).sectionFilter } := rfl

/-- What `dmx_section_feed_allocate_filter` can do. -/
theorem allocateSectionFilter_cases (demux : NeumoDvbDemux) (k : SecFeedNo) :
    (∃ e, demux.allocateSectionFilter k = (.error e, demux.ask)) ∨
      ∃ f, demux.sectionFilterAlloc = some f ∧
        demux.allocateSectionFilter k = (.ok f, filtered demux.ask k f) := by
  rw [NeumoDvbDemux.allocateSectionFilter]
  split
  · exact .inl ⟨_, rfl⟩
  · split
    · exact .inl ⟨_, rfl⟩
    · rename_i f hf
      exact .inr ⟨f, hf, rfl⟩

/-! ### Opening and closing a section feed -/

/-- The kind of a section feed. -/
def secKind (parent : FeedsNo) : Kind := ⟨parent, .sec, 0, 0⟩

theorem not_decodes_sec (parent : FeedsNo) : ¬(secKind parent).Decodes := by
  rintro ⟨htype, -⟩
  cases htype

theorem secKind_of {parent : FeedsNo} {feed : Feed} (hstate : feed.state ≠ .free)
    (htype : feed.type = .sec) (hparent : feed.parentFeeds = parent) : (secKind parent).Of feed := by
  refine ⟨hstate, htype, hparent, fun hts => ?_⟩
  cases hts

theorem opens_openedSec (hvalid : Valid demux) (hk : (demux.feedarray k).state = .free) (pid : ℕ)
    (parent : FeedsNo) :
    Opens demux (openedSec demux.ask k pid parent) (secKind parent) [k] := by
  have hopens : Opens demux demux.ask (secKind parent) [] := opens_nil.mpr (.ask demux)
  have hpes : (openedSec demux.ask k pid parent).pesfilter = demux.pesfilter := by
    rw [openedSec, NeumoDvbDemux.outputFeedAdd]
    split <;> rfl
  have hadd := hopens.add hvalid hk (secFeed demux k pid parent) (secKind_of (by rintro ⟨⟩) rfl rfl)
    fun demux'' (hpes : demux''.pesfilter = demux.pesfilter) =>
      .inl ⟨.inr (not_decodes_sec parent), hpes⟩
  rw [← hpes] at hadd
  exact hadd

theorem Opens.filtered {parent : FeedsNo} (h : Opens demux demux' (secKind parent) ss)
    (hk : k ∈ ss) (f : SecFilterNo) : Opens demux (filtered demux' k f) (secKind parent) ss := by
  obtain ⟨hstate, htype, hparent, -⟩ := h.own k hk
  have hset : Opens demux (demux'.setFeed k { demux'.feedarray k with
      sectionFilter := f :: (demux'.feedarray k).sectionFilter }) (secKind parent) ss :=
    h.setFeed hk (secKind_of hstate htype hparent)
  exact hset.same ⟨rfl, fun _ => rfl, rfl, rfl, rfl, rfl, rfl⟩

/-- Releasing the newest section feed takes back its allocation. -/
theorem Opens.releaseSec {parent : FeedsNo} (h : Opens demux demux' (secKind parent) (k :: ss)) :
    Opens demux (demux'.releaseSectionFeed k) (secKind parent) ss := by
  obtain ⟨hstate, -, hparent, -⟩ := h.own k List.mem_cons_self
  have hdel := @outputFeedDel_eq (demux'.setFeed k { demux'.feedarray k with state := .free }) k
    (secKind parent).parent (by simpa using hparent) (h.mem_list List.mem_cons_self)
  rw [NeumoDvbDemux.releaseSectionFeed, if_neg hstate]
  dsimp only
  rw [hdel]
  refine h.drop rfl ?_ ?_ rfl rfl ?_
  · simp
  · intro j hj
    simp [update_of_ne hj]
  · rcases h.noted with ⟨-, heq⟩ | ⟨s, -, hyes, -⟩
    · exact .inl ⟨.inr (not_decodes_sec parent), heq⟩
    · exact absurd hyes (not_decodes_sec parent)

end Dmx

import NeumoDrivers.Dmxdev.WantedPids
import NeumoDrivers.Dmxdev.FailedStart

/-! Stopping a filter and starting it again (`neumo-dmxdev.c`).

    A start opens the feeds of the entries from the end of the list, a stop closes them from its
    head, so a stop takes back what the start did, and the next start finds the same slots. That is
    so for pids and for sections. For an embedded stream it is not: a stop leaves the stream in its
    entry, and the stream's container as the parent of whatever is started next. -/

namespace Dmx
open CircularList Function Dmxdev
open Demux (FeedsNo BbfNo)

variable {demux a b : NeumoDvbDemux} {kind : Kind} {ss : List ℕ} {k pid : ℕ}
variable {dev dev' devb devb' : Dmxdev NeumoDvbDemux} {i : EntryNo}

/-! ### The same feeds, opened twice -/

theorem Noted.pesfilter_eq (ha : Noted demux a kind ss) (hb : Noted demux b kind ss) :
    b.pesfilter = a.pesfilter := by
  rcases ha with ⟨hssa, ha⟩ | ⟨s, rfl, hdec, -, -, ha⟩
  · rcases hb with ⟨-, hb⟩ | ⟨s, rfl, hdec, -, -, hb⟩
    · rw [hb, ha]
    · exact absurd hdec (hssa.resolve_left (List.cons_ne_nil s []))
  · rcases hb with ⟨hssb, -⟩ | ⟨s', hs, -, -, -, hb⟩
    · exact absurd hdec (hssb.resolve_left (List.cons_ne_nil s []))
    · obtain ⟨rfl, -⟩ := List.cons.inj hs
      rw [hb, ha]

/-- Two demuxes with the same feeds more, and these alike. -/
theorem Opens.same_view (ha : Opens demux a kind ss) (hb : Opens demux b kind ss)
    (hview : ∀ s ∈ ss, (b.feedarray s).view = (a.feedarray s).view) : SameFeeds a b := by
  refine ⟨hb.feednum.trans ha.feednum.symm, fun s => ?_, hb.list.trans ha.list.symm,
    ha.noted.pesfilter_eq hb.noted, hb.containers.trans ha.containers.symm,
    hb.embs.trans ha.embs.symm, hb.bbfs.trans ha.bbfs.symm⟩
  by_cases hs : s ∈ ss
  · exact hview s hs
  · exact (hb.view s hs).trans (ha.view s hs).symm

/-- A stream of a pid is started alike in demuxes with the same feeds. -/
theorem running_same (hvalid : Valid a) (hsame : SameFeeds a b) {tsType pesType : ℕ}
    {parent : FeedsNo} (hk : (a.feedarray k).state = .free)
    (hconflict : ¬Conflict a k tsType pesType) :
    SameFeeds (running a k pid tsType pesType parent) (running b k pid tsType pesType parent) := by
  have hkb : (b.feedarray k).state = .free := (hsame.free_iff k).mpr hk
  have hconflictb : ¬Conflict b k tsType pesType := by
    rw [Conflict, hsame.pesfilter]
    exact hconflict
  have hopen : ∀ {c : NeumoDvbDemux}, SameFeeds a c → Opens a c ⟨parent, .ts, tsType, pesType⟩ [] :=
    fun hc => opens_nil.mpr hc
  have ha := (hopen (.refl a)).running hvalid hk rfl hconflict pid
  have hb := (hopen hsame).running hvalid hkb rfl hconflictb pid
  refine ha.same_view hb fun s hs => ?_
  obtain rfl := List.mem_singleton.mp hs
  have hgo : DvbDmxState.go ≠ .free := by rintro ⟨⟩
  rw [running_feedarray, running_feedarray, update_self, update_self, Feed.view_ts hgo rfl,
    Feed.view_ts hgo rfl]
  rfl

/-! ### The loops -/

/-- The entry is for a pid, and has the stream in slot `s`. -/
def HasStream (dev : Dmxdev NeumoDvbDemux) (i : EntryNo) (s : ℕ) : Prop :=
  ∃ pid, dev.entries i = .pid pid (some s)

/-- Nothing of the filter changes but its entries. -/
structure SameFilter (dev dev' : Dmxdev NeumoDvbDemux) : Prop where
  filter : dev'.filter = dev.filter
  others : dev'.others = dev.others
  added : dev'.added = dev.added
  nextEntry : dev'.nextEntry = dev.nextEntry

theorem SameFilter.refl (dev : Dmxdev NeumoDvbDemux) : SameFilter dev dev := ⟨rfl, rfl, rfl, rfl⟩

/-- An entry for a pid that is started takes the first free slot. -/
theorem startEntry_pid {stream : Option PidStreamNo} (hentry : dev.entries i = .pid pid stream)
    (hstart : startEntry dvbDmx dev i = (.ok (), dev')) :
    ∃ s, dev.demux.feedAlloc = some s ∧ ¬dev.Conflict s ∧
      dev' = { dev with demux := dev.running s pid }.setEntry i (.pid pid (some s)) := by
  rw [startEntry, hentry] at hstart
  have hcases := startPidFeed_cases dev i pid
  dsimp only at hstart
  rw [hstart] at hcases
  generalize hresult : ((.ok (), dev') : Except Errno Unit × Dmxdev NeumoDvbDemux) = result
    at hcases
  cases hcases with
  | refused e demux _ _ => cases hresult
  | leaked s _ _ _ => cases hresult
  | stopped s e _ _ _ _ => cases hresult
  | started s hs hconflict _ _ => exact ⟨s, hs, hconflict, congrArg Prod.snd hresult⟩

theorem startEntries_cons {is : List EntryNo}
    (h : startEntries dvbDmx dev (i :: is) = (.ok (), dev')) :
    ∃ dev₁, startEntry dvbDmx dev i = (.ok (), dev₁) ∧
      startEntries dvbDmx dev₁ is = (.ok (), dev') := by
  rw [startEntries] at h
  cases hstart : startEntry dvbDmx dev i with
  | mk result dev₁ =>
    rw [hstart] at h
    cases result with
    | error e => cases h
    | ok _ => exact ⟨dev₁, rfl, h⟩

/-- The loop opens a feed for each entry, the last one first in the list of its container. -/
theorem startEntries_opens (hvalid : Valid demux) (is : List EntryNo) :
    ∀ {dev : Dmxdev NeumoDvbDemux} {ss : List ℕ}, Opens demux dev.demux dev.pidKind ss →
      is.Nodup → (∀ i ∈ is, ∃ pid stream, dev.entries i = .pid pid stream) →
      startEntries dvbDmx dev is = (.ok (), dev') →
      ∃ new, Opens demux dev'.demux dev.pidKind (new ++ ss) ∧
        List.Forall₂ (HasStream dev') is.reverse new ∧ SameFilter dev dev' ∧
        ∀ j, j ∉ is → dev'.entries j = dev.entries j := by
  induction is with
  | nil =>
    intro dev ss h _ _ hloop
    rw [startEntries, Prod.mk.injEq] at hloop
    obtain ⟨-, rfl⟩ := hloop
    exact ⟨[], h, .nil, .refl dev, fun _ _ => rfl⟩
  | cons i is ih =>
    intro dev ss h hnodup hpids hloop
    obtain ⟨pid, stream, hentry⟩ := hpids i List.mem_cons_self
    obtain ⟨dev₁, hstart, hrest⟩ := startEntries_cons hloop
    obtain ⟨s, hs, hconflict, rfl⟩ := startEntry_pid hentry hstart
    rw [List.nodup_cons] at hnodup
    have hrunning : Opens demux (dev.running s pid) dev.pidKind (s :: ss) :=
      h.running hvalid (feedAlloc_free hs) rfl hconflict pid
    have hkept : ∀ j, j ≠ i → ({ dev with demux := dev.running s pid }.setEntry i
        (.pid pid (some s))).entries j = dev.entries j := fun j hj => update_of_ne hj ..
    obtain ⟨new, hopens, hstreams, hfilter, hothers⟩ := @ih _ (s :: ss) hrunning hnodup.2
      (fun j hj => by
        rw [hkept j fun heq => hnodup.1 (heq ▸ hj)]
        exact hpids j (List.mem_cons_of_mem _ hj)) hrest
    have hself : HasStream dev' i s := ⟨pid, (hothers i hnodup.1).trans (update_self ..)⟩
    refine ⟨new ++ [s], ?_, ?_,
      ⟨hfilter.filter, hfilter.others, hfilter.added, hfilter.nextEntry⟩, ?_⟩
    · rw [List.append_assoc]
      exact hopens
    · rw [List.reverse_cons]
      exact List.rel_append hstreams (.cons hself .nil)
    · intro j hj
      rw [List.mem_cons, not_or] at hj
      exact (hothers j hj.2).trans (hkept j hj.1)

theorem freeSectionFilter_crashed (demux : NeumoDvbDemux) (feed : Feed) :
    (demux.freeSectionFilter feed).crashed = demux.crashed := by
  rw [NeumoDvbDemux.freeSectionFilter]
  split <;> rfl

theorem outputFeedDel_crashed (demux : NeumoDvbDemux) (s : ℕ) :
    (demux.outputFeedDel s).crashed = demux.crashed := by
  rw [NeumoDvbDemux.outputFeedDel]
  split <;> rfl

theorem stopFiltering_crashed (demux : NeumoDvbDemux) (s : ℕ) :
    (demux.stopFiltering s).crashed = demux.crashed := by
  rw [NeumoDvbDemux.stopFiltering]
  split <;> rfl

theorem releaseNeumoPidStream_crashed (demux : NeumoDvbDemux) (s : ℕ) :
    (demux.releaseNeumoPidStream s).crashed = demux.crashed := by
  have hdel := outputFeedDel_crashed ((demux.setFeed s { demux.feedarray s with
    state := .free }).freeSectionFilter (demux.feedarray s)) s
  rw [freeSectionFilter_crashed] at hdel
  rw [NeumoDvbDemux.releaseNeumoPidStream]
  split
  · rfl
  · dsimp only
    split
    · exact hdel
    · exact hdel

/-- The feeds of the entries are stopped, and stay where they are. -/
theorem stopEntries_opens (is : List EntryNo) :
    ∀ {dev : Dmxdev NeumoDvbDemux}, Opens demux dev.demux kind ss →
      (∀ i ∈ is, ∃ s ∈ ss, HasStream dev i s) →
      Opens demux (is.foldl (stopEntry dvbDmx) dev).demux kind ss ∧
        (is.foldl (stopEntry dvbDmx) dev).entries = dev.entries ∧
        (is.foldl (stopEntry dvbDmx) dev).demux.crashed = dev.demux.crashed := by
  induction is with
  | nil => exact fun h _ => ⟨h, rfl, rfl⟩
  | cons i is ih =>
    intro dev h hstreams
    obtain ⟨s, hs, pid, hentry⟩ := hstreams i List.mem_cons_self
    have hstep : stopEntry dvbDmx dev i = dev.call (dvbDmx.stopFiltering s) := by
      rw [stopEntry, hentry]
    have hopens : Opens demux (stopEntry dvbDmx dev i).demux kind ss := by
      rw [hstep]
      exact h.stop hs
    have hentries : (stopEntry dvbDmx dev i).entries = dev.entries := by
      rw [hstep]
      rfl
    obtain ⟨hall, hsame, hcrashed⟩ := ih hopens fun j hj => by
      obtain ⟨s', hs', pid', hentry'⟩ := hstreams j (List.mem_cons_of_mem _ hj)
      exact ⟨s', hs', pid', hentries ▸ hentry'⟩
    refine ⟨hall, hsame.trans hentries, hcrashed.trans ?_⟩
    rw [hstep]
    exact stopFiltering_crashed dev.demux s

/-- The feeds of the entries are released in the order of the list of their container. -/
theorem releaseEntries_opens (htype : kind.type = .ts) (is : List EntryNo) :
    ∀ {dev : Dmxdev NeumoDvbDemux} {ss : List ℕ}, Opens demux dev.demux kind ss → is.Nodup →
      List.Forall₂ (HasStream dev) is ss →
      SameFeeds demux (is.foldl (releaseEntry dvbDmx) dev).demux ∧
        (is.foldl (releaseEntry dvbDmx) dev).demux.crashed = dev.demux.crashed ∧
        (∀ i ∈ is, ∃ pid stream, dev.entries i = .pid pid stream ∧
          (is.foldl (releaseEntry dvbDmx) dev).entries i = .pid pid none) ∧
        ∀ j, j ∉ is → (is.foldl (releaseEntry dvbDmx) dev).entries j = dev.entries j := by
  induction is with
  | nil =>
    intro dev ss h _ hstreams
    cases hstreams
    exact ⟨opens_nil.mp h, rfl, nofun, fun _ _ => rfl⟩
  | cons i is ih =>
    intro dev ss h hnodup hstreams
    obtain ⟨s, ss, hself, hrest, rfl⟩ := List.forall₂_cons_left_iff.mp hstreams
    obtain ⟨pid, hentry⟩ := hself
    rw [List.nodup_cons] at hnodup
    have hstep : releaseEntry dvbDmx dev i =
        (dev.call (dvbDmx.releaseNeumoPidStream s)).setEntry i (.pid pid none) := by
      rw [releaseEntry, hentry]
    have hkept : ∀ j, j ≠ i → (releaseEntry dvbDmx dev i).entries j = dev.entries j := by
      intro j hj
      rw [hstep]
      exact update_of_ne hj ..
    have hopens : Opens demux (releaseEntry dvbDmx dev i).demux kind ss := by
      rw [hstep]
      exact h.release htype
    have hstreams' : List.Forall₂ (HasStream (releaseEntry dvbDmx dev i)) is ss := by
      have hne : ∀ j ∈ is, j ≠ i := fun j hj heq => hnodup.1 (heq ▸ hj)
      refine List.Forall₂.imp ?_ ((List.forall₂_and_left is ss).mpr ⟨hne, hrest⟩)
      rintro j s' ⟨hj, pid', hentry'⟩
      exact ⟨pid', (hkept j hj).trans hentry'⟩
    obtain ⟨hsame, hcrashed, hdone, hothers⟩ := ih hopens hnodup.2 hstreams'
    refine ⟨hsame, hcrashed.trans ?_, ?_, ?_⟩
    · rw [hstep]
      exact releaseNeumoPidStream_crashed dev.demux s
    · intro j hj
      rcases List.mem_cons.mp hj with rfl | hj
      · refine ⟨pid, some s, hentry, (hothers j hnodup.1).trans ?_⟩
        rw [hstep]
        exact update_self ..
      · obtain ⟨pid', stream, hbefore, hafter⟩ := hdone j hj
        exact ⟨pid', stream, (hkept j fun heq => hnodup.1 (heq ▸ hj)).symm.trans hbefore, hafter⟩
    · intro j hj
      rw [List.mem_cons, not_or] at hj
      exact (hothers j hj.2).trans (hkept j hj.1)

/-- The same entries, started from demuxes with the same feeds. -/
theorem startEntries_same (is : List EntryNo) :
    ∀ {dev devb : Dmxdev NeumoDvbDemux}, Valid dev.demux → SameFeeds dev.demux devb.demux →
      devb.filter.params = dev.filter.params → devb.filter.currentFeeds = dev.filter.currentFeeds →
      is.Nodup →
      (∀ i ∈ is, ∃ pid s t, dev.entries i = .pid pid s ∧ devb.entries i = .pid pid t) →
      startEntries dvbDmx dev is = (.ok (), dev') →
      startEntries dvbDmx devb is = (.ok (), devb') → SameFeeds dev'.demux devb'.demux := by
  induction is with
  | nil =>
    intro dev devb _ hsame _ _ _ _ hloop hloopb
    rw [startEntries, Prod.mk.injEq] at hloop hloopb
    obtain ⟨-, rfl⟩ := hloop
    obtain ⟨-, rfl⟩ := hloopb
    exact hsame
  | cons i is ih =>
    intro dev devb hvalid hsame hparams hfeeds hnodup hpids hloop hloopb
    obtain ⟨pid, s, t, hentry, hentryb⟩ := hpids i List.mem_cons_self
    obtain ⟨dev₁, hstart, hrest⟩ := startEntries_cons hloop
    obtain ⟨devb₁, hstartb, hrestb⟩ := startEntries_cons hloopb
    obtain ⟨k, hk, hconflict, rfl⟩ := startEntry_pid hentry hstart
    obtain ⟨kb, hkb, -, rfl⟩ := startEntry_pid hentryb hstartb
    obtain rfl : k = kb := by
      rw [hsame.feedAlloc, hk] at hkb
      exact Option.some.inj hkb
    rw [List.nodup_cons] at hnodup
    have hopens : Opens dev.demux dev.demux dev.pidKind [] := opens_nil.mpr (.refl _)
    have hvalid' : Valid (dev.running k pid) :=
      (hopens.running hvalid (feedAlloc_free hk) rfl hconflict pid).valid hvalid
    have hsame' : SameFeeds (dev.running k pid) (devb.running k pid) := by
      rw [Dmxdev.running, Dmxdev.running, hparams, hfeeds]
      exact running_same hvalid hsame (feedAlloc_free hk) hconflict
    refine @ih ({ dev with demux := dev.running k pid }.setEntry i (.pid pid (some k)))
      ({ devb with demux := devb.running k pid }.setEntry i (.pid pid (some k))) hvalid' hsame'
      hparams hfeeds hnodup.2 (fun j hj => ?_) hrest hrestb
    obtain ⟨pid', s', t', hj', hjb'⟩ := hpids j (List.mem_cons_of_mem _ hj)
    have hji : j ≠ i := fun heq => hnodup.1 (heq ▸ hj)
    exact ⟨pid', s', t', (update_of_ne hji ..).trans hj', (update_of_ne hji ..).trans hjb'⟩

/-! ### Section feeds -/

/-- The section feed with a filter more, running. -/
def served (demux : NeumoDvbDemux) (k : SecFeedNo) (f : SecFilterNo) : NeumoDvbDemux :=
  (filtered demux.ask k f).ask.setFeed k { demux.feedarray k with
    sectionFilter := f :: (demux.feedarray k).sectionFilter, isFiltering := true, state := .go }

/-- A filter is given in a section feed that is not running, and the feed started. -/
theorem served_of_ok {demux demux' : NeumoDvbDemux} {f : SecFilterNo}
    (halloc : demux.allocateSectionFilter k = (.ok f, demux'))
    (hok : (demux'.startSectionFiltering k).1 = .ok ()) :
    demux.sectionFilterAlloc = some f ∧ (demux'.startSectionFiltering k).2 = served demux k f := by
  rcases allocateSectionFilter_cases demux k with ⟨e, heq⟩ | ⟨f', hf, heq⟩
  · rw [heq] at halloc
    cases halloc
  · rw [heq, Prod.mk.injEq, Except.ok.injEq] at halloc
    obtain ⟨rfl, rfl⟩ := halloc
    refine ⟨hf, ?_⟩
    rcases startSectionFiltering_cases (filtered demux.ask k f') k with ⟨e, heq⟩ | ⟨-, -, heq⟩
    · rw [heq] at hok
      cases hok
    · rw [heq, served, filtered_feedarray, update_self]
      rfl

/-- The section feed is stopped and its newest filter released. -/
def closedSec (demux : NeumoDvbDemux) (k : SecFeedNo) (f : SecFilterNo) : NeumoDvbDemux :=
  (demux.stopSectionFiltering k).releaseSectionFilter k f

/-- The demux apart from the section filters and the questions asked. -/
structure SameApart (demux demux' : NeumoDvbDemux) : Prop where
  eq : ∃ sectionFilter asked, demux' = { demux with sectionFilter := sectionFilter, asked := asked }
  free : ∀ g, (demux'.sectionFilter g).state = .free ↔ (demux.sectionFilter g).state = .free

theorem SameApart.feeds (h : SameApart a b) : SameFeeds a b := by
  obtain ⟨sectionFilter, asked, rfl⟩ := h.eq
  exact ⟨rfl, fun _ => rfl, rfl, rfl, rfl, rfl, rfl⟩

theorem SameApart.sectionFilterAlloc (h : SameApart a b) :
    b.sectionFilterAlloc = a.sectionFilterAlloc := by
  have hnum : b.filternum = a.filternum := by
    obtain ⟨sectionFilter, asked, heq⟩ := h.eq
    rw [heq]
  rw [NeumoDvbDemux.sectionFilterAlloc, NeumoDvbDemux.sectionFilterAlloc, hnum]
  simp only [h.free]

/-- A section feed that was not running is as before when its new filter has been released. -/
theorem closedSec_served {f : SecFilterNo} (hf : demux.sectionFilterAlloc = some f)
    (hstate : (demux.feedarray k).state = .ready)
    (hidle : (demux.feedarray k).isFiltering = false) :
    SameApart demux (closedSec (served demux k f) k f) := by
  have hfree : (demux.sectionFilter f).state = .free := by simpa using List.find?_some hf
  have hfeed : { demux.feedarray k with state := .ready, isFiltering := false } =
      demux.feedarray k := by
    rw [← hstate, ← hidle]
  have heq : closedSec (served demux k f) k f = { demux with
      sectionFilter := update demux.sectionFilter f ⟨.free, k⟩, asked := demux.asked + 1 + 1 } := by
    simp only [closedSec, served, filtered, NeumoDvbDemux.stopSectionFiltering,
      NeumoDvbDemux.releaseSectionFilter, NeumoDvbDemux.setFeed, NeumoDvbDemux.setSectionFilter,
      NeumoDvbDemux.ask, update_self, update_idem, ne_eq, not_true_eq_false, if_false,
      Bool.false_eq_true, List.erase_cons_head, hfeed, update_eq_self]
  rw [heq]
  refine ⟨⟨_, _, rfl⟩, fun g => ?_⟩
  by_cases hg : g = f
  · subst hg
    simp [hfree]
  · simp [update_of_ne hg]

theorem served_same {f : SecFilterNo} (h : SameApart a b) :
    SameFeeds (served a k f) (served b k f) := by
  obtain ⟨sectionFilter, asked, rfl⟩ := h.eq
  exact ⟨rfl, fun _ => rfl, rfl, rfl, rfl, rfl, rfl⟩

/-- A feed that is not running is as before when it has been started, or not, and stopped. -/
theorem stop_start_same (hstate : (demux.feedarray k).state = .ready)
    (hidle : (demux.feedarray k).isFiltering = false) :
    SameApart demux ((demux.startSectionFiltering k).2.stopSectionFiltering k) := by
  have hfeed : { demux.feedarray k with state := .ready, isFiltering := false } =
      demux.feedarray k := by
    rw [← hstate, ← hidle]
  rcases startSectionFiltering_cases demux k with ⟨e, heq⟩ | ⟨-, -, heq⟩
  · rw [heq]
    refine ⟨⟨demux.sectionFilter, demux.asked + 1, ?_⟩, fun _ => Iff.rfl⟩
    simp only [NeumoDvbDemux.stopSectionFiltering, NeumoDvbDemux.setFeed, NeumoDvbDemux.ask, hfeed,
      update_eq_self]
  · rw [heq]
    refine ⟨⟨demux.sectionFilter, demux.asked + 1, ?_⟩, fun _ => Iff.rfl⟩
    simp only [NeumoDvbDemux.stopSectionFiltering, NeumoDvbDemux.setFeed, NeumoDvbDemux.ask,
      update_self, update_idem, hfeed, update_eq_self]

theorem SameApart.trans {c : NeumoDvbDemux} (h : SameApart a b) (h' : SameApart b c) :
    SameApart a c := by
  obtain ⟨⟨sf, n, rfl⟩, hfree⟩ := h
  obtain ⟨⟨sf', n', rfl⟩, hfree'⟩ := h'
  exact ⟨⟨sf', n', rfl⟩, fun g => (hfree' g).trans (hfree g)⟩

theorem Opens.of_same (hsame : SameFeeds demux a) (h : Opens a b kind ss) :
    Opens demux b kind ss := by
  refine ⟨h.feednum.trans hsame.feednum, h.nodup, fun s hs => (hsame.free_iff s).mp (h.free s hs),
    h.own, fun s hs => (h.view s hs).trans (hsame.view s), ?_, ?_, h.embs.trans hsame.embs,
    h.bbfs.trans hsame.bbfs, ?_⟩
  · rw [h.list, hsame.list]
  · rw [h.containers, hsame.containers]
  · have hnoted := h.noted
    rw [Noted, hsame.pesfilter] at hnoted
    exact hnoted

theorem Opens.served {parent : FeedsNo} (h : Opens demux a (secKind parent) ss) (hk : k ∈ ss)
    (f : SecFilterNo) : Opens demux (served a k f) (secKind parent) ss := by
  obtain ⟨-, htype, hparent, -⟩ := h.own k hk
  have hfiltered := (h.ask.filtered hk f).ask
  exact hfiltered.setFeed hk (secKind_of nofun htype hparent)

/-- A section feed that is allocated in the same slot, and gets the same filter, is the same. -/
theorem openedSec_same {parent : FeedsNo} {f : SecFilterNo} (hvalid : Valid a)
    (hsame : SameFeeds a b) (hk : (a.feedarray k).state = .free) :
    SameFeeds (served (openedSec a.ask k pid parent) k f)
      (served (openedSec b.ask k pid parent) k f) := by
  have hkb : (b.feedarray k).state = .free := (hsame.free_iff k).mpr hk
  have ha := (opens_openedSec hvalid hk pid parent).served List.mem_cons_self f
  have hb := (opens_openedSec (hvalid.same hsame) hkb pid parent).served List.mem_cons_self f
  refine ha.same_view (hb.of_same hsame) fun s hs => ?_
  obtain rfl := List.mem_singleton.mp hs
  have hgo : DvbDmxState.go ≠ .free := nofun
  simp only [Dmx.served, setFeed_feedarray, update_self, openedSec_feedarray]
  rw [Feed.view_sec hgo rfl, Feed.view_sec hgo rfl]
  rfl

/-! ### What is expected of a restart -/

/-- The filter after `DMX_START`, and after `DMX_STOP` behind it. -/
def afterStart (dev : Dmxdev NeumoDvbDemux) : Dmxdev NeumoDvbDemux := (filterStart dvbDmx dev).2

def afterStop (dev : Dmxdev NeumoDvbDemux) : Dmxdev NeumoDvbDemux :=
  (filterStop dvbDmx (afterStart dev)).2

/-- What the filter has been given it holds no longer: no feed, no stream, no container of one. -/
structure HoldsNothing (dev : Dmxdev NeumoDvbDemux) : Prop where
  feeds : ∀ b, dev.filter.currentFeeds ≠ some (.ofBbf b)
  sec : dev.filter.type = .sec → dev.sec = .null
  entries : dev.filter.type = .pes → ∀ i ∈ dev.added, match dev.entries i with
    | .pid _ stream => stream = none
    | .embedded _ _ _ stream _ => stream = none

/-- A stop hands no `NULL` to the demux and leaves the filter without a feed or a stream, and a
    second start opens the same feeds and streams as the first. -/
structure Restores (dev : Dmxdev NeumoDvbDemux) : Prop where
  calm : (afterStop dev).demux.crashed = false
  nothing : HoldsNothing (afterStop dev)
  feeds : SameFeeds (afterStart dev).demux (filterStart dvbDmx (afterStop dev)).2.demux

/-- The list of the filter, if it has the type of one, has entries for pids only, and the filter is
    not left in the container of a stream by an earlier start. -/
structure PidsOnly (dev : Dmxdev NeumoDvbDemux) : Prop where
  entries : dev.filter.type = .pes → ∀ i ∈ dev.added, ∃ pid stream, dev.entries i = .pid pid stream
  feeds : ∀ b, dev.filter.currentFeeds ≠ some (.ofBbf b)

/-! ### A stop -/

theorem stopEntry_filter (dev : Dmxdev NeumoDvbDemux) (i : EntryNo) :
    (stopEntry dvbDmx dev i).filter = dev.filter := by
  rw [stopEntry]
  split <;> rfl

theorem releaseEntry_filter (dev : Dmxdev NeumoDvbDemux) (i : EntryNo) :
    (releaseEntry dvbDmx dev i).filter = dev.filter := by
  rw [releaseEntry]
  split <;> rfl

theorem stopEntry_valid (hvalid : Valid dev.demux) (i : EntryNo) :
    Valid (stopEntry dvbDmx dev i).demux := by
  rw [stopEntry]
  split
  · rename_i s _
    exact @Valid.call _ hvalid (.stopFiltering s) trivial
  · exact hvalid

theorem releaseEntry_valid (hvalid : Valid dev.demux) (i : EntryNo) :
    Valid (releaseEntry dvbDmx dev i).demux := by
  rw [releaseEntry]
  split
  · rename_i s _
    exact @Valid.call _ hvalid (.releaseNeumoPidStream s) trivial
  · exact hvalid
  · rename_i stream _ _
    exact @Valid.call _ hvalid (.releaseBbfStream stream) trivial

theorem foldl_valid {f : Dmxdev NeumoDvbDemux → EntryNo → Dmxdev NeumoDvbDemux}
    (hf : ∀ {dev : Dmxdev NeumoDvbDemux}, Valid dev.demux → ∀ i, Valid (f dev i).demux)
    (is : List EntryNo) : ∀ {dev : Dmxdev NeumoDvbDemux}, Valid dev.demux →
      Valid (is.foldl f dev).demux := by
  induction is with
  | nil => exact fun h => h
  | cons i is ih =>
    intro dev h
    exact ih (hf h i)

/-- The demux when the section feed has been stopped and the filter in it released. -/
def Dmxdev.closed (dev : Dmxdev NeumoDvbDemux) (k : SecFeedNo) : NeumoDvbDemux :=
  match dev.filter.secfilter with
  | some f => closedSec dev.demux k f
  | none => dev.demux.stopSectionFiltering k

theorem closed_type (dev : Dmxdev NeumoDvbDemux) (k : SecFeedNo) :
    ((dev.closed k).feedarray k).type = (dev.demux.feedarray k).type := by
  rw [Dmxdev.closed]
  split
  · rw [closedSec, NeumoDvbDemux.releaseSectionFilter]
    split
    · simp [NeumoDvbDemux.stopSectionFiltering]
    · split <;>
        simp [NeumoDvbDemux.stopSectionFiltering, NeumoDvbDemux.setSectionFilter]
  · simp [NeumoDvbDemux.stopSectionFiltering]

theorem closed_valid (hvalid : Valid dev.demux) (k : SecFeedNo) : Valid (dev.closed k) := by
  have hstopped := @Valid.call _ hvalid (.stopSectionFiltering k) trivial
  rw [Dmxdev.closed]
  split
  · rename_i f _
    exact @Valid.call _ hstopped (.releaseSectionFilter k f) trivial
  · exact hstopped

/-- What `dvb_dmxdev_feed_restart` does to the other filters does not change which one is found. -/
theorem restartFirst_find (pid : ℕ) (users : List SecUser) :
    ((restartFirst pid users).2.find? fun user => user.Runs pid).map SecUser.sec =
      (users.find? fun user => user.Runs pid).map SecUser.sec := by
  induction users with
  | nil => rfl
  | cons user users ih =>
    rw [restartFirst]
    by_cases hruns : user.Runs pid
    · have hgo : ({ user with state := .go } : SecUser).Runs pid := ⟨Nat.le_refl _, hruns.2⟩
      rw [if_pos hruns, List.find?_cons_of_pos (by simpa using hgo),
        List.find?_cons_of_pos (by simpa using hruns)]
      rfl
    · rw [if_neg hruns, List.find?_cons_of_neg (by simpa using hruns),
        List.find?_cons_of_neg (by simpa using hruns)]
      exact ih

/-- What a stop of a section filter leaves. -/
structure SectionStopped (dev dev' : Dmxdev NeumoDvbDemux) (k : SecFeedNo) : Prop where
  demux : dev'.demux = restarted dvbDmx dev k (dev.closed k)
  filter : dev'.filter = ((dev.setState .setPes).setSec none).filter
  others : (dev'.others.find? fun user => user.Runs dev.filter.params.secPid).map SecUser.sec =
    (dev.others.find? fun user => user.Runs dev.filter.params.secPid).map SecUser.sec

theorem feedRestart_stopped (hsec : dev.sec = .other k)
    (hothers : dev'.others = dev.others) (hfilter : dev'.filter = (dev.setState .setPes).filter)
    (hdemux : dev'.demux = dev.closed k) :
    SectionStopped dev ((feedRestart dvbDmx dev').setSec none) k := by
  have hsec' : dev'.sec = .other k :=
    (congrArg (fun filter => filter.feed.next none) hfilter).trans hsec
  have hparams : dev'.filter.params = dev.filter.params := by rw [hfilter]; rfl
  have hdemux' := @feedRestart_demux _ dvbDmx _ _ hsec'
  have hfilter' := (feedRestart_filter dvbDmx dev').trans hfilter
  refine ⟨?_, ?_, ?_⟩
  · have hrestarted : (feedRestart dvbDmx dev').demux = restarted dvbDmx dev k (dev.closed k) := by
      rw [hdemux', restarted, restarted, hothers, hparams, hdemux]
    exact hrestarted
  · rw [setSec, Dmxdev.setFeed, hfilter']
    rfl
  · have hfind := restartFirst_find dev.filter.params.secPid dev.others
    have hothers' : ((feedRestart dvbDmx dev').others.find? fun user =>
        user.Runs dev.filter.params.secPid).map SecUser.sec =
        (dev.others.find? fun user => user.Runs dev.filter.params.secPid).map SecUser.sec := by
      rw [feedRestart, hothers, hparams]
      split
      · rename_i heq
        rw [heq] at hfind
        exact hfind
      · have hkept := callSec_others dev' dvbDmx.releaseSectionFeed
        rw [hothers] at hkept
        exact congrArg (fun users => (users.find? fun user =>
          user.Runs dev.filter.params.secPid).map SecUser.sec) hkept
    exact hothers'

theorem stopSection_stopped (hsec : dev.sec = .other k) (huse : dev.secInUse = some k)
    (htype : dev.filter.type = .sec) : SectionStopped dev (stopSection dvbDmx dev) k := by
  have htype' : (dev.setState .setPes).filter.type = .sec := htype
  have hstopped : feedStop dvbDmx dev =
      (dev.setState .setPes).call (dvbDmx.stopSectionFiltering k) := by
    rw [feedStop, htype']
    exact callSec_eq (dev.setState .setPes) hsec huse dvbDmx.stopSectionFiltering
  rw [stopSection, hsec, hstopped]
  dsimp only
  split
  · rename_i f hf
    have hf' : dev.filter.secfilter = some f := hf
    rw [callSec_eq ((dev.setState .setPes).call (dvbDmx.stopSectionFiltering k)) hsec huse]
    refine feedRestart_stopped hsec rfl rfl ?_
    rw [Dmxdev.closed, hf']
    rfl
  · rename_i hf
    have hf' : dev.filter.secfilter = none := hf
    refine feedRestart_stopped hsec rfl rfl ?_
    rw [Dmxdev.closed, hf']
    rfl

theorem filterStop_sec (hsound : Sound dev) (hgo : .go ≤ dev.filter.state)
    (htype : dev.filter.type = .sec) : ∃ k, dev.sec = .other k ∧
      SectionStopped dev (filterStop dvbDmx dev).2 k := by
  obtain ⟨k, hsec, huse⟩ := hsound.running htype hgo
  refine ⟨k, hsec, ?_⟩
  rw [filterStop_section hgo htype]
  exact stopSection_stopped hsec huse htype

/-- A stop leaves the demux valid. -/
theorem filterStop_valid (hsound : Sound dev) (hvalid : Valid dev.demux)
    (htyped : ∀ k, dev.sec = .other k → (dev.demux.feedarray k).type = .sec) :
    Valid (filterStop dvbDmx dev).2.demux := by
  rcases hsound.runs with hlt | ⟨hgo, htype | htype⟩
  · rw [filterStop_idle hlt]
    exact hvalid
  · rw [filterStop_pes hsound hgo htype]
    exact foldl_valid releaseEntry_valid dev.added (foldl_valid stopEntry_valid dev.added
      (show Valid (dev.setState .setPes).demux from hvalid))
  · obtain ⟨k, hsec, hstopped⟩ := filterStop_sec hsound hgo htype
    have hclosed := closed_valid hvalid k
    rw [hstopped.demux, restarted]
    split
    · rename_i user _
      exact @Valid.call _ hclosed (.startSectionFiltering user.sec) trivial
    · exact hclosed.releaseSec ((closed_type dev k).trans (htyped k hsec))

/-! ### Before a start -/

/-- A start that succeeds has found a buffer and started the feeds. -/
theorem filterStart_ok (hsound : Sound dev) (hstart : (filterStart dvbDmx dev).1 = .ok ()) :
    .setPes ≤ dev.filter.state ∧ (beforeStart dvbDmx dev).1 = true ∧
      (startFeeds dvbDmx (beforeStart dvbDmx dev).2).1 = .ok () ∧
      afterStart dev = (startFeeds dvbDmx (beforeStart dvbDmx dev).2).2.setState .go := by
  have hset : .setPes ≤ dev.filter.state := by
    by_contra hno
    rw [filterStart, if_pos (NeumoDmxdevState.not_le.mp hno)] at hstart
    cases hstart
  have heq := filterStart_eq dvbDmx hsound hset
  rw [heq] at hstart
  by_cases hbuffer : (beforeStart dvbDmx dev).1 = true
  · rw [if_pos hbuffer] at heq hstart
    rw [finishStart_fst] at hstart
    refine ⟨hset, hbuffer, hstart, ?_⟩
    rw [afterStart, heq, finishStart, hstart]
  · rw [if_neg hbuffer] at hstart
    cases hstart

/-! ### Section filters -/

theorem SameApart.feedarray (h : SameApart a b) : b.feedarray = a.feedarray := by
  obtain ⟨sectionFilter, asked, rfl⟩ := h.eq
  rfl

theorem SameApart.crashed (h : SameApart a b) : b.crashed = a.crashed := by
  obtain ⟨sectionFilter, asked, rfl⟩ := h.eq
  rfl

theorem outputFeedAdd_crashed (demux : NeumoDvbDemux) (s : ℕ) :
    (demux.outputFeedAdd s).crashed = demux.crashed := by
  rw [NeumoDvbDemux.outputFeedAdd]
  split <;> rfl

theorem releaseSectionFeed_crashed (demux : NeumoDvbDemux) (k : SecFeedNo) :
    (demux.releaseSectionFeed k).crashed = demux.crashed := by
  rw [NeumoDvbDemux.releaseSectionFeed]
  split
  · rfl
  · exact outputFeedDel_crashed (demux.setFeed k _) k

/-- The filter with a section filter of its own in the feed, which it has started. -/
def Dmxdev.servedBy (dev : Dmxdev NeumoDvbDemux) (k : SecFeedNo) (f : SecFilterNo) :
    Dmxdev NeumoDvbDemux :=
  { dev with demux := served dev.demux k f }.setSecfilter (some f)

theorem startSecfilter_started (hsec : dev.sec = .other k) (huse : dev.secInUse = some k)
    (hok : (startSecfilter dvbDmx dev k).1 = .ok ()) : ∃ f, dev.demux.sectionFilterAlloc = some f ∧
      (startSecfilter dvbDmx dev k).2 = dev.servedBy k f := by
  cases halloc : dvbDmx.allocateSectionFilter k dev.demux with
  | mk result demux =>
    cases result with
    | error e =>
      rw [(startSecfilter_error hsec halloc).1] at hok
      cases hok
    | ok f =>
      rw [(startSecfilter_ok hsec halloc).1] at hok
      obtain ⟨hf, hserved⟩ := served_of_ok halloc hok
      have hserved' : (dvbDmx.startSectionFiltering k demux).2 = served dev.demux k f := hserved
      refine ⟨f, hf, ?_⟩
      have hcall := callSec_eq ((dev.call fun demux =>
        (dvbDmx.allocateSectionFilter k demux).2).setSecfilter (some f)) hsec huse
        fun k demux => (dvbDmx.startSectionFiltering k demux).2
      rw [startSecfilter, callSec_eq dev hsec huse, halloc]
      dsimp only
      rw [hcall, servedBy, ← hserved', Dmxdev.call, Dmxdev.call, halloc]
      rfl

/-- What a start of a section filter does when it succeeds. -/
inductive SectionBegan (dev : Dmxdev NeumoDvbDemux) : Dmxdev NeumoDvbDemux → Prop where
  | shared (user : SecUser) (f : SecFilterNo) :
    (dev.others.find? fun user => user.Runs dev.filter.params.secPid) = some user →
    (dev.demux.stopSectionFiltering user.sec).sectionFilterAlloc = some f →
    SectionBegan dev ((sharedSec dvbDmx dev user.sec).servedBy user.sec f)
  | own (k : SecFeedNo) (f : SecFilterNo) :
    (dev.others.find? fun user => user.Runs dev.filter.params.secPid) = none →
    dev.demux.feedAlloc = some k → dev.demux.sectionFilterAlloc = some f →
    SectionBegan dev ((ownSec dev k (openedSec dev.demux.ask k dev.filter.params.secPid
      (dev.filter.currentFeeds.getD .default))).servedBy k f)

theorem served_crashed (demux : NeumoDvbDemux) (k : SecFeedNo) (f : SecFilterNo) :
    (served demux k f).crashed = demux.crashed := rfl

theorem openedSec_crashed (demux : NeumoDvbDemux) (pid : ℕ) (parent : FeedsNo) :
    (openedSec demux.ask k pid parent).crashed = demux.crashed := outputFeedAdd_crashed _ k

theorem ownSec_servedBy (dev : Dmxdev NeumoDvbDemux) (k : SecFeedNo) (demux : NeumoDvbDemux)
    (f : SecFilterNo) : ((ownSec dev k demux).servedBy k f).demux = served demux k f := rfl

theorem SectionBegan.crashed (h : SectionBegan dev dev') :
    dev'.demux.crashed = dev.demux.crashed := by
  cases h with
  | shared user f => rfl
  | own k f => rw [ownSec_servedBy, served_crashed, openedSec_crashed]

theorem openedSec_filters (demux : NeumoDvbDemux) (parent : FeedsNo) :
    (openedSec demux.ask k pid parent).sectionFilterAlloc = demux.sectionFilterAlloc := by
  rw [openedSec, NeumoDvbDemux.outputFeedAdd]
  split <;> rfl

theorem startSection_began (htype : dev.filter.type = .sec)
    (hok : (startSection dvbDmx dev).1 = .ok ()) :
    SectionBegan dev (startSection dvbDmx dev).2 := by
  cases hfind : dev.others.find? fun user => user.Runs dev.filter.params.secPid with
  | some user =>
    rw [startSection_shared dvbDmx htype hfind] at hok ⊢
    obtain ⟨f, hf, heq⟩ := startSecfilter_started (sharedSec_sec dvbDmx dev user.sec) rfl hok
    rw [heq]
    exact .shared user f hfind hf
  | none =>
    cases halloc : dvbDmx.allocateSectionFeed dev.filter.params.secPid dev.filter.params.checkCrc
      dev.filter.currentFeeds dev.demux with
    | mk result demux =>
      cases result with
      | error e =>
        rw [startSection_refused dvbDmx hfind halloc] at hok
        cases hok
      | ok k =>
        rw [startSection_own dvbDmx hfind halloc] at hok ⊢
        obtain ⟨f, hf, heq⟩ := startSecfilter_started (ownSec_sec dev k demux) rfl hok
        rw [heq]
        have halloc' : dev.demux.allocateSectionFeed dev.filter.params.secPid
            dev.filter.currentFeeds = (.ok k, demux) := halloc
        rcases allocateSectionFeed_cases dev.demux dev.filter.params.secPid
          dev.filter.currentFeeds with ⟨e, demux', hcase, -⟩ | ⟨k', hk, hcase⟩
        · rw [halloc'] at hcase
          cases hcase
        · rw [halloc', Prod.mk.injEq, Except.ok.injEq] at hcase
          obtain ⟨rfl, rfl⟩ := hcase
          exact .own k f hfind hk ((openedSec_filters dev.demux _).symm.trans hf)

/-- What a filter is after a start and a stop: `dev` before both, `dev'` between them. -/
structure Round (dev dev' devb : Dmxdev NeumoDvbDemux) : Prop where
  crashed : devb.demux.crashed = dev'.demux.crashed
  currentFeeds : devb.filter.currentFeeds = dev.filter.currentFeeds
  bufferData : devb.filter.bufferData = dev.filter.bufferData

/-- The filter in state `DMXDEV_STATE_GO` after its feed has been started, and stopped. -/
theorem servedBy_stopped (hsec : dev.sec = .other k) (huse : dev.secInUse = some k)
    (htype : dev.filter.type = .sec) (f : SecFilterNo) :
    SectionStopped ((dev.servedBy k f).setState .go)
      (filterStop dvbDmx ((dev.servedBy k f).setState .go)).2 k := by
  have htype' : ((dev.servedBy k f).setState .go).filter.type = .sec := htype
  rw [filterStop_section (Nat.le_refl _) htype']
  exact stopSection_stopped hsec huse htype'

/-- A feed that is shared is stopped for the second start as it was for the first. -/
theorem shared_again {user : SecUser} {f : SecFilterNo}
    (hf : (dev.demux.stopSectionFiltering user.sec).sectionFilterAlloc = some f) :
    SameApart (dev.demux.stopSectionFiltering user.sec)
      (((closedSec (served (dev.demux.stopSectionFiltering user.sec) user.sec f) user.sec
        f).startSectionFiltering user.sec).2.stopSectionFiltering user.sec) := by
  have hself : (dev.demux.stopSectionFiltering user.sec).feedarray user.sec =
      { dev.demux.feedarray user.sec with state := .ready, isFiltering := false } := update_self ..
  have hstate := congrArg Feed.state hself
  have hidle := congrArg Feed.isFiltering hself
  have hclosed := closedSec_served hf hstate hidle
  have hfeed := congrFun hclosed.feedarray user.sec
  exact hclosed.trans (stop_start_same (hfeed ▸ hstate) (hfeed ▸ hidle))

theorem restarted_shared {user : SecUser}
    (hfind : (dev.others.find? fun user => user.Runs dev.filter.params.secPid) = some user) :
    restarted dvbDmx dev k demux = (demux.startSectionFiltering user.sec).2 := by
  rw [restarted, hfind]
  rfl

theorem restarted_own
    (hfind : (dev.others.find? fun user => user.Runs dev.filter.params.secPid) = none) :
    restarted dvbDmx dev k demux = demux.releaseSectionFeed k := by
  rw [restarted, hfind]
  rfl

theorem releaseSectionFeed_filters (demux : NeumoDvbDemux) (k : SecFeedNo) :
    (demux.releaseSectionFeed k).sectionFilterAlloc = demux.sectionFilterAlloc := by
  rw [NeumoDvbDemux.releaseSectionFeed]
  split
  · rfl
  · dsimp only
    rw [NeumoDvbDemux.outputFeedDel]
    split <;> rfl

/-- A feed that was allocated is released, and the demux left as it was. -/
theorem own_again {f : SecFilterNo} (hvalid : Valid demux) (hk : (demux.feedarray k).state = .free)
    (parent : FeedsNo) (hf : demux.sectionFilterAlloc = some f) :
    SameFeeds demux ((closedSec (served (openedSec demux.ask k pid parent) k f) k
        f).releaseSectionFeed k) ∧
      ((closedSec (served (openedSec demux.ask k pid parent) k f) k
        f).releaseSectionFeed k).sectionFilterAlloc = some f ∧
      ((closedSec (served (openedSec demux.ask k pid parent) k f) k
        f).releaseSectionFeed k).crashed = (openedSec demux.ask k pid parent).crashed := by
  have hself : (openedSec demux.ask k pid parent).feedarray k =
      secFeed demux.ask k pid parent := by
    rw [openedSec_feedarray, update_self]
  have hf' : (openedSec demux.ask k pid parent).sectionFilterAlloc = some f :=
    (openedSec_filters demux parent).trans hf
  have hclosed := closedSec_served hf' (congrArg Feed.state hself) (congrArg Feed.isFiltering hself)
  refine ⟨?_, ?_, ?_⟩
  · exact opens_nil.mp ((opens_openedSec hvalid hk pid parent).same hclosed.feeds).releaseSec
  · exact (releaseSectionFeed_filters _ k).trans (hclosed.sectionFilterAlloc.trans hf')
  · exact (releaseSectionFeed_crashed _ k).trans hclosed.crashed

/-- A stop of a section filter gives back its feed, and the next start takes it again. -/
theorem section_restored (hvalid : Valid dev.demux) (htype : dev.filter.type = .sec)
    (hbegan : SectionBegan dev dev') (hstop : (filterStop dvbDmx (dev'.setState .go)).2 = devb) :
    Round dev dev' devb ∧ devb.sec = .null ∧
      ∀ devc, SectionBegan devb devc → SameFeeds dev'.demux devc.demux := by
  cases hbegan with
  | shared user f hfind hf =>
    have hstopped := servedBy_stopped (sharedSec_sec dvbDmx dev user.sec) rfl htype f
    rw [hstop] at hstopped
    have hothers := hstopped.others
    have hparams : devb.filter.params = dev.filter.params := by
      rw [hstopped.filter]
      rfl
    have hfind' : (devb.others.find? fun user => user.Runs dev.filter.params.secPid).map
        SecUser.sec = some user.sec := hothers.trans (congrArg (Option.map SecUser.sec) hfind)
    have hdemux : devb.demux = ((closedSec (served (dev.demux.stopSectionFiltering user.sec)
        user.sec f) user.sec f).startSectionFiltering user.sec).2 :=
      hstopped.demux.trans (restarted_shared hfind)
    have hsame := shared_again hf
    rw [← hdemux] at hsame
    refine ⟨⟨?_, ?_, ?_⟩, ?_, ?_⟩
    · exact hsame.crashed
    · rw [hstopped.filter]
      rfl
    · rw [hstopped.filter]
      rfl
    · rw [Dmxdev.sec, hstopped.filter]
      exact sec_setSec _ none
    · intro devc hagain
      cases hagain with
      | shared user' f' hfind'' hf' =>
        rw [hparams] at hfind''
        rw [hfind''] at hfind'
        have hsec : user'.sec = user.sec := Option.some.inj hfind'
        rw [hsec, hsame.sectionFilterAlloc, hf] at hf'
        obtain rfl := Option.some.inj hf'
        have hserved : SameFeeds (served (dev.demux.stopSectionFiltering user.sec) user.sec f)
            (served (devb.demux.stopSectionFiltering user'.sec) user'.sec f) := by
          rw [hsec]
          exact served_same hsame
        exact hserved
      | own k f' hnone _ _ =>
        rw [hparams] at hnone
        rw [hnone] at hfind'
        cases hfind'
  | own k f hfind hk hf =>
    have hstopped := servedBy_stopped (ownSec_sec dev k (openedSec dev.demux.ask k
      dev.filter.params.secPid (dev.filter.currentFeeds.getD .default))) rfl htype f
    rw [hstop] at hstopped
    have hothers := hstopped.others
    have hparams : devb.filter.params = dev.filter.params := by
      rw [hstopped.filter]
      rfl
    have hfeeds : devb.filter.currentFeeds = dev.filter.currentFeeds := by
      rw [hstopped.filter]
      rfl
    have hfind' : (devb.others.find? fun user => user.Runs dev.filter.params.secPid).map
        SecUser.sec = none := hothers.trans (congrArg (Option.map SecUser.sec) hfind)
    have hdemux : devb.demux = (closedSec (served (openedSec dev.demux.ask k
        dev.filter.params.secPid (dev.filter.currentFeeds.getD .default)) k f) k
        f).releaseSectionFeed k := hstopped.demux.trans (restarted_own hfind)
    obtain ⟨hsame, hfilters, hcrashed⟩ := @own_again _ _ dev.filter.params.secPid f hvalid
      (feedAlloc_free hk) (dev.filter.currentFeeds.getD .default) hf
    rw [← hdemux] at hsame hfilters hcrashed
    refine ⟨⟨?_, hfeeds, ?_⟩, ?_, ?_⟩
    · rw [hcrashed, ownSec_servedBy, served_crashed]
    · rw [hstopped.filter]
      rfl
    · rw [Dmxdev.sec, hstopped.filter]
      exact sec_setSec _ none
    · intro devc hagain
      cases hagain with
      | shared user f' hfind'' _ =>
        rw [hparams] at hfind''
        rw [hfind''] at hfind'
        cases hfind'
      | own k' f' _ hk' hf' =>
        rw [hsame.feedAlloc, hk] at hk'
        obtain rfl := Option.some.inj hk'
        rw [hfilters] at hf'
        obtain rfl := Option.some.inj hf'
        rw [hparams, hfeeds, ownSec_servedBy, ownSec_servedBy]
        exact openedSec_same hvalid hsame (feedAlloc_free hk)

/-! ### Lists -/

/-- What an entry asks for. -/
def Entry.asked : Entry → Entry
  | .pid pid _ => .pid pid none
  | .embedded type embeddingPid isi _ _ => .embedded type embeddingPid isi none none

theorem Entry.asked_pid {entry : Entry} (h : entry.asked = .pid pid none) :
    ∃ stream, entry = .pid pid stream := by
  cases entry with
  | pid p stream =>
    cases h
    exact ⟨stream, rfl⟩
  | embedded type embeddingPid isi stream feeds => cases h

theorem setEntry_asked {entry : Entry} (hentry : entry.asked = (dev.entries i).asked)
    (j : EntryNo) : ((dev.setEntry i entry).entries j).asked = (dev.entries j).asked := by
  by_cases hj : j = i
  · subst hj
    exact (congrArg Entry.asked (update_self ..)).trans hentry
  · exact congrArg Entry.asked (update_of_ne hj ..)

theorem startEntry_asked (dev : Dmxdev NeumoDvbDemux) (i j : EntryNo) :
    ((startEntry dvbDmx dev i).2.entries j).asked = (dev.entries j).asked := by
  rw [startEntry]
  split
  · rename_i pid stream hentry
    have hcases := startPidFeed_cases dev i pid
    have hasked : ∀ s, (Entry.pid pid s).asked = (dev.entries i).asked := fun s => by
      rw [hentry]
      rfl
    generalize startPidFeed dvbDmx dev i pid = result at hcases
    cases hcases with
    | refused e demux _ _ => exact @setEntry_asked dev i _ (hasked none) j
    | leaked s _ _ _ => exact @setEntry_asked dev i _ (hasked (some s)) j
    | stopped s e _ _ _ _ => exact @setEntry_asked dev i _ (hasked (some s)) j
    | started s _ _ _ _ => exact @setEntry_asked dev i _ (hasked (some s)) j
  · rename_i type embeddingPid isi stream feeds hentry
    dsimp only
    rw [allocateEmbedded]
    split
    · rfl
    · refine @setEntry_asked dev i _ ?_ j
      rw [hentry]
      rfl

theorem startEntries_asked (is : List EntryNo) : ∀ {dev : Dmxdev NeumoDvbDemux},
    startEntries dvbDmx dev is = (.ok (), dev') →
      ∀ j, (dev'.entries j).asked = (dev.entries j).asked := by
  induction is with
  | nil =>
    intro dev hloop j
    rw [startEntries, Prod.mk.injEq] at hloop
    rw [← hloop.2]
  | cons i is ih =>
    intro dev hloop j
    obtain ⟨dev₁, hstart, hrest⟩ := startEntries_cons hloop
    have hasked := startEntry_asked dev i j
    rw [hstart] at hasked
    exact (ih hrest j).trans hasked

theorem stopEntry_entries (dev : Dmxdev NeumoDvbDemux) (i : EntryNo) :
    (stopEntry dvbDmx dev i).entries = dev.entries := by
  rw [stopEntry]
  split <;> rfl

theorem releaseEntry_asked (dev : Dmxdev NeumoDvbDemux) (i j : EntryNo) :
    ((releaseEntry dvbDmx dev i).entries j).asked = (dev.entries j).asked := by
  rw [releaseEntry]
  split
  · rename_i pid s hentry
    refine @setEntry_asked dev i _ ?_ j
    rw [hentry]
    rfl
  · rename_i pid hentry
    refine setEntry_asked ?_ j
    rw [hentry]
  · rfl

theorem related_of_mem {is : List EntryNo} (h : List.Forall₂ (HasStream dev) is ss) (hi : i ∈ is) :
    ∃ s ∈ ss, HasStream dev i s := by
  induction h with
  | nil => cases hi
  | cons hs _ ih =>
    rcases List.mem_cons.mp hi with rfl | hi
    · exact ⟨_, List.mem_cons_self, hs⟩
    · obtain ⟨s, hmem, hs⟩ := ih hi
      exact ⟨s, List.mem_cons_of_mem _ hmem, hs⟩

/-- A stop releases what the start has opened, and the next start opens it again. -/
theorem list_restored (hsound : Sound dev) (hvalid : Valid dev.demux)
    (htype : dev.filter.type = .pes)
    (hpids : ∀ i ∈ dev.added, ∃ pid stream, dev.entries i = .pid pid stream)
    (hstart : startEntries dvbDmx dev dev.backward = (.ok (), dev'))
    (hsound' : Sound (dev'.setState .go)) (hstop : (filterStop dvbDmx (dev'.setState .go)).2 = devb)
    (hsoundb : Sound devb) :
    Round dev dev' devb ∧ (∀ i ∈ devb.added, ∃ pid, devb.entries i = .pid pid none) ∧
      ∀ devc, startEntries dvbDmx devb devb.backward = (.ok (), devc) →
        SameFeeds dev'.demux devc.demux := by
  have hlist := hsound.pes htype
  have hnodup := (hsound.list hlist).nodup
  rw [hsound.backward hlist] at hstart
  obtain ⟨new, hopens, hstreams, hfilter, hothers⟩ := startEntries_opens hvalid dev.added.reverse
    (opens_nil.mpr (.refl dev.demux)) (List.nodup_reverse.mpr hnodup)
    (fun i hi => hpids i (List.mem_reverse.mp hi)) hstart
  rw [List.append_nil] at hopens
  rw [List.reverse_reverse] at hstreams
  have hasked := startEntries_asked dev.added.reverse hstart
  have htype' : (dev'.setState .go).filter.type = .pes :=
    (congrArg Filter.type hfilter.filter).trans htype
  have hadded : dev'.added = dev.added := hfilter.added
  have hstopped := @filterStop_pes _ dvbDmx _ hsound' (Nat.le_refl _) htype'
  have hadded' : (dev'.setState .go).added = dev.added := hadded
  rw [hadded'] at hstopped
  have hidle : Opens dev.demux ((dev'.setState .go).setState .setPes).demux dev.pidKind new :=
    hopens
  obtain ⟨hopens₁, hentries₁, hcrashed₁⟩ := stopEntries_opens dev.added hidle
    fun i hi => related_of_mem hstreams hi
  have hstreams₁ : List.Forall₂ (HasStream (dev.added.foldl (stopEntry dvbDmx)
      ((dev'.setState .go).setState .setPes))) dev.added new := by
    refine hstreams.imp fun i s hs => ?_
    rw [HasStream, hentries₁]
    exact hs
  obtain ⟨hsame, hcrashed₂, hdone, -⟩ := releaseEntries_opens rfl dev.added hopens₁ hnodup hstreams₁
  have hframe := stopEntries_frame dvbDmx dev.added ((dev'.setState .go).setState .setPes)
  have hkept := (foldl_kept Dmxdev.filter releaseEntry_filter dev.added (dev.added.foldl
    (stopEntry dvbDmx) ((dev'.setState .go).setState .setPes))).trans
    (foldl_kept Dmxdev.filter stopEntry_filter dev.added ((dev'.setState .go).setState .setPes))
  rw [hstopped] at hstop
  dsimp only at hstop
  rw [hstop] at hsame hcrashed₂ hdone hframe hkept
  have haddedb : devb.added = dev.added := hframe.added.trans hadded
  have hfilterb : devb.filter = ((dev.setState .go).setState .setPes).filter := by
    refine hkept.trans ?_
    rw [Dmxdev.setState, Dmxdev.setState, hfilter.filter]
    rfl
  have hlistb : devb.IsList := hsoundb.pes ((congrArg Filter.type hfilterb).trans htype)
  refine ⟨⟨?_, ?_, ?_⟩, ?_, ?_⟩
  · exact hcrashed₂.trans hcrashed₁
  · rw [hfilterb]
    rfl
  · rw [hfilterb]
    rfl
  · rw [haddedb]
    intro i hi
    obtain ⟨pid, -, -, hentry⟩ := hdone i hi
    exact ⟨pid, hentry⟩
  · intro devc hagain
    rw [hsoundb.backward hlistb, haddedb] at hagain
    refine startEntries_same dev.added.reverse hvalid hsame ?_ ?_ (List.nodup_reverse.mpr hnodup)
      (fun i hi => ?_) hstart hagain
    · rw [hfilterb]
      rfl
    · rw [hfilterb]
      rfl
    · rw [List.mem_reverse] at hi
      obtain ⟨pid, stream, hbefore, hentry⟩ := hdone i hi
      have hpid : (dev.entries i).asked = .pid pid none := by
        rw [← hasked i, ← show _ = dev'.entries i from congrFun hentries₁ i, hbefore]
        rfl
      obtain ⟨s, hs⟩ := Entry.asked_pid hpid
      exact ⟨pid, s, none, hs, hentry⟩

/-! ### Without `NULL` -/

theorem running_crashed (demux : NeumoDvbDemux) (tsType pesType : ℕ) (parent : FeedsNo) :
    (running demux k pid tsType pesType parent).crashed = demux.crashed :=
  outputFeedAdd_crashed _ k

theorem startEntries_calm (is : List EntryNo) : ∀ {dev : Dmxdev NeumoDvbDemux}, is.Nodup →
    (∀ i ∈ is, ∃ pid stream, dev.entries i = .pid pid stream) →
    startEntries dvbDmx dev is = (.ok (), dev') → dev'.demux.crashed = dev.demux.crashed := by
  induction is with
  | nil =>
    intro dev _ _ hloop
    rw [startEntries, Prod.mk.injEq] at hloop
    rw [← hloop.2]
  | cons i is ih =>
    intro dev hnodup hpids hloop
    obtain ⟨pid, stream, hentry⟩ := hpids i List.mem_cons_self
    obtain ⟨dev₁, hstart, hrest⟩ := startEntries_cons hloop
    obtain ⟨s, -, -, rfl⟩ := startEntry_pid hentry hstart
    rw [List.nodup_cons] at hnodup
    refine (ih hnodup.2 (fun j hj => ?_) hrest).trans (running_crashed ..)
    have hji : j ≠ i := fun heq => hnodup.1 (heq ▸ hj)
    obtain ⟨pid', stream', hj'⟩ := hpids j (List.mem_cons_of_mem _ hj)
    exact ⟨pid', stream', (update_of_ne hji ..).trans hj'⟩

theorem closed_crashed (dev : Dmxdev NeumoDvbDemux) (k : SecFeedNo) :
    (dev.closed k).crashed = dev.demux.crashed := by
  rw [Dmxdev.closed]
  split
  · rw [closedSec, NeumoDvbDemux.releaseSectionFilter]
    split
    · rfl
    · split <;> rfl
  · rfl

theorem restarted_crashed (dev : Dmxdev NeumoDvbDemux) (demux : NeumoDvbDemux) :
    (restarted dvbDmx dev k demux).crashed = demux.crashed := by
  rw [restarted]
  split
  · rename_i user _
    have hstart : (demux.startSectionFiltering user.sec).2.crashed = demux.crashed := by
      rcases startSectionFiltering_cases demux user.sec with ⟨e, heq⟩ | ⟨-, -, heq⟩ <;>
        rw [heq] <;> rfl
    exact hstart
  · exact releaseSectionFeed_crashed demux k

theorem stopEntry_crashed (dev : Dmxdev NeumoDvbDemux) (i : EntryNo) :
    (stopEntry dvbDmx dev i).demux.crashed = dev.demux.crashed := by
  rw [stopEntry]
  split
  · exact stopFiltering_crashed dev.demux _
  · rfl

theorem releaseEntries_calm (is : List EntryNo) : ∀ {dev : Dmxdev NeumoDvbDemux},
    (∀ i ∈ is, ∃ pid stream, dev.entries i = .pid pid stream) →
      (is.foldl (releaseEntry dvbDmx) dev).demux.crashed = dev.demux.crashed := by
  induction is with
  | nil => exact fun _ => rfl
  | cons i is ih =>
    intro dev hpids
    have hstep : (releaseEntry dvbDmx dev i).demux.crashed = dev.demux.crashed := by
      obtain ⟨pid, stream, hentry⟩ := hpids i List.mem_cons_self
      rw [releaseEntry, hentry]
      cases stream with
      | none => rfl
      | some s => exact releaseNeumoPidStream_crashed dev.demux s
    refine (ih fun j hj => ?_).trans hstep
    obtain ⟨pid, stream, hentry⟩ := hpids j (List.mem_cons_of_mem _ hj)
    have hasked := releaseEntry_asked dev i j
    rw [hentry] at hasked
    obtain ⟨stream', hentry'⟩ := Entry.asked_pid hasked
    exact ⟨pid, stream', hentry'⟩

/-- What a stop leaves as it is. -/
structure StopKept (dev dev' : Dmxdev NeumoDvbDemux) : Prop where
  currentFeeds : dev'.filter.currentFeeds = dev.filter.currentFeeds
  added : dev.filter.type = .pes → dev'.added = dev.added
  asked : dev.filter.type = .pes → ∀ i, (dev'.entries i).asked = (dev.entries i).asked
  crashed : (dev.filter.type = .pes →
    ∀ i ∈ dev.added, ∃ pid stream, dev.entries i = .pid pid stream) →
    dev'.demux.crashed = dev.demux.crashed

theorem filterStop_kept (hsound : Sound dev) : StopKept dev (filterStop dvbDmx dev).2 := by
  rcases hsound.runs with hlt | ⟨hgo, htype | htype⟩
  · rw [filterStop_idle hlt]
    exact ⟨rfl, fun _ => rfl, fun _ _ => rfl, fun _ => rfl⟩
  · rw [filterStop_pes hsound hgo htype]
    have hentries : (dev.added.foldl (stopEntry dvbDmx) (dev.setState .setPes)).entries =
        dev.entries := foldl_kept Dmxdev.entries stopEntry_entries dev.added _
    refine ⟨?_, fun _ => ?_, fun _ i => ?_, fun hpids => ?_⟩
    · have hkept := (foldl_kept Dmxdev.filter releaseEntry_filter dev.added _).trans
        (foldl_kept Dmxdev.filter stopEntry_filter dev.added (dev.setState .setPes))
      exact (congrArg Filter.currentFeeds hkept).trans rfl
    · exact (stopEntries_frame dvbDmx dev.added (dev.setState .setPes)).added
    · refine (foldl_kept (fun dev : Dmxdev NeumoDvbDemux => (dev.entries i).asked) (fun dev j =>
        releaseEntry_asked dev j i) dev.added _).trans ?_
      rw [hentries]
    · refine (releaseEntries_calm dev.added ?_).trans
        (foldl_kept (fun dev : Dmxdev NeumoDvbDemux => dev.demux.crashed) stopEntry_crashed dev.added _)
      rw [hentries]
      exact hpids htype
  · obtain ⟨k, -, hstopped⟩ := filterStop_sec hsound hgo htype
    refine ⟨?_, fun hpes => ?_, fun hpes => ?_, fun _ => ?_⟩
    · rw [hstopped.filter]
      rfl
    · rw [htype] at hpes
      cases hpes
    · rw [htype] at hpes
      cases hpes
    · rw [hstopped.demux, restarted_crashed, closed_crashed]

/-! ### Embedded streams -/

/-- A stop leaves an entry for an embedded stream as it is. -/
theorem releaseEntry_embedded {type : Demux.EmbeddedStreamType} {embeddingPid isi : ℤ}
    {stream : Option BbfNo} {feeds : Option FeedsNo}
    (h : dev.entries i = .embedded type embeddingPid isi stream feeds) (j : EntryNo) :
    (releaseEntry dvbDmx dev j).entries i = .embedded type embeddingPid isi stream feeds := by
  have hne : ∀ pid s, dev.entries j = .pid pid s → i ≠ j := by
    rintro pid s hj rfl
    rw [h] at hj
    cases hj
  rw [releaseEntry]
  split
  · rename_i hj
    exact (update_of_ne (hne _ _ hj) ..).trans h
  · rename_i hj
    exact (update_of_ne (hne _ _ hj) ..).trans h
  · exact h

theorem releaseEntry_stays_crashed (h : dev.demux.crashed = true) (i : EntryNo) :
    (releaseEntry dvbDmx dev i).demux.crashed = true := by
  rw [releaseEntry]
  split
  · exact (releaseNeumoPidStream_crashed dev.demux _).trans h
  · exact h
  · rename_i stream _ _
    cases stream with
    | none => rfl
    | some b => exact h

/-- The stream of an entry is released: where there is none, `NULL` is. -/
theorem releaseEntries_embedded {type : Demux.EmbeddedStreamType} {embeddingPid isi : ℤ}
    {stream : Option BbfNo} {feeds : Option FeedsNo} (is : List EntryNo) :
    ∀ {dev : Dmxdev NeumoDvbDemux}, dev.entries i = .embedded type embeddingPid isi stream feeds →
      (is.foldl (releaseEntry dvbDmx) dev).entries i =
          .embedded type embeddingPid isi stream feeds ∧
        (i ∈ is ∧ stream = none ∨ dev.demux.crashed = true →
          (is.foldl (releaseEntry dvbDmx) dev).demux.crashed = true) := by
  induction is with
  | nil =>
    intro dev h
    refine ⟨h, ?_⟩
    rintro (⟨hi, -⟩ | hcrashed)
    · cases hi
    · exact hcrashed
  | cons j is ih =>
    intro dev h
    obtain ⟨hentry, hcrashed⟩ := ih (releaseEntry_embedded h j)
    refine ⟨hentry, ?_⟩
    rintro (⟨hi, rfl⟩ | hcrashed')
    · rcases List.mem_cons.mp hi with rfl | hi
      · refine hcrashed (.inr ?_)
        rw [releaseEntry, h]
        rfl
      · exact hcrashed (.inl ⟨hi, rfl⟩)
    · exact hcrashed (.inr (releaseEntry_stays_crashed hcrashed' j))

/-! ### One round -/

/-- The buffer is seen to, and nothing else. -/
structure BufferKept (dev dev' : Dmxdev NeumoDvbDemux) : Prop where
  currentFeeds : dev'.filter.currentFeeds = dev.filter.currentFeeds
  entries : dev'.entries = dev.entries
  same : SameFeeds dev.demux dev'.demux
  crashed : dev'.demux.crashed = dev.demux.crashed

theorem allocateBuffer_kept (dev : Dmxdev NeumoDvbDemux) :
    BufferKept dev (allocateBuffer dvbDmx dev).2 := by
  rw [allocateBuffer]
  split
  · exact ⟨rfl, rfl, .refl _, rfl⟩
  · exact ⟨rfl, rfl, .ask _, rfl⟩

theorem allocateBuffer_data (h : (allocateBuffer dvbDmx dev).1 = true) :
    (allocateBuffer dvbDmx dev).2.filter.bufferData = true := by
  rw [allocateBuffer] at h ⊢
  split at h
  · rename_i hdata
    rw [if_pos hdata]
    exact hdata
  · rename_i hdata
    rw [if_neg hdata]
    exact h

theorem beforeStart_idle (hstate : dev.filter.state < .go) (hdata : dev.filter.bufferData = true) :
    beforeStart dvbDmx dev = (true, dev) := by
  rw [beforeStart, filterStop_idle hstate, allocateBuffer, if_pos hdata]

/-- What is expected of a start and a stop, in terms of the filter after the start. -/
structure Restored (dev dev' devb : Dmxdev NeumoDvbDemux) : Prop where
  round : Round dev dev' devb
  started : dev'.demux.crashed = dev.demux.crashed
  nothing : (∀ b, dev.filter.currentFeeds ≠ some (.ofBbf b)) → HoldsNothing devb
  feeds : ∀ devc, startFeeds dvbDmx devb = (.ok (), devc) → SameFeeds dev'.demux devc.demux

theorem feeds_restored (hready : Ready devc dev) (hvalid : Valid dev.demux)
    (hpids : dev.filter.type = .pes →
      ∀ i ∈ dev.added, ∃ pid stream, dev.entries i = .pid pid stream)
    (hstart : startFeeds dvbDmx dev = (.ok (), dev')) (hsound' : Sound (dev'.setState .go))
    (hstop : (filterStop dvbDmx (dev'.setState .go)).2 = devb) : Restored dev dev' devb := by
  have hstopped := hsound'.stop dvbDmx
  rw [hstop] at hstopped
  have hsoundb := hstopped.sound
  cases htype : dev.filter.type with
  | none =>
    rw [startFeeds, htype] at hstart
    cases hstart
  | sec =>
    have hsection : startSection dvbDmx dev = (.ok (), dev') := by
      rw [startFeeds, htype] at hstart
      exact hstart
    have hbegan := startSection_began htype (congrArg Prod.fst hsection)
    rw [hsection] at hbegan
    have htype' : dev'.filter.type = .sec := by
      cases hbegan <;> exact htype
    have htypeb : devb.filter.type = .sec := hstopped.type.trans htype'
    obtain ⟨hround, hnull, hsame⟩ := section_restored hvalid htype hbegan hstop
    refine ⟨hround, ?_, fun hfeeds => ⟨fun b => ?_, fun _ => hnull, fun hpes => ?_⟩,
      fun devc hagain => ?_⟩
    · exact hbegan.crashed
    · rw [hround.currentFeeds]
      exact hfeeds b
    · rw [htypeb] at hpes
      cases hpes
    · rw [startFeeds, htypeb] at hagain
      have hbegan' := startSection_began htypeb (congrArg Prod.fst hagain)
      have hdevc : (startSection dvbDmx devb).2 = devc := congrArg Prod.snd hagain
      rw [hdevc] at hbegan'
      exact hsame devc hbegan'
  | pes =>
    have hentries := hpids htype
    have hlist := hready.sound.pes htype
    have hloop : startEntries dvbDmx dev dev.backward = (.ok (), dev') := by
      rw [startFeeds, htype] at hstart
      exact hstart
    have hframe := startEntries_frame dvbDmx dev.backward hready.state
    rw [hloop] at hframe
    have htypeb : devb.filter.type = .pes := hstopped.type.trans (hframe.type.trans htype)
    obtain ⟨hround, hnone, hsame⟩ := list_restored hready.sound hvalid htype hentries hloop hsound'
      hstop hsoundb
    refine ⟨hround, ?_, fun hfeeds => ⟨fun b => ?_, fun hsec => ?_, fun _ i hi => ?_⟩,
      fun devc hagain => ?_⟩
    · rw [hready.sound.backward hlist] at hloop
      exact startEntries_calm _ (List.nodup_reverse.mpr (hready.sound.list hlist).nodup)
        (fun i hi => hentries i (List.mem_reverse.mp hi)) hloop
    · rw [hround.currentFeeds]
      exact hfeeds b
    · rw [htypeb] at hsec
      cases hsec
    · obtain ⟨pid, hentry⟩ := hnone i hi
      rw [hentry]
    · rw [startFeeds, htypeb] at hagain
      exact hsame devc hagain

/-- An entry for an embedded stream keeps its stream, or has had none to release. -/
theorem embedded_held (hready : Ready devc dev) (htype : dev.filter.type = .pes)
    (hi : i ∈ dev.added) (hno : ∀ pid stream, dev.entries i ≠ .pid pid stream)
    (hstart : startFeeds dvbDmx dev = (.ok (), dev')) (hsound' : Sound (dev'.setState .go))
    (hstop : (filterStop dvbDmx (dev'.setState .go)).2 = devb)
    (hcalm : devb.demux.crashed = false) :
    ¬HoldsNothing devb := by
  intro hnothing
  have hloop : startEntries dvbDmx dev dev.backward = (.ok (), dev') := by
    rw [startFeeds, htype] at hstart
    exact hstart
  have hframe := startEntries_frame dvbDmx dev.backward hready.state
  have hasked := startEntries_asked dev.backward hloop i
  rw [hloop] at hframe
  have htype' : (dev'.setState .go).filter.type = .pes := hframe.type.trans htype
  have htypeb : devb.filter.type = .pes := by
    rw [← hstop]
    exact (hsound'.stop dvbDmx).type.trans htype'
  have hkept := filterStop_kept hsound'
  have hstopped := @filterStop_pes _ dvbDmx _ hsound' (Nat.le_refl _) htype'
  cases hentry : dev'.entries i with
  | pid pid stream =>
    rw [hentry] at hasked
    obtain ⟨stream', hentry'⟩ := Entry.asked_pid hasked.symm
    exact hno pid stream' hentry'
  | embedded type embeddingPid isi stream feeds =>
    have hmem : i ∈ (dev'.setState .go).added := hframe.added.symm ▸ hi
    have hentries := foldl_kept Dmxdev.entries stopEntry_entries (dev'.setState .go).added
      ((dev'.setState .go).setState .setPes)
    obtain ⟨hheld, hcrashed⟩ := releaseEntries_embedded (dev'.setState .go).added
      ((congrFun hentries i).trans hentry)
    have hdevb := congrArg Prod.snd hstopped
    rw [hstop] at hdevb
    dsimp only at hdevb
    rw [← hdevb] at hheld hcrashed
    rw [hstop] at hkept
    have hnone := hnothing.entries htypeb i (hkept.added htype' ▸ hmem)
    rw [hheld] at hnone
    rw [hcrashed (.inl ⟨hmem, hnone⟩)] at hcalm
    cases hcalm

theorem pidsOnly_same (hadded : dev.filter.type = .pes → dev'.added = dev.added)
    (htype : dev'.filter.type = dev.filter.type)
    (hasked : dev.filter.type = .pes → ∀ i, (dev'.entries i).asked = (dev.entries i).asked)
    (hfeeds : dev'.filter.currentFeeds = dev.filter.currentFeeds) :
    PidsOnly dev' ↔ PidsOnly dev := by
  have hpid : dev.filter.type = .pes → ∀ i, (∃ pid stream, dev'.entries i = .pid pid stream) ↔
      ∃ pid stream, dev.entries i = .pid pid stream := by
    intro hpes i
    have heq := hasked hpes i
    constructor
    · rintro ⟨pid, stream, hentry⟩
      rw [hentry] at heq
      exact ⟨pid, Entry.asked_pid heq.symm⟩
    · rintro ⟨pid, stream, hentry⟩
      rw [hentry] at heq
      exact ⟨pid, Entry.asked_pid heq⟩
  constructor
  · rintro ⟨hentries, hno⟩
    refine ⟨fun hpes i hi => ?_, hfeeds ▸ hno⟩
    exact (hpid hpes i).mp (hentries (htype.trans hpes) i (hadded hpes ▸ hi))
  · rintro ⟨hentries, hno⟩
    refine ⟨fun hpes i hi => ?_, hfeeds ▸ hno⟩
    have hpes' := htype.symm.trans hpes
    exact (hpid hpes' i).mpr (hentries hpes' i (hadded hpes' ▸ hi))

theorem takesFilter_of_ok (hok : (startSection dvbDmx dev).1 = .ok ()) :
    NewFeedTakesFilter dvbDmx dev := by
  intro hfind k demux halloc
  rw [startSection_own dvbDmx hfind halloc] at hok
  cases hfilter : dvbDmx.allocateSectionFilter k demux with
  | mk result demux' =>
    cases result with
    | error e =>
      rw [(startSecfilter_error (ownSec_sec dev k demux) hfilter).1] at hok
      cases hok
    | ok f => exact ⟨f, rfl⟩

/-- A stop and a start give back the feeds and streams of the first start, and the stop leaves the
    filter without any, just when the filter has none of its streams embedded in another. -/
theorem restart_restores {dev : Dmxdev NeumoDvbDemux} (hsound : Sound dev)
    (hrun : DemuxRun dev.demux)
    (htyped : ∀ k, dev.sec = .other k → (dev.demux.feedarray k).type = .sec)
    (hcalm : dev.demux.crashed = false) (hstart : (filterStart dvbDmx dev).1 = .ok ())
    (hagain : (filterStart dvbDmx (afterStop dev)).1 = .ok ()) : Restores dev ↔ PidsOnly dev := by
  obtain ⟨-, hbuffer, hfeeds, heq⟩ := filterStart_ok hsound hstart
  have hready := hsound.ready dvbDmx
  have hstopped := filterStop_kept hsound
  have hkept : BufferKept (filterStop dvbDmx dev).2 (beforeStart dvbDmx dev).2 :=
    allocateBuffer_kept _
  have hdata : (beforeStart dvbDmx dev).2.filter.bufferData = true := allocateBuffer_data hbuffer
  have hvalid : Valid (beforeStart dvbDmx dev).2.demux :=
    (filterStop_valid hsound hrun.valid htyped).same hkept.same
  have hpids : PidsOnly (beforeStart dvbDmx dev).2 ↔ PidsOnly dev :=
    pidsOnly_same (fun hpes => (allocateBuffer_frame dvbDmx _).added.trans (hstopped.added hpes))
      hready.type (fun hpes j => by
        rw [← hstopped.asked hpes j]
        exact congrArg Entry.asked (congrFun hkept.entries j))
      (hkept.currentFeeds.trans hstopped.currentFeeds)
  have hfirst : startFeeds dvbDmx (beforeStart dvbDmx dev).2 =
      (.ok (), (startFeeds dvbDmx (beforeStart dvbDmx dev).2).2) := Prod.ext hfeeds rfl
  have hsound' : Sound (afterStart dev) := hsound.start fun hsec hok => by
    refine takesFilter_of_ok ?_
    rw [startFeeds, hready.type.trans hsec] at hfeeds
    exact hfeeds
  have hstop : (filterStop dvbDmx (afterStart dev)).2 = afterStop dev := rfl
  rw [heq] at hsound' hstop
  generalize (startFeeds dvbDmx (beforeStart dvbDmx dev).2).2 = dev' at *
  generalize (beforeStart dvbDmx dev).2 = base at *
  rw [← hpids]
  constructor
  · intro hrestores
    by_cases hentries : base.filter.type = .pes →
        ∀ i ∈ base.added, ∃ pid stream, base.entries i = .pid pid stream
    · have hround := (feeds_restored hready hvalid hentries hfirst hsound' hstop).round
      exact ⟨hentries, fun b => hround.currentFeeds ▸ hrestores.nothing.feeds b⟩
    · rw [Classical.not_imp] at hentries
      obtain ⟨htype, hentries⟩ := hentries
      push Not at hentries
      obtain ⟨i, hi, hno⟩ := hentries
      exact absurd hrestores.nothing
        (embedded_held hready htype hi hno hfirst hsound' hstop hrestores.calm)
  · intro honly
    obtain ⟨hround, hstarted, hnothing, hsame⟩ :=
      feeds_restored hready hvalid honly.entries hfirst hsound' hstop
    have hstopped' := hsound'.stop dvbDmx
    rw [hstop] at hstopped'
    have hbefore := beforeStart_idle hstopped'.state (hround.bufferData.trans hdata)
    obtain ⟨-, -, hfeeds', heq'⟩ := filterStart_ok hstopped'.sound hagain
    rw [hbefore] at hfeeds' heq'
    refine ⟨?_, hnothing honly.feeds, ?_⟩
    · rw [hround.crashed, hstarted, hkept.crashed, hstopped.crashed (hpids.mp honly).entries, hcalm]
    · have hdemux : (filterStart dvbDmx (afterStop dev)).2.demux =
          (startFeeds dvbDmx (afterStop dev)).2.demux :=
        (congrArg Dmxdev.demux heq' : (afterStart (afterStop dev)).demux = _)
      rw [heq, hdemux]
      exact hsame _ (Prod.ext hfeeds' rfl)

theorem restart_restores_pid : Restores (onPid 33) := by
  have hpids : PidsOnly (onPid 33) := by
    refine ⟨fun _ i hi => ?_, nofun⟩
    obtain rfl : i = 0 := List.mem_singleton.mp hi
    exact ⟨33, none, rfl⟩
  exact (restart_restores (onPid_sound 33) (.step .kzalloc (.init 4 4 _) trivial) nofun rfl rfl
    rfl).mpr hpids

/-- `DMX_SET_STID_STREAM`, and `DMX_SET_PES_FILTER` on a pid of the stream. -/
def inStream (embeddingPid isi : ℤ) (pid : ℕ) : Dmxdev NeumoDvbDemux :=
  (doIoctl dvbDmx (doIoctl dvbDmx (demuxOpen idleDevice) (.setStidStream embeddingPid isi)).2
    (.setPesFilter (tsTapOn pid))).2

theorem inStream_sound (embeddingPid isi : ℤ) (pid : ℕ) : Sound (inStream embeddingPid isi pid) :=
  @Sound.ioctl _ _ _ (@Sound.ioctl _ _ _ (demuxOpen_sound idleDevice)
    (.setStidStream embeddingPid isi) fun _ => ⟨none, rfl⟩) (.setPesFilter (tsTapOn pid))
    fun _ => ⟨some 0, rfl⟩

/-- A stream that was embedded in the transport stream of the frontend is looked for in itself when
    it is started again. -/
theorem restart_nests : ¬∀ dev : Dmxdev NeumoDvbDemux, Sound dev → DemuxRun dev.demux →
    (∀ k, dev.sec = .other k → (dev.demux.feedarray k).type = .sec) → dev.demux.crashed = false →
    (filterStart dvbDmx dev).1 = .ok () → (filterStart dvbDmx (afterStop dev)).1 = .ok () →
    Restores dev := by
  intro hall
  have hrun : DemuxRun (inStream 270 5 33).demux :=
    .step .kzalloc (.step .kzalloc (.init 4 4 _) trivial) trivial
  have hrestores := hall (inStream 270 5 33) (inStream_sound 270 5 33) hrun nofun rfl rfl rfl
  have hcount := congrArg Demux.Feeds.refcount (congrFun hrestores.feeds.containers .fe)
  have hfirst : ((afterStart (inStream 270 5 33)).demux.streams.feeds .fe).refcount = 2 := by decide
  have hsecond : ((filterStart dvbDmx (afterStop (inStream 270 5 33))).2.demux.streams.feeds
      .fe).refcount = 1 := by decide
  rw [hfirst, hsecond] at hcount
  cases hcount

end Dmx

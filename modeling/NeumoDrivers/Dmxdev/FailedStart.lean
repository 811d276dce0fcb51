import NeumoDrivers.Dmxdev.DemuxRuns

/-! A start that fails (`neumo-dmxdev.c`).

    `dvb_dmxdev_filter_start` cleans up by `dvb_dmxdev_filter_stop`, which does nothing while the state
    is below `DMXDEV_STATE_GO`, and that state is only set at the end. What has been allocated before
    an allocation fails stays, and the failure to allocate an embedded stream is not noticed. -/

namespace Dmx
open Function Dmxdev
open Demux (FeedsNo BbfNo DvbDemux)

/-! ### What fails -/

section
variable {δ : Type} (ops : DmxDemux δ) (dev : Dmxdev δ)

/-- The errors of the allocation for an entry. -/
def entryErrors (i : EntryNo) : List Errno :=
  match dev.entries i with
  | .pid pid _ =>
    match (dev.askStream ops pid).1 with
    | .error (e, _) => [e]
    | .ok _ => []
  | .embedded type embeddingPid isi _ _ =>
    match (ops.allocateStream type embeddingPid isi dev.filter.currentFeeds dev.demux).1 with
    | .error e => [e]
    | .ok _ => []

/-- The errors of the allocations in the loop of a start. -/
def loopErrors (dev : Dmxdev δ) : List EntryNo → List Errno
  | [] => []
  | i :: is => entryErrors ops dev i ++
    match startEntry ops dev i with
    | (.error _, _) => []
    | (.ok (), dev) => loopErrors dev is

def filterErrors (k : SecFeedNo) (demux : δ) : List Errno :=
  match (ops.allocateSectionFilter k demux).1 with
  | .error e => [e]
  | .ok _ => []

def sectionErrors : List Errno :=
  match dev.others.find? fun user => user.Runs dev.filter.params.secPid with
  | some user => filterErrors ops user.sec (ops.stopSectionFiltering user.sec dev.demux)
  | none =>
    match ops.allocateSectionFeed dev.filter.params.secPid dev.filter.params.checkCrc
      dev.filter.currentFeeds dev.demux with
    | (.error e, _) => [e]
    | (.ok k, demux) => filterErrors ops k demux

def feedsErrors : List Errno :=
  match dev.filter.type with
  | .sec => sectionErrors ops dev
  | .pes => loopErrors ops dev dev.backward
  | .none => []

/-- The errors of the allocations in a call of `dvb_dmxdev_filter_start`. -/
def startErrors : List Errno :=
  if dev.filter.state < .setPes then []
  else
    match beforeStart ops dev with
    | (false, _) => [ENOMEM]
    | (true, dev) => feedsErrors ops dev

end

/-- What is expected of a start: it returns the error of an allocation that fails, and when it
    returns an error everything is as before. -/
structure Released (dev : Dmxdev NeumoDvbDemux) : Prop where
  errors : ∀ e ∈ startErrors dvbDmx dev, (filterStart dvbDmx dev).1 = .error e
  feeds : ∀ e, (filterStart dvbDmx dev).1 = .error e →
    SameFeeds dev.demux (filterStart dvbDmx dev).2.demux ∧
      (filterStart dvbDmx dev).2.filter.state = dev.filter.state

/-! ### When everything is as before -/

section
variable {δ : Type} (ops : DmxDemux δ) (dev : Dmxdev δ)

/-- The demux refuses a stream for the pid and takes no slot for it, or the stream is given and cannot
    be started. -/
def PidFails (pid : ℕ) (e : Errno) : Prop :=
  (dev.askStream ops pid).1 = .error (e, none) ∨
    ∃ s demux, dev.askStream ops pid = (.ok s, demux) ∧
      (ops.startFiltering s (ops.setPriv s demux)).1 = .error e

/-- The first pid fails, and so did all embedded streams before it, for the same reason. -/
def FirstFails (dev : Dmxdev δ) (e : Errno) : List EntryNo → Prop
  | [] => False
  | i :: is =>
    match dev.entries i with
    | .pid pid _ => PidFails ops dev pid e
    | .embedded type embeddingPid isi _ _ =>
      (ops.allocateStream type embeddingPid isi dev.filter.currentFeeds dev.demux).1 = .error e ∧
        FirstFails (startEntry ops dev i).2 e is

/-- A filter is given in the section feed, and the feed can be started. -/
def FilterStarts (k : SecFeedNo) (demux : δ) : Prop :=
  ∃ f demux', ops.allocateSectionFilter k demux = (.ok f, demux') ∧
    (ops.startSectionFiltering k demux').1 = .ok ()

def SectionStartsAll : Prop :=
  match dev.others.find? fun user => user.Runs dev.filter.params.secPid with
  | some user => FilterStarts ops user.sec (ops.stopSectionFiltering user.sec dev.demux)
  | none => ∃ k demux, ops.allocateSectionFeed dev.filter.params.secPid
      dev.filter.params.checkCrc dev.filter.currentFeeds dev.demux = (.ok k, demux) ∧
    FilterStarts ops k demux

/-- One of two attempts to start the section feed succeeds. -/
def Resumes (k : SecFeedNo) (demux : δ) : Prop :=
  (ops.startSectionFiltering k demux).1 = .ok () ∨
    (ops.startSectionFiltering k (ops.startSectionFiltering k demux).2).1 = .ok ()

end

/-- The section feed is not given, or no filter in it; a feed that is shared with another filter is
    started again if it was running. -/
def SectionFails (dev : Dmxdev NeumoDvbDemux) : Prop :=
  match dev.others.find? fun user => user.Runs dev.filter.params.secPid with
  | some user => ∃ e demux, dvbDmx.allocateSectionFilter user.sec
        (dvbDmx.stopSectionFiltering user.sec dev.demux) = (.error e, demux) ∧
      ((dev.demux.feedarray user.sec).state = .go ∧
          (dev.demux.feedarray user.sec).isFiltering = true ∧ Resumes dvbDmx user.sec demux ∨
        (dev.demux.feedarray user.sec).state = .ready ∧
          (dev.demux.feedarray user.sec).isFiltering = false ∧ ¬Resumes dvbDmx user.sec demux)
  | none =>
    (∃ e, (dvbDmx.allocateSectionFeed dev.filter.params.secPid dev.filter.params.checkCrc
        dev.filter.currentFeeds dev.demux).1 = .error e) ∨
      ∃ k demux e, dvbDmx.allocateSectionFeed dev.filter.params.secPid
          dev.filter.params.checkCrc dev.filter.currentFeeds dev.demux = (.ok k, demux) ∧
        (dvbDmx.allocateSectionFilter k demux).1 = .error e

def FeedsStart (dev : Dmxdev NeumoDvbDemux) : Prop :=
  match dev.filter.type with
  | .sec => SectionStartsAll dvbDmx dev
  | .pes => AllStart dvbDmx dev dev.backward
  | .none => False

def FeedsFail (dev : Dmxdev NeumoDvbDemux) : Prop :=
  match dev.filter.type with
  | .sec => SectionFails dev
  | .pes => ∃ e, FirstFails dvbDmx dev e dev.backward
  | .none => True

/-- The start is refused at once, or nothing fails, or the filter is not running and what fails comes
    before anything that succeeds. -/
def CleanStart (dev : Dmxdev NeumoDvbDemux) : Prop :=
  dev.filter.state < .setPes ∨
    (beforeStart dvbDmx dev).1 = true ∧ FeedsStart (beforeStart dvbDmx dev).2 ∨
    dev.filter.state < .go ∧
      ((beforeStart dvbDmx dev).1 = true → FeedsFail (beforeStart dvbDmx dev).2)

/-! ### Without an error -/

section
variable {δ : Type} {ops : DmxDemux δ} {dev dev' : Dmxdev δ} {i : EntryNo} {e : Errno}

theorem startEntries_ok (h : startEntry ops dev i = (.ok (), dev')) (is : List EntryNo) :
    startEntries ops dev (i :: is) = startEntries ops dev' is ∧
      loopErrors ops dev (i :: is) = entryErrors ops dev i ++ loopErrors ops dev' is ∧
      (AllStart ops dev (i :: is) ↔ EntryStarts ops dev i ∧ AllStart ops dev' is) := by
  rw [startEntries, loopErrors, AllStart, h]
  exact ⟨rfl, rfl, Iff.rfl⟩

theorem startEntries_failed (h : startEntry ops dev i = (.error e, dev')) (is : List EntryNo) :
    startEntries ops dev (i :: is) = (.error e, (filterStop ops dev').2) ∧
      loopErrors ops dev (i :: is) = entryErrors ops dev i := by
  rw [startEntries, loopErrors, h]
  exact ⟨rfl, List.append_nil _⟩

/-- An entry has what it asks for just when its start succeeds without an error. -/
theorem entryStarts_iff (ops : DmxDemux δ) (dev : Dmxdev δ) (i : EntryNo) :
    EntryStarts ops dev i ↔ (startEntry ops dev i).1 = .ok () ∧ entryErrors ops dev i = [] := by
  rw [EntryStarts, startEntry, entryErrors]
  cases dev.entries i with
  | pid pid stream =>
    dsimp only
    rw [startPidFeed_ok_iff, iff_self_and]
    rintro ⟨s, demux, hask, -⟩
    rw [hask]
  | embedded type embeddingPid isi stream feeds =>
    dsimp only
    rw [and_iff_right rfl]
    constructor
    · rintro ⟨r, hr⟩
      rw [hr]
    · intro hnone
      split at hnone
      · cases hnone
      · rename_i r hr
        exact ⟨r, hr⟩

/-- The loop succeeds without an error just when every entry has what it asks for. -/
theorem startEntries_all (is : List EntryNo) : ∀ dev : Dmxdev δ,
    (startEntries ops dev is).1 = .ok () ∧ loopErrors ops dev is = [] ↔ AllStart ops dev is := by
  induction is with
  | nil => exact fun _ => iff_of_true ⟨rfl, rfl⟩ trivial
  | cons i is ih =>
    intro dev
    have hentry := entryStarts_iff ops dev i
    cases hresult : startEntry ops dev i with
    | mk result dev' =>
      rw [hresult] at hentry
      cases result with
      | error e =>
        rw [(startEntries_failed hresult is).1]
        refine iff_of_false (fun h => nomatch h.1) fun h => ?_
        have hok := (hentry.mp h.1).1
        cases hok
      | ok _ =>
        obtain ⟨hloop, herrors, hall⟩ := startEntries_ok hresult is
        rw [hloop, herrors, hall, hentry, ← ih, List.append_eq_nil_iff, and_iff_right rfl]
        exact and_left_comm

/-- The start of a filter in a section feed succeeds just when it is given and the feed started. -/
theorem filterStarts_iff {k : SecFeedNo} (hsec : dev.sec = .other k) :
    FilterStarts ops k dev.demux ↔
      (startSecfilter ops dev k).1 = .ok () ∧ filterErrors ops k dev.demux = [] := by
  rw [FilterStarts, filterErrors]
  cases halloc : ops.allocateSectionFilter k dev.demux with
  | mk result demux =>
    cases result with
    | error e =>
      refine iff_of_false ?_ fun h => nomatch h.2
      rintro ⟨f, demux', heq, -⟩
      cases heq
    | ok f =>
      rw [(startSecfilter_ok hsec halloc).1, and_iff_left rfl]
      constructor
      · rintro ⟨f', demux', heq, hok⟩
        cases heq
        exact hok
      · exact fun hok => ⟨f, demux, rfl, hok⟩

theorem startSection_all (htype : dev.filter.type = .sec) :
    (startSection ops dev).1 = .ok () ∧ sectionErrors ops dev = [] ↔ SectionStartsAll ops dev := by
  rw [sectionErrors, SectionStartsAll]
  cases hfind : dev.others.find? fun user => user.Runs dev.filter.params.secPid with
  | some user =>
    rw [startSection_shared ops htype hfind]
    exact (filterStarts_iff (sharedSec_sec ops dev user.sec)).symm
  | none =>
    cases halloc : ops.allocateSectionFeed dev.filter.params.secPid dev.filter.params.checkCrc
      dev.filter.currentFeeds dev.demux with
    | mk result demux =>
      cases result with
      | error e =>
        refine iff_of_false (fun h => nomatch h.2) ?_
        rintro ⟨k, demux', heq, -⟩
        cases heq
      | ok k =>
        rw [startSection_own ops hfind halloc]
        refine (filterStarts_iff (ownSec_sec dev k demux)).symm.trans ⟨fun h => ⟨k, demux, rfl, h⟩, ?_⟩
        rintro ⟨k', demux', heq, h⟩
        cases heq
        exact h

end

/-! ### More and less -/

variable {demux demux' demux'' : NeumoDvbDemux} {streams streams' : DvbDemux} {kind : Kind}
variable {ss : List ℕ} {dev dev' : Dmxdev NeumoDvbDemux} {i : EntryNo} {pid k : ℕ} {e : Errno}

/-- What is in use stays in use. -/
structure Below (demux demux' : NeumoDvbDemux) : Prop where
  slots : ∀ s, (demux'.feedarray s).state = .free → (demux.feedarray s).state = .free
  counts : ∀ b, (demux.streams.bbfs b).refcount ≤ (demux'.streams.bbfs b).refcount

/-- A slot more is taken, or a stream is used once more. -/
def Grew (demux demux' : NeumoDvbDemux) : Prop :=
  (∃ s, (demux.feedarray s).state = .free ∧ (demux'.feedarray s).state ≠ .free) ∨
    ∃ b, (demux.streams.bbfs b).refcount < (demux'.streams.bbfs b).refcount

theorem SameFeeds.below (h : SameFeeds demux demux') : Below demux demux' :=
  ⟨fun s hs => (h.free_iff s).mp hs, fun _ => h.bbfs ▸ Nat.le_refl _⟩

theorem Below.trans (h : Below demux demux') (h' : Below demux' demux'') : Below demux demux'' :=
  ⟨fun s hs => h.slots s (h'.slots s hs), fun b => Nat.le_trans (h.counts b) (h'.counts b)⟩

theorem Grew.below (h : Grew demux demux') (h' : Below demux' demux'') : Grew demux demux'' := by
  rcases h with ⟨s, hfree, hused⟩ | ⟨b, hlt⟩
  · exact .inl ⟨s, hfree, fun hs => hused (h'.slots s hs)⟩
  · exact .inr ⟨b, Nat.lt_of_lt_of_le hlt (h'.counts b)⟩

theorem Grew.not_same (h : Grew demux demux') : ¬SameFeeds demux demux' := by
  intro hsame
  rcases h with ⟨s, hfree, hused⟩ | ⟨b, hlt⟩
  · exact hused ((hsame.free_iff s).mpr hfree)
  · rw [hsame.bbfs] at hlt
    exact Nat.lt_irrefl _ hlt

theorem Opens.below (h : Opens demux demux' kind ss) : Below demux demux' :=
  ⟨fun _ hs => (h.wasFree hs).2, fun _ => h.bbfs ▸ Nat.le_refl _⟩

theorem Opens.grew (h : Opens demux demux' kind (k :: ss)) : Grew demux demux' :=
  .inl ⟨k, h.free k List.mem_cons_self, (h.own k List.mem_cons_self).1⟩

theorem leaked_grew (hfree : (demux.feedarray k).state = .free) (parent : FeedsNo) :
    Grew demux (leaked demux.ask k parent) ∧ Below demux (leaked demux.ask k parent) := by
  refine ⟨.inl ⟨k, hfree, ?_⟩, fun s hs => ?_, fun _ => Nat.le_refl _⟩
  · simp [leaked]
  · by_cases hsk : s = k
    · rw [hsk]
      exact hfree
    · simpa [leaked, update_of_ne hsk] using hs

/-- What is expected of a part of a start, with the errors of its allocations. -/
def Releases (es : List Errno) (demux : NeumoDvbDemux)
    (result : Except Errno Unit × Dmxdev NeumoDvbDemux) : Prop :=
  (∀ e ∈ es, result.1 = .error e) ∧ ∀ e, result.1 = .error e → SameFeeds demux result.2.demux

/-! ### Entries -/

/-- What a start that fails relies on. -/
structure Fits (dev : Dmxdev NeumoDvbDemux) : Prop where
  valid : Valid dev.demux
  fresh : Fresh dev.demux.streams
  shared : ∀ user ∈ dev.others, (dev.demux.feedarray user.sec).type = .sec

/-- What one entry of the list does to the demux, and the errors of its allocation. -/
inductive EntryStep (dev : Dmxdev NeumoDvbDemux) (i : EntryNo) :
    List Errno → Except Errno Unit × Dmxdev NeumoDvbDemux → Prop where
  | started (dev' : Dmxdev NeumoDvbDemux) : EntryStarts dvbDmx dev i →
    (∀ e is, ¬FirstFails dvbDmx dev e (i :: is)) → Grew dev.demux dev'.demux → Below dev.demux dev'.demux → Valid dev'.demux →
    Fresh dev'.demux.streams → EntryStep dev i [] (.ok (), dev')
  | missed (e : Errno) (dev' : Dmxdev NeumoDvbDemux) : ¬EntryStarts dvbDmx dev i →
    (∀ is, FirstFails dvbDmx dev e (i :: is) ↔ FirstFails dvbDmx dev' e is) →
    (∀ e', e' ≠ e → ∀ is, ¬FirstFails dvbDmx dev e' (i :: is)) →
    SameFeeds dev.demux dev'.demux → Fresh dev'.demux.streams → EntryStep dev i [e] (.ok (), dev')
  | failed (es : List Errno) (e : Errno) (dev' : Dmxdev NeumoDvbDemux) :
    ¬EntryStarts dvbDmx dev i → (∀ e' is, FirstFails dvbDmx dev e' (i :: is) ↔ e' = e) →
    (∀ e' ∈ es, e' = e) → SameFeeds dev.demux dev'.demux → EntryStep dev i es (.error e, dev')
  | leaked (es : List Errno) (e : Errno) (dev' : Dmxdev NeumoDvbDemux) :
    ¬EntryStarts dvbDmx dev i → (∀ e is, ¬FirstFails dvbDmx dev e (i :: is)) →
    Grew dev.demux dev'.demux → Below dev.demux dev'.demux → EntryStep dev i es (.error e, dev')

theorem entry_pid (hvalid : Valid dev.demux) (hfresh : Fresh dev.demux.streams)
    {stream : Option PidStreamNo} (hentry : dev.entries i = .pid pid stream) :
    EntryStep dev i (entryErrors dvbDmx dev i) (startEntry dvbDmx dev i) := by
  have hstarts : EntryStarts dvbDmx dev i ↔ PidStarts dvbDmx dev pid := by
    rw [EntryStarts, hentry]
  have hfails : ∀ e is, FirstFails dvbDmx dev e (i :: is) ↔ PidFails dvbDmx dev pid e := by
    intro e is
    rw [FirstFails, hentry]
  have hopens : Opens dev.demux dev.demux dev.pidKind [] := opens_nil.mpr (.refl _)
  have hcases := startPidFeed_cases dev i pid
  rw [startEntry, entryErrors, hentry]
  dsimp only
  generalize startPidFeed dvbDmx dev i pid = result at hcases
  cases hcases with
  | refused e demux hdemux hask =>
    rw [hask]
    refine .failed _ e _ ?_ (fun e' is => ?_) ?_ ?_
    · rw [hstarts]
      rintro ⟨s, demux', hask', -⟩
      rw [hask] at hask'
      cases hask'
    · rw [hfails]
      constructor
      · rintro (hask' | ⟨s, demux', hask', -⟩)
        · rw [hask] at hask'
          cases hask'
          rfl
        · rw [hask] at hask'
          cases hask'
      · rintro rfl
        exact .inl (congrArg Prod.fst hask)
    · exact fun e' he' => List.mem_singleton.mp he'
    · rcases hdemux with rfl | rfl
      · exact .refl _
      · exact .ask _
  | leaked s hs hconflict hask =>
    rw [hask]
    obtain ⟨hgrew, hbelow⟩ := leaked_grew (feedAlloc_free hs)
      (dev.filter.currentFeeds.getD .default)
    refine .leaked _ _ _ ?_ (fun e is => ?_) hgrew hbelow
    · rw [hstarts]
      rintro ⟨s, demux', hask', -⟩
      rw [hask] at hask'
      cases hask'
    · rw [hfails]
      rintro (hask' | ⟨s, demux', hask', -⟩) <;> rw [hask] at hask' <;> cases hask'
  | stopped s e hs hconflict hask hstart =>
    rw [hask]
    refine .failed _ e _ ?_ (fun e' is => ?_) (by rintro _ ⟨⟩) ?_
    · rw [hstarts]
      rintro ⟨s', demux', hask', hok⟩
      rw [hask] at hask'
      cases hask'
      have hok' : (dvbDmx.startFiltering s (dev.primed s pid)).1 = .ok () := hok
      rw [hstart] at hok'
      cases hok'
    · rw [hfails]
      constructor
      · rintro (hask' | ⟨s', demux', hask', herror⟩)
        · rw [hask] at hask'
          cases hask'
        · rw [hask] at hask'
          cases hask'
          have herror' : (dvbDmx.startFiltering s (dev.primed s pid)).1 = .error e' := herror
          rw [hstart] at herror'
          cases herror'
          rfl
      · rintro rfl
        exact .inr ⟨s, _, hask, hstart⟩
    · have hprimed := hopens.primed hvalid (feedAlloc_free hs) rfl hconflict pid
      exact opens_nil.mp (hprimed.ask.release rfl)
  | started s hs hconflict hask hstart =>
    rw [hask]
    have hrunning := hopens.running hvalid (feedAlloc_free hs) rfl hconflict pid
    refine .started _ ?_ (fun e is => ?_) hrunning.grew hrunning.below (hrunning.valid hvalid) ?_
    · rw [hstarts]
      exact ⟨s, _, hask, hstart⟩
    · rw [hfails]
      rintro (hask' | ⟨s', demux', hask', herror⟩)
      · rw [hask] at hask'
        cases hask'
      · rw [hask] at hask'
        cases hask'
        have herror' : (dvbDmx.startFiltering s (dev.primed s pid)).1 = .error e := herror
        rw [hstart] at herror'
        cases herror'
    · exact Fresh.add hfresh (by rfl) s

/-- What the allocation of an embedded stream can do. -/
theorem allocateStream_cases (hfresh : Fresh demux.streams) (type : Demux.EmbeddedStreamType)
    (embeddingPid isi : ℤ) (parent : Option FeedsNo) :
    (∃ e demux', demux.allocateStream type embeddingPid isi parent = (.error e, demux') ∧
        SameFeeds demux demux' ∧ Fresh demux'.streams) ∨
      ∃ b demux', demux.allocateStream type embeddingPid isi parent = (.ok (b, .ofBbf b), demux') ∧
        Grew demux demux' ∧ Below demux demux' ∧ (Valid demux → Valid demux') ∧
        Fresh demux'.streams := by
  rw [NeumoDvbDemux.allocateStream]
  split
  · exact .inl ⟨_, _, rfl, .ask demux, hfresh⟩
  · split
    · rename_i streams' hnone
      have hemb : ∃ r, Demux.findOrAllocEmb demux.streams embeddingPid (parent.getD type.parent)
          demux.answer.memory = (streams', r) ∧ r = none := by
        rw [Demux.allocateStream] at hnone
        split at hnone
        · rename_i heq
          cases hnone
          exact ⟨none, heq, rfl⟩
        · cases hnone
      obtain ⟨r, hemb, hr⟩ := hemb
      obtain ⟨hbbfs, hnext, hsame, -⟩ := findOrAllocEmb_same hemb
      obtain ⟨hfeeds, hembs⟩ := hsame hr
      exact .inl ⟨_, _, rfl, ⟨rfl, fun _ => rfl, rfl, rfl, hfeeds, hembs, hbbfs⟩,
        hfresh.same hbbfs hembs hnext⟩
    · rename_i streams' b hsome
      obtain ⟨hfresh', hlt, hothers⟩ := hfresh.allocate hsome
      refine .inr ⟨b, _, rfl, .inr ⟨b, hlt⟩, ⟨fun _ hs => hs, fun j => ?_⟩,
        fun h => ⟨h.listed, h.nodup, h.decoded⟩, hfresh'⟩
      by_cases hj : j = b
      · subst hj
        exact Nat.le_of_lt hlt
      · exact Nat.le_of_eq (congrArg Demux.Bbf.refcount (hothers j hj)).symm

theorem entry_embedded (hvalid : Valid dev.demux) (hfresh : Fresh dev.demux.streams)
    {type : Demux.EmbeddedStreamType} {embeddingPid isi : ℤ} {stream : Option BbfNo}
    {feeds : Option FeedsNo}
    (hentry : dev.entries i = .embedded type embeddingPid isi stream feeds) :
    EntryStep dev i (entryErrors dvbDmx dev i) (startEntry dvbDmx dev i) := by
  have hstep : startEntry dvbDmx dev i =
      (.ok (), allocateEmbedded dvbDmx dev i type embeddingPid isi feeds) := by
    rw [startEntry, hentry]
  have hask : dvbDmx.allocateStream type embeddingPid isi dev.filter.currentFeeds dev.demux =
      dev.demux.allocateStream type embeddingPid isi dev.filter.currentFeeds := rfl
  have hfirst : ∀ e is, FirstFails dvbDmx dev e (i :: is) ↔
      (dev.demux.allocateStream type embeddingPid isi dev.filter.currentFeeds).1 = .error e ∧
        FirstFails dvbDmx (startEntry dvbDmx dev i).2 e is := by
    intro e is
    rw [FirstFails, hentry]
    exact Iff.rfl
  have hstarts : EntryStarts dvbDmx dev i ↔ ∃ r, (dev.demux.allocateStream type embeddingPid isi
      dev.filter.currentFeeds).1 = .ok r := by
    rw [EntryStarts, hentry]
    exact Iff.rfl
  rw [hstep, allocateEmbedded, hask] at hfirst ⊢
  rw [entryErrors, hentry]
  dsimp only
  rw [hask]
  rcases allocateStream_cases hfresh type embeddingPid isi dev.filter.currentFeeds with
    ⟨e, demux', heq, hsame, hfresh'⟩ | ⟨b, demux', heq, hgrew, hbelow, hvalid', hfresh'⟩
  · rw [heq] at hfirst hstarts ⊢
    refine .missed e _ ?_ (fun is => ?_) (fun e' hne is => ?_) hsame hfresh'
    · rw [hstarts]
      rintro ⟨r, hr⟩
      cases hr
    · rw [hfirst]
      exact and_iff_right rfl
    · rw [hfirst]
      rintro ⟨he, -⟩
      exact hne (Except.error.inj he).symm
  · rw [heq] at hfirst hstarts ⊢
    refine .started _ (hstarts.mpr ⟨_, rfl⟩) (fun e is => ?_) hgrew hbelow (hvalid' hvalid) hfresh'
    rw [hfirst]
    rintro ⟨he, -⟩
    cases he

theorem entry_step (hvalid : Valid dev.demux) (hfresh : Fresh dev.demux.streams) (i : EntryNo) :
    EntryStep dev i (entryErrors dvbDmx dev i) (startEntry dvbDmx dev i) := by
  cases hentry : dev.entries i with
  | pid pid stream => exact entry_pid hvalid hfresh hentry
  | embedded type embeddingPid isi stream feeds => exact entry_embedded hvalid hfresh hentry

/-! ### The loop -/

theorem startEntries_error (h : startEntry dvbDmx dev i = (.error e, dev'))
    (hstate : dev'.filter.state < .go) (is : List EntryNo) :
    startEntries dvbDmx dev (i :: is) = (.error e, dev') ∧
      loopErrors dvbDmx dev (i :: is) = entryErrors dvbDmx dev i := by
  have hfailed := startEntries_failed h is
  rwa [filterStop_idle hstate] at hfailed

/-- The loop does not take anything back. -/
theorem startEntries_below (is : List EntryNo) : ∀ {dev : Dmxdev NeumoDvbDemux},
    Valid dev.demux → Fresh dev.demux.streams → dev.filter.state < .go →
      Below dev.demux (startEntries dvbDmx dev is).2.demux := by
  induction is with
  | nil =>
    intro dev _ _ _
    exact (SameFeeds.refl dev.demux).below
  | cons i is ih =>
    intro dev hvalid hfresh hstate
    have hstep := entry_step hvalid hfresh i
    have hframe := startEntry_frame dvbDmx dev i
    generalize entryErrors dvbDmx dev i = es at hstep
    generalize hresult : startEntry dvbDmx dev i = result at hstep hframe
    have hstate' : result.2.filter.state < .go := hframe.state ▸ hstate
    cases hstep with
    | started dev' _ _ _ hbelow hvalid' hfresh' =>
      rw [(startEntries_ok hresult is).1]
      exact hbelow.trans (ih hvalid' hfresh' hstate')
    | missed e dev' _ _ _ hsame hfresh' =>
      rw [(startEntries_ok hresult is).1]
      exact hsame.below.trans (ih (hvalid.same hsame) hfresh' hstate')
    | failed _ e dev' _ _ _ hsame =>
      rw [(startEntries_error hresult hstate' is).1]
      exact hsame.below
    | leaked _ e dev' _ _ _ hbelow =>
      rw [(startEntries_error hresult hstate' is).1]
      exact hbelow

theorem firstFails_released (is : List EntryNo) : ∀ {dev : Dmxdev NeumoDvbDemux},
    Valid dev.demux → Fresh dev.demux.streams → dev.filter.state < .go →
      FirstFails dvbDmx dev e is → (startEntries dvbDmx dev is).1 = .error e ∧
        SameFeeds dev.demux (startEntries dvbDmx dev is).2.demux ∧
        ∀ e' ∈ loopErrors dvbDmx dev is, e' = e := by
  induction is with
  | nil => exact fun _ _ _ h => h.elim
  | cons i is ih =>
    intro dev hvalid hfresh hstate hfirst
    have hstep := entry_step hvalid hfresh i
    have hframe := startEntry_frame dvbDmx dev i
    generalize hes : entryErrors dvbDmx dev i = es at hstep
    generalize hresult : startEntry dvbDmx dev i = result at hstep hframe
    have hstate' : result.2.filter.state < .go := hframe.state ▸ hstate
    cases hstep with
    | started dev' _ hno _ _ _ _ => exact absurd hfirst (hno e is)
    | missed e₀ dev' _ hiff hno hsame hfresh' =>
      obtain rfl : e = e₀ := by
        by_contra hne
        exact hno e hne is hfirst
      obtain ⟨hret, hsame', herrors⟩ :=
        ih (hvalid.same hsame) hfresh' hstate' ((hiff is).mp hfirst)
      obtain ⟨hloop, hlist, -⟩ := startEntries_ok hresult is
      rw [hloop, hlist, hes]
      exact ⟨hret, hsame.trans hsame', List.forall_mem_append.mpr
        ⟨fun e' he' => List.mem_singleton.mp he', herrors⟩⟩
    | failed _ e₀ dev' _ hiff hes' hsame =>
      obtain rfl := (hiff e is).mp hfirst
      obtain ⟨hloop, hlist⟩ := startEntries_error hresult hstate' is
      rw [hloop, hlist, hes]
      exact ⟨rfl, hsame, hes'⟩
    | leaked _ _ dev' _ hno _ _ => exact absurd hfirst (hno e is)

theorem loop_released (is : List EntryNo) : ∀ {dev : Dmxdev NeumoDvbDemux},
    Valid dev.demux → Fresh dev.demux.streams → dev.filter.state < .go →
      (Releases (loopErrors dvbDmx dev is) dev.demux (startEntries dvbDmx dev is) ↔
        AllStart dvbDmx dev is ∨ ∃ e, FirstFails dvbDmx dev e is) := by
  induction is with
  | nil =>
    intro dev _ _ _
    exact iff_of_true ⟨nofun, nofun⟩ (.inl trivial)
  | cons i is ih =>
    intro dev hvalid hfresh hstate
    have hall := @startEntries_all _ dvbDmx (i :: is) dev
    constructor
    · rintro ⟨herrors, hsame⟩
      have hstep := entry_step hvalid hfresh i
      have hframe := startEntry_frame dvbDmx dev i
      generalize hes : entryErrors dvbDmx dev i = es at hstep
      generalize hresult : startEntry dvbDmx dev i = result at hstep hframe
      have hstate' : result.2.filter.state < .go := hframe.state ▸ hstate
      cases hstep with
      | started dev' _ _ hgrew _ hvalid' hfresh' =>
        -- what has been started stays, so that the loop must succeed
        have hbelow := startEntries_below is hvalid' hfresh' hstate'
        rw [← (startEntries_ok hresult is).1] at hbelow
        have hok : (startEntries dvbDmx dev (i :: is)).1 = .ok () := by
          cases hret : (startEntries dvbDmx dev (i :: is)).1 with
          | error e => exact absurd (hsame e hret) (hgrew.below hbelow).not_same
          | ok _ => rfl
        refine .inl (hall.mp ⟨hok, List.eq_nil_iff_forall_not_mem.mpr fun e he => ?_⟩)
        have herror := herrors e he
        rw [hok] at herror
        cases herror
      | missed e dev' _ hiff _ hsame' hfresh' =>
        obtain ⟨hloop, hlist, -⟩ := startEntries_ok hresult is
        rw [hloop] at herrors hsame
        rw [hlist, hes] at herrors
        have hret := herrors e (List.mem_cons_self)
        have hvalid' := hvalid.same hsame'
        have hrest : Releases (loopErrors dvbDmx dev' is) dev'.demux (startEntries dvbDmx dev' is) :=
          ⟨fun e' he' => herrors e' (List.mem_append_right _ he'),
            fun e' he' => hsame'.symm.trans (hsame e' he')⟩
        rcases (ih hvalid' hfresh' hstate').mp hrest with hall' | ⟨e', hfirst⟩
        · have hok := ((startEntries_all is dev').mpr hall').1
          have hret' := hok.symm.trans hret
          cases hret'
        · have hret' := (firstFails_released is hvalid' hfresh' hstate' hfirst).1.symm.trans hret
          cases hret'
          exact .inr ⟨e, (hiff is).mpr hfirst⟩
      | failed _ e dev' _ hiff _ _ => exact .inr ⟨e, (hiff e is).mpr rfl⟩
      | leaked _ e dev' _ _ hgrew _ =>
        rw [(startEntries_error hresult hstate' is).1] at hsame
        exact absurd (hsame e rfl) hgrew.not_same
    · rintro (hstarts | ⟨e, hfirst⟩)
      · obtain ⟨hok, hnone⟩ := hall.mpr hstarts
        rw [Releases, hok, hnone]
        exact ⟨nofun, nofun⟩
      · obtain ⟨hret, hsame, herrors⟩ := firstFails_released (i :: is) hvalid hfresh hstate hfirst
        exact ⟨fun e' he' => (herrors e' he').symm ▸ hret, fun _ _ => hsame⟩

/-! ### Section filters -/

theorem sameFeeds_setFeed {feed : Feed} (h : SameFeeds (demux.setFeed k feed) demux') :
    SameFeeds demux demux' ↔ feed.view = (demux.feedarray k).view := by
  have hfeed : (demux'.feedarray k).view = feed.view := by
    rw [h.view, setFeed_feedarray, update_self]
  constructor
  · intro hsame
    rw [← hfeed, hsame.view]
  · intro hview
    refine ⟨h.feednum, fun i => ?_, h.list, h.pesfilter, h.containers, h.embs, h.bbfs⟩
    by_cases hik : i = k
    · rw [hik, hfeed, hview]
    · rw [h.view, setFeed_feedarray, update_of_ne hik]

theorem releaseSectionFeed_feedarray (demux : NeumoDvbDemux) (i : ℕ) :
    (demux.releaseSectionFeed i).feedarray = update demux.feedarray i
      (if (demux.feedarray i).state = .free then demux.feedarray i
      else { demux.feedarray i with state := .free, pid := 0xffff }) := by
  rw [NeumoDvbDemux.releaseSectionFeed]
  by_cases hfree : (demux.feedarray i).state = .free
  · simp [hfree]
  · simp [hfree]

theorem start_empty (hempty : (demux.feedarray k).sectionFilter = []) :
    SameFeeds demux (demux.startSectionFiltering k).2 := by
  rcases startSectionFiltering_cases demux k with ⟨e, heq⟩ | ⟨-, hsome, -⟩
  · rw [heq]
    exact .ask demux
  · exact absurd hempty hsome

/-- A feed of its own goes back when it has no filter, and stays when it cannot be started. -/
theorem ownSec_released {parent : FeedsNo} (hsec : dev.sec = .other k)
    (hfind : (dev.others.find? fun user => user.Runs dev.filter.params.secPid) = none)
    (hopens : Opens demux dev.demux (secKind parent) [k])
    (hempty : (dev.demux.feedarray k).sectionFilter = []) :
    Releases (filterErrors dvbDmx k dev.demux) demux (startSecfilter dvbDmx dev k) ↔
      FilterStarts dvbDmx k dev.demux ∨
        ∃ e, (dvbDmx.allocateSectionFilter k dev.demux).1 = .error e := by
  rcases allocateSectionFilter_cases dev.demux k with ⟨e, halloc⟩ | ⟨f, -, halloc⟩
  · have halloc' : dvbDmx.allocateSectionFilter k dev.demux = (.error e, dev.demux.ask) := halloc
    obtain ⟨hret, hdemux⟩ := startSecfilter_error hsec halloc'
    rw [restarted, hfind] at hdemux
    rw [Releases, filterErrors, hret, hdemux, halloc']
    refine iff_of_true ⟨fun e' he' => ?_, fun _ _ => ?_⟩ (.inr ⟨e, rfl⟩)
    · rw [List.mem_singleton.mp he']
    · have hsame := opens_nil.mp hopens.ask.releaseSec
      refine hsame.trans (start_empty ?_)
      rw [releaseSectionFeed_feedarray, update_self]
      split <;> exact hempty
  · have halloc' : dvbDmx.allocateSectionFilter k dev.demux =
        (.ok f, filtered dev.demux.ask k f) := halloc
    obtain ⟨hret, hdemux⟩ := startSecfilter_ok hsec halloc'
    have hfiltered := hopens.ask.filtered (List.mem_singleton_self k) f
    rw [Releases, filterErrors, FilterStarts, hret, hdemux, halloc']
    rcases startSectionFiltering_cases (filtered dev.demux.ask k f) k with ⟨e, heq⟩ | ⟨-, -, heq⟩
    · have heq' : dvbDmx.startSectionFiltering k (filtered dev.demux.ask k f) = _ := heq
      rw [heq']
      refine iff_of_false (fun h => hfiltered.ask.grew.not_same (h.2 e rfl)) ?_
      rintro (⟨f', demux', halloc, hok⟩ | ⟨e', he'⟩)
      · cases halloc
        rw [heq'] at hok
        cases hok
      · cases he'
    · have heq' : dvbDmx.startSectionFiltering k (filtered dev.demux.ask k f) = _ := heq
      rw [heq']
      exact iff_of_true ⟨by rintro _ ⟨⟩, by rintro _ ⟨⟩⟩ (.inl ⟨f, _, rfl, congrArg Prod.fst heq'⟩)

theorem view_started (feed : Feed) (state : DvbDmxState) (isFiltering : Bool)
    (hstate : state ≠ .free) :
    ({ feed with state := state, isFiltering := isFiltering } : Feed).view = feed.view ↔
      feed.state = state ∧ feed.isFiltering = isFiltering := by
  constructor
  · intro hview
    obtain ⟨hstate', -, -, -, hfiltering, -⟩ := Feed.fields_of_view hview hstate
    exact ⟨hstate', hfiltering⟩
  · rintro ⟨rfl, rfl⟩
    rfl

/-- The filters in a section feed can be seen. -/
theorem view_filter {feed feed' : Feed} (hview : feed'.view = feed.view) (htype : feed.type = .sec)
    (htype' : feed'.type = .sec) (hstate : feed'.state ≠ .free) :
    feed'.sectionFilter = feed.sectionFilter := by
  have hused : feed.state ≠ .free := by
    intro hfree
    rw [Feed.view_of_free hfree, Feed.view_eq_none] at hview
    exact hstate hview
  rw [Feed.view_sec hused htype, Feed.view_sec hstate htype', Option.some.injEq] at hview
  have hfilter := congrArg Feed.sectionFilter hview
  exact hfilter

/-- The two attempts to start a feed that has been stopped. -/
theorem start_twice (demux : NeumoDvbDemux) (k : SecFeedNo) :
    Resumes dvbDmx k demux ∧
        (dvbDmx.startSectionFiltering k (dvbDmx.startSectionFiltering k demux).2).2 =
          demux.ask.ask.setFeed k { demux.feedarray k with isFiltering := true, state := .go } ∨
      ¬Resumes dvbDmx k demux ∧
        (dvbDmx.startSectionFiltering k (dvbDmx.startSectionFiltering k demux).2).2 =
          demux.ask.ask := by
  rw [Resumes]
  rcases startSectionFiltering_cases demux k with ⟨e, heq⟩ | ⟨-, -, heq⟩
  · have hfirst : dvbDmx.startSectionFiltering k demux = (.error e, demux.ask) := heq
    rw [hfirst]
    rcases startSectionFiltering_cases demux.ask k with ⟨e', heq'⟩ | ⟨-, -, heq'⟩
    · have hsecond : dvbDmx.startSectionFiltering k demux.ask = (.error e', demux.ask.ask) := heq'
      rw [hsecond]
      refine .inr ⟨?_, rfl⟩
      rintro (h | h) <;> cases h
    · have hsecond : dvbDmx.startSectionFiltering k demux.ask = _ := heq'
      rw [hsecond]
      exact .inl ⟨.inr rfl, rfl⟩
  · have hfirst : dvbDmx.startSectionFiltering k demux = _ := heq
    rw [hfirst]
    refine .inl ⟨.inl rfl, ?_⟩
    rcases startSectionFiltering_cases (demux.ask.setFeed k
      { demux.feedarray k with isFiltering := true, state := .go }) k with
      ⟨e', heq'⟩ | ⟨hrunning, -⟩
    · have hsecond : dvbDmx.startSectionFiltering k (demux.ask.setFeed k
        { demux.feedarray k with isFiltering := true, state := .go }) = _ := heq'
      rw [hsecond]
      rfl
    · rw [setFeed_feedarray, update_self] at hrunning
      cases hrunning

/-- A feed that another filter uses is stopped, and started again when there is no filter in it. -/
theorem sharedSec_released {user : SecUser} (hsec : dev.sec = .other user.sec)
    (hfind : (dev.others.find? fun user => user.Runs dev.filter.params.secPid) = some user)
    (hdev : dev.demux = demux.stopSectionFiltering user.sec)
    (hshared : (demux.feedarray user.sec).type = .sec) :
    Releases (filterErrors dvbDmx user.sec dev.demux) demux
        (startSecfilter dvbDmx dev user.sec) ↔
      FilterStarts dvbDmx user.sec dev.demux ∨
        ∃ e demux', dvbDmx.allocateSectionFilter user.sec dev.demux = (.error e, demux') ∧
          ((demux.feedarray user.sec).state = .go ∧
              (demux.feedarray user.sec).isFiltering = true ∧ Resumes dvbDmx user.sec demux' ∨
            (demux.feedarray user.sec).state = .ready ∧
              (demux.feedarray user.sec).isFiltering = false ∧
              ¬Resumes dvbDmx user.sec demux') := by
  have hfeed : dev.demux.feedarray user.sec =
      { demux.feedarray user.sec with state := .ready, isFiltering := false } := by
    rw [hdev, NeumoDvbDemux.stopSectionFiltering, setFeed_feedarray, update_self]
  rcases allocateSectionFilter_cases dev.demux user.sec with ⟨e, halloc⟩ | ⟨f, -, halloc⟩
  · have halloc' : dvbDmx.allocateSectionFilter user.sec dev.demux = (.error e, dev.demux.ask) :=
      halloc
    obtain ⟨hret, hdemux⟩ := startSecfilter_error hsec halloc'
    rw [restarted, hfind] at hdemux
    have hcases : SameFeeds demux (dvbDmx.startSectionFiltering user.sec
        (dvbDmx.startSectionFiltering user.sec dev.demux.ask).2).2 ↔
        (demux.feedarray user.sec).state = .go ∧
            (demux.feedarray user.sec).isFiltering = true ∧
              Resumes dvbDmx user.sec dev.demux.ask ∨
          (demux.feedarray user.sec).state = .ready ∧
            (demux.feedarray user.sec).isFiltering = false ∧
              ¬Resumes dvbDmx user.sec dev.demux.ask := by
      rcases start_twice dev.demux.ask user.sec with ⟨hresumes, heq⟩ | ⟨hresumes, heq⟩
      · have hset : SameFeeds (demux.setFeed user.sec { demux.feedarray user.sec with
            state := .go, isFiltering := true }) (dev.demux.ask.ask.ask.setFeed user.sec
            { demux.feedarray user.sec with state := .go, isFiltering := true }) := by
          refine ⟨hdev ▸ rfl, fun i => ?_, hdev ▸ rfl, hdev ▸ rfl, hdev ▸ rfl, hdev ▸ rfl,
            hdev ▸ rfl⟩
          simp [hdev, NeumoDvbDemux.stopSectionFiltering]
        rw [heq, ask_feedarray, hfeed]
        refine (sameFeeds_setFeed hset).trans ((view_started _ .go true (by rintro ⟨⟩)).trans ?_)
        simp [hresumes]
      · have hset : SameFeeds (demux.setFeed user.sec { demux.feedarray user.sec with
            state := .ready, isFiltering := false }) dev.demux.ask.ask.ask := by
          rw [hdev]
          exact ⟨rfl, fun _ => rfl, rfl, rfl, rfl, rfl, rfl⟩
        rw [heq]
        refine (sameFeeds_setFeed hset).trans ((view_started _ .ready false (by rintro ⟨⟩)).trans ?_)
        simp [hresumes]
    rw [Releases, filterErrors, FilterStarts, hret, hdemux, halloc']
    constructor
    · rintro ⟨-, hsame⟩
      exact .inr ⟨e, _, rfl, hcases.mp (hsame e rfl)⟩
    · rintro (⟨f, demux', halloc, -⟩ | ⟨e', demux', halloc, hwhen⟩)
      · cases halloc
      · cases halloc
        refine ⟨fun e' he' => ?_, fun _ _ => hcases.mpr hwhen⟩
        rw [List.mem_singleton.mp he']
  · have halloc' : dvbDmx.allocateSectionFilter user.sec dev.demux =
        (.ok f, filtered dev.demux.ask user.sec f) := halloc
    obtain ⟨hret, hdemux⟩ := startSecfilter_ok hsec halloc'
    rw [Releases, filterErrors, FilterStarts, hret, hdemux, halloc']
    rcases startSectionFiltering_cases (filtered dev.demux.ask user.sec f) user.sec with
      ⟨e, heq⟩ | ⟨-, -, heq⟩
    · have heq' : dvbDmx.startSectionFiltering user.sec (filtered dev.demux.ask user.sec f) = _ :=
        heq
      rw [heq']
      refine iff_of_false ?_ ?_
      · -- the filter that has been allocated stays in the feed
        rintro ⟨-, hsame⟩
        have hview := (hsame e rfl).view user.sec
        rw [ask_feedarray, filtered_feedarray, update_self, ask_feedarray, hfeed] at hview
        have hfilter := view_filter hview hshared hshared (by rintro ⟨⟩)
        exact List.cons_ne_self _ _ hfilter
      · rintro (⟨f', demux', halloc, hok⟩ | ⟨e', demux', halloc, -⟩)
        · cases halloc
          rw [heq'] at hok
          cases hok
        · cases halloc
    · have heq' : dvbDmx.startSectionFiltering user.sec (filtered dev.demux.ask user.sec f) = _ :=
        heq
      rw [heq']
      exact iff_of_true ⟨by rintro _ ⟨⟩, by rintro _ ⟨⟩⟩ (.inl ⟨f, _, rfl, congrArg Prod.fst heq'⟩)

theorem section_released (hvalid : Valid dev.demux) (htype : dev.filter.type = .sec)
    (hshared : ∀ user ∈ dev.others, (dev.demux.feedarray user.sec).type = .sec) :
    Releases (sectionErrors dvbDmx dev) dev.demux (startSection dvbDmx dev) ↔
      SectionStartsAll dvbDmx dev ∨ SectionFails dev := by
  rw [sectionErrors, SectionStartsAll, SectionFails]
  cases hfind : dev.others.find? fun user => user.Runs dev.filter.params.secPid with
  | some user =>
    rw [startSection_shared dvbDmx htype hfind]
    exact sharedSec_released (sharedSec_sec dvbDmx dev user.sec) hfind rfl
      (hshared user (List.mem_of_find?_eq_some hfind))
  | none =>
    rcases allocateSectionFeed_cases dev.demux dev.filter.params.secPid dev.filter.currentFeeds
      with ⟨e, demux, halloc, hdemux⟩ | ⟨k, hk, halloc⟩
    · have halloc' : dvbDmx.allocateSectionFeed dev.filter.params.secPid
          dev.filter.params.checkCrc dev.filter.currentFeeds dev.demux = (.error e, demux) := halloc
      rw [startSection_refused dvbDmx hfind halloc', halloc']
      refine iff_of_true ⟨fun e' he' => ?_, fun _ _ => ?_⟩ (.inr (.inl ⟨e, rfl⟩))
      · rw [List.mem_singleton.mp he']
      · rcases hdemux with rfl | rfl
        · exact .refl _
        · exact .ask _
    · have halloc' : dvbDmx.allocateSectionFeed dev.filter.params.secPid
          dev.filter.params.checkCrc dev.filter.currentFeeds dev.demux = (.ok k, _) := halloc
      have hopens := opens_openedSec hvalid (feedAlloc_free hk) dev.filter.params.secPid
        (dev.filter.currentFeeds.getD .default)
      have hempty : ((openedSec dev.demux.ask k dev.filter.params.secPid
          (dev.filter.currentFeeds.getD .default)).feedarray k).sectionFilter = [] := by
        rw [openedSec_feedarray, update_self, secFeed]
      rw [startSection_own dvbDmx hfind halloc', halloc']
      refine (ownSec_released (ownSec_sec dev k _) hfind hopens hempty).trans ?_
      constructor
      · rintro (hstarts | ⟨e, he⟩)
        · exact .inl ⟨k, _, rfl, hstarts⟩
        · exact .inr (.inr ⟨k, _, e, rfl, he⟩)
      · rintro (⟨k', demux, heq, hstarts⟩ | ⟨e, he⟩ | ⟨k', demux, e, heq, he⟩)
        · cases heq
          exact .inl hstarts
        · cases he
        · cases heq
          exact .inr ⟨e, he⟩

/-! ### The whole start -/

theorem feeds_released (hfits : Fits dev) (hstate : dev.filter.state < .go) :
    Releases (feedsErrors dvbDmx dev) dev.demux (startFeeds dvbDmx dev) ↔
      FeedsStart dev ∨ FeedsFail dev := by
  rw [feedsErrors, startFeeds, FeedsStart, FeedsFail]
  cases htype : dev.filter.type with
  | sec => exact section_released hfits.valid htype hfits.shared
  | pes => exact loop_released dev.backward hfits.valid hfits.fresh hstate
  | none => exact iff_of_true ⟨by rintro _ ⟨⟩, fun _ _ => .refl dev.demux⟩ (.inr trivial)

theorem feeds_all (dev : Dmxdev NeumoDvbDemux) :
    (startFeeds dvbDmx dev).1 = .ok () ∧ feedsErrors dvbDmx dev = [] ↔ FeedsStart dev := by
  rw [startFeeds, feedsErrors, FeedsStart]
  cases htype : dev.filter.type with
  | sec => exact startSection_all htype
  | pes => exact startEntries_all dev.backward dev
  | none => exact iff_of_false (by rintro ⟨⟨⟩, -⟩) id

theorem startFeeds_state (hstate : dev.filter.state < .go) :
    (startFeeds dvbDmx dev).2.filter.state = .setPes ∨
      (startFeeds dvbDmx dev).2.filter.state = dev.filter.state := by
  rw [startFeeds]
  cases htype : dev.filter.type with
  | sec => exact startSection_state dvbDmx htype
  | pes => exact .inr (startEntries_frame dvbDmx dev.backward hstate).state
  | none => exact .inr rfl

theorem Fits.buffer (h : Fits dev) : SameFeeds dev.demux (allocateBuffer dvbDmx dev).2.demux ∧
    Fits (allocateBuffer dvbDmx dev).2 := by
  rw [allocateBuffer]
  split
  · exact ⟨.refl _, h⟩
  · exact ⟨.ask _, h.valid.same (.ask _), h.fresh, h.shared⟩

theorem finishStart_fst (result : Except Errno Unit × Dmxdev NeumoDvbDemux) :
    (finishStart result).1 = result.1 := by
  rw [finishStart]
  cases result.1 <;> rfl

theorem finishStart_error {result : Except Errno Unit × Dmxdev NeumoDvbDemux}
    (h : result.1 = .error e) : (finishStart result).2 = result.2 := by
  rw [finishStart, h]

theorem startErrors_eq (hset : .setPes ≤ dev.filter.state) : startErrors dvbDmx dev =
    if (beforeStart dvbDmx dev).1 then feedsErrors dvbDmx (beforeStart dvbDmx dev).2
    else [ENOMEM] := by
  rw [startErrors, if_neg (NeumoDmxdevState.not_lt.mpr hset)]
  cases beforeStart dvbDmx dev with
  | mk buffer dev' => cases buffer <;> rfl

/-- A filter that is running is stopped first, and stays so when the start fails. -/
theorem restart_released (hsound : Sound dev) (hgo : .go ≤ dev.filter.state) :
    Released dev ↔ (beforeStart dvbDmx dev).1 = true ∧ FeedsStart (beforeStart dvbDmx dev).2 := by
  have hready := hsound.ready dvbDmx
  have hset : .setPes ≤ dev.filter.state := Nat.le_trans (Nat.le_of_lt setPes_lt_go) hgo
  have heq := filterStart_eq dvbDmx hsound hset
  have herrors := startErrors_eq hset
  have hstopped : ∀ e dev', filterStart dvbDmx dev = (.error e, dev') → dev'.filter.state < .go →
      ¬Released dev := by
    intro e dev' hret hstate hreleased
    have hsame := (hreleased.feeds e (by rw [hret])).2
    rw [hret] at hsame
    exact absurd hgo (NeumoDmxdevState.not_le.mpr (hsame ▸ hstate))
  cases hbefore : beforeStart dvbDmx dev with
  | mk buffer dev' =>
    rw [hbefore] at heq hready herrors
    cases buffer with
    | false => exact iff_of_false (hstopped _ _ heq hready.state) fun h => nomatch h.1
    | true =>
      rw [if_pos rfl] at heq
      rw [if_pos rfl] at herrors
      rw [and_iff_right rfl, ← feeds_all]
      constructor
      · intro hreleased
        have hok : (startFeeds dvbDmx dev').1 = .ok () := by
          cases hret : (startFeeds dvbDmx dev').1 with
          | ok _ => rfl
          | error e =>
            rw [finishStart, hret] at heq
            refine absurd hreleased (hstopped e _ heq ?_)
            rcases startFeeds_state hready.state with hstate | hstate
            · exact hstate ▸ setPes_lt_go
            · exact hstate ▸ hready.state
        refine ⟨hok, List.eq_nil_iff_forall_not_mem.mpr fun e he => ?_⟩
        have hret := hreleased.errors e (herrors ▸ he)
        rw [heq, finishStart_fst, hok] at hret
        cases hret
      · rintro ⟨hok, hnone⟩
        refine ⟨fun e he => ?_, fun e he => ?_⟩
        · rw [herrors, hnone] at he
          cases he
        · rw [heq, finishStart_fst, hok] at he
          cases he

theorem eq_setPes {state : NeumoDmxdevState} (hset : .setPes ≤ state) (hstate : state < .go) :
    state = .setPes := by
  revert hset hstate
  cases state <;> decide

/-- A filter that is not running is as before when the first thing fails. -/
theorem idle_released (hsound : Sound dev) (hfits : Fits dev) (hset : .setPes ≤ dev.filter.state)
    (hstate : dev.filter.state < .go) : Released dev ↔
      (beforeStart dvbDmx dev).1 = true ∧ FeedsStart (beforeStart dvbDmx dev).2 ∨
        ((beforeStart dvbDmx dev).1 = true → FeedsFail (beforeStart dvbDmx dev).2) := by
  have heq := filterStart_eq dvbDmx hsound hset
  have herrors := startErrors_eq hset
  have hbuffer := hfits.buffer
  have hframe := allocateBuffer_frame dvbDmx dev
  have hbefore : beforeStart dvbDmx dev = allocateBuffer dvbDmx dev := by
    rw [beforeStart, filterStop_idle hstate]
  rw [hbefore] at heq herrors ⊢
  generalize allocateBuffer dvbDmx dev = before at *
  obtain ⟨buffer, dev'⟩ := before
  obtain ⟨hsame, hfits'⟩ := hbuffer
  have hstate' : dev'.filter.state = dev.filter.state := hframe.state
  cases buffer with
  | false =>
    refine iff_of_true ⟨fun e he => ?_, fun e _ => ?_⟩ (.inr (by rintro ⟨⟩))
    · rw [herrors, if_neg Bool.false_ne_true, List.mem_singleton] at he
      rw [heq, he]
      rfl
    · rw [heq]
      exact ⟨hsame, hstate'⟩
  | true =>
    have hfeeds := feeds_released hfits' (hstate' ▸ hstate)
    rw [if_pos rfl] at heq herrors
    rw [and_iff_right rfl]
    refine Iff.trans ?_ (hfeeds.trans (or_congr Iff.rfl ⟨fun h _ => h, fun h => h rfl⟩))
    constructor
    · intro hreleased
      refine ⟨fun e he => ?_, fun e he => ?_⟩
      · have hret := hreleased.errors e (herrors ▸ he)
        rwa [heq, finishStart_fst] at hret
      · have hsame' := (hreleased.feeds e (by rw [heq, finishStart_fst, he])).1
        rw [heq, finishStart_error he] at hsame'
        exact hsame.symm.trans hsame'
    · intro hreleases
      refine ⟨fun e he => ?_, fun e he => ?_⟩
      · rw [herrors] at he
        rw [heq, finishStart_fst]
        exact hreleases.1 e he
      · rw [heq, finishStart_fst] at he
        rw [heq, finishStart_error he]
        refine ⟨hsame.trans (hreleases.2 e he), ?_⟩
        rcases startFeeds_state (hstate' ▸ hstate) with hafter | hafter
        · exact hafter.trans (eq_setPes hset hstate).symm
        · exact hafter.trans hstate'

/-- A start that fails is as if it had not been made just when what fails is the first thing, and the
    filter was not running. -/
theorem failed_start_released {dev : Dmxdev NeumoDvbDemux} (hsound : Sound dev)
    (hrun : DemuxRun dev.demux)
    (hshared : ∀ user ∈ dev.others, (dev.demux.feedarray user.sec).type = .sec) :
    Released dev ↔ CleanStart dev := by
  by_cases hset : dev.filter.state < .setPes
  · refine iff_of_true ⟨fun e he => ?_, fun e _ => ?_⟩ (.inl hset)
    · rw [startErrors, if_pos hset] at he
      cases he
    · rw [filterStart, if_pos hset]
      exact ⟨.refl _, rfl⟩
  · rw [CleanStart, or_iff_right hset]
    by_cases hgo : .go ≤ dev.filter.state
    · rw [restart_released hsound hgo, or_iff_left fun h => NeumoDmxdevState.not_lt.mpr hgo h.1]
    · rw [idle_released hsound ⟨hrun.valid, hrun.fresh, hshared⟩ (NeumoDmxdevState.not_lt.mp hset)
        (NeumoDmxdevState.not_le.mp hgo), and_iff_right (NeumoDmxdevState.not_le.mp hgo)]

/-- `DMX_SET_PES_FILTER` on a pid. -/
def onPid (pid : ℕ) : Dmxdev NeumoDvbDemux :=
  (doIoctl dvbDmx (demuxOpen idleDevice) (.setPesFilter (tsTapOn pid))).2

theorem onPid_sound (pid : ℕ) : Sound (onPid pid) :=
  @Sound.ioctl _ _ _ (demuxOpen_sound idleDevice) (.setPesFilter (tsTapOn pid)) fun _ => ⟨none, rfl⟩

theorem failed_start_released_first : Released (onPid 0x2001) :=
  (failed_start_released (onPid_sound 0x2001) (.step .kzalloc (.init 4 4 _) trivial) nofun).mpr
    (.inr (.inr ⟨by decide, fun _ => ⟨EINVAL, .inl rfl⟩⟩))

/-- A second pid that is out of range: the feed of the first one stays started. -/
theorem first_pid_stays : ¬∀ dev : Dmxdev NeumoDvbDemux, Sound dev → DemuxRun dev.demux →
    (∀ user ∈ dev.others, (dev.demux.feedarray user.sec).type = .sec) → Released dev := by
  intro hall
  have hsound : Sound (doIoctl dvbDmx (onPid 33) (.addPid 0x2001)).2 :=
    @Sound.ioctl _ _ _ (onPid_sound 33) (.addPid 0x2001) trivial
  have hrun : DemuxRun (doIoctl dvbDmx (onPid 33) (.addPid 0x2001)).2.demux :=
    .step .kzalloc (.step .kzalloc (.init 4 4 _) trivial) trivial
  have hreleased := hall _ hsound hrun nofun
  have hstate := ((hreleased.feeds EINVAL rfl).1.free_iff 0).mpr rfl
  cases hstate

end Dmx

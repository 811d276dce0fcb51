import NeumoDrivers.Dmxdev.HeldStreams

/-! Closing a file descriptor of the demux device (`neumo-dmxdev.c`).

    `dvb_dmxdev_filter_free` stops the filter and resets it. The stop gives back what the entries of a
    running list hold, or the filter and the feed of a running section filter; the reset frees the
    entries of a list. What a start that fails leaves behind, and the entries of a filter that is not
    a list any more, are not seen. -/

namespace Dmx
open CircularList Function Dmxdev
open Demux (FeedsNo BbfNo)

variable {δ : Type} {ops : DmxDemux δ} {dev dev' : Dmxdev (δ × Ledger)} {k : SecFeedNo}
  {f : SecFilterNo}

/-! ### A filter between two calls -/

/-- A filter that is not running has acquired nothing. -/
structure Idle (dev : Dmxdev (δ × Ledger)) : Prop where
  sound : Sound dev
  oneFeed : OneFeed dev dev.others
  state : dev.filter.state < .go
  ledger : dev.demux.2 = .empty
  set : dev.filter.type = .pes → .setPes ≤ dev.filter.state

/-- What a running section filter has acquired: its filter in a section feed, and the feed, unless
    it has taken that over. -/
structure HeldSec (dev : Dmxdev (δ × Ledger)) (k : SecFeedNo) (f : SecFilterNo) : Prop where
  sec : dev.sec = .other k
  secfilter : dev.filter.secfilter = some f
  ledger : dev.demux.2 = ⟨0, 0, 0, {f}, false⟩ ∨ dev.demux.2 = ⟨0, 0, {k}, {f}, false⟩

/-- Everything that has been acquired is known to the filter. -/
structure Accounted (dev : Dmxdev (δ × Ledger)) : Prop where
  sound : Sound dev
  oneFeed : OneFeed dev dev.others
  idle : dev.filter.state < .go → dev.demux.2 = .empty
  set : dev.filter.type = .pes → .setPes ≤ dev.filter.state
  list : dev.filter.type = .pes → .go ≤ dev.filter.state → Held dev dev.added
  sec : dev.filter.type = .sec → .go ≤ dev.filter.state → ∃ k f, HeldSec dev k f

theorem Idle.accounted (h : Idle dev) : Accounted dev := by
  have hidle : ¬.go ≤ dev.filter.state := NeumoDmxdevState.not_le.mpr h.state
  exact ⟨h.sound, h.oneFeed, fun _ => h.ledger, h.set, fun _ hgo => absurd hgo hidle,
    fun _ hgo => absurd hgo hidle⟩

theorem Accounted.toIdle (h : Accounted dev) (hstate : dev.filter.state < .go) : Idle dev :=
  ⟨h.sound, h.oneFeed, hstate, h.idle hstate, h.set⟩

/-! ### Stopping -/

/-- The filter in the section feed is released, and the feed goes back to another filter or is
    released too. -/
theorem restarted_ledger (h : HeldSec dev k f) (hfeed : OneFeed dev dev.others)
    (htype : dev.filter.type = .sec) (hgo : .go ≤ dev.filter.state) (ops : DmxDemux δ) :
    (restarted (ledgered ops) dev k ((ledgered ops).releaseSectionFilter k f
      ((ledgered ops).stopSectionFiltering k dev.demux))).2 = .empty := by
  have hreleased : ((ledgered ops).releaseSectionFilter k f
      ((ledgered ops).stopSectionFiltering k dev.demux)).2 = dev.demux.2.giveSecFilter f := rfl
  rw [restarted]
  split
  · rename_i user hfind
    have hruns : user.Runs dev.filter.params.secPid := by simpa using List.find?_some hfind
    have hsec := hfeed.own htype hgo user (List.mem_of_find?_eq_some hfind) hruns
    have hk : user.sec = k := by
      rw [h.sec] at hsec
      cases hsec
      rfl
    change (((ledgered ops).releaseSectionFilter k f
      ((ledgered ops).stopSectionFiltering k dev.demux)).2.startSecFeed user.sec) = .empty
    rw [hreleased, hk]
    rcases h.ledger with hledger | hledger <;> rw [hledger] <;>
      simp [Ledger.startSecFeed, Ledger.giveSecFilter, Ledger.giveSecFeed, Ledger.empty]
  · change (((ledgered ops).releaseSectionFilter k f
      ((ledgered ops).stopSectionFiltering k dev.demux)).2.giveSecFeed k) = .empty
    rw [hreleased]
    rcases h.ledger with hledger | hledger <;> rw [hledger] <;>
      simp [Ledger.giveSecFilter, Ledger.giveSecFeed, Ledger.empty]

theorem stopSection_demux {δ : Type} {ops : DmxDemux δ} {dev : Dmxdev δ} {f : SecFilterNo}
    (hsec : dev.sec = .other k) (hf : dev.filter.secfilter = some f)
    (htype : dev.filter.type = .sec) :
    (stopSection ops dev).demux = restarted ops dev k
      (ops.releaseSectionFilter k f (ops.stopSectionFiltering k dev.demux)) ∧
      SameUsers dev.others (stopSection ops dev).others := by
  have htype' : (dev.setState .setPes).filter.type = .sec := htype
  have hstopped : feedStop ops dev = (dev.setState .setPes).callSec ops.stopSectionFiltering := by
    rw [feedStop, htype']
  have hdemux : (feedStop ops dev).demux = ops.stopSectionFiltering k dev.demux := by
    rw [hstopped]
    exact callSec_demux (show (dev.setState .setPes).sec = .other k from hsec) _
  have hfilter : (feedStop ops dev).filter = (dev.setState .setPes).filter := by
    rw [hstopped]
    exact callSec_filter _ _
  have hothers : (feedStop ops dev).others = dev.others := by
    rw [hstopped]
    exact callSec_others _ _
  rw [stopSection, hsec]
  dsimp only
  generalize feedStop ops dev = stopped at *
  have hf' : stopped.filter.secfilter = some f := by
    rw [hfilter]
    exact hf
  rw [hf']
  have hsec' : stopped.sec = .other k :=
    (congrArg (fun filter : Filter => filter.feed.next none) hfilter).trans hsec
  have hdemux' := callSec_demux hsec' fun k => ops.releaseSectionFilter k f
  have hfilter' := callSec_filter stopped fun k => ops.releaseSectionFilter k f
  have hothers' := callSec_others stopped fun k => ops.releaseSectionFilter k f
  dsimp only
  generalize stopped.callSec (fun k => ops.releaseSectionFilter k f) = released at *
  have hsec'' : released.sec = .other k :=
    (congrArg (fun filter : Filter => filter.feed.next none) hfilter').trans hsec'
  have hrestarted : restarted ops released k released.demux =
      restarted ops dev k released.demux := by
    rw [restarted, restarted, hothers', hothers, hfilter', hfilter]
    rfl
  have husers := feedRestart_users ops released
  rw [hothers', hothers] at husers
  refine ⟨?_, husers⟩
  refine (feedRestart_demux hsec'').trans ?_
  rw [hrestarted, hdemux', hdemux]

theorem filterStop_others {δ : Type} (ops : DmxDemux δ) {dev : Dmxdev δ} (h : Sound dev)
    (hgo : .go ≤ dev.filter.state) (htype : dev.filter.type = .pes) :
    (filterStop ops dev).2.others = dev.others := by
  rw [filterStop_pes h hgo htype]
  exact (foldl_kept (·.others) (releaseEntry_others ops) _ _).trans
    (foldl_kept (·.others) (stopEntry_others ops) _ _)

theorem filterStop_added {δ : Type} (ops : DmxDemux δ) {dev : Dmxdev δ} (h : Sound dev) :
    (filterStop ops dev).2.added = dev.added := by
  rcases h.runs with hlt | ⟨hgo, htype | htype⟩
  · rw [filterStop_idle hlt]
  · rw [filterStop_pes h hgo htype]
    exact (stopEntries_frame ops dev.added (dev.setState .setPes)).added
  · obtain ⟨k, hsec, huse⟩ := h.running htype hgo
    obtain ⟨others, demux, secInUse, heq⟩ := stopSection_cases ops hsec huse htype
    rw [filterStop_section hgo htype, heq]
    rfl

/-- What a stop leaves. -/
structure AfterStop (dev dev' : Dmxdev (δ × Ledger)) : Prop where
  idle : Idle dev'
  type : dev'.filter.type = dev.filter.type
  added : dev'.added = dev.added
  isList : dev.IsList → dev'.IsList

theorem Accounted.stop (h : Accounted dev) (hsafe : StopsSafely dev) (ops : DmxDemux δ) :
    AfterStop dev (filterStop (ledgered ops) dev).2 := by
  have hstopped := h.sound.stop (ledgered ops)
  have hkept : AfterStop dev (filterStop (ledgered ops) dev).2 ↔ Idle (filterStop (ledgered ops) dev).2 :=
    ⟨fun h => h.idle, fun hidle => ⟨hidle, hstopped.type, filterStop_added (ledgered ops) h.sound,
      hstopped.isList⟩⟩
  rw [hkept]
  rcases h.sound.runs with hlt | ⟨hgo, htype | htype⟩
  · rw [filterStop_idle hlt]
    exact h.toIdle hlt
  · refine ⟨hstopped.sound, ?_, hstopped.state, ?_, fun _ => ?_⟩
    · rw [filterStop_others (ledgered ops) h.sound hgo htype]
      exact h.oneFeed.idle (.refl dev.others) hstopped.state
    · exact stopPes_ledger h.sound (h.list htype hgo) hsafe hgo htype ops
    · rw [filterStop_pes h.sound hgo htype, (stopEntries_frame (ledgered ops) _ _).state]
      exact Nat.le_refl _
  · obtain ⟨k, f, hheld⟩ := h.sec htype hgo
    obtain ⟨hledger, hothers⟩ := stopSection_demux hheld.sec hheld.secfilter htype
    rw [filterStop_section hgo htype] at hstopped ⊢
    refine ⟨hstopped.sound, h.oneFeed.idle hothers hstopped.state, hstopped.state, ?_, fun hpes => ?_⟩
    · rw [hledger]
      exact restarted_ledger hheld h.oneFeed htype hgo ops
    · have hno := htype.symm.trans (hstopped.type.symm.trans hpes)
      cases hno

/-- The entries of a list are freed, and nothing else happens. -/
structure Freed (dev dev' : Dmxdev (δ × Ledger)) : Prop where
  others : dev'.others = dev.others
  demux : dev'.demux = dev.demux
  added : dev.filter.type = .pes → dev'.added = []
  kept : dev.filter.type ≠ .pes → dev'.added = dev.added

theorem Idle.freed (h : Idle dev) :
    Freed dev (if dev.filter.type = .pes then deletePids dev else dev) := by
  split
  · rename_i htype
    have hlist := h.sound.pes htype
    have hdelete : deletePids dev = dev.added.foldl Dmxdev.listDel dev := by
      rw [deletePids, useList_eq (h.sound.list hlist), h.sound.forward hlist]
    rw [hdelete]
    have hothers := foldl_kept (·.others) (f := Dmxdev.listDel) (fun _ _ => rfl) dev.added dev
    exact ⟨hothers, deletePids_demux dev.added dev,
      fun _ => deletePids_added dev.added dev rfl, fun hne => absurd htype hne⟩
  · rename_i htype
    exact ⟨rfl, rfl, fun hpes => absurd hpes htype, fun _ => rfl⟩

/-- What a reset leaves. -/
structure AfterReset (dev dev' : Dmxdev (δ × Ledger)) (target : NeumoDmxdevState) : Prop where
  idle : Idle dev'
  type : target < .setPes → dev'.filter.type ≠ .pes
  isList : dev.IsList → dev'.IsList
  added : dev.filter.type = .pes → target < .setPes → dev'.added = []
  kept : dev.filter.type ≠ .pes → dev'.added = dev.added

theorem Idle.reset (h : Idle dev) (target : NeumoDmxdevState) (htarget : target < .go) :
    AfterReset dev (filterReset dev target) target := by
  obtain ⟨hsound, hstate, hlist⟩ := h.sound.reset h.state target htarget
  by_cases hle : dev.filter.state ≤ target
  · have heq : filterReset dev target = dev := if_pos hle
    have hset : target < .setPes → dev.filter.type ≠ .pes := fun hlt htype =>
      absurd (Nat.le_trans (h.set htype) hle) (NeumoDmxdevState.not_le.mpr hlt)
    rw [heq]
    exact ⟨h, hset, id, fun htype hlt => absurd htype (hset hlt), fun _ => rfl⟩
  · have hfreed := h.freed
    have heq : filterReset dev target = _ := if_neg hle
    rw [heq] at hsound hstate hlist ⊢
    refine ⟨⟨hsound, ?_, hstate, ?_, nofun⟩, fun _ => nofun, hlist,
      fun htype _ => hfreed.added htype, hfreed.kept⟩
    · refine h.oneFeed.idle ?_ hstate
      rw [hfreed.others]
      exact .refl dev.others
    · exact (congrArg Prod.snd hfreed.demux).trans h.ledger

/-! ### Starting a section filter -/

/-- If the filter is given in the section feed, the feed starts. -/
def GivenStarts (ops : DmxDemux δ) (k : SecFeedNo) (demux : δ) : Prop :=
  ∀ f demux', ops.allocateSectionFilter k demux = (.ok f, demux') →
    (ops.startSectionFiltering k demux').1 = .ok ()

/-- A section filter that is given starts; a section feed of its own takes a filter. -/
def SectionGoes (ops : DmxDemux δ) (dev : Dmxdev δ) : Prop :=
  match dev.others.find? fun user => user.Runs dev.filter.params.secPid with
  | some user => GivenStarts ops user.sec (ops.stopSectionFiltering user.sec dev.demux)
  | none => ∀ k demux, ops.allocateSectionFeed dev.filter.params.secPid dev.filter.params.checkCrc
      dev.filter.currentFeeds dev.demux = (.ok k, demux) →
    GivenStarts ops k demux ∧ ∃ f, (ops.allocateSectionFilter k demux).1 = .ok f

theorem SectionGoes.newFeed {ops : DmxDemux δ} {dev : Dmxdev δ} (h : SectionGoes ops dev) :
    NewFeedTakesFilter ops dev := by
  intro hfind k demux halloc
  rw [SectionGoes, hfind] at h
  exact (h k demux halloc).2

/-- The filter of the device after `dvb_dmxdev_filter_start` has got it. -/
theorem startSecfilter_given {δ : Type} {ops : DmxDemux δ} {dev : Dmxdev δ} {demux : δ}
    (halloc : ops.allocateSectionFilter k dev.demux = (.ok f, demux)) :
    (startSecfilter ops dev k).2.filter.secfilter = some f ∧
      (startSecfilter ops dev k).2.others = dev.others := by
  rw [startSecfilter]
  dsimp only
  rw [halloc]
  dsimp only
  rw [callSec_filter, callSec_others]
  exact ⟨rfl, callSec_others dev _⟩

theorem startSecfilter_refused {δ : Type} {ops : DmxDemux δ} {dev : Dmxdev δ} {e : Errno}
    {demux : δ} (halloc : ops.allocateSectionFilter k dev.demux = (.error e, demux)) :
    (startSecfilter ops dev k).2.filter = dev.filter ∧
      SameUsers dev.others (startSecfilter ops dev k).2.others := by
  have hothers := callSec_others dev fun k demux => (ops.allocateSectionFilter k demux).2
  rw [startSecfilter]
  dsimp only
  rw [halloc]
  dsimp only
  rw [callSec_others, callSec_filter, feedRestart_filter, callSec_filter]
  have husers := feedRestart_users ops (dev.callSec fun k demux =>
    (ops.allocateSectionFilter k demux).2)
  rw [hothers] at husers
  exact ⟨rfl, husers⟩

/-- The section filter is given and started; the ledger has the filter, and the feed if it is new. -/
theorem accounted_given {dev₁ : Dmxdev (δ × Ledger)} {d : δ × Ledger} (h : OneFeed dev dev₁.others)
    (hsec : dev₁.sec = .other k) (huse : dev₁.secInUse = some k) (htype : dev₁.filter.type = .sec)
    (hledger : dev₁.demux.2 = .empty ∨ dev₁.demux.2 = ⟨0, 0, {k}, 0, false⟩)
    (hown : ∀ user ∈ dev₁.others, user.Runs dev₁.filter.params.secPid → user.sec = k)
    (halloc : (ledgered ops).allocateSectionFilter k dev₁.demux = (.ok f, d))
    (hstart : ((ledgered ops).startSectionFiltering k d).1 = .ok ())
    (hsound : (startSecfilter (ledgered ops) dev₁ k).1 = .ok () →
      Sound ((startSecfilter (ledgered ops) dev₁ k).2.setState .go)) :
    Accounted (finishStart (startSecfilter (ledgered ops) dev₁ k)).2 := by
  obtain ⟨hret, hdemux⟩ := startSecfilter_ok hsec halloc
  obtain ⟨hfilter, hothers⟩ := startSecfilter_given halloc
  have hframe := startSecfilter_frame (ledgered ops) dev₁ hsec huse (.inl ⟨f, by rw [halloc]⟩)
  have hsec' : (startSecfilter (ledgered ops) dev₁ k).2.sec = .other k :=
    (congrArg (fun feed => feed.next none) hframe.feed).trans hsec
  have htype' := hframe.type.trans htype
  have hparams := hframe.params
  have hd : d.2 = dev₁.demux.2.secFilterResult (.ok f) := recorded_ledger halloc
  have hd' : ((ledgered ops).startSectionFiltering k d).2.2 = d.2.startSecFeed k := rfl
  rw [hstart] at hret
  have hsound' := hsound hret
  rw [finishStart, hret]
  dsimp only
  rw [← hdemux] at hd'
  generalize (startSecfilter (ledgered ops) dev₁ k).2 = started at *
  refine ⟨hsound', ?_, ?_, ?_, ?_, ?_⟩
  · refine h.same ?_ fun _ _ user huser hruns => ?_
    · change SameUsers dev₁.others started.others
      rw [hothers]
      exact .refl dev₁.others
    · have huser' : user ∈ started.others := huser
      have hruns' : user.Runs started.filter.params.secPid := hruns
      rw [hothers] at huser'
      rw [hparams] at hruns'
      rw [hown user huser' hruns']
      exact hsec'
  · intro hlt
    exact absurd hlt (Nat.lt_irrefl _)
  · intro hpes
    have hpes' := htype'.symm.trans hpes
    cases hpes'
  · intro hpes
    have hpes' := htype'.symm.trans hpes
    cases hpes'
  · intro _ _
    refine ⟨k, f, hsec', hfilter, ?_⟩
    change started.demux.2 = _ ∨ started.demux.2 = _
    rw [hd', hd]
    rcases hledger with hledger | hledger
    · rw [hledger]
      exact .inl rfl
    · rw [hledger]
      exact .inr rfl

/-- The section filter is refused, and the feed goes back. -/
theorem accounted_refused {dev₁ : Dmxdev (δ × Ledger)} {d : δ × Ledger} {e : Errno}
    (h : OneFeed dev dev₁.others) (hsec : dev₁.sec = .other k) (hstate : dev₁.filter.state < .go)
    (htype : dev₁.filter.type = .sec) (hledger : dev₁.demux.2 = .empty)
    (halloc : (ledgered ops).allocateSectionFilter k dev₁.demux = (.error e, d))
    (hsound : Sound (startSecfilter (ledgered ops) dev₁ k).2) :
    Accounted (finishStart (startSecfilter (ledgered ops) dev₁ k)).2 := by
  obtain ⟨hret, hdemux⟩ := startSecfilter_error hsec halloc
  obtain ⟨hfilter, hothers⟩ := startSecfilter_refused halloc
  have hd : d.2 = .empty := by
    rw [← hledger]
    exact recorded_ledger halloc
  have hback : (restarted (ledgered ops) dev₁ k d).2 = .empty := by
    rw [restarted]
    split
    · change d.2.startSecFeed _ = _
      rw [hd]
      rfl
    · change d.2.giveSecFeed _ = _
      rw [hd]
      rfl
  have hnothing : ((ledgered ops).startSectionFiltering k
      (restarted (ledgered ops) dev₁ k d)).2.2 = .empty := by
    change (restarted (ledgered ops) dev₁ k d).2.startSecFeed k = _
    rw [hback]
    rfl
  rw [← hdemux] at hnothing
  rw [finishStart, hret]
  dsimp only
  generalize (startSecfilter (ledgered ops) dev₁ k).2 = refused at *
  rw [← hfilter] at hstate htype
  refine Idle.accounted ⟨hsound, h.idle hothers hstate, hstate, hnothing, ?_⟩
  rw [htype]
  rintro ⟨⟩

theorem Idle.startSection (h : Idle dev) (htype : dev.filter.type = .sec)
    (hgoes : SectionGoes (ledgered ops) dev) :
    Accounted (finishStart (startSection (ledgered ops) dev)).2 := by
  obtain ⟨hsound, hsound'⟩ := h.sound.startSec htype h.state hgoes.newFeed
  rw [SectionGoes] at hgoes
  cases hfind : dev.others.find? fun user => user.Runs dev.filter.params.secPid with
  | some user =>
    rw [hfind] at hgoes
    rw [startSection_shared (ledgered ops) htype hfind] at hsound hsound' ⊢
    have hruns : user.Runs dev.filter.params.secPid := by simpa using List.find?_some hfind
    cases halloc : (ledgered ops).allocateSectionFilter user.sec
        (sharedSec (ledgered ops) dev user.sec).demux with
    | mk result d =>
      cases result with
      | error e =>
        exact accounted_refused h.oneFeed (sharedSec_sec _ dev user.sec) setPes_lt_go htype
          h.ledger halloc hsound
      | ok f =>
        refine accounted_given h.oneFeed (sharedSec_sec _ dev user.sec) rfl htype
          (.inl h.ledger) (fun user' huser' hruns' => ?_) halloc (hgoes f d halloc) hsound'
        exact h.oneFeed.shared _ user' huser' user (List.mem_of_find?_eq_some hfind) hruns' hruns
  | none =>
    rw [hfind] at hgoes
    cases halloc : (ledgered ops).allocateSectionFeed dev.filter.params.secPid
        dev.filter.params.checkCrc dev.filter.currentFeeds dev.demux with
    | mk result demux =>
      have hledger : demux.2 = dev.demux.2.secFeedResult result := recorded_ledger halloc
      cases result with
      | error e =>
        rw [startSection_refused (ledgered ops) hfind halloc] at hsound ⊢
        refine Idle.accounted ⟨hsound, h.oneFeed.idle (.refl dev.others) h.state, h.state,
          hledger.trans h.ledger, fun hpes => ?_⟩
        have hpes' := htype.symm.trans hpes
        cases hpes'
      | ok k =>
        obtain ⟨hgiven, f, hf⟩ := hgoes k demux halloc
        rw [startSection_own (ledgered ops) hfind halloc] at hsound hsound' ⊢
        cases hallocf : (ledgered ops).allocateSectionFilter k demux with
        | mk result d =>
          rw [hallocf] at hf
          obtain rfl : result = .ok f := hf
          refine accounted_given h.oneFeed (ownSec_sec dev k demux) rfl htype (.inr ?_)
            (fun user huser hruns => ?_) hallocf (hgiven f d hallocf) hsound'
          · refine hledger.trans ?_
            rw [h.ledger]
            rfl
          · have hnone := List.find?_eq_none.mp hfind user huser
            simp only [decide_eq_true_eq] at hnone
            exact absurd hruns hnone

/-! ### Starting -/

theorem Idle.startList (h : Idle dev) (htype : dev.filter.type = .pes)
    (hgoes : PidsStart (ledgered ops) dev dev.backward ∨
      NothingStarts (ledgered ops) dev dev.backward) :
    Accounted (finishStart (startEntries (ledgered ops) dev dev.backward)).2 := by
  have hlist := h.sound.pes htype
  have hback := h.sound.backward hlist
  have hnodup := (h.sound.list hlist).nodup
  have hframe := startEntries_frame (ledgered ops) dev.backward h.state
  have hothers := startEntries_others (ledgered ops) dev.backward h.state
  have hsound : Sound (finishStart (startFeeds (ledgered ops) dev)).2 :=
    h.sound.feeds h.state fun hsec => by rw [htype] at hsec; cases hsec
  have hheld : Held (startEntries (ledgered ops) dev dev.backward).2 dev.added := by
    have hstarted := Held.startAll ops dev.backward (held_zero.mpr h.ledger) h.state
      (by rwa [hback, List.nodup_reverse]) (fun _ _ => Multiset.notMem_zero _)
    rwa [Multiset.add_zero, hback, Multiset.coe_reverse, ← hback] at hstarted
  rw [startFeeds, htype] at hsound
  dsimp only at hsound
  rw [finishStart] at hsound ⊢
  rcases hgoes with hpids | hnothing
  · have hret := startEntries_pids dev.backward hpids
    rw [hret] at hsound ⊢
    dsimp only at hsound ⊢
    generalize (startEntries (ledgered ops) dev dev.backward).2 = started at *
    have htype' := hframe.type.trans htype
    have hsame : SameUsers dev.others started.others := by
      rw [hothers]
      exact .refl dev.others
    refine ⟨hsound, h.oneFeed.same hsame ?_, ?_, ?_, ?_, ?_⟩
    · intro hsec
      have hsec' := htype'.symm.trans hsec
      cases hsec'
    · intro hlt
      exact absurd hlt (Nat.lt_irrefl _)
    · intro _
      exact Nat.le_of_lt setPes_lt_go
    · intro _ _
      change Held (started.setState .go) started.added
      rw [hframe.added]
      exact hheld.same rfl fun _ _ => rfl
    · intro hsec
      have hsec' := htype'.symm.trans hsec
      cases hsec'
  · obtain ⟨⟨e, hret⟩, hledger⟩ := startEntries_nothing dev.backward h.state hnothing
    rw [hret] at hsound ⊢
    dsimp only at hsound ⊢
    generalize (startEntries (ledgered ops) dev dev.backward).2 = failed at *
    have hstate : failed.filter.state < .go := by
      rw [hframe.state]
      exact h.state
    refine Idle.accounted ⟨hsound, h.oneFeed.idle ?_ hstate, hstate, hledger.trans h.ledger, ?_⟩
    · rw [hothers]
      exact .refl dev.others
    · rw [hframe.type, hframe.state]
      exact h.set

/-- What is to be started starts, or what fails comes before anything is acquired. -/
def FeedsGo (ops : DmxDemux δ) (dev : Dmxdev δ) : Prop :=
  match dev.filter.type with
  | .sec => SectionGoes ops dev
  | .pes => PidsStart ops dev dev.backward ∨ NothingStarts ops dev dev.backward
  | .none => True

theorem Idle.feeds (h : Idle dev) (hgoes : FeedsGo (ledgered ops) dev) :
    Accounted (finishStart (startFeeds (ledgered ops) dev)).2 := by
  rw [FeedsGo] at hgoes
  rw [startFeeds]
  cases htype : dev.filter.type with
  | sec =>
    rw [htype] at hgoes
    exact h.startSection htype hgoes
  | pes =>
    rw [htype] at hgoes
    exact h.startList htype hgoes
  | none => exact h.accounted

theorem Idle.buffer (h : Idle dev) (ops : DmxDemux δ) :
    Idle (allocateBuffer (ledgered ops) dev).2 := by
  rw [allocateBuffer]
  split
  · exact h
  · have hframe : Frame dev { dev with
        demux := ((ledgered ops).vmalloc dev.demux).2
        filter := { dev.filter with bufferData := ((ledgered ops).vmalloc dev.demux).1 } } :=
      ⟨rfl, rfl, rfl, rfl, rfl, rfl, rfl, rfl⟩
    exact ⟨hframe.sound h.sound, h.oneFeed.idle (.refl dev.others) h.state, h.state, h.ledger,
      h.set⟩

/-- The start of a filter that is stopped safely goes through, or acquires nothing. -/
def StartGoes (ops : DmxDemux δ) (dev : Dmxdev (δ × Ledger)) : Prop :=
  StopsSafely dev ∧ ((beforeStart (ledgered ops) dev).1 = true →
    FeedsGo (ledgered ops) (beforeStart (ledgered ops) dev).2)

theorem Accounted.start (h : Accounted dev) (hgoes : StartGoes ops dev) :
    Accounted (filterStart (ledgered ops) dev).2 := by
  by_cases hset : dev.filter.state < .setPes
  · rw [filterStart, if_pos hset]
    exact h
  · have hidle : Idle (beforeStart (ledgered ops) dev).2 := (h.stop hgoes.1 ops).idle.buffer ops
    rw [filterStart_eq (ledgered ops) h.sound (NeumoDmxdevState.not_lt.mp hset)]
    split
    · rename_i hbuffer
      exact hidle.feeds (hgoes.2 hbuffer)
    · exact hidle.accounted

/-! ### The list -/

theorem Accounted.others (h : Accounted dev) (users : List SecUser) (hfeed : OneFeed dev users)
    (demux : δ) : Accounted { dev with others := users, demux := (demux, dev.demux.2) } := by
  have hframe : Frame dev { dev with others := users, demux := (demux, dev.demux.2) } :=
    ⟨rfl, rfl, rfl, rfl, rfl, rfl, rfl, rfl⟩
  refine ⟨hframe.sound h.sound, ⟨hfeed.shared, hfeed.own⟩, h.idle, h.set, ?_, ?_⟩
  · intro htype hgo
    exact (h.list htype hgo).same rfl fun _ _ => rfl
  · intro htype hgo
    obtain ⟨k, f, hsec, hfilter, hledger⟩ := h.sec htype hgo
    exact ⟨k, f, hsec, hfilter, hledger⟩

theorem Accounted.asked (h : Accounted dev) (demux : δ) :
    Accounted { dev with demux := (demux, dev.demux.2) } :=
  h.others dev.others h.oneFeed demux

/-- The device with a new entry in the list. -/
def inserted (dev : Dmxdev (δ × Ledger)) (demux : δ) (entry : Entry) : Dmxdev (δ × Ledger) :=
  ({ dev with demux := (demux, dev.demux.2), nextEntry := dev.nextEntry + 1 }.setEntry
    dev.nextEntry entry).listAdd dev.nextEntry

/-- The entries that were there hold what has been acquired. -/
theorem Accounted.heldInserted (h : Accounted dev) (htype : dev.filter.type = .pes)
    (hgo : .go ≤ dev.filter.state) (demux : δ) (entry : Entry) :
    Held (inserted dev demux entry) dev.added := by
  have hnew : dev.nextEntry ∉ (dev.added : Multiset EntryNo) := h.sound.new_notMem
  exact ((h.list htype hgo).setEntry hnew demux entry).same rfl fun _ _ => rfl

theorem Accounted.insert (h : Accounted dev) (hlist : dev.IsList) (demux : δ) (entry : Entry) :
    Accounted (inserted dev demux entry) := by
  have hsound := ((h.sound.newEntry (demux, dev.demux.2) entry).insert (i := dev.nextEntry) hlist
    (Nat.lt_succ_self _) h.sound.new_notMem).1
  have hno : dev.filter.type = .sec → ¬.go ≤ dev.filter.state := by
    intro hsec hgo
    obtain ⟨k, hk, -⟩ := h.sound.running hsec hgo
    obtain ⟨n, hn⟩ := hlist
    rw [hk] at hn
    cases hn
  refine ⟨hsound, h.oneFeed.same (.refl dev.others) fun hsec hgo => absurd hgo (hno hsec), h.idle,
    h.set, ?_, fun hsec hgo => absurd hgo (hno hsec)⟩
  intro htype hgo
  exact (h.heldInserted htype hgo demux entry).mono (Multiset.le_cons_self _ dev.nextEntry)

theorem kzalloc_ledger {d d' : δ × Ledger} {ok : Bool}
    (h : (ledgered ops).kzalloc d = (ok, d')) : d' = (d'.1, d.2) := by
  have hledger : d'.2 = d.2 := (congrArg (fun result => result.2.2) h).symm
  rw [← hledger]

theorem Accounted.addPid (h : Accounted dev) (ops : DmxDemux δ) (pid : ℕ) :
    Accounted (addPid (ledgered ops) dev pid).2 := by
  rw [Dmx.addPid]
  split
  · exact h
  · rename_i hcheck
    rw [not_or, not_not] at hcheck
    have hlist := h.sound.pes hcheck.1
    have hlinked := h.sound.list hlist
    dsimp only
    rw [useList_eq hlinked, ite_self]
    split
    · exact h
    · split
      · rename_i demux heq
        rw [kzalloc_ledger heq]
        exact h.asked demux.1
      · rename_i demux heq
        rw [kzalloc_ledger heq]
        split
        · rename_i hnull
          obtain ⟨n, hn⟩ := hlist
          rw [Dmxdev.sec] at hn
          have hnull' : dev.filter.feed.next none = .null := hnull
          rw [hn] at hnull'
          cases hnull'
        · have hinsert := h.insert hlist demux.1 (.pid pid none)
          split
          · rename_i hgo
            have hnew : dev.nextEntry ∉ (dev.added : Multiset EntryNo) := h.sound.new_notMem
            have hheld := (h.heldInserted hcheck.1 hgo demux.1 (.pid pid none)).startPid hnew ops
              pid
            have hframe := startPidFeed_frame (ledgered ops)
              (inserted dev demux.1 (.pid pid none)) dev.nextEntry pid
            have hothers := startPidFeed_others (ledgered ops)
              (inserted dev demux.1 (.pid pid none)) dev.nextEntry pid
            change Accounted (startPidFeed (ledgered ops) (inserted dev demux.1 (.pid pid none))
              dev.nextEntry pid).2
            generalize (startPidFeed (ledgered ops) (inserted dev demux.1 (.pid pid none))
              dev.nextEntry pid).2 = started at *
            have htype : started.filter.type = .pes := hframe.type.trans hcheck.1
            have hno : started.filter.type ≠ .sec := by
              rw [htype]
              rintro ⟨⟩
            refine ⟨hframe.sound hinsert.sound, ?_, ?_, ?_, ?_, fun hsec => absurd hsec hno⟩
            · refine hinsert.oneFeed.same ?_ fun hsec => absurd hsec hno
              rw [hothers]
              exact .refl _
            · rw [hframe.state]
              exact fun hlt => absurd hgo (NeumoDmxdevState.not_le.mpr hlt)
            · rw [hframe.state]
              exact fun _ => h.set hcheck.1
            · intro _ _
              rw [hframe.added]
              exact hheld
          · exact hinsert

theorem Accounted.removePid (h : Accounted dev) (ops : DmxDemux δ) (pid : ℕ) :
    Accounted (removePid (ledgered ops) dev pid).2 := by
  have hsound := h.sound.remove (ledgered ops) pid
  rw [Dmx.removePid] at hsound ⊢
  split
  · exact h
  · rename_i hcheck
    rw [if_neg hcheck] at hsound
    rw [not_or, not_not] at hcheck
    have hlist := h.sound.pes hcheck.1
    have hlinked := h.sound.list hlist
    rw [useList_eq hlinked, h.sound.forward hlist] at hsound ⊢
    have hothers := foldl_kept (·.others) (removeEntry_others (ledgered ops) pid) dev.added dev
    have hstate := foldl_kept (·.filter.state)
      (fun dev i => (removeEntry_state (ledgered ops) pid dev i).1) dev.added dev
    have htype := foldl_kept (·.filter.type)
      (fun dev i => (removeEntry_state (ledgered ops) pid dev i).2) dev.added dev
    have hempty := removeAll_empty ops pid dev.added dev
    have hheld := Held.removeAll ops pid dev.added dev
    dsimp only at hsound hothers hstate htype ⊢
    generalize dev.added.foldl (fun dev i => removeEntry (ledgered ops) dev pid i) dev =
      removed at *
    have hno : removed.filter.type ≠ .sec := by
      rw [htype, hcheck.1]
      rintro ⟨⟩
    refine ⟨hsound, ?_, ?_, ?_, ?_, fun hsec => absurd hsec hno⟩
    · refine h.oneFeed.same ?_ fun hsec => absurd hsec hno
      rw [hothers]
      exact .refl _
    · rw [hstate]
      exact fun hlt => hempty (h.idle hlt)
    · rw [htype, hstate]
      exact h.set
    · rw [htype, hstate]
      exact fun hpes hgo => hheld (h.list hpes hgo) hlinked.nodup fun _ hi => hi

theorem Accounted.addStream (h : Accounted dev) (type : Demux.EmbeddedStreamType)
    (embeddingPid isi : ℤ) (hlist : ((ledgered ops).kzalloc dev.demux).1 = true → dev.IsList) :
    Accounted (addStream (ledgered ops) dev type embeddingPid isi).2 := by
  rw [Dmx.addStream]
  split
  · rename_i demux heq
    rw [kzalloc_ledger heq]
    exact h.asked demux.1
  · rename_i demux heq
    rw [kzalloc_ledger heq]
    exact h.insert (hlist (congrArg Prod.fst heq)) demux.1 _

/-! ### Setting -/

theorem Idle.setParams (h : Idle dev) (type : DmxdevType) (params : Params)
    (hlist : type = .pes → dev.IsList) :
    Idle { dev with
      filter := { dev.filter with type := type, params := params, state := .setPes } } :=
  ⟨h.sound.idle rfl setPes_lt_go hlist, h.oneFeed.idle (.refl dev.others) setPes_lt_go, setPes_lt_go,
    h.ledger, fun _ => Nat.le_refl _⟩

theorem Accounted.setSection (h : Accounted dev) (hsafe : StopsSafely dev)
    (params : SctFilterParams) (hgoes : params.immediateStart = true →
      StartGoes ops (withSectionParams (ledgered ops) dev params)) :
    Accounted (sectionFilterSet (ledgered ops) dev params).2 := by
  have hset : Idle (withSectionParams (ledgered ops) dev params) :=
    (h.stop hsafe ops).idle.setParams .sec (.sec params) nofun
  rw [sectionFilterSet]
  dsimp only
  split
  · rename_i himmediate
    exact hset.accounted.start (hgoes himmediate)
  · exact hset.accounted

/-- The filter with the parameters of a list. -/
def withListParams (ops : DmxDemux δ) (dev : Dmxdev δ) (params : PesFilterParams) : Dmxdev δ :=
  { filterReset (filterStop ops dev).2 .setStreamSelect with
    filter := { (filterReset (filterStop ops dev).2 .setStreamSelect).filter with
      type := .pes, params := .pes params, state := .setPes } }

theorem Accounted.setList (h : Accounted dev) (hsafe : StopsSafely dev) (params : PesFilterParams)
    (hlist : params.pesType ≤ DMX_PES_OTHER → dev.IsList)
    (hgoes : params.pesType ≤ DMX_PES_OTHER → params.immediateStart = true →
      ∀ dev', Dmx.addPid (ledgered ops) (withListParams (ledgered ops) dev params) params.pid =
        (.ok (), dev') → StartGoes ops dev') :
    Accounted (pesFilterSet (ledgered ops) dev params).2 := by
  obtain ⟨hidle, -, -, hkeeps⟩ := h.stop hsafe ops
  obtain ⟨hreset, -, hkeeps', -, -⟩ := hidle.reset .setStreamSelect (by decide)
  rw [pesFilterSet]
  dsimp only
  split
  · exact hreset.accounted
  · rename_i hpes
    have hpes' := Nat.not_lt.mp hpes
    have hset : Idle (withListParams (ledgered ops) dev params) :=
      hreset.setParams .pes (.pes params) fun _ => hkeeps' (hkeeps (hlist hpes'))
    have hadd := hset.accounted.addPid ops params.pid
    split
    · rename_i e dev' heq
      have heq' : Dmx.addPid (ledgered ops) (withListParams (ledgered ops) dev params) params.pid =
          (.error e, dev') := heq
      rw [heq'] at hadd
      exact hadd
    · rename_i dev' heq
      have heq' : Dmx.addPid (ledgered ops) (withListParams (ledgered ops) dev params) params.pid =
          (.ok (), dev') := heq
      rw [heq'] at hadd
      split
      · rename_i himmediate
        exact hadd.start (hgoes hpes' himmediate dev' heq')
      · exact hadd

/-! ### Closing -/

/-- A filter is closed without entries, or as a list. -/
theorem Accounted.close (h : Accounted dev) (hsafe : StopsSafely dev)
    (hempty : dev.filter.type = .pes ∨ dev.added = []) (ops : DmxDemux δ) :
    Closed (filterFree (ledgered ops) dev) := by
  obtain ⟨hidle, htype, hadded, -⟩ := h.stop hsafe ops
  obtain ⟨hreset, -, -, hfreed, hkept⟩ := hidle.reset .allocated (by decide)
  have hnone : (filterFree (ledgered ops) dev).added = [] := by
    by_cases hpes : dev.filter.type = .pes
    · exact hfreed (htype.trans hpes) (by decide)
    · exact (hkept (htype ▸ hpes)).trans (hadded.trans (hempty.resolve_left hpes))
  refine ⟨rfl, hnone, ?_, rfl, hreset.ledger⟩
  have hsound : Sound (filterFree (ledgered ops) dev) := h.sound.free
  have hlist := hsound.list
  rwa [hnone] at hlist

theorem Accounted.closed (h : Accounted dev) (hsafe : StopsSafely dev) (ops : DmxDemux δ) :
    Idle (filterFree (ledgered ops) dev) := by
  obtain ⟨hidle, -, -, -⟩ := h.stop hsafe ops
  obtain ⟨hreset, htype, -, -, -⟩ := hidle.reset .allocated (by decide)
  have hfree : NeumoDmxdevState.free < .go := by decide
  exact ⟨h.sound.free, hreset.oneFeed.idle (.refl _) hfree, hfree, hreset.ledger,
    fun hpes => absurd hpes (htype (by decide))⟩

/-! ### Runs -/

/-- What the requests take for nothing to be left behind. A list that runs is stopped while all its
    embedded streams are there; the list is written while the union is one; what is started starts, or
    fails before anything is acquired; and the filter is closed as a list, or without entries. -/
def Tidy (ops : DmxDemux δ) (dev : Dmxdev (δ × Ledger)) : Request → Prop
  | .start => StartGoes ops dev
  | .stop => StopsSafely dev
  | .setFilter params => StopsSafely dev ∧ (params.immediateStart = true →
      StartGoes ops (withSectionParams (ledgered ops) dev params))
  | .setPesFilter params => StopsSafely dev ∧ (params.pesType ≤ DMX_PES_OTHER →
      dev.IsList ∧ (params.immediateStart = true →
        ∀ dev', Dmx.addPid (ledgered ops) (withListParams (ledgered ops) dev params) params.pid =
          (.ok (), dev') → StartGoes ops dev'))
  | .setStidStream _ _ | .setT2miStream _ _ =>
    ((ledgered ops).kzalloc dev.demux).1 = true → dev.IsList
  | .close => StopsSafely dev ∧ (dev.filter.type = .pes ∨ dev.added = [])
  | _ => True

/-- A section filter that has run out of time or been given its section keeps what it has. -/
theorem Accounted.ran (h : Accounted dev) {state : NeumoDmxdevState}
    (htype : dev.filter.type = .sec) (hgo : .go ≤ dev.filter.state) (hstate : .go ≤ state)
    (hsound : Sound (dev.setState state)) : Accounted (dev.setState state) := by
  have hno : (dev.setState state).filter.type ≠ .pes := by
    have htype' : (dev.setState state).filter.type = .sec := htype
    rw [htype']
    exact nofun
  refine ⟨hsound, ⟨h.oneFeed.shared, fun _ _ => h.oneFeed.own htype hgo⟩, fun hlt => ?_,
    fun hpes => absurd hpes hno, fun hpes => absurd hpes hno, fun _ _ => ?_⟩
  · exact absurd hstate (NeumoDmxdevState.not_le.mpr hlt)
  · obtain ⟨k, f, hsec, hfilter, hledger⟩ := h.sec htype hgo
    exact ⟨k, f, hsec, hfilter, hledger⟩

theorem Accounted.sectionCallback (h : Accounted dev) : Accounted (sectionCallback dev) := by
  have hsound := sectionCallback_sound h.sound
  rw [Dmx.sectionCallback] at hsound ⊢
  cases htype : dev.filter.type with
  | none => exact h
  | pes => exact h
  | sec =>
    cases hparams : dev.filter.params with
    | none => exact h
    | pes params => exact h
    | sec params =>
      rw [htype, hparams] at hsound
      dsimp only at hsound ⊢
      split
      · rename_i hgo
        rw [if_pos hgo] at hsound
        exact h.ran htype (hgo.1 ▸ Nat.le_refl _) (Nat.le_succ _) hsound
      · exact h

theorem Accounted.filterTimeout (h : Accounted dev) : Accounted (filterTimeout dev) := by
  have hsound := filterTimeout_sound h.sound
  rw [Dmx.filterTimeout] at hsound ⊢
  split
  · rename_i hgo
    rw [if_pos hgo] at hsound
    exact h.ran hgo.1 (hgo.2 ▸ Nat.le_refl _) (Nat.le_add_right _ 2) hsound
  · exact h

theorem Accounted.ioctl (h : Accounted dev) {request : Request} (htidy : Tidy ops dev request) :
    Accounted (doIoctl (ledgered ops) dev request).2 := by
  cases request with
  | start => exact h.start htidy
  | stop => exact (h.stop htidy ops).idle.accounted
  | setFilter params => exact h.setSection htidy.1 params htidy.2
  | setPesFilter params =>
    exact h.setList htidy.1 params (fun hpes => (htidy.2 hpes).1) fun hpes => (htidy.2 hpes).2
  | setStidStream pid isi => exact h.addStream .stid pid isi htidy
  | setT2miStream pid isi => exact h.addStream .t2mi pid isi htidy
  | setFeStream =>
    have hframe : Frame dev (dev.setCurrentFeeds (some ((ledgered ops).getFeFeeds dev.demux))) :=
      ⟨rfl, rfl, rfl, rfl, rfl, rfl, rfl, rfl⟩
    refine ⟨hframe.sound h.sound, ⟨h.oneFeed.shared, h.oneFeed.own⟩, h.idle, h.set, ?_, ?_⟩
    · intro htype hgo
      exact (h.list htype hgo).same rfl fun _ _ => rfl
    · intro htype hgo
      obtain ⟨k, f, hsec, hfilter, hledger⟩ := h.sec htype hgo
      exact ⟨k, f, hsec, hfilter, hledger⟩
  | addPid pid => exact h.addPid ops pid
  | removePid pid => exact h.removePid ops pid
  | close => exact (h.closed htidy.1 ops).accounted
  | sectionCallback => exact h.sectionCallback
  | filterTimeout => exact h.filterTimeout

theorem LedgerRun.accounted (hrun : LedgerRun ops (Tidy ops) dev) : Accounted dev := by
  induction hrun with
  | opened dev hledger hfeed =>
    refine Idle.accounted ⟨demuxOpen_sound dev, hfeed, ?_, hledger, nofun⟩
    exact (by decide : NeumoDmxdevState.allocated < .go)
  | step request _ _ htidy ih => exact ih.ioctl htidy
  | meanwhile users demux _ hfeed ih => exact ih.others users hfeed demux

/-- Whatever the demux answers and whatever the other filters do, a close gives everything back after
    requests that are tidy. -/
theorem close_releases (hrun : LedgerRun ops (Tidy ops) dev)
    (hclose : Tidy ops dev .close) : Closed (doIoctl (ledgered ops) dev .close).2 :=
  hrun.accounted.close hclose.1 hclose.2 ops

/-- A file descriptor that has just been opened, on a demux that has everything. -/
def openedDevice : Dmxdev (Unit × Ledger) :=
  demuxOpen
    { filter := blankDevice.filter
      entries := blankDevice.entries
      nextEntry := 0
      others := []
      demux := ((), .empty)
      added := []
      secInUse := none
      misused := false }

theorem opened_run (Good : Dmxdev (Unit × Ledger) → Request → Prop) :
    LedgerRun generousDemux Good openedDevice := by
  refine .opened _ rfl ⟨?_, ?_⟩
  · exact fun _ _ huser => absurd huser List.not_mem_nil
  · exact fun _ _ _ huser => absurd huser List.not_mem_nil

/-- `DMX_SET_STID_STREAM`, `DMX_SET_PES_FILTER` and `DMX_START`. -/
def stidDevice : Dmxdev (Unit × Ledger) :=
  (doIoctl (ledgered generousDemux) openedDevice (.setStidStream 270 5)).2

def listDevice : Dmxdev (Unit × Ledger) :=
  (doIoctl (ledgered generousDemux) stidDevice (.setPesFilter (tsTapOn 33))).2

def runningDevice : Dmxdev (Unit × Ledger) :=
  (doIoctl (ledgered generousDemux) listDevice .start).2

theorem close_releases_stid :
    Closed (doIoctl (ledgered generousDemux) runningDevice .close).2 := by
  have hidle : ∀ {dev : Dmxdev (Unit × Ledger)}, dev.filter.state < .go → StopsSafely dev :=
    fun hlt _ hgo => absurd hgo (NeumoDmxdevState.not_le.mpr hlt)
  have hstid : LedgerRun generousDemux (Tidy generousDemux) stidDevice :=
    .step _ (opened_run _) (by decide) fun _ => ⟨none, rfl⟩
  have hfilter : LedgerRun generousDemux (Tidy generousDemux) listDevice := by
    refine .step _ hstid (by decide) ⟨hidle (by decide), fun _ => ⟨⟨some 0, rfl⟩, ?_⟩⟩
    exact fun himmediate => by cases himmediate
  have hstart : LedgerRun generousDemux (Tidy generousDemux) runningDevice := by
    refine .step _ hfilter (by decide) ⟨hidle (by decide), fun _ => ?_⟩
    refine .inl ⟨nofun, ?_, trivial⟩
    intro pid stream _
    exact ⟨0, _, rfl, rfl⟩
  refine close_releases hstart ⟨?_, .inl rfl⟩
  intro _ _ i hi
  have hi' : i ∈ [1, 0] := hi
  rcases List.mem_pair.mp hi' with rfl | rfl
  · exact fun hlacks => hlacks
  · exact fun hlacks => hlacks

/-- A parent that is set before the kind of filter is known stays. -/
theorem parent_stays : ¬∀ (δ : Type) (ops : DmxDemux δ) (dev : Dmxdev (δ × Ledger)),
    LedgerRun ops (fun _ _ => True) dev → Closed (doIoctl (ledgered ops) dev .close).2 := by
  intro hall
  have hrun : LedgerRun generousDemux (fun _ _ => True) stidDevice :=
    .step _ (opened_run _) (by decide) trivial
  have hadded := (hall Unit generousDemux stidDevice hrun).added
  revert hadded
  decide

end Dmx

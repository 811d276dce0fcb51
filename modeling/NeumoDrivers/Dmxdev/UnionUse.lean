import NeumoDrivers.Dmxdev.Filter

/-! The union of a filter (`neumo-dmxdev.c`).

    `type` and `state` say which member of the union is meant. While the filter has the type of a
    list the union has to be one, and while a section filter runs it has to be the feed in use.
    Starting a section filter writes the pointer over the head of the list, and nothing makes a list
    of it again; no ioctl that works on the list looks at that. -/

namespace Dmx
open CircularList Function Dmxdev

variable {δ : Type} {ops : DmxDemux δ} {dev dev' : Dmxdev δ} {k : SecFeedNo} {i : EntryNo}

/-- The union was written as a list last. -/
def Dmxdev.IsList (dev : Dmxdev δ) : Prop := ∃ n, dev.sec = .node n

/-- What holds of the union between two calls. -/
structure Sound (dev : Dmxdev δ) : Prop where
  fresh : ∀ i ∈ dev.added, i < dev.nextEntry
  list : dev.IsList → Linked dev.filter.feed dev.added
  pes : dev.filter.type = .pes → dev.IsList
  running : dev.filter.type = .sec → .go ≤ dev.filter.state →
    ∃ k, dev.sec = .other k ∧ dev.secInUse = some k
  unset : dev.filter.type = .none → dev.filter.state < .go
  misused : dev.misused = false

/-- The union, and what is known of it, is as before. -/
structure Frame (dev dev' : Dmxdev δ) : Prop where
  feed : dev'.filter.feed = dev.filter.feed
  type : dev'.filter.type = dev.filter.type
  state : dev'.filter.state = dev.filter.state
  params : dev'.filter.params = dev.filter.params
  added : dev'.added = dev.added
  nextEntry : dev'.nextEntry = dev.nextEntry
  secInUse : dev'.secInUse = dev.secInUse
  misused : dev'.misused = dev.misused

theorem Frame.refl (dev : Dmxdev δ) : Frame dev dev := ⟨rfl, rfl, rfl, rfl, rfl, rfl, rfl, rfl⟩

theorem Frame.trans {dev'' : Dmxdev δ} (h : Frame dev dev') (h' : Frame dev' dev'') :
    Frame dev dev'' :=
  ⟨h'.feed.trans h.feed, h'.type.trans h.type, h'.state.trans h.state, h'.params.trans h.params,
    h'.added.trans h.added, h'.nextEntry.trans h.nextEntry, h'.secInUse.trans h.secInUse,
    h'.misused.trans h.misused⟩

/-- What each round of a loop leaves alone the whole loop does. -/
theorem foldl_kept {β : Type} (g : Dmxdev δ → β) {f : Dmxdev δ → EntryNo → Dmxdev δ}
    (hf : ∀ dev i, g (f dev i) = g dev) (is : List EntryNo) : ∀ dev, g (is.foldl f dev) = g dev := by
  induction is with
  | nil => exact fun _ => rfl
  | cons i is ih =>
    intro dev
    exact (ih (f dev i)).trans (hf dev i)

theorem Frame.foldl {f : Dmxdev δ → EntryNo → Dmxdev δ} (hf : ∀ dev i, Frame dev (f dev i))
    (is : List EntryNo) : ∀ dev, Frame dev (is.foldl f dev) := by
  induction is with
  | nil => exact .refl
  | cons i is ih =>
    intro dev
    exact (hf dev i).trans (ih (f dev i))

theorem Frame.isList (h : Frame dev dev') : dev'.IsList ↔ dev.IsList := by
  rw [IsList, IsList, Dmxdev.sec, Dmxdev.sec, h.feed]

theorem Frame.sound (h : Frame dev dev') (hs : Sound dev) : Sound dev' := by
  have hsec : dev'.sec = dev.sec := congrArg (fun m => m.next none) h.feed
  refine ⟨?_, ?_, ?_, ?_, ?_, ?_⟩
  · rw [h.added, h.nextEntry]
    exact hs.fresh
  · rw [h.isList, h.feed, h.added]
    exact hs.list
  · rw [h.isList, h.type]
    exact hs.pes
  · rw [h.type, h.state, hsec, h.secInUse]
    exact hs.running
  · rw [h.type, h.state]
    exact hs.unset
  · rw [h.misused]
    exact hs.misused

/-! ### Using the union -/

theorem useList_eq (h : Linked dev.filter.feed dev.added) : dev.useList = dev := by
  rw [useList, decide_eq_true h, Bool.not_true, Bool.or_false]

theorem callSec_eq (dev : Dmxdev δ) (hsec : dev.sec = .other k) (huse : dev.secInUse = some k)
    (f : SecFeedNo → δ → δ) : dev.callSec f = dev.call (f k) := by
  rw [callSec, hsec]
  simp [huse, call]

theorem sec_setSec (dev : Dmxdev δ) (k : Option SecFeedNo) :
    (dev.setSec k).sec = secWord k := by
  simp only [Dmxdev.sec, setSec, setFeed, Links.setNext, update_self]

theorem Sound.length_le (h : Sound dev) (hlist : dev.IsList) :
    dev.added.length ≤ dev.nextEntry := by
  have hsub : dev.added ⊆ List.range dev.nextEntry := fun i hi =>
    List.mem_range.mpr (h.fresh i hi)
  have hle := List.Nodup.length_le_of_subset (h.list hlist).nodup hsub
  rwa [List.length_range] at hle

theorem Sound.forward (h : Sound dev) (hlist : dev.IsList) : dev.forward = dev.added :=
  (h.list hlist).forward (h.length_le hlist)

theorem Sound.backward (h : Sound dev) (hlist : dev.IsList) : dev.backward = dev.added.reverse :=
  (h.list hlist).backward (h.length_le hlist)

/-- A filter that is not running may have any type but the one of a list. -/
theorem Sound.idle (h : Sound dev) {filter : Filter} (hfeed : filter.feed = dev.filter.feed)
    (hstate : filter.state < .go) (htype : filter.type = .pes → dev.IsList) :
    Sound { dev with filter := filter } := by
  have hsec : ({ dev with filter := filter } : Dmxdev δ).sec = dev.sec :=
    congrArg (fun m => m.next none) hfeed
  have hlist : ({ dev with filter := filter } : Dmxdev δ).IsList ↔ dev.IsList := by
    rw [IsList, hsec, IsList]
  refine ⟨h.fresh, ?_, ?_, ?_, fun _ => hstate, h.misused⟩
  · rw [hlist, hfeed]
    exact h.list
  · rw [hlist]
    exact htype
  · intro _ hgo
    exact absurd hgo (NeumoDmxdevState.not_le.mpr hstate)

/-! ### Stopping -/

theorem stopEntry_frame (ops : DmxDemux δ) (dev : Dmxdev δ) (i : EntryNo) : Frame dev (stopEntry ops dev i) := by
  rw [stopEntry]
  split
  · exact ⟨rfl, rfl, rfl, rfl, rfl, rfl, rfl, rfl⟩
  · exact .refl dev

theorem releaseEntry_frame (ops : DmxDemux δ) (dev : Dmxdev δ) (i : EntryNo) :
    Frame dev (releaseEntry ops dev i) := by
  rw [releaseEntry]
  split <;> exact ⟨rfl, rfl, rfl, rfl, rfl, rfl, rfl, rfl⟩

theorem filterStop_idle (h : dev.filter.state < .go) : filterStop ops dev = (.ok (), dev) := by
  rw [filterStop, if_pos h]

theorem filterStop_section (hgo : .go ≤ dev.filter.state) (htype : dev.filter.type = .sec) :
    filterStop ops dev = (.ok (), stopSection ops dev) := by
  rw [filterStop, if_neg (NeumoDmxdevState.not_lt.mpr hgo), htype]

theorem Sound.runs (h : Sound dev) : dev.filter.state < .go ∨
    .go ≤ dev.filter.state ∧ (dev.filter.type = .pes ∨ dev.filter.type = .sec) := by
  by_cases hlt : dev.filter.state < .go
  · exact .inl hlt
  · refine .inr ⟨NeumoDmxdevState.not_lt.mp hlt, ?_⟩
    cases htype : dev.filter.type with
    | none => exact absurd (h.unset htype) hlt
    | pes => exact .inl rfl
    | sec => exact .inr rfl

/-- To stop the feeds of a list, and to release them, leaves the union alone. -/
theorem stopEntries_frame (ops : DmxDemux δ) (is : List EntryNo) (dev : Dmxdev δ) :
    Frame dev (is.foldl (releaseEntry ops) (is.foldl (stopEntry ops) dev)) :=
  (Frame.foldl (stopEntry_frame ops) is dev).trans (Frame.foldl (releaseEntry_frame ops) is _)

/-- A list that runs: its feeds are stopped one after another, then released. -/
theorem filterStop_pes (h : Sound dev) (hgo : .go ≤ dev.filter.state)
    (htype : dev.filter.type = .pes) : filterStop ops dev = (.ok (),
      dev.added.foldl (releaseEntry ops) (dev.added.foldl (stopEntry ops)
        (dev.setState .setPes))) := by
  have hlist := h.pes htype
  have hlinked : Linked (dev.setState .setPes).filter.feed (dev.setState .setPes).added :=
    h.list hlist
  have hidle : Sound (dev.setState .setPes) := h.idle rfl setPes_lt_go fun _ => hlist
  have hforward : (dev.setState .setPes).forward = dev.added := hidle.forward hlist
  have hframe := Frame.foldl (stopEntry_frame ops) dev.added (dev.setState .setPes)
  have hstopped : feedStop ops dev = dev.added.foldl (stopEntry ops) (dev.setState .setPes) := by
    have htype' : (dev.setState .setPes).filter.type = .pes := htype
    rw [feedStop, htype']
    dsimp only
    rw [useList_eq hlinked, hforward]
  have hlinked' : Linked (feedStop ops dev).filter.feed (feedStop ops dev).added := by
    rw [hstopped, hframe.feed, hframe.added]
    exact hlinked
  have hforward' : (feedStop ops dev).forward = dev.added := by
    rw [hstopped]
    exact ((hframe.sound hidle).forward (hframe.isList.mpr hlist)).trans hframe.added
  rw [filterStop, if_neg (NeumoDmxdevState.not_lt.mpr hgo), htype]
  dsimp only
  rw [useList_eq hlinked', hforward', hstopped]

/-- The feed of a section filter goes back to another filter that runs on its pid, or is released. -/
theorem feedRestart_cases (ops : DmxDemux δ) (dev : Dmxdev δ) (hsec : dev.sec = .other k) (huse : dev.secInUse = some k) :
    ∃ others demux secInUse, feedRestart ops dev =
      { dev with others := others, demux := demux, secInUse := secInUse } := by
  rw [feedRestart]
  split
  · exact ⟨_, _, _, rfl⟩
  · rw [callSec_eq dev hsec huse]
    exact ⟨_, _, _, rfl⟩

theorem stopSection_cases (ops : DmxDemux δ) (hsec : dev.sec = .other k) (huse : dev.secInUse = some k)
    (htype : dev.filter.type = .sec) :
    ∃ others demux secInUse, stopSection ops dev = ({ dev.setState .setPes with
      others := others, demux := demux, secInUse := secInUse } : Dmxdev δ).setSec none := by
  have htype' : (dev.setState .setPes).filter.type = .sec := htype
  have hstopped : feedStop ops dev = (dev.setState .setPes).call (ops.stopSectionFiltering k) := by
    rw [feedStop, htype']
    exact callSec_eq (dev.setState .setPes) hsec huse ops.stopSectionFiltering
  rw [stopSection, hsec, hstopped]
  dsimp only
  split
  · rename_i secfilter _
    have hcall := callSec_eq ((dev.setState .setPes).call (ops.stopSectionFiltering k)) hsec
      huse fun k => ops.releaseSectionFilter k secfilter
    obtain ⟨others, demux, secInUse, heq⟩ := feedRestart_cases ops
      (((dev.setState .setPes).call (ops.stopSectionFiltering k)).call
        (ops.releaseSectionFilter k secfilter)) hsec huse
    rw [hcall, heq]
    exact ⟨others, demux, secInUse, rfl⟩
  · obtain ⟨others, demux, secInUse, heq⟩ := feedRestart_cases ops
      ((dev.setState .setPes).call (ops.stopSectionFiltering k)) hsec huse
    rw [heq]
    exact ⟨others, demux, secInUse, rfl⟩

/-- What `dvb_dmxdev_filter_stop` leaves. -/
structure Stopped (dev dev' : Dmxdev δ) : Prop where
  sound : Sound dev'
  state : dev'.filter.state < .go
  type : dev'.filter.type = dev.filter.type
  isList : dev.IsList → dev'.IsList

theorem Sound.stop (ops : DmxDemux δ) (h : Sound dev) :
    Stopped dev (filterStop ops dev).2 := by
  rcases h.runs with hlt | ⟨hgo, htype | htype⟩
  · rw [filterStop_idle hlt]
    exact ⟨h, hlt, rfl, id⟩
  · have hlist := h.pes htype
    have hframe := stopEntries_frame ops dev.added (dev.setState .setPes)
    rw [filterStop_pes h hgo htype]
    refine ⟨hframe.sound (h.idle rfl setPes_lt_go fun _ => hlist), ?_, ?_, hframe.isList.mpr⟩
    · rw [hframe.state]
      exact setPes_lt_go
    · exact hframe.type
  · obtain ⟨k, hsec, huse⟩ := h.running htype hgo
    obtain ⟨others, demux, secInUse, heq⟩ := stopSection_cases ops hsec huse htype
    rw [filterStop_section hgo htype, heq]
    have hnull : (({ dev.setState .setPes with
        others := others, demux := demux, secInUse := secInUse } : Dmxdev δ).setSec none).sec =
        .null := sec_setSec _ none
    have hno : ¬(({ dev.setState .setPes with
        others := others, demux := demux, secInUse := secInUse } :
        Dmxdev δ).setSec none).IsList := by
      rintro ⟨n, hn⟩
      rw [hnull] at hn
      cases hn
    refine ⟨⟨h.fresh, fun hlist => absurd hlist hno, ?_, ?_, ?_, h.misused⟩, ?_, rfl, ?_⟩
    · intro hpes
      have hpes' : dev.filter.type = .pes := hpes
      rw [htype] at hpes'
      cases hpes'
    · intro _ hgo'
      exact absurd hgo' (NeumoDmxdevState.not_le.mpr setPes_lt_go)
    · intro _
      exact setPes_lt_go
    · exact setPes_lt_go
    · rintro ⟨n, hn⟩
      rw [hsec] at hn
      cases hn

/-! ### Taking entries out -/

theorem Sound.del (h : Sound dev) (hlist : dev.IsList) (hi : i ∈ dev.added) :
    Sound (dev.listDel i) ∧ (dev.listDel i).IsList := by
  have hlinked := (h.list hlist).erase hi
  have heq : dev.listDel i =
      { dev.setFeed (dev.filter.feed.del i) with added := dev.added.erase i } := by
    rw [Dmxdev.listDel, useList_eq (h.list hlist)]
  rw [heq]
  have hlist' : ({ dev.setFeed (dev.filter.feed.del i) with
      added := dev.added.erase i } : Dmxdev δ).IsList := hlinked.next_node
  refine ⟨⟨?_, fun _ => hlinked, fun _ => hlist', ?_, h.unset, h.misused⟩, hlist'⟩
  · intro j hj
    exact h.fresh j (List.mem_of_mem_erase hj)
  · intro htype hgo
    obtain ⟨k, hsec, -⟩ := h.running htype hgo
    obtain ⟨n, hn⟩ := hlist
    rw [hsec] at hn
    cases hn

/-- Entries that are taken out or kept, one after another. -/
theorem Sound.foldl_del {f : Dmxdev δ → EntryNo → Dmxdev δ}
    (hf : ∀ dev i, Frame dev (f dev i) ∨ ∃ dev', Frame dev dev' ∧ f dev i = dev'.listDel i)
    (is : List EntryNo) : ∀ {dev : Dmxdev δ}, Sound dev → dev.IsList → is.Nodup →
      (∀ i ∈ is, i ∈ dev.added) → Sound (is.foldl f dev) ∧ (is.foldl f dev).IsList := by
  induction is with
  | nil => exact fun h hlist _ _ => ⟨h, hlist⟩
  | cons i is ih =>
    intro dev h hlist hnodup hmem
    rw [List.nodup_cons] at hnodup
    rw [List.foldl_cons]
    rcases hf dev i with hframe | ⟨dev', hframe, heq⟩
    · refine ih (hframe.sound h) (hframe.isList.mpr hlist) hnodup.2 fun j hj => ?_
      rw [hframe.added]
      exact hmem j (List.mem_cons_of_mem _ hj)
    · have hi : i ∈ dev'.added := by
        rw [hframe.added]
        exact hmem i List.mem_cons_self
      obtain ⟨hsound, hlist'⟩ := (hframe.sound h).del (hframe.isList.mpr hlist) hi
      rw [heq]
      refine ih hsound hlist' hnodup.2 fun j hj => ?_
      have hji : j ≠ i := fun hji => hnodup.1 (hji ▸ hj)
      refine (List.mem_erase_of_ne hji).mpr ?_
      rw [hframe.added]
      exact hmem j (List.mem_cons_of_mem _ hj)

theorem Sound.delete (h : Sound dev) (hlist : dev.IsList) :
    Sound (deletePids dev) ∧ (deletePids dev).IsList := by
  have hlinked := h.list hlist
  rw [deletePids, useList_eq hlinked, h.forward hlist]
  exact Sound.foldl_del (fun dev i => .inr ⟨dev, .refl dev, rfl⟩) dev.added h hlist hlinked.nodup
    fun _ hi => hi

theorem deletePids_added (is : List EntryNo) :
    ∀ dev : Dmxdev δ, dev.added = is → (is.foldl Dmxdev.listDel dev).added = [] := by
  induction is with
  | nil => exact fun _ h => h
  | cons i is ih =>
    intro dev h
    refine ih (dev.listDel i) ?_
    have hadded : (dev.listDel i).added = dev.added.erase i := rfl
    rw [hadded, h, List.erase_cons_head]

theorem deletePids_demux (is : List EntryNo) :
    ∀ dev : Dmxdev δ, (is.foldl Dmxdev.listDel dev).demux = dev.demux := by
  induction is with
  | nil => exact fun _ => rfl
  | cons i is ih => exact fun dev => ih (dev.listDel i)

/-- What `dvb_dmxdev_filter_reset` leaves; a list stays a list. -/
theorem Sound.reset (h : Sound dev) (hstate : dev.filter.state < .go)
    (target : NeumoDmxdevState) (htarget : target < .go) :
    Sound (filterReset dev target) ∧ (filterReset dev target).filter.state < .go ∧
      (dev.IsList → (filterReset dev target).IsList) := by
  rw [filterReset]
  split
  · exact ⟨h, hstate, id⟩
  · dsimp only
    split
    · rename_i htype
      obtain ⟨hsound, hlist⟩ := h.delete (h.pes htype)
      exact ⟨hsound.idle rfl htarget nofun, htarget, fun _ => hlist⟩
    · exact ⟨h.idle rfl htarget nofun, htarget, id⟩

/-! ### Starting -/

theorem startPidFeed_frame (ops : DmxDemux δ) (dev : Dmxdev δ) (i : EntryNo) (pid : ℕ) :
    Frame dev (startPidFeed ops dev i pid).2 := by
  rw [startPidFeed]
  split
  · exact ⟨rfl, rfl, rfl, rfl, rfl, rfl, rfl, rfl⟩
  · dsimp only
    split <;> exact ⟨rfl, rfl, rfl, rfl, rfl, rfl, rfl, rfl⟩

theorem startEntry_frame (ops : DmxDemux δ) (dev : Dmxdev δ) (i : EntryNo) :
    Frame dev (startEntry ops dev i).2 := by
  rw [startEntry]
  split
  · exact startPidFeed_frame ops dev i _
  · rw [allocateEmbedded]
    split <;> exact ⟨rfl, rfl, rfl, rfl, rfl, rfl, rfl, rfl⟩

theorem startEntries_frame (ops : DmxDemux δ) (is : List EntryNo) :
    ∀ {dev : Dmxdev δ}, dev.filter.state < .go → Frame dev (startEntries ops dev is).2 := by
  induction is with
  | nil => exact fun {dev} _ => .refl dev
  | cons i is ih =>
    intro dev hstate
    have hframe := startEntry_frame ops dev i
    rw [startEntries]
    split
    · rename_i e dev' heq
      rw [heq] at hframe
      rw [filterStop_idle (hframe.state ▸ hstate)]
      exact hframe
    · rename_i dev' heq
      rw [heq] at hframe
      exact hframe.trans (ih (hframe.state ▸ hstate))

theorem allocateBuffer_frame (ops : DmxDemux δ) (dev : Dmxdev δ) :
    Frame dev (allocateBuffer ops dev).2 := by
  rw [allocateBuffer]
  split <;> exact ⟨rfl, rfl, rfl, rfl, rfl, rfl, rfl, rfl⟩

theorem restartFirst_eq (pid : ℕ) (users : List SecUser) :
    (restartFirst pid users).1 = (users.find? fun user => user.Runs pid).map SecUser.sec := by
  induction users with
  | nil => rfl
  | cons user users ih =>
    rw [restartFirst]
    by_cases hruns : user.Runs pid
    · rw [if_pos hruns, List.find?_cons_of_pos (by simpa using hruns)]
      rfl
    · rw [if_neg hruns, List.find?_cons_of_neg (by simpa using hruns)]
      exact ih

theorem startSecfilter_frame (ops : DmxDemux δ) (dev : Dmxdev δ) (hsec : dev.sec = .other k)
    (huse : dev.secInUse = some k)
    (hfilter : (∃ f, (ops.allocateSectionFilter k dev.demux).1 = .ok f) ∨
      (dev.others.find? fun user => user.Runs dev.filter.params.secPid).isSome) :
    Frame dev (startSecfilter ops dev k).2 := by
  have hcall := callSec_eq dev hsec huse fun k demux => (ops.allocateSectionFilter k demux).2
  rw [startSecfilter]
  dsimp only
  rw [hcall]
  split
  · rename_i e herror
    have hsome : (dev.others.find? fun user => user.Runs dev.filter.params.secPid).isSome := by
      refine hfilter.resolve_left ?_
      rintro ⟨f, hf⟩
      rw [hf] at herror
      cases herror
    have hframe : Frame dev (feedRestart ops (dev.call fun demux =>
        (ops.allocateSectionFilter k demux).2)) := by
      have hfirst := restartFirst_eq dev.filter.params.secPid dev.others
      rw [feedRestart]
      split
      · exact ⟨rfl, rfl, rfl, rfl, rfl, rfl, rfl, rfl⟩
      · rename_i hnone
        have hnone' : (restartFirst dev.filter.params.secPid dev.others).1 = none :=
          congrArg Prod.fst hnone
        rw [hfirst, Option.map_eq_none_iff] at hnone'
        rw [hnone'] at hsome
        cases hsome
    have hsec' : (feedRestart ops (dev.call fun demux =>
        (ops.allocateSectionFilter k demux).2)).sec = .other k :=
      (congrArg (fun m => m.next none) hframe.feed).trans hsec
    have hcall' := callSec_eq _ hsec' (hframe.secInUse.trans huse)
      fun k demux => (ops.startSectionFiltering k demux).2
    rw [hcall']
    exact hframe.trans ⟨rfl, rfl, rfl, rfl, rfl, rfl, rfl, rfl⟩
  · rename_i f _
    have hcall' := callSec_eq ((dev.call fun demux =>
      (ops.allocateSectionFilter k demux).2).setSecfilter (some f)) hsec huse
      fun k demux => (ops.startSectionFiltering k demux).2
    rw [hcall']
    exact ⟨rfl, rfl, rfl, rfl, rfl, rfl, rfl, rfl⟩

/-- Where no other filter has a feed for the pid, the feed that is allocated takes a filter. -/
def NewFeedTakesFilter (ops : DmxDemux δ) (dev : Dmxdev δ) : Prop :=
  (dev.others.find? fun user => user.Runs dev.filter.params.secPid) = none →
    ∀ k demux, ops.allocateSectionFeed dev.filter.params.secPid dev.filter.params.checkCrc
        dev.filter.currentFeeds dev.demux = (.ok k, demux) →
      ∃ f, (ops.allocateSectionFilter k demux).1 = .ok f

/-- The union after the start of a section filter. -/
theorem Sound.section (h : Sound dev) {dev' : Dmxdev δ} (sec : Option SecFeedNo)
    (hsec : dev'.sec = secWord sec) (hadded : dev'.added = dev.added)
    (hnext : dev'.nextEntry = dev.nextEntry) (htype : dev'.filter.type = .sec)
    (hmisused : dev'.misused = dev.misused)
    (hgo : .go ≤ dev'.filter.state → sec.isSome ∧ dev'.secInUse = sec) : Sound dev' := by
  have hno : ¬dev'.IsList := by
    rintro ⟨n, hn⟩
    rw [hsec] at hn
    cases sec <;> cases hn
  refine ⟨?_, fun hlist => absurd hlist hno, ?_, ?_, ?_, hmisused.trans h.misused⟩
  · rw [hadded, hnext]
    exact h.fresh
  · rw [htype]
    intro hpes
    cases hpes
  · intro _ hstate
    obtain ⟨hsome, huse⟩ := hgo hstate
    cases sec with
    | none => cases hsome
    | some k => exact ⟨k, hsec, huse⟩
  · rw [htype]
    intro hnone
    cases hnone

/-- A section filter that takes over the feed of another one, which it stops. -/
def sharedSec (ops : DmxDemux δ) (dev : Dmxdev δ) (k : SecFeedNo) : Dmxdev δ :=
  ((((dev.setSecfilter none).setSec none).takeSec k).setState .setPes).call
    (ops.stopSectionFiltering k)

/-- A section filter with a feed of its own. -/
def ownSec (dev : Dmxdev δ) (k : SecFeedNo) (demux : δ) : Dmxdev δ :=
  ({ (dev.setSecfilter none).setSec none with demux := demux } : Dmxdev δ).takeSec k

theorem startSection_shared (ops : DmxDemux δ) {user : SecUser} (htype : dev.filter.type = .sec)
    (hfind : (dev.others.find? fun user => user.Runs dev.filter.params.secPid) = some user) :
    startSection ops dev = startSecfilter ops (sharedSec ops dev user.sec) user.sec := by
  have hfind' : (((dev.setSecfilter none).setSec none).others.find? fun user =>
      user.Runs dev.filter.params.secPid) = some user := hfind
  have htype' : ((((dev.setSecfilter none).setSec none).takeSec user.sec).setState
      .setPes).filter.type = .sec := htype
  have hstopped : feedStop ops (((dev.setSecfilter none).setSec none).takeSec user.sec) =
      sharedSec ops dev user.sec := by
    rw [feedStop, htype']
    exact callSec_eq ((((dev.setSecfilter none).setSec none).takeSec user.sec).setState .setPes)
      (sec_setSec _ (some user.sec)) rfl ops.stopSectionFiltering
  rw [startSection]
  rw [hfind']
  dsimp only
  rw [hstopped]

section
variable (ops : DmxDemux δ) {demux : δ}
  (hfind : (dev.others.find? fun user => user.Runs dev.filter.params.secPid) = none)
include hfind

/-- A section filter that shares no feed asks for one. -/
theorem startSection_unshared : startSection ops dev =
    match ops.allocateSectionFeed dev.filter.params.secPid dev.filter.params.checkCrc
      dev.filter.currentFeeds dev.demux with
    | (.error e, demux) => (.error e, { (dev.setSecfilter none).setSec none with demux := demux })
    | (.ok k, demux) => startSecfilter ops (ownSec dev k demux) k := by
  have hfind' : (((dev.setSecfilter none).setSec none).others.find? fun user =>
      user.Runs dev.filter.params.secPid) = none := hfind
  rw [startSection, hfind']
  rfl

theorem startSection_own (halloc : ops.allocateSectionFeed dev.filter.params.secPid
      dev.filter.params.checkCrc dev.filter.currentFeeds dev.demux = (.ok k, demux)) :
    startSection ops dev = startSecfilter ops (ownSec dev k demux) k := by
  rw [startSection_unshared ops hfind, halloc]

theorem startSection_refused {e : Errno} (halloc : ops.allocateSectionFeed
      dev.filter.params.secPid dev.filter.params.checkCrc dev.filter.currentFeeds dev.demux =
        (.error e, demux)) : startSection ops dev =
      (.error e, { (dev.setSecfilter none).setSec none with demux := demux }) := by
  rw [startSection_unshared ops hfind, halloc]

end

theorem Sound.startSec (h : Sound dev) (htype : dev.filter.type = .sec)
    (hstate : dev.filter.state < .go) (hnew : NewFeedTakesFilter ops dev) :
    Sound (startSection ops dev).2 ∧
      ((startSection ops dev).1 = .ok () → Sound ((startSection ops dev).2.setState .go)) := by
  cases hfind : dev.others.find? fun user => user.Runs dev.filter.params.secPid with
  | some user =>
    have hframe := startSecfilter_frame ops (sharedSec ops dev user.sec) (k := user.sec)
      (sec_setSec _ (some user.sec)) rfl (.inr (Option.isSome_of_eq_some hfind))
    have hsec := (congrArg (fun m => m.next none) hframe.feed).trans
      (sec_setSec ((dev.setSecfilter none).setSec none) (some user.sec))
    rw [startSection_shared ops htype hfind]
    refine ⟨?_, fun _ => ?_⟩
    · refine h.section (some user.sec) hsec hframe.added hframe.nextEntry
        (hframe.type.trans htype) hframe.misused fun hgo => ?_
      rw [hframe.state] at hgo
      exact absurd hgo (NeumoDmxdevState.not_le.mpr setPes_lt_go)
    · exact h.section (some user.sec) hsec hframe.added hframe.nextEntry
        (hframe.type.trans htype) hframe.misused fun _ => ⟨rfl, hframe.secInUse⟩
  | none =>
    cases halloc : ops.allocateSectionFeed dev.filter.params.secPid dev.filter.params.checkCrc
      dev.filter.currentFeeds dev.demux with
    | mk result demux =>
      cases result with
      | error e =>
        rw [startSection_refused ops hfind halloc]
        refine ⟨?_, fun hok => by cases hok⟩
        refine h.section none (sec_setSec _ none) rfl rfl htype rfl fun hgo => ?_
        exact absurd hgo (NeumoDmxdevState.not_le.mpr hstate)
      | ok k =>
        obtain ⟨f, hf⟩ := hnew hfind k demux halloc
        have hframe := startSecfilter_frame ops (ownSec dev k demux) (k := k)
          (sec_setSec _ (some k)) rfl (.inl ⟨f, hf⟩)
        have hsec := (congrArg (fun m => m.next none) hframe.feed).trans
          (sec_setSec { (dev.setSecfilter none).setSec none with demux := demux } (some k))
        rw [startSection_own ops hfind halloc]
        refine ⟨?_, fun _ => ?_⟩
        · refine h.section (some k) hsec hframe.added hframe.nextEntry
            (hframe.type.trans htype) hframe.misused fun hgo => ?_
          rw [hframe.state] at hgo
          exact absurd hgo (NeumoDmxdevState.not_le.mpr hstate)
        · exact h.section (some k) hsec hframe.added hframe.nextEntry
            (hframe.type.trans htype) hframe.misused fun _ => ⟨rfl, hframe.secInUse⟩

/-- The filter as `dvb_dmxdev_filter_start` finds it after stopping it and seeing to its buffer. -/
def beforeStart (ops : DmxDemux δ) (dev : Dmxdev δ) : Bool × Dmxdev δ :=
  allocateBuffer ops (filterStop ops dev).2

/-- If the start gets to a section feed of its own, that takes a filter. -/
def SectionStarts (ops : DmxDemux δ) (dev : Dmxdev δ) : Prop :=
  (beforeStart ops dev).1 = true → NewFeedTakesFilter ops (beforeStart ops dev).2

/-- What `dvb_dmxdev_filter_start` starts, once the filter is stopped and has its buffer. -/
def startFeeds (ops : DmxDemux δ) (dev : Dmxdev δ) : Except Errno Unit × Dmxdev δ :=
  match dev.filter.type with
  | .sec => startSection ops dev
  | .pes => startEntries ops dev dev.backward
  | .none => (.error EINVAL, dev)

/-- A start that succeeds ends with the filter in state `DMXDEV_STATE_GO`. -/
def finishStart (result : Except Errno Unit × Dmxdev δ) : Except Errno Unit × Dmxdev δ :=
  match result.1 with
  | .error e => (.error e, result.2)
  | .ok () => (.ok (), result.2.setState .go)

/-- The filter as a start finds it, before anything is started. -/
structure Ready (dev dev' : Dmxdev δ) : Prop where
  sound : Sound dev'
  state : dev'.filter.state < .go
  type : dev'.filter.type = dev.filter.type

theorem Sound.ready (ops : DmxDemux δ) (h : Sound dev) : Ready dev (beforeStart ops dev).2 := by
  have hstopped := h.stop ops
  have hframe := allocateBuffer_frame ops (filterStop ops dev).2
  refine ⟨hframe.sound hstopped.sound, ?_, hframe.type.trans hstopped.type⟩
  rw [beforeStart, hframe.state]
  exact hstopped.state

theorem filterStart_eq (ops : DmxDemux δ) (h : Sound dev) (hset : .setPes ≤ dev.filter.state) :
    filterStart ops dev =
      if (beforeStart ops dev).1 then finishStart (startFeeds ops (beforeStart ops dev).2)
      else (.error ENOMEM, (beforeStart ops dev).2) := by
  have hready := h.ready ops
  have hdev : (if .go ≤ dev.filter.state then (filterStop ops dev).2 else dev) =
      (filterStop ops dev).2 := by
    split
    · rfl
    · rename_i hgo
      rw [filterStop_idle (NeumoDmxdevState.not_le.mp hgo)]
  rw [filterStart, if_neg (NeumoDmxdevState.not_lt.mpr hset)]
  dsimp only
  rw [hdev]
  split
  · rename_i dev' heq
    have hbefore : beforeStart ops dev = (false, dev') := heq
    rw [hbefore]
    exact (if_neg Bool.false_ne_true).symm
  · rename_i dev' heq
    have hbefore : beforeStart ops dev = (true, dev') := heq
    rw [hbefore] at hready ⊢
    refine Eq.trans ?_ (if_pos rfl).symm
    rw [startFeeds]
    cases hcase : dev'.filter.type with
    | sec => rfl
    | pes =>
      dsimp only
      rw [useList_eq (hready.sound.list (hready.sound.pes hcase))]
      rfl
    | none => rfl

theorem Sound.feeds (h : Sound dev) (hstate : dev.filter.state < .go)
    (hnew : dev.filter.type = .sec → NewFeedTakesFilter ops dev) :
    Sound (finishStart (startFeeds ops dev)).2 := by
  rw [finishStart, startFeeds]
  cases hcase : dev.filter.type with
  | sec =>
    dsimp only
    obtain ⟨herr, hok⟩ := h.startSec hcase hstate (hnew hcase)
    split
    · exact herr
    · rename_i hret
      exact hok hret
  | pes =>
    dsimp only
    have hlist := h.pes hcase
    have hframe := startEntries_frame ops dev.backward hstate
    have hsound := hframe.sound h
    split
    · exact hsound
    · refine ⟨hsound.fresh, hsound.list, hsound.pes, ?_, ?_, hsound.misused⟩
      · intro hsec _
        have hsec' := hframe.type.symm.trans hsec
        rw [hcase] at hsec'
        cases hsec'
      · intro hnone
        have hnone' := hframe.type.symm.trans hnone
        rw [hcase] at hnone'
        cases hnone'
  | none => exact h

theorem Sound.start (h : Sound dev)
    (hnew : dev.filter.type = .sec → SectionStarts ops dev) :
    Sound (filterStart ops dev).2 := by
  have hready := h.ready ops
  by_cases hset : dev.filter.state < .setPes
  · rw [filterStart, if_pos hset]
    exact h
  · rw [filterStart_eq ops h (NeumoDmxdevState.not_lt.mp hset)]
    split
    · rename_i hbuffer
      exact hready.sound.feeds hready.state fun hsec => hnew (hready.type ▸ hsec) hbuffer
    · exact hready.sound

/-! ### The ioctls -/

theorem Sound.newEntry (h : Sound dev) (demux : δ) (entry : Entry) :
    Sound ({ dev with demux := demux, nextEntry := dev.nextEntry + 1 }.setEntry dev.nextEntry
      entry) :=
  ⟨fun i hi => Nat.lt_succ_of_lt (h.fresh i hi), h.list, h.pes, h.running, h.unset, h.misused⟩

theorem Sound.insert (h : Sound dev) (hlist : dev.IsList) (hi : i < dev.nextEntry)
    (hnew : i ∉ dev.added) : Sound (dev.listAdd i) ∧ (dev.listAdd i).IsList := by
  have hlinked := (h.list hlist).add hnew
  rw [Dmxdev.listAdd, useList_eq (h.list hlist)]
  have hlist' : ({ dev.setFeed (dev.filter.feed.add i) with
      added := i :: dev.added } : Dmxdev δ).IsList := hlinked.next_node
  refine ⟨⟨?_, fun _ => hlinked, fun _ => hlist', ?_, h.unset, h.misused⟩, hlist'⟩
  · intro j hj
    rcases List.mem_cons.mp hj with rfl | hj
    · exact hi
    · exact h.fresh j hj
  · intro htype hgo
    obtain ⟨k, hsec, -⟩ := h.running htype hgo
    obtain ⟨n, hn⟩ := hlist
    rw [hsec] at hn
    cases hn

theorem Sound.new_notMem (h : Sound dev) : dev.nextEntry ∉ dev.added :=
  fun hmem => Nat.lt_irrefl _ (h.fresh _ hmem)

theorem Sound.add (ops : DmxDemux δ) (h : Sound dev) (pid : ℕ) : Sound (addPid ops dev pid).2 := by
  rw [addPid]
  split
  · exact h
  · rename_i hcheck
    rw [not_or, not_not] at hcheck
    have hlist := h.pes hcheck.1
    have hlinked := h.list hlist
    dsimp only
    rw [useList_eq hlinked, ite_self]
    split
    · exact h
    · split
      · rename_i demux _
        exact (⟨rfl, rfl, rfl, rfl, rfl, rfl, rfl, rfl⟩ : Frame dev { dev with demux := demux }).sound
          h
      · rename_i demux _
        have hnew := h.newEntry demux (.pid pid none)
        split
        · rename_i hnull
          obtain ⟨n, hn⟩ := hlist
          rw [Dmxdev.sec] at hn
          have hnull' : dev.filter.feed.next none = .null := hnull
          rw [hn] at hnull'
          cases hnull'
        · obtain ⟨hsound, -⟩ := hnew.insert (i := dev.nextEntry) hlist (Nat.lt_succ_self _)
            h.new_notMem
          split
          · exact (startPidFeed_frame ops _ _ _).sound hsound
          · exact hsound

theorem addPid_type (ops : DmxDemux δ) (pid : ℕ) (h : Sound dev) :
    (addPid ops dev pid).2.filter.type = dev.filter.type := by
  rw [addPid]
  split
  · rfl
  · dsimp only
    rename_i hcheck
    rw [not_or, not_not] at hcheck
    rw [useList_eq (h.list (h.pes hcheck.1)), ite_self]
    split
    · rfl
    · split
      · rfl
      · split
        · rfl
        · split
          · exact (startPidFeed_frame ops _ _ _).type
          · rfl

theorem removeEntry_cases (ops : DmxDemux δ) (pid : ℕ) (dev : Dmxdev δ) (i : EntryNo) :
    Frame dev (removeEntry ops dev pid i) ∨
      ∃ dev', Frame dev dev' ∧ removeEntry ops dev pid i = dev'.listDel i := by
  rw [removeEntry]
  split
  · split
    · rename_i stream _ _
      exact .inr ⟨(dev.call (ops.stopFiltering stream)).call (ops.releaseNeumoPidStream stream),
        ⟨rfl, rfl, rfl, rfl, rfl, rfl, rfl, rfl⟩, rfl⟩
    · exact .inl (.refl dev)
  · exact .inl (.refl dev)

theorem Sound.remove (ops : DmxDemux δ) (h : Sound dev) (pid : ℕ) : Sound (removePid ops dev pid).2 := by
  rw [removePid]
  split
  · exact h
  · rename_i hcheck
    rw [not_or, not_not] at hcheck
    have hlist := h.pes hcheck.1
    have hlinked := h.list hlist
    rw [useList_eq hlinked, h.forward hlist]
    exact (Sound.foldl_del (removeEntry_cases ops pid) dev.added h hlist hlinked.nodup
      fun _ hi => hi).1

theorem Sound.addEmbedded (h : Sound dev)
    (hlist : (ops.kzalloc dev.demux).1 = true → dev.IsList) (type : Demux.EmbeddedStreamType)
    (embeddingPid isi : ℤ) : Sound (addStream ops dev type embeddingPid isi).2 := by
  rw [addStream]
  split
  · rename_i demux _
    exact (⟨rfl, rfl, rfl, rfl, rfl, rfl, rfl, rfl⟩ : Frame dev { dev with demux := demux }).sound h
  · rename_i demux heq
    have hlist' : dev.IsList := hlist (congrArg Prod.fst heq)
    exact ((h.newEntry demux _).insert (i := dev.nextEntry) hlist' (Nat.lt_succ_self _)
      h.new_notMem).1

/-- The filter with the parameters of a section filter. -/
def withSectionParams (ops : DmxDemux δ) (dev : Dmxdev δ) (params : SctFilterParams) : Dmxdev δ :=
  { (filterStop ops dev).2 with filter := { (filterStop ops dev).2.filter with
    type := .sec, params := .sec params, state := .setPes } }

theorem Sound.setSection (h : Sound dev) (params : SctFilterParams)
    (hnew : params.immediateStart = true →
      SectionStarts ops (withSectionParams ops dev params)) :
    Sound (sectionFilterSet ops dev params).2 := by
  have hsound : Sound (withSectionParams ops dev params) :=
    (h.stop ops).sound.idle rfl setPes_lt_go nofun
  rw [sectionFilterSet]
  dsimp only
  split
  · rename_i himmediate
    exact hsound.start fun _ => hnew himmediate
  · exact hsound

theorem Sound.setList (h : Sound dev) (params : PesFilterParams)
    (hlist : params.pesType ≤ DMX_PES_OTHER → dev.IsList) :
    Sound (pesFilterSet ops dev params).2 := by
  obtain ⟨hsound, hstate, -, hkeeps⟩ := h.stop ops
  obtain ⟨hreset, -, hkeeps'⟩ := hsound.reset hstate .setStreamSelect (by decide)
  rw [pesFilterSet]
  dsimp only
  split
  · exact hreset
  · rename_i hpes
    have hlist' := hkeeps' (hkeeps (hlist (Nat.not_lt.mp hpes)))
    have hset : Sound ({ filterReset (filterStop ops dev).2 .setStreamSelect with
        filter := { (filterReset (filterStop ops dev).2 .setStreamSelect).filter with
          type := .pes, params := .pes params, state := .setPes } } : Dmxdev δ) :=
      hreset.idle rfl setPes_lt_go fun _ => hlist'
    have hadd := hset.add ops params.pid
    split
    · rename_i heq
      rw [heq] at hadd
      exact hadd
    · rename_i dev' heq
      rw [heq] at hadd
      split
      · refine hadd.start fun hsec => ?_
        have htype := addPid_type ops params.pid hset
        rw [heq] at htype
        have hpes' := htype.symm.trans hsec
        cases hpes'
      · exact hadd

theorem Sound.free (h : Sound dev) : Sound (filterFree ops dev) := by
  obtain ⟨hsound, hstate, -, -⟩ := h.stop ops
  obtain ⟨hreset, -, -⟩ := hsound.reset hstate .allocated (by decide)
  rw [filterFree]
  exact hreset.idle rfl (by decide : NeumoDmxdevState.free < .go) hreset.pes

theorem sectionCallback_sound (h : Sound dev) : Sound (sectionCallback dev) := by
  rw [sectionCallback]
  split
  · rename_i params hsec _
    split
    · rename_i hgo
      refine ⟨h.fresh, h.list, h.pes, fun _ _ => ?_, fun hnone => ?_, h.misused⟩
      · refine h.running hsec ?_
        rw [hgo.1]
        exact NeumoDmxdevState.not_lt.mp (by decide)
      · have hnone' : dev.filter.type = .none := hnone
        rw [hsec] at hnone'
        cases hnone'
    · exact h
  · exact h

theorem filterTimeout_sound (h : Sound dev) : Sound (filterTimeout dev) := by
  rw [filterTimeout]
  split
  · rename_i hgo
    refine ⟨h.fresh, h.list, h.pes, fun _ _ => ?_, fun hnone => ?_, h.misused⟩
    · refine h.running hgo.1 ?_
      rw [hgo.2]
      exact NeumoDmxdevState.not_lt.mp (by decide)
    · have hnone' : dev.filter.type = .none := hnone
      rw [hgo.1] at hnone'
      cases hnone'
  · exact h

/-- Streams and accepted list filters are set while the union is a list, and a section feed that is
    allocated takes a filter. -/
def Careful (ops : DmxDemux δ) (dev : Dmxdev δ) : Request → Prop
  | .setStidStream _ _ | .setT2miStream _ _ => (ops.kzalloc dev.demux).1 = true → dev.IsList
  | .setPesFilter params => params.pesType ≤ DMX_PES_OTHER → dev.IsList
  | .start => dev.filter.type = .sec → SectionStarts ops dev
  | .setFilter params =>
    params.immediateStart = true → SectionStarts ops (withSectionParams ops dev params)
  | _ => True

theorem Sound.ioctl (h : Sound dev) {request : Request} (hcareful : Careful ops dev request) :
    Sound (doIoctl ops dev request).2 := by
  cases request with
  | start => exact h.start hcareful
  | stop => exact (h.stop ops).sound
  | setFilter params => exact h.setSection params hcareful
  | setPesFilter params => exact h.setList params hcareful
  | setStidStream pid isi => exact h.addEmbedded hcareful .stid pid isi
  | setT2miStream pid isi => exact h.addEmbedded hcareful .t2mi pid isi
  | setFeStream =>
    exact (⟨rfl, rfl, rfl, rfl, rfl, rfl, rfl, rfl⟩ :
      Frame dev (dev.setCurrentFeeds (some (ops.getFeFeeds dev.demux)))).sound h
  | addPid pid => exact h.add ops pid
  | removePid pid => exact h.remove ops pid
  | close => exact h.free
  | sectionCallback => exact sectionCallback_sound h
  | filterTimeout => exact filterTimeout_sound h

/-- What a file descriptor goes through, from its opening on. -/
inductive Run (ops : DmxDemux δ) (Good : Dmxdev δ → Request → Prop) : Dmxdev δ → Prop where
  | init (dev : Dmxdev δ) : Run ops Good (demuxOpen dev)
  | step {dev : Dmxdev δ} (request : Request) : Run ops Good dev → dev.filter.state ≠ .free →
      Good dev request → Run ops Good (doIoctl ops dev request).2

theorem demuxOpen_sound (dev : Dmxdev δ) : Sound (demuxOpen dev) := by
  have hlinked : Linked (demuxOpen dev).filter.feed (demuxOpen dev).added :=
    linked_init dev.filter.feed
  refine ⟨nofun, fun _ => hlinked, nofun, nofun, fun _ => ?_, rfl⟩
  exact (by decide : NeumoDmxdevState.allocated < .go)

/-- The list has only been used as a list of the entries added and not taken out, and `sec` only for
    the feed in use; while the filter is of a type that uses one of them it is that. -/
structure UnionOk (dev : Dmxdev δ) : Prop where
  misused : dev.misused = false
  list : dev.filter.type = .pes → Linked dev.filter.feed dev.added
  sec : dev.filter.type = .sec → .go ≤ dev.filter.state →
    ∃ k, dev.sec = .other k ∧ dev.secInUse = some k

/-- Whatever the demux answers, the union is not misread as long as the requests are careful. -/
theorem union_well_formed {dev : Dmxdev δ} (hrun : Run ops (Careful ops) dev) : UnionOk dev := by
  have hsound : Sound dev := by
    induction hrun with
    | init dev => exact demuxOpen_sound dev
    | step request _ _ hcareful ih => exact ih.ioctl hcareful
  exact ⟨hsound.misused, fun htype => hsound.list (hsound.pes htype), hsound.running⟩

/-- A demux that has everything. -/
def generousDemux : DmxDemux Unit where
  kzalloc _ := (true, ())
  vmalloc _ := (true, ())
  getFeFeeds _ := .fe
  allocateStream _ _ _ _ _ := (.ok (0, .ofBbf 0), ())
  releaseBbfStream _ _ := ()
  allocateNeumoPidStream _ _ _ _ _ := (.ok 0, ())
  releaseNeumoPidStream _ _ := ()
  setPriv _ _ := ()
  startFiltering _ _ := (.ok (), ())
  stopFiltering _ _ := ()
  allocateSectionFeed _ _ _ _ := (.ok 0, ())
  releaseSectionFeed _ _ := ()
  allocateSectionFilter _ _ := (.ok 0, ())
  releaseSectionFilter _ _ _ := ()
  startSectionFiltering _ _ := (.ok (), ())
  stopSectionFiltering _ _ := ()

def blankDevice : Dmxdev Unit where
  filter := ⟨none, ⟨fun _ => .null, fun _ => .null⟩, .none, .none, .free, false, none⟩
  entries _ := .pid 0 none
  nextEntry := 0
  others := []
  demux := ()
  added := []
  secInUse := none
  misused := false

def sectionOn (pid : ℕ) : SctFilterParams := ⟨pid, true, false, true⟩

def tsTapOn (pid : ℕ) : PesFilterParams := ⟨pid, .tsTap, DMX_PES_OTHER, false⟩

theorem union_well_formed_section :
    UnionOk (doIoctl generousDemux (demuxOpen blankDevice) (.setFilter (sectionOn 18))).2 :=
  union_well_formed (.step _ (.init blankDevice) (by decide) fun _ _ _ _ _ _ => ⟨0, rfl⟩)

/-- `DMX_SET_PES_FILTER` after a section filter has run: what was `sec` is read as a list. -/
theorem union_misread : ¬∀ (δ : Type) (ops : DmxDemux δ) (dev : Dmxdev δ),
    Run ops (fun _ _ => True) dev → UnionOk dev := by
  intro hall
  have hrun : Run generousDemux (fun _ _ => True) (doIoctl generousDemux
      (doIoctl generousDemux (demuxOpen blankDevice) (.setFilter (sectionOn 18))).2
      (.setPesFilter (tsTapOn 33))).2 :=
    .step _ (.step _ (.init blankDevice) (by decide) trivial) (by decide) trivial
  have hmisused := (hall Unit generousDemux _ hrun).misused
  revert hmisused
  decide

end Dmx

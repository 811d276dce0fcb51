import Mathlib.Data.Set.Insert
import NeumoDrivers.Dmxdev.UnionUse
import NeumoDrivers.Dmxdev.DemuxFeeds

/-! The pids of a filter (`neumo-dmxdev.c`).

    A pid is asked for by `DMX_SET_PES_FILTER` and `DMX_ADD_PID`, and given up by `DMX_REMOVE_PID`.
    `dvb_dmxdev_remove_pid` takes out only the entries that have a stream, which they have while the
    filter runs: what is given up before a start, or after a stop, is started all the same. -/

namespace Dmx
open Function Dmxdev

variable {dev dev' dev'' : Dmxdev NeumoDvbDemux} {wanted : Set ℕ} {i : EntryNo} {pid s : ℕ}

/-! ### Feeds and wishes -/

/-- A feed that the filter has started. -/
def Mine (demux : NeumoDvbDemux) (s : ℕ) : Prop :=
  (demux.feedarray s).state = .go ∧ (demux.feedarray s).type = .ts ∧
    (demux.feedarray s).priv = true

instance (demux : NeumoDvbDemux) (s : ℕ) : Decidable (Mine demux s) :=
  inferInstanceAs (Decidable (_ ∧ _ ∧ _))

/-- The pids for which the filter has a started feed. -/
def startedPids (demux : NeumoDvbDemux) : Set ℕ :=
  {pid | ∃ s, Mine demux s ∧ (demux.feedarray s).pid = pid}

/-- What is wanted after a request that has returned `ret`. -/
def wantedAfter (wanted : Set ℕ) : Request → Except Errno Unit → Set ℕ
  | .setPesFilter params, .ok () => {params.pid}
  | .setPesFilter _, .error _ => ∅
  | .addPid pid, .ok () => insert pid wanted
  | .removePid pid, .ok () => wanted \ {pid}
  | _, _ => wanted

/-- The requests that a filter for pids gets. -/
def OnPids : Request → Prop
  | .setPesFilter _ | .addPid _ | .removePid _ | .start | .stop => True
  | _ => False

/-- What a filter goes through, with what is wanted. Other filters may use the demux in between, but
    leave the feeds of this one alone. -/
inductive PidRun (Good : Dmxdev NeumoDvbDemux → Request → Prop) :
    Dmxdev NeumoDvbDemux → Set ℕ → Prop where
  | init (dev : Dmxdev NeumoDvbDemux) : (∀ s, ¬Mine dev.demux s) → PidRun Good (demuxOpen dev) ∅
  | step {dev : Dmxdev NeumoDvbDemux} {wanted : Set ℕ} (request : Request) :
    PidRun Good dev wanted → OnPids request → Good dev request →
    PidRun Good (doIoctl dvbDmx dev request).2
      (wantedAfter wanted request (doIoctl dvbDmx dev request).1)
  | others {dev : Dmxdev NeumoDvbDemux} {wanted : Set ℕ} (demux : NeumoDvbDemux) :
    PidRun Good dev wanted →
    (∀ s, Mine dev.demux s ∨ Mine demux s → demux.feedarray s = dev.demux.feedarray s) →
    PidRun Good { dev with demux := demux } wanted

/-! ### What holds of the entries -/

/-- Just these entries have started feeds. -/
structure Served (dev : Dmxdev NeumoDvbDemux) (P : EntryNo → Prop) : Prop where
  live : ∀ i, P i → ∃ pid s, dev.entries i = .pid pid (some s) ∧ Mine dev.demux s ∧
    (dev.demux.feedarray s).pid = pid
  owned : ∀ s, Mine dev.demux s → ∃ i pid, P i ∧ dev.entries i = .pid pid (some s)

/-- The entry is for the pid. -/
def For (dev : Dmxdev NeumoDvbDemux) (i : EntryNo) (pid : ℕ) : Prop :=
  ∃ stream, dev.entries i = .pid pid stream

structure Tapped (dev : Dmxdev NeumoDvbDemux) (wanted : Set ℕ) : Prop where
  sound : Sound dev
  list : dev.IsList
  type : .setStreamSelect < dev.filter.state ↔ dev.filter.type = .pes
  empty : dev.filter.state ≤ .setStreamSelect → dev.added = []
  state : dev.filter.state ≤ .go
  pids : ∀ i ∈ dev.added, ∃ pid, For dev i pid
  wanted : ∀ pid, pid ∈ wanted ↔ ∃ i ∈ dev.added, For dev i pid
  idle : dev.filter.state < .go → ∀ s, ¬Mine dev.demux s
  served : .go ≤ dev.filter.state → Served dev fun i => i ∈ dev.added

/-- The pids of the entries stay, and no feed is started. -/
structure Quieter (dev dev' : Dmxdev NeumoDvbDemux) : Prop where
  pids : ∀ i pid, For dev' i pid ↔ For dev i pid
  mine : ∀ s, Mine dev'.demux s → Mine dev.demux s

theorem Quieter.refl (dev : Dmxdev NeumoDvbDemux) : Quieter dev dev :=
  ⟨fun _ _ => Iff.rfl, fun _ h => h⟩

theorem Quieter.trans (h : Quieter dev dev') (h' : Quieter dev' dev'') : Quieter dev dev'' :=
  ⟨fun i pid => (h'.pids i pid).trans (h.pids i pid), fun s hs => h.mine s (h'.mine s hs)⟩

theorem Quieter.foldl {f : Dmxdev NeumoDvbDemux → EntryNo → Dmxdev NeumoDvbDemux}
    (hf : ∀ dev i, Quieter dev (f dev i)) (is : List EntryNo) :
    ∀ dev, Quieter dev (is.foldl f dev) := by
  induction is with
  | nil => exact .refl
  | cons i is ih =>
    intro dev
    exact (hf dev i).trans (ih (f dev i))

/-! ### Stopping -/

theorem mine_stopFiltering {demux : NeumoDvbDemux} {k : ℕ}
    (h : Mine (demux.stopFiltering k) s) : s ≠ k ∧ Mine demux s := by
  rw [Mine, stopFiltering_feedarray] at h
  by_cases hk : s = k
  · subst hk
    rw [update_self] at h
    split at h
    · cases h.1
    · rename_i hgo
      exact absurd h.1 hgo
  · rw [update_of_ne hk] at h
    exact ⟨hk, h⟩

theorem mine_releaseNeumoPidStream {demux : NeumoDvbDemux} {k : ℕ}
    (h : Mine (demux.releaseNeumoPidStream k) s) : s ≠ k ∧ Mine demux s := by
  rw [Mine, releaseNeumoPidStream_feedarray] at h
  by_cases hk : s = k
  · subst hk
    rw [update_self] at h
    split at h
    · rename_i hfree
      have hgo := h.1
      rw [hfree] at hgo
      cases hgo
    · cases h.1
  · rw [update_of_ne hk] at h
    exact ⟨hk, h⟩

theorem stopEntry_quieter (dev : Dmxdev NeumoDvbDemux) (i : EntryNo) :
    Quieter dev (stopEntry dvbDmx dev i) := by
  rw [stopEntry]
  split
  · exact ⟨fun _ _ => Iff.rfl, fun s hs => (mine_stopFiltering hs).2⟩
  · exact .refl dev

theorem for_setEntry {entry : Entry} {stream : Option PidStreamNo}
    (h : dev.entries i = .pid pid stream) (hentry : ∃ stream', entry = .pid pid stream') (j : EntryNo)
    (p : ℕ) : For (dev.setEntry i entry) j p ↔ For dev j p := by
  obtain ⟨stream', rfl⟩ := hentry
  by_cases hj : j = i
  · subst hj
    simp [For, Dmxdev.setEntry, h]
  · simp [For, Dmxdev.setEntry, update_of_ne hj]

theorem releaseEntry_quieter (dev : Dmxdev NeumoDvbDemux) (i : EntryNo) :
    Quieter dev (releaseEntry dvbDmx dev i) := by
  rw [releaseEntry]
  split
  · rename_i p s heq
    exact ⟨@for_setEntry (dev.call (dvbDmx.releaseNeumoPidStream s)) i _ _ _ heq ⟨none, rfl⟩,
      fun s hs => (mine_releaseNeumoPidStream hs).2⟩
  · rename_i p heq
    exact ⟨for_setEntry heq ⟨none, rfl⟩, fun _ hs => hs⟩
  · rename_i stream _ _
    refine ⟨fun _ _ => Iff.rfl, fun s hs => ?_⟩
    cases stream with
    | none => exact hs
    | some b => exact hs

/-- The feed of every entry is stopped. -/
theorem stopEntry_foldl (is : List EntryNo) :
    ∀ dev : Dmxdev NeumoDvbDemux, Mine (is.foldl (stopEntry dvbDmx) dev).demux s →
      ∀ i ∈ is, ∀ pid, dev.entries i ≠ .pid pid (some s) := by
  induction is with
  | nil => exact fun _ _ _ hi => nomatch hi
  | cons j is ih =>
    intro dev hs i hi pid hentry
    have hentries : (stopEntry dvbDmx dev j).entries = dev.entries := by
      rw [stopEntry]
      split <;> rfl
    rcases List.mem_cons.mp hi with rfl | hi
    · have hmine := (Quieter.foldl stopEntry_quieter is (stopEntry dvbDmx dev i)).mine s hs
      rw [stopEntry, hentry] at hmine
      exact (mine_stopFiltering hmine).1 rfl
    · refine ih (stopEntry dvbDmx dev j) hs i hi pid ?_
      rw [hentries]
      exact hentry

/-- The same entries for the same pids, in a filter that has no feed. -/
theorem Tapped.quiet (h : Tapped dev wanted) (hsound : Sound dev') (hlist : dev'.IsList)
    (htype : .setStreamSelect < dev'.filter.state ↔ dev'.filter.type = .pes)
    (hempty : dev'.filter.state ≤ .setStreamSelect → dev.added = [])
    (hstate : dev'.filter.state < .go) (hadded : dev'.added = dev.added)
    (hpids : ∀ i pid, For dev' i pid ↔ For dev i pid) (hmine : ∀ s, ¬Mine dev'.demux s) :
    Tapped dev' wanted := by
  refine ⟨hsound, hlist, htype, ?_, Nat.le_of_lt hstate, ?_, ?_, fun _ => hmine, fun hgo => ?_⟩
  · rw [hadded]
    exact hempty
  · rw [hadded]
    intro i hi
    simpa only [hpids] using h.pids i hi
  · rw [hadded]
    simpa only [hpids] using h.wanted
  · exact absurd hgo (NeumoDmxdevState.not_le.mpr hstate)

theorem Tapped.frame (h : Tapped dev wanted) (hstate : dev.filter.state < .go)
    (hframe : Frame dev dev') (hquiet : Quieter dev dev') : Tapped dev' wanted := by
  refine h.quiet (hframe.sound h.sound) (hframe.isList.mpr h.list) ?_ ?_ ?_ hframe.added
    hquiet.pids fun s hs => h.idle hstate s (hquiet.mine s hs)
  · rw [hframe.state, hframe.type]
    exact h.type
  · rw [hframe.state]
    exact h.empty
  · rw [hframe.state]
    exact hstate

theorem Tapped.stop (h : Tapped dev wanted) : Tapped (filterStop dvbDmx dev).2 wanted := by
  rcases h.sound.runs with hlt | ⟨hgo, -⟩
  · rw [filterStop_idle hlt]
    exact h
  · have htype : dev.filter.type = .pes := by
      refine h.type.mp (Nat.lt_of_lt_of_le ?_ hgo)
      decide
    have hstopped := h.sound.stop dvbDmx
    have hserved := h.served hgo
    rw [filterStop_pes h.sound hgo htype] at hstopped ⊢
    have hframe := stopEntries_frame dvbDmx dev.added (dev.setState .setPes)
    have hstops := Quieter.foldl stopEntry_quieter dev.added (dev.setState .setPes)
    have hreleases := Quieter.foldl releaseEntry_quieter dev.added
      (dev.added.foldl (stopEntry dvbDmx) (dev.setState .setPes))
    have hset : NeumoDmxdevState.setStreamSelect < .setPes := by decide
    refine h.quiet hstopped.sound (hframe.isList.mpr h.list)
      (iff_of_true (hframe.state ▸ hset) (hstopped.type.trans htype)) (fun hle => ?_)
      hstopped.state hframe.added
      (hstops.trans hreleases).pids fun s hs => ?_
    · rw [hframe.state] at hle
      exact absurd hle (NeumoDmxdevState.not_le.mpr hset)
    have hs' := hreleases.mine s hs
    obtain ⟨i, pid, hi, hentry⟩ := hserved.owned s (hstops.mine s hs')
    exact stopEntry_foldl dev.added (dev.setState .setPes) hs' i hi pid hentry

/-! ### Starting -/

theorem mine_refused {demux : NeumoDvbDemux} (h : demux = dev.demux ∨ demux = dev.demux.ask) :
    Mine demux s ↔ Mine dev.demux s := by
  rcases h with rfl | rfl <;> exact Iff.rfl

theorem mine_update {demux demux' : NeumoDvbDemux} {k : ℕ} {feed : Feed}
    (h : demux'.feedarray = update demux.feedarray k feed) (hs : s ≠ k) :
    Mine demux' s ↔ Mine demux s := by
  rw [Mine, Mine, h, update_of_ne hs]

/-- A start that fails starts no feed. -/
theorem startPidFeed_fails (h : ¬PidStarts dvbDmx dev pid) :
    ∃ e dev', startPidFeed dvbDmx dev i pid = (.error e, dev') ∧
      (∃ stream, dev'.entries = update dev.entries i (.pid pid stream)) ∧
      ∀ s, Mine dev'.demux s → Mine dev.demux s := by
  rw [← startPidFeed_ok_iff dvbDmx dev i] at h
  have hcases := startPidFeed_cases dev i pid
  generalize startPidFeed dvbDmx dev i pid = result at h hcases
  cases hcases with
  | refused e demux hdemux _ => exact ⟨e, _, rfl, ⟨none, rfl⟩, fun s hs => (mine_refused hdemux).mp hs⟩
  | leaked k _ _ _ =>
    refine ⟨EINVAL, _, rfl, ⟨some k, rfl⟩, fun s hs => ?_⟩
    by_cases hsk : s = k
    · subst hsk
      have hgo := hs.1
      simp [Dmxdev.leaked, Dmx.leaked, Dmxdev.setEntry] at hgo
    · exact (@mine_update s dev.demux _ k _ rfl hsk).mp hs
  | stopped k e _ _ _ _ =>
    refine ⟨e, _, rfl, ⟨some k, rfl⟩, fun s hs => ?_⟩
    obtain ⟨hsk, hs⟩ := mine_releaseNeumoPidStream hs
    exact (mine_update (primed_feedarray ..) hsk).mp hs
  | started k _ _ _ _ => exact absurd rfl h

/-- A start that succeeds adds a feed for the pid, in a slot that was free. -/
theorem startPidFeed_starts (h : PidStarts dvbDmx dev pid) :
    ∃ k, (dev.demux.feedarray k).state = .free ∧ startPidFeed dvbDmx dev i pid =
      (.ok (), { dev with demux := dev.running k pid }.setEntry i (.pid pid (some k))) := by
  rw [← startPidFeed_ok_iff dvbDmx dev i] at h
  have hcases := startPidFeed_cases dev i pid
  generalize startPidFeed dvbDmx dev i pid = result at h hcases
  cases hcases with
  | refused e demux _ _ => cases h
  | leaked k _ _ _ => cases h
  | stopped k e _ _ _ _ => cases h
  | started k hk _ _ _ => exact ⟨k, feedAlloc_free hk, rfl⟩

/-- The entry that is started joins the others. -/
theorem Served.join {P : EntryNo → Prop} {k : ℕ} (h : Served dev P) (pid : ℕ) (hi : ¬P i)
    (hfree : (dev.demux.feedarray k).state = .free) :
    Served ({ dev with demux := dev.running k pid }.setEntry i (.pid pid (some k)))
      fun j => P j ∨ j = i := by
  have hnot : ¬Mine dev.demux k := by
    intro hk
    rw [Mine, hfree] at hk
    cases hk.1
  have hself : Mine (dev.running k pid) k ∧ ((dev.running k pid).feedarray k).pid = pid := by
    rw [Mine, Dmxdev.running, running_feedarray, update_self]
    exact ⟨⟨rfl, rfl, rfl⟩, rfl⟩
  have hother : ∀ s, s ≠ k → (dev.running k pid).feedarray s = dev.demux.feedarray s := by
    intro s hs
    rw [Dmxdev.running, running_feedarray, update_of_ne hs]
  refine ⟨?_, ?_⟩
  · rintro j (hj | rfl)
    · obtain ⟨p, s, hentry, hs, hpid⟩ := h.live j hj
      have hji : j ≠ i := fun heq => hi (heq ▸ hj)
      have hsk : s ≠ k := fun heq => hnot (heq ▸ hs)
      refine ⟨p, s, (update_of_ne hji ..).trans hentry, ?_, ?_⟩
      · exact (mine_update (running_feedarray ..) hsk).mpr hs
      · exact (congrArg Feed.pid (hother s hsk)).trans hpid
    · exact ⟨pid, k, update_self .., hself⟩
  · intro s hs
    by_cases hsk : s = k
    · subst hsk
      exact ⟨i, pid, .inr rfl, update_self ..⟩
    · obtain ⟨j, p, hj, hentry⟩ := h.owned s ((mine_update (running_feedarray ..) hsk).mp hs)
      have hji : j ≠ i := fun heq => hi (heq ▸ hj)
      exact ⟨j, p, .inl hj, (update_of_ne hji ..).trans hentry⟩

theorem for_update {stream : Option PidStreamNo} (h : For dev i pid)
    (hentries : dev'.entries = update dev.entries i (.pid pid stream)) (j : EntryNo) (p : ℕ) :
    For dev' j p ↔ For dev j p := by
  obtain ⟨stream', hentry⟩ := h
  by_cases hj : j = i
  · subst hj
    simp [For, hentries, hentry]
  · simp [For, hentries, update_of_ne hj]

/-- The loop starts a feed for every entry. -/
theorem startEntries_served (is : List EntryNo) :
    ∀ {dev : Dmxdev NeumoDvbDemux} {P : EntryNo → Prop}, Served dev P →
      (∀ i ∈ is, ∃ pid, For dev i pid) → is.Nodup → (∀ i ∈ is, ¬P i) → AllStart dvbDmx dev is →
      ∃ dev', startEntries dvbDmx dev is = (.ok (), dev') ∧ Served dev' (fun j => P j ∨ j ∈ is) ∧
        ∀ i pid, For dev' i pid ↔ For dev i pid := by
  induction is with
  | nil =>
    intro dev P h _ _ _ _
    refine ⟨dev, rfl, ⟨fun i hi => h.live i (by simpa using hi), fun s hs => ?_⟩,
      fun _ _ => Iff.rfl⟩
    simpa using h.owned s hs
  | cons i is ih =>
    intro dev P h hfor hnodup hnew hall
    obtain ⟨pid, stream, hentry⟩ := hfor i List.mem_cons_self
    rw [List.nodup_cons] at hnodup
    obtain ⟨hstarts, hall⟩ := hall
    rw [EntryStarts, hentry] at hstarts
    obtain ⟨k, hfree, hstart⟩ := startPidFeed_starts (i := i) hstarts
    have hstep : startEntry dvbDmx dev i = (.ok (),
        { dev with demux := dev.running k pid }.setEntry i (.pid pid (some k))) := by
      rw [startEntry, hentry]
      exact hstart
    have hjoin := h.join pid (hnew i List.mem_cons_self) hfree
    have hkept : ∀ j p, For ({ dev with demux := dev.running k pid }.setEntry i
        (.pid pid (some k))) j p ↔ For dev j p :=
      for_update ⟨stream, hentry⟩ rfl
    rw [hstep] at hall
    obtain ⟨dev', hloop, hserved, hsame⟩ := ih hjoin
      (fun j hj => by simpa only [hkept] using hfor j (List.mem_cons_of_mem _ hj)) hnodup.2
      (fun j hj hP => by
        rcases hP with hP | rfl
        · exact hnew j (List.mem_cons_of_mem _ hj) hP
        · exact hnodup.1 hj) hall
    refine ⟨dev', ?_, ?_, fun j p => (hsame j p).trans (hkept j p)⟩
    · rw [startEntries, hstep]
      exact hloop
    · simpa only [List.mem_cons, or_assoc] using hserved

/-- A loop that fails at its first entry has started none. -/
theorem startEntries_fails (is : List EntryNo) (hstate : dev.filter.state < .go)
    (hfor : For dev i pid) (hfails : ¬EntryStarts dvbDmx dev i) :
    ∃ e dev', startEntries dvbDmx dev (i :: is) = (.error e, dev') ∧ Quieter dev dev' := by
  obtain ⟨stream, hentry⟩ := hfor
  rw [EntryStarts, hentry] at hfails
  obtain ⟨e, dev', hstart, ⟨stream', hentries⟩, hmine⟩ := startPidFeed_fails (i := i) hfails
  have hframe := startPidFeed_frame dvbDmx dev i pid
  rw [hstart] at hframe
  refine ⟨e, dev', ?_, for_update ⟨stream, hentry⟩ hentries, hmine⟩
  rw [startEntries, startEntry, hentry]
  dsimp only
  rw [hstart]
  dsimp only
  rw [filterStop_idle (hframe.state ▸ hstate)]

/-- Either all entries are started or the first one is not. -/
def LoopOk (dev : Dmxdev NeumoDvbDemux) (is : List EntryNo) : Prop :=
  AllStart dvbDmx dev is ∨ ∃ i ∈ is.head?, ¬EntryStarts dvbDmx dev i

/-- A start that gets to its loop does not fail there after the first entry. -/
def StartOk (dev : Dmxdev NeumoDvbDemux) : Prop :=
  (beforeStart dvbDmx dev).1 = true →
    LoopOk (beforeStart dvbDmx dev).2 (beforeStart dvbDmx dev).2.backward

theorem allocateBuffer_quieter (dev : Dmxdev NeumoDvbDemux) :
    Quieter dev (allocateBuffer dvbDmx dev).2 := by
  rw [allocateBuffer]
  split
  · exact .refl dev
  · exact ⟨fun _ _ => Iff.rfl, fun _ hs => hs⟩

theorem Tapped.before (h : Tapped dev wanted) : Tapped (beforeStart dvbDmx dev).2 wanted :=
  h.stop.frame (h.sound.stop dvbDmx).state (allocateBuffer_frame ..) (allocateBuffer_quieter _)

/-- A filter whose entries are all served runs. -/
theorem Tapped.go (h : Tapped dev wanted) (htype : dev.filter.type = .pes)
    (hframe : Frame dev dev') (hpids : ∀ i pid, For dev' i pid ↔ For dev i pid)
    (hserved : Served dev' fun i => i ∈ dev.added) : Tapped (dev'.setState .go) wanted := by
  have hsound := hframe.sound h.sound
  have hlist : dev'.IsList := hframe.isList.mpr h.list
  have htype' : dev'.filter.type = .pes := hframe.type.trans htype
  have hset : NeumoDmxdevState.setStreamSelect < .go := by decide
  refine ⟨⟨hsound.fresh, hsound.list, hsound.pes, ?_, ?_, hsound.misused⟩, hlist,
    iff_of_true hset htype', ?_, Nat.le_refl _, ?_, ?_, ?_, fun _ => ?_⟩
  · intro hsec
    have hsec' : dev'.filter.type = .sec := hsec
    rw [htype'] at hsec'
    cases hsec'
  · intro hnone
    have hnone' : dev'.filter.type = .none := hnone
    rw [htype'] at hnone'
    cases hnone'
  · intro hle
    exact absurd hle (NeumoDmxdevState.not_le.mpr hset)
  · intro i hi
    have hi' : i ∈ dev.added := hframe.added ▸ hi
    obtain ⟨pid, hfor⟩ := h.pids i hi'
    exact ⟨pid, (hpids i pid).mpr hfor⟩
  · intro pid
    have hadded : (dev'.setState .go).added = dev.added := hframe.added
    rw [hadded, h.wanted]
    simp only [← hpids]
    rfl
  · intro hlt
    exact absurd hlt (NeumoDmxdevState.not_lt.mpr (Nat.le_refl _))
  · have hadded : (dev'.setState .go).added = dev.added := hframe.added
    rw [hadded]
    exact ⟨hserved.live, hserved.owned⟩

theorem Tapped.backward (h : Tapped dev wanted) : dev.backward = dev.added.reverse :=
  h.sound.backward h.list

theorem Tapped.feedsAll (h : Tapped dev wanted) (hstate : dev.filter.state < .go)
    (htype : dev.filter.type = .pes) (hall : AllStart dvbDmx dev dev.backward) :
    (finishStart (startFeeds dvbDmx dev)).1 = .ok () ∧
      Tapped (finishStart (startFeeds dvbDmx dev)).2 wanted := by
  have hframe := startEntries_frame dvbDmx dev.backward hstate
  have hmem : ∀ i, i ∈ dev.backward ↔ i ∈ dev.added := by
    intro i
    rw [h.backward, List.mem_reverse]
  have hnodup : dev.backward.Nodup := by
    rw [h.backward]
    exact List.nodup_reverse.mpr (h.sound.list h.list).nodup
  have hnone : Served dev fun _ => False :=
    ⟨fun _ hi => hi.elim, fun s hs => absurd hs (h.idle hstate s)⟩
  obtain ⟨dev', hloop, hserved, hkept⟩ := startEntries_served dev.backward hnone
    (fun i hi => h.pids i ((hmem i).mp hi)) hnodup (fun _ _ hi => hi) hall
  rw [startFeeds, htype]
  dsimp only
  rw [hloop] at hframe ⊢
  simp only [hmem, false_or] at hserved
  exact ⟨rfl, h.go htype hframe hkept hserved⟩

theorem Tapped.feeds (h : Tapped dev wanted) (hstate : dev.filter.state < .go)
    (htype : dev.filter.type = .pes) (hok : LoopOk dev dev.backward) :
    Tapped (finishStart (startFeeds dvbDmx dev)).2 wanted := by
  rcases hok with hall | ⟨i, hi, hfails⟩
  · exact (h.feedsAll hstate htype hall).2
  · have hframe := startEntries_frame dvbDmx dev.backward hstate
    have hmem : i ∈ dev.added := by
      rw [← List.mem_reverse, ← h.backward]
      exact List.mem_of_mem_head? hi
    rw [startFeeds, htype]
    dsimp only
    cases hcase : dev.backward with
    | nil =>
      rw [hcase] at hi
      cases hi
    | cons j is =>
      rw [hcase] at hi hframe
      cases hi
      obtain ⟨pid, hfor⟩ := h.pids i hmem
      obtain ⟨e, dev', hloop, hquiet⟩ := startEntries_fails is hstate hfor hfails
      rw [hloop] at hframe ⊢
      exact h.frame hstate hframe hquiet

theorem Tapped.start (h : Tapped dev wanted) (hok : StartOk dev) :
    Tapped (filterStart dvbDmx dev).2 wanted := by
  by_cases hset : dev.filter.state < .setPes
  · rw [filterStart, if_pos hset]
    exact h
  · rw [NeumoDmxdevState.not_lt] at hset
    have hlt : .setStreamSelect < dev.filter.state :=
      Nat.lt_of_lt_of_le (by decide : NeumoDmxdevState.setStreamSelect.toNat < _) hset
    have hready := h.sound.ready dvbDmx
    have hbefore := h.before
    rw [filterStart_eq dvbDmx h.sound hset]
    split
    · rename_i hbuffer
      exact hbefore.feeds hready.state (hready.type.trans (h.type.mp hlt)) (hok hbuffer)
    · exact hbefore

/-! ### Adding and removing -/

/-- What other filters do to the demux is of no concern, as long as they leave the feeds alone. -/
theorem Tapped.others (h : Tapped dev wanted) {demux : NeumoDvbDemux}
    (hsame : ∀ s, Mine dev.demux s ∨ Mine demux s → demux.feedarray s = dev.demux.feedarray s) :
    Tapped { dev with demux := demux } wanted := by
  have hmine : ∀ s, Mine demux s ↔ Mine dev.demux s := by
    intro s
    constructor <;> intro hs
    · rwa [Mine, hsame s (.inr hs)] at hs
    · rwa [Mine, hsame s (.inl hs)]
  have hframe : Frame dev { dev with demux := demux } := ⟨rfl, rfl, rfl, rfl, rfl, rfl, rfl, rfl⟩
  refine ⟨hframe.sound h.sound, h.list, h.type, h.empty, h.state, h.pids, h.wanted, fun hlt s hs => h.idle hlt s ((hmine s).mp hs), fun hgo => ?_⟩
  refine ⟨fun i hi => ?_, fun s hs => (h.served hgo).owned s ((hmine s).mp hs)⟩
  obtain ⟨pid, s, hentry, hs, hpid⟩ := (h.served hgo).live i hi
  exact ⟨pid, s, hentry, (hmine s).mpr hs, (congrArg Feed.pid (hsame s (.inl hs))).trans hpid⟩

/-- One entry more. -/
theorem Tapped.grown (h : Tapped dev wanted) (hpes : dev.filter.type = .pes) (hsound : Sound dev')
    (hlist : dev'.IsList) (hstate : dev'.filter.state = dev.filter.state)
    (htype : dev'.filter.type = dev.filter.type) (hadded : dev'.added = i :: dev.added)
    (hi : i ∉ dev.added) (hfor : ∀ p, For dev' i p ↔ p = pid)
    (hkept : ∀ j, j ≠ i → ∀ p, For dev' j p ↔ For dev j p)
    (hidle : dev.filter.state < .go → ∀ s, ¬Mine dev'.demux s)
    (hserved : .go ≤ dev.filter.state → Served dev' fun j => j ∈ dev.added ∨ j = i) :
    Tapped dev' (insert pid wanted) := by
  have hset := h.type.mpr hpes
  have hold : ∀ j ∈ dev.added, ∀ p, For dev' j p ↔ For dev j p :=
    fun j hj => hkept j fun heq => hi (heq ▸ hj)
  refine ⟨hsound, hlist, ?_, ?_, hstate ▸ h.state, ?_, ?_, hstate ▸ hidle, ?_⟩
  · rw [hstate, htype]
    exact h.type
  · rw [hstate]
    intro hle
    exact absurd hle (NeumoDmxdevState.not_le.mpr hset)
  · rw [hadded]
    intro j hj
    rcases List.mem_cons.mp hj with rfl | hj
    · exact ⟨pid, (hfor pid).mpr rfl⟩
    · obtain ⟨p, hp⟩ := h.pids j hj
      exact ⟨p, (hold j hj p).mpr hp⟩
  · intro p
    rw [hadded, Set.mem_insert_iff, h.wanted]
    simp only [List.mem_cons, exists_eq_or_imp, hfor]
    refine or_congr_right (exists_congr fun j => and_congr_right fun hj => ?_)
    exact (hold j hj p).symm
  · rw [hstate, hadded]
    intro hgo
    obtain ⟨hlive, howned⟩ := hserved hgo
    simp only [List.mem_cons, Or.comm] at hlive howned ⊢
    exact ⟨hlive, howned⟩

/-- The filter with a new entry for the pid. -/
def entered (dev : Dmxdev NeumoDvbDemux) (pid : ℕ) : Dmxdev NeumoDvbDemux :=
  ({ dev with demux := dev.demux.ask, nextEntry := dev.nextEntry + 1 }.setEntry dev.nextEntry
    (.pid pid none)).listAdd dev.nextEntry

theorem entered_sound (h : Tapped dev wanted) (pid : ℕ) :
    Sound (entered dev pid) ∧ (entered dev pid).IsList :=
  (h.sound.newEntry dev.demux.ask (.pid pid none)).insert h.list (Nat.lt_succ_self _)
    h.sound.new_notMem

theorem entered_for (dev : Dmxdev NeumoDvbDemux) (pid p : ℕ) :
    For (entered dev pid) dev.nextEntry p ↔ p = pid := by
  have hentry : (entered dev pid).entries dev.nextEntry = .pid pid none := update_self ..
  rw [For, hentry]
  constructor
  · rintro ⟨stream, heq⟩
    cases heq
    rfl
  · rintro rfl
    exact ⟨none, rfl⟩

theorem entered_entries {j : EntryNo} (hj : j ≠ dev.nextEntry) (pid : ℕ) :
    (entered dev pid).entries j = dev.entries j :=
  update_of_ne hj ..

theorem entered_served (h : Tapped dev wanted) (hgo : .go ≤ dev.filter.state) (pid : ℕ) :
    Served (entered dev pid) fun j => j ∈ dev.added := by
  have hold : ∀ j ∈ dev.added, (entered dev pid).entries j = dev.entries j :=
    fun j hj => entered_entries (fun heq => h.sound.new_notMem (heq ▸ hj)) pid
  obtain ⟨hlive, howned⟩ := h.served hgo
  refine ⟨fun j hj => ?_, fun s hs => ?_⟩
  · obtain ⟨p, s, hentry, hs⟩ := hlive j hj
    exact ⟨p, s, (hold j hj).trans hentry, hs⟩
  · obtain ⟨j, p, hj, hentry⟩ := howned s hs
    exact ⟨j, p, hj, (hold j hj).trans hentry⟩

theorem Tapped.enter (h : Tapped dev wanted) (hpes : dev.filter.type = .pes)
    (hlt : dev.filter.state < .go) (pid : ℕ) : Tapped (entered dev pid) (insert pid wanted) := by
  obtain ⟨hsound, hlist⟩ := entered_sound h pid
  refine h.grown hpes hsound hlist rfl rfl rfl h.sound.new_notMem (entered_for dev pid) ?_
    (fun _ => h.idle hlt) fun hgo => absurd hgo (NeumoDmxdevState.not_le.mpr hlt)
  intro j hj p
  rw [For, For, entered_entries hj]

theorem Tapped.enterStarted (h : Tapped dev wanted) (hpes : dev.filter.type = .pes)
    (hgo : .go ≤ dev.filter.state)
    (hstarts : PidStarts dvbDmx { dev with demux := dev.demux.ask } pid) :
    Tapped (startPidFeed dvbDmx (entered dev pid) dev.nextEntry pid).2
      (wantedAfter wanted (.addPid pid)
        (startPidFeed dvbDmx (entered dev pid) dev.nextEntry pid).1) := by
  have hstarts' : PidStarts dvbDmx (entered dev pid) pid := hstarts
  obtain ⟨k, hfree, hstart⟩ := startPidFeed_starts (i := dev.nextEntry) hstarts'
  obtain ⟨hsound, hlist⟩ := entered_sound h pid
  have hframe := startPidFeed_frame dvbDmx (entered dev pid) dev.nextEntry pid
  rw [hstart] at hframe ⊢
  have hfor := @for_update (entered dev pid) ({ entered dev pid with
    demux := (entered dev pid).running k pid }.setEntry dev.nextEntry (.pid pid (some k)))
    dev.nextEntry pid (some k) ((entered_for dev pid pid).mpr rfl) rfl
  refine h.grown hpes (hframe.sound hsound) (hframe.isList.mpr hlist) hframe.state
    hframe.type hframe.added h.sound.new_notMem (fun p => (hfor _ p).trans (entered_for dev pid p))
    (fun j hj p => ?_) (fun hlt => absurd hlt (NeumoDmxdevState.not_lt.mpr hgo)) fun _ => ?_
  · rw [hfor, For, For, entered_entries hj]
  · exact (entered_served h hgo pid).join pid h.sound.new_notMem hfree

theorem Tapped.add (h : Tapped dev wanted) (pid : ℕ)
    (hok : .go ≤ dev.filter.state → (dvbDmx.kzalloc dev.demux).1 = true →
      PidStarts dvbDmx { dev with demux := (dvbDmx.kzalloc dev.demux).2 } pid) :
    Tapped (addPid dvbDmx dev pid).2
      (wantedAfter wanted (.addPid pid) (addPid dvbDmx dev pid).1) := by
  have hasked : ∀ demux, (dvbDmx.kzalloc dev.demux).2 = demux → demux = dev.demux.ask :=
    fun _ heq => heq.symm
  rw [addPid]
  split
  · exact h
  · rename_i hcheck
    rw [not_or, not_not] at hcheck
    dsimp only
    rw [useList_eq (h.sound.list h.list), ite_self]
    split
    · exact h
    · split
      · rename_i demux heq
        obtain rfl := hasked demux (congrArg Prod.snd heq)
        exact h.others fun _ _ => rfl
      · rename_i demux heq
        obtain rfl := hasked demux (congrArg Prod.snd heq)
        split
        · rename_i hnull
          obtain ⟨n, hn⟩ := h.list
          have hnull' : dev.filter.feed.next none = .null := hnull
          rw [Dmxdev.sec, hnull'] at hn
          cases hn
        · split
          · rename_i hgo
            exact h.enterStarted hcheck.1 hgo (hok hgo (congrArg Prod.fst heq))
          · rename_i hlt
            exact h.enter hcheck.1 (NeumoDmxdevState.not_le.mp hlt) pid

/-! ### Removing -/

/-- What taking out the entries for a pid does. -/
structure Dropped (dev dev' : Dmxdev NeumoDvbDemux) (is : List EntryNo) (pid : ℕ) : Prop where
  entries : dev'.entries = dev.entries
  state : dev'.filter.state = dev.filter.state
  type : dev'.filter.type = dev.filter.type
  added : ∀ i, i ∈ dev'.added ↔
    i ∈ dev.added ∧ ¬(i ∈ is ∧ ∃ s, dev.entries i = .pid pid (some s))
  mine : ∀ s, Mine dev'.demux s ↔
    Mine dev.demux s ∧ ∀ i ∈ is, dev.entries i ≠ .pid pid (some s)
  feeds : ∀ s, Mine dev'.demux s → dev'.demux.feedarray s = dev.demux.feedarray s

theorem mine_drop (demux : NeumoDvbDemux) (k s : ℕ) :
    Mine ((demux.stopFiltering k).releaseNeumoPidStream k) s ↔ Mine demux s ∧ s ≠ k := by
  constructor
  · intro hs
    obtain ⟨hsk, hs⟩ := mine_releaseNeumoPidStream hs
    exact ⟨(mine_stopFiltering hs).2, hsk⟩
  · rintro ⟨hs, hsk⟩
    rw [mine_update (releaseNeumoPidStream_feedarray ..) hsk,
      mine_update (stopFiltering_feedarray ..) hsk]
    exact hs

theorem removeEntry_dropped (pid : ℕ) (is : List EntryNo) :
    ∀ {dev : Dmxdev NeumoDvbDemux}, dev.added.Nodup →
      Dropped dev (is.foldl (fun dev i => removeEntry dvbDmx dev pid i) dev) is pid := by
  induction is with
  | nil =>
    intro dev _
    exact ⟨rfl, rfl, rfl, by simp, by simp, fun _ _ => rfl⟩
  | cons i is ih =>
    intro dev hnodup
    rw [List.foldl_cons]
    by_cases hentry : ∃ k, dev.entries i = .pid pid (some k)
    · obtain ⟨k, hentry⟩ := hentry
      have hstep : removeEntry dvbDmx dev pid i =
          ((dev.call (dvbDmx.stopFiltering k)).call (dvbDmx.releaseNeumoPidStream k)).listDel i := by
        rw [removeEntry, hentry]
        exact if_pos rfl
      have hdrop : ∀ s, Mine (removeEntry dvbDmx dev pid i).demux s ↔ Mine dev.demux s ∧ s ≠ k := by
        rw [hstep]
        exact mine_drop dev.demux k
      have hadded : (removeEntry dvbDmx dev pid i).added = dev.added.erase i := by
        rw [hstep]
        rfl
      have hentries : (removeEntry dvbDmx dev pid i).entries = dev.entries := by
        rw [hstep]
        rfl
      have hnodup' : (removeEntry dvbDmx dev pid i).added.Nodup := by
        rw [hadded]
        exact hnodup.erase i
      obtain ⟨h₁, h₂, h₃, h₄, h₅, h₆⟩ := ih hnodup'
      refine ⟨h₁.trans hentries, ?_, ?_, ?_, ?_, ?_⟩
      · rw [h₂, hstep]
        rfl
      · rw [h₃, hstep]
        rfl
      · intro j
        rw [h₄, hadded, hentries, hnodup.mem_erase_iff, List.mem_cons]
        by_cases hj : j = i
        · subst hj
          simp [hentry]
        · simp [hj]
      · intro s
        have hself : dev.entries i ≠ .pid pid (some s) ↔ s ≠ k := by
          simp [hentry, eq_comm]
        rw [h₅, hdrop, hentries, List.forall_mem_cons, hself, and_assoc]
      · intro s hs
        have hsk := ((hdrop s).mp ((h₅ s).mp hs).1).2
        refine (h₆ s hs).trans ?_
        rw [hstep]
        have hkept : ((dev.demux.stopFiltering k).releaseNeumoPidStream k).feedarray s =
            dev.demux.feedarray s := by
          rw [releaseNeumoPidStream_feedarray, update_of_ne hsk, stopFiltering_feedarray,
            update_of_ne hsk]
        exact hkept
    · have hstep : removeEntry dvbDmx dev pid i = dev := by
        rw [removeEntry]
        split
        · rename_i p k heq
          refine if_neg fun hp => hentry ⟨k, ?_⟩
          rw [heq, hp]
        · rfl
      rw [hstep]
      obtain ⟨h₁, h₂, h₃, h₄, h₅, h₆⟩ := ih hnodup
      refine ⟨h₁, h₂, h₃, fun j => ?_, fun s => ?_, h₆⟩
      · rw [h₄, List.mem_cons]
        by_cases hj : j = i
        · subst hj
          simp [hentry]
        · simp [hj]
      · have hself : dev.entries i ≠ .pid pid (some s) := fun heq => hentry ⟨s, heq⟩
        rw [h₅, List.forall_mem_cons, and_iff_right hself]

theorem Tapped.remove (h : Tapped dev wanted) (pid : ℕ)
    (hok : ∀ i ∈ dev.added, dev.entries i ≠ .pid pid none) :
    Tapped (removePid dvbDmx dev pid).2
      (wantedAfter wanted (.removePid pid) (removePid dvbDmx dev pid).1) := by
  have hsound := h.sound.remove dvbDmx pid
  rw [removePid] at hsound ⊢
  split
  · exact h
  · rename_i hcheck
    rw [if_neg hcheck] at hsound
    have hlinked := h.sound.list h.list
    rw [useList_eq hlinked, h.sound.forward h.list] at hsound ⊢
    have hlist := (Sound.foldl_del (removeEntry_cases dvbDmx pid) dev.added h.sound h.list
      hlinked.nodup fun _ hi => hi).2
    have hdropped := removeEntry_dropped pid dev.added hlinked.nodup
    generalize dev.added.foldl (fun dev i => removeEntry dvbDmx dev pid i) dev = dev' at *
    have hmem : ∀ i, i ∈ dev'.added ↔ i ∈ dev.added ∧ ∀ s, dev.entries i ≠ .pid pid (some s) := by
      intro i
      rw [hdropped.added]
      refine and_congr_right fun hi => ?_
      simp [hi]
    have hfor : ∀ i p, For dev' i p ↔ For dev i p := by
      intro i p
      rw [For, For, hdropped.entries]
    refine ⟨hsound, hlist, ?_, ?_, hdropped.state ▸ h.state, ?_, ?_, ?_, ?_⟩
    · rw [hdropped.state, hdropped.type]
      exact h.type
    · rw [hdropped.state]
      intro hle
      refine List.eq_nil_iff_forall_not_mem.mpr fun i hi => ?_
      have hi' := ((hmem i).mp hi).1
      rw [h.empty hle] at hi'
      cases hi'
    · intro i hi
      obtain ⟨p, hp⟩ := h.pids i ((hmem i).mp hi).1
      exact ⟨p, (hfor i p).mpr hp⟩
    · intro p
      have hafter : wantedAfter wanted (.removePid pid) (.ok ()) = wanted \ {pid} := rfl
      rw [hafter, Set.mem_sdiff, Set.mem_singleton_iff, h.wanted]
      simp only [hfor, hmem]
      constructor
      · rintro ⟨⟨i, hi, hp⟩, hne⟩
        refine ⟨i, ⟨hi, fun s heq => ?_⟩, hp⟩
        obtain ⟨stream, hentry⟩ := hp
        rw [hentry] at heq
        cases heq
        exact hne rfl
      · rintro ⟨i, ⟨hi, hlive⟩, hp⟩
        refine ⟨⟨i, hi, hp⟩, ?_⟩
        rintro rfl
        obtain ⟨stream, hentry⟩ := hp
        cases stream with
        | none => exact hok i hi hentry
        | some s => exact hlive s hentry
    · rw [hdropped.state]
      intro hlt s hs
      exact h.idle hlt s ((hdropped.mine s).mp hs).1
    · rw [hdropped.state]
      intro hgo
      obtain ⟨hlive, howned⟩ := h.served hgo
      refine ⟨fun i hi => ?_, fun s hs => ?_⟩
      · obtain ⟨hi, hkeep⟩ := (hmem i).mp hi
        obtain ⟨p, s, hentry, hs, hpid⟩ := hlive i hi
        have hs' : Mine dev'.demux s := by
          refine (hdropped.mine s).mpr ⟨hs, fun j hj heq => ?_⟩
          obtain ⟨p', s', hentry', hs', hpid'⟩ := hlive j hj
          rw [heq] at hentry'
          cases hentry'
          rw [← hpid, hpid'] at hentry
          exact hkeep s hentry
        refine ⟨p, s, ?_, hs', ?_⟩
        · rw [hdropped.entries]
          exact hentry
        · rw [hdropped.feeds s hs']
          exact hpid
      · obtain ⟨hs', hkeep⟩ := (hdropped.mine s).mp hs
        obtain ⟨i, p, hi, hentry⟩ := howned s hs'
        refine ⟨i, p, (hmem i).mpr ⟨hi, fun s' heq => ?_⟩, ?_⟩
        · rw [hentry] at heq
          cases heq
          exact hkeep i hi hentry
        · rw [hdropped.entries]
          exact hentry

/-! ### Setting -/

/-- An empty list in a filter that is not running. -/
theorem Tapped.nothing (hsound : Sound dev) (hlist : dev.IsList) (hadded : dev.added = [])
    (htype : .setStreamSelect < dev.filter.state ↔ dev.filter.type = .pes)
    (hstate : dev.filter.state < .go) (hmine : ∀ s, ¬Mine dev.demux s) : Tapped dev ∅ := by
  refine ⟨hsound, hlist, htype, fun _ => hadded, Nat.le_of_lt hstate, ?_, ?_, fun _ => hmine,
    fun hgo => absurd hgo (NeumoDmxdevState.not_le.mpr hstate)⟩
  · simp [hadded]
  · simp [hadded]

theorem Tapped.reset (h : Tapped dev wanted) (hstate : dev.filter.state < .go) :
    Tapped (filterReset dev .setStreamSelect) ∅ ∧ (filterReset dev .setStreamSelect).added = [] := by
  obtain ⟨hsound, hstate', hlist⟩ := h.sound.reset hstate .setStreamSelect (by decide)
  have hmine := h.idle hstate
  by_cases hle : dev.filter.state ≤ .setStreamSelect
  · rw [filterReset, if_pos hle]
    exact ⟨.nothing h.sound h.list (h.empty hle) h.type hstate hmine, h.empty hle⟩
  · have htype := h.type.mp (NeumoDmxdevState.not_le.mp hle)
    have hreset : filterReset dev .setStreamSelect = { deletePids dev with
        filter := { (deletePids dev).filter with
          type := .none, currentFeeds := none, state := .setStreamSelect } } := by
      rw [filterReset, if_neg hle, if_pos htype]
    have hdelete : deletePids dev = dev.added.foldl Dmxdev.listDel dev := by
      rw [deletePids, useList_eq (h.sound.list h.list), h.sound.forward h.list]
    have hadded : (deletePids dev).added = [] := by
      rw [hdelete]
      exact deletePids_added dev.added dev rfl
    have hdemux : (deletePids dev).demux = dev.demux := by
      rw [hdelete]
      exact deletePids_demux dev.added dev
    rw [hreset] at hsound hlist ⊢
    have hlt : NeumoDmxdevState.setStreamSelect < .go := by decide
    refine ⟨.nothing hsound (hlist h.list) hadded ?_ hlt fun s hs => hmine s ?_, hadded⟩
    · refine iff_of_false (Nat.lt_irrefl _) ?_
      rintro ⟨⟩
    · rw [← hdemux]
      exact hs

/-- The filter with new parameters, before the pid in them is added. -/
def withPesParams (dev : Dmxdev NeumoDvbDemux) (params : PesFilterParams) : Dmxdev NeumoDvbDemux :=
  { filterReset (filterStop dvbDmx dev).2 .setStreamSelect with
    filter := { (filterReset (filterStop dvbDmx dev).2 .setStreamSelect).filter with
      type := .pes, params := .pes params, state := .setPes } }

/-- A start that is asked for with the parameters is had. -/
def SetOk (dev : Dmxdev NeumoDvbDemux) (params : PesFilterParams) : Prop :=
  params.immediateStart = true → params.pesType ≤ DMX_PES_OTHER →
    ∀ dev', addPid dvbDmx (withPesParams dev params) params.pid = (.ok (), dev') →
      (beforeStart dvbDmx dev').1 = true ∧
        AllStart dvbDmx (beforeStart dvbDmx dev').2 (beforeStart dvbDmx dev').2.backward

theorem Tapped.set (h : Tapped dev wanted) (params : PesFilterParams) (hok : SetOk dev params) :
    Tapped (pesFilterSet dvbDmx dev params).2
      (wantedAfter wanted (.setPesFilter params) (pesFilterSet dvbDmx dev params).1) := by
  obtain ⟨hreset, hempty⟩ := h.stop.reset (h.sound.stop dvbDmx).state
  have hset : Tapped (withPesParams dev params) ∅ := by
    refine .nothing (hreset.sound.idle rfl setPes_lt_go fun _ => hreset.list) hreset.list hempty
      (iff_of_true ?_ rfl) setPes_lt_go ?_
    · exact (by decide : NeumoDmxdevState.setStreamSelect < .setPes)
    · exact hreset.idle (h.stop.sound.reset (h.sound.stop dvbDmx).state _ (by decide)).2.1
  have hadd := hset.add params.pid fun hgo =>
    absurd hgo (NeumoDmxdevState.not_le.mpr setPes_lt_go)
  rw [pesFilterSet]
  dsimp only
  split
  · exact hreset
  · rename_i hpes
    have hok' := fun himmediate => hok himmediate (Nat.not_lt.mp hpes)
    split
    · rename_i e dev' heq
      have heq' : addPid dvbDmx (withPesParams dev params) params.pid = (.error e, dev') := heq
      rw [heq'] at hadd
      exact hadd
    · rename_i dev' heq
      have heq' : addPid dvbDmx (withPesParams dev params) params.pid = (.ok (), dev') := heq
      have htype := addPid_type dvbDmx params.pid hset.sound
      rw [heq'] at hadd htype
      have hadded : Tapped dev' {params.pid} := by
        rw [← insert_empty_eq]
        exact hadd
      split
      · rename_i himmediate
        obtain ⟨hbuffer, hall⟩ := hok' himmediate dev' heq'
        have hset' : .setPes ≤ dev'.filter.state := hadded.type.mpr htype
        have hready := hadded.sound.ready dvbDmx
        obtain ⟨hret, htapped⟩ := hadded.before.feedsAll hready.state (hready.type.trans htype) hall
        rw [filterStart_eq dvbDmx hadded.sound hset', if_pos hbuffer, hret]
        exact htapped
      · exact hadded

/-! ### Runs -/

/-- What is given up has a stream, and what is asked of the demux while the filter runs or starts is
    had. A start may still fail at its first entry. -/
def CarefulPids (dev : Dmxdev NeumoDvbDemux) : Request → Prop
  | .removePid pid => ∀ i ∈ dev.added, dev.entries i ≠ .pid pid none
  | .addPid pid => .go ≤ dev.filter.state → (dvbDmx.kzalloc dev.demux).1 = true →
    PidStarts dvbDmx { dev with demux := (dvbDmx.kzalloc dev.demux).2 } pid
  | .start => StartOk dev
  | .setPesFilter params => SetOk dev params
  | _ => True

/-- One request keeps the entries in line with what is wanted. -/
theorem Tapped.ioctl (h : Tapped dev wanted) {request : Request} (hpids : OnPids request)
    (hok : CarefulPids dev request) :
    Tapped (doIoctl dvbDmx dev request).2
      (wantedAfter wanted request (doIoctl dvbDmx dev request).1) := by
  cases request with
  | start => exact h.start hok
  | stop => exact h.stop
  | setPesFilter params => exact h.set params hok
  | addPid pid => exact h.add pid hok
  | removePid pid => exact h.remove pid hok
  | _ => exact hpids.elim

theorem tapped_open (hmine : ∀ s, ¬Mine dev.demux s) : Tapped (demuxOpen dev) ∅ := by
  have hsound := demuxOpen_sound dev
  have hset : ¬NeumoDmxdevState.setStreamSelect < .allocated := by decide
  refine .nothing hsound ⟨none, ?_⟩ rfl (iff_of_false hset ?_) ?_ hmine
  · rfl
  · rintro ⟨⟩
  · exact (by decide : NeumoDmxdevState.allocated < .go)

theorem PidRun.tapped (hrun : PidRun CarefulPids dev wanted) : Tapped dev wanted := by
  induction hrun with
  | init dev hmine => exact tapped_open hmine
  | step request _ hpids hok ih => exact ih.ioctl hpids hok
  | others demux _ hsame ih => exact ih.others hsame

/-- Whenever the filter runs it has started feeds for the pids that are wanted, and for no others. -/
theorem started_pids_wanted (hrun : PidRun CarefulPids dev wanted) (hgo : dev.filter.state = .go) :
    startedPids dev.demux = wanted := by
  have h := hrun.tapped
  obtain ⟨hlive, howned⟩ := h.served (hgo ▸ Nat.le_refl _)
  ext pid
  rw [startedPids, Set.mem_ofPred_eq, h.wanted]
  constructor
  · rintro ⟨s, hs, rfl⟩
    obtain ⟨i, p, hi, hentry⟩ := howned s hs
    obtain ⟨p', s', hentry', -, hpid⟩ := hlive i hi
    rw [hentry] at hentry'
    cases hentry'
    exact ⟨i, hi, some s, hpid ▸ hentry⟩
  · rintro ⟨i, hi, stream, hentry⟩
    obtain ⟨p, s, hentry', hs, hpid⟩ := hlive i hi
    rw [hentry] at hentry'
    cases hentry'
    exact ⟨s, hs, hpid⟩

theorem idleDevice_mine : ∀ s, ¬Mine idleDevice.demux s := fun _ h => by cases h.1

/-- `DMX_SET_PES_FILTER` on a pid, and a second pid added. -/
def twoPids : Dmxdev NeumoDvbDemux :=
  (doIoctl dvbDmx (doIoctl dvbDmx (demuxOpen idleDevice) (.setPesFilter (tsTapOn 33))).2
    (.addPid 34)).2

theorem started_pids_wanted_two :
    startedPids (doIoctl dvbDmx twoPids .start).2.demux = insert 34 {33} := by
  have hset : PidRun CarefulPids _ _ := .step (.setPesFilter (tsTapOn 33))
    (.init idleDevice idleDevice_mine) trivial nofun
  have hadd : PidRun CarefulPids twoPids (insert 34 {33}) :=
    .step (.addPid 34) hset trivial fun hgo => absurd hgo (by decide)
  have hstart : StartOk twoPids := fun _ => .inl ⟨⟨0, _, rfl, rfl⟩, ⟨1, _, rfl, rfl⟩, trivial⟩
  exact started_pids_wanted (.step .start hadd trivial hstart) rfl

/-- A pid that is given up before the start is started. -/
theorem removed_pid_started : ¬∀ dev wanted, PidRun (fun _ _ => True) dev wanted →
    dev.filter.state = .go → startedPids dev.demux = wanted := by
  intro hall
  have hadd : PidRun (fun _ _ => True) twoPids (insert 34 {33}) :=
    .step (.addPid 34) (.step (.setPesFilter (tsTapOn 33)) (.init idleDevice idleDevice_mine)
      trivial trivial) trivial trivial
  have hremove : PidRun (fun _ _ => True) (doIoctl dvbDmx twoPids (.removePid 34)).2
      (insert 34 {33} \ {34}) := .step (.removePid 34) hadd trivial trivial
  have heq := hall _ _ (.step .start hremove trivial trivial) rfl
  have hmem : 34 ∈ startedPids (doIoctl dvbDmx (doIoctl dvbDmx twoPids (.removePid 34)).2
      .start).2.demux := ⟨1, by decide, rfl⟩
  rw [heq] at hmem
  exact hmem.2 rfl

end Dmx

import NeumoDrivers.Dmxdev.Ledger

/-! What the entries of a list hold (`neumo-dmxdev.c`).

    A start goes through the entries and leaves in each the stream that it acquires for it; a stop goes
    through them again and gives each stream back. Between the two everything in the ledger is held by
    an entry. -/

namespace Dmx
open CircularList Function Dmxdev Loans
open Demux (FeedsNo BbfNo)

variable {δ : Type} {ops : DmxDemux δ} {dev dev' : Dmxdev (δ × Ledger)} {i : EntryNo}
  {held held' : Multiset EntryNo}

/-! ### The entries of a list -/

def Entry.pidStream : Entry → Option PidStreamNo
  | .pid _ stream => stream
  | .embedded .. => none

def Entry.bbfStream : Entry → Option BbfNo
  | .pid .. => none
  | .embedded _ _ _ stream _ => stream

/-- A stop gives `NULL` back for the entry. -/
def Entry.LacksStream : Entry → Prop
  | .embedded _ _ _ none _ => True
  | _ => False

/-- What has been acquired is held by the entries. -/
structure Held (dev : Dmxdev (δ × Ledger)) (held : Multiset EntryNo) : Prop where
  pidStreams : Covered (fun i => (dev.entries i).pidStream) held dev.demux.2.pidStreams
  bbfStreams : Covered (fun i => (dev.entries i).bbfStream) held dev.demux.2.bbfStreams
  secFeeds : dev.demux.2.secFeeds = 0
  secFilters : dev.demux.2.secFilters = 0
  crashed : dev.demux.2.crashed = false

theorem held_zero : Held dev 0 ↔ dev.demux.2 = .empty := by
  constructor
  · rintro ⟨hpids, hbbfs, hfeeds, hfilters, hcrashed⟩
    rw [covered_zero] at hpids hbbfs
    cases hledger : dev.demux.2
    simp_all [Ledger.empty]
  · intro hledger
    refine ⟨?_, ?_, ?_, ?_, ?_⟩ <;> rw [hledger]
    · exact covered_of_zero _ 0
    · exact covered_of_zero _ 0
    · rfl
    · rfl
    · rfl

theorem Held.mono (h : Held dev held) (hle : held ≤ held') : Held dev held' :=
  ⟨h.pidStreams.mono hle, h.bbfStreams.mono hle, h.secFeeds, h.secFilters, h.crashed⟩

/-- The ledger, and the entries that hold something, are as before. -/
theorem Held.same (h : Held dev held) (hledger : dev'.demux.2 = dev.demux.2)
    (hentries : ∀ i ∈ held, dev'.entries i = dev.entries i) : Held dev' held := by
  refine ⟨?_, ?_, ?_, ?_, ?_⟩ <;> rw [hledger]
  · exact h.pidStreams.congr fun i hi => congrArg Entry.pidStream (hentries i hi)
  · exact h.bbfStreams.congr fun i hi => congrArg Entry.bbfStream (hentries i hi)
  · exact h.secFeeds
  · exact h.secFilters
  · exact h.crashed

theorem Held.setEntry (h : Held dev held) (hi : i ∉ held) (demux : δ) (entry : Entry) :
    Held ({ dev with demux := (demux, dev.demux.2) }.setEntry i entry) held := by
  refine h.same rfl fun j hj => ?_
  have hji : j ≠ i := fun hji => hi (hji ▸ hj)
  exact update_of_ne hji entry dev.entries

theorem setEntry_entries (dev : Dmxdev (δ × Ledger)) (i : EntryNo) (entry : Entry) :
    (dev.setEntry i entry).entries i = entry := by
  simp [Dmxdev.setEntry]

/-! ### Acquiring -/

/-- What `dvb_dmxdev_start_pid_feed` acquires: nothing, or the stream that it leaves in the entry. -/
theorem startPidFeed_ledger (ops : DmxDemux δ) (dev : Dmxdev (δ × Ledger)) (i : EntryNo) (pid : ℕ) :
    (∃ demux stream, (startPidFeed (ledgered ops) dev i pid).2 =
        { dev with demux := (demux, dev.demux.2) }.setEntry i (.pid pid stream)) ∨
      ∃ demux s, (startPidFeed (ledgered ops) dev i pid).2 =
        { dev with demux := (demux, dev.demux.2.takePid s) }.setEntry i (.pid pid (some s)) := by
  rw [startPidFeed]
  dsimp only
  split
  · rename_i e stream demux heq
    have hledger : demux.2 = dev.demux.2.pidResult (.error (e, stream)) := recorded_ledger heq
    have hdemux : demux = (demux.1, dev.demux.2.pidResult (.error (e, stream))) := by
      rw [← hledger]
    rw [hdemux]
    cases stream with
    | none => exact .inl ⟨demux.1, none, rfl⟩
    | some s => exact .inr ⟨demux.1, s, rfl⟩
  · rename_i s demux heq
    have hledger : demux.2 = dev.demux.2.pidResult (.ok s) := recorded_ledger heq
    rw [Ledger.pidResult] at hledger
    split
    · rename_i e demux' hstart
      have hledger' : demux'.2 = demux.2 := (congrArg (fun result => result.2.2) hstart).symm
      have hgiven : (dev.demux.2.takePid s).givePid s = dev.demux.2 := by
        rw [Ledger.takePid, Ledger.givePid, Multiset.erase_cons_head]
      have hdemux : (ledgered ops).releaseNeumoPidStream s demux' =
          (ops.releaseNeumoPidStream s demux'.1, dev.demux.2) := by
        rw [← hgiven, ← hledger, ← hledger']
        rfl
      refine .inl ⟨ops.releaseNeumoPidStream s demux'.1, some s, ?_⟩
      rw [← hdemux]
      rfl
    · rename_i demux' hstart
      have hledger' : demux'.2 = demux.2 := (congrArg (fun result => result.2.2) hstart).symm
      refine .inr ⟨demux'.1, s, ?_⟩
      rw [← hledger, ← hledger']
      rfl

theorem Held.startPid (h : Held dev held) (hi : i ∉ held) (ops : DmxDemux δ) (pid : ℕ) :
    Held (startPidFeed (ledgered ops) dev i pid).2 (i ::ₘ held) := by
  rcases startPidFeed_ledger ops dev i pid with ⟨demux, stream, heq⟩ | ⟨demux, s, heq⟩
  · rw [heq]
    exact (h.setEntry hi demux _).mono (Multiset.le_cons_self held i)
  · rw [heq]
    have hsame := h.setEntry hi demux (.pid pid (some s))
    refine ⟨hsame.pidStreams.take ?_, hsame.bbfStreams.mono (Multiset.le_cons_self held i),
      h.secFeeds, h.secFilters, h.crashed⟩
    exact congrArg Entry.pidStream (setEntry_entries _ i _)

theorem Held.allocate (h : Held dev held) (hi : i ∉ held) (ops : DmxDemux δ)
    (type : Demux.EmbeddedStreamType) (embeddingPid isi : ℤ) (feeds : Option FeedsNo) :
    Held (allocateEmbedded (ledgered ops) dev i type embeddingPid isi feeds) (i ::ₘ held) := by
  rw [allocateEmbedded]
  split
  · rename_i e demux heq
    have hledger : demux.2 = dev.demux.2 := recorded_ledger heq
    exact Held.mono (h.same hledger fun _ _ => rfl) (Multiset.le_cons_self held i)
  · rename_i b feeds' demux heq
    have hledger : demux.2 = dev.demux.2.bbfResult (.ok (b, feeds')) := recorded_ledger heq
    have hsame := h.setEntry hi demux.1 (.embedded type embeddingPid isi (some b) (some feeds'))
    refine ⟨?_, ?_, ?_, ?_, ?_⟩
    all_goals dsimp only [setCurrentFeeds, Dmxdev.setEntry]; rw [hledger]
    · exact hsame.pidStreams.mono (Multiset.le_cons_self held i)
    · refine hsame.bbfStreams.take ?_
      exact congrArg Entry.bbfStream (setEntry_entries _ i _)
    · exact h.secFeeds
    · exact h.secFilters
    · exact h.crashed

theorem Held.start (h : Held dev held) (hi : i ∉ held) (ops : DmxDemux δ) :
    Held (startEntry (ledgered ops) dev i).2 (i ::ₘ held) := by
  rw [startEntry]
  split
  · exact h.startPid hi ops _
  · exact h.allocate hi ops _ _ _ _

/-- The loop over the entries, as far as it gets. -/
theorem Held.startAll (ops : DmxDemux δ) (is : List EntryNo) :
    ∀ {dev : Dmxdev (δ × Ledger)} {held : Multiset EntryNo}, Held dev held →
      dev.filter.state < .go → is.Nodup → (∀ i ∈ is, i ∉ held) →
      Held (startEntries (ledgered ops) dev is).2 (is + held) := by
  induction is with
  | nil =>
    intro dev held h _ _ _
    rw [Multiset.coe_nil, Multiset.zero_add]
    exact h
  | cons i is ih =>
    intro dev held h hstate hnodup hnew
    rw [List.nodup_cons] at hnodup
    have hstep := h.start (hnew i List.mem_cons_self) ops
    have hframe := startEntry_frame (ledgered ops) dev i
    have hsum : (↑(i :: is) + held : Multiset EntryNo) = is + i ::ₘ held := by
      rw [← Multiset.cons_coe, Multiset.cons_add, Multiset.add_cons]
    rw [startEntries, hsum]
    split
    · rename_i e dev' heq
      rw [heq] at hstep hframe
      rw [filterStop_idle (hframe.state ▸ hstate)]
      exact hstep.mono (Multiset.le_add_left _ _)
    · rename_i dev' heq
      rw [heq] at hstep hframe
      refine ih hstep (hframe.state ▸ hstate) hnodup.2 fun j hj => ?_
      rw [Multiset.mem_cons, not_or]
      exact ⟨fun hji => hnodup.1 (hji ▸ hj), hnew j (List.mem_cons_of_mem i hj)⟩

/-! ### Giving back -/

theorem Held.release (h : Held dev (i ::ₘ held)) (hi : i ∉ held)
    (hhas : ¬(dev.entries i).LacksStream) (ops : DmxDemux δ) :
    Held (releaseEntry (ledgered ops) dev i) held := by
  rw [releaseEntry]
  split
  · rename_i pid s hentry
    have hpids := h.pidStreams.give (congrArg Entry.pidStream hentry)
    have hbbfs := h.bbfStreams.drop (congrArg Entry.bbfStream hentry)
    have hother : ∀ j ∈ held, (dev.setEntry i (.pid pid none)).entries j = dev.entries j :=
      fun j hj => update_of_ne (fun hji : j = i => hi (hji ▸ hj)) _ _
    exact ⟨hpids.congr fun j hj => congrArg Entry.pidStream (hother j hj),
      hbbfs.congr fun j hj => congrArg Entry.bbfStream (hother j hj), h.secFeeds, h.secFilters,
      h.crashed⟩
  · rename_i pid hentry
    have hheld : Held dev held :=
      ⟨h.pidStreams.drop (congrArg Entry.pidStream hentry),
        h.bbfStreams.drop (congrArg Entry.bbfStream hentry), h.secFeeds, h.secFilters, h.crashed⟩
    exact hheld.setEntry hi dev.demux.1 (.pid pid none)
  · rename_i type embeddingPid isi stream feeds hentry
    cases stream with
    | none =>
      rw [hentry] at hhas
      exact absurd trivial hhas
    | some b =>
      exact ⟨h.pidStreams.drop (congrArg Entry.pidStream hentry),
        h.bbfStreams.give (congrArg Entry.bbfStream hentry), h.secFeeds, h.secFilters, h.crashed⟩

theorem releaseEntry_entries (ops : DmxDemux δ) (dev : Dmxdev (δ × Ledger)) {i j : EntryNo}
    (hji : j ≠ i) : (releaseEntry (ledgered ops) dev i).entries j = dev.entries j := by
  rw [releaseEntry]
  split
  · exact update_of_ne hji _ _
  · exact update_of_ne hji _ _
  · rfl

theorem Held.releaseAll (ops : DmxDemux δ) (is : List EntryNo) :
    ∀ {dev : Dmxdev (δ × Ledger)}, Held dev is → is.Nodup →
      (∀ i ∈ is, ¬(dev.entries i).LacksStream) →
      Held (is.foldl (releaseEntry (ledgered ops)) dev) 0 := by
  induction is with
  | nil => exact fun h _ _ => h
  | cons i is ih =>
    intro dev h hnodup hhas
    rw [List.nodup_cons] at hnodup
    rw [← Multiset.cons_coe] at h
    have hstep := h.release hnodup.1 (hhas i List.mem_cons_self) ops
    refine ih hstep hnodup.2 fun j hj => ?_
    have hji : j ≠ i := fun hji => hnodup.1 (hji ▸ hj)
    rw [releaseEntry_entries ops dev hji]
    exact hhas j (List.mem_cons_of_mem i hj)

/-- Stopping the feeds gives nothing back. -/
theorem stopEntries_same (ops : DmxDemux δ) (is : List EntryNo) :
    ∀ dev : Dmxdev (δ × Ledger),
      (is.foldl (stopEntry (ledgered ops)) dev).demux.2 = dev.demux.2 ∧
        (is.foldl (stopEntry (ledgered ops)) dev).entries = dev.entries := by
  induction is with
  | nil => exact fun _ => ⟨rfl, rfl⟩
  | cons i is ih =>
    intro dev
    have hstep : (stopEntry (ledgered ops) dev i).demux.2 = dev.demux.2 ∧
        (stopEntry (ledgered ops) dev i).entries = dev.entries := by
      rw [stopEntry]
      split <;> exact ⟨rfl, rfl⟩
    obtain ⟨hledger, hentries⟩ := ih (stopEntry (ledgered ops) dev i)
    exact ⟨hledger.trans hstep.1, hentries.trans hstep.2⟩

/-- No entry of a running list lacks its stream. -/
def StopsSafely (dev : Dmxdev (δ × Ledger)) : Prop :=
  dev.filter.type = .pes → .go ≤ dev.filter.state → ∀ i ∈ dev.added, ¬(dev.entries i).LacksStream

theorem stopPes_ledger (hs : Sound dev) (hheld : Held dev dev.added) (hsafe : StopsSafely dev)
    (hgo : .go ≤ dev.filter.state) (htype : dev.filter.type = .pes) (ops : DmxDemux δ) :
    (filterStop (ledgered ops) dev).2.demux.2 = .empty := by
  obtain ⟨hledger, hentries⟩ := stopEntries_same ops dev.added (dev.setState .setPes)
  have hnodup := (hs.list (hs.pes htype)).nodup
  have hstopped : Held (dev.added.foldl (stopEntry (ledgered ops)) (dev.setState .setPes))
      dev.added := hheld.same hledger fun i _ => congrFun hentries i
  rw [filterStop_pes hs hgo htype, ← held_zero]
  refine hstopped.releaseAll ops dev.added hnodup fun i hi => ?_
  rw [hentries]
  exact hsafe htype hgo i hi

/-! ### Removing -/

theorem removeEntry_ledger (ops : DmxDemux δ) (dev : Dmxdev (δ × Ledger)) (pid : ℕ) (i : EntryNo) :
    removeEntry (ledgered ops) dev pid i = dev ∨
      ∃ s demux, dev.entries i = .pid pid (some s) ∧ removeEntry (ledgered ops) dev pid i =
        ({ dev with demux := (demux, dev.demux.2.givePid s) } : Dmxdev (δ × Ledger)).listDel i := by
  rw [removeEntry]
  split
  · rename_i p s hentry
    split
    · rename_i hp
      rw [hp] at hentry
      exact .inr ⟨s, ops.releaseNeumoPidStream s (ops.stopFiltering s dev.demux.1), hentry, rfl⟩
    · exact .inl rfl
  · exact .inl rfl

/-- An entry that is taken out has given back its stream. -/
theorem Held.removeAll (ops : DmxDemux δ) (pid : ℕ) (is : List EntryNo) :
    ∀ dev : Dmxdev (δ × Ledger), Held dev dev.added → is.Nodup → (∀ i ∈ is, i ∈ dev.added) →
      Held (is.foldl (fun dev i => removeEntry (ledgered ops) dev pid i) dev)
        (is.foldl (fun dev i => removeEntry (ledgered ops) dev pid i) dev).added := by
  induction is with
  | nil => exact fun _ h _ _ => h
  | cons i is ih =>
    intro dev h hnodup hmem
    rw [List.nodup_cons] at hnodup
    rw [List.foldl_cons]
    rcases removeEntry_ledger ops dev pid i with heq | ⟨s, demux, hentry, heq⟩
    · rw [heq]
      exact ih _ h hnodup.2 fun j hj => hmem j (List.mem_cons_of_mem i hj)
    · have hi : i ∈ (dev.added : Multiset EntryNo) := hmem i List.mem_cons_self
      have hadded : (dev.added : Multiset EntryNo) = i ::ₘ (dev.added.erase i : List EntryNo) := by
        rw [← Multiset.coe_erase, Multiset.cons_erase hi]
      rw [hadded] at h
      rw [heq]
      refine ih _ ⟨h.pidStreams.give (congrArg Entry.pidStream hentry),
        h.bbfStreams.drop (congrArg Entry.bbfStream hentry), h.secFeeds, h.secFilters,
        h.crashed⟩ hnodup.2 fun j hj => ?_
      have hji : j ≠ i := fun hji => hnodup.1 (hji ▸ hj)
      exact (List.mem_erase_of_ne hji).mpr (hmem j (List.mem_cons_of_mem i hj))

theorem removeAll_empty (ops : DmxDemux δ) (pid : ℕ) (is : List EntryNo) :
    ∀ dev : Dmxdev (δ × Ledger), dev.demux.2 = .empty →
      (is.foldl (fun dev i => removeEntry (ledgered ops) dev pid i) dev).demux.2 = .empty := by
  induction is with
  | nil => exact fun _ h => h
  | cons i is ih =>
    intro dev h
    refine ih _ ?_
    dsimp only
    rcases removeEntry_ledger ops dev pid i with heq | ⟨s, demux, -, heq⟩
    · rw [heq]
      exact h
    · rw [heq]
      change dev.demux.2.givePid s = .empty
      rw [h]
      rfl

/-! ### Starting a list -/

/-- Every pid gets a stream, and the stream starts. -/
def PidsStart (ops : DmxDemux δ) (dev : Dmxdev δ) : List EntryNo → Prop
  | [] => True
  | i :: is => (∀ pid stream, dev.entries i = .pid pid stream → PidStarts ops dev pid) ∧
      PidsStart ops (startEntry ops dev i).2 is

/-- The first pid gets no stream, or none that starts, and no stream was embedded before. -/
def NothingStarts (ops : DmxDemux δ) (dev : Dmxdev δ) : List EntryNo → Prop
  | [] => False
  | i :: is =>
    match dev.entries i with
    | .pid pid _ => ∃ e, PidFails ops dev pid e
    | .embedded type embeddingPid isi _ _ =>
      (∃ e, (ops.allocateStream type embeddingPid isi dev.filter.currentFeeds dev.demux).1 =
          .error e) ∧
        NothingStarts ops (startEntry ops dev i).2 is

theorem startEntries_pids {δ : Type} {ops : DmxDemux δ} (is : List EntryNo) :
    ∀ {dev : Dmxdev δ}, PidsStart ops dev is → (startEntries ops dev is).1 = .ok () := by
  induction is with
  | nil => exact fun _ => rfl
  | cons i is ih =>
    intro dev h
    have hok : (startEntry ops dev i).1 = .ok () := by
      rw [startEntry]
      split
      · rename_i pid stream hentry
        exact (startPidFeed_ok_iff ops dev i pid).mpr (h.1 pid stream hentry)
      · rfl
    have heq : startEntry ops dev i = (.ok (), (startEntry ops dev i).2) := by
      rw [← hok]
    rw [(startEntries_ok heq is).1]
    exact ih h.2

theorem startPidFeed_nothing {pid : ℕ} {e : Errno} (hfails : PidFails (ledgered ops) dev pid e) :
    (startPidFeed (ledgered ops) dev i pid).1 = .error e ∧
      (startPidFeed (ledgered ops) dev i pid).2.demux.2 = dev.demux.2 := by
  have hasked : (dev.askStream (ledgered ops) pid).2.2 =
      dev.demux.2.pidResult (dev.askStream (ledgered ops) pid).1 := rfl
  rw [startPidFeed]
  rcases hfails with hrefused | ⟨s, demux, hgiven, hstart⟩
  · rw [hrefused] at hasked
    rw [askStream] at hrefused hasked
    split
    · rename_i e' stream demux heq
      rw [heq] at hrefused hasked
      cases hrefused
      exact ⟨rfl, hasked⟩
    · rename_i s demux heq
      rw [heq] at hrefused
      cases hrefused
  · rw [hgiven] at hasked
    rw [askStream] at hgiven
    rw [hgiven]
    dsimp only [Dmxdev.setEntry]
    split
    · rename_i e' demux' heq
      have hledger : demux'.2 = demux.2 := (congrArg (fun result => result.2.2) heq).symm
      rw [heq] at hstart
      cases hstart
      refine ⟨rfl, ?_⟩
      change demux'.2.givePid s = dev.demux.2
      rw [hledger, hasked, Ledger.pidResult, Ledger.takePid, Ledger.givePid,
        Multiset.erase_cons_head]
    · rename_i demux' heq
      rw [heq] at hstart
      cases hstart

/-- A start that acquires nothing fails. -/
theorem startEntries_nothing (is : List EntryNo) :
    ∀ {dev : Dmxdev (δ × Ledger)}, dev.filter.state < .go → NothingStarts (ledgered ops) dev is →
      (∃ e, (startEntries (ledgered ops) dev is).1 = .error e) ∧
        (startEntries (ledgered ops) dev is).2.demux.2 = dev.demux.2 := by
  induction is with
  | nil => exact fun _ h => h.elim
  | cons i is ih =>
    intro dev hstate h
    have hframe := startEntry_frame (ledgered ops) dev i
    have hstate' : (startEntry (ledgered ops) dev i).2.filter.state < .go := by
      rw [hframe.state]
      exact hstate
    rw [NothingStarts] at h
    cases hentry : dev.entries i with
    | pid pid stream =>
      rw [hentry] at h
      obtain ⟨e, hfails⟩ := h
      have hstart : startEntry (ledgered ops) dev i = startPidFeed (ledgered ops) dev i pid := by
        rw [startEntry, hentry]
      obtain ⟨hret, hledger⟩ := startPidFeed_nothing (i := i) hfails
      rw [← hstart] at hret hledger
      have heq : startEntry (ledgered ops) dev i =
          (.error e, (startEntry (ledgered ops) dev i).2) := by
        rw [← hret]
      rw [(startEntries_failed heq is).1, filterStop_idle hstate']
      exact ⟨⟨e, rfl⟩, hledger⟩
    | embedded type embeddingPid isi stream feeds =>
      rw [hentry] at h
      obtain ⟨⟨e, hrefused⟩, hrest⟩ := h
      have hstart : startEntry (ledgered ops) dev i =
          (.ok (), allocateEmbedded (ledgered ops) dev i type embeddingPid isi feeds) := by
        rw [startEntry, hentry]
      have hledger : (startEntry (ledgered ops) dev i).2.demux.2 = dev.demux.2 := by
        rw [hstart, allocateEmbedded]
        split
        · rename_i e' demux heq
          exact recorded_ledger heq
        · rename_i b feeds' demux heq
          rw [heq] at hrefused
          cases hrefused
      have heq : startEntry (ledgered ops) dev i =
          (.ok (), (startEntry (ledgered ops) dev i).2) := by
        rw [hstart]
      obtain ⟨hret, hsame⟩ := ih hstate' hrest
      rw [(startEntries_ok heq is).1]
      exact ⟨hret, hsame.trans hledger⟩

/-! ### The other filters -/

/-- No other filter runs that did not run before, and each has the feed that it had. -/
def SameUsers (users users' : List SecUser) : Prop :=
  ∀ user' ∈ users', ∃ user ∈ users, user.sec = user'.sec ∧
    ∀ pid, user'.Runs pid → user.Runs pid

theorem SameUsers.refl (users : List SecUser) : SameUsers users users :=
  fun user huser => ⟨user, huser, rfl, fun _ hruns => hruns⟩

theorem restartFirst_users (pid : ℕ) (users : List SecUser) :
    SameUsers users (restartFirst pid users).2 := by
  induction users with
  | nil => exact nofun
  | cons user users ih =>
    rw [restartFirst]
    split
    · rename_i hruns
      intro user' huser'
      rcases List.mem_cons.mp huser' with rfl | huser'
      · exact ⟨user, List.mem_cons_self, rfl, fun _ h => ⟨hruns.1, h.2⟩⟩
      · exact ⟨user', List.mem_cons_of_mem user huser', rfl, fun _ h => h⟩
    · intro user' huser'
      rcases List.mem_cons.mp huser' with rfl | huser'
      · exact ⟨user', List.mem_cons_self, rfl, fun _ h => h⟩
      · obtain ⟨old, hold, hsame⟩ := ih user' huser'
        exact ⟨old, List.mem_cons_of_mem user hold, hsame⟩

theorem feedRestart_users {δ : Type} (ops : DmxDemux δ) (dev : Dmxdev δ) :
    SameUsers dev.others (feedRestart ops dev).others := by
  have hfirst := restartFirst_users dev.filter.params.secPid dev.others
  rw [feedRestart]
  split
  · rename_i heq
    rw [heq] at hfirst
    exact hfirst
  · rw [show ({ dev.callSec ops.releaseSectionFeed with secInUse := none } : Dmxdev δ).others =
      dev.others from callSec_others dev _]
    exact .refl dev.others

theorem OneFeed.same {δ : Type} {dev dev' : Dmxdev δ} {users users' : List SecUser}
    (h : OneFeed dev users) (hsame : SameUsers users users')
    (hown : dev'.filter.type = .sec → .go ≤ dev'.filter.state →
      ∀ user ∈ users', user.Runs dev'.filter.params.secPid → dev'.sec = .other user.sec) :
    OneFeed dev' users' := by
  refine ⟨?_, hown⟩
  intro pid user huser user' huser' hruns hruns'
  obtain ⟨old, hold, hsec, hran⟩ := hsame user huser
  obtain ⟨old', hold', hsec', hran'⟩ := hsame user' huser'
  rw [← hsec, ← hsec']
  exact h.shared pid old hold old' hold' (hran pid hruns) (hran' pid hruns')

/-- A filter that is not running has no feed. -/
theorem OneFeed.idle {δ : Type} {dev dev' : Dmxdev δ} {users users' : List SecUser}
    (h : OneFeed dev users) (hsame : SameUsers users users') (hstate : dev'.filter.state < .go) :
    OneFeed dev' users' :=
  h.same hsame fun _ hgo => absurd hgo (NeumoDmxdevState.not_le.mpr hstate)

theorem stopEntry_others {δ : Type} (ops : DmxDemux δ) (dev : Dmxdev δ) (i : EntryNo) :
    (stopEntry ops dev i).others = dev.others := by
  rw [stopEntry]
  split <;> rfl

theorem releaseEntry_others {δ : Type} (ops : DmxDemux δ) (dev : Dmxdev δ) (i : EntryNo) :
    (releaseEntry ops dev i).others = dev.others := by
  rw [releaseEntry]
  split <;> rfl

theorem removeEntry_others {δ : Type} (ops : DmxDemux δ) (pid : ℕ) (dev : Dmxdev δ) (i : EntryNo) :
    (removeEntry ops dev pid i).others = dev.others := by
  rw [removeEntry]
  split
  · split <;> rfl
  · rfl

theorem removeEntry_state {δ : Type} (ops : DmxDemux δ) (pid : ℕ) (dev : Dmxdev δ) (i : EntryNo) :
    (removeEntry ops dev pid i).filter.state = dev.filter.state ∧
      (removeEntry ops dev pid i).filter.type = dev.filter.type := by
  rw [removeEntry]
  split
  · split <;> exact ⟨rfl, rfl⟩
  · exact ⟨rfl, rfl⟩

theorem startPidFeed_others {δ : Type} (ops : DmxDemux δ) (dev : Dmxdev δ) (i : EntryNo) (pid : ℕ) :
    (startPidFeed ops dev i pid).2.others = dev.others := by
  rw [startPidFeed]
  split
  · rfl
  · dsimp only
    split <;> rfl

theorem startEntry_others {δ : Type} (ops : DmxDemux δ) (dev : Dmxdev δ) (i : EntryNo) :
    (startEntry ops dev i).2.others = dev.others := by
  rw [startEntry]
  split
  · exact startPidFeed_others ops dev i _
  · rw [allocateEmbedded]
    split <;> rfl

theorem startEntries_others {δ : Type} (ops : DmxDemux δ) (is : List EntryNo) :
    ∀ {dev : Dmxdev δ}, dev.filter.state < .go → (startEntries ops dev is).2.others = dev.others := by
  induction is with
  | nil => exact fun _ => rfl
  | cons i is ih =>
    intro dev hstate
    have hstep := startEntry_others ops dev i
    have hframe := startEntry_frame ops dev i
    rw [startEntries]
    split
    · rename_i e dev' heq
      rw [heq] at hstep hframe
      rw [filterStop_idle (hframe.state ▸ hstate)]
      exact hstep
    · rename_i dev' heq
      rw [heq] at hstep hframe
      exact (ih (hframe.state ▸ hstate)).trans hstep

end Dmx

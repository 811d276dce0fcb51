import NeumoDrivers.Demux.Outstanding

/-! Which container feeds users that name none.

    Packets of the container that has `include_default_feeds` set also go to the default feeds. It
    is that of the stream of the frontend, or of the frontend itself when there is no such stream.
    A switch sets the flag of the new container and leaves that of the old one alone, so that two
    are left with it when someone else still refers to the old one. -/

namespace Demux
open Function Tally

variable {demux : DvbDemux} {out : List Alloc} {live : List EmbNo} {s : Shared} {f : FeedsNo}
variable {b : BbfNo} {a : Alloc}

/-- The container that is to feed the default feeds. -/
def DvbDemux.source (demux : DvbDemux) : FeedsNo :=
  match demux.feBbframesStream with
  | none => .fe
  | some b => .ofBbf b

/-- The default feeds have one source, and the mutex is free. -/
structure OneSource (s : Shared) : Prop where
  inUse : 0 < (s.demux.feeds s.demux.source).refcount
  flag : ∀ f, 0 < (s.demux.feeds f).refcount →
    ((s.demux.feeds f).includeDefaultFeeds = true ↔ f = s.demux.source)
  unlocked : s.demux.locked = false

/-- The stream of the frontend is switched while nobody else refers to it, or again to the same one,
    and where an embedded stream has to be made there is memory for it. -/
def Shared.SwitchesAlone (s : Shared) : Request → Prop
  | .setBbframesState embeddingIsOn pid isi ok =>
    (embeddingIsOn = true → ok = true ∨ ∃ u ∈ s.users, u.parent = .fe ∧ u.pid = pid) ∧
    ∀ a, s.fe = some a → (∀ u ∈ s.users, u.bbf ≠ a.bbf ∧ u.parent ≠ .ofBbf a.bbf) ∨
      embeddingIsOn = true ∧ a.pid = pid ∧ a.key = bbfKey isi ∧ ∃ u ∈ s.users, u.bbf = a.bbf
  | _ => True

theorem Reckoned.source_pos (h : Reckoned s) : 0 < (s.demux.feeds s.demux.source).refcount := by
  obtain ⟨⟨live, hacc⟩, hfe, -⟩ := h
  rw [DvbDemux.source, hfe]
  rcases hs : s.fe with _ | a
  · rw [Option.map_none, hacc.feedsCount]
    exact Nat.lt_of_lt_of_le Nat.zero_lt_one (Nat.le_add_right ..)
  · rw [Option.map_some]
    have ha : a ∈ s.outstanding :=
      List.mem_append_right _ (by rw [hs]; exact List.mem_singleton.mpr rfl)
    exact hacc.own_feeds_pos ha

/-- A container nobody refers to any more. -/
theorem Accounted.feeds_zero (h : Accounted demux out live none)
    (hnobody : ∀ u ∈ out, u.bbf ≠ b ∧ u.parent ≠ .ofBbf b) :
    (demux.feeds (.ofBbf b)).refcount = 0 := by
  have hbbf : (demux.bbfs b).refcount = 0 := by
    rw [h.bbfCount]
    exact tally_eq_zero.mpr fun u hu => (hnobody u hu).1
  have hembs : tally (fun e => (demux.embs e).parentFeeds) live (.ofBbf b) = 0 := by
    refine tally_eq_zero.mpr fun e he hparent => ?_
    obtain ⟨u, hu, rfl⟩ := h.emb_user ((h.liveIff e).mp he) nofun
    exact (hnobody u hu).2 ((h.records u hu).2.1.symm.trans hparent)
  rw [h.feedsCount, hembs, DvbDemux.base, hbbf]
  rfl

/-- Allocations of users do not touch the flags of what is in use. -/
theorem OneSource.allocate (h : OneSource s) {demux' : DvbDemux} {users : List Alloc}
    (hgrows : Grows s.demux demux') : OneSource ⟨demux', users, s.fe⟩ := by
  have hsource : demux'.source = s.demux.source := by
    rw [DvbDemux.source, hgrows.fe, DvbDemux.source]
  refine ⟨?_, fun f hf => ?_, hgrows.locked.trans h.unlocked⟩
  · dsimp only
    rw [hsource]
    exact (hgrows.kept _ h.inUse).1
  · dsimp only at hf ⊢
    rw [hsource]
    rcases Nat.eq_zero_or_pos (s.demux.feeds f).refcount with hzero | hpos
    · rw [hgrows.added f hzero hf]
      refine iff_of_false Bool.false_ne_true ?_
      rintro rfl
      exact absurd hzero (Nat.ne_of_gt h.inUse)
    · rw [(hgrows.kept f hpos).2]
      exact h.flag f hpos

/-- What a switch starts from, once the old stream of the frontend is given up. -/
theorem OneSource.dropped (h : OneSource s) (hs : Reckoned s) :
    (dropFeStream s.demux).locked = false ∧
    ∀ f, f ≠ .fe → 0 < ((dropFeStream s.demux).feeds f).refcount →
      ((dropFeStream s.demux).feeds f).includeDefaultFeeds = true →
      ∃ a, s.fe = some a ∧ f = .ofBbf a.bbf := by
  rw [dropFeStream, hs.fe]
  rcases hfe : s.fe with _ | a
  · refine ⟨h.unlocked, fun f hne hpos hflag => absurd ((h.flag f hpos).mp hflag) ?_⟩
    rw [DvbDemux.source, hs.fe, hfe]
    exact hne
  · have hshrinks : Shrinks s.demux (bbframesStreamRelease s.demux a.bbf) :=
      bbframesStreamRelease_shrinks
    refine ⟨hshrinks.locked.trans h.unlocked, fun f hne hpos hflag => ⟨a, rfl, ?_⟩⟩
    dsimp only [Option.map_some] at hpos hflag
    rw [setInclude_feeds, if_neg hne] at hpos hflag
    have hbefore := Nat.lt_of_lt_of_le hpos (hshrinks.fewer f)
    have hsource := (h.flag f hbefore).mp ((hshrinks.flag f).symm.trans hflag)
    rw [hsource, DvbDemux.source, hs.fe, hfe]
    rfl

/-- A switch leaves one source. -/
theorem OneSource.setState (h : OneSource s) (hs : Reckoned s) {embeddingIsOn : Bool} {pid isi : ℤ}
    {ok : Bool} (halone : s.SwitchesAlone (.setBbframesState embeddingIsOn pid isi ok)) :
    OneSource (s.next (.setBbframesState embeddingIsOn pid isi ok)) := by
  have hinUse := (hs.setState embeddingIsOn pid isi ok).source_pos
  obtain ⟨⟨live, hacc⟩, hnone, -⟩ := hs.dropFe
  have hout : (⟨dropFeStream s.demux, s.users, none⟩ : Shared).outstanding = s.users :=
    List.append_nil _
  rw [hout] at hacc
  obtain ⟨hunlocked, hflags⟩ := h.dropped hs
  obtain ⟨hmemory, hold⟩ := halone
  rcases hs.setState_cases embeddingIsOn pid isi ok with
    ⟨hoff, heq⟩ | ⟨hon, hok, hfree, -⟩ | ⟨hon, demux', b, live', hacc', hgrows, heq⟩
  · rw [heq] at hinUse ⊢
    refine ⟨hinUse, fun f hf => ?_, hunlocked⟩
    have hsource : ((dropFeStream s.demux).setInclude .fe true).source = .fe := by
      rw [DvbDemux.source, show ((dropFeStream s.demux).setInclude .fe true).feBbframesStream =
        none from hnone]
    dsimp only at hf ⊢
    rw [(setInclude_links true).2] at hf
    rw [hsource, setInclude_feeds]
    rcases eq_or_ne f .fe with rfl | hne
    · rw [if_pos rfl]
      exact iff_of_true rfl rfl
    · rw [if_neg hne]
      refine iff_of_false (fun hflag => ?_) hne
      obtain ⟨a, ha, rfl⟩ := hflags f hne hf hflag
      rcases hold a ha with hnobody | ⟨hon, -⟩
      · rw [hacc.feeds_zero hnobody] at hf
        exact absurd hf (Nat.lt_irrefl 0)
      · exact absurd (hoff.symm.trans hon) Bool.false_ne_true
  · -- there is memory, or the embedded stream is there already
    rcases hmemory hon with hyes | ⟨u, hu, hparent, hpid⟩
    · exact absurd (hok.symm.trans hyes) Bool.false_ne_true
    · have hfound := (hacc.registered hu).1
      rw [hparent, hpid, hfree] at hfound
      cases hfound
  · rw [heq] at hinUse ⊢
    refine ⟨hinUse, fun f hf => ?_, hgrows.locked.trans hunlocked⟩
    dsimp only at hf ⊢
    rw [(setInclude_links false).2, (setInclude_links true).2] at hf
    rw [setInclude_feeds]
    rcases eq_or_ne f .fe with rfl | hne
    · rw [if_pos rfl]
      exact iff_of_false Bool.false_ne_true nofun
    · rw [if_neg hne, setInclude_feeds]
      rcases eq_or_ne f (.ofBbf b) with rfl | hother
      · rw [if_pos rfl]
        exact iff_of_true rfl rfl
      · rw [if_neg hother]
        refine iff_of_false (fun hflag => ?_) hother
        rcases Nat.eq_zero_or_pos ((dropFeStream s.demux).feeds f).refcount with hzero | hpos
        · exact absurd ((hgrows.added f hzero hf).symm.trans hflag) Bool.false_ne_true
        · have hflag' := (hgrows.kept f hpos).2.symm.trans hflag
          obtain ⟨a, ha, rfl⟩ := hflags f hne hpos hflag'
          rcases hold a ha with hnobody | ⟨-, hpid, hkey, u, hu, hsame⟩
          · rw [hacc.feeds_zero hnobody] at hpos
            exact absurd hpos (Nat.lt_irrefl 0)
          · -- the stream that is allocated is the old one
            refine hother (congrArg FeedsNo.ofBbf ?_)
            have hnew := (hacc'.same_bbf List.mem_cons_self (List.mem_cons_of_mem _ hu)).mpr
            obtain ⟨⟨_, haccBefore⟩, -, hfeParent⟩ := hs
            have hmem : a ∈ s.outstanding :=
              List.mem_append_right _ (by rw [ha]; exact List.mem_singleton.mpr rfl)
            obtain ⟨hparent', hpid', hkey'⟩ :=
              (haccBefore.same_bbf hmem (List.mem_append_left _ hu)).mp hsame
            exact hsame.symm.trans (hnew ⟨hparent'.trans (hfeParent a ha), hpid'.trans hpid,
              hkey'.trans hkey⟩)

theorem OneSource.release (h : OneSource s) (hs : Reckoned s) (ha : a ∈ s.users) :
    OneSource (s.next (.release a)) := by
  have hinUse := (hs.release ha).source_pos
  have hshrinks : Shrinks s.demux (bbframesStreamRelease s.demux a.bbf) :=
    bbframesStreamRelease_shrinks
  refine ⟨hinUse, fun f hf => ?_, hshrinks.locked.trans h.unlocked⟩
  have hsource : (s.next (.release a)).demux.source = s.demux.source := by
    rw [Shared.next, DvbDemux.source, hshrinks.fe, DvbDemux.source]
  have hbefore := Nat.lt_of_lt_of_le hf (hshrinks.fewer f)
  rw [hsource]
  exact (Bool.eq_iff_iff.mp (hshrinks.flag f)).trans (h.flag f hbefore)

theorem oneSource_init : OneSource ⟨dvbDmxInit, [], none⟩ := by
  refine ⟨Nat.zero_lt_one, fun f hf => ?_, rfl⟩
  cases f with
  | fe => exact iff_of_true rfl rfl
  | default => exact iff_of_false Bool.false_ne_true nofun
  | ofBbf b => exact absurd hf (Nat.lt_irrefl 0)

theorem one_source_of_default_feeds {s : Shared} (hrun : Run Shared.SwitchesAlone s) :
    OneSource s := by
  induction hrun with
  | init => exact oneSource_init
  | @step s r hrun _ hr halone ih =>
    have hs := hrun.reckoned
    cases r with
    | allocate type pid isi named ok =>
      obtain ⟨⟨live, hacc⟩, -⟩ := hs
      have hpos := hrun.reckoned.parent_pos (Shared.Allowed.held hr)
      rw [Shared.next]
      rcases hacc.allocateStream hpos pid isi ok with ⟨heq, -⟩ | ⟨demux', b, _, heq, -, hgrows⟩
      · rw [heq]
        exact ih
      · rw [heq]
        exact ih.allocate hgrows
    | release a => exact ih.release hs hr
    | setBbframesState embeddingIsOn pid isi ok => exact ih.setState hs halone
    | interrupted => exact ih

/-- A user takes the stream that the frontend has, and it is switched to itself and then on. -/
theorem one_source_of_default_feeds_switch :
    OneSource ((((((⟨dvbDmxInit, [], none⟩ : Shared).next (.setBbframesState true 270 5 true)).next
      (.allocate .stid 270 5 none true)).next (.setBbframesState true 270 5 false)).next
        (.release ⟨.fe, 270, 5, 0⟩)).next (.setBbframesState false 0 0 true)) := by
  refine one_source_of_default_feeds (.step _ (.step _ (.step _ (.step _ (.step _ .init rfl trivial ?_)
    rfl nofun trivial) rfl trivial ?_) rfl ?_ trivial) rfl trivial ?_)
  · exact ⟨fun _ => Or.inl rfl, nofun⟩
  · refine ⟨fun _ => Or.inr ⟨⟨.fe, 270, 5, 0⟩, List.mem_singleton.mpr rfl, rfl, rfl⟩, ?_⟩
    rintro a ha
    cases ha
    exact Or.inr ⟨rfl, rfl, rfl, ⟨.fe, 270, 5, 0⟩, List.mem_singleton.mpr rfl, rfl⟩
  · exact List.mem_singleton.mpr rfl
  · refine ⟨nofun, ?_⟩
    rintro a ha
    cases ha
    exact Or.inl nofun

/-- A user holds the stream of the frontend when that is switched off. -/
theorem old_source_kept : ¬∀ s, Run (fun _ _ => True) s → OneSource s := by
  intro hall
  have hrun : Run (fun _ _ => True)
      ((((⟨dvbDmxInit, [], none⟩ : Shared).next (.setBbframesState true 270 5 true)).next
        (.allocate .stid 270 5 none true)).next (.setBbframesState false 0 0 true)) :=
    .step _ (.step _ (.step _ .init rfl trivial trivial) rfl nofun trivial) rfl trivial trivial
  have hflag := (hall _ hrun).flag (.ofBbf 0) (by decide)
  have hsource := hflag.mp (by decide)
  exact absurd hsource (by decide)

end Demux

import NeumoDrivers.Demux.Accounting

/-! Runs of allocations and releases.

    Each request keeps the accounts, so that in every run each count is the number of outstanding
    allocations. What a run can go wrong in is the last release of an embedded stream: it drops the
    reference to the parent container before it erases the entry there, and where that was the last
    reference of the container the xarray is gone. -/

namespace Demux
open Function Tally

variable {demux demux' : DvbDemux} {out out' : List Alloc} {live : List EmbNo}
variable {f parent : FeedsNo} {e : EmbNo} {b : BbfNo} {pid : ℤ} {k : ℕ} {a u : Alloc}

theorem Accounted.perm {extra : Option EmbNo} (h : Accounted demux out live extra)
    (hp : out.Perm out') : Accounted demux out' live extra := by
  refine { h with bbfCount := fun b => ?_, embCount := fun e => ?_, records := fun a ha => ?_ }
  · rw [h.bbfCount, tally_perm hp]
  · rw [h.embCount, tally_perm hp]
  · exact h.records a (hp.mem_iff.mpr ha)

/-- An outstanding allocation is found where it was asked for. -/
theorem Accounted.registered (h : Accounted demux out live none) (ha : a ∈ out) :
    (demux.feeds a.parent).embeddedStreams a.pid = some (demux.embOf a) ∧
      (demux.embs (demux.embOf a)).bbfStreams a.key = some a.bbf := by
  obtain ⟨hkey, hparent, hpid⟩ := h.records a ha
  exact ⟨(h.embEntry _ _ _).mpr ⟨h.emb_pos ha, hparent, hpid⟩,
    (h.bbfEntry _ _ _).mpr ⟨h.bbf_pos ha, rfl, hkey⟩⟩

/-- Allocations of one stream agree on where it is. -/
theorem Accounted.same_bbf (h : Accounted demux out live none) (ha : a ∈ out) (hu : u ∈ out) :
    u.bbf = a.bbf ↔ u.parent = a.parent ∧ u.pid = a.pid ∧ u.key = a.key := by
  constructor
  · intro heq
    obtain ⟨hkey, hparent, hpid⟩ := h.records a ha
    obtain ⟨hkey', hparent', hpid'⟩ := h.records u hu
    rw [DvbDemux.embOf, heq] at hparent' hpid'
    rw [heq] at hkey'
    exact ⟨hparent'.symm.trans hparent, hpid'.symm.trans hpid, hkey'.symm.trans hkey⟩
  · rintro ⟨hparent, hpid, hkey⟩
    obtain ⟨hemb, hbbf⟩ := h.registered ha
    obtain ⟨hemb', hbbf'⟩ := h.registered hu
    rw [hparent, hpid, hemb] at hemb'
    rw [hkey, ← Option.some.inj hemb', hbbf] at hbbf'
    exact (Option.some.inj hbbf').symm

/-- An embedded stream in use has an allocation, unless it is being allocated or released. -/
theorem Accounted.emb_user {extra : Option EmbNo} (h : Accounted demux out live extra)
    (he : 0 < (demux.embs e).refcount) (hne : extra ≠ some e) : ∃ u ∈ out, demux.embOf u = e := by
  rw [h.embCount, if_neg hne] at he
  exact tally_pos.mp he

/-! ### Allocating -/

/-- What an allocation leaves alone: containers in use keep their flag, and a new one has none. -/
structure Grows (demux demux' : DvbDemux) : Prop where
  fe : demux'.feBbframesStream = demux.feBbframesStream
  used : demux'.usedAfterFree = demux.usedAfterFree
  locked : demux'.locked = demux.locked
  kept : ∀ f, 0 < (demux.feeds f).refcount → 0 < (demux'.feeds f).refcount ∧
    (demux'.feeds f).includeDefaultFeeds = (demux.feeds f).includeDefaultFeeds
  added : ∀ f, (demux.feeds f).refcount = 0 → 0 < (demux'.feeds f).refcount →
    (demux'.feeds f).includeDefaultFeeds = false

theorem Grows.sameFeeds (hfeeds : demux'.feeds = demux.feeds)
    (hfe : demux'.feBbframesStream = demux.feBbframesStream)
    (hused : demux'.usedAfterFree = demux.usedAfterFree) (hlocked : demux'.locked = demux.locked) :
    Grows demux demux' := by
  refine ⟨hfe, hused, hlocked, fun f hf => ?_, fun f hf hf' => ?_⟩
  · rw [hfeeds]
    exact ⟨hf, rfl⟩
  · rw [hfeeds, hf] at hf'
    exact absurd hf' (Nat.lt_irrefl 0)

theorem Grows.trans {demux'' : DvbDemux} (h : Grows demux demux') (h' : Grows demux' demux'') :
    Grows demux demux'' := by
  refine ⟨h'.fe.trans h.fe, h'.used.trans h.used, h'.locked.trans h.locked, fun f hf => ?_,
    fun f hf hf'' => ?_⟩
  · obtain ⟨hpos, hflag⟩ := h.kept f hf
    obtain ⟨hpos', hflag'⟩ := h'.kept f hpos
    exact ⟨hpos', hflag'.trans hflag⟩
  · rcases Nat.eq_zero_or_pos (demux'.feeds f).refcount with hzero | hpos
    · exact h'.added f hzero hf''
    · exact ((h'.kept f hpos).2).trans (h.added f hf hpos)

theorem withNewEmb_grows (hpos : 0 < (demux.feeds parent).refcount) :
    Grows demux (withNewEmb demux pid parent) := by
  refine ⟨rfl, rfl, rfl, fun f hf => ?_, fun f hf hf' => ?_⟩
  · rw [withNewEmb, setFeeds_feeds]
    split
    · rename_i heq
      subst heq
      exact ⟨Nat.succ_pos _, rfl⟩
    · exact ⟨hf, rfl⟩
  · rw [withNewEmb, setFeeds_feeds] at hf'
    split at hf'
    · rename_i heq
      rw [heq] at hf
      exact absurd hf (Nat.ne_of_gt hpos)
    · exact absurd hf (Nat.ne_of_gt hf')

theorem withNewBbf_grows (h : Accounted demux out live (some e)) :
    Grows demux (withNewBbf demux e k) := by
  have hfeeds : ∀ f, (withNewBbf demux e k).feeds f =
      if f = .ofBbf demux.nextBbf then ⟨1, false, fun _ => none⟩ else demux.feeds f :=
    fun f => setFeeds_feeds ..
  refine ⟨rfl, rfl, rfl, fun f hf => ?_, fun f hf hf' => ?_⟩
  · rw [hfeeds]
    split
    · rename_i heq
      rw [heq] at hf
      exact absurd (h.feeds_new hf) (Nat.lt_irrefl _)
    · exact ⟨hf, rfl⟩
  · rw [hfeeds] at hf' ⊢
    split at hf'
    · rename_i heq
      rw [if_pos heq]
    · exact absurd hf (Nat.ne_of_gt hf')

/-- The embedded stream that an allocation refers to. -/
theorem Accounted.findOrAllocEmb (h : Accounted demux out live none)
    (hpos : 0 < (demux.feeds parent).refcount) (pid : ℤ) (ok : Bool) :
    (findOrAllocEmb demux pid parent ok = (demux, none) ∧ ok = false ∧
        (demux.feeds parent).embeddedStreams pid = none) ∨
      ∃ demux' e live', findOrAllocEmb demux pid parent ok = (demux', some e) ∧
        Accounted demux' out live' (some e) ∧ Grows demux demux' ∧
        (demux'.embs e).parentFeeds = parent ∧ (demux'.embs e).embeddingPid = pid := by
  rcases findOrAllocEmb_eq hpos with hnone | ⟨e, he, heq⟩ | ⟨hfree, heq⟩
  · exact Or.inl hnone
  · obtain ⟨hemb, hparent, hpid⟩ := (h.embEntry _ _ _).mp he
    refine Or.inr ⟨_, e, live, heq, h.getEmb hemb, Grows.sameFeeds rfl rfl rfl rfl, ?_⟩
    rw [setEmb_embs, if_pos rfl]
    exact ⟨hparent, hpid⟩
  · have hself : (withNewEmb demux pid parent).embs demux.nextEmb =
        ⟨1, pid, parent, fun _ => none⟩ := (setEmb_embs ..).trans (if_pos rfl)
    refine Or.inr ⟨_, _, _, heq, h.newEmb hpos hfree, withNewEmb_grows hpos, ?_⟩
    rw [hself]
    exact ⟨rfl, rfl⟩

/-- The stream of BBFRAMEs that an allocation returns. -/
theorem Accounted.findOrAllocBbf (h : Accounted demux out live (some e))
    (hrec : (demux.embs e).parentFeeds = parent ∧ (demux.embs e).embeddingPid = pid) (isi : ℤ) :
    ∃ demux' b, findOrAllocBbfStream demux e isi = (demux', b) ∧
      Accounted demux' (⟨parent, pid, bbfKey isi, b⟩ :: out) live none ∧ Grows demux demux' := by
  have hcount := h.embCount e
  rw [if_pos rfl] at hcount
  have hpos : 0 < (demux.embs e).refcount := hcount ▸ Nat.succ_pos _
  rw [findOrAllocBbfStream, touchEmb_of_pos hpos]
  dsimp only
  rcases hload : (demux.embs e).bbfStreams (bbfKey isi) with _ | b
  · exact ⟨_, _, rfl, h.newBbf (bbfKey_bbfKey isi) hload hrec, withNewBbf_grows h⟩
  · obtain ⟨hb, hparent, hkey⟩ := (h.bbfEntry _ _ _).mp hload
    exact ⟨_, _, rfl, h.getBbf hb hparent ⟨hkey, hrec⟩, Grows.sameFeeds rfl rfl rfl rfl⟩

/-- An allocation fails for want of memory alone, and leaves the demux as it was. -/
theorem Accounted.allocateStream (h : Accounted demux out live none)
    (hpos : 0 < (demux.feeds parent).refcount) (pid isi : ℤ) (ok : Bool) :
    (allocateStream demux pid isi parent ok = (demux, none) ∧ ok = false ∧
        (demux.feeds parent).embeddedStreams pid = none) ∨
      ∃ demux' b live', allocateStream demux pid isi parent ok = (demux', some b) ∧
        Accounted demux' (⟨parent, pid, bbfKey isi, b⟩ :: out) live' none ∧ Grows demux demux' := by
  rw [Demux.allocateStream]
  rcases h.findOrAllocEmb hpos pid ok with
    ⟨heq, hnone⟩ | ⟨demux₁, e, live₁, heq, h₁, hgrows₁, hrec⟩
  · rw [heq]
    exact Or.inl ⟨rfl, hnone⟩
  · obtain ⟨demux₂, b, heq₂, h₂, hgrows₂⟩ := h₁.findOrAllocBbf hrec isi
    rw [heq]
    dsimp only
    rw [heq₂]
    exact Or.inr ⟨demux₂, b, live₁, rfl, h₂, hgrows₁.trans hgrows₂⟩

/-! ### Releasing -/

/-- What a release leaves alone. -/
structure Shrinks (demux demux' : DvbDemux) : Prop where
  fe : demux'.feBbframesStream = demux.feBbframesStream
  locked : demux'.locked = demux.locked
  flag : ∀ f, (demux'.feeds f).includeDefaultFeeds = (demux.feeds f).includeDefaultFeeds
  fewer : ∀ f, (demux'.feeds f).refcount ≤ (demux.feeds f).refcount

theorem Shrinks.trans {demux'' : DvbDemux} (h : Shrinks demux demux')
    (h' : Shrinks demux' demux'') : Shrinks demux demux'' :=
  ⟨h'.fe.trans h.fe, h'.locked.trans h.locked, fun f => (h'.flag f).trans (h.flag f),
    fun f => Nat.le_trans (h'.fewer f) (h.fewer f)⟩

theorem putFeeds_feeds : (putFeeds demux parent).feeds f =
    if f = parent then { demux.feeds parent with refcount := (demux.feeds parent).refcount - 1 }
    else demux.feeds f := setFeeds_feeds ..

theorem putFeeds_shrinks (parent : FeedsNo) : Shrinks demux (putFeeds demux parent) := by
  refine ⟨rfl, rfl, fun f => ?_, fun f => ?_⟩
  · rw [putFeeds_feeds]
    split
    · rename_i hf
      rw [hf]
    · rfl
  · rw [putFeeds_feeds]
    split
    · rename_i hf
      rw [hf]
      exact Nat.sub_le ..
    · exact Nat.le_refl _

theorem putBbf_shrinks : Shrinks demux (putBbf demux b) := by
  rw [putBbf]
  split
  · exact ⟨rfl, rfl, (putFeeds_shrinks (.ofBbf b)).flag, (putFeeds_shrinks (.ofBbf b)).fewer⟩
  · exact ⟨rfl, rfl, fun _ => rfl, fun _ => Nat.le_refl _⟩

theorem lastRelease_feeds : (embeddedStreamRelease_ demux e).feeds f =
    if f = (demux.embs e).parentFeeds then
      let feeds := (putFeeds demux (demux.embs e).parentFeeds).feeds f
      { feeds with embeddedStreams := update feeds.embeddedStreams (demux.embs e).embeddingPid none }
    else (putFeeds demux (demux.embs e).parentFeeds).feeds f := by
  rw [embeddedStreamRelease_, setFeeds_feeds]
  split
  · rename_i hf
    rw [hf]
    rfl
  · rfl

theorem lastRelease_used : (embeddedStreamRelease_ demux e).usedAfterFree =
    (demux.usedAfterFree || (demux.feeds (demux.embs e).parentFeeds).refcount - 1 == 0) := by
  have hput : ((putFeeds demux (demux.embs e).parentFeeds).feeds
      (demux.embs e).parentFeeds).refcount =
      (demux.feeds (demux.embs e).parentFeeds).refcount - 1 := by rw [putFeeds_feeds, if_pos rfl]
  rw [← hput]
  rfl

theorem embeddedStreamRelease_shrinks : Shrinks demux (embeddedStreamRelease demux e) := by
  rw [embeddedStreamRelease]
  split
  · refine Shrinks.trans (putFeeds_shrinks (demux.embs e).parentFeeds)
      ⟨rfl, rfl, fun f => ?_, fun f => ?_⟩
    · rw [lastRelease_feeds]
      simp only [setEmb_embs, if_true]
      split <;> rfl
    · rw [lastRelease_feeds]
      simp only [setEmb_embs, if_true]
      split <;> exact Nat.le_refl _
  · exact ⟨rfl, rfl, fun _ => rfl, fun _ => Nat.le_refl _⟩

theorem bbframesStreamRelease_shrinks : Shrinks demux (bbframesStreamRelease demux b) :=
  putBbf_shrinks.trans embeddedStreamRelease_shrinks

/-- A container is still referred to when one embedded stream in it goes: it is one of the fixed
    ones, its own stream is held, or there is another embedded stream in it. -/
def FeedsNo.Held (f : FeedsNo) (out : List Alloc) : Prop :=
  (∀ b, f ≠ .ofBbf b) ∨ ∃ u ∈ out, .ofBbf u.bbf = f ∨ u.parent = f

/-- The references to the parent container of an embedded stream that has no allocations left. -/
theorem Accounted.held_iff (h : Accounted demux out live (some e))
    (hlast : (demux.embs e).refcount = 1) :
    (demux.embs e).parentFeeds.Held out ↔
      1 < (demux.feeds (demux.embs e).parentFeeds).refcount := by
  have hlive : e ∈ live := (h.liveIff e).mpr (by rw [hlast]; exact Nat.zero_lt_one)
  have hunused : tally demux.embOf out e = 0 := by
    have hcount := h.embCount e
    rw [if_pos rfl, hlast] at hcount
    exact (Nat.succ.inj hcount).symm
  generalize hf : (demux.embs e).parentFeeds = f
  have hcount : (demux.feeds f).refcount = demux.base f +
      tally (fun e => (demux.embs e).parentFeeds) (live.erase e) f + 1 := by
    rw [h.feedsCount, tally_erase hlive, if_pos hf, Nat.add_assoc]
  have hrest : (∃ u ∈ out, u.parent = f) →
      0 < tally (fun e => (demux.embs e).parentFeeds) (live.erase e) f := by
    rintro ⟨u, hu, hparent⟩
    refine tally_pos.mpr ⟨demux.embOf u, ?_, (h.records u hu).2.1.trans hparent⟩
    have hne : demux.embOf u ≠ e := tally_eq_zero.mp hunused u hu
    exact (h.nodup.mem_erase_iff).mpr ⟨hne, (h.liveIff _).mpr (h.emb_pos hu)⟩
  constructor
  · rintro (hfixed | ⟨u, hu, hown | hparent⟩)
    · have hbase : demux.base f = 1 := by
        cases f with
        | ofBbf b => exact absurd rfl (hfixed b)
        | _ => rfl
      omega
    · have hbase : demux.base f = 1 := by
        rw [← hown, DvbDemux.base, if_pos (h.bbf_pos hu)]
      omega
    · have hpos := hrest ⟨u, hu, hparent⟩
      omega
  · intro hmore
    by_contra hnone
    rw [FeedsNo.Held, not_or, not_exists] at hnone
    obtain ⟨hbbf, hnobody⟩ := hnone
    rw [not_forall] at hbbf
    obtain ⟨b, hb⟩ := hbbf
    rw [not_not] at hb
    subst hb
    have hbase : demux.base (.ofBbf b) = 0 := by
      rw [DvbDemux.base, if_neg]
      intro hpos
      rw [h.bbfCount] at hpos
      obtain ⟨u, hu, rfl⟩ := tally_pos.mp hpos
      exact hnobody u ⟨hu, Or.inl rfl⟩
    have hempty : tally (fun e => (demux.embs e).parentFeeds) (live.erase e) (.ofBbf b) = 0 := by
      refine tally_eq_zero.mpr fun e' he' hparent => ?_
      obtain ⟨hne, hmem⟩ := (h.nodup.mem_erase_iff).mp he'
      obtain ⟨u, hu, rfl⟩ := h.emb_user ((h.liveIff e').mp hmem)
        fun heq => hne (Option.some.inj heq).symm
      exact hnobody u ⟨hu, Or.inr ((h.records u hu).2.1.symm.trans hparent)⟩
    omega

theorem putBbf_used (h : Accounted demux out live none) (ha : a ∈ out) :
    (putBbf demux a.bbf).usedAfterFree = demux.usedAfterFree := by
  have hne : ((demux.embs (demux.embOf a)).refcount == 0) = false :=
    beq_false_of_ne (Nat.ne_of_gt (h.emb_pos ha))
  rw [putBbf]
  simp only [setBbf_bbfs, if_true]
  split
  · rw [bbframesStreamRelease_]
    simp only [setBbf_bbfs, if_true]
    exact (congrArg (demux.usedAfterFree || ·) hne).trans (Bool.or_false _)
  · rfl

theorem putBbf_links : ((putBbf demux b).embs e).refcount = (demux.embs e).refcount ∧
    ((putBbf demux b).embs e).parentFeeds = (demux.embs e).parentFeeds := by
  rw [putBbf]
  split
  · rw [bbframesStreamRelease_, setEmb_embs]
    split
    · rename_i he
      rw [he]
      exact ⟨rfl, rfl⟩
    · exact ⟨rfl, rfl⟩
  · exact ⟨rfl, rfl⟩

/-- The last release of an embedded stream uses its parent container, whose count it has dropped. -/
theorem embeddedStreamRelease_used (h : Accounted demux out live (some e)) :
    (embeddedStreamRelease demux e).usedAfterFree = true ↔ demux.usedAfterFree = true ∨
      (demux.embs e).refcount = 1 ∧ ¬(demux.embs e).parentFeeds.Held out := by
  have hcount := h.embCount e
  rw [if_pos rfl] at hcount
  have hpos : 0 < (demux.embs e).refcount := hcount ▸ Nat.succ_pos _
  have hparent := h.feeds_pos hpos
  rw [embeddedStreamRelease]
  simp only [setEmb_embs, if_true]
  split
  · rename_i hlast
    have hone : (demux.embs e).refcount = 1 := by omega
    rw [h.held_iff hone]
    rw [lastRelease_used]
    simp only [setEmb_embs, setEmb_feeds, if_true]
    rw [Bool.or_eq_true, beq_iff_eq]
    constructor
    · rintro (hbefore | hzero)
      · exact Or.inl hbefore
      · exact Or.inr ⟨hone, by omega⟩
    · rintro (hbefore | ⟨-, hfew⟩)
      · exact Or.inl hbefore
      · exact Or.inr (by omega)
  · rename_i hmore
    constructor
    · intro hbefore
      exact Or.inl hbefore
    · rintro (hbefore | ⟨hone, -⟩)
      · exact hbefore
      · exact absurd (by omega) hmore

/-- One allocation fewer. -/
theorem Accounted.release (h : Accounted demux out live none) (ha : a ∈ out) :
    ∃ live, Accounted (bbframesStreamRelease demux a.bbf) (out.erase a) live none :=
  (h.putBbf ha).putEmb

/-- Exactly the releases that use what is freed. -/
theorem release_used (h : Accounted demux out live none) (ha : a ∈ out) :
    (bbframesStreamRelease demux a.bbf).usedAfterFree = true ↔
      demux.usedAfterFree = true ∨ ¬a.parent.Held (out.erase a) := by
  have hput := h.putBbf ha
  have hparent : ((putBbf demux a.bbf).embs (demux.embOf a)).parentFeeds = a.parent :=
    putBbf_links.2.trans (h.records a ha).2.1
  have hused := embeddedStreamRelease_used hput
  rw [putBbf_used h ha, hparent] at hused
  refine hused.trans (or_congr_right (and_iff_right_of_imp fun hnone => ?_))
  -- another allocation on the embedded stream would hold its parent
  have hcount := hput.embCount (demux.embOf a)
  rw [if_pos rfl] at hcount
  rw [hcount, Nat.succ_inj, tally_eq_zero]
  intro u hu heq
  have hparent' := (hput.records u hu).2.1
  rw [heq, hparent] at hparent'
  exact hnone (Or.inr ⟨u, hu, Or.inr hparent'.symm⟩)

/-! ### The stream of the frontend -/

def Shared.outstanding (s : Shared) : List Alloc := s.users ++ s.fe.toList

/-- The accounts of the users and the frontend are right. -/
structure Reckoned (s : Shared) : Prop where
  accounted : ∃ live, Accounted s.demux s.outstanding live none
  fe : s.demux.feBbframesStream = s.fe.map Alloc.bbf
  feParent : ∀ a, s.fe = some a → a.parent = .fe

/-- Marks on a demux that no count or link depends on. -/
theorem Accounted.marked (h : Accounted demux out live none)
    (hfeeds : ∀ f, (demux'.feeds f).embeddedStreams = (demux.feeds f).embeddedStreams ∧
      (demux'.feeds f).refcount = (demux.feeds f).refcount)
    (hembs : demux'.embs = demux.embs) (hbbfs : demux'.bbfs = demux.bbfs)
    (hnextEmb : demux'.nextEmb = demux.nextEmb) (hnextBbf : demux'.nextBbf = demux.nextBbf) :
    Accounted demux' out live none := by
  have hlinks : SameLinks demux demux' := by
    refine ⟨hfeeds, fun e => ?_, fun b => ?_, hnextEmb, hnextBbf⟩
    · rw [hembs]
      exact ⟨rfl, rfl, rfl, Iff.rfl⟩
    · rw [hbbfs]
      exact ⟨rfl, rfl, Iff.rfl⟩
  refine h.sameLinks hlinks (fun b => ?_) (fun e => ?_) h.records
  · rw [hbbfs]
    exact h.bbfCount b
  · rw [hembs]
    exact h.embCount e

theorem setInclude_feeds (yes : Bool) : (demux.setInclude parent yes).feeds f =
    if f = parent then { demux.feeds parent with includeDefaultFeeds := yes } else demux.feeds f :=
  setFeeds_feeds ..

theorem setInclude_links (yes : Bool) :
    ((demux.setInclude parent yes).feeds f).embeddedStreams = (demux.feeds f).embeddedStreams ∧
      ((demux.setInclude parent yes).feeds f).refcount = (demux.feeds f).refcount := by
  rw [setInclude_feeds]
  split
  · rename_i hf
    rw [hf]
    exact ⟨rfl, rfl⟩
  · exact ⟨rfl, rfl⟩

theorem Accounted.setInclude (h : Accounted demux out live none) (yes : Bool) :
    Accounted (demux.setInclude f yes) out live none :=
  h.marked (fun _ => setInclude_links yes) rfl rfl rfl rfl

theorem Accounted.setFeBbframesStream (h : Accounted demux out live none) (x : Option BbfNo) :
    Accounted { demux with feBbframesStream := x } out live none :=
  h.marked (fun _ => ⟨rfl, rfl⟩) rfl rfl rfl rfl

theorem Reckoned.dropFe {s : Shared} (h : Reckoned s) :
    Reckoned ⟨dropFeStream s.demux, s.users, none⟩ := by
  obtain ⟨⟨live, hacc⟩, hfe, -⟩ := h
  rw [Demux.dropFeStream, hfe]
  rcases hs : s.fe with _ | a
  · rw [hs] at hfe
    refine ⟨⟨live, ?_⟩, hfe, nofun⟩
    rw [Shared.outstanding, hs] at hacc
    exact hacc
  · have hout : s.outstanding = s.users ++ [a] := by rw [Shared.outstanding, hs]; rfl
    rw [hout] at hacc
    obtain ⟨live', hacc'⟩ := hacc.release (List.mem_append_right _ (List.mem_singleton.mpr rfl))
    have hperm : ((s.users ++ [a]).erase a).Perm (s.users ++ []) := by
      rw [List.append_nil]
      exact ((List.perm_append_singleton a s.users).erase a).trans
        (by rw [List.erase_cons_head])
    exact ⟨⟨live', ((hacc'.perm hperm).setFeBbframesStream none).setInclude true⟩, rfl, nofun⟩

/-- The containers that callers may name are in use. -/
theorem Reckoned.parent_pos {s : Shared} (h : Reckoned s)
    (hparent : ∀ b, parent = .ofBbf b → ∃ a ∈ s.users, a.bbf = b) :
    0 < (s.demux.feeds parent).refcount := by
  obtain ⟨⟨live, hacc⟩, -⟩ := h
  cases parent with
  | ofBbf b =>
    obtain ⟨a, ha, rfl⟩ := hparent b rfl
    exact hacc.own_feeds_pos (List.mem_append_left _ ha)
  | _ =>
    rw [hacc.feedsCount]
    exact Nat.lt_of_lt_of_le Nat.zero_lt_one (Nat.le_add_right ..)

/-- What a switch can do: without embedding, without memory, and with a stream of its own. -/
theorem Reckoned.setState_cases {s : Shared} (h : Reckoned s) (embeddingIsOn : Bool)
    (pid isi : ℤ) (ok : Bool) :
    (embeddingIsOn = false ∧ s.next (.setBbframesState embeddingIsOn pid isi ok) =
        ⟨(dropFeStream s.demux).setInclude .fe true, s.users, none⟩) ∨
      (embeddingIsOn = true ∧ ok = false ∧
        ((dropFeStream s.demux).feeds .fe).embeddedStreams pid = none ∧
        s.next (.setBbframesState embeddingIsOn pid isi ok) =
          ⟨{ dropFeStream s.demux with locked := true }, s.users, none⟩) ∨
      embeddingIsOn = true ∧ ∃ demux' b live',
        Accounted demux' (⟨.fe, pid, bbfKey isi, b⟩ :: s.users) live' none ∧
        Grows (dropFeStream s.demux) demux' ∧
        s.next (.setBbframesState embeddingIsOn pid isi ok) =
          ⟨({ demux' with feBbframesStream := some b }.setInclude (.ofBbf b) true).setInclude .fe
            false, s.users, some ⟨.fe, pid, bbfKey isi, b⟩⟩ := by
  have hpos : 0 < ((dropFeStream s.demux).feeds .fe).refcount := h.dropFe.parent_pos nofun
  obtain ⟨⟨live, hacc⟩, hnone, -⟩ := h.dropFe
  have hout : (⟨dropFeStream s.demux, s.users, none⟩ : Shared).outstanding = s.users :=
    List.append_nil _
  rw [hout] at hacc
  have hmap : (dropFeStream s.demux).feBbframesStream.map
      (fun b => (⟨.fe, pid, bbfKey isi, b⟩ : Alloc)) = none := congrArg _ hnone
  rw [Shared.next, Demux.setBbframesState]
  cases embeddingIsOn with
  | false =>
    refine Or.inl ⟨rfl, ?_⟩
    exact congrArg (Shared.mk ((dropFeStream s.demux).setInclude .fe true) s.users) hmap
  | true =>
    refine Or.inr ?_
    simp only [if_true]
    rcases hacc.allocateStream hpos pid isi ok with
      ⟨heq, hok, hfree⟩ | ⟨demux', b, live', heq, hacc', hgrows⟩
    · rw [heq]
      refine Or.inl ⟨trivial, hok, hfree, ?_⟩
      exact congrArg (Shared.mk { dropFeStream s.demux with locked := true } s.users) hmap
    · rw [heq]
      exact Or.inr ⟨trivial, demux', b, live', hacc', hgrows, rfl⟩

theorem Reckoned.setState {s : Shared} (h : Reckoned s) (embeddingIsOn : Bool) (pid isi : ℤ)
    (ok : Bool) : Reckoned (s.next (.setBbframesState embeddingIsOn pid isi ok)) := by
  obtain ⟨⟨live, hacc⟩, hnone, -⟩ := h.dropFe
  rcases h.setState_cases embeddingIsOn pid isi ok with
    ⟨-, heq⟩ | ⟨-, -, -, heq⟩ | ⟨-, demux', b, live', hacc', -, heq⟩
  · rw [heq]
    exact ⟨⟨live, hacc.setInclude true⟩, hnone, nofun⟩
  · rw [heq]
    exact ⟨⟨live, hacc.marked (fun _ => ⟨rfl, rfl⟩) rfl rfl rfl rfl⟩, hnone, nofun⟩
  · rw [heq]
    have hperm : (⟨.fe, pid, bbfKey isi, b⟩ :: s.users).Perm
        (s.users ++ [⟨.fe, pid, bbfKey isi, b⟩]) := (List.perm_append_singleton ..).symm
    refine ⟨⟨live', (((hacc'.perm hperm).setFeBbframesStream (some b)).setInclude true).setInclude
      false⟩, rfl, ?_⟩
    intro a ha
    rw [← Option.some.inj ha]

/-- The container an allocation is made in. -/
theorem Shared.Allowed.held {s : Shared} {type : EmbeddedStreamType} {pid isi : ℤ}
    {named : Option FeedsNo} {ok : Bool} (hr : s.Allowed (.allocate type pid isi named ok)) :
    ∀ b, named.getD type.parent = .ofBbf b → ∃ a ∈ s.users, a.bbf = b := by
  intro b hb
  cases named with
  | none => cases type <;> cases hb
  | some f => exact hr b (congrArg some hb)

theorem Reckoned.allocate {s : Shared} (h : Reckoned s) {type : EmbeddedStreamType} {pid isi : ℤ}
    {named : Option FeedsNo} {ok : Bool} (hr : s.Allowed (.allocate type pid isi named ok)) :
    Reckoned (s.next (.allocate type pid isi named ok)) := by
  have hpos := h.parent_pos (Shared.Allowed.held hr)
  obtain ⟨⟨live, hacc⟩, hfe, hfeParent⟩ := h
  rw [Shared.next]
  rcases hacc.allocateStream hpos pid isi ok with
    ⟨heq, -⟩ | ⟨demux', b, live', heq, hacc', hgrows⟩
  · rw [heq]
    exact ⟨⟨live, hacc⟩, hfe, hfeParent⟩
  · rw [heq]
    exact ⟨⟨live', hacc'⟩, hgrows.fe.trans hfe, hfeParent⟩

theorem outstanding_erase {s : Shared} (ha : a ∈ s.users) :
    s.outstanding.erase a = s.users.erase a ++ s.fe.toList := List.erase_append_left _ ha

theorem Reckoned.release {s : Shared} (h : Reckoned s) (ha : a ∈ s.users) :
    Reckoned (s.next (.release a)) := by
  obtain ⟨⟨live, hacc⟩, hfe, hfeParent⟩ := h
  obtain ⟨live', hacc'⟩ := hacc.release (List.mem_append_left _ ha)
  rw [outstanding_erase ha] at hacc'
  exact ⟨⟨live', hacc'⟩, bbframesStreamRelease_shrinks.fe.trans hfe, hfeParent⟩

theorem reckoned_init : Reckoned ⟨dvbDmxInit, [], none⟩ := by
  refine ⟨⟨[], ?_⟩, rfl, nofun⟩
  refine ⟨fun b => rfl, fun e => rfl, fun f => ?_, List.nodup_nil, fun e => ?_, fun f p e => ?_,
    fun e k b => ?_, fun e he => ?_, fun b hb => ?_, fun e b he _ => ?_, nofun⟩
  · cases f <;> rfl
  · exact iff_of_false List.not_mem_nil (Nat.lt_irrefl 0)
  · exact iff_of_false (by rintro ⟨⟩) fun hcon => absurd hcon.1 (Nat.lt_irrefl 0)
  · exact iff_of_false (by rintro ⟨⟩) fun hcon => absurd hcon.1 (Nat.lt_irrefl 0)
  · exact absurd he (Nat.lt_irrefl 0)
  · exact absurd hb (Nat.lt_irrefl 0)
  · exact absurd he (Nat.lt_irrefl 0)

theorem Run.reckoned {Good : Shared → Request → Prop} {s : Shared} (hrun : Run Good s) :
    Reckoned s := by
  induction hrun with
  | init => exact reckoned_init
  | @step s r _ _ hr _ ih =>
    cases r with
    | allocate => exact ih.allocate hr
    | release => exact ih.release hr
    | setBbframesState => exact ih.setState ..
    | interrupted => exact ih

/-! ### The accounts in every run -/

/-- Every count is that of what refers to the thing, what is found is what is in use, and nothing is
    used after its count came to 0. -/
structure Balanced (s : Shared) : Prop where
  embCount : ∀ e, 0 < (s.demux.embs e).refcount → (s.demux.embs e).refcount =
    tally (fun a => (a.parent, a.pid)) s.outstanding
      ((s.demux.embs e).parentFeeds, (s.demux.embs e).embeddingPid)
  bbfCount : ∀ b, 0 < (s.demux.bbfs b).refcount → (s.demux.bbfs b).refcount =
    let emb := s.demux.embs (s.demux.bbfs b).parentEmbeddedStream
    tally (fun a => (a.parent, a.pid, a.key)) s.outstanding
      (emb.parentFeeds, emb.embeddingPid, bbfKey (s.demux.bbfs b).isi)
  feedsCount : ∃ live : List EmbNo, live.Nodup ∧ (∀ e, e ∈ live ↔ 0 < (s.demux.embs e).refcount) ∧
    ∀ f, (s.demux.feeds f).refcount =
      s.demux.base f + tally (fun e => (s.demux.embs e).parentFeeds) live f
  embEntry : ∀ f p e, (s.demux.feeds f).embeddedStreams p = some e ↔
    0 < (s.demux.embs e).refcount ∧ (s.demux.embs e).parentFeeds = f ∧
      (s.demux.embs e).embeddingPid = p
  bbfEntry : ∀ e k b, (s.demux.embs e).bbfStreams k = some b ↔
    0 < (s.demux.bbfs b).refcount ∧ (s.demux.bbfs b).parentEmbeddedStream = e ∧
      bbfKey (s.demux.bbfs b).isi = k
  registered : ∀ a ∈ s.outstanding, ∃ e,
    (s.demux.feeds a.parent).embeddedStreams a.pid = some e ∧
      (s.demux.embs e).bbfStreams a.key = some a.bbf
  used : s.demux.usedAfterFree = false
  drained : s.outstanding = [] → (∀ f p, (s.demux.feeds f).embeddedStreams p = none) ∧
    (∀ e k, (s.demux.embs e).bbfStreams k = none) ∧
    ∀ f, (s.demux.feeds f).refcount = if f = .fe ∨ f = .default then 1 else 0

theorem Accounted.embCount_eq (h : Accounted demux out live none)
    (he : 0 < (demux.embs e).refcount) : (demux.embs e).refcount =
      tally (fun a => (a.parent, a.pid)) out
        ((demux.embs e).parentFeeds, (demux.embs e).embeddingPid) := by
  rw [h.embCount, if_neg nofun, Nat.add_zero]
  refine List.countP_congr fun a ha => ?_
  obtain ⟨-, hparent, hpid⟩ := h.records a ha
  simp only [decide_eq_true_eq, Prod.mk.injEq]
  constructor
  · rintro rfl
    exact ⟨hparent.symm, hpid.symm⟩
  · rintro ⟨hparent', hpid'⟩
    -- one embedded stream on a pid of a container
    have hentry := (h.embEntry _ _ _).mpr ⟨h.emb_pos ha, hparent.trans hparent', hpid.trans hpid'⟩
    have hentry' := (h.embEntry _ _ _).mpr ⟨he, rfl, rfl⟩
    exact Option.some.inj (hentry.symm.trans hentry')

theorem Accounted.bbfCount_eq (h : Accounted demux out live none)
    (hb : 0 < (demux.bbfs b).refcount) : (demux.bbfs b).refcount =
      let emb := demux.embs (demux.bbfs b).parentEmbeddedStream
      tally (fun a => (a.parent, a.pid, a.key)) out
        (emb.parentFeeds, emb.embeddingPid, bbfKey (demux.bbfs b).isi) := by
  have hpos := hb
  rw [h.bbfCount] at hpos
  obtain ⟨u, hu, rfl⟩ := tally_pos.mp hpos
  obtain ⟨hkey, hparent, hpid⟩ := h.records u hu
  rw [DvbDemux.embOf] at hparent hpid
  rw [h.bbfCount]
  dsimp only
  rw [hparent, hpid, hkey]
  refine List.countP_congr fun a ha => ?_
  simp only [decide_eq_true_eq, Prod.mk.injEq]
  exact h.same_bbf hu ha

/-- Without allocations nothing is in use but the fixed containers. -/
theorem Accounted.drained (h : Accounted demux [] live none) :
    (∀ f p, (demux.feeds f).embeddedStreams p = none) ∧
      (∀ e k, (demux.embs e).bbfStreams k = none) ∧
      ∀ f, (demux.feeds f).refcount = if f = .fe ∨ f = .default then 1 else 0 := by
  have hembs : ∀ e, (demux.embs e).refcount = 0 := fun e => h.embCount e
  have hbbfs : ∀ b, (demux.bbfs b).refcount = 0 := fun b => h.bbfCount b
  have hlive : live = [] := by
    refine List.eq_nil_iff_forall_not_mem.mpr fun e he => ?_
    have hpos := (h.liveIff e).mp he
    rw [hembs] at hpos
    exact absurd hpos (Nat.lt_irrefl 0)
  refine ⟨fun f p => ?_, fun e k => ?_, fun f => ?_⟩
  · refine Option.eq_none_iff_forall_ne_some.mpr fun e he => ?_
    have hpos := ((h.embEntry f p e).mp he).1
    rw [hembs] at hpos
    exact absurd hpos (Nat.lt_irrefl 0)
  · refine Option.eq_none_iff_forall_ne_some.mpr fun b hb => ?_
    have hpos := ((h.bbfEntry e k b).mp hb).1
    rw [hbbfs] at hpos
    exact absurd hpos (Nat.lt_irrefl 0)
  · rw [h.feedsCount, hlive, tally_nil]
    cases f with
    | ofBbf b => simp [DvbDemux.base, hbbfs]
    | _ => simp [DvbDemux.base]

/-- Where a release leaves the parent container referred to. -/
def Shared.ParentHeld (s : Shared) : Request → Prop
  | .release a => a.parent.Held (s.users.erase a ++ s.fe.toList)
  | _ => True

theorem dropFeStream_used {s : Shared} (h : Reckoned s) :
    (dropFeStream s.demux).usedAfterFree = s.demux.usedAfterFree := by
  obtain ⟨⟨live, hacc⟩, hfe, hfeParent⟩ := h
  rw [dropFeStream, hfe]
  rcases hs : s.fe with _ | a
  · rfl
  · have ha : a ∈ s.outstanding :=
      List.mem_append_right _ (by rw [hs]; exact List.mem_singleton.mpr rfl)
    have hheld : a.parent.Held (s.outstanding.erase a) := by
      rw [hfeParent a hs]
      exact Or.inl nofun
    have hused := release_used hacc ha
    rw [or_iff_left (not_not.mpr hheld)] at hused
    exact Bool.eq_iff_iff.mpr hused

/-- No request but a release uses what is freed. -/
theorem next_used {s : Shared} (h : Reckoned s) {r : Request} (hr : s.Allowed r)
    (hheld : s.ParentHeld r) : (s.next r).demux.usedAfterFree = s.demux.usedAfterFree := by
  cases r with
  | allocate type pid isi named ok =>
    have hpos := h.parent_pos (Shared.Allowed.held hr)
    obtain ⟨⟨live, hacc⟩, -⟩ := h
    rw [Shared.next]
    rcases hacc.allocateStream hpos pid isi ok with ⟨heq, -⟩ | ⟨demux', b, live', heq, -, hgrows⟩
    · rw [heq]
    · rw [heq]
      exact hgrows.used
  | release a =>
    obtain ⟨⟨live, hacc⟩, -⟩ := h
    have hheld' : a.parent.Held (s.users.erase a ++ s.fe.toList) := hheld
    have hused := release_used hacc (List.mem_append_left _ hr)
    rw [outstanding_erase hr, or_iff_left (not_not.mpr hheld')] at hused
    exact Bool.eq_iff_iff.mpr hused
  | setBbframesState embeddingIsOn pid isi ok =>
    have hdrop := dropFeStream_used h
    rcases h.setState_cases embeddingIsOn pid isi ok with
      ⟨-, heq⟩ | ⟨-, -, -, heq⟩ | ⟨-, demux', b, live', -, hgrows, heq⟩
    · rw [heq]
      exact hdrop
    · rw [heq]
      exact hdrop
    · rw [heq]
      exact hgrows.used.trans hdrop
  | interrupted => rfl

theorem Run.notUsed {s : Shared} (hrun : Run Shared.ParentHeld s) :
    s.demux.usedAfterFree = false := by
  induction hrun with
  | init => rfl
  | step r hrun _ hr hheld ih => exact (next_used hrun.reckoned hr hheld).trans ih

theorem refcounts_balanced {s : Shared} (hrun : Run Shared.ParentHeld s) : Balanced s := by
  obtain ⟨⟨live, hacc⟩, -⟩ := hrun.reckoned
  refine ⟨fun e he => hacc.embCount_eq he, fun b hb => hacc.bbfCount_eq hb,
    ⟨live, hacc.nodup, hacc.liveIff, hacc.feedsCount⟩, hacc.embEntry, hacc.bbfEntry, fun a ha => ?_,
    hrun.notUsed, fun hnone => ?_⟩
  · exact ⟨_, hacc.registered ha⟩
  · rw [hnone] at hacc
    exact hacc.drained

/-- A stream with another one inside it, for which both are asked for. -/
def nestedStreams : Shared :=
  ((⟨dvbDmxInit, [], none⟩ : Shared).next (.allocate .stid 100 5 none true)).next
    (.allocate .t2mi 200 1 (some (.ofBbf 0)) true)

theorem nestedStreams_run {Good : Shared → Request → Prop}
    (hgood : ∀ s type pid isi named ok, Good s (.allocate type pid isi named ok)) :
    Run Good nestedStreams := by
  refine .step _ (.step _ .init rfl nofun (hgood ..)) rfl ?_ (hgood ..)
  intro b hb
  cases hb
  exact ⟨⟨.fe, 100, 5, 0⟩, List.mem_singleton.mpr rfl, rfl⟩

/-- The inner stream is released before the outer one. -/
theorem refcounts_balanced_nested :
    Balanced ((nestedStreams.next (.release ⟨.ofBbf 0, 200, 1, 1⟩)).next
      (.release ⟨.fe, 100, 5, 0⟩)) := by
  refine refcounts_balanced (.step _ (.step _ (nestedStreams_run fun _ _ _ _ _ _ => trivial) rfl
    ?_ ?_) rfl ?_ (Or.inl nofun))
  · exact List.mem_cons_self
  · exact Or.inr ⟨⟨.fe, 100, 5, 0⟩, List.mem_cons_self, Or.inl rfl⟩
  · exact List.mem_cons_self

/-- The outer stream is released before the inner one. -/
theorem outer_released_first : ¬∀ s, Run (fun _ _ => True) s → Balanced s := by
  intro hall
  have hrun : Run (fun _ _ => True) ((nestedStreams.next (.release ⟨.fe, 100, 5, 0⟩)).next
      (.release ⟨.ofBbf 0, 200, 1, 1⟩)) :=
    .step _ (.step _ (nestedStreams_run fun _ _ _ _ _ _ => trivial) rfl
      (List.mem_cons_of_mem _ List.mem_cons_self) trivial) rfl List.mem_cons_self trivial
  have hused := (hall _ hrun).used
  exact absurd hused (by decide)

end Demux

import NeumoDrivers.Lib.Tally
import NeumoDrivers.Demux.Subscriptions

/-! The reference counts of embedded streams.

    `Accounted` says that every count is the number of references to the thing, given the
    allocations that are outstanding and the embedded streams that are in use. Of the four parts of
    an allocation and a release each keeps it, while an embedded stream may have one reference more
    than allocations (`extra`). -/

namespace Demux
open Function Tally

variable {demux demux' : DvbDemux} {out : List Alloc} {live : List EmbNo} {extra : Option EmbNo}
variable {f parent : FeedsNo} {e e' : EmbNo} {b b' : BbfNo} {p pid isi : ℤ} {k : ℕ} {a : Alloc}
variable {ok : Bool}

/-- The references to a container that do not come from embedded streams. -/
def DvbDemux.base (demux : DvbDemux) : FeedsNo → ℕ
  | .ofBbf b => if 0 < (demux.bbfs b).refcount then 1 else 0
  | _ => 1

def DvbDemux.embOf (demux : DvbDemux) (a : Alloc) : EmbNo := (demux.bbfs a.bbf).parentEmbeddedStream

structure Accounted (demux : DvbDemux) (out : List Alloc) (live : List EmbNo)
    (extra : Option EmbNo) : Prop where
  bbfCount : ∀ b, (demux.bbfs b).refcount = tally Alloc.bbf out b
  embCount : ∀ e, (demux.embs e).refcount =
    tally demux.embOf out e + if extra = some e then 1 else 0
  feedsCount : ∀ f, (demux.feeds f).refcount =
    demux.base f + tally (fun e => (demux.embs e).parentFeeds) live f
  nodup : live.Nodup
  liveIff : ∀ e, e ∈ live ↔ 0 < (demux.embs e).refcount
  embEntry : ∀ f p e, (demux.feeds f).embeddedStreams p = some e ↔
    0 < (demux.embs e).refcount ∧ (demux.embs e).parentFeeds = f ∧ (demux.embs e).embeddingPid = p
  bbfEntry : ∀ e k b, (demux.embs e).bbfStreams k = some b ↔
    0 < (demux.bbfs b).refcount ∧ (demux.bbfs b).parentEmbeddedStream = e ∧
      bbfKey (demux.bbfs b).isi = k
  embNew : ∀ e, 0 < (demux.embs e).refcount → e < demux.nextEmb
  bbfNew : ∀ b, 0 < (demux.bbfs b).refcount → b < demux.nextBbf
  parentNew : ∀ e b, 0 < (demux.embs e).refcount → (demux.embs e).parentFeeds = .ofBbf b →
    b < demux.nextBbf
  records : ∀ a ∈ out, bbfKey (demux.bbfs a.bbf).isi = a.key ∧
    (demux.embs (demux.embOf a)).parentFeeds = a.parent ∧
    (demux.embs (demux.embOf a)).embeddingPid = a.pid

/-! ### Looking up and storing -/

section
variable (demux) (f g : FeedsNo) (e e' : EmbNo) (b b' : BbfNo) (x : Feeds) (y : Emb) (z : Bbf)

@[simp] theorem setFeeds_feeds :
    (demux.setFeeds f x).feeds g = if g = f then x else demux.feeds g := update_apply ..

@[simp] theorem setFeeds_embs : (demux.setFeeds f x).embs = demux.embs := rfl

@[simp] theorem setFeeds_bbfs : (demux.setFeeds f x).bbfs = demux.bbfs := rfl

@[simp] theorem setEmb_embs :
    (demux.setEmb e y).embs e' = if e' = e then y else demux.embs e' := update_apply ..

@[simp] theorem setEmb_feeds : (demux.setEmb e y).feeds = demux.feeds := rfl

@[simp] theorem setEmb_bbfs : (demux.setEmb e y).bbfs = demux.bbfs := rfl

@[simp] theorem setBbf_bbfs :
    (demux.setBbf b z).bbfs b' = if b' = b then z else demux.bbfs b' := update_apply ..

@[simp] theorem setBbf_feeds : (demux.setBbf b z).feeds = demux.feeds := rfl

@[simp] theorem setBbf_embs : (demux.setBbf b z).embs = demux.embs := rfl

end

theorem touchFeeds_of_pos (h : 0 < (demux.feeds f).refcount) : demux.touchFeeds f = demux := by
  have hne : ((demux.feeds f).refcount == 0) = false := beq_false_of_ne (Nat.ne_of_gt h)
  rw [DvbDemux.touchFeeds, hne, Bool.or_false]

theorem touchEmb_of_pos (h : 0 < (demux.embs e).refcount) : demux.touchEmb e = demux := by
  have hne : ((demux.embs e).refcount == 0) = false := beq_false_of_ne (Nat.ne_of_gt h)
  rw [DvbDemux.touchEmb, hne, Bool.or_false]

/-! ### What the invariant says -/

theorem Accounted.bbf_pos (h : Accounted demux out live extra) (ha : a ∈ out) :
    0 < (demux.bbfs a.bbf).refcount := by
  rw [h.bbfCount]
  exact tally_pos.mpr ⟨a, ha, rfl⟩

theorem Accounted.emb_pos (h : Accounted demux out live extra) (ha : a ∈ out) :
    0 < (demux.embs (demux.embOf a)).refcount := by
  rw [h.embCount]
  exact Nat.lt_of_lt_of_le (tally_pos.mpr ⟨a, ha, rfl⟩) (Nat.le_add_right ..)

/-- The embedded stream of a stream of BBFRAMEs in use is in use. -/
theorem Accounted.parent_pos (h : Accounted demux out live extra)
    (hb : 0 < (demux.bbfs b).refcount) :
    0 < (demux.embs (demux.bbfs b).parentEmbeddedStream).refcount := by
  rw [h.bbfCount] at hb
  obtain ⟨a, ha, rfl⟩ := tally_pos.mp hb
  exact h.emb_pos ha

/-- So is its parent container. -/
theorem Accounted.feeds_pos (h : Accounted demux out live extra)
    (he : 0 < (demux.embs e).refcount) : 0 < (demux.feeds (demux.embs e).parentFeeds).refcount := by
  rw [h.feedsCount]
  exact Nat.lt_of_lt_of_le (tally_pos.mpr ⟨e, (h.liveIff e).mpr he, rfl⟩) (Nat.le_add_left ..)

theorem Accounted.feeds_new (h : Accounted demux out live extra)
    (hf : 0 < (demux.feeds (.ofBbf b)).refcount) : b < demux.nextBbf := by
  rw [h.feedsCount, DvbDemux.base] at hf
  split at hf
  · rename_i hb
    exact h.bbfNew b hb
  · rw [Nat.zero_add] at hf
    obtain ⟨e, he, hparent⟩ := tally_pos.mp hf
    exact h.parentNew e b ((h.liveIff e).mp he) hparent

theorem Accounted.own_feeds_pos (h : Accounted demux out live extra) (ha : a ∈ out) :
    0 < (demux.feeds (.ofBbf a.bbf)).refcount := by
  rw [h.feedsCount, DvbDemux.base, if_pos (h.bbf_pos ha)]
  exact Nat.lt_of_lt_of_le Nat.zero_lt_one (Nat.le_add_right ..)

/-! ### Counts that change and stay positive -/

/-- Nothing differs but the counts, and none of them comes to 0 or leaves it. -/
structure SameLinks (demux demux' : DvbDemux) : Prop where
  feeds : ∀ f, (demux'.feeds f).embeddedStreams = (demux.feeds f).embeddedStreams ∧
    (demux'.feeds f).refcount = (demux.feeds f).refcount
  embs : ∀ e, (demux'.embs e).parentFeeds = (demux.embs e).parentFeeds ∧
    (demux'.embs e).embeddingPid = (demux.embs e).embeddingPid ∧
    (demux'.embs e).bbfStreams = (demux.embs e).bbfStreams ∧
    (0 < (demux'.embs e).refcount ↔ 0 < (demux.embs e).refcount)
  bbfs : ∀ b, (demux'.bbfs b).parentEmbeddedStream = (demux.bbfs b).parentEmbeddedStream ∧
    (demux'.bbfs b).isi = (demux.bbfs b).isi ∧
    (0 < (demux'.bbfs b).refcount ↔ 0 < (demux.bbfs b).refcount)
  nextEmb : demux'.nextEmb = demux.nextEmb
  nextBbf : demux'.nextBbf = demux.nextBbf

theorem SameLinks.embOf (h : SameLinks demux demux') : demux'.embOf = demux.embOf :=
  funext fun a => (h.bbfs a.bbf).1

theorem SameLinks.base (h : SameLinks demux demux') : demux'.base f = demux.base f := by
  cases f with
  | ofBbf b => simp only [DvbDemux.base, (h.bbfs b).2.2]
  | _ => rfl

theorem Accounted.sameLinks {out' : List Alloc} {extra' : Option EmbNo}
    (h : Accounted demux out live extra) (hl : SameLinks demux demux')
    (hbbf : ∀ b, (demux'.bbfs b).refcount = tally Alloc.bbf out' b)
    (hemb : ∀ e, (demux'.embs e).refcount =
      tally demux.embOf out' e + if extra' = some e then 1 else 0)
    (hrec : ∀ a ∈ out', bbfKey (demux.bbfs a.bbf).isi = a.key ∧
      (demux.embs (demux.embOf a)).parentFeeds = a.parent ∧
      (demux.embs (demux.embOf a)).embeddingPid = a.pid) :
    Accounted demux' out' live extra' := by
  refine ⟨hbbf, fun e => ?_, fun f => ?_, h.nodup, fun e => ?_, fun f p e => ?_, fun e k b => ?_,
    fun e he => ?_, fun b hb => ?_, fun e b he hp => ?_, fun a ha => ?_⟩
  · rw [hl.embOf]
    exact hemb e
  · rw [(hl.feeds f).2, hl.base, h.feedsCount]
    congr 1
    exact tally_congr fun e _ => ((hl.embs e).1).symm
  · rw [h.liveIff, (hl.embs e).2.2.2]
  · rw [(hl.feeds f).1, h.embEntry, (hl.embs e).1, (hl.embs e).2.1, (hl.embs e).2.2.2]
  · rw [(hl.embs e).2.2.1, h.bbfEntry, (hl.bbfs b).1, (hl.bbfs b).2.1, (hl.bbfs b).2.2]
  · rw [hl.nextEmb]
    exact h.embNew e ((hl.embs e).2.2.2.mp he)
  · rw [hl.nextBbf]
    exact h.bbfNew b ((hl.bbfs b).2.2.mp hb)
  · rw [hl.nextBbf]
    exact h.parentNew e b ((hl.embs e).2.2.2.mp he) ((hl.embs e).1.symm.trans hp)
  · rw [hl.embOf, (hl.bbfs a.bbf).2.1, (hl.embs _).1, (hl.embs _).2.1]
    exact hrec a ha

theorem sameLinks_setEmb {n : ℕ} (he : 0 < (demux.embs e).refcount) (hn : 0 < n) :
    SameLinks demux (demux.setEmb e { demux.embs e with refcount := n }) := by
  refine ⟨fun _ => ⟨rfl, rfl⟩, fun e' => ?_, fun _ => ⟨rfl, rfl, Iff.rfl⟩, rfl, rfl⟩
  rw [setEmb_embs]
  split
  · rename_i heq
    subst heq
    exact ⟨rfl, rfl, rfl, iff_of_true hn he⟩
  · exact ⟨rfl, rfl, rfl, Iff.rfl⟩

theorem sameLinks_setBbf {n : ℕ} (hb : 0 < (demux.bbfs b).refcount) (hn : 0 < n) :
    SameLinks demux (demux.setBbf b { demux.bbfs b with refcount := n }) := by
  refine ⟨fun _ => ⟨rfl, rfl⟩, fun _ => ⟨rfl, rfl, rfl, Iff.rfl⟩, fun b' => ?_, rfl, rfl⟩
  rw [setBbf_bbfs]
  split
  · rename_i heq
    subst heq
    exact ⟨rfl, rfl, iff_of_true hn hb⟩
  · exact ⟨rfl, rfl, Iff.rfl⟩

/-! ### Allocating -/

/-- One reference more to an embedded stream that is there. -/
theorem Accounted.getEmb (h : Accounted demux out live none) (he : 0 < (demux.embs e).refcount) :
    Accounted (demux.setEmb e { demux.embs e with refcount := (demux.embs e).refcount + 1 })
      out live (some e) := by
  refine h.sameLinks (sameLinks_setEmb he (Nat.succ_pos _)) h.bbfCount (fun e' => ?_) h.records
  have hcount := h.embCount e'
  rw [setEmb_embs]
  rcases eq_or_ne e' e with rfl | hne
  · simpa using hcount
  · simpa [hne, hne.symm] using hcount

/-- The embedded stream that `findOrAllocEmb` registers. -/
def withNewEmb (demux : DvbDemux) (pid : ℤ) (parent : FeedsNo) : DvbDemux :=
  let feeds := demux.feeds parent
  ({ demux with nextEmb := demux.nextEmb + 1 }.setEmb demux.nextEmb
      ⟨1, pid, parent, fun _ => none⟩).setFeeds parent
    { feeds with
      refcount := feeds.refcount + 1
      embeddedStreams := update feeds.embeddedStreams pid (some demux.nextEmb) }

theorem Accounted.newEmb (h : Accounted demux out live none)
    (hpos : 0 < (demux.feeds parent).refcount)
    (hfree : (demux.feeds parent).embeddedStreams pid = none) :
    Accounted (withNewEmb demux pid parent) out (demux.nextEmb :: live) (some demux.nextEmb) := by
  have hunused : (demux.embs demux.nextEmb).refcount = 0 := by
    by_contra hne
    exact absurd (h.embNew _ (Nat.pos_of_ne_zero hne)) (Nat.lt_irrefl _)
  have hnobody : ∀ b, 0 < (demux.bbfs b).refcount →
      (demux.bbfs b).parentEmbeddedStream ≠ demux.nextEmb := by
    intro b hb heq
    have hpos := h.parent_pos hb
    rw [heq, hunused] at hpos
    exact absurd hpos (Nat.lt_irrefl 0)
  have hne : ∀ e ∈ live, e ≠ demux.nextEmb := by
    rintro e he rfl
    exact absurd ((h.liveIff _).mp he) (by rw [hunused]; exact Nat.lt_irrefl 0)
  have hembs : ∀ e, (withNewEmb demux pid parent).embs e =
      if e = demux.nextEmb then ⟨1, pid, parent, fun _ => none⟩ else demux.embs e :=
    fun e => setEmb_embs ..
  have hold : ∀ e, e ≠ demux.nextEmb → (withNewEmb demux pid parent).embs e = demux.embs e :=
    fun e he => (hembs e).trans (if_neg he)
  have hself : (withNewEmb demux pid parent).embs demux.nextEmb =
      ⟨1, pid, parent, fun _ => none⟩ := (hembs _).trans (if_pos rfl)
  have hrefs : ∀ f, ((withNewEmb demux pid parent).feeds f).refcount =
      (demux.feeds f).refcount + if parent = f then 1 else 0 := by
    intro f
    rw [withNewEmb, setFeeds_feeds]
    rcases eq_or_ne f parent with rfl | hf
    · simp
    · rw [if_neg hf, if_neg hf.symm]
      rfl
  have hentries : ∀ f p, ((withNewEmb demux pid parent).feeds f).embeddedStreams p =
      if f = parent ∧ p = pid then some demux.nextEmb else (demux.feeds f).embeddedStreams p := by
    intro f p
    rw [withNewEmb, setFeeds_feeds]
    rcases eq_or_ne f parent with rfl | hf
    · simp [update_apply]
    · rw [if_neg hf, if_neg fun hcon => hf hcon.1]
      rfl
  refine ⟨h.bbfCount, fun e => ?_, fun f => ?_, List.nodup_cons.mpr ⟨fun hm => hne _ hm rfl, h.nodup⟩,
    fun e => ?_, fun f p e => ?_, fun e k b => ?_, fun e he => ?_, h.bbfNew, fun e b he hp => ?_,
    fun a ha => ?_⟩
  · -- the new stream has no allocations yet
    have hcount := h.embCount e
    rcases eq_or_ne e demux.nextEmb with rfl | hne
    · rw [hself, if_pos rfl]
      rw [hunused] at hcount
      exact congrArg (· + 1) (Nat.eq_zero_of_add_eq_zero_right hcount.symm).symm
    · rw [hold e hne, if_neg fun heq => hne (Option.some.inj heq).symm, hcount]
      rfl
  · have htally : tally (fun e => ((withNewEmb demux pid parent).embs e).parentFeeds) live f =
        tally (fun e => (demux.embs e).parentFeeds) live f :=
      tally_congr fun e he => by rw [hold e (hne e he)]
    have hbase : (withNewEmb demux pid parent).base f = demux.base f := by cases f <;> rfl
    rw [tally_cons, htally, hself, hrefs, hbase, h.feedsCount, Nat.add_assoc]
  · rw [List.mem_cons, hembs]
    split
    · rename_i he
      exact iff_of_true (Or.inl he) Nat.zero_lt_one
    · rename_i he
      rw [← h.liveIff]
      exact ⟨fun hm => hm.resolve_left he, Or.inr⟩
  · rw [hentries]
    rcases eq_or_ne e demux.nextEmb with rfl | hne
    · rw [hself]
      split
      · rename_i hat
        exact iff_of_true rfl ⟨Nat.zero_lt_one, hat.1.symm, hat.2.symm⟩
      · rename_i hat
        refine iff_of_false (fun heq => ?_) fun hcon => hat ⟨hcon.2.1.symm, hcon.2.2.symm⟩
        have hpos := ((h.embEntry f p _).mp heq).1
        rw [hunused] at hpos
        exact absurd hpos (Nat.lt_irrefl 0)
    · rw [hold e hne, ← h.embEntry f p e]
      split
      · rename_i hat
        rw [hat.1, hat.2, hfree]
        exact iff_of_false (fun hcon => hne (Option.some.inj hcon).symm) (by rintro ⟨⟩)
      · exact Iff.rfl
  · rw [hembs]
    split
    · rename_i he
      subst he
      refine iff_of_false (by rintro ⟨⟩) ?_
      rintro ⟨hb, hparent, -⟩
      exact hnobody b hb hparent
    · exact h.bbfEntry e k b
  · rcases eq_or_ne e demux.nextEmb with rfl | hne
    · exact Nat.lt_succ_self _
    · rw [hold e hne] at he
      exact Nat.lt_succ_of_lt (h.embNew e he)
  · rcases eq_or_ne e demux.nextEmb with rfl | hne
    · rw [hself] at hp
      cases hp
      exact h.feeds_new hpos
    · rw [hold e hne] at he hp
      exact h.parentNew e b he hp
  · have hold := hold (demux.embOf a) (hnobody _ (h.bbf_pos ha))
    rw [show (withNewEmb demux pid parent).embOf a = demux.embOf a from rfl, hold]
    exact h.records a ha

/-- What `findOrAllocEmb` does for a container that is in use. -/
theorem findOrAllocEmb_eq (hpos : 0 < (demux.feeds parent).refcount) :
    (findOrAllocEmb demux pid parent ok = (demux, none) ∧ ok = false ∧
        (demux.feeds parent).embeddedStreams pid = none) ∨
      (∃ e, (demux.feeds parent).embeddedStreams pid = some e ∧ findOrAllocEmb demux pid parent ok =
        (demux.setEmb e { demux.embs e with refcount := (demux.embs e).refcount + 1 }, some e)) ∨
      (demux.feeds parent).embeddedStreams pid = none ∧
        findOrAllocEmb demux pid parent ok = (withNewEmb demux pid parent, some demux.nextEmb) := by
  rw [findOrAllocEmb, touchFeeds_of_pos hpos]
  rcases (demux.feeds parent).embeddedStreams pid with _ | e
  · cases ok with
    | false => exact Or.inl ⟨rfl, rfl, rfl⟩
    | true => exact Or.inr (Or.inr ⟨rfl, rfl⟩)
  · exact Or.inr (Or.inl ⟨e, rfl, rfl⟩)

/-- One allocation more of a stream of BBFRAMEs that is there. -/
theorem Accounted.getBbf (h : Accounted demux out live (some e))
    (hb : 0 < (demux.bbfs b).refcount) (hparent : (demux.bbfs b).parentEmbeddedStream = e)
    (hrec : bbfKey (demux.bbfs b).isi = k ∧ (demux.embs e).parentFeeds = parent ∧
      (demux.embs e).embeddingPid = pid) :
    Accounted (demux.setBbf b { demux.bbfs b with refcount := (demux.bbfs b).refcount + 1 })
      (⟨parent, pid, k, b⟩ :: out) live none := by
  refine h.sameLinks (sameLinks_setBbf hb (Nat.succ_pos _)) (fun b' => ?_) (fun e' => ?_) ?_
  · rw [tally_cons, setBbf_bbfs, ← h.bbfCount]
    rcases eq_or_ne b' b with rfl | hne
    · simp
    · rw [if_neg hne, if_neg hne.symm, Nat.add_zero]
  · rw [tally_cons, setBbf_embs, h.embCount]
    simp [DvbDemux.embOf, hparent]
  · rintro a (_ | ⟨_, ha⟩)
    · rw [DvbDemux.embOf, hparent]
      exact hrec
    · exact h.records a ha

/-- The stream of BBFRAMEs that `findOrAllocBbfStream` registers. -/
def withNewBbf (demux : DvbDemux) (e : EmbNo) (key : ℕ) : DvbDemux :=
  let b := demux.nextBbf
  let demux := { demux with nextBbf := b + 1 }
  let demux := demux.setBbf b ⟨1, key, e⟩
  let demux := demux.setFeeds (.ofBbf b) ⟨1, false, fun _ => none⟩
  demux.setEmb e
    { demux.embs e with bbfStreams := update (demux.embs e).bbfStreams key (some b) }

theorem bbfKey_bbfKey (isi : ℤ) : bbfKey (bbfKey isi : ℕ) = bbfKey isi := by
  rw [bbfKey, if_neg (by omega), Int.toNat_natCast]

theorem Accounted.newBbf (h : Accounted demux out live (some e)) (hk : bbfKey k = k)
    (hfree : (demux.embs e).bbfStreams k = none)
    (hrec : (demux.embs e).parentFeeds = parent ∧ (demux.embs e).embeddingPid = pid) :
    Accounted (withNewBbf demux e k) (⟨parent, pid, k, demux.nextBbf⟩ :: out) live none := by
  have hunused : (demux.bbfs demux.nextBbf).refcount = 0 := by
    by_contra hne
    exact absurd (h.bbfNew _ (Nat.pos_of_ne_zero hne)) (Nat.lt_irrefl _)
  have hbbfs : ∀ b, (withNewBbf demux e k).bbfs b =
      if b = demux.nextBbf then ⟨1, k, e⟩ else demux.bbfs b := fun b => setBbf_bbfs ..
  have hself : (withNewBbf demux e k).bbfs demux.nextBbf = ⟨1, k, e⟩ :=
    (hbbfs _).trans (if_pos rfl)
  have hold : ∀ b, b ≠ demux.nextBbf → (withNewBbf demux e k).bbfs b = demux.bbfs b :=
    fun b hb => (hbbfs b).trans (if_neg hb)
  have hrecord : ∀ a ∈ out, a.bbf ≠ demux.nextBbf := by
    intro a ha heq
    have hpos := h.bbf_pos ha
    rw [heq, hunused] at hpos
    exact absurd hpos (Nat.lt_irrefl 0)
  have hembs : ∀ e', ((withNewBbf demux e k).embs e').refcount = (demux.embs e').refcount ∧
      ((withNewBbf demux e k).embs e').parentFeeds = (demux.embs e').parentFeeds ∧
      ((withNewBbf demux e k).embs e').embeddingPid = (demux.embs e').embeddingPid := by
    intro e'
    rw [withNewBbf, setEmb_embs]
    split
    · rename_i he
      subst he
      exact ⟨rfl, rfl, rfl⟩
    · exact ⟨rfl, rfl, rfl⟩
  have hstreams : ∀ e' k', ((withNewBbf demux e k).embs e').bbfStreams k' =
      if e' = e ∧ k' = k then some demux.nextBbf else (demux.embs e').bbfStreams k' := by
    intro e' k'
    rw [withNewBbf, setEmb_embs]
    rcases eq_or_ne e' e with rfl | he
    · simp [update_apply]
    · rw [if_neg he, if_neg fun hcon => he hcon.1]
      rfl
  have hfeeds : ∀ f, (withNewBbf demux e k).feeds f =
      if f = .ofBbf demux.nextBbf then ⟨1, false, fun _ => none⟩ else demux.feeds f :=
    fun f => setFeeds_feeds ..
  have hembOf : ∀ a ∈ out, (withNewBbf demux e k).embOf a = demux.embOf a := fun a ha => by
    rw [DvbDemux.embOf, hold _ (hrecord a ha), DvbDemux.embOf]
  have hchild : ∀ e', 0 < (demux.embs e').refcount →
      (demux.embs e').parentFeeds ≠ .ofBbf demux.nextBbf := by
    intro e' he' heq
    exact absurd (h.parentNew e' _ he' heq) (Nat.lt_irrefl _)
  refine ⟨fun b => ?_, fun e' => ?_, fun f => ?_, h.nodup, fun e' => ?_, fun f p e' => ?_,
    fun e' k' b => ?_, fun e' he' => ?_, fun b hb => ?_, fun e' b he' hp => ?_, fun a ha => ?_⟩
  · rw [tally_cons, hbbfs, ← h.bbfCount]
    rcases eq_or_ne b demux.nextBbf with rfl | hne
    · rw [if_pos rfl, if_pos rfl, hunused]
    · rw [if_neg hne, if_neg hne.symm, Nat.add_zero]
  · rw [tally_cons, (hembs e').1, h.embCount, tally_congr hembOf]
    rw [DvbDemux.embOf, hself]
    simp
  · have hbase : f ≠ .ofBbf demux.nextBbf →
        (withNewBbf demux e k).base f = demux.base f := by
      intro hf
      cases f with
      | ofBbf b => rw [DvbDemux.base, hold b fun heq => hf (heq ▸ rfl), DvbDemux.base]
      | _ => rfl
    have htally : tally (fun e' => ((withNewBbf demux e k).embs e').parentFeeds) live f =
        tally (fun e' => (demux.embs e').parentFeeds) live f :=
      tally_congr fun e' _ => (hembs e').2.1
    rw [hfeeds, htally]
    rcases eq_or_ne f (.ofBbf demux.nextBbf) with rfl | hf
    · rw [if_pos rfl, DvbDemux.base, hself, if_pos Nat.zero_lt_one,
        tally_eq_zero.mpr fun e' he' => hchild e' ((h.liveIff e').mp he')]
    · rw [if_neg hf, hbase hf, h.feedsCount]
  · rw [h.liveIff, (hembs e').1]
  · rw [(hembs e').1, (hembs e').2.1, (hembs e').2.2, hfeeds]
    split
    · rename_i hf
      subst hf
      refine iff_of_false (by rintro ⟨⟩) ?_
      rintro ⟨hpos, hparent, -⟩
      exact hchild e' hpos hparent
    · exact h.embEntry f p e'
  · rw [hstreams]
    rcases eq_or_ne b demux.nextBbf with rfl | hne
    · rw [hself]
      split
      · rename_i hat
        exact iff_of_true rfl ⟨Nat.zero_lt_one, hat.1.symm, hk.trans hat.2.symm⟩
      · rename_i hat
        refine iff_of_false (fun heq => ?_) fun hcon => hat ⟨hcon.2.1.symm, hcon.2.2.symm.trans hk⟩
        have hpos := ((h.bbfEntry e' k' _).mp heq).1
        rw [hunused] at hpos
        exact absurd hpos (Nat.lt_irrefl 0)
    · rw [hold b hne, ← h.bbfEntry e' k' b]
      split
      · rename_i hat
        rw [hat.1, hat.2, hfree]
        exact iff_of_false (fun hcon => hne (Option.some.inj hcon).symm) (by rintro ⟨⟩)
      · exact Iff.rfl
  · rw [(hembs e').1] at he'
    exact h.embNew e' he'
  · rcases eq_or_ne b demux.nextBbf with rfl | hne
    · exact Nat.lt_succ_self _
    · rw [hold b hne] at hb
      exact Nat.lt_succ_of_lt (h.bbfNew b hb)
  · rw [(hembs e').1] at he'
    rw [(hembs e').2.1] at hp
    exact Nat.lt_succ_of_lt (h.parentNew e' b he' hp)
  · rw [(hembs _).2.1, (hembs _).2.2]
    rcases List.mem_cons.mp ha with rfl | ha
    · rw [DvbDemux.embOf, hself]
      exact ⟨hk, hrec⟩
    · rw [hembOf a ha, hold _ (hrecord a ha)]
      exact h.records a ha

/-! ### Releasing -/

/-- The stream of BBFRAMEs when its last reference is dropped. -/
def withoutBbf (demux : DvbDemux) (b : BbfNo) : DvbDemux :=
  bbframesStreamRelease_
    (demux.setBbf b { demux.bbfs b with refcount := (demux.bbfs b).refcount - 1 }) b

/-- With the last reference the entry goes, and the reference to its own container. -/
theorem Accounted.withoutBbf (h : Accounted demux out live none) (ha : a ∈ out)
    (hlast : (demux.bbfs a.bbf).refcount - 1 = 0) :
    Accounted (withoutBbf demux a.bbf) (out.erase a) live (some (demux.embOf a)) := by
  have hpos := h.bbf_pos ha
  have hone : (demux.bbfs a.bbf).refcount = 1 := Nat.le_antisymm (Nat.sub_eq_zero_iff_le.mp hlast) hpos
  have hcount : ∀ b, tally Alloc.bbf (out.erase a) b + (if a.bbf = b then 1 else 0) =
      (demux.bbfs b).refcount := fun b => by rw [h.bbfCount, tally_erase ha]
  have hbbfs : ∀ b, (Demux.withoutBbf demux a.bbf).bbfs b = if b = a.bbf then
      { demux.bbfs a.bbf with refcount := (demux.bbfs a.bbf).refcount - 1 } else demux.bbfs b :=
    fun b => setBbf_bbfs ..
  have hself : ((Demux.withoutBbf demux a.bbf).bbfs a.bbf).refcount = 0 := by
    rw [hbbfs, if_pos rfl]
    exact hlast
  have hold : ∀ b, b ≠ a.bbf → (Demux.withoutBbf demux a.bbf).bbfs b = demux.bbfs b :=
    fun b hb => (hbbfs b).trans (if_neg hb)
  have hlinks : ∀ b, ((Demux.withoutBbf demux a.bbf).bbfs b).parentEmbeddedStream =
        (demux.bbfs b).parentEmbeddedStream ∧
      ((Demux.withoutBbf demux a.bbf).bbfs b).isi = (demux.bbfs b).isi := by
    intro b
    rcases eq_or_ne b a.bbf with rfl | hne
    · rw [hbbfs, if_pos rfl]
      exact ⟨rfl, rfl⟩
    · rw [hold b hne]
      exact ⟨rfl, rfl⟩
  have hembOf : (Demux.withoutBbf demux a.bbf).embOf = demux.embOf :=
    funext fun a => (hlinks a.bbf).1
  have hembs : ∀ e, ((Demux.withoutBbf demux a.bbf).embs e).refcount = (demux.embs e).refcount ∧
      ((Demux.withoutBbf demux a.bbf).embs e).parentFeeds = (demux.embs e).parentFeeds ∧
      ((Demux.withoutBbf demux a.bbf).embs e).embeddingPid = (demux.embs e).embeddingPid := by
    intro e
    rw [Demux.withoutBbf, bbframesStreamRelease_, setEmb_embs]
    split
    · rename_i he
      subst he
      exact ⟨rfl, rfl, rfl⟩
    · exact ⟨rfl, rfl, rfl⟩
  have hstreams : ∀ e k, ((Demux.withoutBbf demux a.bbf).embs e).bbfStreams k =
      if e = demux.embOf a ∧ k = bbfKey (demux.bbfs a.bbf).isi then none
      else (demux.embs e).bbfStreams k := by
    intro e k
    rw [Demux.withoutBbf, bbframesStreamRelease_, setEmb_embs]
    simp only [setBbf_bbfs, if_true]
    rcases eq_or_ne e (demux.bbfs a.bbf).parentEmbeddedStream with rfl | he
    · have hown : demux.embOf a = (demux.bbfs a.bbf).parentEmbeddedStream := rfl
      simp only [if_true, hown, update_apply, true_and]
      rfl
    · have hown : ¬(e = demux.embOf a ∧ k = bbfKey (demux.bbfs a.bbf).isi) := fun hcon => he hcon.1
      rw [if_neg he, if_neg hown]
      rfl
  have hrefs : ∀ f, ((Demux.withoutBbf demux a.bbf).feeds f).refcount =
      (demux.feeds f).refcount - if f = .ofBbf a.bbf then 1 else 0 := by
    intro f
    have hput : ((Demux.withoutBbf demux a.bbf).feeds f).refcount =
        ((putFeeds (demux.setBbf a.bbf
          { demux.bbfs a.bbf with refcount := (demux.bbfs a.bbf).refcount - 1 })
            (.ofBbf a.bbf)).feeds f).refcount := rfl
    rw [hput, putFeeds, setFeeds_feeds]
    split
    · rename_i hf
      subst hf
      rfl
    · rfl
  have hentries : ∀ f, ((Demux.withoutBbf demux a.bbf).feeds f).embeddedStreams =
      (demux.feeds f).embeddedStreams := by
    intro f
    have hput : ((Demux.withoutBbf demux a.bbf).feeds f).embeddedStreams =
        ((putFeeds (demux.setBbf a.bbf
          { demux.bbfs a.bbf with refcount := (demux.bbfs a.bbf).refcount - 1 })
            (.ofBbf a.bbf)).feeds f).embeddedStreams := rfl
    rw [hput, putFeeds, setFeeds_feeds]
    split
    · rename_i hf
      subst hf
      rfl
    · rfl
  refine ⟨fun b => ?_, fun e => ?_, fun f => ?_, h.nodup, fun e => ?_, fun f p e => ?_,
    fun e k b => ?_, fun e he => ?_, fun b hb => ?_, fun e b he hp => ?_, fun a' ha' => ?_⟩
  · have hc := hcount b
    rcases eq_or_ne b a.bbf with rfl | hne
    · rw [if_pos rfl, hone] at hc
      rw [hself]
      exact (Nat.succ.inj hc).symm
    · rw [if_neg hne.symm] at hc
      rw [hold b hne]
      exact hc.symm
  · rw [(hembs e).1, h.embCount, tally_erase ha, hembOf]
    simp
  · have htally : tally (fun e => ((Demux.withoutBbf demux a.bbf).embs e).parentFeeds) live f =
        tally (fun e => (demux.embs e).parentFeeds) live f := tally_congr fun e _ => (hembs e).2.1
    rw [hrefs, h.feedsCount, htally]
    rcases eq_or_ne f (.ofBbf a.bbf) with rfl | hf
    · rw [if_pos rfl, DvbDemux.base, if_pos hpos, DvbDemux.base, hself, if_neg (Nat.lt_irrefl 0),
        Nat.add_sub_cancel_left, Nat.zero_add]
    · have hbase : (Demux.withoutBbf demux a.bbf).base f = demux.base f := by
        cases f with
        | ofBbf b => rw [DvbDemux.base, hold b fun heq => hf (heq ▸ rfl), DvbDemux.base]
        | _ => rfl
      rw [if_neg hf, hbase, Nat.sub_zero]
  · rw [h.liveIff, (hembs e).1]
  · rw [hentries, (hembs e).1, (hembs e).2.1, (hembs e).2.2]
    exact h.embEntry f p e
  · rw [hstreams, (hlinks b).1, (hlinks b).2]
    rcases eq_or_ne b a.bbf with rfl | hne
    · rw [hself]
      refine iff_of_false ?_ fun hcon => absurd hcon.1 (Nat.lt_irrefl 0)
      split
      · rintro ⟨⟩
      · rename_i hat
        intro heq
        obtain ⟨-, hparent, hkey⟩ := (h.bbfEntry e k _).mp heq
        exact hat ⟨hparent.symm, hkey.symm⟩
    · rw [hold b hne]
      split
      · rename_i hat
        refine iff_of_false (by rintro ⟨⟩) fun hcon => hne ?_
        -- two streams of one embedded stream have different keys
        have hb := (h.bbfEntry e k b).mpr hcon
        have hown := (h.bbfEntry e k a.bbf).mpr ⟨hpos, hat.1.symm, hat.2.symm⟩
        exact Option.some.inj (hb.symm.trans hown)
      · exact h.bbfEntry e k b
  · rw [(hembs e).1] at he
    exact h.embNew e he
  · rcases eq_or_ne b a.bbf with rfl | hne
    · rw [hself] at hb
      exact absurd hb (Nat.lt_irrefl 0)
    · rw [hold b hne] at hb
      exact h.bbfNew b hb
  · rw [(hembs e).1] at he
    rw [(hembs e).2.1] at hp
    exact h.parentNew e b he hp
  · rw [hembOf, (hlinks _).2, (hembs _).2.1, (hembs _).2.2]
    exact h.records a' (List.mem_of_mem_erase ha')

/-- One allocation fewer; its reference to the embedded stream is dropped next. -/
theorem Accounted.putBbf (h : Accounted demux out live none) (ha : a ∈ out) :
    Accounted (putBbf demux a.bbf) (out.erase a) live (some (demux.embOf a)) := by
  have hpos := h.bbf_pos ha
  have hbbf : ∀ b, tally Alloc.bbf (out.erase a) b + (if a.bbf = b then 1 else 0) =
      (demux.bbfs b).refcount := fun b => by rw [h.bbfCount, tally_erase ha]
  have hemb : ∀ e, (demux.embs e).refcount =
      tally demux.embOf (out.erase a) e + if some (demux.embOf a) = some e then 1 else 0 := by
    intro e
    rw [h.embCount, tally_erase ha]
    simp
  rw [Demux.putBbf]
  simp only [setBbf_bbfs, if_true]
  split
  · rename_i hlast
    exact h.withoutBbf ha hlast
  · rename_i hmore
    refine h.sameLinks (sameLinks_setBbf hpos (Nat.pos_of_ne_zero hmore)) (fun b => ?_) hemb
      fun a' ha' => h.records a' (List.mem_of_mem_erase ha')
    have hcount := hbbf b
    rw [setBbf_bbfs]
    rcases eq_or_ne b a.bbf with rfl | hne
    · rw [if_pos rfl] at hcount ⊢
      exact (Nat.eq_sub_of_add_eq hcount).symm
    · rw [if_neg hne.symm] at hcount
      rw [if_neg hne]
      exact hcount.symm

/-- An embedded stream when its last reference is dropped. -/
def withoutEmb (demux : DvbDemux) (e : EmbNo) : DvbDemux :=
  embeddedStreamRelease_
    (demux.setEmb e { demux.embs e with refcount := (demux.embs e).refcount - 1 }) e

/-- With the last reference the entry goes, and the reference to the parent container. -/
theorem Accounted.withoutEmb (h : Accounted demux out live (some e))
    (hlast : (demux.embs e).refcount - 1 = 0) :
    Accounted (withoutEmb demux e) out (live.erase e) none := by
  have hcount := h.embCount e
  rw [if_pos rfl] at hcount
  have hpos : 0 < (demux.embs e).refcount := hcount ▸ Nat.succ_pos _
  have hunused : tally demux.embOf out e = 0 := by omega
  have hlive := (h.liveIff e).mpr hpos
  have hembs : ∀ e', (Demux.withoutEmb demux e).embs e' = if e' = e then
      { demux.embs e with refcount := (demux.embs e).refcount - 1 } else demux.embs e' :=
    fun e' => setEmb_embs ..
  have hself : ((Demux.withoutEmb demux e).embs e).refcount = 0 := by
    rw [hembs, if_pos rfl]
    exact hlast
  have hold : ∀ e', e' ≠ e → (Demux.withoutEmb demux e).embs e' = demux.embs e' :=
    fun e' he => (hembs e').trans (if_neg he)
  have hlinks : ∀ e', ((Demux.withoutEmb demux e).embs e').parentFeeds =
        (demux.embs e').parentFeeds ∧
      ((Demux.withoutEmb demux e).embs e').embeddingPid = (demux.embs e').embeddingPid ∧
      ((Demux.withoutEmb demux e).embs e').bbfStreams = (demux.embs e').bbfStreams := by
    intro e'
    rcases eq_or_ne e' e with rfl | hne
    · rw [hembs, if_pos rfl]
      exact ⟨rfl, rfl, rfl⟩
    · rw [hold e' hne]
      exact ⟨rfl, rfl, rfl⟩
  have hrefs : ∀ f, ((Demux.withoutEmb demux e).feeds f).refcount =
      (demux.feeds f).refcount - if f = (demux.embs e).parentFeeds then 1 else 0 := by
    intro f
    rw [Demux.withoutEmb, embeddedStreamRelease_, setFeeds_feeds]
    simp only [setEmb_embs, if_true]
    split
    · rename_i hf
      subst hf
      exact congrArg Feeds.refcount ((setFeeds_feeds ..).trans (if_pos rfl))
    · rename_i hf
      exact congrArg Feeds.refcount ((setFeeds_feeds ..).trans (if_neg hf))
  have hentries : ∀ f p, ((Demux.withoutEmb demux e).feeds f).embeddedStreams p =
      if f = (demux.embs e).parentFeeds ∧ p = (demux.embs e).embeddingPid then none
      else (demux.feeds f).embeddedStreams p := by
    intro f p
    rw [Demux.withoutEmb, embeddedStreamRelease_, setFeeds_feeds]
    simp only [setEmb_embs, if_true]
    have hput : ∀ g, (((putFeeds (demux.setEmb e
        { demux.embs e with refcount := (demux.embs e).refcount - 1 })
          (demux.embs e).parentFeeds).feeds g).embeddedStreams) =
        (demux.feeds g).embeddedStreams := by
      intro g
      rw [putFeeds, setFeeds_feeds]
      split
      · rename_i hg
        rw [hg]
        rfl
      · rfl
    rcases eq_or_ne f (demux.embs e).parentFeeds with rfl | hf
    · simp only [if_true, update_apply, true_and]
      split
      · rfl
      · exact congrFun (hput _) p
    · rw [if_neg hf, if_neg fun hcon => hf hcon.1]
      exact congrFun (hput f) p
  have hbase : ∀ f, (Demux.withoutEmb demux e).base f = demux.base f := by
    intro f
    cases f <;> rfl
  refine ⟨h.bbfCount, fun e' => ?_, fun f => ?_, h.nodup.erase e, fun e' => ?_, fun f p e' => ?_,
    fun e' k b => ?_, fun e' he => ?_, h.bbfNew, fun e' b he hp => ?_, fun a ha => ?_⟩
  · rw [if_neg nofun]
    rcases eq_or_ne e' e with rfl | hne
    · rw [hself]
      exact hunused.symm
    · have hcount := h.embCount e'
      rw [if_neg fun heq => hne (Option.some.inj heq).symm] at hcount
      rw [hold e' hne]
      exact hcount
  · have htally : tally (fun e' => ((Demux.withoutEmb demux e).embs e').parentFeeds)
        (live.erase e) f = tally (fun e' => (demux.embs e').parentFeeds) (live.erase e) f :=
      tally_congr fun e' _ => (hlinks e').1
    rw [hrefs, hbase, htally, h.feedsCount, tally_erase hlive]
    rcases eq_or_ne f (demux.embs e).parentFeeds with rfl | hf
    · rw [if_pos rfl, ← Nat.add_assoc, Nat.add_sub_cancel]
    · rw [if_neg hf, if_neg hf.symm, Nat.sub_zero, Nat.add_zero]
  · rw [h.nodup.mem_erase_iff, h.liveIff]
    rcases eq_or_ne e' e with rfl | hne
    · rw [hself]
      exact iff_of_false (fun hcon => hcon.1 rfl) (Nat.lt_irrefl 0)
    · rw [hold e' hne]
      exact ⟨fun hcon => hcon.2, fun hp => ⟨hne, hp⟩⟩
  · rw [hentries, (hlinks e').1, (hlinks e').2.1]
    rcases eq_or_ne e' e with rfl | hne
    · rw [hself]
      refine iff_of_false ?_ fun hcon => absurd hcon.1 (Nat.lt_irrefl 0)
      split
      · rintro ⟨⟩
      · rename_i hat
        intro heq
        obtain ⟨-, hparent, hpid⟩ := (h.embEntry f p _).mp heq
        exact hat ⟨hparent.symm, hpid.symm⟩
    · rw [hold e' hne]
      split
      · rename_i hat
        refine iff_of_false (by rintro ⟨⟩) fun hcon => hne ?_
        -- two embedded streams of one container are on different pids
        have hother := (h.embEntry f p e').mpr hcon
        have hown := (h.embEntry f p e).mpr ⟨hpos, hat.1.symm, hat.2.symm⟩
        exact Option.some.inj (hother.symm.trans hown)
      · exact h.embEntry f p e'
  · rw [(hlinks e').2.2]
    exact h.bbfEntry e' k b
  · rcases eq_or_ne e' e with rfl | hne
    · rw [hself] at he
      exact absurd he (Nat.lt_irrefl 0)
    · rw [hold e' hne] at he
      exact h.embNew e' he
  · rcases eq_or_ne e' e with rfl | hne
    · rw [hself] at he
      exact absurd he (Nat.lt_irrefl 0)
    · rw [hold e' hne] at he hp
      exact h.parentNew e' b he hp
  · rw [(hlinks _).1, (hlinks _).2.1]
    exact h.records a ha

theorem Accounted.putEmb (h : Accounted demux out live (some e)) :
    ∃ live, Accounted (embeddedStreamRelease demux e) out live none := by
  have hcount := h.embCount e
  rw [if_pos rfl] at hcount
  have hpos : 0 < (demux.embs e).refcount := hcount ▸ Nat.succ_pos _
  rw [embeddedStreamRelease]
  simp only [setEmb_embs, if_true]
  split
  · rename_i hlast
    exact ⟨_, h.withoutEmb hlast⟩
  · rename_i hmore
    refine ⟨live, h.sameLinks (sameLinks_setEmb hpos (Nat.pos_of_ne_zero hmore)) h.bbfCount
      (fun e' => ?_) h.records⟩
    have hcount' := h.embCount e'
    simp only [setEmb_embs, reduceCtorEq, if_false, Nat.add_zero]
    rcases eq_or_ne e' e with rfl | hne
    · rw [if_pos rfl] at hcount' ⊢
      exact Nat.sub_eq_of_eq_add hcount'
    · rw [if_neg fun heq => hne (Option.some.inj heq).symm] at hcount'
      rw [if_neg hne]
      exact hcount'

end Demux

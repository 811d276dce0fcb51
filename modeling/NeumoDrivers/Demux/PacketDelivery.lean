import Mathlib.Data.List.Nodup
import NeumoDrivers.Demux.Subscriptions
import NeumoDrivers.Demux.Embedded

/-! Who gets a packet (`neumo-dvb-demux.c`).

    `neumo_dvb_dmx_swfilter_packet` walks the list of feeds of a container and, where that includes
    them, the list of the default feeds. A feed gets the packets of its pid, or all of them if its
    pid is 0x2000; of the feeds of the DVR device one at most gets it. Packets with an error are
    given on only if the user of the module wants them.

    What the packet brings to embedded streams, and from there to the feeds of other containers, is
    other packets; that it is given to an embedded stream is noted. -/

namespace Demux

def MAX_PID : ℤ := 0x1fff

def TS_PACKET : UInt32 := 1
def TS_PAYLOAD_ONLY : UInt32 := 2
def TS_DECODER : UInt32 := 4
def TS_DEMUX : UInt32 := 8

/-- `enum dvb_dmx_filter_type`. -/
inductive DmxType where | ts | sec
  deriving DecidableEq

/-- What is looked at of a `struct neumo_dvb_demux_feed`; `index` says which one it is. -/
structure OutputFeed where
  index : ℕ
  type : DmxType
  pid : ℤ
  isFiltering : Bool
  tsType : UInt32
  deriving DecidableEq

/-- `DVR_FEED`. -/
def OutputFeed.dvrFeed (f : OutputFeed) : Bool :=
  f.type = .ts && f.isFiltering && f.tsType &&& (TS_PACKET ||| TS_DEMUX) = TS_PACKET

/-- The kind of an embedded stream. -/
inductive EmbKind where | stid | t2mi
  deriving DecidableEq

/-- A `struct neumo_dvb_demux_feeds`, with the counters if they could be allocated. -/
structure OutputFeeds where
  outputFeedList : List OutputFeed
  includeDefaultFeeds : Bool
  embeddedStreams : ℤ → Option EmbKind
  cntStorage : Option (ℤ → UInt8)

/-- The containers of a demux. A feed is in the list of one of them, once: it has one `next`. -/
structure OutputDemux where
  feeds : FeedsNo → OutputFeeds
  nodup : ∀ f, (feeds f).outputFeedList.Nodup
  disjoint : ∀ f f', f ≠ f' → (feeds f).outputFeedList.Disjoint (feeds f').outputFeedList

/-- The parameters of the module. -/
structure DemuxParams where
  tscheck : Bool
  feedErrPkts : Bool

/-- What is done with a packet. -/
inductive Output where
  | embedded (f : FeedsNo) (kind : EmbKind)
  | setBufFlags (feed : OutputFeed)
  | packetType (feed : OutputFeed)
  | cbTs (feed : OutputFeed)
  deriving DecidableEq

/-- The feed that handles the packet. -/
def Output.handler : Output → Option OutputFeed
  | .packetType feed => some feed
  | .cbTs feed => some feed
  | _ => none

/-- The continuity counter that is expected of a packet, where `cnt` is that of the last one. -/
def expectedCounter (cnt : UInt8) (buf : Packet UInt8) : UInt8 :=
  if buf 3 &&& 0x10 ≠ 0 then
    if cnt = 0xff then buf 3 &&& 0xf else (cnt + 1) &&& 0xf
  else if cnt = 0xff then buf 3 &&& 0xf
  else cnt

/-- Whether the packet is flagged with an error, and the counters. -/
def flagError (params : DemuxParams) (cntStorage : Option (ℤ → UInt8)) (buf : Packet UInt8) :
    Bool × Option (ℤ → UInt8) :=
  let pid := tsPid buf
  if buf 1 &&& 0x80 ≠ 0 then (true, cntStorage)
  else
    match cntStorage with
    | none => (false, none)
    | some cnt =>
      if params.tscheck ∧ pid < MAX_PID then
        let expected := expectedCounter (cnt pid) buf
        (buf 3 &&& 0xf != expected, some (Function.update cnt pid (buf 3 &&& 0xf)))
      else (false, some cnt)

/-- The state of the walk over the lists. -/
structure Walk where
  dvrDone : ℕ
  outputs : List Output

/-- A feed that is to get the packet: each packet is copied to the DVR device once. -/
def copyOnce (pid : ℤ) (w : Walk) (feed : OutputFeed) : Walk :=
  let done := w.dvrDone
  let w := if feed.dvrFeed then { w with dvrDone := w.dvrDone + 1 } else w
  if feed.dvrFeed ∧ done ≠ 0 then w
  else if feed.pid = pid then { w with outputs := w.outputs ++ [.packetType feed] }
  else { w with outputs := w.outputs ++ [.cbTs feed] }

/-- One feed of a list. -/
def visitFeed (params : DemuxParams) (flagged : Bool) (pid : ℤ) (w : Walk) (feed : OutputFeed) :
    Walk :=
  if feed.pid ≠ pid ∧ feed.pid ≠ 0x2000 then w
  else
    let w := if flagged then { w with outputs := w.outputs ++ [.setBufFlags feed] } else w
    if flagged ∧ ¬params.feedErrPkts then w else copyOnce pid w feed

/-- The pass over one container. -/
def visitFeeds (params : DemuxParams) (demux : OutputDemux) (flagged : Bool) (pid : ℤ) (w : Walk)
    (f : FeedsNo) : Walk :=
  let w :=
    if ¬flagged ∧ (demux.feeds f).embeddedStreams pid = some .t2mi then
      { w with outputs := w.outputs ++ [.embedded f .t2mi] }
    else w
  (demux.feeds f).outputFeedList.foldl (visitFeed params flagged pid) w

/-- The containers that a packet of `f` goes to. -/
def passes (demux : OutputDemux) (f : FeedsNo) : List FeedsNo :=
  if (demux.feeds f).includeDefaultFeeds ∧ f ≠ .default then [f, .default] else [f]

/-- `neumo_dvb_dmx_swfilter_packet`: what is done with the packet, and the counters. -/
def swfilterPacket (params : DemuxParams) (demux : OutputDemux) (f : FeedsNo) (buf : Packet UInt8) :
    List Output × Option (ℤ → UInt8) :=
  let pid := tsPid buf
  let (flagged, cntStorage) := flagError params (demux.feeds f).cntStorage buf
  let w : Walk :=
    if ¬flagged ∧ (demux.feeds f).embeddedStreams pid = some .stid then ⟨0, [.embedded f .stid]⟩
    else ⟨0, []⟩
  (((passes demux f).foldl (visitFeeds params demux flagged pid) w).outputs, cntStorage)

/-- The feeds that handle the packet. -/
def handlers (params : DemuxParams) (demux : OutputDemux) (f : FeedsNo) (buf : Packet UInt8) :
    List OutputFeed :=
  (swfilterPacket params demux f buf).1.filterMap Output.handler

/-! ### What is expected -/

variable {params : DemuxParams} {demux : OutputDemux} {f : FeedsNo} {buf : Packet UInt8}
variable {flagged : Bool} {pid : ℤ} {w : Walk} {feed : OutputFeed} {feeds : List OutputFeed}
variable {done : ℕ}

/-- The feeds of the containers that the packet goes to. -/
def subscribers (demux : OutputDemux) (f : FeedsNo) : List OutputFeed :=
  (passes demux f).flatMap fun f => (demux.feeds f).outputFeedList

/-- The pid of a feed is that of the packet, or it stands for all of them. -/
def OutputFeed.wants (feed : OutputFeed) (pid : ℤ) : Bool := feed.pid = pid || feed.pid = 0x2000

/-- The packet is flagged with an error, and such packets are not wanted. -/
def dropped (params : DemuxParams) (demux : OutputDemux) (f : FeedsNo) (buf : Packet UInt8) :
    Bool :=
  (flagError params (demux.feeds f).cntStorage buf).1 && !params.feedErrPkts

/-! ### One feed -/

/-- The feeds that have handled the packet. -/
def Walk.handled (w : Walk) : List OutputFeed := w.outputs.filterMap Output.handler

/-- Of the feeds that want a packet those that get it, after `done` feeds of the DVR device. -/
def taken (gets : OutputFeed → Bool) : ℕ → List OutputFeed → List OutputFeed
  | _, [] => []
  | done, feed :: feeds =>
    if gets feed then
      if feed.dvrFeed then
        if done ≠ 0 then taken gets (done + 1) feeds else feed :: taken gets (done + 1) feeds
      else feed :: taken gets done feeds
    else taken gets done feeds

/-- A feed wants the packet, and it is not dropped. -/
def gets (params : DemuxParams) (flagged : Bool) (pid : ℤ) (feed : OutputFeed) : Bool :=
  feed.wants pid && !(flagged && !params.feedErrPkts)

theorem wants_iff : feed.wants pid = true ↔ ¬(feed.pid ≠ pid ∧ feed.pid ≠ 0x2000) := by
  rw [OutputFeed.wants, Bool.or_eq_true, decide_eq_true_iff, decide_eq_true_iff]
  omega

theorem handled_append (done : ℕ) (outputs : List Output) (o : Output) :
    (Walk.mk done (outputs ++ [o])).handled =
      (Walk.mk done outputs).handled ++ o.handler.toList := by
  rw [Walk.handled, Walk.handled, List.filterMap_append]
  cases h : o.handler with
  | none => simp [h]
  | some feed => simp [h]

theorem copyOnce_handled (pid : ℤ) (w : Walk) (feed : OutputFeed) :
    (copyOnce pid w feed).handled =
      w.handled ++ (if feed.dvrFeed ∧ w.dvrDone ≠ 0 then [] else [feed]) ∧
    (copyOnce pid w feed).dvrDone = if feed.dvrFeed then w.dvrDone + 1 else w.dvrDone := by
  have hgiven : ∀ done, (if feed.pid = pid then
        { dvrDone := done, outputs := w.outputs ++ [.packetType feed] }
      else { dvrDone := done, outputs := w.outputs ++ [.cbTs feed] } : Walk).handled =
        w.handled ++ [feed] ∧
      (if feed.pid = pid then
        { dvrDone := done, outputs := w.outputs ++ [.packetType feed] }
      else { dvrDone := done, outputs := w.outputs ++ [.cbTs feed] } : Walk).dvrDone = done := by
    intro done
    split
    · exact ⟨handled_append .., rfl⟩
    · exact ⟨handled_append .., rfl⟩
  rw [copyOnce]
  cases hdvr : feed.dvrFeed with
  | false => simpa using hgiven w.dvrDone
  | true =>
    by_cases hzero : w.dvrDone = 0
    · simpa [hzero] using hgiven 1
    · simp [hzero, Walk.handled]

theorem visitFeed_none (h : gets params flagged pid feed = false) :
    (visitFeed params flagged pid w feed).handled = w.handled ∧
      (visitFeed params flagged pid w feed).dvrDone = w.dvrDone := by
  rw [visitFeed]
  by_cases hwants : feed.wants pid = true
  · rw [if_neg (wants_iff.mp hwants)]
    rw [gets, hwants, Bool.true_and, Bool.not_eq_false', Bool.and_eq_true, Bool.not_eq_true'] at h
    obtain ⟨hflagged, hnot⟩ := h
    rw [if_pos ⟨hflagged, by simp [hnot]⟩, if_pos hflagged]
    exact ⟨(handled_append ..).trans (List.append_nil _), rfl⟩
  · rw [if_pos (not_not.mp (fun hno => hwants (wants_iff.mpr hno)))]
    exact ⟨rfl, rfl⟩

theorem visitFeed_some (h : gets params flagged pid feed = true) :
    (visitFeed params flagged pid w feed).handled =
      w.handled ++ (if feed.dvrFeed ∧ w.dvrDone ≠ 0 then [] else [feed]) ∧
    (visitFeed params flagged pid w feed).dvrDone =
      if feed.dvrFeed then w.dvrDone + 1 else w.dvrDone := by
  rw [gets, Bool.and_eq_true, Bool.not_eq_true'] at h
  obtain ⟨hwants, hkept⟩ := h
  have hkept' : ¬(flagged = true ∧ ¬params.feedErrPkts = true) := by
    rintro ⟨hflagged, hnot⟩
    simp [hflagged, hnot] at hkept
  rw [visitFeed, if_neg (wants_iff.mp hwants)]
  dsimp only
  rw [if_neg hkept']
  split
  · obtain ⟨hhandled, hdone⟩ :=
      copyOnce_handled pid { w with outputs := w.outputs ++ [.setBufFlags feed] } feed
    have hnone : (Output.setBufFlags feed).handler = none := rfl
    rw [handled_append, hnone, Option.toList_none, List.append_nil] at hhandled
    exact ⟨hhandled, hdone⟩
  · exact copyOnce_handled pid w feed

/-! ### Lists of feeds -/

/-- The number of feeds of the DVR device that are to get the packet. -/
def dvrCount (gets : OutputFeed → Bool) (feeds : List OutputFeed) : ℕ :=
  feeds.countP fun feed => gets feed && feed.dvrFeed

theorem dvrCount_cons (gets : OutputFeed → Bool) (feed : OutputFeed) (feeds : List OutputFeed) :
    dvrCount gets (feed :: feeds) =
      dvrCount gets feeds + if gets feed && feed.dvrFeed then 1 else 0 := List.countP_cons ..

theorem taken_append (gets : OutputFeed → Bool) (feeds rest : List OutputFeed) :
    ∀ done, taken gets done (feeds ++ rest) =
      taken gets done feeds ++ taken gets (done + dvrCount gets feeds) rest := by
  induction feeds with
  | nil => intro done; rfl
  | cons feed feeds ih =>
    intro done
    rw [List.cons_append, taken, taken, dvrCount_cons]
    cases hgets : gets feed with
    | false => simpa [hgets] using ih done
    | true =>
      cases hdvr : feed.dvrFeed with
      | false =>
        simp only [if_true, Bool.false_eq_true, if_false, Bool.and_false, Nat.add_zero,
          List.cons_append]
        rw [ih]
      | true =>
        have hone : done + 1 + dvrCount gets feeds = done + (dvrCount gets feeds + 1) := by omega
        simp only [if_true, Bool.and_true]
        split
        · rw [ih, hone]
        · rw [ih, hone, List.cons_append]

/-- The walk over a list hands the packet to those that are to get it. -/
theorem walk_handled (params : DemuxParams) (flagged : Bool) (pid : ℤ) (feeds : List OutputFeed) :
    ∀ w : Walk, (feeds.foldl (visitFeed params flagged pid) w).handled =
        w.handled ++ taken (gets params flagged pid) w.dvrDone feeds ∧
      (feeds.foldl (visitFeed params flagged pid) w).dvrDone =
        w.dvrDone + dvrCount (gets params flagged pid) feeds := by
  induction feeds with
  | nil =>
    intro w
    exact ⟨(List.append_nil _).symm, rfl⟩
  | cons feed feeds ih =>
    intro w
    obtain ⟨hhandled, hdone⟩ := ih (visitFeed params flagged pid w feed)
    rw [List.foldl_cons, hhandled, hdone, taken, dvrCount_cons]
    cases hgets : gets params flagged pid feed with
    | false =>
      obtain ⟨hsame, hcount⟩ := visitFeed_none (w := w) hgets
      rw [hsame, hcount]
      exact ⟨rfl, rfl⟩
    | true =>
      obtain ⟨hnext, hcount⟩ := visitFeed_some (w := w) hgets
      rw [hnext, hcount, List.append_assoc]
      cases hdvr : feed.dvrFeed with
      | false => simp
      | true =>
        have hone : w.dvrDone + 1 + dvrCount (gets params flagged pid) feeds =
            w.dvrDone + (dvrCount (gets params flagged pid) feeds + 1) := by omega
        by_cases hzero : w.dvrDone = 0
        · simp [hzero, Nat.add_comm]
        · simp [hzero, hone]

/-- A container: what its embedded streams get is not counted. -/
theorem visitFeeds_handled (params : DemuxParams) (demux : OutputDemux) (flagged : Bool) (pid : ℤ)
    (w : Walk) (f : FeedsNo) :
    (visitFeeds params demux flagged pid w f).handled =
        w.handled ++ taken (gets params flagged pid) w.dvrDone (demux.feeds f).outputFeedList ∧
      (visitFeeds params demux flagged pid w f).dvrDone =
        w.dvrDone + dvrCount (gets params flagged pid) (demux.feeds f).outputFeedList := by
  rw [visitFeeds]
  split
  · obtain ⟨hhandled, hdone⟩ := walk_handled params flagged pid (demux.feeds f).outputFeedList
      { w with outputs := w.outputs ++ [.embedded f .t2mi] }
    have hnone : (Output.embedded f .t2mi).handler = none := rfl
    rw [handled_append, hnone, Option.toList_none, List.append_nil] at hhandled
    exact ⟨hhandled, hdone⟩
  · exact walk_handled params flagged pid _ w

theorem passes_handled (params : DemuxParams) (demux : OutputDemux) (flagged : Bool) (pid : ℤ)
    (fs : List FeedsNo) :
    ∀ w : Walk, (fs.foldl (visitFeeds params demux flagged pid) w).handled =
      w.handled ++ taken (gets params flagged pid) w.dvrDone
        (fs.flatMap fun f => (demux.feeds f).outputFeedList) := by
  induction fs with
  | nil =>
    intro w
    exact (List.append_nil _).symm
  | cons f fs ih =>
    intro w
    obtain ⟨hhandled, hdone⟩ := visitFeeds_handled params demux flagged pid w f
    rw [List.foldl_cons, ih, hhandled, hdone, List.flatMap_cons, taken_append, List.append_assoc]

/-- Those who handle a packet are chosen from the subscribers in their order. -/
theorem handlers_eq (params : DemuxParams) (demux : OutputDemux) (f : FeedsNo)
    (buf : Packet UInt8) :
    handlers params demux f buf =
      taken (gets params (flagError params (demux.feeds f).cntStorage buf).1 (tsPid buf)) 0
        (subscribers demux f) := by
  rw [handlers, swfilterPacket]
  dsimp only
  rw [show ∀ w : Walk, w.outputs.filterMap Output.handler = w.handled from fun _ => rfl,
    passes_handled]
  split
  · rfl
  · rfl

/-! ### Who gets it -/

variable {p : OutputFeed → Bool}

theorem taken_sublist (p : OutputFeed → Bool) (feeds : List OutputFeed) :
    ∀ done, (taken p done feeds).Sublist (feeds.filter p) := by
  induction feeds with
  | nil => intro done; exact List.Sublist.refl _
  | cons feed feeds ih =>
    intro done
    rw [taken]
    split_ifs with hp hdvr hdone
    · rw [List.filter_cons_of_pos hp]
      exact (ih _).cons _
    · rw [List.filter_cons_of_pos hp]
      exact (ih _).cons_cons _
    · rw [List.filter_cons_of_pos hp]
      exact (ih _).cons_cons _
    · rw [List.filter_cons_of_neg hp]
      exact ih _

/-- All that are not of the DVR device get it. -/
theorem taken_others (p : OutputFeed → Bool) (feeds : List OutputFeed) :
    ∀ done, (taken p done feeds).filter (fun feed => !feed.dvrFeed) =
      (feeds.filter p).filter fun feed => !feed.dvrFeed := by
  induction feeds with
  | nil => intro done; rfl
  | cons feed feeds ih =>
    intro done
    rw [taken]
    split_ifs with hp hdvr hdone
    · rw [ih, List.filter_cons_of_pos hp, List.filter_cons_of_neg (by simp [hdvr])]
    · rw [List.filter_cons_of_neg (by simp [hdvr]), ih, List.filter_cons_of_pos hp,
        List.filter_cons_of_neg (by simp [hdvr])]
    · rw [List.filter_cons_of_pos (by simp [hdvr]), ih, List.filter_cons_of_pos hp,
        List.filter_cons_of_pos (by simp [hdvr])]
    · rw [ih, List.filter_cons_of_neg hp]

/-- Of those of the DVR device the first one does, unless one has had it before. -/
theorem taken_dvr (p : OutputFeed → Bool) (feeds : List OutputFeed) :
    ∀ done, (taken p done feeds).filter OutputFeed.dvrFeed =
      ((feeds.filter p).filter OutputFeed.dvrFeed).take (1 - done) := by
  induction feeds with
  | nil => intro done; simp [taken]
  | cons feed feeds ih =>
    intro done
    rw [taken]
    split_ifs with hp hdvr hdone
    · rw [ih, List.filter_cons_of_pos hp, List.filter_cons_of_pos hdvr,
        Nat.sub_eq_zero_of_le (by omega), Nat.sub_eq_zero_of_le (by omega)]
      rfl
    · rw [List.filter_cons_of_pos hdvr, ih, List.filter_cons_of_pos hp,
        List.filter_cons_of_pos hdvr, not_not.mp hdone]
      rfl
    · rw [List.filter_cons_of_neg hdvr, ih, List.filter_cons_of_pos hp,
        List.filter_cons_of_neg hdvr]
    · rw [ih, List.filter_cons_of_neg hp]

theorem subscribers_nodup (demux : OutputDemux) (f : FeedsNo) : (subscribers demux f).Nodup := by
  rw [subscribers, passes]
  split
  · rename_i h
    rw [List.flatMap_cons, List.flatMap_cons, List.flatMap_nil, List.append_nil]
    refine List.nodup_append.mpr ⟨demux.nodup f, demux.nodup .default, fun a ha b hb hab => ?_⟩
    exact demux.disjoint f .default h.2 ha (hab ▸ hb)
  · rw [List.flatMap_cons, List.flatMap_nil, List.append_nil]
    exact demux.nodup f

end Demux

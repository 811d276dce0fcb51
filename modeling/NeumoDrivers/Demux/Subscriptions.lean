import Mathlib.Logic.Function.Basic
import Mathlib.Data.Int.Basic

/-! Subscribing to the streams embedded in a transport stream (`neumo-dvb-demux.c`).

    A container of feeds (`struct neumo_dvb_demux_feeds`) has at most one embedded stream on a pid,
    an embedded stream at most one stream of BBFRAMEs under a key, and that stream has a container of
    its own, so that streams nest. All three are counted; an embedded stream counts as a user of its
    parent container. `kzalloc` returns a number not given out before. `usedAfterFree` is set by an
    operation on an xarray of something whose count is 0. The calls run under the mutex of the
    demux, so each is one step; `locked` tells whether one has left the mutex locked. -/

namespace Demux
open Function

abbrev EmbNo := ℕ

abbrev BbfNo := ℕ

/-- The containers: that of the frontend, that of users that name none, and one for each stream of
    BBFRAMEs. -/
inductive FeedsNo where | fe | default | ofBbf (b : BbfNo)
  deriving DecidableEq

structure Feeds where
  refcount : ℕ
  includeDefaultFeeds : Bool
  embeddedStreams : ℤ → Option EmbNo

structure Emb where
  refcount : ℕ
  embeddingPid : ℤ
  parentFeeds : FeedsNo
  bbfStreams : ℕ → Option BbfNo

structure Bbf where
  refcount : ℕ
  isi : ℤ
  parentEmbeddedStream : EmbNo

structure DvbDemux where
  feeds : FeedsNo → Feeds
  embs : EmbNo → Emb
  bbfs : BbfNo → Bbf
  nextEmb : EmbNo
  nextBbf : BbfNo
  feBbframesStream : Option BbfNo
  usedAfterFree : Bool
  locked : Bool

inductive EmbeddedStreamType where | stid | t2mi

/-- The key of a stream in `bbf_streams`; a negative number asks for any stream. -/
def bbfKey (isi : ℤ) : ℕ := if isi < 0 then 256 else isi.toNat

/-! ### Looking up and storing -/

def DvbDemux.setFeeds (demux : DvbDemux) (f : FeedsNo) (x : Feeds) : DvbDemux :=
  { demux with feeds := update demux.feeds f x }

def DvbDemux.setEmb (demux : DvbDemux) (e : EmbNo) (x : Emb) : DvbDemux :=
  { demux with embs := update demux.embs e x }

def DvbDemux.setBbf (demux : DvbDemux) (b : BbfNo) (x : Bbf) : DvbDemux :=
  { demux with bbfs := update demux.bbfs b x }

/-- An operation on `embedded_streams`. -/
def DvbDemux.touchFeeds (demux : DvbDemux) (f : FeedsNo) : DvbDemux :=
  { demux with usedAfterFree := demux.usedAfterFree || (demux.feeds f).refcount == 0 }

/-- An operation on `bbf_streams`. -/
def DvbDemux.touchEmb (demux : DvbDemux) (e : EmbNo) : DvbDemux :=
  { demux with usedAfterFree := demux.usedAfterFree || (demux.embs e).refcount == 0 }

/-- The demux as `neumo_dvb_dmx_init` leaves it. -/
def dvbDmxInit : DvbDemux where
  feeds f := ⟨if f = .fe ∨ f = .default then 1 else 0, f = .fe, fun _ => none⟩
  embs _ := ⟨0, 0, .fe, fun _ => none⟩
  bbfs _ := ⟨0, 0, 0⟩
  nextEmb := 0
  nextBbf := 0
  feBbframesStream := none
  usedAfterFree := false
  locked := false

/-! ### Allocating -/

/-- `dvb_dmx_find_or_alloc_bbf_stream`. -/
def findOrAllocBbfStream (demux : DvbDemux) (e : EmbNo) (isi : ℤ) : DvbDemux × BbfNo :=
  let key := bbfKey isi
  let demux := demux.touchEmb e
  let emb := demux.embs e
  match emb.bbfStreams key with
  | none =>
    let b := demux.nextBbf
    let demux := { demux with nextBbf := b + 1 }
    let demux := demux.setBbf b ⟨1, key, e⟩
    let demux := demux.setFeeds (.ofBbf b) ⟨1, false, fun _ => none⟩
    (demux.setEmb e { emb with bbfStreams := update emb.bbfStreams key (some b) }, b)
  | some b =>
    let bbf := demux.bbfs b
    (demux.setBbf b { bbf with refcount := bbf.refcount + 1 }, b)

/-- The embedded stream on a pid, with one reference more; `ok` tells whether `kzalloc` succeeds
    where there is none yet. -/
def findOrAllocEmb (demux : DvbDemux) (pid : ℤ) (parent : FeedsNo) (ok : Bool) :
    DvbDemux × Option EmbNo :=
  let demux := demux.touchFeeds parent
  let feeds := demux.feeds parent
  match feeds.embeddedStreams pid with
  | none =>
    if ¬ ok then (demux, none)
    else
      let e := demux.nextEmb
      let demux := { demux with nextEmb := e + 1 }
      let demux := demux.setEmb e ⟨1, pid, parent, fun _ => none⟩
      (demux.setFeeds parent
        { feeds with
          refcount := feeds.refcount + 1
          embeddedStreams := update feeds.embeddedStreams pid (some e) }, some e)
  | some e =>
    let emb := demux.embs e
    (demux.setEmb e { emb with refcount := emb.refcount + 1 }, some e)

/-- Where a stream is looked for when the caller names no container. -/
def EmbeddedStreamType.parent (type : EmbeddedStreamType) : FeedsNo :=
  match type with
  | .stid => .fe
  | .t2mi => .default

/-- `dvbdmx_allocate_stid_stream_` and `dvbdmx_allocate_t2mi_stream_`; without memory they return
    `-EBUSY`. -/
def allocateStream (demux : DvbDemux) (pid isi : ℤ) (parent : FeedsNo) (ok : Bool) :
    DvbDemux × Option BbfNo :=
  match findOrAllocEmb demux pid parent ok with
  | (demux, none) => (demux, none)
  | (demux, some e) =>
    let (demux, b) := findOrAllocBbfStream demux e isi
    (demux, some b)

/-! ### Releasing -/

/-- `kref_put` on a container. -/
def putFeeds (demux : DvbDemux) (f : FeedsNo) : DvbDemux :=
  let feeds := demux.feeds f
  demux.setFeeds f { feeds with refcount := feeds.refcount - 1 }

/-- `embedded_stream_release_`: the reference to the parent is dropped before the entry in it is
    erased. -/
def embeddedStreamRelease_ (demux : DvbDemux) (e : EmbNo) : DvbDemux :=
  let emb := demux.embs e
  let demux := (putFeeds demux emb.parentFeeds).touchFeeds emb.parentFeeds
  let feeds := demux.feeds emb.parentFeeds
  demux.setFeeds emb.parentFeeds
    { feeds with embeddedStreams := update feeds.embeddedStreams emb.embeddingPid none }

/-- `embedded_stream_release`. -/
def embeddedStreamRelease (demux : DvbDemux) (e : EmbNo) : DvbDemux :=
  let emb := demux.embs e
  let demux := demux.setEmb e { emb with refcount := emb.refcount - 1 }
  if (demux.embs e).refcount = 0 then embeddedStreamRelease_ demux e else demux

/-- `bbframes_stream_release_`. -/
def bbframesStreamRelease_ (demux : DvbDemux) (b : BbfNo) : DvbDemux :=
  let bbf := demux.bbfs b
  let e := bbf.parentEmbeddedStream
  let demux := (putFeeds demux (.ofBbf b)).touchEmb e
  let emb := demux.embs e
  demux.setEmb e { emb with bbfStreams := update emb.bbfStreams (bbfKey bbf.isi) none }

/-- `kref_put` on a stream of BBFRAMEs. -/
def putBbf (demux : DvbDemux) (b : BbfNo) : DvbDemux :=
  let bbf := demux.bbfs b
  let demux := demux.setBbf b { bbf with refcount := bbf.refcount - 1 }
  if (demux.bbfs b).refcount = 0 then bbframesStreamRelease_ demux b else demux

/-- `bbframes_stream_release`. -/
def bbframesStreamRelease (demux : DvbDemux) (b : BbfNo) : DvbDemux :=
  embeddedStreamRelease (putBbf demux b) (demux.bbfs b).parentEmbeddedStream

/-! ### The stream of the frontend -/

def DvbDemux.setInclude (demux : DvbDemux) (f : FeedsNo) (yes : Bool) : DvbDemux :=
  demux.setFeeds f { demux.feeds f with includeDefaultFeeds := yes }

/-- Give up the stream of the frontend. -/
def dropFeStream (demux : DvbDemux) : DvbDemux :=
  match demux.feBbframesStream with
  | none => demux
  | some b =>
    let demux := { bbframesStreamRelease demux b with feBbframesStream := none }
    demux.setInclude .fe true

/-- `dvb_demux_set_bbframes_state`; where the allocation fails it returns with the mutex locked. -/
def setBbframesState (demux : DvbDemux) (embeddingIsOn : Bool) (pid isi : ℤ) (ok : Bool) :
    DvbDemux :=
  let demux := dropFeStream demux
  if embeddingIsOn then
    match allocateStream demux pid isi .fe ok with
    | (demux, none) => { demux with locked := true }
    | (demux, some b) =>
      let demux := { demux with feBbframesStream := some b }
      (demux.setInclude (.ofBbf b) true).setInclude .fe false
  else demux.setInclude .fe true

/-! ### Runs -/

/-- An allocation that has not been released: what was asked for, and the stream returned. -/
structure Alloc where
  parent : FeedsNo
  pid : ℤ
  key : ℕ
  bbf : BbfNo
  deriving DecidableEq

/-- The demux and the allocations that its users and the frontend hold. -/
structure Shared where
  demux : DvbDemux
  users : List Alloc
  fe : Option Alloc

inductive Request where
  | allocate (type : EmbeddedStreamType) (pid isi : ℤ) (parent : Option FeedsNo) (ok : Bool)
  | release (a : Alloc)
  | setBbframesState (embeddingIsOn : Bool) (pid isi : ℤ) (ok : Bool)
  | interrupted

/-- What callers see to: a container that is named is one of the two fixed ones or that of a stream
    which is held, and what is released is held. -/
def Shared.Allowed (s : Shared) : Request → Prop
  | .allocate _ _ _ parent _ => ∀ b, parent = some (.ofBbf b) → ∃ a ∈ s.users, a.bbf = b
  | .release a => a ∈ s.users
  | _ => True

def Shared.next (s : Shared) : Request → Shared
  | .allocate type pid isi parent ok =>
    let parent := parent.getD type.parent
    match allocateStream s.demux pid isi parent ok with
    | (demux, none) => { s with demux := demux }
    | (demux, some b) => { s with demux := demux, users := ⟨parent, pid, bbfKey isi, b⟩ :: s.users }
  | .release a => { s with demux := bbframesStreamRelease s.demux a.bbf, users := s.users.erase a }
  | .setBbframesState embeddingIsOn pid isi ok =>
    let demux := setBbframesState s.demux embeddingIsOn pid isi ok
    ⟨demux, s.users, demux.feBbframesStream.map fun b => ⟨.fe, pid, bbfKey isi, b⟩⟩
  | .interrupted => s

/-- Requests in any order; once the mutex is left locked there are no further ones. -/
inductive Run (Good : Shared → Request → Prop) : Shared → Prop where
  | init : Run Good ⟨dvbDmxInit, [], none⟩
  | step {s : Shared} (r : Request) : Run Good s → s.demux.locked = false → s.Allowed r →
      Good s r → Run Good (s.next r)

end Demux

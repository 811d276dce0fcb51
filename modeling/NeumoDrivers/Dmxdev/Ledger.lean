import NeumoDrivers.Lib.Loans
import NeumoDrivers.Dmxdev.FailedStart

/-! What a filter has acquired from its demux (`neumo-dmxdev.c`).

    A demux is given a ledger in which everything that a filter acquires is recorded, and crossed out
    when it is given back. The filter is the only one that works on that ledger; the other filters
    come and go, and change the demux as they like. -/

namespace Dmx
open CircularList Dmxdev
open Demux (FeedsNo BbfNo)

/-- What has been acquired and not given back. -/
structure Ledger where
  pidStreams : Multiset PidStreamNo
  bbfStreams : Multiset BbfNo
  secFeeds : Multiset SecFeedNo
  secFilters : Multiset SecFilterNo
  /-- `release_bbf_stream` was called with `NULL`. -/
  crashed : Bool

namespace Ledger

variable (ledger : Ledger)

def empty : Ledger := ⟨0, 0, 0, 0, false⟩

def takePid (s : PidStreamNo) : Ledger :=
  { ledger with pidStreams := s ::ₘ ledger.pidStreams }

def givePid (s : PidStreamNo) : Ledger :=
  { ledger with pidStreams := ledger.pidStreams.erase s }

/-- An allocation that fails and leaves a pointer keeps the slot. -/
def pidResult : Except (Errno × Option PidStreamNo) PidStreamNo → Ledger
  | .ok s | .error (_, some s) => ledger.takePid s
  | .error (_, none) => ledger

def bbfResult : Except Errno (BbfNo × FeedsNo) → Ledger
  | .ok (b, _) => { ledger with bbfStreams := b ::ₘ ledger.bbfStreams }
  | .error _ => ledger

def giveBbf : Option BbfNo → Ledger
  | some b => { ledger with bbfStreams := ledger.bbfStreams.erase b }
  | none => { ledger with crashed := true }

def secFeedResult : Except Errno SecFeedNo → Ledger
  | .ok k => { ledger with secFeeds := k ::ₘ ledger.secFeeds }
  | .error _ => ledger

def giveSecFeed (k : SecFeedNo) : Ledger :=
  { ledger with secFeeds := ledger.secFeeds.erase k }

def secFilterResult : Except Errno SecFilterNo → Ledger
  | .ok f => { ledger with secFilters := f ::ₘ ledger.secFilters }
  | .error _ => ledger

def giveSecFilter (f : SecFilterNo) : Ledger :=
  { ledger with secFilters := ledger.secFilters.erase f }

/-- A section feed that is started without a filter of ours in it is started for another filter,
    which has it from then on. -/
def startSecFeed (k : SecFeedNo) : Ledger :=
  if ledger.secFilters = 0 then ledger.giveSecFeed k else ledger

end Ledger

section
variable {δ : Type}

/-- A call of the demux, and what its result does to the ledger. -/
def recorded {α : Type} (f : δ → α × δ) (record : Ledger → α → Ledger) (d : δ × Ledger) :
    α × (δ × Ledger) :=
  ((f d.1).1, (f d.1).2, record d.2 (f d.1).1)

theorem recorded_ledger {α : Type} {f : δ → α × δ} {record : Ledger → α → Ledger}
    {d d' : δ × Ledger} {result : α} (h : recorded f record d = (result, d')) :
    d'.2 = record d.2 result := by
  cases h
  rfl

def ledgered (ops : DmxDemux δ) : DmxDemux (δ × Ledger) where
  kzalloc := recorded ops.kzalloc fun ledger _ => ledger
  vmalloc := recorded ops.vmalloc fun ledger _ => ledger
  getFeFeeds d := ops.getFeFeeds d.1
  allocateStream type embeddingPid isi parent :=
    recorded (ops.allocateStream type embeddingPid isi parent) Ledger.bbfResult
  releaseBbfStream stream := Prod.map (ops.releaseBbfStream stream) (Ledger.giveBbf · stream)
  allocateNeumoPidStream pid tsType pesType parent :=
    recorded (ops.allocateNeumoPidStream pid tsType pesType parent) Ledger.pidResult
  releaseNeumoPidStream s := Prod.map (ops.releaseNeumoPidStream s) (Ledger.givePid · s)
  setPriv s := Prod.map (ops.setPriv s) id
  startFiltering s := recorded (ops.startFiltering s) fun ledger _ => ledger
  stopFiltering s := Prod.map (ops.stopFiltering s) id
  allocateSectionFeed pid checkCrc parent :=
    recorded (ops.allocateSectionFeed pid checkCrc parent) Ledger.secFeedResult
  releaseSectionFeed k := Prod.map (ops.releaseSectionFeed k) (Ledger.giveSecFeed · k)
  allocateSectionFilter k := recorded (ops.allocateSectionFilter k) Ledger.secFilterResult
  releaseSectionFilter k f := Prod.map (ops.releaseSectionFilter k f) (Ledger.giveSecFilter · f)
  startSectionFiltering k :=
    recorded (ops.startSectionFiltering k) fun ledger _ => ledger.startSecFeed k
  stopSectionFiltering k := Prod.map (ops.stopSectionFiltering k) id

/-- The section filters that run on a pid have one feed, ours with them. -/
structure OneFeed (dev : Dmxdev δ) (users : List SecUser) : Prop where
  shared : ∀ pid, ∀ user ∈ users, ∀ user' ∈ users, user.Runs pid → user'.Runs pid →
    user.sec = user'.sec
  own : dev.filter.type = .sec → .go ≤ dev.filter.state →
    ∀ user ∈ users, user.Runs dev.filter.params.secPid → dev.sec = .other user.sec

/-- What a file descriptor goes through from its opening on, while the other filters do what they
    do. -/
inductive LedgerRun (ops : DmxDemux δ) (Good : Dmxdev (δ × Ledger) → Request → Prop) :
    Dmxdev (δ × Ledger) → Prop where
  | opened (dev : Dmxdev (δ × Ledger)) : dev.demux.2 = .empty →
    OneFeed (demuxOpen dev) dev.others → LedgerRun ops Good (demuxOpen dev)
  | step {dev : Dmxdev (δ × Ledger)} (request : Request) : LedgerRun ops Good dev →
    dev.filter.state ≠ .free → Good dev request →
    LedgerRun ops Good (doIoctl (ledgered ops) dev request).2
  | meanwhile {dev : Dmxdev (δ × Ledger)} (users : List SecUser) (demux : δ) :
    LedgerRun ops Good dev → OneFeed dev users →
    LedgerRun ops Good { dev with others := users, demux := (demux, dev.demux.2) }

/-- Everything that was acquired has been given back, and the filter is free. -/
structure Closed (dev : Dmxdev (δ × Ledger)) : Prop where
  state : dev.filter.state = .free
  /-- No entry is left, and the list, if the union is one, is empty. -/
  added : dev.added = []
  list : dev.IsList → Linked dev.filter.feed []
  buffer : dev.filter.bufferData = false
  ledger : dev.demux.2 = .empty

end

end Dmx

import NeumoDrivers.Dvb.CaRead

/-! The slots of a CA device and the messages read from them.

    The thread of the device writes each link fragment of a running slot into the slot's receive
    buffer. A read waits until `dvb_ca_en50221_io_read_condition` names a slot and then collects a
    message from that slot's buffer. The two look at the buffers on their own, and fragments may
    come in between any two passes of the read's loop. The condition walks through each buffer once,
    so it is one step here: what comes in meanwhile might as well come before or after it.

    What is not in the source is the history that the properties are about: the fragments each slot
    received, with the link session and the opening of the device they were received in, and what
    the reads returned. -/

namespace Dvb
open Demux Loop DvbRingbuffer

/-- `HOST_LINK_BUF_SIZE` -/
def hostLinkBufSize : ℕ := 0x200

/-- `DVB_CA_SLOTSTATE_*` -/
inductive SlotState where
  | none
  | uninitialised
  | running
  | invalid
  | waitReady
  | validate
  | waitFr
  | linkInit
  deriving DecidableEq

/-- A slot; without a buffer its `rx_buffer.data` is `NULL`. -/
structure CaSlot where
  slotState : SlotState
  rxBuffer : Option (DvbRingbuffer rxBufferSize)
  linkBufSize : ℕ

/-- The `struct dvb_ca_private` of a device with `n` slots. -/
structure CaPrivate (n : ℕ) where
  slotInfo : Fin n → CaSlot
  nextReadSlot : Fin n
  opened : Bool

variable {n : ℕ}

/-- The scan of `dvb_ca_en50221_io_read_condition` from `slot` on, with so many slots to go and the
    connection id it knows: the slot it found, and the new `next_read_slot`. -/
inductive ScansSlots [NeZero n] (ca : CaPrivate n) :
    ℕ → Fin n → Option UInt8 → Option (Fin n) → Fin n → Prop where
  | done {slot : Fin n} {conn : Option UInt8} : ScansSlots ca 0 slot conn none slot
  | notRunning {k : ℕ} {slot nextSlot : Fin n} {conn : Option UInt8} {r : Option (Fin n)}
      (hstate : (ca.slotInfo slot).slotState ≠ .running)
      (hrest : ScansSlots ca k (slot + 1) conn r nextSlot) :
      ScansSlots ca (k + 1) slot conn r nextSlot
  | noBuffer {k : ℕ} {slot : Fin n} {conn : Option UInt8}
      (hstate : (ca.slotInfo slot).slotState = .running)
      (hbuf : (ca.slotInfo slot).rxBuffer = none) :
      ScansSlots ca (k + 1) slot conn none ca.nextReadSlot
  | found {k : ℕ} {slot : Fin n} {conn conn' : Option UInt8} {rbuf : DvbRingbuffer rxBufferSize}
      {next : Option (ℕ × ℕ)} (hstate : (ca.slotInfo slot).slotState = .running)
      (hbuf : (ca.slotInfo slot).rxBuffer = some rbuf) (hnext : rbuf.PktNext none next)
      (hscan : ScansSlot rbuf next conn (conn', true)) :
      ScansSlots ca (k + 1) slot conn (some slot) (slot + 1)
  | nothing {k : ℕ} {slot nextSlot : Fin n} {conn conn' : Option UInt8} {r : Option (Fin n)}
      {rbuf : DvbRingbuffer rxBufferSize} {next : Option (ℕ × ℕ)}
      (hstate : (ca.slotInfo slot).slotState = .running)
      (hbuf : (ca.slotInfo slot).rxBuffer = some rbuf) (hnext : rbuf.PktNext none next)
      (hscan : ScansSlot rbuf next conn (conn', false))
      (hrest : ScansSlots ca k (slot + 1) conn' r nextSlot) :
      ScansSlots ca (k + 1) slot conn r nextSlot

/-- `dvb_ca_en50221_io_read_condition`: the slot it found, if any, and the device afterwards. -/
def ReadCondition [NeZero n] (ca : CaPrivate n) (r : Option (Fin n)) (ca' : CaPrivate n) : Prop :=
  ∃ nextSlot, ScansSlots ca n ca.nextReadSlot none r nextSlot ∧
    ca' = { ca with nextReadSlot := nextSlot }

/-- `dvb_ca_en50221_slot_shutdown` -/
def CaSlot.shutdown (sl : CaSlot) : CaSlot := { sl with slotState := .none }

/-- What `dvb_ca_en50221_io_open` does to a slot. It flushes the buffer of a running slot that has
    none. -/
def CaSlot.flushOnOpen (sl : CaSlot) : CaSlot :=
  if sl.slotState = .running then
    if sl.rxBuffer = none then { sl with rxBuffer := sl.rxBuffer.map DvbRingbuffer.flush } else sl
  else sl

/-- What the end of a link initialisation does to a slot: it gets a buffer unless it has one, and
    runs. -/
def CaSlot.linkDone (sl : CaSlot) (linkBufSize : ℕ) (rxbuf : Buff UInt8 rxBufferSize) : CaSlot where
  slotState := .running
  rxBuffer := some (sl.rxBuffer.getD (DvbRingbuffer.init rxbuf))
  linkBufSize := linkBufSize

def CaPrivate.setSlot (ca : CaPrivate n) (slot : Fin n) (sl : CaSlot) : CaPrivate n :=
  { ca with slotInfo := Function.update ca.slotInfo slot sl }

def CaPrivate.setBuffer (ca : CaPrivate n) (slot : Fin n) (rbuf : DvbRingbuffer rxBufferSize) :
    CaPrivate n :=
  ca.setSlot slot { ca.slotInfo slot with rxBuffer := some rbuf }

/-! ### The system -/

/-- A fragment received, in which link session of its slot and after which opening of the device. -/
structure Fragment where
  bytes : List UInt8
  session : ℕ
  opening : ℕ
  deriving DecidableEq

namespace Fragment

def connectionId (f : Fragment) : UInt8 := f.bytes.getD 0 0

def isLast (f : Fragment) : Prop := lastFragment (f.bytes.getD 1 0)

instance (f : Fragment) : Decidable f.isLast := inferInstanceAs (Decidable (lastFragment _))

/-- The payloads of fragments, one behind the other. -/
def payloads (fs : List Fragment) : List UInt8 := fs.flatMap fun f => f.bytes.drop 2

theorem payloads_append (fs gs : List Fragment) :
    payloads (fs ++ gs) = payloads fs ++ payloads gs :=
  List.flatMap_append

theorem payloads_singleton (f : Fragment) : payloads [f] = f.bytes.drop 2 :=
  List.flatMap_singleton ..

end Fragment

theorem take_take_append {α : Type} (k : ℕ) (l l' : List α) :
    (l.take k ++ l').take k = (l ++ l').take k := by
  rw [List.take_append, List.take_append, List.take_take, Nat.min_self, List.length_take,
    (by omega : k - min k l.length = k - l.length)]

/-- A fragment received, where it was put in the buffer, and whether it was disposed of. -/
structure Logged where
  pos : ℕ
  disposed : Bool
  fragment : Fragment

namespace Logged

def pkt (e : Logged) : Pkt := ⟨e.pos, e.fragment.bytes, e.disposed⟩

def disposeAt (idx : ℕ) (e : Logged) : Logged :=
  { e with disposed := e.disposed || e.pos == idx }

end Logged

/-- The fragments that were not disposed of. -/
def held (log : List Logged) : List Fragment := (log.filter fun e => !e.disposed).map Logged.fragment

/-- A slot's history after the packet at `gone` was disposed of. -/
def dispose (gone : Option ℕ) (log : List Logged) : List Logged :=
  match gone with
  | none => log
  | some idx => log.map (Logged.disposeAt idx)

/-- The fragment that is disposed of with the packet at `gone`. -/
def disposedAt (gone : Option ℕ) (log : List Logged) : List Fragment :=
  match gone with
  | none => []
  | some idx => held (log.filter fun e => e.pos = idx)

/-- Where the reading process is: outside of a read, past the condition, or in the loop, where
    `taken` has the fragments it took so far. -/
inductive Reader (n : ℕ) where
  | idle
  | selected (count : ℕ) (slot : Fin n)
  | reading (count : ℕ) (slot : Fin n) (st : Reading) (taken : List Fragment)

/-- A read that returned: the slot and the user's size, the fragments it took, in which opening of
    the device, and its result. -/
structure Returned (n : ℕ) where
  slot : Fin n
  count : ℕ
  taken : List Fragment
  opening : ℕ
  result : Except ℤ (UInt8 × List UInt8)

structure CaSystem (n : ℕ) where
  ca : CaPrivate n
  reader : Reader n
  log : Fin n → List Logged
  session : Fin n → ℕ
  opening : ℕ
  reads : List (Returned n)

inductive CaEvent (n : ℕ) where
  | receive (slot : Fin n) (bytes : List UInt8)
  | poll
  | select
  | start
  | pass
  | finish
  | slotState
  | linkInit
  | reset
  | open
  | close
  deriving DecidableEq

namespace CaSystem

/-- The system takes a step. A failed condition of a read does what a poll does. `slot_state` is
    assigned in many places, by shutdowns, link errors and the steps of the state machine; here it
    may become anything but running at any time. The thread looks at `ca->open` before it fetches the
    data, so a fragment may still come in after a close. -/
inductive Step [NeZero n] (s : CaSystem n) : CaEvent n → CaSystem n → Prop where
  | receive {slot : Fin n} {rbuf rbuf' : DvbRingbuffer rxBufferSize} {bytes : List UInt8}
      (hstate : (s.ca.slotInfo slot).slotState = .running)
      (hbuf : (s.ca.slotInfo slot).rxBuffer = some rbuf)
      (hlen : 2 ≤ bytes.length) (hlen' : bytes.length ≤ (s.ca.slotInfo slot).linkBufSize)
      (hfree : ((s.ca.slotInfo slot).linkBufSize + pkthdrsize : ℕ) ≤ rbuf.free)
      (hwrite : rbuf.pktWrite bytes = some rbuf') :
      Step s (.receive slot bytes) { s with
        ca := s.ca.setBuffer slot rbuf'
        log := Function.update s.log slot
          (s.log slot ++ [⟨rbuf.pwrite, false, ⟨bytes, s.session slot, s.opening⟩⟩]) }
  | poll {r : Option (Fin n)} {ca' : CaPrivate n} (hcond : ReadCondition s.ca r ca') :
      Step s .poll { s with ca := ca' }
  | select {count : ℕ} {slot : Fin n} {ca' : CaPrivate n} (hopen : s.ca.opened)
      (hidle : s.reader = .idle) (hcount : 2 ≤ count) (hcond : ReadCondition s.ca (some slot) ca') :
      Step s .select { s with ca := ca', reader := .selected count slot }
  | start {count : ℕ} {slot : Fin n} {rbuf : DvbRingbuffer rxBufferSize} {idx : Option (ℕ × ℕ)}
      (hreader : s.reader = .selected count slot)
      (hbuf : (s.ca.slotInfo slot).rxBuffer = some rbuf) (hnext : rbuf.PktNext none idx) :
      Step s .start { s with reader := .reading count slot ⟨idx, none, []⟩ [] }
  | pass {count : ℕ} {slot : Fin n} {st st' : Reading} {taken : List Fragment}
      {rbuf rbuf' : DvbRingbuffer rxBufferSize} {gone : Option ℕ}
      (hreader : s.reader = .reading count slot st taken)
      (hbuf : (s.ca.slotInfo slot).rxBuffer = some rbuf)
      (hstep : ReadStep count rbuf st (.again st') gone rbuf') :
      Step s .pass { s with
        ca := s.ca.setBuffer slot rbuf'
        reader := .reading count slot st' (taken ++ disposedAt gone (s.log slot))
        log := Function.update s.log slot (dispose gone (s.log slot)) }
  | finish {count : ℕ} {slot : Fin n} {st : Reading} {taken : List Fragment}
      {rbuf rbuf' : DvbRingbuffer rxBufferSize} {gone : Option ℕ}
      {r : Except ℤ (UInt8 × List UInt8)} (hreader : s.reader = .reading count slot st taken)
      (hbuf : (s.ca.slotInfo slot).rxBuffer = some rbuf)
      (hstep : ReadStep count rbuf st (.exit r) gone rbuf') :
      Step s .finish { s with
        ca := s.ca.setBuffer slot rbuf'
        reader := .idle
        log := Function.update s.log slot (dispose gone (s.log slot))
        reads := s.reads ++
          [⟨slot, count, taken ++ disposedAt gone (s.log slot), s.opening, r⟩] }
  | slotState {slot : Fin n} {state : SlotState} (hstate : state ≠ .running) :
      Step s .slotState { s with
        ca := s.ca.setSlot slot { s.ca.slotInfo slot with slotState := state } }
  | linkInit {slot : Fin n} {linkBufSize : ℕ} {rxbuf : Buff UInt8 rxBufferSize}
      (hstate : (s.ca.slotInfo slot).slotState = .linkInit)
      (hsize : linkBufSize ≤ hostLinkBufSize) :
      Step s .linkInit { s with
        ca := s.ca.setSlot slot ((s.ca.slotInfo slot).linkDone linkBufSize rxbuf)
        session := Function.update s.session slot (s.session slot + 1) }
  | reset : Step s .reset { s with
      ca := { s.ca with slotInfo := fun slot => (s.ca.slotInfo slot).shutdown, nextReadSlot := 0 } }
  | open (hclosed : s.ca.opened = false) : Step s .open { s with
      ca := { s.ca with slotInfo := fun slot => (s.ca.slotInfo slot).flushOnOpen, opened := true }
      opening := s.opening + 1 }
  | close (hopen : s.ca.opened) (hidle : s.reader = .idle) :
      Step s .close { s with ca := { s.ca with opened := false } }

/-! ### The history and the buffers -/

end CaSystem

variable {log l rest : List Logged} {e : Logged}

@[simp] theorem held_nil : held [] = [] := rfl

@[simp] theorem held_append (l l' : List Logged) : held (l ++ l') = held l ++ held l' := by
  simp [held]

theorem held_ready (he : e.disposed = false) (l : List Logged) :
    held (e :: l) = e.fragment :: held l := by
  simp [held, he]

theorem held_gone (he : e.disposed) (l : List Logged) : held (e :: l) = held l := by
  simp [held, he]

theorem mem_held {f : Fragment} :
    f ∈ held log ↔ ∃ e ∈ log, e.disposed = false ∧ e.fragment = f := by
  simp [held, and_assoc]

theorem held_of_gone (h : ∀ e ∈ l, e.disposed) : held l = [] := by
  rw [held, List.map_eq_nil_iff, List.filter_eq_nil_iff]
  intro e he
  simp [h e he]

theorem firstReady_eq_none : firstReady (log.map Logged.pkt) = none ↔ held log = [] := by
  rcases firstReady_cases (log.map Logged.pkt) with
    ⟨hnone, hall⟩ | ⟨skipped, p, rest, hps, -, hp, hsome⟩
  · exact iff_of_true hnone (held_of_gone fun e he => hall e.pkt (List.mem_map_of_mem he))
  · obtain ⟨e, he, rfl⟩ := List.mem_map.mp (hps ▸ List.mem_append_right _ List.mem_cons_self)
    refine iff_of_false (by rw [hsome]; exact nofun) (List.ne_nil_of_mem (a := e.fragment) ?_)
    exact mem_held.mpr ⟨e, he, hp, rfl⟩

theorem firstReady_ne_none {f : Fragment} (hf : f ∈ held log) :
    firstReady (log.map Logged.pkt) ≠ none :=
  fun hnone => List.ne_nil_of_mem hf (firstReady_eq_none.mp hnone)

theorem map_fragment_dispose (gone : Option ℕ) (log : List Logged) :
    (dispose gone log).map Logged.fragment = log.map Logged.fragment := by
  cases gone with
  | none => rfl
  | some idx =>
    rw [dispose, List.map_map]
    rfl

theorem fragments_dispose (gone : Option ℕ) (h : Fragments (log.map Logged.pkt)) :
    Fragments ((dispose gone log).map Logged.pkt) := by
  cases gone with
  | none => exact h
  | some idx =>
    intro p hp
    obtain ⟨e, he, rfl⟩ := List.mem_map.mp hp
    obtain ⟨e₀, he₀, rfl⟩ := List.mem_map.mp he
    exact h e₀.pkt (List.mem_map_of_mem he₀)

/-- What the history has of a packet known to be in the buffer. -/
theorem dispose_eq {rbuf : DvbRingbuffer rxBufferSize}
    (h : Holds (kept ((l ++ e :: rest).map Logged.pkt)) rbuf) (he : e.disposed = false) :
    dispose (some e.pos) (l ++ e :: rest) = l ++ { e with disposed := true } :: rest ∧
      disposedAt (some e.pos) (l ++ e :: rest) = [e.fragment] := by
  rw [List.map_append, List.map_cons] at h
  obtain ⟨hbefore, hbehind⟩ := h.apart (p := e.pkt) he
  have hl : ∀ q ∈ l, q.disposed ∨ q.pos ≠ e.pos := fun q hq =>
    hbefore q.pkt (List.mem_map_of_mem hq)
  have hrest : ∀ q ∈ rest, q.pos ≠ e.pos := fun q hq => hbehind q.pkt (List.mem_map_of_mem hq)
  have hkeeps : ∀ q : Logged, q.disposed ∨ q.pos ≠ e.pos → q.disposeAt e.pos = q := by
    rintro ⟨pos, disposed, fragment⟩ hq
    simp only [Logged.disposeAt, Logged.mk.injEq, and_true, true_and, Bool.or_eq_left_iff_imp,
      beq_iff_eq]
    intro hpos
    exact hq.resolve_right fun hne => hne hpos
  constructor
  · have hmap : ∀ ls : List Logged, (∀ q ∈ ls, q.disposed ∨ q.pos ≠ e.pos) →
        ls.map (Logged.disposeAt e.pos) = ls := by
      intro ls hls
      conv_rhs => rw [← List.map_id ls]
      exact List.map_congr_left fun q hq => hkeeps q (hls q hq)
    rw [dispose, List.map_append, List.map_cons, hmap l hl, hmap rest fun q hq => .inr (hrest q hq),
      Logged.disposeAt, beq_self_eq_true, Bool.or_true]
  · rw [disposedAt, List.filter_append, List.filter_cons_of_pos (by simp), held_append,
      held_ready he, held_of_gone, held_of_gone]
    · rfl
    · intro q hq
      exact absurd (of_decide_eq_true (List.mem_filter.mp hq).2) (hrest q (List.mem_filter.mp hq).1)
    · intro q hq
      exact (hl q (List.mem_filter.mp hq).1).resolve_right fun hne =>
        hne (of_decide_eq_true (List.mem_filter.mp hq).2)

/-- Where a read under way stands in the history of its slot: at the first fragment of `ps` or past
    the last one there was when it looked. It has copied the payloads of what it took, and left no
    fragment of its connection behind. -/
structure Reading.Places (count : ℕ) (log : List Logged) (st : Reading) (taken : List Fragment) :
    Prop where
  count_ge : 2 ≤ count
  buf_eq : st.buf = (Fragment.payloads taken).take (count - 2)
  at_next : ∃ l ps, log = l ++ ps ∧ (st.idx = none ∨ st.idx = firstReady (ps.map Logged.pkt)) ∧
    ∀ f ∈ held l, ∃ c, st.conn = some c ∧ f.connectionId ≠ c
  taken_more : ∀ f ∈ taken, st.conn = some f.connectionId ∧ ¬ f.isLast

/-- One pass of the loop, by the first fragment it has still to look at. -/
theorem Reading.Places.step_cases {count : ℕ} {st : Reading} {taken : List Fragment}
    {rbuf rbuf' : DvbRingbuffer rxBufferSize} {gone : Option ℕ}
    {out : Next Reading (Except ℤ (UInt8 × List UInt8))} (hp : st.Places count log taken)
    (hholds : Holds (kept (log.map Logged.pkt)) rbuf) (hf : Fragments (log.map Logged.pkt))
    (hstep : ReadStep count rbuf st out gone rbuf') :
    (st.idx = none ∧ gone = none ∧ rbuf' = rbuf ∧ out = .exit (.error (-eio))) ∨
    ∃ l e rest, log = l ++ e :: rest ∧ e.disposed = false ∧
      (∀ f ∈ held l, f.connectionId ≠ st.conn.getD e.fragment.connectionId ∧ st.conn ≠ none) ∧
      ((e.fragment.connectionId ≠ st.conn.getD e.fragment.connectionId ∧ gone = none ∧
          rbuf' = rbuf ∧ out = .again ⟨firstReady (rest.map Logged.pkt),
            some (st.conn.getD e.fragment.connectionId), st.buf⟩) ∨
        (e.fragment.connectionId = st.conn.getD e.fragment.connectionId ∧ gone = some e.pos ∧
          Holds (kept ((l ++ { e with disposed := true } :: rest).map Logged.pkt)) rbuf' ∧
          out = if e.fragment.isLast then .exit (.ok (e.fragment.connectionId,
              (Fragment.payloads (taken ++ [e.fragment])).take (count - 2)))
            else .again ⟨firstReady (rest.map Logged.pkt), some e.fragment.connectionId,
              (Fragment.payloads (taken ++ [e.fragment])).take (count - 2)⟩)) := by
  obtain ⟨idx, conn, buf⟩ := st
  obtain ⟨l, ps, rfl, hidx, hl⟩ := hp.at_next
  have hcount := hp.count_ge
  have hbuf := hp.buf_eq
  simp only at hidx hl hbuf ⊢
  rcases hidx with rfl | rfl
  · cases hstep
    exact .inl ⟨rfl, rfl, rfl, rfl⟩
  · rw [List.map_append] at hholds hf
    have hroom : 2 + buf.length ≤ count := by
      have := List.length_take_le (count - 2) (Fragment.payloads taken)
      rw [← hbuf] at this
      omega
    rcases hholds.readStep_cases (by decide) (fun p hp => hf p (List.mem_append_right _ hp)) hroom
      hstep with ⟨hall, rfl, rfl, rfl⟩ | ⟨skipped, p, rest, hps, hskip, hready, hcases⟩
    · refine .inl ⟨?_, rfl, rfl, rfl⟩
      rcases firstReady_cases (ps.map Logged.pkt) with ⟨hnone, -⟩ | ⟨a, q, b, hq, -, hd, -⟩
      · exact hnone
      · rw [hall q (by simp [hq])] at hd
        cases hd
    · obtain ⟨a, b, rfl, rfl, hb⟩ := List.map_eq_append_iff.mp hps
      obtain ⟨e, rest, rfl, rfl, rfl⟩ := List.map_eq_cons_iff.mp hb
      have hgone : held a = [] :=
        held_of_gone fun q hq => hskip q.pkt (List.mem_map_of_mem hq)
      refine .inr ⟨l ++ a, e, rest, (List.append_assoc ..).symm, hready, ?_, ?_⟩
      · intro f hfl
        rw [held_append, hgone, List.append_nil] at hfl
        obtain ⟨c, rfl, hne⟩ := hl f hfl
        exact ⟨hne, nofun⟩
      · have hcopied : (buf ++ e.pkt.payload).take (count - 2) =
            (Fragment.payloads (taken ++ [e.fragment])).take (count - 2) := by
          rw [hbuf, Fragment.payloads_append, take_take_append, Fragment.payloads_singleton]
          rfl
        rw [hcopied] at hcases
        rw [List.map_append, List.map_append, List.map_cons]
        exact hcases

theorem firstReady_append {ps qs : List Pkt} (h : firstReady ps ≠ none) :
    firstReady (ps ++ qs) = firstReady ps := by
  rcases firstReady_cases ps with ⟨hnone, -⟩ | ⟨skipped, p, rest, rfl, hskip, hp, -⟩
  · exact absurd hnone h
  · rw [firstReady, firstReady, List.append_assoc, List.cons_append, find_ready hskip hp,
      find_ready hskip hp]

/-- A fragment that comes in lies behind what the read has still to look at. -/
theorem Reading.Places.receive {count : ℕ} {st : Reading} {taken : List Fragment}
    (hp : st.Places count log taken) (e : Logged) : st.Places count (log ++ [e]) taken := by
  obtain ⟨l, ps, rfl, hidx, hl⟩ := hp.at_next
  refine { hp with at_next := ⟨l, ps ++ [e], List.append_assoc .., ?_, hl⟩ }
  by_cases hnone : firstReady (ps.map Logged.pkt) = none
  · exact .inl (hidx.elim id fun h => h.trans hnone)
  · rw [List.map_append, firstReady_append hnone]
    exact hidx

/-- The fragments of one whole message of connection `c`. -/
structure Message (c : UInt8) (m : List Fragment) : Prop where
  conn : ∀ f ∈ m, f.connectionId = c
  ends : ∃ parts f, m = parts ++ [f] ∧ (∀ g ∈ parts, ¬ g.isLast) ∧ f.isLast

/-- What a read returns for the fragments it took: the error for a message that did not end, or one
    message's connection and payload, cut off at the user's size. -/
def Answers (count : ℕ) (m : List Fragment) (r : Except ℤ (UInt8 × List UInt8)) : Prop :=
  (r = .error (-eio) ∧ ∀ f ∈ m, ¬ f.isLast) ∨
    ∃ c, Message c m ∧ r = .ok (c, (Fragment.payloads m).take (count - 2))

/-- The fragments of connection `c`, in order. -/
def ofConnection (c : UInt8) (fs : List Fragment) : List Fragment :=
  fs.filter fun f => f.connectionId = c

@[simp] theorem ofConnection_append (c : UInt8) (fs gs : List Fragment) :
    ofConnection c (fs ++ gs) = ofConnection c fs ++ ofConnection c gs :=
  List.filter_append ..

theorem ofConnection_eq_nil {c : UInt8} {fs : List Fragment} (h : ∀ f ∈ fs, f.connectionId ≠ c) :
    ofConnection c fs = [] :=
  List.filter_eq_nil_iff.mpr fun f hf => by simp [h f hf]

theorem ofConnection_eq_self {c : UInt8} {fs : List Fragment} (h : ∀ f ∈ fs, f.connectionId = c) :
    ofConnection c fs = fs :=
  List.filter_eq_self.mpr fun f hf => by simp [h f hf]

theorem ofConnection_singleton (c : UInt8) (f : Fragment) :
    ofConnection c [f] = if f.connectionId = c then [f] else [] := by
  simp [ofConnection, List.filter_cons]

/-- What one pass keeps. The buffer holds what the history says, a read that goes on stands where it
    should, what it took and what is held stay in order, and a read that ends answers with what it
    took. -/
theorem Reading.Places.step {count : ℕ} {st : Reading} {taken : List Fragment}
    {rbuf rbuf' : DvbRingbuffer rxBufferSize} {gone : Option ℕ}
    {out : Next Reading (Except ℤ (UInt8 × List UInt8))} (hp : st.Places count log taken)
    (hholds : Holds (kept (log.map Logged.pkt)) rbuf) (hf : Fragments (log.map Logged.pkt))
    (hstep : ReadStep count rbuf st out gone rbuf') :
    Holds (kept ((dispose gone log).map Logged.pkt)) rbuf' ∧
    (∀ st', out = .again st' →
      st'.Places count (dispose gone log) (taken ++ disposedAt gone log)) ∧
    (∀ c, ofConnection c (taken ++ disposedAt gone log ++ held (dispose gone log)) =
      ofConnection c (taken ++ held log)) ∧
    ∀ r, out = .exit r → Answers count (taken ++ disposedAt gone log) r := by
  rcases hp.step_cases hholds hf hstep with
    ⟨-, rfl, rfl, rfl⟩ | ⟨l, e, rest, rfl, he, hl, ⟨hother, rfl, rfl, rfl⟩ |
      ⟨hsame, rfl, hholds', rfl⟩⟩
  · refine ⟨hholds, nofun, fun c => by rw [disposedAt, List.append_nil, dispose], ?_⟩
    rintro _ ⟨⟩
    exact .inl ⟨rfl, fun f hf => (hp.taken_more f (by simpa [disposedAt] using hf)).2⟩
  · refine ⟨hholds, ?_, fun c => by rw [disposedAt, List.append_nil, dispose], nofun⟩
    rintro _ ⟨⟩
    rw [disposedAt, List.append_nil, dispose]
    refine ⟨hp.count_ge, hp.buf_eq, ⟨l ++ [e], rest, by simp, .inr rfl, ?_⟩, ?_⟩
    · intro f hf
      rw [held_append, held_ready he, held_nil] at hf
      refine ⟨_, rfl, ?_⟩
      rcases List.mem_append.mp hf with hf | hf
      · exact (hl f hf).1
      · rwa [List.mem_singleton.mp hf]
    · intro f hf
      obtain ⟨hconn, hmore⟩ := hp.taken_more f hf
      rw [hconn]
      exact ⟨rfl, hmore⟩
  · obtain ⟨hdispose, hat⟩ := dispose_eq hholds he
    have hleft : ∀ f ∈ held l, f.connectionId ≠ e.fragment.connectionId := by
      intro f hf
      rw [hsame]
      exact (hl f hf).1
    have htaken : ∀ f ∈ taken, f.connectionId = e.fragment.connectionId := by
      intro f hf
      rw [hsame, (hp.taken_more f hf).1]
      rfl
    rw [hdispose, hat]
    refine ⟨hholds', ?_, fun c => ?_, ?_⟩
    · intro st' hst'
      split_ifs at hst' with hlast
      cases hst'
      refine ⟨hp.count_ge, rfl, ⟨l ++ [{ e with disposed := true }], rest, by simp, .inr rfl, ?_⟩,
        ?_⟩
      · intro f hf
        rw [held_append, held_gone rfl, held_nil, List.append_nil] at hf
        exact ⟨_, rfl, hleft f hf⟩
      · intro f hf
        rcases List.mem_append.mp hf with hf | hf
        · exact ⟨congrArg some (htaken f hf).symm, (hp.taken_more f hf).2⟩
        · rw [List.mem_singleton.mp hf]
          exact ⟨rfl, hlast⟩
    · rw [held_append, held_append, held_gone rfl, held_ready he]
      simp only [ofConnection_append, List.append_assoc, ← List.singleton_append (l := held rest)]
      by_cases hc : e.fragment.connectionId = c
      · have hnone : ofConnection c (held l) = [] :=
          ofConnection_eq_nil fun f hf => hc ▸ hleft f hf
        rw [hnone]
        rfl
      · rw [ofConnection_singleton, if_neg hc]
        rfl
    · intro r hr
      split_ifs at hr with hlast
      cases hr
      refine .inr ⟨_, ⟨?_, taken, e.fragment, rfl, fun g hg => (hp.taken_more g hg).2, hlast⟩, rfl⟩
      intro f hf
      rcases List.mem_append.mp hf with hf | hf
      · exact htaken f hf
      · rw [List.mem_singleton.mp hf]

namespace CaSystem

variable {s s' : CaSystem n}

/-- The buffers hold what the history says, and a read under way stands where it should. -/
structure Tracks (s : CaSystem n) : Prop where
  buffer : ∀ slot rbuf, (s.ca.slotInfo slot).rxBuffer = some rbuf →
    Holds (kept ((s.log slot).map Logged.pkt)) rbuf
  empty : ∀ slot, (s.ca.slotInfo slot).rxBuffer = none → s.log slot = []
  fragments : ∀ slot, Fragments ((s.log slot).map Logged.pkt)
  selected : ∀ count slot, s.reader = .selected count slot → 2 ≤ count
  reading : ∀ count slot st taken, s.reader = .reading count slot st taken →
    st.Places count (s.log slot) taken

/-- The fragments that a read under way took from `slot`. -/
def taking (s : CaSystem n) (slot : Fin n) : List Fragment :=
  match s.reader with
  | .reading _ slot' _ taken => if slot' = slot then taken else []
  | _ => []

/-- What was not returned yet of a connection: the fragments taken by a read under way and those
    that are held. -/
def queue (s : CaSystem n) (slot : Fin n) (c : UInt8) : List Fragment :=
  ofConnection c (s.taking slot ++ held (s.log slot))

/-- All fragments that a slot received. -/
def received (s : CaSystem n) (slot : Fin n) : List Fragment := (s.log slot).map Logged.fragment

/-- A device whose slots have no buffer or an empty one, and of which nothing was read yet. -/
structure Fresh (s : CaSystem n) : Prop where
  buffer : ∀ slot rbuf, (s.ca.slotInfo slot).rxBuffer = some rbuf → ∃ rxbuf, rbuf = init rxbuf
  log : ∀ slot, s.log slot = []
  reader : s.reader = .idle
  reads : s.reads = []

/-- A run from such a device in which every step is taken in a state that is `ok` for it. -/
inductive Run [NeZero n] (ok : CaSystem n → CaEvent n → Prop) : CaSystem n → Prop where
  | init {s : CaSystem n} (h : s.Fresh) : Run ok s
  | step {s s' : CaSystem n} {ev : CaEvent n} (h : Run ok s) (hs : Step s ev s') (hok : ok s ev) :
      Run ok s'

theorem Fresh.tracks (h : s.Fresh) : s.Tracks where
  buffer slot rbuf hbuf := by
    obtain ⟨rxbuf, rfl⟩ := h.buffer slot rbuf hbuf
    rw [h.log]
    exact holds_init rxbuf (by decide)
  empty slot _ := h.log slot
  fragments slot := by
    rw [h.log]
    exact nofun
  selected := by
    rw [h.reader]
    exact nofun
  reading := by
    rw [h.reader]
    exact nofun

/-- A step that changes no history and no buffer, and lets no read go on. -/
theorem Tracks.same (h : s.Tracks) (hlog : s'.log = s.log)
    (hbuf : ∀ slot, (s'.ca.slotInfo slot).rxBuffer = (s.ca.slotInfo slot).rxBuffer)
    (hreader : s'.reader = s.reader) : s'.Tracks where
  buffer slot rbuf hrx := by
    rw [hlog]
    exact h.buffer slot rbuf (by rwa [← hbuf])
  empty slot hrx := by
    rw [hlog]
    exact h.empty slot (by rwa [← hbuf])
  fragments := by
    rw [hlog]
    exact h.fragments
  selected := by
    rw [hreader]
    exact h.selected
  reading := by
    rw [hreader, hlog]
    exact h.reading

theorem slotInfo_of_condition [NeZero n] {ca ca' : CaPrivate n} {r : Option (Fin n)}
    (h : ReadCondition ca r ca') : ca'.slotInfo = ca.slotInfo := by
  obtain ⟨_, -, rfl⟩ := h
  rfl

theorem slotInfo_setSlot (ca : CaPrivate n) (slot : Fin n) (sl : CaSlot) :
    (ca.setSlot slot sl).slotInfo = Function.update ca.slotInfo slot sl :=
  rfl

theorem rxBuffer_setBuffer (ca : CaPrivate n) (slot slot' : Fin n)
    (rbuf : DvbRingbuffer rxBufferSize) :
    ((ca.setBuffer slot rbuf).slotInfo slot').rxBuffer =
      if slot' = slot then some rbuf else (ca.slotInfo slot').rxBuffer := by
  rw [CaPrivate.setBuffer, slotInfo_setSlot]
  split_ifs with h
  · rw [h, Function.update_self]
  · rw [Function.update_of_ne h]

theorem rxBuffer_setSlot (ca : CaPrivate n) {slot : Fin n} {sl : CaSlot}
    (h : sl.rxBuffer = (ca.slotInfo slot).rxBuffer) (slot' : Fin n) :
    ((ca.setSlot slot sl).slotInfo slot').rxBuffer = (ca.slotInfo slot').rxBuffer := by
  rw [slotInfo_setSlot]
  by_cases hs : slot' = slot
  · rw [hs, Function.update_self, h]
  · rw [Function.update_of_ne hs]

theorem rxBuffer_flushOnOpen (sl : CaSlot) : sl.flushOnOpen.rxBuffer = sl.rxBuffer := by
  rw [CaSlot.flushOnOpen]
  split_ifs with hrun hnone
  · rw [hnone]
    rfl
  · rfl
  · rfl

/-- The buffers and the history after a slot's changed, if no read under way is at that slot or it
    stands where it should. -/
theorem Tracks.update (h : s.Tracks) {slot : Fin n} {rbuf : DvbRingbuffer rxBufferSize}
    {log : List Logged}
    (hca : ∀ slot', (s'.ca.slotInfo slot').rxBuffer =
      if slot' = slot then some rbuf else (s.ca.slotInfo slot').rxBuffer)
    (hlog : s'.log = Function.update s.log slot log)
    (hholds : Holds (kept (log.map Logged.pkt)) rbuf) (hf : Fragments (log.map Logged.pkt))
    (hselected : ∀ count slot', s'.reader = .selected count slot' → 2 ≤ count)
    (hreading : ∀ count slot' st taken, s'.reader = .reading count slot' st taken →
      if slot' = slot then st.Places count log taken else st.Places count (s.log slot') taken) :
    s'.Tracks where
  buffer slot' rbuf' hbuf := by
    rw [hca] at hbuf
    rw [hlog]
    by_cases hs : slot' = slot
    · rw [if_pos hs, Option.some.injEq] at hbuf
      rwa [hs, Function.update_self, ← hbuf]
    · rw [if_neg hs] at hbuf
      rw [Function.update_of_ne hs]
      exact h.buffer slot' rbuf' hbuf
  empty slot' hbuf := by
    rw [hca] at hbuf
    rw [hlog]
    by_cases hs : slot' = slot
    · rw [if_pos hs] at hbuf
      cases hbuf
    · rw [if_neg hs] at hbuf
      rw [Function.update_of_ne hs]
      exact h.empty slot' hbuf
  fragments slot' := by
    rw [hlog]
    by_cases hs : slot' = slot
    · rwa [hs, Function.update_self]
    · rw [Function.update_of_ne hs]
      exact h.fragments slot'
  selected := hselected
  reading count slot' st taken hr := by
    have hplaces := hreading count slot' st taken hr
    rw [hlog]
    by_cases hs : slot' = slot
    · rw [if_pos hs] at hplaces
      rwa [hs, Function.update_self]
    · rw [if_neg hs] at hplaces
      rwa [Function.update_of_ne hs]

/-- A packet of at least two bytes that fits comes in. -/
theorem Tracks.receive (h : s.Tracks) {slot : Fin n} {rbuf rbuf' : DvbRingbuffer rxBufferSize}
    {bytes : List UInt8} (hbuf : (s.ca.slotInfo slot).rxBuffer = some rbuf) (hlen : 2 ≤ bytes.length)
    (hfit : (bytes.length + pkthdrsize : ℕ) ≤ rbuf.free) (hwrite : rbuf.pktWrite bytes = some rbuf')
    {session opening : ℕ} :
    Tracks { s with
      ca := s.ca.setBuffer slot rbuf'
      log := Function.update s.log slot
        (s.log slot ++ [⟨rbuf.pwrite, false, ⟨bytes, session, opening⟩⟩]) } := by
  have hholds := h.buffer slot rbuf hbuf
  have hfits := hholds.sound.free_add_avail
  have hbounds := hholds.sound.avail_bounds
  have hsize : rxBufferSize = 65535 := rfl
  rw [pkthdrsize] at hfit
  obtain ⟨rbuf₁, hwrite₁, hholds₁⟩ :=
    @Holds.pktWrite _ _ _ hholds bytes (by omega) (by omega) (by omega)
  rw [hwrite, Option.some.injEq] at hwrite₁
  subst hwrite₁
  rw [← kept_append_ready _ rfl] at hholds₁
  refine h.update (rxBuffer_setBuffer s.ca slot · _) rfl (by rwa [List.map_append]) ?_ h.selected ?_
  · intro p hp
    rw [List.map_append] at hp
    rcases List.mem_append.mp hp with hp | hp
    · exact h.fragments slot p hp
    · rw [List.mem_singleton.mp hp]
      exact hlen
  · intro count slot' st taken hr
    have hplaces := h.reading count slot' st taken hr
    split_ifs with hs
    · rw [hs] at hplaces
      exact hplaces.receive _
    · exact hplaces

variable [NeZero n] {ev : CaEvent n}

theorem Tracks.step (h : s.Tracks) (hs : Step s ev s') : s'.Tracks := by
  cases hs with
  | @receive slot rbuf rbuf' bytes hstate hbuf hlen hlen' hfree hwrite =>
    exact h.receive hbuf hlen (by omega) hwrite
  | poll hcond => exact h.same rfl (fun slot => by rw [slotInfo_of_condition hcond]) rfl
  | @select count slot ca' hopen hidle hcount hcond =>
    have hsame : Tracks { s with ca := ca' } :=
      h.same rfl (fun slot => by rw [slotInfo_of_condition hcond]) rfl
    refine { hsame with selected := ?_, reading := nofun }
    rintro _ _ ⟨⟩
    exact hcount
  | @start count slot rbuf idx hreader hbuf hnext =>
    refine { h with selected := nofun, reading := ?_ }
    rintro _ _ _ _ ⟨⟩
    have hfirst := (h.buffer slot rbuf hbuf).first (by decide)
    obtain rfl := Ends.unique hnext hfirst
    exact ⟨h.selected count slot hreader, List.take_nil.symm, ⟨[], s.log slot, rfl, .inr rfl, nofun⟩, nofun⟩
  | @pass count slot st st' taken rbuf rbuf' gone hreader hbuf hstep =>
    obtain ⟨hholds, hplaces, -, -⟩ := (h.reading count slot st taken hreader).step
      (h.buffer slot rbuf hbuf) (h.fragments slot) hstep
    refine h.update (rxBuffer_setBuffer s.ca slot · _) rfl hholds (fragments_dispose gone (h.fragments slot)) nofun ?_
    rintro _ _ _ _ ⟨⟩
    rw [if_pos rfl]
    exact hplaces st' rfl
  | @finish count slot st taken rbuf rbuf' gone r hreader hbuf hstep =>
    obtain ⟨hholds, -, -, -⟩ := (h.reading count slot st taken hreader).step
      (h.buffer slot rbuf hbuf) (h.fragments slot) hstep
    exact h.update (rxBuffer_setBuffer s.ca slot · _) rfl hholds (fragments_dispose gone (h.fragments slot)) nofun nofun
  | slotState hstate => exact h.same rfl (rxBuffer_setSlot s.ca rfl) rfl
  | @linkInit slot linkBufSize rxbuf hstate hsize =>
    cases hrx : (s.ca.slotInfo slot).rxBuffer with
    | some rbuf =>
      refine h.same rfl (rxBuffer_setSlot s.ca ?_) rfl
      rw [CaSlot.linkDone, hrx]
      rfl
    | none =>
      have hlog := h.empty slot hrx
      have hholds : Holds (kept ((s.log slot).map Logged.pkt)) (DvbRingbuffer.init rxbuf) := by
        rw [hlog]
        exact holds_init rxbuf (by decide)
      refine h.update (fun slot' => ?_) (Function.update_eq_self slot s.log).symm hholds
        (h.fragments slot) h.selected fun count slot' st taken hr => ?_
      · rw [slotInfo_setSlot]
        split_ifs with hs
        · rw [hs, Function.update_self, CaSlot.linkDone, hrx, Option.getD_none]
        · rw [Function.update_of_ne hs]
      · split_ifs with hs
        · exact hs ▸ h.reading count slot' st taken hr
        · exact h.reading count slot' st taken hr
  | reset => exact h.same rfl (fun slot => rfl) rfl
  | «open» hclosed => exact h.same rfl (fun slot => rxBuffer_flushOnOpen _) rfl
  | close hopen hidle => exact h.same rfl (fun slot => rfl) rfl

theorem Run.tracks {ok : CaSystem n → CaEvent n → Prop} (h : Run ok s) : s.Tracks := by
  induction h with
  | init h => exact h.tracks
  | step _ hs _ ih => exact ih.step hs

omit [NeZero n] in
theorem received_update {slot : Fin n} {log : List Logged}
    (hlog : s'.log = Function.update s.log slot log) (slot' : Fin n) :
    s'.received slot' = if slot' = slot then log.map Logged.fragment else s.received slot' := by
  rw [received, hlog]
  split_ifs with hs
  · rw [hs, Function.update_self]
  · rw [Function.update_of_ne hs, received]

omit [NeZero n] in
theorem queue_update {slot : Fin n} {log : List Logged}
    (hlog : s'.log = Function.update s.log slot log) (slot' : Fin n) (c : UInt8) :
    s'.queue slot' c =
      ofConnection c (s'.taking slot' ++ if slot' = slot then held log else held (s.log slot')) := by
  rw [queue, hlog]
  split_ifs with hs
  · rw [hs, Function.update_self]
  · rw [Function.update_of_ne hs]

omit [NeZero n] in
theorem received_dispose {slot : Fin n} {gone : Option ℕ}
    (hlog : s'.log = Function.update s.log slot (dispose gone (s.log slot))) :
    s'.received = s.received := by
  funext slot'
  rw [received_update hlog, map_fragment_dispose]
  split_ifs with hs
  · rw [hs, received]
  · rfl

/-- Only a fragment received and a read that returns change what is queued, and only they go down in
    the history. -/
theorem Tracks.others (h : s.Tracks) (hs : Step s ev s')
    (hreceive : ∀ slot bytes, ev ≠ .receive slot bytes) (hfinish : ev ≠ .finish) :
    s'.queue = s.queue ∧ s'.received = s.received ∧ s'.reads = s.reads := by
  cases hs with
  | receive => exact absurd rfl (hreceive _ _)
  | poll hcond => exact ⟨rfl, rfl, rfl⟩
  | select hopen hidle hcount hcond =>
    refine ⟨?_, rfl, rfl⟩
    funext slot c
    rw [queue, queue, taking, taking, hidle]
  | start hreader hbuf hnext =>
    refine ⟨?_, rfl, rfl⟩
    funext slot c
    rw [queue, queue, taking, taking, hreader]
    simp
  | @pass count slot st st' taken rbuf rbuf' gone hreader hbuf hstep =>
    obtain ⟨-, -, hqueue, -⟩ := (h.reading count slot st taken hreader).step
      (h.buffer slot rbuf hbuf) (h.fragments slot) hstep
    refine ⟨?_, received_dispose rfl, rfl⟩
    funext slot' c
    rw [queue_update rfl, queue, taking, taking, hreader]
    simp only
    by_cases hs : slot' = slot
    · rw [hs, if_pos rfl, if_pos rfl, if_pos rfl]
      exact hqueue c
    · rw [if_neg (Ne.symm hs), if_neg (Ne.symm hs), if_neg hs]
  | finish => exact absurd rfl hfinish
  | slotState hstate => exact ⟨rfl, rfl, rfl⟩
  | linkInit hstate hsize => exact ⟨rfl, rfl, rfl⟩
  | reset => exact ⟨rfl, rfl, rfl⟩
  | «open» hclosed => exact ⟨rfl, rfl, rfl⟩
  | close hopen hidle => exact ⟨rfl, rfl, rfl⟩

/-- A fragment received goes to the end of its connection's queue. -/
theorem receive_queue {slot : Fin n} {bytes : List UInt8} (hs : Step s (.receive slot bytes) s') :
    (∀ slot' c, s'.queue slot' c = s.queue slot' c ++
      if slot' = slot then ofConnection c [⟨bytes, s.session slot, s.opening⟩] else []) ∧
    (∀ slot', s'.received slot' = s.received slot' ++
      if slot' = slot then [⟨bytes, s.session slot, s.opening⟩] else []) ∧
    s'.reads = s.reads ∧ s'.session = s.session ∧ s'.opening = s.opening := by
  cases hs with
  | receive hstate hbuf hlen hlen' hfree hwrite =>
    refine ⟨fun slot' c => ?_, fun slot' => ?_, rfl, rfl, rfl⟩
    · rw [queue_update rfl, queue]
      split_ifs with hs
      · rw [hs, held_append, held_ready rfl, held_nil, ← ofConnection_append, List.append_assoc]
        rfl
      · rw [List.append_nil]
        rfl
    · rw [received_update rfl]
      split_ifs with hs
      · rw [hs, List.map_append, received]
        rfl
      · rw [List.append_nil]

/-- A read that returns takes the fragments it answers with from the front of the queue. -/
theorem Tracks.finish (h : s.Tracks) (hs : Step s .finish s') :
    ∃ r : Returned n, s'.reads = s.reads ++ [r] ∧ r.opening = s.opening ∧
      Answers r.count r.taken r.result ∧
      (∀ slot c, s.queue slot c =
        (if slot = r.slot then ofConnection c r.taken else []) ++ s'.queue slot c) ∧
      s'.received = s.received ∧ s'.session = s.session ∧ s'.opening = s.opening := by
  cases hs with
  | @finish count slot st taken rbuf rbuf' gone r hreader hbuf hstep =>
    obtain ⟨-, -, hqueue, hanswer⟩ := (h.reading count slot st taken hreader).step
      (h.buffer slot rbuf hbuf) (h.fragments slot) hstep
    refine ⟨_, rfl, rfl, hanswer r rfl, fun slot' c => ?_, received_dispose rfl, rfl, rfl⟩
    rw [queue, queue_update rfl, taking, taking, hreader]
    simp only [List.nil_append]
    by_cases hs : slot' = slot
    · rw [hs, if_pos rfl, if_pos rfl, if_pos rfl, ← hqueue c, ofConnection_append]
    · rw [if_neg (Ne.symm hs), if_neg hs, if_neg hs, List.nil_append, List.nil_append]

/-! ### A message at the front of a buffer -/

omit [NeZero n] in
/-- Every pass of a read under way can be made. -/
theorem Tracks.exists_step (h : s.Tracks) {count : ℕ} {slot : Fin n} {st : Reading}
    {taken : List Fragment} {rbuf : DvbRingbuffer rxBufferSize}
    (hreader : s.reader = .reading count slot st taken)
    (hbuf : (s.ca.slotInfo slot).rxBuffer = some rbuf) :
    ∃ out gone rbuf', ReadStep count rbuf st out gone rbuf' := by
  obtain ⟨idx, conn, buf⟩ := st
  have hplaces := h.reading count slot _ taken hreader
  have hholds := h.buffer slot rbuf hbuf
  have hf := h.fragments slot
  obtain ⟨l, ps, hlog, rfl | rfl, -⟩ := hplaces.at_next
  · exact ⟨_, _, _, .ended⟩
  · have hcount := hplaces.count_ge
    have hroom : 2 + buf.length ≤ count := by
      have hbuf : buf = _ := hplaces.buf_eq
      have hlen := List.length_take_le (count - 2) (Fragment.payloads taken)
      rw [← hbuf] at hlen
      omega
    rw [hlog, List.map_append] at hholds hf
    exact hholds.readStep (by decide) (fun p hp => hf p (List.mem_append_right _ hp)) hroom conn

omit [NeZero n] in
/-- The pass of a read that stands at the first fragment held, which is of its connection. -/
theorem Tracks.front_step (h : s.Tracks) {count : ℕ} {slot : Fin n} {st : Reading}
    {taken rest : List Fragment} {rbuf : DvbRingbuffer rxBufferSize} {g : Fragment}
    (hreader : s.reader = .reading count slot st taken)
    (hbuf : (s.ca.slotInfo slot).rxBuffer = some rbuf) (hheld : held (s.log slot) = g :: rest)
    (hidx : st.idx ≠ none) (hconn : st.conn = none ∨ st.conn = some g.connectionId) :
    ∃ out gone rbuf', ReadStep count rbuf st out gone rbuf' ∧
      disposedAt gone (s.log slot) = [g] ∧ held (dispose gone (s.log slot)) = rest ∧
      (g.isLast → out = .exit (.ok (g.connectionId,
        (Fragment.payloads (taken ++ [g])).take (count - 2)))) ∧
      (¬ g.isLast → ∃ st', out = .again st' ∧ (st'.idx = none → rest = []) ∧
        st'.conn = some g.connectionId) := by
  have hholds := h.buffer slot rbuf hbuf
  obtain ⟨out, gone, rbuf', hstep⟩ := h.exists_step hreader hbuf
  refine ⟨out, gone, rbuf', hstep, ?_⟩
  rcases (h.reading count slot st taken hreader).step_cases hholds (h.fragments slot) hstep with
    ⟨hnone, -⟩ | ⟨l, e, ps, hlog, he, hl, hcases⟩
  · exact absurd hnone hidx
  · rw [hlog, held_append, held_ready he] at hheld
    have hnil : held l = [] := by
      cases hfront : held l with
      | nil => rfl
      | cons g' l' =>
        rw [hfront, List.cons_append, List.cons.injEq] at hheld
        obtain ⟨rfl, -⟩ := hheld
        obtain ⟨hne, hknown⟩ := hl g' (by rw [hfront]; exact List.mem_cons_self)
        rw [hconn.resolve_left hknown] at hne
        exact absurd rfl hne
    rw [hnil, List.nil_append, List.cons.injEq] at hheld
    obtain ⟨rfl, rfl⟩ := hheld
    have hsame : e.fragment.connectionId = st.conn.getD e.fragment.connectionId := by
      rcases hconn with hconn | hconn <;> rw [hconn] <;> rfl
    rcases hcases with ⟨hother, -⟩ | ⟨-, rfl, -, rfl⟩
    · exact absurd hsame hother
    · rw [hlog] at hholds ⊢
      obtain ⟨hdispose, hat⟩ := dispose_eq hholds he
      rw [hdispose, hat, held_append, held_gone rfl, hnil]
      refine ⟨rfl, rfl, fun hlast => if_pos hlast, fun hmore => ⟨_, if_neg hmore, fun hnone => ?_, rfl⟩⟩
      exact firstReady_eq_none.mp hnone

/-- A read whose message lies at the front of the buffer takes and returns it. -/
theorem Run.finishes {ok : CaSystem n → CaEvent n → Prop} (hok : ∀ s, ok s .pass ∧ ok s .finish)
    {count : ℕ} {slot : Fin n} {c : UInt8} {parts rest : List Fragment} {f : Fragment}
    (hparts : ∀ g ∈ parts, g.connectionId = c ∧ ¬ g.isLast) (hf : f.connectionId = c ∧ f.isLast)
    (h : Run ok s) {st : Reading} {taken : List Fragment} {rbuf : DvbRingbuffer rxBufferSize}
    (hreader : s.reader = .reading count slot st taken)
    (hbuf : (s.ca.slotInfo slot).rxBuffer = some rbuf)
    (hheld : held (s.log slot) = parts ++ f :: rest) (hidx : st.idx ≠ none)
    (hconn : st.conn = none ∨ st.conn = some c) :
    ∃ s', Run ok s' ∧ s'.reads = s.reads ++ [⟨slot, count, taken ++ (parts ++ [f]), s.opening,
      .ok (c, (Fragment.payloads (taken ++ (parts ++ [f]))).take (count - 2))⟩] := by
  induction parts generalizing s st taken rbuf with
  | nil =>
    obtain ⟨out, gone, rbuf', hstep, hat, -, hout, -⟩ :=
      h.tracks.front_step hreader hbuf hheld hidx (hf.1 ▸ hconn)
    rw [hout hf.2] at hstep
    refine ⟨_, .step h (.finish hreader hbuf hstep) (hok s).2, ?_⟩
    rw [hat, hf.1]
    rfl
  | cons g parts ih =>
    obtain ⟨hg, hparts⟩ := List.forall_mem_cons.mp hparts
    obtain ⟨out, gone, rbuf', hstep, hat, hrest, -, hout⟩ :=
      h.tracks.front_step hreader hbuf hheld hidx (hg.1 ▸ hconn)
    obtain ⟨st', rfl, hnone, hconn'⟩ := hout hg.2
    obtain ⟨s', hrun, hreads⟩ := ih hparts
      (.step h (.pass hreader hbuf hstep) (hok s).1) rfl
      (by rw [rxBuffer_setBuffer, if_pos rfl]) (by simpa using hrest)
      (fun hst => by simpa using hnone hst) (.inr (hg.1 ▸ hconn'))
    refine ⟨s', hrun, ?_⟩
    rw [hreads, hat, List.append_assoc]
    rfl

omit [NeZero n] in
theorem find_ready_map (log : List Logged) :
    ((log.map Logged.pkt).find? fun p => !p.disposed).map Pkt.connectionId =
      (held log).head?.map Fragment.connectionId := by
  rw [List.find?_map, held, List.head?_map, List.head?_filter, Option.map_map, Option.map_map]
  rfl

omit [NeZero n] in
/-- What the scan of a slot knows, from the fragments the slot holds. -/
theorem Tracks.scansSlot_cases (h : s.Tracks) (slot : Fin n) {rbuf : DvbRingbuffer rxBufferSize}
    (hbuf : (s.ca.slotInfo slot).rxBuffer = some rbuf) {next : Option (ℕ × ℕ)}
    (hnext : rbuf.PktNext none next) {conn : Option UInt8} {r : Option UInt8 × Bool}
    (hscan : ScansSlot rbuf next conn r) :
    r.1 = conn.or ((held (s.log slot)).head?.map Fragment.connectionId) ∧
      (r.2 ↔ ∃ f ∈ held (s.log slot), some f.connectionId = r.1 ∧ f.isLast) := by
  have hholds := h.buffer slot rbuf hbuf
  obtain rfl := Ends.unique hnext (hholds.first (by decide))
  have hall : Holds (kept ([] ++ (s.log slot).map Logged.pkt)) rbuf := hholds
  obtain ⟨hconn, hfound⟩ := hall.scansSlot_cases (by decide) (h.fragments slot) hscan
  rw [find_ready_map] at hconn
  refine ⟨hconn, hfound.trans ⟨?_, ?_⟩⟩
  · rintro ⟨p, hp, hd, hlast⟩
    obtain ⟨e, he, rfl⟩ := List.mem_map.mp hp
    exact ⟨e.fragment, mem_held.mpr ⟨e, he, hd, rfl⟩, hlast⟩
  · rintro ⟨f, hf, hlast⟩
    obtain ⟨e, he, hd, rfl⟩ := mem_held.mp hf
    exact ⟨e.pkt, List.mem_map_of_mem he, hd, hlast⟩

omit [NeZero n] in
/-- Every slot with a buffer can be scanned. -/
theorem Tracks.exists_scansSlot (h : s.Tracks) (slot : Fin n)
    {rbuf : DvbRingbuffer rxBufferSize} (hbuf : (s.ca.slotInfo slot).rxBuffer = some rbuf)
    (conn : Option UInt8) : ∃ r next, rbuf.PktNext none next ∧ ScansSlot rbuf next conn r := by
  have hholds := h.buffer slot rbuf hbuf
  have hall : Holds (kept ([] ++ (s.log slot).map Logged.pkt)) rbuf := hholds
  obtain ⟨r, hscan⟩ := hall.scansSlot (by decide) (h.fragments slot) conn
  exact ⟨r, _, hholds.first (by decide), hscan⟩

/-- A whole message at the front of the slot that is looked at first can be read. -/
theorem Run.reads_message {ok : CaSystem n → CaEvent n → Prop} (h : Run ok s) (hselect : ok s .select)
    (hok : ∀ s, ok s .start ∧ ok s .pass ∧ ok s .finish) (hopen : s.ca.opened)
    (hidle : s.reader = .idle) (hstate : (s.ca.slotInfo s.ca.nextReadSlot).slotState = .running)
    {rbuf : DvbRingbuffer rxBufferSize}
    (hbuf : (s.ca.slotInfo s.ca.nextReadSlot).rxBuffer = some rbuf) {c : UInt8}
    {m : List Fragment} (hm : Message c m) (rest : List Fragment)
    (hheld : held (s.log s.ca.nextReadSlot) = m ++ rest) (count : ℕ) (hcount : 2 ≤ count) :
    ∃ s', Run ok s' ∧ s'.reads = s.reads ++ [⟨s.ca.nextReadSlot, count, m, s.opening,
      .ok (c, (Fragment.payloads m).take (count - 2))⟩] := by
  obtain ⟨parts, f, rfl, hparts, hf⟩ := hm.ends
  have htracks := h.tracks
  obtain ⟨⟨conn, found⟩, next, hnext, hscan⟩ := htracks.exists_scansSlot _ hbuf none
  obtain ⟨hconn, hfound⟩ := htracks.scansSlot_cases _ hbuf hnext hscan
  have hfirst : (held (s.log s.ca.nextReadSlot)).head?.map Fragment.connectionId = some c := by
    rw [hheld, List.head?_append_of_ne_nil _ (by simp)]
    cases parts with
    | nil => exact congrArg some (hm.conn f (by simp))
    | cons g parts => exact congrArg some (hm.conn g (by simp))
  rw [hfirst] at hconn
  simp only [Option.none_or] at hconn hfound
  have htrue : found = true := by
    refine hfound.mpr ⟨f, by rw [hheld]; simp, ?_, hf⟩
    rw [hconn, hm.conn f (by simp)]
  have hfinds : ∀ k, 0 < k →
      ScansSlots s.ca k s.ca.nextReadSlot none (some s.ca.nextReadSlot) (s.ca.nextReadSlot + 1) := by
    intro k hk
    cases k with
    | zero => cases hk
    | succ k => exact .found hstate hbuf hnext (htrue ▸ hscan)
  have hrun := h.step
    (.select hopen hidle hcount ⟨_, hfinds n (Nat.pos_of_ne_zero (NeZero.ne n)), rfl⟩) hselect
  have hstart := hrun.step (.start rfl hbuf hnext) (hok _).1
  have hheld' : held (s.log s.ca.nextReadSlot) = parts ++ f :: rest := by
    simpa using hheld
  refine Run.finishes (fun s => (hok s).2) ?_ ?_ hstart rfl hbuf hheld' ?_ (.inl rfl)
  · exact fun g hg => ⟨hm.conn g (by simp [hg]), hparts g hg⟩
  · exact ⟨hm.conn f (by simp), hf⟩
  · rw [Ends.unique hnext ((htracks.buffer _ rbuf hbuf).first (by decide))]
    refine firstReady_ne_none (f := f) ?_
    rw [hheld]
    simp

/-- A fragment can come in while the buffer has room for one of the largest size. -/
theorem Run.receives {ok : CaSystem n → CaEvent n → Prop} (h : Run ok s) (slot : Fin n)
    (bytes : List UInt8) (hok : ok s (.receive slot bytes))
    (hstate : (s.ca.slotInfo slot).slotState = .running)
    {rbuf : DvbRingbuffer rxBufferSize} (hbuf : (s.ca.slotInfo slot).rxBuffer = some rbuf)
    (hlen : 2 ≤ bytes.length) (hlen' : bytes.length ≤ (s.ca.slotInfo slot).linkBufSize)
    (hroom : (s.ca.slotInfo slot).linkBufSize + 3 +
      space (kept ((s.log slot).map Logged.pkt)) < rxBufferSize) :
    ∃ pos rbuf', Run ok { s with
      ca := s.ca.setBuffer slot rbuf'
      log := Function.update s.log slot
        (s.log slot ++ [⟨pos, false, ⟨bytes, s.session slot, s.opening⟩⟩]) } := by
  have hholds := h.tracks.buffer slot rbuf hbuf
  have hfree := hholds.sound.free_add_avail
  have hsize : rxBufferSize = 65535 := rfl
  rw [hholds.avail_eq] at hfree
  obtain ⟨rbuf', hwrite, -⟩ := @Holds.pktWrite _ _ _ hholds bytes (by omega) (by omega) (by omega)
  exact ⟨_, _, h.step (.receive hstate hbuf hlen hlen' (by rw [pkthdrsize]; omega) hwrite) hok⟩

end CaSystem

end Dvb

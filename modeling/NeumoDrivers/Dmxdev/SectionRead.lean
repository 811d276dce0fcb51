import NeumoDrivers.Lib.Framing
import NeumoDrivers.Demux.SectionFeeds
import NeumoDrivers.Dmxdev.Filter

/-! Reading the sections of a filter (`neumo-dmxdev.c`).

    The demux writes whole sections into the buffer of a filter; an overflow is noted in `error`, and
    the buffer is flushed when it is read. `dvb_dmxdev_read_sec` returns a section in pieces of any
    size: `todo` counts the bytes of the header that have been read, below zero, and then those of
    the body that are left. The header is copied back from the caller's memory to find its length.

    A read goes on in turns, one for each time `dvb_dmxdev_buffer_read` looks at the buffer, and
    others act in between. The mutex of the filter keeps its other calls out meanwhile. -/

namespace Dmx
open Framing
open Demux (IsSection)

def EWOULDBLOCK : Errno := 11
def EOVERFLOW : Errno := 75
def ETIMEDOUT : Errno := 110

/-- What a read of sections works on, of `struct neumo_dmxdev_filter`. `held` is what the ring
    buffer of `size` bytes holds. -/
structure Dfil where
  data : Bool
  size : ℕ
  held : List UInt8
  error : Option Errno
  state : NeumoDmxdevState
  oneshot : Bool
  /-- The timer is running. -/
  timer : Bool
  todo : ℤ
  secheader : ℕ → UInt8
  /-- Kept for the proofs: how often the buffer has been flushed. -/
  flushes : ℕ

/-- A call of `dvb_dmxdev_read_sec`: what is left of the caller's `count`, the bytes it is `done`
    with, whether it reads the header, and the arguments and the loop of `dvb_dmxdev_buffer_read`. -/
structure Reading where
  nonBlocking : Bool
  count : ℕ
  done : ℕ
  header : Bool
  want : ℕ
  todo : ℕ
  entered : Bool
  /-- The caller's memory, as far as it has been written. -/
  buf : List UInt8

abbrev ReadResult := Except Errno (List UInt8)

namespace Dfil

/-- `dvb_ringbuffer_flush`. -/
def flush (dfil : Dfil) : Dfil :=
  { dfil with held := [], error := none, flushes := dfil.flushes + 1 }

/-- Whether `dvb_dmxdev_buffer_write` has no room for the bytes. -/
def full (dfil : Dfil) (src : List UInt8) : Bool := dfil.size - dfil.held.length - 1 < src.length

/-- `dvb_dmxdev_buffer_write`. -/
def bufferWrite (dfil : Dfil) (src : List UInt8) : Except Errno Dfil :=
  if src = [] ∨ ¬dfil.data then .ok dfil
  else if dfil.full src then .error EOVERFLOW
  else .ok { dfil with held := dfil.held ++ src }

/-- `dvb_dmxdev_section_callback`. -/
def sectionCallback (dfil : Dfil) (section_ : List UInt8) : Dfil :=
  if dfil.error.isSome then dfil
  else if dfil.state ≠ .go then dfil
  else
    let dfil := { dfil with timer := false }
    let dfil :=
      match dfil.bufferWrite section_ with
      | .ok dfil => dfil
      | .error e => { dfil with error := some e }
    if dfil.oneshot then { dfil with state := .done } else dfil

/-- `dvb_dmxdev_filter_timeout`. -/
def filterTimeout (dfil : Dfil) : Dfil :=
  { dfil with error := some ETIMEDOUT, state := .timedout, timer := false }

/-- `dvb_dmxdev_feed_start`, when another filter on the pid has been stopped. -/
def feedStart (dfil : Dfil) : Dfil := { dfil with state := .go }

/-- `dvb_dmxdev_filter_stop`. -/
def filterStop (dfil : Dfil) : Dfil :=
  if dfil.state < .go then dfil
  else { dfil with state := .setPes, timer := false }.flush

/-- How far `dvb_dmxdev_filter_start` comes. -/
inductive StartEnd where | noMemory | noFilter | notStarted | started

/-- `dvb_dmxdev_filter_start`; `limited` tells whether the filter has a timeout. -/
def filterStart (dfil : Dfil) (limited : Bool) (how : StartEnd) : Dfil :=
  if dfil.state < .setPes then dfil
  else
    let dfil := dfil.filterStop
    match how with
    | .noMemory => dfil
    | .noFilter => { dfil with data := true }.flush
    | .notStarted => { { dfil with data := true }.flush with todo := 0 }
    | .started => { { dfil with data := true }.flush with todo := 0, timer := limited, state := .go }

/-- `dvb_dmxdev_section_filter_set`, before it starts the filter. -/
def sectionFilterSet (dfil : Dfil) (oneshot : Bool) : Dfil :=
  { dfil.filterStop with oneshot := oneshot, state := .setPes }

/-- `dvb_dmxdev_set_buffer_size`; `memory` tells whether it gets the memory. -/
def setBufferSize (dfil : Dfil) (size : ℕ) (memory : Bool) : Dfil :=
  if dfil.size = size then dfil
  else if size = 0 then dfil
  else if .go ≤ dfil.state then dfil
  else if ¬memory then dfil
  else { dfil with data := true, size := size }.flush

/-! ### A read -/

/-- `dvb_dmxdev_read_sec` up to its first call of `dvb_dmxdev_buffer_read`. -/
def readSec (dfil : Dfil) (nonBlocking : Bool) (count : ℕ) : Reading :=
  if dfil.todo ≤ 0 then
    let hcount := min (3 + dfil.todo).toNat count
    ⟨nonBlocking, count, 0, true, hcount, hcount, false, []⟩
  else
    let count := min count dfil.todo.toNat
    ⟨nonBlocking, count, 0, false, count, count, false, []⟩

/-- The copy to `secheader`. -/
def storeHeader (secheader : ℕ → UInt8) (start : ℕ) (bytes : List UInt8) : ℕ → UInt8 := fun i =>
  if start ≤ i ∧ i < start + bytes.length then bytes.getD (i - start) 0 else secheader i

/-- The number of bytes behind the header. -/
def bodyLength (secheader : ℕ → UInt8) : ℕ :=
  ((secheader 1).toNat <<< 8 ||| (secheader 2).toNat) &&& 0xfff

/-- What is done with the result of `dvb_dmxdev_buffer_read`: the next call, or the result. -/
def afterBufferRead (dfil : Dfil) (reading : Reading) :
    Except Errno ℕ → Dfil × (Reading ⊕ ReadResult)
  | .error e =>
    if reading.header then ({ dfil with todo := 0 }, .inr (.error e)) else (dfil, .inr (.error e))
  | .ok result =>
    let bytes := reading.buf.take (reading.done + result)
    if reading.header then
      let dfil := { dfil with
        secheader := storeHeader dfil.secheader (-dfil.todo).toNat bytes
        todo := dfil.todo - result }
      if dfil.todo > -3 then (dfil, .inr (.ok bytes))
      else
        let dfil := { dfil with todo := bodyLength dfil.secheader }
        if reading.count - result = 0 then (dfil, .inr (.ok bytes))
        else
          let count := min (reading.count - result) dfil.todo.toNat
          (dfil, .inl { reading with
            count := count, done := result, header := false, want := count, todo := count
            entered := false })
    else ({ dfil with todo := dfil.todo - result }, .inr (.ok bytes))

/-- What `dvb_dmxdev_buffer_read` returns where its loop ends: the bytes it has, if there are any. -/
def loopResult (reading : Reading) (ret : Except Errno ℕ) : Except Errno ℕ :=
  if 0 < reading.want - reading.todo then .ok (reading.want - reading.todo) else ret

/-- A turn of `dvb_dmxdev_buffer_read`, with its result if it returns: what it looks at before its
    loop, or one round of the loop. There is no turn while it waits; `signal` ends a wait. -/
def bufferRead (dfil : Dfil) (reading : Reading) (signal : Bool) :
    Option (Dfil × Reading × Option (Except Errno ℕ)) :=
  if ¬reading.entered then
    if ¬dfil.data then some (dfil, reading, some (.ok 0))
    else
      match dfil.error with
      | some e => some (dfil.flush, reading, some (.error e))
      | none =>
        if reading.want = 0 then some (dfil, reading, some (.ok 0))
        else some (dfil, { reading with entered := true }, none)
  else if reading.nonBlocking ∧ dfil.held = [] then
    some (dfil, reading, some (loopResult reading (.error EWOULDBLOCK)))
  else if dfil.held = [] ∧ dfil.error = none then
    if signal then some (dfil, reading, some (loopResult reading (.error ERESTARTSYS))) else none
  else
    match dfil.error with
    | some e => some (dfil.flush, reading, some (loopResult reading (.error e)))
    | none =>
      let avail := min dfil.held.length reading.todo
      let reading := { reading with
        todo := reading.todo - avail, buf := reading.buf ++ dfil.held.take avail }
      let dfil := { dfil with held := dfil.held.drop avail }
      if reading.todo = 0 then some (dfil, reading, some (.ok reading.want))
      else some (dfil, reading, none)

end Dfil

/-! ### Runs -/

/-- A filter, the read that is going on, and what has happened to the sections. -/
structure ReadState where
  dfil : Dfil
  reading : Option Reading
  log : List (Happening UInt8 Errno)

inductive ReadAct where
  | deliver (section_ : List UInt8)
  | timeout
  | restart
  | start (limited : Bool) (how : Dfil.StartEnd)
  | stop
  | setFilter (oneshot : Bool)
  | setBufferSize (size : ℕ) (memory : Bool)
  | read (nonBlocking : Bool) (count : ℕ)
  | proceed (signal : Bool)

namespace ReadState

/-- The filter changes; if its buffer has been flushed, that is noted. -/
def note (s : ReadState) (dfil : Dfil) : ReadState :=
  { s with
    dfil := dfil
    log := if dfil.flushes = s.dfil.flushes then s.log else s.log ++ [.flushed] }

/-- The read goes on, or returns. -/
def after (s : ReadState) : Dfil × (Reading ⊕ ReadResult) → ReadState
  | (dfil, .inl reading) => { s with dfil := dfil, reading := some reading }
  | (dfil, .inr result) => ⟨dfil, none, s.log ++ [.returned result]⟩

/-- A turn of the read. -/
def proceed (s : ReadState) (signal : Bool) : ReadState :=
  match s.reading with
  | none => s
  | some reading =>
    match s.dfil.bufferRead reading signal with
    | none => s
    | some (dfil, reading, none) => { s.note dfil with reading := some reading }
    | some (dfil, reading, some result) => (s.note dfil).after (dfil.afterBufferRead reading result)

/-- A filter that has just been opened, and its buffer. -/
def opened (secheader : ℕ → UInt8) : ReadState :=
  ⟨⟨false, 8192, [], none, .allocated, false, false, 0, secheader, 0⟩, none, []⟩

end ReadState

def ReadAct.run (s : ReadState) : ReadAct → ReadState
  | .deliver section_ =>
    let dfil := s.dfil.sectionCallback section_
    { s with
      dfil := dfil
      log := if dfil.held = s.dfil.held then s.log else s.log ++ [.stored section_] }
  | .timeout => { s with dfil := s.dfil.filterTimeout }
  | .restart => { s with dfil := s.dfil.feedStart }
  | .start limited how => s.note (s.dfil.filterStart limited how)
  | .stop => s.note s.dfil.filterStop
  | .setFilter oneshot => s.note (s.dfil.sectionFilterSet oneshot)
  | .setBufferSize size memory => s.note (s.dfil.setBufferSize size memory)
  | .read nonBlocking count => { s with reading := some (s.dfil.readSec nonBlocking count) }
  | .proceed signal => s.proceed signal

/-- What is delivered is a section, the timer has to run, a feed is restarted for a filter that has
    been started, and a read keeps other calls out. -/
def ReadAct.Allowed (s : ReadState) : ReadAct → Prop
  | .deliver section_ => IsSection section_
  | .timeout => s.dfil.timer = true
  | .restart => .go ≤ s.dfil.state
  | .proceed _ => True
  | _ => s.reading = none

/-- No overflow is found while the body of a section is being read. -/
def ReadAct.Kept (s : ReadState) : ReadAct → Prop
  | .proceed _ => ∀ reading ∈ s.reading, reading.header = false → 0 < s.dfil.todo →
      s.dfil.error = none
  | _ => True

inductive ReadRun (Ok : ReadState → ReadAct → Prop) : ReadState → Prop where
  | opened (secheader : ℕ → UInt8) : ReadRun Ok (.opened secheader)
  | step {s : ReadState} (act : ReadAct) : ReadRun Ok s → act.Allowed s → Ok s act →
    ReadRun Ok (act.run s)

end Dmx

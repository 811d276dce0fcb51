import NeumoDrivers.Lib.Loop
import NeumoDrivers.Demux.Cell
import NeumoDrivers.Demux.Crc

/-! A single stream embedded in BBFRAMEs (`struct bbframes_stream`, `neumo-dvb-demux.c`).

    `parseBbheader` takes over the fields of a BBFRAME header. `bbfOutputTsBytes` takes in the bytes
    that follow it, puts the user packets together in `ts.buff` and hands each finished one to the
    feeds of the stream; a user packet may begin in one call and end in another. C `int`s are `ℤ`,
    pointers into the packet are offsets from its start, and the packets handed to
    `neumo_dvb_dmx_swfilter_packet` for the stream's feeds are kept in order in `feeds`. -/

namespace Demux
open Loop

/-- The state of a partial user packet. -/
structure TsStream (β : Type) where
  buffIdx : ℤ
  synced : Bool
  buff : Buff β 200

structure BbframesStream (β : Type) where
  isi : ℤ
  ts : TsStream β
  feeds : List (List β)
  matype : ℤ
  upl : ℤ
  dfl : ℤ
  syncd : ℤ
  issy : ℤ
  bbfCrc8 : ℤ
  bbfPayloadBytesLeft : ℤ
  syncbyte : UInt8
  synced : Bool
  hemMode : Bool
  numCrcErrors : ℤ

variable {β : Type} [Cell β]

/-- Reset the stream when restarting after an error; the buffered bytes stay where they are. -/
def bbframesStreamReset (bbf : BbframesStream β) : BbframesStream β :=
  { bbf with
    ts := { bbf.ts with buffIdx := 0, synced := false }
    matype := -1, upl := -1, dfl := -1, syncd := -1, issy := 0, bbfCrc8 := -1
    bbfPayloadBytesLeft := 0, syncbyte := 0x47, synced := false, hemMode := false }

/-- A stream just allocated and registered under `isi`. -/
def bbframesStreamInit (isi : ℤ) : BbframesStream β :=
  bbframesStreamReset
    { isi := isi, ts := ⟨0, false, Buff.zeros 200⟩, feeds := [], matype := 0, upl := 0, dfl := 0,
      syncd := 0, issy := 0, bbfCrc8 := 0, bbfPayloadBytesLeft := 0, syncbyte := 0, synced := false,
      hemMode := false, numCrcErrors := 0 }

/-- `(hi << 8) | lo`. -/
def be16 (hi lo : UInt8) : ℤ := hi.toNat * 256 + lo.toNat

/-- The CRC-8 of a 10-byte header, as it differs from the one sent: 0 in normal mode, 1 in
    high-efficiency mode, anything else when the header is damaged. -/
def bbheaderMode (buff : ℕ → UInt8) : UInt8 :=
  computeCrc8 ((List.range 9).map buff) ^^^ buff 9

/-- Take over the header of a BBFRAME; lengths are sent in bits. -/
def parseBbheader (bbf : BbframesStream β) (hemMode : Bool) (isi : ℤ) (buff : ℕ → UInt8) :
    BbframesStream β :=
  let dfl := be16 (buff 4) (buff 5) / 8
  { bbf with
    hemMode := hemMode
    matype := (buff 0).toNat
    isi := isi
    dfl := dfl
    issy :=
      if hemMode then (buff 2).toNat * 65536 + (buff 3).toNat * 256 + (buff 6).toNat else 0
    upl := if hemMode then 188 else be16 (buff 2) (buff 3) / 8
    syncbyte := if hemMode then 0x47 else buff 3
    bbfPayloadBytesLeft := dfl
    syncd := be16 (buff 7) (buff 8) / 8 }

/-- `extend_crc8`: the running CRC-8 of a user packet in normal mode, kept in an `int`. -/
def extendCrc8 (crc : ℤ) (data : List UInt8) : ℤ :=
  (data.foldl crc8Step (UInt8.ofNat (crc % 256).toNat)).toNat

/-- What a call of `bbf_output_ts_bytes` comes to: `NULL`, a pointer behind the bytes read, a write
    outside `ts.buff`, or a loop that does not end. -/
inductive BbfOut (β : Type) where
  | null (bbf : BbframesStream β)
  | ptr (bbf : BbframesStream β) (p : ℤ)
  | wild
  | hang

/-- Where the loop over the bytes of a call has got to: the next byte and how many are left. -/
structure BbfPos (β : Type) where
  bbf : BbframesStream β
  p : ℤ
  num : ℤ

/-- Begin a user packet with its sync byte; in normal mode the byte in its place is the CRC-8 of
    the packet before, and the result is an error when it does not agree. -/
def openUserPacket (packet : Packet β) (s : BbfPos β) :
    Except (BbframesStream β) (BbfPos β) :=
  if s.bbf.ts.buffIdx = 0 then
    let ts := { s.bbf.ts with buff := s.bbf.ts.buff.put 0 (Cell.lit 0x47), buffIdx := 1 }
    if s.bbf.hemMode then .ok { s with bbf := { s.bbf with ts := ts } }
    else if s.bbf.bbfCrc8 ≠ (packet.byte s.p).toNat ∧ 0 ≤ s.bbf.bbfCrc8 then
      .error { s.bbf with numCrcErrors := s.bbf.numCrcErrors + 1 }
    else
      .ok ⟨{ s.bbf with
              ts := ts, bbfCrc8 := 0, bbfPayloadBytesLeft := s.bbf.bbfPayloadBytesLeft - 1 },
            s.p + 1, s.num - 1⟩
  else .ok s

/-- Copy `num` bytes behind those already in the buffer. The comparison with `sizeof` is one of
    unsigned numbers, so a negative sum counts as too large. -/
def storeUserBytes (packet : Packet β) (bbf : BbframesStream β) (p num : ℤ) :
    Except (BbfOut β) (BbframesStream β) :=
  let idx := bbf.ts.buffIdx
  if 0 < num then
    if 200 ≤ idx then .error (.null bbf)
    else if idx + num < 0 ∨ 200 ≤ idx + num then .error (.ptr bbf p)
    else
      match bbf.ts.buff.memcpy idx (packet.read p (min num (200 - idx))) with
      | none => .error .wild
      | some buff =>
        .ok { bbf with
              ts := { bbf.ts with buff := buff }
              bbfCrc8 :=
                if bbf.hemMode then bbf.bbfCrc8
                else extendCrc8 bbf.bbfCrc8 ((packet.read p num).map Cell.val)
              bbfPayloadBytesLeft := bbf.bbfPayloadBytesLeft - num }
  else .ok bbf

/-- Hand a finished user packet to the feeds. -/
def deliver (bbf : BbframesStream β) : BbframesStream β :=
  { bbf with
    ts := { bbf.ts with buffIdx := 0 }
    feeds := bbf.feeds ++ [bbf.ts.buff.cells.take 188] }

/-- `ts->buff_idx = idx`. -/
def BbframesStream.setIdx (bbf : BbframesStream β) (idx : ℤ) : BbframesStream β :=
  { bbf with ts := { bbf.ts with buffIdx := idx } }

def deliverIfComplete (bbf : BbframesStream β) : BbframesStream β :=
  if bbf.ts.buffIdx = bbf.upl then deliver bbf else bbf

/-- Move on by `n` bytes of which `out` were kept, and hand over the packet if it is complete. -/
def closeUserPacket (s : BbfPos β) (n out : ℤ) : Next (BbfPos β) (BbfOut β) :=
  let idx := s.bbf.ts.buffIdx + out
  let bbf := s.bbf.setIdx (min idx s.bbf.upl)
  if bbf.upl < idx ∧ (bbf.upl < 0 ∨ 200 ≤ bbf.upl) then .exit (.ptr bbf (s.p + n))
  else
    let bbf := deliverIfComplete bbf
    if bbf.bbfPayloadBytesLeft = 0 then .exit (.ptr bbf (s.p + n + (s.num - n)))
    else .again ⟨bbf, s.p + n, s.num - n⟩

/-- One pass of the loop over the bytes of a call. -/
def bbfBody (packet : Packet β) (s : BbfPos β) : Next (BbfPos β) (BbfOut β) :=
  if 0 < s.num ∧ s.bbf.ts.buffIdx ≤ s.bbf.upl then
    match openUserPacket packet s with
    | .error bbf => .exit (.null bbf)
    | .ok s =>
      let n := min (s.bbf.upl - s.bbf.ts.buffIdx) s.num
      if n = 0 then .exit (.ptr s.bbf s.p)
      else
        let out := min s.bbf.bbfPayloadBytesLeft n
        match storeUserBytes packet s.bbf s.p out with
        | .error r => .exit r
        | .ok bbf => closeUserPacket { s with bbf := bbf } n out
  else .exit (.ptr s.bbf s.p)

/-- Passes that are always enough (`bbfLoop_ends`). -/
def bbfPasses (s : BbfPos β) : ℕ := s.num.toNat + s.bbf.bbfPayloadBytesLeft.toNat + 4

def bbfLoop (packet : Packet β) (s : BbfPos β) : BbfOut β :=
  (run (bbfBody packet) (bbfPasses s) s).getD .hang

/-- Virtually read `n` bytes of the first incomplete packet. -/
def skipPartial (bbf : BbframesStream β) (n : ℤ) : BbframesStream β :=
  let idx := bbf.ts.buffIdx + n
  { bbf with
    ts :=
      { bbf.ts with
        synced := bbf.ts.synced || idx = bbf.syncd
        buffIdx := if idx = bbf.syncd then 0 else idx }
    bbfPayloadBytesLeft := bbf.bbfPayloadBytesLeft - n }

/-- Buffer `num` bytes of a BBFRAME's data field or padding and output the complete packets. -/
def bbfOutputTsBytes (packet : Packet β) (bbf : BbframesStream β) (p num : ℤ) : BbfOut β :=
  if bbf.ts.synced then bbfLoop packet ⟨bbf, p, num⟩
  else
    let n := min (bbf.syncd - bbf.ts.buffIdx) num
    if n < 0 then .ptr bbf (p + num)
    else
      let bbf := skipPartial bbf n
      if bbf.bbfPayloadBytesLeft < 0 then .null { bbf with bbfPayloadBytesLeft := 0 }
      else bbfLoop packet ⟨bbf, p + n, num - n⟩

end Demux

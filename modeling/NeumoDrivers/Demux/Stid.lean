import NeumoDrivers.Demux.Embedded

/-! STID de-embedding (`struct stid_stream`, `neumo-dvb-demux.c`).

    The chip sends BBFRAMEs in transport packets of one pid: behind the transport header and one
    further byte a packet has a 4-byte STID header, and the packet that starts a BBFRAME also its
    10-byte header. The checks of the STID header, of the transport flags and of the continuity
    counter only write to the log, so they leave no trace here. -/

namespace Demux

structure StidStream (β : Type) where
  emb : EmbeddedStream β
  sectionLength : ℤ

variable {β : Type} [Cell β]

def stidStreamInit (embeddingPid : ℤ) (subs : ℕ → Bool) : StidStream β :=
  ⟨embeddedStreamInit embeddingPid subs, 0⟩

def stidStreamReset (stid : StidStream β) : StidStream β :=
  ⟨embeddedStreamReset stid.emb false, 0⟩

/-- The id a BBFRAME is looked up under: the ISI, or 256 when the header says single stream. -/
def stidKey (matype isi : UInt8) : ℕ := if (matype >>> 5) &&& 1 = 1 then defaultKey else isi.toNat

/-- Point `currentBbf` at the sub-stream of a BBFRAME; it is looked up only when the id changes. -/
def selectIsi (emb : EmbeddedStream β) (isi : ℕ) : EmbeddedStream β :=
  if (isi : ℤ) ≠ emb.currentIsi then
    { emb with currentBbf := if (emb.bbfStreams isi).isSome then some isi else none
               currentIsi := isi }
  else emb

/-- Take over the fields of the 4-byte STID header at `p`. -/
def noteStidHeader (packet : Packet β) (stid : StidStream β) (p : ℤ) : StidStream β :=
  let packetCount := packet.byte (p + 3)
  { stid with
    sectionLength := (packet.byte (p + 2)).toNat
    emb := { stid.emb with packetCount := if packetCount = 0xB8 then 0 else packetCount.toNat } }

/-- Read the 10-byte header of a BBFRAME that starts at `p`; a damaged header leaves everything as
    it was. -/
def readStidBbheader (stid : StidStream β) (p : ℤ) (buff : ℕ → UInt8) :
    Outcome (StidStream β × ℤ × Bool) :=
  let hemMode := bbheaderMode buff
  if hemMode &&& 0xFE ≠ 0 then .done (stid, p, false)
  else
    let key := stidKey (buff 0) (buff 1)
    let emb := selectIsi (embeddedStreamSetMatype stid.emb (buff 1).toNat (buff 0)) key
    match emb.currentBbf with
    | none => .done ({ stid with emb := emb }, p, false)
    | some k =>
      match emb.bbfStreams k with
      | none => .wild
      | some bbf =>
        .done ({ stid with emb := emb.put k (parseBbheader bbf (hemMode ≠ 0) key buff) },
          p + 10, true)

/-- Read the STID header at `p`, and the BBFRAME header behind it if a BBFRAME starts. Returns the
    position behind what was read and whether a BBFRAME starts. -/
def getStidHeader (packet : Packet β) (stid : StidStream β) (p : ℤ) :
    Outcome (StidStream β × ℤ × Bool) :=
  let stid := noteStidHeader packet stid p
  if packet.byte (p + 3) ≠ 0xB8 then .done (stid, p + 4, false)
  else readStidBbheader stid (p + 4) fun i => packet.byte (p + 4 + i)

/-- Hand the bytes from `p` on to the current sub-stream, which must have seen a BBFRAME start. -/
def stidOutput (packet : Packet β) (stid : StidStream β) (p : ℤ) (bbframeStarts : Bool) :
    Outcome (StidStream β) :=
  match stid.emb.currentBbf with
  | none => .done stid
  | some k =>
    match stid.emb.bbfStreams k with
    | none => .wild
    | some bbf =>
      if ¬ bbf.synced ∧ ¬ bbframeStarts then .done stid
      else
        let bbf := { bbf with synced := true }
        let n := 188 - p
        if n ≤ 0 then .done { stid with emb := stid.emb.put k bbf }
        else
          match bbfOutputTsBytes packet bbf p n with
          | .null bbf => .done (stidStreamReset { stid with emb := stid.emb.put k bbf })
          | .ptr bbf _ => .done { stid with emb := stid.emb.put k bbf }
          | .wild => .wild
          | .hang => .hang

/-- Take in one transport packet. -/
def stidStreamAddPacket (stid : StidStream β) (packet : Packet β) : Outcome (StidStream β) :=
  if tsPid packet ≠ stid.emb.embeddingPid then .done stid
  else
    let p : ℤ := if hasAdaptationField packet then 4 + 1 + (packet.byte 4).toNat else 4
    match getStidHeader packet stid (p + 1) with
    | .hang => .hang
    | .wild => .wild
    | .done (stid, p, bbframeStarts) => stidOutput packet stid p bbframeStarts

/-- Feed packets one by one. -/
def stidRun (stid : StidStream β) (packets : List (Packet β)) : Outcome (StidStream β) :=
  Outcome.run stidStreamAddPacket stid packets

end Demux

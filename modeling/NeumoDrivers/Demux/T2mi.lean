import NeumoDrivers.Demux.Embedded

/-! T2-MI de-embedding (`struct t2mi_stream`, `neumo-dvb-demux.c`).

    T2-MI packets run through the payloads of the transport packets of one pid: a 6-byte header, for
    packets of type 0 a 13-byte header with the PLP and the BBFRAME header, the payload and a 4-byte
    CRC. Any of them may be cut by the end of a transport packet. `t2miStreamAddPacket` takes in one
    transport packet: `t2miEnter` is the part up to the loop over its bytes, and `t2miBody` one
    stretch of that loop, which in the source runs from its top to its end in four stretches named
    by `T2miStage`. Tests the source makes only to write to the log are left out. -/

namespace Demux
open Loop

structure T2miStream (β : Type) where
  emb : EmbeddedStream β
  defaultIsi : ℤ
  packetType : ℤ
  superframeIdx : ℤ
  crcIdx : ℤ
  synced : Bool
  frameIdx : ℤ
  plpId : ℤ
  packetHeaderIsi : ℤ
  intlFrameStart : ℤ
  t2miCrc32 : UInt32
  t2miPayloadBytesLeft : ℤ
  bbheaderBytesLeft : ℤ
  headerIdx : ℤ
  bbheaderIdx : ℤ
  buff : Buff β 188
  numCcErrors : ℤ
  numCrc8Errors : ℤ
  numCrc32Errors : ℤ

variable {β : Type} [Cell β]

/-- Reset prior to restarting decoding, e.g. after a crc error. -/
def t2miStreamReset (t2mi : T2miStream β) (fullReset : Bool) : T2miStream β :=
  { t2mi with
    emb := embeddedStreamReset t2mi.emb fullReset
    packetType := -1, superframeIdx := 0, crcIdx := 0, synced := false, frameIdx := -1, plpId := -1
    packetHeaderIsi := -1, intlFrameStart := 0, t2miCrc32 := 0, t2miPayloadBytesLeft := 0
    bbheaderBytesLeft := 0, headerIdx := 0, bbheaderIdx := 0 }

def t2miStreamInit (embeddingPid : ℤ) (subs : ℕ → Bool) : T2miStream β :=
  t2miStreamReset
    { emb := embeddedStreamInit embeddingPid subs, defaultIsi := -1, packetType := 0
      superframeIdx := 0, crcIdx := 0, synced := false, frameIdx := 0, plpId := 0
      packetHeaderIsi := 0, intlFrameStart := 0, t2miCrc32 := 0, t2miPayloadBytesLeft := 0
      bbheaderBytesLeft := 0, headerIdx := 0, bbheaderIdx := 0, buff := Buff.zeros 188
      numCcErrors := 0, numCrc8Errors := 0, numCrc32Errors := 0 } true

/-- Take the fields of a complete 6-byte packet header. A `packet_count` that does not follow the
    one before is a protocol violation, and the rest of the header is then not read. -/
def readT2miHeader (t2mi : T2miStream β) : T2miStream β :=
  let t2mi := { t2mi with headerIdx := 0, packetType := (t2mi.buff.byte 0).toNat }
  let packetCount : ℤ := (t2mi.buff.byte 1).toNat
  if 0 ≤ t2mi.emb.packetCount ∧ (t2mi.emb.packetCount + 1) % 256 ≠ packetCount then
    { t2mi with synced := false }
  else
    let payloadLen := (be16 (t2mi.buff.byte 4) (t2mi.buff.byte 5) + 7) / 8
    { t2mi with
      emb := { t2mi.emb with packetCount := packetCount, payloadLen := payloadLen }
      superframeIdx := (t2mi.buff.byte 2 >>> 4).toNat
      packetHeaderIsi := (t2mi.buff.byte 3 &&& 7).toNat
      t2miPayloadBytesLeft := payloadLen
      bbheaderBytesLeft := if t2mi.packetType = 0 then 13 else 0
      bbheaderIdx := 0
      t2miCrc32 := extendCrc32 t2mi.t2miCrc32 ((List.range 6).map t2mi.buff.byte) }

/-- Collect packet header bytes; returns the position behind them and whether the header is
    complete. -/
def getT2miPacketHeader (packet : Packet β) (t2mi : T2miStream β) (p avail : ℤ) :
    Outcome (T2miStream β × ℤ × Bool) :=
  if avail < 0 then .done (t2mi, p, false)
  else
    let num := min avail (6 - t2mi.headerIdx)
    if t2mi.headerIdx + num < 0 ∨ 188 < t2mi.headerIdx + num then .done (t2mi, p, true)
    else
      let num := min num (188 - t2mi.headerIdx)
      if num < 0 then .wild
      else
        match t2mi.buff.memcpy t2mi.headerIdx (packet.read p num) with
        | none => .wild
        | some buff =>
          let t2mi := { t2mi with buff := buff }
          let t2mi :=
            if t2mi.headerIdx = 0 then
              { t2mi with
                crcIdx := 0, emb := { t2mi.emb with payloadLen := 0 }, t2miCrc32 := 0xFFFFFFFF }
            else t2mi
          let p := p + num
          if 188 < p then .done (t2mi, p, true)
          else
            let t2mi := { t2mi with headerIdx := t2mi.headerIdx + num }
            if t2mi.headerIdx ≠ 6 then .done (t2mi, p, false)
            else .done (readT2miHeader t2mi, p, true)

/-- Look up the sub-stream of a PLP: the one subscribed to it, or for the PLP seen first the one
    subscribed to without an id. -/
def selectPlp (emb : EmbeddedStream β) (plpId defaultIsi : ℤ) : Option ℕ :=
  if (emb.bbfStreams plpId.toNat).isSome then some plpId.toNat
  else if plpId = defaultIsi ∧ (emb.bbfStreams defaultKey).isSome then some defaultKey
  else none

/-- Take the fields of a complete 13-byte header: PLP prefix and BBFRAME header. `none` for the
    position means that something went wrong and the stream was reset. -/
def readT2miBbheader (t2mi : T2miStream β) (p : ℤ) :
    Outcome (T2miStream β × Option ℤ × Bool) :=
  let t2mi :=
    { t2mi with
      t2miCrc32 := extendCrc32 t2mi.t2miCrc32 ((List.range 13).map t2mi.buff.byte)
      frameIdx := (t2mi.buff.byte 0).toNat
      plpId := (t2mi.buff.byte 1).toNat
      intlFrameStart := if (t2mi.buff.byte 12).toNat >>> 8 ≠ 0 then 1 else 0
      bbheaderIdx := 0 }
  let buff : ℕ → UInt8 := fun i => t2mi.buff.byte (3 + i)
  if t2mi.bbheaderBytesLeft ≠ 0 then .done (t2mi, some p, true)
  else
    let hemMode := bbheaderMode buff
    if hemMode &&& 0xFE ≠ 0 then
      let t2mi := t2miStreamReset t2mi false
      .done ({ t2mi with numCrc8Errors := t2mi.numCrc8Errors + 1 }, none, true)
    else
      let emb := embeddedStreamSetMatype t2mi.emb t2mi.plpId.toNat (buff 0)
      let defaultIsi := if t2mi.defaultIsi < 0 then t2mi.plpId else t2mi.defaultIsi
      let current := selectPlp emb t2mi.plpId defaultIsi
      let t2mi := { t2mi with defaultIsi := defaultIsi, emb := { emb with currentBbf := current } }
      match current with
      | none => .done (t2mi, some p, true)
      | some k =>
        match t2mi.emb.bbfStreams k with
        | none => .wild
        | some bbf =>
          let bbf := parseBbheader bbf (hemMode ≠ 0) (buff 1).toNat buff
          let t2mi := { t2mi with emb := t2mi.emb.put k bbf }
          if t2mi.t2miPayloadBytesLeft < bbf.bbfPayloadBytesLeft then
            .done (t2miStreamReset t2mi false, none, true)
          else .done (t2mi, some p, true)

/-- Collect bytes of the 13-byte header. -/
def getT2miBbheader (packet : Packet β) (t2mi : T2miStream β) (p avail : ℤ) :
    Outcome (T2miStream β × Option ℤ × Bool) :=
  let num := min avail (13 - t2mi.bbheaderIdx)
  if t2mi.bbheaderIdx + num < 0 ∨ 188 < t2mi.bbheaderIdx + num then
    .done (t2miStreamReset t2mi false, none, true)
  else if num < 0 then .wild
  else
    match t2mi.buff.memcpy t2mi.bbheaderIdx (packet.read p num) with
    | none => .wild
    | some buff =>
      let t2mi := { t2mi with buff := buff }
      let t2mi :=
        if t2mi.bbheaderIdx = 0 then { t2mi with emb := { t2mi.emb with bbfHeaderCrc8 := -1 } }
        else t2mi
      let p := p + num
      if 188 < p then .done (t2miStreamReset t2mi false, none, true)
      else
        let t2mi :=
          { t2mi with
            bbheaderBytesLeft := t2mi.bbheaderBytesLeft - num
            t2miPayloadBytesLeft := t2mi.t2miPayloadBytesLeft - num
            bbheaderIdx := t2mi.bbheaderIdx + num }
        if t2mi.bbheaderIdx ≠ 13 then .done (t2mi, some p, false)
        else readT2miBbheader t2mi p

def t2miFrameIsComplete (t2mi : T2miStream β) : Bool :=
  (t2mi.t2miPayloadBytesLeft = 0 ∧ t2mi.crcIdx = 4) ∨ ¬ t2mi.synced

/-- The stretches of the loop over the bytes of a packet: packet header, BBFRAME header, payload and
    CRC. -/
inductive T2miStage where | header | bbheader | payload | crc
  deriving DecidableEq

/-- A point in the loop over the bytes of a packet. -/
structure T2miPos (β : Type) where
  t2mi : T2miStream β
  p : ℤ
  num : ℤ
  stage : T2miStage

/-- From the top of the loop: read a packet header if one is due. -/
def t2miHeaderStage (packet : Packet β) (t2mi : T2miStream β) (p num : ℤ) :
    Next (T2miPos β) (Outcome (T2miStream β)) :=
  if 188 ≤ p then .exit (.done t2mi)
  else if t2miFrameIsComplete t2mi ∨ 0 < t2mi.headerIdx then
    let num := 188 - p
    match getT2miPacketHeader packet t2mi p num with
    | .hang => .exit .hang
    | .wild => .exit .wild
    | .done (t2mi, p', complete) =>
      let num := num - (p' - p)
      if 188 < p' then .exit (.done t2mi)
      else if num ≠ 188 - p' then .exit (.done t2mi)
      else if ¬ complete ∧ p' ≠ 188 then .exit (.done t2mi)
      else
        let t2mi := { t2mi with synced := true }
        if ¬ complete then .exit (.done t2mi) else .again ⟨t2mi, p', num, .bbheader⟩
  else .again ⟨t2mi, p, num, .bbheader⟩

def t2miBbheaderStage (packet : Packet β) (t2mi : T2miStream β) (p num : ℤ) :
    Next (T2miPos β) (Outcome (T2miStream β)) :=
  if 0 < t2mi.bbheaderBytesLeft then
    if num ≠ 188 - p then .exit (.done t2mi)
    else
      match getT2miBbheader packet t2mi p num with
      | .hang => .exit .hang
      | .wild => .exit .wild
      | .done (t2mi, none, _) => .exit (.done t2mi)
      | .done (t2mi, some p', complete) =>
        if 188 < p' then .exit (.done { t2mi with synced := false, headerIdx := 0 })
        else
          let num := num - (p' - p)
          if num ≠ 188 - p' then .exit (.done t2mi)
          else if ¬ complete then .exit (.done t2mi)
          else .again ⟨t2mi, p', num, .payload⟩
  else .again ⟨t2mi, p, num, .payload⟩

/-- Count `n` payload bytes as read. -/
def t2miAdvance (t2mi : T2miStream β) (p n num : ℤ) : Next (T2miPos β) (Outcome (T2miStream β)) :=
  if 188 < p + n then .exit (.done t2mi)
  else
    let t2mi := { t2mi with t2miPayloadBytesLeft := t2mi.t2miPayloadBytesLeft - n }
    if num - n ≠ 188 - (p + n) then .exit (.done t2mi)
    else if t2mi.t2miPayloadBytesLeft < 0 then .exit (.done t2mi)
    else .again ⟨t2mi, p + n, num - n, .crc⟩

/-- Hand payload bytes to the sub-stream, or skip those of other packet types. -/
def t2miPayloadStage (packet : Packet β) (t2mi : T2miStream β) (p num : ℤ) :
    Next (T2miPos β) (Outcome (T2miStream β)) :=
  match t2mi.emb.currentBbf with
  | none => .exit (.done t2mi)
  | some k =>
    if num ≠ 188 - p then .exit (.done t2mi)
    else
      let n := min t2mi.t2miPayloadBytesLeft num
      if 0 < n then
        let t2mi :=
          { t2mi with
            t2miCrc32 := extendCrc32 t2mi.t2miCrc32 ((packet.read p n).map Cell.val) }
        if t2mi.packetType = 0 then
          match t2mi.emb.bbfStreams k with
          | none => .exit .wild
          | some bbf =>
            match bbfOutputTsBytes packet bbf p n with
            | .hang => .exit .hang
            | .wild => .exit .wild
            | .null bbf => .exit (.done { t2mi with emb := t2mi.emb.put k bbf })
            | .ptr bbf p' => t2miAdvance { t2mi with emb := t2mi.emb.put k bbf } p (p' - p) num
        else t2miAdvance t2mi p n num
      else .again ⟨t2mi, p, num, .crc⟩

def t2miCrcStage (packet : Packet β) (t2mi : T2miStream β) (p num : ℤ) :
    Next (T2miPos β) (Outcome (T2miStream β)) :=
  if num ≠ 188 - p then .exit (.done t2mi)
  else if t2mi.t2miPayloadBytesLeft = 0 ∧ 0 < num then
    if 4 ≤ t2mi.crcIdx then .exit (.done t2mi)
    else
      let n := min (4 - t2mi.crcIdx) num
      let t2mi :=
        { t2mi with
          t2miCrc32 := extendCrc32 t2mi.t2miCrc32 ((packet.read p n).map Cell.val)
          crcIdx := t2mi.crcIdx + n }
      if 188 < p + n then .exit (.done t2mi)
      else if num - n ≠ 188 - (p + n) then .exit (.done t2mi)
      else
        let t2mi :=
          if t2mi.crcIdx = 4 ∧ t2mi.t2miCrc32 ≠ 0 then
            { t2mi with numCrc32Errors := t2mi.numCrc32Errors + 1 }
          else t2mi
        .again ⟨t2mi, p + n, num - n, .header⟩
  else .again ⟨t2mi, p, num, .header⟩

/-- One stretch of the loop over the bytes of a packet. -/
def t2miBody (packet : Packet β) (s : T2miPos β) : Next (T2miPos β) (Outcome (T2miStream β)) :=
  match s.stage with
  | .header => t2miHeaderStage packet s.t2mi s.p s.num
  | .bbheader => t2miBbheaderStage packet s.t2mi s.p s.num
  | .payload => t2miPayloadStage packet s.t2mi s.p s.num
  | .crc => t2miCrcStage packet s.t2mi s.p s.num

/-- From the first byte of a packet to the loop: either the function returns before it, or the
    loop starts at some position. -/
def t2miEnter (t2mi : T2miStream β) (packet : Packet β) : Next (T2miPos β) (T2miStream β) :=
  if tsPid packet ≠ t2mi.emb.embeddingPid then .exit t2mi
  else if ¬ hasPayload packet then .exit t2mi
  else if packet.byte 3 &&& 0xC0 ≠ 0 then .exit t2mi
  else
    let newCcCounter : ℤ := (packet.byte 3 &&& 0xF).toNat
    let discontinuity :=
      hasAdaptationField packet ∧ packet.byte 4 ≠ 0 ∧ packet.byte 5 &&& 8 ≠ 0
    let p : ℤ := if hasAdaptationField packet then 4 + 1 + (packet.byte 4).toNat else 4
    let pusi := packet.byte 1 &&& 0x40 ≠ 0
    if ¬ t2mi.synced ∧ ¬ pusi then .exit t2mi
    else if ¬ discontinuity ∧ newCcCounter ≠ (t2mi.emb.ccCounter + 1) % 16 ∧
        0 ≤ t2mi.emb.ccCounter then
      .exit (t2miStreamReset { t2mi with numCcErrors := t2mi.numCcErrors + 1 } false)
    else
      let t2mi := { t2mi with emb := { t2mi.emb with ccCounter := newCcCounter } }
      if pusi then
        let uimsbf : ℤ := (packet.byte p).toNat
        let p := p + 1
        if 188 ≤ p + uimsbf then .exit t2mi
        else if t2mi.synced then .again ⟨t2mi, p, 188 - p, .header⟩
        else if 0 < t2mi.headerIdx then .exit { t2mi with synced := false, headerIdx := 0 }
        else .again ⟨t2mi, p + uimsbf, 188 - (p + uimsbf), .header⟩
      else .again ⟨t2mi, p, 188 - p, .header⟩

/-- Stretches that are always enough for a loop that ends at all (`t2miFuel`). -/
def t2miPasses : ℕ := 8 * 188

/-- Take in one transport packet. -/
def t2miStreamAddPacket (t2mi : T2miStream β) (packet : Packet β) : Outcome (T2miStream β) :=
  match t2miEnter t2mi packet with
  | .exit t2mi => .done t2mi
  | .again s => (run (t2miBody packet) t2miPasses s).getD .hang

/-- Feed transport packets one by one. -/
def t2miRun (t2mi : T2miStream β) (packets : List (Packet β)) : Outcome (T2miStream β) :=
  Outcome.run t2miStreamAddPacket t2mi packets

end Demux

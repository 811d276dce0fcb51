import NeumoDrivers.Demux.SubStreams

/-! Which bytes of a transport packet the de-embedders read.

    The functions below list, in the order of the source, the reads from `packet` that a call makes,
    whatever becomes of the bytes; that no read is left out is `t2miStreamAddPacket_congr` and
    `stidStreamAddPacket_congr`. A read may start before the packet's 188 bytes or end behind
    them: the byte of the `pointer_field` and the STID headers are read at a place that an
    `adaptation_field_length` gives, before anything is compared with the end of the packet. -/

namespace Demux
open Loop

/-- A read of `len` bytes, from an offset on. -/
@[ext] structure Access where
  offset : ℤ
  len : ℤ
  deriving DecidableEq

/-- A read of no negative length between two offsets. -/
def Access.Within (p q : ℤ) (a : Access) : Prop := 0 ≤ a.len ∧ p ≤ a.offset ∧ a.offset + a.len ≤ q

def Access.InPacket (a : Access) : Prop := a.Within 0 188

instance (p q : ℤ) (a : Access) : Decidable (a.Within p q) :=
  inferInstanceAs (Decidable (_ ∧ _ ∧ _))

instance (a : Access) : Decidable a.InPacket := inferInstanceAs (Decidable (a.Within 0 188))

theorem Access.Within.mono {p q p' q' : ℤ} {a : Access} (h : a.Within p q) (hp : p' ≤ p)
    (hq : q ≤ q') : a.Within p' q' :=
  ⟨h.1, Int.le_trans hp h.2.1, Int.le_trans h.2.2 hq⟩

variable {β : Type} [Cell β] {packet packet' : Packet β}

/-- Two packets hold the same where one of them is read. -/
def Access.Alike (packet packet' : Packet β) (a : Access) : Prop :=
  packet'.read a.offset a.len = packet.read a.offset a.len

/-! ### The bytes of a BBFRAME -/

/-- The CRC-8 that normal mode sends in place of a sync byte. -/
def syncAccesses (s : BbfPos β) : List Access :=
  if s.bbf.ts.buffIdx = 0 ∧ s.bbf.hemMode = false then [⟨s.p, 1⟩] else []

/-- The copy into the buffer, and in normal mode the CRC-8 over the bytes copied. -/
def storeAccesses (bbf : BbframesStream β) (p num : ℤ) : List Access :=
  let idx := bbf.ts.buffIdx
  if 0 < num ∧ idx < 200 ∧ 0 ≤ idx + num ∧ idx + num < 200 then
    ⟨p, min num (200 - idx)⟩ :: if bbf.hemMode then [] else [⟨p, num⟩]
  else []

/-- One pass of the loop over the bytes of a call of `bbf_output_ts_bytes`. -/
def bbfBodyAccesses (packet : Packet β) (s : BbfPos β) : List Access :=
  if 0 < s.num ∧ s.bbf.ts.buffIdx ≤ s.bbf.upl then
    syncAccesses s ++
      match openUserPacket packet s with
      | .error _ => []
      | .ok u => if u.step = 0 then [] else storeAccesses u.bbf u.p u.out
  else []

def bbfLoopAccesses (packet : Packet β) (s : BbfPos β) : List Access :=
  trace (bbfBodyAccesses packet) (bbfBody packet) (bbfPasses s) s

/-- A call of `bbf_output_ts_bytes`; the bytes of a partial user packet are skipped unread. -/
def bbfAccesses (packet : Packet β) (bbf : BbframesStream β) (p num : ℤ) : List Access :=
  if bbf.ts.synced then bbfLoopAccesses packet ⟨bbf, p, num⟩
  else
    let n := min (bbf.syncd - bbf.ts.buffIdx) num
    if n < 0 then []
    else
      let bbf := skipPartial bbf n
      if bbf.bbfPayloadBytesLeft < 0 then []
      else bbfLoopAccesses packet ⟨bbf, p + n, num - n⟩

variable {s u : BbfPos β} {b : BbframesStream β} {a : Access} {p q num : ℤ}

omit [Cell β] in
theorem storeAccesses_within (ha : a ∈ storeAccesses b p num) : a.Within p (p + num) := by
  simp only [storeAccesses] at ha
  split_ifs at ha with hfit
  · rcases List.mem_cons.mp ha with rfl | ha
    · exact ⟨by simp only; omega, Int.le_refl _, by simp only; omega⟩
    · simp at ha
  · obtain ⟨hpos, _⟩ := hfit
    rcases List.mem_cons.mp ha with rfl | ha
    · exact ⟨by simp only; omega, Int.le_refl _, by simp only; omega⟩
    · obtain rfl := List.mem_singleton.mp ha
      exact ⟨Int.le_of_lt hpos, Int.le_refl _, Int.le_refl _⟩
  · simp at ha

/-- A pass reads within the bytes the loop still has. -/
theorem bbfBodyAccesses_within (hhem : HemLength s.bbf) (ha : a ∈ bbfBodyAccesses packet s) :
    a.Within s.p (s.p + s.num) := by
  simp only [bbfBodyAccesses] at ha
  split_ifs at ha with hrun
  · obtain ⟨hnum, hidx⟩ := hrun
    rcases List.mem_append.mp ha with ha | ha
    · simp only [syncAccesses] at ha
      split_ifs at ha
      · obtain rfl := List.mem_singleton.mp ha
        exact ⟨Int.one_nonneg, Int.le_refl _, by simp only; omega⟩
      · simp at ha
    · cases hopen : openUserPacket packet s with
      | error b => simp [hopen] at ha
      | ok u =>
        simp only [hopen] at ha
        split_ifs at ha
        · simp at ha
        · have hopened := openUserPacket_opened hopen
          obtain ⟨_, hstep, hp, _⟩ := hopened.moves hhem hnum hidx
          have htotal := hopened.total
          have hout : u.out ≤ u.step := Int.min_le_right _ _
          exact (storeAccesses_within ha).mono hp (by omega)
  · simp at ha

/-- Where the loop over the bytes between two offsets gets to. -/
structure BbfPos.Between (p q : ℤ) (s : BbfPos β) : Prop where
  hem : HemLength s.bbf
  num : 0 ≤ s.num
  start : p ≤ s.p
  stop : s.p + s.num = q

theorem BbfPos.Between.step (h : s.Between p q) (hstep : bbfBody packet s = .again u) :
    u.Between p q := by
  have hpass := bbfBody_passes packet s
  rw [hstep] at hpass
  have hfall := hpass.falls h.hem
  cases hpass with
  | again hnum hidx hopen hsame hne hp htotal hleft hmore hkept hinside =>
    obtain ⟨_, hle, _, hforward⟩ := hopen.moves h.hem hnum hidx
    have htot := hopen.total
    have hstart := h.start
    have hstop := h.stop
    exact ⟨hfall.1, by omega, by omega, by omega⟩

theorem bbfLoopAccesses_within (h : s.Between p q) (ha : a ∈ bbfLoopAccesses packet s) :
    a.Within p q := by
  obtain ⟨u, hu, ha⟩ := Visits.of_mem_trace ha
  have hb : u.Between p q := hu.invariant h fun _ _ hb hstep => hb.step hstep
  exact (bbfBodyAccesses_within hb.hem ha).mono hb.start (Int.le_of_eq hb.stop)

/-- A call reads nothing but the bytes it is handed. -/
theorem bbfAccesses_within (hhem : HemLength b) (hnum : 0 ≤ num)
    (ha : a ∈ bbfAccesses packet b p num) : a.Within p (p + num) := by
  simp only [bbfAccesses] at ha
  generalize hk : min (b.syncd - b.ts.buffIdx) num = k at ha
  split_ifs at ha with hsync hneg hnull
  · exact bbfLoopAccesses_within ⟨hhem, hnum, Int.le_refl _, rfl⟩ ha
  · simp at ha
  · simp at ha
  · exact bbfLoopAccesses_within
      ⟨hhem, by simp only; omega, by simp only; omega, by simp only; omega⟩ ha

/-! ### T2-MI -/

/-- The length of the adaptation field, and its flags if it has any. -/
def adaptationAccesses (packet : Packet β) : List Access :=
  if hasAdaptationField packet then ⟨4, 1⟩ :: if packet.byte 4 ≠ 0 then [⟨5, 1⟩] else [] else []

/-- The adaptation field announces a jump of the continuity counter. -/
def Discontinuity (packet : Packet β) : Prop :=
  hasAdaptationField packet ∧ packet.byte 4 ≠ 0 ∧ packet.byte 5 &&& 8 ≠ 0

instance (packet : Packet β) : Decidable (Discontinuity packet) :=
  inferInstanceAs (Decidable (_ ∧ _ ∧ _))

/-- A packet of the stream's pid with a clear payload. -/
def T2miStream.Takes (t2mi : T2miStream β) (packet : Packet β) : Prop :=
  tsPid packet = t2mi.emb.embeddingPid ∧ hasPayload packet ∧ packet.byte 3 &&& 0xC0 = 0

instance (t2mi : T2miStream β) (packet : Packet β) : Decidable (t2mi.Takes packet) :=
  inferInstanceAs (Decidable (_ ∧ _ ∧ _))

/-- The payload starts with a `pointer_field`, and the continuity counter is no reason to stop. -/
def T2miStream.ReadsPointer (t2mi : T2miStream β) (packet : Packet β) : Prop :=
  packet.byte 1 &&& 0x40 ≠ 0 ∧
    (Discontinuity packet ∨ ((packet.byte 3 &&& 0xF).toNat : ℤ) = (t2mi.emb.ccCounter + 1) % 16 ∨
      t2mi.emb.ccCounter < 0)

instance (t2mi : T2miStream β) (packet : Packet β) : Decidable (t2mi.ReadsPointer packet) :=
  inferInstanceAs (Decidable (_ ∧ (_ ∨ _ ∨ _)))

/-- From the first byte of a packet to the loop. -/
def t2miEnterAccesses (t2mi : T2miStream β) (packet : Packet β) : List Access :=
  ⟨1, 1⟩ :: ⟨2, 1⟩ ::
    if tsPid packet ≠ t2mi.emb.embeddingPid then []
    else
      ⟨3, 1⟩ ::
        if t2mi.Takes packet then
          adaptationAccesses packet ++
            if t2mi.ReadsPointer packet then [⟨payloadStart packet, 1⟩] else []
        else []

theorem adaptationAccesses_within (ha : a ∈ adaptationAccesses packet) : a.Within 1 6 := by
  simp only [adaptationAccesses] at ha
  split_ifs at ha
  · rcases List.mem_cons.mp ha with rfl | ha
    · decide
    · obtain rfl := List.mem_singleton.mp ha
      decide
  · obtain rfl := List.mem_singleton.mp ha
    decide
  · simp at ha

/-- Only the byte of the `pointer_field` is read at a place that the packet gives. -/
theorem t2miEnterAccesses_cases {t2mi : T2miStream β} (ha : a ∈ t2miEnterAccesses t2mi packet) :
    a.Within 1 6 ∨
      t2mi.Takes packet ∧ t2mi.ReadsPointer packet ∧ a = ⟨payloadStart packet, 1⟩ := by
  rw [t2miEnterAccesses] at ha
  rcases List.mem_cons.mp ha with rfl | ha
  · exact .inl (by decide)
  rcases List.mem_cons.mp ha with rfl | ha
  · exact .inl (by decide)
  split_ifs at ha with hpid htakes hpointer
  · simp at ha
  · rcases List.mem_cons.mp ha with rfl | ha
    · exact .inl (by decide)
    rcases List.mem_append.mp ha with ha | ha
    · exact .inl (adaptationAccesses_within ha)
    · exact .inr ⟨htakes, hpointer, List.mem_singleton.mp ha⟩
  · rcases List.mem_cons.mp ha with rfl | ha
    · exact .inl (by decide)
    rw [List.append_nil] at ha
    exact .inl (adaptationAccesses_within ha)
  · rcases List.mem_cons.mp ha with rfl | ha
    · exact .inl (by decide)
    · simp at ha

/-- `get_t2mi_packet_header`: the bytes copied. -/
def packetHeaderAccesses (t2mi : T2miStream β) (p avail : ℤ) : List Access :=
  if avail < 0 then []
  else
    let num := min avail (6 - t2mi.headerIdx)
    if t2mi.headerIdx + num < 0 ∨ 188 < t2mi.headerIdx + num then []
    else [⟨p, min num (188 - t2mi.headerIdx)⟩]

/-- `get_t2mi_bbheader`: the bytes copied. -/
def bbheaderAccesses (t2mi : T2miStream β) (p avail : ℤ) : List Access :=
  let num := min avail (13 - t2mi.bbheaderIdx)
  if t2mi.bbheaderIdx + num < 0 ∨ 188 < t2mi.bbheaderIdx + num then [] else [⟨p, num⟩]

/-- The payload: the CRC-32 over it, and what the sub-stream reads. -/
def payloadAccesses (packet : Packet β) (t2mi : T2miStream β) (p num : ℤ) : List Access :=
  match t2mi.emb.currentBbf with
  | none => []
  | some k =>
    let n := min t2mi.t2miPayloadBytesLeft num
    if num = 188 - p ∧ 0 < n then
      ⟨p, n⟩ ::
        if t2mi.packetType = 0 then
          match t2mi.emb.bbfStreams k with
          | none => []
          | some bbf => bbfAccesses packet bbf p n
        else []
    else []

/-- One stretch of the loop over the bytes of a packet. -/
def t2miBodyAccesses (packet : Packet β) (s : T2miPos β) : List Access :=
  match s.stage with
  | .header =>
    if s.p < 188 ∧ (t2miFrameIsComplete s.t2mi = true ∨ 0 < s.t2mi.headerIdx) then
      packetHeaderAccesses s.t2mi s.p (188 - s.p)
    else []
  | .bbheader =>
    if 0 < s.t2mi.bbheaderBytesLeft ∧ s.num = 188 - s.p then bbheaderAccesses s.t2mi s.p s.num
    else []
  | .payload => payloadAccesses packet s.t2mi s.p s.num
  | .crc =>
    if s.num = 188 - s.p ∧ s.t2mi.t2miPayloadBytesLeft = 0 ∧ 0 < s.num ∧ s.t2mi.crcIdx < 4 then
      [⟨s.p, min (4 - s.t2mi.crcIdx) s.num⟩]
    else []

/-- A call of `t2mi_stream_add_packet` makes this read. -/
def T2miReads (t2mi : T2miStream β) (packet : Packet β) (a : Access) : Prop :=
  a ∈ t2miEnterAccesses t2mi packet ∨
    ∃ s u, t2miEnter t2mi packet = .again s ∧ Visits (t2miBody packet) s u ∧
      a ∈ t2miBodyAccesses packet u

/-- The call reads offsets 0 to 187 only, and never a negative length. -/
def T2miReadsInside (t2mi : T2miStream β) (packet : Packet β) : Prop :=
  ∀ a, T2miReads t2mi packet a → a.InPacket

/-- Where the loop gets to, and what its sub-streams are like. -/
structure T2miPos.Reading (s : T2miPos β) : Prop where
  start : 0 ≤ s.p
  hem : ∀ k b, s.t2mi.emb.bbfStreams k = some b → HemLength b
  placed : s.Inv ∨ s.Stuck

variable {t2mi : T2miStream β} {v w : T2miPos β}

theorem T2miPos.Reading.step (h : v.Reading) (hstep : t2miBody packet v = .again w) :
    w.Reading := by
  have hjam : v.Stuck → w.Reading := by
    intro hstuck
    obtain ⟨w', hw', hstuck', hp, hemb⟩ := t2miBody_stuck packet hstuck
    rw [hw'] at hstep
    cases hstep
    exact ⟨hp ▸ h.start, hemb ▸ h.hem, .inr hstuck'⟩
  rcases h.placed with hinv | hstuck
  · by_cases hgo : v.Jammed
    · exact hjam (hgo.stuck hinv)
    · have hadv := @t2miBody_advances _ _ packet _ hinv hgo
      rw [hstep] at hadv
      obtain ⟨hinv', hfuel⟩ := hadv
      refine ⟨?_, hinv'.stream.hem, .inl hinv'⟩
      have hle := t2miFuel_le v
      have hge := le_t2miFuel w
      have hstart := h.start
      omega
  · exact hjam hstuck

/-- In the payload the bytes due are at hand. -/
theorem payloadAccesses_inside (hp : 0 ≤ p)
    (hhem : ∀ k b, t2mi.emb.bbfStreams k = some b → HemLength b)
    (ha : a ∈ payloadAccesses packet t2mi p num) : a.InPacket := by
  rw [payloadAccesses] at ha
  split at ha
  · simp at ha
  · simp only at ha
    split_ifs at ha with hdue htype
    · rcases List.mem_cons.mp ha with rfl | ha
      · exact ⟨by simp only; omega, hp, by simp only; omega⟩
      · split at ha
        · simp at ha
        · rename_i b hb
          exact (bbfAccesses_within (hhem _ b hb) (Int.le_of_lt hdue.2) ha).mono hp (by omega)
    · obtain rfl := List.mem_singleton.mp ha
      exact ⟨by simp only; omega, hp, by simp only; omega⟩
    · simp at ha

/-- The loop reads inside the packet, wherever it gets to. -/
theorem T2miPos.Reading.inside (h : v.Reading) (ha : a ∈ t2miBodyAccesses packet v) :
    a.InPacket := by
  have hp := h.start
  rw [t2miBodyAccesses] at ha
  cases hstage : v.stage with
  | header =>
    simp only [hstage] at ha
    split_ifs at ha with hdue
    · have hidx : 0 ≤ v.t2mi.headerIdx ∧ v.t2mi.headerIdx < 6 := by
        rcases h.placed with hinv | hstuck
        · exact hinv.stream.header
        · have := hstuck.inside.2.1
          omega
      simp only [packetHeaderAccesses] at ha
      split_ifs at ha
      · simp at ha
      · simp at ha
      · obtain rfl := List.mem_singleton.mp ha
        exact ⟨by simp only; omega, hp, by simp only; omega⟩
    · simp at ha
  | bbheader =>
    simp only [hstage] at ha
    split_ifs at ha with hdue
    · rcases h.placed with hinv | hstuck
      · have hleft := hinv.stream.bbheader
        have hle := (hinv.inside (by rw [hstage]; rintro ⟨⟩)).1
        simp only [bbheaderAccesses] at ha
        split_ifs at ha
        · simp at ha
        · obtain rfl := List.mem_singleton.mp ha
          exact ⟨by simp only; omega, hp, by simp only; omega⟩
      · have := hstuck.inside.2.2
        omega
    · simp at ha
  | payload =>
    simp only [hstage] at ha
    exact payloadAccesses_inside hp h.hem ha
  | crc =>
    simp only [hstage] at ha
    split_ifs at ha with hdue
    · obtain rfl := List.mem_singleton.mp ha
      exact ⟨by simp only; omega, hp, by simp only; omega⟩
    · simp at ha

theorem t2miEnter_reading (h : t2mi.Inv) (hs : t2miEnter t2mi packet = .again v) : v.Reading := by
  have hinv := t2miEnter_inv h packet
  rw [hs] at hinv
  have hstart := t2miEnter_start hs
  exact ⟨by omega, hinv.1.stream.hem, .inl hinv.1⟩

/-- The loop never reads outside the packet; the byte of the `pointer_field` may lie behind it. -/
theorem T2miStream.Inv.readsInside_iff (h : t2mi.Inv) (packet : Packet β) :
    T2miReadsInside t2mi packet ↔
      ¬ (t2mi.Takes packet ∧ t2mi.ReadsPointer packet ∧ hasAdaptationField packet = true ∧
        183 ≤ (packet.byte 4).toNat) := by
  constructor
  · rintro hinside ⟨htakes, hpointer, hadapt, hlen⟩
    have hread : T2miReads t2mi packet ⟨payloadStart packet, 1⟩ := by
      left
      rw [t2miEnterAccesses, if_neg (not_not.mpr htakes.1), if_pos htakes, if_pos hpointer]
      simp
    obtain ⟨_, _, hend⟩ := hinside _ hread
    rw [payloadStart, if_pos hadapt] at hend
    simp only at hend
    omega
  · rintro hfits a (ha | ⟨s, u, hs, hu, ha⟩)
    · rcases t2miEnterAccesses_cases ha with hearly | ⟨htakes, hpointer, rfl⟩
      · exact hearly.mono (by decide) (by decide)
      · refine ⟨Int.one_nonneg, ?_, ?_⟩
        · simp only [payloadStart]
          split <;> omega
        · simp only [payloadStart]
          split_ifs with hadapt
          · have hlt : ¬ 183 ≤ (packet.byte 4).toNat :=
              fun hlen => hfits ⟨htakes, hpointer, hadapt, hlen⟩
            omega
          · decide
    · have hreading : u.Reading :=
        hu.invariant (t2miEnter_reading h hs) fun _ _ hv hstep => hv.step hstep
      exact hreading.inside ha

/-! ### STID -/

/-- `get_stid_header`: the 4-byte header, whose second byte is compared if the first agrees, and at
    the start of a BBFRAME the 10-byte header behind it. -/
def stidHeaderAccesses (packet : Packet β) (p : ℤ) : List Access :=
  ⟨p, 1⟩ ::
    ((if packet.byte p = 0x80 then [⟨p + 1, 1⟩] else []) ++
      ⟨p + 2, 1⟩ :: ⟨p + 3, 1⟩ ::
        if packet.byte (p + 3) = 0xB8 then [⟨p + 4 + 9, 1⟩, ⟨p + 4, 9⟩] else [])

/-- The bytes behind the headers. -/
def stidOutputAccesses (packet : Packet β) (stid : StidStream β) (p : ℤ) (bbframeStarts : Bool) :
    List Access :=
  match stid.emb.currentBbf with
  | none => []
  | some k =>
    match stid.emb.bbfStreams k with
    | none => []
    | some bbf =>
      if ¬ bbf.synced ∧ ¬ bbframeStarts then []
      else if 188 - p ≤ 0 then []
      else bbfAccesses packet { bbf with synced := true } p (188 - p)

/-- A call of `stid_stream_add_packet`. -/
def stidAccesses (stid : StidStream β) (packet : Packet β) : List Access :=
  ⟨1, 1⟩ :: ⟨2, 1⟩ ::
    if tsPid packet ≠ stid.emb.embeddingPid then []
    else
      ⟨3, 1⟩ ::
        (adaptationAccesses packet ++
          (stidHeaderAccesses packet (payloadStart packet + 1) ++
            match getStidHeader packet stid (payloadStart packet + 1) with
            | .done (stid, p, bbframeStarts) => stidOutputAccesses packet stid p bbframeStarts
            | .hang => []
            | .wild => []))

def StidReadsInside (stid : StidStream β) (packet : Packet β) : Prop :=
  ∀ a ∈ stidAccesses stid packet, a.InPacket

/-- Behind the adaptation field there is room for the STID header, and for the header of a BBFRAME
    if one starts. -/
def HeadersFit (packet : Packet β) : Prop :=
  hasAdaptationField packet →
    (packet.byte 4).toNat ≤ 178 ∧
      (packet.byte ((packet.byte 4).toNat + 9) = 0xB8 → (packet.byte 4).toNat ≤ 168)

variable {stid : StidStream β} {starts : Bool}

theorem stidOutputAccesses_inside (h : stid.emb.All HemLength) (hp : 0 ≤ p)
    (ha : a ∈ stidOutputAccesses packet stid p starts) : a.InPacket := by
  rw [stidOutputAccesses] at ha
  split at ha
  · simp at ha
  · split at ha
    · simp at ha
    · rename_i b hb
      split_ifs at ha with hskip hend
      · simp at ha
      · simp at ha
      · have hhem : HemLength { b with synced := true } := h _ b hb
        exact (bbfAccesses_within hhem (by omega) ha).mono hp (by omega)

theorem stidHeaderAccesses_inside_iff (hp : 0 ≤ p) :
    (∀ a ∈ stidHeaderAccesses packet p, a.InPacket) ↔
      p + 4 ≤ 188 ∧ (packet.byte (p + 3) = 0xB8 → p + 14 ≤ 188) := by
  constructor
  · intro hinside
    have hlast : Access.InPacket ⟨p + 3, 1⟩ := hinside _ (by simp [stidHeaderAccesses])
    refine ⟨?_, fun hstarts => ?_⟩
    · have hend : p + 3 + 1 ≤ 188 := hlast.2.2
      omega
    · have hheader : Access.InPacket ⟨p + 4 + 9, 1⟩ :=
        hinside _ (by simp [stidHeaderAccesses, hstarts])
      have hend : p + 4 + 9 + 1 ≤ 188 := hheader.2.2
      omega
  · rintro ⟨hroom, hbbheader⟩ a ha
    simp only [stidHeaderAccesses, List.mem_cons, List.mem_append] at ha
    rcases ha with rfl | ha | rfl | rfl | ha
    · exact ⟨Int.one_nonneg, hp, by simp only; omega⟩
    · split_ifs at ha
      · obtain rfl := List.mem_singleton.mp ha
        exact ⟨Int.one_nonneg, by simp only; omega, by simp only; omega⟩
      · simp at ha
    · exact ⟨Int.one_nonneg, by simp only; omega, by simp only; omega⟩
    · exact ⟨Int.one_nonneg, by simp only; omega, by simp only; omega⟩
    · split_ifs at ha with hstarts
      · have hend := hbbheader hstarts
        rcases List.mem_cons.mp ha with rfl | ha
        · exact ⟨Int.one_nonneg, by simp only; omega, by simp only; omega⟩
        · obtain rfl := List.mem_singleton.mp ha
          exact ⟨Int.natCast_nonneg 9, by simp only; omega, by simp only; omega⟩
      · simp at ha

theorem headersFit_iff (packet : Packet β) :
    HeadersFit packet ↔ payloadStart packet + 1 + 4 ≤ 188 ∧
      (packet.byte (payloadStart packet + 1 + 3) = 0xB8 → payloadStart packet + 1 + 14 ≤ 188) := by
  rw [HeadersFit, payloadStart]
  split_ifs with hadapt
  · have hbyte : (4 + 1 + ((packet.byte 4).toNat : ℤ) + 1 + 3) = (packet.byte 4).toNat + 9 := by
      omega
    rw [hbyte]
    constructor
    · intro h
      obtain ⟨hroom, hstarts⟩ := h hadapt
      exact ⟨by omega, fun hb => by have := hstarts hb; omega⟩
    · rintro ⟨hroom, hstarts⟩ _
      exact ⟨by omega, fun hb => by have := hstarts hb; omega⟩
  · exact ⟨fun _ => ⟨by decide, fun _ => by decide⟩, fun _ h => absurd h hadapt⟩

/-- The headers may lie behind the packet; what follows them is read inside it. -/
theorem stidReadsInside_iff (h : stid.emb.All HemLength) (packet : Packet β) :
    StidReadsInside stid packet ↔ (tsPid packet = stid.emb.embeddingPid → HeadersFit packet) := by
  have hstart : 0 ≤ payloadStart packet := by
    rw [payloadStart]
    split <;> omega
  rw [headersFit_iff, ← stidHeaderAccesses_inside_iff (by omega)]
  constructor
  · intro hinside hpid a ha
    refine hinside a ?_
    rw [stidAccesses, if_neg (not_not.mpr hpid)]
    simp only [List.mem_cons, List.mem_append]
    exact .inr (.inr (.inr (.inr (.inl ha))))
  · intro hheaders a ha
    rw [stidAccesses] at ha
    rcases List.mem_cons.mp ha with rfl | ha
    · decide
    rcases List.mem_cons.mp ha with rfl | ha
    · decide
    split_ifs at ha with hpid
    · simp at ha
    rcases List.mem_cons.mp ha with rfl | ha
    · decide
    rcases List.mem_append.mp ha with ha | ha
    · exact (adaptationAccesses_within ha).mono (by decide) (by decide)
    rcases List.mem_append.mp ha with ha | ha
    · exact hheaders (not_not.mp hpid) a ha
    · split at ha
      · rename_i hheader
        obtain ⟨hinv, hp⟩ := getStidHeader_all hemLength_kept h hheader
        exact stidOutputAccesses_inside hinv (by omega) ha
      · simp at ha
      · simp at ha

/-! ### Every reachable state -/

/-- In every reachable state and for every packet, T2-MI reads outside the packet if and only if it
    looks for a `pointer_field` behind an adaptation field of 183 bytes or more, and STID if and only
    if an adaptation field of its pid leaves no room for the headers it reads. -/
theorem packet_reads_inside (t2mi : T2miStream β)
    (ht2mi : T2miReached (fun _ _ => True) t2mi) (stid : StidStream β)
    (hstid : StidReached (fun _ _ => True) stid) (packet : Packet β) :
    (T2miReadsInside t2mi packet ↔
      ¬ (t2mi.Takes packet ∧ t2mi.ReadsPointer packet ∧ hasAdaptationField packet = true ∧
        183 ≤ (packet.byte 4).toNat)) ∧
    (StidReadsInside stid packet ↔ (tsPid packet = stid.emb.embeddingPid → HeadersFit packet)) :=
  ⟨ht2mi.inv.readsInside_iff packet, stidReadsInside_iff hstid.hem packet⟩

/-- A packet of pid 270 with `payload_unit_start_indicator` and an adaptation field of 183 bytes. -/
def fullAdaptation : Packet UInt8 := Packet.ofList [0x47, 0x41, 0x0E, 0x30, 0xB7]

theorem packet_reads_inside_full :
    (T2miReadsInside (t2miStreamInit 270 fun k => k = 3) fullAdaptation ↔
      ¬ ((t2miStreamInit 270 fun k => k = 3).Takes fullAdaptation ∧
        (t2miStreamInit 270 fun k => k = 3).ReadsPointer fullAdaptation ∧
        hasAdaptationField fullAdaptation = true ∧ 183 ≤ (fullAdaptation.byte 4).toNat)) ∧
    (StidReadsInside (stidStreamInit 270 fun k => k = 3) fullAdaptation ↔
      (tsPid fullAdaptation =
        (stidStreamInit 270 fun k => k = 3 : StidStream UInt8).emb.embeddingPid →
          HeadersFit fullAdaptation)) :=
  packet_reads_inside _ (.init 270 _) _ (.init 270 _) fullAdaptation

/-- Both de-embedders read behind the packet. -/
theorem fullAdaptation_outside :
    ¬ ∀ (t2mi : T2miStream UInt8) (stid : StidStream UInt8), T2miReached (fun _ _ => True) t2mi →
      StidReached (fun _ _ => True) stid →
        ∀ packet, T2miReadsInside t2mi packet ∧ StidReadsInside stid packet := by
  intro hclaim
  have hinside := (hclaim (t2miStreamInit 270 fun k => k = 3) (stidStreamInit 270 fun k => k = 3)
    (.init 270 _) (.init 270 _) fullAdaptation).1
  have hread : T2miReads (t2miStreamInit 270 fun k => k = 3) fullAdaptation ⟨188, 1⟩ :=
    .inl (by decide)
  exact absurd (hinside _ hread) (by decide)

end Demux

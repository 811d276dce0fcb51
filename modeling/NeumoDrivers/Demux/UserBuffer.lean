import NeumoDrivers.Demux.PacketReads
import NeumoDrivers.Demux.UserBytes

/-! The buffer a user packet is put together in.

    A call of `bbf_output_ts_bytes` counts the bytes in `ts.buff` and the data bytes still to come.
    Two things make it lose count. While it looks for the first user packet it counts the bytes
    skipped in `buff_idx`, up to whatever the header gives as SYNCD. And in normal mode it takes the
    byte in place of a sync byte before it asks whether a data byte is left, so when only padding
    follows the count falls below 0, and `buff_idx` after it. `Careful` says that neither happens in
    a call; where all calls are careful the buffer is never left (`user_buffer_safe`). -/

namespace Demux
open Loop

variable {β : Type} [Cell β] {packet : Packet β} {b b' : BbframesStream β} {s t u : BbfPos β}
  {p num : ℤ}

/-- The index lies in the buffer or at its end, and the count of data bytes is not negative. -/
structure InBuffer (b : BbframesStream β) : Prop where
  start : 0 ≤ b.ts.buffIdx
  stop : b.ts.buffIdx ≤ 200
  left : 0 ≤ b.bbfPayloadBytesLeft

/-- The copy behind the bytes in the buffer, as offset and length. -/
def storeCopies (b : BbframesStream β) (num : ℤ) : List Access :=
  let idx := b.ts.buffIdx
  if 0 < num ∧ idx < 200 ∧ 0 ≤ idx + num ∧ idx + num < 200 then [⟨idx, min num (200 - idx)⟩] else []

/-- The loop goes on. -/
def BbfPos.Runs (s : BbfPos β) : Prop := 0 < s.num ∧ s.bbf.ts.buffIdx ≤ s.bbf.upl

/-- A pass of the loop keeps to the buffer: at its start, with a user packet begun, in its copy and
    with the bytes copied counted. -/
structure BbfPos.Safe (packet : Packet β) (s : BbfPos β) : Prop where
  before : InBuffer s.bbf
  opened : ∀ u, s.Runs → openUserPacket packet s = .ok u → InBuffer u.bbf
  copies : ∀ u, s.Runs → openUserPacket packet s = .ok u → u.step ≠ 0 →
    ∀ c ∈ storeCopies u.bbf u.out, c.Within 0 200
  kept : ∀ u b, s.Runs → openUserPacket packet s = .ok u → u.step ≠ 0 →
    storeUserBytes packet u.bbf u.p u.out = .ok b → InBuffer (b.setIdx (b.ts.buffIdx + u.out))

/-- Bytes to be skipped up to the first user packet. -/
def BbframesStream.toSkip (b : BbframesStream β) (num : ℤ) : ℤ := min (b.syncd - b.ts.buffIdx) num

/-- Where the loop of a call starts, if the call gets to it. -/
def bbfEnter (b : BbframesStream β) (p num : ℤ) : Option (BbfPos β) :=
  if b.ts.synced then some ⟨b, p, num⟩
  else if b.toSkip num < 0 ∨ b.bbfPayloadBytesLeft < b.toSkip num then none
  else some ⟨skipPartial b (b.toSkip num), p + b.toSkip num, num - b.toSkip num⟩

/-- A call keeps to the buffer: when it starts, when it has counted the bytes skipped, at every pass
    of its loop and when it ends. -/
structure CallSafe (packet : Packet β) (b : BbframesStream β) (p num : ℤ) : Prop where
  before : InBuffer b
  skipped : b.ts.synced = false → 0 ≤ b.toSkip num →
    b.ts.buffIdx + b.toSkip num ≤ 200 ∧ b.toSkip num ≤ b.bbfPayloadBytesLeft
  passes : ∀ s t, bbfEnter b p num = some s → Visits (bbfBody packet) s t → t.Safe packet
  inside : bbfOutputTsBytes packet b p num ≠ .wild
  after : ∀ b', (bbfOutputTsBytes packet b p num).bbf = some b' → InBuffer b'

/-- The bytes to be skipped fit the buffer and the data field, and no user packet of normal mode is
    begun when no data byte is left, unless its CRC-8 stops the call. -/
structure Careful (packet : Packet β) (b : BbframesStream β) (p num : ℤ) : Prop where
  skip : b.ts.synced = false → 0 ≤ b.toSkip num →
    b.ts.buffIdx + b.toSkip num ≤ 200 ∧ b.toSkip num ≤ b.bbfPayloadBytesLeft
  room : ∀ s, bbfEnter b p num = some s → s.Runs → s.bbf.bbfPayloadBytesLeft = 0 →
    s.bbf.ts.buffIdx = 0 → s.bbf.hemMode = false →
      s.bbf.bbfCrc8 ≠ (packet.byte s.p).toNat ∧ 0 ≤ s.bbf.bbfCrc8

/-! ### One pass -/

/-- With a data byte left, or an error in the CRC-8, a pass keeps count. -/
def BbfPos.Counts (packet : Packet β) (s : BbfPos β) : Prop :=
  s.Runs → s.bbf.bbfPayloadBytesLeft = 0 → s.bbf.ts.buffIdx = 0 → s.bbf.hemMode = false →
    s.bbf.bbfCrc8 ≠ (packet.byte s.p).toNat ∧ 0 ≤ s.bbf.bbfCrc8

theorem openUserPacket_inBuffer (hb : InBuffer s.bbf) (hcount : s.Counts packet) (hrun : s.Runs)
    (hopen : openUserPacket packet s = .ok u) : InBuffer u.bbf := by
  have hleft := hb.left
  simp only [openUserPacket] at hopen
  split_ifs at hopen with hidx hhem hcrc
  · cases hopen
    exact ⟨Int.one_nonneg, (by decide : (1 : ℤ) ≤ 200), hleft⟩
  · cases hopen
    have hne : s.bbf.bbfPayloadBytesLeft ≠ 0 :=
      fun h0 => hcrc (hcount hrun h0 hidx (Bool.eq_false_iff.mpr hhem))
    exact ⟨Int.one_nonneg, (by decide : (1 : ℤ) ≤ 200), by simp only; omega⟩
  · cases hopen
    exact hb

omit [Cell β] in
theorem storeCopies_within (hb : InBuffer b) : ∀ c ∈ storeCopies b num, c.Within 0 200 := by
  intro c hc
  have hstart := hb.start
  simp only [storeCopies] at hc
  split_ifs at hc
  · obtain rfl := List.mem_singleton.mp hc
    exact ⟨by simp only; omega, hstart, by simp only; omega⟩
  · simp at hc

theorem storeUserBytes_fits (h : storeUserBytes packet b p num = .ok b') (hpos : 0 < num) :
    0 ≤ b.ts.buffIdx + num ∧ b.ts.buffIdx + num < 200 := by
  simp only [storeUserBytes, if_pos hpos] at h
  split_ifs at h
  all_goals omega

theorem storeUserBytes_inside (hstart : 0 ≤ b.ts.buffIdx) :
    storeUserBytes packet b p num ≠ .error .wild := by
  rw [storeUserBytes]
  by_cases hpos : 0 < num
  · by_cases hfull : 200 ≤ b.ts.buffIdx
    · simp [hpos, hfull]
    · by_cases hover : b.ts.buffIdx + num < 0 ∨ 200 ≤ b.ts.buffIdx + num
      · simp [hpos, hfull, hover]
      · obtain ⟨buff, hbuff, _⟩ := b.ts.buff.memcpy_append hstart _
          (packet.read p (min num (200 - b.ts.buffIdx))) rfl (by rw [Packet.length_read]; omega)
        simp only [if_pos hpos, if_neg hfull, if_neg hover, hbuff]
        rintro ⟨⟩
  · simp [hpos]

omit [Cell β] in
theorem Opened.out_ge (h : Opened s u) (hs : InBuffer s.bbf) (hu : InBuffer u.bbf)
    (hrun : s.Runs) : 0 ≤ u.bbf.ts.buffIdx + u.out := by
  obtain ⟨hnum, hidx⟩ := hrun
  have hout : u.out = min u.bbf.bbfPayloadBytesLeft (min (u.bbf.upl - u.bbf.ts.buffIdx) u.num) := rfl
  have hupl := h.format.2
  have hstart := hs.start
  have hleft := hu.left
  by_cases h0 : s.bbf.ts.buffIdx = 0
  · rcases Bool.eq_false_or_eq_true s.bbf.hemMode with hm | hm
    · obtain ⟨hone, hsame, _⟩ := h.hem h0 hm
      omega
    · obtain ⟨hone, hless, _⟩ := h.normal h0 hm
      omega
  · obtain rfl : u = s := h.begun h0
    omega

/-- The bytes copied counted. -/
theorem storeUserBytes_inBuffer (hu : InBuffer u.bbf) (hge : 0 ≤ u.bbf.ts.buffIdx + u.out)
    (hstore : storeUserBytes packet u.bbf u.p u.out = .ok b) :
    InBuffer (b.setIdx (b.ts.buffIdx + u.out)) := by
  obtain ⟨hstart, hstop, hleft⟩ := hu
  obtain ⟨_, hsame, hcount, _⟩ := storeUserBytes_ok hstore
  have hle : u.out ≤ u.bbf.bbfPayloadBytesLeft := Int.min_le_left _ _
  have hend : u.bbf.ts.buffIdx + u.out ≤ 200 := by
    by_cases hpos : 0 < u.out
    · have := (storeUserBytes_fits hstore hpos).2
      omega
    · omega
  refine ⟨?_, ?_, ?_⟩
  · simp only [BbframesStream.setIdx, hsame]
    exact hge
  · simp only [BbframesStream.setIdx, hsame]
    exact hend
  · simp only [BbframesStream.setIdx, hcount]
    omega

omit [Cell β] in
theorem deliverIfComplete_inBuffer (hb : InBuffer b) : InBuffer (deliverIfComplete b) := by
  rw [deliverIfComplete]
  split
  · exact ⟨Int.le_refl 0, (by decide : (0 : ℤ) ≤ 200), hb.left⟩
  · exact hb

/-- A call ends within the buffer. -/
def BbfOut.EndsInBuffer : BbfOut β → Prop
  | .null b => InBuffer b
  | .ptr b _ => InBuffer b
  | .wild => False
  | .hang => True

/-- A pass leads on with a data byte left, or out, and always inside the buffer. -/
def StaysInBuffer : Next (BbfPos β) (BbfOut β) → Prop
  | .again t => InBuffer t.bbf ∧ t.bbf.bbfPayloadBytesLeft ≠ 0
  | .exit r => r.EndsInBuffer

theorem bbfBody_safe (hb : InBuffer s.bbf) (hcount : s.Counts packet) : s.Safe packet := by
  have hopened : ∀ u, s.Runs → openUserPacket packet s = .ok u → InBuffer u.bbf :=
    fun u hrun hopen => openUserPacket_inBuffer hb hcount hrun hopen
  refine ⟨hb, hopened, fun u hrun hopen _ => storeCopies_within (hopened u hrun hopen), ?_⟩
  intro u b hrun hopen _ hstore
  have hu := hopened u hrun hopen
  exact storeUserBytes_inBuffer hu ((openUserPacket_opened hopen).out_ge hb hu hrun) hstore

theorem bbfBody_stays (hs : s.Safe packet) : StaysInBuffer (bbfBody packet s) := by
  rw [bbfBody]
  split_ifs with hrun
  · cases hopen : openUserPacket packet s with
    | error c =>
      simp only [openUserPacket] at hopen
      split_ifs at hopen
      cases hopen
      exact ⟨hs.before.start, hs.before.stop, hs.before.left⟩
    | ok u =>
      have hu := hs.opened u hrun hopen
      have hstep : min (u.bbf.upl - u.bbf.ts.buffIdx) u.num = u.step := rfl
      have hout : min u.bbf.bbfPayloadBytesLeft u.step = u.out := rfl
      simp only [hstep, hout]
      split_ifs with hn
      · exact hu
      · cases hstore : storeUserBytes packet u.bbf u.p u.out with
        | error r =>
          rcases storeUserBytes_error hstore with rfl | rfl | ⟨rfl, _⟩
          · exact hu
          · exact storeUserBytes_inside hu.start hstore
          · exact hu
        | ok b =>
          obtain ⟨hsame, hidx, _⟩ := storeUserBytes_ok hstore
          have hfit : b.ts.buffIdx + u.out ≤ b.upl := by
            have hupl := hsame.2
            simp only [BbfPos.out, BbfPos.step]
            omega
          have hdone := deliverIfComplete_inBuffer (hs.kept u b hrun hopen hn hstore)
          simp only
          rw [closeUserPacket_eq { u with bbf := b } u.step u.out hfit]
          split_ifs with hend
          · exact hdone
          · exact ⟨hdone, hend⟩
  · exact hs.before

/-! ### The call -/

theorem bbfOutputTsBytes_eq (packet : Packet β) (b : BbframesStream β) (p num : ℤ) :
    bbfOutputTsBytes packet b p num =
      match bbfEnter b p num with
      | some s => bbfLoop packet s
      | none =>
        if b.toSkip num < 0 then .ptr b (p + num)
        else .null { skipPartial b (b.toSkip num) with bbfPayloadBytesLeft := 0 } := by
  have hskip : min (b.syncd - b.ts.buffIdx) num = b.toSkip num := rfl
  have hleft : (skipPartial b (b.toSkip num)).bbfPayloadBytesLeft =
      b.bbfPayloadBytesLeft - b.toSkip num := rfl
  rw [bbfOutputTsBytes, bbfEnter]
  simp only [hskip, hleft]
  by_cases hsync : b.ts.synced = true
  · rw [if_pos hsync, if_pos hsync]
  by_cases hneg : b.toSkip num < 0
  · simp only [if_neg hsync, if_pos hneg, if_pos (Or.inl hneg : _ ∨ _)]
  by_cases hnull : b.bbfPayloadBytesLeft < b.toSkip num
  · rw [if_neg hsync, if_neg hsync, if_neg hneg, if_pos (by omega), if_pos (Or.inr hnull)]
    simp only [if_neg hneg]
  · rw [if_neg hsync, if_neg hsync, if_neg hneg, if_neg (by omega), if_neg (by omega)]

/-- From a good start the loop keeps to the buffer, and ends within it. -/
theorem bbfLoop_inBuffer (hb : InBuffer s.bbf) (hcount : s.Counts packet) :
    (∀ t, Visits (bbfBody packet) s t → t.Safe packet) ∧ (bbfLoop packet s).EndsInBuffer := by
  have hvisits : ∀ t, Visits (bbfBody packet) s t → InBuffer t.bbf ∧ t.Counts packet := by
    intro t ht
    induction ht with
    | start => exact ⟨hb, hcount⟩
    | pass _ hpass ih =>
      have hstays := bbfBody_stays (bbfBody_safe ih.1 ih.2)
      rw [hpass] at hstays
      exact ⟨hstays.1, fun _ h0 => absurd h0 hstays.2⟩
  have hsafe : ∀ t, Visits (bbfBody packet) s t → t.Safe packet :=
    fun t ht => bbfBody_safe (hvisits t ht).1 (hvisits t ht).2
  refine ⟨hsafe, ?_⟩
  rw [bbfLoop]
  cases hrun : run (bbfBody packet) (bbfPasses s) s with
  | none => trivial
  | some r =>
    have hends : Ends (bbfBody packet) s r := ⟨_, hrun⟩
    obtain ⟨t, ht, hexit⟩ := hends.visits
    have hstays := bbfBody_stays (hsafe t ht)
    rw [hexit] at hstays
    exact hstays

omit [Cell β] in
theorem BbfOut.EndsInBuffer.bbf {r : BbfOut β} (h : r.EndsInBuffer) (hb : r.bbf = some b) :
    InBuffer b := by
  cases r with
  | null c =>
    cases hb
    exact h
  | ptr c q =>
    cases hb
    exact h
  | wild => cases hb
  | hang => cases hb

omit [Cell β] in
/-- The bytes skipped counted. -/
theorem skipPartial_inBuffer (hb : InBuffer b) (hskip : 0 ≤ b.toSkip num)
    (hfit : b.ts.buffIdx + b.toSkip num ≤ 200 ∧ b.toSkip num ≤ b.bbfPayloadBytesLeft) :
    InBuffer (skipPartial b (b.toSkip num)) := by
  have hstart := hb.start
  refine ⟨?_, ?_, Int.sub_nonneg_of_le hfit.2⟩
  · simp only [skipPartial]
    split <;> omega
  · simp only [skipPartial]
    split <;> omega

/-- A careful call keeps to the buffer. -/
theorem Careful.endsInBuffer (h : Careful packet b p num) (hb : InBuffer b) :
    (∀ s t, bbfEnter b p num = some s → Visits (bbfBody packet) s t → t.Safe packet) ∧
      (bbfOutputTsBytes packet b p num).EndsInBuffer := by
  have hroom : ∀ s, bbfEnter b p num = some s → s.Counts packet :=
    fun s hs hrun h0 hidx hmode => h.room s hs hrun h0 hidx hmode
  rw [bbfOutputTsBytes_eq]
  cases hs : bbfEnter b p num with
  | some s =>
    have hstart : InBuffer s.bbf := by
      rw [bbfEnter] at hs
      split_ifs at hs with hsync hskip
      · obtain rfl := Option.some.inj hs
        exact hb
      · obtain rfl := Option.some.inj hs
        rw [not_or] at hskip
        exact skipPartial_inBuffer hb (by omega)
          (h.skip (Bool.eq_false_iff.mpr hsync) (by omega))
    obtain ⟨hsafe, hends⟩ := bbfLoop_inBuffer hstart (hroom s hs)
    refine ⟨fun s' t hs' ht => ?_, hends⟩
    obtain rfl := Option.some.inj hs'
    exact hsafe t ht
  | none =>
    refine ⟨fun s t hnone => absurd hnone (by simp), ?_⟩
    simp only
    split_ifs with hneg
    · exact hb
    · rw [bbfEnter] at hs
      split_ifs at hs with hsync hskip
      have hfit := h.skip (Bool.eq_false_iff.mpr hsync) (by omega)
      omega

theorem callSafe_iff (hb : InBuffer b) : CallSafe packet b p num ↔ Careful packet b p num := by
  constructor
  · intro h
    refine ⟨h.skipped, fun s hs hrun h0 hidx hmode => ?_⟩
    have hpass := h.passes s s hs .start
    by_contra hcrc
    have hopen : ∃ u, openUserPacket packet s = .ok u ∧ u.bbf.bbfPayloadBytesLeft = -1 := by
      rw [openUserPacket, if_pos hidx]
      simp only [hmode, Bool.false_eq_true, if_false, if_neg hcrc, h0]
      exact ⟨_, rfl, rfl⟩
    obtain ⟨u, hu, hleft⟩ := hopen
    have := (hpass.opened u hrun hu).left
    omega
  · intro h
    obtain ⟨hpasses, hends⟩ := h.endsInBuffer hb
    refine ⟨hb, h.skip, hpasses, ?_, fun b' hb' => hends.bbf hb'⟩
    intro hwild
    rw [hwild] at hends
    exact hends

/-! ### Every run -/

variable {t2mi : T2miStream β} {stid : StidStream β}

/-- Every call a T2-MI packet leads to is careful. -/
def T2miCareful (t2mi : T2miStream β) (packet : Packet β) : Prop :=
  ∀ s u, t2miEnter t2mi packet = .again s → Visits (t2miBody packet) s u →
    ∀ b num, u.Hands b num → Careful packet b u.p num

/-- Wherever a T2-MI packet leads, every sub-stream is inside its buffer, and so is every call. -/
def T2miBufferSafe (t2mi : T2miStream β) (packet : Packet β) : Prop :=
  ∀ s u, t2miEnter t2mi packet = .again s → Visits (t2miBody packet) s u →
    u.t2mi.emb.All InBuffer ∧ ∀ b num, u.Hands b num → CallSafe packet b u.p num

/-- The call an STID packet leads to is careful. -/
def StidCareful (stid : StidStream β) (packet : Packet β) : Prop :=
  ∀ b q, stid.Hands packet b q → Careful packet b q (188 - q)

def StidBufferSafe (stid : StidStream β) (packet : Packet β) : Prop :=
  ∀ b q, stid.Hands packet b q → CallSafe packet b q (188 - q)

theorem be16_nonneg (hi lo : UInt8) : 0 ≤ be16 hi lo / 8 := by
  rw [be16]
  omega

theorem inBuffer_kept : Kept (InBuffer : BbframesStream β → Prop) where
  init := fun _ => ⟨Int.le_refl 0, (by decide : (0 : ℤ) ≤ 200), Int.le_refl 0⟩
  reset := fun _ _ => ⟨Int.le_refl 0, (by decide : (0 : ℤ) ≤ 200), Int.le_refl 0⟩
  parse := fun _ _ _ _ hb => ⟨hb.start, hb.stop, be16_nonneg ..⟩

theorem T2miReached.inBuffer (h : T2miReached T2miCareful t2mi) : t2mi.emb.All InBuffer := by
  refine h.all inBuffer_kept ?_
  intro t2mi packet s u hok hs hu b num hhands hb b' hb'
  exact ((hok s u hs hu b num hhands).endsInBuffer hb).2.bbf hb'

theorem StidReached.inBuffer (h : StidReached StidCareful stid) : stid.emb.All InBuffer := by
  refine h.all inBuffer_kept (fun _ hb => ⟨hb.start, hb.stop, hb.left⟩) ?_
  intro stid packet b q hok hhands hb b' hb'
  exact ((hok b q hhands).endsInBuffer hb).2.bbf hb'

theorem t2miBufferSafe_iff (h : t2mi.emb.All InBuffer) :
    T2miBufferSafe t2mi packet ↔ T2miCareful t2mi packet := by
  constructor
  · intro hsafe s u hs hu b num hhands
    have hcall := (hsafe s u hs hu).2 b num hhands
    exact (callSafe_iff hcall.before).mp hcall
  · intro hcareful s u hs hu
    have hall : u.t2mi.emb.All InBuffer := by
      refine t2miVisits_all inBuffer_kept h hs hu ?_
      intro v hv b num hhands hb b' hb'
      exact ((hcareful s v hs hv b num hhands).endsInBuffer hb).2.bbf hb'
    refine ⟨hall, fun b num hhands => ?_⟩
    obtain ⟨k, _, hb⟩ := hhands.current
    exact (callSafe_iff (hall k b hb)).mpr (hcareful s u hs hu b num hhands)

theorem stidBufferSafe_iff (h : stid.emb.All InBuffer) :
    StidBufferSafe stid packet ↔ StidCareful stid packet := by
  constructor
  · intro hsafe b q hhands
    have hcall := hsafe b q hhands
    exact (callSafe_iff hcall.before).mp hcall
  · intro hcareful b q hhands
    obtain ⟨_, stid', starts, hheader, hat⟩ := hhands
    obtain ⟨k, c, _, hc, rfl, _⟩ := hat.current
    have hb := (getStidHeader_all inBuffer_kept h hheader).1 k c hc
    have hmarked : InBuffer { c with synced := true } := ⟨hb.start, hb.stop, hb.left⟩
    exact (callSafe_iff hmarked).mpr (hcareful _ q ⟨‹_›, stid', starts, hheader, hat⟩)

/-- In every run of packets whose calls are all careful every sub-stream is inside its buffer, in
    every state reached; and from such a state the next packet keeps to the buffers, in every call,
    if and only if its calls are careful too. -/
theorem user_buffer_safe (t2mi : T2miStream β) (ht2mi : T2miReached T2miCareful t2mi)
    (stid : StidStream β) (hstid : StidReached StidCareful stid) (packet : Packet β) :
    (t2mi.emb.All InBuffer ∧ (T2miBufferSafe t2mi packet ↔ T2miCareful t2mi packet)) ∧
      stid.emb.All InBuffer ∧ (StidBufferSafe stid packet ↔ StidCareful stid packet) :=
  ⟨⟨ht2mi.inBuffer, t2miBufferSafe_iff ht2mi.inBuffer⟩,
    hstid.inBuffer, stidBufferSafe_iff hstid.inBuffer⟩

/-- A packet of pid 270 with the header of a BBFRAME of ISI 3 in normal mode: UPL 188 bytes, DFL 0,
    and padding behind it. -/
def emptyBbframe : Packet UInt8 := Packet.ofList
  [0x47, 0x41, 0x0E, 0x10, 0x00, 0x80, 0x00, 0xB4, 0xB8,
    0x00, 0x03, 0x05, 0xE0, 0x00, 0x00, 0x47, 0x00, 0x00, 0xAE]

theorem user_buffer_safe_empty :
    ((t2miStreamInit 270 fun k => k = 3 : T2miStream UInt8).emb.All InBuffer ∧
      (T2miBufferSafe (t2miStreamInit 270 fun k => k = 3) emptyBbframe ↔
        T2miCareful (t2miStreamInit 270 fun k => k = 3) emptyBbframe)) ∧
    (stidStreamInit 270 fun k => k = 3 : StidStream UInt8).emb.All InBuffer ∧
      (StidBufferSafe (stidStreamInit 270 fun k => k = 3) emptyBbframe ↔
        StidCareful (stidStreamInit 270 fun k => k = 3) emptyBbframe) :=
  user_buffer_safe _ (.init 270 _) _ (.init 270 _) emptyBbframe

/-- The count of data bytes falls below 0. -/
theorem emptyBbframe_uncounted :
    (match stidStreamAddPacket (stidStreamInit 270 fun k => k = 3) emptyBbframe with
      | .done stid => (stid.emb.bbfStreams 3).any fun b => b.bbfPayloadBytesLeft < 0
      | _ => false) = true := by decide

theorem user_buffer_left :
    ¬ ∀ stid : StidStream UInt8, StidReached (fun _ _ => True) stid → stid.emb.All InBuffer := by
  intro hclaim
  have hcount := emptyBbframe_uncounted
  split at hcount
  · rename_i stid hadd
    obtain ⟨b, hb, hneg⟩ := (Option.any_eq_true _ _).mp hcount
    have hleft := (hclaim stid (.packet (.init 270 _) emptyBbframe trivial hadd) 3 b hb).left
    exact absurd hleft (Int.not_le.mpr (of_decide_eq_true hneg))
  · cases hcount

end Demux

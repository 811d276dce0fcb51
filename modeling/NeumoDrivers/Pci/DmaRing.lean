import Mathlib.Data.List.Basic
import Mathlib.Data.List.Range
import Mathlib.Tactic.Common
import Mathlib.Tactic.Linarith
import Mathlib.Tactic.Ring

/-! The DMA ring of a TBS card (`tbsecp3-dma.c`).

    The card writes the transport stream to 16 buffers that lie one behind the other, round and round;
    behind the last one there is room for a copy of the start of the first. A tasklet reads which
    buffer is being written and hands the packets of those written before to the demux, from the offset
    on at which it found their sync bytes.

    The buffers are counted on over the rounds: `turn` is the buffer to be read next. The count starts
    with the round that was in memory before the stream, so the stream begins with buffer 16. -/

namespace Tbsecp3

/-- `TS_PACKET_SIZE` -/
def tsPacketSize : ℕ := 188
/-- `TBSECP3_DMA_BUFFERS` -/
def dmaBuffers : ℕ := 16
/-- `TBSECP3_DMA_PRE_BUFFERS` -/
def dmaPreBuffers : ℕ := 2

/-- `buffer_pkts` -/
structure BufferPkts where
  pkts : ℕ
  ge : 16 ≤ pkts
  le : pkts ≤ 256

/-- How `tbsecp3_dma_init` bounds the module parameter. -/
def bufferPkts (dmaPkts : ℕ) : BufferPkts where
  pkts := min (max dmaPkts 16) 256
  ge := le_min (le_max_right _ _) (by decide)
  le := min_le_right _ _

namespace BufferPkts
variable (b : BufferPkts)

/-- `buffer_size` -/
def bufferSize : ℕ := b.pkts * tsPacketSize

/-- `page_size` -/
def pageSize : ℕ := dmaBuffers * b.bufferSize

end BufferPkts

/-- `struct tbsecp3_dma_channel` -/
structure DmaChannel where
  offset : ℕ
  cnt : ℕ
  nextBuffer : ℕ

/-- The tasklet is not running, or it is in its loop. -/
inductive Tasklet where
  | idle
  | loop (readBuffer nextBuffer : ℕ)

/-- What a pass of the loop did: the buffer it was at, the offset it went by, the packets it handed to
    the demux, the bytes of memory it read, if it made the copy, and the buffer being written then. -/
structure Handed where
  turn : ℕ
  offset : ℕ
  blocks : List (List UInt8)
  accessed : List ℕ
  copied : Bool
  writer : ℕ

/-- The channel, its tasklet, how many bytes have been written to the ring, and the bytes behind its
    last buffer. -/
structure DmaState where
  dma : DmaChannel
  tasklet : Tasklet
  pos : ℕ
  tail : ℕ → UInt8
  turn : ℕ
  handed : List Handed

/-- `TBSECP3_DMA_STAT` less the buffers to stay behind, in a `u32` -/
def nextBuffer (stat : UInt32) : ℕ := ((stat - 2 + 1) &&& 15).toNat

/-- The search for the sync bytes, in a buffer where there is none at the offset. -/
def findOffset (data : ℕ → UInt8) (offset : ℕ) : ℕ :=
  if data offset ≠ 0x47 then
    ((List.range tsPacketSize).find? fun i =>
      data i = 0x47 ∧ data (i + tsPacketSize) = 0x47 ∧ data (i + 2 * tsPacketSize) = 0x47 ∧
        data (i + 4 * tsPacketSize) = 0x47).getD offset
  else offset

/-- The bytes that the search looks at. -/
def searched (data : ℕ → UInt8) (offset : ℕ) : List ℕ :=
  offset :: if data offset ≠ 0x47 then
    (List.range tsPacketSize).flatMap fun i =>
      [i, i + tsPacketSize, i + 2 * tsPacketSize, i + 4 * tsPacketSize]
  else []

/-- A packet of the stream with this offset. -/
def packet (written : ℕ → UInt8) (offset number : ℕ) : List UInt8 :=
  (List.range tsPacketSize).map fun j => written (offset + tsPacketSize * number + j)

namespace DmaState
variable (b : BufferPkts) (written : ℕ → UInt8) (s : DmaState)

/-- The buffer being written. -/
def writer : ℕ := s.pos / b.bufferSize

/-- A byte of the memory: of the ring, the last one that was written there. -/
def byteAt (p : ℕ) : UInt8 :=
  if p < b.pageSize then written (p + b.pageSize * ((s.pos - 1 - p) / b.pageSize))
  else s.tail (p - b.pageSize)

/-- A pass of the loop of `tbsecp3_dma_tasklet`. -/
def pass (readBuffer : ℕ) : DmaState :=
  let base := readBuffer * b.bufferSize
  let data i := s.byteAt b written (base + i)
  let offset := findOffset data s.dma.offset
  -- copy remains of last packet from buffer 0 behind last one
  let copied := offset ≠ 0 ∧ readBuffer = dmaBuffers - 1
  let tail := if copied then fun k => if k < offset then s.byteAt b written k else s.tail k else s.tail
  let blocks := (List.range b.pkts).map fun k =>
    (List.range tsPacketSize).map fun j =>
      byteAt b written { s with tail } (base + offset + tsPacketSize * k + j)
  let accessed := ((searched data s.dma.offset).map fun i => base + i) ++
    (if copied then List.range offset else []) ++
    (List.range b.bufferSize).map fun i => base + offset + i
  { s with
    dma := { s.dma with offset := offset }
    tail := tail
    turn := s.turn + 1
    handed := s.handed ++ [⟨s.turn, offset, blocks, accessed, copied, s.writer b⟩] }

/-- The card writes on, or the tasklet goes on: it reads the status, which names the buffer being
    written, makes a pass of its loop, or ends. -/
inductive Step : DmaState → DmaState → Prop where
  | write {s : DmaState} (n : ℕ) : Step s { s with pos := s.pos + n }
  | early {s : DmaState} {stat : UInt32} (hidle : s.tasklet = .idle) (hcnt : s.dma.cnt < dmaPreBuffers)
      (hstat : stat.toNat % dmaBuffers = s.writer b % dmaBuffers) :
      Step s { s with
        dma := { s.dma with cnt := s.dma.cnt + 1, nextBuffer := nextBuffer stat }
        turn := s.writer b - 1 }
  | start {s : DmaState} {stat : UInt32} (hidle : s.tasklet = .idle) (hcnt : ¬s.dma.cnt < dmaPreBuffers)
      (hstat : stat.toNat % dmaBuffers = s.writer b % dmaBuffers) :
      Step s { s with tasklet := .loop s.dma.nextBuffer (nextBuffer stat) }
  | pass {s : DmaState} {readBuffer next : ℕ} (hloop : s.tasklet = .loop readBuffer next)
      (hmore : readBuffer ≠ next) :
      Step s { s.pass b written readBuffer with
        tasklet := .loop ((readBuffer + 1) &&& (dmaBuffers - 1)) next }
  | done {s : DmaState} {next : ℕ} (hloop : s.tasklet = .loop next next) :
      Step s { s with dma := { s.dma with nextBuffer := next }, tasklet := .idle }

/-- `tbsecp3_dma_enable`: the card begins with the first buffer. -/
structure Enabled : Prop where
  dma : s.dma = ⟨0, 0, 0⟩
  tasklet : s.tasklet = .idle
  pos : s.pos = b.pageSize
  handed : s.handed = []

/-- The card is not a whole round ahead of the tasklet. -/
def Unlapped : Prop := s.dma.cnt < dmaPreBuffers ∨ s.writer b < s.turn + dmaBuffers

/-- A run in which the tasklet is never lapped. -/
inductive Run : DmaState → Prop where
  | enabled {s : DmaState} (h : s.Enabled b) : Run s
  | step {s s' : DmaState} (h : Run s) (hlap : s.Unlapped b) (hs : Step b written s s') : Run s'

end DmaState

/-- A buffer that was written completely and is not being written again yet. -/
def Complete (writer buffer : ℕ) : Prop :=
  ∃ turn, turn % dmaBuffers = buffer ∧ turn < writer ∧ writer < turn + dmaBuffers

/-- Every byte that was read is of such a buffer, or of the copy of the start of the first. -/
def Handed.Reads (b : BufferPkts) (h : Handed) : Prop :=
  ∀ p ∈ h.accessed, p < b.pageSize ∧ Complete h.writer (p / b.bufferSize) ∨
    h.copied = true ∧ b.pageSize ≤ p ∧ p < b.pageSize + h.offset

/-- The packets of the stream begin at this offset. -/
structure Aligned (b : BufferPkts) (written : ℕ → UInt8) (offset : ℕ) : Prop where
  lt : offset < tsPacketSize
  sync : ∀ number, dmaBuffers * b.pkts ≤ number → written (offset + tsPacketSize * number) = 0x47

variable {b : BufferPkts} {written : ℕ → UInt8} {s s' : DmaState} {turn j k : ℕ}

/-! ### The ring -/

theorem bufferSize_ge (b : BufferPkts) : 3008 ≤ b.bufferSize := Nat.mul_le_mul_right 188 b.ge

theorem pageSize_eq (b : BufferPkts) : b.pageSize = 16 * b.bufferSize := rfl

theorem nextBuffer_eq {stat : UInt32} (hstat : stat.toNat % dmaBuffers = k % dmaBuffers) (hk : 0 < k) :
    nextBuffer stat = (k - 1) % dmaBuffers := by
  have hand : ((stat - 2 + 1) &&& 15).toNat = (stat - 2 + 1).toNat % 16 := by
    rw [UInt32.toNat_and]
    exact Nat.and_two_pow_sub_one_eq_mod _ 4
  rw [nextBuffer, hand, UInt32.toNat_add, UInt32.toNat_sub]
  rw [dmaBuffers] at hstat ⊢
  have htwo : (2 : UInt32).toNat = 2 := rfl
  have hone : (1 : UInt32).toNat = 1 := rfl
  rw [htwo, hone]
  omega

theorem writer_bounds (hw : turn < s.writer b) : (turn + 1) * b.bufferSize ≤ s.pos :=
  (Nat.le_div_iff_mul_le (Nat.lt_of_lt_of_le (by decide) (bufferSize_ge b))).mp hw

theorem pos_lt (hlap : s.writer b < turn + dmaBuffers) : s.pos < (turn + dmaBuffers) * b.bufferSize :=
  (Nat.div_lt_iff_lt_mul (Nat.lt_of_lt_of_le (by decide) (bufferSize_ge b))).mp hlap

/-- The bytes of a complete buffer are those that were written to it last. -/
theorem byteAt_complete (hj : j < b.bufferSize) (hw : turn < s.writer b)
    (hlap : s.writer b < turn + dmaBuffers) :
    s.byteAt b written (turn % dmaBuffers * b.bufferSize + j) = written (turn * b.bufferSize + j) := by
  have hlow := writer_bounds hw
  have hhigh := pos_lt hlap
  rw [dmaBuffers] at hhigh ⊢
  have hround : turn * b.bufferSize = turn % 16 * b.bufferSize + b.pageSize * (turn / 16) := by
    have hturn := Nat.mod_add_div turn 16
    calc turn * b.bufferSize = (turn % 16 + 16 * (turn / 16)) * b.bufferSize := by rw [hturn]
      _ = turn % 16 * b.bufferSize + b.pageSize * (turn / 16) := by rw [pageSize_eq]; ring
  have hin : turn % 16 * b.bufferSize + b.bufferSize ≤ b.pageSize := by
    have hle : (turn % 16 + 1) * b.bufferSize ≤ 16 * b.bufferSize :=
      Nat.mul_le_mul_right _ (Nat.mod_lt _ (by decide))
    rw [pageSize_eq]
    linarith
  rw [DmaState.byteAt, if_pos (by omega)]
  have hlast : (s.pos - 1 - (turn % 16 * b.bufferSize + j)) / b.pageSize = turn / 16 := by
    rw [Nat.add_mul, Nat.one_mul] at hlow
    rw [Nat.add_mul, ← pageSize_eq] at hhigh
    refine Nat.div_eq_of_lt_le ?_ ?_
    · rw [Nat.mul_comm (turn / 16)]
      omega
    · rw [Nat.add_mul, Nat.one_mul, Nat.mul_comm (turn / 16)]
      omega
  rw [hlast, hround]
  congr 1
  omega

/-! ### The offset -/

variable {data : ℕ → UInt8} {offset o : ℕ}

theorem findOffset_kept (hsync : data offset = 0x47) : findOffset data offset = offset :=
  if_neg (not_not.mpr hsync)

theorem findOffset_lt (hlt : offset < tsPacketSize) : findOffset data offset < tsPacketSize := by
  rw [findOffset]
  split
  · cases hfound : (List.range tsPacketSize).find? _ with
    | none => exact hlt
    | some i => exact List.mem_range.mp (List.mem_of_find?_eq_some hfound)
  · exact hlt

/-- Where packets begin within the buffer, the search comes to a byte that looks like a sync byte. -/
theorem findOffset_sync (ho : o < tsPacketSize) (hsync : ∀ k ≤ 4, data (o + k * tsPacketSize) = 0x47)
    (offset : ℕ) : data (findOffset data offset) = 0x47 := by
  rw [findOffset]
  split
  · cases hfound : (List.range tsPacketSize).find? _ with
    | none =>
      have hno := List.find?_eq_none.mp hfound o (List.mem_range.mpr ho)
      have h0 : data o = 0x47 := hsync 0 (by decide)
      have h1 : data (o + tsPacketSize) = 0x47 := hsync 1 (by decide)
      simp [h0, h1, hsync 2 (by decide), hsync 4 (by decide)] at hno
    | some i =>
      have hi := List.find?_some hfound
      exact (of_decide_eq_true hi).1
  · rename_i hkept
    exact not_not.mp hkept

theorem searched_lt (hlt : offset < tsPacketSize) : ∀ i ∈ searched data offset, i < b.bufferSize := by
  have hsize := bufferSize_ge b
  rw [tsPacketSize] at hlt
  intro i hi
  rcases List.mem_cons.mp hi with rfl | hi
  · omega
  split at hi
  · obtain ⟨k, hk, hi⟩ := List.mem_flatMap.mp hi
    have hk := List.mem_range.mp hk
    simp only [tsPacketSize, List.mem_cons, List.not_mem_nil, or_false] at hk hi
    omega
  · cases hi

/-! ### A pass -/

/-- The bytes from a complete buffer on into the next one, which is complete too or stands as a copy
    behind the last. -/
theorem byteAt_behind (hoff : offset < tsPacketSize) (hw : turn + 1 < s.writer b)
    (hlap : s.writer b < turn + dmaBuffers) {tail : ℕ → UInt8}
    (htail : turn % dmaBuffers = dmaBuffers - 1 → ∀ k < offset, tail k = s.byteAt b written k)
    (hj : j < b.bufferSize + offset) :
    DmaState.byteAt b written { s with tail := tail } (turn % dmaBuffers * b.bufferSize + j) =
      written (turn * b.bufferSize + j) := by
  have hsize := bufferSize_ge b
  have hbyte {t k : ℕ} (hk : k < b.bufferSize) (ht : t < s.writer b)
      (hl : s.writer b < t + dmaBuffers) : DmaState.byteAt b written { s with tail := tail }
        (t % dmaBuffers * b.bufferSize + k) = written (t * b.bufferSize + k) :=
    @byteAt_complete b written { s with tail := tail } t k hk ht hl
  rw [tsPacketSize] at hoff
  rcases Nat.lt_or_ge j b.bufferSize with hin | hout
  · exact hbyte hin (by omega) hlap
  obtain ⟨k, rfl⟩ := Nat.exists_eq_add_of_le hout
  have hnext : turn * b.bufferSize + (b.bufferSize + k) = (turn + 1) * b.bufferSize + k := by ring
  have hplace : turn % dmaBuffers * b.bufferSize + (b.bufferSize + k) =
      (turn % dmaBuffers + 1) * b.bufferSize + k := by ring
  rw [hnext, hplace]
  by_cases hlast : turn % dmaBuffers = dmaBuffers - 1
  · -- the copy of the first buffer
    have hzero : (turn + 1) % dmaBuffers = 0 := by
      rw [dmaBuffers] at hlast ⊢
      omega
    have hfirst := @byteAt_complete b written s (turn + 1) k (by omega) hw (by omega)
    rw [hzero, Nat.zero_mul, Nat.zero_add] at hfirst
    have hp : (turn % dmaBuffers + 1) * b.bufferSize + k = b.pageSize + k := by
      rw [hlast]
      rfl
    rw [hp, DmaState.byteAt, if_neg (by omega), Nat.add_sub_cancel_left, ← hfirst]
    exact htail hlast k (by omega)
  · have hmod : (turn + 1) % dmaBuffers = turn % dmaBuffers + 1 := by
      rw [dmaBuffers] at hlast ⊢
      omega
    rw [← hmod]
    exact hbyte (by omega) hw (by omega)

/-- What a pass leaves behind for a buffer of the stream. -/
structure Handed.Good (b : BufferPkts) (written : ℕ → UInt8) (offset : ℕ) (h : Handed) : Prop where
  blocks : h.offset = offset →
    h.blocks = (List.range b.pkts).map fun k => packet written offset (h.turn * b.pkts + k)
  reads : h.Reads b
  lt : h.offset < tsPacketSize
  sync : written (h.turn * b.bufferSize + h.offset) = 0x47

theorem Aligned.at_buffer (ha : Aligned b written o) (hturn : dmaBuffers ≤ turn) (k : ℕ) :
    written (turn * b.bufferSize + (o + k * tsPacketSize)) = 0x47 := by
  have hnumber : turn * b.bufferSize + (o + k * tsPacketSize) =
      o + tsPacketSize * (turn * b.pkts + k) := by
    rw [BufferPkts.bufferSize]
    ring
  rw [hnumber]
  exact ha.sync _ (Nat.le_trans (Nat.mul_le_mul_right _ hturn) (Nat.le_add_right _ _))

/-- Bytes of a buffer lie in the ring. -/
theorem place_lt {buffer : ℕ} (hb : buffer < dmaBuffers) (hj : j < b.bufferSize) :
    buffer * b.bufferSize + j < b.pageSize ∧ (buffer * b.bufferSize + j) / b.bufferSize = buffer := by
  have hle : (buffer + 1) * b.bufferSize ≤ dmaBuffers * b.bufferSize := Nat.mul_le_mul_right _ hb
  have hpage : b.pageSize = dmaBuffers * b.bufferSize := rfl
  rw [Nat.add_mul, Nat.one_mul] at hle
  refine ⟨by omega, ?_⟩
  rw [Nat.mul_comm, Nat.mul_add_div (by omega), Nat.div_eq_of_lt hj, Nat.add_zero]

theorem complete_place (hj : j < b.bufferSize) {writer : ℕ} (hw : turn < writer)
    (hlap : writer < turn + dmaBuffers) :
    turn % dmaBuffers * b.bufferSize + j < b.pageSize ∧
      Complete writer ((turn % dmaBuffers * b.bufferSize + j) / b.bufferSize) := by
  obtain ⟨hlt, hdiv⟩ := place_lt (Nat.mod_lt turn (by decide : 0 < dmaBuffers)) hj
  rw [hdiv]
  exact ⟨hlt, turn, rfl, hw, hlap⟩

/-- The packets from the offset on stand in the buffer and the next one, or in the copy. -/
theorem reads_behind {writer : ℕ} (hoff : offset < tsPacketSize) (hw : turn + 1 < writer)
    (hlap : writer < turn + dmaBuffers) (hj : j < b.bufferSize) :
    turn % dmaBuffers * b.bufferSize + offset + j < b.pageSize ∧
        Complete writer ((turn % dmaBuffers * b.bufferSize + offset + j) / b.bufferSize) ∨
      (offset ≠ 0 ∧ turn % dmaBuffers = dmaBuffers - 1) ∧
        b.pageSize ≤ turn % dmaBuffers * b.bufferSize + offset + j ∧
        turn % dmaBuffers * b.bufferSize + offset + j < b.pageSize + offset := by
  have hsize := bufferSize_ge b
  rw [tsPacketSize] at hoff
  rcases Nat.lt_or_ge (offset + j) b.bufferSize with hin | hout
  · rw [Nat.add_assoc]
    exact .inl (complete_place hin (Nat.lt_of_succ_lt hw) hlap)
  obtain ⟨k, hk⟩ := Nat.exists_eq_add_of_le hout
  have hplace : turn % dmaBuffers * b.bufferSize + offset + j =
      (turn % dmaBuffers + 1) * b.bufferSize + k := by
    rw [Nat.add_assoc, hk]
    ring
  rw [hplace]
  by_cases hlast : turn % dmaBuffers = dmaBuffers - 1
  · have hp : (turn % dmaBuffers + 1) * b.bufferSize = b.pageSize := by
      rw [hlast]
      rfl
    rw [hp]
    exact .inr ⟨⟨by omega, hlast⟩, by omega, by omega⟩
  · have hmod : (turn + 1) % dmaBuffers = turn % dmaBuffers + 1 := by
      rw [dmaBuffers] at hlast ⊢
      omega
    rw [← hmod]
    exact .inl (complete_place (by omega) hw (by omega))

theorem pass_handed (s : DmaState) (readBuffer : ℕ) :
    ∃ h, (s.pass b written readBuffer).handed = s.handed ++ [h] ∧ h.turn = s.turn ∧
      h.offset = (s.pass b written readBuffer).dma.offset :=
  ⟨_, rfl, rfl, rfl⟩

theorem pass_offset_lt (hlt : s.dma.offset < tsPacketSize) {readBuffer : ℕ} :
    (s.pass b written readBuffer).dma.offset < tsPacketSize :=
  @findOffset_lt (fun i => s.byteAt b written (readBuffer * b.bufferSize + i)) s.dma.offset hlt

/-- A pass at a buffer of the stream, which has been written completely as has the next one. -/
theorem pass_good (ha : Aligned b written o) (hturn : dmaBuffers ≤ s.turn)
    (hoff : s.dma.offset < tsPacketSize) (hw : s.turn + 1 < s.writer b)
    (hlap : s.writer b < s.turn + dmaBuffers) :
    ∃ h, (s.pass b written (s.turn % dmaBuffers)).handed = s.handed ++ [h] ∧ h.turn = s.turn ∧
      h.offset = (s.pass b written (s.turn % dmaBuffers)).dma.offset ∧ h.Good b written o ∧
      (s.dma.offset = o → h.offset = o) := by
  have hsize := bufferSize_ge b
  have ho := ha.lt
  have hdata {i : ℕ} (hi : i < b.bufferSize) :
      s.byteAt b written (s.turn % dmaBuffers * b.bufferSize + i) =
        written (s.turn * b.bufferSize + i) := byteAt_complete hi (Nat.lt_of_succ_lt hw) hlap
  have hlt : findOffset (fun i => s.byteAt b written (s.turn % dmaBuffers * b.bufferSize + i))
      s.dma.offset < tsPacketSize := findOffset_lt hoff
  have hsync : ∀ k ≤ 4, s.byteAt b written
      (s.turn % dmaBuffers * b.bufferSize + (o + k * tsPacketSize)) = 0x47 := by
    intro k hk
    rw [hdata (by rw [tsPacketSize] at ho ⊢; omega)]
    exact ha.at_buffer hturn k
  refine ⟨_, rfl, rfl, rfl, ⟨fun heq => ?_, ?_, hlt, ?_⟩, ?_⟩
  · dsimp only at heq ⊢
    rw [heq]
    refine List.map_congr_left fun k hk => List.map_congr_left fun j hj => ?_
    have hk := List.mem_range.mp hk
    have hj := List.mem_range.mp hj
    have hin : 188 * (k + 1) ≤ 188 * b.pkts := Nat.mul_le_mul_left 188 hk
    rw [tsPacketSize] at hj
    have hplace : s.turn % dmaBuffers * b.bufferSize + o + tsPacketSize * k + j =
        s.turn % dmaBuffers * b.bufferSize + (o + tsPacketSize * k + j) := by ring
    have hnumber : s.turn * b.bufferSize + (o + tsPacketSize * k + j) =
        o + tsPacketSize * (s.turn * b.pkts + k) + j := by
      rw [BufferPkts.bufferSize]
      ring
    rw [hplace, ← hnumber]
    refine byteAt_behind ho hw hlap (fun hlast i hi => ?_) ?_
    · rw [if_pos ⟨Nat.ne_of_gt (Nat.lt_of_le_of_lt (Nat.zero_le i) hi), hlast⟩]
      exact if_pos hi
    · rw [BufferPkts.bufferSize, tsPacketSize]
      omega
  · intro p hp
    dsimp only at hp ⊢
    rw [List.append_assoc] at hp
    rcases List.mem_append.mp hp with hp | hp
    · obtain ⟨i, hi, rfl⟩ := List.mem_map.mp hp
      exact .inl (complete_place (searched_lt hoff i hi) (Nat.lt_of_succ_lt hw) hlap)
    rcases List.mem_append.mp hp with hp | hp
    · -- the copy is made of the first buffer
      split at hp
      · rename_i hcopied
        have hzero : (s.turn + 1) % dmaBuffers = 0 := by
          have hlast := hcopied.2
          rw [dmaBuffers] at hlast ⊢
          omega
        have hp := List.mem_range.mp hp
        rw [tsPacketSize] at hlt
        have hfirst := @complete_place b (s.turn + 1) p (by omega) (s.writer b) hw (by omega)
        rw [hzero, Nat.zero_mul, Nat.zero_add] at hfirst
        exact .inl hfirst
      · cases hp
    · obtain ⟨i, hi, rfl⟩ := List.mem_map.mp hp
      exact (reads_behind hlt hw hlap (List.mem_range.mp hi)).imp id
        (And.imp_left fun hcopied => decide_eq_true hcopied)
  · dsimp only
    rw [← hdata (by rw [tsPacketSize] at hlt; omega)]
    exact @findOffset_sync (fun i => s.byteAt b written (s.turn % dmaBuffers * b.bufferSize + i)) o ho
      hsync s.dma.offset
  · intro heq
    dsimp only
    rw [heq]
    exact @findOffset_kept (fun i => s.byteAt b written (s.turn % dmaBuffers * b.bufferSize + i)) o
      (hsync 0 (by decide))

/-! ### Runs -/

/-- The tasklet stands behind the writer, and what it handed over are the buffers up to there. -/
structure DmaState.Inv (b : BufferPkts) (written : ℕ → UInt8) (o : ℕ) (s : DmaState) : Prop where
  pos : b.pageSize ≤ s.pos
  offset : s.dma.offset < tsPacketSize
  early : s.dma.cnt < dmaPreBuffers → s.tasklet = .idle ∧ s.handed = []
  ready : ¬s.dma.cnt < dmaPreBuffers → s.turn < s.writer b
  idle : s.tasklet = .idle → ¬s.dma.cnt < dmaPreBuffers → s.dma.nextBuffer = s.turn % dmaBuffers
  loop : ∀ readBuffer next, s.tasklet = .loop readBuffer next →
    readBuffer = s.turn % dmaBuffers ∧ ∃ goal, next = goal % dmaBuffers ∧ s.turn ≤ goal ∧
      goal < s.turn + dmaBuffers ∧ goal < s.writer b
  turns : s.handed.length ≤ s.turn ∧
    s.handed.map Handed.turn = List.range' (s.turn - s.handed.length) s.handed.length
  good : ∀ h ∈ s.handed, dmaBuffers ≤ h.turn → h.Good b written o
  locked : ∀ h ∈ s.handed, dmaBuffers ≤ h.turn → h.offset = o → s.dma.offset = o
  stays : s.handed.Pairwise fun h g => dmaBuffers ≤ h.turn → h.offset = o → g.offset = o

namespace DmaState

theorem writer_ge (h : b.pageSize ≤ s.pos) : dmaBuffers ≤ s.writer b :=
  (Nat.le_div_iff_mul_le (Nat.lt_of_lt_of_le (by decide) (bufferSize_ge b))).mpr h

theorem Enabled.inv (h : s.Enabled b) : s.Inv b written o where
  pos := Nat.le_of_eq h.pos.symm
  offset := by
    rw [h.dma]
    decide
  early _ := ⟨h.tasklet, h.handed⟩
  ready hcnt := absurd (by rw [h.dma]; decide) hcnt
  idle _ hcnt := absurd (by rw [h.dma]; decide) hcnt
  loop _ _ hloop := nomatch h.tasklet.symm.trans hloop
  turns := by
    rw [h.handed]
    exact ⟨Nat.zero_le _, rfl⟩
  good := by
    rw [h.handed]
    exact nofun
  locked := by
    rw [h.handed]
    exact nofun
  stays := by
    rw [h.handed]
    exact .nil

/-- A pass of the loop. -/
theorem Inv.pass (h : s.Inv b written o) (ha : Aligned b written o) (hlap : s.Unlapped b)
    {readBuffer next : ℕ} (hloop : s.tasklet = .loop readBuffer next) (hmore : readBuffer ≠ next) :
    Inv b written o { s.pass b written readBuffer with
      tasklet := .loop ((readBuffer + 1) &&& (dmaBuffers - 1)) next } := by
  obtain ⟨rfl, goal, rfl, hle, hnear, hgoal⟩ := h.loop _ _ hloop
  have hcnt : ¬s.dma.cnt < dmaPreBuffers := fun hno => nomatch (h.early hno).1.symm.trans hloop
  have hlap := hlap.resolve_left hcnt
  -- there is a buffer to read, and the next one is complete too
  have hlt : s.turn < goal := Nat.lt_of_le_of_ne hle fun heq => hmore (heq ▸ rfl)
  have hpassed : ∃ g, (s.pass b written (s.turn % dmaBuffers)).handed = s.handed ++ [g] ∧
      g.turn = s.turn ∧ g.offset = (s.pass b written (s.turn % dmaBuffers)).dma.offset ∧
      (dmaBuffers ≤ s.turn → g.Good b written o ∧ (s.dma.offset = o → g.offset = o)) := by
    by_cases hturn : dmaBuffers ≤ s.turn
    · obtain ⟨g, hhanded, hgturn, hoffset, hgood⟩ := pass_good ha hturn h.offset (by omega) hlap
      exact ⟨g, hhanded, hgturn, hoffset, fun _ => hgood⟩
    · obtain ⟨g, hhanded, hgturn, hoffset⟩ := pass_handed s (s.turn % dmaBuffers)
      exact ⟨g, hhanded, hgturn, hoffset, fun hno => absurd hno hturn⟩
  obtain ⟨g, hhanded, hgturn, hoffset, hgood⟩ := hpassed
  have hold : ∀ h' ∈ s.handed, dmaBuffers ≤ h'.turn → h'.offset = o → g.offset = o := by
    intro h' hmem hturn hfound
    have hbefore : h'.turn ∈ s.handed.map Handed.turn := List.mem_map_of_mem hmem
    rw [h.turns.2, List.mem_range'_1] at hbefore
    have hlength := h.turns.1
    exact (hgood (by omega)).2 (h.locked h' hmem hturn hfound)
  constructor
  · exact h.pos
  · exact pass_offset_lt h.offset
  · exact fun hno => absurd hno hcnt
  · intro _
    change s.turn + 1 < s.writer b
    omega
  · exact nofun
  · rintro r n ⟨⟩
    have hand : (s.turn % dmaBuffers + 1) &&& (dmaBuffers - 1) = (s.turn % dmaBuffers + 1) % 16 :=
      Nat.and_two_pow_sub_one_eq_mod _ 4
    refine ⟨hand.trans ?_, goal, rfl, hlt, Nat.lt_succ_of_lt hnear, hgoal⟩
    exact Nat.mod_add_mod _ _ _
  · obtain ⟨hlength, hturns⟩ := h.turns
    dsimp only
    rw [hhanded, List.map_append, List.length_append, List.length_singleton]
    refine ⟨Nat.succ_le_succ hlength, ?_⟩
    change _ = List.range' (s.turn + 1 - (s.handed.length + 1)) (s.handed.length + 1)
    rw [Nat.add_sub_add_right, List.range'_concat, hturns, List.map_singleton, hgturn]
    congr 2
    omega
  · intro h' hmem hturn
    dsimp only at hmem
    rw [hhanded] at hmem
    rcases List.mem_append.mp hmem with hbefore | hnew
    · exact h.good h' hbefore hturn
    · obtain rfl := List.mem_singleton.mp hnew
      exact (hgood (hgturn ▸ hturn)).1
  · intro h' hmem hturn hfound
    dsimp only at hmem ⊢
    rw [hhanded] at hmem
    rw [← hoffset]
    rcases List.mem_append.mp hmem with hbefore | hnew
    · exact hold h' hbefore hturn hfound
    · exact List.mem_singleton.mp hnew ▸ hfound
  · dsimp only
    rw [hhanded]
    refine List.pairwise_append.mpr ⟨h.stays, List.pairwise_singleton _ _, ?_⟩
    intro h' hmem g' hnew hturn hfound
    exact List.mem_singleton.mp hnew ▸ hold h' hmem hturn hfound

theorem Inv.step (h : s.Inv b written o) (ha : Aligned b written o) (hlap : s.Unlapped b)
    (hs : Step b written s s') : s'.Inv b written o := by
  have hwriter := writer_ge h.pos
  rw [dmaBuffers] at hwriter
  cases hs with
  | write n =>
    have hmono : s.writer b ≤ DmaState.writer b { s with pos := s.pos + n } :=
      Nat.div_le_div_right (Nat.le_add_right _ _)
    exact { h with
      pos := Nat.le_trans h.pos (Nat.le_add_right _ _)
      ready := fun hcnt => Nat.lt_of_lt_of_le (h.ready hcnt) hmono
      loop := fun r n hloop => by
        obtain ⟨hr, goal, hn, hle, hnear, hgoal⟩ := h.loop r n hloop
        exact ⟨hr, goal, hn, hle, hnear, Nat.lt_of_lt_of_le hgoal hmono⟩ }
  | @early stat hidle hcnt hstat =>
    obtain ⟨-, hnone⟩ := h.early hcnt
    refine ⟨h.pos, h.offset, fun _ => ⟨hidle, hnone⟩, fun _ => ?_, fun _ _ => ?_, fun r n hloop => ?_,
      ?_, h.good, h.locked, h.stays⟩
    · exact Nat.sub_lt (by omega) Nat.one_pos
    · exact nextBuffer_eq hstat (by omega)
    · exact nomatch hidle.symm.trans hloop
    · dsimp only
      rw [hnone]
      exact ⟨Nat.zero_le _, rfl⟩
  | @start stat hidle hcnt hstat =>
    have hlap := hlap.resolve_left hcnt
    have hready := h.ready hcnt
    refine ⟨h.pos, h.offset, fun hno => absurd hno hcnt, h.ready, nofun, ?_, h.turns, h.good, h.locked,
      h.stays⟩
    rintro r n ⟨⟩
    refine ⟨h.idle hidle hcnt, s.writer b - 1, nextBuffer_eq hstat (by omega), ?_, ?_, ?_⟩
    · dsimp only
      omega
    · dsimp only
      omega
    · exact Nat.sub_lt (by omega) Nat.one_pos
  | @pass readBuffer next hloop hmore => exact h.pass ha hlap hloop hmore
  | @done next hloop =>
    obtain ⟨hr, -⟩ := h.loop next next hloop
    have hcnt : ¬s.dma.cnt < dmaPreBuffers := fun hno => nomatch (h.early hno).1.symm.trans hloop
    exact ⟨h.pos, h.offset, fun hno => absurd hno hcnt, h.ready, fun _ _ => hr, nofun, h.turns, h.good,
      h.locked, h.stays⟩

theorem Run.inv (ha : Aligned b written o) (h : Run b written s) : s.Inv b written o := by
  induction h with
  | enabled h => exact h.inv
  | step _ hlap hs ih => exact ih.step ha hlap hs

end DmaState

theorem range_blocks (pkts n start : ℕ) (f : ℕ → List UInt8) :
    (List.range' start n).flatMap (fun turn => (List.range pkts).map fun k => f (turn * pkts + k)) =
      (List.range (n * pkts)).map fun k => f (start * pkts + k) := by
  induction n generalizing start with
  | zero => rw [Nat.zero_mul]; rfl
  | succ n ih =>
    rw [List.range'_succ, List.flatMap_cons, ih, Nat.succ_mul, Nat.add_mul n 1, Nat.one_mul,
      Nat.add_comm (n * pkts), List.range_add, List.map_append, List.map_map]
    congr 1
    refine List.map_congr_left fun k _ => ?_
    rw [Nat.add_assoc]
    rfl

/-- The buffers of a stretch of the passes follow each other. -/
theorem DmaState.Inv.stretch (h : s.Inv b written o) {before after : List Handed} {first : Handed}
    (hhanded : s.handed = before ++ first :: after) :
    (first :: after).map Handed.turn = List.range' first.turn (after.length + 1) := by
  have hturns := h.turns.2
  rw [hhanded, List.map_append, List.length_append, List.length_cons, ← List.range'_append_1] at hturns
  obtain ⟨-, hfrom⟩ := List.append_inj hturns (by rw [List.length_map, List.length_range'])
  rw [List.map_cons, List.range'_succ] at hfrom
  obtain ⟨hfirst, -⟩ := List.cons.inj hfrom
  rw [List.map_cons, hfrom, hfirst, List.range'_succ]

/-- Where the pass at a buffer of the stream has gone by the offset of its packets, the packets handed
    over from that buffer on are the successive packets of the stream. All bytes read are of completely
    written buffers or of the copy, and at any other offset that is used the stream has a byte that
    looks like a sync byte. -/
theorem dma_delivers (b : BufferPkts) (written : ℕ → UInt8) (o : ℕ) (ha : Aligned b written o)
    (s : DmaState) (h : s.Run b written) :
    (∀ before first after, s.handed = before ++ first :: after → dmaBuffers ≤ first.turn →
      first.offset = o →
      (first :: after).flatMap Handed.blocks =
        (List.range ((after.length + 1) * b.pkts)).map
          (fun k => packet written o (first.turn * b.pkts + k))) ∧
    ∀ g ∈ s.handed, dmaBuffers ≤ g.turn →
      g.Reads b ∧ g.offset < tsPacketSize ∧ written (g.turn * b.bufferSize + g.offset) = 0x47 := by
  have hinv := h.inv ha
  refine ⟨?_, fun g hg hturn =>
    ⟨(hinv.good g hg hturn).reads, (hinv.good g hg hturn).lt, (hinv.good g hg hturn).sync⟩⟩
  intro before first after hhanded hturn hfound
  have hstretch := hinv.stretch hhanded
  have hstays := hinv.stays
  rw [hhanded] at hstays
  have hafter := (List.pairwise_cons.mp (List.pairwise_append.mp hstays).2.1).1
  -- every pass from this one on is at a buffer of the stream and goes by its offset
  have hblocks : ∀ g ∈ first :: after,
      g.blocks = (List.range b.pkts).map fun k => packet written o (g.turn * b.pkts + k) := by
    intro g hg
    have hlate : g.turn ∈ (first :: after).map Handed.turn := List.mem_map_of_mem hg
    rw [hstretch, List.mem_range'_1] at hlate
    have hmem : g ∈ s.handed := hhanded ▸ List.mem_append_right before hg
    refine (hinv.good g hmem (Nat.le_trans hturn hlate.1)).blocks ?_
    rcases List.mem_cons.mp hg with rfl | hg
    · exact hfound
    · exact hafter g hg hturn hfound
  calc (first :: after).flatMap Handed.blocks
      = (first :: after).flatMap fun g =>
          (List.range b.pkts).map fun k => packet written o (g.turn * b.pkts + k) :=
        List.flatMap_congr hblocks
    _ = ((first :: after).map Handed.turn).flatMap fun turn =>
          (List.range b.pkts).map fun k => packet written o (turn * b.pkts + k) := by
        rw [List.flatMap_map]
    _ = (List.range ((after.length + 1) * b.pkts)).map fun k =>
          packet written o (first.turn * b.pkts + k) := by
        rw [hstretch]
        exact range_blocks b.pkts (after.length + 1) first.turn (packet written o)

/-- Two interrupts, then one that finds the first buffer and the next one written. -/
def searching : DmaState where
  dma := ⟨0, 2, 0⟩
  tasklet := .loop 0 1
  pos := 18 * 3008
  tail _ := 0
  turn := 16
  handed := []

theorem searching_run (written : ℕ → UInt8) : searching.Run (bufferPkts 16) written := by
  have henabled : DmaState.Run (bufferPkts 16) written
      { searching with dma := ⟨0, 0, 0⟩, tasklet := .idle, pos := 16 * 3008 } :=
    .enabled ⟨rfl, rfl, rfl, rfl⟩
  have hwritten := henabled.step (.inl (by decide)) (.write 3008)
  have hone := hwritten.step (.inl (by decide)) (@DmaState.Step.early _ _ _ 1 rfl (by decide) rfl)
  have htwo := hone.step (.inl (by decide)) (@DmaState.Step.early _ _ _ 1 rfl (by decide) rfl)
  have hahead := htwo.step (.inr (by decide)) (.write 3008)
  exact hahead.step (.inr (by decide)) (@DmaState.Step.start _ _ _ 2 rfl (by decide) rfl)

/-- The first pass of that run. -/
def firstPass (written : ℕ → UInt8) : DmaState :=
  { searching.pass (bufferPkts 16) written 0 with tasklet := .loop 1 1 }

theorem firstPass_run (written : ℕ → UInt8) : (firstPass written).Run (bufferPkts 16) written :=
  (searching_run written).step (.inr (by decide)) (.pass rfl (by decide))

/-- The stream of empty packets that begin 5 bytes into it. -/
def emptyPackets (p : ℕ) : UInt8 := if p % 188 = 5 then 0x47 else 0

theorem emptyPackets_delivered : (firstPass emptyPackets).handed.flatMap Handed.blocks =
    (List.range (1 * 16)).map fun k => packet emptyPackets 5 (16 * 16 + k) := by
  have haligned : Aligned (bufferPkts 16) emptyPackets 5 :=
    ⟨by decide, fun number _ => if_pos (Nat.add_mul_mod_self_left 5 188 number)⟩
  have hrun := firstPass_run emptyPackets
  exact (dma_delivers (bufferPkts 16) emptyPackets 5 haligned _ hrun).1 [] _ [] rfl (Nat.le_refl 16)
    (by decide +kernel)

/-- The same packets, the first of which have the value of a sync byte at another place too. -/
def imitating (p : ℕ) : UInt8 := if p % 188 = 5 ∨ p % 188 = 2 ∧ p < 17 * 3008 then 0x47 else 0

/-- The search takes that place for the start of the packets. -/
theorem imitation_found : Aligned (bufferPkts 16) imitating 5 ∧
    (firstPass imitating).Run (bufferPkts 16) imitating ∧
    ∃ h, (firstPass imitating).handed = [h] ∧ h.turn = 16 ∧ h.offset = 2 ∧
      ∃ block, h.blocks.head? = some block ∧ ∀ number, block ≠ packet imitating 5 number := by
  refine ⟨⟨by decide, fun number _ => ?_⟩, firstPass_run imitating, _, rfl, rfl, ?_, _, rfl, ?_⟩
  · exact if_pos (.inl (Nat.add_mul_mod_self_left 5 188 number))
  · decide +kernel
  · intro number heq
    have hfourth := congrArg (fun block => block[3]?) heq
    have hpacket : (packet imitating 5 number)[3]? = some 0 := by
      have hbyte : imitating (5 + 188 * number + 3) = 0 := by
        rw [imitating, if_neg (by omega)]
      exact congrArg some hbyte
    exact absurd (hfourth.trans hpacket) (by decide +kernel)

end Tbsecp3

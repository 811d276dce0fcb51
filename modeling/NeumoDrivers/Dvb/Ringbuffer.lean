import NeumoDrivers.Demux.Cell
import NeumoDrivers.Lib.Ring

/-! The byte ring buffer.

    `dvb_ringbuffer.c` keeps two positions and recovers from them how much is held; equal positions
    mean an empty buffer, so one byte always stays free. A copy that would run over the end goes on
    at the start of the array; a `memcpy` that leaves the array has no result. -/

namespace Dvb
open Demux

structure DvbRingbuffer (size : ℕ) where
  data : Buff UInt8 size
  pread : ℕ
  pwrite : ℕ
  error : ℤ

namespace DvbRingbuffer

variable {size : ℕ}

/-- `dvb_ringbuffer_init`; the array keeps what is in it. -/
def init (data : Buff UInt8 size) : DvbRingbuffer size := ⟨data, 0, 0, 0⟩

def empty (rbuf : DvbRingbuffer size) : Bool := rbuf.pread = rbuf.pwrite

def free (rbuf : DvbRingbuffer size) : ℤ :=
  let free : ℤ := rbuf.pread - rbuf.pwrite
  (if free ≤ 0 then free + size else free) - 1

def avail (rbuf : DvbRingbuffer size) : ℤ :=
  let avail : ℤ := rbuf.pwrite - rbuf.pread
  if avail < 0 then avail + size else avail

def flush (rbuf : DvbRingbuffer size) : DvbRingbuffer size :=
  { rbuf with pread := rbuf.pwrite, error := 0 }

/-- `DVB_RINGBUFFER_SKIP` -/
def skip (rbuf : DvbRingbuffer size) (num : ℕ) : DvbRingbuffer size :=
  { rbuf with pread := (rbuf.pread + num) % size }

/-- `DVB_RINGBUFFER_WRITE_BYTE` -/
def writeByte (rbuf : DvbRingbuffer size) (byte : UInt8) : DvbRingbuffer size :=
  { rbuf with data := rbuf.data.put rbuf.pwrite byte, pwrite := (rbuf.pwrite + 1) % size }

/-- The copy of `len` bytes out of the array from `p` on, in two pieces where it goes round; with
    the bytes comes the position behind the last of them. -/
def copyOut (data : Buff UInt8 size) (p len : ℕ) : Option (List UInt8 × ℕ) :=
  let split := if size < p + len then size - p else 0
  if 0 < split then do
    let head ← data.slice p split
    let rest ← data.slice 0 (len - split)
    some (head ++ rest, 0 + (len - split))
  else do
    let bytes ← data.slice p len
    some (bytes, p + len)

def read (rbuf : DvbRingbuffer size) (len : ℕ) : Option (List UInt8 × DvbRingbuffer size) := do
  let (bytes, p) ← copyOut rbuf.data rbuf.pread len
  some (bytes, { rbuf with pread := p % size })

def write (rbuf : DvbRingbuffer size) (buf : List UInt8) : Option (DvbRingbuffer size) :=
  let split := if size < rbuf.pwrite + buf.length then size - rbuf.pwrite else 0
  if 0 < split then do
    let data ← rbuf.data.memcpy rbuf.pwrite (buf.take split)
    let data ← data.memcpy 0 (buf.drop split)
    some { rbuf with data, pwrite := (0 + (buf.length - split)) % size }
  else do
    let data ← rbuf.data.memcpy rbuf.pwrite buf
    some { rbuf with data, pwrite := (rbuf.pwrite + buf.length) % size }

/-- The bytes waiting, oldest first. -/
def held (rbuf : DvbRingbuffer size) : List UInt8 :=
  Ring.front rbuf.data.cells rbuf.pread rbuf.avail.toNat

/-- Both positions lie in the array. -/
structure Sound (rbuf : DvbRingbuffer size) : Prop where
  pread_lt : rbuf.pread < size
  pwrite_lt : rbuf.pwrite < size

variable {rbuf rbuf' : DvbRingbuffer size} {buf : List UInt8} {len : ℕ}

theorem Sound.free_add_avail (h : rbuf.Sound) : rbuf.free + rbuf.avail = size - 1 := by
  obtain ⟨hr, hw⟩ := h
  simp only [free, avail]
  split <;> split <;> omega

theorem Sound.avail_bounds (h : rbuf.Sound) : 0 ≤ rbuf.avail ∧ rbuf.avail < size := by
  obtain ⟨hr, hw⟩ := h
  rw [avail]
  split <;> omega

theorem Sound.pwrite_eq (h : rbuf.Sound) : rbuf.pwrite = (rbuf.pread + rbuf.avail.toNat) % size := by
  obtain ⟨hr, hw⟩ := h
  rw [avail]
  split
  · rw [Nat.mod_eq_sub_mod (by omega), Nat.mod_eq_of_lt (by omega)]
    omega
  · rw [Nat.mod_eq_of_lt (by omega)]
    omega

/-- Positions `n` bytes apart hold `n` bytes. -/
theorem avail_of_pwrite (hr : rbuf.pread < size) {n : ℕ} (hn : n < size)
    (h : rbuf.pwrite = (rbuf.pread + n) % size) : rbuf.avail = n := by
  rw [avail, h]
  rcases Nat.lt_or_ge (rbuf.pread + n) size with hlt | hge
  · rw [Nat.mod_eq_of_lt hlt]
    split <;> omega
  · rw [Nat.mod_eq_sub_mod hge, Nat.mod_eq_of_lt (by omega)]
    split <;> omega

theorem Sound.byte_held (h : rbuf.Sound) {o : ℕ} (ho : (o : ℤ) < rbuf.avail) :
    rbuf.data.byte ((rbuf.pread + o) % size) = rbuf.held.getD o 0 := by
  obtain ⟨hge, hlt⟩ := h.avail_bounds
  have hget := Ring.getElem?_front (i := rbuf.pread) rbuf.data.size
    (show o < rbuf.avail.toNat by omega) (by omega)
  rw [List.getD_eq_getElem?_getD, held, hget, Buff.byte, List.getD_eq_getElem?_getD]
  rfl

theorem Sound.length_held (h : rbuf.Sound) : (rbuf.held.length : ℤ) = rbuf.avail := by
  have hb := h.avail_bounds
  rw [held, Ring.length_front (by rw [rbuf.data.size]; omega)]
  omega

/-! ### One operation -/

/-- A copy into the array that stays in it. -/
theorem memcpy_store (data : Buff UInt8 size) {i : ℤ} {p : ℕ} (hi : i = p)
    (h : p + buf.length ≤ size) :
    ∃ data', data.memcpy i buf = some data' ∧ data'.cells = Ring.store data.cells p buf := by
  subst hi
  exact ⟨_, dif_pos ⟨Int.natCast_nonneg p, h⟩, rfl⟩

theorem write_view (hw : rbuf.pwrite < size) (hfit : buf.length < size) :
    ∃ data, rbuf.write buf =
        some { rbuf with data, pwrite := (rbuf.pwrite + buf.length) % size } ∧
      data.cells.rotate rbuf.pwrite =
        buf ++ (rbuf.data.cells.rotate rbuf.pwrite).drop buf.length := by
  have hsize := rbuf.data.size
  rcases Nat.lt_or_ge size (rbuf.pwrite + buf.length) with hround | hstraight
  · have htake : (buf.take (size - rbuf.pwrite)).length = size - rbuf.pwrite := by
      rw [List.length_take]
      omega
    have hdrop : (buf.drop (size - rbuf.pwrite)).length = buf.length - (size - rbuf.pwrite) :=
      List.length_drop ..
    obtain ⟨first, hfirst, hcells⟩ := memcpy_store rbuf.data rfl
      (show rbuf.pwrite + (buf.take (size - rbuf.pwrite)).length ≤ size by omega)
    obtain ⟨data, hsecond, hcells'⟩ := memcpy_store first rfl
      (show 0 + (buf.drop (size - rbuf.pwrite)).length ≤ size by omega)
    have hpos : (0 + (buf.length - (size - rbuf.pwrite))) % size =
        (rbuf.pwrite + buf.length) % size := by
      rw [Nat.mod_eq_sub_mod (show size ≤ rbuf.pwrite + buf.length by omega)]
      congr 1
      omega
    refine ⟨data, ?_, ?_⟩
    · rw [DvbRingbuffer.write, if_pos hround, if_pos (show 0 < size - rbuf.pwrite by omega), hfirst,
        hpos]
      exact congrArg (Option.bind · _) hsecond
    · rw [hcells', hcells]
      exact Ring.rotate_store_round hsize (by omega) (by omega) (by omega)
  · obtain ⟨data, hdata, hcells⟩ := memcpy_store rbuf.data rfl hstraight
    refine ⟨data, ?_, ?_⟩
    · rw [DvbRingbuffer.write, if_neg (Nat.not_lt.mpr hstraight), if_neg (Nat.lt_irrefl 0), hdata]
      rfl
    · rw [hcells]
      exact Ring.rotate_store (by omega)

/-- What a write of no more than the free bytes does. -/
theorem Sound.write (h : rbuf.Sound) (buf : List UInt8) (hfit : (buf.length : ℤ) ≤ rbuf.free) :
    ∃ rbuf', rbuf.write buf = some rbuf' ∧ rbuf'.Sound ∧ rbuf'.pread = rbuf.pread ∧
      rbuf'.held = rbuf.held ++ buf := by
  have hsum := h.free_add_avail
  obtain ⟨hge, hlt⟩ := h.avail_bounds
  have hpw := h.pwrite_eq
  have hsize := rbuf.data.size
  obtain ⟨data, heq, hview⟩ := write_view h.pwrite_lt (show buf.length < size by omega)
  have havail : avail { rbuf with data, pwrite := (rbuf.pwrite + buf.length) % size } =
      (rbuf.avail.toNat + buf.length : ℕ) := by
    refine @avail_of_pwrite size { rbuf with data, pwrite := (rbuf.pwrite + buf.length) % size }
      h.pread_lt _ (by omega) ?_
    simp only
    rw [hpw, Nat.mod_add_mod, Nat.add_assoc]
  refine ⟨_, heq, ⟨h.pread_lt, Nat.mod_lt _ (by have := h.pread_lt; omega)⟩, rfl, ?_⟩
  rw [held, held, havail, Int.toNat_natCast]
  exact Ring.front_write hsize data.size (by omega) hpw hview

theorem write_singleton (hw : rbuf.pwrite < size) (byte : UInt8) :
    rbuf.write [byte] = some (rbuf.writeByte byte) := by
  have hfit : rbuf.pwrite + [byte].length ≤ size := Nat.succ_le_of_lt hw
  obtain ⟨data, hdata, hcells⟩ := memcpy_store rbuf.data rfl hfit
  have hset : Ring.store rbuf.data.cells rbuf.pwrite [byte] =
      rbuf.data.cells.set rbuf.pwrite byte := by
    rw [Ring.store, List.set_eq_take_append_cons_drop, if_pos (by rw [rbuf.data.size]; exact hw),
      List.append_assoc]
    rfl
  have hput : data = rbuf.data.put rbuf.pwrite byte := Buff.ext (hcells.trans hset)
  rw [DvbRingbuffer.write, if_neg (Nat.not_lt.mpr hfit), if_neg (Nat.lt_irrefl 0), hdata, hput]
  rfl

/-- Reading on past waiting bytes. -/
theorem Sound.skip (h : rbuf.Sound) (len : ℕ) (hfit : (len : ℤ) ≤ rbuf.avail) :
    (rbuf.skip len).Sound ∧ (rbuf.skip len).held = rbuf.held.drop len := by
  obtain ⟨hge, hlt⟩ := h.avail_bounds
  have hpw := h.pwrite_eq
  have hmod := Nat.mod_lt (rbuf.pread + len) (Nat.zero_lt_of_lt h.pread_lt)
  have havail : (rbuf.skip len).avail = (rbuf.avail.toNat - len : ℕ) := by
    refine @avail_of_pwrite size (rbuf.skip len) hmod _ (by omega) ?_
    simp only [DvbRingbuffer.skip]
    rw [Nat.mod_add_mod, Nat.add_assoc, Nat.add_sub_cancel' (by omega)]
    exact hpw
  refine ⟨⟨hmod, h.pwrite_lt⟩, ?_⟩
  rw [held, held, havail, Int.toNat_natCast]
  exact (Ring.drop_front rbuf.data.size (by omega) (by omega)).symm

/-- The bytes copied out are those seen first from the position on. -/
theorem copyOut_eq (data : Buff UInt8 size) {p : ℕ} (hp : p < size) (hlen : len < size) :
    ∃ q, copyOut data p len = some (Ring.front data.cells p len, q) ∧
      q % size = (p + len) % size := by
  have hsize := data.size
  rcases Nat.lt_or_ge size (p + len) with hround | hstraight
  · refine ⟨0 + (len - (size - p)), ?_, ?_⟩
    · rw [copyOut, if_pos hround, if_pos (show 0 < size - p by omega), Buff.slice, Buff.slice,
        if_pos (by omega), if_pos (by omega),
        ← Ring.take_round hsize (by omega) (by omega) (by omega)]
      rfl
    · rw [Nat.mod_eq_sub_mod (show size ≤ p + len by omega)]
      congr 1
      omega
  · refine ⟨p + len, ?_, rfl⟩
    rw [copyOut, if_neg (Nat.not_lt.mpr hstraight), if_neg (Nat.lt_irrefl 0), Buff.slice,
      if_pos hstraight, Ring.take_straight (by omega)]
    rfl

theorem Sound.read (h : rbuf.Sound) (hfit : (len : ℤ) ≤ rbuf.avail) :
    rbuf.read len = some (rbuf.held.take len, rbuf.skip len) := by
  obtain ⟨hge, hlt⟩ := h.avail_bounds
  obtain ⟨q, hcopy, hq⟩ := copyOut_eq rbuf.data h.pread_lt (show len < size by omega)
  rw [DvbRingbuffer.read, hcopy, held, Ring.take_front (by omega), DvbRingbuffer.skip, ← hq]
  rfl

theorem Sound.flush (h : rbuf.Sound) : rbuf.flush.Sound ∧ rbuf.flush.held = [] := by
  refine ⟨⟨h.pwrite_lt, h.pwrite_lt⟩, ?_⟩
  simp [held, avail, DvbRingbuffer.flush, Ring.front]

/-! ### Runs -/

/-- One use of the buffer, with the bytes read by it. -/
def use (rbuf : DvbRingbuffer size) : Ring.Use UInt8 → Option (List UInt8 × DvbRingbuffer size)
  | .write buf => (rbuf.write buf).map fun rbuf' => ([], rbuf')
  | .read len => rbuf.read len
  | .flush => some ([], rbuf.flush)

/-- A write of no more than is free, a read of no more than is waiting. -/
def Fits (rbuf : DvbRingbuffer size) : Ring.Use UInt8 → Prop
  | .write buf => (buf.length : ℤ) ≤ rbuf.free
  | .read len => (len : ℤ) ≤ rbuf.avail
  | .flush => True

instance (rbuf : DvbRingbuffer size) (u : Ring.Use UInt8) : Decidable (rbuf.Fits u) :=
  match u with
  | .write buf => inferInstanceAs (Decidable ((buf.length : ℤ) ≤ rbuf.free))
  | .read len => inferInstanceAs (Decidable ((len : ℤ) ≤ rbuf.avail))
  | .flush => inferInstanceAs (Decidable True)

/-- The uses made of a fresh buffer, the bytes read so far and the buffer now. -/
inductive Run (data : Buff UInt8 size) :
    List (Ring.Use UInt8) → List UInt8 → DvbRingbuffer size → Prop where
  | init : Run data [] [] (init data)
  | use {us : List (Ring.Use UInt8)} {out bytes : List UInt8} {rbuf rbuf' : DvbRingbuffer size}
      {u : Ring.Use UInt8} (h : Run data us out rbuf) (hfits : rbuf.Fits u)
      (hu : rbuf.use u = some (bytes, rbuf')) : Run data (us ++ [u]) (out ++ bytes) rbuf'

/-- The buffer is a queue: it holds what the queue holds. -/
structure Queues (q : Ring.Queue UInt8) (out : List UInt8) (rbuf : DvbRingbuffer size) : Prop where
  sound : rbuf.Sound
  held_eq : rbuf.held = q.held
  taken_eq : out = q.taken

theorem queues_init (data : Buff UInt8 size) (hsize : 0 < size) :
    Queues (Ring.Queue.after []) [] (init data) where
  sound := ⟨hsize, hsize⟩
  held_eq := by simp [held, avail, init, Ring.front, Ring.Queue.after]
  taken_eq := rfl

/-- Every use that fits has a result, and the queue follows it. -/
theorem Queues.use {q : Ring.Queue UInt8} {out : List UInt8} (h : Queues q out rbuf)
    {u : Ring.Use UInt8} (hfits : rbuf.Fits u) :
    ∃ bytes rbuf', rbuf.use u = some (bytes, rbuf') ∧ Queues (q.use u) (out ++ bytes) rbuf' := by
  cases u with
  | write buf =>
    obtain ⟨rbuf', hw, hs, -, hheld⟩ := h.sound.write _ hfits
    refine ⟨[], rbuf', by rw [DvbRingbuffer.use, hw]; rfl, hs, ?_, ?_⟩
    · rw [hheld, h.held_eq]
      rfl
    · rw [List.append_nil]
      exact h.taken_eq
  | read len =>
    obtain ⟨hs, hheld⟩ := h.sound.skip _ hfits
    refine ⟨_, rbuf.skip len, h.sound.read hfits, hs, ?_, ?_⟩
    · rw [hheld, h.held_eq]
      rfl
    · rw [Ring.Queue.taken_read, h.held_eq, h.taken_eq]
  | flush =>
    obtain ⟨hs, hheld⟩ := h.sound.flush
    refine ⟨[], _, rfl, hs, hheld, ?_⟩
    rw [List.append_nil, Ring.Queue.taken_flush]
    exact h.taken_eq

theorem Run.queues {data : Buff UInt8 size} {us : List (Ring.Use UInt8)} {out : List UInt8}
    (hsize : 0 < size) (h : Run data us out rbuf) : Queues (Ring.Queue.after us) out rbuf := by
  induction h with
  | init => exact queues_init data hsize
  | use _ hfits hu ih =>
    obtain ⟨bytes, rbuf', hu', hq⟩ := ih.use hfits
    rw [hu, Option.some.injEq, Prod.mk.injEq] at hu'
    obtain ⟨rfl, rfl⟩ := hu'
    rw [Ring.Queue.after_concat]
    exact hq

/-- The ring buffer is a first-in-first-out queue. After any run of uses that fit, the bytes written
    are, in order, those read, those flushed and those waiting; the bytes read come out in that
    order; both positions lie in the array, all but one byte is free or waiting, and any further use
    that fits has a result. -/
theorem ringbuffer_fifo {data : Buff UInt8 size} {us : List (Ring.Use UInt8)} {out : List UInt8}
    (hsize : 0 < size) (h : Run data us out rbuf) :
    rbuf.pread < size ∧ rbuf.pwrite < size ∧ rbuf.free + rbuf.avail = size - 1 ∧
      Ring.written us =
        (Ring.Queue.after us).passed.map Prod.snd ++ (Ring.Queue.after us).held ∧
      out = (Ring.Queue.after us).taken ∧
      rbuf.avail = (Ring.Queue.after us).held.length ∧
      (rbuf.empty ↔ (Ring.Queue.after us).held = []) ∧
      ∀ u, rbuf.Fits u → ∃ bytes rbuf', rbuf.use u = some (bytes, rbuf') := by
  have hq := h.queues hsize
  have hlen := hq.sound.length_held
  rw [hq.held_eq] at hlen
  refine ⟨hq.sound.pread_lt, hq.sound.pwrite_lt, hq.sound.free_add_avail, Ring.Queue.written_after us,
    hq.taken_eq, hlen.symm, ?_, ?_⟩
  · rw [← List.length_eq_zero_iff, empty, decide_eq_true_iff]
    have hpw := hq.sound.pwrite_lt
    have hpr := hq.sound.pread_lt
    rw [avail] at hlen
    split at hlen <;> omega
  · intro u hu
    obtain ⟨bytes, rbuf', huse, -⟩ := hq.use hu
    exact ⟨bytes, rbuf', huse⟩

/-- A write that goes round, read back in two parts. -/
theorem ringbuffer_fifo_round :
    ∃ rbuf : DvbRingbuffer 4,
      Run (Buff.zeros 4) [.write [1, 2], .read 2, .write [3, 4, 5], .read 2] [1, 2, 3, 4] rbuf ∧
        rbuf.avail = 1 := by
  have h1 : Run (Buff.zeros 4) ([] ++ [.write [1, 2]]) ([] ++ []) ⟨⟨[1, 2, 0, 0], rfl⟩, 0, 2, 0⟩ :=
    .use .init (by decide) rfl
  have h2 := h1.use (u := .read 2) (by decide) rfl
  have h3 := h2.use (u := .write [3, 4, 5]) (by decide) rfl
  have h4 := h3.use (u := .read 2) (by decide) rfl
  exact ⟨_, h4, (ringbuffer_fifo (by decide) h4).2.2.2.2.2.1⟩

end DvbRingbuffer

end Dvb

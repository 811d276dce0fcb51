import NeumoDrivers.Dvb.Ringbuffer

/-! Copies between the ring buffer and user memory.

    Access to the user's buffer faults behind its first `good` bytes. A copy that goes round is made in
    two pieces, and the position is moved to the start of the array between them. -/

namespace Dvb
open Demux

def efault : ℤ := 14

/-- `copy_to_user`: the bytes that arrive, and how many do not. -/
def copyToUser (good : ℕ) (src : List UInt8) : List UInt8 × ℕ := (src.take good, src.length - good)

/-- `copy_from_user`: what does not arrive is zeroed. -/
def copyFromUser (good : ℕ) (src : List UInt8) : List UInt8 × ℕ :=
  (src.take good ++ List.replicate (src.length - good) 0, src.length - good)

namespace DvbRingbuffer

variable {size : ℕ} {rbuf : DvbRingbuffer size} {buf src : List UInt8} {good len n : ℕ}

/-- The last piece of a read: behind `copied`, with `todo` of the `len` bytes to do. -/
def readUserRest (rbuf : DvbRingbuffer size) (copied : List UInt8) (todo good len : ℕ) :
    Option (ℤ × List UInt8 × DvbRingbuffer size) := do
  let rest ← rbuf.data.slice rbuf.pread todo
  let (bytes, left) := copyToUser good rest
  if left ≠ 0 then some (-efault, copied ++ bytes, rbuf)
  else some (len, copied ++ bytes, { rbuf with pread := (rbuf.pread + todo) % size })

/-- `dvb_ringbuffer_read_user`: what it returns, and what has arrived in the user's buffer. -/
def readUser (rbuf : DvbRingbuffer size) (good len : ℕ) :
    Option (ℤ × List UInt8 × DvbRingbuffer size) :=
  let split := if size < rbuf.pread + len then size - rbuf.pread else 0
  if 0 < split then do
    let head ← rbuf.data.slice rbuf.pread split
    let (bytes, left) := copyToUser good head
    if left ≠ 0 then some (-efault, bytes, rbuf)
    else readUserRest { rbuf with pread := 0 } bytes (len - split) (good - split) len
  else readUserRest rbuf [] len good len

/-- The last piece of a write of `len` bytes. -/
def writeUserRest (rbuf : DvbRingbuffer size) (buf : List UInt8) (good len : ℕ) :
    Option (ℕ × DvbRingbuffer size) := do
  let (bytes, left) := copyFromUser good buf
  let data ← rbuf.data.memcpy rbuf.pwrite bytes
  if left ≠ 0 then some (len - buf.length, { rbuf with data })
  else some (len, { rbuf with data, pwrite := (rbuf.pwrite + buf.length) % size })

/-- `dvb_ringbuffer_write_user`: what it returns. -/
def writeUser (rbuf : DvbRingbuffer size) (good : ℕ) (buf : List UInt8) :
    Option (ℕ × DvbRingbuffer size) :=
  let split := if size < rbuf.pwrite + buf.length then size - rbuf.pwrite else 0
  if 0 < split then do
    let (bytes, left) := copyFromUser good (buf.take split)
    let data ← rbuf.data.memcpy rbuf.pwrite bytes
    if left ≠ 0 then some (0, { rbuf with data })
    else writeUserRest { rbuf with data, pwrite := 0 } (buf.drop split) (good - split) buf.length
  else writeUserRest rbuf buf good buf.length

/-! ### Writing -/

theorem copyFromUser_length : (copyFromUser good src).1.length = src.length := by
  rw [copyFromUser, List.length_append, List.length_take, List.length_replicate]
  omega

theorem copyFromUser_all (h : src.length ≤ good) : (copyFromUser good src).1 = src := by
  rw [copyFromUser, List.take_of_length_le h, Nat.sub_eq_zero_of_le h, List.replicate_zero,
    List.append_nil]

/-- The write position behind the first `n` bytes of what has been stored there. -/
theorem Sound.stored (h : rbuf.Sound) {data : Buff UInt8 size}
    (hfit : (src.length : ℤ) ≤ rbuf.free) (hn : n ≤ src.length)
    (hview : data.cells.rotate rbuf.pwrite =
      src ++ (rbuf.data.cells.rotate rbuf.pwrite).drop src.length) :
    Sound { rbuf with data, pwrite := (rbuf.pwrite + n) % size } ∧
      held { rbuf with data, pwrite := (rbuf.pwrite + n) % size } = rbuf.held ++ src.take n := by
  have hsum := h.free_add_avail
  obtain ⟨hge, hlt⟩ := h.avail_bounds
  have hpw := h.pwrite_eq
  have havail : avail { rbuf with data, pwrite := (rbuf.pwrite + n) % size } =
      (rbuf.avail.toNat + n : ℕ) := by
    refine @avail_of_pwrite size { rbuf with data, pwrite := (rbuf.pwrite + n) % size }
      h.pread_lt _ (by omega) ?_
    dsimp only
    rw [hpw, Nat.mod_add_mod, Nat.add_assoc]
  have hlen : (Ring.front rbuf.data.cells rbuf.pread rbuf.avail.toNat).length = rbuf.avail.toNat :=
    Ring.length_front (by rw [rbuf.data.size]; omega)
  refine ⟨⟨h.pread_lt, Nat.mod_lt _ (Nat.zero_lt_of_lt h.pread_lt)⟩, ?_⟩
  rw [held, held, havail, Int.toNat_natCast,
    ← Ring.take_front (show rbuf.avail.toNat + n ≤ rbuf.avail.toNat + src.length by omega),
    Ring.front_write rbuf.data.size data.size (by omega) hpw hview, List.take_append, hlen,
    Nat.add_sub_cancel_left, List.take_of_length_le (by omega)]

/-- What a write to the ring buffer returns is how far it has come. -/
structure Wrote (rbuf rbuf' : DvbRingbuffer size) (buf : List UInt8) (n : ℕ) : Prop where
  le : n ≤ buf.length
  sound : rbuf'.Sound
  pread : rbuf'.pread = rbuf.pread
  pwrite : rbuf'.pwrite = (rbuf.pwrite + n) % size
  held : rbuf'.held = rbuf.held ++ buf.take n

/-- What has been stored starts with the first `n` bytes of the user's buffer. -/
theorem Sound.wrote (h : rbuf.Sound) {data : Buff UInt8 size} (hfit : (src.length : ℤ) ≤ rbuf.free)
    (hsrc : n ≤ src.length) (hn : n ≤ buf.length) (htake : src.take n = buf.take n)
    (hview : data.cells.rotate rbuf.pwrite =
      src ++ (rbuf.data.cells.rotate rbuf.pwrite).drop src.length) :
    rbuf.Wrote { rbuf with data, pwrite := (rbuf.pwrite + n) % size } buf n := by
  obtain ⟨hsound, hheld⟩ := h.stored hfit hsrc hview
  exact ⟨hn, hsound, rfl, rfl, by rw [hheld, htake]⟩

/-- A fault before anything has been written. -/
theorem Sound.wrote_nothing (h : rbuf.Sound) {data : Buff UInt8 size}
    (hfit : (src.length : ℤ) ≤ rbuf.free) (hview : data.cells.rotate rbuf.pwrite =
      src ++ (rbuf.data.cells.rotate rbuf.pwrite).drop src.length) :
    rbuf.Wrote { rbuf with data } buf 0 := by
  have hwrote := @Sound.wrote _ _ buf _ _ h _ hfit (Nat.zero_le _) (Nat.zero_le _) rfl hview
  rwa [Nat.add_zero, Nat.mod_eq_of_lt h.pwrite_lt] at hwrote

/-- A piece of a write that stays in the array. -/
theorem memcpy_user (data : Buff UInt8 size) (good : ℕ) {i : ℤ} {p : ℕ} (hi : i = p)
    (hp : p + src.length ≤ size) :
    ∃ data', data.memcpy i (copyFromUser good src).1 = some data' ∧
      data'.cells = Ring.store data.cells p (copyFromUser good src).1 :=
  memcpy_store data hi (by rwa [copyFromUser_length])

theorem Sound.writeUser_straight (h : rbuf.Sound) (good : ℕ)
    (hfit : (buf.length : ℤ) ≤ rbuf.free) (hstraight : rbuf.pwrite + buf.length ≤ size) :
    ∃ n rbuf', rbuf.writeUser good buf = some (n, rbuf') ∧ rbuf.Wrote rbuf' buf n := by
  obtain ⟨data, hdata, hcells⟩ := memcpy_user rbuf.data good rfl hstraight
  have hlen : (copyFromUser good buf).1.length = buf.length := copyFromUser_length
  have hview := @Ring.rotate_store _ rbuf.data.cells
    ((copyFromUser good buf).1) rbuf.pwrite (by rw [rbuf.data.size, hlen]; exact hstraight)
  rw [← hcells] at hview
  rw [DvbRingbuffer.writeUser, if_neg (Nat.not_lt.mpr hstraight), if_neg (Nat.lt_irrefl 0),
    writeUserRest]
  by_cases hleft : (copyFromUser good buf).2 = 0
  · have hall : (copyFromUser good buf).1 = buf := copyFromUser_all (Nat.le_of_sub_eq_zero hleft)
    rw [hall] at hview hlen
    exact ⟨_, _, by simp [hdata, hleft],
      h.wrote hfit (Nat.le_refl _) (Nat.le_refl _) rfl hview⟩
  · exact ⟨0, _, by simp [hdata, hleft], h.wrote_nothing (by rwa [hlen]) hview⟩

theorem Sound.writeUser_round (h : rbuf.Sound) (good : ℕ)
    (hfit : (buf.length : ℤ) ≤ rbuf.free) (hround : size < rbuf.pwrite + buf.length) :
    ∃ n rbuf', rbuf.writeUser good buf = some (n, rbuf') ∧ rbuf.Wrote rbuf' buf n := by
  have hlt := h.pwrite_lt
  have hsum := h.free_add_avail
  obtain ⟨hge, -⟩ := h.avail_bounds
  have hsize := rbuf.data.size
  have htake : (buf.take (size - rbuf.pwrite)).length = size - rbuf.pwrite := by
    rw [List.length_take]
    omega
  have hdrop : (buf.drop (size - rbuf.pwrite)).length = buf.length - (size - rbuf.pwrite) :=
    List.length_drop ..
  obtain ⟨data, hdata, hcells⟩ := @memcpy_user _ (buf.take (size - rbuf.pwrite)) rbuf.data good _ _ rfl
    (show rbuf.pwrite + _ ≤ size by omega)
  rw [DvbRingbuffer.writeUser, if_pos hround, if_pos (show 0 < size - rbuf.pwrite by omega)]
  by_cases hleft : (copyFromUser good (buf.take (size - rbuf.pwrite))).2 = 0
  · have hall : (copyFromUser good (buf.take (size - rbuf.pwrite))).1 =
        buf.take (size - rbuf.pwrite) := copyFromUser_all (Nat.le_of_sub_eq_zero hleft)
    rw [hall] at hdata hcells
    obtain ⟨data', hdata', hcells'⟩ := @memcpy_user _ (buf.drop (size - rbuf.pwrite)) data
      (good - (size - rbuf.pwrite)) 0 _ rfl (show 0 + _ ≤ size by omega)
    have hrest : (copyFromUser (good - (size - rbuf.pwrite))
        (buf.drop (size - rbuf.pwrite))).1.length = buf.length - (size - rbuf.pwrite) :=
      copyFromUser_length.trans hdrop
    have hview := @Ring.rotate_store_round _ rbuf.data.cells
      (buf.take (size - rbuf.pwrite) ++
        (copyFromUser (good - (size - rbuf.pwrite)) (buf.drop (size - rbuf.pwrite))).1) _ rbuf.pwrite
      hsize (Nat.le_of_lt hlt) (by rw [List.length_append]; omega)
      (by rw [List.length_append]; omega)
    rw [List.take_left' htake, List.drop_left' htake, ← hcells, ← hcells'] at hview
    by_cases hleft' : (copyFromUser (good - (size - rbuf.pwrite))
        (buf.drop (size - rbuf.pwrite))).2 = 0
    · rw [copyFromUser_all (Nat.le_of_sub_eq_zero hleft'), List.take_append_drop] at hview
      have hend : (0 + (buf.drop (size - rbuf.pwrite)).length) % size =
          (rbuf.pwrite + buf.length) % size := by
        rw [Nat.mod_eq_sub_mod (show size ≤ rbuf.pwrite + buf.length by omega), hdrop]
        congr 1
        omega
      refine ⟨buf.length, _, ?_, h.wrote hfit (Nat.le_refl _) (Nat.le_refl _) rfl hview⟩
      rw [← hend]
      simp [writeUserRest, hdata, hdata', hleft, hleft', hall]
    · have hend : (rbuf.pwrite + (size - rbuf.pwrite)) % size = 0 := by
        rw [Nat.add_sub_cancel' (Nat.le_of_lt hlt), Nat.mod_self]
      have hwrote := @Sound.wrote _ _ buf _ (size - rbuf.pwrite) h _
        (by rw [List.length_append]; omega) (by rw [List.length_append]; omega) (by omega)
        (List.take_left' htake) hview
      rw [hend] at hwrote
      have hreturn : buf.length - (buf.length - (size - rbuf.pwrite)) = size - rbuf.pwrite := by
        omega
      refine ⟨size - rbuf.pwrite, _, ?_, hwrote⟩
      simp [writeUserRest, hdata, hdata', hleft, hleft', hall, hreturn]
  · have hlen : (copyFromUser good (buf.take (size - rbuf.pwrite))).1.length =
        size - rbuf.pwrite := copyFromUser_length.trans htake
    have hview := @Ring.rotate_store _ rbuf.data.cells
      ((copyFromUser good (buf.take (size - rbuf.pwrite))).1) rbuf.pwrite (by rw [hsize, hlen]; omega)
    rw [← hcells] at hview
    exact ⟨0, _, by simp [hdata, hleft], h.wrote_nothing (by rw [hlen]; omega) hview⟩

/-- A write within the free bytes, whether or not it goes round, and wherever it faults. -/
theorem Sound.writeUser (h : rbuf.Sound) (good : ℕ) (hfit : (buf.length : ℤ) ≤ rbuf.free) :
    ∃ n rbuf', rbuf.writeUser good buf = some (n, rbuf') ∧ rbuf.Wrote rbuf' buf n := by
  rcases Nat.lt_or_ge size (rbuf.pwrite + buf.length) with hround | hstraight
  · exact h.writeUser_round good hfit hround
  · exact h.writeUser_straight good hfit hstraight

/-! ### Reading -/

/-- What a read from the ring buffer returns, 0 for an error, is how far it has come. -/
structure Took (rbuf rbuf' : DvbRingbuffer size) (ret : ℤ) : Prop where
  pwrite : rbuf'.pwrite = rbuf.pwrite
  pread : rbuf'.pread = (rbuf.pread + ret.toNat) % size
  held : rbuf'.held = rbuf.held.drop ret.toNat

/-- A fault in the second piece of a read that goes round. -/
def FaultsRound (rbuf : DvbRingbuffer size) (good len : ℕ) : Prop :=
  size < rbuf.pread + len ∧ size - rbuf.pread ≤ good ∧ good < len

theorem Sound.took (h : rbuf.Sound) (hfit : (len : ℤ) ≤ rbuf.avail) :
    rbuf.Took (rbuf.skip len) len := ⟨rfl, rfl, (h.skip len hfit).2⟩

theorem Sound.took_nothing (h : rbuf.Sound) : rbuf.Took rbuf (-efault) :=
  ⟨rfl, (Nat.mod_eq_of_lt h.pread_lt).symm, rfl⟩

/-- A piece of a read arrives, or faults. -/
theorem readUserRest_eq {copied rest : List UInt8} {todo : ℕ}
    (hslice : rbuf.data.slice rbuf.pread todo = some rest) (hrest : rest.length = todo) :
    rbuf.readUserRest copied todo good len =
      if todo ≤ good then some ((len : ℤ), copied ++ rest, rbuf.skip todo)
      else some (-efault, copied ++ rest.take good, rbuf) := by
  rw [readUserRest, hslice]
  by_cases hgood : todo ≤ good
  · have hnone : todo - good = 0 := Nat.sub_eq_zero_of_le hgood
    have hall : rest.take good = rest := List.take_of_length_le (hrest ▸ hgood)
    simp [copyToUser, hrest, hgood, hnone, hall, DvbRingbuffer.skip]
  · have hsome : todo - good ≠ 0 := by omega
    simp [copyToUser, hrest, hgood, hsome]

/-- The first piece of a read that goes round. -/
theorem readUser_round {head : List UInt8} (hround : size < rbuf.pread + len)
    (hlt : rbuf.pread < size) (hslice : rbuf.data.slice rbuf.pread (size - rbuf.pread) = some head)
    (hhead : head.length = size - rbuf.pread) :
    rbuf.readUser good len =
      if size - rbuf.pread ≤ good then
        readUserRest { rbuf with pread := 0 } head (len - (size - rbuf.pread))
          (good - (size - rbuf.pread)) len
      else some (-efault, head.take good, rbuf) := by
  rw [DvbRingbuffer.readUser, if_pos hround, if_pos (show 0 < size - rbuf.pread by omega), hslice]
  by_cases hgood : size - rbuf.pread ≤ good
  · have hnone : size - rbuf.pread - good = 0 := Nat.sub_eq_zero_of_le hgood
    have hall : head.take good = head := List.take_of_length_le (hhead ▸ hgood)
    simp only [copyToUser, hhead, hgood, hnone, hall, Option.bind_eq_bind, Option.bind_some]
    rfl
  · have hsome : size - rbuf.pread - good ≠ 0 := by omega
    simp [copyToUser, hhead, hgood, hsome]

/-- A read of waiting bytes: where it faults in its second piece, the first piece is lost. -/
theorem Sound.readUser (h : rbuf.Sound) (good : ℕ) (hfit : (len : ℤ) ≤ rbuf.avail) :
    ∃ ret copied rbuf', rbuf.readUser good len = some (ret, copied, rbuf') ∧ rbuf'.Sound ∧
      copied.take ret.toNat = rbuf.held.take ret.toNat ∧
      (rbuf.Took rbuf' ret ↔ ¬rbuf.FaultsRound good len) := by
  have hlt := h.pread_lt
  obtain ⟨hge, havail⟩ := h.avail_bounds
  have hsize := rbuf.data.size
  have hfront : Ring.front rbuf.data.cells rbuf.pread len = rbuf.held.take len := by
    rw [DvbRingbuffer.held, Ring.take_front (by omega)]
  have hread : (rbuf.held.take len).take ((len : ℤ).toNat) = rbuf.held.take ((len : ℤ).toNat) := by
    rw [Int.toNat_natCast, List.take_take, Nat.min_self]
  obtain ⟨hsound, -⟩ := h.skip len hfit
  rcases Nat.lt_or_ge size (rbuf.pread + len) with hround | hstraight
  · have hback : rbuf.FaultsRound good len ↔ size - rbuf.pread ≤ good ∧ good < len :=
      and_iff_right hround
    have hhead : ((rbuf.data.cells.drop rbuf.pread).take (size - rbuf.pread)).length =
        size - rbuf.pread := by
      rw [List.length_take, List.length_drop]
      omega
    have hrest : ((rbuf.data.cells.drop 0).take (len - (size - rbuf.pread))).length =
        len - (size - rbuf.pread) := by
      rw [List.length_take, List.length_drop]
      omega
    have hsecond := @readUserRest_eq size { rbuf with pread := 0 } (good - (size - rbuf.pread)) len
      ((rbuf.data.cells.drop rbuf.pread).take (size - rbuf.pread)) _ _
      (if_pos (show 0 + (len - (size - rbuf.pread)) ≤ size by omega)) hrest
    rw [readUser_round hround hlt (if_pos (by omega)) hhead, hsecond]
    by_cases hgood : size - rbuf.pread ≤ good
    · rw [if_pos hgood]
      by_cases hend : len ≤ good
      · have hskip : DvbRingbuffer.skip { rbuf with pread := 0 } (len - (size - rbuf.pread)) =
            rbuf.skip len := by
          simp only [DvbRingbuffer.skip]
          rw [Nat.mod_eq_sub_mod (show size ≤ rbuf.pread + len by omega)]
          congr 2
          omega
        rw [if_pos (by omega), hskip, Ring.take_round hsize (Nat.le_of_lt hlt) (by omega) (by omega),
          hfront]
        exact ⟨len, _, _, rfl, hsound, hread,
          iff_of_true (h.took hfit) fun hf => Nat.not_lt.mpr hend (hback.mp hf).2⟩
      · rw [if_neg (by omega)]
        refine ⟨-efault, _, _, rfl, ⟨Nat.zero_lt_of_lt hlt, h.pwrite_lt⟩, rfl,
          iff_of_false (fun htook => ?_) (not_not.mpr (hback.mpr ⟨hgood, Nat.lt_of_not_le hend⟩))⟩
        -- the position has been moved, and nothing is reported
        have hpread : 0 = (rbuf.pread + 0) % size := htook.pread
        rw [Nat.add_zero, Nat.mod_eq_of_lt hlt] at hpread
        omega
    · rw [if_neg hgood]
      exact ⟨-efault, _, _, rfl, h, rfl,
        iff_of_true h.took_nothing fun hf => hgood (hback.mp hf).1⟩
  · have hslice : rbuf.data.slice rbuf.pread len = some (rbuf.held.take len) := by
      rw [Buff.slice, if_pos hstraight, Ring.take_straight (by omega), hfront]
    have hlen : (rbuf.held.take len).length = len := by
      have hheld := h.length_held
      rw [List.length_take]
      omega
    have hno : ¬rbuf.FaultsRound good len := fun hf => Nat.not_lt.mpr hstraight hf.1
    rw [DvbRingbuffer.readUser, if_neg (Nat.not_lt.mpr hstraight), if_neg (Nat.lt_irrefl 0),
      readUserRest_eq hslice hlen]
    split
    · exact ⟨len, _, _, rfl, hsound, hread, iff_of_true (h.took hfit) hno⟩
    · exact ⟨-efault, _, _, rfl, h, rfl, iff_of_true h.took_nothing hno⟩

/-- Copies to and from user memory lose and invent nothing, wherever they fault, unless a read that goes
    round faults in its second piece. -/
theorem user_copies (h : rbuf.Sound) :
    (∀ good buf, (buf.length : ℤ) ≤ rbuf.free →
      ∃ n rbuf', rbuf.writeUser good buf = some (n, rbuf') ∧ rbuf.Wrote rbuf' buf n) ∧
    ∀ good len : ℕ, (len : ℤ) ≤ rbuf.avail →
      ∃ ret copied rbuf', rbuf.readUser good len = some (ret, copied, rbuf') ∧ rbuf'.Sound ∧
        copied.take ret.toNat = rbuf.held.take ret.toNat ∧
        (rbuf.Took rbuf' ret ↔ ¬rbuf.FaultsRound good len) :=
  ⟨fun good _ hfit => h.writeUser good hfit, fun good _ hfit => h.readUser good hfit⟩

/-- Three bytes waiting, one of them behind the end of the array. -/
def waiting : DvbRingbuffer 4 := ⟨⟨[3, 0, 1, 2], rfl⟩, 2, 1, 0⟩

/-- A whole read, and one that faults at once. -/
theorem user_copies_waiting : waiting.Took (waiting.skip 3) 3 ∧ waiting.Took waiting (-efault) := by
  obtain ⟨-, hread⟩ := @user_copies _ waiting ⟨by decide, by decide⟩
  have hwhole : waiting.readUser 3 3 = some (3, [1, 2, 3], waiting.skip 3) := rfl
  have hfault : waiting.readUser 0 3 = some (-efault, [], waiting) := rfl
  obtain ⟨ret, copied, rbuf', heq, -, -, hiff⟩ := hread 3 3 (by decide)
  obtain ⟨ret', copied', rbuf'', heq', -, -, hiff'⟩ := hread 0 3 (by decide)
  rw [hwhole] at heq
  rw [hfault] at heq'
  cases heq
  cases heq'
  exact ⟨hiff.mpr fun hf => absurd hf.2.2 (by decide), hiff'.mpr fun hf => absurd hf.2.1 (by decide)⟩

/-- The fault comes behind the end of the array: nothing is reported, and two bytes are gone. -/
theorem faulting_read_loses : ∃ copied rbuf',
    waiting.readUser 2 3 = some (-efault, copied, rbuf') ∧ rbuf'.pread ≠ waiting.pread ∧
      waiting.held = [1, 2, 3] ∧ rbuf'.held = [3] :=
  ⟨_, _, rfl, by decide, by decide, by decide⟩

end DvbRingbuffer

end Dvb

import Mathlib.Tactic.Common
import Mathlib.Data.List.Basic
import Mathlib.Data.List.GetD
import Mathlib.Data.Int.Basic

/-! Bytes in memory.

    The decoders copy most bytes without looking at them, so the model is written for any type of
    memory cells that hold a byte: `UInt8` itself is the running driver, and cells that carry a mark
    show where a delivered byte came from. A packet is the memory seen from its first byte on; the
    driver's own arrays have a fixed size, and a `memcpy` that leaves them has no result. -/

namespace Demux

/-- Memory cells: the byte a cell holds, and the cell the driver writes for a byte of its own. -/
class Cell (β : Type) where
  val : β → UInt8
  lit : UInt8 → β
  val_lit : ∀ b, val (lit b) = b

instance : Cell UInt8 := ⟨id, id, fun _ => rfl⟩

attribute [simp] Cell.val_lit

/-- A byte marked with where it came from; the driver's own bytes have no mark. -/
abbrev Marked (τ : Type) := UInt8 × Option τ

instance {τ : Type} : Cell (Marked τ) := ⟨Prod.fst, fun b => (b, none), fun _ => rfl⟩

/-- The memory seen through a pointer to a packet. -/
abbrev Packet (β : Type) := ℕ → β

variable {β : Type} [Cell β]

/-- The byte at an offset from the packet's start. -/
def Packet.byte (packet : Packet β) (p : ℤ) : UInt8 := Cell.val (packet p.toNat)

/-- The `n` cells from an offset on. -/
def Packet.read (packet : Packet β) (p n : ℤ) : List β :=
  (List.range n.toNat).map fun i => packet (p.toNat + i)

/-- The packet with the given cells, zero bytes behind them. -/
def Packet.ofList (l : List β) : Packet β := fun i => l.getD i (Cell.lit 0)

omit [Cell β] in
@[simp] theorem Packet.length_read (packet : Packet β) (p n : ℤ) :
    (packet.read p n).length = n.toNat := by
  simp [Packet.read]

omit [Cell β] in
theorem Packet.read_zero (packet : Packet β) (p : ℤ) : packet.read p 0 = [] := rfl

omit [Cell β] in
/-- Reading in two pieces. -/
theorem Packet.read_add (packet : Packet β) {p m n : ℤ} (hp : 0 ≤ p) (hm : 0 ≤ m) (hn : 0 ≤ n) :
    packet.read p (m + n) = packet.read p m ++ packet.read (p + m) n := by
  rw [Packet.read, Int.toNat_add hm hn, List.range_add, List.map_append, List.map_map]
  simp only [Packet.read, Int.toNat_add hp hm, Function.comp_def, Nat.add_assoc]

omit [Cell β] in
theorem Packet.take_read (packet : Packet β) (p n : ℤ) (m : ℕ) :
    (packet.read p n).take m = packet.read p (min m n) := by
  rw [Packet.read, Packet.read, ← List.map_take, List.take_range]
  congr 2
  omega

theorem Packet.read_ofList (l : List β) {p n : ℤ} (hp : 0 ≤ p)
    (h : p + n ≤ l.length) : (Packet.ofList l).read p n = (l.drop p.toNat).take n.toNat := by
  apply List.ext_getElem?
  intro i
  simp only [Packet.read, Packet.ofList, List.getElem?_map, List.getElem?_take, List.getElem?_drop]
  rcases Nat.lt_or_ge i n.toNat with hi | hi
  · rw [List.getElem?_range hi, if_pos hi, List.getElem?_eq_getElem (by omega)]
    simp [List.getD_eq_getElem?_getD, List.getElem?_eq_getElem (show p.toNat + i < l.length by omega)]
  · rw [List.getElem?_eq_none (by simpa using hi), if_neg (by omega), Option.map_none]

theorem Packet.byte_ofList_append_left (u v : List β) {p : ℤ} (h0 : 0 ≤ p) (h : p < u.length) :
    (Packet.ofList (u ++ v)).byte p = (Packet.ofList u).byte p := by
  simp only [Packet.byte, Packet.ofList]
  rw [List.getD_append _ _ _ _ (by omega)]

theorem Packet.byte_ofList_append_right (u v : List β) {p q : ℤ} (hq : 0 ≤ q)
    (h : p = u.length + q) : (Packet.ofList (u ++ v)).byte p = (Packet.ofList v).byte q := by
  simp only [Packet.byte, Packet.ofList]
  rw [List.getD_append_right _ _ _ _ (by omega)]
  congr 2
  omega

theorem Packet.byte_ofList_marked {τ : Type} (l : List (Marked τ)) (p : ℤ) :
    (Packet.ofList l).byte p = (Packet.ofList (l.map Prod.fst)).byte p := by
  simp only [Packet.byte, Packet.ofList]
  exact (List.getD_map (f := Prod.fst) (d := (0, none)) ..).symm

/-- An array of `n` cells. -/
@[ext] structure Buff (β : Type) (n : ℕ) where
  cells : List β
  size : cells.length = n

/-- The array as `kzalloc` leaves it. -/
def Buff.zeros (n : ℕ) : Buff β n := ⟨List.replicate n (Cell.lit 0), List.length_replicate ..⟩

def Buff.byte {n : ℕ} (b : Buff β n) (i : ℕ) : UInt8 := Cell.val (b.cells.getD i (Cell.lit 0))

/-- `b[i] = a`. -/
def Buff.put {n : ℕ} (b : Buff β n) (i : ℕ) (a : β) : Buff β n :=
  ⟨b.cells.set i a, by rw [List.length_set, b.size]⟩

omit [Cell β] in
@[simp] theorem Buff.put_put {n : ℕ} (b : Buff β n) (i : ℕ) (a c : β) :
    (b.put i a).put i c = b.put i c := by
  simp [Buff.put]

omit [Cell β] in
theorem Buff.take_put_zero {n : ℕ} (b : Buff β n) (a : β) (hn : 0 < n) :
    (b.put 0 a).cells.take 1 = [a] := by
  obtain ⟨c, cs, hcs⟩ := List.exists_cons_of_length_pos (show 0 < b.cells.length by rw [b.size]; exact hn)
  simp [Buff.put, hcs]

/-- `memcpy(b + i, src, len)`; `none` when the bytes would not all lie in the array. -/
def Buff.memcpy {n : ℕ} (b : Buff β n) (i : ℤ) (src : List β) : Option (Buff β n) :=
  if h : 0 ≤ i ∧ i.toNat + src.length ≤ n then
    some ⟨b.cells.take i.toNat ++ src ++ b.cells.drop (i.toNat + src.length), by
      have := b.size
      simp only [List.length_append, List.length_take, List.length_drop]
      omega⟩
  else none

/-- The source of a `memcpy` of `k` cells out of the array, from `b + i` on. -/
def Buff.slice {n : ℕ} (b : Buff β n) (i k : ℕ) : Option (List β) :=
  if i + k ≤ n then some ((b.cells.drop i).take k) else none

omit [Cell β] in
/-- Copying behind a known prefix extends the prefix. -/
theorem Buff.memcpy_append {n : ℕ} (b : Buff β n) {i : ℤ} (hi : 0 ≤ i) (pre src : List β)
    (hpre : b.cells.take i.toNat = pre) (h : i.toNat + src.length ≤ n) :
    ∃ b', b.memcpy i src = some b' ∧ b'.cells.take (i.toNat + src.length) = pre ++ src := by
  refine ⟨_, dif_pos ⟨hi, h⟩, ?_⟩
  have hl : (b.cells.take i.toNat ++ src).length = i.toNat + src.length := by
    have := b.size
    simp only [List.length_append, List.length_take]
    omega
  rw [List.take_append_of_le_length (by omega), List.take_of_length_le (by omega), hpre]

end Demux

import NeumoDrivers.Dvb.Ule
import NeumoDrivers.Lib.Packing
import Mathlib.Data.Nat.Bitwise

/-! SNDUs and the TS cells that carry them.

    An SNDU consists of a length and a type field, an optional destination address, the packet and a
    CRC. SNDUs follow one another; a cell in which one starts has PUSI set and a pointer field. -/

namespace Dvb.Ule
open Memory Packing

/-- `ntohs` of two bytes of a packet. -/
def beWord (bytes : List UInt8) (i : ℕ) : ℕ :=
  (bytes.getD i 0).toNat * 256 + (bytes.getD (i + 1) 0).toNat

/-- A packet with its type, or an Ethernet frame behind the extension header for bridged frames. -/
inductive Pdu where
  | typed (type : ℕ) (payload : List UInt8)
  | bridged (frame : List UInt8)

namespace Pdu

def type : Pdu → ℕ
  | typed type _ => type
  | bridged _ => 1

def content : Pdu → List UInt8
  | typed _ payload => payload
  | bridged frame => frame

/-- An EtherType, or an Ethernet II frame. -/
def Proper : Pdu → Prop
  | typed type _ => ethP8023Min ≤ type ∧ type < 65536
  | bridged frame => ethHlen ≤ frame.length ∧ ethP8023Min ≤ beWord frame 12

end Pdu

/-- The length counts what follows the type field. Without a destination address the largest length
    would be the End Indicator. -/
structure Sndu where
  dest : Option (List UInt8)
  pdu : Pdu
  proper : pdu.Proper
  dest_length : ∀ mac ∈ dest, mac.length = ethAlen
  length_le : (dest.getD []).length + pdu.content.length + 4 ≤ 0x7FFF
  not_end : dest = none → pdu.content.length + 4 ≠ 0x7FFF

namespace Sndu
variable (s : Sndu)

/-- What follows the type field, without the CRC. -/
def covered : List UInt8 := s.dest.getD [] ++ s.pdu.content

def len : ℕ := s.covered.length + 4

/-- The length field with the D-bit. -/
def lengthField : ℕ := if s.dest = none then s.len + 0x8000 else s.len

def crc : UInt32 :=
  crc32Be 0xFFFFFFFF (htons s.lengthField ++ htons s.pdu.type ++ s.covered)

def crcBytes : List UInt8 :=
  [(s.crc >>> 24).toUInt8, (s.crc >>> 16).toUInt8, (s.crc >>> 8).toUInt8, s.crc.toUInt8]

def body : List UInt8 := s.covered ++ s.crcBytes

def bytes : List UInt8 := htons s.lengthField ++ htons s.pdu.type ++ s.body

/-- The packet with an Ethernet header. -/
def frame : List UInt8 :=
  match s.pdu with
  | .typed type payload => s.dest.getD zeroAddr ++ zeroAddr ++ htons type ++ payload
  | .bridged frame => frame

/-- What the network stack should get: the frame, with its type. -/
def expected (dev : NetDevice) : Received where
  mac := s.frame
  data := s.frame.drop ethHlen
  protocol := beWord s.frame 12
  pktType :=
    if s.frame.getD 0 0 &&& 1 = 0 then .host
    else if s.frame.take ethAlen = dev.broadcast then .broadcast
    else .multicast

end Sndu

/-- The addresses that the receive mode accepts. -/
def NetDevice.Accepts (dev : NetDevice) (mac : List UInt8) : Prop :=
  dev.rxMode = .promisc ∨
    if mac.getD 0 0 &&& 1 = 0 then mac = dev.devAddr
    else mac = List.replicate ethAlen 0xFF ∨ dev.rxMode = .allMulti ∨
      dev.rxMode = .multi ∧ mac ∈ dev.multiMacs.take dev.multiNum

/-- SNDUs in TS cells: no adaptation field, 0xFF behind the last SNDU in a cell, and a start needs the
    two bytes of the length field. -/
def uleFormat : Format UInt8 Sndu where
  spell := Sndu.bytes
  size := 184
  pad := 0xFF
  pointer := UInt8.ofNat
  least := 2

/-- A TS cell without an error, not scrambled, with the payload and the PUSI of `c`. -/
structure Carries (cc : ℕ) (c : Cell UInt8) (ts : ℕ → UInt8) : Prop where
  sync : ts 0 = tsSync
  tei : ts 1 &&& tsTei = 0
  pusi : ts 1 &&& tsPusi ≠ 0 ↔ c.starts = true
  scrambling : ts 3 &&& tsSc = 0
  counter : (ts 3 &&& 0x0F).toNat = cc % 16
  payload : block ts 4 184 = c.symbols

/-- From `ts` on the buffer holds TS cells with contiguous continuity counters, up to its end. -/
inductive Holds (buf : ℕ → UInt8) (tsEnd : ℕ) : ℕ → ℕ → List (Cell UInt8) → Prop where
  | nil (cc : ℕ) : Holds buf tsEnd tsEnd cc []
  | cons {ts cc : ℕ} {c : Cell UInt8} {cells : List (Cell UInt8)} :
    Carries cc c (fun i => buf (ts + i)) → Holds buf tsEnd (ts + tsSz) (cc + 1) cells →
    Holds buf tsEnd ts cc (c :: cells)

/-- The cells are handed over in calls of any numbers of whole cells. -/
inductive Delivered : ℕ → List (Cell UInt8) → List Call → Prop where
  | nil (cc : ℕ) : Delivered cc [] []
  | cons {cc : ℕ} {call : Call} {cells cells' : List (Cell UInt8)} {calls : List Call} :
    Holds call.buf call.bufLen 0 cc cells → Delivered (cc + cells.length) cells' calls →
    Delivered cc (cells ++ cells') (call :: calls)

/-! ### Fields -/

theorem htons_length (n : ℕ) : (htons n).length = 2 := rfl

theorem ntohs_htons {n : ℕ} (hn : n < 65536) :
    (UInt8.ofNat (n / 256)).toNat * 256 + (UInt8.ofNat n).toNat = n := by
  rw [UInt8.toNat_ofNat', UInt8.toNat_ofNat']
  omega

theorem or_low {a b : ℕ} (hb : b < 256) : a * 256 ||| b = a * 256 + b := by
  rw [Nat.mul_comm, ← Nat.two_pow_add_eq_or_of_lt (i := 8) hb]

namespace Sndu
variable (s : Sndu)

theorem len_le : s.len ≤ 0x7FFF := by
  rw [len, covered, List.length_append]
  exact s.length_le

theorem lengthField_lt : s.lengthField < 65535 := by
  have hle := s.len_le
  rw [lengthField]
  split
  · rename_i hdest
    have hne := s.not_end hdest
    rw [len, covered, hdest, Option.getD_none, List.nil_append] at hle ⊢
    omega
  · omega

theorem type_lt : s.pdu.type < 65536 := by
  have hproper := s.proper
  cases hpdu : s.pdu with
  | typed type payload =>
    rw [hpdu] at hproper
    exact hproper.2
  | bridged frame => exact (by decide : 1 < 65536)

theorem body_length : s.body.length = s.len := by
  rw [body, List.length_append, len]
  rfl

theorem bytes_length : s.bytes.length = s.len + 4 := by
  rw [bytes, List.length_append, List.length_append, htons_length, htons_length, body_length]
  omega

theorem lengthField_and : s.lengthField &&& 0x8000 ≠ 0 ↔ s.dest = none := by
  have hle := s.len_le
  have hlow : s.len.testBit 15 = false := Nat.testBit_lt_two_pow (by omega)
  have hbit (n : ℕ) : n &&& 0x8000 ≠ 0 ↔ n.testBit 15 = true := by
    rw [show 0x8000 = 2 ^ 15 from rfl, Nat.and_two_pow]
    cases n.testBit 15 <;> simp
  rw [hbit, lengthField]
  split
  · rename_i hdest
    rw [Nat.add_comm, show 0x8000 = 2 ^ 15 from rfl, Nat.testBit_two_pow_add_eq, hlow]
    simp [hdest]
  · rename_i hdest
    simp [hdest, hlow]

theorem lengthField_low (hdest : s.dest = none) : s.lengthField &&& 0x7FFF = s.len := by
  have hle := s.len_le
  rw [lengthField, if_pos hdest, show 0x7FFF = 2 ^ 15 - 1 from rfl, Nat.and_two_pow_sub_one_eq_mod]
  omega

theorem bytes_start : ¬(s.bytes.getD 0 0 = 0xFF ∧ s.bytes.getD 1 0 = 0xFF) := by
  rintro ⟨h0, h1⟩
  have hlt := s.lengthField_lt
  have hfield := ntohs_htons (show s.lengthField < 65536 by omega)
  change UInt8.ofNat (s.lengthField / 256) = 0xFF at h0
  change UInt8.ofNat s.lengthField = 0xFF at h1
  rw [h0, h1] at hfield
  change 255 * 256 + 255 = s.lengthField at hfield
  omega

/-- The CRC is put together again from its bytes. -/
theorem crc_word (c : UInt32) :
    (c >>> 24).toUInt8.toUInt32 <<< 24 ||| (c >>> 16).toUInt8.toUInt32 <<< 16 |||
      (c >>> 8).toUInt8.toUInt32 <<< 8 ||| c.toUInt8.toUInt32 = c := by
  rw [← UInt32.toBitVec_inj]
  apply BitVec.eq_of_getLsbD_eq
  intro i hi
  simp only [UInt32.toBitVec_or, UInt32.toBitVec_shiftLeft, UInt8.toBitVec_toUInt32,
    UInt32.toBitVec_toUInt8, UInt32.toBitVec_shiftRight, BitVec.getLsbD_or, BitVec.shiftLeft_eq',
    BitVec.ushiftRight_eq', BitVec.getLsbD_setWidth, BitVec.getLsbD_shiftLeft,
    BitVec.getLsbD_ushiftRight, hi]
  change (decide True && !decide (i < 24) && (decide (i - 24 < 32) &&
        (decide (i - 24 < 8) && c.toBitVec.getLsbD (24 + (i - 24)))) ||
      decide True && !decide (i < 16) && (decide (i - 16 < 32) &&
        (decide (i - 16 < 8) && c.toBitVec.getLsbD (16 + (i - 16)))) ||
      decide True && !decide (i < 8) && (decide (i - 8 < 32) &&
        (decide (i - 8 < 8) && c.toBitVec.getLsbD (8 + (i - 8)))) ||
      decide True && (decide (i < 8) && c.toBitVec.getLsbD i)) = c.toBitVec.getLsbD i
  by_cases h8 : i < 8
  · simp [h8, show i < 16 by omega, show i < 24 by omega]
  by_cases h16 : i < 16
  · simp [h8, h16, show 8 + (i - 8) = i by omega, show i < 24 by omega, show i - 8 < 8 by omega,
      show i - 8 < 32 by omega]
  by_cases h24 : i < 24
  · simp [h8, h16, h24, show 16 + (i - 16) = i by omega, show i - 16 < 8 by omega,
      show i - 16 < 32 by omega, show ¬i - 8 < 8 by omega]
  · simp [h8, h16, h24, show 24 + (i - 24) = i by omega, show i - 24 < 8 by omega,
      show i - 24 < 32 by omega, show ¬i - 8 < 8 by omega, show ¬i - 16 < 8 by omega]

end Sndu

end Dvb.Ule

import NeumoDrivers.Lib.BitFields
import NeumoDrivers.Stid135.ChipLookup

/-! Writing and reading fields.

    `ChipSetField` works on the chip, `ChipSetFieldImage` on the image that is then written; both put the
    value under the mask, and the two read functions take it out again. For a signed field that is not
    positive the first adds the number of bits where the second adds `1 << bits`. -/

namespace Stid135
open Faults

variable {σ : Type}

/-! ### Values -/

/-- A mask of `bits` bits from the bit `pos` on. -/
def contiguousMask (pos bits : ℕ) : ℕ := (2 ^ bits - 1) * 2 ^ pos

/-- A field id that has the mask, and a sign or not. -/
def fieldOf (sign : Bool) (pos bits : ℕ) : UInt32 :=
  UInt32.ofNat (contiguousMask pos bits) + if sign then 0x100 else 0

/-- The field id has a contiguous mask that is not zero. -/
def HasMask (fieldId : UInt32) (sign : Bool) (pos bits : ℕ) : Prop :=
  0 < bits ∧ pos + bits ≤ 8 ∧ fieldId &&& 0x1FF = fieldOf sign pos bits

/-- The value fits in the field. -/
def Representable (sign : Bool) (bits : ℕ) (value : Int32) : Prop :=
  if sign then -2 ^ (bits - 1) ≤ value.toInt ∧ value.toInt < 2 ^ (bits - 1)
  else 0 ≤ value.toInt ∧ value.toInt < 2 ^ bits

/-- For each mask: the values of a field that is not signed come out again. -/
theorem unsigned_table : ∀ bits < 9, ∀ pos < 9 - bits, 0 < bits → ∀ n < 2 ^ bits,
    fieldValue (fieldOf false pos bits) (maskedImageValue (fieldOf false pos bits) (Int32.ofNat n)) =
      Int32.ofNat n := by
  decide +kernel

theorem signed_table : ∀ bits < 9, ∀ pos < 9 - bits, 0 < bits → ∀ n < 2 ^ (bits - 1),
    fieldValue (fieldOf true pos bits) (maskedImageValue (fieldOf true pos bits) (Int32.ofNat n)) =
      Int32.ofNat n ∧
    fieldValue (fieldOf true pos bits)
      (maskedImageValue (fieldOf true pos bits) (-Int32.ofNat (n + 1))) = -Int32.ofNat (n + 1) := by
  decide +kernel

/-- Adding the number of bits gives another value. -/
theorem differ_table : ∀ bits < 9, ∀ pos < 9 - bits, 0 < bits → ∀ n < 2 ^ (bits - 1) + 1,
    maskedValue (fieldOf true pos bits) (-Int32.ofNat n) ≠
      maskedImageValue (fieldOf true pos bits) (-Int32.ofNat n) := by
  decide +kernel

variable {fieldId : UInt32} {sign : Bool} {pos bits : ℕ} {value : Int32}

theorem HasMask.getFieldMask_eq (h : HasMask fieldId sign pos bits) :
    getFieldMask fieldId = getFieldMask (fieldOf sign pos bits) := by
  rw [getFieldMask, getFieldMask, ← h.2.2, UInt32.and_assoc]
  rfl

theorem HasMask.getFieldSign_eq (h : HasMask fieldId sign pos bits) :
    getFieldSign fieldId = getFieldSign (fieldOf sign pos bits) := by
  rw [getFieldSign, getFieldSign, ← h.2.2, UInt32.shiftRight_and, UInt32.and_assoc]
  rfl

theorem HasMask.fieldValue_eq (h : HasMask fieldId sign pos bits) (value : Int32) :
    fieldValue fieldId value = fieldValue (fieldOf sign pos bits) value := by
  simp only [fieldValue, h.getFieldMask_eq, h.getFieldSign_eq]

theorem HasMask.maskedImageValue_eq (h : HasMask fieldId sign pos bits) (value : Int32) :
    maskedImageValue fieldId value = maskedImageValue (fieldOf sign pos bits) value := by
  simp only [maskedImageValue, h.getFieldMask_eq, h.getFieldSign_eq]

theorem HasMask.maskedValue_eq (h : HasMask fieldId sign pos bits) (value : Int32) :
    maskedValue fieldId value = maskedValue (fieldOf sign pos bits) value := by
  simp only [maskedValue, h.getFieldMask_eq, h.getFieldSign_eq]

theorem eq_ofNat (h : 0 ≤ value.toInt) : ∃ n : ℕ, (n : ℤ) = value.toInt ∧ value = Int32.ofNat n := by
  refine ⟨value.toInt.toNat, Int.toNat_of_nonneg h, ?_⟩
  rw [← Int32.ofInt_eq_ofNat, Int.toNat_of_nonneg h, Int32.ofInt_toInt]

theorem eq_neg_ofNat (h : value.toInt ≤ 0) :
    ∃ n : ℕ, (n : ℤ) = -value.toInt ∧ value = -Int32.ofNat n := by
  refine ⟨(-value.toInt).toNat, Int.toNat_of_nonneg (by omega), ?_⟩
  rw [← Int32.ofInt_eq_ofNat, Int.toNat_of_nonneg (by omega), Int32.neg_ofInt, Int.neg_neg,
    Int32.ofInt_toInt]

/-- What the image path puts under the mask comes out again. -/
theorem fieldValue_maskedImageValue (h : HasMask fieldId sign pos bits)
    (hv : Representable sign bits value) :
    fieldValue fieldId (maskedImageValue fieldId value) = value := by
  rw [h.fieldValue_eq, h.maskedImageValue_eq]
  obtain ⟨hbits, hpos, -⟩ := h
  cases sign with
  | false =>
    obtain ⟨n, hn, rfl⟩ := eq_ofNat hv.1
    have hlt : n < 2 ^ bits := by
      have hlt := hv.2
      rw [← hn] at hlt
      exact_mod_cast hlt
    exact unsigned_table bits (by omega) pos (by omega) hbits n hlt
  | true =>
    obtain ⟨hlow, hhigh⟩ := hv
    by_cases hneg : value.toInt < 0
    · obtain ⟨n, hn, rfl⟩ := eq_neg_ofNat (Int.le_of_lt hneg)
      obtain ⟨m, rfl⟩ : ∃ m, n = m + 1 := ⟨n - 1, by omega⟩
      have hlt : m < 2 ^ (bits - 1) := by
        have hle : ((m + 1 : ℕ) : ℤ) ≤ (2 ^ (bits - 1) : ℕ) := by
          rw [hn]
          push_cast
          omega
        have hle := Int.ofNat_le.mp hle
        omega
      exact (signed_table bits (by omega) pos (by omega) hbits m hlt).2
    · obtain ⟨n, hn, rfl⟩ := eq_ofNat (Int.not_lt.mp hneg)
      have hlt : n < 2 ^ (bits - 1) := by
        rw [← hn] at hhigh
        exact_mod_cast hhigh
      exact (signed_table bits (by omega) pos (by omega) hbits n hlt).1

/-- The two write functions put the same under the mask unless the field is signed and the value is not
    positive. -/
theorem maskedValue_eq_iff (h : HasMask fieldId sign pos bits) (hv : Representable sign bits value) :
    maskedValue fieldId value = maskedImageValue fieldId value ↔ sign = false ∨ 0 < value := by
  have hsign : getFieldSign fieldId = 1 ↔ sign = true := by
    rw [h.getFieldSign_eq]
    obtain ⟨hbits, hpos, -⟩ := h
    have htable : ∀ bits < 9, ∀ pos < 9 - bits, 0 < bits →
        getFieldSign (fieldOf true pos bits) = 1 ∧ getFieldSign (fieldOf false pos bits) ≠ 1 := by
      decide
    obtain ⟨htrue, hfalse⟩ := htable bits (by omega) pos (by omega) hbits
    cases sign <;> simp [htrue, hfalse]
  constructor
  · intro heq
    by_contra hnot
    rw [not_or] at hnot
    have hsigned : sign = true := by simpa using hnot.1
    subst hsigned
    have hle : value.toInt ≤ 0 := by
      have hle := Int32.not_lt.mp hnot.2
      rwa [Int32.le_iff_toInt_le] at hle
    rw [h.maskedValue_eq, h.maskedImageValue_eq] at heq
    obtain ⟨hbits, hpos, -⟩ := h
    obtain ⟨n, hn, rfl⟩ := eq_neg_ofNat hle
    have hlt : n < 2 ^ (bits - 1) + 1 := by
      have hle : ((n : ℕ) : ℤ) ≤ (2 ^ (bits - 1) : ℕ) := by
        have hlow := hv.1
        rw [hn]
        push_cast
        omega
      have hle := Int.ofNat_le.mp hle
      omega
    exact differ_table bits (by omega) pos (by omega) hbits n hlt heq
  · rintro (rfl | hpos)
    · have hunsigned : getFieldSign fieldId ≠ 1 := fun h1 => Bool.false_ne_true (hsign.mp h1)
      simp only [maskedValue, maskedImageValue, if_neg hunsigned]
    · simp only [maskedValue, maskedImageValue, if_pos hpos]

/-! ### Words -/

/-- The register value behind a write: the field, and what is beside it. -/
def fieldWord (fieldId : UInt32) (old : UInt32) (masked : Int32) : UInt32 :=
  (old &&& ~~~(fieldId &&& 0xFF)) + masked.toUInt32

/-- A value that was put under the mask. -/
def UnderMask (fieldId : UInt32) (masked : Int32) : Prop :=
  masked.toUInt32 &&& (fieldId &&& 0xFF) = masked.toUInt32

variable {masked masked' : Int32} {old : UInt32}

theorem underMask_and (fieldId : UInt32) (value : Int32) :
    UnderMask fieldId (getFieldMask fieldId &&& value) := by
  rw [UnderMask, Int32.toUInt32_and, getFieldMask, UInt32.toUInt32_toInt32,
    UInt32.and_comm (fieldId &&& 0xFF), UInt32.and_assoc, UInt32.and_self]

theorem underMask_maskedValue (fieldId : UInt32) (value : Int32) :
    UnderMask fieldId (maskedValue fieldId value) := underMask_and _ _

theorem underMask_maskedImageValue (fieldId : UInt32) (value : Int32) :
    UnderMask fieldId (maskedImageValue fieldId value) := underMask_and _ _

theorem fieldWord_and (h : UnderMask fieldId masked) :
    fieldWord fieldId old masked &&& (fieldId &&& 0xFF) = masked.toUInt32 := by
  rw [← UInt32.toBitVec_inj]
  exact BitFields.beside_and (congrArg UInt32.toBitVec h)

theorem fieldWord_and_not (h : UnderMask fieldId masked) :
    fieldWord fieldId old masked &&& ~~~(fieldId &&& 0xFF) = old &&& ~~~(fieldId &&& 0xFF) := by
  rw [← UInt32.toBitVec_inj]
  exact BitFields.beside_and_not (congrArg UInt32.toBitVec h)

/-- A byte stays a byte. -/
theorem fieldWord_byte (h : UnderMask fieldId masked) (b : UInt8) :
    (fieldWord fieldId b.toUInt32 masked).toUInt8.toUInt32 = fieldWord fieldId b.toUInt32 masked := by
  have hbyte : ∀ x : UInt32, x.toUInt8.toUInt32 = x &&& 0xFF := by
    intro x
    rw [← UInt32.toNat_inj, UInt8.toNat_toUInt32, UInt32.toNat_toUInt8, UInt32.toNat_and,
      show UInt32.toNat 0xFF = 2 ^ 8 - 1 from rfl, Nat.and_two_pow_sub_one_eq_mod]
  have hold : b.toUInt32 &&& 0xFF = b.toUInt32 := by rw [← hbyte, UInt8.toUInt8_toUInt32]
  have hmask : fieldId &&& 0xFF &&& 0xFF = fieldId &&& 0xFF := by
    rw [UInt32.and_assoc, UInt32.and_self]
  rw [hbyte, ← UInt32.toBitVec_inj]
  exact BitFields.beside_low (congrArg UInt32.toBitVec h) (congrArg UInt32.toBitVec hold)
    (congrArg UInt32.toBitVec hmask)

theorem fieldValue_fieldWord (h : UnderMask fieldId masked) :
    fieldValue fieldId (fieldWord fieldId old masked).toInt32 = fieldValue fieldId masked := by
  have hword : (fieldWord fieldId old masked).toInt32 &&& getFieldMask fieldId = masked := by
    rw [getFieldMask, ← UInt32.toInt32_and, fieldWord_and h]
    rfl
  have hmasked : masked &&& getFieldMask fieldId = masked := by
    have hmask := congrArg UInt32.toInt32 h
    rwa [UInt32.toInt32_and, Int32.toInt32_toUInt32] at hmask
  simp only [fieldValue, hword, hmasked]

/-- Different values under the mask make different words. -/
theorem fieldWord_injective (h : UnderMask fieldId masked) (h' : UnderMask fieldId masked')
    (heq : fieldWord fieldId old masked = fieldWord fieldId old masked') : masked = masked' := by
  have hand := congrArg (· &&& (fieldId &&& 0xFF)) heq
  change _ &&& (fieldId &&& 0xFF) = _ &&& (fieldId &&& 0xFF) at hand
  rw [fieldWord_and h, fieldWord_and h'] at hand
  rw [← Int32.toInt32_toUInt32 masked, hand, Int32.toInt32_toUInt32]

/-! ### The chip behind the bus -/

/-- The sub address of a register, in front of a read. -/
def readMessage (mode : ChipMode) (wrStart : UInt32) (a : UInt16) : List UInt8 :=
  match mode with
  | .i2c2stbus => [(wrStart + 1).toUInt8, msb a, lsb a]
  | .subadr16 => [msb a, lsb a]
  | _ => [lsb a]

/-- A write of one register of 8 bits. -/
def writeMessage (mode : ChipMode) (wrStart : UInt32) (a : UInt16) (v : UInt8) : List UInt8 :=
  match mode with
  | .i2c2stbus => [wrStart.toUInt8, msb a, lsb a, v]
  | .subadr16 => [msb a, lsb a, v]
  | _ => [lsb a, v]

/-- A chip that acknowledges every transfer, and holds a byte at each sub address. -/
structure Device (bus : I2cHost σ) (mode : ChipMode) (wrStart : UInt32) where
  held : σ → UInt16 → UInt8
  addressed : mode ≠ .nosubadr ∧ mode ≠ .nosubadrRd
  selects : ∀ s a, (bus.write s (readMessage mode wrStart a)).1 = true
  reads : ∀ s a, ∃ bytes, (bus.read (bus.write s (readMessage mode wrStart a)).2 1).1 = some bytes ∧
    bytes 0 = held s a
  reads_held : ∀ s a, held (bus.read (bus.write s (readMessage mode wrStart a)).2 1).2 a = held s a
  writes : ∀ s a v, (bus.write s (writeMessage mode wrStart a v)).1 = true
  writes_held : ∀ s a v, held (bus.write s (writeMessage mode wrStart a v)).2 a = v

namespace ChipInfo

variable {bus : I2cHost σ} {mode : ChipMode} {wrStart : UInt32} {c : ChipInfo σ} {k : ℕ} {a : UInt16}
  {value : UInt32} {byte : UInt8}

/-- The register at `a` is the `k`-th of the map; what its image and the chip hold of it. -/
structure Shows (dev : Device bus mode wrStart) (k : ℕ) (a : UInt16) (value : UInt32) (byte : UInt8)
    (c : ChipInfo σ) : Prop where
  ready : c.Ready
  chipMode : c.chipMode = mode
  wrStart : c.wrStart = wrStart
  error : c.error = noError
  image : ∃ modified, c.regMapImage[k]? = some ⟨a, value, .size8, modified⟩
  held : dev.held c.i2cHost a = byte

variable {dev : Device bus mode wrStart}

theorem Shows.search (h : Shows dev k a value byte c) : dichotomySearch c.regMapImage a = k := by
  obtain ⟨modified, hk⟩ := h.image
  exact dichotomySearch_at h.ready.sorted hk

theorem Shows.lt (h : Shows dev k a value byte c) : k < c.regMapImage.length := by
  obtain ⟨modified, hk⟩ := h.image
  exact (List.getElem?_eq_some_iff.mp hk).1

theorem Shows.registersAt (h : Shows dev k a value byte c) :
    ∃ modified, c.registersAt k 1 = .ok [⟨a, value, .size8, modified⟩] := by
  obtain ⟨modified, hk⟩ := h.image
  obtain ⟨hlt, hget⟩ := List.getElem?_eq_some_iff.mp hk
  refine ⟨modified, ?_⟩
  rw [registersAt_eq (n := 1) (Nat.succ_le_of_lt hlt)]
  rw [show Int.toNat 1 = 1 from rfl, List.drop_eq_getElem_cons hlt, hget]
  rfl

theorem modifyAll_one (hlt : k < c.regMapImage.length) (f : ℕ → ChipRegister → ChipRegister) :
    c.modifyAll k 1 f = .ok { c with regMapImage := c.regMapImage.modify k (f 0) } := by
  rw [modifyAll_eq f (n := 1) (Nat.succ_le_of_lt hlt)]
  refine congrArg (fun image => Except.ok { c with regMapImage := image }) ?_
  rw [show Int.toNat 1 = 0 + 1 from rfl, ← modifyRange_succ, modifyRange_zero]
  rfl

theorem getElem?_modify_self {image : List ChipRegister} {r : ChipRegister} (h : image[k]? = some r)
    (g : ChipRegister → ChipRegister) : (image.modify k g)[k]? = some (g r) := by
  rw [List.getElem?_modify, h]
  simp

theorem Shows.check_one (h : Shows dev k a value byte c) :
    (0 : ℤ) ≤ k ∧ s32 ((k : ℤ) + 1 - 1) < c.nbRegs := by
  have hlen := h.ready.length_le
  have hlt := h.lt
  refine ⟨Int.natCast_nonneg k, ?_⟩
  rw [Int.add_sub_cancel, s32_eq (by omega) (by omega)]
  exact Int.ofNat_lt.mpr hlt

theorem toUInt8_msbFirst (modified : UInt32) :
    (ChipRegister.mk a value .size8 modified).msbFirst = [value.toUInt8] := by
  rw [ChipRegister.msbFirst, show (List.range RegSize.size8.bytes).reverse = [0] from rfl]
  simp

theorem toUInt8_lsbFirst (modified : UInt32) :
    (ChipRegister.mk a value .size8 modified).lsbFirst = [value.toUInt8] := by
  rw [ChipRegister.lsbFirst, show List.range RegSize.size8.bytes = [0] from rfl]
  simp

/-- The register's entry of the image is changed. -/
theorem Shows.modify (h : Shows dev k a value byte c) {g : ChipRegister → ChipRegister}
    {value' : UInt32} (haddr : ∀ r, (g r).addr = r.addr)
    (hg : ∀ modified, ∃ modified', g ⟨a, value, .size8, modified⟩ = ⟨a, value', .size8, modified'⟩) :
    Shows dev k a value' byte { c with regMapImage := c.regMapImage.modify k g } := by
  obtain ⟨modified, hk⟩ := h.image
  obtain ⟨modified', hgk⟩ := hg modified
  exact ⟨(h.ready.kept_image (addresses_modify haddr c.regMapImage k)).ready, h.chipMode, h.wrStart,
    h.error, ⟨modified', by rw [getElem?_modify_self hk, hgk]⟩, h.held⟩

theorem Shows.looked (h : Shows dev k a value byte c) :
    Shows dev k a value byte { c with lastRegIndex := k } :=
  ⟨⟨h.ready.sorted, Int.natCast_nonneg k, Int.ofNat_lt.mpr h.lt, h.ready.active⟩, h.chipMode, h.wrStart,
    h.error, h.image, h.held⟩

/-- The data of a write is the message of the register. -/
theorem Shows.writeData (h : Shows dev k a value byte c) :
    ∃ c', c.writeData k 1 = .ok (c', writeMessage mode wrStart a value.toUInt8) ∧
      Shows dev k a value byte c' := by
  obtain ⟨modified, hk⟩ := h.image
  have hmode := h.chipMode
  have hstart := h.wrStart
  rw [ChipInfo.writeData, ok_bind (regAt_eq hk)]
  cases hm : c.chipMode with
  | i2c2stbus =>
    have hstamp := h.modify (g := fun r => { r with modified := c.modified + UInt32.ofNat (0 + 1) })
      (fun _ => rfl) fun modified => ⟨_, rfl⟩
    obtain ⟨modified', hregs⟩ := hstamp.registersAt
    refine ⟨{ c with
      regMapImage := c.regMapImage.modify k fun r =>
        { r with modified := c.modified + UInt32.ofNat (0 + 1) }
      modified := c.modified + UInt32.ofNat (Int.toNat 1) }, ?_,
      ⟨hstamp.ready.sorted, hstamp.ready.first, hstamp.ready.last, hstamp.ready.active⟩, hmode,
      hstart, h.error, hstamp.image, h.held⟩
    dsimp only
    rw [ok_bind (modifyAll_one h.lt _), ok_bind hregs, if_neg (lt_irrefl (1 : ℤ)), ← hmode, hm,
      writeMessage, List.flatMap_singleton, toUInt8_msbFirst, hstart]
    rfl
  | subadr16 =>
    obtain ⟨modified', hregs⟩ := h.registersAt
    refine ⟨c, ?_, h⟩
    dsimp only
    rw [ok_bind hregs, ← hmode, hm, writeMessage, List.flatMap_singleton, toUInt8_lsbFirst]
    rfl
  | subadr8 =>
    obtain ⟨modified', hregs⟩ := h.registersAt
    refine ⟨c, ?_, h⟩
    dsimp only
    rw [ok_bind hregs, ← hmode, hm, writeMessage, List.flatMap_singleton, toUInt8_lsbFirst]
    · rfl
    · rintro ⟨⟩
    · rintro ⟨⟩
  | nosubadr => exact absurd (hmode.symm.trans hm) dev.addressed.1
  | nosubadrRd => exact absurd (hmode.symm.trans hm) dev.addressed.2

theorem length_writeMessage (mode : ChipMode) (wrStart : UInt32) (a : UInt16) (v : UInt8) :
    ¬100 < (writeMessage mode wrStart a v).length := by
  cases mode <;> simp [writeMessage]

theorem Shows.setRegisters (h : Shows dev k a value byte c) :
    ∃ c', c.setRegisters bus a 1 = .ok (c', noError) ∧ Shows dev k a value value.toUInt8 c' := by
  obtain ⟨c', hdata, hshows⟩ := h.looked.writeData
  refine ⟨{ c' with
    i2cHost := (bus.write c'.i2cHost (writeMessage mode wrStart a value.toUInt8)).2
    error := noError }, ?_, ?_⟩
  · rw [ChipInfo.setRegisters, if_pos h.error, ok_bind (getRegisterIndex_eq h.ready a), h.search]
    dsimp only
    rw [if_pos h.looked.check_one, ok_bind hdata]
    dsimp only
    rw [if_neg (length_writeMessage _ _ _ _), dev.writes, if_pos rfl, hshows.error]
    rfl
  · exact ⟨⟨hshows.ready.sorted, hshows.ready.first, hshows.ready.last, hshows.ready.active⟩,
      hshows.chipMode, hshows.wrStart, rfl, hshows.image, dev.writes_held _ _ _⟩

theorem Shows.subAddress (h : Shows dev k a value byte c) :
    c.subAddress a 1 = some (readMessage mode wrStart a) := by
  rw [ChipInfo.subAddress, h.chipMode, h.wrStart]
  cases hm : mode with
  | i2c2stbus => rfl
  | subadr16 => rfl
  | subadr8 => rfl
  | nosubadr => exact absurd hm dev.addressed.1
  | nosubadrRd => exact absurd hm dev.addressed.2

theorem readValue_size8 (mode : ChipMode) (data : ℕ → UInt8) :
    readValue mode data 0 .size8 = (data 0).toUInt32 := by
  rw [readValue, show List.range RegSize.size8.bytes = [0] from rfl]
  simp

theorem readBytes_eq {n : ℕ} {bytes : ℕ → UInt8} (hread : (bus.read c.i2cHost n).1 = some bytes)
    (herror : c.error = noError) :
    c.readBytes bus n = ({ c with i2cHost := (bus.read c.i2cHost n).2 }, bytes) := by
  rw [readBytes]
  dsimp only
  rw [hread, Option.isSome_some, if_pos rfl, if_pos herror]
  rfl

/-- The transfers of a read of the register. -/
theorem Shows.readData (h : Shows dev k a value byte c) :
    ∃ c' data, c.readData bus k 1 = .ok (c', data) ∧ data 0 = byte ∧
      Shows dev k a value byte c' := by
  obtain ⟨modified, hk⟩ := h.image
  obtain ⟨bytes, hbytes, hbyte⟩ := dev.reads c.i2cHost a
  have hsub : c.writeSubAddress bus a 1 =
      { c with i2cHost := (bus.write c.i2cHost (readMessage mode wrStart a)).2 } := by
    rw [writeSubAddress, h.subAddress]
    dsimp only
    rw [dev.selects, if_pos rfl]
  have hsel : Shows dev k a value (dev.held (bus.write c.i2cHost (readMessage mode wrStart a)).2 a)
      { c with i2cHost := (bus.write c.i2cHost (readMessage mode wrStart a)).2 } :=
    ⟨⟨h.ready.sorted, h.ready.first, h.ready.last, h.ready.active⟩, h.chipMode, h.wrStart, h.error,
      h.image, rfl⟩
  obtain ⟨modified', hregs⟩ := hsel.registersAt
  have hread := readBytes_eq
    (c := { c with i2cHost := (bus.write c.i2cHost (readMessage mode wrStart a)).2 }) hbytes h.error
  refine ⟨{ c with i2cHost := (bus.read (bus.write c.i2cHost (readMessage mode wrStart a)).2 1).2 },
    fun k => if k < 1 then bytes k else (readMessage mode wrStart a).getD k 0, ?_, ?_, ?_⟩
  · rw [ChipInfo.readData, ok_bind (regAt_eq hk)]
    dsimp only
    rw [h.subAddress, hsub, ok_bind hregs, Option.getD_some,
      show nbdata [⟨a, value, .size8, modified'⟩] = 1 from rfl, if_neg (by decide), hread]
    rfl
  · exact (if_pos Nat.one_pos).trans (hbyte.trans h.held)
  · exact ⟨⟨h.ready.sorted, h.ready.first, h.ready.last, h.ready.active⟩, h.chipMode, h.wrStart, h.error,
      h.image, (dev.reads_held _ _).trans h.held⟩

theorem Shows.getRegisters (h : Shows dev k a value byte c) :
    ∃ c', c.getRegisters bus a 1 = .ok (c', noError) ∧ Shows dev k a byte.toUInt32 byte c' := by
  obtain ⟨c', data, hdata, hbyte, hshows⟩ := h.looked.readData
  have hsized := hshows.modify (g := fun r => if r.size = .unset then { r with size := .size8 } else r)
    (fun r => by split <;> rfl) fun modified =>
      ⟨modified, if_neg fun hunset => nomatch hunset⟩
  have hvalue := @Shows.modify _ _ _ _ _ _ _ _ _ _ hsized (fun r => { r with value := readValue c'.chipMode data 0 r.size })
    byte.toUInt32 (fun _ => rfl) fun modified => ⟨modified, by
      dsimp only
      rw [readValue_size8, hbyte]⟩
  refine ⟨_, ?_, hvalue⟩
  rw [ChipInfo.getRegisters, if_pos h.error, if_pos h.ready.active, if_pos (by decide),
    ok_bind (getRegisterIndex_eq h.ready a), h.search]
  dsimp only
  rw [if_pos h.looked.check_one, ok_bind hdata]
  dsimp only
  rw [ok_bind (modifyAt_eq hshows.lt _), ok_bind (modifyAll_one hsized.lt _), hshows.error]
  rfl

theorem Shows.noError (h : Shows dev k a value byte c) : { c with error := noError } = c := by
  rw [← h.error]

theorem Shows.setOneRegister (h : Shows dev k a value byte c) (data : UInt32) :
    ∃ c', c.setOneRegister bus a data = .ok (c', Stid135.noError) ∧
      Shows dev k a data data.toUInt8 c' := by
  have hwritten := @Shows.modify _ _ _ _ _ _ _ _ _ _ h.looked (fun r => { r with value := data }) data
    (fun _ => rfl) fun modified => ⟨modified, rfl⟩
  obtain ⟨c', hset, hshows⟩ := hwritten.setRegisters
  refine ⟨c', ?_, hshows⟩
  rw [ChipInfo.setOneRegister, h.noError]
  dsimp only
  rw [if_pos h.ready.active, ok_bind (getRegisterIndex_eq h.ready a), h.search]
  dsimp only
  rw [if_pos ⟨Int.natCast_nonneg k, Int.ofNat_lt.mpr h.lt⟩,
    ok_bind (modifyAt_eq (c := { c with lastRegIndex := k }) h.lt _), hset]

theorem Shows.getOneRegister (h : Shows dev k a value byte c) :
    ∃ c', c.getOneRegister bus a = .ok (c', Stid135.noError, byte.toUInt32) ∧
      Shows dev k a byte.toUInt32 byte c' := by
  obtain ⟨c', hget, hshows⟩ := h.looked.getRegisters
  obtain ⟨modified, hk⟩ := hshows.image
  refine ⟨c', ?_, hshows⟩
  rw [ChipInfo.getOneRegister, h.noError]
  dsimp only
  rw [if_pos h.ready.active, ok_bind (getRegisterIndex_eq h.ready a), h.search]
  dsimp only
  rw [if_pos ⟨Int.natCast_nonneg k, Int.ofNat_lt.mpr h.lt⟩,
    if_pos (h.chipMode ▸ dev.addressed.1), ok_bind hget]
  dsimp only
  rw [if_pos rfl, ok_bind (regAt_eq hk), hshows.error]
  rfl

/-! ### Fields of the register -/

variable {fieldId : UInt32}

theorem Shows.setFieldImage (h : Shows dev k (regAddress fieldId) value byte c) (v : Int32) :
    ∃ c', c.setFieldImage fieldId v = .ok (c', Stid135.noError) ∧
      Shows dev k (regAddress fieldId) (fieldWord fieldId value (maskedImageValue fieldId v)) byte c' := by
  have hwritten := @Shows.modify _ _ _ _ _ _ _ _ _ _ h.looked (fun r => { r with
    value := (r.value &&& (~~~getFieldMask fieldId).toUInt32) + (maskedImageValue fieldId v).toUInt32 })
    (fieldWord fieldId value (maskedImageValue fieldId v)) (fun _ => rfl)
    fun modified => ⟨modified, rfl⟩
  refine ⟨_, ?_, hwritten⟩
  rw [ChipInfo.setFieldImage, if_pos h.error, if_pos h.ready.active,
    ok_bind (getFieldIndex_eq h.ready fieldId), h.search]
  dsimp only
  rw [if_pos ⟨Int.natCast_nonneg k, Int.ofNat_lt.mpr h.lt⟩,
    ok_bind (modifyAt_eq (c := { c with lastRegIndex := k }) h.lt _), h.error]
  rfl

theorem Shows.setField (h : Shows dev k (regAddress fieldId) value byte c) (v : Int32) :
    ∃ c', c.setField bus fieldId v = .ok (c', Stid135.noError) ∧
      Shows dev k (regAddress fieldId) (fieldWord fieldId byte.toUInt32 (maskedValue fieldId v))
        (fieldWord fieldId byte.toUInt32 (maskedValue fieldId v)).toUInt8 c' := by
  obtain ⟨c', hget, hshows⟩ := h.getOneRegister
  obtain ⟨c'', hset, hshows'⟩ := hshows.setOneRegister
    (fieldWord fieldId byte.toUInt32 (maskedValue fieldId v)).toUInt8.toUInt32
  rw [UInt8.toUInt8_toUInt32, fieldWord_byte (underMask_maskedValue _ _)] at hshows'
  refine ⟨c'', ?_, hshows'⟩
  rw [ChipInfo.setField, if_pos h.error, if_pos h.ready.active, ok_bind hget]
  dsimp only
  rw [hshows.noError]
  refine (ok_bind hset _).trans ?_
  have hor : c''.error ||| Stid135.noError = Stid135.noError := by
    rw [hshows'.error]
    decide
  dsimp only
  rw [hor, hshows'.noError]
  rfl

theorem Shows.getFieldImage (h : Shows dev k (regAddress fieldId) value byte c) :
    ∃ c', c.getFieldImage fieldId = .ok (c', fieldValue fieldId value.toInt32) := by
  obtain ⟨modified, hk⟩ := h.image
  refine ⟨{ c with lastRegIndex := k }, ?_⟩
  rw [ChipInfo.getFieldImage, if_pos h.ready.active, ok_bind (getFieldIndex_eq h.ready fieldId), h.search]
  dsimp only
  rw [if_pos ⟨Int.natCast_nonneg k, Int.ofNat_lt.mpr h.lt⟩,
    ok_bind (regAt_eq (c := { c with lastRegIndex := k }) hk), if_pos h.error]
  rfl

theorem Shows.getField (h : Shows dev k (regAddress fieldId) value byte c) :
    ∃ c', c.getField bus fieldId =
      .ok (c', Stid135.noError, fieldValue fieldId byte.toUInt32.toInt32) := by
  obtain ⟨c', hget, -⟩ := h.getOneRegister
  refine ⟨c', ?_⟩
  rw [ChipInfo.getField, if_pos h.error, if_pos h.ready.active, regAddress_eq, ok_bind hget]
  rfl

/-- A write of a field between two states of the chip: the rest of the register is unchanged, and both
    read functions return the value. -/
structure FieldWritten (dev : Device bus mode wrStart) (fieldId : UInt32) (v : Int32)
    (c c' : ChipInfo σ) : Prop where
  beside : (dev.held c'.i2cHost (regAddress fieldId)).toUInt32 &&& ~~~(fieldId &&& 0xFF) =
    (dev.held c.i2cHost (regAddress fieldId)).toUInt32 &&& ~~~(fieldId &&& 0xFF)
  read : ∃ c'', c'.getField bus fieldId = .ok (c'', Stid135.noError, v)
  readImage : ∃ c'', c'.getFieldImage fieldId = .ok (c'', v)

/-- `ChipSetField` does what a refresh of the image, `ChipSetFieldImage` and `ChipSetRegisters` do, and
    the field is written. -/
def PathsAgree (dev : Device bus mode wrStart) (fieldId : UInt32) (v : Int32) (c : ChipInfo σ) : Prop :=
  ∃ c₁ c₂ c₃ c₄, c.setField bus fieldId v = .ok (c₁, Stid135.noError) ∧
    c.getRegisters bus (regAddress fieldId) 1 = .ok (c₂, Stid135.noError) ∧
    c₂.setFieldImage fieldId v = .ok (c₃, Stid135.noError) ∧
    c₃.setRegisters bus (regAddress fieldId) 1 = .ok (c₄, Stid135.noError) ∧
    dev.held c₁.i2cHost (regAddress fieldId) = dev.held c₄.i2cHost (regAddress fieldId) ∧
    FieldWritten dev fieldId v c c₁ ∧ FieldWritten dev fieldId v c c₄

variable {sign : Bool} {pos bits : ℕ} {v : Int32}

/-- A word with the right value under the mask. -/
theorem Shows.fieldWritten {c c' : ChipInfo σ} (h : Shows dev k (regAddress fieldId) value byte c)
    {word : UInt32} (hword : word = fieldWord fieldId byte.toUInt32 (maskedImageValue fieldId v))
    (h' : Shows dev k (regAddress fieldId) word word.toUInt8 c')
    (hmask : HasMask fieldId sign pos bits) (hv : Representable sign bits v) :
    FieldWritten dev fieldId v c c' := by
  have hunder := underMask_maskedImageValue fieldId v
  have hbyte : word.toUInt8.toUInt32 = word := by rw [hword, fieldWord_byte hunder]
  have hvalue : fieldValue fieldId word.toInt32 = v := by
    rw [hword, fieldValue_fieldWord hunder, fieldValue_maskedImageValue hmask hv]
  obtain ⟨c'', hread⟩ := h'.getField
  obtain ⟨d, himage⟩ := h'.getFieldImage
  rw [hbyte, hvalue] at hread
  rw [hvalue] at himage
  refine ⟨?_, ⟨c'', hread⟩, ⟨d, himage⟩⟩
  rw [h'.held, h.held, hbyte, hword, fieldWord_and_not hunder]

/-- The paths agree exactly when they put the same under the mask. -/
theorem pathsAgree_iff_masked (dev : Device bus mode wrStart) (c : ChipInfo σ) (hready : c.Ready)
    (hmode : c.chipMode = mode) (hstart : c.wrStart = wrStart) (herror : c.error = Stid135.noError)
    {r : ChipRegister} (hr : r ∈ c.regMapImage) (haddr : r.addr = regAddress fieldId)
    (hsize : r.size = .size8) (hmask : HasMask fieldId sign pos bits)
    (hv : Representable sign bits v) :
    PathsAgree dev fieldId v c ↔ maskedValue fieldId v = maskedImageValue fieldId v := by
  obtain ⟨k, hk⟩ := List.mem_iff_getElem?.mp hr
  have h : Shows dev k (regAddress fieldId) r.value (dev.held c.i2cHost (regAddress fieldId)) c :=
    ⟨hready, hmode, hstart, herror, ⟨r.modified, by rw [hk, ← haddr, ← hsize]⟩, rfl⟩
  obtain ⟨c₁, hset, h₁⟩ := h.setField v
  obtain ⟨c₂, hget, h₂⟩ := h.getRegisters
  obtain ⟨c₃, himage, h₃⟩ := h₂.setFieldImage v
  obtain ⟨c₄, hwrite, h₄⟩ := h₃.setRegisters
  have hunder := underMask_maskedValue fieldId v
  have hunder' := underMask_maskedImageValue fieldId v
  have hheld : dev.held c₁.i2cHost (regAddress fieldId) = dev.held c₄.i2cHost (regAddress fieldId) ↔
      maskedValue fieldId v = maskedImageValue fieldId v := by
    rw [h₁.held, h₄.held]
    refine ⟨fun heq => ?_, fun heq => by rw [heq]⟩
    have hwords := congrArg UInt8.toUInt32 heq
    rw [fieldWord_byte hunder, fieldWord_byte hunder'] at hwords
    exact fieldWord_injective hunder hunder' hwords
  constructor
  · rintro ⟨d₁, d₂, d₃, d₄, hd₁, hd₂, hd₃, hd₄, hagree, -⟩
    rw [hset] at hd₁
    rw [hget] at hd₂
    cases hd₁
    cases hd₂
    rw [himage] at hd₃
    cases hd₃
    rw [hwrite] at hd₄
    cases hd₄
    exact hheld.mp hagree
  · intro heq
    exact ⟨c₁, c₂, c₃, c₄, hset, hget, himage, hwrite, hheld.mpr heq,
      h.fieldWritten (by rw [heq]) h₁ hmask hv, h.fieldWritten rfl h₄ hmask hv⟩

/-- The paths agree exactly when the field is not signed or the value is positive. -/
theorem field_paths_agree_iff (dev : Device bus mode wrStart) (c : ChipInfo σ) (hready : c.Ready)
    (hmode : c.chipMode = mode) (hstart : c.wrStart = wrStart) (herror : c.error = Stid135.noError)
    {r : ChipRegister} (hr : r ∈ c.regMapImage) (haddr : r.addr = regAddress fieldId)
    (hsize : r.size = .size8) (hmask : HasMask fieldId sign pos bits)
    (hv : Representable sign bits v) :
    PathsAgree dev fieldId v c ↔ sign = false ∨ 0 < v := by
  rw [pathsAgree_iff_masked dev c hready hmode hstart herror hr haddr hsize hmask hv,
    maskedValue_eq_iff hmask hv]

/-! ### A chip that holds a byte at each sub address -/

/-- What the chip holds, and the sub address that a read begins at. -/
def byteBus : I2cHost ((UInt16 → UInt8) × UInt16) where
  write s message :=
    match message with
    | [_, hi, lo] => (true, s.1, (hi.toUInt16 <<< 8) ||| lo.toUInt16)
    | [_, hi, lo, v] =>
      (true, fun a => if a = (hi.toUInt16 <<< 8) ||| lo.toUInt16 then v else s.1 a, s.2)
    | _ => (true, s)
  read s _ := (some fun i => s.1 (s.2 + UInt16.ofNat i), s)

theorem msb_lsb (a : UInt16) : ((msb a).toUInt16 <<< 8) ||| (lsb a).toUInt16 = a := by
  rw [← UInt16.toBitVec_inj]
  ext i hi
  simp only [msb, lsb, UInt16.toBitVec_or, UInt16.toBitVec_shiftLeft, UInt8.toBitVec_toUInt16,
    UInt16.toBitVec_toUInt8, UInt16.toBitVec_shiftRight]
  by_cases hlow : i < 8
  · simp [BitVec.getElem_setWidth, hlow, hi]
  · have hadd : 8 + (i - 8) = i := by omega
    simp [BitVec.getElem_setWidth, hlow, hadd, hi, show i - 8 < 8 by omega]

/-- The chip answers as its driver expects. -/
def byteDevice (wrStart : UInt32) : Device byteBus .i2c2stbus wrStart where
  held s := s.1
  addressed := by decide
  selects _ _ := rfl
  reads s a := ⟨_, rfl, by
    dsimp only [readMessage, byteBus]
    rw [msb_lsb]
    exact congrArg s.1 (UInt16.add_zero a)⟩
  reads_held _ _ := rfl
  writes _ _ _ := rfl
  writes_held s a v := by
    dsimp only [writeMessage, byteBus]
    rw [msb_lsb, if_pos rfl]

/-- A register of 8 bits at 0x100 that holds 0x5A. -/
def oneRegister : ChipInfo ((UInt16 → UInt8) × UInt16) where
  i2cHost := (fun _ => 0x5A, 0)
  regMapImage := [⟨0x100, 0, .size8, 0⟩]
  error := Stid135.noError
  chipMode := .i2c2stbus
  wrStart := 2
  rdStart := 0x100
  rdSize := 1
  lastRegIndex := 0
  abort := false
  modified := 0

theorem oneRegister_ready : oneRegister.Ready := ⟨by decide, by decide, by decide, rfl⟩

/-- 3 in the signed field with the mask 0x0F. -/
theorem oneRegister_agrees : PathsAgree (byteDevice 2) 0x0100010F 3 oneRegister :=
  (@field_paths_agree_iff _ _ _ _ _ true 0 4 _ (byteDevice 2) oneRegister
    oneRegister_ready rfl rfl rfl (⟨0x100, 0, .size8, 0⟩) (List.mem_singleton_self _) (by decide)
    rfl ⟨by decide, by decide, by decide⟩ ⟨by decide, by decide⟩).mpr (.inr (by decide))

/-- -3 in that field: the chip gets 0x51, and the image 0x5D. -/
theorem oneRegister_disagrees : ¬PathsAgree (byteDevice 2) 0x0100010F (-3) oneRegister := by
  rw [@pathsAgree_iff_masked _ _ _ _ _ true 0 4 _ (byteDevice 2) oneRegister
    oneRegister_ready rfl rfl rfl (⟨0x100, 0, .size8, 0⟩) (List.mem_singleton_self _) (by decide)
    rfl ⟨by decide, by decide, by decide⟩ ⟨by decide, by decide⟩]
  decide

end ChipInfo

end Stid135

import Mathlib

/-! The registers of a chip (`chip.c`).

    The driver keeps an image of the registers in the order of their addresses, and remembers the index
    that the last search ended with. A transfer names its first register by the address; the image is
    what is written, and what is read goes there. -/

namespace Stid135

/-- An access outside the image, or outside a buffer on the stack. -/
inductive Fault where | image | data
  deriving DecidableEq

inductive ChipMode where | i2c2stbus | subadr16 | subadr8 | nosubadr | nosubadrRd
  deriving DecidableEq

inductive RegSize where | unset | size8 | size16 | size24 | size32 | size64
  deriving DecidableEq

def RegSize.bytes : RegSize → ℕ
  | unset => 0
  | size8 => 1
  | size16 => 2
  | size24 => 3
  | size32 => 4
  | size64 => 8

/-- `STCHIP_Register_t` -/
structure ChipRegister where
  addr : UInt16
  value : UInt32
  size : RegSize
  modified : UInt32
  deriving DecidableEq

/-- `I2cReadWrite`: whether a write was acknowledged, and the bytes that were read, if the read was. -/
structure I2cHost (σ : Type) where
  write : σ → List UInt8 → Bool × σ
  read : σ → ℕ → Option (ℕ → UInt8) × σ

/-- `STCHIP_Info_t`, and the counter of the registers that were written. -/
structure ChipInfo (σ : Type) where
  i2cHost : σ
  regMapImage : List ChipRegister
  error : UInt32
  chipMode : ChipMode
  wrStart : UInt32
  rdStart : UInt16
  rdSize : UInt32
  lastRegIndex : ℤ
  abort : Bool
  modified : UInt32

def noError : UInt32 := 0

def invalidRegId : UInt32 := 0x2

def invalidFieldId : UInt32 := 0x4

def i2cNoAck : UInt32 := 0x10

def i2cBurst : UInt32 := 0x20

/-- An `s32`. -/
def s32 (x : ℤ) : ℤ := (Int32.ofInt x).toInt

def msb (addr : UInt16) : UInt8 := (addr >>> 8).toUInt8

def lsb (addr : UInt16) : UInt8 := addr.toUInt8

/-- The bytes of a register in a transfer, the most significant one first. -/
def ChipRegister.msbFirst (r : ChipRegister) : List UInt8 :=
  (List.range r.size.bytes).reverse.map fun j => (r.value >>> (8 * UInt32.ofNat j)).toUInt8

/-- The least significant byte first. -/
def ChipRegister.lsbFirst (r : ChipRegister) : List UInt8 :=
  (List.range r.size.bytes).map fun j => (r.value >>> (8 * UInt32.ofNat j)).toUInt8

/-- The register with a given address; `bsearch` is right when the addresses are in order. -/
def dichotomySearch (tab : List ChipRegister) (addr : UInt16) : ℤ :=
  match tab.findIdx? fun r => r.addr = addr with
  | some i => i
  | none => -1

namespace ChipInfo

variable {σ : Type}

def nbRegs (c : ChipInfo σ) : ℤ := c.regMapImage.length

/-- `pRegMapImage[i]` -/
def regAt (c : ChipInfo σ) (i : ℤ) : Except Fault ChipRegister :=
  if 0 ≤ i then
    match c.regMapImage[i.toNat]? with
    | some r => .ok r
    | none => .error .image
  else .error .image

/-- Write to `pRegMapImage[i]`. -/
def modifyAt (c : ChipInfo σ) (i : ℤ) (f : ChipRegister → ChipRegister) :
    Except Fault (ChipInfo σ) :=
  if 0 ≤ i ∧ i < c.nbRegs then .ok { c with regMapImage := c.regMapImage.modify i.toNat f }
  else .error .image

/-- `ChipGetRegisterIndex` -/
def getRegisterIndex (c : ChipInfo σ) (regId : UInt16) : Except Fault (ChipInfo σ × ℤ) :=
  if c.abort = false then do
    let r ← c.regAt c.lastRegIndex
    if r.addr = regId then pure (c, c.lastRegIndex)
    else
      let regIndex := dichotomySearch c.regMapImage regId
      pure ({ c with lastRegIndex := regIndex }, regIndex)
  else pure (c, 0)

/-- The address in a field id. -/
def regAddress (fieldId : UInt32) : UInt16 := ((fieldId >>> 16) &&& 0xFFFF).toUInt16

/-- `ChipGetFieldIndex` -/
def getFieldIndex (c : ChipInfo σ) (fieldId : UInt32) : Except Fault (ChipInfo σ × ℤ) :=
  if c.abort = false then do
    let r ← c.regAt c.lastRegIndex
    if r.addr = regAddress fieldId then pure (c, c.lastRegIndex)
    else
      let regIndex := dichotomySearch c.regMapImage (regAddress fieldId)
      pure ({ c with lastRegIndex := regIndex }, regIndex)
  else pure (c, 0)

/-- The register's loop of a transfer. -/
def registersAt (c : ChipInfo σ) (firstRegIndex n : ℤ) : Except Fault (List ChipRegister) :=
  (List.range n.toNat).mapM fun (i : ℕ) => c.regAt (firstRegIndex + i)

/-- The register's loop of a transfer, where it writes to the image. -/
def modifyAll (c : ChipInfo σ) (firstRegIndex n : ℤ) (f : ℕ → ChipRegister → ChipRegister) :
    Except Fault (ChipInfo σ) :=
  (List.range n.toNat).foldlM (fun (c : ChipInfo σ) (i : ℕ) => c.modifyAt (firstRegIndex + i) (f i)) c

/-- What `ChipSetRegisters` puts into its data buffer. -/
def writeData (c : ChipInfo σ) (firstRegIndex n : ℤ) : Except Fault (ChipInfo σ × List UInt8) := do
  let first ← c.regAt firstRegIndex
  match c.chipMode with
  | .i2c2stbus =>
    let start := if 1 < n then c.wrStart + 8 else c.wrStart
    let c ← c.modifyAll firstRegIndex n fun i r => { r with modified := c.modified + UInt32.ofNat (i + 1) }
    let rs ← c.registersAt firstRegIndex n
    pure ({ c with modified := c.modified + UInt32.ofNat n.toNat },
      [start.toUInt8, msb first.addr, lsb first.addr] ++ rs.flatMap ChipRegister.msbFirst)
  | .subadr16 =>
    let rs ← c.registersAt firstRegIndex n
    pure (c, [msb first.addr, lsb first.addr] ++ rs.flatMap ChipRegister.lsbFirst)
  | .subadr8 | .nosubadrRd =>
    let rs ← c.registersAt firstRegIndex n
    pure (c, [lsb first.addr] ++ rs.flatMap ChipRegister.lsbFirst)
  | .nosubadr =>
    let rs ← c.registersAt firstRegIndex n
    pure (c, rs.flatMap ChipRegister.lsbFirst)

/-- `ChipSetRegisters` -/
def setRegisters (bus : I2cHost σ) (c : ChipInfo σ) (firstReg : UInt16) (n : ℤ) :
    Except Fault (ChipInfo σ × UInt32) :=
  if c.error = noError then do
    let (c, firstRegIndex) ← c.getRegisterIndex firstReg
    if 0 ≤ firstRegIndex ∧ s32 (firstRegIndex + n - 1) < c.nbRegs then do
      let (c, data) ← c.writeData firstRegIndex n
      if 100 < data.length then throw .data
      else
        let (ack, host) := bus.write c.i2cHost data
        let c := { c with i2cHost := host, error := if ack then c.error else i2cNoAck }
        pure (c, c.error)
    else pure ({ c with error := invalidRegId }, invalidRegId)
  else pure (c, c.error)

/-- The sub address that `ChipGetRegisters` writes before it reads, if the mode has one. -/
def subAddress (c : ChipInfo σ) (addr : UInt16) (n : ℤ) : Option (List UInt8) :=
  match c.chipMode with
  | .i2c2stbus =>
    let start := if 1 < n then c.wrStart + 1 + 8 else c.wrStart + 1
    some [start.toUInt8, msb addr, lsb addr]
  | .subadr16 => some [msb addr, lsb addr]
  | .subadr8 => some [lsb addr]
  | .nosubadr | .nosubadrRd => none

/-- The value of register `i` of a transfer, from the data that was read. -/
def readValue (mode : ChipMode) (data : ℕ → UInt8) (i : ℕ) (size : RegSize) : UInt32 :=
  (List.range size.bytes).foldl (fun value j =>
    if mode = .i2c2stbus then (value <<< 8) + (data (i + j)).toUInt32
    else value + ((data (i + j)).toUInt32 <<< (8 * UInt32.ofNat j))) 0

/-- Write the sub address. -/
def writeSubAddress (bus : I2cHost σ) (c : ChipInfo σ) (addr : UInt16) (n : ℤ) : ChipInfo σ :=
  match c.subAddress addr n with
  | some header =>
    let (ack, host) := bus.write c.i2cHost header
    { c with i2cHost := host, error := if ack then c.error else i2cNoAck }
  | none => c

/-- Sum register's size; the sum is kept in a `u8`. -/
def nbdata (rs : List ChipRegister) : ℕ := (rs.map fun r => r.size.bytes).sum % 256

/-- Read the data; behind a transfer that failed the buffer is all ones. -/
def readBytes (bus : I2cHost σ) (c : ChipInfo σ) (nbdata : ℕ) : ChipInfo σ × (ℕ → UInt8) :=
  let (bytes, host) := bus.read c.i2cHost nbdata
  let c := { c with i2cHost := host, error := if bytes.isSome then c.error else i2cNoAck }
  (c, if c.error = noError then bytes.getD (fun _ => 0) else fun _ => 0xFF)

/-- The transfers of `ChipGetRegisters`, and the data buffer behind them. -/
def readData (bus : I2cHost σ) (c : ChipInfo σ) (firstRegIndex n : ℤ) :
    Except Fault (ChipInfo σ × (ℕ → UInt8)) := do
  let first ← c.regAt firstRegIndex
  let header := (c.subAddress first.addr n).getD []
  let c := c.writeSubAddress bus first.addr n
  let rs ← c.registersAt firstRegIndex n
  if 100 < nbdata rs then throw .data
  else
    let (c, bytes) := c.readBytes bus (nbdata rs)
    pure (c, fun k => if k < nbdata rs then bytes k else header.getD k 0)

/-- `ChipGetRegisters` -/
def getRegisters (bus : I2cHost σ) (c : ChipInfo σ) (firstReg : UInt16) (n : ℤ) :
    Except Fault (ChipInfo σ × UInt32) :=
  if c.error = noError then
    if c.abort = false then
      if n < 70 then do
        let (c, firstRegIndex) ← c.getRegisterIndex firstReg
        if 0 ≤ firstRegIndex ∧ s32 (firstRegIndex + n - 1) < c.nbRegs then do
          let (c, data) ← c.readData bus firstRegIndex n
          let c ← c.modifyAt firstRegIndex fun r =>
            if r.size = .unset then { r with size := .size8 } else r
          let c ← c.modifyAll firstRegIndex n fun i r =>
            { r with value := readValue c.chipMode data i r.size }
          pure (c, c.error)
        else pure ({ c with error := invalidRegId }, invalidRegId)
      else pure ({ c with error := i2cBurst }, i2cBurst)
    else pure (c, c.error)
  else pure (c, c.error)

/-- `ChipSetOneRegister` -/
def setOneRegister (bus : I2cHost σ) (c : ChipInfo σ) (regAddr : UInt16) (data : UInt32) :
    Except Fault (ChipInfo σ × UInt32) :=
  let c := { c with error := noError }
  if c.abort = false then do
    let (c, regIndex) ← c.getRegisterIndex regAddr
    if 0 ≤ regIndex ∧ regIndex < c.nbRegs then do
      let c ← c.modifyAt regIndex fun r => { r with value := data }
      c.setRegisters bus regAddr 1
    else pure ({ c with error := invalidRegId }, invalidRegId)
  else pure (c, c.error)

/-- `ChipGetOneRegister`: the error, and the data. -/
def getOneRegister (bus : I2cHost σ) (c : ChipInfo σ) (regAddr : UInt16) :
    Except Fault (ChipInfo σ × UInt32 × UInt32) :=
  let c := { c with error := noError }
  if c.abort = false then do
    let (c, regIndex) ← c.getRegisterIndex regAddr
    if 0 ≤ regIndex ∧ regIndex < c.nbRegs then do
      let (c, error) ←
        if c.chipMode ≠ .nosubadr then c.getRegisters bus regAddr 1
        else c.getRegisters bus c.rdStart (s32 c.rdSize.toNat)
      if error = noError then do
        let r ← c.regAt regIndex
        pure (c, c.error, r.value)
      else pure (c, c.error, 0xFFFFFFFF)
    else pure ({ c with error := invalidRegId }, invalidRegId, 0xFFFFFFFF)
  else pure (c, c.error, 0xFFFFFFFF)

end ChipInfo

/-! ### Fields -/

/-- A field id is the address of the register, the sign and the mask. -/
def getFieldMask (fieldId : UInt32) : Int32 := (fieldId &&& 0xFF).toInt32

def getFieldSign (fieldId : UInt32) : Int32 := ((fieldId >>> 8) &&& 0x01).toInt32

/-- The loop of `ChipGetFieldPosition`, if it is entered with `i` and the bit at `i - 1`. -/
def fieldPositionLoop (mask : UInt8) : ℕ → ℕ → Bool → ℕ
  | 0, i, _ => i
  | fuel + 1, i, position =>
    if position = false ∧ i < 8 then
      fieldPositionLoop mask fuel (i + 1) (mask.toBitVec.getLsbD i)
    else i

/-- `ChipGetFieldPosition` -/
def getFieldPosition (mask : UInt8) : ℕ := fieldPositionLoop mask 8 0 false - 1

/-- The loop of `ChipGetFieldBits`. -/
def fieldBitsLoop (bits : Int32) : ℕ → ℕ → ℕ
  | 0, i => i
  | fuel + 1, i =>
    if 0 < bits >>> Int32.ofNat i ∧ i < 8 then fieldBitsLoop bits fuel (i + 1) else i

/-- `ChipGetFieldBits` -/
def getFieldBits (mask : Int32) (position : ℕ) : ℕ :=
  fieldBitsLoop (mask >>> Int32.ofNat position) 8 0

/-- Compute signed fieldval, shift and mask value, as `ChipSetFieldImage` does. -/
def maskedImageValue (fieldId : UInt32) (value : Int32) : Int32 :=
  let sign := getFieldSign fieldId
  let mask := getFieldMask fieldId
  let pos := getFieldPosition mask.toUInt32.toUInt8
  let bits := getFieldBits mask pos
  let value :=
    if sign = 1 then if 0 < value then value else value + (1 <<< Int32.ofNat bits) else value
  mask &&& (value <<< Int32.ofNat pos)

/-- As `ChipSetField` does; it adds the number of bits. -/
def maskedValue (fieldId : UInt32) (value : Int32) : Int32 :=
  let sign := getFieldSign fieldId
  let mask := getFieldMask fieldId
  let pos := getFieldPosition mask.toUInt32.toUInt8
  let bits := getFieldBits mask pos
  let value := if sign = 1 then if 0 < value then value else value + Int32.ofNat bits else value
  mask &&& (value <<< Int32.ofNat pos)

/-- Extract field and compute signed value, as `ChipGetFieldImage` and `ChipGetField` do. -/
def fieldValue (fieldId : UInt32) (value : Int32) : Int32 :=
  let sign := getFieldSign fieldId
  let mask := getFieldMask fieldId
  let pos := getFieldPosition mask.toUInt32.toUInt8
  let bits := getFieldBits mask pos
  let value := (value &&& mask) >>> Int32.ofNat pos
  if sign = 1 ∧ value &&& (1 <<< (Int32.ofNat bits - 1)) ≠ 0 then value - (1 <<< Int32.ofNat bits)
  else value

namespace ChipInfo

variable {σ : Type}

/-- `ChipSetFieldImage` -/
def setFieldImage (c : ChipInfo σ) (fieldId : UInt32) (value : Int32) :
    Except Fault (ChipInfo σ × UInt32) :=
  if c.error = noError then
    if c.abort = false then do
      let (c, regIndex) ← c.getFieldIndex fieldId
      if 0 ≤ regIndex ∧ regIndex < c.nbRegs then do
        let c ← c.modifyAt regIndex fun r =>
          { r with
            value := (r.value &&& (~~~getFieldMask fieldId).toUInt32) +
              (maskedImageValue fieldId value).toUInt32 }
        pure (c, c.error)
      else pure ({ c with error := invalidFieldId }, invalidFieldId)
    else pure (c, c.error)
  else pure (c, c.error)

/-- `ChipSetField` -/
def setField (bus : I2cHost σ) (c : ChipInfo σ) (fieldId : UInt32) (value : Int32) :
    Except Fault (ChipInfo σ × UInt32) :=
  if c.error = noError then
    if c.abort = false then do
      let (c, error, regValue) ← c.getOneRegister bus (regAddress fieldId)
      let c := { c with error := error }
      let regValue := (regValue.toInt32 &&& ~~~getFieldMask fieldId) + maskedValue fieldId value
      -- the operands of `|=` are not sequenced; the left one is taken behind the call
      let (c, error) ← c.setOneRegister bus (regAddress fieldId) regValue.toUInt32.toUInt8.toUInt32
      let c := { c with error := c.error ||| error }
      pure (c, c.error)
    else pure (c, c.error)
  else pure ({ c with error := invalidFieldId }, invalidFieldId)

/-- `ChipGetFieldImage` -/
def getFieldImage (c : ChipInfo σ) (fieldId : UInt32) : Except Fault (ChipInfo σ × Int32) :=
  if c.abort = false then do
    let (c, regIndex) ← c.getFieldIndex fieldId
    if 0 ≤ regIndex ∧ regIndex < c.nbRegs then do
      let r ← c.regAt regIndex
      let value : Int32 := if c.error = noError then r.value.toInt32 else 0xFF
      pure (c, fieldValue fieldId value)
    else pure ({ c with error := invalidFieldId }, 0xFF)
  else pure (c, 0xFF)

/-- `ChipGetField`: the error, and the value. -/
def getField (bus : I2cHost σ) (c : ChipInfo σ) (fieldId : UInt32) :
    Except Fault (ChipInfo σ × UInt32 × Int32) :=
  if c.error = noError then
    if c.abort = false then do
      let (c, error, value) ← c.getOneRegister bus (fieldId >>> 16).toUInt16
      pure (c, error, fieldValue fieldId value.toInt32)
    else pure (c, noError, 0xFF)
  else pure (c, noError, 0xFF)

end ChipInfo

end Stid135

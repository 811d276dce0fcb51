import NeumoDrivers.Dvb.CaSlots
import NeumoDrivers.Dvb.RingUser
import NeumoDrivers.Lib.Loop

/-! The link to a CAM (`neumo-dvb-ca-en50221.c`).

    Link packets go through the control registers of the CAM, or through a callback of the card. At
    link initialisation the CAM announces the size of its buffer, which bounds the packets from then
    on. `dvb_ca_en50221_io_write` cuts a message into fragments of that size. What has been sent is
    collected in `sent`. -/

namespace Dvb
open Loop

def eagain : ℤ := 11
def etimedout : ℤ := 110

def ctrlifData : ℕ := 0
def ctrlifCommand : ℕ := 1
def ctrlifStatus : ℕ := 1
def ctrlifSizeLow : ℕ := 2
def ctrlifSizeHigh : ℕ := 3

def cmdregHc : ℕ := 1
def cmdregSw : ℕ := 2
def cmdregSr : ℕ := 4
/-- `IRQEN` -/
def irqen : ℕ := 0x80

def statusregRe : ℕ := 1
def statusregWe : ℕ := 2
def statusregFr : ℕ := 0x40
def statusregDa : ℕ := 0x80

/-- The callbacks of the card for a slot, the state of the slot as others leave it, and the clock: for
    how many more passes a loop with a time limit goes on. All that is not the driver's own is in `σ`. -/
structure CamBus (σ : Type) where
  readCamControl : σ → ℕ → ℤ × σ
  writeCamControl : σ → ℕ → ℕ → ℤ × σ
  writeData : Option (σ → List UInt8 → ℤ × σ)
  slotState : σ → SlotState
  setSlotState : σ → SlotState → σ
  tries : σ → ℕ

variable {σ : Type}

/-- A bit of a register that has been read. -/
def Flags (status : ℤ) (bits : ℕ) : Prop := status.toNat &&& bits ≠ 0

instance (status : ℤ) (bits : ℕ) : Decidable (Flags status bits) :=
  inferInstanceAs (Decidable (_ ≠ _))

namespace CamBus
variable (bus : CamBus σ)

/-- The loop of `dvb_ca_en50221_wait_if_status`, with `tries` passes left behind this one. -/
def waitLoop (waitfor : ℕ) : ℕ → σ → ℤ × σ
  | tries, s =>
    let (res, s) := bus.readCamControl s ctrlifStatus
    if res < 0 then (-eio, s)
    else if Flags res waitfor then (0, s)
    else
      match tries with
      | 0 => (-etimedout, s)
      | tries + 1 => waitLoop waitfor tries s

/-- `dvb_ca_en50221_wait_if_status` -/
def waitIfStatus (waitfor : ℕ) (s : σ) : ℤ × σ := bus.waitLoop waitfor (bus.tries s) s

/-! ### Reading -/

/-- Fill the buffer. -/
def readBytes : ℕ → σ → Except ℤ (List UInt8) × σ
  | 0, s => (.ok [], s)
  | n + 1, s =>
    let (status, s) := bus.readCamControl s ctrlifData
    if status < 0 then (.error status, s)
    else
      match readBytes n s with
      | (.error e, s) => (.error e, s)
      | (.ok bytes, s) => (.ok (UInt8.ofNat status.toNat :: bytes), s)

/-- The way of `dvb_ca_en50221_read_data` through the control registers: to the buffer of a caller who
    has room for `ecount`, or to the receive buffer. Without data the status is 0. -/
def readControl (ebuf : Option ℕ) (linkBufSize : ℕ) (s : σ) : Except ℤ (List UInt8) × σ :=
  let (status, s) := bus.readCamControl s ctrlifStatus
  if status < 0 then (.error status, s)
  else if ¬Flags status statusregDa then (.error 0, s)
  else
    let (high, s) := bus.readCamControl s ctrlifSizeHigh
    if high < 0 then (.error high, s)
    else
      let (low, s) := bus.readCamControl s ctrlifSizeLow
      if low < 0 then (.error low, s)
      else
        let bytesRead := high.toNat <<< 8 ||| low.toNat
        if ebuf = none ∧ (bytesRead > linkBufSize ∨ bytesRead < 2) then
          (.error (-eio), bus.setSlotState s .linkInit)
        else if ∃ ecount ∈ ebuf, bytesRead > ecount then (.error (-eio), s)
        else
          match bus.readBytes bytesRead s with
          | (.error e, s) => (.error e, s)
          | (.ok bytes, s) =>
            -- check for read error (RE should now be 0)
            let (status, s) := bus.readCamControl s ctrlifStatus
            if status < 0 then (.error status, s)
            else if Flags status statusregRe then (.error (-eio), bus.setSlotState s .linkInit)
            else (.ok bytes, s)

/-! ### Writing -/

/-- Send the buffer: the first status that is not 0. -/
def sendBytes : List UInt8 → σ → ℤ × σ
  | [], s => (0, s)
  | b :: buf, s =>
    let (status, s) := bus.writeCamControl s ctrlifData b.toNat
    if status ≠ 0 then (status, s) else sendBytes buf s

/-- `dvb_ca_en50221_write_data` from the size of the packet on, up to `exit`. -/
def writeSized (buf : List UInt8) (s : σ) : ℤ × σ :=
  let (status, s) := bus.writeCamControl s ctrlifSizeHigh (buf.length >>> 8)
  if status ≠ 0 then (status, s)
  else
    let (status, s) := bus.writeCamControl s ctrlifSizeLow (buf.length &&& 0xFF)
    if status ≠ 0 then (status, s)
    else
      let (status, s) := bus.sendBytes buf s
      if status ≠ 0 then (status, s)
      else
        -- check for write error (WE should now be 0)
        let (status, s) := bus.readCamControl s ctrlifStatus
        if status < 0 then (status, s)
        else if Flags status statusregWe then (-eio, bus.setSlotState s .linkInit)
        else (buf.length, s)

/-- From the HC bit on, up to `exit`. -/
def writeOpened (sizeWriteFlag : ℕ) (buf : List UInt8) (s : σ) : ℤ × σ :=
  let (status, s) := bus.writeCamControl s ctrlifCommand (irqen ||| cmdregHc ||| sizeWriteFlag)
  if status ≠ 0 then (status, s)
  else
    -- check if interface is still free
    let (status, s) := bus.readCamControl s ctrlifStatus
    if status < 0 then (status, s)
    else if ¬Flags status statusregFr then (-eagain, s)
    else
      let (status, s) := bus.readCamControl s ctrlifStatus
      if status < 0 then (status, s)
      else if Flags status (statusregDa ||| statusregRe) then (-eagain, s)
      else bus.writeSized buf s

/-- The way of `dvb_ca_en50221_write_data` through the control registers. -/
def writeControl (sizeWriteFlag : ℕ) (buf : List UInt8) (s : σ) : ℤ × σ :=
  let (status, s) := bus.readCamControl s ctrlifStatus
  if status < 0 then (status, s)
  else if Flags status (statusregDa ||| statusregRe) then (-eagain, s)
  else
    let (status, s) := bus.writeOpened sizeWriteFlag buf s
    (status, (bus.writeCamControl s ctrlifCommand irqen).2)

/-- `dvb_ca_en50221_write_data` -/
def dvbCaEn50221WriteData (linkBufSize : ℕ) (sizeWriteFlag : ℕ) (buf : List UInt8) (s : σ) : ℤ × σ :=
  if buf.length > linkBufSize then (-einval, s)
  else
    match bus.writeData with
    | some writeData =>
      if bus.slotState s ≠ .linkInit then writeData s buf
      else bus.writeControl sizeWriteFlag buf s
    | none => bus.writeControl sizeWriteFlag buf s

/-! ### Link initialisation -/

/-- The end of `dvb_ca_en50221_link_init`: write the buffer size to the CAM. -/
def tellSize (bufSize : ℕ) (s : σ) : ℤ × σ :=
  let (ret, s) := bus.writeCamControl s ctrlifCommand (irqen ||| cmdregSw)
  if ret ≠ 0 then (ret, s)
  else
    let (ret, s) := bus.waitIfStatus statusregFr s
    if ret ≠ 0 then (ret, s)
    else
      let buf := [UInt8.ofNat (bufSize >>> 8), UInt8.ofNat (bufSize &&& 0xFF)]
      let (ret, s) := bus.dvbCaEn50221WriteData bufSize cmdregSw buf s
      if ret ≠ 2 then (-eio, s) else bus.writeCamControl s ctrlifCommand irqen

/-- `dvb_ca_en50221_link_init`, in the state `LINKINIT`: what it returns, and `link_buf_size`. -/
def dvbCaEn50221LinkInit (s : σ) : ℤ × ℕ × σ :=
  let (ret, s) := bus.writeCamControl s ctrlifCommand (irqen ||| cmdregSr)
  if ret ≠ 0 then (ret, 2, s)
  else
    let (ret, s) := bus.waitIfStatus statusregDa s
    if ret ≠ 0 then (ret, 2, s)
    else
      match bus.readControl (some 2) 2 s with
      | (.ok [b₀, b₁], s) =>
        let (ret, s) := bus.writeCamControl s ctrlifCommand irqen
        if ret ≠ 0 then (ret, 2, s)
        else
          -- the minimum of our buffer and the CAM's buffer size
          let bufSize := min (b₀.toNat * 256 + b₁.toNat) hostLinkBufSize
          let (ret, s) := bus.tellSize bufSize s
          (ret, bufSize, s)
      | (_, s) => (-eio, 2, s)

/-! ### Messages -/

/-- Try to send a fragment until the time limit. -/
def sendFragment (linkBufSize : ℕ) (fragbuf : List UInt8) : ℕ → σ → Except ℤ Unit × σ
  | 0, s => (.error (-eio), s)
  | tries + 1, s =>
    if bus.slotState s ≠ .running then (.error (-eio), s)
    else
      let (status, s) := bus.dvbCaEn50221WriteData linkBufSize 0 fragbuf s
      if status = fragbuf.length then (.ok (), s)
      else if status ≠ -eagain then (.error status, s)
      else sendFragment linkBufSize fragbuf tries s

end CamBus

/-- How far `dvb_ca_en50221_io_write` has got. -/
structure CamWrite (σ : Type) where
  fragpos : ℕ
  sent : List (List UInt8)
  link : σ

namespace CamBus
variable (bus : CamBus σ)

/-- A pass of the loop of `dvb_ca_en50221_io_write`. The user's buffer is `payload` behind its two
    bytes of header, of which `good` can be read. It has less than 2^31 bytes. -/
def writeBody (linkBufSize good : ℕ) (connectionId : UInt8) (payload : List UInt8)
    (w : CamWrite σ) : Next (CamWrite σ) (ℤ × CamWrite σ) :=
  if w.fragpos < payload.length then
    if linkBufSize < 2 then .exit (payload.length + 2, w)
    else
      let fraglen := min (min (linkBufSize - 2) (hostLinkBufSize - 2)) (payload.length - w.fragpos)
      let piece := (payload.drop w.fragpos).take fraglen
      let more : UInt8 := if w.fragpos + fraglen < payload.length then 0x80 else 0
      if (copyFromUser (good - 2 - w.fragpos) piece).2 ≠ 0 then .exit (-efault, w)
      else
        let fragbuf := connectionId :: more :: piece
        match bus.sendFragment linkBufSize fragbuf (bus.tries w.link) w.link with
        | (.error status, s) => .exit (status, { w with link := s })
        | (.ok (), s) => .again ⟨w.fragpos + fraglen, w.sent ++ [fragbuf], s⟩
  else .exit (payload.length + 2, w)

end CamBus

/-- `struct dvb_ca_private`: the slots, their `link_buf_size` and the way to their CAMs. -/
structure CamPrivate (σ : Type) where
  slotCount : ℕ
  linkBufSize : ℕ → ℕ
  bus : ℕ → CamBus σ

/-- `dvb_ca_en50221_io_write`, if its loop ends within `passes` passes. Of `buf` the first `good` bytes
    can be read. -/
def CamPrivate.dvbCaEn50221IoWrite (ca : CamPrivate σ) (passes : ℕ) (buf : List UInt8) (good : ℕ)
    (s : σ) : Option (ℤ × CamWrite σ) :=
  match buf with
  | slot :: connectionId :: payload =>
    if good < 2 then some (-efault, ⟨0, [], s⟩)
    else if slot.toNat ≥ ca.slotCount then some (-einval, ⟨0, [], s⟩)
    else if (ca.bus slot.toNat).slotState s ≠ .running then some (-einval, ⟨0, [], s⟩)
    else
      run ((ca.bus slot.toNat).writeBody (ca.linkBufSize slot.toNat) good connectionId payload) passes
        ⟨0, [], s⟩
  | _ => some (-einval, ⟨0, [], s⟩)

/-! ### What is sent -/

/-- The more-bit of a link packet. -/
def MoreFollows (packet : List UInt8) : Prop := packet.getD 1 0 &&& 0x80 ≠ 0

/-- The packets are the fragments of a message: each has a payload and is not larger than negotiated,
    the payloads follow one another, and only the last packet says that no more follow. -/
structure Fragments (linkBufSize : ℕ) (connectionId : UInt8) (payload : List UInt8)
    (sent : List (List UInt8)) : Prop where
  sized : ∀ packet ∈ sent, 3 ≤ packet.length ∧ packet.length ≤ linkBufSize
  connection : ∀ packet ∈ sent, packet.head? = some connectionId
  whole : (sent.map (List.drop 2)).flatten = payload
  last : ∃ before packet, sent = before ++ [packet] ∧ ¬MoreFollows packet ∧
    ∀ packet ∈ before, MoreFollows packet

/-- The callbacks of the card return 0 or an error, and the whole length or an error. -/
structure CamBus.Proper (bus : CamBus σ) : Prop where
  write : ∀ s address value, (bus.writeCamControl s address value).1 ≤ 0
  data : ∀ writeData ∈ bus.writeData, ∀ s buf,
    (writeData s buf).1 = (buf.length : ℤ) ∨ (writeData s buf).1 < 0

variable {bus : CamBus σ} {s s' : σ} {buf payload fragbuf : List UInt8} {ca : CamPrivate σ}
  {status ret : ℤ} {linkBufSize good size flag tries : ℕ} {connectionId : UInt8} {w : CamWrite σ}

namespace CamBus
variable (h : bus.Proper)
include h

theorem Proper.lt (hne : (bus.writeCamControl s size flag).1 ≠ 0) :
    (bus.writeCamControl s size flag).1 < 0 :=
  lt_of_le_of_ne (h.write s size flag) hne

theorem sendBytes_le (buf : List UInt8) (s : σ) : (bus.sendBytes buf s).1 ≤ 0 := by
  induction buf generalizing s with
  | nil => exact le_refl 0
  | cons b buf ih =>
    rw [sendBytes]
    dsimp only
    split
    · exact h.write _ _ _
    · exact ih _

theorem writeSized_cases (buf : List UInt8) (s : σ) :
    (bus.writeSized buf s).1 = buf.length ∨ (bus.writeSized buf s).1 < 0 := by
  rw [writeSized]
  dsimp only
  split
  · exact .inr (h.lt ‹_›)
  split
  · exact .inr (h.lt ‹_›)
  split
  · rename_i hne
    exact .inr (lt_of_le_of_ne (sendBytes_le h _ _) hne)
  split
  · exact .inr ‹_›
  split
  · exact .inr (by decide : -eio < 0)
  · exact .inl rfl

theorem writeOpened_cases (flag : ℕ) (buf : List UInt8) (s : σ) :
    (bus.writeOpened flag buf s).1 = buf.length ∨ (bus.writeOpened flag buf s).1 < 0 := by
  have hagain : -eagain < 0 := by decide
  rw [writeOpened]
  dsimp only
  split
  · exact .inr (h.lt ‹_›)
  split
  · exact .inr ‹_›
  split
  · exact .inr hagain
  split
  · exact .inr ‹_›
  split
  · exact .inr hagain
  · exact writeSized_cases h _ _

theorem writeControl_cases (flag : ℕ) (buf : List UInt8) (s : σ) :
    (bus.writeControl flag buf s).1 = buf.length ∨ (bus.writeControl flag buf s).1 < 0 := by
  rw [writeControl]
  dsimp only
  split
  · exact .inr ‹_›
  split
  · exact .inr (by decide : -eagain < 0)
  · exact writeOpened_cases h _ _ _

/-- A link write sends the whole packet or fails. -/
theorem writeData_cases (linkBufSize flag : ℕ) (buf : List UInt8) (s : σ) :
    (bus.dvbCaEn50221WriteData linkBufSize flag buf s).1 = buf.length ∨
      (bus.dvbCaEn50221WriteData linkBufSize flag buf s).1 < 0 := by
  rw [dvbCaEn50221WriteData]
  split
  · exact .inr (by decide : -einval < 0)
  split
  · rename_i writeData hdata
    split
    · exact h.data writeData hdata s buf
    · exact writeControl_cases h _ _ _
  · exact writeControl_cases h _ _ _

theorem sendFragment_error (herror : (bus.sendFragment linkBufSize fragbuf tries s).1 = .error status) :
    status < 0 := by
  induction tries generalizing s with
  | zero =>
    cases herror
    decide
  | succ tries ih =>
    rw [sendFragment] at herror
    split at herror
    · cases herror
      decide
    · dsimp only at herror
      split at herror
      · cases herror
      · rename_i hnot
        split at herror
        · cases herror
          exact (writeData_cases h _ _ _ _).resolve_left hnot
        · exact ih herror

end CamBus

/-! ### Link initialisation -/

theorem linkInit_size (hinit : bus.dvbCaEn50221LinkInit s = (0, size, s')) :
    2 ≤ size ∧ size ≤ hostLinkBufSize := by
  have htell {n : ℕ} {t : σ} (hn : (bus.tellSize n t).1 = 0) : 2 ≤ n := by
    by_contra hlt
    rw [CamBus.tellSize] at hn
    dsimp only at hn
    split at hn
    · exact absurd hn ‹_›
    split at hn
    · exact absurd hn ‹_›
    -- two bytes are too many
    rw [CamBus.dvbCaEn50221WriteData, if_pos (show [_, _].length > n from Nat.lt_of_not_le hlt)] at hn
    rw [if_pos (by decide : -einval ≠ 2)] at hn
    exact absurd hn (by decide : -eio ≠ 0)
  rw [CamBus.dvbCaEn50221LinkInit] at hinit
  dsimp only at hinit
  split at hinit
  · rename_i hne
    exact absurd (congrArg Prod.fst hinit) hne
  split at hinit
  · rename_i hne
    exact absurd (congrArg Prod.fst hinit) hne
  split at hinit
  · split at hinit
    · rename_i hne
      exact absurd (congrArg Prod.fst hinit) hne
    · obtain rfl := congrArg (fun x => x.2.1) hinit
      exact ⟨htell (congrArg Prod.fst hinit), Nat.min_le_right _ _⟩
  · have hfail : -eio = 0 := congrArg Prod.fst hinit
    exact absurd hfail (by decide)

/-! ### The loop over the fragments -/

/-- The number of bytes that the next fragment takes. -/
def CamWrite.fraglen (w : CamWrite σ) (linkBufSize : ℕ) (payload : List UInt8) : ℕ :=
  min (min (linkBufSize - 2) (hostLinkBufSize - 2)) (payload.length - w.fragpos)

/-- The next fragment. -/
def CamWrite.fragment (w : CamWrite σ) (linkBufSize : ℕ) (connectionId : UInt8)
    (payload : List UInt8) : List UInt8 :=
  connectionId ::
    (if w.fragpos + w.fraglen linkBufSize payload < payload.length then (0x80 : UInt8) else 0) ::
    (payload.drop w.fragpos).take (w.fraglen linkBufSize payload)

/-- What a pass leads to. -/
inductive WritePass (bus : CamBus σ) (linkBufSize : ℕ) (connectionId : UInt8) (payload : List UInt8)
    (w : CamWrite σ) : Next (CamWrite σ) (ℤ × CamWrite σ) → Prop where
  | done (hdone : payload.length ≤ w.fragpos) :
    WritePass bus linkBufSize connectionId payload w (.exit (payload.length + 2, w))
  | failed {status : ℤ} {w' : CamWrite σ} (hneg : status < 0) :
    WritePass bus linkBufSize connectionId payload w (.exit (status, w'))
  | sent {s : σ} (hmore : w.fragpos < payload.length)
    (hsent : bus.sendFragment linkBufSize (w.fragment linkBufSize connectionId payload)
      (bus.tries w.link) w.link = (.ok (), s)) :
    WritePass bus linkBufSize connectionId payload w
      (.again ⟨w.fragpos + w.fraglen linkBufSize payload,
        w.sent ++ [w.fragment linkBufSize connectionId payload], s⟩)

theorem writeBody_pass (h : bus.Proper) (h2 : 2 ≤ linkBufSize) :
    WritePass bus linkBufSize connectionId payload w
      (bus.writeBody linkBufSize good connectionId payload w) := by
  rw [CamBus.writeBody]
  split
  swap
  · rename_i hdone
    exact .done (Nat.le_of_not_lt hdone)
  rename_i hmore
  rw [if_neg (Nat.not_lt.mpr h2)]
  dsimp only
  split
  · exact .failed (by decide : -efault < 0)
  · split
    · rename_i status t herror
      exact .failed (CamBus.sendFragment_error h (congrArg Prod.fst herror))
    · rename_i t hsent
      exact .sent hmore hsent

/-- The fragments that have been sent so far. -/
structure CamWrite.Sends (linkBufSize : ℕ) (connectionId : UInt8) (payload : List UInt8)
    (w : CamWrite σ) : Prop where
  le : w.fragpos ≤ payload.length
  sized : ∀ packet ∈ w.sent, 3 ≤ packet.length ∧ packet.length ≤ linkBufSize
  connection : ∀ packet ∈ w.sent, packet.head? = some connectionId
  whole : (w.sent.map (List.drop 2)).flatten = payload.take w.fragpos
  more : w.fragpos < payload.length → ∀ packet ∈ w.sent, MoreFollows packet
  last : w.fragpos = payload.length → payload ≠ [] → ∃ before packet,
    w.sent = before ++ [packet] ∧ ¬MoreFollows packet ∧ ∀ packet ∈ before, MoreFollows packet

theorem sends_start (s : σ) : (⟨0, [], s⟩ : CamWrite σ).Sends linkBufSize connectionId payload where
  le := Nat.zero_le _
  sized := nofun
  connection := nofun
  whole := rfl
  more _ := nofun
  last hzero hne := absurd (List.length_eq_zero_iff.mp hzero.symm) hne

theorem fraglen_le (w : CamWrite σ) (linkBufSize : ℕ) (payload : List UInt8) :
    w.fraglen linkBufSize payload ≤ linkBufSize - 2 ∧
      w.fraglen linkBufSize payload ≤ payload.length - w.fragpos :=
  ⟨Nat.le_trans (Nat.min_le_left _ _) (Nat.min_le_left _ _), Nat.min_le_right _ _⟩

theorem fraglen_pos (h3 : 3 ≤ linkBufSize) (hmore : w.fragpos < payload.length) :
    0 < w.fraglen linkBufSize payload := by
  rw [CamWrite.fraglen, hostLinkBufSize]
  omega

theorem fragment_length (w : CamWrite σ) :
    (w.fragment linkBufSize connectionId payload).length = 2 + w.fraglen linkBufSize payload := by
  have hle := (fraglen_le w linkBufSize payload).2
  rw [CamWrite.fragment, List.length_cons, List.length_cons, List.length_take, List.length_drop,
    Nat.min_eq_left hle]
  omega

theorem fragment_more (w : CamWrite σ) : MoreFollows (w.fragment linkBufSize connectionId payload) ↔
    w.fragpos + w.fraglen linkBufSize payload < payload.length := by
  rw [MoreFollows, CamWrite.fragment]
  change (if _ then (0x80 : UInt8) else 0) &&& 0x80 ≠ 0 ↔ _
  split
  · rename_i hlt
    exact iff_of_true (by decide) hlt
  · rename_i hge
    exact iff_of_false (by decide) hge

/-- One more fragment has been sent. -/
theorem CamWrite.Sends.add (h : w.Sends linkBufSize connectionId payload) (h3 : 3 ≤ linkBufSize)
    (hmore : w.fragpos < payload.length) (s : σ) :
    CamWrite.Sends linkBufSize connectionId payload ⟨w.fragpos + w.fraglen linkBufSize payload,
      w.sent ++ [w.fragment linkBufSize connectionId payload], s⟩ := by
  obtain ⟨hsize, hrest⟩ := fraglen_le w linkBufSize payload
  have hpos := fraglen_pos h3 hmore
  have hlen := @fragment_length σ payload linkBufSize connectionId w
  have hbefore := h.more hmore
  constructor
  · dsimp only
    omega
  · intro packet hpacket
    rcases List.mem_append.mp hpacket with hold | hnew
    · exact h.sized packet hold
    · rw [List.mem_singleton.mp hnew, hlen]
      omega
  · intro packet hpacket
    rcases List.mem_append.mp hpacket with hold | hnew
    · exact h.connection packet hold
    · rw [List.mem_singleton.mp hnew]
      rfl
  · dsimp only
    rw [List.map_append, List.flatten_append, h.whole, List.take_add]
    congr 1
    exact List.append_nil _
  · intro hlt packet hpacket
    rcases List.mem_append.mp hpacket with hold | hnew
    · exact hbefore packet hold
    · rw [List.mem_singleton.mp hnew]
      exact fragment_more w |>.mpr hlt
  · intro hend _
    exact ⟨w.sent, _, rfl, fun hno => Nat.ne_of_lt (fragment_more w |>.mp hno) hend, hbefore⟩

/-- A buffer of at least three bytes: the loop ends, and what has been sent is whole. -/
theorem writeBody_ends (h : bus.Proper) (h3 : 3 ≤ linkBufSize) (hne : payload ≠ []) (s : σ) :
    ∃ ret w, Ends (bus.writeBody linkBufSize good connectionId payload) ⟨0, [], s⟩ (ret, w) ∧
      (ret = payload.length + 2 ∧ Fragments linkBufSize connectionId payload w.sent ∨ ret < 0) := by
  have hstep : ∀ a b : CamWrite σ, a.Sends linkBufSize connectionId payload →
      bus.writeBody linkBufSize good connectionId payload a = .again b →
      b.Sends linkBufSize connectionId payload ∧
        payload.length - b.fragpos < payload.length - a.fragpos := by
    intro a b ha hpass
    have hcase := @writeBody_pass σ bus payload linkBufSize good connectionId a h (by omega)
    rw [hpass] at hcase
    cases hcase with
    | sent hmore =>
      have hpos := fraglen_pos h3 hmore
      refine ⟨ha.add h3 hmore _, ?_⟩
      dsimp only
      omega
  obtain ⟨⟨ret, w⟩, hends⟩ := terminates_of_measure (fun w => payload.length - w.fragpos) hstep
    (sends_start s)
  obtain ⟨t, hvisits, hexit⟩ := hends.visits
  refine ⟨ret, w, hends, ?_⟩
  have hsends := hvisits.invariant (sends_start s) fun a b ha hpass => (hstep a b ha hpass).1
  have hcase := @writeBody_pass σ bus payload linkBufSize good connectionId t h (by omega)
  rw [hexit] at hcase
  cases hcase with
  | failed hneg => exact .inr hneg
  | done hdone =>
    have hend : w.fragpos = payload.length := Nat.le_antisymm hsends.le hdone
    refine .inl ⟨rfl, hsends.sized, hsends.connection, ?_, hsends.last hend hne⟩
    rw [hsends.whole, hend, List.take_length]

/-! ### A buffer of two bytes -/

/-- A fragment without a payload is sent. -/
def CamBus.sendEmpty (bus : CamBus σ) (connectionId : UInt8) (s : σ) : Except ℤ Unit × σ :=
  bus.sendFragment 2 [connectionId, 0x80] (bus.tries s) s

/-- Where the link is after `n` of them. -/
def CamBus.afterEmpty (bus : CamBus σ) (connectionId : UInt8) (s : σ) (n : ℕ) : σ :=
  (fun t => (bus.sendEmpty connectionId t).2)^[n] s

/-- The CAM takes fragments without a payload over and over again. -/
def TakesEmpty (bus : CamBus σ) (connectionId : UInt8) (s : σ) : Prop :=
  ∀ n, (bus.sendEmpty connectionId (bus.afterEmpty connectionId s n)).1 = .ok ()

/-- A pass sends a fragment without a payload and stays where it is. -/
theorem writeBody_empty (hne : payload ≠ []) (sent : List (List UInt8)) (s : σ) :
    bus.writeBody 2 good connectionId payload ⟨0, sent, s⟩ =
      match bus.sendEmpty connectionId s with
      | (.error status, s) => .exit (status, ⟨0, sent, s⟩)
      | (.ok (), s) => .again ⟨0, sent ++ [[connectionId, 0x80]], s⟩ := by
  have hpos : 0 < payload.length := List.length_pos_iff.mpr hne
  have hcopy : ¬(copyFromUser (good - 2) []).2 ≠ 0 := fun hno => hno (Nat.zero_sub _)
  simp [CamBus.writeBody, CamBus.sendEmpty, hpos, hcopy]

theorem writeBody_taken (hne : payload ≠ []) (sent : List (List UInt8))
    (hsend : bus.sendEmpty connectionId s = (.ok (), s')) :
    bus.writeBody 2 good connectionId payload ⟨0, sent, s⟩ =
      .again ⟨0, sent ++ [[connectionId, 0x80]], s'⟩ := by
  rw [writeBody_empty hne, hsend]

theorem writeBody_refused (h : bus.Proper) (hne : payload ≠ []) (sent : List (List UInt8))
    (hsend : bus.sendEmpty connectionId s = (.error status, s')) :
    ∃ w, Ends (bus.writeBody 2 good connectionId payload) ⟨0, sent, s⟩ (status, w) ∧ status < 0 := by
  refine ⟨⟨0, sent, s'⟩, .exit ?_, CamBus.sendFragment_error h (congrArg Prod.fst hsend)⟩
  rw [writeBody_empty hne, hsend]

theorem takesEmpty_hangs (hne : payload ≠ []) (htakes : TakesEmpty bus connectionId s) :
    ¬Terminates (bus.writeBody 2 good connectionId payload) ⟨0, [], s⟩ := by
  refine @not_terminates_of_trap _ _ _ _ _ (fun w => w.fragpos = 0 ∧
    ∃ n, w.link = bus.afterEmpty connectionId s n) ?_ .start ⟨rfl, 0, rfl⟩
  rintro ⟨fragpos, sent, t⟩ ⟨rfl, n, rfl⟩
  refine ⟨_, writeBody_taken hne sent (Prod.ext (htakes n) rfl), rfl, n + 1, ?_⟩
  exact (Function.iterate_succ_apply' (fun t => (bus.sendEmpty connectionId t).2) n s).symm

/-- When the CAM refuses one of these fragments, the loop ends with an error. -/
theorem refused_ends (h : bus.Proper) (hne : payload ≠ []) {n : ℕ} (sent : List (List UInt8))
    (hrefused : (bus.sendEmpty connectionId (bus.afterEmpty connectionId s n)).1 ≠ .ok ()) :
    ∃ ret w, Ends (bus.writeBody 2 good connectionId payload) ⟨0, sent, s⟩ (ret, w) ∧ ret < 0 := by
  induction n generalizing sent s with
  | zero =>
    cases hsend : bus.sendEmpty connectionId s with
    | mk result t =>
      cases result with
      | ok u => exact absurd (congrArg Prod.fst hsend) hrefused
      | error status => exact ⟨status, writeBody_refused h hne sent hsend⟩
  | succ n ih =>
    cases hsend : bus.sendEmpty connectionId s with
    | mk result t =>
      cases result with
      | error status => exact ⟨status, writeBody_refused h hne sent hsend⟩
      | ok u =>
        have ht : (bus.sendEmpty connectionId s).2 = t := congrArg Prod.snd hsend
        rw [CamBus.afterEmpty, Function.iterate_succ_apply, ht] at hrefused
        obtain ⟨ret, w, hends, hneg⟩ := ih (sent ++ [[connectionId, 0x80]]) hrefused
        exact ⟨ret, w, .again (writeBody_taken hne sent hsend) hends, hneg⟩

theorem not_takesEmpty_ends (h : bus.Proper) (hne : payload ≠ [])
    (hno : ¬TakesEmpty bus connectionId s) :
    ∃ ret w, Ends (bus.writeBody 2 good connectionId payload) ⟨0, [], s⟩ (ret, w) ∧ ret < 0 := by
  obtain ⟨n, hrefused⟩ := not_forall.mp hno
  exact refused_ends h hne [] hrefused

/-! ### A message -/

namespace CamPrivate
variable (ca : CamPrivate σ) (buf : List UInt8) (good : ℕ) (s : σ)

/-- The message is sent in fragments, or there is an error. -/
def Writes : Prop :=
  ∃ passes ret w, ca.dvbCaEn50221IoWrite passes buf good s = some (ret, w) ∧
    (ret = buf.length → Fragments (ca.linkBufSize (buf.getD 0 0).toNat) (buf.getD 1 0) (buf.drop 2)
      w.sent) ∧
    (ret ≠ buf.length → ret < 0)

/-- The header of the message can be read, and names a slot that is running. -/
structure Heads : Prop where
  header : 2 ≤ buf.length ∧ 2 ≤ good
  slot : (buf.getD 0 0).toNat < ca.slotCount
  running : (ca.bus (buf.getD 0 0).toNat).slotState s = .running

/-- The CAM has announced a buffer of two bytes, which is nothing behind the header of a link packet,
    and takes link packets without end. -/
def Stuck : Prop :=
  ca.Heads buf good s ∧ ca.linkBufSize (buf.getD 0 0).toNat = 2 ∧
    TakesEmpty (ca.bus (buf.getD 0 0).toNat) (buf.getD 1 0) s

end CamPrivate

theorem ioWrite_refused (hno : ¬ca.Heads buf good s) :
    ∃ ret, ret < 0 ∧ ∀ passes, ca.dvbCaEn50221IoWrite passes buf good s = some (ret, ⟨0, [], s⟩) := by
  have hinval : -einval < 0 := by decide
  match buf with
  | [] => exact ⟨_, hinval, fun _ => rfl⟩
  | [_] => exact ⟨_, hinval, fun _ => rfl⟩
  | slot :: connectionId :: payload =>
    by_cases hgood : good < 2
    · exact ⟨-efault, by decide, fun _ => if_pos hgood⟩
    by_cases hslot : slot.toNat ≥ ca.slotCount
    · exact ⟨_, hinval, fun _ => (if_neg hgood).trans (if_pos hslot)⟩
    by_cases hrunning : (ca.bus slot.toNat).slotState s ≠ .running
    · exact ⟨_, hinval, fun _ => (if_neg hgood).trans ((if_neg hslot).trans (if_pos hrunning))⟩
    · exact absurd ⟨⟨Nat.le_add_left _ _, Nat.le_of_not_lt hgood⟩, Nat.lt_of_not_le hslot,
        not_not.mp hrunning⟩ hno

theorem ioWrite_loop (hheads : ca.Heads buf good s) (passes : ℕ) :
    ca.dvbCaEn50221IoWrite passes buf good s =
      run ((ca.bus (buf.getD 0 0).toNat).writeBody (ca.linkBufSize (buf.getD 0 0).toNat) good
        (buf.getD 1 0) (buf.drop 2)) passes ⟨0, [], s⟩ := by
  obtain ⟨⟨hlen, hgood⟩, hslot, hrunning⟩ := hheads
  match buf with
  | [] => exact absurd hlen (by decide)
  | [_] => exact absurd hlen (Nat.not_succ_le_self 1)
  | slot :: connectionId :: payload =>
    exact (if_neg (Nat.not_lt.mpr hgood)).trans ((if_neg (Nat.not_le.mpr hslot)).trans
      (if_neg (not_not.mpr hrunning)))

/-- A message that is not empty is sent in fragments of the negotiated size, or there is an error,
    exactly when the CAM is not one with a buffer of two bytes that takes empty fragments for ever. -/
theorem dvbCaEn50221IoWrite_iff (ca : CamPrivate σ) (hproper : ∀ slot, (ca.bus slot).Proper)
    (hinit : ∀ slot, ∃ s s', (ca.bus slot).dvbCaEn50221LinkInit s = (0, ca.linkBufSize slot, s'))
    (buf : List UInt8) (hbuf : buf.length ≠ 2) (good : ℕ) (s : σ) :
    ca.Writes buf good s ↔ ¬ca.Stuck buf good s := by
  by_cases hheads : ca.Heads buf good s
  swap
  · obtain ⟨ret, hneg, heq⟩ := ioWrite_refused hheads
    refine iff_of_true ⟨0, ret, _, heq 0, fun hret => ?_, fun _ => hneg⟩ fun hstuck => hheads hstuck.1
    omega
  have hne : buf.drop 2 ≠ [] := by
    have hlen := hheads.header.1
    rw [← List.length_pos_iff, List.length_drop]
    omega
  have hcount : ((buf.drop 2).length : ℤ) + 2 = buf.length := by
    have hlen := hheads.header.1
    rw [List.length_drop]
    omega
  obtain ⟨s₀, s₁, hsize⟩ := hinit (buf.getD 0 0).toNat
  have h2 := (linkInit_size hsize).1
  rcases Nat.lt_or_ge (ca.linkBufSize (buf.getD 0 0).toNat) 3 with h3 | h3
  · have htwo : ca.linkBufSize (buf.getD 0 0).toNat = 2 := by omega
    constructor
    · rintro ⟨passes, ret, w, heq, -⟩ ⟨-, -, htakes⟩
      rw [ioWrite_loop hheads, htwo] at heq
      exact takesEmpty_hangs hne htakes ⟨_, passes, heq⟩
    · intro hno
      obtain ⟨ret, w, ⟨passes, hrun⟩, hneg⟩ := @not_takesEmpty_ends σ _ s _ good _
        (hproper (buf.getD 0 0).toNat) hne fun htakes => hno ⟨hheads, htwo, htakes⟩
      refine ⟨passes, ret, w, ?_, fun hret => ?_, fun _ => hneg⟩
      · rw [ioWrite_loop hheads, htwo]
        exact hrun
      · omega
  · refine iff_of_true ?_ fun hstuck => by have := hstuck.2.1; omega
    obtain ⟨ret, w, ⟨passes, hrun⟩, hresult⟩ := @writeBody_ends σ _ _ _ good (buf.getD 1 0)
      (hproper (buf.getD 0 0).toNat) h3 hne s
    refine ⟨passes, ret, w, (ioWrite_loop hheads passes).trans hrun, ?_, ?_⟩
    · rintro rfl
      rcases hresult with ⟨-, hfragments⟩ | hneg
      · exact hfragments
      · omega
    · intro hret
      rcases hresult with ⟨hall, -⟩ | hneg
      · exact absurd (hall.trans hcount) hret
      · exact hneg

/-- A CAM that announces a buffer of two bytes, as it answers one read after the other. After the 12th
    the initialisation is done. -/
def twoByteCam : CamBus ℕ where
  readCamControl n _ := ([0x80, 0x80, 0, 2, 0, 2].getD n 0x40, n + 1)
  writeCamControl n _ _ := (0, n)
  writeData := none
  slotState n := if n < 12 then .linkInit else .running
  setSlotState n _ := n
  tries _ := 1

def twoByteCa : CamPrivate ℕ := ⟨1, fun _ => 2, fun _ => twoByteCam⟩

theorem twoByteCam_proper : twoByteCam.Proper := ⟨fun _ _ _ => le_refl 0, nofun⟩

theorem twoByteCam_init : twoByteCam.dvbCaEn50221LinkInit 0 = (0, 2, 12) := by
  decide

theorem twoByteCa_writes_iff :
    twoByteCa.Writes [0, 1, 42] 3 12 ↔ ¬twoByteCa.Stuck [0, 1, 42] 3 12 :=
  dvbCaEn50221IoWrite_iff twoByteCa (fun _ => twoByteCam_proper) (fun _ => ⟨0, 12, twoByteCam_init⟩)
    [0, 1, 42] (by decide) 3 12

theorem twoByteCam_sends (n : ℕ) : twoByteCam.sendEmpty 1 (n + 12) = (.ok (), n + 16) := by
  have hread (s address : ℕ) (hs : 12 ≤ s) : twoByteCam.readCamControl s address = (0x40, s + 1) := by
    have hbehind : [0x80, 0x80, 0, 2, 0, (2 : ℤ)].length ≤ s := Nat.le_trans (by decide) hs
    simp only [twoByteCam, List.getD_eq_default _ _ hbehind]
  have hstate : twoByteCam.slotState (n + 12) = .running := by
    simp [twoByteCam]
  have hbusy : ¬Flags 0x40 (statusregDa ||| statusregRe) := by decide
  have hfree : Flags 0x40 statusregFr := by decide
  have htaken : ¬Flags 0x40 statusregWe := by decide
  have hwrite (s address value : ℕ) : twoByteCam.writeCamControl s address value = (0, s) := rfl
  have hdata : twoByteCam.writeData = none := rfl
  have htries (s : ℕ) : twoByteCam.tries s = 1 := rfl
  simp [CamBus.sendEmpty, CamBus.sendFragment, CamBus.dvbCaEn50221WriteData, CamBus.writeControl,
    CamBus.writeOpened, CamBus.writeSized, CamBus.sendBytes, hread, hstate, hbusy, hfree, htaken,
    hwrite, hdata, htries]

theorem twoByteCam_takesEmpty : TakesEmpty twoByteCam 1 12 := by
  have hlink (n : ℕ) : twoByteCam.afterEmpty 1 12 n = n * 4 + 12 := by
    induction n with
    | zero => rfl
    | succ n ih =>
      rw [CamBus.afterEmpty, Function.iterate_succ_apply', ← CamBus.afterEmpty, ih, twoByteCam_sends]
      omega
  intro n
  rw [hlink, twoByteCam_sends]

/-- The write of one byte never returns. -/
theorem twoByteCa_hangs : ¬twoByteCa.Writes [0, 1, 42] 3 12 := by
  rintro ⟨passes, ret, w, heq, -⟩
  have hheads : twoByteCa.Heads [0, 1, 42] 3 12 := ⟨by decide, by decide, rfl⟩
  rw [ioWrite_loop hheads] at heq
  exact takesEmpty_hangs (List.cons_ne_nil _ _) twoByteCam_takesEmpty ⟨_, passes, heq⟩

end Dvb

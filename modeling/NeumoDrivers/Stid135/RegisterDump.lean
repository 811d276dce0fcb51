import Mathlib
import NeumoDrivers.Lib.Memory
import NeumoDrivers.Lib.Records
import NeumoDrivers.Stid135.ChipLookup

/-! The register map as a file (`stid135-sys.c`).

    The file is the image, 16 bytes for each register. A read goes to the chip for the entries it
    returns, in bursts of consecutive addresses. An entry that is read in part is read into a buffer of
    its own; the end of such an entry, and the bytes that are counted for it, are where reads go wrong. -/

namespace Stid135
open Faults

variable {σ : Type}

def RegSize.code : RegSize → UInt32
  | unset => 0
  | size8 => 1
  | size16 => 2
  | size24 => 3
  | size32 => 4
  | size64 => 8

def leBytes (w : UInt32) : List UInt8 :=
  [w.toUInt8, (w >>> 8).toUInt8, (w >>> 16).toUInt8, (w >>> 24).toUInt8]

/-- A register in memory; the map was zeroed when it was allocated. -/
def ChipRegister.bytes (r : ChipRegister) : List UInt8 :=
  [lsb r.addr, msb r.addr, 0, 0] ++ leBytes r.value ++ leBytes r.size.code ++ leBytes r.modified

namespace ChipInfo

/-- Set n to the number of consecutive registers; the loop of `registers_read_`. -/
def burstLoop (c : ChipInfo σ) (firstRegId : UInt16) (last : ℤ) :
    ℕ → ℤ → ℕ → Except Fault (ℤ × ℕ)
  | 0, idx, n => pure (idx, n)
  | fuel + 1, idx, n =>
    if idx < last then do
      let r ← c.regAt idx
      if (r.addr.toNat : ℤ) - firstRegId.toNat = n ∧ n < 70 then
        c.burstLoop firstRegId last fuel (idx + 1) (n + 1)
      else pure (idx, n)
    else pure (idx, n)

/-- The passes of `registers_read_`; `p` is where `buf` points to. -/
def readLoop (bus : I2cHost σ) (last : ℤ) (p : ℕ) :
    ℕ → ChipInfo σ → (ℕ → UInt8) → ℤ → ℕ → Except Fault (ChipInfo σ × (ℕ → UInt8) × ℕ)
  | 0, c, buf, _, ret => pure (c, buf, ret)
  | fuel + 1, c, buf, first, ret =>
    if first < last then do
      let r ← c.regAt first
      let (idx, n) ← c.burstLoop r.addr last 71 first 0
      let (c, _) ← c.getRegisters bus r.addr n
      let rs ← c.registersAt first n
      readLoop bus last p fuel c (Memory.overwrite buf (p + ret) (rs.flatMap ChipRegister.bytes)) idx
        (ret + 16 * n)
    else pure (c, buf, ret)

/-- `registers_read_` -/
def registersRead_ (bus : I2cHost σ) (c : ChipInfo σ) (buf : ℕ → UInt8) (p offset len : ℕ) :
    Except Fault (ChipInfo σ × (ℕ → UInt8) × ℕ) :=
  let first := s32 (offset / 16 : ℕ)
  let numRegs := s32 (len / 16 : ℕ)
  let numRegs := if c.nbRegs < s32 (numRegs + first) then s32 (c.nbRegs - first) else numRegs
  let last := s32 (first + numRegs)
  if numRegs ≤ 0 then pure (c, buf, 0)
  else readLoop bus last p numRegs.toNat c buf first 0

/-- Bytes of the buffer for an entry that is read in part. -/
def tempBytes (temp : ℕ → UInt8) (x n : ℕ) : Except Fault (List UInt8) :=
  if 16 < x + n then .error .data else .ok (Memory.block temp x n)

/-- The partial read at the end. -/
def readEnd (bus : I2cHost σ) (c : ChipInfo σ) (buf : ℕ → UInt8) (offset x ret : ℕ) :
    Except Fault (ChipInfo σ × (ℕ → UInt8) × ℕ) := do
  let (c, temp, ret1) ← c.registersRead_ bus (fun _ => 0) 0 offset 16
  if ret1 < 16 then pure (c, buf, ret)
  else do
    let tail ← tempBytes temp 0 x
    pure (c, Memory.overwrite buf ret tail, ret + ret1)

/-- What `registers_read` does behind the partial read at the start. -/
def readWhole (bus : I2cHost σ) (c : ChipInfo σ) (buf : ℕ → UInt8) (offset len ret : ℕ) :
    Except Fault (ChipInfo σ × (ℕ → UInt8) × ℕ) :=
  let x := len % 16
  let len1 := s32 (len - x : ℕ)
  if 0 < len1 then do
    let (c, buf, ret1) ← c.registersRead_ bus buf ret offset len1.toNat
    if len - ret1 = 0 ∨ (ret1 : ℤ) < len1 then pure (c, buf, ret + ret1)
    else c.readEnd bus buf (offset + ret1) x (ret + ret1)
  else c.readEnd bus buf offset x ret

/-- `registers_read` -/
def registersRead (bus : I2cHost σ) (c : ChipInfo σ) (buf : ℕ → UInt8) (offset len : ℕ) :
    Except Fault (ChipInfo σ × (ℕ → UInt8) × ℕ) :=
  let x := offset % 16
  if 0 < x then do
    let (c, temp, ret1) ← c.registersRead_ bus (fun _ => 0) 0 (offset - x) 16
    let ret1 := min ret1 len
    let head ← tempBytes temp x ret1
    let buf := Memory.overwrite buf 0 head
    if len - ret1 = 0 ∨ ret1 < 16 - x then pure (c, buf, ret1)
    else c.readWhole bus buf (offset + ret1) (len - ret1) ret1
  else c.readWhole bus buf offset len 0

/-! ### Bursts -/

/-- How far a burst goes that has `n` registers already. -/
def runLength (firstRegId : UInt16) : ℕ → List ChipRegister → ℕ
  | n, [] => n
  | n, r :: rs =>
    if (r.addr.toNat : ℤ) - firstRegId.toNat = n ∧ n < 70 then runLength firstRegId (n + 1) rs else n

theorem runLength_le (a : UInt16) (rs : List ChipRegister) (n : ℕ) :
    n ≤ runLength a n rs ∧ runLength a n rs ≤ n + rs.length := by
  induction rs generalizing n with
  | nil => exact ⟨le_rfl, le_rfl⟩
  | cons r rs ih =>
    have hih := ih (n + 1)
    rw [runLength, List.length_cons]
    split
    · omega
    · omega

/-- The bursts in which entries are read. -/
def bursts : List ChipRegister → List (List ChipRegister)
  | [] => []
  | r :: rs =>
    (r :: rs.take (runLength r.addr 1 rs - 1)) :: bursts (rs.drop (runLength r.addr 1 rs - 1))
termination_by rs => rs.length
decreasing_by
  rw [List.length_drop, List.length_cons]
  omega

/-- While the chip has no error, the data of a burst has to fit in the buffer of the transfer. A burst of
    70 registers is refused, and the bursts behind it are not read. -/
def Fits (error : UInt32) (rs : List ChipRegister) : Prop :=
  error = noError → ∀ b ∈ (bursts rs).takeWhile (fun b => b.length < 70), nbdata b ≤ 100

variable {c c' c'' : ChipInfo σ} {bus : I2cHost σ} {a : UInt16} {k m n : ℕ} {r : ChipRegister}

theorem burstLoop_eq {rs tail : List ChipRegister} {fuel j : ℕ} (hn : n ≤ 70) (hfuel : 71 ≤ fuel + n)
    (himage : c.regMapImage.drop j = rs ++ tail) :
    c.burstLoop a (j + rs.length : ℕ) fuel j n =
      .ok ((j + (runLength a n rs - n) : ℕ), runLength a n rs) := by
  induction rs generalizing fuel j n with
  | nil =>
    obtain ⟨fuel, rfl⟩ := Nat.exists_eq_add_of_le' (show 1 ≤ fuel by omega)
    rw [burstLoop, runLength, if_neg (by rw [List.length_nil]; omega), Nat.sub_self]
    rfl
  | cons r rs ih =>
    obtain ⟨fuel, rfl⟩ := Nat.exists_eq_add_of_le' (show 1 ≤ fuel by omega)
    have hget : c.regMapImage[j]? = some r := by
      rw [← Nat.add_zero j, ← List.getElem?_drop, himage]
      rfl
    have hrest : c.regMapImage.drop (j + 1) = rs ++ tail := by
      rw [← List.drop_drop, himage]
      rfl
    rw [burstLoop, runLength, if_pos (by rw [List.length_cons]; omega), ok_bind (regAt_eq hget)]
    by_cases hnext : (r.addr.toNat : ℤ) - a.toNat = n ∧ n < 70
    · have hle := (runLength_le a rs (n + 1)).1
      have hrec := @ih (n + 1) fuel (j + 1) (by omega) (by omega) hrest
      rw [if_pos hnext, if_pos hnext, List.length_cons, show ((j : ℤ) + 1) = ((j + 1 : ℕ) : ℤ) from rfl,
        show j + (rs.length + 1) = j + 1 + rs.length by omega, hrec]
      rw [show j + 1 + (runLength a (n + 1) rs - (n + 1)) = j + (runLength a (n + 1) rs - n) by omega]
    · rw [if_neg hnext, if_neg hnext, Nat.sub_self]
      rfl

/-- The burst that begins with `r`. -/
theorem burstLoop_first {rs tail : List ChipRegister} {j : ℕ}
    (himage : c.regMapImage.drop j = r :: rs ++ tail) :
    c.burstLoop r.addr (j + (rs.length + 1) : ℕ) 71 j 0 =
      .ok ((j + runLength r.addr 1 rs : ℕ), runLength r.addr 1 rs) := by
  have hone : runLength r.addr 0 (r :: rs) = runLength r.addr 1 rs := by
    rw [runLength, if_pos ⟨by omega, by decide⟩]
  have heq := @burstLoop_eq _ _ r.addr 0 _ _ 71 _ (by decide) (by decide) himage
  rwa [hone, List.length_cons] at heq

/-! ### Registers that are read -/

/-- Only entries of the image from the `k`-th on change, and no more than `n`. -/
structure Rewrites (c c' : ChipInfo σ) (k n : ℕ) : Prop where
  kept : Kept c c'
  before : c'.regMapImage.take k = c.regMapImage.take k
  behind : c'.regMapImage.drop (k + n) = c.regMapImage.drop (k + n)

theorem Rewrites.of_image (h : Kept c c') (himage : c'.regMapImage = c.regMapImage) :
    Rewrites c c' k n := ⟨h, by rw [himage], by rw [himage]⟩

theorem Rewrites.trans (h : Rewrites c c' k n) (h' : Rewrites c' c'' (k + n) m) :
    Rewrites c c'' k (n + m) := by
  refine ⟨h.kept.trans h'.kept, ?_, ?_⟩
  · have htake := congrArg (List.take k) h'.before
    rw [List.take_take, List.take_take, Nat.min_eq_left (Nat.le_add_right k n)] at htake
    rw [htake, h.before]
  · have hdrop := congrArg (List.drop m) h.behind
    rw [List.drop_drop, List.drop_drop] at hdrop
    rw [← Nat.add_assoc, h'.behind, hdrop]

theorem Rewrites.length_eq (h : Rewrites c c' k n) :
    c'.regMapImage.length = c.regMapImage.length := by
  have hlen := congrArg List.length h.kept.addresses
  rwa [addresses, addresses, List.length_map, List.length_map] at hlen

theorem take_modifyRange (image : List ChipRegister) (k n : ℕ) (f : ℕ → ChipRegister → ChipRegister) :
    (modifyRange image k n f).take k = image.take k := by
  refine List.ext_getElem? fun j => ?_
  rw [List.getElem?_take, List.getElem?_take, getElem?_modifyRange]
  by_cases hj : j < k
  · have hnot : ¬(k ≤ j ∧ j < k + n) := by omega
    simp [hj, hnot]
  · rw [if_neg hj, if_neg hj]

theorem drop_modifyRange (image : List ChipRegister) (k n : ℕ) (f : ℕ → ChipRegister → ChipRegister) :
    (modifyRange image k n f).drop (k + n) = image.drop (k + n) := by
  refine List.ext_getElem? fun j => ?_
  rw [List.getElem?_drop, List.getElem?_drop, getElem?_modifyRange]
  have hnot : ¬(k ≤ k + n + j ∧ k + n + j < k + n) := by omega
  simp [hnot]

theorem Ready.rewrites (h : c.Ready) {f : ℕ → ChipRegister → ChipRegister}
    (hf : ∀ j r, (f j r).addr = r.addr) :
    Rewrites c { c with regMapImage := modifyRange c.regMapImage k n f } k n :=
  ⟨h.kept_image (addresses_modifyRange hf c.regMapImage k n), take_modifyRange _ _ _ _,
    drop_modifyRange _ _ _ _⟩

theorem modify_eq_modifyRange (image : List ChipRegister) (k : ℕ) (g : ChipRegister → ChipRegister) :
    image.modify k g = modifyRange image k 1 fun _ => g := by
  have hsucc := modifyRange_succ image k 0 fun _ => g
  rwa [modifyRange_zero] at hsucc

end ChipInfo

/-- Every transfer succeeds. -/
structure I2cHost.Acknowledges (bus : I2cHost σ) : Prop where
  write : ∀ s message, (bus.write s message).1 = true
  read : ∀ s n, (bus.read s n).1.isSome = true

namespace ChipInfo

variable {c c' c'' : ChipInfo σ} {bus : I2cHost σ} {a : UInt16} {k m n : ℕ} {r : ChipRegister}

theorem writeSubAddress_error (hack : bus.Acknowledges) (a : UInt16) (n : ℤ) :
    (c.writeSubAddress bus a n).error = c.error := by
  rw [writeSubAddress]
  split
  · dsimp only
    rw [hack.write, if_pos rfl]
  · rfl

/-- The data of a burst, where it fits. -/
theorem readData_reads (hack : bus.Acknowledges) (h : c.Ready) (hk : k + n ≤ c.regMapImage.length)
    (hlt : k < c.regMapImage.length) (hfits : nbdata ((c.regMapImage.drop k).take n) ≤ 100) :
    ∃ c' data, c.readData bus k n = .ok (c', data) ∧ Kept c c' ∧ c'.regMapImage = c.regMapImage ∧
      c'.error = c.error := by
  generalize hrs : (c.regMapImage.drop k).take n = rs at hfits
  have hsub : Kept c (c.writeSubAddress bus (c.regMapImage[k]).addr n) :=
    h.writeSubAddress_kept (c.regMapImage[k]).addr n
  refine ⟨((c.writeSubAddress bus (c.regMapImage[k]).addr n).readBytes bus (nbdata rs)).1,
    fun j => if j < nbdata rs then
        ((c.writeSubAddress bus (c.regMapImage[k]).addr n).readBytes bus (nbdata rs)).2 j
      else ((c.subAddress (c.regMapImage[k]).addr n).getD []).getD j 0,
    ?_, hsub.trans (hsub.ready.kept rfl rfl rfl rfl rfl),
    writeSubAddress_image (c.regMapImage[k]).addr n, ?_⟩
  · rw [readData, ok_bind (regAt_eq (List.getElem?_eq_getElem hlt))]
    dsimp only
    rw [ok_bind (registersAt_eq (n := n) (by rwa [writeSubAddress_image])), writeSubAddress_image,
      Int.toNat_natCast, hrs, if_neg (Nat.not_lt.mpr hfits)]
    rfl
  · dsimp only [readBytes]
    rw [hack.read, if_pos rfl, writeSubAddress_error hack]

theorem readData_overrun (hk : k + n ≤ c.regMapImage.length)
    (hlt : k < c.regMapImage.length) (hfits : 100 < nbdata ((c.regMapImage.drop k).take n)) :
    c.readData bus k n = .error .data := by
  rw [readData, ok_bind (regAt_eq (List.getElem?_eq_getElem hlt))]
  dsimp only
  rw [ok_bind (registersAt_eq (n := n) (by rwa [writeSubAddress_image])), writeSubAddress_image,
    Int.toNat_natCast, if_pos hfits]
  rfl

theorem Ready.check (h : c.Ready) (hk : k + n ≤ c.regMapImage.length) (hn : 0 < n) :
    (0 : ℤ) ≤ k ∧ s32 ((k : ℤ) + n - 1) < c.nbRegs := by
  have hlen := h.length_le
  refine ⟨Int.natCast_nonneg k, ?_⟩
  rw [s32_eq (by omega) (by omega), nbRegs]
  omega

/-- The error behind a burst of `n` registers. -/
def burstError (error : UInt32) (n : ℕ) : UInt32 :=
  if error = noError ∧ ¬n < 70 then i2cBurst else error

/-- A burst that is read, or that the chip's error keeps from being read. -/
theorem getRegisters_reads (hack : bus.Acknowledges) (h : c.Ready) (hget : c.regMapImage[k]? = some r)
    (hn : 0 < n) (hk : k + n ≤ c.regMapImage.length)
    (hfits : c.error = noError → n < 70 → nbdata ((c.regMapImage.drop k).take n) ≤ 100) :
    ∃ p, c.getRegisters bus r.addr n = .ok p ∧ Rewrites c p.1 k n ∧
      p.1.error = burstError c.error n := by
  rw [getRegisters, burstError]
  by_cases herror : c.error = noError
  · rw [if_pos herror, if_pos h.active]
    by_cases hburst : n < 70
    · have hlt : k < c.regMapImage.length := by omega
      have hlook : Kept c { c with lastRegIndex := k } :=
        ⟨⟨h.sorted, Int.natCast_nonneg k, Int.ofNat_lt.mpr hlt, h.active⟩, rfl, rfl, rfl⟩
      obtain ⟨c', data, hdata, hkept, himage, herror'⟩ := readData_reads hack hlook.ready hk hlt
        (hfits herror hburst)
      obtain ⟨sized, hsized⟩ : ∃ sized : ℕ → ChipRegister → ChipRegister, sized = fun _ r =>
        if r.size = .unset then { r with size := .size8 } else r := ⟨_, rfl⟩
      obtain ⟨c₁, hc₁⟩ : ∃ c₁ : ChipInfo σ,
        c₁ = { c' with regMapImage := modifyRange c'.regMapImage k 1 sized } := ⟨_, rfl⟩
      obtain ⟨c₂, hc₂⟩ : ∃ c₂ : ChipInfo σ,
        c₂ = { c₁ with regMapImage := modifyRange c₁.regMapImage k n fun i r =>
          { r with value := readValue c₁.chipMode data i r.size } } := ⟨_, rfl⟩
      have hone : Rewrites c' c₁ k 1 := by
        rw [hc₁]
        refine hkept.ready.rewrites fun j r => ?_
        rw [hsized]
        dsimp only
        split <;> rfl
      have hall : Rewrites c₁ c₂ k n := by
        rw [hc₂]
        exact hone.kept.ready.rewrites fun j r => rfl
      refine ⟨(c₂, c₂.error), ?_,
        ⟨hlook.trans (hkept.trans (hone.kept.trans hall.kept)), ?_, ?_⟩, ?_⟩
      · rw [if_pos (by exact_mod_cast hburst), ok_bind (getRegisterIndex_eq h r.addr),
          dichotomySearch_at h.sorted hget]
        dsimp only
        rw [if_pos ((show Ready { c with lastRegIndex := k } from hlook.ready).check hk hn), ok_bind hdata]
        dsimp only
        rw [ok_bind (modifyAt_eq (by rwa [himage]) _), modify_eq_modifyRange,
          ok_bind (modifyAll_eq _ (by
            rw [length_modifyRange, himage]
            exact hk)), Int.toNat_natCast, hc₂, hc₁, hsized]
        rfl
      · exact hall.before.trans (hone.before.trans (by rw [himage]))
      · have hdrop := congrArg (List.drop (n - 1)) hone.behind
        rw [List.drop_drop, List.drop_drop, show k + 1 + (n - 1) = k + n by omega] at hdrop
        exact hall.behind.trans (hdrop.trans (by rw [himage]))
      · rw [if_neg fun hnot => hnot.2 hburst, hc₂, hc₁]
        exact herror'
    · rw [if_neg (by exact_mod_cast hburst)]
      refine ⟨_, rfl, .of_image (h.kept rfl rfl rfl rfl rfl) rfl, ?_⟩
      rw [if_pos ⟨herror, hburst⟩]
  · rw [if_neg herror]
    refine ⟨_, rfl, .of_image (.refl h) rfl, ?_⟩
    rw [if_neg fun hnot => herror hnot.1]

/-- A burst that is larger than the buffer of the transfer. -/
theorem getRegisters_overrun (h : c.Ready) (hget : c.regMapImage[k]? = some r) (hn : 0 < n)
    (hk : k + n ≤ c.regMapImage.length) (herror : c.error = noError) (hburst : n < 70)
    (hfits : 100 < nbdata ((c.regMapImage.drop k).take n)) :
    c.getRegisters bus r.addr n = .error .data := by
  have hlt : k < c.regMapImage.length := by omega
  have hready : Ready { c with lastRegIndex := k } :=
    ⟨h.sorted, Int.natCast_nonneg k, Int.ofNat_lt.mpr hlt, h.active⟩
  rw [getRegisters, if_pos herror, if_pos h.active, if_pos (by exact_mod_cast hburst),
    ok_bind (getRegisterIndex_eq h r.addr), dichotomySearch_at h.sorted hget]
  dsimp only
  rw [if_pos (hready.check hk hn)]
  rw [readData_overrun (c := { c with lastRegIndex := k }) hk hlt hfits]
  rfl

/-! ### The passes of a read -/

theorem runLength_pos (a : UInt16) (rs : List ChipRegister) :
    0 < runLength a 1 rs ∧ runLength a 1 rs ≤ rs.length + 1 := by
  have hle := runLength_le a rs 1
  omega

theorem fits_nil (error : UInt32) : Fits error [] := by
  rw [Fits, bursts]
  exact fun _ b hb => absurd hb List.not_mem_nil

theorem fits_cons (error : UInt32) (r : ChipRegister) (rs : List ChipRegister) :
    Fits error (r :: rs) ↔
      (error = noError → runLength r.addr 1 rs < 70 →
        nbdata ((r :: rs).take (runLength r.addr 1 rs)) ≤ 100) ∧
      Fits (burstError error (runLength r.addr 1 rs)) ((r :: rs).drop (runLength r.addr 1 rs)) := by
  obtain ⟨n, hn⟩ := Nat.exists_eq_succ_of_ne_zero (runLength_pos r.addr rs).1.ne'
  have hle := (runLength_pos r.addr rs).2
  rw [Fits, bursts, burstError]
  rw [hn] at hle ⊢
  rw [Nat.succ_eq_add_one, Nat.add_sub_cancel, List.take_succ_cons, List.drop_succ_cons]
  have hlen : (r :: rs.take n).length = n + 1 := by
    rw [List.length_cons, List.length_take, Nat.min_eq_left (by omega)]
  by_cases herror : error = noError
  · by_cases hburst : n + 1 < 70
    · rw [if_neg fun hnot => hnot.2 hburst, List.takeWhile_cons_of_pos (by
        rw [hlen]
        exact decide_eq_true hburst)]
      constructor
      · intro h
        exact ⟨fun _ _ => h herror _ List.mem_cons_self,
          fun _ b hb => h herror b (List.mem_cons_of_mem _ hb)⟩
      · rintro ⟨hhead, hrest⟩ _ b hb
        rcases List.mem_cons.mp hb with rfl | hb
        · exact hhead herror hburst
        · exact hrest herror b hb
    · rw [if_pos ⟨herror, hburst⟩, List.takeWhile_cons_of_neg (by
        rw [hlen]
        exact fun hlt => hburst (of_decide_eq_true hlt))]
      constructor
      · exact fun _ => ⟨fun _ hlt => absurd hlt hburst, fun hnot => absurd hnot (by decide)⟩
      · exact fun _ _ b hb => absurd hb List.not_mem_nil
  · rw [if_neg fun hnot => herror hnot.1]
    constructor
    · exact fun _ => ⟨fun heq => absurd heq herror, fun heq => absurd heq herror⟩
    · exact fun _ heq => absurd heq herror

/-- The bytes of `m` entries of the image. -/
def entryBytes (c : ChipInfo σ) (k m : ℕ) : List UInt8 :=
  ((c.regMapImage.drop k).take m).flatMap ChipRegister.bytes

theorem length_bytes (r : ChipRegister) : r.bytes.length = 16 := rfl

theorem length_entryBytes (hk : k + m ≤ c.regMapImage.length) : (c.entryBytes k m).length = 16 * m := by
  rw [entryBytes, Records.length_rows length_bytes, List.length_take, List.length_drop,
    Nat.min_eq_left (by omega)]

theorem Rewrites.entryBytes_eq (h : Rewrites c c' (k + n) m) : c'.entryBytes k n = c.entryBytes k n := by
  rw [entryBytes, entryBytes, List.take_drop, List.take_drop, h.before]

theorem entryBytes_add (c : ChipInfo σ) (k n m : ℕ) :
    c.entryBytes k (n + m) = c.entryBytes k n ++ c.entryBytes (k + n) m := by
  rw [entryBytes, List.take_add, List.flatMap_append, List.drop_drop]
  rfl

/-- A burst at the `k`-th entry, where `rs` is what is to be read behind it. -/
structure BurstAt (c : ChipInfo σ) (k n : ℕ) (r : ChipRegister) (rs tail : List ChipRegister) : Prop where
  runLength : runLength r.addr 1 rs = n
  image : c.regMapImage.drop k = r :: rs ++ tail

namespace BurstAt

variable {rs tail : List ChipRegister}

theorem pos (h : BurstAt c k n r rs tail) : 0 < n := h.runLength ▸ (runLength_pos r.addr rs).1

theorem le (h : BurstAt c k n r rs tail) : n ≤ rs.length + 1 := h.runLength ▸ (runLength_pos r.addr rs).2

theorem getElem (h : BurstAt c k n r rs tail) : c.regMapImage[k]? = some r := by
  rw [← Nat.add_zero k, ← List.getElem?_drop, h.image]
  rfl

theorem bound (h : BurstAt c k n r rs tail) : k + (rs.length + 1) ≤ c.regMapImage.length := by
  have hlen := congrArg List.length h.image
  rw [List.length_drop, List.length_append, List.length_cons] at hlen
  omega

theorem registers (h : BurstAt c k n r rs tail) :
    (c.regMapImage.drop k).take n = (r :: rs).take n := by
  rw [h.image, List.take_append_of_le_length (by
    rw [List.length_cons]
    exact h.le)]

theorem rest (h : BurstAt c k n r rs tail) (hone : Rewrites c c' k n) :
    c'.regMapImage.drop (k + n) = (r :: rs).drop n ++ tail := by
  rw [hone.behind, ← List.drop_drop, h.image, List.drop_append_of_le_length (by
    rw [List.length_cons]
    exact h.le)]

/-- The pass of the loop that reads the burst. -/
theorem readLoop_eq (h : BurstAt c k n r rs tail) {q : ChipInfo σ × UInt32}
    (hread : c.getRegisters bus r.addr n = .ok q) (hone : Rewrites c q.1 k n) (p fuel : ℕ)
    (buf : ℕ → UInt8) (ret : ℕ) :
    readLoop bus (k + (rs.length + 1) : ℕ) p (fuel + 1) c buf k ret =
      readLoop bus (k + n + ((r :: rs).drop n).length : ℕ) p fuel q.1
        (Memory.overwrite buf (p + ret) (q.1.entryBytes k n)) (k + n : ℕ) (ret + 16 * n) := by
  have hbound := h.bound
  have hle := h.le
  have hburst := burstLoop_first h.image
  rw [h.runLength] at hburst
  have hlast : k + n + ((r :: rs).drop n).length = k + (rs.length + 1) := by
    rw [List.length_drop, List.length_cons]
    omega
  rw [readLoop, if_pos (by omega), ok_bind (regAt_eq h.getElem), ok_bind hburst]
  dsimp only
  rw [ok_bind hread, ok_bind (registersAt_eq (n := n) (by
    rw [Int.toNat_natCast, hone.length_eq]
    omega)), hlast]
  rfl

end BurstAt

/-- The entries of a read, burst by burst. -/
theorem readLoop_reads (hack : bus.Acknowledges) {fuel : ℕ} {rs tail : List ChipRegister} (h : c.Ready)
    (himage : c.regMapImage.drop k = rs ++ tail) (hfuel : rs.length ≤ fuel) (hfits : Fits c.error rs) :
    ∃ c', Rewrites c c' k rs.length ∧ ∀ p buf ret,
      readLoop bus (k + rs.length : ℕ) p fuel c buf k ret =
        .ok (c', Memory.overwrite buf (p + ret) (c'.entryBytes k rs.length), ret + 16 * rs.length) := by
  induction fuel generalizing c k rs with
  | zero =>
    obtain rfl := List.eq_nil_of_length_eq_zero (Nat.le_zero.mp hfuel)
    refine ⟨c, .of_image (.refl h) rfl, fun p buf ret => ?_⟩
    rw [readLoop, List.length_nil, entryBytes, List.take_zero, List.flatMap_nil,
      Memory.overwrite_nil]
    rfl
  | succ fuel ih =>
    cases rs with
    | nil =>
      refine ⟨c, .of_image (.refl h) rfl, fun p buf ret => ?_⟩
      rw [readLoop, List.length_nil, if_neg (by omega), entryBytes, List.take_zero, List.flatMap_nil,
        Memory.overwrite_nil]
      rfl
    | cons r rs =>
      obtain ⟨hhead, hrest⟩ := (fits_cons _ _ _).mp hfits
      obtain ⟨n, hburst⟩ : ∃ n, BurstAt c k n r rs tail := ⟨_, rfl, himage⟩
      rw [hburst.runLength] at hhead hrest
      rw [List.length_cons] at hfuel ⊢
      have hpos := hburst.pos
      have hle := hburst.le
      have hbound := hburst.bound
      obtain ⟨q, hread, hone, herror⟩ := getRegisters_reads hack h hburst.getElem hpos (n := n) (by omega)
        (by rwa [hburst.registers])
      have hm : ((r :: rs).drop n).length = rs.length + 1 - n := by
        rw [List.length_drop, List.length_cons]
      obtain ⟨c', hrewrites, hloop⟩ := ih hone.kept.ready (hburst.rest hone) (by omega)
        (herror ▸ hrest)
      have hsum : n + ((r :: rs).drop n).length = rs.length + 1 := by omega
      have hlen : (q.1.entryBytes k n).length = 16 * n :=
        length_entryBytes (by rw [hone.length_eq]; omega)
      have hall := hone.trans hrewrites
      rw [hsum] at hall
      refine ⟨c', hall, fun p buf ret => ?_⟩
      rw [hburst.readLoop_eq hread hone, hloop, ← hlen, ← Nat.add_assoc p, Memory.overwrite_append,
        ← hrewrites.entryBytes_eq, ← entryBytes_add, hsum, hrewrites.entryBytes_eq, hlen]
      refine congrArg (fun n => Except.ok (c', _, n)) ?_
      omega

/-- One of the bursts does not fit. -/
theorem readLoop_overrun (hack : bus.Acknowledges) {fuel : ℕ} {rs tail : List ChipRegister}
    (h : c.Ready) (himage : c.regMapImage.drop k = rs ++ tail) (hfuel : rs.length ≤ fuel)
    (hfits : ¬Fits c.error rs) (p : ℕ) (buf : ℕ → UInt8) (ret : ℕ) :
    readLoop bus (k + rs.length : ℕ) p fuel c buf k ret = .error .data := by
  induction fuel generalizing c k rs buf ret with
  | zero =>
    obtain rfl := List.eq_nil_of_length_eq_zero (Nat.le_zero.mp hfuel)
    exact absurd (fits_nil c.error) hfits
  | succ fuel ih =>
    cases rs with
    | nil => exact absurd (fits_nil c.error) hfits
    | cons r rs =>
      obtain ⟨n, hburst⟩ : ∃ n, BurstAt c k n r rs tail := ⟨_, rfl, himage⟩
      have hpos := hburst.pos
      have hbound := hburst.bound
      have hle := hburst.le
      by_cases hhead : c.error = noError → n < 70 → nbdata ((c.regMapImage.drop k).take n) ≤ 100
      · obtain ⟨q, hread, hone, herror⟩ := getRegisters_reads hack h hburst.getElem hpos (by omega) hhead
        have hrest : ¬Fits q.1.error ((r :: rs).drop n) := by
          intro hrest
          refine hfits ((fits_cons _ _ _).mpr ?_)
          rw [hburst.runLength]
          exact ⟨by rwa [← hburst.registers], herror ▸ hrest⟩
        have hm : ((r :: rs).drop n).length ≤ fuel := by
          rw [List.length_drop, List.length_cons]
          rw [List.length_cons] at hfuel
          omega
        rw [List.length_cons, hburst.readLoop_eq hread hone]
        exact ih hone.kept.ready (hburst.rest hone) hm hrest _ _
      · obtain ⟨herror, hlt, hdata⟩ : c.error = noError ∧ n < 70 ∧
            100 < nbdata ((c.regMapImage.drop k).take n) := by
          by_contra hnot
          exact hhead fun herror hlt => Nat.not_lt.mp fun hdata => hnot ⟨herror, hlt, hdata⟩
        have hover := @getRegisters_overrun _ _ bus _ _ _ h hburst.getElem hpos (by omega) herror hlt hdata
        have hloop := burstLoop_first himage
        rw [hburst.runLength] at hloop
        rw [List.length_cons, readLoop, if_pos (by omega), ok_bind (regAt_eq hburst.getElem),
          ok_bind hloop]
        dsimp only
        rw [hover]
        rfl

/-! ### Whole entries -/

theorem s32_eq_emod (x : ℤ) :
    s32 x = if x % 2 ^ 32 < 2 ^ 31 then x % 2 ^ 32 else x % 2 ^ 32 - 2 ^ 32 :=
  Int32.toInt_ofInt

/-- A read that begins behind the map. -/
theorem entries_behind (buf : ℕ → UInt8) (p : ℕ) {offset len : ℕ} (hlen : len < 2 ^ 31)
    (h : c.nbRegs ≤ s32 (offset / 16 : ℕ)) : c.registersRead_ bus buf p offset len = .ok (c, buf, 0) := by
  have hnum : s32 (len / 16 : ℕ) = (len / 16 : ℕ) := s32_eq (by omega) (by omega)
  rw [registersRead_, hnum]
  have hrange := s32_eq_emod (offset / 16 : ℕ)
  have hnb : 0 ≤ c.nbRegs := Int.natCast_nonneg _
  generalize s32 (offset / 16 : ℕ) = first at h hrange ⊢
  have hfirst : first < 2 ^ 31 := by
    rw [hrange]
    split <;> omega
  split
  · rename_i hclip
    rw [s32_eq (by omega) (by omega), if_pos (by omega)]
    rfl
  · rename_i hclip
    split
    · rfl
    · rename_i hnum
      have hlast : s32 (first + (len / 16 : ℕ)) ≤ first := by
        rw [s32_eq_emod] at hclip ⊢
        rw [Int.add_comm] at hclip
        split
        · rename_i hlow
          rw [if_pos hlow] at hclip
          omega
        · omega
      obtain ⟨fuel, hfuel⟩ : ∃ fuel, (((len / 16 : ℕ) : ℤ)).toNat = fuel := ⟨_, rfl⟩
      rw [hfuel]
      cases fuel with
      | zero => rfl
      | succ fuel =>
        rw [readLoop, if_neg (by omega)]
        rfl

/-- A read whose first entry is not one of an array. -/
theorem entries_before (buf : ℕ → UInt8) (p : ℕ) {offset len : ℕ} (hlen : len < 2 ^ 31)
    (hpos : 16 ≤ len) (hlength : c.regMapImage.length ≤ 65536) (h : s32 (offset / 16 : ℕ) < 0) :
    c.registersRead_ bus buf p offset len = .error .image := by
  have hnum : s32 (len / 16 : ℕ) = (len / 16 : ℕ) := s32_eq (by omega) (by omega)
  have hrange := s32_eq_emod (offset / 16 : ℕ)
  have hnb : c.nbRegs = c.regMapImage.length := rfl
  rw [registersRead_, hnum]
  generalize s32 (offset / 16 : ℕ) = first at h hrange ⊢
  have hfirst : -2 ^ 31 ≤ first := by
    rw [hrange]
    split <;> omega
  rw [s32_eq (x := ((len / 16 : ℕ) : ℤ) + first) (by omega) (by omega)]
  split
  · rename_i hclip
    rw [s32_eq (x := c.nbRegs - first) (by omega) (by omega), if_neg (by omega),
      s32_eq (by omega) (by omega)]
    obtain ⟨fuel, hfuel⟩ := Nat.exists_eq_succ_of_ne_zero (n := (c.nbRegs - first).toNat) (by omega)
    rw [hfuel, readLoop, if_pos (by omega), regAt, if_neg (by omega)]
    rfl
  · rename_i hclip
    rw [if_neg (by omega), s32_eq (by omega) (by omega)]
    obtain ⟨fuel, hfuel⟩ :=
      Nat.exists_eq_succ_of_ne_zero (n := (((len / 16 : ℕ) : ℤ)).toNat) (by omega)
    rw [hfuel, readLoop, if_pos (by omega), regAt, if_neg (by omega)]
    rfl

/-- The entries that a read covers. -/
def covered (c : ChipInfo σ) (k len : ℕ) : ℕ := min (len / 16) (c.regMapImage.length - k)

theorem entries_eq (buf : ℕ → UInt8) (p : ℕ) {offset len : ℕ} (hlen : len < 2 ^ 31)
    (hpos : 16 ≤ len) (hlength : c.regMapImage.length ≤ 65536) (hk : s32 (offset / 16 : ℕ) = k)
    (hlt : k < c.regMapImage.length) :
    c.registersRead_ bus buf p offset len =
      readLoop bus (k + c.covered k len : ℕ) p (c.covered k len) c buf k 0 := by
  have hnum : s32 (len / 16 : ℕ) = (len / 16 : ℕ) := s32_eq (by omega) (by omega)
  have hnb : c.nbRegs = c.regMapImage.length := rfl
  rw [registersRead_, hnum, hk]
  rw [s32_eq (x := ((len / 16 : ℕ) : ℤ) + k) (by omega) (by omega)]
  have hclip : (if c.nbRegs < ((len / 16 : ℕ) : ℤ) + k then s32 (c.nbRegs - k)
      else ((len / 16 : ℕ) : ℤ)) = (c.covered k len : ℕ) := by
    rw [covered]
    split
    · rw [s32_eq (by omega) (by omega)]
      omega
    · omega
  rw [hclip]
  have hcov : 0 < c.covered k len ∧ c.covered k len ≤ c.regMapImage.length := by
    rw [covered]
    omega
  rw [if_neg (by omega), s32_eq (by omega) (by omega), Int.toNat_natCast]
  rfl

theorem length_covered (c : ChipInfo σ) (k len : ℕ) :
    ((c.regMapImage.drop k).take (c.covered k len)).length = c.covered k len := by
  rw [List.length_take, List.length_drop, covered, Nat.min_eq_left (Nat.min_le_right _ _)]

/-- Whole entries of the map are read. -/
theorem entries_read (hack : bus.Acknowledges) (h : c.Ready) {offset len : ℕ} (hlen : len < 2 ^ 31)
    (hpos : 16 ≤ len) (hk : s32 (offset / 16 : ℕ) = k) (hlt : k < c.regMapImage.length)
    (hfits : Fits c.error ((c.regMapImage.drop k).take (c.covered k len))) :
    ∃ c', Rewrites c c' k (c.covered k len) ∧ ∀ p buf, c.registersRead_ bus buf p offset len =
      .ok (c', Memory.overwrite buf p (c'.entryBytes k (c.covered k len)), 16 * c.covered k len) := by
  have hcov := length_covered c k len
  obtain ⟨c', hrewrites, hloop⟩ := readLoop_reads hack h
    (List.take_append_drop (c.covered k len) (c.regMapImage.drop k)).symm hcov.le hfits
  rw [hcov] at hrewrites hloop
  refine ⟨c', hrewrites, fun p buf => ?_⟩
  rw [entries_eq buf p hlen hpos h.length_le hk hlt, hloop, Nat.zero_add]
  rfl

theorem entries_overrun (hack : bus.Acknowledges) (h : c.Ready) {offset len : ℕ} (hlen : len < 2 ^ 31)
    (hpos : 16 ≤ len) (hk : s32 (offset / 16 : ℕ) = k) (hlt : k < c.regMapImage.length)
    (hfits : ¬Fits c.error ((c.regMapImage.drop k).take (c.covered k len))) (p : ℕ)
    (buf : ℕ → UInt8) : c.registersRead_ bus buf p offset len = .error .data := by
  have hcov := length_covered c k len
  have hloop := readLoop_overrun hack h
    (List.take_append_drop (c.covered k len) (c.regMapImage.drop k)).symm hcov.le hfits p buf 0
  rw [hcov] at hloop
  rw [entries_eq buf p hlen hpos h.length_le hk hlt, hloop]

theorem fits_one (error : UInt32) (r : ChipRegister) : Fits error [r] := by
  refine (fits_cons _ _ _).mpr ⟨fun _ _ => ?_, fits_nil _⟩
  rw [show runLength r.addr 1 [] = 1 from rfl, List.take_succ_cons, List.take_zero]
  have hsize : nbdata [r] ≤ r.size.bytes := by
    rw [nbdata, List.map_singleton, List.sum_singleton]
    exact Nat.mod_le _ _
  cases hr : r.size <;> rw [hr] at hsize <;> exact hsize.trans (by decide)

/-- One entry is read, into a buffer of its own. -/
theorem entry_read (hack : bus.Acknowledges) (h : c.Ready) {offset : ℕ}
    (hk : s32 (offset / 16 : ℕ) = k) (hlt : k < c.regMapImage.length) :
    ∃ c', Rewrites c c' k 1 ∧ ∀ p buf, c.registersRead_ bus buf p offset 16 =
      .ok (c', Memory.overwrite buf p (c'.entryBytes k 1), 16) := by
  have hcov : c.covered k 16 = 1 := by
    rw [covered]
    omega
  have hread := @entries_read _ _ _ _ hack h offset 16 (by decide) le_rfl hk hlt
  rw [hcov, List.drop_eq_getElem_cons hlt] at hread
  exact hread (fits_one _ _)

/-! ### Reads -/

/-- The bytes of whole entries in a length, in the `int` that counts them. -/
def wholeLength (len : ℕ) : ℤ := s32 (len - len % 16 : ℕ)

def imageBytes (c : ChipInfo σ) : List UInt8 := c.regMapImage.flatMap ChipRegister.bytes

theorem length_imageBytes (c : ChipInfo σ) : c.imageBytes.length = 16 * c.regMapImage.length :=
  Records.length_rows length_bytes _

theorem entryBytes_eq (c : ChipInfo σ) (k m : ℕ) :
    c.entryBytes k m = (c.imageBytes.drop (16 * k)).take (16 * m) := by
  rw [entryBytes, Records.take_rows length_bytes, Records.drop_rows length_bytes]
  rfl

theorem tempBytes_overrun {x : ℕ} (temp : ℕ → UInt8) (h : 16 < x + n) :
    tempBytes temp x n = .error .data := if_pos h

theorem tempBytes_eq {x : ℕ} {l : List UInt8} (buf : ℕ → UInt8) (hl : l.length = 16)
    (h : x + n ≤ 16) : tempBytes (Memory.overwrite buf 0 l) x n = .ok ((l.drop x).take n) := by
  rw [tempBytes, if_neg (by omega), ← Nat.zero_add x, Memory.block_overwrite_inside (by omega),
    Nat.zero_add]

theorem readEnd_behind (buf : ℕ → UInt8) {offset : ℕ} (x ret : ℕ)
    (h : c.nbRegs ≤ s32 (offset / 16 : ℕ)) : c.readEnd bus buf offset x ret = .ok (c, buf, ret) := by
  rw [readEnd, ok_bind (entries_behind _ _ (by decide) h)]
  rfl

theorem readEnd_before (buf : ℕ → UInt8) {offset : ℕ} (x ret : ℕ)
    (hlength : c.regMapImage.length ≤ 65536) (h : s32 (offset / 16 : ℕ) < 0) :
    c.readEnd bus buf offset x ret = .error .image := by
  rw [readEnd, entries_before _ _ (by decide) le_rfl hlength h]
  rfl

/-- The partial read at the end counts all bytes of the entry. -/
theorem readEnd_entry (hack : bus.Acknowledges) (h : c.Ready) {offset x : ℕ} (hx : x < 16)
    (hk : s32 (offset / 16 : ℕ) = k) (hlt : k < c.regMapImage.length) :
    ∃ c' tail, tail.length = x ∧ ∀ buf ret, c.readEnd bus buf offset x ret =
      .ok (c', Memory.overwrite buf ret tail, ret + 16) := by
  obtain ⟨c', hrewrites, hread⟩ := entry_read hack h hk hlt
  have hlen : (c'.entryBytes k 1).length = 16 :=
    length_entryBytes (by rw [hrewrites.length_eq]; omega)
  refine ⟨c', (c'.entryBytes k 1).take x, by rw [List.length_take]; omega, fun buf ret => ?_⟩
  rw [readEnd, ok_bind (hread 0 _)]
  dsimp only
  rw [if_neg (by decide), ok_bind (tempBytes_eq _ hlen (by omega)), List.drop_zero]
  rfl

/-- The chip of a register map, which may be empty. -/
def Mapped (c : ChipInfo σ) : Prop := c.regMapImage = [] ∨ c.Ready

theorem Mapped.length_le (h : c.Mapped) : c.regMapImage.length ≤ 65536 := by
  rcases h with hnil | h
  · rw [hnil]
    decide
  · exact h.length_le

theorem Mapped.ready (h : c.Mapped) (hlt : k < c.regMapImage.length) : c.Ready := by
  rcases h with hnil | h
  · rw [hnil] at hlt
    exact absurd hlt (Nat.not_lt_zero k)
  · exact h

theorem read_behind (buf : ℕ → UInt8) {offset : ℕ} (len : ℕ) (h : c.nbRegs ≤ s32 (offset / 16 : ℕ)) :
    c.registersRead bus buf offset len = .ok (c, buf, 0) := by
  rw [registersRead]
  split
  · rename_i hx
    have hentry : (offset - offset % 16) / 16 = offset / 16 := by omega
    rw [ok_bind (entries_behind _ _ (by decide) (by rwa [hentry]))]
    dsimp only
    rw [Nat.zero_min, tempBytes, if_neg (by omega), Faults.ok_bind rfl, if_pos (.inr (by omega)),
      Memory.block_zero, Memory.overwrite_nil]
    rfl
  · rw [readWhole]
    have hwhole : s32 (len - len % 16 : ℕ) < 2 ^ 31 := by
      rw [s32_eq_emod]
      split <;> omega
    split
    · rw [ok_bind (entries_behind _ _ (by omega) h)]
      dsimp only
      rw [if_pos (.inr (by omega))]
      rfl
    · exact readEnd_behind _ _ _ h

theorem read_before (buf : ℕ → UInt8) {offset : ℕ} (len : ℕ) (h : c.Mapped)
    (hfirst : s32 (offset / 16 : ℕ) < 0) : c.registersRead bus buf offset len = .error .image := by
  rw [registersRead]
  split
  · rename_i hx
    have hentry : (offset - offset % 16) / 16 = offset / 16 := by omega
    rw [entries_before _ _ (by decide) le_rfl h.length_le (by rwa [hentry])]
    rfl
  · rw [readWhole]
    have hwhole : s32 (len - len % 16 : ℕ) < 2 ^ 31 ∧ s32 (len - len % 16 : ℕ) % 16 = 0 := by
      rw [s32_eq_emod]
      split <;> omega
    split
    · rw [entries_before _ _ (by omega) (by omega) h.length_le hfirst]
      rfl
    · exact readEnd_before _ _ _ h.length_le hfirst

/-- A read within one entry. -/
theorem read_within (hack : bus.Acknowledges) (h : c.Ready) {offset len : ℕ} (hx : 0 < offset % 16)
    (hend : offset % 16 + len ≤ 16) (hk : s32 (offset / 16 : ℕ) = k) (hlt : k < c.regMapImage.length) :
    ∃ c', Rewrites c c' k 1 ∧ ∀ buf, c.registersRead bus buf offset len =
      .ok (c', Memory.overwrite buf 0 (((c'.entryBytes k 1).drop (offset % 16)).take len), len) := by
  have hentry : (offset - offset % 16) / 16 = offset / 16 := by omega
  obtain ⟨c', hrewrites, hread⟩ :=
    @entry_read _ _ _ _ hack h (offset - offset % 16) (by rwa [hentry]) hlt
  have hlen : (c'.entryBytes k 1).length = 16 :=
    length_entryBytes (by rw [hrewrites.length_eq]; omega)
  refine ⟨c', hrewrites, fun buf => ?_⟩
  rw [registersRead, if_pos hx, ok_bind (hread 0 _)]
  dsimp only
  rw [Nat.min_eq_right (by omega), ok_bind (tempBytes_eq _ hlen hend), if_pos (.inl (Nat.sub_self len))]
  rfl

/-- A read that goes on behind an entry that it begins in. -/
theorem read_across (hack : bus.Acknowledges) (h : c.Ready) (buf : ℕ → UInt8) {offset len : ℕ}
    (hx : 0 < offset % 16) (hend : 16 < offset % 16 + len) (hk : s32 (offset / 16 : ℕ) = k)
    (hlt : k < c.regMapImage.length) : c.registersRead bus buf offset len = .error .data := by
  have hentry : (offset - offset % 16) / 16 = offset / 16 := by omega
  obtain ⟨c', hrewrites, hread⟩ :=
    @entry_read _ _ _ _ hack h (offset - offset % 16) (by rwa [hentry]) hlt
  rw [registersRead, if_pos hx, ok_bind (hread 0 _)]
  dsimp only
  rw [tempBytes_overrun _ (by omega)]
  rfl

/-- The bytes that a read has to return. -/
def bytesLeft (c : ChipInfo σ) (offset len : ℕ) : ℕ := min len (16 * c.regMapImage.length - offset)

/-- The bytes are those of the image, as the read has left it, and no others are written. -/
def Exact (bus : I2cHost σ) (c : ChipInfo σ) (offset len : ℕ) : Prop :=
  ∀ buf, ∃ c' buf', c.registersRead bus buf offset len = .ok (c', buf', c.bytesLeft offset len) ∧
    c'.addresses = c.addresses ∧
    Memory.block buf' 0 (c.bytesLeft offset len) = (c'.imageBytes.drop offset).take len ∧
    ∀ j, len ≤ j → buf' j = buf j

/-- A read behind the map, or within one entry, or of whole entries that are all there are or all that
    is asked for. -/
def Served (c : ChipInfo σ) (offset len : ℕ) : Prop :=
  let first := s32 (offset / 16 : ℕ)
  c.nbRegs ≤ first ∨
    0 ≤ first ∧
      if 0 < offset % 16 then len = 0 ∨ first = (offset / 16 : ℕ) ∧ offset % 16 + len ≤ 16
      else
        first = (offset / 16 : ℕ) ∧ 0 < wholeLength len ∧
          (wholeLength len = len ∨ c.nbRegs ≤ first + wholeLength len / 16) ∧
          Fits c.error ((c.regMapImage.drop (offset / 16)).take (wholeLength len / 16).toNat)

theorem Exact.count {offset len : ℕ} (h : Exact bus c offset len) {buf : ℕ → UInt8}
    {q : ChipInfo σ × (ℕ → UInt8) × ℕ} (hrun : c.registersRead bus buf offset len = .ok q) :
    q.2.2 = c.bytesLeft offset len := by
  obtain ⟨c', buf', hread, -⟩ := h buf
  rw [hread] at hrun
  rw [← Except.ok.inj hrun]

theorem not_exact_of_error {offset len : ℕ} {e : Fault}
    (h : ∀ buf, c.registersRead bus buf offset len = .error e) : ¬Exact bus c offset len := by
  intro hexact
  obtain ⟨c', buf', hread, -⟩ := hexact fun _ => 0
  rw [h] at hread
  exact nomatch hread

/-- A byte that is counted and not written. -/
theorem not_exact_of_unwritten {offset len j : ℕ} {f : (ℕ → UInt8) → ℕ → UInt8} (hj : j < n)
    (hrun : ∀ buf, c.registersRead bus buf offset len = .ok (c', f buf, n))
    (hf : ∀ buf, f buf j = buf j) : ¬Exact bus c offset len := by
  intro hexact
  have hbyte : ∀ b : UInt8, b = ((c'.imageBytes.drop offset).take len).getD j 0 := by
    intro b
    obtain ⟨c₁, buf₁, hread, -, hblock, -⟩ := hexact fun _ => b
    rw [hrun] at hread
    obtain ⟨rfl, rfl, hn⟩ : c' = c₁ ∧ f (fun _ => b) = buf₁ ∧ n = c.bytesLeft offset len := by
      simpa using hread
    rw [← hblock, Memory.getD_block (by omega), Nat.zero_add, hf]
  exact absurd ((hbyte 0).trans (hbyte 1).symm) (by decide)

theorem wholeLength_lt (len : ℕ) : wholeLength len < 2 ^ 31 ∧ wholeLength len % 16 = 0 := by
  rw [wholeLength, s32_eq_emod]
  split <;> omega

theorem wholeLength_le (len : ℕ) : wholeLength len ≤ len ∧
    (wholeLength len = len - len % 16 ∨ wholeLength len + 2 ^ 31 ≤ len) := by
  rw [wholeLength, s32_eq_emod]
  split <;> omega

/-- A read at an entry, where there are whole ones to be read. -/
theorem read_whole_eq (buf : ℕ → UInt8) {offset len : ℕ} (hx : offset % 16 = 0)
    (hpos : 0 < wholeLength len) {q : ChipInfo σ × (ℕ → UInt8) × ℕ}
    (hread : c.registersRead_ bus buf 0 offset (wholeLength len).toNat = .ok q) :
    c.registersRead bus buf offset len =
      if len - q.2.2 = 0 ∨ (q.2.2 : ℤ) < wholeLength len then .ok q
      else q.1.readEnd bus q.2.1 (offset + q.2.2) (len % 16) q.2.2 := by
  rw [wholeLength] at hpos hread
  rw [registersRead, if_neg (by omega), readWhole, if_pos hpos, ok_bind hread]
  dsimp only
  rw [Nat.zero_add]
  rfl

/-- Where there are none. -/
theorem read_part_eq (buf : ℕ → UInt8) {offset len : ℕ} (hx : offset % 16 = 0)
    (hpos : ¬0 < wholeLength len) :
    c.registersRead bus buf offset len = c.readEnd bus buf offset (len % 16) 0 := by
  rw [wholeLength] at hpos
  rw [registersRead, if_neg (by omega), readWhole, if_neg hpos]

theorem take_covered (hk : 0 < wholeLength n) :
    (c.regMapImage.drop k).take (c.covered k (wholeLength n).toNat) =
      (c.regMapImage.drop k).take (wholeLength n / 16).toNat := by
  refine List.take_eq_take_iff.mpr ?_
  rw [covered, List.length_drop]
  omega

theorem Rewrites.nbRegs_eq (h : Rewrites c c' k n) : c'.nbRegs = c.regMapImage.length := h.kept.nbRegs_eq

/-- A read of whole entries that is served. -/
theorem read_entries (hack : bus.Acknowledges) (h : c.Ready) {offset len : ℕ} (hx : offset % 16 = 0)
    (hfirst : s32 (offset / 16 : ℕ) = (offset / 16 : ℕ)) (hlt : offset / 16 < c.regMapImage.length)
    (hpos : 0 < wholeLength len)
    (hend : wholeLength len = len ∨ c.nbRegs ≤ (offset / 16 : ℕ) + wholeLength len / 16)
    (hfits : Fits c.error ((c.regMapImage.drop (offset / 16)).take (wholeLength len / 16).toNat)) :
    ∃ c' n, Rewrites c c' (offset / 16) n ∧ 16 * n = c.bytesLeft offset len ∧
      ∀ buf, c.registersRead bus buf offset len =
        .ok (c', Memory.overwrite buf 0 (c'.entryBytes (offset / 16) n), 16 * n) := by
  have hwhole := wholeLength_lt len
  have hlen := wholeLength_le len
  have hlength := h.length_le
  have hnb : c.nbRegs = c.regMapImage.length := rfl
  obtain ⟨c', hrewrites, hread⟩ := @entries_read _ _ _ _ hack h _ ((wholeLength len).toNat) (by omega)
    (by omega) hfirst hlt (by rwa [take_covered hpos])
  obtain ⟨n, hn⟩ : ∃ n, c.covered (offset / 16) (wholeLength len).toNat = n := ⟨_, rfl⟩
  have hcov : n = min ((wholeLength len).toNat / 16) (c.regMapImage.length - offset / 16) := hn.symm
  rw [hn] at hrewrites hread
  refine ⟨c', n, hrewrites, ?_, fun buf => ?_⟩
  · rw [bytesLeft]
    omega
  · rw [read_whole_eq buf hx hpos (hread 0 buf)]
    dsimp only
    split
    · rfl
    · rename_i hmore
      have hdone : offset / 16 + n = c.regMapImage.length := by omega
      refine readEnd_behind _ _ _ ?_
      rw [hrewrites.nbRegs_eq, show (offset + 16 * n) / 16 = offset / 16 + n by omega, hdone,
        s32_eq (by omega) (by omega)]

theorem take_bytesLeft (hlen : c'.regMapImage.length = c.regMapImage.length) (offset len : ℕ) :
    (c'.imageBytes.drop offset).take (c.bytesLeft offset len) = (c'.imageBytes.drop offset).take len := by
  refine List.take_eq_take_iff.mpr ?_
  rw [List.length_drop, length_imageBytes, hlen, bytesLeft]
  omega

/-- What is written, and counted, is what is left. -/
theorem exact_of_written {offset len : ℕ} {l : List UInt8} (hkept : Kept c c')
    (hrun : ∀ buf, c.registersRead bus buf offset len =
      .ok (c', Memory.overwrite buf 0 l, c.bytesLeft offset len))
    (hl : l = (c'.imageBytes.drop offset).take len) : Exact bus c offset len := by
  have hnb := hkept.nbRegs_eq
  rw [nbRegs, nbRegs] at hnb
  have hlen : l.length = c.bytesLeft offset len := by
    rw [hl, List.length_take, List.length_drop, length_imageBytes, bytesLeft]
    omega
  intro buf
  refine ⟨c', _, hrun buf, hkept.addresses, ?_, fun j hj => Memory.overwrite_behind ?_⟩
  · rw [← hlen, Memory.block_overwrite, hl]
  · have hle : c.bytesLeft offset len ≤ len := Nat.min_le_left _ _
    omega

theorem Served.exact (hack : bus.Acknowledges) (h : c.Mapped) {offset len : ℕ}
    (hserved : c.Served offset len) : Exact bus c offset len := by
  have hnb : c.nbRegs = c.regMapImage.length := rfl
  have hfirst := s32_eq_emod (offset / 16 : ℕ)
  by_cases hbehind : c.nbRegs ≤ s32 (offset / 16 : ℕ)
  · -- behind the map there is nothing left
    have hleft : c.bytesLeft offset len = 0 := by
      rw [bytesLeft]
      split at hfirst <;> omega
    refine fun buf => ⟨c, buf, ?_, rfl, ?_, fun _ _ => rfl⟩
    · rw [hleft]
      exact read_behind buf len hbehind
    · rw [hleft, ← take_bytesLeft rfl, hleft, Memory.block_zero, List.take_zero]
  · obtain ⟨hpos, hcase⟩ := hserved.resolve_left hbehind
    obtain ⟨k, hk⟩ := Int.eq_ofNat_of_zero_le hpos
    have hlt : k < c.regMapImage.length := by omega
    have hready := h.ready hlt
    by_cases hx : 0 < offset % 16
    · rw [if_pos hx] at hcase
      obtain ⟨c', hrewrites, hread⟩ := @read_within _ _ _ _ hack hready _ len hx (by omega) hk hlt
      rcases hcase with rfl | ⟨hentry, hend⟩
      · have hleft : c.bytesLeft offset 0 = 0 := Nat.zero_min _
        refine exact_of_written hrewrites.kept (fun buf => ?_) rfl
        rw [hleft, hread, List.take_zero, List.take_zero]
      · have hke : k = offset / 16 := by omega
        have hleft : c.bytesLeft offset len = len := by
          rw [bytesLeft]
          omega
        refine exact_of_written hrewrites.kept (fun buf => by rw [hleft, hread]) ?_
        rw [entryBytes_eq, List.drop_take, List.drop_drop, List.take_take, Nat.min_eq_left (by omega),
          show 16 * k + offset % 16 = offset by omega]
    · rw [if_neg hx] at hcase
      obtain ⟨hentry, hwhole, hend, hfits⟩ := hcase
      obtain ⟨c', n, hrewrites, hleft, hread⟩ := read_entries hack hready (by omega) hentry (by omega)
        hwhole (by omega) hfits
      refine exact_of_written hrewrites.kept (fun buf => by rw [hread, hleft]) ?_
      rw [entryBytes_eq, hleft, show 16 * (offset / 16) = offset by omega,
        take_bytesLeft hrewrites.length_eq]

theorem exact_iff_served (hack : bus.Acknowledges) (h : c.Mapped) (offset len : ℕ) :
    Exact bus c offset len ↔ c.Served offset len := by
  refine ⟨fun hexact => ?_, fun hserved => hserved.exact hack h⟩
  have hnb : c.nbRegs = c.regMapImage.length := rfl
  have hlength := h.length_le
  have hfirst := s32_eq_emod (offset / 16 : ℕ)
  by_cases hbehind : c.nbRegs ≤ s32 (offset / 16 : ℕ)
  · exact .inl hbehind
  by_cases hpos : s32 (offset / 16 : ℕ) < 0
  · exact absurd hexact (not_exact_of_error fun buf => read_before buf len h hpos)
  obtain ⟨k, hk⟩ := Int.eq_ofNat_of_zero_le (Int.not_lt.mp hpos)
  have hlt : k < c.regMapImage.length := by omega
  have hready := h.ready hlt
  refine .inr ⟨Int.not_lt.mp hpos, ?_⟩
  -- an entry that is not the one at the offset is far from the map
  have hfar : s32 (offset / 16 : ℕ) ≠ (offset / 16 : ℕ) → c.bytesLeft offset len = 0 := by
    intro hne
    rw [bytesLeft]
    split at hfirst <;> omega
  by_cases hx : 0 < offset % 16
  · rw [if_pos hx]
    by_cases hend : 16 < offset % 16 + len
    · exact absurd hexact (not_exact_of_error fun buf => read_across hack hready buf hx hend hk hlt)
    · obtain ⟨c', hrewrites, hread⟩ := read_within hack hready hx (Nat.not_lt.mp hend) hk hlt
      have hcount := hexact.count (hread fun _ => 0)
      by_cases hentry : s32 (offset / 16 : ℕ) = (offset / 16 : ℕ)
      · exact .inr ⟨hentry, Nat.not_lt.mp hend⟩
      · exact .inl (hcount.trans (hfar hentry))
  · rw [if_neg hx]
    have hwhole := wholeLength_lt len
    have hlen := wholeLength_le len
    by_cases hsome : 0 < wholeLength len
    · by_cases hfits : Fits c.error ((c.regMapImage.drop k).take (wholeLength len / 16).toNat)
      · obtain ⟨c', hrewrites, hread⟩ := @entries_read _ _ _ _ hack hready _ ((wholeLength len).toNat)
          (by omega) (by omega) hk hlt (by rwa [take_covered hsome])
        obtain ⟨n, hn⟩ : ∃ n, c.covered k (wholeLength len).toNat = n := ⟨_, rfl⟩
        have hcov : n = min ((wholeLength len).toNat / 16) (c.regMapImage.length - k) := hn.symm
        rw [hn] at hrewrites hread
        have hrun := fun buf => @read_whole_eq _ _ _ buf _ len (by omega) hsome _ (hread 0 buf)
        dsimp only at hrun
        have hentry : 16 * n = c.bytesLeft offset len →
            s32 (offset / 16 : ℕ) = (offset / 16 : ℕ) := by
          intro hcount
          by_contra hne
          rw [hfar hne] at hcount
          omega
        have hnext : s32 ((offset + 16 * n) / 16 : ℕ) = (k + n : ℕ) := by
          rw [show (offset + 16 * n) / 16 = offset / 16 + n by omega, s32_eq_emod]
          rw [hk] at hfirst
          split at hfirst <;> split <;> omega
        by_cases hdone : len - 16 * n = 0 ∨ ((16 * n : ℕ) : ℤ) < wholeLength len
        · have hcount := hexact.count ((hrun fun _ => 0).trans (if_pos hdone))
          have heq := hentry hcount
          have hke : offset / 16 = k := by omega
          refine ⟨heq, hsome, by omega, ?_⟩
          rwa [hke]
        · rcases Nat.lt_or_ge (k + n) c.regMapImage.length with hmore | hmore
          · -- the entry behind those that were read is counted, and not written to its end
            obtain ⟨c₂, tail, htail, hlast⟩ := readEnd_entry hack hrewrites.kept.ready
              (x := len % 16) (Nat.mod_lt _ (by decide)) hnext (by rwa [hrewrites.length_eq])
            have hn16 : (c'.entryBytes k n).length = 16 * n :=
              length_entryBytes (by rw [hrewrites.length_eq]; omega)
            refine absurd hexact (not_exact_of_unwritten (j := 16 * n + 15) (n := 16 * n + 16) (by omega)
              (fun buf => (hrun buf).trans ((if_neg hdone).trans (hlast _ _))) fun buf => ?_)
            rw [Memory.overwrite_behind (by omega), Memory.overwrite_behind (by omega)]
          · have hlast := fun buf => @readEnd_behind _ c' bus
              (Memory.overwrite buf 0 (c'.entryBytes k n))
              (offset + 16 * n) (len % 16) (16 * n) (by rw [hrewrites.nbRegs_eq, hnext]; omega)
            have hcount := hexact.count
              ((hrun fun _ => 0).trans ((if_neg hdone).trans (hlast fun _ => 0)))
            have heq := hentry hcount
            have hke : offset / 16 = k := by omega
            refine ⟨heq, hsome, by omega, ?_⟩
            rwa [hke]
      · refine absurd hexact (not_exact_of_error (e := .data) fun buf => ?_)
        have hover := @entries_overrun _ _ _ _ hack hready _ ((wholeLength len).toNat) (by omega) (by omega) hk
          hlt (by rwa [take_covered hsome]) 0 buf
        rw [wholeLength] at hover hsome
        rw [registersRead, if_neg hx, readWhole, if_pos hsome, hover]
        rfl
    · obtain ⟨c', tail, htail, hlast⟩ := readEnd_entry hack hready (x := len % 16)
        (Nat.mod_lt _ (by decide)) hk hlt
      refine absurd hexact (not_exact_of_unwritten (j := 15) (n := 16) (by decide)
        (fun buf => (read_part_eq buf (by omega) hsome).trans (hlast buf 0)) fun buf => ?_)
      exact Memory.overwrite_behind (by omega)

/-! ### Reads that follow each other -/

/-- What reads return that follow each other. -/
def readAll (bus : I2cHost σ) : ChipInfo σ → ℕ → List ℕ → Except Fault (ChipInfo σ × List UInt8)
  | c, _, [] => pure (c, [])
  | c, offset, len :: lens => do
    let (c, buf, ret) ← c.registersRead bus (fun _ => 0) offset len
    let (c, bytes) ← readAll bus c (offset + ret) lens
    pure (c, Memory.block buf 0 ret ++ bytes)

/-- Each of them is served. -/
def ServedAll (bus : I2cHost σ) : ChipInfo σ → ℕ → List ℕ → Prop
  | _, _, [] => True
  | c, offset, len :: lens =>
    c.Served offset len ∧
      ∀ c' buf ret, c.registersRead bus (fun _ => 0) offset len = .ok (c', buf, ret) →
        ServedAll bus c' (offset + ret) lens

/-- A read at an entry leaves the entries before it, and returns whole ones. -/
theorem Served.entries (hack : bus.Acknowledges) (h : c.Mapped) {offset len : ℕ} (hx : offset % 16 = 0)
    (hserved : c.Served offset len) :
    ∃ c' n, c'.Mapped ∧ c'.addresses = c.addresses ∧
      c'.regMapImage.take (offset / 16) = c.regMapImage.take (offset / 16) ∧
      16 * n = c.bytesLeft offset len ∧
      ∀ buf, c.registersRead bus buf offset len =
        .ok (c', Memory.overwrite buf 0 (c'.entryBytes (offset / 16) n), 16 * n) := by
  by_cases hbehind : c.nbRegs ≤ s32 (offset / 16 : ℕ)
  · have hleft : c.bytesLeft offset len = 0 := by
      have hnb : c.nbRegs = c.regMapImage.length := rfl
      have hfirst := s32_eq_emod (offset / 16 : ℕ)
      rw [bytesLeft]
      split at hfirst <;> omega
    refine ⟨c, 0, h, rfl, rfl, hleft.symm, fun buf => ?_⟩
    rw [read_behind buf len hbehind, entryBytes, List.take_zero, List.flatMap_nil,
      Memory.overwrite_nil]
  · obtain ⟨hpos, hcase⟩ := hserved.resolve_left hbehind
    rw [if_neg (by omega)] at hcase
    obtain ⟨hentry, hwhole, hend, hfits⟩ := hcase
    have hnb : c.nbRegs = c.regMapImage.length := rfl
    have hlt : offset / 16 < c.regMapImage.length := by omega
    obtain ⟨c', n, hrewrites, hleft, hread⟩ := read_entries hack (h.ready hlt) hx hentry hlt hwhole
      (by omega) hfits
    exact ⟨c', n, .inr hrewrites.kept.ready, hrewrites.kept.addresses, hrewrites.before, hleft, hread⟩

theorem length_of_addresses (h : c'.addresses = c.addresses) :
    c'.regMapImage.length = c.regMapImage.length := by
  have hlen := congrArg List.length h
  rwa [addresses, addresses, List.length_map, List.length_map] at hlen

theorem readAll_eq (hack : bus.Acknowledges) (lens : List ℕ) {offset : ℕ} (h : c.Mapped)
    (hx : offset % 16 = 0) (hserved : ServedAll bus c offset lens) :
    ∃ c', readAll bus c offset lens = .ok (c', (c'.imageBytes.drop offset).take lens.sum) ∧
      c'.addresses = c.addresses ∧
      c'.regMapImage.take (offset / 16) = c.regMapImage.take (offset / 16) := by
  induction lens generalizing c offset with
  | nil => exact ⟨c, by rw [readAll, List.sum_nil, List.take_zero]; rfl, rfl, rfl⟩
  | cons len lens ih =>
    obtain ⟨hfirst, hrest⟩ := hserved
    obtain ⟨c₁, n, hmapped, haddr, hbefore, hleft, hread⟩ := hfirst.entries hack h hx
    obtain ⟨c', hall, haddr', hbefore'⟩ := @ih _ (offset + 16 * n) hmapped (by omega)
      (hrest _ _ _ (hread _))
    have hk : (offset + 16 * n) / 16 = offset / 16 + n := by omega
    rw [hk] at hbefore'
    have hlen₁ := length_of_addresses haddr
    have hlen' := length_of_addresses haddr'
    have hsame : c₁.entryBytes (offset / 16) n = c'.entryBytes (offset / 16) n := by
      rw [entryBytes, entryBytes, List.take_drop, List.take_drop, hbefore']
    have hn : (c₁.entryBytes (offset / 16) n).length = 16 * n := by
      rw [entryBytes_eq, List.length_take, List.length_drop, length_imageBytes, hlen₁]
      rw [bytesLeft] at hleft
      omega
    refine ⟨c', ?_, haddr'.trans haddr, ?_⟩
    · rw [readAll, ok_bind (hread _)]
      dsimp only
      rw [ok_bind hall]
      dsimp only
      have hblock := Memory.block_overwrite (fun _ => (0 : UInt8)) 0 (c₁.entryBytes (offset / 16) n)
      rw [hn] at hblock
      rw [hblock, hsame, entryBytes_eq, show 16 * (offset / 16) = offset by omega, ← List.drop_drop,
        ← List.take_add, List.sum_cons]
      refine congrArg (fun bytes => Except.ok (c', bytes)) (List.take_eq_take_iff.mpr ?_)
      rw [List.length_drop, length_imageBytes, hlen', hlen₁]
      rw [bytesLeft] at hleft
      omega
    · have htake := congrArg (List.take (offset / 16)) hbefore'
      rw [List.take_take, List.take_take, Nat.min_eq_left (Nat.le_add_right _ _)] at htake
      rw [htake, hbefore]

/-- A read is right when it is served, and only then; reads that are served one behind another return
    the map. -/
theorem registersRead_exact (bus : I2cHost σ) (hack : bus.Acknowledges) (c : ChipInfo σ)
    (h : c.Mapped) :
    (∀ offset len, Exact bus c offset len ↔ c.Served offset len) ∧
    ∀ lens, ServedAll bus c 0 lens →
      ∃ c', readAll bus c 0 lens = .ok (c', c'.imageBytes.take lens.sum) ∧
        c'.addresses = c.addresses := by
  refine ⟨exact_iff_served hack h, fun lens hserved => ?_⟩
  obtain ⟨c', hall, haddr, -⟩ := readAll_eq hack lens h (Nat.zero_mod 16) hserved
  exact ⟨c', hall, haddr⟩

theorem quietBus_acknowledges : quietBus.Acknowledges := ⟨fun _ _ => rfl, fun _ _ => rfl⟩

theorem twoRegisters_mapped : twoRegisters.Mapped := .inr ⟨by decide, by decide, by decide, rfl⟩

/-- Both entries are read at once. -/
theorem twoRegisters_dumped : Exact quietBus twoRegisters 0 32 := by
  refine ((registersRead_exact quietBus quietBus_acknowledges twoRegisters twoRegisters_mapped).1
    0 32).mpr (.inr ⟨by decide, ?_⟩)
  rw [if_neg (by decide)]
  refine ⟨by decide, by decide, .inl (by decide), ?_⟩
  simp [Fits, twoRegisters, show (wholeLength 32 / 16).toNat = 2 by decide, bursts, runLength, nbdata,
    RegSize.bytes]

/-- A read of 8 bytes returns 16. -/
theorem twoRegisters_overcounted : ¬Exact quietBus twoRegisters 0 8 := by
  intro hexact
  have hcount := @Exact.count _ _ _ _ _ hexact (fun _ => 0) _ rfl
  exact absurd hcount (by decide)

end ChipInfo

end Stid135

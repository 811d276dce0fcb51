import NeumoDrivers.Lib.BitFields

/-! Taking a spectrum with the FFT of a demodulator (`stid135-fft.c`), as far as it saves the registers
    of the demodulator and restores them.

    `fe_stid135_fft_save_registers` and `fe_stid135_term_fft` go through two long lists of fields and
    registers and agree on nothing but an index into `Reg[60]`. `hChip->Error` is sticky: a field is
    neither read nor written while it is set, and a read then reports no error. -/

namespace Stid135
open Function BitFields

/-- The registers that are saved: those of the demodulator, and two of its tuner. -/
inductive Register where
  | hdebitcfg0 | hdebitcfg2 | carcfg | dmdistate | tnrcfg2 | agc1adj | agc2adj | filtcfgm | filtcfgl
  | gctrl | updcont | fftctrl | gaincont | threshold | debug1 | agc2o | agc2i1 | agc2i0 | agcrfcfg
  | agc1cfg | agcrfref | agc1cn | agc1amm | agc1quad | agcks | aclcnlk | bclclk | aclclk | carfreq
  | carhdr | cfr1bcfg | cfr1b2 | cfr1b1 | cfr1b0 | tmgcfg | rtcnlk | rtclk | tmgreg2 | tmgreg1
  | tmgreg0 | cfr2cfr1 | cfr22 | cfr21 | cfr20
  deriving DecidableEq

abbrev Registers := Register → Byte

/-- What one entry of `Reg` is for: a field, or a whole register. -/
inductive Item where
  | field (r : Register) (mask : Byte)
  | reg (r : Register)
  deriving DecidableEq

def Item.place : Item → BitField Register
  | .field r mask => ⟨r, mask⟩
  | .reg r => ⟨r, 0xFF⟩

/-- What a demodulator has there. -/
def Item.get (x : Item) (regs : Registers) : Byte := x.place.get regs

def fifo2Ultrabs : Item := .field .hdebitcfg0 0xC0

def modeHautdebit : Item := .field .hdebitcfg2 0xC0

def i2cDemodMode : Item := .field .dmdistate 0x1F

def tunIqswap : Item := .field .tnrcfg2 0x80

def agc1adjManual : Item := .field .agc1adj 0x80

def agc1Adjusted : Item := .field .agc1adj 0x7F

def agc2adjManual : Item := .field .agc2adj 0x80

def agc2refXxdb : Item := .field .agc2adj 0x7F

def updContinuous : Item := .field .updcont 0xFF

def agcrfBeta : Item := .field .agcrfcfg 0x0F

def ammFrozen : Item := .field .agc1cfg 0x20

def quadFrozen : Item := .field .agc1cfg 0x08

def agciqBeta : Item := .field .agc1cn 0x07

/-- The order of `fe_stid135_fft_save_registers`. -/
def savedItems : List Item :=
  [fifo2Ultrabs, modeHautdebit, .reg .carcfg, i2cDemodMode, tunIqswap, agc1adjManual, agc1Adjusted,
    agc2adjManual, agc2refXxdb, .reg .filtcfgm, .reg .filtcfgl, .reg .gctrl, updContinuous,
    .reg .fftctrl, .reg .gaincont, .reg .threshold, .reg .debug1, .reg .agc2o, .reg .agc2i1,
    .reg .agc2i0, agcrfBeta, ammFrozen, quadFrozen, .reg .agcrfref, agciqBeta, .reg .agc1amm,
    .reg .agc1quad, .reg .agcks, .reg .aclcnlk, .reg .bclclk, .reg .aclclk, .reg .carfreq,
    .reg .carhdr, .reg .cfr1bcfg, .reg .cfr1b2, .reg .cfr1b1, .reg .cfr1b0, .reg .tmgcfg,
    .reg .rtcnlk, .reg .rtclk, .reg .tmgreg2, .reg .tmgreg1, .reg .tmgreg0, .reg .cfr2cfr1,
    .reg .cfr22, .reg .cfr21, .reg .cfr20]

/-- The order of `fe_stid135_term_fft`. -/
def restoredItems : List Item :=
  [fifo2Ultrabs, modeHautdebit, .reg .carcfg, i2cDemodMode, tunIqswap, agc1adjManual, agc2adjManual,
    agc1Adjusted, agc2refXxdb, .reg .filtcfgm, .reg .filtcfgl, .reg .gctrl, updContinuous,
    .reg .fftctrl, .reg .gaincont, .reg .threshold, .reg .debug1, .reg .agc2o, .reg .agc2i1,
    .reg .agc2i0, agcrfBeta, ammFrozen, quadFrozen, .reg .agcrfref, agciqBeta, .reg .agc1amm,
    .reg .agc1quad, .reg .agcks, .reg .aclcnlk, .reg .bclclk, .reg .aclclk, .reg .carfreq,
    .reg .carhdr, .reg .cfr1bcfg, .reg .cfr1b2, .reg .cfr1b1, .reg .cfr1b0, .reg .tmgcfg,
    .reg .rtcnlk, .reg .rtclk, .reg .tmgreg2, .reg .tmgreg1, .reg .tmgreg0, .reg .cfr2cfr1,
    .reg .cfr22, .reg .cfr21, .reg .cfr20]

/-! ### Saving and restoring -/

/-- `ChipGetField` and `ChipGetOneRegister`: the value, whether an error is returned, and
    `hChip->Error` afterwards. -/
def Item.read (regs : Registers) (error ack : Bool) : Item → Byte × Bool × Bool
  | .field r mask =>
    if error then (0xFF, false, true)
    else if ack then (extract mask (regs r), false, false)
    else (extract mask 0xFF, true, true)
  | .reg r => if ack then (regs r, false, false) else (0xFF, true, true)

/-- `fe_stid135_fft_save_registers` from the `k`-th entry on: the entries, and whether a read reported
    an error. -/
def saveRegisters (regs : Registers) (acks : ℕ → Bool) : ℕ → Bool → List Item → List Byte × Bool
  | _, _, [] => ([], false)
  | k, error, x :: items =>
    let (value, failed, error) := x.read regs error (acks k)
    let (values, failed') := saveRegisters regs acks (k + 1) error items
    (value :: values, failed || failed')

/-- What nobody can tell in advance: the registers as the acquisition leaves them, `Reg` as it is on the
    stack, and what a register holds after the `k`-th write was not acknowledged, and whether an error
    of the read before it outlives the write. -/
structure Unknown where
  left : Registers
  stack : List Byte
  sized : stack.length = 60
  garbled : ℕ → Registers
  kept : ℕ → Bool

/-- `ChipSetField` and `ChipSetOneRegister`: the registers and `hChip->Error` afterwards. -/
def Item.write (regs : Registers) (error : Bool) (value : Byte) (ack : Bool) (garbled : Registers)
    (kept : Bool) : Item → Registers × Bool
  | .field r mask =>
    if error then (regs, true)
    else if ack then (update regs r (insert mask value (regs r)), false)
    else (update regs r (garbled r), kept)
  | .reg r =>
    if ack then (update regs r value, false) else (update regs r (garbled r), true)

/-- `fe_stid135_term_fft` from the `k`-th entry on, and whether a write reported an error. -/
def termFft (acks : ℕ → Bool) (u : Unknown) : ℕ → Registers → Bool → List Item → List Byte →
    Registers × Bool
  | k, regs, error, x :: items, value :: values =>
    let (regs, error) := x.write regs error value (acks k) (u.garbled k) (u.kept k)
    let (regs, failed) := termFft acks u (k + 1) regs error items values
    (regs, error || failed)
  | _, regs, _, _, _ => (regs, false)

/-- How the loop over the bands ends. -/
inductive ScanEnd where | done | stopped | failed
  deriving DecidableEq

/-- What happens during an acquisition: whether the range is empty, the frequency of the local
    oscillator cannot be read, memory cannot be had, which registers can be read when they are saved,
    whether `fe_stid135_init_fft` after that or `estimate_band_power_demod_for_fft` reports an error,
    how the bands end, and which writes are acknowledged when the registers are restored; and
    `hChip->Error` before each of the two. -/
structure Acquisition where
  emptyRange : Bool
  loError : Bool
  memory : Bool
  errorBefore : Bool
  saveAcks : ℕ → Bool
  initError : Bool
  scan : ScanEnd
  errorAfter : Bool
  restoreAcks : ℕ → Bool

/-- The registers in the end, whether they were saved and whether they were restored, and whether an
    error is returned. -/
structure Acquired where
  regs : Registers
  saved : Bool
  restored : Bool
  error : Bool

/-- `get_spectrum_scan_fft`. -/
def getSpectrumScanFft (acq : Acquisition) (regs : Registers) (u : Unknown) : Acquired :=
  if acq.emptyRange then ⟨regs, false, false, true⟩
  else if acq.loError then ⟨regs, false, false, true⟩
  else if ¬ acq.memory then
    let (regs, _) := termFft acq.restoreAcks u 0 regs acq.errorAfter restoredItems u.stack
    ⟨regs, false, true, true⟩
  else
    let (values, failed) := saveRegisters regs acq.saveAcks 0 acq.errorBefore savedItems
    if failed || acq.initError then ⟨u.left, true, false, true⟩
    else
      let reg := values ++ u.stack.drop values.length
      let (regs, failed) := termFft acq.restoreAcks u 0 u.left acq.errorAfter restoredItems reg
      ⟨regs, true, true, acq.scan = .failed || failed⟩

/-- Whatever the acquisition does to the registers, all that is saved has its old value in the end, and
    nothing is restored that was not saved. -/
def LeftAsFound (acq : Acquisition) (regs : Registers) : Prop :=
  ∀ u : Unknown, let out := getSpectrumScanFft acq regs u
    (out.restored = true → out.saved = true) ∧ ∀ x ∈ savedItems, x.get out.regs = x.get regs

variable {regs m : Registers} {acks : ℕ → Bool} {u : Unknown} {items : List Item} {k : ℕ}
variable {values : List Byte} {error : Bool}

/-! ### The lists -/

theorem savedItems_restored : savedItems ⊆ restoredItems := by decide

theorem restoredItems_saved : restoredItems ⊆ savedItems := by decide

theorem restoredItems_apart :
    restoredItems.Pairwise fun x y => x.place.Apart y.place ∧ y.place.Apart x.place := by
  decide

theorem restoredItems_mask : ∀ x ∈ restoredItems, x.place.mask ≠ 0 := by decide

/-! ### What is saved -/

theorem Item.read_ok (x : Item) : x.read regs false true = (x.get regs, false, false) := by
  cases x with
  | field r mask => rfl
  | reg r =>
    rw [Item.get, Item.place, BitField.get, extract_ones]
    rfl

theorem saveRegisters_ok (h : ∀ j < items.length, acks (k + j) = true) :
    saveRegisters regs acks k false items = (items.map fun x => x.get regs, false) := by
  induction items generalizing k with
  | nil => rfl
  | cons x items ih =>
    have hrest := ih (k := k + 1) fun j hj => by
      rw [Nat.add_assoc, Nat.add_comm 1]
      exact h (j + 1) (Nat.succ_lt_succ hj)
    have hack : acks k = true := h 0 (Nat.succ_pos _)
    rw [saveRegisters, hack, Item.read_ok]
    dsimp only
    rw [hrest]
    rfl

theorem saveRegisters_error :
    (saveRegisters regs acks k false items).2 = false ↔ ∀ j < items.length, acks (k + j) = true := by
  refine ⟨fun h => ?_, fun h => by rw [saveRegisters_ok h]⟩
  induction items generalizing k with
  | nil => nofun
  | cons x items ih =>
    rw [saveRegisters] at h
    cases hack : acks k with
    | false =>
      rw [hack] at h
      cases x with
      | field r mask => simp [Item.read] at h
      | reg r => simp [Item.read] at h
    | true =>
      rw [hack, Item.read_ok] at h
      intro j hj
      cases j with
      | zero => exact hack
      | succ j =>
        have hrest := ih (k := k + 1) h j (Nat.lt_of_succ_lt_succ hj)
        rwa [Nat.add_assoc, Nat.add_comm 1] at hrest

/-- While `hChip->Error` is set a field is saved as 0xFF, and no error is reported. -/
theorem saveRegisters_sticky {r : Register} {mask : Byte} :
    saveRegisters regs acks k true (.field r mask :: items) =
      (0xFF :: (saveRegisters regs acks (k + 1) true items).1,
        (saveRegisters regs acks (k + 1) true items).2) := by
  rw [saveRegisters, Item.read, if_pos rfl]
  rfl

theorem saveRegisters_reg {r : Register} :
    saveRegisters regs acks k error (.reg r :: items) =
      saveRegisters regs acks k false (.reg r :: items) := rfl

/-- The first two entries are fields, and after them comes a register. -/
theorem saveRegisters_all : saveRegisters regs acks 0 error savedItems =
    if error then
      (0xFF :: 0xFF :: (saveRegisters regs acks 2 false (savedItems.drop 2)).1,
        (saveRegisters regs acks 2 false (savedItems.drop 2)).2)
    else saveRegisters regs acks 0 false savedItems := by
  cases error with
  | false => rfl
  | true =>
    rw [if_pos rfl, savedItems, fifo2Ultrabs, modeHautdebit, saveRegisters_sticky,
      saveRegisters_sticky, saveRegisters_reg]
    rfl

/-! ### What is restored -/

theorem Item.write_ok {value : Byte} (x : Item) (garbled : Registers) (kept : Bool) :
    x.write regs false value true garbled kept = (x.place.put value regs, false) := by
  cases x with
  | field r mask => rfl
  | reg r =>
    rw [Item.place, BitField.put, insert_ones]
    rfl

theorem termFft_ok (h : ∀ j < items.length, acks (k + j) = true) :
    termFft acks u k regs false items values =
      (putAll ((items.map Item.place).zip values) regs, false) := by
  induction items generalizing k regs values with
  | nil => cases values <;> rfl
  | cons x items ih =>
    cases values with
    | nil => rfl
    | cons value values =>
      have hrest := @ih (x.place.put value regs) (k + 1) values fun j hj => by
        rw [Nat.add_assoc, Nat.add_comm 1]
        exact h (j + 1) (Nat.succ_lt_succ hj)
      have hack : acks k = true := h 0 (Nat.succ_pos _)
      rw [termFft, hack, Item.write_ok]
      dsimp only
      rw [hrest]
      rfl

/-- The complement of every register. -/
def complement (m : Registers) : Registers := fun r => ~~~(m r)

theorem get_garbled {place : BitField Register} {r : Register} (h : place.get regs = place.get m) :
    place.get (update regs r (m r)) = place.get m := by
  rw [BitField.get, BitField.get] at h ⊢
  by_cases hr : place.reg = r
  · rw [hr, update_self]
  · rw [update_of_ne hr, h]

/-- A write to another place, or one that is not acknowledged, leaves what a place has, where that is
    also what garbled registers hold. -/
theorem Item.write_lost {place : BitField Register} {x : Item} {value : Byte} {ack kept : Bool}
    (hx : x.place.Apart place ∨ ack = false) (h : place.get regs = place.get m) :
    place.get (x.write regs error value ack m kept).1 = place.get m := by
  have hput : ack = true → place.get (x.place.put value regs) = place.get m := by
    rintro rfl
    rw [BitField.get_put_apart (hx.resolve_right nofun), h]
  cases x with
  | field r mask =>
    rw [Item.write]
    split
    · exact h
    · split
      · rename_i hack
        exact hput hack
      · exact get_garbled h
  | reg r =>
    rw [Item.write]
    split
    · rename_i hack
      have hwhole := hput hack
      rwa [Item.place, BitField.put, insert_ones] at hwhole
    · exact get_garbled h

/-- A place that no write reaches keeps what garbled registers hold. -/
theorem termFft_lost {place : BitField Register} (hgarbled : ∀ k, u.garbled k = m)
    (hitems : ∀ p ∈ items.zipIdx k, p.1.place.Apart place ∨ acks p.2 = false)
    (h : place.get regs = place.get m) :
    place.get (termFft acks u k regs error items values).1 = place.get m := by
  induction items generalizing k regs error values with
  | nil => cases values <;> exact h
  | cons x items ih =>
    cases values with
    | nil => exact h
    | cons value values =>
      rw [List.zipIdx_cons, List.forall_mem_cons] at hitems
      rw [termFft, hgarbled]
      exact ih hitems.2 (Item.write_lost hitems.1 h)

/-! ### Which acquisitions leave the registers alone -/

/-- An acquisition that gets as far as restoring what it saved, without an error on the way; and the two
    fields that are restored in each other's place have the same value. -/
structure Restorable (acq : Acquisition) (regs : Registers) : Prop where
  memory : acq.memory = true
  reads : ∀ k < savedItems.length, acq.saveAcks k = true ∨ acq.errorBefore = true ∧ k < 2
  unread : acq.errorBefore = true → fifo2Ultrabs.get regs = 3 ∧ modeHautdebit.get regs = 3
  init : acq.initError = false
  clear : acq.errorAfter = false
  writes : ∀ k < restoredItems.length, acq.restoreAcks k = true
  swapped : agc1Adjusted.get regs = agc2adjManual.get regs

/-- What is saved when no read reports an error. -/
def savedValues (regs : Registers) (error : Bool) : List Byte :=
  (if error then [0xFF, 0xFF] else [fifo2Ultrabs.get regs, modeHautdebit.get regs]) ++
    (savedItems.drop 2).map fun x => x.get regs

theorem saveRegisters_saved (acq : Acquisition) :
    (saveRegisters regs acq.saveAcks 0 acq.errorBefore savedItems).2 = false ↔
      ∀ k < savedItems.length, acq.saveAcks k = true ∨ acq.errorBefore = true ∧ k < 2 := by
  rw [saveRegisters_all]
  cases acq.errorBefore with
  | false =>
    rw [if_neg nofun, saveRegisters_error]
    simp
  | true =>
    rw [if_pos rfl]
    dsimp only
    rw [saveRegisters_error]
    constructor
    · intro h k hk
      by_cases htwo : k < 2
      · exact Or.inr ⟨rfl, htwo⟩
      · have hack := h (k - 2) (by rw [List.length_drop]; omega)
        rw [Nat.add_sub_of_le (Nat.not_lt.mp htwo)] at hack
        exact Or.inl hack
    · intro h j hj
      rw [List.length_drop] at hj
      exact (h (2 + j) (by omega)).resolve_right fun hfirst => by omega

theorem saveRegisters_values (acq : Acquisition)
    (h : (saveRegisters regs acq.saveAcks 0 acq.errorBefore savedItems).2 = false) :
    (saveRegisters regs acq.saveAcks 0 acq.errorBefore savedItems).1 =
      savedValues regs acq.errorBefore := by
  rw [saveRegisters_all] at h ⊢
  cases herror : acq.errorBefore with
  | false =>
    rw [herror, if_neg nofun] at h
    rw [if_neg nofun, saveRegisters_ok (saveRegisters_error.mp h)]
    rfl
  | true =>
    rw [herror, if_pos rfl] at h
    rw [if_pos rfl, saveRegisters_ok (saveRegisters_error.mp h)]
    rfl

theorem length_savedValues : (savedValues regs error).length = restoredItems.length := by
  cases error <;> rfl

theorem fit_same {l : List Item} : ∀ p ∈ (l.map Item.place).zip (l.map fun x => x.get regs),
    fit p.1.mask p.2 = p.1.get regs := by
  rw [List.zip_map', List.forall_mem_map]
  exact fun x _ => fit_extract

/-- A field of one bit and one of seven bits can take each other's value only if they have the same. -/
theorem fit_swapped :
    fit agc2adjManual.place.mask (agc1Adjusted.get regs) = agc2adjManual.get regs ∧
        fit agc1Adjusted.place.mask (agc2adjManual.get regs) = agc1Adjusted.get regs ↔
      agc1Adjusted.get regs = agc2adjManual.get regs := by
  have hbit : ∀ b : Byte, fit 0x7F (extract 0x80 b) = extract 0x80 b := by decide
  constructor
  · rintro ⟨-, hseven⟩
    exact hseven.symm.trans (hbit _)
  · intro heq
    refine ⟨?_, ?_⟩
    · rw [heq]
      exact fit_extract
    · rw [← heq]
      exact fit_extract

/-- The values saved fit where they are restored. -/
theorem fit_saved :
    (∀ p ∈ (restoredItems.map Item.place).zip (savedValues regs error),
        fit p.1.mask p.2 = p.1.get regs) ↔
      (error = true → fifo2Ultrabs.get regs = 3 ∧ modeHautdebit.get regs = 3) ∧
        agc1Adjusted.get regs = agc2adjManual.get regs := by
  have hrestored : restoredItems = [fifo2Ultrabs, modeHautdebit] ++ ((savedItems.drop 2).take 4 ++
      ([agc2adjManual, agc1Adjusted] ++ savedItems.drop 8)) := rfl
  have hsaved : savedItems.drop 2 = (savedItems.drop 2).take 4 ++
      ([agc1Adjusted, agc2adjManual] ++ savedItems.drop 8) := rfl
  have hfirst : (∀ p ∈ ([fifo2Ultrabs, modeHautdebit].map Item.place).zip
      (if error then [0xFF, 0xFF] else [fifo2Ultrabs.get regs, modeHautdebit.get regs]),
        fit p.1.mask p.2 = p.1.get regs) ↔
      (error = true → fifo2Ultrabs.get regs = 3 ∧ modeHautdebit.get regs = 3) := by
    have hones : fit 0xC0 0xFF = 3 := by decide
    cases error with
    | false => exact iff_of_true fit_same nofun
    | true =>
      simp only [if_true, List.map_cons, List.map_nil, List.zip_cons_cons, List.zip_nil_left,
        List.forall_mem_cons, List.not_mem_nil, false_imp_iff, implies_true, and_true, true_imp_iff]
      exact and_congr eq_comm eq_comm
  have hswap : (∀ p ∈ ([agc2adjManual, agc1Adjusted].map Item.place).zip
      ([agc1Adjusted, agc2adjManual].map fun x => x.get regs), fit p.1.mask p.2 = p.1.get regs) ↔
      agc1Adjusted.get regs = agc2adjManual.get regs := by
    rw [← fit_swapped]
    simp only [List.map_cons, List.map_nil, List.zip_cons_cons, List.zip_nil_left,
      List.forall_mem_cons, List.not_mem_nil, false_imp_iff, implies_true, and_true]
    exact Iff.rfl
  have hlength : ([fifo2Ultrabs, modeHautdebit].map Item.place).length =
      (if error then [0xFF, 0xFF] else [fifo2Ultrabs.get regs, modeHautdebit.get regs] :
        List Byte).length := by
    cases error <;> rfl
  rw [savedValues, hsaved, hrestored]
  generalize (savedItems.drop 2).take 4 = before
  simp only [List.map_append]
  rw [List.zip_append hlength, List.zip_append (by simp), List.zip_append (by simp)]
  simp only [List.forall_mem_append]
  rw [hfirst, hswap]
  constructor
  · rintro ⟨hones, -, hsame, -⟩
    exact ⟨hones, hsame⟩
  · rintro ⟨hones, hsame⟩
    exact ⟨hones, fit_same, hsame, fit_same⟩

/-- What cannot be known, at its worst: whatever can hold the complement of what was there does. -/
def worst (regs : Registers) : Unknown :=
  ⟨complement regs, List.replicate 60 0, rfl, fun _ => complement regs, fun _ => false⟩

theorem get_complement {x : Item} (hx : x ∈ savedItems) :
    x.place.get (complement regs) ≠ x.get regs :=
  extract_not (restoredItems_mask x (savedItems_restored hx))

/-- When `hChip->Error` is set the first field is not restored. -/
theorem termFft_error (hgarbled : ∀ k, u.garbled k = m) (h : fifo2Ultrabs.place.get regs =
    fifo2Ultrabs.place.get m) :
    fifo2Ultrabs.place.get (termFft acks u 0 regs true restoredItems values).1 =
      fifo2Ultrabs.place.get m := by
  have hapart := List.pairwise_cons.mp restoredItems_apart
  cases values with
  | nil => exact h
  | cons value values =>
    have hothers : ∀ p ∈ restoredItems.tail.zipIdx 1,
        p.1.place.Apart fifo2Ultrabs.place ∨ acks p.2 = false := by
      intro p hp
      exact Or.inl (hapart.1 p.1 (List.fst_mem_of_mem_zipIdx hp)).2
    change fifo2Ultrabs.place.get (termFft acks u 1 regs true restoredItems.tail values).1 = _
    exact termFft_lost hgarbled hothers h

/-- What a write that is not acknowledged was for is not restored. -/
theorem termFft_nack (hgarbled : ∀ k, u.garbled k = m) (hk : k < restoredItems.length)
    (hack : acks k = false)
    (h : (restoredItems[k]).place.get regs = (restoredItems[k]).place.get m) :
    (restoredItems[k]).place.get (termFft acks u 0 regs error restoredItems values).1 =
      (restoredItems[k]).place.get m := by
  refine termFft_lost hgarbled (fun p hp => ?_) h
  obtain ⟨x, j⟩ := p
  obtain ⟨hj, hx⟩ := List.mem_zipIdx' hp
  dsimp only at hj hx ⊢
  rcases Nat.lt_trichotomy j k with hlt | rfl | hgt
  · rw [hx]
    exact Or.inl (List.pairwise_iff_getElem.mp restoredItems_apart j k hj hk hlt).1
  · exact Or.inr hack
  · rw [hx]
    exact Or.inl (List.pairwise_iff_getElem.mp restoredItems_apart k j hk hj hgt).2

/-- What is restored when every write is acknowledged. -/
theorem restored_iff {reg : List Byte} (hreg : reg.length = restoredItems.length) {rest : List Byte}
    (hacks : ∀ j < restoredItems.length, acks j = true) :
    (∀ x ∈ savedItems, x.get (termFft acks u 0 m false restoredItems (reg ++ rest)).1 = x.get regs) ↔
      ∀ p ∈ (restoredItems.map Item.place).zip reg, fit p.1.mask p.2 = p.1.get regs := by
  have hlength : (restoredItems.map Item.place).length = reg.length := by
    rw [List.length_map, hreg]
  have hzip : (restoredItems.map Item.place).zip (reg ++ rest) =
      (restoredItems.map Item.place).zip reg := by
    have happend := @List.zip_append _ _ (restoredItems.map Item.place) [] reg rest hlength
    rwa [List.append_nil, List.zip_nil_left, List.append_nil] at happend
  have hfst : ((restoredItems.map Item.place).zip reg).map Prod.fst = restoredItems.map Item.place :=
    List.map_fst_zip (Nat.le_of_eq hlength)
  have hpairwise : ((restoredItems.map Item.place).zip reg).Pairwise fun p q => q.1.Apart p.1 := by
    have hplaces : (restoredItems.map Item.place).Pairwise fun x y => y.Apart x :=
      List.pairwise_map.mpr (restoredItems_apart.imp fun h => h.2)
    rw [← hfst] at hplaces
    exact List.pairwise_map.mp hplaces
  rw [termFft_ok (by simpa using hacks), hzip]
  have hitems : (∀ x ∈ savedItems, x.get (putAll ((restoredItems.map Item.place).zip reg) m) =
      x.get regs) ↔ ∀ y ∈ restoredItems.map Item.place,
        y.get (putAll ((restoredItems.map Item.place).zip reg) m) = y.get regs := by
    rw [List.forall_mem_map]
    exact ⟨fun h x hx => h x (restoredItems_saved hx), fun h x hx => h x (savedItems_restored hx)⟩
  rw [hitems, ← hfst, List.forall_mem_map, hfst]
  exact forall₂_congr fun p hp => by rw [get_putAll hpairwise hp]

/-- Restoring what was saved, over whatever the acquisition left. -/
theorem restores_iff (acq : Acquisition) (regs : Registers) :
    (∀ u : Unknown, ∀ x ∈ savedItems, x.get (termFft acq.restoreAcks u 0 u.left acq.errorAfter
        restoredItems (savedValues regs acq.errorBefore ++
          u.stack.drop (savedValues regs acq.errorBefore).length)).1 = x.get regs) ↔
      acq.errorAfter = false ∧ (∀ k < restoredItems.length, acq.restoreAcks k = true) ∧
        (acq.errorBefore = true → fifo2Ultrabs.get regs = 3 ∧ modeHautdebit.get regs = 3) ∧
        agc1Adjusted.get regs = agc2adjManual.get regs := by
  by_cases hclear : acq.errorAfter = false
  swap
  · rw [Bool.not_eq_false] at hclear
    refine iff_of_false (fun h => ?_) fun h => by rw [h.1] at hclear; cases hclear
    have hfifo : fifo2Ultrabs ∈ savedItems := List.mem_cons_self
    have hbad := h (worst regs) fifo2Ultrabs hfifo
    rw [hclear, Item.get, termFft_error (fun _ => rfl) rfl] at hbad
    exact get_complement hfifo hbad
  by_cases hacks : ∀ k < restoredItems.length, acq.restoreAcks k = true
  swap
  · refine iff_of_false (fun h => ?_) fun h => hacks h.2.1
    simp only [not_forall, Bool.not_eq_true] at hacks
    obtain ⟨k, hk, hack⟩ := hacks
    have hmem : restoredItems[k] ∈ savedItems := restoredItems_saved (List.getElem_mem hk)
    have hbad := h (worst regs) (restoredItems[k]) hmem
    rw [Item.get, termFft_nack (fun _ => rfl) hk hack rfl] at hbad
    exact get_complement hmem hbad
  rw [hclear, ← fit_saved]
  constructor
  · intro h
    exact ⟨rfl, hacks, (restored_iff length_savedValues hacks).mp (h (worst regs))⟩
  · rintro ⟨-, -, hfit⟩ u
    exact (restored_iff length_savedValues hacks).mpr hfit

/-- An acquisition leaves what it saves as it found it exactly when it ends before it saves, or restores
    what it saved without an error on the way and `AGC1_ADJUSTED` and `AGC2ADJ_MANUAL` are equal. -/
theorem fft_leaves_as_found (acq : Acquisition) (regs : Registers) :
    LeftAsFound acq regs ↔
      acq.emptyRange = true ∨ acq.loError = true ∨ Restorable acq regs := by
  by_cases hempty : acq.emptyRange = true
  · refine iff_of_true (fun u => ?_) (Or.inl hempty)
    rw [getSpectrumScanFft, if_pos hempty]
    exact ⟨nofun, fun _ _ => rfl⟩
  by_cases hlo : acq.loError = true
  · refine iff_of_true (fun u => ?_) (Or.inr (Or.inl hlo))
    rw [getSpectrumScanFft, if_neg hempty, if_pos hlo]
    exact ⟨nofun, fun _ _ => rfl⟩
  have hcond : (acq.emptyRange = true ∨ acq.loError = true ∨ Restorable acq regs) ↔
      Restorable acq regs := by simp [hempty, hlo]
  rw [hcond]
  by_cases hmemory : acq.memory = true
  swap
  · refine iff_of_false (fun h => ?_) fun h => hmemory h.memory
    have hbad := (h (worst regs)).1
    rw [getSpectrumScanFft, if_neg hempty, if_neg hlo, if_pos hmemory] at hbad
    exact absurd (hbad rfl) nofun
  have hfifo : fifo2Ultrabs ∈ savedItems := List.mem_cons_self
  by_cases hread : (saveRegisters regs acq.saveAcks 0 acq.errorBefore savedItems).2 = false ∧
      acq.initError = false
  swap
  · refine iff_of_false (fun h => ?_) fun h =>
      hread ⟨(saveRegisters_saved acq).mpr h.reads, h.init⟩
    have hbad := (h (worst regs)).2 fifo2Ultrabs hfifo
    have hfails : ((saveRegisters regs acq.saveAcks 0 acq.errorBefore savedItems).2 ||
        acq.initError) = true := by
      cases hs : (saveRegisters regs acq.saveAcks 0 acq.errorBefore savedItems).2 <;>
        cases hi : acq.initError <;> simp_all
    rw [getSpectrumScanFft, if_neg hempty, if_neg hlo, if_neg (not_not_intro hmemory)] at hbad
    dsimp only at hbad
    rw [if_pos hfails] at hbad
    exact get_complement hfifo hbad
  obtain ⟨hsaved, hinit⟩ := hread
  have hvalues := saveRegisters_values acq hsaved
  have hout : ∀ u, (getSpectrumScanFft acq regs u).saved = true ∧
      (getSpectrumScanFft acq regs u).regs = (termFft acq.restoreAcks u 0 u.left acq.errorAfter
        restoredItems (savedValues regs acq.errorBefore ++
          u.stack.drop (savedValues regs acq.errorBefore).length)).1 := by
    intro u
    rw [getSpectrumScanFft, if_neg hempty, if_neg hlo, if_neg (not_not_intro hmemory)]
    dsimp only
    rw [hsaved, hinit, hvalues]
    exact ⟨rfl, rfl⟩
  have hleft : LeftAsFound acq regs ↔ ∀ u : Unknown, ∀ x ∈ savedItems,
      x.get (getSpectrumScanFft acq regs u).regs = x.get regs :=
    forall_congr' fun u => and_iff_right fun _ => (hout u).1
  rw [hleft]
  simp only [fun u => (hout u).2]
  rw [restores_iff]
  constructor
  · rintro ⟨hclear, hwrites, hunread, hswapped⟩
    exact ⟨hmemory, (saveRegisters_saved acq).mp hsaved, hunread, hinit, hclear, hwrites, hswapped⟩
  · intro h
    exact ⟨h.clear, h.writes, h.unread, h.swapped⟩

/-- An acquisition in which nothing goes wrong. -/
def smoothAcquisition : Acquisition :=
  ⟨false, false, true, false, fun _ => true, false, .done, false, fun _ => true⟩

/-- It exchanges two fields: `AGC1_ADJUSTED` of 88 comes back as 0. -/
theorem fft_exchanges_fields : ¬∀ (acq : Acquisition) (regs : Registers), LeftAsFound acq regs := by
  intro h
  have hback := (h smoothAcquisition (fun r => if r = .agc1adj then 88 else 0)
    (worst fun _ => 0)).2 agc1Adjusted (by decide +kernel)
  exact absurd hback (by decide +kernel)

end Stid135

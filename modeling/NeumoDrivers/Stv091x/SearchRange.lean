import Mathlib.Data.Int.Order.Basic
import Mathlib.Tactic.IntervalCases

/-! The carrier search window (`stv091x_set_search_range`).

    What is searched is asked for in Hz in one of several places, halved, and scaled by 2^16 over the master
    clock for two registers of 16 bits. The value in kHz is shifted in a signed 32 bit variable, where only
    15 bits of it fit; the default of 160 MHz does not. -/

namespace Stv091x

/-- `enum fe_algorithm`. -/
inductive Algorithm where
  | warm
  | cold
  | coldBestGuess
  | blind
  | blindBestGuess
  | other
  deriving DecidableEq

/-- What the function reads of `struct stv`. -/
structure Demod where
  searchRangeHz : Int32
  symbolRate : UInt32
  satelliteScan : Bool
  mclk : UInt32

/-- What the function reads of the property cache. -/
structure Asked where
  algorithm : Algorithm
  searchRange : UInt32
  maxSymbolRate : UInt32

structure CfrRegisters where
  cfrup1 : UInt8
  cfrup0 : UInt8
  cfrlow1 : UInt8
  cfrlow0 : UInt8
  deriving DecidableEq

/-- The new `search_range_hz`, and the range in kHz; there is a `BUG_ON` for other algorithms. -/
def selectRange (state : Demod) (p : Asked) : Option (Int32 × Int32) :=
  match p.algorithm with
  | .warm | .cold | .coldBestGuess =>
    let hz := if p.searchRange = 0 then 160000000 else p.searchRange.toInt32
    some (hz, hz / 2000 + if 5000000 ≤ state.symbolRate then 600 else 80)
  | .blind | .blindBestGuess =>
    if state.satelliteScan then
      let hz := if p.maxSymbolRate = 0 then 60000000 else p.maxSymbolRate.toInt32
      some (hz, hz / 2000)
    else some (state.searchRangeHz, state.searchRangeHz / 2000)
  | .other => none

/-- The registers for a range: the shifted range is divided as an unsigned number. -/
def cfrRegisters (range : Int32) (mclk : UInt32) : Option CfrRegisters :=
  let clock := mclk / 1000
  if clock = 0 then none
  else
    let up := ((range <<< 16).toUInt32 / clock).toInt32
    let low := -up
    some { cfrup1 := (up >>> 8 &&& 0xff).toUInt32.toUInt8, cfrup0 := (up &&& 0xff).toUInt32.toUInt8,
           cfrlow1 := (low >>> 8 &&& 0xff).toUInt32.toUInt8, cfrlow0 := (low &&& 0xff).toUInt32.toUInt8 }

/-- `stv091x_set_search_range`. -/
def setSearchRange (state : Demod) (p : Asked) : Option (Demod × CfrRegisters) := do
  let (hz, range) ← selectRange state p
  let registers ← cfrRegisters range state.mclk
  some ({ state with searchRangeHz := hz }, registers)

/-! ### What is asked for -/

/-- What two registers hold, in two's complement. -/
def held (hi lo : UInt8) : ℤ := (hi.toBitVec ++ lo.toBitVec).toInt

/-- The range that is asked for, in Hz; `search_range_hz` keeps what was asked for before. -/
def askedHz (state : Demod) (p : Asked) : UInt32 :=
  match p.algorithm with
  | .warm | .cold | .coldBestGuess => if p.searchRange = 0 then 160000000 else p.searchRange
  | _ =>
    if state.satelliteScan then if p.maxSymbolRate = 0 then 60000000 else p.maxSymbolRate
    else state.searchRangeHz.toUInt32

/-- What is added to the half of it, in kHz. -/
def margin (state : Demod) (p : Asked) : ℕ :=
  match p.algorithm with
  | .warm | .cold | .coldBestGuess => if 5000000 ≤ state.symbolRate then 600 else 80
  | _ => 0

/-- The range in kHz. -/
def askedKhz (state : Demod) (p : Asked) : ℕ := (askedHz state p).toNat / 2000 + margin state p

/-- The window in steps of the carrier registers. -/
def window (state : Demod) (p : Asked) : ℕ := askedKhz state p * 65536 / (state.mclk.toNat / 1000)

/-- The registers hold the window that was asked for; it fits, and nothing overflows on the way. -/
def WindowSet (state : Demod) (p : Asked) : Prop :=
  ∃ hz range state' r, selectRange state p = some (hz, range) ∧
    (-2 ^ 31 ≤ range.toInt * 65536 ∧ range.toInt * 65536 < 2 ^ 31) ∧
    setSearchRange state p = some (state', r) ∧ held r.cfrup1 r.cfrup0 = window state p ∧
    held r.cfrlow1 r.cfrlow0 = -(window state p : ℤ) ∧ window state p < 32768

/-! ### The registers -/

variable {state : Demod} {p : Asked} {range hz : Int32} {mclk : UInt32} {r : CfrRegisters}

theorem byte_getLsbD (y : BitVec 32) {i : ℕ} (hi : i < 8) :
    ((y &&& 0xff#32).setWidth 8).getLsbD i = y.getLsbD i := by
  have hmask : (0xff#32).getLsbD i = true := by
    interval_cases i <;> rfl
  rw [BitVec.getLsbD_setWidth, BitVec.getLsbD_and, hmask, Bool.and_true, decide_eq_true hi, Bool.true_and]

theorem held_split (x : Int32) :
    held (x >>> 8 &&& 0xff).toUInt32.toUInt8 (x &&& 0xff).toUInt32.toUInt8 = x.toInt.bmod (2 ^ 16) := by
  have hbits : (x >>> 8 &&& 0xff).toUInt32.toUInt8.toBitVec ++ (x &&& 0xff).toUInt32.toUInt8.toBitVec =
      x.toBitVec.setWidth 16 := by
    refine BitVec.eq_of_getLsbD_eq fun i hi => ?_
    rw [BitVec.getLsbD_append, BitVec.getLsbD_setWidth, decide_eq_true hi, Bool.true_and]
    split
    · exact byte_getLsbD x.toBitVec ‹_›
    · refine (byte_getLsbD (x.toBitVec.sshiftRight 8) (by omega)).trans ?_
      rw [BitVec.getLsbD_sshiftRight, decide_eq_false (by omega), Bool.not_false, Bool.true_and,
        if_pos (by omega), Nat.add_sub_cancel' (by omega)]
  rw [held, hbits, BitVec.toInt_setWidth]
  change (x.toBitVec.toNat : ℤ).bmod (2 ^ 16) = x.toBitVec.toInt.bmod (2 ^ 16)
  rw [BitVec.toInt_eq_toNat_bmod, Int.bmod_def, Int.bmod_def, Int.bmod_def]
  omega

theorem shifted_toNat (range : Int32) :
    ((range <<< 16).toUInt32.toNat : ℤ) = range.toInt * 65536 % 2 ^ 32 := by
  change ((range.toBitVec <<< 16).toNat : ℤ) = range.toBitVec.toInt * 65536 % 2 ^ 32
  rw [BitVec.toNat_shiftLeft, BitVec.toInt_eq_toNat_bmod, Nat.shiftLeft_eq, Int.bmod_def]
  omega

/-- The registers of a range hold what its shifted value, as an unsigned number, is in steps. -/
theorem cfrRegisters_held (h : cfrRegisters range mclk = some r) :
    0 < mclk.toNat / 1000 ∧ ∃ q : ℕ, q = (range.toInt * 65536 % 2 ^ 32).toNat / (mclk.toNat / 1000) ∧
      held r.cfrup1 r.cfrup0 = (q : ℤ).bmod (2 ^ 16) ∧ held r.cfrlow1 r.cfrlow0 = (-q : ℤ).bmod (2 ^ 16) := by
  rw [cfrRegisters] at h
  have hclock : (mclk / 1000).toNat = mclk.toNat / 1000 := UInt32.toNat_div ..
  by_cases h0 : mclk / 1000 = 0
  · rw [if_pos h0] at h
    cases h
  rw [if_neg h0] at h
  cases h
  have hpos : 0 < mclk.toNat / 1000 := by
    rw [← hclock]
    exact Nat.pos_of_ne_zero fun hz => h0 (UInt32.toNat_inj.mp hz)
  have hq : ((range <<< 16).toUInt32 / (mclk / 1000)).toNat =
      (range.toInt * 65536 % 2 ^ 32).toNat / (mclk.toNat / 1000) := by
    rw [UInt32.toNat_div, hclock, ← shifted_toNat, Int.toNat_natCast]
  obtain ⟨up, hup⟩ : ∃ up, up = ((range <<< 16).toUInt32 / (mclk / 1000)).toInt32 := ⟨_, rfl⟩
  have hvalue : up.toInt = (((range <<< 16).toUInt32 / (mclk / 1000)).toNat : ℤ).bmod (2 ^ 32) := by
    rw [hup]
    exact BitVec.toInt_eq_toNat_bmod _
  refine ⟨hpos, _, hq, ?_, ?_⟩
  · dsimp only
    rw [← hup, held_split, hvalue, Int.bmod_bmod_of_dvd (by decide)]
  · dsimp only
    rw [← hup, held_split, Int32.toInt_neg, hvalue, Int.bmod_neg_bmod, Int.bmod_bmod_of_dvd (by decide)]

theorem cfrRegisters_some (range : Int32) (h : 0 < mclk.toNat / 1000) :
    ∃ r, cfrRegisters range mclk = some r := by
  rw [cfrRegisters, if_neg]
  · exact ⟨_, rfl⟩
  · intro h0
    have hzero : mclk.toNat / 1000 = 0 := (UInt32.toNat_div mclk 1000).symm.trans (congrArg UInt32.toNat h0)
    omega

/-! ### The range -/

theorem half_toInt {u : UInt32} (h : u.toNat < 2 ^ 31) : (u.toInt32 / 2000).toInt = (u.toNat / 2000 : ℕ) := by
  have hvalue : u.toInt32.toInt = u.toNat :=
    BitVec.toInt_eq_toNat_of_lt (show 2 * u.toBitVec.toNat < 2 ^ 32 by
      change 2 * u.toNat < 2 ^ 32
      omega)
  rw [Int32.toInt_div_of_ne_right _ _ (by decide), hvalue, show (2000 : Int32).toInt = 2000 by decide,
    Int.tdiv_eq_ediv_of_nonneg (Int.natCast_nonneg _)]
  rfl

/-- With a margin it still fits. -/
theorem half_add_toInt {u : UInt32} (h : u.toNat < 2 ^ 31) {c : Int32} {n : ℕ} (hc : c.toInt = n)
    (hn : n ≤ 600) : (u.toInt32 / 2000 + c).toInt = (u.toNat / 2000 + n : ℕ) := by
  have hhalf := half_toInt h
  rw [Int32.toInt_add, hhalf, hc, Int.bmod_def]
  omega

/-- The range is the half of what was asked for and the margin, as far as a signed number can hold that. -/
theorem selectRange_spec (state : Demod) (h : p.algorithm ≠ .other) :
    ∃ hz range, selectRange state p = some (hz, range) ∧
      ((askedHz state p).toNat < 2 ^ 31 → range.toInt = askedKhz state p) := by
  have hknown : (if p.searchRange = 0 then 160000000 else p.searchRange.toInt32) =
      (if p.searchRange = 0 then 160000000 else p.searchRange).toInt32 := by
    split <;> rfl
  have hscan : (if p.maxSymbolRate = 0 then 60000000 else p.maxSymbolRate.toInt32) =
      (if p.maxSymbolRate = 0 then 60000000 else p.maxSymbolRate).toInt32 := by
    split <;> rfl
  have hmargin (u : UInt32) (hu : u.toNat < 2 ^ 31) :
      (u.toInt32 / 2000 + if 5000000 ≤ state.symbolRate then 600 else 80).toInt =
        (u.toNat / 2000 + if 5000000 ≤ state.symbolRate then 600 else 80 : ℕ) := by
    split
    · exact half_add_toInt hu (by decide) (by decide)
    · exact half_add_toInt hu (by decide) (by decide)
  unfold selectRange askedKhz askedHz margin
  cases halgorithm : p.algorithm with
  | other => exact absurd halgorithm h
  | warm | cold | coldBestGuess => exact ⟨_, _, rfl, fun hlt => by rw [hknown, hmargin _ hlt]⟩
  | blind | blindBestGuess =>
    dsimp only
    split
    · exact ⟨_, _, rfl, fun hlt => by rw [hscan, half_toInt hlt, Nat.add_zero]⟩
    · exact ⟨_, _, rfl, fun hlt => half_toInt hlt⟩

/-! ### The window -/

/-- A range that a signed number cannot hold has no window: it is too large for what the registers get. -/
theorem window_too_large {clock khz q s : ℕ} (hclock : clock ≤ 4294967) (hpos : 0 < clock) (hkhz : 1073741 ≤ khz)
    (hwindow : khz * 65536 / clock < 32768) (hs : s < 2 ^ 32) (hq : q = s / clock)
    (hheld : (q : ℤ).bmod (2 ^ 16) = (khz * 65536 / clock : ℕ)) : False := by
  have hlarge : khz * 65536 < 32768 * clock := (Nat.div_lt_iff_lt_mul hpos).mp hwindow
  have hleast : 16383 ≤ khz * 65536 / clock := (Nat.le_div_iff_mul_le hpos).mpr (by omega)
  have hfew : q < 2001 := by
    rw [hq]
    exact (Nat.div_lt_iff_lt_mul hpos).mpr (by omega)
  rw [Int.bmod_def] at hheld
  omega

theorem window_lt_iff (h : 0 < state.mclk.toNat / 1000) :
    window state p < 32768 ↔ 2 * askedKhz state p < state.mclk.toNat / 1000 := by
  rw [window, Nat.div_lt_iff_lt_mul h]
  omega

/-- The window is what was asked for if and only if the range in kHz fits in 15 bits, and is less than half
    of the clock. -/
theorem windowSet_iff (h : p.algorithm ≠ .other) : WindowSet state p ↔
    askedKhz state p < 32768 ∧ 2 * askedKhz state p < state.mclk.toNat / 1000 := by
  obtain ⟨hz, range, hselect, hrange⟩ := selectRange_spec state h
  constructor
  · rintro ⟨hz', range', state', r, hselect', ⟨hlow, hhigh⟩, hset, hup, hdown, hwindow⟩
    rw [hselect] at hselect'
    cases hselect'
    rw [setSearchRange, hselect, Option.bind_eq_bind, Option.bind_some] at hset
    obtain ⟨r', hr, hset⟩ := Option.bind_eq_some_iff.mp hset
    cases hset
    obtain ⟨hclock, q, hq, hheld, -⟩ := cfrRegisters_held hr
    refine ⟨?_, (window_lt_iff hclock).mp hwindow⟩
    by_cases hfits : (askedHz state p).toNat < 2 ^ 31
    · have := hrange hfits
      omega
    · exfalso
      have hmclk := state.mclk.toNat_lt
      have hkhz : 1073741 ≤ askedKhz state p := by
        unfold askedKhz
        omega
      exact window_too_large (by omega) hclock hkhz hwindow (show _ < 2 ^ 32 by omega) hq (hheld.symm.trans hup)
  · rintro ⟨hkhz, hhalf⟩
    have hclock : 0 < state.mclk.toNat / 1000 := by omega
    have hwindow := (window_lt_iff hclock).mpr hhalf
    have hfits : (askedHz state p).toNat < 2 ^ 31 := by
      unfold askedKhz at hkhz
      omega
    have hvalue := hrange hfits
    obtain ⟨r, hr⟩ := cfrRegisters_some range hclock
    obtain ⟨-, q, hq, hup, hdown⟩ := cfrRegisters_held hr
    have hqw : q = window state p := by
      have hshifted : ((askedKhz state p : ℤ) * 65536 % 2 ^ 32).toNat = askedKhz state p * 65536 := by omega
      rw [hq, hvalue, window, hshifted]
    refine ⟨hz, range, { state with searchRangeHz := hz }, r, hselect, by omega, ?_, ?_, ?_, hwindow⟩
    · rw [setSearchRange, hselect, Option.bind_eq_bind, Option.bind_some]
      dsimp only
      rw [hr]
      rfl
    · rw [hup, hqw]
      exact Int.bmod_eq_of_le (by omega) (by omega)
    · rw [hdown, hqw]
      exact Int.bmod_eq_of_le (by omega) (by omega)

/-- With a clock of 135 MHz and a search range of 10 MHz. -/
theorem windowSet_known :
    WindowSet ⟨16000000, 22000000, false, 135000000⟩ ⟨.warm, 10000000, 0⟩ :=
  (windowSet_iff (by decide)).mpr (by decide)

/-- The default of 160 MHz is too wide. -/
theorem default_window_too_wide :
    ¬ ∀ (state : Demod) (p : Asked), p.algorithm ≠ .other → WindowSet state p := by
  intro h
  obtain ⟨_, _, _, _, _, _, _, _, _, hwindow⟩ :=
    h ⟨16000000, 22000000, false, 135000000⟩ ⟨.cold, 0, 0⟩ (by decide)
  exact absurd hwindow (by decide)

end Stv091x

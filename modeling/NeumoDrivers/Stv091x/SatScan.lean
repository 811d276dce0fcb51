import NeumoDrivers.Stv091x.CarrierCheck
import Mathlib.Data.Int.Init

/-! The satellite scan (`stv091x_sat_scan`).

    A call looks for the next carrier from `scan_next_frequency` on. Each pass of its loop tunes to that
    frequency, lets the edge detector move it on by a jump, and tunes to what the detector has found; the
    call returns when that locks, when it is to stop, or at the end of the range.

    What a pass reads and how its tuning ends are inputs (`PassReadings`); writes to the registers and
    the time that passes are left out. `Stop` has cleared `Started` before `tune_once` asserts that it
    is. Frequencies are in kHz. -/

namespace Stv091x
open Loop

/-- What one pass reads: whether it is to stop; `AGCIQIN`; five times `POWERI` and `POWERQ`; the AGC2
    levels; whether tuning locks, and then the carrier offset and the registers of the symbol rate. -/
structure PassReadings where
  stop : Bool
  agcPowerGain : UInt16
  power : ℕ → UInt8 × UInt8
  agc2 : ℕ → UInt16
  locked : Bool
  carrierOffset : Int16
  symbolRate : UInt8 × UInt8
  timing : UInt8 × UInt8 × UInt8

/-- What a scan does not change: the master clock, and `max_symbol_rate` of the request. -/
structure Setup where
  mclk : UInt32
  maxSymbolRate : UInt32

/-- The fields of `stv` that a scan uses, and the frequency of the request. Of `signal_info` these are
    `has_timedout` and `has_viterbi`. -/
structure Stv where
  scanNextFrequency : Int32
  scanEndFrequency : Int32
  searchRangeHz : Int32
  symbolRate : UInt32
  tunerFrequency : Int32
  tunerBw : Int32
  hasTimedout : Bool
  hasViterbi : Bool
  frequency : UInt32

/-! ### The functions of a pass -/

/-- `stv091x_iq_power` -/
def iqPower (power : ℕ → UInt8 × UInt8) : ℕ :=
  ((List.range 5).map fun i => (power i).1.toNat ^ 2 + (power i).2.toNat ^ 2).sum / 5

/-- `stv091x_symbol_rate`, with the bytes it takes the registers `SFR` to be. -/
def readSymbolRate (mclk : UInt32) (r : PassReadings) : UInt32 :=
  let sfr := r.symbolRate.1.toUInt32 <<< 24 ||| r.symbolRate.2.toUInt32 <<< 16 |||
    r.symbolRate.2.toUInt32 <<< 8 ||| r.symbolRate.1.toUInt32
  let symbolRate := (sfr.toUInt64 * mclk.toUInt64 >>> 32).toUInt32
  let tmg := r.timing.1.toUInt32 <<< 16 ||| r.timing.2.1.toUInt32 <<< 8 ||| r.timing.2.2.toUInt32
  let offset := (if tmg &&& 0x800000 ≠ 0 then tmg ||| 0xFF000000 else tmg).toInt32
  symbolRate + (symbolRate.toUInt64.toInt64 * offset.toInt64 >>> 29).toInt32.toUInt32

/-- `stv091x_set_frequency_symbol_rate_bandwidth` -/
def Stv.setFrequencySymbolRateBandwidth (s : Stv) : Stv :=
  { s with tunerFrequency := s.frequency.toInt32, tunerBw := 2 * 36000000 }

@[simp] theorem Stv.setFrequency_tunerBw (s : Stv) :
    s.setFrequencySymbolRateBandwidth.tunerBw = 72000000 := rfl

/-- `stv091x_get_signal_info` -/
def Stv.getSignalInfo (c : Setup) (r : PassReadings) (s : Stv) : Stv :=
  let offset := r.carrierOffset.toInt32.toUInt32 * ((c.mclk >>> 16) / 1000)
  { s with
    symbolRate := readSymbolRate c.mclk r
    frequency := s.tunerFrequency.toUInt32 + offset }

/-- `stv091x_tune_once` in a blind search: `signal_info` is cleared, and nothing sets `has_viterbi`. -/
def Stv.tuneOnce (c : Setup) (r : PassReadings) (s : Stv) : Stv :=
  let s := { s with hasTimedout := false, hasViterbi := false }.setFrequencySymbolRateBandwidth
  let s := { s with
    searchRangeHz := if c.maxSymbolRate = 0 then 60000000 else c.maxSymbolRate.toInt32 }
  let s := { s with hasTimedout := !s.hasViterbi }
  if r.locked then s.getSignalInfo c r else s

/-- Too little power for a signal. -/
def PassReadings.noSignal (r : PassReadings) : Prop := r.agcPowerGain = 0 ∧ iqPower r.power < 30

instance (r : PassReadings) : Decidable r.noSignal :=
  inferInstanceAs (Decidable (r.agcPowerGain = 0 ∧ iqPower r.power < 30))

/-- What `stv091x_carrier_search` finds. Without a signal it leaves the jump at the 0 it was given;
    `none` stands for a division by zero. -/
def carrierJump (r : PassReadings) (tunerBw : Int32) : Option Jump :=
  if r.noSignal then some ⟨.flat, 0⟩ else carrierCheck tunerBw r.agc2

/-- `stv091x_carrier_search`: the position is moved on. -/
def Stv.carrierSearch (s : Stv) (jump : Jump) : Stv :=
  { s with
    scanNextFrequency := s.scanNextFrequency + Int32.ofInt jump.frequency
    searchRangeHz := Int32.ofInt (min 40000000 (24000000 + jump.frequency * 1000)) }

def SymbolRateValid (symbolRate : UInt32) : Prop := 100000 ≤ symbolRate ∧ symbolRate ≤ 70000000

instance (symbolRate : UInt32) : Decidable (SymbolRateValid symbolRate) :=
  inferInstanceAs (Decidable (100000 ≤ symbolRate ∧ symbolRate ≤ 70000000))

/-- `scan_within_tuner_bw`: what it leaves, and whether a signal was locked on. An invalid symbol rate
    is an error that the scan does not look at. -/
def Stv.scanWithinTunerBw (c : Setup) (r : PassReadings) (s : Stv) : Option (Stv × Bool) :=
  let s := { s with hasTimedout := false }
  if SymbolRateValid s.symbolRate then
    let s := s.setFrequencySymbolRateBandwidth
    match carrierJump r s.tunerBw with
    | none => none
    | some jump =>
      let s := s.carrierSearch jump
      if jump.asperity = .flat then
        some ({ s with frequency := s.frequency + (s.tunerBw / 3000 - 1000).toUInt32 }, false)
      else
        let s := { s with
          frequency := s.frequency + (Int32.ofInt jump.frequency).toUInt32 }.tuneOnce c r
        some (s, !s.hasTimedout)
  else some (s, false)

/-! ### The scan -/

/-- How a call ends: it is to stop, the range is invalid (-1), a signal is locked on, the end of the
    range is reached, or it divides by zero. -/
inductive ScanResult where
  | stopped
  | invalidRange
  | locked
  | finished
  | dividesByZero
  deriving DecidableEq

/-- A call: the state, and the number of passes made. -/
structure SatScan where
  stv : Stv
  pass : ℕ

/-- Where the next call goes on after a lock. -/
def Stv.afterLock (s : Stv) : Stv :=
  let step := 135 * ((s.symbolRate / 1000) / (2 * 100))
  let next := s.frequency + step
  let next :=
    if next < s.scanNextFrequency.toUInt32 then next + (s.searchRangeHz / 1000).toUInt32 else next
  { s with scanNextFrequency := next.toInt32 }

/-- The request takes the position as its frequency. -/
def Stv.tuneToNext (s : Stv) : Stv := { s with frequency := s.scanNextFrequency.toUInt32 }

def satScanBody (c : Setup) (readings : ℕ → PassReadings) (s : SatScan) :
    Next SatScan (Stv × ScanResult) :=
  if s.stv.scanNextFrequency < s.stv.scanEndFrequency then
    if (readings s.pass).stop then .exit (s.stv, .stopped)
    else
      let stv := s.stv.tuneToNext
      if stv.scanEndFrequency.toUInt32 ≤ stv.frequency then .exit (stv, .invalidRange)
      else
        match stv.scanWithinTunerBw c (readings s.pass) with
        | none => .exit (stv, .dividesByZero)
        | some (stv, true) => .exit (stv.afterLock, .locked)
        | some (stv, false) => .again ⟨stv, s.pass + 1⟩
  else .exit (s.stv, .finished)

/-- The start of `stv091x_sat_scan`: a call with `init` takes the range of the request. -/
def Stv.startScan (init : Bool) (first last : Int32) (s : Stv) : Stv :=
  { s with
    searchRangeHz := 500000
    symbolRate := 1000000
    scanNextFrequency := if init then first else s.scanNextFrequency
    scanEndFrequency := if init then last else s.scanEndFrequency }

/-- One call of `stv091x_sat_scan`. -/
structure ScanCall where
  setup : Setup
  readings : ℕ → PassReadings
  init : Bool
  first : Int32
  last : Int32
  stv : Stv

def ScanCall.start (call : ScanCall) : SatScan := ⟨call.stv.startScan call.init call.first call.last, 0⟩

def ScanCall.body (call : ScanCall) : SatScan → Next SatScan (Stv × ScanResult) :=
  satScanBody call.setup call.readings

/-! ### What a call should do -/

/-- A call makes progress: a pass that goes round again has moved the position on, none divides by
    zero, the loop ends, and after a lock the position is beyond the one the call began at. -/
structure ScanCall.Progresses (call : ScanCall) : Prop where
  moves : Steps (fun s t => s.stv.scanNextFrequency < t.stv.scanNextFrequency) call.body call.start
  divides : ∀ stv, ¬ Ends call.body call.start (stv, .dividesByZero)
  terminates : Terminates call.body call.start
  locked : ∀ stv, Ends call.body call.start (stv, .locked) →
    call.start.stv.scanNextFrequency < stv.scanNextFrequency

/-- A pass that returns before it looks for a carrier. -/
def SatScan.Returns (r : PassReadings) (s : SatScan) : Prop :=
  s.stv.scanEndFrequency ≤ s.stv.scanNextFrequency ∨ r.stop = true ∨
    s.stv.scanEndFrequency.toUInt32 ≤ s.stv.scanNextFrequency.toUInt32

/-- A pass can move on: the symbol rate left by the pass before is one the demodulator takes, there is
    the power of a signal, the edge detector always has levels to divide by, and the position that its
    jump leads to is below 2^31. -/
structure SatScan.Leads (r : PassReadings) (s : SatScan) : Prop where
  symbolRate : SymbolRateValid s.stv.symbolRate
  signal : ¬ r.noSignal
  levels : ∀ t, Compares 72000000 r.agc2 t → 10 ≤ (t.read r.agc2).numbers.sum
  inRange : ∀ jump, carrierCheck 72000000 r.agc2 = some jump →
    s.stv.scanNextFrequency.toInt + jump.frequency < 2 ^ 31

/-! ### One pass -/

variable {c : Setup} {r : PassReadings} {readings : ℕ → PassReadings} {stv next : Stv}
variable {s t : SatScan} {jump : Jump} {locked : Bool} {call : ScanCall}

theorem tuneOnce_hasTimedout (c : Setup) (r : PassReadings) (stv : Stv) :
    (stv.tuneOnce c r).hasTimedout = true := by
  rw [Stv.tuneOnce]
  dsimp only
  split <;> rfl

theorem tuneOnce_position (c : Setup) (r : PassReadings) (stv : Stv) :
    (stv.tuneOnce c r).scanNextFrequency = stv.scanNextFrequency ∧
      (stv.tuneOnce c r).scanEndFrequency = stv.scanEndFrequency := by
  rw [Stv.tuneOnce]
  dsimp only
  split <;> exact ⟨rfl, rfl⟩

theorem scanWithin_invalid (c : Setup) (r : PassReadings) (stv : Stv)
    (h : ¬ SymbolRateValid stv.symbolRate) :
    ∃ next, stv.scanWithinTunerBw c r = some (next, false) ∧
      next.scanNextFrequency = stv.scanNextFrequency ∧
      next.scanEndFrequency = stv.scanEndFrequency := by
  rw [Stv.scanWithinTunerBw]
  dsimp only
  rw [if_neg h]
  exact ⟨_, rfl, rfl, rfl⟩

theorem scanWithin_none (c : Setup) (stv : Stv) (h : SymbolRateValid stv.symbolRate) (hjump : carrierJump r 72000000 = none) :
    stv.scanWithinTunerBw c r = none := by
  rw [Stv.scanWithinTunerBw]
  dsimp only
  rw [if_pos h, Stv.setFrequency_tunerBw, hjump]

/-- A pass moves the position on by the jump, and finds no lock. -/
theorem scanWithin_some (c : Setup) (stv : Stv) (h : SymbolRateValid stv.symbolRate)
    (hjump : carrierJump r 72000000 = some jump) :
    ∃ next, stv.scanWithinTunerBw c r = some (next, false) ∧
      next.scanNextFrequency = stv.scanNextFrequency + Int32.ofInt jump.frequency ∧
      next.scanEndFrequency = stv.scanEndFrequency := by
  rw [Stv.scanWithinTunerBw]
  dsimp only
  rw [if_pos h, Stv.setFrequency_tunerBw, hjump]
  dsimp only
  split
  next => exact ⟨_, rfl, rfl, rfl⟩
  next =>
    rw [tuneOnce_hasTimedout]
    exact ⟨_, rfl, (tuneOnce_position c r _).1, (tuneOnce_position c r _).2⟩

theorem body_within (h : ¬ s.Returns (readings s.pass)) :
    satScanBody c readings s =
      match s.stv.tuneToNext.scanWithinTunerBw c (readings s.pass) with
      | none => .exit (s.stv.tuneToNext, .dividesByZero)
      | some (stv, true) => .exit (stv.afterLock, .locked)
      | some (stv, false) => .again ⟨stv, s.pass + 1⟩ := by
  rw [SatScan.Returns, not_or, not_or, Int32.not_le] at h
  obtain ⟨hlt, hstop, hvalid⟩ := h
  rw [satScanBody, if_pos hlt, if_neg hstop]
  exact if_neg hvalid

/-- A pass that returns finds no lock and does not divide. -/
theorem body_returns (h : s.Returns (readings s.pass)) :
    ∃ stv result, satScanBody c readings s = .exit (stv, result) ∧
      result ≠ .dividesByZero ∧ result ≠ .locked := by
  by_cases hlt : s.stv.scanNextFrequency < s.stv.scanEndFrequency
  swap
  · rw [satScanBody, if_neg hlt]
    exact ⟨_, _, rfl, nofun, nofun⟩
  by_cases hstop : (readings s.pass).stop = true
  · rw [satScanBody, if_pos hlt, if_pos hstop]
    exact ⟨_, _, rfl, nofun, nofun⟩
  · rcases h with hle | hs | hvalid
    · exact absurd hle (Int32.not_le.mpr hlt)
    · exact absurd hs hstop
    · rw [satScanBody, if_pos hlt, if_neg hstop]
      exact ⟨_, _, if_pos hvalid, nofun, nofun⟩

/-- Nothing moves the position on when the symbol rate is refused, or without a signal. -/
theorem body_stays (c : Setup) (h : ¬ s.Returns (readings s.pass))
    (hstays : ¬ SymbolRateValid s.stv.symbolRate ∨ (readings s.pass).noSignal) :
    ∃ t, satScanBody c readings s = .again t ∧
      t.stv.scanNextFrequency = s.stv.scanNextFrequency ∧
      t.stv.scanEndFrequency = s.stv.scanEndFrequency := by
  rw [body_within h]
  by_cases hrate : SymbolRateValid s.stv.symbolRate
  · have hsignal : (readings s.pass).noSignal := hstays.resolve_left (not_not.mpr hrate)
    obtain ⟨next, hnext, hpos, hend⟩ := scanWithin_some c s.stv.tuneToNext hrate
      (by rw [carrierJump, if_pos hsignal])
    rw [hnext]
    exact ⟨_, rfl, hpos.trans (Int32.add_zero _), hend⟩
  · obtain ⟨next, hnext, hpos, hend⟩ := scanWithin_invalid c (readings s.pass) s.stv.tuneToNext
      hrate
    rw [hnext]
    exact ⟨_, rfl, hpos, hend⟩

theorem body_divides (h : ¬ s.Returns (readings s.pass))
    (hrate : SymbolRateValid s.stv.symbolRate) (hsignal : ¬ (readings s.pass).noSignal)
    (hnone : carrierCheck 72000000 (readings s.pass).agc2 = none) :
    ∃ stv, satScanBody c readings s = .exit (stv, .dividesByZero) := by
  have hwithin := scanWithin_none c s.stv.tuneToNext hrate
    (by rw [carrierJump, if_neg hsignal, hnone])
  rw [body_within h, hwithin]
  exact ⟨_, rfl⟩

theorem body_jumps (h : ¬ s.Returns (readings s.pass))
    (hrate : SymbolRateValid s.stv.symbolRate) (hsignal : ¬ (readings s.pass).noSignal)
    (hsome : carrierCheck 72000000 (readings s.pass).agc2 = some jump) :
    ∃ t, satScanBody c readings s = .again t ∧
      t.stv.scanNextFrequency = s.stv.scanNextFrequency + Int32.ofInt jump.frequency ∧
      t.stv.scanEndFrequency = s.stv.scanEndFrequency := by
  obtain ⟨next, hnext, hpos, hend⟩ := scanWithin_some c s.stv.tuneToNext hrate
    (by rw [carrierJump, if_neg hsignal, hsome])
  rw [body_within h, hnext]
  exact ⟨_, rfl, hpos, hend⟩

/-! ### The position -/

theorem jump_bounds (h : carrierCheck 72000000 r.agc2 = some jump) :
    500 ≤ jump.frequency ∧ jump.frequency ≤ 24000 :=
  carrierCheck_within h

/-- A jump moves the position on exactly when it does not leave 31 bits. -/
theorem lt_add_jump_iff {position : Int32} {jump : ℤ} (hpos : 500 ≤ jump) (hle : jump ≤ 24000) :
    position < position + Int32.ofInt jump ↔ position.toInt + jump < 2 ^ 31 := by
  have hlow := position.le_toInt
  have hhigh := position.toInt_lt
  rw [Int32.lt_iff_toInt_lt, Int32.toInt_add, Int32.toInt_ofInt_of_le (by omega) (by omega),
    Int.bmod_def]
  split <;> omega

/-- A pass that does not return moves the position on exactly when it leads on. -/
theorem leads_iff (h : ¬ s.Returns (readings s.pass)) :
    s.Leads (readings s.pass) ↔
      ∃ t, satScanBody c readings s = .again t ∧
        s.stv.scanNextFrequency < t.stv.scanNextFrequency := by
  constructor
  · intro hleads
    obtain ⟨jump, hjump⟩ := (carrierCheck_returns_iff _ _).mpr hleads.levels
    obtain ⟨t, ht, hpos, -⟩ := body_jumps (c := c) h hleads.symbolRate hleads.signal hjump
    obtain ⟨hfive, hle⟩ := jump_bounds hjump
    refine ⟨t, ht, ?_⟩
    rw [hpos, lt_add_jump_iff hfive hle]
    exact hleads.inRange jump hjump
  · rintro ⟨t, ht, hlt⟩
    have hmoves : ¬ (¬ SymbolRateValid s.stv.symbolRate ∨ (readings s.pass).noSignal) := by
      intro hstays
      obtain ⟨u, hu, hpos, -⟩ := body_stays c h hstays
      rw [hu] at ht
      cases ht
      rw [hpos] at hlt
      exact Int32.lt_irrefl hlt
    rw [not_or, not_not] at hmoves
    obtain ⟨hrate, hsignal⟩ := hmoves
    cases hcheck : carrierCheck 72000000 (readings s.pass).agc2 with
    | none =>
      obtain ⟨stv, hexit⟩ := body_divides (c := c) h hrate hsignal hcheck
      rw [hexit] at ht
      cases ht
    | some jump =>
      refine ⟨hrate, hsignal, (carrierCheck_returns_iff _ _).mp ⟨jump, hcheck⟩, ?_⟩
      intro jump' hjump'
      cases hcheck.symm.trans hjump'
      obtain ⟨u, hu, hpos, -⟩ := body_jumps (c := c) h hrate hsignal hcheck
      rw [hu] at ht
      cases ht
      obtain ⟨hfive, hle⟩ := jump_bounds hcheck
      rwa [hpos, lt_add_jump_iff hfive hle] at hlt

/-! ### A call -/

theorem not_returns (h : satScanBody c readings s = .again t) :
    ¬ s.Returns (readings s.pass) := by
  intro hreturns
  obtain ⟨stv, result, hexit, -⟩ := body_returns (c := c) hreturns
  rw [hexit] at h
  cases h

/-- A pass that does not return divides by zero, or goes round again in the same range. -/
theorem body_cases (c : Setup) (h : ¬ s.Returns (readings s.pass)) :
    (∃ stv, satScanBody c readings s = .exit (stv, .dividesByZero)) ∨
      ∃ t, satScanBody c readings s = .again t ∧
        t.stv.scanEndFrequency = s.stv.scanEndFrequency := by
  by_cases hstays : ¬ SymbolRateValid s.stv.symbolRate ∨ (readings s.pass).noSignal
  · obtain ⟨t, ht, -, hend⟩ := body_stays c h hstays
    exact .inr ⟨t, ht, hend⟩
  rw [not_or, not_not] at hstays
  obtain ⟨hrate, hsignal⟩ := hstays
  cases hcheck : carrierCheck 72000000 (readings s.pass).agc2 with
  | none => exact .inl (body_divides h hrate hsignal hcheck)
  | some jump =>
    obtain ⟨t, ht, -, hend⟩ := body_jumps (c := c) h hrate hsignal hcheck
    exact .inr ⟨t, ht, hend⟩

/-- How far the position is from the end of the range. -/
def Stv.left (stv : Stv) : ℕ := (stv.scanEndFrequency.toInt - stv.scanNextFrequency.toInt).toNat

theorem left_lt (h : satScanBody c readings s = .again t)
    (hlt : s.stv.scanNextFrequency < t.stv.scanNextFrequency) : t.stv.left < s.stv.left := by
  have hreturns := not_returns h
  have hbefore := Int32.not_le.mp fun hle => hreturns (.inl hle)
  rcases body_cases c hreturns with ⟨stv, hexit⟩ | ⟨u, hu, hend⟩
  · rw [hexit] at h
    cases h
  rw [hu] at h
  cases h
  rw [Int32.lt_iff_toInt_lt] at hlt hbefore
  rw [Stv.left, Stv.left, hend]
  omega

/-- A pass that returns or leads on is no division by zero and no lock. -/
theorem exit_of_leads (h : s.Returns (readings s.pass) ∨ s.Leads (readings s.pass))
    {result : ScanResult} (hexit : satScanBody c readings s = .exit (stv, result)) :
    result ≠ .dividesByZero ∧ result ≠ .locked := by
  by_cases hreturns : s.Returns (readings s.pass)
  · obtain ⟨stv', result', hexit', hne⟩ := body_returns (c := c) hreturns
    rw [hexit'] at hexit
    cases hexit
    exact hne
  · obtain ⟨t, ht, -⟩ := (leads_iff (c := c) hreturns).mp (h.resolve_left hreturns)
    rw [ht] at hexit
    cases hexit

/-- For every start and end of the range, every state before the call, and every sequence of readings
    and lock outcomes: a call makes progress exactly when each pass it comes to returns or leads on. -/
theorem satScan_progresses_iff (call : ScanCall) :
    call.Progresses ↔ ∀ s, Visits call.body call.start s →
      s.Returns (call.readings s.pass) ∨ s.Leads (call.readings s.pass) := by
  constructor
  · intro h s hs
    by_cases hreturns : s.Returns (call.readings s.pass)
    · exact .inl hreturns
    refine .inr ((leads_iff (c := call.setup) hreturns).mpr ?_)
    rcases body_cases call.setup hreturns with ⟨stv, hexit⟩ | ⟨t, ht, -⟩
    · exact absurd (hs.ends (.exit hexit)) (h.divides stv)
    · exact ⟨t, ht, h.moves s t hs ht⟩
  · intro hall
    have hmoves : Steps (fun s t => s.stv.scanNextFrequency < t.stv.scanNextFrequency) call.body
        call.start := by
      intro s t hs hbody
      have hreturns := not_returns hbody
      obtain ⟨u, hu, hlt⟩ :=
        (leads_iff (c := call.setup) hreturns).mp ((hall s hs).resolve_left hreturns)
      rw [ScanCall.body, hu] at hbody
      cases hbody
      exact hlt
    have hexit : ∀ stv result, Ends call.body call.start (stv, result) →
        result ≠ .dividesByZero ∧ result ≠ .locked := by
      intro stv result hends
      obtain ⟨s, hs, hexit⟩ := hends.visits
      exact exit_of_leads (hall s hs) hexit
    refine ⟨hmoves, fun stv hends => (hexit stv _ hends).1 rfl, ?_,
      fun stv hends => absurd rfl (hexit stv _ hends).2⟩
    exact terminates_of_measure (fun s => s.stv.left)
      (fun s t (hs : Visits call.body call.start s) hbody =>
        ⟨.pass hs hbody, left_lt hbody (hmoves s t hs hbody)⟩) .start

/-- What is read where nothing is received. -/
def silence : PassReadings :=
  ⟨false, 0, fun _ => (0, 0), fun _ => 0, false, 0, (0, 0), (0, 0, 0)⟩

def silentCall : ScanCall where
  setup := ⟨135000000, 0⟩
  readings _ := silence
  init := true
  first := 950000
  last := 2150000
  stv := ⟨0, 0, 0, 0, 0, 0, false, false, 0⟩

/-- Without a signal the position stays where it is, and the scan never ends. -/
theorem silence_never_ends : ¬ ∀ call : ScanCall, call.Progresses := by
  intro h
  have htrap : ∀ s : SatScan,
      s.stv.scanNextFrequency = 950000 ∧ s.stv.scanEndFrequency = 2150000 →
      ∃ t : SatScan, silentCall.body s = .again t ∧
        t.stv.scanNextFrequency = 950000 ∧ t.stv.scanEndFrequency = 2150000 := by
    rintro s ⟨hnext, hend⟩
    have hreturns : ¬ s.Returns silence := by
      rw [SatScan.Returns, hnext, hend]
      decide
    have hsignal : silence.noSignal := by decide
    obtain ⟨t, ht, hpos, hlast⟩ := @body_stays (fun _ => silence) s silentCall.setup hreturns
      (.inr hsignal)
    exact ⟨t, ht, hpos.trans hnext, hlast.trans hend⟩
  exact not_terminates_of_trap htrap .start ⟨rfl, rfl⟩ (h silentCall).terminates

end Stv091x

import Mathlib.Data.List.Basic
import Mathlib.Data.UInt
import Mathlib.Tactic.Common

/-! The properties of a frontend (`neumo-dvb-frontend.c`).

    A property is a command with a value. Most commands store the value in the property cache of the
    frontend; some also call the driver, or work on the cache as a whole. The callbacks of a driver see
    the cache and the driver's own data and may write both; whether they do is not assumed here. -/

namespace Dvb.Properties

/-! ### The cache -/

/-- The members of `struct neumo_dtv_frontend_properties` that hold a number. -/
inductive Member where
  | frequency | modulation | voltage | sectone | inversion | fecInner | transmissionMode | bandwidthHz
  | guardInterval | hierarchy | symbolRate | codeRateHP | codeRateLP | pilot | rolloff | deliverySystem
  | interleaving | isdbtPartialReception | isdbtSbMode | isdbtSbSubchannel | isdbtSbSegmentIdx
  | isdbtSbSegmentCount | isdbtLayerEnabled
  | layerSegmentCount (layer : Fin 3) | layerFec (layer : Fin 3) | layerModulation (layer : Fin 3)
  | layerInterleaving (layer : Fin 3)
  | streamId | scramblingSequenceIndex | atscmhFicVer | atscmhParadeId | atscmhNog | atscmhTnog
  | atscmhSgn | atscmhPrc | atscmhRsFrameMode | atscmhRsFrameEnsemble | atscmhRsCodeModePri
  | atscmhRsCodeModeSec | atscmhScccBlockMode | atscmhScccCodeModeA | atscmhScccCodeModeB
  | atscmhScccCodeModeC | atscmhScccCodeModeD
  | lna | searchRange | algorithm | scanStartFrequency | scanEndFrequency | scanResolution | scanFftSize
  | plsMode | plsCode | plsSearchRangeStart | plsSearchRangeEnd | outputBbframes | maxSymbolRate
  | mainModcod | constellationNumSamples | constellationMethod | constellationSelect | modcodFilter
  deriving DecidableEq

inductive Width where
  | word | byte | bool

namespace Member

/-- The type of a member: 32 bits wide, `u8` or `bool`. -/
def width : Member → Width
  | isdbtPartialReception | isdbtSbMode | isdbtSbSubchannel | isdbtLayerEnabled | layerSegmentCount _
  | layerInterleaving _ | atscmhFicVer | atscmhParadeId | atscmhNog | atscmhTnog | atscmhSgn
  | atscmhPrc | atscmhRsFrameMode | atscmhRsFrameEnsemble | atscmhRsCodeModePri
  | atscmhRsCodeModeSec | atscmhScccBlockMode | atscmhScccCodeModeA | atscmhScccCodeModeB
  | atscmhScccCodeModeC | atscmhScccCodeModeD | constellationMethod | constellationSelect => .byte
  | outputBbframes => .bool
  | _ => .word

/-- What is left of a value that is assigned to a member. -/
def assign (m : Member) (data : UInt32) : UInt32 :=
  match m.width with
  | .word => data
  | .byte => data &&& 0xff
  | .bool => if data = 0 then 0 else 1

end Member

/-- The statistics, each a `struct dtv_fe_stats`. -/
inductive Stat where
  | strength | cnr | preBitError | preBitCount | postBitError | postBitCount | blockError | blockCount
  deriving DecidableEq

/-- The bytes of a packed `struct dtv_fe_stats`. -/
abbrev FeStats := Fin 37 → UInt8

/-- `struct neumo_dtv_frontend_properties`, as far as properties can set it or the DVB API reads it. -/
@[ext]
structure DtvFrontendProperties where
  value : Member → UInt32
  plsSearchCodes : Fin 256 → UInt8
  plsSearchCodesLen : UInt8
  stats : Stat → FeStats

def DtvFrontendProperties.set (c : DtvFrontendProperties) (m : Member) (data : UInt32) :
    DtvFrontendProperties :=
  { c with value := Function.update c.value m (m.assign data) }

/-! ### The frontend -/

/-- `FESTATE_…` -/
inductive FeState where
  | idle | retune | tuningFast | tuningSlow | tuned | zigzagFast | zigzagSlow | diseqc | error
  | scanFirst | scanNext | gettingSpectrum
  deriving DecidableEq

/-- The part of `struct neumo_dvb_frontend_private` that properties work on. -/
structure FrontendPrivate where
  state : FeState
  voltage : UInt32
  tone : UInt32
  status : UInt32
  events : List UInt32
  wakeup : Bool
  algoStatus : UInt32
  heartbeatInterval : ℤ
  minDelay : UInt32
  maxDrift : UInt32
  stepSize : UInt32
  spectrumMethod : UInt8

/-- What a driver's callbacks work on. -/
structure Device (δ : Type) where
  cache : DtvFrontendProperties
  data : δ

structure Frontend (δ : Type) where
  dev : Device δ
  priv : FrontendPrivate
  exit : UInt32

/-- `struct neumo_dvb_frontend_tune_settings` -/
structure TuneSettings where
  minDelayMs : ℤ
  stepSize : ℤ
  maxDrift : ℤ

/-- The limits that the frontend and its tuner give. -/
structure FrontendInfo where
  frequencyMinHz : UInt32
  frequencyMaxHz : UInt32
  frequencyStepsizeHz : UInt32
  symbolRateMin : UInt32
  symbolRateMax : UInt32
  tunerFrequencyMinHz : UInt32
  tunerFrequencyMaxHz : UInt32
  tunerFrequencyStepHz : UInt32

/-- `struct neumo_dvb_frontend_ops`, with the parameters of the module and the kernel's clock rate. -/
structure FrontendOps (δ : Type) where
  info : FrontendInfo
  delsys : Fin 8 → UInt8
  setProperty : Option (UInt32 → UInt32 → Device δ → ℤ × Device δ)
  setTone : Option (UInt32 → Device δ → ℤ × Device δ)
  setVoltage : Option (UInt32 → Device δ → ℤ × Device δ)
  setLna : Option (Device δ → ℤ × Device δ)
  setSecReady : Option (Device δ → ℤ × Device δ)
  getTuneSettings : Option (Device δ → ℤ × TuneSettings × Device δ)
  getFrontend : Option (DtvFrontendProperties → Device δ → ℤ × DtvFrontendProperties × Device δ)
  hasSpectrum : Bool
  hasConstellation : Bool
  forceAutoInversion : Bool
  overrideTuneDelay : ℤ
  hz : ℤ

def eperm : ℤ := -1
def efault : ℤ := -14
def enodev : ℤ := -19
def einval : ℤ := -22
def enotty : ℤ := -25
def enoioctlcmd : ℤ := -515
def enotsupp : ℤ := -524

def sysUndefined : UInt32 := 0
def sysDvbcAnnexA : UInt32 := 1
def sysDvbcAnnexB : UInt32 := 2
def sysDvbt : UInt32 := 3
def sysDss : UInt32 := 4
def sysDvbs : UInt32 := 5
def sysDvbs2 : UInt32 := 6
def sysIsdbt : UInt32 := 8
def sysIsdbs : UInt32 := 9
def sysAtsc : UInt32 := 11
def sysAtscmh : UInt32 := 12
def sysDtmb : UInt32 := 13
def sysDvbt2 : UInt32 := 16
def sysTurbo : UInt32 := 17
def sysDvbcAnnexC : UInt32 := 18
def sysDvbs2x : UInt32 := 20
def sysAuto : UInt32 := 22

def fecNone : UInt32 := 0
def fecAuto : UInt32 := 9
def qpsk : UInt32 := 0
def qamAuto : UInt32 := 6
def vsb8 : UInt32 := 7
def rolloff35 : UInt32 := 0
def rolloff20 : UInt32 := 1
def rolloff25 : UInt32 := 2
def rolloffAuto : UInt32 := 3
def hierarchyNone : UInt32 := 0
def hierarchyAuto : UInt32 := 4
def transmissionModeAuto : UInt32 := 2
def guardIntervalAuto : UInt32 := 4
def pilotAuto : UInt32 := 2
def inversionAuto : UInt32 := 2
def algorithmWarm : UInt32 := 0
def algorithmColdBestGuess : UInt32 := 2
def algorithmBlind : UInt32 := 3
def algorithmBlindBestGuess : UInt32 := 4
/-- `LNA_AUTO`, `NO_STREAM_ID_FILTER`, `MODCODE_ALL` and a code or mode that is not set -/
def allOnes : UInt32 := 0xffffffff

variable {δ : Type}

namespace FrontendOps
variable (ops : FrontendOps δ)

/-- The delivery systems the frontend has. -/
def caps : List UInt32 := ((List.ofFn ops.delsys).takeWhile (· ≠ 0)).map UInt8.toUInt32

/-- `is_sat_fe`, whose loop stops behind the first delivery system -/
def isSatFe : Bool := (ops.delsys 0).toUInt32 ∈ [sysDvbs, sysDvbs2, sysDvbs2x]

/-- `is_symbol_rate_fe`, whose loop does so too -/
def isSymbolRateFe : Bool :=
  (ops.delsys 0).toUInt32 ∈ [sysDvbs, sysDvbs2, sysTurbo, sysDvbcAnnexA, sysDvbcAnnexC]

/-- `dvb_frontend_get_frequency_limits` -/
def frequencyLimits : UInt32 × UInt32 :=
  let freqMin := max ops.info.frequencyMinHz ops.info.tunerFrequencyMinHz
  let freqMax := if ops.info.frequencyMaxHz = 0 then ops.info.tunerFrequencyMaxHz
    else if ops.info.tunerFrequencyMaxHz = 0 then ops.info.frequencyMaxHz
    else min ops.info.frequencyMaxHz ops.info.tunerFrequencyMaxHz
  if ops.isSatFe then (freqMin / 1000, freqMax / 1000) else (freqMin, freqMax)

/-- `neumo_dvb_frontend_get_stepsize` -/
def stepsize (c : DtvFrontendProperties) : UInt32 :=
  let step := max ops.info.frequencyStepsizeHz ops.info.tunerFrequencyStepHz
  if c.value .deliverySystem ∈ [sysDvbs, sysDvbs2, sysTurbo, sysIsdbs] then step / 1000 else step

/-- `dvb_frontend_check_parameters` -/
def checkParameters (c : DtvFrontendProperties) : ℤ :=
  let frequency := c.value .frequency
  let symbolRate := c.value .symbolRate
  let (freqMin, freqMax) := ops.frequencyLimits
  if c.value .algorithm ∈
        [algorithmWarm, algorithmBlind, algorithmBlindBestGuess, algorithmColdBestGuess] ∧
      (freqMin ≠ 0 ∧ frequency < freqMin ∨ freqMax ≠ 0 ∧ freqMax < frequency) then einval
  else if ops.isSymbolRateFe ∧ (0 < symbolRate ∨ c.value .algorithm ≠ algorithmBlind) ∧
      (ops.info.symbolRateMin ≠ 0 ∧ symbolRate < ops.info.symbolRateMin ∨
        ops.info.symbolRateMax ≠ 0 ∧ ops.info.symbolRateMax < symbolRate) then einval
  else 0

end FrontendOps

namespace Frontend
variable (ops : FrontendOps δ) (fe : Frontend δ)

abbrev cache : DtvFrontendProperties := fe.dev.cache

def set (m : Member) (data : UInt32) : Frontend δ :=
  { fe with dev := { fe.dev with cache := fe.cache.set m data } }

def sets (l : List (Member × UInt32)) : Frontend δ :=
  l.foldl (fun fe p => fe.set p.1 p.2) fe

/-- `neumo_dvb_frontend_clear_events`, `neumo_dvb_frontend_add_event` and
    `neumo_dvb_frontend_wakeup`, and no status -/
def restart (state : FeState) : Frontend δ :=
  { fe with priv := { fe.priv with state, events := [0], wakeup := true, status := 0 } }

end Frontend

/-! ### Delivery systems -/

/-- `enum dvbv3_emulation_type` -/
inductive Dvbv3EmulationType where
  | unknown | qpsk | qam | ofdm | atsc
  deriving DecidableEq

/-- `dvbv3_type` -/
def dvbv3Type (delsys : UInt32) : Dvbv3EmulationType :=
  if delsys ∈ [sysDvbcAnnexA, sysDvbcAnnexC] then .qam
  else if delsys ∈ [sysDvbs, sysAuto, sysDvbs2, sysTurbo, sysIsdbs, sysDss] then .qpsk
  else if delsys ∈ [sysDvbt, sysDvbt2, sysIsdbt, sysDtmb] then .ofdm
  else if delsys ∈ [sysAtsc, sysAtscmh, sysDvbcAnnexB] then .atsc
  else .unknown

/-- `is_dvbv3_delsys` -/
def isDvbv3Delsys (delsys : UInt32) : Bool :=
  delsys ∈ [sysDvbt, sysDvbcAnnexA, sysDvbs, sysAtsc]

/-- What the members of a layer of ISDB-T are set to. -/
def layerAuto (layer : Fin 3) : List (Member × UInt32) :=
  [(.layerFec layer, fecAuto), (.layerModulation layer, qamAuto), (.layerInterleaving layer, 0),
    (.layerSegmentCount layer, 0)]

/-- `emulate_delivery_system` -/
def emulateDeliverySystem (fe : Frontend δ) (delsys : UInt32) : ℤ × Frontend δ :=
  let fe := fe.set .deliverySystem delsys
  if delsys = sysAuto then (0, fe)
  else if delsys = sysIsdbt then
    let fe := if fe.cache.value .bandwidthHz = 0 then fe.set .bandwidthHz 6000000 else fe
    (0, fe.sets ([(.isdbtPartialReception, 0), (.isdbtSbMode, 0), (.isdbtSbSubchannel, 0),
      (.isdbtSbSegmentIdx, 0), (.isdbtSbSegmentCount, 0), (.isdbtLayerEnabled, 7)] ++
      (List.finRange 3).flatMap layerAuto))
  else (0, fe)

/-- `dvbv5_set_delivery_system` -/
def dvbv5SetDeliverySystem (ops : FrontendOps δ) (fe : Frontend δ) (desired : UInt32) :
    ℤ × Frontend δ :=
  let desired := if desired = sysUndefined then (ops.delsys 0).toUInt32 else desired
  if desired ∈ ops.caps then (0, fe.set .deliverySystem desired)
  else if ¬isDvbv3Delsys desired then (einval, fe)
  else if ops.caps.all (fun delsys => dvbv3Type delsys ≠ dvbv3Type desired) then (einval, fe)
  else emulateDeliverySystem fe desired

/-! ### Clearing and tuning -/

/-- `dvb_frontend_clear_cache` -/
def dvbFrontendClearCache (fe : Frontend δ) : Frontend δ :=
  let delsys := fe.cache.value .deliverySystem
  let zeroed : DtvFrontendProperties :=
    { value := fun _ => 0, plsSearchCodes := fun _ => 0, plsSearchCodesLen := 0, stats := fe.cache.stats }
  let fe := { fe with dev := { fe.dev with cache := zeroed } }
  let fe := fe.sets ([(.deliverySystem, delsys), (.modcodFilter, allOnes),
    (.transmissionMode, transmissionModeAuto), (.bandwidthHz, 0), (.guardInterval, guardIntervalAuto),
    (.hierarchy, hierarchyAuto), (.symbolRate, 0), (.codeRateHP, fecAuto), (.codeRateLP, fecAuto),
    (.fecInner, fecAuto), (.rolloff, rolloffAuto), (.voltage, fe.priv.voltage),
    (.sectone, fe.priv.tone), (.pilot, pilotAuto), (.isdbtPartialReception, 0), (.isdbtSbMode, 0),
    (.isdbtSbSubchannel, 0), (.isdbtSbSegmentIdx, 0), (.isdbtSbSegmentCount, 0),
    (.isdbtLayerEnabled, 7)] ++ (List.finRange 3).flatMap layerAuto ++
    [(.streamId, allOnes), (.modcodFilter, allOnes), (.scramblingSequenceIndex, 0)])
  let fe := if delsys ∈ [sysDvbs, sysDvbs2, sysTurbo] then
      fe.sets [(.modulation, qpsk), (.rolloff, rolloff35)]
    else if delsys = sysAtsc then fe.set .modulation vsb8
    else if delsys = sysIsdbs then
      fe.sets [(.symbolRate, 28860000), (.rolloff, rolloff35), (.bandwidthHz, 28860000 / 100 * 135)]
    else fe.set .modulation qamAuto
  fe.sets [(.lna, allOnes), (.plsSearchRangeStart, 0), (.plsSearchRangeEnd, 0), (.plsCode, allOnes),
    (.plsMode, allOnes)]

/-- The roll-off of a delivery system, in percent and with the signal, where the bandwidth depends on
    it. -/
def rolloffPercent (c : DtvFrontendProperties) : UInt32 :=
  let delsys := c.value .deliverySystem
  if delsys = sysDvbcAnnexA then 115
  else if delsys = sysDvbcAnnexC then 113
  else if delsys = sysDss then 120
  else if delsys ∈ [sysDvbs, sysTurbo, sysIsdbs] then 135
  else if delsys = sysDvbs2 then
    if c.value .rolloff = rolloff20 then 120 else if c.value .rolloff = rolloff25 then 125 else 135
  else 0

/-- `mult_frac` -/
def multFrac (x n d : UInt32) : UInt32 := x / d * n + x % d * n / d

/-- The settings that `dtv_set_frontend` falls back to. -/
def defaultTuneSettings (ops : FrontendOps δ) (fe : Frontend δ) : FrontendPrivate :=
  let c := fe.cache
  let delsys := c.value .deliverySystem
  let priv := { fe.priv with minDelay := UInt32.ofInt (ops.hz / 20) }
  if delsys ∈ [sysDvbs, sysDvbs2, sysIsdbs, sysTurbo, sysDvbcAnnexA, sysDvbcAnnexC] then
    { priv with stepSize := c.value .symbolRate / 16000, maxDrift := c.value .symbolRate / 2000 }
  else if delsys ∈ [sysDvbt, sysDvbt2, sysIsdbt, sysDtmb] then
    { priv with stepSize := ops.stepsize c * 2, maxDrift := ops.stepsize c * 2 + 1 }
  else { priv with stepSize := 0, maxDrift := 0 }

/-- The settings of the driver, if it has any. -/
def tuneSettings (ops : FrontendOps δ) (fe : Frontend δ) : Frontend δ :=
  match ops.getTuneSettings with
  | some getTuneSettings =>
    let (r, settings, dev) := getTuneSettings fe.dev
    let fe := { fe with dev }
    if r = 0 then
      { fe with priv := { fe.priv with
        minDelay := UInt32.ofInt ((settings.minDelayMs * ops.hz).tdiv 1000)
        maxDrift := UInt32.ofInt settings.maxDrift
        stepSize := UInt32.ofInt settings.stepSize } }
    else { fe with priv := defaultTuneSettings ops fe }
  | none => { fe with priv := defaultTuneSettings ops fe }

/-- `dtv_set_frontend` -/
def dtvSetFrontend (ops : FrontendOps δ) (fe : Frontend δ) : ℤ × Frontend δ :=
  if ops.checkParameters fe.cache < 0 then
    (einval, { fe with priv := { fe.priv with state := .idle } })
  else
    let fe := if fe.cache.value .deliverySystem ∈ [sysAtsc, sysDvbcAnnexB] then
      fe.set .bandwidthHz 6000000 else fe
    let rolloff := rolloffPercent fe.cache
    let fe := if rolloff ≠ 0 then
      fe.set .bandwidthHz (multFrac (fe.cache.value .symbolRate) rolloff 100) else fe
    let fe := if ops.forceAutoInversion then fe.set .inversion inversionAuto else fe
    let fe := if fe.cache.value .hierarchy = hierarchyNone ∧ fe.cache.value .codeRateLP = fecNone then
      fe.set .codeRateLP fecAuto else fe
    let fe := tuneSettings ops fe
    let fe := if 0 < ops.overrideTuneDelay then
      { fe with priv := { fe.priv with
        minDelay := UInt32.ofInt ((ops.overrideTuneDelay * ops.hz).tdiv 1000) } } else fe
    -- DVBFE_ALGO_SEARCH_AGAIN
    let fe := { fe with priv := { fe.priv with algoStatus := fe.priv.algoStatus ||| 16 } }
    (0, fe.restart .retune)

/-! ### Setting -/

/-- The commands that set or read something. -/
inductive Command where
  | tune | clear | heartbeat | enumDelsys | apiVersion
  | scan | spectrum | constellation | setSecConfigured | plsSearchRange | plsSearchList
  | member (m : Member)
  | stat (s : Stat)

/-- The numbers of the commands. -/
def commands : List (UInt32 × Command) :=
  [(1, .tune), (2, .clear), (3, .member .frequency), (4, .member .modulation),
    (5, .member .bandwidthHz), (6, .member .inversion), (8, .member .symbolRate),
    (9, .member .fecInner), (10, .member .voltage), (11, .member .sectone), (12, .member .pilot),
    (13, .member .rolloff), (17, .member .deliverySystem), (18, .member .isdbtPartialReception),
    (19, .member .isdbtSbMode), (20, .member .isdbtSbSubchannel), (21, .member .isdbtSbSegmentIdx),
    (22, .member .isdbtSbSegmentCount),
    (23, .member (.layerFec 0)), (24, .member (.layerModulation 0)),
    (25, .member (.layerSegmentCount 0)), (26, .member (.layerInterleaving 0)),
    (27, .member (.layerFec 1)), (28, .member (.layerModulation 1)),
    (29, .member (.layerSegmentCount 1)), (30, .member (.layerInterleaving 1)),
    (31, .member (.layerFec 2)), (32, .member (.layerModulation 2)),
    (33, .member (.layerSegmentCount 2)), (34, .member (.layerInterleaving 2)),
    (35, .apiVersion), (36, .member .codeRateHP), (37, .member .codeRateLP),
    (38, .member .guardInterval), (39, .member .transmissionMode), (40, .member .hierarchy),
    (41, .member .isdbtLayerEnabled), (42, .member .streamId), (43, .member .modcodFilter),
    (44, .enumDelsys), (45, .member .atscmhFicVer), (46, .member .atscmhParadeId),
    (47, .member .atscmhNog), (48, .member .atscmhTnog), (49, .member .atscmhSgn),
    (50, .member .atscmhPrc), (51, .member .atscmhRsFrameMode), (52, .member .atscmhRsFrameEnsemble),
    (53, .member .atscmhRsCodeModePri), (54, .member .atscmhRsCodeModeSec),
    (55, .member .atscmhScccBlockMode), (56, .member .atscmhScccCodeModeA),
    (57, .member .atscmhScccCodeModeB), (58, .member .atscmhScccCodeModeC),
    (59, .member .atscmhScccCodeModeD), (60, .member .interleaving), (61, .member .lna),
    (62, .stat .strength), (63, .stat .cnr), (64, .stat .preBitError), (65, .stat .preBitCount),
    (66, .stat .postBitError), (67, .stat .postBitCount), (68, .stat .blockError),
    (69, .stat .blockCount), (70, .member .scramblingSequenceIndex), (74, .member .algorithm),
    (75, .member .searchRange), (77, .plsSearchList), (78, .plsSearchRange),
    (79, .member .scanStartFrequency), (80, .member .scanEndFrequency), (81, .member .scanResolution),
    (82, .member .scanFftSize), (83, .scan), (84, .spectrum), (85, .member .maxSymbolRate),
    (86, .constellation), (87, .heartbeat), (92, .setSecConfigured), (93, .member .outputBbframes),
    (94, .member .mainModcod), (96, .member .plsMode), (97, .member .plsCode)]

/-- `dtv_max_command` -/
def dtvMaxCommand : UInt32 := 97

def command (cmd : UInt32) : Option Command := commands.lookup cmd

/-- The members without a command that sets them. -/
def Member.settable : Member → Bool
  | mainModcod | atscmhFicVer | atscmhNog | atscmhTnog | atscmhSgn | atscmhPrc | atscmhRsFrameMode
  | atscmhRsCodeModePri | atscmhRsCodeModeSec | atscmhScccBlockMode | atscmhScccCodeModeA
  | atscmhScccCodeModeB | atscmhScccCodeModeC | atscmhScccCodeModeD => false
  | _ => true

/-- `FE_SET_VOLTAGE` -/
def feSetVoltage (ops : FrontendOps δ) (fe : Frontend δ) (voltage : UInt32) : ℤ × Frontend δ :=
  match ops.setVoltage with
  | some setVoltage =>
    let (err, dev) := setVoltage voltage fe.dev
    let state := if fe.priv.state = .idle then .diseqc else fe.priv.state
    (err, { fe with dev, priv := { fe.priv with voltage, state, status := 0 } })
  | none => (enotsupp, fe)

/-- `FE_SET_TONE` -/
def feSetTone (ops : FrontendOps δ) (fe : Frontend δ) (tone : UInt32) : ℤ × Frontend δ :=
  match ops.setTone with
  | some setTone =>
    let (err, dev) := setTone tone fe.dev
    let state := if fe.priv.state = .idle then .diseqc else fe.priv.state
    let fe := { fe with dev, priv := { fe.priv with tone, state, status := 0 } }
    (err, fe.set .sectone tone)
  | none => (enotsupp, fe)

/-- `DTV_LNA`, once the member is set -/
def setLnaInt (ops : FrontendOps δ) (r : ℤ) (fe : Frontend δ) : ℤ × Frontend δ :=
  match ops.setLna with
  | some setLna =>
    let (r, dev) := setLna fe.dev
    let fe := { fe with dev }
    if r < 0 then (r, fe.set .lna allOnes) else (r, fe)
  | none => (r, fe)

/-- The command of `dtv_property_process_set_int`, once the driver has let it pass with `r`. -/
def setInt (ops : FrontendOps δ) (r : ℤ) (fe : Frontend δ) (cmd data : UInt32) : ℤ × Frontend δ :=
  match command cmd with
  | some (.member .deliverySystem) => dvbv5SetDeliverySystem ops fe data
  | some (.member .voltage) => feSetVoltage ops (fe.set .voltage data) data
  | some (.member .sectone) => feSetTone ops (fe.set .sectone data) data
  | some (.member .lna) => setLnaInt ops r (fe.set .lna data)
  | some (.member m) => if m.settable then (r, fe.set m data) else (einval, fe)
  | some .heartbeat =>
    (r, { fe with priv := { fe.priv with heartbeatInterval := max data.toInt32.toInt 500 } })
  | _ => (einval, fe)

/-- `dtv_property_process_set_int` -/
def dtvPropertyProcessSetInt (ops : FrontendOps δ) (fe : Frontend δ) (cmd data : UInt32) :
    ℤ × Frontend δ :=
  match ops.setProperty with
  | some setProperty =>
    let (r, dev) := setProperty cmd data fe.dev
    let fe := { fe with dev }
    if r < 0 then (r, fe) else setInt ops r fe cmd data
  | none => setInt ops 0 fe cmd data

/-- `dvbuapi_dtv_property_process_set` -/
def dvbuapiDtvPropertyProcessSet (ops : FrontendOps δ) (fe : Frontend δ) (cmd data : UInt32) :
    ℤ × Frontend δ :=
  if cmd = 0 ∨ dtvMaxCommand < cmd then (einval, fe)
  else match command cmd with
  | some .clear => (0, dvbFrontendClearCache fe)
  | some .tune => dtvSetFrontend ops fe
  | _ => dtvPropertyProcessSetInt ops fe cmd data

end Dvb.Properties

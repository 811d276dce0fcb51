import NeumoDrivers.Dvb.PropertyIoctls

/-! What a property that is refused leaves behind.

    Most properties are refused before anything is written. The voltage, the tone and the amplifier are
    noted first and then asked of the driver, the ioctls for the voltage and the tone note them whatever
    the driver answers, and a list of codes is measured and copied into the cache before it is known
    that all of it can be read. -/

namespace Dvb.Properties

variable {δ : Type}

/-! ### The commands of the driver's own API -/

/-- The codes of a program, of which `readable` bytes can be copied before the copy faults. -/
structure UserCodes where
  byte : ℕ → UInt8
  readable : ℕ

/-- `struct dtv_pls_search_list` -/
structure PlsSearchList where
  numCodes : Int32
  codes : Option UserCodes

/-- `struct dtv_property`: the parts of its union that properties are set from -/
structure NeumoProperty where
  cmd : UInt32
  data : UInt32
  numSamples : UInt32
  method : UInt8
  constelSelect : UInt8
  bufferLen : UInt32
  bufferStart : UInt32
  bufferEnd : UInt32
  plsSearchCodes : PlsSearchList

/-- Where a member lies behind `pls_search_codes`. -/
def Member.behindCodes : Member → Option ℕ
  | plsSearchRangeStart => some 256
  | plsSearchRangeEnd => some 260
  | outputBbframes => some 276
  | maxSymbolRate => some 280
  | mainModcod => some 296
  | constellationNumSamples => some 300
  | constellationMethod => some 316
  | constellationSelect => some 317
  | modcodFilter => some 324
  | _ => none

def Stat.index : Stat → ℕ
  | strength => 0
  | cnr => 1
  | preBitError => 2
  | preBitCount => 3
  | postBitError => 4
  | postBitCount => 5
  | blockError => 6
  | blockCount => 7

/-- A member as it lies in memory. -/
def Member.load (m : Member) (byte : ℕ → UInt8) : UInt32 :=
  match m.width with
  | .word => (byte 0).toUInt32 ||| (byte 1).toUInt32 <<< 8 ||| (byte 2).toUInt32 <<< 16 |||
      (byte 3).toUInt32 <<< 24
  | .byte | .bool => (byte 0).toUInt32

/-- The first `n` bytes from `pls_search_codes` on are overwritten. They go beyond the codes, and even
    beyond the cache, if there are too many of them. -/
def DtvFrontendProperties.overwrite (c : DtvFrontendProperties) (n : ℕ) (byte : ℕ → UInt8) :
    DtvFrontendProperties where
  value m := match m.behindCodes with
    | some p => if p < n then m.load fun j => byte (p + j) else c.value m
    | none => c.value m
  plsSearchCodes j := if j < n then byte j else c.plsSearchCodes j
  plsSearchCodesLen := if 264 < n then byte 264 else c.plsSearchCodesLen
  stats s j := if 328 + 37 * s.index + j < n then byte (328 + 37 * s.index + j) else c.stats s j

namespace PlsSearchList

/-- What `dtv_set_pls_search_list` takes for the number of codes. -/
def len (user : PlsSearchList) : UInt8 :=
  if user.numCodes.toInt < 64 then user.numCodes.toUInt32.toUInt8 else 64

end PlsSearchList

namespace UserCodes

/-- What a copy of `n` bytes leaves: zeros, from where it faults on. -/
def copied (user : UserCodes) (j : ℕ) : UInt8 := if j < user.readable then user.byte j else 0

end UserCodes

/-- `dtv_set_pls_search_list` -/
def dtvSetPlsSearchList (fe : Frontend δ) (user : PlsSearchList) : ℤ × Frontend δ :=
  let c := { fe.cache with plsSearchCodesLen := user.len }
  match user.codes with
  | some codes =>
    if user.len = 0 then (efault, { fe with dev := { fe.dev with cache := c } })
    else
      let n := 4 * user.len.toNat
      let fe := { fe with dev := { fe.dev with cache := c.overwrite n codes.copied } }
      if codes.readable < n then (efault, fe) else (0, fe)
  | none => (efault, { fe with dev := { fe.dev with cache := c } })

/-- `dtv_set_sec_configured` -/
def dtvSetSecConfigured (ops : FrontendOps δ) (fe : Frontend δ) : ℤ × Frontend δ :=
  match ops.setSecReady with
  | some setSecReady =>
    let (r, dev) := setSecReady fe.dev
    (r, { fe with dev })
  | none => (0, fe)

/-- `dtv_set_spectrum` -/
def dtvSetSpectrum (ops : FrontendOps δ) (fe : Frontend δ) (method : UInt32) : ℤ × Frontend δ :=
  if ¬ops.hasSpectrum then (enotsupp, fe)
  -- SPECTRUM_METHOD_SWEEP, SPECTRUM_METHOD_FFT
  else if method ≠ 0 ∧ method ≠ 1 then (einval, fe)
  else
    let fe := { fe with priv := { fe.priv with spectrumMethod := method.toUInt8 } }
    (0, fe.restart .gettingSpectrum)

/-- `dtv_set_constellation` -/
def dtvSetConstellation (ops : FrontendOps δ) (fe : Frontend δ) (tvp : NeumoProperty) :
    ℤ × Frontend δ :=
  if ¬ops.hasConstellation then (enotsupp, fe)
  else (0, fe.sets [(.constellationNumSamples, tvp.numSamples),
    (.constellationMethod, tvp.method.toUInt32),
    (.constellationSelect, tvp.constelSelect.toUInt32)])

/-- `neumouapi_dtv_property_process_set` -/
def neumouapiDtvPropertyProcessSet (ops : FrontendOps δ) (fe : Frontend δ) (tvp : NeumoProperty) :
    ℤ × Frontend δ :=
  if tvp.cmd = 0 ∨ dtvMaxCommand < tvp.cmd then (einval, fe)
  else match command tvp.cmd with
  | some .clear => (0, dvbFrontendClearCache fe)
  | some .tune => dtvSetFrontend ops fe
  | some .setSecConfigured => dtvSetSecConfigured ops fe
  | some .scan => (0, fe.restart (if tvp.data ≠ 0 then .scanNext else .scanFirst))
  | some .spectrum => dtvSetSpectrum ops fe tvp.data
  | some .constellation => dtvSetConstellation ops fe tvp
  | some .plsSearchRange =>
    if tvp.bufferLen = 8 then
      (0, fe.sets [(.plsSearchRangeStart, tvp.bufferStart), (.plsSearchRangeEnd, tvp.bufferEnd)])
    else (0, fe)
  | some .plsSearchList => dtvSetPlsSearchList fe tvp.plsSearchCodes
  | _ => dtvPropertyProcessSetInt ops fe tvp.cmd tvp.data

/-! ### Requests -/

/-- A property, as each of the three interfaces sets it, or an ioctl of its own. -/
inductive Request where
  | neumo (tvp : NeumoProperty)
  | native (tvp : DtvProperty)
  | compat (tvp : DtvProperty)
  | voltage (voltage : UInt32)
  | tone (tone : UInt32)

def perform (ops : FrontendOps δ) (fe : Frontend δ) : Request → ℤ × Frontend δ
  | .neumo tvp => neumouapiDtvPropertyProcessSet ops fe tvp
  | .native tvp => dvbuapiDtvPropertyProcessSet ops fe tvp.cmd tvp.data
  | .compat tvp => dtvPropertyProcessSetInt ops fe tvp.cmd tvp.data
  | .voltage voltage => feSetVoltage ops fe voltage
  | .tone tone => feSetTone ops fe tone

/-- The driver does not write the cache itself. -/
structure KeepsCache (ops : FrontendOps δ) : Prop where
  setProperty : ∀ f ∈ ops.setProperty, ∀ cmd data dev, (f cmd data dev).2.cache = dev.cache
  setTone : ∀ f ∈ ops.setTone, ∀ tone dev, (f tone dev).2.cache = dev.cache
  setVoltage : ∀ f ∈ ops.setVoltage, ∀ voltage dev, (f voltage dev).2.cache = dev.cache
  setLna : ∀ f ∈ ops.setLna, ∀ dev, (f dev).2.cache = dev.cache
  setSecReady : ∀ f ∈ ops.setSecReady, ∀ dev, (f dev).2.cache = dev.cache
  getTuneSettings : ∀ f ∈ ops.getTuneSettings, ∀ dev, (f dev).2.2.cache = dev.cache

/-- The cache and what is remembered of the voltage and the tone. -/
structure Unchanged (fe fe' : Frontend δ) : Prop where
  cache : fe'.cache = fe.cache
  voltage : fe'.priv.voltage = fe.priv.voltage
  tone : fe'.priv.tone = fe.priv.tone

/-! ### When nothing changes -/

/-- What the driver answers to a property before anything is done with it. -/
def letPass (ops : FrontendOps δ) (dev : Device δ) (cmd data : UInt32) : ℤ × Device δ :=
  match ops.setProperty with
  | some setProperty => setProperty cmd data dev
  | none => (0, dev)

/-- The device, with a member set. -/
def Device.set (dev : Device δ) (m : Member) (data : UInt32) : Device δ :=
  { dev with cache := dev.cache.set m data }

/-- The voltage of the ioctl is the one remembered, or the driver takes it. -/
def VoltageSpared (ops : FrontendOps δ) (priv : FrontendPrivate) (dev : Device δ) (voltage : UInt32) :
    Prop :=
  ∀ f ∈ ops.setVoltage, (f voltage dev).1 < 0 → priv.voltage = voltage

/-- The tone of the ioctl is the one remembered in both places, or the driver takes it. -/
def ToneSpared (ops : FrontendOps δ) (fe : Frontend δ) (dev : Device δ) (tone : UInt32) : Prop :=
  ∀ f ∈ ops.setTone, (f tone dev).1 < 0 →
    fe.priv.tone = tone ∧ fe.cache.value .sectone = tone

/-- A command is taken, or it is the voltage or the tone that is set already, or it asks for a setting of
    the amplifier where that was left to itself. -/
def CommandSpared (ops : FrontendOps δ) (fe : Frontend δ) (cmd data : UInt32) : Prop :=
  match command cmd with
  | some (.member .voltage) =>
    ((∀ f ∈ ops.setVoltage, (f data (fe.dev.set .voltage data)).1 < 0) →
      fe.cache.value .voltage = data) ∧ VoltageSpared ops fe.priv (fe.dev.set .voltage data) data
  | some (.member .sectone) =>
    ((∀ f ∈ ops.setTone, (f data (fe.dev.set .sectone data)).1 < 0) →
      fe.cache.value .sectone = data) ∧ ToneSpared ops fe (fe.dev.set .sectone data) data
  | some (.member .lna) => ∀ f ∈ ops.setLna, (f (fe.dev.set .lna data)).1 < 0 →
      fe.cache.value .lna = allOnes
  | _ => True

/-- The driver does not let the property pass, or its command is spared. -/
def SetSpared (ops : FrontendOps δ) (fe : Frontend δ) (cmd data : UInt32) : Prop :=
  0 ≤ (letPass ops fe.dev cmd data).1 →
    CommandSpared ops { fe with dev := (letPass ops fe.dev cmd data).2 } cmd data

/-- The memory from the codes on holds these bytes already. -/
structure DtvFrontendProperties.Holds (c : DtvFrontendProperties) (n : ℕ) (byte : ℕ → UInt8) : Prop where
  codes : ∀ j : Fin 256, j < n → c.plsSearchCodes j = byte j
  value : ∀ m p, m.behindCodes = some p → p < n → c.value m = m.load fun j => byte (p + j)
  stats : ∀ s (j : Fin 37), 328 + 37 * s.index + j < n →
    c.stats s j = byte (328 + 37 * s.index + j)

/-- A list that cannot be read has as many codes as there are, and what was copied of it is there
    already. -/
def ListSpared (c : DtvFrontendProperties) (user : PlsSearchList) : Prop :=
  match user.codes with
  | some codes =>
    if user.len = 0 then c.plsSearchCodesLen = 0
    else codes.readable < 4 * user.len.toNat →
      c.plsSearchCodesLen = (if 264 < 4 * user.len.toNat then codes.copied 264 else user.len) ∧
        c.Holds (4 * user.len.toNat) codes.copied
  | none => c.plsSearchCodesLen = user.len

def Spared (ops : FrontendOps δ) (fe : Frontend δ) : Request → Prop
  | .neumo tvp =>
    (command tvp.cmd = some .plsSearchList → ListSpared fe.cache tvp.plsSearchCodes) ∧
      SetSpared ops fe tvp.cmd tvp.data
  | .native tvp => SetSpared ops fe tvp.cmd tvp.data
  | .compat tvp => SetSpared ops fe tvp.cmd tvp.data
  | .voltage voltage => VoltageSpared ops fe.priv fe.dev voltage
  | .tone tone => ToneSpared ops fe fe.dev tone

variable {ops : FrontendOps δ} {fe fe' : Frontend δ} {cmd data : UInt32} {m : Member}

/-! ### Commands -/

theorem Unchanged.refl (fe : Frontend δ) : Unchanged fe fe := ⟨rfl, rfl, rfl⟩

theorem set_eq_self_iff {c : DtvFrontendProperties} : c.set m data = c ↔ c.value m = m.assign data := by
  rw [DtvFrontendProperties.ext_iff]
  have hupdate : Function.update c.value m (m.assign data) = c.value ↔ m.assign data = c.value m :=
    Function.update_eq_self_iff
  exact ⟨fun h => (hupdate.mp h.1).symm, fun h => ⟨hupdate.mpr h.symm, rfl, rfl, rfl⟩⟩

theorem set_set {c : DtvFrontendProperties} {data' : UInt32} :
    (c.set m data).set m data' = c.set m data' := by
  rw [DtvFrontendProperties.set, DtvFrontendProperties.set, DtvFrontendProperties.set]
  rw [Function.update_idem]

theorem unchanged_set_iff (hassign : m.assign data = data) :
    Unchanged fe (fe.set m data) ↔ fe.cache.value m = data := by
  rw [← hassign, ← set_eq_self_iff, hassign]
  exact ⟨Unchanged.cache, fun h => ⟨h, rfl, rfl⟩⟩

theorem dvbv5_refused (h : (dvbv5SetDeliverySystem ops fe data).1 < 0) :
    (dvbv5SetDeliverySystem ops fe data).2 = fe := by
  have hemulate (delsys : UInt32) : (emulateDeliverySystem fe delsys).1 = 0 := by
    rw [emulateDeliverySystem]
    dsimp only
    split
    · rfl
    · split <;> rfl
  revert h
  rw [dvbv5SetDeliverySystem]
  generalize (if data = sysUndefined then (ops.delsys 0).toUInt32 else data) = desired
  split
  · exact fun h => absurd h (lt_irrefl 0)
  split
  · exact fun _ => rfl
  split
  · exact fun _ => rfl
  · intro h
    rw [hemulate] at h
    exact absurd h (lt_irrefl 0)

theorem feSetVoltage_none (hops : ops.setVoltage = none) (fe : Frontend δ) :
    feSetVoltage ops fe data = (enotsupp, fe) := by
  rw [feSetVoltage, hops]

theorem feSetVoltage_some {f : UInt32 → Device δ → ℤ × Device δ} (hops : ops.setVoltage = some f)
    (fe : Frontend δ) : (feSetVoltage ops fe data).1 = (f data fe.dev).1 ∧
      (feSetVoltage ops fe data).2.dev = (f data fe.dev).2 ∧
      (feSetVoltage ops fe data).2.priv.voltage = data ∧
      (feSetVoltage ops fe data).2.priv.tone = fe.priv.tone := by
  rw [feSetVoltage, hops]
  exact ⟨rfl, rfl, rfl, rfl⟩

/-- The ioctl for the voltage. -/
theorem voltage_iff (h : KeepsCache ops) :
    ((feSetVoltage ops fe data).1 < 0 → Unchanged fe (feSetVoltage ops fe data).2) ↔
      VoltageSpared ops fe.priv fe.dev data := by
  cases hops : ops.setVoltage with
  | none =>
    rw [feSetVoltage_none hops, VoltageSpared, hops]
    exact iff_of_true (fun _ => .refl fe) nofun
  | some f =>
    obtain ⟨herr, hdev, hvoltage, htone⟩ := @feSetVoltage_some _ ops data f hops fe
    rw [herr, VoltageSpared, hops]
    have hcache : (feSetVoltage ops fe data).2.cache = fe.cache := by
      rw [Frontend.cache, hdev]
      exact h.setVoltage f hops data fe.dev
    constructor
    · rintro hun f' ⟨⟩ hneg
      exact (hun hneg).voltage.symm.trans hvoltage
    · intro hspared hneg
      exact ⟨hcache, hvoltage.trans (hspared f rfl hneg).symm, htone⟩

theorem feSetTone_none (hops : ops.setTone = none) (fe : Frontend δ) :
    feSetTone ops fe data = (enotsupp, fe) := by
  rw [feSetTone, hops]

theorem feSetTone_some (h : KeepsCache ops) {f : UInt32 → Device δ → ℤ × Device δ}
    (hops : ops.setTone = some f) (fe : Frontend δ) :
    (feSetTone ops fe data).1 = (f data fe.dev).1 ∧
      (feSetTone ops fe data).2.cache = fe.cache.set .sectone data ∧
      (feSetTone ops fe data).2.priv.voltage = fe.priv.voltage ∧
      (feSetTone ops fe data).2.priv.tone = data := by
  have hcache := h.setTone f hops data fe.dev
  rw [feSetTone, hops]
  refine ⟨rfl, ?_, rfl, rfl⟩
  exact congrArg (DtvFrontendProperties.set · .sectone data) hcache

/-- The ioctl for the tone. -/
theorem tone_iff (h : KeepsCache ops) :
    ((feSetTone ops fe data).1 < 0 → Unchanged fe (feSetTone ops fe data).2) ↔
      ToneSpared ops fe fe.dev data := by
  cases hops : ops.setTone with
  | none =>
    rw [feSetTone_none hops, ToneSpared, hops]
    exact iff_of_true (fun _ => .refl fe) nofun
  | some f =>
    obtain ⟨herr, hcache, hvoltage, htone⟩ := @feSetTone_some _ ops data h f hops fe
    rw [herr, ToneSpared, hops]
    constructor
    · rintro hun f' ⟨⟩ hneg
      exact ⟨(hun hneg).tone.symm.trans htone,
        set_eq_self_iff.mp (hcache.symm.trans (hun hneg).cache)⟩
    · intro hspared hneg
      obtain ⟨hpriv, hvalue⟩ := hspared f rfl hneg
      exact ⟨hcache.trans (set_eq_self_iff.mpr hvalue), hvoltage, htone.trans hpriv.symm⟩

/-- The property for the voltage is noted in the cache first. -/
theorem voltage_property_iff (h : KeepsCache ops) :
    ((feSetVoltage ops (fe.set .voltage data) data).1 < 0 →
        Unchanged fe (feSetVoltage ops (fe.set .voltage data) data).2) ↔
      ((∀ f ∈ ops.setVoltage, (f data (fe.dev.set .voltage data)).1 < 0) →
          fe.cache.value .voltage = data) ∧
        VoltageSpared ops fe.priv (fe.dev.set .voltage data) data := by
  cases hops : ops.setVoltage with
  | none =>
    have hneg : enotsupp < 0 := by decide
    rw [feSetVoltage_none hops, VoltageSpared, hops, forall_prop_of_true hneg, unchanged_set_iff rfl]
    exact ⟨fun hvalue => ⟨fun _ => hvalue, nofun⟩, fun hspared => hspared.1 nofun⟩
  | some f =>
    obtain ⟨herr, hdev, hvoltage, htone⟩ := @feSetVoltage_some _ ops data f hops (fe.set .voltage data)
    have hcache : (feSetVoltage ops (fe.set .voltage data) data).2.cache = fe.cache.set .voltage data := by
      rw [Frontend.cache, hdev]
      exact h.setVoltage f hops data _
    rw [herr, VoltageSpared, hops]
    constructor
    · intro hun
      refine ⟨fun hall => ?_, ?_⟩
      · exact set_eq_self_iff.mp (hcache.symm.trans (hun (hall f rfl)).cache)
      · rintro f' ⟨⟩ hneg
        exact (hun hneg).voltage.symm.trans hvoltage
    · rintro ⟨hvalue, hpriv⟩ hneg
      have hall : ∀ f' ∈ some f, (f' data (fe.dev.set .voltage data)).1 < 0 := by
        rintro f' ⟨⟩
        exact hneg
      exact ⟨hcache.trans (set_eq_self_iff.mpr (hvalue hall)), hvoltage.trans (hpriv f rfl hneg).symm,
        htone⟩

/-- So is the tone. -/
theorem tone_property_iff (h : KeepsCache ops) :
    ((feSetTone ops (fe.set .sectone data) data).1 < 0 →
        Unchanged fe (feSetTone ops (fe.set .sectone data) data).2) ↔
      ((∀ f ∈ ops.setTone, (f data (fe.dev.set .sectone data)).1 < 0) →
          fe.cache.value .sectone = data) ∧
        ToneSpared ops fe (fe.dev.set .sectone data) data := by
  cases hops : ops.setTone with
  | none =>
    have hneg : enotsupp < 0 := by decide
    rw [feSetTone_none hops, ToneSpared, hops, forall_prop_of_true hneg, unchanged_set_iff rfl]
    exact ⟨fun hvalue => ⟨fun _ => hvalue, nofun⟩, fun hspared => hspared.1 nofun⟩
  | some f =>
    obtain ⟨herr, hcache, hvoltage, htone⟩ := @feSetTone_some _ ops data h f hops (fe.set .sectone data)
    have honce : (feSetTone ops (fe.set .sectone data) data).2.cache = fe.cache.set .sectone data :=
      hcache.trans set_set
    rw [herr, ToneSpared, hops]
    constructor
    · intro hun
      have hvalue (hneg : (f data (fe.dev.set .sectone data)).1 < 0) : fe.cache.value .sectone = data :=
        set_eq_self_iff.mp (honce.symm.trans (hun hneg).cache)
      refine ⟨fun hall => hvalue (hall f rfl), ?_⟩
      rintro f' ⟨⟩ hneg
      exact ⟨(hun hneg).tone.symm.trans htone, hvalue hneg⟩
    · rintro ⟨-, hspared⟩ hneg
      obtain ⟨hpriv, hvalue⟩ := hspared f rfl hneg
      exact ⟨honce.trans (set_eq_self_iff.mpr hvalue), hvoltage, htone.trans hpriv.symm⟩

/-- An amplifier that the driver does not set is left to itself. -/
theorem lna_property_iff (h : KeepsCache ops) {r : ℤ} (hr : 0 ≤ r) :
    ((setLnaInt ops r (fe.set .lna data)).1 < 0 →
        Unchanged fe (setLnaInt ops r (fe.set .lna data)).2) ↔
      ∀ f ∈ ops.setLna, (f (fe.dev.set .lna data)).1 < 0 → fe.cache.value .lna = allOnes := by
  rw [setLnaInt]
  cases hops : ops.setLna with
  | none => exact iff_of_true (fun hneg => absurd hr (not_le_of_gt hneg)) nofun
  | some f =>
    have hcache : (f (fe.dev.set .lna data)).2.cache = fe.cache.set .lna data := h.setLna f hops _
    have hauto : ((f (fe.dev.set .lna data)).2.cache.set .lna allOnes) = fe.cache.set .lna allOnes := by
      rw [hcache, set_set]
    dsimp only
    split
    · rename_i hneg
      constructor
      · rintro hun f' ⟨⟩ -
        exact set_eq_self_iff.mp (hauto.symm.trans (hun hneg).cache)
      · intro hspared _
        exact ⟨hauto.trans (set_eq_self_iff.mpr (hspared f rfl hneg)), rfl, rfl⟩
    · rename_i hpos
      refine iff_of_true (fun hneg => absurd hneg hpos) ?_
      rintro f' ⟨⟩ hneg
      exact absurd hneg hpos

/-- What is done with a property that the driver has let pass. -/
theorem setInt_iff (h : KeepsCache ops) {r : ℤ} (hr : 0 ≤ r) :
    ((setInt ops r fe cmd data).1 < 0 → Unchanged fe (setInt ops r fe cmd data).2) ↔
      CommandSpared ops fe cmd data := by
  rw [setInt, CommandSpared]
  cases command cmd with
  | none => exact iff_of_true (fun _ => .refl fe) trivial
  | some c =>
    cases c with
    | member m =>
      cases m with
      | deliverySystem =>
        refine iff_of_true (fun hneg => ?_) trivial
        have hsame := dvbv5_refused hneg
        exact ⟨congrArg Frontend.cache hsame, congrArg (·.priv.voltage) hsame,
          congrArg (·.priv.tone) hsame⟩
      | voltage => exact voltage_property_iff h
      | sectone => exact tone_property_iff h
      | lna => exact lna_property_iff h hr
      | _ =>
        dsimp only
        split
        · exact iff_of_true (fun hneg => absurd hr (not_le_of_gt hneg)) trivial
        · exact iff_of_true (fun _ => .refl fe) trivial
    | heartbeat => exact iff_of_true (fun hneg => absurd hr (not_le_of_gt hneg)) trivial
    | _ => exact iff_of_true (fun _ => .refl fe) trivial

theorem letPass_cache (h : KeepsCache ops) (dev : Device δ) :
    (letPass ops dev cmd data).2.cache = dev.cache := by
  rw [letPass]
  cases hops : ops.setProperty with
  | none => rfl
  | some f => exact h.setProperty f hops cmd data dev

theorem processSetInt_eq (ops : FrontendOps δ) (fe : Frontend δ) (cmd data : UInt32) :
    dtvPropertyProcessSetInt ops fe cmd data =
      if (letPass ops fe.dev cmd data).1 < 0 then
        ((letPass ops fe.dev cmd data).1, { fe with dev := (letPass ops fe.dev cmd data).2 })
      else setInt ops (letPass ops fe.dev cmd data).1
        { fe with dev := (letPass ops fe.dev cmd data).2 } cmd data := by
  rw [dtvPropertyProcessSetInt, letPass]
  cases ops.setProperty with
  | none => rfl
  | some f => rfl

theorem unchanged_congr {fe₁ : Frontend δ} (hcache : fe₁.cache = fe.cache) (hpriv : fe₁.priv = fe.priv) :
    Unchanged fe₁ fe' ↔ Unchanged fe fe' :=
  ⟨fun h => ⟨h.cache.trans hcache, hpriv ▸ h.voltage, hpriv ▸ h.tone⟩,
    fun h => ⟨h.cache.trans hcache.symm, hpriv ▸ h.voltage, hpriv ▸ h.tone⟩⟩

theorem setSpared_iff (h : KeepsCache ops) (fe : Frontend δ) (cmd data : UInt32) :
    ((dtvPropertyProcessSetInt ops fe cmd data).1 < 0 →
        Unchanged fe (dtvPropertyProcessSetInt ops fe cmd data).2) ↔ SetSpared ops fe cmd data := by
  have hcache := @letPass_cache _ ops cmd data h fe.dev
  rw [processSetInt_eq, SetSpared]
  split
  · rename_i hneg
    exact iff_of_true (fun _ => ⟨hcache, rfl, rfl⟩) fun hpos => absurd hneg (by omega)
  · rename_i hpos
    have hpos : 0 ≤ (letPass ops fe.dev cmd data).1 := by omega
    rw [forall_prop_of_true hpos, ← setInt_iff h hpos]
    refine forall_congr' fun _ => ?_
    exact (@unchanged_congr _ fe _ { fe with dev := (letPass ops fe.dev cmd data).2 } hcache rfl).symm

theorem dtvSetFrontend_refused (hneg : (dtvSetFrontend ops fe).1 < 0) :
    Unchanged fe (dtvSetFrontend ops fe).2 := by
  revert hneg
  rw [dtvSetFrontend]
  split
  · exact fun _ => ⟨rfl, rfl, rfl⟩
  · exact fun hneg => absurd hneg (lt_irrefl 0)

theorem secConfigured_unchanged (h : KeepsCache ops) (fe : Frontend δ) :
    Unchanged fe (dtvSetSecConfigured ops fe).2 := by
  rw [dtvSetSecConfigured]
  cases hops : ops.setSecReady with
  | none => exact .refl fe
  | some f => exact ⟨h.setSecReady f hops fe.dev, rfl, rfl⟩

theorem spectrum_refused (hneg : (dtvSetSpectrum ops fe data).1 < 0) :
    Unchanged fe (dtvSetSpectrum ops fe data).2 := by
  revert hneg
  rw [dtvSetSpectrum]
  split
  · exact fun _ => .refl fe
  split
  · exact fun _ => .refl fe
  · exact fun hneg => absurd hneg (lt_irrefl 0)

theorem constellation_refused {tvp : NeumoProperty} (hneg : (dtvSetConstellation ops fe tvp).1 < 0) :
    Unchanged fe (dtvSetConstellation ops fe tvp).2 := by
  revert hneg
  rw [dtvSetConstellation]
  split
  · exact fun _ => .refl fe
  · exact fun hneg => absurd hneg (lt_irrefl 0)

/-! ### A list of codes -/

theorem overwrite_eq_self_iff (c : DtvFrontendProperties) (len : UInt8) (n : ℕ) (byte : ℕ → UInt8) :
    ({ c with plsSearchCodesLen := len }).overwrite n byte = c ↔
      c.plsSearchCodesLen = (if 264 < n then byte 264 else len) ∧ c.Holds n byte := by
  rw [DtvFrontendProperties.ext_iff]
  constructor
  · rintro ⟨hvalue, hcodes, hlen, hstats⟩
    refine ⟨hlen.symm, ?_, ?_, ?_⟩
    · intro j hj
      exact (congrFun hcodes j).symm.trans (if_pos hj)
    · intro m p hm hp
      have hvalue := congrFun hvalue m
      rw [DtvFrontendProperties.overwrite] at hvalue
      dsimp only at hvalue
      rw [hm] at hvalue
      exact hvalue.symm.trans (if_pos hp)
    · intro s j hj
      exact (congrFun (congrFun hstats s) j).symm.trans (if_pos hj)
  · rintro ⟨hlen, hcodes, hvalue, hstats⟩
    refine ⟨funext fun m => ?_, funext fun j => ?_, hlen.symm, funext fun s => funext fun j => ?_⟩
    · rw [DtvFrontendProperties.overwrite]
      dsimp only
      cases hm : m.behindCodes with
      | none => rfl
      | some p => exact ite_eq_right_iff.mpr fun hp => (hvalue m p hm hp).symm
    · exact ite_eq_right_iff.mpr fun hj => (hcodes j hj).symm
    · exact ite_eq_right_iff.mpr fun hj => (hstats s j hj).symm

theorem unchanged_cache_iff (fe : Frontend δ) (c : DtvFrontendProperties) :
    Unchanged fe { fe with dev := { fe.dev with cache := c } } ↔ c = fe.cache :=
  ⟨fun h => h.cache, fun h => ⟨h, rfl, rfl⟩⟩

theorem setLen_eq_self_iff (c : DtvFrontendProperties) (len : UInt8) :
    { c with plsSearchCodesLen := len } = c ↔ c.plsSearchCodesLen = len :=
  ⟨fun h => (congrArg DtvFrontendProperties.plsSearchCodesLen h).symm, fun h => by rw [← h]⟩

theorem efault_neg : efault < 0 := by decide

theorem listSpared_iff (fe : Frontend δ) (user : PlsSearchList) :
    ((dtvSetPlsSearchList fe user).1 < 0 → Unchanged fe (dtvSetPlsSearchList fe user).2) ↔
      ListSpared fe.cache user := by
  rw [dtvSetPlsSearchList, ListSpared]
  cases user.codes with
  | none => rw [forall_prop_of_true efault_neg, unchanged_cache_iff, setLen_eq_self_iff]
  | some codes =>
    dsimp only
    by_cases hzero : user.len = 0
    · rw [if_pos hzero, if_pos hzero, forall_prop_of_true efault_neg, unchanged_cache_iff,
        setLen_eq_self_iff, hzero]
    rw [if_neg hzero, if_neg hzero]
    by_cases hfault : codes.readable < 4 * user.len.toNat
    · rw [if_pos hfault, forall_prop_of_true efault_neg, forall_prop_of_true hfault,
        unchanged_cache_iff, overwrite_eq_self_iff]
    · rw [if_neg hfault]
      exact iff_of_true (fun hneg => absurd hneg (lt_irrefl 0)) fun h => absurd h hfault

/-! ### Requests -/

theorem setSpared_of_ne (hcmd : ∀ m, command cmd ≠ some (.member m)) : SetSpared ops fe cmd data := by
  intro _
  rw [CommandSpared]
  cases hc : command cmd with
  | none => trivial
  | some c =>
    cases c with
    | member m => exact absurd hc (hcmd m)
    | _ => trivial

theorem native_iff (h : KeepsCache ops) (fe : Frontend δ) (tvp : DtvProperty) :
    ((dvbuapiDtvPropertyProcessSet ops fe tvp.cmd tvp.data).1 < 0 →
        Unchanged fe (dvbuapiDtvPropertyProcessSet ops fe tvp.cmd tvp.data).2) ↔
      SetSpared ops fe tvp.cmd tvp.data := by
  rw [dvbuapiDtvPropertyProcessSet]
  split
  · rename_i hrange
    refine iff_of_true (fun _ => .refl fe) (setSpared_of_ne fun m => ?_)
    rw [command_eq_none hrange]
    rintro ⟨⟩
  split
  · rename_i hclear
    exact iff_of_true (fun hneg => absurd hneg (lt_irrefl 0))
      (setSpared_of_ne fun m => by rw [hclear]; rintro ⟨⟩)
  · rename_i htune
    exact iff_of_true dtvSetFrontend_refused (setSpared_of_ne fun m => by rw [htune]; rintro ⟨⟩)
  · exact setSpared_iff h fe tvp.cmd tvp.data

/-- The commands that only the driver's own API knows are refused before anything is written, but for a
    list of codes. -/
theorem neumo_iff (h : KeepsCache ops) (fe : Frontend δ) (tvp : NeumoProperty) :
    ((neumouapiDtvPropertyProcessSet ops fe tvp).1 < 0 →
        Unchanged fe (neumouapiDtvPropertyProcessSet ops fe tvp).2) ↔
      Spared ops fe (.neumo tvp) := by
  have hclean (hmember : ∀ m, command tvp.cmd ≠ some (.member m))
      (hlist : command tvp.cmd ≠ some .plsSearchList) : Spared ops fe (.neumo tvp) :=
    ⟨fun h => absurd h hlist, setSpared_of_ne hmember⟩
  rw [neumouapiDtvPropertyProcessSet]
  split
  · rename_i hrange
    rw [command_eq_none hrange] at hclean
    exact iff_of_true (fun _ => .refl fe) (hclean nofun nofun)
  cases hc : command tvp.cmd with
  | none =>
    rw [Spared, and_iff_right (by rw [hc]; exact nofun)]
    exact setSpared_iff h fe tvp.cmd tvp.data
  | some c =>
    rw [hc] at hclean
    cases c with
    | clear => exact iff_of_true (fun hneg => absurd hneg (lt_irrefl 0)) (hclean nofun nofun)
    | tune => exact iff_of_true dtvSetFrontend_refused (hclean nofun nofun)
    | setSecConfigured => exact iff_of_true (fun _ => secConfigured_unchanged h fe) (hclean nofun nofun)
    | scan => exact iff_of_true (fun hneg => absurd hneg (lt_irrefl 0)) (hclean nofun nofun)
    | spectrum => exact iff_of_true spectrum_refused (hclean nofun nofun)
    | constellation => exact iff_of_true constellation_refused (hclean nofun nofun)
    | plsSearchRange =>
      refine iff_of_true (fun hneg => absurd hneg ?_) (hclean nofun nofun)
      dsimp only
      split
      · exact lt_irrefl 0
      · exact lt_irrefl 0
    | plsSearchList =>
      have hspared : SetSpared ops fe tvp.cmd tvp.data :=
        setSpared_of_ne fun m => by rw [hc]; exact nofun
      rw [Spared, and_iff_left hspared, forall_prop_of_true hc]
      exact listSpared_iff fe tvp.plsSearchCodes
    | _ =>
      rw [Spared, and_iff_right (by rw [hc]; exact nofun)]
      exact setSpared_iff h fe tvp.cmd tvp.data

/-- A driver that does not give the voltage asked for. -/
def stubbornOps : FrontendOps Unit :=
  { bareOps with setVoltage := some fun _ dev => (einval, dev) }

end Dvb.Properties

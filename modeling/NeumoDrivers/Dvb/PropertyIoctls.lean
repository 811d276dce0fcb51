import Mathlib
import NeumoDrivers.Dvb.Properties
import NeumoDrivers.Lib.Readings

/-! The property ioctls of the DVB API, native and for 32-bit programs.

    Both set a list of properties one after the other, and both read a list from a copy of the cache.
    The 32-bit one has loops of its own: it knows no command but those of
    `dtv_property_process_set_int`, is not stopped by an exiting frontend or a read-only file, gives
    back what the last property returned, and always lets the driver refresh the copy. -/

namespace Dvb.Properties

variable {δ : Type}

/-- `struct dvb_api_dtv_property`, as far as it is read when it is set -/
structure DtvProperty where
  cmd : UInt32
  data : UInt32

/-- `DTV_IOCTL_MAX_MSGS` -/
def dtvIoctlMaxMsgs : ℕ := 64

/-! ### Setting a list -/

/-- The loop of `DVB_API_FE_SET_PROPERTY`. -/
def setLoop (ops : FrontendOps δ) : Frontend δ → List DtvProperty → ℤ × Frontend δ
  | fe, [] => (0, fe)
  | fe, tvp :: rest =>
    let (err, fe) := dvbuapiDtvPropertyProcessSet ops fe tvp.cmd tvp.data
    if err < 0 then (err, fe) else setLoop ops fe rest

/-- `DVB_API_FE_SET_PROPERTY` in `dvb_frontend_handle_ioctl` -/
def dvbApiFeSetProperty (ops : FrontendOps δ) (fe : Frontend δ) (tvps : List DtvProperty) :
    ℤ × Frontend δ :=
  if tvps.length = 0 ∨ dtvIoctlMaxMsgs < tvps.length then (einval, fe) else setLoop ops fe tvps

/-- What `dvb_frontend_do_ioctl` stops an ioctl with that does not only read. -/
def gate (readOnly : Bool) (fe : Frontend δ) : Option ℤ :=
  if fe.exit ≠ 0 then some enodev else if readOnly then some eperm else none

/-- How `dvb_usercopy` gives back an error. -/
def dvbUsercopy (err : ℤ) : ℤ := if err = enoioctlcmd then enotty else err

/-- `dvb_frontend_ioctl` with `DVB_API_FE_SET_PROPERTY` -/
def nativeSet (ops : FrontendOps δ) (readOnly : Bool) (fe : Frontend δ) (tvps : List DtvProperty) :
    ℤ × Frontend δ :=
  match gate readOnly fe with
  | some err => (dvbUsercopy err, fe)
  | none =>
    let (err, fe) := dvbApiFeSetProperty ops fe tvps
    (dvbUsercopy err, fe)

/-- The loop of `COMPAT_FE_SET_PROPERTY`, with what the property before has returned. -/
def compatSetLoop (ops : FrontendOps δ) : ℤ → Frontend δ → List DtvProperty → ℤ × Frontend δ
  | err, fe, [] => (err, fe)
  | _, fe, tvp :: rest =>
    let (err, fe) := dtvPropertyProcessSetInt ops fe tvp.cmd tvp.data
    if err < 0 then (err, fe) else compatSetLoop ops err fe rest

/-- `neumo_dvb_frontend_compat_ioctl` with `COMPAT_FE_SET_PROPERTY` -/
def compatSet (ops : FrontendOps δ) (fe : Frontend δ) (tvps : List DtvProperty) : ℤ × Frontend δ :=
  if tvps.length = 0 ∨ dtvIoctlMaxMsgs < tvps.length then (einval, fe)
  else compatSetLoop ops 0 fe tvps

/-! ### Reading a list -/

/-- What a property is read as. -/
inductive Value where
  | data (data : UInt32)
  | st (st : FeStats)
  | buffer (data : List UInt32)

/-- The members without a command of the DVB API that reads them. -/
def Member.readable : Member → Bool
  | algorithm | outputBbframes | scanStartFrequency | scanEndFrequency | scanResolution | scanFftSize
  | searchRange | maxSymbolRate | plsSearchRangeStart | plsSearchRangeEnd | constellationNumSamples
  | constellationMethod | constellationSelect => false
  | _ => true

/-- The members that are read from the cache of the frontend and not from the copy. -/
def Member.ofFrontend : Member → Bool
  | atscmhFicVer | atscmhParadeId | atscmhNog | atscmhTnog | atscmhSgn | atscmhPrc | atscmhRsFrameMode
  | atscmhRsFrameEnsemble | atscmhRsCodeModePri | atscmhRsCodeModeSec | atscmhScccBlockMode
  | atscmhScccCodeModeA | atscmhScccCodeModeB | atscmhScccCodeModeC | atscmhScccCodeModeD => true
  | _ => false

/-- `dvbuapi_dtv_property_process_get` -/
def dvbuapiDtvPropertyProcessGet (ops : FrontendOps δ) (fe : Frontend δ) (c : DtvFrontendProperties)
    (cmd : UInt32) : Except ℤ Value :=
  match command cmd with
  | some .enumDelsys => .ok (.buffer ops.caps)
  | some .apiVersion => .ok (.data ((5 : UInt32) <<< 8 ||| 12))
  | some (.member m) =>
    if m.readable then .ok (.data (if m.ofFrontend then fe.cache.value m else c.value m))
    else .error einval
  | some (.stat s) => .ok (.st (c.stats s))
  | _ => .error einval

/-- `dtv_get_frontend` -/
def dtvGetFrontend (ops : FrontendOps δ) (fe : Frontend δ) (c : DtvFrontendProperties) :
    ℤ × DtvFrontendProperties × Frontend δ :=
  match ops.getFrontend with
  | some getFrontend =>
    let (r, c, dev) := getFrontend c fe.dev
    if r < 0 then (r, c, { fe with dev }) else (0, c, { fe with dev })
  | none => (0, c, fe)

/-- The frontend works on something, so that the driver has newer values than the cache. -/
def Frontend.Active (fe : Frontend δ) : Prop := fe.priv.state ≠ .idle ∧ fe.priv.state ≠ .diseqc

instance (fe : Frontend δ) : Decidable fe.Active := inferInstanceAs (Decidable (_ ∧ _))

/-- The loops that read each property. -/
def getLoop (ops : FrontendOps δ) (fe : Frontend δ) (c : DtvFrontendProperties) (cmds : List UInt32) :
    Except ℤ (List Value) :=
  cmds.mapM (dvbuapiDtvPropertyProcessGet ops fe c)

/-- Reading from a copy of the cache that the driver has refreshed. -/
def getRefreshed (ops : FrontendOps δ) (fe : Frontend δ) (cmds : List UInt32) :
    Except ℤ (List Value) × Frontend δ :=
  let (err, getp, fe) := dtvGetFrontend ops fe fe.cache
  if err < 0 then (.error err, fe) else (getLoop ops fe getp cmds, fe)

/-- `dvbuapi_dvb_get_properties` -/
def dvbuapiDvbGetProperties (ops : FrontendOps δ) (fe : Frontend δ) (cmds : List UInt32) :
    Except ℤ (List Value) × Frontend δ :=
  if cmds.length = 0 ∨ dtvIoctlMaxMsgs < cmds.length then (.error einval, fe)
  else if fe.Active ∧ 1 < cmds.length then getRefreshed ops fe cmds
  else (getLoop ops fe fe.cache cmds, fe)

/-- `dvb_frontend_ioctl` with `DVB_API_FE_GET_PROPERTY` -/
def nativeGet (ops : FrontendOps δ) (fe : Frontend δ) (cmds : List UInt32) :
    Except ℤ (List Value) × Frontend δ :=
  match gate false fe with
  | some err => (.error (dvbUsercopy err), fe)
  | none =>
    let (values, fe) := dvbuapiDvbGetProperties ops fe cmds
    (values.mapError dvbUsercopy, fe)

/-- `neumo_dvb_frontend_compat_ioctl` with `COMPAT_FE_GET_PROPERTY` -/
def compatGet (ops : FrontendOps δ) (fe : Frontend δ) (cmds : List UInt32) :
    Except ℤ (List Value) × Frontend δ :=
  if cmds.length = 0 ∨ dtvIoctlMaxMsgs < cmds.length then (.error einval, fe)
  else if fe.Active then getRefreshed ops fe cmds
  else (getLoop ops fe fe.cache cmds, fe)

/-- Reading each property of a list alone, in the same state. -/
def alone (get : List UInt32 → Except ℤ (List Value) × Frontend δ) (cmds : List UInt32) :
    Option (List Value) :=
  (cmds.mapM fun cmd => (get [cmd]).1.toOption).map List.flatten

/-! ### When they agree -/

variable {ops : FrontendOps δ} {fe : Frontend δ} {cmd data : UInt32}

/-- A command that is not known to `dtv_property_process_set_int` leaves no trace: the driver lets it
    pass, or refuses it with the same error, and has not changed. -/
def DriverSilent (ops : FrontendOps δ) (fe : Frontend δ) (cmd data : UInt32) : Prop :=
  match ops.setProperty with
  | some setProperty => (setProperty cmd data fe.dev).2 = fe.dev ∧
      (0 ≤ (setProperty cmd data fe.dev).1 ∨ (setProperty cmd data fe.dev).1 = einval)
  | none => True

/-- A property that both ioctls deal with alike. `DTV_CLEAR` never is, `DTV_TUNE` only where the
    parameters are refused; what else there is must not be answered with a number above 0. -/
def Alike (ops : FrontendOps δ) (fe : Frontend δ) (tvp : DtvProperty) : Prop :=
  if tvp.cmd = 0 ∨ dtvMaxCommand < tvp.cmd then DriverSilent ops fe tvp.cmd tvp.data
  else match command tvp.cmd with
  | some .clear => False
  | some .tune => ops.checkParameters fe.cache < 0 ∧ fe.priv.state = .idle ∧
      DriverSilent ops fe tvp.cmd tvp.data
  | _ => (dtvPropertyProcessSetInt ops fe tvp.cmd tvp.data).1 ≤ 0 ∧
      (dtvPropertyProcessSetInt ops fe tvp.cmd tvp.data).1 ≠ enoioctlcmd

/-- Each property that is reached is dealt with alike. -/
def AllAlike (ops : FrontendOps δ) : Frontend δ → List DtvProperty → Prop
  | _, [] => True
  | fe, tvp :: rest => Alike ops fe tvp ∧
      (0 ≤ (dtvPropertyProcessSetInt ops fe tvp.cmd tvp.data).1 →
        AllAlike ops (dtvPropertyProcessSetInt ops fe tvp.cmd tvp.data).2 rest)

/-- The ioctl is not stopped before it begins, or the first property is refused in the same way. -/
def SetAlike (ops : FrontendOps δ) (readOnly : Bool) (fe : Frontend δ) (tvps : List DtvProperty) :
    Prop :=
  match gate readOnly fe with
  | some err => ∀ tvp ∈ tvps.head?, dtvPropertyProcessSetInt ops fe tvp.cmd tvp.data = (err, fe)
  | none => AllAlike ops fe tvps

/-- The DVB API can read this property. -/
def Readable (cmd : UInt32) : Prop :=
  match command cmd with
  | some .enumDelsys | some .apiVersion | some (.stat _) => True
  | some (.member m) => m.readable
  | _ => False

/-- The driver can be asked, and has no newer value of this property than the cache. -/
def Fresh (ops : FrontendOps δ) (fe : Frontend δ) (cmd : UInt32) : Prop :=
  let (err, getp, fe') := dtvGetFrontend ops fe fe.cache
  0 ≤ err ∧ dvbuapiDtvPropertyProcessGet ops fe' getp cmd =
    dvbuapiDtvPropertyProcessGet ops fe fe.cache cmd

/-- Reading agrees: a property that is read alone has no newer value, and a frontend that is exiting
    can be read by neither ioctl. -/
def GetAlike (ops : FrontendOps δ) (fe : Frontend δ) (cmds : List UInt32) : Prop :=
  if fe.exit ≠ 0 then
    (∃ cmd ∈ cmds, ¬Readable cmd) ∨ fe.Active ∧ (dtvGetFrontend ops fe fe.cache).1 < 0
  else fe.Active → cmds.length = 1 → ∀ cmd ∈ cmds, Readable cmd → Fresh ops fe cmd

/-- A list agrees with its properties: what is read together has no newer values. -/
def ListAlike (ops : FrontendOps δ) (fe : Frontend δ) (cmds : List UInt32) : Prop :=
  fe.exit = 0 → fe.Active → 1 < cmds.length →
    (∃ cmd ∈ cmds, ¬Readable cmd) ∨ ∀ cmd ∈ cmds, Fresh ops fe cmd

/-! ### One property -/

theorem dvbUsercopy_eq_self {err : ℤ} : dvbUsercopy err = err ↔ err ≠ enoioctlcmd := by
  rw [dvbUsercopy]
  split
  · rename_i heq
    subst heq
    decide
  · rename_i hne
    exact iff_of_true rfl hne

theorem command_eq_none (hcmd : cmd = 0 ∨ dtvMaxCommand < cmd) : command cmd = none := by
  rw [command, List.lookup_eq_none_iff]
  have hall : ∀ p ∈ commands, p.1 ≠ 0 ∧ ¬dtvMaxCommand < p.1 := by decide
  intro p hp
  obtain ⟨hzero, hmax⟩ := hall p hp
  have hne : cmd ≠ p.1 := fun heq => hcmd.elim (heq ▸ hzero) (heq ▸ hmax)
  simpa using hne

/-- The commands that the common part of setting does not know. -/
def Foreign (cmd : UInt32) : Prop :=
  command cmd = none ∨ command cmd = some .clear ∨ command cmd = some .tune

theorem setInt_foreign (hcmd : Foreign cmd) (r : ℤ) (fe : Frontend δ) :
    setInt ops r fe cmd data = (einval, fe) := by
  rcases hcmd with hcmd | hcmd | hcmd <;> rw [setInt, hcmd]

theorem setInt_silent_iff (hcmd : Foreign cmd) :
    dtvPropertyProcessSetInt ops fe cmd data = (einval, fe) ↔ DriverSilent ops fe cmd data := by
  rw [dtvPropertyProcessSetInt, DriverSilent]
  cases ops.setProperty with
  | none => exact iff_of_true (setInt_foreign hcmd 0 fe) trivial
  | some setProperty =>
    have hdev (dev : Device δ) : { fe with dev := dev } = fe ↔ dev = fe.dev :=
      ⟨fun heq => congrArg Frontend.dev heq, fun heq => by rw [heq]⟩
    dsimp only
    split
    · rename_i hneg
      rw [Prod.mk.injEq, hdev, and_comm]
      exact and_congr_right' ⟨.inr, fun h => h.resolve_left (by omega)⟩
    · rename_i hneg
      rw [setInt_foreign hcmd, Prod.mk.injEq, hdev]
      exact ⟨fun h => ⟨h.2, .inl (by omega)⟩, fun h => ⟨rfl, h.1⟩⟩

theorem einval_neg : einval < 0 := by decide

theorem setInt_foreign_neg (hcmd : Foreign cmd) :
    (dtvPropertyProcessSetInt ops fe cmd data).1 < 0 := by
  rw [dtvPropertyProcessSetInt]
  cases ops.setProperty with
  | none =>
    rw [setInt_foreign hcmd]
    exact einval_neg
  | some setProperty =>
    dsimp only
    split
    · assumption
    · rw [setInt_foreign hcmd]
      exact einval_neg

theorem setInt_foreign_priv (hcmd : Foreign cmd) :
    (dtvPropertyProcessSetInt ops fe cmd data).2.priv = fe.priv := by
  rw [dtvPropertyProcessSetInt]
  cases ops.setProperty with
  | none => rw [setInt_foreign hcmd]
  | some setProperty =>
    dsimp only
    split
    · rfl
    · rw [setInt_foreign hcmd]

/-- What an ioctl with one property returns. -/
def returned (x : ℤ × Frontend δ) : ℤ × Frontend δ := (dvbUsercopy (if x.1 < 0 then x.1 else 0), x.2)

theorem eq_returned_iff (x : ℤ × Frontend δ) : x = returned x ↔ x.1 ≤ 0 ∧ x.1 ≠ enoioctlcmd := by
  rw [returned, Prod.ext_iff, eq_comm, and_iff_left rfl]
  split
  · rename_i hneg
    rw [dvbUsercopy_eq_self]
    exact (and_iff_right (le_of_lt hneg)).symm
  · rename_i hpos
    have hzero : dvbUsercopy 0 = 0 := by decide
    rw [hzero]
    refine ⟨fun heq => ?_, fun h => ?_⟩
    · rw [enoioctlcmd]
      omega
    · omega

/-- One property is dealt with alike just where `Alike` says so. -/
theorem alike_iff (tvp : DtvProperty) : Alike ops fe tvp ↔
    dtvPropertyProcessSetInt ops fe tvp.cmd tvp.data =
      returned (dvbuapiDtvPropertyProcessSet ops fe tvp.cmd tvp.data) := by
  rw [Alike, dvbuapiDtvPropertyProcessSet]
  by_cases hrange : tvp.cmd = 0 ∨ dtvMaxCommand < tvp.cmd
  · rw [if_pos hrange, if_pos hrange, ← setInt_silent_iff (.inl (command_eq_none hrange))]
    rfl
  rw [if_neg hrange, if_neg hrange]
  cases hcommand : command tvp.cmd with
  | none => exact (eq_returned_iff _).symm
  | some c =>
    cases c with
    | clear =>
      have hneg := @setInt_foreign_neg _ ops fe tvp.cmd tvp.data (.inr (.inl hcommand))
      refine ⟨False.elim, fun heq => ?_⟩
      rw [heq] at hneg
      exact absurd hneg (lt_irrefl 0)
    | tune =>
      have hforeign : Foreign tvp.cmd := .inr (.inr hcommand)
      have hneg := @setInt_foreign_neg _ ops fe tvp.cmd tvp.data hforeign
      rw [← setInt_silent_iff hforeign]
      dsimp only
      rw [dtvSetFrontend]
      split
      · rename_i hrefused
        have hreturned : returned (einval, { fe with priv := { fe.priv with state := .idle } }) =
            (einval, { fe with priv := { fe.priv with state := .idle } }) := rfl
        rw [hreturned]
        constructor
        · rintro ⟨-, hidle, hset⟩
          rw [hset, ← hidle]
        · intro hset
          have hpriv := @setInt_foreign_priv _ ops fe tvp.cmd tvp.data hforeign
          rw [hset] at hpriv
          have hidle : fe.priv.state = .idle := (congrArg FrontendPrivate.state hpriv).symm
          refine ⟨hrefused, hidle, hset.trans ?_⟩
          rw [← hidle]
      · rename_i hpassed
        refine ⟨fun h => absurd h.1 hpassed, fun heq => ?_⟩
        rw [heq] at hneg
        exact absurd hneg (lt_irrefl 0)
    | _ => exact (eq_returned_iff _).symm

/-- Where it is dealt with alike and goes on, both do the same. -/
theorem Alike.goes_on {tvp : DtvProperty} (h : Alike ops fe tvp)
    (hpos : 0 ≤ (dtvPropertyProcessSetInt ops fe tvp.cmd tvp.data).1) :
    (dtvPropertyProcessSetInt ops fe tvp.cmd tvp.data).1 = 0 ∧
      dvbuapiDtvPropertyProcessSet ops fe tvp.cmd tvp.data =
        dtvPropertyProcessSetInt ops fe tvp.cmd tvp.data := by
  have hnot : ¬Foreign tvp.cmd := fun hforeign =>
    absurd (@setInt_foreign_neg _ ops fe tvp.cmd tvp.data hforeign) (by omega)
  have hin : ¬(tvp.cmd = 0 ∨ dtvMaxCommand < tvp.cmd) := fun h => hnot (.inl (command_eq_none h))
  have hsame : dvbuapiDtvPropertyProcessSet ops fe tvp.cmd tvp.data =
      dtvPropertyProcessSetInt ops fe tvp.cmd tvp.data := by
    rw [dvbuapiDtvPropertyProcessSet, if_neg hin]
    split
    · exact absurd (.inr (.inl ‹_›)) hnot
    · exact absurd (.inr (.inr ‹_›)) hnot
    · rfl
  have hle := (eq_returned_iff _).mp (hsame ▸ (alike_iff tvp).mp h)
  exact ⟨le_antisymm hle.1 hpos, hsame⟩

/-! ### A list of properties -/

theorem setLoop_cons (tvp : DtvProperty) (rest : List DtvProperty) :
    setLoop ops fe (tvp :: rest) =
      if (dvbuapiDtvPropertyProcessSet ops fe tvp.cmd tvp.data).1 < 0 then
        dvbuapiDtvPropertyProcessSet ops fe tvp.cmd tvp.data
      else setLoop ops (dvbuapiDtvPropertyProcessSet ops fe tvp.cmd tvp.data).2 rest := rfl

theorem compatSetLoop_cons (err : ℤ) (tvp : DtvProperty) (rest : List DtvProperty) :
    compatSetLoop ops err fe (tvp :: rest) =
      if (dtvPropertyProcessSetInt ops fe tvp.cmd tvp.data).1 < 0 then
        dtvPropertyProcessSetInt ops fe tvp.cmd tvp.data
      else compatSetLoop ops (dtvPropertyProcessSetInt ops fe tvp.cmd tvp.data).1
        (dtvPropertyProcessSetInt ops fe tvp.cmd tvp.data).2 rest := rfl

/-- What the native ioctl makes of the end of its loop. -/
def copied (x : ℤ × Frontend δ) : ℤ × Frontend δ := (dvbUsercopy x.1, x.2)

theorem copied_setLoop_single (tvp : DtvProperty) : copied (setLoop ops fe [tvp]) =
    returned (dvbuapiDtvPropertyProcessSet ops fe tvp.cmd tvp.data) := by
  rw [setLoop_cons, returned]
  split
  · rfl
  · rfl

theorem compatSetLoop_single (err : ℤ) (tvp : DtvProperty) :
    compatSetLoop ops err fe [tvp] = dtvPropertyProcessSetInt ops fe tvp.cmd tvp.data := by
  rw [compatSetLoop_cons]
  split
  · rfl
  · rfl

/-- A property that is dealt with alike, in front of a list. -/
theorem Alike.cons {tvp : DtvProperty} (h : Alike ops fe tvp) (rest : List DtvProperty) :
    compatSetLoop ops 0 fe (tvp :: rest) = copied (setLoop ops fe (tvp :: rest)) ↔
      (0 ≤ (dtvPropertyProcessSetInt ops fe tvp.cmd tvp.data).1 →
        compatSetLoop ops 0 (dtvPropertyProcessSetInt ops fe tvp.cmd tvp.data).2 rest =
          copied (setLoop ops (dtvPropertyProcessSetInt ops fe tvp.cmd tvp.data).2 rest)) := by
  rw [compatSetLoop_cons, setLoop_cons]
  by_cases hneg : (dtvPropertyProcessSetInt ops fe tvp.cmd tvp.data).1 < 0
  · have heq := (alike_iff tvp).mp h
    have hnative : (dvbuapiDtvPropertyProcessSet ops fe tvp.cmd tvp.data).1 < 0 := by
      by_contra hpos
      rw [heq, returned, if_neg hpos] at hneg
      exact absurd hneg (lt_irrefl 0)
    rw [if_pos hneg, if_pos hnative, copied]
    rw [returned, if_pos hnative] at heq
    exact iff_of_true heq fun hpos => absurd hneg (by omega)
  · obtain ⟨hzero, hsame⟩ := h.goes_on (by omega)
    rw [hsame, if_neg hneg, if_neg hneg, hzero]
    exact ⟨fun heq _ => heq, fun heq => heq le_rfl⟩

/-- The loops agree on a list and its initial parts just where each property that is reached is dealt
    with alike. -/
theorem allAlike_iff (tvps : List DtvProperty) (fe : Frontend δ) : AllAlike ops fe tvps ↔
    ∀ n, compatSetLoop ops 0 fe (tvps.take n) = copied (setLoop ops fe (tvps.take n)) := by
  induction tvps generalizing fe with
  | nil => exact iff_of_true trivial fun n => by rw [List.take_nil]; rfl
  | cons tvp rest ih =>
    rw [AllAlike, ih]
    constructor
    · rintro ⟨halike, hrest⟩ n
      cases n with
      | zero => rfl
      | succ n => exact (halike.cons _).mpr fun hpos => hrest hpos n
    · intro h
      have hone := h 1
      rw [List.take_succ_cons, List.take_zero, compatSetLoop_single, copied_setLoop_single] at hone
      have halike := (alike_iff tvp).mpr hone
      exact ⟨halike, fun hpos n => (halike.cons _).mp (h (n + 1)) hpos⟩

theorem gate_eq_some {readOnly : Bool} {err : ℤ} (h : gate readOnly fe = some err) :
    err < 0 ∧ dvbUsercopy err = err := by
  rw [gate] at h
  split at h
  · cases h
    decide
  · split at h
    · cases h
      decide
    · cases h

/-- The ioctls agree on a list and its initial parts. -/
theorem setAlike_iff (readOnly : Bool) (fe : Frontend δ) {tvps : List DtvProperty}
    (hone : 1 ≤ tvps.length) (hmax : tvps.length ≤ dtvIoctlMaxMsgs) :
    SetAlike ops readOnly fe tvps ↔ ∀ n, 0 < n → n ≤ tvps.length →
      compatSet ops fe (tvps.take n) = nativeSet ops readOnly fe (tvps.take n) := by
  have hlength {n : ℕ} (hn : 0 < n) (hle : n ≤ tvps.length) :
      ¬((tvps.take n).length = 0 ∨ dtvIoctlMaxMsgs < (tvps.take n).length) := by
    rw [List.length_take_of_le hle]
    omega
  rw [SetAlike]
  cases hgate : gate readOnly fe with
  | some err =>
    obtain ⟨hneg, hcopied⟩ := gate_eq_some hgate
    have hnative (l : List DtvProperty) : nativeSet ops readOnly fe l = (err, fe) := by
      rw [nativeSet, hgate]
      dsimp only
      rw [hcopied]
    obtain ⟨tvp, rest, rfl⟩ := List.exists_cons_of_length_pos hone
    rw [List.head?_cons]
    constructor
    · intro h n hn hle
      have hfirst := h tvp rfl
      rw [hnative, compatSet, if_neg (hlength hn hle)]
      obtain ⟨k, rfl⟩ := Nat.exists_eq_add_of_lt hn
      rw [Nat.zero_add, List.take_succ_cons, compatSetLoop_cons, hfirst, if_pos hneg]
    · rintro h tvp' ⟨⟩
      have hfirst := h 1 Nat.one_pos hone
      rw [hnative, compatSet, if_neg (hlength Nat.one_pos hone)] at hfirst
      exact (compatSetLoop_single 0 tvp).symm.trans hfirst
  | none =>
    have heach : ∀ n, 0 < n → n ≤ tvps.length →
        (compatSet ops fe (tvps.take n) = nativeSet ops readOnly fe (tvps.take n) ↔
          compatSetLoop ops 0 fe (tvps.take n) = copied (setLoop ops fe (tvps.take n))) := by
      intro n hn hle
      rw [compatSet, nativeSet, hgate, if_neg (hlength hn hle)]
      dsimp only
      rw [dvbApiFeSetProperty, if_neg (hlength hn hle)]
      rfl
    dsimp only
    rw [allAlike_iff]
    constructor
    · exact fun h n hn hle => (heach n hn hle).mpr (h n)
    · intro h n
      rcases Nat.eq_zero_or_pos n with rfl | hn
      · rfl
      rcases Nat.le_total n tvps.length with hle | hge
      · exact (heach n hn hle).mp (h n hn hle)
      · have hall := (heach tvps.length hone le_rfl).mp (h tvps.length hone le_rfl)
        rw [List.take_length] at hall
        rwa [List.take_of_length_le hge]

/-! ### Reading -/

variable {c : DtvFrontendProperties} {cmds : List UInt32}

theorem get_eq_none_iff :
    (dvbuapiDtvPropertyProcessGet ops fe c cmd).toOption = none ↔ ¬Readable cmd := by
  rw [dvbuapiDtvPropertyProcessGet, Readable]
  cases command cmd with
  | none => exact iff_of_true rfl id
  | some command =>
    cases command with
    | member m =>
      cases hm : m.readable with
      | true => simp [Except.toOption, hm]
      | false => simp [Except.toOption, hm]
    | enumDelsys | apiVersion | stat => simp [Except.toOption]
    | _ => exact iff_of_true rfl id

/-- A property as it is read from the cache. -/
def cached (ops : FrontendOps δ) (fe : Frontend δ) (cmd : UInt32) : Option Value :=
  (dvbuapiDtvPropertyProcessGet ops fe fe.cache cmd).toOption

/-- A property as it is read from the copy that the driver has refreshed. -/
def refreshed (ops : FrontendOps δ) (fe : Frontend δ) (cmd : UInt32) : Option Value :=
  let (err, getp, fe') := dtvGetFrontend ops fe fe.cache
  if err < 0 then none else (dvbuapiDtvPropertyProcessGet ops fe' getp cmd).toOption

theorem cached_eq_none_iff : cached ops fe cmd = none ↔ ¬Readable cmd := get_eq_none_iff

theorem refreshed_eq_none_iff : refreshed ops fe cmd = none ↔
    (dtvGetFrontend ops fe fe.cache).1 < 0 ∨ ¬Readable cmd := by
  rw [refreshed]
  dsimp only
  split
  · rename_i hneg
    exact iff_of_true rfl (.inl hneg)
  · rename_i hpos
    rw [get_eq_none_iff, or_iff_right hpos]

theorem get_ok (hread : Readable cmd) (ops : FrontendOps δ) (fe : Frontend δ)
    (c : DtvFrontendProperties) : ∃ v, dvbuapiDtvPropertyProcessGet ops fe c cmd = .ok v := by
  cases hget : dvbuapiDtvPropertyProcessGet ops fe c cmd with
  | ok v => exact ⟨v, rfl⟩
  | error e =>
    have hnone := @get_eq_none_iff _ ops fe cmd c
    rw [hget] at hnone
    exact absurd hread (hnone.mp rfl)

theorem fresh_iff (hread : Readable cmd) :
    Fresh ops fe cmd ↔ refreshed ops fe cmd = cached ops fe cmd := by
  rw [Fresh, refreshed, cached]
  dsimp only
  obtain ⟨v, hv⟩ := get_ok hread ops fe fe.cache
  obtain ⟨v', hv'⟩ := get_ok hread ops (dtvGetFrontend ops fe fe.cache).2.2
    (dtvGetFrontend ops fe fe.cache).2.1
  rw [hv, hv']
  split
  · rename_i hneg
    exact iff_of_false (fun h => absurd hneg (by omega)) nofun
  · rename_i hpos
    rw [and_iff_right (by omega), Except.ok.injEq]
    exact ⟨fun heq => heq ▸ rfl, fun heq => Option.some.inj heq⟩

theorem refreshed_eq_cached_iff :
    refreshed ops fe cmd = cached ops fe cmd ↔ (Readable cmd → Fresh ops fe cmd) := by
  by_cases hread : Readable cmd
  · rw [← fresh_iff hread]
    exact ⟨fun h _ => h, fun h => h hread⟩
  · rw [cached_eq_none_iff.mpr hread, refreshed_eq_none_iff.mpr (.inr hread)]
    exact iff_of_true rfl fun h => absurd h hread

theorem getLoop_toOption (ops : FrontendOps δ) (fe : Frontend δ) (cmds : List UInt32) :
    (getLoop ops fe fe.cache cmds).toOption = cmds.mapM (cached ops fe) :=
  Readings.toOption_mapM _ _

theorem getRefreshed_toOption (ops : FrontendOps δ) (fe : Frontend δ) (hone : 1 ≤ cmds.length) :
    (getRefreshed ops fe cmds).1.toOption = cmds.mapM (refreshed ops fe) := by
  rw [getRefreshed]
  dsimp only
  split
  · rename_i hneg
    obtain ⟨cmd, rest, rfl⟩ := List.exists_cons_of_length_pos hone
    refine (Readings.mapM_eq_none_iff.mpr ⟨cmd, List.mem_cons_self, ?_⟩).symm
    exact refreshed_eq_none_iff.mpr (.inl hneg)
  · rename_i hpos
    rw [getLoop, Readings.toOption_mapM]
    congr 1
    funext cmd
    rw [refreshed]
    dsimp only
    rw [if_neg hpos]

/-- The 32-bit ioctl reads a list as its properties. -/
theorem compatGet_toOption (ops : FrontendOps δ) (fe : Frontend δ) (hone : 1 ≤ cmds.length)
    (hmax : cmds.length ≤ dtvIoctlMaxMsgs) : (compatGet ops fe cmds).1.toOption =
      cmds.mapM (if fe.Active then refreshed ops fe else cached ops fe) := by
  rw [compatGet, if_neg (by omega)]
  split
  · exact getRefreshed_toOption ops fe hone
  · exact getLoop_toOption ops fe cmds

/-- The native one does not ask the driver for a single property. -/
theorem nativeGet_toOption (ops : FrontendOps δ) (fe : Frontend δ) (hone : 1 ≤ cmds.length)
    (hmax : cmds.length ≤ dtvIoctlMaxMsgs) : (nativeGet ops fe cmds).1.toOption =
      if fe.exit ≠ 0 then none
      else cmds.mapM (if fe.Active ∧ 1 < cmds.length then refreshed ops fe else cached ops fe) := by
  have hmapped (x : Except ℤ (List Value)) : (x.mapError dvbUsercopy).toOption = x.toOption := by
    cases x <;> rfl
  rw [nativeGet, gate]
  by_cases hexit : fe.exit ≠ 0
  · rw [if_pos hexit, if_pos hexit]
    rfl
  · rw [if_neg hexit, if_neg hexit, if_neg Bool.false_ne_true]
    dsimp only
    rw [hmapped, dvbuapiDvbGetProperties, if_neg (by omega)]
    split
    · exact getRefreshed_toOption ops fe hone
    · exact getLoop_toOption ops fe cmds

theorem single_le : 1 ≤ dtvIoctlMaxMsgs := by decide

theorem alone_eq {get : List UInt32 → Except ℤ (List Value) × Frontend δ} {f : UInt32 → Option Value}
    (hget : ∀ cmd, (get [cmd]).1.toOption = [cmd].mapM f) : alone get cmds = cmds.mapM f := by
  have hsingle : (fun cmd => (get [cmd]).1.toOption) = fun cmd => (f cmd).map fun v => [v] := by
    funext cmd
    rw [hget, Readings.mapM_cons_eq]
    cases f cmd <;> rfl
  rw [alone, hsingle, Readings.mapM_singletons]

/-- With no newer value in a single property, and none to be had from an exiting frontend, both ioctls
    read the same. -/
theorem getAlike_iff (ops : FrontendOps δ) (fe : Frontend δ) (hone : 1 ≤ cmds.length)
    (hmax : cmds.length ≤ dtvIoctlMaxMsgs) : GetAlike ops fe cmds ↔
      (compatGet ops fe cmds).1.toOption = (nativeGet ops fe cmds).1.toOption := by
  rw [compatGet_toOption ops fe hone hmax, nativeGet_toOption ops fe hone hmax, GetAlike]
  by_cases hexit : fe.exit ≠ 0
  · rw [if_pos hexit, if_pos hexit, Readings.mapM_eq_none_iff]
    obtain ⟨first, rest, rfl⟩ := List.exists_cons_of_length_pos hone
    by_cases hactive : fe.Active
    · simp only [if_pos hactive, refreshed_eq_none_iff]
      constructor
      · rintro (⟨cmd, hmem, hunread⟩ | ⟨-, hneg⟩)
        · exact ⟨cmd, hmem, .inr hunread⟩
        · exact ⟨first, List.mem_cons_self, .inl hneg⟩
      · rintro ⟨cmd, hmem, hneg | hunread⟩
        · exact .inr ⟨hactive, hneg⟩
        · exact .inl ⟨cmd, hmem, hunread⟩
    · simp only [if_neg hactive, cached_eq_none_iff]
      exact or_iff_left fun h => hactive h.1
  rw [if_neg hexit, if_neg hexit]
  by_cases hactive : fe.Active
  · rw [if_pos hactive]
    by_cases hmany : 1 < cmds.length
    · rw [if_pos ⟨hactive, hmany⟩]
      exact iff_of_true (fun _ hlen => absurd hmany (by omega)) rfl
    obtain ⟨cmd, rfl⟩ := List.length_eq_one_iff.mp (by omega : cmds.length = 1)
    rw [if_neg (fun h => hmany h.2)]
    have hsingle (f : UInt32 → Option Value) : [cmd].mapM f = (f cmd).map fun v => [v] := by
      rw [Readings.mapM_cons_eq]
      cases f cmd <;> rfl
    have hinj : Function.Injective (Option.map fun v : Value => [v]) :=
      Option.map_injective List.singleton_injective
    rw [hsingle, hsingle, hinj.eq_iff, refreshed_eq_cached_iff]
    constructor
    · exact fun h => h hactive rfl cmd (List.mem_singleton_self cmd)
    · intro h _ _ cmd' hmem
      exact List.mem_singleton.mp hmem ▸ h
  · rw [if_neg hactive, if_neg (fun h => hactive h.1)]
    exact iff_of_true (fun h => absurd h hactive) rfl

/-- With no newer values at all, the native ioctl reads a list as its properties. -/
theorem listAlike_iff (ops : FrontendOps δ) (fe : Frontend δ) (hone : 1 ≤ cmds.length)
    (hmax : cmds.length ≤ dtvIoctlMaxMsgs) : ListAlike ops fe cmds ↔
      (nativeGet ops fe cmds).1.toOption = alone (nativeGet ops fe) cmds := by
  rw [nativeGet_toOption ops fe hone hmax, ListAlike]
  obtain ⟨first, rest, hcmds⟩ := List.exists_cons_of_length_pos hone
  by_cases hexit : fe.exit ≠ 0
  · have halone : alone (nativeGet ops fe) cmds = cmds.mapM fun _ => none := by
      refine alone_eq fun cmd => ?_
      rw [@nativeGet_toOption _ [cmd] ops fe le_rfl single_le, if_pos hexit]
      rfl
    rw [if_pos hexit, halone, hcmds, Readings.mapM_cons_eq]
    exact iff_of_true (fun hno => absurd hno hexit) rfl
  have halone : alone (nativeGet ops fe) cmds = cmds.mapM (cached ops fe) := by
    refine alone_eq fun cmd => ?_
    rw [@nativeGet_toOption _ [cmd] ops fe le_rfl single_le, if_neg hexit]
    rw [if_neg (fun h => absurd h.2 (lt_irrefl 1))]
  rw [if_neg hexit, halone]
  by_cases hrefresh : fe.Active ∧ 1 < cmds.length
  · rw [if_pos hrefresh]
    by_cases hall : ∀ cmd ∈ cmds, Readable cmd
    · rw [Readings.mapM_eq_iff fun cmd hmem hnone => cached_eq_none_iff.mp hnone (hall cmd hmem)]
      constructor
      · intro h cmd hmem
        have hfresh := (h (not_not.mp hexit) hrefresh.1 hrefresh.2).resolve_left
          fun ⟨cmd, hmem, hunread⟩ => hunread (hall cmd hmem)
        exact (fresh_iff (hall cmd hmem)).mp (hfresh cmd hmem)
      · exact fun h _ _ _ => .inr fun cmd hmem => (fresh_iff (hall cmd hmem)).mpr (h cmd hmem)
    · obtain ⟨cmd, hmem, hunread⟩ : ∃ cmd ∈ cmds, ¬Readable cmd := by
        simpa only [not_forall, exists_prop] using hall
      have hnone : cmds.mapM (refreshed ops fe) = none :=
        Readings.mapM_eq_none_iff.mpr ⟨cmd, hmem, refreshed_eq_none_iff.mpr (.inr hunread)⟩
      have hnone' : cmds.mapM (cached ops fe) = none :=
        Readings.mapM_eq_none_iff.mpr ⟨cmd, hmem, cached_eq_none_iff.mpr hunread⟩
      exact iff_of_true (fun _ _ _ => .inl ⟨cmd, hmem, hunread⟩) (hnone.trans hnone'.symm)
  · rw [if_neg hrefresh]
    exact iff_of_true (fun _ hactive hmany => absurd ⟨hactive, hmany⟩ hrefresh) rfl

/-- The 32-bit ioctl always reads a list as its properties. -/
theorem compatGet_alone (ops : FrontendOps δ) (fe : Frontend δ) (hone : 1 ≤ cmds.length)
    (hmax : cmds.length ≤ dtvIoctlMaxMsgs) :
    (compatGet ops fe cmds).1.toOption = alone (compatGet ops fe) cmds := by
  rw [compatGet_toOption ops fe hone hmax]
  exact (alone_eq fun cmd => compatGet_toOption ops fe le_rfl single_le).symm

/-- A frontend without callbacks. -/
def bareOps : FrontendOps Unit where
  info := ⟨0, 0, 0, 0, 0, 0, 0, 0⟩
  delsys := fun i => if i.val = 0 then 6 else 0
  setProperty := none
  setTone := none
  setVoltage := none
  setLna := none
  setSecReady := none
  getTuneSettings := none
  getFrontend := none
  hasSpectrum := false
  hasConstellation := false
  forceAutoInversion := false
  overrideTuneDelay := 0
  hz := 250

/-- It has just been opened. -/
def resting : Frontend Unit where
  dev := ⟨⟨fun _ => 0, fun _ => 0, 0, fun _ _ => 0⟩, ()⟩
  priv := ⟨.idle, 0, 0, 0, [], false, 0, 500, 0, 0, 0, 0⟩
  exit := 0

end Dvb.Properties

import Mathlib
import NeumoDrivers.Lib.Shares

/-! Who keeps a CA device alive (`neumo-dvb-ca-en50221.c`, `neumo-dvbdev.c`).

    The private CA data and the DVB device have a reference count each. The driver holds a reference
    to the CA data from registration to release, and every open file holds one; the DVB device is
    referenced by the CA data, by the table of minor numbers and by every open file. The release
    sets `exit`, so that no further open succeeds, and waits until `users` is back at 1 before it
    gives its references up. A close adds its user back before it drops its references and reads both
    objects afterwards, and the wait looks at `users` without the mutex, so a release that looks
    between the two does not wait for the rest of the close. -/

namespace Dvb
open Shares

/-- How far `neumo_dvb_ca_en50221_release` has got. -/
inductive ReleasePc where
  | registered
  | locked
  | exiting
  | unlocked
  | waiting
  | passed
  | stopped
  | shutDown
  | unlisted
  | dropped
  | removed
  | done
  deriving DecidableEq

/-- Where a file is. From `found` to `failed` it is in `dvb_device_open`, from `closeLocked` to
    `waking` in `dvb_ca_en50221_io_release`; each place is named by the last step taken. -/
inductive CaPc where
  | idle
  | found (rdonly : Bool)
  | got (rdonly : Bool)
  | locked (rdonly : Bool)
  | allowed (rdonly : Bool)
  | owned (rdonly : Bool)
  | admitted (rdonly : Bool)
  | counted (rdonly : Bool)
  | referenced (rdonly : Bool)
  | unlocked (rdonly : Bool)
  | opened (rdonly : Bool)
  | turnedDown
  | refused
  | leaving
  | failed
  | closeLocked (rdonly : Bool)
  | closeMarked (rdonly : Bool)
  | closeReadmitted
  | closeCounted
  | closePutDevice
  | closePutModule
  | closePut
  | closeUsers (one : Bool)
  | closeExit (wake : Bool)
  | waking
  deriving DecidableEq

/-- The fields the three functions work on. `caFreed` and `devFreed` count how often the memory was
    freed, and `faulted` notes that it was used afterwards; `removeMutex` and `minorSem` say whether
    somebody holds `ca->remove_mutex` and, for an open, `dvbdev_mutex` with `minor_rwsem`. -/
structure CaDevice (ι : Type) where
  caRef : ℕ
  devRef : ℕ
  caFreed : ℕ
  devFreed : ℕ
  users : ℕ
  readers : ℕ
  writers : ℕ
  exit : Bool
  inMinors : Bool
  removeMutex : Bool
  minorSem : Bool
  release : ReleasePc
  pc : ι → CaPc
  faulted : Bool

variable {ι : Type} [DecidableEq ι]

/-- A CA device just registered, with no file open. -/
def CaDevice.init : CaDevice ι where
  caRef := 1
  devRef := 2
  caFreed := 0
  devFreed := 0
  users := 1
  readers := 1
  writers := 1
  exit := false
  inMinors := true
  removeMutex := false
  minorSem := false
  release := .registered
  pc := fun _ => .idle
  faulted := false

namespace CaDevice

/-- Read or write the private CA data. -/
def touchCa (s : CaDevice ι) : CaDevice ι :=
  { s with faulted := s.faulted || decide (0 < s.caFreed) }

/-- Read or write the DVB device. -/
def touchDev (s : CaDevice ι) : CaDevice ι :=
  { s with faulted := s.faulted || decide (0 < s.devFreed) }

/-- `dvb_device_get` -/
def getDev (s : CaDevice ι) : CaDevice ι := { s.touchDev with devRef := s.devRef + 1 }

/-- `dvb_device_put`: the last reference frees the device. -/
def putDev (s : CaDevice ι) : CaDevice ι :=
  { s.touchDev with
    devRef := s.devRef - 1, devFreed := if s.devRef = 1 then s.devFreed + 1 else s.devFreed }

/-- `dvb_ca_private_get` -/
def getCa (s : CaDevice ι) : CaDevice ι := { s.touchCa with caRef := s.caRef + 1 }

/-- `dvb_ca_private_free` -/
def freeCa (s : CaDevice ι) : CaDevice ι := { s.putDev with caFreed := s.caFreed + 1 }

/-- `dvb_ca_private_put` -/
def putCa (s : CaDevice ι) : CaDevice ι :=
  let s := { s.touchCa with caRef := s.caRef - 1 }
  if s.caRef = 0 then s.freeCa else s

/-- The file goes on to `pc`. -/
def goes (s : CaDevice ι) (i : ι) (pc : CaPc) : CaDevice ι :=
  { s with pc := Function.update s.pc i pc }

def at' (s : CaDevice ι) (release : ReleasePc) : CaDevice ι := { s with release := release }

end CaDevice

/-- One atomic step: a file is opened or closed or makes the next step of an open or close under
    way, or the release makes its next step. `ok` is the result of `try_module_get`. -/
inductive CaStep (ι : Type) where
  | openFile (i : ι) (rdonly : Bool)
  | closeFile (i : ι)
  | next (i : ι) (ok : Bool)
  | release
  deriving DecidableEq

/-- The next step of an open or close. -/
def CaDevice.fileStep (s : CaDevice ι) (i : ι) (ok : Bool) : CaPc → Option (CaDevice ι)
  | .idle | .opened _ => none
  -- `dvb_device_open`
  | .found rdonly => some (s.getDev.goes i (.got rdonly))
  -- `dvb_ca_en50221_io_open`
  | .got rdonly =>
    if s.removeMutex then none
    else some ({ s.touchDev.touchCa with removeMutex := true }.goes i (.locked rdonly))
  | .locked rdonly => some (s.touchCa.goes i (if s.exit then .refused else .allowed rdonly))
  | .allowed rdonly => some (s.touchCa.goes i (if ok then .owned rdonly else .refused))
  -- `dvb_generic_open`
  | .owned rdonly =>
    if s.users = 0 then some (s.touchDev.goes i .turnedDown)
    else if rdonly then
      if s.readers = 0 then some (s.touchDev.goes i .turnedDown)
      else some ({ s.touchDev with readers := s.readers - 1 }.goes i (.admitted rdonly))
    else if s.writers = 0 then some (s.touchDev.goes i .turnedDown)
    else some ({ s.touchDev with writers := s.writers - 1 }.goes i (.admitted rdonly))
  | .admitted rdonly => some ({ s.touchDev with users := s.users - 1 }.goes i (.counted rdonly))
  | .counted rdonly => some (s.getCa.goes i (.referenced rdonly))
  | .referenced rdonly =>
    some ({ s.touchCa with removeMutex := false }.goes i (.unlocked rdonly))
  | .unlocked rdonly => some ({ s with minorSem := false }.goes i (.opened rdonly))
  -- an open that fails
  | .turnedDown => some (s.touchCa.goes i .refused)
  | .refused => some ({ s.touchCa with removeMutex := false }.goes i .leaving)
  | .leaving => some ({ s with minorSem := false }.goes i .failed)
  | .failed => some (s.putDev.goes i .idle)
  -- `dvb_ca_en50221_io_release`
  | .closeLocked rdonly => some (s.touchCa.goes i (.closeMarked rdonly))
  -- `dvb_generic_release`
  | .closeMarked rdonly =>
    if rdonly then some ({ s.touchDev with readers := s.readers + 1 }.goes i .closeReadmitted)
    else some ({ s.touchDev with writers := s.writers + 1 }.goes i .closeReadmitted)
  | .closeReadmitted => some ({ s.touchDev with users := s.users + 1 }.goes i .closeCounted)
  | .closeCounted => some (s.putDev.goes i .closePutDevice)
  | .closePutDevice => some (s.touchCa.goes i .closePutModule)
  | .closePutModule => some (s.putCa.goes i .closePut)
  | .closePut => some (s.touchDev.goes i (.closeUsers (s.users = 1)))
  | .closeUsers one =>
    if one then some (s.touchCa.goes i (.closeExit s.exit)) else some (s.goes i (.closeExit false))
  | .closeExit wake =>
    some ({ s.touchCa with removeMutex := false }.goes i (if wake then .waking else .idle))
  | .waking => some (s.touchDev.goes i .idle)

/-- The next step of `neumo_dvb_ca_en50221_release`. -/
def CaDevice.releaseStep (s : CaDevice ι) : Option (CaDevice ι) :=
  match s.release with
  | .registered =>
    if s.removeMutex then none else some ({ s.touchCa with removeMutex := true }.at' .locked)
  | .locked => some ({ s.touchCa with exit := true }.at' .exiting)
  | .exiting => some ({ s.touchCa with removeMutex := false }.at' .unlocked)
  | .unlocked => some (s.touchCa.touchDev.at' (if s.users < 1 then .waiting else .passed))
  | .waiting => some (s.touchCa.touchDev.at' (if s.users = 1 then .passed else .waiting))
  | .passed => some (s.touchCa.at' .stopped)
  | .stopped => some (s.touchCa.at' .shutDown)
  -- `dvb_remove_device`
  | .shutDown =>
    if s.minorSem then none
    else some ({ s.touchCa.touchDev with inMinors := false }.at' .unlisted)
  | .unlisted => some (s.putDev.at' .dropped)
  | .dropped => some (s.touchDev.at' .removed)
  | .removed => some (s.putCa.at' .done)
  | .done => none

def CaDevice.step (s : CaDevice ι) : CaStep ι → Option (CaDevice ι)
  | .openFile i rdonly =>
    if s.pc i = .idle ∧ s.inMinors ∧ ¬ s.minorSem then
      some ({ s.touchDev with minorSem := true }.goes i (.found rdonly))
    else none
  | .closeFile i =>
    match s.pc i with
    | .opened rdonly =>
      if s.removeMutex then none
      else some ({ s.touchDev.touchCa with removeMutex := true }.goes i (.closeLocked rdonly))
    | _ => none
  | .next i ok => s.fileStep i ok (s.pc i)
  | .release => s.releaseStep

/-! ### What each place holds -/

namespace CaPc

/-- References to the DVB device. -/
def dev : CaPc → ℕ
  | .idle | .found _ | .closePutDevice | .closePutModule | .closePut | .closeUsers _
  | .closeExit _ | .waking => 0
  | _ => 1

/-- References to the private CA data. -/
def ca : CaPc → ℕ
  | .referenced _ | .unlocked _ | .opened _ | .closeLocked _ | .closeMarked _ | .closeReadmitted
  | .closeCounted | .closePutDevice | .closePutModule => 1
  | _ => 0

/-- What is taken off `users`. -/
def user : CaPc → ℕ
  | .counted _ | .referenced _ | .unlocked _ | .opened _ | .closeLocked _ | .closeMarked _
  | .closeReadmitted => 1
  | _ => 0

/-- Found that there is a user to take, and is about to take it. -/
def taking : CaPc → ℕ
  | .admitted _ => 1
  | _ => 0

/-- `ca->remove_mutex` -/
def mutex : CaPc → ℕ
  | .locked _ | .allowed _ | .owned _ | .admitted _ | .counted _ | .referenced _ | .turnedDown
  | .refused | .closeLocked _ | .closeMarked _ | .closeReadmitted | .closeCounted
  | .closePutDevice | .closePutModule | .closePut | .closeUsers _ | .closeExit _ => 1
  | _ => 0

/-- `dvbdev_mutex` and the read side of `minor_rwsem`. -/
def sem : CaPc → ℕ
  | .found _ | .got _ | .locked _ | .allowed _ | .owned _ | .admitted _ | .counted _
  | .referenced _ | .unlocked _ | .turnedDown | .refused | .leaving => 1
  | _ => 0

/-- An open that found `exit` not set and has not given the mutex back. -/
def entering : CaPc → ℕ
  | .allowed _ | .owned _ | .admitted _ | .counted _ | .referenced _ => 1
  | _ => 0

/-- A close that has added its user back and has not returned yet. -/
def ending : CaPc → ℕ
  | .closeCounted | .closePutDevice | .closePutModule | .closePut | .closeUsers _ | .closeExit _
  | .waking => 1
  | _ => 0

theorem entering_le (pc : CaPc) : pc.entering ≤ pc.mutex := by cases pc <;> simp [entering, mutex]

theorem taking_le (pc : CaPc) : pc.taking ≤ pc.mutex := by cases pc <;> simp [taking, mutex]

theorem ca_le (pc : CaPc) : pc.ca ≤ pc.user + pc.ending := by cases pc <;> simp [ca, user, ending]

theorem away {pc : CaPc} (hsem : pc.sem = 0) (huser : pc.user = 0) (hending : pc.ending = 0) :
    pc = .idle ∨ pc = .failed := by
  cases pc <;> simp [sem, user, ending] at hsem huser hending ⊢

end CaPc

namespace ReleasePc

/-- The driver's reference to the private CA data. -/
def ca : ReleasePc → ℕ
  | .done => 0
  | _ => 1

/-- The reference of the table of minor numbers to the DVB device. -/
def minor : ReleasePc → ℕ
  | .dropped | .removed | .done => 0
  | _ => 1

def mutex : ReleasePc → ℕ
  | .locked | .exiting => 1
  | _ => 0

/-- `exit` is set. -/
def exits : ReleasePc → ℕ
  | .registered | .locked => 0
  | _ => 1

/-- The wait for the users is over. -/
def drained : ReleasePc → ℕ
  | .registered | .locked | .exiting | .unlocked | .waiting => 0
  | _ => 1

/-- The device cannot be found under its minor number any more. -/
def gone : ReleasePc → ℕ
  | .unlisted | .dropped | .removed | .done => 1
  | _ => 0

theorem order (r : ReleasePc) : r.drained ≤ r.exits ∧ r.gone ≤ r.drained ∧ 1 ≤ r.ca + r.gone ∧
    1 ≤ r.minor + r.gone ∧ r.ca ≤ 1 ∧ r.minor ≤ 1 ∧ r.exits ≤ 1 := by
  cases r <;> decide

end ReleasePc

variable [Fintype ι]

/-- The counters agree with what the files and the release hold. -/
structure CaDevice.Inv (s : CaDevice ι) : Prop where
  ca : s.caRef = s.release.ca + total CaPc.ca s.pc
  dev : s.devRef = min 1 s.caRef + s.release.minor + total CaPc.dev s.pc
  users : s.users + total CaPc.user s.pc = 1
  taking : total CaPc.user s.pc + total CaPc.taking s.pc ≤ 1
  mutex : s.removeMutex.toNat = s.release.mutex + total CaPc.mutex s.pc
  sem : s.minorSem.toNat = total CaPc.sem s.pc
  minors : s.inMinors.toNat + s.release.gone = 1
  exit : s.exit.toNat = s.release.exits
  entering : s.release.exits = 1 → total CaPc.entering s.pc = 0
  drained : s.release.drained = 1 → total CaPc.user s.pc = 0 ∧ total CaPc.ending s.pc = 0
  gone : s.release.gone = 1 → total CaPc.sem s.pc = 0
  caFreed : s.caFreed = 1 - s.caRef
  devFreed : s.devFreed = 1 - s.devRef
  safe : s.faulted = false

variable {s s' : CaDevice ι} {i : ι} {p q : CaPc}

/-- A file goes from `p` to `q`: the counters follow what it holds, and nothing is freed that is
    still referenced. -/
structure CaDevice.Follows (s s' : CaDevice ι) (i : ι) (p q : CaPc) : Prop where
  pc : s'.pc = Function.update s.pc i q
  same : s'.release = s.release ∧ s'.inMinors = s.inMinors ∧ s'.exit = s.exit ∧
    s'.caFreed = s.caFreed ∧ s'.faulted = s.faulted
  refs : s'.caRef + p.ca = s.caRef + q.ca ∧ s'.devRef + p.dev = s.devRef + q.dev
  users : s'.users + q.user = s.users + p.user
  takes : p.user + p.taking < q.user + q.taking → 0 < s.users ∧ q.user = 0
  locks : s'.removeMutex.toNat + p.mutex = s.removeMutex.toNat + q.mutex ∧
    s'.minorSem.toNat + p.sem = s.minorSem.toNat + q.sem
  enters : (p.entering < q.entering → s.exit = false) ∧
    (p.user + p.ending < q.user + q.ending → p.entering = 1) ∧ (p.sem < q.sem → s.inMinors = true)
  alive : min 1 s'.caRef = min 1 s.caRef
  devFreed : s'.devFreed = 1 - s'.devRef

theorem CaDevice.Follows.inv (h : s.Follows s' i p q) (hs : s.Inv) (hp : s.pc i = p) : s'.Inv := by
  obtain ⟨hrel, hminors, hexit, hcaFreed, hsafe⟩ := h.same
  have horder := s.release.order
  have htotal : ∀ share : CaPc → ℕ,
      total share s'.pc + share p = total share s.pc + share q := by
    intro share
    rw [h.pc, ← hp]
    exact total_update share s.pc i q
  have hle : ∀ share : CaPc → ℕ, share p ≤ total share s.pc := by
    intro share
    rw [← hp]
    exact share_le_total share s.pc i
  have hca := htotal CaPc.ca
  have hdev := htotal CaPc.dev
  have huser := htotal CaPc.user
  have htaking := htotal CaPc.taking
  have hmutex := htotal CaPc.mutex
  have hsem := htotal CaPc.sem
  have hentering := htotal CaPc.entering
  have hending := htotal CaPc.ending
  obtain ⟨hcaRef, hdevRef⟩ := h.refs
  obtain ⟨hlock, hlockSem⟩ := h.locks
  obtain ⟨henter, hend, hopen⟩ := h.enters
  have hle_entering := hle CaPc.entering
  have hle_user := hle CaPc.user
  have hle_ending := hle CaPc.ending
  have hle_sem := hle CaPc.sem
  have hinv_exit := hs.exit
  have hinv_minors := hs.minors
  have hs_entering := hs.entering
  have hs_over := hs.drained
  have hs_gone := hs.gone
  have hexits : s.exit = false → s.release.exits = 0 := by
    intro hno
    rw [hno] at hinv_exit
    exact hinv_exit.symm
  have hlisted : s.inMinors = true → s.release.gone = 0 := by
    intro hyes
    rw [hyes] at hinv_minors
    simpa using hinv_minors
  have hs_users := hs.users
  have hs_mutex := hs.mutex
  refine ⟨?_, ?_, ?_, ?_, ?_, ?_, ?_, ?_, ?_, ?_, ?_, ?_, h.devFreed, ?_⟩
  · rw [hrel]
    have := hs.ca
    omega
  · rw [hrel, h.alive]
    have := hs.dev
    omega
  · have := h.users
    omega
  · have := hs.taking
    have : total CaPc.taking s'.pc ≤ total CaPc.mutex s'.pc := total_le CaPc.taking_le
    have := s'.removeMutex.toNat_le
    by_cases hmore : CaPc.user p + CaPc.taking p < CaPc.user q + CaPc.taking q
    · have := h.takes hmore
      omega
    · omega
  · rw [hrel]
    omega
  · have := hs.sem
    omega
  · rw [hrel, hminors]
    exact hs.minors
  · rw [hrel, hexit]
    exact hs.exit
  · rw [hrel]
    intro hex
    have := hs_entering hex
    have hno : ¬ CaPc.entering p < CaPc.entering q := fun hlt => by
      have := hexits (henter hlt)
      omega
    omega
  · rw [hrel]
    intro hover
    obtain ⟨hu, he⟩ := hs_over hover
    have hno : ¬ CaPc.user p + CaPc.ending p < CaPc.user q + CaPc.ending q := fun hlt => by
      have := hend hlt
      have := hs_entering (by omega)
      omega
    omega
  · rw [hrel]
    intro hgone
    have := hs_gone hgone
    have hno : ¬ CaPc.sem p < CaPc.sem q := fun hlt => by
      have := hlisted (hopen hlt)
      omega
    omega
  · rw [hcaFreed, hs.caFreed]
    have := h.alive
    omega
  · rw [hsafe]
    exact hs.safe

/-! ### Nothing that is in use is freed -/

omit [DecidableEq ι] [Fintype ι] in
theorem CaDevice.touchCa_eq (h : s.caFreed = 0) : s.touchCa = s := by
  have hsame : (s.faulted || decide (0 < s.caFreed)) = s.faulted := by simp [h]
  rw [CaDevice.touchCa, hsame]

omit [DecidableEq ι] [Fintype ι] in
theorem CaDevice.touchDev_eq (h : s.devFreed = 0) : s.touchDev = s := by
  have hsame : (s.faulted || decide (0 < s.devFreed)) = s.faulted := by simp [h]
  rw [CaDevice.touchDev, hsame]

omit [DecidableEq ι] in
/-- While a file is being opened, is open or is being closed, both objects have a reference that the
    file does not give up before it is done. -/
theorem CaDevice.Inv.kept (hs : s.Inv) (hp : s.pc i = p)
    (huse : p.sem = 1 ∨ p.user = 1 ∨ p.ending = 1) :
    s.release.ca = 1 ∧ s.release.minor = 1 ∧ s.release.gone = 0 := by
  have horder := s.release.order
  have hsem := share_le_total CaPc.sem s.pc i
  have huser := share_le_total CaPc.user s.pc i
  have hending := share_le_total CaPc.ending s.pc i
  rw [hp] at hsem huser hending
  have hover := hs.drained
  have hgone := hs.gone
  have : s.release.gone = 0 := by
    by_contra hne
    have hg : s.release.gone = 1 := by omega
    have ho : s.release.drained = 1 := by omega
    have := hgone hg
    have := hover ho
    omega
  omega

omit [DecidableEq ι] in
theorem CaDevice.Inv.touch (hs : s.Inv) (hp : s.pc i = p)
    (huse : p.sem = 1 ∨ p.user = 1 ∨ p.ending = 1) : s.touchCa = s ∧ s.touchDev = s := by
  have hkept := hs.kept hp huse
  have hca := hs.ca
  have hdev := hs.dev
  have hcaFreed := hs.caFreed
  have hdevFreed := hs.devFreed
  exact ⟨touchCa_eq (by omega), touchDev_eq (by omega)⟩

omit [DecidableEq ι] in
theorem CaDevice.Inv.locked (hs : s.Inv) (hp : s.pc i = p) (hone : p.mutex = 1) :
    s.removeMutex.toNat = 1 := by
  have hle := share_le_total CaPc.mutex s.pc i
  have hmutex := hs.mutex
  have := s.removeMutex.toNat_le
  rw [hp] at hle
  omega

omit [DecidableEq ι] in
theorem CaDevice.Inv.held (hs : s.Inv) (hp : s.pc i = p) (hone : p.sem = 1) :
    s.minorSem.toNat = 1 := by
  have hle := share_le_total CaPc.sem s.pc i
  have hsem := hs.sem
  have := s.minorSem.toNat_le
  rw [hp] at hle
  omega

/-- A step that moves the file on and changes no counter. -/
theorem CaDevice.Inv.follows_same (hs : s.Inv) (hca : p.ca = q.ca) (hdev : p.dev = q.dev)
    (huser : p.user = q.user) (htaking : p.taking = q.taking) (hmutex : p.mutex = q.mutex)
    (hsem : p.sem = q.sem) (hentering : p.entering < q.entering → s.exit = false)
    (hending : p.ending = q.ending) : s.Follows (s.goes i q) i p q where
  pc := rfl
  same := ⟨rfl, rfl, rfl, rfl, rfl⟩
  refs := ⟨congrArg _ hca, congrArg _ hdev⟩
  users := congrArg _ huser.symm
  takes := by omega
  locks := ⟨congrArg _ hmutex, congrArg _ hsem⟩
  enters := ⟨hentering, by omega, by omega⟩
  alive := rfl
  devFreed := hs.devFreed

theorem CaDevice.Inv.open_follows {ok : Bool} (hs : s.Inv) (hp : s.pc i = p) (hsem : p.sem = 1)
    (h : s.fileStep i ok p = some s') : ∃ q, s.Follows s' i p q := by
  obtain ⟨hca, hdev⟩ := hs.touch hp (.inl hsem)
  have hheld := hs.held hp hsem
  cases p with
  | found rdonly =>
    simp only [fileStep, getDev, hdev, Option.some.injEq] at h
    subst h
    have hkept := hs.kept hp (.inl rfl)
    have hdevEq := hs.dev
    have hdevFreed := hs.devFreed
    refine ⟨.got rdonly, rfl, ⟨rfl, rfl, rfl, rfl, rfl⟩, ⟨rfl, rfl⟩, rfl, nofun, ⟨rfl, rfl⟩,
      ⟨nofun, nofun, nofun⟩, rfl, ?_⟩
    simp only [goes]
    omega
  | got rdonly =>
    simp only [fileStep, hca, hdev] at h
    split_ifs at h with hfree
    cases h
    rw [Bool.not_eq_true] at hfree
    refine ⟨.locked rdonly, rfl, ⟨rfl, rfl, rfl, rfl, rfl⟩, ⟨rfl, rfl⟩, rfl, nofun, ⟨?_, rfl⟩,
      ⟨nofun, nofun, nofun⟩, rfl, hs.devFreed⟩
    rw [hfree]
    rfl
  | locked rdonly =>
    simp only [fileStep, hca, Option.some.injEq] at h
    subst h
    cases hexit : s.exit with
    | true => exact ⟨.refused, hs.follows_same rfl rfl rfl rfl rfl rfl nofun rfl⟩
    | false =>
      exact ⟨.allowed rdonly, hs.follows_same rfl rfl rfl rfl rfl rfl (fun _ => hexit) rfl⟩
  | allowed rdonly =>
    simp only [fileStep, hca, Option.some.injEq] at h
    subst h
    cases ok with
    | true => exact ⟨.owned rdonly, hs.follows_same rfl rfl rfl rfl rfl rfl nofun rfl⟩
    | false => exact ⟨.refused, hs.follows_same rfl rfl rfl rfl rfl rfl nofun rfl⟩
  | owned rdonly =>
    simp only [fileStep, hdev] at h
    have hturned : s.Follows (s.goes i .turnedDown) i (.owned rdonly) .turnedDown :=
      hs.follows_same rfl rfl rfl rfl rfl rfl nofun rfl
    split_ifs at h with husers hrdonly hreaders hwriters
    · exact ⟨_, Option.some.inj h ▸ hturned⟩
    · exact ⟨_, Option.some.inj h ▸ hturned⟩
    · cases h
      exact ⟨.admitted rdonly, rfl, ⟨rfl, rfl, rfl, rfl, rfl⟩, ⟨rfl, rfl⟩, rfl,
        fun _ => ⟨Nat.pos_of_ne_zero husers, rfl⟩, ⟨rfl, rfl⟩, ⟨nofun, nofun, nofun⟩, rfl,
        hs.devFreed⟩
    · exact ⟨_, Option.some.inj h ▸ hturned⟩
    · cases h
      exact ⟨.admitted rdonly, rfl, ⟨rfl, rfl, rfl, rfl, rfl⟩, ⟨rfl, rfl⟩, rfl,
        fun _ => ⟨Nat.pos_of_ne_zero husers, rfl⟩, ⟨rfl, rfl⟩, ⟨nofun, nofun, nofun⟩, rfl,
        hs.devFreed⟩
  | admitted rdonly =>
    simp only [fileStep, hdev, Option.some.injEq] at h
    subst h
    have htaking := share_le_total CaPc.taking s.pc i
    rw [hp] at htaking
    have hone : CaPc.taking (.admitted rdonly) = 1 := rfl
    have hle := hs.taking
    have husers := hs.users
    refine ⟨.counted rdonly, rfl, ⟨rfl, rfl, rfl, rfl, rfl⟩, ⟨rfl, rfl⟩, ?_, nofun, ⟨rfl, rfl⟩,
      ⟨nofun, fun _ => rfl, nofun⟩, rfl, hs.devFreed⟩
    simp only [goes, CaPc.user]
    omega
  | counted rdonly =>
    simp only [fileStep, getCa, hca, Option.some.injEq] at h
    subst h
    have hkept := hs.kept hp (.inl rfl)
    have hcaEq := hs.ca
    refine ⟨.referenced rdonly, rfl, ⟨rfl, rfl, rfl, rfl, rfl⟩, ⟨rfl, rfl⟩, rfl, nofun, ⟨rfl, rfl⟩,
      ⟨nofun, nofun, nofun⟩, ?_, hs.devFreed⟩
    simp only [goes]
    omega
  | referenced rdonly =>
    simp only [fileStep, hca, Option.some.injEq] at h
    subst h
    exact ⟨.unlocked rdonly, rfl, ⟨rfl, rfl, rfl, rfl, rfl⟩, ⟨rfl, rfl⟩, rfl, nofun,
      ⟨(hs.locked hp rfl).symm, rfl⟩, ⟨nofun, nofun, nofun⟩, rfl, hs.devFreed⟩
  | unlocked rdonly =>
    simp only [fileStep, Option.some.injEq] at h
    subst h
    exact ⟨.opened rdonly, rfl, ⟨rfl, rfl, rfl, rfl, rfl⟩, ⟨rfl, rfl⟩, rfl, nofun,
      ⟨rfl, hheld.symm⟩, ⟨nofun, nofun, nofun⟩, rfl, hs.devFreed⟩
  | turnedDown =>
    simp only [fileStep, hca, Option.some.injEq] at h
    subst h
    exact ⟨.refused, hs.follows_same rfl rfl rfl rfl rfl rfl nofun rfl⟩
  | refused =>
    simp only [fileStep, hca, Option.some.injEq] at h
    subst h
    exact ⟨.leaving, rfl, ⟨rfl, rfl, rfl, rfl, rfl⟩, ⟨rfl, rfl⟩, rfl, nofun,
      ⟨(hs.locked hp rfl).symm, rfl⟩, ⟨nofun, nofun, nofun⟩, rfl, hs.devFreed⟩
  | leaving =>
    simp only [fileStep, Option.some.injEq] at h
    subst h
    exact ⟨.failed, rfl, ⟨rfl, rfl, rfl, rfl, rfl⟩, ⟨rfl, rfl⟩, rfl, nofun, ⟨rfl, hheld.symm⟩,
      ⟨nofun, nofun, nofun⟩, rfl, hs.devFreed⟩
  | _ => cases hsem

/-- The steps of a close. -/
theorem CaDevice.Inv.close_follows {ok : Bool} (hs : s.Inv) (hp : s.pc i = p)
    (hclose : p.user + p.ending = 1) (hsem : p.sem = 0) (h : s.fileStep i ok p = some s') :
    ∃ q, s.Follows s' i p q := by
  have huse : p.sem = 1 ∨ p.user = 1 ∨ p.ending = 1 := by omega
  obtain ⟨hca, hdev⟩ := hs.touch hp huse
  obtain ⟨hcaKept, hminorKept, _⟩ := hs.kept hp huse
  cases p with
  | closeLocked rdonly =>
    simp only [fileStep, hca, Option.some.injEq] at h
    subst h
    exact ⟨.closeMarked rdonly, hs.follows_same rfl rfl rfl rfl rfl rfl nofun rfl⟩
  | closeMarked rdonly =>
    simp only [fileStep, hdev] at h
    split_ifs at h
    all_goals
      cases h
      exact ⟨.closeReadmitted, rfl, ⟨rfl, rfl, rfl, rfl, rfl⟩, ⟨rfl, rfl⟩, rfl, nofun, ⟨rfl, rfl⟩,
        ⟨nofun, nofun, nofun⟩, rfl, hs.devFreed⟩
  | closeReadmitted =>
    simp only [fileStep, hdev, Option.some.injEq] at h
    subst h
    exact ⟨.closeCounted, rfl, ⟨rfl, rfl, rfl, rfl, rfl⟩, ⟨rfl, rfl⟩, rfl, nofun, ⟨rfl, rfl⟩,
      ⟨nofun, nofun, nofun⟩, rfl, hs.devFreed⟩
  | closeCounted =>
    have hdevEq := hs.dev
    have hcaEq := hs.ca
    have hdevFreed := hs.devFreed
    simp only [fileStep, putDev, hdev, Option.some.injEq] at h
    subst h
    refine ⟨.closePutDevice, rfl, ⟨rfl, rfl, rfl, rfl, rfl⟩, ⟨rfl, ?_⟩, rfl, nofun, ⟨rfl, rfl⟩,
      ⟨nofun, nofun, nofun⟩, rfl, ?_⟩
    · simp only [goes, CaPc.dev]
      omega
    · have hle := share_le_total CaPc.dev s.pc i
      rw [hp] at hle
      have hone : CaPc.dev .closeCounted = 1 := rfl
      simp only [goes]
      rw [if_neg (by omega)]
      omega
  | closePutDevice =>
    simp only [fileStep, hca, Option.some.injEq] at h
    subst h
    exact ⟨.closePutModule, hs.follows_same rfl rfl rfl rfl rfl rfl nofun rfl⟩
  | closePutModule =>
    -- the driver still has its reference, so this is not the last one
    have hle := share_le_total CaPc.ca s.pc i
    rw [hp] at hle
    have hone : CaPc.ca .closePutModule = 1 := rfl
    have hcaEq := hs.ca
    simp only [fileStep, putCa, hca, Option.some.injEq] at h
    rw [if_neg (by omega)] at h
    subst h
    refine ⟨.closePut, rfl, ⟨rfl, rfl, rfl, rfl, rfl⟩, ⟨?_, rfl⟩, rfl, nofun, ⟨rfl, rfl⟩,
      ⟨nofun, nofun, nofun⟩, ?_, hs.devFreed⟩
    · simp only [goes, CaPc.ca]
      omega
    · simp only [goes]
      omega
  | closePut =>
    simp only [fileStep, hdev, Option.some.injEq] at h
    subst h
    exact ⟨_, hs.follows_same rfl rfl rfl rfl rfl rfl nofun rfl⟩
  | closeUsers one =>
    simp only [fileStep, hca] at h
    split_ifs at h
    all_goals
      cases h
      exact ⟨_, hs.follows_same rfl rfl rfl rfl rfl rfl nofun rfl⟩
  | closeExit wake =>
    have hlocked := hs.locked hp rfl
    simp only [fileStep, hca, Option.some.injEq] at h
    subst h
    cases wake with
    | true =>
      exact ⟨.waking, rfl, ⟨rfl, rfl, rfl, rfl, rfl⟩, ⟨rfl, rfl⟩, rfl, nofun, ⟨hlocked.symm, rfl⟩,
        ⟨nofun, nofun, nofun⟩, rfl, hs.devFreed⟩
    | false =>
      exact ⟨.idle, rfl, ⟨rfl, rfl, rfl, rfl, rfl⟩, ⟨rfl, rfl⟩, rfl, nofun, ⟨hlocked.symm, rfl⟩,
        ⟨nofun, nofun, nofun⟩, rfl, hs.devFreed⟩
  | waking =>
    simp only [fileStep, hdev, Option.some.injEq] at h
    subst h
    exact ⟨.idle, rfl, ⟨rfl, rfl, rfl, rfl, rfl⟩, ⟨rfl, rfl⟩, rfl, nofun, ⟨rfl, rfl⟩,
      ⟨nofun, nofun, nofun⟩, rfl, hs.devFreed⟩
  | opened rdonly => cases h
  | counted rdonly => cases hsem
  | referenced rdonly => cases hsem
  | unlocked rdonly => cases hsem
  | _ => cases hclose

theorem CaDevice.Inv.failed_follows {ok : Bool} (hs : s.Inv) (hp : s.pc i = .failed)
    (h : s.fileStep i ok .failed = some s') : s.Follows s' i .failed .idle := by
  have hle := share_le_total CaPc.dev s.pc i
  rw [hp] at hle
  have hone : CaPc.dev .failed = 1 := rfl
  have hdevEq := hs.dev
  have hdevFreed := hs.devFreed
  have htouch : s.touchDev = s := touchDev_eq (by omega)
  simp only [fileStep, putDev, htouch, Option.some.injEq] at h
  subst h
  refine ⟨rfl, ⟨rfl, rfl, rfl, rfl, rfl⟩, ⟨rfl, ?_⟩, rfl, nofun, ⟨rfl, rfl⟩,
    ⟨nofun, nofun, nofun⟩, rfl, ?_⟩
  · simp only [goes, CaPc.dev]
    omega
  · simp only [goes]
    split_ifs <;> omega

theorem CaDevice.Inv.openFile {rdonly : Bool} (hs : s.Inv)
    (h : s.step (.openFile i rdonly) = some s') : s'.Inv := by
  simp only [step] at h
  split_ifs at h with hfree
  obtain ⟨hp, hlisted, hsem⟩ := hfree
  rw [Bool.not_eq_true] at hsem
  cases h
  have hminors := hs.minors
  rw [hlisted, Bool.toNat_true] at hminors
  have horder := s.release.order
  have hca := hs.ca
  have hdev := hs.dev
  have hdevFreed := hs.devFreed
  rw [touchDev_eq (by omega)]
  refine Follows.inv (s := s) (p := .idle) (q := .found rdonly) ⟨rfl, ⟨rfl, rfl, rfl, rfl, rfl⟩, ⟨rfl, rfl⟩, rfl, nofun,
    ⟨rfl, ?_⟩, ⟨nofun, nofun, fun _ => hlisted⟩, rfl, hdevFreed⟩ hs hp
  rw [hsem]
  rfl

theorem CaDevice.Inv.closeFile (hs : s.Inv) (h : s.step (.closeFile i) = some s') : s'.Inv := by
  simp only [step] at h
  split at h
  · rename_i rdonly hp
    split_ifs at h with hfree
    rw [Bool.not_eq_true] at hfree
    cases h
    obtain ⟨hca, hdev⟩ := hs.touch hp (.inr (.inl rfl))
    rw [hdev, hca]
    refine Follows.inv (s := s) (p := .opened rdonly) (q := .closeLocked rdonly) ⟨rfl, ⟨rfl, rfl, rfl, rfl, rfl⟩, ⟨rfl, rfl⟩, rfl,
      nofun, ⟨?_, rfl⟩, ⟨nofun, nofun, nofun⟩, rfl, hs.devFreed⟩ hs hp
    rw [hfree]
    rfl
  · cases h

theorem CaDevice.Inv.fileStep {ok : Bool} (hs : s.Inv)
    (h : s.fileStep i ok (s.pc i) = some s') : s'.Inv := by
  obtain ⟨p, hp⟩ : ∃ p, s.pc i = p := ⟨_, rfl⟩
  rw [hp] at h
  obtain ⟨q, hq⟩ : ∃ q, s.Follows s' i p q := by
    by_cases hsem : p.sem = 1
    · exact hs.open_follows hp hsem h
    · cases p with
      | failed => exact ⟨_, hs.failed_follows hp h⟩
      | idle => cases h
      | opened rdonly => cases h
      | _ => first | exact absurd rfl hsem | exact hs.close_follows hp rfl rfl h
  exact hq.inv hs hp

/-! ### The release -/

/-- The release does not find all users back while a close that has added its user back is still
    under way. -/
def CaStep.Orderly (c : CaStep ι) (s : CaDevice ι) : Prop :=
  c = .release → s.release = .unlocked ∧ 1 ≤ s.users ∨ s.release = .waiting ∧ s.users = 1 →
    ∀ i, (s.pc i).ending = 0

/-- The release goes on to `r`: the counters follow what it holds. -/
structure CaDevice.Releases (s s' : CaDevice ι) (r : ReleasePc) : Prop where
  release : s'.release = r
  same : s'.pc = s.pc ∧ s'.users = s.users ∧ s'.minorSem = s.minorSem ∧ s'.faulted = s.faulted
  ca : s'.caRef + s.release.ca = s.caRef + r.ca
  dev : s'.devRef + min 1 s.caRef + s.release.minor = s.devRef + min 1 s'.caRef + r.minor
  mutex : s'.removeMutex.toNat + s.release.mutex = s.removeMutex.toNat + r.mutex
  minors : s'.inMinors.toNat + r.gone = s.inMinors.toNat + s.release.gone
  exit : s'.exit.toNat + s.release.exits = s.exit.toNat + r.exits
  entering : s.release.exits < r.exits → total CaPc.entering s.pc = 0
  drained : s.release.drained < r.drained → total CaPc.user s.pc = 0 ∧ total CaPc.ending s.pc = 0
  gone : s.release.gone < r.gone → total CaPc.sem s.pc = 0
  caFreed : s'.caFreed = 1 - s'.caRef
  devFreed : s'.devFreed = 1 - s'.devRef

omit [DecidableEq ι] in
theorem CaDevice.Releases.inv {r : ReleasePc} (h : s.Releases s' r) (hs : s.Inv) : s'.Inv := by
  obtain ⟨hpc, husers, hminorSem, hfaulted⟩ := h.same
  have horder := s.release.order
  have horder' := r.order
  have hexit := hs.exit
  have hminors := hs.minors
  refine ⟨?_, ?_, ?_, ?_, ?_, ?_, ?_, ?_, ?_, ?_, ?_, h.caFreed, h.devFreed, ?_⟩
  · rw [h.release, hpc]
    have := hs.ca
    have := h.ca
    omega
  · rw [h.release, hpc]
    have := hs.dev
    have := h.dev
    omega
  · rw [hpc, husers]
    exact hs.users
  · rw [hpc]
    exact hs.taking
  · rw [h.release, hpc]
    have := hs.mutex
    have := h.mutex
    omega
  · rw [hpc, hminorSem]
    exact hs.sem
  · rw [h.release]
    have := h.minors
    omega
  · rw [h.release]
    have := h.exit
    omega
  · rw [h.release, hpc]
    intro hone
    have := hs.entering
    have := h.entering
    omega
  · rw [h.release, hpc]
    intro hone
    have := hs.drained
    have := h.drained
    omega
  · rw [h.release, hpc]
    intro hone
    have := hs.gone
    have := h.gone
    omega
  · rw [hfaulted]
    exact hs.safe

omit [DecidableEq ι] in
/-- The release moves on and changes no counter. -/
theorem CaDevice.Inv.releases_same {r : ReleasePc} (hs : s.Inv) (hca : s.release.ca = r.ca)
    (hminor : s.release.minor = r.minor) (hmutex : s.release.mutex = r.mutex)
    (hexits : s.release.exits = r.exits) (hgone : s.release.gone = r.gone)
    (hover : s.release.drained < r.drained →
      total CaPc.user s.pc = 0 ∧ total CaPc.ending s.pc = 0) : s.Releases (s.at' r) r where
  release := rfl
  same := ⟨rfl, rfl, rfl, rfl⟩
  ca := congrArg _ hca
  dev := congrArg _ hminor
  mutex := congrArg _ hmutex
  minors := congrArg _ hgone.symm
  exit := congrArg _ hexits
  entering := by omega
  drained := hover
  gone := by omega
  caFreed := hs.caFreed
  devFreed := hs.devFreed

omit [DecidableEq ι] in
theorem CaDevice.Inv.touch_release (hs : s.Inv) (hrel : s.release.ca = 1) :
    s.touchCa = s ∧ s.touchDev = s := by
  have hca := hs.ca
  have hdev := hs.dev
  have hcaFreed := hs.caFreed
  have hdevFreed := hs.devFreed
  exact ⟨touchCa_eq (by omega), touchDev_eq (by omega)⟩

omit [DecidableEq ι] in
theorem CaDevice.Inv.no_refs (hs : s.Inv) (hover : s.release.drained = 1) :
    total CaPc.ca s.pc = 0 := by
  have hle : total CaPc.ca s.pc ≤ total (fun pc => CaPc.user pc + CaPc.ending pc) s.pc :=
    total_le CaPc.ca_le
  rw [total_add] at hle
  have := hs.drained hover
  omega

omit [DecidableEq ι] in
theorem CaDevice.Inv.releaseStep (hs : s.Inv) (hc : CaStep.release.Orderly s)
    (h : s.releaseStep = some s') : s'.Inv := by
  have hca := hs.ca
  have hdev := hs.dev
  have hmutex := hs.mutex
  have hcaFreed := hs.caFreed
  have hdevFreed := hs.devFreed
  have hall : (∀ i, (s.pc i).ending = 0) → 1 ≤ s.users →
      total CaPc.user s.pc = 0 ∧ total CaPc.ending s.pc = 0 := by
    intro hnone husers
    have := hs.users
    exact ⟨by omega, total_eq_zero.mpr hnone⟩
  rw [CaDevice.releaseStep] at h
  suffices hmoves : ∃ r, s.Releases s' r by
    obtain ⟨r, hr⟩ := hmoves
    exact hr.inv hs
  have htouch := hs.touch_release
  cases hr : s.release with
  | registered =>
    obtain ⟨htca, -⟩ := htouch (by rw [hr]; rfl)
    simp only [hr, htca] at h
    split_ifs at h with hfree
    rw [Bool.not_eq_true] at hfree
    cases h
    refine ⟨.locked, rfl, ⟨rfl, rfl, rfl, rfl⟩, ?_, ?_, ?_, ?_, ?_, ?_, ?_, ?_, hcaFreed, hdevFreed⟩
    all_goals rw [hr]
    all_goals first | rfl | (rw [hfree]; rfl) | nofun
  | locked =>
    obtain ⟨htca, -⟩ := htouch (by rw [hr]; rfl)
    simp only [hr, htca, Option.some.injEq] at h
    subst h
    have hexit := hs.exit
    rw [hr] at hexit hmutex
    have hnone : total CaPc.entering s.pc = 0 := by
      have : total CaPc.entering s.pc ≤ total CaPc.mutex s.pc := total_le CaPc.entering_le
      have := s.removeMutex.toNat_le
      simp only [ReleasePc.mutex] at hmutex
      omega
    refine ⟨.exiting, rfl, ⟨rfl, rfl, rfl, rfl⟩, ?_, ?_, ?_, ?_, ?_, fun _ => hnone, ?_, ?_, hcaFreed,
      hdevFreed⟩
    all_goals rw [hr]
    all_goals first | rfl | (rw [hexit]; rfl) | nofun
  | exiting =>
    obtain ⟨htca, -⟩ := htouch (by rw [hr]; rfl)
    simp only [hr, htca, Option.some.injEq] at h
    subst h
    have hheld : s.removeMutex.toNat = 1 := by
      have := s.removeMutex.toNat_le
      rw [hr] at hmutex
      simp only [ReleasePc.mutex] at hmutex
      omega
    refine ⟨.unlocked, rfl, ⟨rfl, rfl, rfl, rfl⟩, ?_, ?_, ?_, ?_, ?_, ?_, ?_, ?_, hcaFreed,
      hdevFreed⟩
    all_goals rw [hr]
    all_goals first | rfl | (rw [hheld]; rfl) | nofun
  | unlocked =>
    obtain ⟨htca, htdev⟩ := htouch (by rw [hr]; rfl)
    simp only [hr, htca, htdev, Option.some.injEq] at h
    subst h
    by_cases husers : s.users < 1
    · rw [if_pos husers]
      exact ⟨.waiting, hs.releases_same (by rw [hr]; rfl) (by rw [hr]; rfl) (by rw [hr]; rfl)
        (by rw [hr]; rfl) (by rw [hr]; rfl) (by rw [hr]; nofun)⟩
    · rw [if_neg husers]
      have hnone := hall (hc rfl (.inl ⟨hr, by omega⟩)) (by omega)
      exact ⟨.passed, hs.releases_same (by rw [hr]; rfl) (by rw [hr]; rfl) (by rw [hr]; rfl)
        (by rw [hr]; rfl) (by rw [hr]; rfl) fun _ => hnone⟩
  | waiting =>
    obtain ⟨htca, htdev⟩ := htouch (by rw [hr]; rfl)
    simp only [hr, htca, htdev, Option.some.injEq] at h
    subst h
    by_cases husers : s.users = 1
    · rw [if_pos husers]
      have hnone := hall (hc rfl (.inr ⟨hr, husers⟩)) (by omega)
      exact ⟨.passed, hs.releases_same (by rw [hr]; rfl) (by rw [hr]; rfl) (by rw [hr]; rfl)
        (by rw [hr]; rfl) (by rw [hr]; rfl) fun _ => hnone⟩
    · rw [if_neg husers]
      exact ⟨.waiting, hs.releases_same (by rw [hr]) (by rw [hr]) (by rw [hr])
        (by rw [hr]) (by rw [hr]) (by rw [hr]; nofun)⟩
  | passed =>
    obtain ⟨htca, -⟩ := htouch (by rw [hr]; rfl)
    simp only [hr, htca, Option.some.injEq] at h
    subst h
    exact ⟨.stopped, hs.releases_same (by rw [hr]; rfl) (by rw [hr]; rfl) (by rw [hr]; rfl)
      (by rw [hr]; rfl) (by rw [hr]; rfl) (by rw [hr]; nofun)⟩
  | stopped =>
    obtain ⟨htca, -⟩ := htouch (by rw [hr]; rfl)
    simp only [hr, htca, Option.some.injEq] at h
    subst h
    exact ⟨.shutDown, hs.releases_same (by rw [hr]; rfl) (by rw [hr]; rfl) (by rw [hr]; rfl)
      (by rw [hr]; rfl) (by rw [hr]; rfl) (by rw [hr]; nofun)⟩
  | shutDown =>
    obtain ⟨htca, htdev⟩ := htouch (by rw [hr]; rfl)
    simp only [hr, htca, htdev] at h
    split_ifs at h with hfree
    rw [Bool.not_eq_true] at hfree
    cases h
    have hsem := hs.sem
    rw [hfree] at hsem
    have hminors := hs.minors
    rw [hr] at hminors
    refine ⟨.unlisted, rfl, ⟨rfl, rfl, rfl, rfl⟩, ?_, ?_, ?_, ?_, ?_, ?_, ?_, fun _ => hsem.symm,
      hcaFreed, hdevFreed⟩
    all_goals rw [hr]
    all_goals first | rfl | exact hminors.symm | nofun
  | unlisted =>
    obtain ⟨-, htdev⟩ := htouch (by rw [hr]; rfl)
    simp only [hr, putDev, htdev, Option.some.injEq] at h
    subst h
    rw [hr] at hca hdev
    simp only [ReleasePc.ca, ReleasePc.minor] at hca hdev
    refine ⟨.dropped, rfl, ⟨rfl, rfl, rfl, rfl⟩, by rw [hr]; rfl, ?_, by rw [hr]; rfl,
      by rw [hr]; rfl, by rw [hr]; rfl, by rw [hr]; nofun, by rw [hr]; nofun, by rw [hr]; nofun,
      hcaFreed, ?_⟩
    · simp only [at', hr, ReleasePc.minor]
      omega
    · simp only [at']
      split_ifs <;> omega
  | dropped =>
    obtain ⟨-, htdev⟩ := htouch (by rw [hr]; rfl)
    simp only [hr, htdev, Option.some.injEq] at h
    subst h
    exact ⟨.removed, hs.releases_same (by rw [hr]; rfl) (by rw [hr]; rfl) (by rw [hr]; rfl)
      (by rw [hr]; rfl) (by rw [hr]; rfl) (by rw [hr]; nofun)⟩
  | removed =>
    -- no file has a reference left: this is the last one
    have hnone := hs.no_refs (by rw [hr]; rfl)
    obtain ⟨htca, htdev⟩ := htouch (by rw [hr]; rfl)
    rw [hr] at hca hdev
    simp only [ReleasePc.ca, ReleasePc.minor] at hca hdev
    have hlast : s.caRef - 1 = 0 := by omega
    have hfree : ({ s with caRef := s.caRef - 1 } : CaDevice ι).touchDev =
        { s with caRef := s.caRef - 1 } := touchDev_eq (by simp only; omega)
    simp only [hr, Option.some.injEq] at h
    simp only [putCa, htca, if_pos hlast, freeCa, putDev, hfree] at h
    subst h
    refine ⟨.done, rfl, ⟨rfl, rfl, rfl, rfl⟩, ?_, ?_, by rw [hr]; rfl, by rw [hr]; rfl,
      by rw [hr]; rfl, by rw [hr]; nofun, by rw [hr]; nofun, by rw [hr]; nofun, ?_, ?_⟩
    · simp only [at', hr, ReleasePc.ca]
      omega
    · simp only [at', hr, ReleasePc.minor]
      omega
    · simp only [at']
      omega
    · simp only [at']
      split_ifs <;> omega
  | done => simp [hr] at h

/-! ### Runs -/

theorem CaDevice.Inv.step {c : CaStep ι} (hs : s.Inv) (hc : c.Orderly s)
    (h : s.step c = some s') : s'.Inv := by
  cases c with
  | openFile i rdonly => exact hs.openFile h
  | closeFile i => exact hs.closeFile h
  | next i ok => exact hs.fileStep h
  | release => exact hs.releaseStep hc h

omit [DecidableEq ι] in
theorem CaDevice.Inv.init : (CaDevice.init : CaDevice ι).Inv := by
  have hzero : ∀ share : CaPc → ℕ, share .idle = 0 → total share (fun _ : ι => CaPc.idle) = 0 :=
    fun share h => total_eq_zero.mpr fun _ => h
  refine ⟨?_, ?_, ?_, ?_, ?_, ?_, rfl, rfl, nofun, nofun, nofun, rfl, rfl, rfl⟩
  all_goals simp only [CaDevice.init, hzero CaPc.ca rfl, hzero CaPc.dev rfl, hzero CaPc.user rfl,
    hzero CaPc.taking rfl, hzero CaPc.mutex rfl, hzero CaPc.sem rfl]
  all_goals decide

/-- The states of the runs whose steps all meet `ok`. -/
inductive CaRun (ok : CaStep ι → CaDevice ι → Prop) : CaDevice ι → Prop where
  | init : CaRun ok .init
  | step {s s' : CaDevice ι} {c : CaStep ι} (run : CaRun ok s) (hok : ok c s)
      (h : s.step c = some s') : CaRun ok s'

theorem CaRun.inv (h : CaRun CaStep.Orderly s) : s.Inv := by
  induction h with
  | init => exact CaDevice.Inv.init
  | step _ hok hstep ih => exact ih.step hok hstep

/-- The device outlives its users: nothing is used after it was freed; nothing is freed twice, or
    before the release is done and every file closed; and then both objects are freed. -/
structure CaDevice.Outlives (s : CaDevice ι) : Prop where
  safe : s.faulted = false
  once : s.caFreed ≤ 1 ∧ s.devFreed ≤ 1
  late : 0 < s.caFreed ∨ 0 < s.devFreed →
    s.release = .done ∧ ∀ i, s.pc i = .idle ∨ s.pc i = .failed
  freed : s.release = .done → (∀ i, s.pc i = .idle) → s.caFreed = 1 ∧ s.devFreed = 1

omit [DecidableEq ι] in
theorem CaDevice.Inv.outlives (hs : s.Inv) : s.Outlives := by
  have hca := hs.ca
  have hdev := hs.dev
  have hcaFreed := hs.caFreed
  have hdevFreed := hs.devFreed
  refine ⟨hs.safe, ⟨by omega, by omega⟩, fun hfreed => ?_, fun hdone hidle => ?_⟩
  · have hnone : s.release.ca = 0 := by omega
    have hdone : s.release = .done := by
      cases hr : s.release <;> rw [hr] at hnone <;> first | rfl | cases hnone
    refine ⟨hdone, fun i => ?_⟩
    obtain ⟨huser, hending⟩ := hs.drained (by rw [hdone]; rfl)
    have hsem := hs.gone (by rw [hdone]; rfl)
    exact CaPc.away (total_eq_zero.mp hsem i) (total_eq_zero.mp huser i)
      (total_eq_zero.mp hending i)
  · have hnone : ∀ share : CaPc → ℕ, share .idle = 0 → total share s.pc = 0 :=
      fun share h => total_eq_zero.mpr fun i => by rw [hidle i, h]
    rw [hdone, hnone CaPc.ca rfl] at hca
    rw [hdone, hnone CaPc.dev rfl] at hdev
    simp only [ReleasePc.ca, ReleasePc.minor] at hca hdev
    omega

/-- In every run of one release with any number of opens and closes in which the release finds the
    users back only when no close is still under way, the CA device outlives its users. -/
theorem ca_device_outlives (s : CaDevice ι) (hrun : CaRun CaStep.Orderly s) : s.Outlives :=
  hrun.inv.outlives

instance (c : CaStep ι) (s : CaDevice ι) : Decidable (c.Orderly s) :=
  inferInstanceAs (Decidable (_ → _ → ∀ _, _))

/-- The state a series of steps leads to, if each of them can be made and meets `ok`. -/
def CaDevice.steps (ok : CaStep ι → CaDevice ι → Prop) [∀ c s, Decidable (ok c s)] :
    List (CaStep ι) → CaDevice ι → Option (CaDevice ι)
  | [], s => some s
  | c :: cs, s => if ok c s then (s.step c).bind (CaDevice.steps ok cs) else none

omit [Fintype ι] in
theorem CaRun.steps {ok : CaStep ι → CaDevice ι → Prop} [∀ c s, Decidable (ok c s)] :
    ∀ (cs : List (CaStep ι)) {s s' : CaDevice ι}, CaRun ok s → s.steps ok cs = some s' → CaRun ok s'
  | [], s, s', hs, h => by
    cases h
    exact hs
  | c :: cs, s, s', hs, h => by
    rw [CaDevice.steps] at h
    split_ifs at h with hok
    obtain ⟨t, ht, hrest⟩ := Option.bind_eq_some_iff.mp h
    exact CaRun.steps cs (hs.step hok ht) hrest

def onlyFile : Fin 1 := ⟨0, Nat.one_pos⟩

/-- A file is opened and closed, and then the device is released. -/
def openCloseRelease : List (CaStep (Fin 1)) :=
  .openFile onlyFile false :: List.replicate 9 (.next onlyFile true) ++
    .closeFile onlyFile :: List.replicate 9 (.next onlyFile true) ++ List.replicate 10 .release

theorem ca_device_outlives_once : ∃ s, CaDevice.steps CaStep.Orderly openCloseRelease .init = some s ∧
    s.release = .done ∧ s.Outlives := by
  have hdone : (CaDevice.steps CaStep.Orderly openCloseRelease .init).any
      fun s => s.release = .done := by decide +kernel
  obtain ⟨s, hs, hrel⟩ := (Option.any_eq_true _ _).mp hdone
  exact ⟨s, hs, of_decide_eq_true hrel, ca_device_outlives s (CaRun.init.steps _ hs)⟩

/-- The release starts while a file is open and waits; the close adds its user back, the release
    runs to its end, and the close drops the last reference and reads on. -/
def releaseDuringClose : List (CaStep (Fin 1)) :=
  .openFile onlyFile false :: List.replicate 9 (.next onlyFile true) ++
    List.replicate 4 .release ++ .closeFile onlyFile :: List.replicate 3 (.next onlyFile true) ++
      List.replicate 7 .release ++ List.replicate 4 (.next onlyFile true)

theorem ca_device_used_after_free :
    ¬ ∀ s : CaDevice (Fin 1), CaRun (fun _ _ => True) s → s.Outlives := by
  intro hclaim
  have hfault : (CaDevice.steps (fun _ _ => True) releaseDuringClose .init).any
      fun s => s.faulted := by decide +kernel
  obtain ⟨s, hs, hbad⟩ := (Option.any_eq_true _ _).mp hfault
  have hsafe := (hclaim s (CaRun.init.steps _ hs)).safe
  rw [hbad] at hsafe
  cases hsafe

end Dvb

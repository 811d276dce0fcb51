import Mathlib.Data.Int.Notation
import Mathlib.Logic.Function.Basic
import Mathlib.Data.List.Basic
import Mathlib.Data.List.Nodup
import Mathlib.Tactic.Common

/-! The device registry (`neumo-dvbdev.c`), as it is built: with `CONFIG_DVB_DYNAMIC_MINORS`.

    A device that is registered stands in the table of the minors and on the list of its adapter, and
    uses a copy of its template's file operations, which it shares with the devices that the same
    module registered from the same template. Devices and file operations are known by the place that
    was allocated for them. -/

namespace Dvb.Devices

/-- `MAX_DVB_MINORS` -/
def maxDvbMinors : ℕ := 256
def dvbMaxIds : ℕ := maxDvbMinors

def enfile : ℤ := 23
def enomem : ℤ := 12
def einval : ℤ := 22

/-- `enum dvb_device_type` -/
inductive DvbDeviceType where
  | sec
  | frontend
  | demux
  | dvr
  | ca
  | net
  | video
  | audio
  | osd
  deriving DecidableEq

/-- `struct dvb_device` -/
structure DvbDevice (ι : Type) where
  ref : ℕ
  fops : ℕ
  adapter : ι
  type : DvbDeviceType
  minor : ℕ
  id : ℕ

/-- `struct dvbdevfops_node`; `owner` is the module in the file operations. -/
structure DvbdevfopsNode (μ τ : Type) where
  fops : ℕ
  owner : μ
  type : DvbDeviceType
  template : τ

/-- `dvb_minors`, the lists of the adapters, `dvbdevfops_list`, and the devices that have not been
    freed; from `next` on nothing was allocated yet. -/
structure Registry (ι μ τ : Type) where
  minors : ℕ → Option ℕ
  deviceList : ι → List ℕ
  fopsList : List (DvbdevfopsNode μ τ)
  device : ℕ → Option (DvbDevice ι)
  next : ℕ

/-- The arguments of `dvb_register_device`, with the module of the adapter. -/
structure Request (ι μ τ : Type) where
  adap : ι
  module : μ
  template : τ
  type : DvbDeviceType

/-- Which allocations of a registration succeed: the device, the copy of the file operations and its
    node. -/
structure Allocs where
  dvbdev : Bool
  fops : Bool
  node : Bool

/-- What `dvb_register_media_device` and `device_create` return; 0 is no error. -/
structure Outcome where
  media : ℤ
  clsdev : ℤ

/-- The local variables of a registration whose device has its minor. -/
structure Entered (ι : Type) where
  dvbdev : ℕ
  adap : ι
  newNode : Option ℕ

variable {ι μ τ : Type} [DecidableEq ι] [DecidableEq μ] [DecidableEq τ]

namespace Registry
variable (s : Registry ι μ τ) (r : Request ι μ τ) (allocs : Allocs)

/-- A device of this type and id is on the list of the adapter. -/
def UsesId (adap : ι) (type : DvbDeviceType) (id : ℕ) : Prop :=
  ∃ d ∈ s.deviceList adap, ∃ dev ∈ s.device d, dev.type = type ∧ dev.id = id

instance (adap : ι) (type : DvbDeviceType) (id : ℕ) : Decidable (s.UsesId adap type id) :=
  inferInstanceAs (Decidable (∃ d ∈ s.deviceList adap, ∃ dev ∈ s.device d, _))

/-- `dvbdev_get_free_id` -/
def dvbdevGetFreeId (adap : ι) (type : DvbDeviceType) : Option ℕ :=
  (List.range dvbMaxIds).find? fun id => ¬s.UsesId adap type id

/-- The first minor that is free. -/
def freeMinor : Option ℕ := (List.range maxDvbMinors).find? fun minor => (s.minors minor).isNone

/-- The node of the file operations to share. -/
def sharedNode : Option (DvbdevfopsNode μ τ) :=
  s.fopsList.find? fun node => node.owner = r.module ∧ node.type = r.type ∧ node.template = r.template

/-- The file operations of a new device, with the node that was added for them, if any. -/
def shareFops : Option (ℕ × Option ℕ × Registry ι μ τ) :=
  match s.sharedNode r with
  | some node => some (node.fops, none, s)
  | none =>
    if allocs.fops ∧ allocs.node then
      some (s.next, some s.next, { s with
        fopsList := s.fopsList ++ [⟨s.next, r.module, r.type, r.template⟩]
        next := s.next + 1 })
    else none

/-- What every exit of `dvb_register_device` behind the list of the adapter undoes. -/
def undo (e : Entered ι) : Registry ι μ τ where
  minors := s.minors
  deviceList := Function.update s.deviceList e.adap ((s.deviceList e.adap).erase e.dvbdev)
  fopsList :=
    match e.newNode with
    | none => s.fopsList
    | some fops => s.fopsList.filter fun node => node.fops ≠ fops
  device := Function.update s.device e.dvbdev none
  next := s.next

/-- `dvb_register_device` until the device has its minor. -/
def enter : Except ℤ (Entered ι) × Registry ι μ τ :=
  match s.dvbdevGetFreeId r.adap r.type with
  | none => (.error (-enfile), s)
  | some id =>
    if ¬allocs.dvbdev then (.error (-enomem), s)
    else
      let dvbdev := s.next
      match { s with next := s.next + 1 }.shareFops r allocs with
      | none => (.error (-enomem), { s with next := s.next + 1 })
      | some (fops, newNode, s) =>
        let s := { s with
          deviceList := Function.update s.deviceList r.adap (s.deviceList r.adap ++ [dvbdev]) }
        match s.freeMinor with
        | none => (.error (-einval), s.undo ⟨dvbdev, r.adap, newNode⟩)
        | some minor =>
          -- one reference is the driver's, the other one that of the table
          let dev := ⟨2, fops, r.adap, r.type, minor, id⟩
          (.ok ⟨dvbdev, r.adap, newNode⟩, { s with
            minors := Function.update s.minors minor (some dvbdev)
            device := Function.update s.device dvbdev (some dev) })

/-- `dvb_register_device` from `dvb_register_media_device` on. -/
def finish (e : Entered ι) (outcome : Outcome) : ℤ × Registry ι μ τ :=
  if outcome.media ≠ 0 then (outcome.media, s.undo e)
  else if outcome.clsdev ≠ 0 then (outcome.clsdev, s.undo e)
  else (0, s)

def dvbRegisterDevice (outcome : Outcome) : ℤ × Registry ι μ τ :=
  match s.enter r allocs with
  | (.error err, s) => (err, s)
  | (.ok e, s) => s.finish e outcome

/-- `dvb_device_get` -/
def get (d : ℕ) : Registry ι μ τ :=
  match s.device d with
  | none => s
  | some dev => { s with device := Function.update s.device d (some { dev with ref := dev.ref + 1 }) }

/-- `dvb_device_put`; the last reference frees the device. -/
def put (d : ℕ) : Registry ι μ τ :=
  match s.device d with
  | none => s
  | some dev =>
    let dev := if dev.ref = 1 then none else some { dev with ref := dev.ref - 1 }
    { s with device := Function.update s.device d dev }

/-- `dvb_remove_device` under `minor_rwsem` -/
def removeMinor (d : ℕ) : Registry ι μ τ :=
  match s.device d with
  | none => s
  | some dev => { s with minors := Function.update s.minors dev.minor none }.put d

/-- The end of `dvb_remove_device`: the device leaves the list of its adapter. -/
def unlist (d : ℕ) : Registry ι μ τ :=
  match s.device d with
  | none => s
  | some dev => { s with
      deviceList := Function.update s.deviceList dev.adapter ((s.deviceList dev.adapter).erase d) }

def dvbRemoveDevice (d : ℕ) : Registry ι μ τ := (s.removeMinor d).unlist d

def dvbUnregisterDevice (d : ℕ) : Registry ι μ τ := (s.dvbRemoveDevice d).put d

/-- What a registration may change. -/
def SameTables (s s' : Registry ι μ τ) : Prop :=
  s'.minors = s.minors ∧ s'.deviceList = s.deviceList ∧ s'.fopsList = s.fopsList

/-- A registration fails before its device has a minor. -/
def Early : Prop :=
  s.dvbdevGetFreeId r.adap r.type = none ∨ allocs.dvbdev = false ∨
    s.sharedNode r = none ∧ (allocs.fops = false ∨ allocs.node = false) ∨ s.freeMinor = none

/-- No table has what was not allocated yet. -/
structure Fresh : Prop where
  minors : ∀ m, ∀ d ∈ s.minors m, d < s.next
  deviceList : ∀ a, ∀ d ∈ s.deviceList a, d < s.next
  fopsList : ∀ node ∈ s.fopsList, node.fops < s.next
  device : ∀ d, s.next ≤ d → s.device d = none

end Registry

/-! ### The system -/

/-- How far a device has come: entered in the tables, registered, without its minor, and off the list
    but with the reference of its driver. -/
inductive Phase where
  | away
  | entered
  | registered
  | unlinked
  | removed
  deriving DecidableEq

namespace Phase

/-- The references of the driver and of the table. -/
def refs : Phase → ℕ
  | away => 0
  | entered | registered => 2
  | unlinked | removed => 1

/-- The device is in the table of the minors. -/
def HasMinor (p : Phase) : Prop := p = entered ∨ p = registered

/-- The device is on the list of its adapter. -/
def Listed (p : Phase) : Prop := p = entered ∨ p = registered ∨ p = unlinked

end Phase

/-- The registry, the registration that has `dvbdev_register_lock`, how far every device has come, and
    how many open files it has. -/
structure System (ι μ τ : Type) where
  reg : Registry ι μ τ
  pending : Option (Entered ι)
  phase : ℕ → Phase
  files : ℕ → ℕ

namespace System

/-- A step: a part of a registration or of a removal, or an open or a close. Drivers remove what they
    registered, once. -/
inductive Step (s : System ι μ τ) : Option Outcome → System ι μ τ → Prop where
  | refused {r : Request ι μ τ} {allocs : Allocs} {err : ℤ} {reg : Registry ι μ τ}
      (hlock : s.pending = none) (henter : s.reg.enter r allocs = (.error err, reg)) :
      Step s none { s with reg := reg }
  | entered {r : Request ι μ τ} {allocs : Allocs} {e : Entered ι} {reg : Registry ι μ τ}
      (hlock : s.pending = none) (henter : s.reg.enter r allocs = (.ok e, reg)) :
      Step s none { s with
        reg := reg, pending := some e, phase := Function.update s.phase e.dvbdev .entered }
  | finished {e : Entered ι} {outcome : Outcome} {reg : Registry ι μ τ} (hlock : s.pending = some e)
      (hfinish : s.reg.finish e outcome = (0, reg)) :
      Step s (some outcome) { s with
        reg := reg, pending := none, phase := Function.update s.phase e.dvbdev .registered }
  | failed {e : Entered ι} {outcome : Outcome} {err : ℤ} {reg : Registry ι μ τ}
      (hlock : s.pending = some e) (hfinish : s.reg.finish e outcome = (err, reg)) (herr : err ≠ 0) :
      Step s (some outcome) { s with
        reg := reg, pending := none, phase := Function.update s.phase e.dvbdev .away }
  | removeMinor {d : ℕ} (hphase : s.phase d = .registered) :
      Step s none { s with
        reg := s.reg.removeMinor d, phase := Function.update s.phase d .unlinked }
  | unlist {d : ℕ} (hphase : s.phase d = .unlinked) :
      Step s none { s with reg := s.reg.unlist d, phase := Function.update s.phase d .removed }
  | put {d : ℕ} (hphase : s.phase d = .removed) :
      Step s none { s with reg := s.reg.put d, phase := Function.update s.phase d .away }
  | open {minor d : ℕ} (hentry : s.reg.minors minor = some d) :
      Step s none { s with
        reg := s.reg.get d, files := Function.update s.files d (s.files d + 1) }
  | close {d : ℕ} (hopen : 0 < s.files d) :
      Step s none { s with
        reg := s.reg.put d, files := Function.update s.files d (s.files d - 1) }

/-- Before the first registration. -/
def init : System ι μ τ where
  reg :=
    { minors := fun _ => none, deviceList := fun _ => [], fopsList := [], device := fun _ => none
      next := 0 }
  pending := none
  phase _ := .away
  files _ := 0

/-- A run in which the outcomes behind the minor are all `ok`. -/
inductive Run (ok : Outcome → Prop) : System ι μ τ → Prop where
  | init : Run ok init
  | step {s s' : System ι μ τ} {outcome : Option Outcome} (h : Run ok s) (hs : Step s outcome s')
      (hok : ∀ o ∈ outcome, ok o) : Run ok s'

/-- Every entry of the table is a device with that minor on the list of its adapter, and an open finds
    it and its file operations where they were. -/
def Sound (s : System ι μ τ) : Prop :=
  ∀ minor d, s.reg.minors minor = some d → ∃ dev, s.reg.device d = some dev ∧ dev.minor = minor ∧
    d ∈ s.reg.deviceList dev.adapter ∧ ∃ node ∈ s.reg.fopsList, node.fops = dev.fops

end System

/-- Neither the media graph nor the class device fails. -/
def Outcome.Ok (o : Outcome) : Prop := o.media = 0 ∧ o.clsdev = 0

/-! ### A registration -/

variable {s s' : Registry ι μ τ} {r : Request ι μ τ} {allocs : Allocs} {outcome : Outcome}

omit [DecidableEq ι] [DecidableEq μ] [DecidableEq τ] in
theorem freeMinor_some {minor : ℕ} (h : s.freeMinor = some minor) : s.minors minor = none := by
  have hfound := List.find?_some h
  exact Option.isNone_iff_eq_none.mp hfound

theorem erase_append_new {l : List ℕ} {d : ℕ} (hnew : d ∉ l) : (l ++ [d]).erase d = l := by
  rw [List.erase_append_right _ hnew, List.erase_cons_head, List.append_nil]

/-- The node of new file operations is one that no table has. -/
inductive NewNode (s : Registry ι μ τ) : List (DvbdevfopsNode μ τ) → Option ℕ → Prop where
  | shared : NewNode s [] none
  | new {node : DvbdevfopsNode μ τ} (hnew : ∀ old ∈ s.fopsList, old.fops ≠ node.fops) :
    NewNode s [node] (some node.fops)

/-- A registration until its device has its minor: it fails and only takes up places, or the device
    is entered in the tables. -/
inductive EnterCase (s : Registry ι μ τ) (r : Request ι μ τ) (allocs : Allocs) :
    Except ℤ (Entered ι) × Registry ι μ τ → Prop where
  | early {err : ℤ} {next : ℕ} (hearly : s.Early r allocs) (herr : err ≠ 0) (hnext : s.next ≤ next) :
    EnterCase s r allocs (.error err, { s with next := next })
  | entered {nodes : List (DvbdevfopsNode μ τ)} {newNode : Option ℕ} {dev : DvbDevice ι} {next : ℕ}
      (hlate : ¬s.Early r allocs) (hfree : s.minors dev.minor = none) (hnodes : NewNode s nodes newNode)
      (hfops : ∃ node ∈ s.fopsList ++ nodes, node.fops = dev.fops) (hadap : dev.adapter = r.adap)
      (href : dev.ref = 2) (hnext : s.next < next) (hplace : ∀ node ∈ nodes, node.fops < next) :
    EnterCase s r allocs (.ok ⟨s.next, r.adap, newNode⟩,
      { minors := Function.update s.minors dev.minor (some s.next)
        deviceList := Function.update s.deviceList r.adap (s.deviceList r.adap ++ [s.next])
        fopsList := s.fopsList ++ nodes
        device := Function.update s.device s.next (some dev)
        next := next })

omit [DecidableEq μ] [DecidableEq τ] in
/-- Undoing a registration leaves the lists as they were, and everything else as it is. -/
theorem undo_entered (hfresh : s.Fresh) {nodes : List (DvbdevfopsNode μ τ)} {newNode : Option ℕ}
    (hnodes : NewNode s nodes newNode) (minors : ℕ → Option ℕ) (dev : Option (DvbDevice ι)) (next : ℕ) :
    Registry.undo
      { minors := minors
        deviceList := Function.update s.deviceList r.adap (s.deviceList r.adap ++ [s.next])
        fopsList := s.fopsList ++ nodes
        device := Function.update s.device s.next dev
        next := next } ⟨s.next, r.adap, newNode⟩ = { s with minors := minors, next := next } := by
  have hnew : s.next ∉ s.deviceList r.adap := fun hmem =>
    Nat.lt_irrefl _ (hfresh.deviceList r.adap s.next hmem)
  rw [Registry.undo]
  congr 1
  · dsimp only
    rw [Function.update_self, erase_append_new hnew, Function.update_idem, Function.update_eq_self]
  · cases hnodes with
    | shared => exact List.append_nil _
    | new hold =>
      dsimp only
      rw [List.filter_append, List.filter_eq_self.mpr fun node hnode => decide_eq_true (hold node hnode),
        List.filter_singleton]
      simp
  · dsimp only
    rw [Function.update_idem, ← hfresh.device s.next (Nat.le_refl _), Function.update_eq_self]

omit [DecidableEq ι] in
/-- The file operations are shared, or added, or there is no memory for them. -/
theorem shareFops_cases (hfresh : s.Fresh) (r : Request ι μ τ) (allocs : Allocs) :
    (s.shareFops r allocs = none ∧ s.sharedNode r = none ∧ (allocs.fops = false ∨ allocs.node = false)) ∨
    ∃ fops newNode nodes next, s.shareFops r allocs =
        some (fops, newNode, { s with fopsList := s.fopsList ++ nodes, next := next }) ∧
      ¬(s.sharedNode r = none ∧ (allocs.fops = false ∨ allocs.node = false)) ∧
      NewNode s nodes newNode ∧ (∃ node ∈ s.fopsList ++ nodes, node.fops = fops) ∧ s.next ≤ next ∧
      ∀ node ∈ nodes, node.fops < next := by
  rw [Registry.shareFops]
  cases hshared : s.sharedNode r with
  | some node =>
    refine .inr ⟨node.fops, none, [], s.next, ?_, ?_, .shared, ⟨node, ?_, rfl⟩, Nat.le_refl _, nofun⟩
    · dsimp only
      rw [List.append_nil]
    · rintro ⟨hno, -⟩
      cases hno
    · rw [List.append_nil]
      exact List.mem_of_find?_eq_some hshared
  | none =>
    by_cases hallocs : allocs.fops ∧ allocs.node
    · refine .inr ⟨s.next, _, [⟨s.next, r.module, r.type, r.template⟩], s.next + 1, if_pos hallocs, ?_,
        .new fun old hold => Nat.ne_of_lt (hfresh.fopsList old hold),
        ⟨_, List.mem_append_right _ (List.mem_singleton_self _), rfl⟩, Nat.le_succ _, ?_⟩
      · rintro ⟨-, hno | hno⟩
        · exact Bool.false_ne_true (hno.symm.trans hallocs.1)
        · exact Bool.false_ne_true (hno.symm.trans hallocs.2)
      · intro node hnode
        rw [List.mem_singleton.mp hnode]
        exact Nat.lt_succ_self _
    · refine .inl ⟨if_neg hallocs, rfl, ?_⟩
      rw [not_and_or] at hallocs
      exact hallocs.imp (by simp) (by simp)

theorem enter_case (hfresh : s.Fresh) (r : Request ι μ τ) (allocs : Allocs) :
    EnterCase s r allocs (s.enter r allocs) := by
  rw [Registry.enter]
  split
  · rename_i hid
    exact .early (.inl hid) (by decide) (Nat.le_refl _)
  rename_i id hid
  split
  · rename_i hdvbdev
    exact .early (.inr (.inl (by simpa using hdvbdev))) (by decide) (Nat.le_refl _)
  rename_i hdvbdev
  have hnext : Registry.Fresh { s with next := s.next + 1 } :=
    ⟨fun m d hd => Nat.lt_succ_of_lt (hfresh.minors m d hd),
      fun a d hd => Nat.lt_succ_of_lt (hfresh.deviceList a d hd),
      fun node hnode => Nat.lt_succ_of_lt (hfresh.fopsList node hnode),
      fun d hd => hfresh.device d (Nat.le_of_succ_le hd)⟩
  dsimp only
  rcases shareFops_cases hnext r allocs with ⟨hshare, hnone⟩ |
    ⟨fops, newNode, nodes, next, hshare, hsome, hnodes, hfops, hle, hplace⟩
  · rw [hshare]
    exact .early (.inr (.inr (.inl hnone))) (by decide) (Nat.le_succ _)
  rw [hshare]
  dsimp only
  have hnodes : NewNode s nodes newNode := by
    cases hnodes with
    | shared => exact .shared
    | new hnew => exact .new hnew
  split
  · rename_i hminor
    have hundo := @undo_entered _ _ _ _ s r hfresh nodes newNode hnodes s.minors none next
    rw [← hfresh.device s.next (Nat.le_refl _), Function.update_eq_self] at hundo
    rw [hundo]
    exact .early (.inr (.inr (.inr hminor))) (by decide) (Nat.le_of_succ_le hle)
  · rename_i minor hminor
    let dev : DvbDevice ι := ⟨2, fops, r.adap, r.type, minor, id⟩
    have href : dev.ref = 2 := rfl
    refine .entered ?_ (freeMinor_some hminor) hnodes hfops rfl href hle hplace
    rintro (hno | hno | hno | hno)
    · exact nomatch hid.symm.trans hno
    · exact hdvbdev (by simp [hno])
    · exact hsome hno
    · exact nomatch hminor.symm.trans hno

omit [DecidableEq μ] [DecidableEq τ] in
theorem finish_cases (s : Registry ι μ τ) (e : Entered ι) (outcome : Outcome) :
    (outcome.Ok ∧ s.finish e outcome = (0, s)) ∨
      ¬outcome.Ok ∧ ∃ err, err ≠ 0 ∧ s.finish e outcome = (err, s.undo e) := by
  rw [Registry.finish]
  by_cases hmedia : outcome.media = 0
  · by_cases hclsdev : outcome.clsdev = 0
    · refine .inl ⟨⟨hmedia, hclsdev⟩, ?_⟩
      rw [if_neg (not_not.mpr hmedia), if_neg (not_not.mpr hclsdev)]
    · refine .inr ⟨fun hok => hclsdev hok.2, outcome.clsdev, hclsdev, ?_⟩
      rw [if_neg (not_not.mpr hmedia), if_pos hclsdev]
  · exact .inr ⟨fun hok => hmedia hok.1, outcome.media, hmedia, if_pos hmedia⟩

/-- A registration that fails leaves the tables as they were exactly when it does not fail behind the
    minor. -/
theorem register_keeps_iff (hfresh : s.Fresh) (r : Request ι μ τ) (allocs : Allocs) (outcome : Outcome) :
    ((s.dvbRegisterDevice r allocs outcome).1 ≠ 0 →
      s.SameTables (s.dvbRegisterDevice r allocs outcome).2) ↔ outcome.Ok ∨ s.Early r allocs := by
  rw [Registry.dvbRegisterDevice]
  have hcase := enter_case hfresh r allocs
  generalize s.enter r allocs = entered at hcase ⊢
  cases hcase with
  | early hearly => exact iff_of_true (fun _ => ⟨rfl, rfl, rfl⟩) (.inr hearly)
  | @entered nodes newNode dev next hlate hfree hnodes =>
    dsimp only
    rcases finish_cases (_ : Registry ι μ τ) _ outcome with ⟨hok, hfinish⟩ | ⟨hfails, err, herr, hfinish⟩
    · rw [hfinish]
      exact iff_of_true (fun hno => absurd rfl hno) (.inl hok)
    · rw [hfinish, undo_entered hfresh hnodes]
      refine iff_of_false (fun hkeeps => ?_) (not_or.mpr ⟨hfails, hlate⟩)
      -- the minor still has the device that was freed
      have hminor := congrFun (hkeeps herr).1 dev.minor
      dsimp only at hminor
      rw [Function.update_self, hfree] at hminor
      cases hminor

/-! ### Runs -/

namespace System
variable {s s' : System ι μ τ}

/-- The tables, the devices and their references, as the phases and the open files say. -/
structure Inv (s : System ι μ τ) : Prop where
  fresh : s.reg.Fresh
  away : ∀ d, s.reg.next ≤ d → s.phase d = .away
  minor : ∀ m d, s.reg.minors m = some d →
    (s.phase d).HasMinor ∧ ∃ dev, s.reg.device d = some dev ∧ dev.minor = m
  listed : ∀ d dev, (s.phase d).Listed → s.reg.device d = some dev → d ∈ s.reg.deviceList dev.adapter
  list : ∀ a, ∀ d ∈ s.reg.deviceList a,
    (s.phase d).Listed ∧ ∃ dev, s.reg.device d = some dev ∧ dev.adapter = a
  nodup : ∀ a, (s.reg.deviceList a).Nodup
  alive : ∀ d, 0 < (s.phase d).refs + s.files d → ∃ dev, s.reg.device d = some dev
  refs : ∀ d dev, s.reg.device d = some dev → dev.ref = (s.phase d).refs + s.files d ∧ 0 < dev.ref
  fops : ∀ d dev, s.reg.device d = some dev → ∃ node ∈ s.reg.fopsList, node.fops = dev.fops
  pending : ∀ d, s.phase d = .entered ↔ ∃ e ∈ s.pending, e.dvbdev = d

omit [DecidableEq ι] [DecidableEq μ] [DecidableEq τ] in
theorem Inv.sound (h : s.Inv) : s.Sound := by
  intro minor d hentry
  obtain ⟨hphase, dev, hdev, hminor⟩ := h.minor minor d hentry
  have hlisted : (s.phase d).Listed := hphase.elim .inl fun hreg => .inr (.inl hreg)
  exact ⟨dev, hdev, hminor, h.listed d dev hlisted hdev, h.fops d dev hdev⟩

/-- The device with another count of references. -/
def counted (dev : DvbDevice ι) (refs : ℕ) : Option (DvbDevice ι) :=
  if refs = 0 then none else some { dev with ref := refs }

omit [DecidableEq ι] in
theorem counted_of_pos {dev : DvbDevice ι} {refs : ℕ} (h : 0 < refs) :
    counted dev refs = some { dev with ref := refs } :=
  if_neg (Nat.ne_of_gt h)

omit [DecidableEq ι] in
theorem counted_some {dev dev' : DvbDevice ι} {refs : ℕ} (h : counted dev refs = some dev') :
    0 < refs ∧ dev' = { dev with ref := refs } := by
  rw [counted] at h
  split at h
  · cases h
  · rename_i hne
    exact ⟨Nat.pos_of_ne_zero hne, (Option.some.inj h).symm⟩

omit [DecidableEq ι] [DecidableEq μ] [DecidableEq τ] in
theorem Inv.lt_next (h : s.Inv) {d : ℕ} {dev : DvbDevice ι} (hdev : s.reg.device d = some dev) :
    d < s.reg.next := by
  refine Nat.lt_of_not_le fun hle => ?_
  rw [h.fresh.device d hle] at hdev
  cases hdev

omit [DecidableEq ι] [DecidableEq μ] [DecidableEq τ] in
/-- A device goes on to another phase, or gets or loses an open file: it leaves the tables that it has
    no place in any more, and its references are counted anew. -/
theorem Inv.change (h : s.Inv) {d f : ℕ} {p : Phase} {dev : DvbDevice ι}
    (hdev : s.reg.device d = some dev) {minors : ℕ → Option ℕ} {lists : ι → List ℕ}
    {pending : Option (Entered ι)}
    (hminors : ∀ m x, minors m = some x → s.reg.minors m = some x ∧ (x = d → p.HasMinor))
    (hlists : ∀ a x, x ∈ lists a ↔ x ∈ s.reg.deviceList a ∧ (x = d → p.Listed))
    (hnodup : ∀ a, (lists a).Nodup) (hlisted : p.Listed → (s.phase d).Listed)
    (hpending : ∀ x, Function.update s.phase d p x = .entered ↔ ∃ e ∈ pending, e.dvbdev = x) :
    Inv ⟨⟨minors, lists, s.reg.fopsList,
      Function.update s.reg.device d (counted dev (p.refs + f)), s.reg.next⟩, pending,
      Function.update s.phase d p, Function.update s.files d f⟩ := by
  have hlt := h.lt_next hdev
  have hpos : p.Listed → 0 < p.refs + f := by
    rintro (rfl | rfl | rfl) <;> exact Nat.lt_of_lt_of_le (by decide) (Nat.le_add_right _ f)
  constructor
  · constructor
    · exact fun m x hx => h.fresh.minors m x (hminors m x hx).1
    · exact fun a x hx => h.fresh.deviceList a x ((hlists a x).mp hx).1
    · exact h.fresh.fopsList
    · intro x hx
      dsimp only at hx ⊢
      rw [Function.update_of_ne (Nat.ne_of_gt (Nat.lt_of_lt_of_le hlt hx)), h.fresh.device x hx]
  · intro x hx
    dsimp only at hx ⊢
    rw [Function.update_of_ne (Nat.ne_of_gt (Nat.lt_of_lt_of_le hlt hx)), h.away x hx]
  · intro m x hx
    dsimp only at hx ⊢
    obtain ⟨hold, hp⟩ := hminors m x hx
    obtain ⟨hphase, dev', hdev', hminor⟩ := h.minor m x hold
    by_cases heq : x = d
    · subst heq
      have hp := hp rfl
      rw [Function.update_self, Function.update_self,
        counted_of_pos (hpos (hp.elim .inl fun hreg => .inr (.inl hreg)))]
      rw [hdev, Option.some.injEq] at hdev'
      exact ⟨hp, _, rfl, hdev' ▸ hminor⟩
    · rw [Function.update_of_ne heq, Function.update_of_ne heq]
      exact ⟨hphase, dev', hdev', hminor⟩
  · intro x dev' hx hdev'
    dsimp only at hx hdev' ⊢
    by_cases heq : x = d
    · subst heq
      rw [Function.update_self] at hx hdev'
      rw [(counted_some hdev').2]
      exact (hlists _ _).mpr ⟨h.listed x dev (hlisted hx) hdev, fun _ => hx⟩
    · rw [Function.update_of_ne heq] at hx hdev'
      exact (hlists _ _).mpr ⟨h.listed x dev' hx hdev', fun hno => absurd hno heq⟩
  · intro a x hx
    dsimp only at hx ⊢
    obtain ⟨hold, hp⟩ := (hlists a x).mp hx
    obtain ⟨hphase, dev', hdev', hadap⟩ := h.list a x hold
    by_cases heq : x = d
    · subst heq
      rw [Function.update_self, Function.update_self, counted_of_pos (hpos (hp rfl))]
      rw [hdev, Option.some.injEq] at hdev'
      exact ⟨hp rfl, _, rfl, hdev' ▸ hadap⟩
    · rw [Function.update_of_ne heq, Function.update_of_ne heq]
      exact ⟨hphase, dev', hdev', hadap⟩
  · exact hnodup
  · intro x hx
    dsimp only at hx ⊢
    by_cases heq : x = d
    · subst heq
      rw [Function.update_self, Function.update_self] at hx
      rw [Function.update_self, counted_of_pos hx]
      exact ⟨_, rfl⟩
    · rw [Function.update_of_ne heq, Function.update_of_ne heq] at hx
      rw [Function.update_of_ne heq]
      exact h.alive x hx
  · intro x dev' hx
    dsimp only at hx ⊢
    by_cases heq : x = d
    · subst heq
      rw [Function.update_self] at hx
      obtain ⟨hrefs, rfl⟩ := counted_some hx
      rw [Function.update_self, Function.update_self]
      exact ⟨rfl, hrefs⟩
    · rw [Function.update_of_ne heq] at hx
      rw [Function.update_of_ne heq, Function.update_of_ne heq]
      exact h.refs x dev' hx
  · intro x dev' hx
    dsimp only at hx ⊢
    by_cases heq : x = d
    · subst heq
      rw [Function.update_self] at hx
      obtain ⟨-, rfl⟩ := counted_some hx
      exact h.fops x dev hdev
    · rw [Function.update_of_ne heq] at hx
      exact h.fops x dev' hx
  · exact hpending

omit [DecidableEq ι] [DecidableEq μ] [DecidableEq τ] in
theorem Inv.same_minors (h : s.Inv) {d : ℕ} (m x : ℕ) (hx : s.reg.minors m = some x) :
    s.reg.minors m = some x ∧ (x = d → (s.phase d).HasMinor) :=
  ⟨hx, fun heq => heq ▸ (h.minor m x hx).1⟩

omit [DecidableEq ι] [DecidableEq μ] [DecidableEq τ] in
theorem Inv.same_lists (h : s.Inv) {d : ℕ} (a : ι) (x : ℕ) :
    x ∈ s.reg.deviceList a ↔ x ∈ s.reg.deviceList a ∧ (x = d → (s.phase d).Listed) :=
  ⟨fun hx => ⟨hx, fun heq => heq ▸ (h.list a x hx).1⟩, And.left⟩

omit [DecidableEq ι] [DecidableEq μ] [DecidableEq τ] in
theorem put_eq {reg : Registry ι μ τ} {d refs : ℕ} {dev : DvbDevice ι} (hdev : reg.device d = some dev)
    (href : dev.ref = refs + 1) :
    reg.put d = { reg with device := Function.update reg.device d (counted dev refs) } := by
  rw [Registry.put, hdev]
  dsimp only
  rw [counted, href, Nat.add_sub_cancel]
  congr 2
  simp

omit [DecidableEq ι] [DecidableEq μ] [DecidableEq τ] in
theorem get_eq {reg : Registry ι μ τ} {d : ℕ} {dev : DvbDevice ι} (hdev : reg.device d = some dev) :
    reg.get d = { reg with device := Function.update reg.device d (counted dev (dev.ref + 1)) } := by
  rw [Registry.get, hdev, counted_of_pos (Nat.succ_pos _)]

omit [DecidableEq ι] [DecidableEq μ] [DecidableEq τ] in
theorem counted_same {reg : Registry ι μ τ} {d refs : ℕ} {dev : DvbDevice ι}
    (hdev : reg.device d = some dev) (href : dev.ref = refs) (hpos : 0 < refs) :
    Function.update reg.device d (counted dev refs) = reg.device := by
  rw [counted_of_pos hpos, ← href, ← hdev, Function.update_eq_self]

omit [DecidableEq ι] [DecidableEq μ] [DecidableEq τ] in
/-- A change of phase that has nothing to do with a registration. -/
theorem Inv.pending_other (h : s.Inv) {d : ℕ} {p : Phase} (hp : p ≠ .entered)
    (hd : s.phase d ≠ .entered) (x : ℕ) :
    Function.update s.phase d p x = .entered ↔ ∃ e ∈ s.pending, e.dvbdev = x := by
  rw [← h.pending]
  by_cases heq : x = d
  · rw [heq, Function.update_self]
    exact iff_of_false hp hd
  · rw [Function.update_of_ne heq]

omit [DecidableEq ι] [DecidableEq μ] [DecidableEq τ] in
theorem Inv.removeMinor (h : s.Inv) {d : ℕ} (hphase : s.phase d = .registered) :
    Inv { s with reg := s.reg.removeMinor d, phase := Function.update s.phase d .unlinked } := by
  obtain ⟨dev, hdev⟩ := h.alive d (by rw [hphase]; exact Nat.lt_add_right _ (by decide))
  have href : dev.ref = 1 + s.files d + 1 := by
    rw [(h.refs d dev hdev).1, hphase, Phase.refs]
    omega
  have hchange := @Inv.change _ _ _ s h d (s.files d) .unlinked dev hdev
    (Function.update s.reg.minors dev.minor none) s.reg.deviceList s.pending ?_ ?_ h.nodup ?_ ?_
  · rw [Function.update_eq_self] at hchange
    rw [Registry.removeMinor, hdev]
    have hput : Registry.put { s.reg with minors := Function.update s.reg.minors dev.minor none } d =
        _ := put_eq hdev href
    dsimp only
    rw [hput]
    exact hchange
  · intro m x hx
    by_cases heq : m = dev.minor
    · rw [heq, Function.update_self] at hx
      cases hx
    · rw [Function.update_of_ne heq] at hx
      refine ⟨hx, ?_⟩
      rintro rfl
      obtain ⟨-, dev', hdev', hminor⟩ := h.minor m x hx
      rw [hdev, Option.some.injEq] at hdev'
      exact absurd (hdev' ▸ hminor.symm) heq
  · exact fun a x => ⟨fun hx => ⟨hx, fun _ => .inr (.inr rfl)⟩, And.left⟩
  · exact fun _ => hphase ▸ .inr (.inl rfl)
  · exact h.pending_other nofun (by rw [hphase]; exact nofun)

omit [DecidableEq μ] [DecidableEq τ] in
theorem Inv.unlist (h : s.Inv) {d : ℕ} (hphase : s.phase d = .unlinked) :
    Inv { s with reg := s.reg.unlist d, phase := Function.update s.phase d .removed } := by
  obtain ⟨dev, hdev⟩ := h.alive d (by rw [hphase]; exact Nat.lt_add_right _ (by decide))
  have href : dev.ref = 1 + s.files d := by rw [(h.refs d dev hdev).1, hphase, Phase.refs]
  have hchange := @Inv.change _ _ _ s h d (s.files d) .removed dev hdev s.reg.minors
    (Function.update s.reg.deviceList dev.adapter ((s.reg.deviceList dev.adapter).erase d)) s.pending
    ?_ ?_ ?_ ?_ ?_
  · rw [Function.update_eq_self, Phase.refs, counted_same hdev href (by omega)] at hchange
    rw [Registry.unlist, hdev]
    exact hchange
  · intro m x hx
    refine ⟨hx, ?_⟩
    rintro rfl
    rcases (h.minor m x hx).1 with hno | hno <;> exact nomatch hphase.symm.trans hno
  · intro a x
    have hmem : x ∈ s.reg.deviceList a → x = d → a = dev.adapter := by
      rintro hx rfl
      obtain ⟨-, dev', hdev', hadap⟩ := h.list a x hx
      rw [hdev, Option.some.injEq] at hdev'
      exact hdev' ▸ hadap.symm
    by_cases heq : a = dev.adapter
    · rw [heq, Function.update_self, (h.nodup _).mem_erase_iff]
      refine ⟨fun hx => ⟨hx.2, fun hno => absurd hno hx.1⟩, fun hx => ⟨fun hno => ?_, hx.1⟩⟩
      rcases hx.2 hno with hl | hl | hl <;> cases hl
    · rw [Function.update_of_ne heq]
      exact ⟨fun hx => ⟨hx, fun hno => absurd (hmem hx hno) heq⟩, And.left⟩
  · intro a
    by_cases heq : a = dev.adapter
    · rw [heq, Function.update_self]
      exact (h.nodup _).erase d
    · rw [Function.update_of_ne heq]
      exact h.nodup a
  · rintro (hl | hl | hl) <;> cases hl
  · exact h.pending_other nofun (by rw [hphase]; exact nofun)

omit [DecidableEq ι] [DecidableEq μ] [DecidableEq τ] in
theorem Inv.put (h : s.Inv) {d : ℕ} (hphase : s.phase d = .removed) :
    Inv { s with reg := s.reg.put d, phase := Function.update s.phase d .away } := by
  obtain ⟨dev, hdev⟩ := h.alive d (by rw [hphase]; exact Nat.lt_add_right _ (by decide))
  have href : dev.ref = 0 + s.files d + 1 := by
    rw [(h.refs d dev hdev).1, hphase, Phase.refs]
    omega
  have hlists (a : ι) (x : ℕ) : x ∈ s.reg.deviceList a ↔
      x ∈ s.reg.deviceList a ∧ (x = d → Phase.away.Listed) := by
    refine ⟨fun hx => ⟨hx, ?_⟩, And.left⟩
    rintro rfl
    rcases (h.list a x hx).1 with hl | hl | hl <;> exact nomatch hphase.symm.trans hl
  have hminors (m x : ℕ) (hx : s.reg.minors m = some x) :
      s.reg.minors m = some x ∧ (x = d → Phase.away.HasMinor) := by
    refine ⟨hx, ?_⟩
    rintro rfl
    rcases (h.minor m x hx).1 with hno | hno <;> exact nomatch hphase.symm.trans hno
  have hchange := h.change (f := s.files d) hdev hminors hlists h.nodup
    (by rintro (hl | hl | hl) <;> cases hl) (h.pending_other nofun (by rw [hphase]; exact nofun))
  rw [Function.update_eq_self] at hchange
  rw [put_eq hdev href]
  exact hchange

omit [DecidableEq ι] [DecidableEq μ] [DecidableEq τ] in
theorem Inv.setFiles (h : s.Inv) {d f : ℕ} {dev : DvbDevice ι} (hdev : s.reg.device d = some dev) :
    Inv { s with
      reg := { s.reg with
        device := Function.update s.reg.device d (counted dev ((s.phase d).refs + f)) }
      files := Function.update s.files d f } := by
  have hchange := h.change (f := f) hdev h.same_minors h.same_lists h.nodup id (by
    intro x
    rw [Function.update_eq_self]
    exact h.pending x)
  rwa [Function.update_eq_self] at hchange

omit [DecidableEq ι] [DecidableEq μ] [DecidableEq τ] in
theorem Inv.open (h : s.Inv) {minor d : ℕ} (hentry : s.reg.minors minor = some d) :
    Inv { s with reg := s.reg.get d, files := Function.update s.files d (s.files d + 1) } := by
  obtain ⟨-, dev, hdev, -⟩ := h.minor minor d hentry
  rw [get_eq hdev, (h.refs d dev hdev).1, Nat.add_assoc]
  exact h.setFiles hdev

omit [DecidableEq ι] [DecidableEq μ] [DecidableEq τ] in
theorem Inv.close (h : s.Inv) {d : ℕ} (hopen : 0 < s.files d) :
    Inv { s with reg := s.reg.put d, files := Function.update s.files d (s.files d - 1) } := by
  obtain ⟨dev, hdev⟩ := h.alive d (Nat.lt_add_left _ hopen)
  have href : dev.ref = (s.phase d).refs + (s.files d - 1) + 1 := by
    rw [(h.refs d dev hdev).1]
    omega
  rw [put_eq hdev href]
  exact h.setFiles hdev

omit [DecidableEq ι] [DecidableEq μ] [DecidableEq τ] in
theorem Inv.finished (h : s.Inv) {e : Entered ι} (hlock : s.pending = some e) :
    Inv { s with pending := none, phase := Function.update s.phase e.dvbdev .registered } := by
  have hphase : s.phase e.dvbdev = .entered := (h.pending e.dvbdev).mpr ⟨e, hlock, rfl⟩
  obtain ⟨dev, hdev⟩ := h.alive e.dvbdev (by rw [hphase]; exact Nat.lt_add_right _ (by decide))
  have href : dev.ref = 2 + s.files e.dvbdev := by rw [(h.refs _ dev hdev).1, hphase, Phase.refs]
  have hchange := @Inv.change _ _ _ s h e.dvbdev (s.files e.dvbdev) .registered dev hdev s.reg.minors
    s.reg.deviceList none (fun m x hx => ⟨hx, fun _ => .inr rfl⟩)
    (fun a x => ⟨fun hx => ⟨hx, fun _ => .inr (.inl rfl)⟩, And.left⟩) h.nodup
    (fun _ => .inl hphase) ?_
  · rwa [Function.update_eq_self, Phase.refs, counted_same hdev href (by omega)] at hchange
  · intro x
    refine iff_of_false (fun hx => ?_) (fun ⟨_, hno, _⟩ => nomatch hno)
    by_cases heq : x = e.dvbdev
    · rw [heq, Function.update_self] at hx
      cases hx
    · rw [Function.update_of_ne heq, h.pending] at hx
      obtain ⟨e', he', rfl⟩ := hx
      rw [hlock] at he'
      exact heq (congrArg Entered.dvbdev (Option.some.inj he').symm)

omit [DecidableEq ι] [DecidableEq μ] [DecidableEq τ] in
theorem Inv.refused (h : s.Inv) {next : ℕ} (hnext : s.reg.next ≤ next) :
    Inv { s with reg := { s.reg with next := next } } :=
  { h with
    fresh := ⟨fun m d hd => Nat.lt_of_lt_of_le (h.fresh.minors m d hd) hnext,
      fun a d hd => Nat.lt_of_lt_of_le (h.fresh.deviceList a d hd) hnext,
      fun node hnode => Nat.lt_of_lt_of_le (h.fresh.fopsList node hnode) hnext,
      fun d hd => h.fresh.device d (Nat.le_trans hnext hd)⟩
    away := fun d hd => h.away d (Nat.le_trans hnext hd) }

theorem Inv.entered (h : s.Inv) (hlock : s.pending = none) {r : Request ι μ τ} {allocs : Allocs}
    {e : Entered ι} {reg : Registry ι μ τ} (hcase : EnterCase s.reg r allocs (.ok e, reg)) :
    Inv { s with
      reg := reg, pending := some e, phase := Function.update s.phase e.dvbdev .entered } := by
  cases hcase with
  | @entered nodes newNode dev next hlate hfree hnodes hfops hadap href hnext hplace =>
    have hnone := h.fresh.device s.reg.next (Nat.le_refl _)
    have haway := h.away s.reg.next (Nat.le_refl _)
    have hfiles : s.files s.reg.next = 0 := by
      by_contra hne
      obtain ⟨dev', hdev'⟩ := h.alive s.reg.next (Nat.lt_add_left _ (Nat.pos_of_ne_zero hne))
      exact nomatch hnone.symm.trans hdev'
    constructor
    · constructor
      · intro m d hd
        dsimp only at hd ⊢
        by_cases heq : m = dev.minor
        · rw [heq, Function.update_self] at hd
          exact Option.some.inj hd ▸ hnext
        · rw [Function.update_of_ne heq] at hd
          exact Nat.lt_trans (h.fresh.minors m d hd) hnext
      · intro a d hd
        dsimp only at hd ⊢
        by_cases heq : a = r.adap
        · rw [heq, Function.update_self] at hd
          rcases List.mem_append.mp hd with hold | hnew
          · exact Nat.lt_trans (h.fresh.deviceList _ d hold) hnext
          · exact List.mem_singleton.mp hnew ▸ hnext
        · rw [Function.update_of_ne heq] at hd
          exact Nat.lt_trans (h.fresh.deviceList a d hd) hnext
      · intro node hnode
        rcases List.mem_append.mp hnode with hold | hnew
        · exact Nat.lt_trans (h.fresh.fopsList node hold) hnext
        · exact hplace node hnew
      · intro d hd
        dsimp only at hd ⊢
        rw [Function.update_of_ne (Nat.ne_of_gt (Nat.lt_of_lt_of_le hnext hd))]
        exact h.fresh.device d (Nat.le_of_lt (Nat.lt_of_lt_of_le hnext hd))
    · intro d hd
      dsimp only at hd ⊢
      rw [Function.update_of_ne (Nat.ne_of_gt (Nat.lt_of_lt_of_le hnext hd))]
      exact h.away d (Nat.le_of_lt (Nat.lt_of_lt_of_le hnext hd))
    · intro m d hd
      dsimp only at hd ⊢
      by_cases heq : m = dev.minor
      · rw [heq, Function.update_self] at hd
        obtain rfl := Option.some.inj hd
        rw [Function.update_self, Function.update_self]
        exact ⟨.inl rfl, dev, rfl, heq.symm⟩
      · rw [Function.update_of_ne heq] at hd
        have hne := Nat.ne_of_lt (h.fresh.minors m d hd)
        rw [Function.update_of_ne hne, Function.update_of_ne hne]
        exact h.minor m d hd
    · intro d dev' hd hdev'
      dsimp only at hd hdev' ⊢
      by_cases heq : d = s.reg.next
      · subst heq
        rw [Function.update_self, Option.some.injEq] at hdev'
        rw [← hdev', hadap, Function.update_self]
        exact List.mem_append_right _ (List.mem_singleton_self _)
      · rw [Function.update_of_ne heq] at hd hdev'
        have hold := h.listed d dev' hd hdev'
        by_cases hsame : dev'.adapter = r.adap
        · rw [hsame] at hold ⊢
          rw [Function.update_self]
          exact List.mem_append_left _ hold
        · rwa [Function.update_of_ne hsame]
    · intro a d hd
      dsimp only at hd ⊢
      by_cases heq : d = s.reg.next
      · subst heq
        rw [Function.update_self, Function.update_self]
        refine ⟨.inl rfl, dev, rfl, ?_⟩
        by_contra hne
        rw [Function.update_of_ne (fun hsame => hne (hadap.trans hsame.symm))] at hd
        exact Nat.lt_irrefl _ (h.fresh.deviceList a _ hd)
      · rw [Function.update_of_ne heq, Function.update_of_ne heq]
        refine h.list a d ?_
        by_cases hsame : a = r.adap
        · rw [hsame, Function.update_self] at hd
          rcases List.mem_append.mp hd with hold | hnew
          · exact hsame ▸ hold
          · exact absurd (List.mem_singleton.mp hnew) heq
        · rwa [Function.update_of_ne hsame] at hd
    · intro a
      dsimp only
      by_cases hsame : a = r.adap
      · rw [hsame, Function.update_self]
        refine List.nodup_append.mpr ⟨h.nodup _, List.nodup_singleton _, ?_⟩
        rintro x hx y hy rfl
        exact Nat.ne_of_lt (h.fresh.deviceList _ x hx) (List.mem_singleton.mp hy)
      · rw [Function.update_of_ne hsame]
        exact h.nodup a
    · intro d hd
      dsimp only at hd ⊢
      by_cases heq : d = s.reg.next
      · rw [heq, Function.update_self]
        exact ⟨dev, rfl⟩
      · rw [Function.update_of_ne heq] at hd ⊢
        exact h.alive d hd
    · intro d dev' hdev'
      dsimp only at hdev' ⊢
      by_cases heq : d = s.reg.next
      · rw [heq, Function.update_self, Option.some.injEq] at hdev'
        rw [heq, Function.update_self, hfiles, ← hdev', href]
        exact ⟨rfl, by decide⟩
      · rw [Function.update_of_ne heq] at hdev' ⊢
        exact h.refs d dev' hdev'
    · intro d dev' hdev'
      dsimp only at hdev' ⊢
      by_cases heq : d = s.reg.next
      · rw [heq, Function.update_self, Option.some.injEq] at hdev'
        exact hdev' ▸ hfops
      · rw [Function.update_of_ne heq] at hdev'
        obtain ⟨node, hnode, hsame⟩ := h.fops d dev' hdev'
        exact ⟨node, List.mem_append_left _ hnode, hsame⟩
    · intro d
      dsimp only
      by_cases heq : d = s.reg.next
      · rw [heq, Function.update_self]
        exact iff_of_true rfl ⟨_, rfl, rfl⟩
      · rw [Function.update_of_ne heq, h.pending, hlock]
        refine iff_of_false (fun ⟨_, hno, _⟩ => nomatch hno) ?_
        rintro ⟨_, he, rfl⟩
        exact heq (congrArg Entered.dvbdev (Option.some.inj he).symm)

theorem Inv.step {outcome : Option Outcome} (h : s.Inv) (hs : s.Step outcome s')
    (hok : ∀ o ∈ outcome, o.Ok) : s'.Inv := by
  cases hs with
  | @refused r allocs err reg hlock henter =>
    have hcase := enter_case h.fresh r allocs
    rw [henter] at hcase
    cases hcase with
    | early hearly herr hnext => exact h.refused hnext
  | @entered r allocs e reg hlock henter =>
    exact h.entered hlock (henter ▸ enter_case h.fresh r allocs)
  | @finished e outcome reg hlock hfinish =>
    rcases finish_cases s.reg e outcome with ⟨-, heq⟩ | ⟨hno, -⟩
    · cases heq.symm.trans hfinish
      exact h.finished hlock
    · exact absurd (hok outcome rfl) hno
  | @failed e outcome err reg hlock hfinish herr =>
    rcases finish_cases s.reg e outcome with ⟨-, heq⟩ | ⟨hno, -⟩
    · exact absurd (congrArg Prod.fst (heq.symm.trans hfinish)).symm herr
    · exact absurd (hok outcome rfl) hno
  | removeMinor hphase => exact h.removeMinor hphase
  | unlist hphase => exact h.unlist hphase
  | put hphase => exact h.put hphase
  | «open» hentry => exact h.open hentry
  | close hopen => exact h.close hopen

omit [DecidableEq ι] [DecidableEq μ] [DecidableEq τ] in
theorem init_inv : (init : System ι μ τ).Inv where
  fresh := ⟨nofun, nofun, nofun, fun _ _ => rfl⟩
  away _ _ := rfl
  minor := nofun
  listed := by rintro d dev (hl | hl | hl) <;> cases hl
  list := nofun
  nodup _ := List.nodup_nil
  alive _ hd := absurd hd (Nat.lt_irrefl 0)
  refs := nofun
  fops := nofun
  pending _ := iff_of_false nofun (fun ⟨_, hno, _⟩ => nomatch hno)

theorem Run.inv {s : System ι μ τ} (h : Run Outcome.Ok s) : s.Inv := by
  induction h with
  | init => exact init_inv
  | step _ hs hok ih => exact ih.step hs hok

/-- A registration that fails leaves the tables as they were exactly when it does not fail behind the
    minor, and in a run in which none fails there every entry is a registered device. -/
theorem registrations_sound (reg : Registry ι μ τ) (hfresh : reg.Fresh) :
    (∀ r allocs outcome,
      ((reg.dvbRegisterDevice r allocs outcome).1 ≠ 0 →
        reg.SameTables (reg.dvbRegisterDevice r allocs outcome).2) ↔
      outcome.Ok ∨ reg.Early r allocs) ∧
    ∀ s : System ι μ τ, Run Outcome.Ok s → s.Sound :=
  ⟨register_keeps_iff hfresh, fun _ h => h.inv.sound⟩

def frontendRequest : Request Unit Unit Unit := ⟨(), (), (), .frontend⟩

/-- Without memory the first registration leaves no trace. -/
theorem noMemory_keeps :
    (init : System Unit Unit Unit).reg.SameTables
      (init.reg.dvbRegisterDevice frontendRequest ⟨false, false, false⟩ ⟨0, 0⟩).2 := by
  have hfails : ((init : System Unit Unit Unit).reg.dvbRegisterDevice frontendRequest
      ⟨false, false, false⟩ ⟨0, 0⟩).1 ≠ 0 := by
    decide
  exact ((registrations_sound (init : System Unit Unit Unit).reg init_inv.fresh).1 _ _ _).mpr
    (.inr (.inr (.inl rfl))) hfails

/-- The class device of the first registration fails, and the minor names a device that was freed. -/
theorem failedClassDevice_stays :
    ∃ s : System Unit Unit Unit, Run (fun _ => True) s ∧ s.reg.minors 0 = some 0 ∧
      s.reg.device 0 = none ∧ ¬s.Sound := by
  have henter : (init : System Unit Unit Unit).reg.enter frontendRequest ⟨true, true, true⟩ =
      (.ok ⟨0, (), some 1⟩, _) := rfl
  have hentered : Run (fun _ => True) _ := .step .init (.entered rfl henter) fun _ _ => trivial
  have hfinish (reg : Registry Unit Unit Unit) :
      reg.finish ⟨0, (), some 1⟩ ⟨0, -12⟩ = (-12, reg.undo ⟨0, (), some 1⟩) := rfl
  refine ⟨_, .step hentered (.failed rfl (hfinish _) (by decide)) fun _ _ => trivial, rfl, rfl,
    fun hsound => ?_⟩
  obtain ⟨dev, hdev, -⟩ := hsound 0 0 rfl
  cases hdev

end System

end Dvb.Devices

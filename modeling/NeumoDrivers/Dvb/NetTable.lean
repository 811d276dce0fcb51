import Mathlib.Data.List.FinRange
import Mathlib.Logic.Function.Basic
import Mathlib.Data.Int.Basic

/-! The table of network interfaces (`neumo-dvb-net.c`).

    `get_if` marks an entry, `dvb_net_add_if` gives it a device, and `dvb_net_remove_if` takes both
    back. Between the mark and the device the kernel may refuse memory or the registration; the mark
    then stays. A pointer to a network device is its place in `devices`, the memory that has been
    allocated for them. The feeds of an interface and its name are left out. -/

namespace Dvb.Net
open Function

def eperm : ℤ := 1
def enomem : ℤ := 12
def ebusy : ℤ := 16
def einval : ℤ := 22
def enotty : ℤ := 25
def erestartsys : ℤ := 512

def dvbNetDevicesMax : ℕ := 10
def feedtypeMpe : ℕ := 0
def feedtypeUle : ℕ := 1

/-- The kernel follows a pointer to nothing. -/
inductive Oops where | oops

/-- A `struct net_device` with its `struct dvb_net_priv`. -/
structure NetDevice where
  inUse : ℤ
  pid : ℕ
  feedtype : ℕ
  registered : Bool

/-- `struct dvb_net`, the memory of the network devices, how many have been allocated, and the
    references that are held on the adapter's module. -/
structure DvbNet where
  device : Fin dvbNetDevicesMax → Option ℕ
  state : Fin dvbNetDevicesMax → ℤ
  devices : ℕ → Option NetDevice
  allocs : ℕ
  moduleRefs : ℤ

/-- What `alloc_netdev` and `register_netdev` do. -/
structure Outcome where
  alloc : Bool
  register : ℤ

/-- Who calls the ioctl, and how the kernel answers on its way. -/
structure Caller where
  readonly : Bool
  interrupted : Bool
  capable : Bool
  moduleGet : Bool
  outcome : Outcome

inductive Cmd where
  | addIf (pid feedtype : ℕ)
  | getIf (ifNum : ℕ)
  | removeIf (num : ℕ)
  | addIfOld (pid : ℕ)
  | getIfOld (ifNum : ℕ)
  | other

/-- The result of an ioctl, and the fields it writes. -/
structure Reply where
  ret : ℤ
  ifNum : Option ℕ
  pid : Option ℕ
  feedtype : Option ℕ

def Reply.of (ret : ℤ) : Reply := ⟨ret, none, none, none⟩

namespace DvbNet

/-- `dvb_net_init`. The memory of the structure has been cleared. -/
def init : DvbNet := ⟨fun _ => none, fun _ => 0, fun _ => none, 0, 0⟩

variable (net : DvbNet)

/-- What a pointer refers to. -/
def deref (p : Option ℕ) : Except Oops (ℕ × NetDevice) :=
  match p with
  | none => .error .oops
  | some a =>
    match net.devices a with
    | none => .error .oops
    | some dev => .ok (a, dev)

/-- `get_if` -/
def getIf : Option (Fin dvbNetDevicesMax) × DvbNet :=
  match (List.finRange dvbNetDevicesMax).find? fun i => net.state i = 0 with
  | none => (none, net)
  | some i => (some i, { net with state := update net.state i 1 })

/-- `dvb_net_add_if` -/
def dvbNetAddIf (pid feedtype : ℕ) (o : Outcome) : ℤ × DvbNet :=
  if feedtype ≠ feedtypeMpe ∧ feedtype ≠ feedtypeUle then (-einval, net)
  else
    match net.getIf with
    | (none, net) => (-einval, net)
    | (some ifNum, net) =>
      if o.alloc = false then (-enomem, net)
      else
        let a := net.allocs
        let dev : NetDevice := ⟨0, pid, feedtype, false⟩
        let net := { net with
          allocs := a + 1
          devices := update net.devices a (some dev)
          device := update net.device ifNum (some a) }
        if o.register < 0 then
          (o.register, { net with
            device := update net.device ifNum none
            devices := update net.devices a none })
        else
          ((ifNum : ℕ), { net with
            devices := update net.devices a (some { dev with registered := true }) })

/-- `dvb_net_remove_if`. The device is stopped and unregistered before its memory is given back. -/
def dvbNetRemoveIf (num : Fin dvbNetDevicesMax) : Except Oops (ℤ × DvbNet) :=
  if net.state num = 0 then .ok (-einval, net)
  else do
    let (a, dev) ← net.deref (net.device num)
    if dev.inUse ≠ 0 then return (-ebusy, net)
    else
      return (0, { net with
        state := update net.state num 0
        device := update net.device num none
        devices := update net.devices a none })

/-- `NET_ADD_IF` and its older form. -/
def addIoctl (c : Caller) (pid feedtype : ℕ) : Reply × DvbNet :=
  if c.capable = false then (.of (-eperm), net)
  else if c.moduleGet = false then (.of (-eperm), net)
  else
    let (result, net') := dvbNetAddIf { net with moduleRefs := net.moduleRefs + 1 } pid feedtype c.outcome
    if result < 0 then (.of result, { net' with moduleRefs := net'.moduleRefs - 1 })
    else ({ Reply.of 0 with ifNum := some result.toNat }, net')

/-- `NET_GET_IF` and its older form, which does not tell the type of the feed. -/
def getIoctl (ifNum : ℕ) (old : Bool) : Except Oops (Reply × DvbNet) :=
  if h : ifNum < dvbNetDevicesMax then
    if net.state ⟨ifNum, h⟩ = 0 then .ok (.of (-einval), net)
    else do
      let (_, dev) ← net.deref (net.device ⟨ifNum, h⟩)
      return ({ Reply.of 0 with
        pid := some dev.pid
        feedtype := if old then none else some dev.feedtype }, net)
  else .ok (.of (-einval), net)

/-- `NET_REMOVE_IF` -/
def removeIoctl (c : Caller) (num : ℕ) : Except Oops (Reply × DvbNet) :=
  if c.capable = false then .ok (.of (-eperm), net)
  else if h : num < dvbNetDevicesMax then do
    let (ret, net') ← net.dvbNetRemoveIf ⟨num, h⟩
    if ret = 0 then return (.of ret, { net' with moduleRefs := net'.moduleRefs - 1 })
    else return (.of ret, net')
  else .ok (.of (-einval), net)

/-- `dvb_net_do_ioctl` -/
def dvbNetDoIoctl (c : Caller) (cmd : Cmd) : Except Oops (Reply × DvbNet) :=
  if c.readonly then .ok (.of (-eperm), net)
  else if c.interrupted then .ok (.of (-erestartsys), net)
  else
    match cmd with
    | .addIf pid feedtype => .ok (net.addIoctl c pid feedtype)
    | .getIf ifNum => net.getIoctl ifNum false
    | .removeIf num => net.removeIoctl c num
    | .addIfOld pid => .ok (net.addIoctl c pid feedtypeMpe)
    | .getIfOld ifNum => net.getIoctl ifNum true
    | .other => .ok (.of (-enotty), net)

end DvbNet

/-- An ioctl, or the network stack opens or stops a registered device, which counts in `in_use`. -/
inductive Event where
  | ioctl (c : Caller) (cmd : Cmd)
  | opens (a : ℕ)
  | stops (a : ℕ)

namespace DvbNet
variable (net : DvbNet)

/-- `in_use` of a registered device changes. -/
def use (a : ℕ) (n : ℤ) : DvbNet :=
  match net.devices a with
  | none => net
  | some dev =>
    if dev.registered then
      { net with devices := update net.devices a (some { dev with inUse := dev.inUse + n }) }
    else net

def step : Event → Except Oops (Reply × DvbNet)
  | .ioctl c cmd => net.dvbNetDoIoctl c cmd
  | .opens a => .ok (.of 0, net.use a 1)
  | .stops a => .ok (.of 0, net.use a (-1))

def run (events : List Event) : Except Oops DvbNet :=
  events.foldlM (fun net e => Prod.snd <$> net.step e) net

/-! ### What the table is for -/

/-- The device pointer of the entry refers to a registered network device. -/
def Refers (i : Fin dvbNetDevicesMax) : Prop :=
  ∃ a dev, net.device i = some a ∧ net.devices a = some dev ∧ dev.registered = true

/-- An entry is marked used exactly when its device pointer refers to a registered device. -/
def Consistent : Prop := ∀ i, net.state i ≠ 0 ↔ net.Refers i

end DvbNet

/-- The pid and the type of the feed of a device that is to be added. -/
def Event.adds : Event → Option (ℕ × ℕ)
  | .ioctl _ (.addIf pid feedtype) => some (pid, feedtype)
  | .ioctl _ (.addIfOld pid) => some (pid, feedtypeMpe)
  | _ => none

/-- No pointer to nothing is followed, the table is consistent afterwards, and as it was if a device
    could not be added. -/
structure DvbNet.Keeps (net : DvbNet) (e : Event) : Prop where
  answers : ∃ reply net', net.step e = .ok (reply, net') ∧ net'.Consistent ∧
    (e.adds.isSome → reply.ret < 0 → net'.device = net.device ∧ net'.state = net.state)

/-- The caller comes as far as `dvb_net_add_if`. -/
def Caller.Admitted (c : Caller) : Prop :=
  c.readonly = false ∧ c.interrupted = false ∧ c.capable = true ∧ c.moduleGet = true

/-- There is no memory for the device, or it is not registered. -/
def Outcome.Fails (o : Outcome) : Prop := o.alloc = false ∨ o.register < 0

/-- An entry is free for a device that is not going to be there. -/
def DvbNet.Leaks (net : DvbNet) (e : Event) : Prop :=
  ∃ c cmd pid feedtype, e = .ioctl c cmd ∧ e.adds = some (pid, feedtype) ∧ c.Admitted ∧
    (feedtype = feedtypeMpe ∨ feedtype = feedtypeUle) ∧ (∃ i, net.state i = 0) ∧ c.outcome.Fails

variable {net net' : DvbNet} {i j num : Fin dvbNetDevicesMax} {a pid feedtype ifNum : ℕ} {n : ℤ}
  {o : Outcome} {c : Caller} {e : Event} {events : List Event} {reply : Reply} {dev : NetDevice}

/-! ### The invariant -/

/-- An entry in use has a registered device of its own, and the others have none. -/
structure DvbNet.Sound (net : DvbNet) : Prop where
  used : ∀ i, net.state i ≠ 0 → net.Refers i
  free : ∀ i, net.state i = 0 → net.device i = none
  apart : ∀ i j a, net.device i = some a → net.device j = some a → i = j
  below : ∀ a dev, net.devices a = some dev → a < net.allocs

theorem sound_init : DvbNet.init.Sound :=
  ⟨fun _ h => absurd rfl h, fun _ _ => rfl, nofun, nofun⟩

theorem DvbNet.Sound.consistent (h : net.Sound) : net.Consistent := by
  refine fun i => ⟨h.used i, ?_⟩
  rintro ⟨a, dev, hdevice, -⟩ hfree
  rw [h.free i hfree] at hdevice
  cases hdevice

/-- The pointer of an entry in use can be followed. -/
theorem DvbNet.Sound.deref (h : net.Sound) (hused : net.state i ≠ 0) :
    ∃ a dev, net.device i = some a ∧ net.devices a = some dev ∧ dev.registered = true ∧
      net.deref (net.device i) = .ok (a, dev) := by
  obtain ⟨a, dev, hdevice, hdev, hregistered⟩ := h.used i hused
  refine ⟨a, dev, hdevice, hdev, hregistered, ?_⟩
  simp only [DvbNet.deref, hdevice, hdev]

theorem DvbNet.Sound.refs (h : net.Sound) (n : ℤ) : { net with moduleRefs := n }.Sound :=
  ⟨h.used, h.free, h.apart, h.below⟩

theorem DvbNet.Sound.add (h : net.Sound) (hfree : net.state i = 0) (hregistered : dev.registered = true) :
    { net with
      state := update net.state i 1
      allocs := net.allocs + 1
      devices := update net.devices net.allocs (some dev)
      device := update net.device i (some net.allocs) }.Sound := by
  -- no entry refers to the memory that has just been allocated
  have hnew (j : Fin dvbNetDevicesMax) : net.device j ≠ some net.allocs := by
    intro hj
    have hused : net.state j ≠ 0 := fun hzero => by
      rw [h.free j hzero] at hj
      cases hj
    obtain ⟨a, dev', hdevice, hdev, -⟩ := h.used j hused
    rw [hj, Option.some.injEq] at hdevice
    subst hdevice
    exact Nat.lt_irrefl _ (h.below _ _ hdev)
  constructor
  · intro j hj
    by_cases hji : j = i
    · subst hji
      exact ⟨net.allocs, dev, update_self .., update_self .., hregistered⟩
    · have hused : net.state j ≠ 0 := by rwa [← update_of_ne hji 1 net.state]
      obtain ⟨a, dev', hdevice, hdev, hreg⟩ := h.used j hused
      refine ⟨a, dev', (update_of_ne hji _ _).trans hdevice, ?_, hreg⟩
      have hne : a ≠ net.allocs := fun ha => hnew j (ha ▸ hdevice)
      exact (update_of_ne hne _ _).trans hdev
  · intro j hj
    have hji : j ≠ i := fun hji => by
      subst hji
      exact absurd ((update_self j 1 net.state).symm.trans hj) Int.one_ne_zero
    exact (update_of_ne hji _ _).trans (h.free j ((update_of_ne hji 1 net.state).symm.trans hj))
  · intro j k a hj hk
    dsimp only at hj hk
    rcases eq_or_ne j i with rfl | hji
    · rw [update_self] at hj
      rcases eq_or_ne k j with rfl | hkj
      · rfl
      · rw [update_of_ne hkj] at hk
        exact absurd (hk.trans hj.symm) (hnew k)
    · rw [update_of_ne hji] at hj
      rcases eq_or_ne k i with rfl | hki
      · rw [update_self] at hk
        exact absurd (hj.trans hk.symm) (hnew j)
      · rw [update_of_ne hki] at hk
        exact h.apart j k a hj hk
  · intro a dev' ha
    dsimp only at ha ⊢
    rcases eq_or_ne a net.allocs with rfl | hne
    · exact Nat.lt_succ_self _
    · rw [update_of_ne hne] at ha
      exact Nat.lt_succ_of_lt (h.below a dev' ha)

theorem DvbNet.Sound.remove (h : net.Sound) (hdevice : net.device num = some a) :
    { net with
      state := update net.state num 0
      device := update net.device num none
      devices := update net.devices a none }.Sound := by
  constructor
  · intro j hj
    have hjn : j ≠ num := fun hjn => by
      subst hjn
      exact hj (update_self ..)
    have hused : net.state j ≠ 0 := by rwa [← update_of_ne hjn 0 net.state]
    obtain ⟨b, dev, hb, hdev, hregistered⟩ := h.used j hused
    have hba : b ≠ a := fun hba => hjn (h.apart j num a (hba ▸ hb) hdevice)
    exact ⟨b, dev, (update_of_ne hjn _ _).trans hb, (update_of_ne hba _ _).trans hdev, hregistered⟩
  · intro j hj
    dsimp only at hj ⊢
    rcases eq_or_ne j num with rfl | hjn
    · exact update_self ..
    · rw [update_of_ne hjn] at hj ⊢
      exact h.free j hj
  · intro j k b hj hk
    dsimp only at hj hk
    rcases eq_or_ne j num with rfl | hjn
    · rw [update_self] at hj
      cases hj
    rcases eq_or_ne k num with rfl | hkn
    · rw [update_self] at hk
      cases hk
    · rw [update_of_ne hjn] at hj
      rw [update_of_ne hkn] at hk
      exact h.apart j k b hj hk
  · intro b dev hb
    dsimp only at hb
    rcases eq_or_ne b a with rfl | hne
    · rw [update_self] at hb
      cases hb
    · rw [update_of_ne hne] at hb
      exact h.below b dev hb

theorem DvbNet.Sound.use (h : net.Sound) (a : ℕ) (n : ℤ) : (net.use a n).Sound := by
  rw [DvbNet.use]
  split
  · exact h
  · rename_i dev hdev
    split
    · rename_i hregistered
      refine ⟨fun i hi => ?_, h.free, h.apart, fun b dev' hb => ?_⟩
      · obtain ⟨b, dev', hdevice, hdev', hreg⟩ := h.used i hi
        rcases eq_or_ne b a with rfl | hne
        · exact ⟨b, _, hdevice, update_self .., hregistered⟩
        · exact ⟨b, dev', hdevice, (update_of_ne hne _ _).trans hdev', hreg⟩
      · dsimp only at hb ⊢
        rcases eq_or_ne b a with rfl | hne
        · exact h.below b dev hdev
        · rw [update_of_ne hne] at hb
          exact h.below b dev' hb
    · exact h

/-! ### Ioctls -/

theorem getIf_cases (net : DvbNet) : (∀ i, net.state i ≠ 0) ∧ net.getIf = (none, net) ∨
    ∃ i, net.state i = 0 ∧ net.getIf = (some i, { net with state := update net.state i 1 }) := by
  rw [DvbNet.getIf]
  split
  · rename_i hnone
    refine .inl ⟨fun i hi => ?_, rfl⟩
    have hno := List.find?_eq_none.mp hnone i (List.mem_finRange i)
    exact hno (decide_eq_true hi)
  · rename_i i hsome
    have hfree := List.find?_some hsome
    exact .inr ⟨i, of_decide_eq_true hfree, rfl⟩

/-- What becomes of a device that is to be added. -/
inductive AddCase (net : DvbNet) (pid feedtype : ℕ) (o : Outcome) : ℤ × DvbNet → Prop where
  | refused : ¬((feedtype = feedtypeMpe ∨ feedtype = feedtypeUle) ∧ ∃ i, net.state i = 0) →
    AddCase net pid feedtype o (-einval, net)
  | failed {i : Fin dvbNetDevicesMax} {ret : ℤ} {net' : DvbNet} :
    (feedtype = feedtypeMpe ∨ feedtype = feedtypeUle) → net.state i = 0 → o.Fails → ret < 0 →
    net'.state = update net.state i 1 → AddCase net pid feedtype o (ret, net')
  | added {i : Fin dvbNetDevicesMax} : net.state i = 0 → ¬o.Fails →
    AddCase net pid feedtype o ((i : ℕ), { net with
      state := update net.state i 1
      allocs := net.allocs + 1
      devices := update net.devices net.allocs (some ⟨0, pid, feedtype, true⟩)
      device := update net.device i (some net.allocs) })

theorem dvbNetAddIf_case (net : DvbNet) (pid feedtype : ℕ) (o : Outcome) :
    AddCase net pid feedtype o (net.dvbNetAddIf pid feedtype o) := by
  rw [DvbNet.dvbNetAddIf]
  by_cases hfeed : feedtype = feedtypeMpe ∨ feedtype = feedtypeUle
  swap
  · rw [if_pos (not_or.mp hfeed)]
    exact .refused fun hno => hfeed hno.1
  rw [if_neg (fun hno => hfeed.elim hno.1 hno.2)]
  rcases getIf_cases net with ⟨hnone, hget⟩ | ⟨i, hfree, hget⟩
  · rw [hget]
    exact .refused fun ⟨_, i, hi⟩ => hnone i hi
  rw [hget]
  dsimp only
  by_cases halloc : o.alloc = false
  · rw [if_pos halloc]
    exact .failed hfeed hfree (.inl halloc) (by decide) rfl
  rw [if_neg halloc]
  by_cases hregister : o.register < 0
  · rw [if_pos hregister]
    exact .failed hfeed hfree (.inr hregister) hregister rfl
  · rw [if_neg hregister, update_idem]
    exact .added hfree fun hfails => hfails.elim halloc hregister

theorem state_changed (hfree : net.state i = 0) : update net.state i 1 ≠ net.state := by
  intro heq
  have hone := congrFun heq i
  rw [update_self, hfree] at hone
  exact Int.one_ne_zero hone

/-- `NET_ADD_IF` of a caller who may add devices. -/
theorem addIoctl_case (hcapable : c.capable = true) (hget : c.moduleGet = true) :
    ∃ ret net', AddCase { net with moduleRefs := net.moduleRefs + 1 } pid feedtype c.outcome
        (ret, net') ∧
      net.addIoctl c pid feedtype =
        if ret < 0 then (.of ret, { net' with moduleRefs := net'.moduleRefs - 1 })
        else ({ Reply.of 0 with ifNum := some ret.toNat }, net') := by
  have hcase := dvbNetAddIf_case { net with moduleRefs := net.moduleRefs + 1 } pid feedtype c.outcome
  have htrue : ¬true = false := by decide
  rw [DvbNet.addIoctl, hcapable, hget, if_neg htrue, if_neg htrue]
  generalize DvbNet.dvbNetAddIf _ pid feedtype c.outcome = x at hcase ⊢
  exact ⟨x.1, x.2, hcase, rfl⟩

/-- A device that cannot be added is refused before an entry is marked. -/
theorem addIoctl_sound (h : net.Sound) (hno : c.capable = true → c.moduleGet = true →
      (feedtype = feedtypeMpe ∨ feedtype = feedtypeUle) → (∃ i, net.state i = 0) → ¬c.outcome.Fails) :
    (net.addIoctl c pid feedtype).2.Sound ∧ ((net.addIoctl c pid feedtype).1.ret < 0 →
      (net.addIoctl c pid feedtype).2.device = net.device ∧
        (net.addIoctl c pid feedtype).2.state = net.state) := by
  by_cases hcapable : c.capable = false
  · rw [DvbNet.addIoctl, if_pos hcapable]
    exact ⟨h, fun _ => ⟨rfl, rfl⟩⟩
  by_cases hget : c.moduleGet = false
  · rw [DvbNet.addIoctl, if_neg hcapable, if_pos hget]
    exact ⟨h, fun _ => ⟨rfl, rfl⟩⟩
  rw [Bool.not_eq_false] at hcapable hget
  obtain ⟨ret, net', hcase, heq⟩ := @addIoctl_case net pid feedtype c hcapable hget
  rw [heq]
  cases hcase with
  | refused =>
    rw [if_pos (by decide)]
    exact ⟨(h.refs _).refs _, fun _ => ⟨rfl, rfl⟩⟩
  | failed hfeed hfree hfails => exact absurd hfails (hno hcapable hget hfeed ⟨_, hfree⟩)
  | added hfree =>
    rw [if_neg (Int.not_lt.mpr (Int.natCast_nonneg _))]
    exact ⟨(h.refs _).add hfree rfl, fun hneg => absurd hneg (Int.lt_irrefl 0)⟩

/-- A failure behind the mark leaves it. -/
theorem addIoctl_leaks (hcapable : c.capable = true) (hget : c.moduleGet = true)
    (hfeed : feedtype = feedtypeMpe ∨ feedtype = feedtypeUle) (hfree : ∃ i, net.state i = 0)
    (hfails : c.outcome.Fails) :
    (net.addIoctl c pid feedtype).1.ret < 0 ∧
      (net.addIoctl c pid feedtype).2.state ≠ net.state := by
  obtain ⟨ret, net', hcase, heq⟩ := @addIoctl_case net pid feedtype c hcapable hget
  rw [heq]
  cases hcase with
  | refused hno => exact absurd ⟨hfeed, hfree⟩ hno
  | @failed i _ _ _ hi _ hneg hstate =>
    rw [if_pos hneg]
    exact ⟨hneg, fun hsame => state_changed hi (hstate.symm.trans hsame)⟩
  | added _ hno => exact absurd hfails hno

theorem getIoctl_answers (h : net.Sound) (ifNum : ℕ) (old : Bool) :
    ∃ reply, net.getIoctl ifNum old = .ok (reply, net) := by
  rw [DvbNet.getIoctl]
  split
  · split
    · exact ⟨_, rfl⟩
    · rename_i hused
      obtain ⟨a, dev, -, -, -, hderef⟩ := h.deref hused
      rw [hderef]
      exact ⟨_, rfl⟩
  · exact ⟨_, rfl⟩

theorem removeIoctl_answers (h : net.Sound) (c : Caller) (num : ℕ) :
    ∃ reply net', net.removeIoctl c num = .ok (reply, net') ∧ net'.Sound := by
  rw [DvbNet.removeIoctl]
  split
  · exact ⟨_, net, rfl, h⟩
  split
  swap
  · exact ⟨_, net, rfl, h⟩
  rename_i hnum
  by_cases hfree : net.state ⟨num, hnum⟩ = 0
  · rw [DvbNet.dvbNetRemoveIf, if_pos hfree]
    exact ⟨_, net, rfl, h⟩
  obtain ⟨a, dev, hdevice, -, -, hderef⟩ := h.deref hfree
  rw [DvbNet.dvbNetRemoveIf, if_neg hfree, hderef]
  by_cases huse : dev.inUse = 0
  · refine ⟨.of 0, _, ?_, (h.remove hdevice).refs (net.moduleRefs - 1)⟩
    simp only [bind, Except.bind, huse, ne_eq, not_true_eq_false, if_false, pure, Except.pure, if_true]
  · refine ⟨.of (-ebusy), net, ?_, h⟩
    simp only [bind, Except.bind, huse, ne_eq, not_false_eq_true, if_true, pure, Except.pure,
      show ¬-ebusy = 0 by decide, if_false]

/-! ### Runs -/

/-- An ioctl that adds a device. -/
theorem step_adds {cmd : Cmd} (hadds : (Event.ioctl c cmd).adds = some (pid, feedtype)) :
    net.step (.ioctl c cmd) =
      if c.readonly then .ok (.of (-eperm), net)
      else if c.interrupted then .ok (.of (-erestartsys), net)
      else .ok (net.addIoctl c pid feedtype) := by
  cases cmd with
  | addIf => cases hadds; rfl
  | addIfOld => cases hadds; rfl
  | getIf => cases hadds
  | removeIf => cases hadds
  | getIfOld => cases hadds
  | other => cases hadds

theorem step_others (h : net.Sound) (hadds : e.adds = none) :
    ∃ reply net', net.step e = .ok (reply, net') ∧ net'.Sound := by
  cases e with
  | opens a => exact ⟨_, _, rfl, h.use a 1⟩
  | stops a => exact ⟨_, _, rfl, h.use a (-1)⟩
  | ioctl c cmd =>
    simp only [DvbNet.step, DvbNet.dvbNetDoIoctl]
    split
    · exact ⟨_, _, rfl, h⟩
    split
    · exact ⟨_, _, rfl, h⟩
    cases cmd with
    | addIf => cases hadds
    | addIfOld => cases hadds
    | getIf ifNum =>
      obtain ⟨reply, heq⟩ := getIoctl_answers h ifNum false
      exact ⟨reply, net, heq, h⟩
    | getIfOld ifNum =>
      obtain ⟨reply, heq⟩ := getIoctl_answers h ifNum true
      exact ⟨reply, net, heq, h⟩
    | removeIf num => exact removeIoctl_answers h c num
    | other => exact ⟨_, _, rfl, h⟩

/-- The table stays sound unless an entry is left marked. -/
theorem step_sound (h : net.Sound) (hno : ¬net.Leaks e) :
    ∃ reply net', net.step e = .ok (reply, net') ∧ net'.Sound ∧
      (e.adds.isSome → reply.ret < 0 → net'.device = net.device ∧ net'.state = net.state) := by
  cases hadds : e.adds with
  | none =>
    obtain ⟨reply, net', heq, hsound⟩ := step_others h hadds
    exact ⟨reply, net', heq, hsound, nofun⟩
  | some x =>
    obtain ⟨pid, feedtype⟩ := x
    cases e with
    | opens => cases hadds
    | stops => cases hadds
    | ioctl c cmd =>
      rw [step_adds hadds]
      split
      · exact ⟨_, _, rfl, h, fun _ _ => ⟨rfl, rfl⟩⟩
      split
      · exact ⟨_, _, rfl, h, fun _ _ => ⟨rfl, rfl⟩⟩
      rename_i hreadonly hinterrupted
      obtain ⟨hsound, hsame⟩ := @addIoctl_sound net pid feedtype c h
        fun hcapable hget hfeed hfree hfails => hno ⟨c, cmd, pid, feedtype, rfl, hadds,
          ⟨Bool.eq_false_iff.mpr hreadonly, Bool.eq_false_iff.mpr hinterrupted, hcapable, hget⟩,
          hfeed, hfree, hfails⟩
      exact ⟨_, _, rfl, hsound, fun _ => hsame⟩

theorem DvbNet.Sound.keeps (h : net.Sound) (hno : ¬net.Leaks e) : net.Keeps e := by
  obtain ⟨reply, net', heq, hsound, hsame⟩ := step_sound h hno
  exact ⟨reply, net', heq, hsound.consistent, hsame⟩

theorem DvbNet.Leaks.not_keeps (hleaks : net.Leaks e) : ¬net.Keeps e := by
  obtain ⟨c, cmd, pid, feedtype, rfl, hadds, ⟨hreadonly, hinterrupted, hcapable, hget⟩, hfeed, hfree,
    hfails⟩ := hleaks
  rintro ⟨reply, net', heq, -, hsame⟩
  obtain ⟨hneg, hchanged⟩ := @addIoctl_leaks net pid feedtype c hcapable hget hfeed hfree hfails
  have hfalse : ¬false = true := by decide
  rw [step_adds hadds, hreadonly, if_neg hfalse, hinterrupted, if_neg hfalse, Except.ok.injEq] at heq
  rw [heq] at hneg hchanged
  rw [hadds] at hsame
  exact hchanged (hsame rfl hneg).2

theorem run_cons {es : List Event} (hstep : net.step e = .ok (reply, net')) :
    net.run (e :: es) = net'.run es := by
  rw [DvbNet.run, List.foldlM_cons, hstep]
  rfl

/-- A run in which no entry is left marked. -/
theorem run_sound (h : net.Sound) (hno : ∀ before e after net₁, events = before ++ e :: after →
      net.run before = .ok net₁ → ¬net₁.Leaks e) :
    ∃ net', net.run events = .ok net' ∧ net'.Sound := by
  induction events generalizing net with
  | nil => exact ⟨net, rfl, h⟩
  | cons e es ih =>
    obtain ⟨reply, net₁, hstep, hsound, -⟩ := step_sound h (hno [] e es net rfl rfl)
    rw [run_cons hstep]
    refine ih hsound fun before e' after net₂ hes hrun => ?_
    exact hno (e :: before) e' after net₂ (congrArg (e :: ·) hes) ((run_cons hstep).trans hrun)

/-- Over every run of ioctls, the table is kept by each of them exactly when none marks an entry for a
    device that is then not allocated or not registered. -/
theorem dvbNetDoIoctl_keeps_iff (events : List Event) :
    (∀ before e after net, events = before ++ e :: after → DvbNet.init.run before = .ok net →
      net.Keeps e) ↔
    ∀ before e after net, events = before ++ e :: after → DvbNet.init.run before = .ok net →
      ¬net.Leaks e := by
  constructor
  · intro hkeeps before e after net hsplit hrun hleaks
    exact hleaks.not_keeps (hkeeps before e after net hsplit hrun)
  · intro hno before e after net hsplit hrun
    obtain ⟨net', hrun', hsound⟩ := @run_sound DvbNet.init before sound_init
      fun before' e' after' net' hbefore => hno before' e' (after' ++ e :: after) net' (by
        rw [hsplit, hbefore, List.append_assoc, List.cons_append])
    rw [hrun] at hrun'
    cases hrun'
    exact hsound.keeps (hno before e after net hsplit hrun)

/-- No memory is left for a device; the number of its entry is then asked for. -/
def addRefused : Event :=
  .ioctl ⟨false, false, true, true, ⟨false, 0⟩⟩ (.addIf 0x100 feedtypeUle)

def getFirst : Event := .ioctl ⟨false, false, true, true, ⟨true, 0⟩⟩ (.getIf 0)

/-- The query follows a pointer to nothing. -/
theorem addRefused_not_keeps : ¬∀ before e after net, [addRefused, getFirst] = before ++ e :: after →
    DvbNet.init.run before = .ok net → net.Keeps e := by
  intro hkeeps
  obtain ⟨reply, net', heq, -⟩ :=
    hkeeps [addRefused] getFirst [] (DvbNet.init.addIoctl ⟨false, false, true, true, ⟨false, 0⟩⟩ 0x100
      feedtypeUle).2 rfl rfl
  have hoops : (DvbNet.init.addIoctl ⟨false, false, true, true, ⟨false, 0⟩⟩ 0x100
    feedtypeUle).2.step getFirst = .error .oops := rfl
  rw [hoops] at heq
  cases heq

end Dvb.Net

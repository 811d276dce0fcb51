import NeumoDrivers.Dvb.UleRoundtrip

/-! What a pass over a TS cell can do, whatever the decoder and the cell are.

    An SNDU leaves the decoder reset. A pass that begins with a TS cell drops it, comes to its payload,
    or makes the decoder wait for PUSI. -/

namespace Dvb.Ule
open Loop Memory

variable {dev : NetDevice} {alloc : SkbAllocator} {turns : ℕ} {buf : ℕ → UInt8} {tsEnd : ℕ}
  {skb : SkBuff} {p q : DvbNetPriv} {h g : DvbNetUleHandle}

/-! ### What an SNDU leaves of the decoder -/

theorem handleUleExtensions_headed {l : ℤ} (h : handleUleExtensions turns skb p = .ok (l, q)) :
    p.headed q = q := by
  have hself : ({ p with uleNextHdr := 0 } : DvbNetPriv).headed { p with uleNextHdr := 0 } =
      { p with uleNextHdr := 0 } := rfl
  have hrun := run_headed skb { p with uleNextHdr := 0 } turns 0 { p with uleNextHdr := 0 }
  rw [hself, handleUleExtensions_ok h] at hrun
  exact (congrArg Prod.snd (Except.ok.inj (Option.some.inj hrun))).symm

/-- At most one packet is handed over, and what is read of an SNDU is forgotten. -/
def DvbNetPriv.Resets (p q : DvbNetPriv) : Prop :=
  ∃ r : List Received, r.length ≤ 1 ∧
    q.resetUle = { p.resetUle with received := p.received ++ r }

theorem DvbNetPriv.Resets.nothing (p : DvbNetPriv) : p.Resets p :=
  ⟨[], Nat.zero_le 1, by rw [List.append_nil]; rfl⟩

theorem uleNetifRx_resets {destAddr : List UInt8} (h : uleNetifRx dev destAddr skb p = .ok q) :
    p.Resets q := by
  rw [uleNetifRx] at h
  split at h
  · cases hpush : skb.push (destAddr ++ zeroAddr ++ htons p.uleSnduType) with
    | error e =>
      rw [hpush] at h
      cases h
    | ok skb' =>
      rw [hpush] at h
      cases h
      exact ⟨[_], Nat.le_refl 1, rfl⟩
  · cases h
    exact ⟨[_], Nat.le_refl 1, rfl⟩

theorem uleExtensions_resets {destAddr : List UInt8}
    (h : uleExtensions dev turns destAddr skb p = .ok q) : p.Resets q := by
  rw [uleExtensions] at h
  split at h
  · cases hcall : handleUleExtensions turns skb p with
    | error e =>
      rw [hcall] at h
      cases h
    | ok x =>
      obtain ⟨l, p'⟩ := x
      have hheaded := handleUleExtensions_headed hcall
      have hreset : p'.resetUle = p.resetUle := by rw [← hheaded]; rfl
      have hreceived : p'.received = p.received := by rw [← hheaded]; rfl
      rw [hcall] at h
      have hq : (if l < 0 then pure p' else uleNetifRx dev destAddr (skb.pull l.toNat) p') =
        Except.ok q := h
      by_cases hl : l < 0
      · rw [if_pos hl] at hq
        cases hq
        exact ⟨[], Nat.zero_le 1, by rw [hreset, List.append_nil]; rfl⟩
      · rw [if_neg hl] at hq
        obtain ⟨r, hr, hq'⟩ := uleNetifRx_resets hq
        exact ⟨r, hr, by rw [hq', hreset, hreceived]⟩
  · exact uleNetifRx_resets h

theorem dvbNetUleCheckCrc_resets {uleCrc expectedCrc : UInt32}
    (h : dvbNetUleCheckCrc dev turns skb uleCrc expectedCrc p = .ok q) : p.Resets q := by
  rw [dvbNetUleCheckCrc] at h
  dsimp only at h
  split at h
  · cases h
    exact .nothing p
  · split at h
    · split at h
      · cases h
        exact .nothing p
      · exact uleExtensions_resets h
    · exact uleExtensions_resets h

theorem uleComplete_reset (h : uleComplete dev turns skb p = .ok q) :
    ∃ r, r.length ≤ 1 ∧ q = { p.resetUle with received := p.received ++ r } := by
  rw [uleComplete] at h
  dsimp only at h
  generalize hcheck : dvbNetUleCheckCrc dev turns skb _ _ p = x at h
  cases x with
  | error e => cases h
  | ok p' =>
    cases h
    exact dvbNetUleCheckCrc_resets hcheck

/-! ### The start of a TS cell -/

namespace DvbNetUleHandle
variable (buf) (h)

/-- The TS cell has an error or is scrambled. -/
def Faulty : Prop :=
  h.tsByte buf 0 ≠ tsSync ∨ h.tsByte buf 1 &&& tsTei ≠ 0 ∨ h.tsByte buf 3 &&& tsSc ≠ 0

def Starts : Prop := h.tsByte buf 1 &&& tsPusi ≠ 0

instance : Decidable (h.Faulty buf) := inferInstanceAs (Decidable (_ ∨ _ ∨ _))

instance : Decidable (h.Starts buf) := inferInstanceAs (Decidable (_ ≠ _))

def counter : ℕ := (h.tsByte buf 3 &&& 0x0F).toNat

def pointer : ℕ := (h.tsByte buf 4).toNat

/-- The continuity counter of the next TS cell is expected. -/
def counted : DvbNetUleHandle :=
  { h.inCell with priv := { h.priv with tscc := (h.priv.tscc + 1) % 16 } }

/-- PUSI has been found, and the decoder is where the pointer field points to. -/
def synced : DvbNetUleHandle :=
  { h.inCell with priv := { h.priv with tscc := h.counter buf } }.skip (1 + h.pointer buf)

/-- The decoder no longer waits for PUSI. -/
def pointed : DvbNetUleHandle :=
  { h.inCell with
    priv := { h.priv with tscc := (h.counter buf + 1) % 16, needPusi := false } }.skip
      (1 + h.pointer buf)

/-- When too much was missing of an SNDU, the decoder follows the pointer field again. -/
def found : DvbNetUleHandle :=
  if h.priv.uleSnduRemain > 183 then
    { h.pointed buf with priv := (h.pointed buf).priv.resetUle }.skip (h.pointer buf)
  else h.pointed buf

end DvbNetUleHandle

/-- PUSI is set, and the pointer field is not wrong. -/
theorem newTsCheck_starts (hcounter : h.counter buf = h.priv.tscc) (hstarts : h.Starts buf)
    (hok : ¬(¬h.priv.needPusi ∧ (¬((h.fromByte buf 0).toNat : ℤ) < h.tsRemain - 1 ∨
      ((h.fromByte buf 0).toNat : ℤ) ≠ h.priv.uleSnduRemain)))
    (hg : (if ¬h.priv.needPusi then
        { h with priv := { h.priv with tscc := (h.priv.tscc + 1) % 16 } }.skip 1
      else { h with priv := { h.priv with
        tscc := (h.priv.tscc + 1) % 16, needPusi := false } }) = g) :
    h.newTsCheck buf =
      (false, if g.priv.uleSnduRemain > 183 then
        { g with priv := g.priv.resetUle }.skip (g.pointer buf) else g) := by
  subst hg
  refine (if_neg (not_not.mpr hcounter)).trans ((if_pos hstarts).trans ((if_neg hok).trans ?_))
  rw [apply_ite (Prod.mk false)]
  rfl

section
variable (hstarts : h.Starts buf)
include hstarts

theorem tsPusiSync_beyond (hlong : 184 < h.pointer buf) : h.inCell.tsPusiSync buf =
    (true, { h.inCell with priv := { h.priv with tscc := h.counter buf } }.nextTs) :=
  (if_pos hstarts).trans (if_pos hlong)

theorem tsPusiSync_synced (hfits : h.pointer buf ≤ 184) :
    h.inCell.tsPusiSync buf = (false, h.synced buf) :=
  (if_pos hstarts).trans (if_neg (Nat.not_lt_of_le hfits))

theorem newTsCheck_synced_found (hneed : h.priv.needPusi = true) :
    (h.synced buf).newTsCheck buf = (false, h.found buf) := by
  have hwaits : ¬¬h.priv.needPusi = true := not_not.mpr hneed
  exact newTsCheck_starts (h := h.synced buf) (g := h.pointed buf) rfl hstarts
    (fun hno => hwaits hno.1) (if_neg hwaits)

section
variable (hneed : h.priv.needPusi = false) (hcounter : h.counter buf = h.priv.tscc)
include hneed hcounter

theorem newTsCheck_mismatch (hno : 183 ≤ h.pointer buf ∨ h.pointer buf ≠ h.priv.uleSnduRemain) :
    h.inCell.newTsCheck buf = (true, h.counted.resync) := by
  refine (if_neg (not_not.mpr hcounter)).trans ((if_pos hstarts).trans ?_)
  refine if_pos ⟨Bool.eq_false_iff.mp hneed, hno.imp (fun hlong hlt => ?_) fun hne heq => ?_⟩
  · have hlt' : (h.pointer buf : ℤ) < 184 - 1 := hlt
    omega
  · have heq' : (h.pointer buf : ℤ) = h.priv.uleSnduRemain := heq
    omega

theorem newTsCheck_ends (hfits : h.pointer buf < 183)
    (hrest : h.pointer buf = h.priv.uleSnduRemain) :
    h.inCell.newTsCheck buf = (false, h.counted.skip 1) := by
  have hok : ¬(¬h.priv.needPusi ∧ (¬(h.pointer buf : ℤ) < (184 : ℕ) - 1 ∨
      (h.pointer buf : ℤ) ≠ h.priv.uleSnduRemain)) := by
    omega
  have hshort : ¬(h.counted.skip 1).priv.uleSnduRemain > 183 := by
    change ¬h.priv.uleSnduRemain > 183
    omega
  rw [newTsCheck_starts (h := h.inCell) (g := h.counted.skip 1) hcounter hstarts hok
    (if_pos (Bool.eq_false_iff.mp hneed)), if_neg hshort]

end

end

theorem tsPusiSync_waits (hinside : ¬h.Starts buf) :
    h.inCell.tsPusiSync buf = (true, h.inCell.nextTs) := if_neg hinside

theorem newTsCheck_counted (hcounter : h.counter buf = h.priv.tscc) (hinside : ¬h.Starts buf) :
    h.inCell.newTsCheck buf = (false, h.counted) :=
  (if_neg (not_not.mpr hcounter)).trans (if_neg hinside)

theorem newTsCheck_gap (hcounter : h.counter buf ≠ h.priv.tscc) :
    h.inCell.newTsCheck buf = (true, h.inCell.resync) := if_pos hcounter

/-- What a pass leads to that begins with a TS cell. -/
inductive CellPass (dev : NetDevice) (alloc : SkbAllocator) (turns : ℕ) (buf : ℕ → UInt8)
    (h : DvbNetUleHandle) : Next DvbNetUleHandle (Except Stop DvbNetPriv) → Prop where
  | faulty (hfaulty : h.Faulty buf) : CellPass dev alloc turns buf h (.again h.resync.nextTs)
  | waits (hneed : h.priv.needPusi = true) (hinside : ¬h.Starts buf) :
    CellPass dev alloc turns buf h (.again h.inCell.nextTs)
  | beyond (hneed : h.priv.needPusi = true) (hstarts : h.Starts buf) (hlong : 184 < h.pointer buf) :
    CellPass dev alloc turns buf h
      (.again { h.inCell with priv := { h.priv with tscc := h.counter buf } }.nextTs)
  | found (hneed : h.priv.needPusi = true) (hstarts : h.Starts buf) (hfits : h.pointer buf ≤ 184) :
    CellPass dev alloc turns buf h (ulePayload dev alloc turns buf (h.found buf))
  | gap (hneed : h.priv.needPusi = false) (hcounter : h.counter buf ≠ h.priv.tscc) :
    CellPass dev alloc turns buf h (.again h.inCell.resync)
  | mismatch (hneed : h.priv.needPusi = false) (hcounter : h.counter buf = h.priv.tscc)
    (hstarts : h.Starts buf) (hno : 183 ≤ h.pointer buf ∨ h.pointer buf ≠ h.priv.uleSnduRemain) :
    CellPass dev alloc turns buf h (.again h.counted.resync)
  | ends (hneed : h.priv.needPusi = false) (hcounter : h.counter buf = h.priv.tscc)
    (hstarts : h.Starts buf) (hfits : h.pointer buf < 183)
    (hrest : h.pointer buf = h.priv.uleSnduRemain) :
    CellPass dev alloc turns buf h (ulePayload dev alloc turns buf (h.counted.skip 1))
  | inside (hneed : h.priv.needPusi = false) (hcounter : h.counter buf = h.priv.tscc)
    (hinside : ¬h.Starts buf) :
    CellPass dev alloc turns buf h (ulePayload dev alloc turns buf h.counted)

section
variable (hend : h.ts < tsEnd) (hnew : h.newTs = true)
include hend hnew

/-- The TS cell has no error. -/
theorem uleBody_inCell (hfine : ¬h.Faulty buf) :
    uleBody dev alloc turns buf tsEnd h =
      match if h.priv.needPusi then h.inCell.tsPusiSync buf else (false, h.inCell) with
      | (true, g) => .again g
      | (false, g) =>
        match if g.newTs then g.newTsCheck buf else (false, g) with
        | (true, g) => .again g
        | (false, g) => ulePayload dev alloc turns buf g := by
  have hcell : h.newTsCell buf = (false, h.inCell) := if_neg hfine
  rw [uleBody, if_neg (Nat.not_le_of_lt hend), hnew, if_pos rfl, hcell]
  rfl

theorem uleBody_cellPass :
    CellPass dev alloc turns buf h (uleBody dev alloc turns buf tsEnd h) := by
  by_cases hfaulty : h.Faulty buf
  · have hcell : h.newTsCell buf = (true, h.resync.nextTs) := if_pos hfaulty
    rw [uleBody, if_neg (Nat.not_le_of_lt hend), hnew, if_pos rfl, hcell]
    exact .faulty hfaulty
  rw [uleBody_inCell hend hnew hfaulty]
  cases hneed : h.priv.needPusi with
  | true =>
    rw [if_pos rfl]
    by_cases hstarts : h.Starts buf
    · by_cases hlong : 184 < h.pointer buf
      · rw [tsPusiSync_beyond hstarts hlong]
        exact .beyond hneed hstarts hlong
      · have hnew' : (h.synced buf).newTs = true := hnew
        rw [tsPusiSync_synced hstarts (Nat.le_of_not_lt hlong)]
        dsimp only
        rw [hnew', if_pos rfl, newTsCheck_synced_found hstarts hneed]
        exact .found hneed hstarts (Nat.le_of_not_lt hlong)
    · rw [tsPusiSync_waits hstarts]
      exact .waits hneed hstarts
  | false =>
    have hnew' : h.inCell.newTs = true := hnew
    rw [if_neg Bool.false_ne_true]
    dsimp only
    rw [hnew', if_pos rfl]
    by_cases hcounter : h.counter buf = h.priv.tscc
    · by_cases hstarts : h.Starts buf
      · by_cases hno : 183 ≤ h.pointer buf ∨ h.pointer buf ≠ h.priv.uleSnduRemain
        · rw [newTsCheck_mismatch hstarts hneed hcounter hno]
          exact .mismatch hneed hcounter hstarts hno
        · obtain ⟨hfits, hrest⟩ := not_or.mp hno
          rw [newTsCheck_ends hstarts hneed hcounter (Nat.lt_of_not_le hfits) (not_not.mp hrest)]
          exact .ends hneed hcounter hstarts (Nat.lt_of_not_le hfits) (not_not.mp hrest)
      · rw [newTsCheck_counted hcounter hstarts]
        exact .inside hneed hcounter hstarts
    · rw [newTsCheck_gap hcounter]
      exact .gap hneed hcounter

end

end Dvb.Ule

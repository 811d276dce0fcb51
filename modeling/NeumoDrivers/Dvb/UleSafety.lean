import NeumoDrivers.Dvb.UleStates

/-! Whether the ULE decoder stays inside its data.

    The acts of a pass are the bytes of the buffer that it reads, what it takes from `ts_remain`, and
    what it copies to the skb. They are safe wherever the decoder gets, but for one pointer field: 184
    passes the check of a decoder that waits for PUSI, and leads one byte too far. The handlers of
    extension headers read where the received lengths lead them. -/

namespace Dvb.Ule
open Loop Memory DvbNetUleHandle

variable {dev : NetDevice} {alloc : SkbAllocator} {turns passes : ℕ} {buf : ℕ → UInt8} {tsEnd : ℕ}
  {skb : SkBuff} {p q : DvbNetPriv} {h g : DvbNetUleHandle} {calls : List Call} {call : Call}

/-! ### What a pass does -/

/-- A byte of the buffer is read, `n` is taken from a `ts_remain` of `remain`, or `n` bytes are copied
    to an skb that has room for `room`. -/
inductive Act where
  | read (place : ℕ)
  | skip (remain n : ℕ)
  | copy (n room : ℕ)

/-- Only the TS cell at `ts` is read, `ts_remain` does not wrap, and what is copied fits. -/
def Act.Safe (ts : ℕ) : Act → Prop
  | .read place => ts ≤ place ∧ place < ts + tsSz
  | .skip remain n => n ≤ remain
  | .copy n room => n ≤ room

namespace DvbNetUleHandle
variable (buf : ℕ → UInt8) (h : DvbNetUleHandle)

def newTsCellActs : List Act := [.read h.ts, .read (h.ts + 1), .read (h.ts + 3)]

def tsPusiSyncActs : List Act :=
  .read (h.ts + 1) ::
    if h.tsByte buf 1 &&& tsPusi ≠ 0 then
      .read (h.ts + 3) :: .read (h.ts + 4) ::
        if (h.tsByte buf 4).toNat > h.tsRemain then []
        else [.skip h.tsRemain (1 + (h.tsByte buf 4).toNat)]
    else []

def newTsCheckActs : List Act :=
  .read (h.ts + 3) ::
    if (h.tsByte buf 3 &&& 0x0F).toNat ≠ h.priv.tscc then []
    else
      .read (h.ts + 1) ::
        if h.tsByte buf 1 &&& tsPusi ≠ 0 then
          let pointer := (h.fromByte buf 0).toNat
          (if ¬h.priv.needPusi then [.read h.fromWhere] else []) ++
            if ¬h.priv.needPusi ∧
                (¬(pointer : ℤ) < h.tsRemain - 1 ∨ (pointer : ℤ) ≠ h.priv.uleSnduRemain) then []
            else
              let remain := if ¬h.priv.needPusi then (h.skip 1).tsRemain else h.tsRemain
              (if ¬h.priv.needPusi then [.skip h.tsRemain 1] else []) ++
                if h.priv.uleSnduRemain > 183 then
                  [.read (h.ts + 4), .skip remain (h.tsByte buf 4).toNat]
                else []
        else []

def readTypeActs : List Act :=
  if h.priv.uleSnduType1 then [.read h.fromWhere, .skip h.tsRemain 1]
  else [.read h.fromWhere, .read (h.fromWhere + 1), .skip h.tsRemain 2]

def payloadHeaderActs : List Act :=
  if h.tsRemain = 0 then []
  else if h.tsRemain = 1 then [.read h.fromWhere, .skip h.tsRemain 1]
  else h.readTypeActs

def newPayloadActs : List Act :=
  if h.tsRemain < 2 then []
  else if h.priv.uleSnduLen = 0 then
    .read h.fromWhere :: .read (h.fromWhere + 1) ::
      if (h.readLength buf).priv.uleSnduLen < 5 then []
      else .skip h.tsRemain 2 :: ((h.readLength buf).skip 2).payloadHeaderActs
  else h.payloadHeaderActs

def nextSnduActs : List Act :=
  if 2 ≤ h.tsRemain then [.read h.fromWhere, .read (h.fromWhere + 1)] else []

def uleCopyActs (skb : SkBuff) : List Act :=
  let howMuch := min h.priv.uleSnduRemain h.tsRemain
  .copy howMuch skb.tailroom :: .skip h.tsRemain howMuch ::
    (List.range howMuch).map (fun i => .read (h.fromWhere + i)) ++ (h.skip howMuch).nextSnduActs

def ulePayloadActs (alloc : SkbAllocator) : List Act :=
  match h.priv.uleSkb with
  | some skb => h.uleCopyActs skb
  | none =>
    let (ret, g) := h.newPayload buf alloc
    h.newPayloadActs buf ++
      if ret ≠ 0 then []
      else
        match g.priv.uleSkb with
        | some skb => g.uleCopyActs skb
        | none => []

/-- The acts of a pass, at most. -/
def passActs (alloc : SkbAllocator) (tsEnd : ℕ) : List Act :=
  if tsEnd ≤ h.ts then []
  else
    (if h.newTs then h.newTsCellActs else []) ++
      match if h.newTs then h.newTsCell buf else (false, h) with
      | (true, _) => []
      | (false, h) =>
        (if h.priv.needPusi then h.tsPusiSyncActs buf else []) ++
          match if h.priv.needPusi then h.tsPusiSync buf else (false, h) with
          | (true, _) => []
          | (false, h) =>
            (if h.newTs then h.newTsCheckActs buf else []) ++
              match if h.newTs then h.newTsCheck buf else (false, h) with
              | (true, _) => []
              | (false, h) => h.ulePayloadActs buf alloc

/-- What is left of the TS cell ends where the cell ends. -/
structure InPlace : Prop where
  start : h.ts + 4 ≤ h.fromWhere
  stop : h.fromWhere + h.tsRemain = h.ts + tsSz

end DvbNetUleHandle

/-! ### Payload -/

def AllSafe (ts : ℕ) (acts : List Act) : Prop := ∀ a ∈ acts, a.Safe ts

section
variable {ts : ℕ} {a : Act} {acts acts' : List Act}

@[simp]
theorem allSafe_nil : AllSafe ts [] := nofun

@[simp]
theorem allSafe_cons : AllSafe ts (a :: acts) ↔ a.Safe ts ∧ AllSafe ts acts := List.forall_mem_cons

@[simp]
theorem allSafe_append : AllSafe ts (acts ++ acts') ↔ AllSafe ts acts ∧ AllSafe ts acts' :=
  List.forall_mem_append

end

theorem DvbNetUleHandle.InPlace.skip {n : ℕ} (hplace : h.InPlace) (hn : n ≤ h.tsRemain) : (h.skip n).InPlace := by
  have hstart := hplace.start
  have hstop := hplace.stop
  rw [tsSz] at hstop
  have hremain : (h.skip n).tsRemain = h.tsRemain - n := skip_remain hn (by omega)
  refine ⟨Nat.le_trans hstart (Nat.le_add_right _ _), ?_⟩
  rw [hremain]
  change h.fromWhere + n + (h.tsRemain - n) = h.ts + 188
  omega

theorem DvbNetUleHandle.InPlace.read {i : ℕ} (hplace : h.InPlace) (hi : i < h.tsRemain) :
    Act.Safe h.ts (.read (h.fromWhere + i)) := by
  have hstart := hplace.start
  have hstop := hplace.stop
  constructor
  · omega
  · omega

theorem nextSnduActs_safe (hplace : h.InPlace) : AllSafe h.ts h.nextSnduActs := by
  rw [nextSnduActs]
  split
  · rename_i hmore
    have h0 := hplace.read (show 0 < h.tsRemain by omega)
    have h1 := hplace.read (show 1 < h.tsRemain by omega)
    simpa using ⟨h0, h1⟩
  · exact allSafe_nil

theorem uleCopyActs_safe (hfills : h.priv.Fills skb) (hplace : h.InPlace) :
    AllSafe h.ts (h.uleCopyActs skb) := by
  have hremain := Nat.min_le_right h.priv.uleSnduRemain h.tsRemain
  have hcopy : Act.Safe h.ts (.copy (min h.priv.uleSnduRemain h.tsRemain) skb.tailroom) := by
    rw [hfills.awaits.tailroom]
    exact Nat.min_le_left _ _
  have hreads : AllSafe h.ts ((List.range (min h.priv.uleSnduRemain h.tsRemain)).map
      fun i => .read (h.fromWhere + i)) := by
    intro a ha
    obtain ⟨i, hi, rfl⟩ := List.mem_map.mp ha
    exact hplace.read (Nat.lt_of_lt_of_le (List.mem_range.mp hi) hremain)
  have hnext : AllSafe h.ts (h.skip (min h.priv.uleSnduRemain h.tsRemain)).nextSnduActs :=
    nextSnduActs_safe (hplace.skip hremain)
  rw [uleCopyActs]
  simp only [List.cons_append, allSafe_cons, allSafe_append]
  exact ⟨hcopy, hremain, hreads, hnext⟩

theorem readTypeActs_safe (hplace : h.InPlace) (h2 : 2 ≤ h.tsRemain) :
    AllSafe h.ts h.readTypeActs := by
  have h0 := hplace.read (show 0 < h.tsRemain by omega)
  have h1 := hplace.read (show 1 < h.tsRemain by omega)
  rw [readTypeActs]
  split
  · simp only [allSafe_cons, allSafe_nil, and_true]
    exact ⟨h0, (by omega : 1 ≤ h.tsRemain)⟩
  · simp only [allSafe_cons, allSafe_nil, and_true]
    exact ⟨h0, h1, h2⟩

theorem payloadHeaderActs_safe (hplace : h.InPlace) : AllSafe h.ts h.payloadHeaderActs := by
  rw [payloadHeaderActs]
  split
  · exact allSafe_nil
  split
  · rename_i h1
    have h0 := hplace.read (show 0 < h.tsRemain by omega)
    simp only [allSafe_cons, allSafe_nil, and_true]
    exact ⟨h0, (by omega : 1 ≤ h.tsRemain)⟩
  · exact readTypeActs_safe hplace (by omega)

theorem readLength_inPlace (hplace : h.InPlace) : (h.readLength buf).InPlace := by
  obtain ⟨len, dbit, hview⟩ := readLength_view h buf
  rw [hview]
  exact ⟨hplace.start, hplace.stop⟩

theorem newPayloadActs_safe (hplace : h.InPlace) : AllSafe h.ts (h.newPayloadActs buf) := by
  rw [newPayloadActs]
  split
  · exact allSafe_nil
  rename_i h2
  split
  · have h0 := hplace.read (show 0 < h.tsRemain by omega)
    have h1 := hplace.read (show 1 < h.tsRemain by omega)
    refine allSafe_cons.mpr ⟨h0, allSafe_cons.mpr ⟨h1, ?_⟩⟩
    split
    · exact allSafe_nil
    · have hskip : ((h.readLength buf).skip 2).InPlace := by
        refine (readLength_inPlace hplace).skip ?_
        obtain ⟨len, dbit, hview⟩ := readLength_view h buf
        rw [hview]
        exact Nat.le_of_not_lt h2
      have hts : ((h.readLength buf).skip 2).ts = h.ts := by
        obtain ⟨len, dbit, hview⟩ := readLength_view h buf
        rw [hview]
        rfl
      have hheader := payloadHeaderActs_safe hskip
      rw [hts] at hheader
      exact allSafe_cons.mpr ⟨Nat.le_of_not_lt h2, hheader⟩
  · exact payloadHeaderActs_safe hplace

/-! ### Where a pass leads to -/

theorem nextSndu_inPlace (hplace : h.InPlace) (hold : (h.nextSndu buf).newTs = false) :
    (h.nextSndu buf).InPlace := by
  rw [nextSndu] at hold ⊢
  split at hold
  · rename_i hmore
    rw [if_pos hmore]
    exact ⟨hplace.start, hplace.stop⟩
  · dsimp only at hold
    split at hold
    · cases hold
    · cases hold

theorem uleCopy_inPlace (hplace : h.InPlace) (hcopy : uleCopy dev turns buf skb h = .again g)
    (hold : g.newTs = false) : g.InPlace := by
  have hskip := hplace.skip (Nat.min_le_right h.priv.uleSnduRemain h.tsRemain)
  rw [uleCopy] at hcopy
  dsimp only at hcopy
  split at hcopy
  · cases hcopy
  · split at hcopy
    · split at hcopy
      · cases hcopy
      · cases hcopy
        exact nextSndu_inPlace ⟨hskip.start, hskip.stop⟩ hold
    · cases hcopy
      exact nextSndu_inPlace ⟨hskip.start, hskip.stop⟩ hold

theorem allocSkb_inPlace (hplace : h.InPlace) : (h.allocSkb alloc).2.InPlace := by
  rw [allocSkb]
  dsimp only
  split
  · exact ⟨hplace.start, hplace.stop⟩
  · exact ⟨hplace.start, hplace.stop⟩

theorem payloadHeader_inPlace (hplace : h.InPlace) (hret : (h.payloadHeader buf alloc).1 = 0) :
    (h.payloadHeader buf alloc).2.InPlace := by
  rw [payloadHeader] at hret ⊢
  dsimp only at hret ⊢
  split at hret
  · cases hret
  split at hret
  · cases hret
  · rename_i h0 h1
    rw [if_neg h0, if_neg h1]
    obtain ⟨type, htype⟩ := readType_view
      { h with priv := { h.priv with uleSnduRemain := h.priv.uleSnduLen + 2 } } buf
    have hskip : (h.skip (if h.priv.uleSnduType1 then 1 else 2)).InPlace := by
      refine hplace.skip ?_
      split
      · omega
      · omega
    rw [htype]
    exact allocSkb_inPlace ⟨hskip.start, hskip.stop⟩

theorem newPayload_inPlace (hplace : h.InPlace) (hret : (h.newPayload buf alloc).1 = 0) :
    (h.newPayload buf alloc).2.InPlace := by
  rw [newPayload] at hret ⊢
  split at hret
  · cases hret
  rename_i h2
  rw [if_neg h2]
  obtain ⟨len, dbit, hview⟩ := readLength_view h buf
  rw [hview] at hret ⊢
  split at hret
  · rename_i hzero
    rw [if_pos hzero]
    dsimp only at hret ⊢
    split at hret
    · cases hret
    · rename_i hlong
      rw [if_neg hlong]
      have hskip := hplace.skip (Nat.le_of_not_lt h2)
      exact payloadHeader_inPlace ⟨hskip.start, hskip.stop⟩ hret
  · rename_i hlen
    rw [if_neg hlen]
    exact payloadHeader_inPlace hplace hret

/-- From the payload of a TS cell on, a pass is safe, and what is left of the cell stays in place. -/
theorem ulePayload_safe (henters : h.Enters) (hplace : h.InPlace) :
    AllSafe h.ts (h.ulePayloadActs buf alloc) ∧
      ∀ g, ulePayload dev alloc turns buf h = .again g → g.newTs = false → g.InPlace := by
  rw [ulePayloadActs, ulePayload]
  cases hskb : h.priv.uleSkb with
  | some skb =>
    have hfills : h.priv.Fills skb :=
      ⟨hskb, henters.sane.skb skb hskb, henters.sane.bridged, henters.needPusi⟩
    exact ⟨uleCopyActs_safe hfills hplace, fun g hcopy hold => uleCopy_inPlace hplace hcopy hold⟩
  | none =>
    have hacts : AllSafe h.ts (h.newPayloadActs buf) := newPayloadActs_safe hplace
    have hheads := @newPayload_heads alloc buf h henters hskb
    have hmoves := @newPayload_moves alloc buf h henters.needPusi henters.most henters.placed
    have hthere := @newPayload_inPlace alloc buf h hplace
    generalize h.newPayload buf alloc = x at hheads hmoves hthere
    obtain ⟨ret, g⟩ := x
    dsimp only at hheads hmoves hthere ⊢
    rcases hmoves with hneg | ⟨rfl, -, hnew⟩ | ⟨rfl, hts, -, -, -⟩
    · have hne : ret ≠ 0 := Int.ne_of_lt hneg
      rw [if_pos hne, if_pos hneg, List.append_nil]
      exact ⟨hacts, by rintro _ ⟨⟩⟩
    · rw [if_pos (by decide), if_neg (by decide), if_pos (by decide), List.append_nil]
      refine ⟨hacts, fun g' hg' hold => ?_⟩
      cases hg'
      rw [hnew] at hold
      cases hold
    · obtain ⟨skb, hfills⟩ := hheads.fills rfl
      have hplace' := hthere rfl
      rw [if_neg (not_not.mpr rfl), if_neg (Int.lt_irrefl 0), if_neg (not_not.mpr rfl), hfills.has]
      have hcopy := uleCopyActs_safe hfills hplace'
      rw [hts] at hcopy
      exact ⟨allSafe_append.mpr ⟨hacts, hcopy⟩,
        fun g' hg' hold => uleCopy_inPlace hplace' hg' hold⟩

/-! ### The start of a TS cell -/

/-- A decoder that waits for PUSI finds a pointer field that passes the check and leads too far. -/
def DvbNetUleHandle.PointsPast (buf : ℕ → UInt8) (h : DvbNetUleHandle) : Prop :=
  h.newTs = true ∧ ¬h.Faulty buf ∧ h.priv.needPusi = true ∧ h.Starts buf ∧ h.pointer buf = 184

theorem inCell_inPlace (h : DvbNetUleHandle) : h.inCell.InPlace :=
  ⟨Nat.le_refl _, Nat.add_assoc h.ts 4 184⟩

section
variable (hend : h.ts < tsEnd) (hnew : h.newTs = true)
include hend hnew

theorem passActs_faulty (hfaulty : h.Faulty buf) :
    h.passActs buf alloc tsEnd = h.newTsCellActs := by
  have hcell : h.newTsCell buf = (true, h.resync.nextTs) := if_pos hfaulty
  rw [passActs, if_neg (Nat.not_le_of_lt hend), hnew, if_pos rfl, if_pos rfl, hcell,
    List.append_nil]

theorem passActs_fine (hfine : ¬h.Faulty buf) : h.passActs buf alloc tsEnd = h.newTsCellActs ++
    ((if h.priv.needPusi then h.inCell.tsPusiSyncActs buf else []) ++
      match if h.priv.needPusi then h.inCell.tsPusiSync buf else (false, h.inCell) with
      | (true, _) => []
      | (false, g) =>
        (if g.newTs then g.newTsCheckActs buf else []) ++
          match if g.newTs then g.newTsCheck buf else (false, g) with
          | (true, _) => []
          | (false, g) => g.ulePayloadActs buf alloc) := by
  have hcell : h.newTsCell buf = (false, h.inCell) := if_neg hfine
  rw [passActs, if_neg (Nat.not_le_of_lt hend), hnew, if_pos rfl, if_pos rfl, hcell]
  rfl

end

theorem passActs_within (hend : h.ts < tsEnd) (hwithin : h.Within) :
    h.passActs buf alloc tsEnd = [] ++ h.ulePayloadActs buf alloc := by
  rw [passActs, if_neg (Nat.not_le_of_lt hend), hwithin.newTs]
  simp only [Bool.false_eq_true, if_false, List.nil_append, hwithin.needPusi, hwithin.newTs]

theorem newTsCellActs_safe (h : DvbNetUleHandle) : AllSafe h.ts h.newTsCellActs := by
  simp only [newTsCellActs, allSafe_cons, allSafe_nil, and_true, Act.Safe, tsSz]
  omega

theorem tsPusiSyncActs_safe (hno : h.Starts buf → h.pointer buf ≠ 184) :
    AllSafe h.ts (h.inCell.tsPusiSyncActs buf) := by
  have hread (i : ℕ) (hi : i < 188) : Act.Safe h.ts (.read (h.ts + i)) :=
    ⟨Nat.le_add_right _ _, Nat.add_lt_add_left hi _⟩
  rw [tsPusiSyncActs]
  refine allSafe_cons.mpr ⟨hread 1 (by decide), ?_⟩
  split
  · rename_i hstarts
    refine allSafe_cons.mpr ⟨hread 3 (by decide), allSafe_cons.mpr ⟨hread 4 (by decide), ?_⟩⟩
    split
    · exact allSafe_nil
    · rename_i hfits
      have hpointer : h.pointer buf ≠ 184 := hno hstarts
      have hle : ¬h.pointer buf > 184 := hfits
      have hskip : Act.Safe h.ts (.skip 184 (1 + h.pointer buf)) := by
        change 1 + h.pointer buf ≤ 184
        omega
      exact allSafe_cons.mpr ⟨hskip, allSafe_nil⟩
  · exact allSafe_nil

theorem newTsCheckActs_safe (hplace : h.InPlace)
    (hwaits : h.priv.needPusi = true → h.priv.uleSnduRemain ≤ 183)
    (hholds : h.priv.needPusi = false → h.tsRemain = 184) :
    AllSafe h.ts (h.newTsCheckActs buf) := by
  have hread (i : ℕ) (hi : i < 188) : Act.Safe h.ts (.read (h.ts + i)) :=
    ⟨Nat.le_add_right _ _, Nat.add_lt_add_left hi _⟩
  rw [newTsCheckActs]
  refine allSafe_cons.mpr ⟨hread 3 (by decide), ?_⟩
  split
  · exact allSafe_nil
  refine allSafe_cons.mpr ⟨hread 1 (by decide), ?_⟩
  split
  swap
  · exact allSafe_nil
  cases hneed : h.priv.needPusi with
  | true =>
    have hshort : ¬h.priv.uleSnduRemain > 183 := Nat.not_lt_of_le (hwaits hneed)
    simp [hshort]
  | false =>
    have hremain := hholds hneed
    have hfirst : Act.Safe h.ts (.read h.fromWhere) := hplace.read (i := 0) (by omega)
    have hskip : Act.Safe h.ts (.skip h.tsRemain 1) := by
      rw [hremain]
      exact (by decide : 1 ≤ 184)
    dsimp only
    simp only [Bool.false_eq_true, not_false_eq_true, if_true, true_and, allSafe_append,
      allSafe_cons, allSafe_nil, and_true]
    refine ⟨hfirst, ?_⟩
    split
    · exact allSafe_nil
    · rename_i hok
      -- as much as that cannot remain when the pointer field is right
      have hshort : ¬h.priv.uleSnduRemain > 183 := by omega
      rw [if_neg hshort]
      exact allSafe_cons.mpr ⟨hskip, allSafe_nil⟩

/-! ### A pass, and a run -/

/-- What holds at the start of a pass when no pointer field has led too far. -/
structure DvbNetUleHandle.Kept (h : DvbNetUleHandle) : Prop where
  sane : h.Sane
  place : h.newTs = false → h.InPlace

theorem pass_safe (hkept : h.Kept) (hno : ¬h.PointsPast buf) :
    AllSafe h.ts (h.passActs buf alloc tsEnd) ∧
      ∀ g, uleBody dev alloc turns buf tsEnd h = .again g → g.Kept := by
  have hnext (hold : ∀ g, uleBody dev alloc turns buf tsEnd h = .again g → g.newTs = false →
      g.InPlace) (g : DvbNetUleHandle) (hpass : uleBody dev alloc turns buf tsEnd h = .again g) :
      g.Kept := by
    have horderly := @uleBody_orderly dev alloc turns buf tsEnd h hkept.sane
    rw [hpass] at horderly
    exact ⟨horderly, hold g hpass⟩
  by_cases hend : h.ts < tsEnd
  swap
  · rw [passActs, if_pos (Nat.le_of_not_lt hend)]
    refine ⟨allSafe_nil, hnext fun g hpass => ?_⟩
    rw [uleBody, if_pos (Nat.le_of_not_lt hend)] at hpass
    cases hpass
  -- the acts of the payload come last
  have hpayload {acts : List Act} {g : DvbNetUleHandle} (hacts : AllSafe h.ts acts)
      (henters : g.Enters) (hplace : g.InPlace) (hts : g.ts = h.ts)
      (hbody : uleBody dev alloc turns buf tsEnd h = ulePayload dev alloc turns buf g) :
      AllSafe h.ts (acts ++ g.ulePayloadActs buf alloc) ∧
        ∀ g, uleBody dev alloc turns buf tsEnd h = .again g → g.Kept := by
    obtain ⟨hsafe, hthere⟩ := @ulePayload_safe dev alloc turns buf g henters hplace
    rw [hts] at hsafe
    exact ⟨allSafe_append.mpr ⟨hacts, hsafe⟩, hnext (by rw [hbody]; exact hthere)⟩
  -- or the pass leads to another TS cell, or back to this one
  have hcell {acts : List Act} {g : DvbNetUleHandle} (hacts : AllSafe h.ts acts)
      (hbody : uleBody dev alloc turns buf tsEnd h = .again g) (hnew : g.newTs = true) :
      AllSafe h.ts acts ∧ ∀ g, uleBody dev alloc turns buf tsEnd h = .again g → g.Kept := by
    refine ⟨hacts, hnext fun g' hpass hold => ?_⟩
    rw [hbody] at hpass
    cases hpass
    rw [hnew] at hold
    cases hold
  have hfirst := newTsCellActs_safe h
  rcases hkept.sane.placed with hnew | hwithin
  · by_cases hfaulty : h.Faulty buf
    · rw [passActs_faulty hend hnew hfaulty]
      refine hcell hfirst (g := h.resync.nextTs) ?_ hnew
      have hfail : h.newTsCell buf = (true, h.resync.nextTs) := if_pos hfaulty
      rw [uleBody, if_neg (Nat.not_le_of_lt hend), hnew, if_pos rfl, hfail]
    · have hbody := @uleBody_inCell dev alloc turns buf tsEnd h hend hnew hfaulty
      rw [passActs_fine hend hnew hfaulty]
      cases hneed : h.priv.needPusi with
      | true =>
        have hsync : AllSafe h.ts (h.inCell.tsPusiSyncActs buf) :=
          tsPusiSyncActs_safe fun hstarts hpointer =>
            hno ⟨hnew, hfaulty, hneed, hstarts, hpointer⟩
        rw [hneed, if_pos rfl] at hbody
        rw [if_pos rfl, if_pos rfl, ← List.append_assoc]
        by_cases hstarts : h.Starts buf
        swap
        · rw [tsPusiSync_waits hstarts] at hbody ⊢
          rw [List.append_nil]
          exact hcell (allSafe_append.mpr ⟨hfirst, hsync⟩) hbody hnew
        by_cases hlong : 184 < h.pointer buf
        · rw [tsPusiSync_beyond hstarts hlong] at hbody ⊢
          rw [List.append_nil]
          exact hcell (allSafe_append.mpr ⟨hfirst, hsync⟩) hbody hnew
        · have hnew' : (h.synced buf).newTs = true := hnew
          have hfits : 1 + h.pointer buf ≤ h.inCell.tsRemain := by
            have hpointer : h.pointer buf ≠ 184 := fun hpointer =>
              hno ⟨hnew, hfaulty, hneed, hstarts, hpointer⟩
            change 1 + h.pointer buf ≤ 184
            omega
          have hplace := (inCell_inPlace h).skip hfits
          have hcheck : AllSafe h.ts ((h.synced buf).newTsCheckActs buf) := by
            refine @newTsCheckActs_safe buf (h.synced buf) ⟨hplace.start, hplace.stop⟩
              (fun _ => ?_) fun hheld => ?_
            · rw [show (h.synced buf).priv.uleSnduRemain = 0 from
                (hkept.sane.priv.waits hneed).remain]
              decide
            · rw [show (h.synced buf).priv.needPusi = true from hneed] at hheld
              cases hheld
          rw [tsPusiSync_synced hstarts (Nat.le_of_not_lt hlong)] at hbody ⊢
          dsimp only at hbody ⊢
          rw [hnew', if_pos rfl, newTsCheck_synced_found hstarts hneed,
            found_eq hkept.sane.priv hneed] at hbody
          rw [hnew', if_pos rfl, if_pos rfl, newTsCheck_synced_found hstarts hneed,
            found_eq hkept.sane.priv hneed, ← List.append_assoc]
          exact hpayload (allSafe_append.mpr ⟨allSafe_append.mpr ⟨hfirst, hsync⟩, hcheck⟩)
            (pointed_enters hkept.sane.priv hnew hneed) ⟨hplace.start, hplace.stop⟩ rfl hbody
      | false =>
        have hnew' : h.inCell.newTs = true := hnew
        have hcheck : AllSafe h.ts (h.inCell.newTsCheckActs buf) := by
          refine @newTsCheckActs_safe buf h.inCell (inCell_inPlace h) (fun hwaits => ?_) fun _ => rfl
          rw [show h.inCell.priv.needPusi = false from hneed] at hwaits
          cases hwaits
        have hboth := allSafe_append.mpr ⟨hfirst, hcheck⟩
        rw [hneed, if_neg Bool.false_ne_true] at hbody
        dsimp only at hbody
        rw [hnew', if_pos rfl] at hbody
        rw [if_neg Bool.false_ne_true, if_neg Bool.false_ne_true, List.nil_append]
        dsimp only
        rw [hnew', if_pos rfl, if_pos rfl, ← List.append_assoc]
        by_cases hcounter : h.counter buf = h.priv.tscc
        swap
        · rw [newTsCheck_gap hcounter] at hbody ⊢
          rw [List.append_nil]
          exact hcell hboth hbody hnew
        by_cases hstarts : h.Starts buf
        swap
        · rw [newTsCheck_counted hcounter hstarts] at hbody ⊢
          exact hpayload hboth (counted_enters hkept.sane.priv hnew hneed)
            ⟨(inCell_inPlace h).start, (inCell_inPlace h).stop⟩ rfl hbody
        by_cases hbad : 183 ≤ h.pointer buf ∨ h.pointer buf ≠ h.priv.uleSnduRemain
        · rw [newTsCheck_mismatch hstarts hneed hcounter hbad] at hbody ⊢
          rw [List.append_nil]
          exact hcell hboth hbody hnew
        · obtain ⟨hfits, hrest⟩ := not_or.mp hbad
          have hends := newTsCheck_ends hstarts hneed hcounter (Nat.lt_of_not_le hfits)
            (not_not.mp hrest)
          have hplace := (inCell_inPlace h).skip (show 1 ≤ 184 by decide)
          rw [hends] at hbody ⊢
          exact hpayload hboth (counted_skip_enters hkept.sane.priv hnew hneed)
            ⟨hplace.start, hplace.stop⟩ rfl hbody
  · have hbody := @uleBody_within dev alloc turns buf tsEnd h hend hwithin
    rw [passActs_within hend hwithin]
    exact hpayload allSafe_nil (within_enters hkept.sane.priv hwithin) (hkept.place hwithin.newTs)
      rfl hbody

/-- The pointer field takes more from `ts_remain` than there is. -/
theorem not_safe_of_past (hend : h.ts < tsEnd) (hpast : h.PointsPast buf) :
    ¬AllSafe h.ts (h.passActs buf alloc tsEnd) := by
  obtain ⟨hnew, hfine, hneed, hstarts, hpointer⟩ := hpast
  intro hsafe
  rw [passActs_fine hend hnew hfine, hneed, if_pos rfl, tsPusiSyncActs] at hsafe
  have hsync := (allSafe_append.mp (allSafe_append.mp hsafe).2).1
  have hrest := (allSafe_cons.mp hsync).2
  have hcond : h.inCell.tsByte buf 1 &&& tsPusi ≠ 0 := hstarts
  rw [if_pos hcond] at hrest
  have hlast := (allSafe_cons.mp (allSafe_cons.mp hrest).2).2
  have hfits : ¬(h.inCell.tsByte buf 4).toNat > h.inCell.tsRemain :=
    Nat.not_lt_of_le (show h.pointer buf ≤ 184 from Nat.le_of_eq hpointer)
  rw [if_neg hfits] at hlast
  have hskip : 1 + h.pointer buf ≤ 184 := (allSafe_cons.mp hlast).1
  omega

/-- A call is safe exactly when a decoder that waits for PUSI finds no pointer field of 184. -/
theorem passes_safe_iff (hp : p.Sane) :
    (∀ h, Visits (uleBody dev alloc turns buf tsEnd) p.handle h →
      AllSafe h.ts (h.passActs buf alloc tsEnd) ∧
        uleBody dev alloc turns buf tsEnd h ≠ .exit (.error .panic)) ↔
    ∀ h, Visits (uleBody dev alloc turns buf tsEnd) p.handle h → h.ts < tsEnd →
      ¬h.PointsPast buf := by
  constructor
  · intro hsafe h hvisits hend hpast
    exact not_safe_of_past hend hpast (hsafe h hvisits).1
  · intro hno h hvisits
    have hkept : h.Kept := by
      induction hvisits with
      | start => exact ⟨⟨hp, .inl rfl⟩, nofun⟩
      | @pass g g' hg hpass ih =>
        refine (pass_safe ih fun hpast => ?_).2 g' hpass
        by_cases hend : g.ts < tsEnd
        · exact hno g hg hend hpast
        · rw [uleBody, if_pos (Nat.le_of_not_lt hend)] at hpass
          cases hpass
    refine ⟨?_, fun hpanic => ?_⟩
    · by_cases hend : h.ts < tsEnd
      · exact (@pass_safe dev alloc turns _ _ _ hkept (hno h hvisits hend)).1
      · rw [passActs, if_pos (Nat.le_of_not_lt hend)]
        exact allSafe_nil
    · have horderly := @uleBody_orderly dev alloc turns buf tsEnd h hkept.sane
      rw [hpanic] at horderly
      exact horderly rfl

/-! ### Extension headers -/

/-- The bytes of the skb that `handle_one_ule_extension` reads. -/
def handleOneUleExtensionReads (skb : SkBuff) (p : DvbNetPriv) : List ℕ :=
  if extHlen p.uleSnduType = 0 then
    match uleMandatoryExtHandlers (extHtype p.uleSnduType) with
    | none => []
    | some handler =>
      let (extLen, p') := handler skb p
      (if extHtype p.uleSnduType = 1 then [p.uleNextHdr + 12, p.uleNextHdr + 13] else []) ++
        if extLen ≥ 0 then
          let nextHdr := p'.uleNextHdr + extLen.toNat
          if ¬p'.uleBridged then [nextHdr, nextHdr + 1]
          else [nextHdr + p'.typeOffset, nextHdr + p'.typeOffset + 1]
        else []
  else
    let nextHdr := p.uleNextHdr + extHlen p.uleSnduType <<< 1
    [nextHdr - 2, nextHdr - 1]

/-- The length field behind an Ethernet header is right, or it is an EtherType. -/
def FrameFits (skb : SkBuff) (len pos : ℕ) : Prop :=
  skb.ntohs (pos + 12) < ethP8023Min → (len : ℤ) - (pos + ethHlen) = skb.ntohs (pos + 12)

/-- The extension headers of an SNDU whose first one has the type `first`. -/
inductive HeaderAt (skb : SkBuff) (len offset first : ℕ) : ℕ → ℕ → Prop where
  | first : HeaderAt skb len offset first 0 first
  | optional {pos type : ℕ} : HeaderAt skb len offset first pos type → extHlen type ≠ 0 →
    extHtype type ≠ 255 → skb.ntohs (pos + 2 * extHlen type - 2) < ethP8023Min →
    HeaderAt skb len offset first (pos + 2 * extHlen type) (skb.ntohs (pos + 2 * extHlen type - 2))
  | bridged {pos type : ℕ} : HeaderAt skb len offset first pos type → extHlen type = 0 →
    extHtype type = 1 → FrameFits skb len pos → skb.ntohs (pos + offset) < ethP8023Min →
    HeaderAt skb len offset first pos (skb.ntohs (pos + offset))

/-- A header is within the first `m` bytes, and so is what is looked up for it. -/
structure HeaderWithin (skb : SkBuff) (len offset m pos type : ℕ) : Prop where
  tame : extHtype type ≠ 255
  optional : extHlen type ≠ 0 → pos + 2 * extHlen type ≤ m
  bridged : extHlen type = 0 → extHtype type = 1 → pos + ethHlen ≤ m
  lookup : extHlen type = 0 → extHtype type = 1 → FrameFits skb len pos → pos + offset + 2 ≤ m

/-- The headers read nothing but the first `m` bytes, and not more than these are removed. -/
structure HeadersSafe (skb : SkBuff) (p : DvbNetPriv) (m : ℕ) : Prop where
  tame : ∀ t, Visits (uleExtensionBody skb) (0, { p with uleNextHdr := 0 }) t →
    handleOneUleExtension skb t.2 ≠ .error .wild
  reads : ∀ t, Visits (uleExtensionBody skb) (0, { p with uleNextHdr := 0 }) t →
    ∀ i ∈ handleOneUleExtensionReads skb t.2, i < m
  removes : ∀ turns l q, handleUleExtensions turns skb p = .ok (l, q) → l ≤ m

theorem handleOne_tame_iff :
    handleOneUleExtension skb q ≠ .error .wild ↔ extHtype q.uleSnduType ≠ 255 := by
  constructor
  · intro hok h255
    exact hok (if_pos h255)
  · intro h255 hwild
    have hhandles := handleOneUleExtension_handles skb q
    rw [hwild] at hhandles
    cases hhandles with
    | wild hno => exact h255 hno

theorem uleBridgedSndu_fits (hfits : FrameFits skb q.uleSnduLen q.uleNextHdr) :
    uleBridgedSndu skb q = (0, { q with uleBridged := true }) :=
  if_neg fun hbad => hbad.2 (hfits hbad.1)

theorem uleBridgedSndu_misfits (hno : ¬FrameFits skb q.uleSnduLen q.uleNextHdr) :
    uleBridgedSndu skb q = (-1, q) := by
  rw [FrameFits, Classical.not_imp] at hno
  exact if_pos hno

/-- One header, handled where it is. -/
theorem handleOne_within {m : ℕ} :
    handleOneUleExtension skb q ≠ .error .wild ∧ (∀ i ∈ handleOneUleExtensionReads skb q, i < m) ↔
      HeaderWithin skb q.uleSnduLen q.typeOffset m q.uleNextHdr q.uleSnduType := by
  rw [handleOne_tame_iff, handleOneUleExtensionReads]
  by_cases hhlen : extHlen q.uleSnduType = 0
  · rw [if_pos hhlen]
    by_cases h1 : extHtype q.uleSnduType = 1
    · have hsome : uleMandatoryExtHandlers 1 = some uleBridgedSndu := rfl
      rw [h1, hsome]
      dsimp only
      rw [if_pos rfl]
      by_cases hfits : FrameFits skb q.uleSnduLen q.uleNextHdr
      · rw [uleBridgedSndu_fits hfits]
        have hreads : (∀ i ∈ [q.uleNextHdr + 12, q.uleNextHdr + 13] ++
            [q.uleNextHdr + q.typeOffset, q.uleNextHdr + q.typeOffset + 1], i < m) ↔
            q.uleNextHdr + 14 ≤ m ∧ q.uleNextHdr + q.typeOffset + 2 ≤ m := by
          simp only [List.cons_append, List.nil_append, List.forall_mem_cons, List.not_mem_nil,
            false_implies, implies_true, and_true]
          omega
        refine (and_congr_right fun _ => hreads).trans ?_
        constructor
        · rintro ⟨-, hheader, htype⟩
          exact ⟨by rw [h1]; decide, fun hno => absurd hhlen hno, fun _ _ => hheader,
            fun _ _ _ => htype⟩
        · intro hwithin
          exact ⟨by decide, hwithin.bridged hhlen h1, hwithin.lookup hhlen h1 hfits⟩
      · rw [uleBridgedSndu_misfits hfits]
        have hreads : (∀ i ∈ [q.uleNextHdr + 12, q.uleNextHdr + 13] ++ [], i < m) ↔
            q.uleNextHdr + 14 ≤ m := by
          simp only [List.append_nil, List.forall_mem_cons, List.not_mem_nil, false_implies,
            implies_true, and_true]
          omega
        refine (and_congr_right fun _ => hreads).trans ?_
        constructor
        · rintro ⟨-, hheader⟩
          exact ⟨by rw [h1]; decide, fun hno => absurd hhlen hno, fun _ _ => hheader,
            fun _ _ hok => absurd hok hfits⟩
        · intro hwithin
          exact ⟨by decide, hwithin.bridged hhlen h1⟩
    · have hnothing : HeaderWithin skb q.uleSnduLen q.typeOffset m q.uleNextHdr q.uleSnduType ↔
          extHtype q.uleSnduType ≠ 255 :=
        ⟨fun hwithin => hwithin.tame, fun htame => ⟨htame, fun hno => absurd hhlen hno,
          fun _ hno => absurd hno h1, fun _ hno => absurd hno h1⟩⟩
      rw [hnothing, and_iff_left_iff_imp]
      intro _
      by_cases h0 : extHtype q.uleSnduType = 0
      · have hsome : uleMandatoryExtHandlers 0 = some uleTestSndu := rfl
        rw [h0, hsome]
        rintro _ ⟨⟩
      · have hnone : uleMandatoryExtHandlers (extHtype q.uleSnduType) = none := by
          rw [uleMandatoryExtHandlers]
          · exact h0
          · exact h1
        rw [hnone]
        rintro _ ⟨⟩
  · rw [if_neg hhlen, Nat.shiftLeft_eq, pow_one, Nat.mul_comm]
    simp only [List.forall_mem_cons, List.not_mem_nil, false_implies, implies_true, and_true]
    constructor
    · rintro ⟨htame, -, hlast⟩
      exact ⟨htame, fun _ => by omega, fun hno => absurd hno hhlen, fun hno => absurd hno hhlen⟩
    · intro hwithin
      have hend := hwithin.optional hhlen
      exact ⟨hwithin.tame, by omega, by omega⟩

/-- The turns of the loop are about the headers of the SNDU, each at its place. -/
structure AtHeader (skb : SkBuff) (p : DvbNetPriv) (t : ℤ × DvbNetPriv) : Prop where
  header : HeaderAt skb p.uleSnduLen p.typeOffset p.uleSnduType t.2.uleNextHdr t.2.uleSnduType
  total : t.1 = t.2.uleNextHdr
  len : t.2.uleSnduLen = p.uleSnduLen
  offset : t.2.typeOffset = p.typeOffset

theorem visits_atHeader {t : ℤ × DvbNetPriv}
    (hvisits : Visits (uleExtensionBody skb) (0, { p with uleNextHdr := 0 }) t) :
    AtHeader skb p t := by
  refine @Visits.invariant _ _ _ _ _ (AtHeader skb p) ⟨.first, rfl, rfl, rfl⟩ ?_ hvisits
  rintro ⟨total, q⟩ ⟨total', q'⟩ ⟨hheader, htotal, hlen, hoffset⟩ hpass
  dsimp only at hheader htotal hlen hoffset
  have hturns := uleExtensionBody_turns skb total q
  rw [hpass] at hturns
  obtain _ | _ | _ | @⟨l, _, hhandles, hshort⟩ := hturns
  rcases hhandles with _ | _ | ⟨hhlen, hhtype, hok⟩ | ⟨hhlen, h255⟩
  · have hfits : FrameFits skb p.uleSnduLen q.uleNextHdr := hlen ▸ hok
    have hnext := hheader.bridged hhlen hhtype hfits (by rw [← hoffset]; exact hshort)
    rw [← hoffset] at hnext
    exact ⟨hoffset ▸ hnext, by rw [htotal]; exact Int.add_zero _, hlen, hoffset⟩
  · exact ⟨hheader.optional hhlen h255 hshort, by rw [htotal]; rfl, hlen, hoffset⟩

theorem HeaderAt.visited {pos type : ℕ}
    (hheader : HeaderAt skb p.uleSnduLen p.typeOffset p.uleSnduType pos type) :
    ∃ t, Visits (uleExtensionBody skb) (0, { p with uleNextHdr := 0 }) t ∧
      t.2.uleNextHdr = pos ∧ t.2.uleSnduType = type ∧ t.2.uleSnduLen = p.uleSnduLen ∧
      t.2.typeOffset = p.typeOffset := by
  induction hheader with
  | first => exact ⟨_, .start, rfl, rfl, rfl, rfl⟩
  | optional _ hhlen h255 hshort ih =>
    obtain ⟨⟨total, q⟩, hvisits, rfl, rfl, hlen, hoffset⟩ := ih
    have hone := @handleOneUleExtension_optional skb q hhlen h255
    exact ⟨_, .pass hvisits (uleExtensionBody_again hone (Int.natCast_nonneg _) hshort), rfl, rfl,
      hlen, hoffset⟩
  | bridged _ hhlen hhtype hfits hshort ih =>
    obtain ⟨⟨total, q⟩, hvisits, rfl, rfl, hlen, hoffset⟩ := ih
    have hone := handleOneUleExtension_bridged hhlen hhtype fun hproto => hlen ▸ hfits hproto
    rw [← hoffset] at hshort ⊢
    exact ⟨_, .pass hvisits (uleExtensionBody_again hone (Int.le_refl 0) hshort), rfl, rfl, hlen,
      rfl⟩

/-- The headers are safe exactly when each of them is within the SNDU. -/
theorem headersSafe_iff (skb : SkBuff) (p : DvbNetPriv) (m : ℕ) : HeadersSafe skb p m ↔
    ∀ pos type, HeaderAt skb p.uleSnduLen p.typeOffset p.uleSnduType pos type →
      HeaderWithin skb p.uleSnduLen p.typeOffset m pos type := by
  constructor
  · intro hsafe pos type hheader
    obtain ⟨t, hvisits, rfl, rfl, hlen, hoffset⟩ := hheader.visited
    rw [← hlen, ← hoffset]
    exact handleOne_within.mp ⟨hsafe.tame t hvisits, hsafe.reads t hvisits⟩
  · intro hall
    have hwithin {t : ℤ × DvbNetPriv}
        (hvisits : Visits (uleExtensionBody skb) (0, { p with uleNextHdr := 0 }) t) :
        HeaderWithin skb t.2.uleSnduLen t.2.typeOffset m t.2.uleNextHdr t.2.uleSnduType := by
      obtain ⟨hheader, -, hlen, hoffset⟩ := visits_atHeader hvisits
      rw [hlen, hoffset]
      exact hall _ _ hheader
    refine ⟨fun t hvisits => (handleOne_within.mpr (hwithin hvisits)).1,
      fun t hvisits => (handleOne_within.mpr (hwithin hvisits)).2, fun turns l q hcall => ?_⟩
    obtain ⟨⟨total, q'⟩, hvisits, hexit⟩ := Ends.visits ⟨turns, handleUleExtensions_ok hcall⟩
    have htotal : total = q'.uleNextHdr := (visits_atHeader hvisits).total
    have hthere := hwithin hvisits
    have hturns := uleExtensionBody_turns skb total q'
    rw [hexit] at hturns
    obtain _ | _ | @⟨l, _, hhandles, -⟩ := hturns
    · omega
    rcases hhandles with _ | _ | ⟨hhlen, hhtype, -⟩ | ⟨hhlen, -⟩
    · have hheader := hthere.bridged hhlen hhtype
      dsimp only at hheader
      push_cast
      omega
    · have hend := hthere.optional hhlen
      dsimp only at hend
      omega

/-- In every state that a feed can be in, a call stays inside its data exactly when no pointer field of
    184 is found by a decoder that waits for PUSI; and the headers of an SNDU do exactly when each of
    them is within it. -/
theorem dvbNetUle_safe_iff (dev : NetDevice) (alloc : SkbAllocator) (turns passes : ℕ)
    (calls : List Call) (call : Call) (p : DvbNetPriv)
    (hcalls : dvbNetUleCalls dev alloc turns passes .feedStart calls = .ok p) :
    ((∀ h, Visits (uleBody dev alloc turns call.buf call.bufLen) p.handle h →
        AllSafe h.ts (h.passActs call.buf alloc call.bufLen) ∧
          uleBody dev alloc turns call.buf call.bufLen h ≠ .exit (.error .panic)) ↔
      ∀ h, Visits (uleBody dev alloc turns call.buf call.bufLen) p.handle h →
        h.ts < call.bufLen → ¬h.PointsPast call.buf) ∧
    ∀ skb q m, HeadersSafe skb q m ↔
      ∀ pos type, HeaderAt skb q.uleSnduLen q.typeOffset q.uleSnduType pos type →
        HeaderWithin skb q.uleSnduLen q.typeOffset m pos type :=
  ⟨passes_safe_iff (dvbNetUleCalls_sane feedStart_sane hcalls), headersSafe_iff⟩

/-- The first call, and a decoder that waits. -/
theorem firstCall_safe_iff :
    (∀ h, Visits (uleBody someDevice zeroMemory 0 (fun _ => 0) tsSz) DvbNetPriv.feedStart.handle h →
        AllSafe h.ts (h.passActs (fun _ => 0) zeroMemory tsSz) ∧
          uleBody someDevice zeroMemory 0 (fun _ => 0) tsSz h ≠ .exit (.error .panic)) ↔
      ∀ h, Visits (uleBody someDevice zeroMemory 0 (fun _ => 0) tsSz) DvbNetPriv.feedStart.handle h →
        h.ts < tsSz → ¬h.PointsPast fun _ => 0 :=
  (dvbNetUle_safe_iff someDevice zeroMemory 0 0 [] ⟨fun _ => 0, tsSz⟩ .feedStart rfl).1

/-- A TS cell with PUSI and a pointer field of 184. -/
def farCell : Call := ⟨fun i => [tsSync, tsPusi, 0, 0, 184].getD i 0, tsSz⟩

/-- An SNDU of two bytes and its CRC, with an optional header that should take 14 bytes. -/
def shortSkb : SkBuff := ⟨ethHlen + ethAlen, [0, 0], fun _ => 0, 4⟩

def shortHeader : DvbNetPriv :=
  { DvbNetPriv.feedStart with uleSnduLen := 6, uleSnduType := 0x0700, uleDbit := 1 }

/-- The decoder of a feed that has just been started follows the pointer field out of the cell, and the
    header is read behind the SNDU. -/
theorem farCell_unsafe : (¬∀ h,
    Visits (uleBody someDevice zeroMemory 0 farCell.buf farCell.bufLen) DvbNetPriv.feedStart.handle
      h → AllSafe h.ts (h.passActs farCell.buf zeroMemory farCell.bufLen)) ∧
    ¬HeadersSafe shortSkb shortHeader 6 := by
  constructor
  · intro hsafe
    refine not_safe_of_past (show 0 < tsSz by decide) ?_ (hsafe _ .start)
    exact ⟨rfl, by decide, rfl, by decide, by decide⟩
  · intro hsafe
    have hread : 12 < 6 := hsafe.reads _ .start 12 (by decide)
    exact absurd hread (by decide)

end Dvb.Ule

import NeumoDrivers.Dvb.UleSafety

/-! What an skb holds when cells have been lost.

    Of the cells that were sent, some are missing and some have come with an error. Less than 16 of
    them in a row leave a continuity counter that is not the expected one, so what has been decoded of
    an SNDU is dropped at the next cell, and an skb never holds anything but the last bytes of the
    cells that have come since the last gap. -/

namespace Dvb.Ule
open Loop Memory Packing DvbNetUleHandle

variable {dev : NetDevice} {alloc : SkbAllocator} {turns passes : ℕ} {buf : ℕ → UInt8} {tsEnd : ℕ}
  {skb : SkBuff} {p q : DvbNetPriv} {h g : DvbNetUleHandle} {ret : ℤ} {c : Cell UInt8}
  {cells cells' : List (Cell UInt8)} {calls : List Call}

/-! ### Cells that were sent -/

/-- How far a transmission has come: the place in the buffer, the continuity counter of the next cell
    that was sent, how many cells are missing before it, and the cells that have come without a gap
    before that. -/
structure Front where
  ts : ℕ
  cc : ℕ
  gap : ℕ
  recent : List (Cell UInt8)

namespace Front
variable (f : Front)

/-- A cell has come. -/
def take (c : Cell UInt8) : Front :=
  ⟨f.ts + tsSz, f.cc + 1, 0, (if f.gap = 0 then f.recent else []) ++ [c]⟩

/-- A cell has come with an error. -/
def spoil : Front := ⟨f.ts + tsSz, f.cc + 1, f.gap + 1, f.recent⟩

/-- A cell is missing. -/
def miss : Front := ⟨f.ts, f.cc + 1, f.gap + 1, f.recent⟩

end Front

/-- The error bit or a scrambling bit is set. -/
def Spoilt (ts : ℕ → UInt8) : Prop := ts 1 &&& tsTei ≠ 0 ∨ ts 3 &&& tsSc ≠ 0

/-- What a buffer has of cells that were sent. Gaps are shorter than 16 cells. -/
inductive Arrives (buf : ℕ → UInt8) : Front → List (Cell UInt8) → Front → Prop where
  | done (f : Front) : Arrives buf f [] f
  | comes {f f' : Front} {c : Cell UInt8} {cells : List (Cell UInt8)} :
    Carries f.cc c (fun i => buf (f.ts + i)) → Arrives buf (f.take c) cells f' →
    Arrives buf f (c :: cells) f'
  | spoilt {f f' : Front} (c : Cell UInt8) {cells : List (Cell UInt8)} :
    Spoilt (fun i => buf (f.ts + i)) → f.gap + 1 < 16 → Arrives buf f.spoil cells f' →
    Arrives buf f (c :: cells) f'
  | missing {f f' : Front} (c : Cell UInt8) {cells : List (Cell UInt8)} :
    f.gap + 1 < 16 → Arrives buf f.miss cells f' → Arrives buf f (c :: cells) f'

/-- What calls have of cells that were sent. -/
inductive ArrivesIn : Front → List (Cell UInt8) → List Call → Front → Prop where
  | nil (f : Front) : ArrivesIn f [] [] f
  | cons {f f' f'' : Front} {call : Call} {cells cells' : List (Cell UInt8)} {calls : List Call} :
    Arrives call.buf { f with ts := 0 } cells f' → f'.ts = call.bufLen →
    ArrivesIn f' cells' calls f'' → ArrivesIn f (cells ++ cells') (call :: calls) f''

def Front.first (cc : ℕ) : Front := ⟨0, cc, 0, []⟩

variable {f f' f'' : Front}

theorem Arrives.gap_lt (h : Arrives buf f cells f') (hgap : f.gap < 16) : f'.gap < 16 := by
  induction h with
  | done => exact hgap
  | comes _ _ ih => exact ih (by decide : 0 < 16)
  | spoilt _ _ hlt _ ih => exact ih hlt
  | missing _ hlt _ ih => exact ih hlt

theorem ArrivesIn.gap_lt (h : ArrivesIn f cells calls f') (hgap : f.gap < 16) : f'.gap < 16 := by
  induction h with
  | nil => exact hgap
  | cons harrives _ _ ih => exact ih (harrives.gap_lt hgap)

/-- A cell in which an SNDU starts has its pointer field in front of what is left of another one. -/
def Pointed (c : Cell UInt8) : Prop :=
  c.starts = true → ∃ rest w : List UInt8,
    c.symbols = UInt8.ofNat rest.length :: (rest ++ w) ∧ rest.length + w.length + 1 = 184

theorem Packed.pointed {rest : List UInt8} {rs : List Sndu} (h : Packed uleFormat rest rs cells) :
    ∀ c ∈ cells, Pointed c := by
  induction h with
  | done => nofun
  | inside _ _ _ ih => exact List.forall_mem_cons.mpr ⟨nofun, ih⟩
  | ends _ _ ih => exact List.forall_mem_cons.mpr ⟨nofun, ih⟩
  | @starts n rest _ w _ _ _ hsize hfill _ _ ih =>
    exact List.forall_mem_cons.mpr ⟨fun _ => ⟨rest, w, rfl, hfill.length.symm ▸ hsize⟩, ih⟩

/-! ### A pass -/

/-- What the skb holds are the last bytes of the cells that came without a gap, and the decoder knows
    the continuity counter behind them. -/
def DvbNetPriv.Since (p : DvbNetPriv) (f : Front) : Prop :=
  ∀ skb ∈ p.uleSkb, (p.tscc + f.gap) % 16 = f.cc % 16 ∧
    skb.data <:+ f.recent.flatMap Cell.symbols

theorem since_of_none (hnone : p.uleSkb = none) : p.Since f := by
  rw [DvbNetPriv.Since, hnone]
  nofun

theorem DvbNetPriv.Since.miss (hp : p.Since f) : p.Since f.miss := by
  intro skb hskb
  obtain ⟨hcount, hdata⟩ := hp skb hskb
  refine ⟨?_, hdata⟩
  change (p.tscc + (f.gap + 1)) % 16 = (f.cc + 1) % 16
  omega

theorem nextSndu_keeps (h : DvbNetUleHandle) (buf : ℕ → UInt8) :
    (h.nextSndu buf).priv.tscc = h.priv.tscc ∧
      ∀ skb ∈ (h.nextSndu buf).priv.uleSkb, skb ∈ h.priv.uleSkb := by
  rw [nextSndu]
  split
  · exact ⟨rfl, by rintro _ ⟨⟩⟩
  · dsimp only
    split
    · exact ⟨rfl, fun _ hskb => hskb⟩
    · exact ⟨rfl, fun _ hskb => hskb⟩

/-- What the skb holds when `uleCopy` has copied to it. -/
def DvbNetUleHandle.copied (buf : ℕ → UInt8) (h : DvbNetUleHandle) (skb : SkBuff) : List UInt8 :=
  skb.data ++ block buf h.fromWhere (min h.priv.uleSnduRemain h.tsRemain)

theorem putData_copied {skb' : SkBuff}
    (hput : skb.putData (block buf h.fromWhere (min h.priv.uleSnduRemain h.tsRemain)) = .ok skb') :
    skb'.data = h.copied buf skb := by
  rw [SkBuff.putData] at hput
  split at hput
  · cases hput
    rfl
  · cases hput

/-- When there is still an skb, its SNDU is not complete. -/
theorem uleCopy_copies (hcopy : uleCopy dev turns buf skb h = .again g) :
    g.priv.tscc = h.priv.tscc ∧ ∀ skb' ∈ g.priv.uleSkb,
      h.tsRemain < h.priv.uleSnduRemain ∧ skb'.data = h.copied buf skb := by
  rw [uleCopy] at hcopy
  dsimp only at hcopy
  split at hcopy
  · cases hcopy
  · rename_i skb₁ hput
    split at hcopy
    · split at hcopy
      · cases hcopy
      · rename_i q hcomplete
        obtain ⟨r, -, rfl⟩ := uleComplete_reset hcomplete
        cases hcopy
        obtain ⟨htscc, hskb⟩ := nextSndu_keeps { h.skip (min h.priv.uleSnduRemain h.tsRemain) with
          priv := _ } buf
        exact ⟨htscc, fun skb' hskb' => by cases hskb skb' hskb'⟩
    · rename_i hmore
      have hmore' : h.priv.uleSnduRemain - min h.priv.uleSnduRemain h.tsRemain ≠ 0 := hmore
      cases hcopy
      obtain ⟨htscc, hskb⟩ := nextSndu_keeps { h.skip (min h.priv.uleSnduRemain h.tsRemain) with
        priv := _ } buf
      refine ⟨htscc, fun skb' hskb' => ?_⟩
      cases hskb skb' hskb'
      exact ⟨by omega, putData_copied hput⟩

/-- When an SNDU is not complete, the rest of the TS cell has been copied. -/
theorem uleCopy_keeps (hcopy : uleCopy dev turns buf skb h = .again g) :
    g.priv.tscc = h.priv.tscc ∧ ∀ skb' ∈ g.priv.uleSkb,
      h.tsRemain < h.priv.uleSnduRemain ∧
        skb'.data = skb.data ++ block buf h.fromWhere h.tsRemain := by
  obtain ⟨htscc, hcopies⟩ := uleCopy_copies hcopy
  refine ⟨htscc, fun skb' hskb' => ?_⟩
  obtain ⟨hmore, hdata⟩ := hcopies skb' hskb'
  rw [DvbNetUleHandle.copied, Nat.min_eq_right (Nat.le_of_lt hmore)] at hdata
  exact ⟨hmore, hdata⟩

/-- The continuity counter is as it was. There is an skb only if the header is complete, and nothing
    is in it. -/
structure DvbNetUleHandle.Begins (h : DvbNetUleHandle) (ret : ℤ) (g : DvbNetUleHandle) : Prop where
  tscc : g.priv.tscc = h.priv.tscc
  empty : ∀ skb ∈ g.priv.uleSkb, ret = 0 ∧ skb.data = []

theorem begins_of_none (htscc : g.priv.tscc = h.priv.tscc) (hskb : g.priv.uleSkb = none) :
    h.Begins ret g := by
  refine ⟨htscc, ?_⟩
  rw [hskb]
  nofun

theorem allocSkb_begins (hskb : h.priv.uleSkb = none) :
    h.Begins (h.allocSkb alloc).1 (h.allocSkb alloc).2 := by
  rw [allocSkb]
  dsimp only
  split
  · exact begins_of_none rfl hskb
  · refine ⟨rfl, fun skb hmem => ?_⟩
    cases hmem
    exact ⟨rfl, rfl⟩

theorem payloadHeader_begins (hskb : h.priv.uleSkb = none) :
    h.Begins (h.payloadHeader buf alloc).1 (h.payloadHeader buf alloc).2 := by
  rw [payloadHeader]
  dsimp only
  split
  · exact begins_of_none rfl hskb
  split
  · exact begins_of_none rfl hskb
  · obtain ⟨type, htype⟩ := readType_view
      { h with priv := { h.priv with uleSnduRemain := h.priv.uleSnduLen + 2 } } buf
    rw [htype]
    obtain ⟨htscc, hempty⟩ := @allocSkb_begins alloc (skip { h with priv := { h.priv with
      uleSnduRemain := h.priv.uleSnduLen + 2, uleSnduType := type, uleSnduType1 := false } }
        (if h.priv.uleSnduType1 then 1 else 2)) hskb
    exact ⟨htscc, hempty⟩

theorem newPayload_begins (hskb : h.priv.uleSkb = none) :
    h.Begins (h.newPayload buf alloc).1 (h.newPayload buf alloc).2 := by
  rw [newPayload]
  split
  · exact begins_of_none rfl hskb
  split
  · obtain ⟨len, dbit, hview⟩ := readLength_view h buf
    rw [hview]
    dsimp only
    split
    · exact begins_of_none rfl hskb
    · obtain ⟨htscc, hempty⟩ := @payloadHeader_begins alloc buf (skip { h with priv := { h.priv with
        uleSnduLen := len, uleDbit := dbit } } 2) hskb
      exact ⟨htscc, hempty⟩
  · exact payloadHeader_begins hskb

/-- What the skb holds when a payload has been looked at to the end of its TS cell. -/
theorem ulePayload_keeps (henters : h.Enters) (hplace : h.InPlace)
    (hpass : ulePayload dev alloc turns buf h = .again g) :
    g.priv.tscc = h.priv.tscc ∧ ∀ skb' ∈ g.priv.uleSkb,
      (∃ skb, h.priv.uleSkb = some skb ∧ h.tsRemain < h.priv.uleSnduRemain ∧
        skb'.data = skb.data ++ block buf h.fromWhere h.tsRemain) ∨
      ∃ k, h.ts + 4 ≤ k ∧ skb'.data = block buf k (h.ts + tsSz - k) := by
  rw [ulePayload] at hpass
  cases hskb : h.priv.uleSkb with
  | some skb =>
    rw [hskb] at hpass
    obtain ⟨htscc, hdata⟩ := uleCopy_keeps hpass
    exact ⟨htscc, fun skb' hskb' => .inl ⟨skb, rfl, hdata skb' hskb'⟩⟩
  | none =>
    rw [hskb] at hpass
    obtain ⟨htscc, hempty⟩ := @newPayload_begins alloc buf h hskb
    have hmoves := @newPayload_moves alloc buf h henters.needPusi henters.most henters.placed
    have hthere := @newPayload_inPlace alloc buf h hplace
    generalize h.newPayload buf alloc = x at htscc hempty hmoves hthere hpass
    obtain ⟨ret, h'⟩ := x
    dsimp only at htscc hempty hmoves hthere hpass
    rcases hmoves with hneg | ⟨rfl, -, -⟩ | ⟨rfl, hts, -, -, -⟩
    · rw [if_pos hneg] at hpass
      cases hpass
    · cases hpass
      exact ⟨htscc, fun skb' hskb' => absurd (hempty skb' hskb').1 (by decide)⟩
    · rw [if_neg (Int.lt_irrefl 0), if_neg (not_not.mpr rfl)] at hpass
      cases hskb' : h'.priv.uleSkb with
      | none =>
        rw [hskb'] at hpass
        cases hpass
      | some skb =>
        rw [hskb'] at hpass
        have hplace' := hthere rfl
        have hnothing : skb.data = [] := (hempty skb hskb').2
        obtain ⟨htscc', hdata⟩ := uleCopy_keeps hpass
        refine ⟨htscc'.trans htscc, fun skb' hmem => .inr ⟨h'.fromWhere, ?_, ?_⟩⟩
        · rw [← hts]
          exact hplace'.start
        · rw [(hdata skb' hmem).2, hnothing, ← hts, ← hplace'.stop, Nat.add_sub_cancel_left]
          rfl

/-! ### A TS cell -/

/-- The decoder is where an SNDU starts in a TS cell that has come. -/
structure Front.Amid (f : Front) (g : DvbNetUleHandle) : Prop where
  ts : g.ts = f.ts
  within : g.Within
  place : g.InPlace
  sane : g.priv.Sane
  tscc : g.priv.tscc = (f.cc + 1) % 16

/-- The decoder has come to the next TS cell, or to an SNDU that starts in this one. -/
inductive Front.Leads (f : Front) (c : Cell UInt8) (g : DvbNetUleHandle) : Prop where
  | cell (hts : g.ts = f.ts + tsSz) (hnew : g.newTs = true) (hsince : g.priv.Since (f.take c))
  | back (hts : g.ts = f.ts) (hnew : g.newTs = true) (hnone : g.priv.uleSkb = none)
  | sndu (hamid : f.Amid g)

section
variable (hcarries : Carries f.cc c fun i => buf (f.ts + i))
include hcarries

theorem carries_symbols : block buf (f.ts + 4) 184 = c.symbols := by
  rw [← hcarries.payload, block_shift]

theorem suffix_recent {k : ℕ} (hk : f.ts + 4 ≤ k) :
    block buf k (f.ts + tsSz - k) <:+ (f.take c).recent.flatMap Cell.symbols := by
  have hdrop : block buf k (f.ts + tsSz - k) = c.symbols.drop (k - (f.ts + 4)) := by
    rw [← carries_symbols hcarries, drop_block]
    congr 1
    · omega
    · rw [tsSz]
      omega
  rw [hdrop, Front.take, List.flatMap_append, List.flatMap_singleton]
  exact (List.drop_suffix _ _).trans (List.suffix_append _ _)

theorem ulePayload_leads (henters : h.Enters) (hplace : h.InPlace) (hts : h.ts = f.ts)
    (htscc : h.priv.tscc = (f.cc + 1) % 16)
    (hskb : ∀ skb ∈ h.priv.uleSkb, h.tsRemain < h.priv.uleSnduRemain →
      f.gap = 0 ∧ h.fromWhere = h.ts + 4 ∧ skb.data <:+ f.recent.flatMap Cell.symbols)
    (hpass : ulePayload dev alloc turns buf h = .again g) : f.Leads c g := by
  obtain ⟨htscc', hdata⟩ := ulePayload_keeps henters hplace hpass
  rw [htscc] at htscc'
  cases ulePayload_moves henters.needPusi henters.most henters.placed hpass with
  | cell hts' hnew =>
    refine .cell (by rw [hts', hts]) hnew fun skb' hskb' => ⟨?_, ?_⟩
    · rw [htscc']
      change ((f.cc + 1) % 16 + 0) % 16 = (f.cc + 1) % 16
      omega
    · rcases hdata skb' hskb' with ⟨skb, hmem, hmore, heq⟩ | ⟨k, hk, heq⟩
      · obtain ⟨hgap, hfrom, t, ht⟩ := hskb skb hmem hmore
        have hstop := hplace.stop
        rw [hfrom, tsSz] at hstop
        have hall : h.tsRemain = 184 := by omega
        rw [heq, hfrom, hall, hts, carries_symbols hcarries, Front.take, if_pos hgap,
          List.flatMap_append, List.flatMap_singleton, ← ht, List.append_assoc]
        exact List.suffix_append _ _
      · rw [heq, hts]
        rw [hts] at hk
        exact suffix_recent hcarries hk
  | sndu hts' hwithin =>
    have horderly := @ulePayload_orderly dev alloc turns buf h henters
    rw [hpass] at horderly
    exact .sndu ⟨hts'.trans hts, hwithin,
      (@ulePayload_safe dev alloc turns buf h henters hplace).2 g hpass hwithin.newTs,
      horderly.priv, htscc'⟩

theorem pointer_lt (hpointed : Pointed c) (hts : h.ts = f.ts) (hstarts : h.Starts buf) :
    h.pointer buf < 184 := by
  rw [← hts] at hcarries
  obtain ⟨rest, w, hsymbols, hsize⟩ := hpointed (hcarries.pusi.mp hstarts)
  obtain ⟨hpointer, -, -⟩ := carries_pointer hcarries hsymbols hsize
  have hfield : h.pointer buf = rest.length := hpointer
  omega

theorem amid_leads (hamid : f.Amid h) (hend : f.ts < tsEnd)
    (hpass : uleBody dev alloc turns buf tsEnd h = .again g) : f.Leads c g := by
  rw [uleBody_within (by rwa [hamid.ts]) hamid.within] at hpass
  refine ulePayload_leads hcarries (within_enters hamid.sane hamid.within) hamid.place hamid.ts
    hamid.tscc ?_ hpass
  rw [hamid.within.skb]
  nofun

/-- A pass that begins with the cell. -/
theorem cell_leads (hpointed : Pointed c) (hgap : f.gap < 16) (hsane : h.priv.Sane)
    (hnew : h.newTs = true) (hts : h.ts = f.ts) (hsince : h.priv.Since f) (hend : f.ts < tsEnd)
    (hpass : uleBody dev alloc turns buf tsEnd h = .again g) : f.Leads c g := by
  have hcounter : h.counter buf = f.cc % 16 := by
    rw [counter, tsByte, hts]
    exact hcarries.counter
  have hcell := @uleBody_cellPass dev alloc turns buf tsEnd h (by rwa [hts]) hnew
  rw [hpass] at hcell
  generalize hx : Next.again g = x at hcell
  cases hcell with
  | faulty hfaulty =>
    rw [Faulty, tsByte, tsByte, tsByte, hts] at hfaulty
    rcases hfaulty with hsync | htei | hscrambled
    · exact absurd hcarries.sync hsync
    · exact absurd hcarries.tei htei
    · exact absurd hcarries.scrambling hscrambled
  | waits hneed =>
    cases hx
    exact .cell (congrArg (· + tsSz) hts) hnew (since_of_none (hsane.waits hneed).skb)
  | beyond hneed =>
    cases hx
    exact .cell (congrArg (· + tsSz) hts) hnew (since_of_none (hsane.waits hneed).skb)
  | found hneed hstarts hfits =>
    have hlt := pointer_lt hcarries hpointed hts hstarts
    have hplace : (h.pointed buf).InPlace := by
      have hskip := (inCell_inPlace h).skip (show 1 + h.pointer buf ≤ 184 by omega)
      exact ⟨hskip.start, hskip.stop⟩
    rw [found_eq hsane hneed] at hx
    refine ulePayload_leads hcarries (pointed_enters hsane hnew hneed) hplace hts ?_ ?_ hx.symm
    · change (h.counter buf + 1) % 16 = (f.cc + 1) % 16
      rw [hcounter, Nat.mod_add_mod]
    · have hskb : (h.pointed buf).priv.uleSkb = none := (hsane.waits hneed).skb
      rw [hskb]
      rintro _ ⟨⟩
  | gap =>
    cases hx
    exact .back hts hnew rfl
  | mismatch =>
    cases hx
    exact .back hts hnew rfl
  | ends hneed hcc hstarts hfits hrest =>
    have hskip := (inCell_inPlace h).skip (show 1 ≤ 184 by decide)
    refine ulePayload_leads hcarries (counted_skip_enters hsane hnew hneed)
      ⟨hskip.start, hskip.stop⟩ hts ?_ (fun skb hskb hmore => ?_) hx.symm
    · change (h.priv.tscc + 1) % 16 = (f.cc + 1) % 16
      rw [← hcc, hcounter, Nat.mod_add_mod]
    · -- the SNDU ends in front of the one that starts
      have hremain : (h.counted.skip 1).tsRemain = 184 - 1 :=
        skip_remain (by decide : 1 ≤ 184) (by decide : 184 < 256)
      have hmore' : (h.counted.skip 1).tsRemain < h.priv.uleSnduRemain := hmore
      omega
  | inside hneed hcc =>
    refine ulePayload_leads hcarries (counted_enters hsane hnew hneed)
      ⟨(inCell_inPlace h).start, (inCell_inPlace h).stop⟩ hts ?_ (fun skb hskb _ => ?_) hx.symm
    · change (h.priv.tscc + 1) % 16 = (f.cc + 1) % 16
      rw [← hcc, hcounter, Nat.mod_add_mod]
    · obtain ⟨hcount, hdata⟩ := hsince skb hskb
      exact ⟨by omega, rfl, hdata⟩

end

/-! ### What is copied -/

namespace DvbNetUleHandle
variable (buf : ℕ → UInt8) (h : DvbNetUleHandle)

/-- What `ulePayload` leaves in an skb. -/
def ulePayloadCopies (alloc : SkbAllocator) : List (List UInt8) :=
  match h.priv.uleSkb with
  | some skb => [h.copied buf skb]
  | none =>
    let (ret, g) := h.newPayload buf alloc
    if ret ≠ 0 then []
    else
      match g.priv.uleSkb with
      | some skb => [g.copied buf skb]
      | none => []

/-- With what a pass comes to the payload of a TS cell. -/
def payloadOf (tsEnd : ℕ) : Option DvbNetUleHandle :=
  if tsEnd ≤ h.ts then none
  else
    match if h.newTs then h.newTsCell buf else (false, h) with
    | (true, _) => none
    | (false, h) =>
      match if h.priv.needPusi then h.tsPusiSync buf else (false, h) with
      | (true, _) => none
      | (false, h) =>
        match if h.newTs then h.newTsCheck buf else (false, h) with
        | (true, _) => none
        | (false, h) => some h

/-- What a pass leaves in an skb. -/
def passCopies (alloc : SkbAllocator) (tsEnd : ℕ) : List (List UInt8) :=
  match h.payloadOf buf tsEnd with
  | some g => g.ulePayloadCopies buf alloc
  | none => []

end DvbNetUleHandle

/-- With what a pass that begins with a TS cell comes to its payload. -/
inductive DvbNetUleHandle.Opens (buf : ℕ → UInt8) (h : DvbNetUleHandle) : DvbNetUleHandle → Prop where
  | found (hneed : h.priv.needPusi = true) (hstarts : h.Starts buf) : Opens buf h (h.found buf)
  | ends (hneed : h.priv.needPusi = false) (hcounter : h.counter buf = h.priv.tscc)
    (hstarts : h.Starts buf) : Opens buf h (h.counted.skip 1)
  | inside (hneed : h.priv.needPusi = false) (hcounter : h.counter buf = h.priv.tscc) :
    Opens buf h h.counted

theorem payloadOf_lt (hopen : h.payloadOf buf tsEnd = some g) : h.ts < tsEnd := by
  by_contra hend
  rw [payloadOf, if_pos (Nat.le_of_not_lt hend)] at hopen
  cases hopen

theorem payloadOf_opens (hnew : h.newTs = true) (hopen : h.payloadOf buf tsEnd = some g) :
    ¬h.Faulty buf ∧ h.Opens buf g := by
  have hend := payloadOf_lt hopen
  rw [payloadOf, if_neg (Nat.not_le_of_lt hend), hnew, if_pos rfl] at hopen
  by_cases hfaulty : h.Faulty buf
  · have hcell : h.newTsCell buf = (true, h.resync.nextTs) := if_pos hfaulty
    rw [hcell] at hopen
    cases hopen
  refine ⟨hfaulty, ?_⟩
  have hcell : h.newTsCell buf = (false, h.inCell) := if_neg hfaulty
  rw [hcell] at hopen
  dsimp only at hopen
  cases hneed : h.priv.needPusi with
  | true =>
    have hneed' : h.inCell.priv.needPusi = true := hneed
    rw [hneed', if_pos rfl] at hopen
    by_cases hstarts : h.Starts buf
    swap
    · rw [tsPusiSync_waits hstarts] at hopen
      cases hopen
    by_cases hlong : 184 < h.pointer buf
    · rw [tsPusiSync_beyond hstarts hlong] at hopen
      cases hopen
    · have hnew' : (h.synced buf).newTs = true := hnew
      rw [tsPusiSync_synced hstarts (Nat.le_of_not_lt hlong)] at hopen
      dsimp only at hopen
      rw [hnew', if_pos rfl, newTsCheck_synced_found hstarts hneed] at hopen
      cases hopen
      exact .found hneed hstarts
  | false =>
    have hneed' : h.inCell.priv.needPusi = false := hneed
    have hnew' : h.inCell.newTs = true := hnew
    rw [hneed', if_neg Bool.false_ne_true] at hopen
    dsimp only at hopen
    rw [hnew', if_pos rfl] at hopen
    by_cases hcounter : h.counter buf = h.priv.tscc
    swap
    · rw [newTsCheck_gap hcounter] at hopen
      cases hopen
    by_cases hstarts : h.Starts buf
    swap
    · rw [newTsCheck_counted hcounter hstarts] at hopen
      cases hopen
      exact .inside hneed hcounter
    by_cases hno : 183 ≤ h.pointer buf ∨ h.pointer buf ≠ h.priv.uleSnduRemain
    · rw [newTsCheck_mismatch hstarts hneed hcounter hno] at hopen
      cases hopen
    · obtain ⟨hfits, hrest⟩ := not_or.mp hno
      rw [newTsCheck_ends hstarts hneed hcounter (Nat.lt_of_not_le hfits) (not_not.mp hrest)]
        at hopen
      cases hopen
      exact .ends hneed hcounter hstarts

theorem payloadOf_within (hwithin : h.Within) (hopen : h.payloadOf buf tsEnd = some g) : g = h := by
  have hend := payloadOf_lt hopen
  rw [payloadOf, if_neg (Nat.not_le_of_lt hend), hwithin.newTs, if_neg Bool.false_ne_true] at hopen
  dsimp only at hopen
  rw [hwithin.needPusi, if_neg Bool.false_ne_true] at hopen
  dsimp only at hopen
  rw [hwithin.newTs, if_neg Bool.false_ne_true] at hopen
  exact (Option.some.inj hopen).symm

/-- A stretch of the last of the cells, behind the last bytes of those before it. -/
def Gapless (recent : List (Cell UInt8)) (bytes : List UInt8) : Prop :=
  ∃ old c d e, recent = old ++ [c] ∧ bytes = d ++ e ∧
    d <:+ old.flatMap Cell.symbols ∧ e <:+: c.symbols

section
variable (hcarries : Carries f.cc c fun i => buf (f.ts + i))
include hcarries

theorem block_infix {k m : ℕ} (hk : f.ts + 4 ≤ k) (hm : k + m ≤ f.ts + tsSz) :
    block buf k m <:+: c.symbols := by
  rw [tsSz] at hm
  have hpiece : block buf k m = (c.symbols.drop (k - (f.ts + 4))).take m := by
    rw [← carries_symbols hcarries, drop_block, take_block]
    congr 1
    · omega
    · omega
  rw [hpiece]
  exact (List.take_prefix _ _).isInfix.trans (List.drop_suffix _ _).isInfix

theorem copied_gapless (hplace : h.InPlace) (hts : h.ts = f.ts)
    (hskb : skb.data = [] ∨ f.gap = 0 ∧ skb.data <:+ f.recent.flatMap Cell.symbols) :
    Gapless (f.take c).recent (h.copied buf skb) := by
  have hstart := hplace.start
  have hstop := hplace.stop
  have hle := Nat.min_le_right h.priv.uleSnduRemain h.tsRemain
  rw [hts] at hstart hstop
  have hinfix : block buf h.fromWhere (min h.priv.uleSnduRemain h.tsRemain) <:+: c.symbols :=
    block_infix hcarries hstart (by omega)
  rcases hskb with hnil | ⟨hgap, hdata⟩
  · refine ⟨_, c, [], _, rfl, ?_, List.nil_suffix, hinfix⟩
    rw [DvbNetUleHandle.copied, hnil]
  · exact ⟨f.recent, c, skb.data, _, by rw [Front.take, if_pos hgap], rfl, hdata, hinfix⟩

/-- What a payload leaves in an skb are bytes of the TS cell, and those before it since the gap. -/
theorem ulePayloadCopies_gapless {bytes : List UInt8} (henters : h.Enters) (hplace : h.InPlace)
    (hts : h.ts = f.ts)
    (hskb : ∀ skb ∈ h.priv.uleSkb, f.gap = 0 ∧ skb.data <:+ f.recent.flatMap Cell.symbols)
    (hmem : bytes ∈ h.ulePayloadCopies buf alloc) : Gapless (f.take c).recent bytes := by
  rw [ulePayloadCopies] at hmem
  cases hhas : h.priv.uleSkb with
  | some skb =>
    rw [hhas] at hmem
    obtain rfl := List.mem_singleton.mp hmem
    exact copied_gapless hcarries hplace hts (.inr (hskb skb hhas))
  | none =>
    rw [hhas] at hmem
    obtain ⟨-, hempty⟩ := @newPayload_begins alloc buf h hhas
    have hmoves := @newPayload_moves alloc buf h henters.needPusi henters.most henters.placed
    have hthere := @newPayload_inPlace alloc buf h hplace
    generalize h.newPayload buf alloc = x at hempty hmoves hthere hmem
    obtain ⟨ret, h'⟩ := x
    dsimp only at hempty hmoves hthere hmem
    by_cases hret : ret = 0
    swap
    · rw [if_pos hret] at hmem
      cases hmem
    subst hret
    rw [if_neg (not_not.mpr rfl)] at hmem
    cases hskb' : h'.priv.uleSkb with
    | none =>
      rw [hskb'] at hmem
      cases hmem
    | some skb =>
      rw [hskb'] at hmem
      obtain rfl := List.mem_singleton.mp hmem
      have hts' : h'.ts = h.ts := by
        rcases hmoves with hneg | ⟨hone, -, -⟩ | ⟨-, hts', -⟩
        · exact absurd hneg (Int.lt_irrefl 0)
        · exact absurd hone (by decide)
        · exact hts'
      exact copied_gapless hcarries (hthere rfl) (hts'.trans hts) (.inl (hempty skb hskb').2)

/-- A pass that begins with the cell. -/
theorem passCopies_cell {bytes : List UInt8} (hpointed : Pointed c) (hgap : f.gap < 16)
    (hsane : h.priv.Sane) (hnew : h.newTs = true) (hts : h.ts = f.ts) (hsince : h.priv.Since f)
    (hmem : bytes ∈ h.passCopies buf alloc tsEnd) : Gapless (f.take c).recent bytes := by
  have hcounter : h.counter buf = f.cc % 16 := by
    rw [counter, tsByte, hts]
    exact hcarries.counter
  -- the continuity counter that is expected tells that nothing is missing
  have hcontinues (hcc : h.counter buf = h.priv.tscc) (skb : SkBuff) (hskb : skb ∈ h.priv.uleSkb) :
      f.gap = 0 ∧ skb.data <:+ f.recent.flatMap Cell.symbols := by
    obtain ⟨hcount, hdata⟩ := hsince skb hskb
    exact ⟨by omega, hdata⟩
  rw [passCopies] at hmem
  cases hopen : h.payloadOf buf tsEnd with
  | none =>
    rw [hopen] at hmem
    cases hmem
  | some g =>
    rw [hopen] at hmem
    obtain ⟨-, hopens⟩ := payloadOf_opens hnew hopen
    cases hopens with
    | found hneed hstarts =>
      have hlt := pointer_lt hcarries hpointed hts hstarts
      have hplace : (h.pointed buf).InPlace := by
        have hskip := (inCell_inPlace h).skip (show 1 + h.pointer buf ≤ 184 by omega)
        exact ⟨hskip.start, hskip.stop⟩
      rw [found_eq hsane hneed] at hmem
      refine ulePayloadCopies_gapless hcarries (pointed_enters hsane hnew hneed) hplace hts ?_ hmem
      have hskb : (h.pointed buf).priv.uleSkb = none := (hsane.waits hneed).skb
      rw [hskb]
      rintro _ ⟨⟩
    | ends hneed hcc hstarts =>
      have hskip := (inCell_inPlace h).skip (show 1 ≤ 184 by decide)
      exact ulePayloadCopies_gapless hcarries (counted_skip_enters hsane hnew hneed)
        ⟨hskip.start, hskip.stop⟩ hts (hcontinues hcc) hmem
    | inside hneed hcc =>
      exact ulePayloadCopies_gapless hcarries (counted_enters hsane hnew hneed)
        ⟨(inCell_inPlace h).start, (inCell_inPlace h).stop⟩ hts (hcontinues hcc) hmem

theorem passCopies_amid {bytes : List UInt8} (hamid : f.Amid h)
    (hmem : bytes ∈ h.passCopies buf alloc tsEnd) : Gapless (f.take c).recent bytes := by
  rw [passCopies] at hmem
  cases hopen : h.payloadOf buf tsEnd with
  | none =>
    rw [hopen] at hmem
    cases hmem
  | some g =>
    rw [hopen, payloadOf_within hamid.within hopen] at hmem
    refine ulePayloadCopies_gapless hcarries (within_enters hamid.sane hamid.within) hamid.place
      hamid.ts ?_ hmem
    rw [hamid.within.skb]
    nofun

end

end Dvb.Ule

import Mathlib
import NeumoDrivers.Dvb.UlePasses

/-! Whether the loops of the ULE decoder end.

    A pass over a TS cell leads to another cell, to an SNDU further on in this one, or to a decoder
    that waits for PUSI and then cannot fail in the same way again: the loop over the cells ends. The
    loop over extension headers is different. A bridged frame does not move the position, and the type
    that is found for it may be one of another extension header. -/

namespace Dvb.Ule
open Loop Memory

variable {dev : NetDevice} {alloc : SkbAllocator} {turns : ℕ} {buf : ℕ → UInt8} {tsEnd : ℕ}
  {skb : SkBuff} {p q q' : DvbNetPriv} {h g : DvbNetUleHandle}

/-! ### The TS cells -/

namespace DvbNetUleHandle

/-- An SNDU starts where the decoder is in the TS cell. -/
structure Within (h : DvbNetUleHandle) : Prop where
  newTs : h.newTs = false
  needPusi : h.priv.needPusi = false
  skb : h.priv.uleSkb = none
  len : h.priv.uleSnduLen = 0
  least : 2 ≤ h.tsRemain
  most : h.tsRemain < 256

/-- A pass leads to another TS cell, or to an SNDU that starts further on in this one. -/
inductive Moves (h g : DvbNetUleHandle) : Prop where
  | cell (hts : g.ts = h.ts + tsSz) (hnew : g.newTs = true)
  | sndu (hts : g.ts = h.ts) (hwithin : g.Within) (hless : h.newTs = false → g.tsRemain < h.tsRemain)

theorem skip_lt (n : ℕ) : (h.skip n).tsRemain < 256 := Nat.mod_lt _ (by decide)

theorem skip_remain {n : ℕ} (hn : n ≤ h.tsRemain) (hlt : h.tsRemain < 256) :
    (h.skip n).tsRemain = h.tsRemain - n := by
  rw [skip]
  dsimp only
  omega

theorem nextSndu_moves (hneed : h.priv.needPusi = false) (hlt : h.tsRemain < 256) :
    (h.nextSndu buf).ts = h.ts + tsSz ∧ (h.nextSndu buf).newTs = true ∨
      (h.nextSndu buf).ts = h.ts ∧ (h.nextSndu buf).Within ∧
        (h.nextSndu buf).tsRemain = h.tsRemain := by
  rw [nextSndu]
  split
  · rename_i hmore
    exact .inr ⟨rfl, ⟨rfl, hneed, rfl, rfl, hmore.1, hlt⟩, rfl⟩
  · refine .inl ?_
    dsimp only
    split
    · exact ⟨rfl, rfl⟩
    · exact ⟨rfl, rfl⟩

end DvbNetUleHandle

open DvbNetUleHandle

/-- Copying leads to another TS cell, or to an SNDU behind what has been copied. -/
theorem uleCopy_moves (hneed : h.priv.needPusi = false) (hlt : h.tsRemain < 256)
    (hcopy : uleCopy dev turns buf skb h = .again g) :
    g.ts = h.ts + tsSz ∧ g.newTs = true ∨ g.ts = h.ts ∧ g.Within ∧ g.tsRemain ≤ h.tsRemain := by
  have hskip := skip_remain (Nat.min_le_right h.priv.uleSnduRemain h.tsRemain) hlt
  have hskipped : (h.skip (min h.priv.uleSnduRemain h.tsRemain)).tsRemain < 256 := skip_lt _
  rw [uleCopy] at hcopy
  dsimp only at hcopy
  split at hcopy
  · cases hcopy
  · rename_i skb' hput
    have hmoves (p' : DvbNetPriv) (hp' : p'.needPusi = false) :
        let g := { h.skip (min h.priv.uleSnduRemain h.tsRemain) with priv := p' }.nextSndu buf
        g.ts = h.ts + tsSz ∧ g.newTs = true ∨ g.ts = h.ts ∧ g.Within ∧ g.tsRemain ≤ h.tsRemain := by
      have hnext := @nextSndu_moves buf
        { h.skip (min h.priv.uleSnduRemain h.tsRemain) with priv := p' } hp' hskipped
      rcases hnext with hcell | ⟨hts, hwithin, hremain⟩
      · exact .inl hcell
      · exact .inr ⟨hts, hwithin, by rw [hremain]; dsimp only; omega⟩
    split at hcopy
    · split at hcopy
      · cases hcopy
      · rename_i p' hcomplete
        cases hcopy
        obtain ⟨r, -, rfl⟩ := uleComplete_reset hcomplete
        exact hmoves _ hneed
    · cases hcopy
      exact hmoves _ hneed

/-- The header of an SNDU leads to another TS cell, or the decoder goes on behind it. -/
theorem payloadHeader_moves (hneed : h.priv.needPusi = false) (hlt : h.tsRemain < 256) :
    (h.payloadHeader buf alloc).1 < 0 ∨
      (h.payloadHeader buf alloc).1 = 1 ∧
        (h.payloadHeader buf alloc).2.ts = h.ts + tsSz ∧
        (h.payloadHeader buf alloc).2.newTs = true ∨
      (h.payloadHeader buf alloc).1 = 0 ∧
        (h.payloadHeader buf alloc).2.ts = h.ts ∧
        (h.payloadHeader buf alloc).2.priv.needPusi = false ∧
        (h.payloadHeader buf alloc).2.tsRemain ≤ h.tsRemain := by
  rw [payloadHeader]
  dsimp only
  split
  · exact .inr (.inl ⟨rfl, rfl, rfl⟩)
  split
  · exact .inr (.inl ⟨rfl, rfl, rfl⟩)
  · rename_i h0 h1
    have hskip (n : ℕ) (hn : n ≤ h.tsRemain) : (h.skip n).tsRemain ≤ h.tsRemain := by
      rw [skip_remain hn hlt]
      exact Nat.sub_le _ _
    rw [allocSkb]
    dsimp only
    split
    · exact .inl (by decide : (-1 : ℤ) < 0)
    · refine .inr (.inr ⟨rfl, ?_⟩)
      dsimp only
      rw [readType]
      dsimp only
      split
      · exact ⟨rfl, hneed, hskip 1 (by omega)⟩
      · exact ⟨rfl, hneed, hskip 2 (by omega)⟩

theorem newPayload_moves (hneed : h.priv.needPusi = false) (hlt : h.tsRemain < 256)
    (hplace : h.newTs = true ∨ h.Within) :
    (h.newPayload buf alloc).1 < 0 ∨
      (h.newPayload buf alloc).1 = 1 ∧
        (h.newPayload buf alloc).2.ts = h.ts + tsSz ∧ (h.newPayload buf alloc).2.newTs = true ∨
      (h.newPayload buf alloc).1 = 0 ∧
        (h.newPayload buf alloc).2.ts = h.ts ∧
        (h.newPayload buf alloc).2.priv.needPusi = false ∧
        (h.newPayload buf alloc).2.tsRemain < 256 ∧
        (h.newTs = false → (h.newPayload buf alloc).2.tsRemain < h.tsRemain) := by
  rw [newPayload]
  split
  · rename_i hshort
    have hnew : h.newTs = true := hplace.resolve_right fun hwithin => by
      have := hwithin.least
      omega
    exact .inr (.inl ⟨rfl, rfl, hnew⟩)
  rename_i hlong
  split
  · dsimp only
    have hfield : (h.readLength buf).ts = h.ts ∧ (h.readLength buf).tsRemain = h.tsRemain ∧
        (h.readLength buf).priv.needPusi = h.priv.needPusi := by
      rw [readLength]
      dsimp only
      split
      · exact ⟨rfl, rfl, rfl⟩
      · exact ⟨rfl, rfl, rfl⟩
    obtain ⟨hts, hremain, hpusi⟩ := hfield
    split
    · exact .inr (.inl ⟨rfl, congrArg (· + tsSz) hts, rfl⟩)
    · have hskip : ((h.readLength buf).skip 2).tsRemain = h.tsRemain - 2 := by
        rw [skip_remain (by omega) (by omega), hremain]
      have hheader := @payloadHeader_moves alloc buf ((h.readLength buf).skip 2)
        (hpusi.trans hneed) (skip_lt 2)
      have hts' : ((h.readLength buf).skip 2).ts = h.ts := hts
      rw [hts', hskip] at hheader
      refine hheader.imp_right (Or.imp_right fun hread => ?_)
      obtain ⟨hret, hsame, hpusi', hle⟩ := hread
      exact ⟨hret, hsame, hpusi', by omega, fun _ => by omega⟩
  · rename_i hlen
    have hnew : h.newTs = true := hplace.resolve_right fun hwithin => hlen hwithin.len
    refine (payloadHeader_moves hneed hlt).imp_right
      (Or.imp_right fun hread => ?_)
    obtain ⟨hret, hsame, hpusi, hle⟩ := hread
    exact ⟨hret, hsame, hpusi, by omega, fun hold => by rw [hnew] at hold; cases hold⟩

/-- What a pass does with the payload of a TS cell. -/
theorem ulePayload_moves (hneed : h.priv.needPusi = false) (hlt : h.tsRemain < 256)
    (hplace : h.newTs = true ∨ h.Within) (hpass : ulePayload dev alloc turns buf h = .again g) :
    h.Moves g := by
  rw [ulePayload] at hpass
  split at hpass
  · rename_i skb hskb
    have hnew : h.newTs = true := hplace.resolve_right fun hwithin => by
      have := hwithin.skb
      rw [hskb] at this
      cases this
    rcases uleCopy_moves hneed hlt hpass with ⟨hts, hnew'⟩ | ⟨hts, hwithin, -⟩
    · exact .cell hts hnew'
    · exact .sndu hts hwithin fun hold => by rw [hnew] at hold; cases hold
  · have hmoves := @newPayload_moves alloc buf h hneed hlt hplace
    generalize h.newPayload buf alloc = x at hmoves hpass
    obtain ⟨ret, h'⟩ := x
    dsimp only at hmoves hpass
    rcases hmoves with hneg | ⟨rfl, hts, hnew⟩ | ⟨rfl, hts, hneed', hlt', hless⟩
    · rw [if_pos hneg] at hpass
      cases hpass
    · cases hpass
      exact .cell hts hnew
    · rw [if_neg (Int.lt_irrefl 0), if_neg (not_not.mpr rfl)] at hpass
      split at hpass
      · rcases uleCopy_moves hneed' hlt' hpass with ⟨hts', hnew⟩ | ⟨hts', hwithin, hle⟩
        · exact .cell (by rw [hts', hts]) hnew
        · refine .sndu (hts'.trans hts) hwithin fun hold => ?_
          exact Nat.lt_of_le_of_lt hle (hless hold)
      · cases hpass

/-! ### The loop over the TS cells -/

/-- How much is left of the buffer and, in a TS cell, of what can be done with it. -/
def DvbNetUleHandle.left (tsEnd : ℕ) (h : DvbNetUleHandle) : ℕ :=
  (tsEnd - h.ts) * 259 +
    if h.newTs then if h.priv.needPusi then 257 else 258 else h.tsRemain

/-- The decoder is at the start of a TS cell, or where an SNDU starts in it. -/
def DvbNetUleHandle.Placed (h : DvbNetUleHandle) : Prop := h.newTs = true ∨ h.Within

theorem left_next (hend : h.ts < tsEnd) (hts : g.ts = h.ts + tsSz) (hnew : g.newTs = true) :
    g.Placed ∧ g.left tsEnd < h.left tsEnd := by
  refine ⟨.inl hnew, ?_⟩
  have hleast : (tsEnd - h.ts) * 259 ≤ h.left tsEnd := Nat.le_add_right _ _
  rw [tsSz] at hts
  rw [left, if_pos hnew]
  split
  · omega
  · omega

/-- The decoder has to wait for PUSI in the TS cell that it is in. -/
theorem left_waits (hneed : h.priv.needPusi = false) (hnew : h.newTs = true) (hts : g.ts = h.ts)
    (hneed' : g.priv.needPusi = true) (hnew' : g.newTs = true) :
    g.Placed ∧ g.left tsEnd < h.left tsEnd := by
  refine ⟨.inl hnew', ?_⟩
  rw [left, left, hts, hnew, hnew', hneed, hneed', if_pos rfl, if_pos rfl, if_pos rfl,
    if_neg Bool.false_ne_true]
  exact Nat.lt_succ_self _

theorem found_place (h : DvbNetUleHandle) (buf : ℕ → UInt8) :
    (h.found buf).ts = h.ts ∧ (h.found buf).newTs = h.newTs ∧
      (h.found buf).priv.needPusi = false ∧ (h.found buf).tsRemain < 256 := by
  rw [found]
  split
  · exact ⟨rfl, rfl, rfl, skip_lt _⟩
  · exact ⟨rfl, rfl, rfl, skip_lt _⟩

theorem uleBody_within (hend : h.ts < tsEnd) (hwithin : h.Within) :
    uleBody dev alloc turns buf tsEnd h = ulePayload dev alloc turns buf h := by
  rw [uleBody, if_neg (Nat.not_le_of_lt hend), hwithin.newTs, if_neg Bool.false_ne_true]
  dsimp only
  rw [hwithin.needPusi, if_neg Bool.false_ne_true]
  dsimp only
  rw [hwithin.newTs, if_neg Bool.false_ne_true]

theorem uleBody_left (hplaced : h.Placed) (hpass : uleBody dev alloc turns buf tsEnd h = .again g) :
    g.Placed ∧ g.left tsEnd < h.left tsEnd := by
  have hend : h.ts < tsEnd := by
    by_contra hno
    rw [uleBody, if_pos (Nat.le_of_not_lt hno)] at hpass
    cases hpass
  -- what a payload leads to, in a cell that the decoder has just come to or was in before
  have hpayload {h' : DvbNetUleHandle} (hts : h'.ts = h.ts) (hneed : h'.priv.needPusi = false)
      (hlt : h'.tsRemain < 256) (hplace : h.newTs = true ∧ h'.newTs = true ∨ h.Within ∧ h' = h)
      (hpass' : ulePayload dev alloc turns buf h' = .again g) :
      g.Placed ∧ g.left tsEnd < h.left tsEnd := by
    have hplace' : h'.newTs = true ∨ h'.Within := by
      rcases hplace with ⟨-, hnew⟩ | ⟨hwithin, rfl⟩
      · exact .inl hnew
      · exact .inr hwithin
    cases ulePayload_moves hneed hlt hplace' hpass' with
    | cell hts' hnew => exact left_next hend (by rw [hts', hts]) hnew
    | sndu hts' hwithin hless =>
      refine ⟨.inr hwithin, ?_⟩
      have hg : g.left tsEnd = (tsEnd - h.ts) * 259 + g.tsRemain := by
        rw [left, hts', hts, hwithin.newTs, if_neg Bool.false_ne_true]
      have hmost := hwithin.most
      rw [hg, left]
      rcases hplace with ⟨hnew, -⟩ | ⟨hwithin', rfl⟩
      · rw [if_pos hnew]
        split
        · omega
        · omega
      · rw [hwithin'.newTs, if_neg Bool.false_ne_true]
        have hremain := hless hwithin'.newTs
        omega
  rcases hplaced with hnew | hwithin
  · have hcell := @uleBody_cellPass dev alloc turns buf tsEnd h hend hnew
    rw [hpass] at hcell
    generalize hx : Next.again g = x at hcell
    cases hcell with
    | faulty =>
      cases hx
      exact left_next hend rfl hnew
    | waits =>
      cases hx
      exact left_next hend rfl hnew
    | beyond =>
      cases hx
      exact left_next hend rfl hnew
    | found hneed hstarts hfits =>
      obtain ⟨hts, hnew', hneed', hlt⟩ := found_place h buf
      exact hpayload hts hneed' hlt (.inl ⟨hnew, hnew'.trans hnew⟩) hx.symm
    | gap hneed =>
      cases hx
      exact left_waits hneed hnew rfl rfl hnew
    | mismatch hneed =>
      cases hx
      exact left_waits hneed hnew rfl rfl hnew
    | ends hneed =>
      exact @hpayload (h.counted.skip 1) rfl hneed (skip_lt 1) (.inl ⟨hnew, hnew⟩) hx.symm
    | inside hneed =>
      exact @hpayload h.counted rfl hneed (by decide : 184 < 256) (.inl ⟨hnew, hnew⟩) hx.symm
  · rw [uleBody_within hend hwithin] at hpass
    exact hpayload rfl hwithin.needPusi hwithin.most (.inr ⟨hwithin, rfl⟩) hpass

/-- The loop over the TS cells ends, whatever the decoder and the buffer are. -/
theorem uleBody_ends (dev : NetDevice) (alloc : SkbAllocator) (turns : ℕ) (buf : ℕ → UInt8)
    (bufLen : ℕ) (p : DvbNetPriv) :
    ∃ r, run (uleBody dev alloc turns buf bufLen) (bufLen * 259 + 259) p.handle = some r := by
  obtain ⟨r, hr⟩ := @run_of_measure _ _ (uleBody dev alloc turns buf bufLen) p.handle
    DvbNetUleHandle.Placed (left bufLen) (fun _ _ => uleBody_left) (.inl rfl)
  refine ⟨r, run_mono ?_ hr⟩
  rw [left, DvbNetPriv.handle, if_pos rfl]
  dsimp only
  split
  · omega
  · omega

/-! ### The loop over extension headers -/

/-- From a header of type `type` at `pos` the headers come to an end: one of them is discarded, or an
    EtherType is found behind it. A bridged frame is the last one. -/
inductive HeadersEnd (skb : SkBuff) (len offset : ℕ) : ℕ → ℕ → Prop where
  | discard {pos type : ℕ} : extHtype type ≠ 255 → extHlen type = 0 →
    (extHtype type = 1 → skb.ntohs (pos + 12) < ethP8023Min ∧
      (len : ℤ) - (pos + ethHlen) ≠ skb.ntohs (pos + 12)) → HeadersEnd skb len offset pos type
  | bridged {pos type : ℕ} : extHlen type = 0 → extHtype type = 1 →
    (skb.ntohs (pos + 12) < ethP8023Min →
      (len : ℤ) - (pos + ethHlen) = skb.ntohs (pos + 12)) →
    ethP8023Min ≤ skb.ntohs (pos + offset) → HeadersEnd skb len offset pos type
  | last {pos type : ℕ} : extHtype type ≠ 255 → extHlen type ≠ 0 →
    ethP8023Min ≤ skb.ntohs (pos + 2 * extHlen type - 2) → HeadersEnd skb len offset pos type
  | optional {pos type : ℕ} : extHtype type ≠ 255 → extHlen type ≠ 0 →
    skb.ntohs (pos + 2 * extHlen type - 2) < ethP8023Min →
    HeadersEnd skb len offset (pos + 2 * extHlen type) (skb.ntohs (pos + 2 * extHlen type - 2)) →
    HeadersEnd skb len offset pos type

/-- The position of the header has moved forward. -/
def Forward (t u : ℤ × DvbNetPriv) : Prop := t.2.uleNextHdr < u.2.uleNextHdr

section
variable {total l : ℤ} (hone : handleOneUleExtension skb q = .ok (l, q'))
include hone

theorem handleOneUleExtension_tame : extHtype q.uleSnduType ≠ 255 := by
  intro hwild
  rw [handleOneUleExtension, if_pos hwild] at hone
  cases hone

theorem uleExtensionBody_discard (hl : l < 0) :
    uleExtensionBody skb (total, q) = .exit (.ok (l, q')) := by
  rw [uleExtensionBody, hone]
  exact if_pos hl

theorem uleExtensionBody_last (hl : 0 ≤ l) (htype : ethP8023Min ≤ q'.uleSnduType) :
    uleExtensionBody skb (total, q) = .exit (.ok (total + l, q')) := by
  rw [uleExtensionBody, hone]
  exact (if_neg (Int.not_lt.mpr hl)).trans (if_neg (Nat.not_lt_of_le htype))

theorem uleExtensionBody_again (hl : 0 ≤ l) (htype : q'.uleSnduType < ethP8023Min) :
    uleExtensionBody skb (total, q) = .again (total + l, q') := by
  rw [uleExtensionBody, hone]
  exact (if_neg (Int.not_lt.mpr hl)).trans (if_pos htype)

end

/-- A loop over the headers that ends and moves on with every turn. -/
theorem HeadersEnd.of_run {n : ℕ} {total : ℤ} {r : ℤ × DvbNetPriv}
    (h : run (uleExtensionBody skb) n (total, q) = some (.ok r))
    (hsteps : Steps Forward (uleExtensionBody skb) (total, q)) :
    HeadersEnd skb q.uleSnduLen q.typeOffset q.uleNextHdr q.uleSnduType := by
  induction n generalizing total q with
  | zero => cases h
  | succ n ih =>
    have hhandles := handleOneUleExtension_handles skb q
    generalize hone : handleOneUleExtension skb q = x at hhandles
    cases hhandles with
    | wild =>
      rw [run, uleExtensionBody, hone] at h
      cases h
    | discard hhlen hno => exact .discard (handleOneUleExtension_tame hone) hhlen hno
    | bridged hhlen hhtype hok =>
      refine .bridged hhlen hhtype hok (Nat.le_of_not_lt fun hshort => ?_)
      -- the loop would go on where it is
      have hagain := @uleExtensionBody_again _ _ _ total _ hone (Int.le_refl 0) hshort
      exact Nat.lt_irrefl _ ((steps_again_iff hagain).mp hsteps).1
    | optional hhlen h255 =>
      by_cases hshort : skb.ntohs (q.uleNextHdr + 2 * extHlen q.uleSnduType - 2) < ethP8023Min
      · have hagain := @uleExtensionBody_again _ _ _ total _ hone (Int.natCast_nonneg _) hshort
        rw [run_again hagain] at h
        exact .optional h255 hhlen hshort (ih h ((steps_again_iff hagain).mp hsteps).2)
      · exact .last h255 hhlen (Nat.le_of_not_lt hshort)

theorem HeadersEnd.ends {len offset pos type : ℕ} (h : HeadersEnd skb len offset pos type)
    {total : ℤ} (hlen : q.uleSnduLen = len) (hoffset : q.typeOffset = offset)
    (hpos : q.uleNextHdr = pos) (htype : q.uleSnduType = type) :
    (∃ r, Ends (uleExtensionBody skb) (total, q) (.ok r)) ∧
      Steps Forward (uleExtensionBody skb) (total, q) := by
  have hexit {q : DvbNetPriv} {total : ℤ} {r : ℤ × DvbNetPriv}
      (hbody : uleExtensionBody skb (total, q) = .exit (.ok r)) :
      (∃ r, Ends (uleExtensionBody skb) (total, q) (.ok r)) ∧
        Steps Forward (uleExtensionBody skb) (total, q) := ⟨⟨r, .exit hbody⟩, .exit hbody⟩
  induction h generalizing q total with
  | discard h255 hhlen hno =>
    subst hlen hpos htype
    have hhandles := handleOneUleExtension_handles skb q
    generalize hone : handleOneUleExtension skb q = x at hhandles
    cases hhandles with
    | wild hwild => exact absurd hwild h255
    | discard => exact hexit (uleExtensionBody_discard hone (by decide))
    | bridged _ hhtype hok =>
      obtain ⟨hshort, hne⟩ := hno hhtype
      exact absurd (hok hshort) hne
    | optional hhlen' => exact absurd hhlen hhlen'
  | bridged hhlen hhtype hok hmin =>
    subst hlen hoffset hpos htype
    have hone := handleOneUleExtension_bridged hhlen hhtype hok
    exact hexit (uleExtensionBody_last hone (Int.le_refl 0) hmin)
  | last h255 hhlen hmin =>
    subst hpos htype
    have hone := @handleOneUleExtension_optional skb q hhlen h255
    exact hexit (uleExtensionBody_last hone (Int.natCast_nonneg _) hmin)
  | optional h255 hhlen hshort _ ih =>
    subst hpos htype
    have hone := @handleOneUleExtension_optional skb q hhlen h255
    have hagain := @uleExtensionBody_again _ _ _ total _ hone (Int.natCast_nonneg _) hshort
    obtain ⟨⟨r, hends⟩, hsteps⟩ :=
      @ih { q with
        uleSnduType := skb.ntohs (q.uleNextHdr + 2 * extHlen q.uleSnduType - 2)
        uleNextHdr := q.uleNextHdr + 2 * extHlen q.uleSnduType }
        (total + (2 * extHlen q.uleSnduType : ℕ)) hlen hoffset rfl rfl
    refine ⟨⟨r, .again hagain hends⟩, (steps_again_iff hagain).mpr ⟨?_, hsteps⟩⟩
    exact Nat.lt_add_of_pos_right (by omega)

/-- The cell loop ends for every decoder and every buffer. The loop over the extension headers of an
    SNDU ends, and moves on with every turn that does not end it, exactly when the headers end. -/
theorem dvbNetUle_terminates (dev : NetDevice) (alloc : SkbAllocator) (turns : ℕ) (call : Call)
    (skb : SkBuff) (p : DvbNetPriv) :
    (∃ r, Ends (uleBody dev alloc turns call.buf call.bufLen) p.handle r) ∧
    ((∃ turns r, handleUleExtensions turns skb p = .ok r) ∧
        Steps Forward (uleExtensionBody skb) (0, { p with uleNextHdr := 0 }) ↔
      HeadersEnd skb p.uleSnduLen p.typeOffset 0 p.uleSnduType) := by
  refine ⟨?_, ?_, ?_⟩
  · obtain ⟨r, hr⟩ := uleBody_ends dev alloc turns call.buf call.bufLen p
    exact ⟨r, _, hr⟩
  · rintro ⟨⟨turns, ⟨l, q⟩, hcall⟩, hsteps⟩
    exact HeadersEnd.of_run (handleUleExtensions_ok hcall) hsteps
  · intro hheaders
    obtain ⟨⟨r, n, hrun⟩, hsteps⟩ :=
      @HeadersEnd.ends skb { p with uleNextHdr := 0 } _ _ _ _ hheaders 0 rfl rfl rfl rfl
    refine ⟨⟨n, r, ?_⟩, hsteps⟩
    rw [handleUleExtensions, hrun]
    rfl

/-- An SNDU that is led to the header for bridged frames over and over again. -/
theorem handleUleExtensions_hangs {frame : List UInt8} (s : Sndu) (hpdu : s.pdu = .bridged frame)
    (htype : skb.ntohs s.begun.typeOffset = 1) (hproto : ethP8023Min ≤ skb.ntohs 12) :
    handleUleExtensions turns skb s.begun = .error .hang := by
  have hbegun : s.begun.uleSnduType = 1 := congrArg Pdu.type hpdu
  -- the position and the type are the same in every turn
  have hstays : ¬Terminates (uleExtensionBody skb) (0, { s.begun with uleNextHdr := 0 }) := by
    refine @not_terminates_of_trap _ _ _ _ _ (fun t => t.2.uleSnduType = 1 ∧ t.2.uleNextHdr = 0 ∧
      t.2.typeOffset = s.begun.typeOffset) ?_ .start ⟨hbegun, rfl, rfl⟩
    rintro ⟨total, q⟩ ⟨hone, hpos, hoffset⟩
    have hhandles := handleOneUleExtension_handles skb q
    generalize hcall : handleOneUleExtension skb q = x at hhandles
    have hhlen : extHlen q.uleSnduType = 0 := by rw [hone]; decide
    cases hhandles with
    | wild hwild =>
      rw [hone] at hwild
      exact absurd hwild (by decide)
    | discard _ hno =>
      obtain ⟨hshort, -⟩ := hno (by rw [hone]; decide)
      dsimp only at hpos
      rw [hpos, Nat.zero_add] at hshort
      omega
    | bridged =>
      have hnext : skb.ntohs (q.uleNextHdr + q.typeOffset) = 1 := by
        dsimp only at hpos hoffset
        rw [hpos, hoffset, Nat.zero_add, htype]
      refine ⟨_, uleExtensionBody_again hcall (Int.le_refl 0) ?_, hnext, hpos, hoffset⟩
      exact hnext.symm ▸ (by decide : 1 < ethP8023Min)
    | optional hhlen' => exact absurd hhlen hhlen'
  rw [handleUleExtensions]
  cases hrun : run (uleExtensionBody skb) turns (0, { s.begun with uleNextHdr := 0 }) with
  | none => rfl
  | some r => exact absurd ⟨r, turns, hrun⟩ hstays

/-- A frame for the interface itself, with the type of a bridged frame in its payload. -/
def loopingSndu : Sndu where
  dest := some [2, 0, 0, 0, 0, 1]
  pdu := .bridged [2, 0, 0, 0, 0, 1, 2, 0, 0, 0, 0, 2, 8, 0, 0x45, 0, 0, 20, 0, 1]
  proper := ⟨by decide, by decide⟩
  dest_length := bridgedSndu.dest_length
  length_le := by decide
  not_end := by decide

theorem loopingSndu_outcome : loopingSndu.outcome someDevice turns (zeroMemory.memory 0) =
    .error .hang := by
  have hhang := @handleUleExtensions_hangs turns (loopingSndu.inSkb (zeroMemory.memory 0)) _
    loopingSndu rfl rfl (by decide)
  rw [Sndu.outcome, hhang]
  rfl

/-- One TS cell is enough: the decoder never comes back. -/
theorem loopingSndu_hangs : ¬∃ turns passes, dvbNetUleCalls someDevice zeroMemory turns passes
    .feedStart [loopingSndu.oneCall] ≠ .error .hang := by
  rintro ⟨turns, passes, hcalls⟩
  have haccept : ∀ s ∈ [loopingSndu], ∀ mac ∈ s.dest, someDevice.Accepts mac := by
    intro s hs mac hmac
    obtain rfl := List.mem_singleton.mp hs
    cases hmac
    exact .inr (by decide)
  obtain ⟨R, ⟨least, hR⟩, hlog⟩ := @calls_log someDevice zeroMemory turns _ _ _ _ _ _ _
    (fun _ _ => rfl) (loopingSndu.oneCall_delivered (by decide))
    (feedStart_at haccept (loopingSndu.oneCell_packed (by decide)))
  obtain rfl : R = .error .hang := by
    cases hlog with
    | heard _ houtcome => cases houtcome.symm.trans loopingSndu_outcome
    | lost hlossy =>
      obtain ⟨s, hs, hshort⟩ := hlossy
      obtain rfl := List.mem_singleton.mp hs
      exact absurd hshort (by decide)
    | stops _ houtcome =>
      cases houtcome.symm.trans loopingSndu_outcome
      rfl
  refine hcalls ?_
  rw [dvbNetUleCalls_cons, dvbNetUle]
  cases hrun : run (uleBody someDevice zeroMemory turns loopingSndu.oneCall.buf
      loopingSndu.oneCall.bufLen) passes DvbNetPriv.feedStart.handle with
  | none => rfl
  | some r =>
    have hmore := hR (max passes least) (Nat.le_max_right _ _)
    rwa [dvbNetUleCalls_cons, dvbNetUle, run_mono (Nat.le_max_left _ _) hrun] at hmore

end Dvb.Ule

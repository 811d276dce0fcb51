import NeumoDrivers.Dvb.UleTermination

/-! What holds of the decoder between two passes, whatever it has received.

    A decoder that waits for PUSI has nothing of an SNDU. The skb has room for what remains of its
    SNDU. Where an SNDU starts in a TS cell, nothing has been read of it. -/

namespace Dvb.Ule
open Loop Memory DvbNetUleHandle

variable {dev : NetDevice} {alloc : SkbAllocator} {turns passes : ℕ} {buf : ℕ → UInt8} {tsEnd : ℕ}
  {skb : SkBuff} {p q : DvbNetPriv} {h g : DvbNetUleHandle} {ret : ℤ} {call : Call}
  {calls : List Call}

/-! ### The invariant -/

/-- The skb takes in what remains of its SNDU, and has kept its headroom. -/
structure SkBuff.Awaits (skb : SkBuff) (remain : ℕ) : Prop where
  tailroom : skb.tailroom = remain
  headroom : skb.headroom = ethHlen + ethAlen

structure DvbNetPriv.Sane (p : DvbNetPriv) : Prop where
  waits : p.needPusi = true → p.Fresh
  fresh : p.uleSkb = none → p.uleSnduLen = 0 → p.Fresh
  header : p.uleSkb = none → p.uleSnduLen ≠ 0 →
    p.uleSnduRemain = p.uleSnduLen + if p.uleSnduType1 then 1 else 2
  skb : ∀ skb ∈ p.uleSkb, skb.Awaits p.uleSnduRemain
  bridged : p.uleBridged = false

/-- What remains of the SNDU fits. -/
theorem SkBuff.Awaits.putData {remain : ℕ} {bytes : List UInt8} (ha : skb.Awaits remain)
    (hle : bytes.length ≤ remain) :
    ∃ skb', skb.putData bytes = .ok skb' ∧ skb'.Awaits (remain - bytes.length) := by
  rw [SkBuff.putData, ha.tailroom, if_pos hle]
  exact ⟨_, rfl, rfl, ha.headroom⟩

theorem DvbNetPriv.Fresh.sane (hp : p.Fresh) : p.Sane :=
  ⟨fun _ => hp, fun _ _ => hp, fun _ hlen => absurd hp.len hlen, by rw [hp.skb]; nofun, hp.bridged⟩

/-- The decoder comes to the payload of a TS cell. -/
structure DvbNetUleHandle.Enters (h : DvbNetUleHandle) : Prop where
  sane : h.priv.Sane
  needPusi : h.priv.needPusi = false
  most : h.tsRemain < 256
  placed : h.Placed
  short : h.tsRemain < 2 → h.priv.uleSkb = none → h.priv.Fresh

/-- What holds at the start of a pass. -/
structure DvbNetUleHandle.Sane (h : DvbNetUleHandle) : Prop where
  priv : h.priv.Sane
  placed : h.Placed

/-! ### Payload -/

theorem readLength_view (h : DvbNetUleHandle) (buf : ℕ → UInt8) :
    ∃ len dbit, h.readLength buf =
      { h with priv := { h.priv with uleSnduLen := len, uleDbit := dbit } } := by
  rw [readLength]
  dsimp only
  split
  · exact ⟨_, _, rfl⟩
  · exact ⟨_, _, rfl⟩

theorem readType_view (h : DvbNetUleHandle) (buf : ℕ → UInt8) :
    ∃ type, h.readType buf =
      { h with priv := { h.priv with uleSnduType := type, uleSnduType1 := false } }.skip
        (if h.priv.uleSnduType1 then 1 else 2) := by
  rw [readType]
  split
  · exact ⟨_, rfl⟩
  · rename_i htype1
    refine ⟨(h.fromByte buf 0).toNat * 256 + (h.fromByte buf 1).toNat, ?_⟩
    rw [← Bool.eq_false_iff.mpr htype1]

/-- The decoder has an skb for the SNDU. -/
structure DvbNetPriv.Fills (p : DvbNetPriv) (skb : SkBuff) : Prop where
  has : p.uleSkb = some skb
  awaits : skb.Awaits p.uleSnduRemain
  bridged : p.uleBridged = false
  needPusi : p.needPusi = false

theorem DvbNetPriv.Fills.sane (hp : p.Fills skb) : p.Sane where
  waits hneed := by
    rw [hp.needPusi] at hneed
    cases hneed
  fresh hnone := by
    rw [hp.has] at hnone
    cases hnone
  header hnone := by
    rw [hp.has] at hnone
    cases hnone
  skb skb' hskb' := by
    rw [hp.has] at hskb'
    cases hskb'
    exact hp.awaits
  bridged := hp.bridged

/-- The length field of the SNDU has been read. -/
theorem sane_of_header (hskb : p.uleSkb = none) (hneed : p.needPusi = false)
    (hbridged : p.uleBridged = false) (hlen : p.uleSnduLen ≠ 0)
    (hremain : p.uleSnduRemain = p.uleSnduLen + if p.uleSnduType1 then 1 else 2) : p.Sane where
  waits hwaits := by
    rw [hneed] at hwaits
    cases hwaits
  fresh _ hzero := absurd hzero hlen
  header _ _ := hremain
  skb := by
    rw [hskb]
    nofun
  bridged := hbridged

/-- After the header the decoder is left in order, with an skb if it goes on in the TS cell. -/
structure DvbNetUleHandle.Heads (ret : ℤ) (g : DvbNetUleHandle) : Prop where
  sane : g.priv.Sane
  fills : ret = 0 → ∃ skb, g.priv.Fills skb

theorem allocSkb_heads (hskb : h.priv.uleSkb = none) (hneed : h.priv.needPusi = false)
    (hbridged : h.priv.uleBridged = false) (hlen : h.priv.uleSnduLen ≠ 0)
    (hremain : h.priv.uleSnduRemain =
      h.priv.uleSnduLen + if h.priv.uleSnduType1 then 1 else 2) :
    Heads (h.allocSkb alloc).1 (h.allocSkb alloc).2 := by
  rw [allocSkb]
  dsimp only
  split
  · exact ⟨sane_of_header hskb hneed hbridged hlen hremain, by rintro ⟨⟩⟩
  · have hfills : DvbNetPriv.Fills { h.priv with
        allocs := h.priv.allocs + 1
        uleSnduRemain := h.priv.uleSnduLen
        uleSkb := some ⟨ethHlen + ethAlen, [], alloc.memory h.priv.allocs, h.priv.uleSnduLen⟩ } _ :=
      ⟨rfl, ⟨rfl, rfl⟩, hbridged, hneed⟩
    exact ⟨hfills.sane, fun _ => ⟨_, hfills⟩⟩

theorem payloadHeader_heads (hskb : h.priv.uleSkb = none) (hneed : h.priv.needPusi = false)
    (hbridged : h.priv.uleBridged = false) (hlen : h.priv.uleSnduLen ≠ 0)
    (htype1 : h.tsRemain < 2 → h.priv.uleSnduType1 = false) :
    Heads (h.payloadHeader buf alloc).1 (h.payloadHeader buf alloc).2 := by
  rw [payloadHeader]
  dsimp only
  split
  · rename_i h0
    refine ⟨sane_of_header hskb hneed hbridged hlen ?_, by rintro ⟨⟩⟩
    change h.priv.uleSnduLen + 2 = h.priv.uleSnduLen + if h.priv.uleSnduType1 then 1 else 2
    rw [htype1 (by omega), if_neg Bool.false_ne_true]
  split
  · exact ⟨sane_of_header hskb hneed hbridged hlen rfl, by rintro ⟨⟩⟩
  · obtain ⟨type, htype⟩ := readType_view
      { h with priv := { h.priv with uleSnduRemain := h.priv.uleSnduLen + 2 } } buf
    rw [htype]
    exact allocSkb_heads hskb hneed hbridged hlen rfl

theorem newPayload_heads (henters : h.Enters) (hskb : h.priv.uleSkb = none) :
    Heads (h.newPayload buf alloc).1 (h.newPayload buf alloc).2 := by
  -- the decoder has nothing of the SNDU, and waits for PUSI
  have hfresh {n : ℕ} (hp : h.priv.Fresh) : DvbNetPriv.Fresh
      { h.priv with uleSnduLen := 0, uleDbit := n, needPusi := true } :=
    ⟨hp.skb, rfl, hp.type1, hp.remain, hp.bridged⟩
  have hbridged := henters.sane.bridged
  rw [newPayload]
  split
  · rename_i hshort
    exact ⟨(hfresh (henters.short hshort hskb)).sane, by rintro ⟨⟩⟩
  split
  · rename_i hzero
    obtain ⟨len, dbit, hview⟩ := readLength_view h buf
    rw [hview]
    dsimp only
    split
    · exact ⟨(hfresh (henters.sane.fresh hskb hzero)).sane, by rintro ⟨⟩⟩
    · rename_i hlong
      exact payloadHeader_heads hskb henters.needPusi hbridged (show len ≠ 0 by omega)
        fun _ => (henters.sane.fresh hskb hzero).type1
  · rename_i h2 hlen
    exact payloadHeader_heads hskb henters.needPusi hbridged hlen fun hshort => absurd hshort h2

/-- Behind an SNDU that is complete, or in the middle of one when the TS cell has come to its end. -/
theorem nextSndu_sane (hneed : h.priv.needPusi = false) (hlt : h.tsRemain < 256)
    (hpriv : h.priv.Fresh ∨ h.priv.Sane ∧ h.priv.uleSkb ≠ none ∧ h.tsRemain < 2) :
    (h.nextSndu buf).Sane := by
  have hplaced : (h.nextSndu buf).Placed := by
    rcases @nextSndu_moves buf h hneed hlt with ⟨-, hnew⟩ | ⟨-, hwithin, -⟩
    · exact .inl hnew
    · exact .inr hwithin
  refine ⟨?_, hplaced⟩
  rw [nextSndu]
  split
  · rename_i hmore
    have hp : h.priv.Fresh := hpriv.resolve_right fun hno => Nat.not_lt_of_le hmore.1 hno.2.2
    have hfresh : DvbNetPriv.Fresh { h.priv with
      uleSkb := none, uleSnduType1 := false, uleSnduLen := 0 } := ⟨rfl, rfl, rfl, hp.remain, hp.bridged⟩
    exact hfresh.sane
  · dsimp only
    split
    · rename_i hnone
      have hp : h.priv.Fresh := hpriv.resolve_right fun hno => hno.2.1 (Option.isNone_iff_eq_none.mp hnone)
      have hfresh : DvbNetPriv.Fresh { h.priv with
        needPusi := true, uleSnduType1 := false, uleSnduLen := 0 } :=
        ⟨hp.skb, rfl, rfl, hp.remain, hp.bridged⟩
      exact hfresh.sane
    · rcases hpriv with hp | ⟨hp, -⟩
      · exact hp.sane
      · exact hp

/-! ### The kernel does not stop -/

theorem handleUleExtensions_no_panic : handleUleExtensions turns skb p ≠ .error .panic := by
  intro hcall
  rw [handleUleExtensions] at hcall
  cases hrun : run (uleExtensionBody skb) turns (0, { p with uleNextHdr := 0 }) with
  | none =>
    rw [hrun] at hcall
    cases hcall
  | some r =>
    rw [hrun] at hcall
    obtain rfl : r = .error .panic := hcall
    obtain ⟨⟨total, q⟩, -, hexit⟩ := Ends.visits ⟨turns, hrun⟩
    have hturns := uleExtensionBody_turns skb total q
    rw [hexit] at hturns
    cases hturns

theorem uleNetifRx_no_panic {destAddr : List UInt8} (hdest : destAddr.length = ethAlen)
    (hroom : ethHlen ≤ skb.headroom) : uleNetifRx dev destAddr skb p ≠ .error .panic := by
  have hlen : (destAddr ++ zeroAddr ++ htons p.uleSnduType).length ≤ skb.headroom := by
    rw [List.length_append, List.length_append, hdest, htons_length]
    exact hroom
  have hpush : skb.push (destAddr ++ zeroAddr ++ htons p.uleSnduType) = .ok _ := if_pos hlen
  rw [uleNetifRx, hpush]
  split
  · rintro ⟨⟩
  · rintro ⟨⟩

theorem pull_headroom (skb : SkBuff) (n : ℕ) : skb.headroom ≤ (skb.pull n).headroom := by
  rw [SkBuff.pull]
  split
  · exact Nat.le_add_right _ _
  · exact Nat.le_refl _

theorem uleExtensions_no_panic {destAddr : List UInt8} (hdest : destAddr.length = ethAlen)
    (hroom : ethHlen ≤ skb.headroom) : uleExtensions dev turns destAddr skb p ≠ .error .panic := by
  rw [uleExtensions]
  split
  · cases hcall : handleUleExtensions turns skb p with
    | error e =>
      intro herror
      cases herror
      exact handleUleExtensions_no_panic hcall
    | ok x =>
      obtain ⟨l, q⟩ := x
      change (if l < 0 then pure q else uleNetifRx dev destAddr (skb.pull l.toNat) q) ≠ _
      split
      · rintro ⟨⟩
      · exact uleNetifRx_no_panic hdest (Nat.le_trans hroom (pull_headroom _ _))
  · exact uleNetifRx_no_panic hdest hroom

theorem uleComplete_no_panic (hroom : ethHlen ≤ skb.headroom) :
    uleComplete dev turns skb p ≠ .error .panic := by
  have hcheck {uleCrc expectedCrc : UInt32} :
      dvbNetUleCheckCrc dev turns skb uleCrc expectedCrc p ≠ .error .panic := by
    rw [dvbNetUleCheckCrc]
    dsimp only
    split
    · rintro ⟨⟩
    · split
      · split
        · rintro ⟨⟩
        · exact uleExtensions_no_panic (length_block _ _ _)
            (Nat.le_trans hroom (pull_headroom (skb.trim 4) ethAlen))
      · exact uleExtensions_no_panic rfl hroom
  rw [uleComplete]
  dsimp only
  intro herror
  generalize hcall : dvbNetUleCheckCrc dev turns skb _ _ p = x at herror
  cases x with
  | error e =>
    cases herror
    exact hcheck hcall
  | ok q => cases herror

/-! ### A pass -/

/-- The kernel does not stop, and the decoder is left in order. -/
def Orderly : Next DvbNetUleHandle (Except Stop DvbNetPriv) → Prop
  | .again h => h.Sane
  | .exit (.ok p) => p.Sane
  | .exit (.error e) => e ≠ .panic

theorem uleCopy_orderly (hfills : h.priv.Fills skb) (hlt : h.tsRemain < 256) :
    Orderly (uleCopy dev turns buf skb h) := by
  obtain ⟨skb', hput, hawaits⟩ := hfills.awaits.putData
    (show (block buf h.fromWhere (min h.priv.uleSnduRemain h.tsRemain)).length ≤ _ by
      rw [length_block]
      exact Nat.min_le_left _ _)
  rw [length_block] at hawaits
  have hskip := skip_remain (Nat.min_le_right h.priv.uleSnduRemain h.tsRemain) hlt
  rw [uleCopy]
  dsimp only
  rw [hput]
  dsimp only
  split
  · split
    · rename_i e hcomplete
      intro hpanic
      subst hpanic
      refine uleComplete_no_panic ?_ hcomplete
      rw [hawaits.headroom]
      decide
    · rename_i q hcomplete
      obtain ⟨r, -, rfl⟩ := uleComplete_reset hcomplete
      refine nextSndu_sane hfills.needPusi (skip_lt _) (.inl ?_)
      exact ⟨rfl, rfl, rfl, rfl, rfl⟩
  · rename_i hmore
    have hfills' : DvbNetPriv.Fills { h.priv with
        uleSkb := some skb'
        uleSnduRemain := h.priv.uleSnduRemain - min h.priv.uleSnduRemain h.tsRemain } skb' :=
      ⟨rfl, hawaits, hfills.bridged, hfills.needPusi⟩
    refine nextSndu_sane hfills.needPusi (skip_lt _) (.inr ⟨hfills'.sane, by rintro ⟨⟩, ?_⟩)
    -- the rest of the TS cell has been copied
    have hmore' : h.priv.uleSnduRemain - min h.priv.uleSnduRemain h.tsRemain ≠ 0 := hmore
    change (h.skip (min h.priv.uleSnduRemain h.tsRemain)).tsRemain < 2
    omega

theorem ulePayload_orderly (henters : h.Enters) :
    Orderly (ulePayload dev alloc turns buf h) := by
  rw [ulePayload]
  split
  · rename_i skb hskb
    exact uleCopy_orderly ⟨hskb, henters.sane.skb skb hskb, henters.sane.bridged, henters.needPusi⟩
      henters.most
  · rename_i hskb
    have hheads := @newPayload_heads alloc buf h henters hskb
    have hmoves := @newPayload_moves alloc buf h henters.needPusi henters.most henters.placed
    generalize h.newPayload buf alloc = x at hheads hmoves
    obtain ⟨ret, g⟩ := x
    dsimp only at hheads hmoves ⊢
    rcases hmoves with hneg | ⟨rfl, -, hnew⟩ | ⟨rfl, -, -, hlt, -⟩
    · rw [if_pos hneg]
      exact hheads.sane
    · exact ⟨hheads.sane, .inl hnew⟩
    · obtain ⟨skb, hfills⟩ := hheads.fills rfl
      rw [if_neg (Int.lt_irrefl 0), if_neg (not_not.mpr rfl), hfills.has]
      exact uleCopy_orderly hfills hlt

/-! ### Runs -/

theorem resync_sane (h : DvbNetUleHandle) : h.resync.priv.Sane :=
  DvbNetPriv.Fresh.sane ⟨rfl, rfl, rfl, rfl, rfl⟩

theorem DvbNetPriv.Fresh.counter (hp : p.Fresh) (t : ℕ) : { p with tscc := t }.Fresh :=
  ⟨hp.skb, hp.len, hp.type1, hp.remain, hp.bridged⟩

theorem DvbNetPriv.Sane.counter (hp : p.Sane) (t : ℕ) : { p with tscc := t }.Sane :=
  ⟨fun hneed => (hp.waits hneed).counter t, fun hskb hlen => (hp.fresh hskb hlen).counter t,
    hp.header, hp.skb, hp.bridged⟩

theorem found_eq (hsane : h.priv.Sane) (hneed : h.priv.needPusi = true) :
    h.found buf = h.pointed buf := by
  rw [found, if_neg]
  rw [(hsane.waits hneed).remain]
  decide

section
variable (hsane : h.priv.Sane) (hnew : h.newTs = true)
include hsane hnew

theorem pointed_enters (hneed : h.priv.needPusi = true) : (h.pointed buf).Enters := by
  have hp := hsane.waits hneed
  have hp' : (h.pointed buf).priv.Fresh := ⟨hp.skb, hp.len, hp.type1, hp.remain, hp.bridged⟩
  exact ⟨hp'.sane, rfl, skip_lt _, .inl hnew, fun _ _ => hp'⟩

theorem counted_enters (hneed : h.priv.needPusi = false) : h.counted.Enters := by
  have hremain : h.counted.tsRemain = 184 := rfl
  exact ⟨hsane.counter _, hneed, by omega, .inl hnew, fun hshort => by omega⟩

theorem counted_skip_enters (hneed : h.priv.needPusi = false) : (h.counted.skip 1).Enters := by
  have hremain : (h.counted.skip 1).tsRemain = 184 - 1 :=
    skip_remain (by decide : 1 ≤ 184) (by decide : 184 < 256)
  exact ⟨hsane.counter _, hneed, skip_lt 1, .inl hnew, fun hshort => by omega⟩

end

theorem within_enters (hsane : h.priv.Sane) (hwithin : h.Within) : h.Enters := by
  refine ⟨hsane, hwithin.needPusi, hwithin.most, .inr hwithin, fun hshort => ?_⟩
  have hleast := hwithin.least
  omega

theorem uleBody_orderly (hsane : h.Sane) : Orderly (uleBody dev alloc turns buf tsEnd h) := by
  by_cases hend : h.ts < tsEnd
  swap
  · rw [uleBody, if_pos (Nat.le_of_not_lt hend)]
    exact hsane.priv
  rcases hsane.placed with hnew | hwithin
  · have hcell := @uleBody_cellPass dev alloc turns buf tsEnd h hend hnew
    generalize uleBody dev alloc turns buf tsEnd h = x at hcell
    cases hcell with
    | faulty => exact ⟨resync_sane h, .inl hnew⟩
    | waits hneed => exact ⟨hsane.priv, .inl hnew⟩
    | beyond hneed =>
      exact ⟨hsane.priv.counter (h.counter buf), .inl hnew⟩
    | found hneed hstarts hfits =>
      rw [found_eq hsane.priv hneed]
      exact ulePayload_orderly (pointed_enters hsane.priv hnew hneed)
    | gap => exact ⟨resync_sane h.inCell, .inl hnew⟩
    | mismatch => exact ⟨resync_sane h.counted, .inl hnew⟩
    | ends hneed => exact ulePayload_orderly (counted_skip_enters hsane.priv hnew hneed)
    | inside hneed => exact ulePayload_orderly (counted_enters hsane.priv hnew hneed)
  · rw [uleBody_within hend hwithin]
    exact ulePayload_orderly (within_enters hsane.priv hwithin)

theorem visits_sane (hp : p.Sane)
    (hvisits : Visits (uleBody dev alloc turns buf tsEnd) p.handle h) : h.Sane := by
  refine @Visits.invariant _ _ _ _ _ DvbNetUleHandle.Sane ⟨hp, .inl rfl⟩ (fun a b ha hpass => ?_) hvisits
  have horderly := @uleBody_orderly dev alloc turns buf tsEnd a ha
  rw [hpass] at horderly
  exact horderly

/-- A call returns from a pass. -/
theorem dvbNetUle_exits {bufLen : ℕ}
    (hcall : dvbNetUle dev alloc turns buf passes p bufLen = .ok q) :
    ∃ g, Visits (uleBody dev alloc turns buf bufLen) p.handle g ∧
      uleBody dev alloc turns buf bufLen g = .exit (.ok q) := by
  rw [dvbNetUle] at hcall
  cases hrun : run (uleBody dev alloc turns buf bufLen) passes p.handle with
  | none =>
    rw [hrun] at hcall
    cases hcall
  | some r =>
    rw [hrun] at hcall
    obtain rfl : r = .ok q := hcall
    exact Ends.visits ⟨passes, hrun⟩

theorem dvbNetUle_sane {bufLen : ℕ} (hp : p.Sane)
    (hcall : dvbNetUle dev alloc turns buf passes p bufLen = .ok q) : q.Sane := by
  obtain ⟨g, hvisits, hexit⟩ := dvbNetUle_exits hcall
  have horderly := @uleBody_orderly dev alloc turns buf bufLen g (visits_sane hp hvisits)
  rw [hexit] at horderly
  exact horderly

theorem dvbNetUleCalls_sane (hp : p.Sane)
    (hcalls : dvbNetUleCalls dev alloc turns passes p calls = .ok q) : q.Sane := by
  induction calls generalizing p with
  | nil =>
    cases hcalls
    exact hp
  | cons call calls ih =>
    rw [dvbNetUleCalls_cons] at hcalls
    cases hcall : dvbNetUle dev alloc turns call.buf passes p call.bufLen with
    | error e =>
      rw [hcall] at hcalls
      cases hcalls
    | ok p' =>
      rw [hcall] at hcalls
      exact ih (dvbNetUle_sane hp hcall) hcalls

theorem feedStart_sane : DvbNetPriv.feedStart.Sane :=
  DvbNetPriv.Fresh.sane ⟨rfl, rfl, rfl, rfl, rfl⟩

end Dvb.Ule

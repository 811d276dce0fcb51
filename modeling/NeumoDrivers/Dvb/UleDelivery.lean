import NeumoDrivers.Dvb.UleSndus

/-! What becomes of a complete SNDU.

    The CRC is right and the destination accepted. A packet with an EtherType is delivered. For a
    bridged frame the type behind the extension header is looked up, and with a destination address in
    the wrong place: what stands there may be a chain of extension headers. -/

namespace Dvb.Ule
open Loop Memory

variable {dev : NetDevice} {turns : ℕ} {skb : SkBuff} {p q q' : DvbNetPriv} {s : Sndu}
  {memory : ℕ → UInt8}

/-! ### The packet in the skb -/

theorem SkBuff.byte_lt {i : ℕ} (hi : i < skb.len) : skb.byte i = skb.data.getD i 0 := by
  rw [SkBuff.byte, List.getD_eq_getElem _ _ hi, List.getD_eq_getElem _ _ hi]

theorem SkBuff.ntohs_lt {i : ℕ} (hi : i + 1 < skb.len) : skb.ntohs i = beWord skb.data i := by
  rw [SkBuff.ntohs, beWord, SkBuff.byte_lt (by omega), SkBuff.byte_lt hi]

theorem SkBuff.block_le {n : ℕ} (hn : n ≤ skb.len) : block skb.byte 0 n = skb.data.take n := by
  rw [SkBuff.len] at hn
  refine List.ext_getElem (by rw [length_block, List.length_take, Nat.min_eq_left hn]) ?_
  intro i hi hi'
  rw [length_block] at hi
  have hlt : i < skb.len := Nat.lt_of_lt_of_le hi hn
  have hget := getD_block (m := skb.byte) (p := 0) hi 0
  rw [List.getD_eq_getElem _ _ (by rwa [length_block]), Nat.zero_add, SkBuff.byte_lt hlt,
    List.getD_eq_getElem _ _ hlt] at hget
  rw [hget, List.getElem_take]
  rfl

theorem dvbNetEthTypeTrans_eq (hlen : ethHlen ≤ skb.len)
    (htype : ethP8023Min ≤ beWord skb.data 12) :
    dvbNetEthTypeTrans dev skb =
      { mac := skb.data
        data := skb.data.drop ethHlen
        protocol := beWord skb.data 12
        pktType :=
          if skb.data.getD 0 0 &&& 1 = 0 then .host
          else if skb.data.take ethAlen = dev.broadcast then .broadcast
          else .multicast } := by
  have h14 : 14 ≤ skb.len := hlen
  have h6 : ethAlen ≤ skb.len := Nat.le_trans (by decide) h14
  rw [dvbNetEthTypeTrans, @SkBuff.ntohs_lt skb 12 (by omega), @SkBuff.byte_lt skb 0 (by omega),
    SkBuff.block_le h6, SkBuff.pull, if_pos hlen]
  dsimp only
  rw [if_pos htype]
  simp only [ne_eq, ite_not]

namespace Sndu
variable (s : Sndu) (memory : ℕ → UInt8)

/-- The skb when the last byte has come in. -/
def filled : SkBuff := ⟨ethHlen + ethAlen, s.body, fun i => memory (s.len + i), 0⟩

/-- The packet in the skb: behind it are the CRC, and what the memory held before. -/
def inSkb : SkBuff :=
  ⟨ethHlen + ethAlen + (s.dest.getD []).length, s.pdu.content,
    fun i => s.crcBytes.getD i (memory (s.len + (i - 4))), 4⟩

theorem filled_trim : (s.filled memory).trim 4 =
    ⟨ethHlen + ethAlen, s.covered, fun i => s.crcBytes.getD i (memory (s.len + (i - 4))), 4⟩ := by
  have hlen : (s.filled memory).len = s.covered.length + 4 := s.body_length
  rw [SkBuff.trim, hlen, Nat.add_sub_cancel, SkBuff.mk.injEq]
  refine ⟨rfl, List.take_left' rfl, funext fun i => ?_, rfl⟩
  rw [SkBuff.byte, hlen]
  change (s.covered ++ s.crcBytes).getD _ (memory (s.len + _)) = _
  rw [List.getD_append_right _ _ _ _ (Nat.le_add_right _ _), Nat.add_sub_cancel_left]
  have hcrc : s.crcBytes.length = 4 := rfl
  by_cases hi : i < 4
  · rw [List.getD_eq_getElem _ _ (hcrc ▸ hi), List.getD_eq_getElem _ _ (hcrc ▸ hi)]
  · rw [List.getD_eq_default _ _ (by omega), List.getD_eq_default _ _ (by omega)]
    congr 2
    omega

theorem filled_pull (hdest : s.dest ≠ none) :
    ((s.filled memory).trim 4).pull ethAlen = s.inSkb memory := by
  obtain ⟨mac, hmac⟩ := Option.ne_none_iff_exists'.mp hdest
  have hlen : mac.length = 6 := s.dest_length mac hmac
  rw [filled_trim, SkBuff.pull, inSkb, SkBuff.len]
  simp only [covered, hmac, Option.getD_some, List.length_append, hlen, ethAlen]
  rw [if_pos (by omega), List.drop_left' hlen]

end Sndu

/-- The fields of the SNDU have been read. -/
structure DvbNetPriv.Of (p : DvbNetPriv) (s : Sndu) : Prop where
  len : p.uleSnduLen = s.len
  type : p.uleSnduType = s.pdu.type
  dbit : p.uleDbit = if s.dest = none then 1 else 0
  bridged : p.uleBridged = false

theorem iovCrc32_eq (crc : UInt32) (a b c : List UInt8) :
    iovCrc32 crc [a, b, c] = crc32Be crc (a ++ b ++ c) := by
  simp only [iovCrc32, List.foldl_cons, List.foldl_nil, crc32Be, Demux.extendCrc32,
    List.foldl_append]

/-- An address that the receive mode accepts is not dropped. -/
theorem shouldDrop_eq_false {mac rest : List UInt8} (hmac : mac.length = ethAlen)
    (hdata : skb.data = mac ++ rest) (haccept : dev.Accepts mac) :
    dvbNetUleShouldDrop dev skb = false := by
  have hlen : skb.len = 6 + rest.length := by
    rw [SkBuff.len, hdata, List.length_append, hmac, ethAlen]
  have hblock : block skb.byte 0 ethAlen = mac := by
    rw [SkBuff.block_le (by rw [ethAlen]; omega), hdata, List.take_left' hmac]
  have hfirst : skb.byte 0 = mac.getD 0 0 := by
    rw [SkBuff.byte_lt (by omega), hdata, List.getD_append _ _ _ _ (by rw [hmac]; decide)]
  rw [dvbNetUleShouldDrop, hblock, hfirst]
  rcases haccept with hmode | haccept
  · rw [if_pos hmode]
  · split
    · rfl
    · split
      · rename_i hbit
        rw [if_neg hbit] at haccept
        split
        · rename_i hbroadcast
          split
          · rename_i hmulti
            rcases haccept with h | h | ⟨-, h⟩
            · exact absurd h hbroadcast
            · rw [hmulti] at h
              cases h
            · exact decide_eq_false (not_not.mpr h)
          · rename_i hmulti
            rcases haccept with h | h | ⟨h, -⟩
            · exact absurd h hbroadcast
            · exact decide_eq_false (not_not.mpr h)
            · exact absurd h hmulti
        · rfl
      · rename_i hbit
        rw [if_pos (not_not.mp hbit)] at haccept
        exact decide_eq_false (not_not.mpr haccept)

/-- The CRC is right, and the destination is accepted. -/
theorem uleComplete_eq (hp : p.Of s) (haccept : ∀ mac ∈ s.dest, dev.Accepts mac) :
    uleComplete dev turns (s.filled memory) p =
      (uleExtensions dev turns (s.dest.getD zeroAddr) (s.inSkb memory) p).map
        DvbNetPriv.resetUle := by
  have hle := s.len_le
  have hlen : (s.filled memory).len = s.covered.length + 4 := s.body_length
  have hfield : (if p.uleDbit ≠ 0 then p.uleSnduLen ||| 0x8000 else p.uleSnduLen) =
      s.lengthField := by
    rw [hp.dbit, hp.len, Sndu.lengthField]
    by_cases hdest : s.dest = none
    · rw [if_pos hdest, if_pos hdest, if_pos (by decide), Nat.or_comm,
        show 0x8000 = 2 ^ 15 * 1 from rfl, ← Nat.two_pow_add_eq_or_of_lt (by omega), Nat.add_comm]
    · rw [if_neg hdest, if_neg hdest, if_neg (by decide)]
  have hcovered : (s.filled memory).data.take s.covered.length = s.covered := List.take_left' rfl
  have htail (i : ℕ) (hi : i < 4) :
      (s.filled memory).byte (s.covered.length + i) = s.crcBytes.getD i 0 := by
    rw [SkBuff.byte_lt (by omega)]
    change (s.covered ++ s.crcBytes).getD _ 0 = _
    rw [List.getD_append_right _ _ _ _ (Nat.le_add_right _ _), Nat.add_sub_cancel_left]
  have hexpected : (s.crcBytes.getD 0 0).toUInt32 <<< 24 ||| (s.crcBytes.getD 1 0).toUInt32 <<< 16 |||
      (s.crcBytes.getD 2 0).toUInt32 <<< 8 ||| (s.crcBytes.getD 3 0).toUInt32 = s.crc :=
    Sndu.crc_word s.crc
  have hcheck : dvbNetUleCheckCrc dev turns (s.filled memory) s.crc s.crc p =
      uleExtensions dev turns (s.dest.getD zeroAddr) (s.inSkb memory) p := by
    rw [dvbNetUleCheckCrc, if_neg (not_not.mpr rfl), hp.dbit]
    cases hdest : s.dest with
    | none =>
      rw [if_pos rfl, if_neg (by decide), Sndu.filled_trim, Sndu.inSkb, hdest, Sndu.covered, hdest]
      rfl
    | some mac =>
      have hmac := s.dest_length mac hdest
      have hdata : ((s.filled memory).trim 4).data = mac ++ s.pdu.content := by
        rw [Sndu.filled_trim, Sndu.covered, hdest]
        rfl
      have hblock : block ((s.filled memory).trim 4).byte 0 ethAlen = mac := by
        rw [SkBuff.block_le, hdata, List.take_left' hmac]
        rw [SkBuff.len, hdata, List.length_append, hmac]
        exact Nat.le_add_right _ _
      have hdrop := shouldDrop_eq_false hmac hdata (haccept mac hdest)
      rw [if_neg (Option.some_ne_none mac), if_pos rfl]
      rw [hdrop, hblock, Sndu.filled_pull s memory (by rw [hdest]; rintro ⟨⟩)]
      rfl
  rw [uleComplete]
  dsimp only
  rw [hfield, hp.type, hlen, Nat.add_sub_cancel, hcovered, iovCrc32_eq]
  have h0 := htail 0 (by decide)
  rw [Nat.add_zero] at h0
  rw [Nat.add_zero, h0, htail 1 (by decide), htail 2 (by decide), htail 3 (by decide), hexpected]
  change Except.map _ (dvbNetUleCheckCrc dev turns (s.filled memory) s.crc s.crc p) = _
  rw [hcheck]

/-! ### Extension headers -/

/-- What one header leads to. Test SNDUs, unknown mandatory headers, and bridged frames whose length
    field is wrong are discarded. -/
inductive Handles (skb : SkBuff) (q : DvbNetPriv) : Except Stop (ℤ × DvbNetPriv) → Prop where
  | wild (h255 : extHtype q.uleSnduType = 255) : Handles skb q (.error .wild)
  | discard (hhlen : extHlen q.uleSnduType = 0)
    (hno : extHtype q.uleSnduType = 1 → skb.ntohs (q.uleNextHdr + 12) < ethP8023Min ∧
      (q.uleSnduLen : ℤ) - (q.uleNextHdr + ethHlen) ≠ skb.ntohs (q.uleNextHdr + 12)) :
    Handles skb q (.ok (-1, q))
  | bridged (hhlen : extHlen q.uleSnduType = 0) (hhtype : extHtype q.uleSnduType = 1)
    (hok : skb.ntohs (q.uleNextHdr + 12) < ethP8023Min →
      (q.uleSnduLen : ℤ) - (q.uleNextHdr + ethHlen) = skb.ntohs (q.uleNextHdr + 12)) :
    Handles skb q (.ok (0, { q with
      uleBridged := true
      uleSnduType := skb.ntohs (q.uleNextHdr + (if q.uleDbit ≠ 0 then 2 else 3) * ethAlen) }))
  | optional (hhlen : extHlen q.uleSnduType ≠ 0) (h255 : extHtype q.uleSnduType ≠ 255) :
    Handles skb q (.ok ((2 * extHlen q.uleSnduType : ℕ), { q with
      uleSnduType := skb.ntohs (q.uleNextHdr + 2 * extHlen q.uleSnduType - 2)
      uleNextHdr := q.uleNextHdr + 2 * extHlen q.uleSnduType }))

theorem handleOneUleExtension_handles (skb : SkBuff) (q : DvbNetPriv) :
    Handles skb q (handleOneUleExtension skb q) := by
  rw [handleOneUleExtension]
  by_cases h255 : extHtype q.uleSnduType = 255
  · rw [if_pos h255]
    exact .wild h255
  rw [if_neg h255]
  by_cases hhlen : extHlen q.uleSnduType = 0
  · rw [if_pos hhlen]
    by_cases h0 : extHtype q.uleSnduType = 0
    · rw [h0]
      exact .discard hhlen fun h1 => by omega
    by_cases h1 : extHtype q.uleSnduType = 1
    · have hsome : uleMandatoryExtHandlers 1 = some uleBridgedSndu := rfl
      rw [h1, hsome]
      dsimp only
      by_cases hbad : skb.ntohs (q.uleNextHdr + 12) < ethP8023Min ∧
          (q.uleSnduLen : ℤ) - (q.uleNextHdr + ethHlen) ≠ skb.ntohs (q.uleNextHdr + 12)
      · have hcall : uleBridgedSndu skb q = (-1, q) := if_pos hbad
        rw [hcall]
        exact .discard hhlen fun _ => hbad
      · have hcall : uleBridgedSndu skb q = (0, { q with uleBridged := true }) := if_neg hbad
        rw [hcall]
        exact .bridged hhlen h1 fun hshort => by_contra fun hne => hbad ⟨hshort, hne⟩
    · have hnone : uleMandatoryExtHandlers (extHtype q.uleSnduType) = none := by
        rw [uleMandatoryExtHandlers]
        · exact h0
        · exact h1
      rw [hnone]
      exact .discard hhlen fun h => absurd h h1
  · rw [if_neg hhlen, Nat.shiftLeft_eq, pow_one, Nat.mul_comm]
    exact .optional hhlen h255

/-- Where the loop looks up the type of a bridged frame. -/
def DvbNetPriv.typeOffset (p : DvbNetPriv) : ℕ := (if p.uleDbit ≠ 0 then 2 else 3) * ethAlen

section
variable (hhlen : extHlen q.uleSnduType ≠ 0) (h255 : extHtype q.uleSnduType ≠ 255)
include hhlen h255

theorem handleOneUleExtension_optional : handleOneUleExtension skb q =
    .ok ((2 * extHlen q.uleSnduType : ℕ), { q with
      uleSnduType := skb.ntohs (q.uleNextHdr + 2 * extHlen q.uleSnduType - 2)
      uleNextHdr := q.uleNextHdr + 2 * extHlen q.uleSnduType }) := by
  have hhandles := handleOneUleExtension_handles skb q
  generalize handleOneUleExtension skb q = x at hhandles
  cases hhandles with
  | wild h => exact absurd h h255
  | discard h => exact absurd h hhlen
  | bridged h => exact absurd h hhlen
  | optional => rfl

end

theorem handleOneUleExtension_bridged (hhlen : extHlen q.uleSnduType = 0)
    (hhtype : extHtype q.uleSnduType = 1) (hok : skb.ntohs (q.uleNextHdr + 12) < ethP8023Min →
      (q.uleSnduLen : ℤ) - (q.uleNextHdr + ethHlen) = skb.ntohs (q.uleNextHdr + 12)) :
    handleOneUleExtension skb q = .ok (0, { q with
      uleBridged := true
      uleSnduType := skb.ntohs (q.uleNextHdr + q.typeOffset) }) := by
  have hhandles := handleOneUleExtension_handles skb q
  generalize handleOneUleExtension skb q = x at hhandles
  cases hhandles with
  | wild h => omega
  | discard _ hno =>
    obtain ⟨hshort, hne⟩ := hno hhtype
    exact absurd (hok hshort) hne
  | bridged => rfl
  | optional h => exact absurd hhlen h

/-- What one turn of the loop does. -/
inductive Turns (skb : SkBuff) (total : ℤ) (q : DvbNetPriv) :
    Next (ℤ × DvbNetPriv) (Except Stop (ℤ × DvbNetPriv)) → Prop where
  | wild : Turns skb total q (.exit (.error .wild))
  | discard {q' : DvbNetPriv} : Handles skb q (.ok (-1, q')) →
    Turns skb total q (.exit (.ok (-1, q')))
  | last {l : ℕ} {q' : DvbNetPriv} : Handles skb q (.ok (l, q')) → ethP8023Min ≤ q'.uleSnduType →
    Turns skb total q (.exit (.ok (total + l, q')))
  | more {l : ℕ} {q' : DvbNetPriv} : Handles skb q (.ok (l, q')) → q'.uleSnduType < ethP8023Min →
    Turns skb total q (.again (total + l, q'))

theorem uleExtensionBody_turns (skb : SkBuff) (total : ℤ) (q : DvbNetPriv) :
    Turns skb total q (uleExtensionBody skb (total, q)) := by
  have hhandles := handleOneUleExtension_handles skb q
  rw [uleExtensionBody]
  generalize handleOneUleExtension skb q = x at hhandles
  have hlong {l : ℕ} {q' : DvbNetPriv} (hhandles : Handles skb q (.ok (l, q'))) :
      Turns skb total q (if (l : ℤ) < 0 then .exit (.ok ((l : ℤ), q'))
        else if q'.uleSnduType < ethP8023Min then .again (total + l, q')
        else .exit (.ok (total + l, q'))) := by
    rw [if_neg (by omega)]
    split_ifs with hshort
    · exact .more hhandles hshort
    · exact .last hhandles (Nat.le_of_not_lt hshort)
  cases hhandles with
  | wild => exact .wild
  | discard hhlen hno => exact .discard (.discard hhlen hno)
  | bridged hhlen hhtype hok => exact hlong (.bridged hhlen hhtype hok)
  | optional hhlen h255 => exact hlong (.optional hhlen h255)

/-- From a header of type `type` at `pos` the headers lead to an EtherType. What follows them is at
    `stop`; the type behind a header for bridged frames is looked up at `offset`. -/
inductive HeadersTo (skb : SkBuff) (len offset : ℕ) : ℕ → ℕ → ℕ → Prop where
  | ends (pos : ℕ) {type : ℕ} : ethP8023Min ≤ type → HeadersTo skb len offset pos type pos
  | optional {pos type stop : ℕ} : type < ethP8023Min → extHlen type ≠ 0 → extHtype type ≠ 255 →
    HeadersTo skb len offset (pos + 2 * extHlen type) (skb.ntohs (pos + 2 * extHlen type - 2))
      stop → HeadersTo skb len offset pos type stop
  | bridged {pos type stop : ℕ} : type < ethP8023Min → extHlen type = 0 → extHtype type = 1 →
    (skb.ntohs (pos + 12) < ethP8023Min →
      (len : ℤ) - (pos + ethHlen) = skb.ntohs (pos + 12)) →
    HeadersTo skb len offset pos (skb.ntohs (pos + offset)) stop →
    HeadersTo skb len offset pos type stop

theorem HeadersTo.of_ends {n : ℕ} {total l : ℤ}
    (h : run (uleExtensionBody skb) n (total, q) = some (.ok (l, q')))
    (hmin : q.uleSnduType < ethP8023Min) (hl : 0 ≤ l) :
    ∃ stop, HeadersTo skb q.uleSnduLen q.typeOffset q.uleNextHdr q.uleSnduType stop ∧
      l = total + stop - q.uleNextHdr := by
  induction n generalizing total q with
  | zero => cases h
  | succ n ih =>
    have hturns := uleExtensionBody_turns skb total q
    rw [run] at h
    generalize uleExtensionBody skb (total, q) = x at hturns h
    cases hturns with
    | wild => cases h
    | discard hhandles =>
      cases h
      exact absurd hl (by decide)
    | more hhandles hshort =>
      obtain ⟨stop, hto, heq⟩ := ih h hshort
      rcases hhandles with _ | _ | ⟨hhlen, hhtype, hok⟩ | ⟨hhlen, h255⟩
      · exact ⟨stop, .bridged hmin hhlen hhtype hok hto, by rw [heq]; dsimp only; omega⟩
      · exact ⟨stop, .optional hmin hhlen h255 hto, by rw [heq]; dsimp only; omega⟩
    | last hhandles hge =>
      cases h
      rcases hhandles with _ | _ | ⟨hhlen, hhtype, hok⟩ | ⟨hhlen, h255⟩
      · exact ⟨q.uleNextHdr, .bridged hmin hhlen hhtype hok (.ends _ hge), by push_cast; omega⟩
      · exact ⟨_, .optional hmin hhlen h255 (.ends _ hge), by omega⟩

/-- A header that is not discarded: the loop ends, or goes on behind it. -/
theorem ends_turn {l total m : ℤ} (h : handleOneUleExtension skb q = .ok (l, q')) (hl : 0 ≤ l)
    (hend : ethP8023Min ≤ q'.uleSnduType → m = total + l)
    (hmore : q'.uleSnduType < ethP8023Min →
      ∃ r, Ends (uleExtensionBody skb) (total + l, q') (.ok (m, r))) :
    ∃ r, Ends (uleExtensionBody skb) (total, q) (.ok (m, r)) := by
  by_cases hshort : q'.uleSnduType < ethP8023Min
  · obtain ⟨r, hr⟩ := hmore hshort
    refine ⟨r, .again ?_ hr⟩
    rw [uleExtensionBody, h]
    dsimp only
    rw [if_neg (by omega), if_pos hshort]
  · refine ⟨q', .exit ?_⟩
    rw [uleExtensionBody, h, hend (Nat.le_of_not_lt hshort)]
    dsimp only
    rw [if_neg (by omega), if_neg hshort]

theorem HeadersTo.stop_eq {len offset pos type stop : ℕ} (h : HeadersTo skb len offset pos type stop)
    (hmin : ethP8023Min ≤ type) : stop = pos := by
  cases h with
  | ends => rfl
  | optional hlt => omega
  | bridged hlt => omega

theorem HeadersTo.ends_of {len offset pos type stop : ℕ} (h : HeadersTo skb len offset pos type stop)
    {total : ℤ} (hmin : type < ethP8023Min) (hlen : q.uleSnduLen = len)
    (hoffset : q.typeOffset = offset) (hpos : q.uleNextHdr = pos) (htype : q.uleSnduType = type) :
    ∃ r, Ends (uleExtensionBody skb) (total, q) (.ok (total + stop - pos, r)) := by
  induction h generalizing q total with
  | ends pos hge => exact absurd hmin (Nat.not_lt_of_le hge)
  | @optional pos type stop _ hhlen h255 hto ih =>
    subst hpos htype
    refine ends_turn (handleOneUleExtension_optional hhlen h255) (Int.natCast_nonneg _)
      (fun hge => ?_) fun hshort => ?_
    · rw [hto.stop_eq hge]
      omega
    · have hsum : total + stop - q.uleNextHdr = total + (2 * extHlen q.uleSnduType : ℕ) + stop -
          (q.uleNextHdr + 2 * extHlen q.uleSnduType : ℕ) := by omega
      rw [hsum]
      exact ih hshort hlen hoffset rfl rfl
  | @bridged pos type stop _ hhlen hhtype hok hto ih =>
    subst hpos htype hoffset hlen
    refine ends_turn (handleOneUleExtension_bridged hhlen hhtype hok) (Int.le_refl 0)
      (fun hge => ?_) fun hshort => ?_
    · rw [hto.stop_eq hge]
      omega
    · have hsum : total + stop - q.uleNextHdr = total + 0 + stop - q.uleNextHdr := by omega
      rw [hsum]
      exact ih hshort rfl rfl rfl rfl

/-! ### What is delivered -/

/-- The decoder `p` with the headers as far as `q` has handled them. -/
def DvbNetPriv.headed (p q : DvbNetPriv) : DvbNetPriv :=
  { p with
    uleNextHdr := q.uleNextHdr
    uleSnduLen := q.uleSnduLen
    uleSnduType := q.uleSnduType
    uleDbit := q.uleDbit
    uleBridged := q.uleBridged }

theorem uleBridgedSndu_headed (skb : SkBuff) (p q : DvbNetPriv) :
    uleBridgedSndu skb (p.headed q) =
      ((uleBridgedSndu skb q).1, p.headed (uleBridgedSndu skb q).2) := by
  by_cases hbad : skb.ntohs (q.uleNextHdr + 12) < ethP8023Min ∧
      (q.uleSnduLen : ℤ) - (q.uleNextHdr + ethHlen) ≠ skb.ntohs (q.uleNextHdr + 12)
  · have hcall : uleBridgedSndu skb q = (-1, q) := if_pos hbad
    have hcall' : uleBridgedSndu skb (p.headed q) = (-1, p.headed q) := if_pos hbad
    rw [hcall, hcall']
  · have hcall : uleBridgedSndu skb q = (0, { q with uleBridged := true }) := if_neg hbad
    have hcall' : uleBridgedSndu skb (p.headed q) =
        (0, { p.headed q with uleBridged := true }) := if_neg hbad
    rw [hcall, hcall']
    rfl

/-- Extension headers do not depend on the rest of the decoder, and leave it alone. -/
theorem handleOneUleExtension_headed (skb : SkBuff) (p q : DvbNetPriv) :
    handleOneUleExtension skb (p.headed q) =
      (handleOneUleExtension skb q).map fun r => (r.1, p.headed r.2) := by
  have htype : (p.headed q).uleSnduType = q.uleSnduType := rfl
  rw [handleOneUleExtension, handleOneUleExtension, htype]
  by_cases h255 : extHtype q.uleSnduType = 255
  · rw [if_pos h255, if_pos h255]
    rfl
  rw [if_neg h255, if_neg h255]
  by_cases hhlen : extHlen q.uleSnduType = 0
  · rw [if_pos hhlen, if_pos hhlen]
    cases hhandler : uleMandatoryExtHandlers (extHtype q.uleSnduType) with
    | none => rfl
    | some handler =>
      have hcall : handler skb (p.headed q) = ((handler skb q).1, p.headed (handler skb q).2) := by
        rw [uleMandatoryExtHandlers.eq_def] at hhandler
        split at hhandler
        · cases hhandler
          rfl
        · cases hhandler
          exact uleBridgedSndu_headed skb p q
        · cases hhandler
      dsimp only
      rw [hcall]
      generalize handler skb q = r
      obtain ⟨extLen, q'⟩ := r
      have hbridged : (p.headed q').uleBridged = q'.uleBridged := rfl
      dsimp only
      rw [hbridged]
      by_cases hlen : extLen ≥ 0
      · rw [if_pos hlen, if_pos hlen]
        by_cases hb : ¬q'.uleBridged = true
        · rw [if_pos hb, if_pos hb]
          rfl
        · rw [if_neg hb, if_neg hb]
          rfl
      · rw [if_neg hlen, if_neg hlen]
        rfl
  · rw [if_neg hhlen, if_neg hhlen]
    rfl

theorem run_headed (skb : SkBuff) (p : DvbNetPriv) (n : ℕ) (total : ℤ) (q : DvbNetPriv) :
    run (uleExtensionBody skb) n (total, p.headed q) =
      (run (uleExtensionBody skb) n (total, q)).map (Except.map fun r => (r.1, p.headed r.2)) := by
  induction n generalizing total q with
  | zero => rfl
  | succ n ih =>
    rw [run, run, uleExtensionBody, uleExtensionBody, handleOneUleExtension_headed]
    cases handleOneUleExtension skb q with
    | error e => rfl
    | ok r =>
      obtain ⟨l, q'⟩ := r
      have htype : (p.headed q').uleSnduType = q'.uleSnduType := rfl
      dsimp only [Except.map]
      rw [htype]
      split_ifs
      · rfl
      · exact ih (total + l) q'
      · rfl

/-- The decoder when the headers of the SNDU are looked at. -/
def Sndu.begun (s : Sndu) : DvbNetPriv :=
  { DvbNetPriv.feedStart with
    uleSnduLen := s.len
    uleSnduType := s.pdu.type
    uleDbit := if s.dest = none then 1 else 0 }

theorem handleUleExtensions_of (hp : p.Of s) :
    handleUleExtensions turns skb p =
      (handleUleExtensions turns skb s.begun).map fun r => (r.1, p.headed r.2) := by
  have hheaded : { p with uleNextHdr := 0 } = p.headed { s.begun with uleNextHdr := 0 } := by
    obtain ⟨hlen, htype, hdbit, hbridged⟩ := hp
    rw [DvbNetPriv.headed, Sndu.begun]
    dsimp only
    rw [← hlen, ← htype, ← hdbit, show DvbNetPriv.feedStart.uleBridged = p.uleBridged from
      hbridged.symm]
  rw [handleUleExtensions, handleUleExtensions, hheaded, run_headed]
  cases run (uleExtensionBody skb) turns (0, { s.begun with uleNextHdr := 0 }) with
  | none => rfl
  | some r => rfl

/-- The packets that the network stack gets. -/
def Sndu.outcome (s : Sndu) (dev : NetDevice) (turns : ℕ) (memory : ℕ → UInt8) :
    Except Stop (List Received) :=
  match s.pdu with
  | .typed _ _ => .ok [s.expected dev]
  | .bridged _ => (handleUleExtensions turns (s.inSkb memory) s.begun).map fun (l, _) =>
      if l < 0 then [] else [dvbNetEthTypeTrans dev ((s.inSkb memory).pull l.toNat)]

/-- Headers that are not discarded end with a bridged frame. -/
theorem bridged_of_run {n : ℕ} {total l : ℤ}
    (h : run (uleExtensionBody skb) n (total, q) = some (.ok (l, q'))) (hl : 0 ≤ l)
    (hq : q.uleBridged = true ∨ q.uleSnduType = 1) : q'.uleBridged = true := by
  induction n generalizing total q with
  | zero => cases h
  | succ n ih =>
    have hturns := uleExtensionBody_turns skb total q
    rw [run] at h
    generalize uleExtensionBody skb (total, q) = x at hturns h
    have hstays {l : ℕ} {r : DvbNetPriv} (hhandles : Handles skb q (.ok (l, r))) :
        r.uleBridged = true := by
      rcases hhandles with _ | _ | _ | ⟨hhlen, -⟩
      · rfl
      · exact hq.resolve_right fun h1 => hhlen (by rw [h1]; decide)
    cases hturns with
    | wild => cases h
    | discard hhandles =>
      cases h
      exact absurd hl (by decide)
    | more hhandles => exact ih h (.inl (hstays hhandles))
    | last hhandles =>
      cases h
      exact hstays hhandles

theorem Sndu.frame_typed {type : ℕ} {payload : List UInt8} (hpdu : s.pdu = .typed type payload) :
    s.frame = s.dest.getD zeroAddr ++ zeroAddr ++ htons type ++ payload := by
  rw [Sndu.frame, hpdu]

theorem Sndu.frame_bridged {frame : List UInt8} (hpdu : s.pdu = .bridged frame) :
    s.frame = frame := by
  rw [Sndu.frame, hpdu]

theorem Sndu.addr_length (s : Sndu) : (s.dest.getD zeroAddr).length = 6 := by
  cases hdest : s.dest with
  | none => rfl
  | some mac => exact s.dest_length mac hdest

theorem Sndu.frame_header (s : Sndu) :
    ethHlen ≤ s.frame.length ∧ ethP8023Min ≤ beWord s.frame 12 := by
  have hproper := s.proper
  cases hpdu : s.pdu with
  | typed type payload =>
    rw [hpdu] at hproper
    have h12 : (s.dest.getD zeroAddr ++ zeroAddr).length = 12 := by
      rw [List.length_append, s.addr_length]
      rfl
    have hbyte (i : ℕ) : s.frame.getD (12 + i) 0 = (htons type ++ payload).getD i 0 := by
      rw [Sndu.frame_typed hpdu, List.append_assoc,
        List.getD_append_right _ _ _ _ (by rw [h12]; exact Nat.le_add_right _ _), h12,
        Nat.add_sub_cancel_left]
    constructor
    · rw [Sndu.frame_typed hpdu, List.length_append, List.length_append, h12, htons_length]
      exact Nat.le_add_right 14 _
    · rw [beWord, show s.frame.getD 12 0 = _ from hbyte 0, show s.frame.getD (12 + 1) 0 = _ from hbyte 1]
      have hfield := ntohs_htons hproper.2
      exact hfield.symm ▸ hproper.1
  | bridged frame =>
    rw [hpdu] at hproper
    rw [Sndu.frame_bridged hpdu]
    exact hproper

theorem dvbNetEthTypeTrans_frame (hdata : skb.data = s.frame) :
    dvbNetEthTypeTrans dev skb = s.expected dev := by
  obtain ⟨hlen, htype⟩ := s.frame_header
  rw [dvbNetEthTypeTrans_eq (by rwa [SkBuff.len, hdata]) (by rwa [hdata]), hdata]
  rfl

/-- A complete SNDU leaves the decoder reset, and the network stack with what comes of it. -/
theorem uleComplete_outcome (hp : p.Of s) (haccept : ∀ mac ∈ s.dest, dev.Accepts mac) :
    uleComplete dev turns (s.filled memory) p = (s.outcome dev turns memory).map fun r =>
      { p.resetUle with received := p.received ++ r } := by
  rw [uleComplete_eq hp haccept, Sndu.outcome, uleExtensions, hp.type]
  cases hpdu : s.pdu with
  | typed type payload =>
    have hproper := s.proper
    rw [hpdu] at hproper
    have hroom : (s.dest.getD zeroAddr ++ zeroAddr ++ htons type).length ≤
        (s.inSkb memory).headroom := by
      rw [List.length_append, List.length_append, s.addr_length, htons_length]
      exact Nat.le_trans (by decide) (Nat.le_add_right (ethHlen + ethAlen) _)
    have hpush : (s.inSkb memory).push (s.dest.getD zeroAddr ++ zeroAddr ++ htons type) = .ok _ :=
      if_pos hroom
    have hdata : s.dest.getD zeroAddr ++ zeroAddr ++ htons type ++ (s.inSkb memory).data =
        s.frame := by
      rw [Sndu.frame_typed hpdu, Sndu.inSkb, hpdu]
      rfl
    have hmin : ¬Pdu.type (.typed type payload) < ethP8023Min := Nat.not_lt_of_le hproper.1
    rw [if_neg hmin, uleNetifRx, hp.bridged, hp.type, hpdu]
    dsimp only [Pdu.type]
    rw [if_pos nofun, hpush, hdata]
    have hdeliver := @dvbNetEthTypeTrans_frame dev ⟨(s.inSkb memory).headroom -
      (s.dest.getD zeroAddr ++ zeroAddr ++ htons type).length, s.frame, (s.inSkb memory).behind,
      (s.inSkb memory).tailroom⟩ s rfl
    rw [← hdeliver]
    rfl
  | bridged frame =>
    have hmin : Pdu.type (.bridged frame) < ethP8023Min := (by decide : 1 < ethP8023Min)
    rw [if_pos hmin, handleUleExtensions_of hp]
    dsimp only
    cases hcall : handleUleExtensions turns (s.inSkb memory) s.begun with
    | error e => rfl
    | ok r =>
      obtain ⟨l, q⟩ := r
      dsimp only [Except.map, Except.bind, bind, pure, Except.pure]
      by_cases hl : l < 0
      · rw [if_pos hl, if_pos hl, List.append_nil]
        rfl
      · have hbridged : q.uleBridged = true := by
          rw [handleUleExtensions] at hcall
          cases hrun : run (uleExtensionBody (s.inSkb memory)) turns
              (0, { s.begun with uleNextHdr := 0 }) with
          | none =>
            rw [hrun] at hcall
            cases hcall
          | some r =>
            rw [hrun] at hcall
            cases hcall
            exact bridged_of_run hrun (Int.not_lt.mp hl) (.inr (congrArg Pdu.type hpdu))
        have hheaded : (p.headed q).uleBridged = true := hbridged
        rw [if_neg hl, if_neg hl, uleNetifRx, hheaded, if_neg (not_not.mpr rfl)]
        rfl

/-! ### Which SNDUs are delivered unchanged -/

/-- The type of the frame is looked up where it is when there is no destination address; with one, it
    is taken 18 bytes from the start of the frame, and two bytes that are not an EtherType count as
    an extension header. -/
def Sndu.Unharmed (s : Sndu) (memory : ℕ → UInt8) : Prop :=
  ∀ frame, s.pdu = .bridged frame → s.dest ≠ none →
    ∃ stop, HeadersTo (s.inSkb memory) s.len (3 * ethAlen) 0 ((s.inSkb memory).ntohs (3 * ethAlen))
      stop ∧ (stop = 0 ∨ frame.length < stop)

theorem outcome_length {r : List Received} (h : s.outcome dev turns memory = .ok r) :
    r.length ≤ 1 := by
  rw [Sndu.outcome] at h
  split at h
  · cases h
    exact Nat.le_refl 1
  · cases hcall : handleUleExtensions turns (s.inSkb memory) s.begun with
    | error e =>
      rw [hcall] at h
      cases h
    | ok x =>
      rw [hcall] at h
      cases h
      dsimp only
      split
      · exact Nat.zero_le 1
      · exact Nat.le_refl 1

theorem handleUleExtensions_ok {l : ℤ} (h : handleUleExtensions turns skb p = .ok (l, q)) :
    run (uleExtensionBody skb) turns (0, { p with uleNextHdr := 0 }) = some (.ok (l, q)) := by
  rw [handleUleExtensions] at h
  cases hrun : run (uleExtensionBody skb) turns (0, { p with uleNextHdr := 0 }) with
  | none =>
    rw [hrun] at h
    cases h
  | some r =>
    rw [hrun] at h
    exact congrArg some h

/-- More turns than are needed do no harm. -/
theorem outcome_mono {turns' : ℕ} {r : List Received} (hle : turns ≤ turns')
    (h : s.outcome dev turns memory = .ok r) : s.outcome dev turns' memory = .ok r := by
  rw [Sndu.outcome] at h ⊢
  split at h
  · exact h
  · cases hcall : handleUleExtensions turns (s.inSkb memory) s.begun with
    | error e =>
      rw [hcall] at h
      cases h
    | ok x =>
      have hrun := run_mono hle (handleUleExtensions_ok hcall)
      have hcall' : handleUleExtensions turns' (s.inSkb memory) s.begun = .ok x := by
        rw [handleUleExtensions, hrun]
        rfl
      rw [hcall] at h
      rw [hcall']
      exact h

theorem Sndu.begun_offset (s : Sndu) :
    s.begun.typeOffset = (if s.dest = none then 2 else 3) * ethAlen := by
  rw [DvbNetPriv.typeOffset, Sndu.begun]
  dsimp only
  by_cases hdest : s.dest = none
  · rw [if_pos hdest, if_pos hdest, if_pos (by decide)]
  · rw [if_neg hdest, if_neg hdest, if_neg (by decide)]

/-- The header for bridged frames comes first. -/
theorem headersTo_bridged {frame : List UInt8} {offset stop : ℕ} (hpdu : s.pdu = .bridged frame) :
    HeadersTo (s.inSkb memory) s.len offset 0 1 stop ↔
      HeadersTo (s.inSkb memory) s.len offset 0 ((s.inSkb memory).ntohs offset) stop := by
  constructor
  · intro h
    cases h with
    | ends _ hge => exact absurd hge (by decide)
    | optional _ hhlen => exact absurd (show extHlen 1 = 0 by decide) hhlen
    | bridged _ _ _ _ hto => rwa [Nat.zero_add] at hto
  · intro h
    obtain ⟨hlen, htype⟩ := s.frame_header
    have hdata : (s.inSkb memory).data = s.frame := by
      rw [Sndu.frame_bridged hpdu, Sndu.inSkb, hpdu]
      rfl
    have hproto : (s.inSkb memory).ntohs 12 = beWord s.frame 12 := by
      rw [SkBuff.ntohs_lt, hdata]
      rw [SkBuff.len, hdata]
      exact Nat.lt_of_lt_of_le (by decide) hlen
    refine .bridged (by decide) (by decide) (by decide) (fun hshort => ?_) (by rwa [Nat.zero_add])
    rw [Nat.zero_add, hproto] at hshort
    omega

theorem delivered_iff :
    (∃ turns, s.outcome dev turns memory = .ok [s.expected dev]) ↔ s.Unharmed memory := by
  cases hpdu : s.pdu with
  | typed type payload =>
    refine iff_of_true ⟨0, by rw [Sndu.outcome, hpdu]⟩ fun frame hframe => ?_
    rw [hpdu] at hframe
    cases hframe
  | bridged frame =>
    have hdata : (s.inSkb memory).data = s.frame := by
      rw [Sndu.frame_bridged hpdu, Sndu.inSkb, hpdu]
      rfl
    have hlen : (s.inSkb memory).len = frame.length := by
      rw [SkBuff.len, hdata, Sndu.frame_bridged hpdu]
    -- the packet is whole when nothing is pulled, or too much
    have hwhole (stop : ℕ) : dvbNetEthTypeTrans dev ((s.inSkb memory).pull stop) = s.expected dev ↔
        stop = 0 ∨ frame.length < stop := by
      constructor
      · intro h
        by_contra hno
        rw [SkBuff.pull, if_pos (by omega)] at h
        have hmac := congrArg (List.length ∘ Received.mac) h
        change ((s.inSkb memory).data.drop stop).length = s.frame.length at hmac
        rw [hdata, List.length_drop, Sndu.frame_bridged hpdu] at hmac
        omega
      · intro h
        apply dvbNetEthTypeTrans_frame
        rw [SkBuff.pull]
        split
        · obtain rfl : stop = 0 := by omega
          exact hdata
        · exact hdata
    constructor
    · rintro ⟨turns, h⟩ frame' hframe hdest
      obtain rfl : frame = frame' := Pdu.bridged.inj (hpdu.symm.trans hframe)
      rw [Sndu.outcome, hpdu] at h
      dsimp only at h
      cases hcall : handleUleExtensions turns (s.inSkb memory) s.begun with
      | error e =>
        rw [hcall] at h
        cases h
      | ok x =>
        obtain ⟨l, q⟩ := x
        rw [hcall] at h
        have hr : (if l < 0 then [] else [dvbNetEthTypeTrans dev ((s.inSkb memory).pull l.toNat)]) =
          [s.expected dev] := Except.ok.inj h
        by_cases hl : l < 0
        · rw [if_pos hl] at hr
          cases hr
        rw [if_neg hl] at hr
        have hrun : run (uleExtensionBody (s.inSkb memory)) turns (0, s.begun) =
            some (.ok (l, q)) := handleUleExtensions_ok hcall
        have htype : s.begun.uleSnduType = 1 := congrArg Pdu.type hpdu
        obtain ⟨stop, hto, hstop⟩ := HeadersTo.of_ends hrun (by rw [htype]; decide)
          (Int.not_lt.mp hl)
        rw [htype, Sndu.begun_offset, if_neg hdest] at hto
        have hstop' : l = 0 + stop - (0 : ℕ) := hstop
        obtain rfl : l = stop := by omega
        refine ⟨stop, (headersTo_bridged hpdu).mp hto, (hwhole stop).mp ?_⟩
        exact (List.cons.inj hr).1
    · intro h
      have hexists : ∃ stop, HeadersTo (s.inSkb memory) s.len
          ((if s.dest = none then 2 else 3) * ethAlen) 0
          ((s.inSkb memory).ntohs ((if s.dest = none then 2 else 3) * ethAlen)) stop ∧
          (stop = 0 ∨ frame.length < stop) := by
        by_cases hdest : s.dest = none
        · rw [if_pos hdest]
          obtain ⟨hlong, htype⟩ := s.frame_header
          refine ⟨0, .ends 0 ?_, .inl rfl⟩
          rw [SkBuff.ntohs_lt, hdata]
          · exact htype
          · rw [SkBuff.len, hdata]
            exact Nat.lt_of_lt_of_le (by decide) hlong
        · rw [if_neg hdest]
          exact h frame hpdu hdest
      obtain ⟨stop, hto, hstop⟩ := hexists
      have hends : ∃ r, Ends (uleExtensionBody (s.inSkb memory)) (0, s.begun)
          (.ok (0 + stop - (0 : ℕ), r)) :=
        ((headersTo_bridged hpdu).mpr hto).ends_of (by decide) rfl s.begun_offset rfl
          (congrArg Pdu.type hpdu)
      obtain ⟨q, n, hrun⟩ := hends
      have hcall : handleUleExtensions n (s.inSkb memory) s.begun = .ok ((stop : ℤ), q) := by
        have hrun' : run (uleExtensionBody (s.inSkb memory)) n (0, { s.begun with uleNextHdr := 0 }) =
          some (.ok (0 + stop - (0 : ℕ), q)) := hrun
        rw [handleUleExtensions, hrun']
        simp
      refine ⟨n, ?_⟩
      rw [Sndu.outcome, hpdu]
      dsimp only
      rw [hcall]
      have hpull := (hwhole stop).mpr hstop
      change Except.ok (if (stop : ℤ) < 0 then [] else [_]) = _
      rw [if_neg (by omega), Int.toNat_natCast, hpull]

end Dvb.Ule

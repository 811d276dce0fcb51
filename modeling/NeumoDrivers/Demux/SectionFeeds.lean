import NeumoDrivers.Lib.Delimited
import NeumoDrivers.Demux.Sections

/-! Sections are delivered as they were sent.

    What the buffer holds between `secbufp` and `tsfeedp` is a window on the stream of sections, and
    a call of `neumo_dvb_dmx_swfilter_section_copy_dump` splits the window with the new bytes behind
    it. In a stream that was put into packets in the standard way the window is the part received of
    one section, or stuffing. -/

namespace Demux
open Loop Delimited

variable {use : SectionUse} {feed feed' : SectionFeed} {w : List UInt8} {n limit : ℕ}

/-- The length of the section at the start of a window, where it is a length the driver takes. -/
def sectionSize (w : List UInt8) : Option ℕ :=
  let n := sectionLength fun i => w.getD i 0
  if 2 < w.length ∧ n ≤ DMX_MAX_SECTION_SIZE then some n else none

theorem sectionLength_pos (buf : ℕ → UInt8) : 0 < sectionLength buf := by
  rw [sectionLength]
  omega

theorem sectionLength_congr {buf buf' : ℕ → UInt8} (h1 : buf 1 = buf' 1) (h2 : buf 2 = buf' 2) :
    sectionLength buf = sectionLength buf' := by
  rw [sectionLength, sectionLength, h1, h2]

theorem sectionSize_eq_some : sectionSize w = some n ↔
    2 < w.length ∧ n ≤ DMX_MAX_SECTION_SIZE ∧ sectionLength (fun i => w.getD i 0) = n := by
  rw [sectionSize]
  split
  · rename_i h
    rw [Option.some.injEq]
    constructor
    · rintro rfl
      exact ⟨h.1, h.2, rfl⟩
    · rintro ⟨-, -, rfl⟩
      rfl
  · rename_i h
    constructor
    · rintro ⟨⟩
    · rintro ⟨hlen, hmax, rfl⟩
      exact absurd ⟨hlen, hmax⟩ h

/-- Sections tell their own length in their first three bytes. -/
def sectionDelimiter : Delimiter UInt8 where
  size := sectionSize
  size_pos {w n} h := by
    obtain ⟨-, -, rfl⟩ := sectionSize_eq_some.mp h
    exact sectionLength_pos _
  size_append {u n} h v := by
    obtain ⟨hlen, hmax, rfl⟩ := sectionSize_eq_some.mp h
    refine sectionSize_eq_some.mpr ⟨?_, hmax, ?_⟩
    · rw [List.length_append]
      exact Nat.lt_of_lt_of_le hlen (Nat.le_add_right ..)
    · exact sectionLength_congr (List.getD_append _ _ _ _ (by omega))
        (List.getD_append _ _ _ _ (by omega))

/-- Feeds whose only filter passes everything and that do not check the CRC. -/
structure AllPass (use : SectionUse) : Prop where
  isFiltering : use.isFiltering = true
  sectionFilter : ∃ filterValue filterMode, use.sectionFilter =
    [prepareSecfilter filterValue (List.replicate DVB_DEMUX_MASK_MAX 0) filterMode]
  checkCrc : use.checkCrc = false

theorem prepareSecfilter_zero (filterValue filterMode : List UInt8) :
    prepareSecfilter filterValue (List.replicate DVB_DEMUX_MASK_MAX 0) filterMode =
      ⟨filterValue, List.replicate DVB_DEMUX_MASK_MAX 0, List.replicate DVB_DEMUX_MASK_MAX 0,
        false⟩ := by
  have hmask : ∀ i, (List.replicate DVB_DEMUX_MASK_MAX (0 : UInt8)).getD i 0 = 0 := fun i => by
    rw [List.getD_eq_getElem?_getD, List.getElem?_replicate]
    split <;> rfl
  simp only [prepareSecfilter, hmask, UInt8.zero_and, List.map_const', List.length_range]
  rfl

/-- A filter without a mask passes every section. -/
theorem maskLoop_zero (buf : ℕ → UInt8) (filterValue : List UInt8) (is : List ℕ) (neq : UInt8) :
    maskLoop buf ⟨filterValue, List.replicate DVB_DEMUX_MASK_MAX 0,
      List.replicate DVB_DEMUX_MASK_MAX 0, false⟩ is neq = some neq := by
  have hmask : ∀ i, (List.replicate DVB_DEMUX_MASK_MAX (0 : UInt8)).getD i 0 = 0 := fun i => by
    rw [List.getD_eq_getElem?_getD, List.getElem?_replicate]
    split <;> rfl
  induction is generalizing neq with
  | nil => rfl
  | cons i is ih =>
    rw [maskLoop]
    simp only [hmask, UInt8.zero_and, ne_eq, not_true_eq_false, if_false, UInt8.or_zero]
    exact ih neq

theorem swfilterSectionFeed_allPass (h : AllPass use) (feed : SectionFeed) :
    ∃ seclen, swfilterSectionFeed use feed =
      { feed with delivered := feed.delivered ++ [feed.section], seclen := seclen } := by
  obtain ⟨hon, ⟨value, mode, hfilter⟩, hcrc⟩ := h
  rw [swfilterSectionFeed, hon, hcrc, hfilter, prepareSecfilter_zero]
  simp only [not_true_eq_false, if_false, reduceCtorEq, Bool.false_eq_true, false_and]
  simp only [feedFilters, swfilterSectionfilter, maskLoop_zero, Bool.false_eq_true, false_and,
    if_false]
  split
  · exact ⟨_, rfl⟩
  · exact ⟨_, rfl⟩

/-! ### The window -/

/-- The bytes received and not delivered yet. -/
def SectionFeed.window (feed : SectionFeed) : List UInt8 :=
  (List.range (feed.tsfeedp - feed.secbufp)).map fun i => feed.secbufBase (feed.secbufp + i)

@[simp] theorem length_window : feed.window.length = feed.tsfeedp - feed.secbufp := by
  simp [SectionFeed.window]

theorem window_getD {i : ℕ} (hi : i < feed.tsfeedp - feed.secbufp) :
    feed.window.getD i 0 = feed.secbufBase (feed.secbufp + i) := by
  rw [List.getD_eq_getElem?_getD, SectionFeed.window, List.getElem?_map, List.getElem?_range hi]
  rfl

/-- What the driver finds at `secbuf` is what the window starts with. -/
theorem sectionLength_at (hptr : feed.secbuf = feed.secbufp)
    (hlen : 2 < feed.tsfeedp - feed.secbufp) :
    sectionLength feed.at = sectionLength fun i => feed.window.getD i 0 := by
  refine sectionLength_congr ?_ ?_
  · rw [window_getD (by omega), SectionFeed.at, hptr]
  · rw [window_getD (by omega), SectionFeed.at, hptr]

theorem take_window {n : ℕ} (hn : n ≤ feed.tsfeedp - feed.secbufp) :
    feed.window.take n = (List.range n).map fun i => feed.secbufBase (feed.secbufp + i) := by
  rw [SectionFeed.window, ← List.map_take, List.take_range, Nat.min_eq_left hn]

theorem drop_window {n : ℕ} (hn : n ≤ feed.tsfeedp - feed.secbufp) :
    feed.window.drop n = (List.range (feed.tsfeedp - (feed.secbufp + n))).map
      fun i => feed.secbufBase (feed.secbufp + n + i) := by
  refine List.ext_getElem? fun i => ?_
  rw [List.getElem?_drop, SectionFeed.window, List.getElem?_map, List.getElem?_map]
  rcases Nat.lt_or_ge i (feed.tsfeedp - (feed.secbufp + n)) with hi | hi
  · rw [List.getElem?_range hi, List.getElem?_range (by omega), Option.map_some, Option.map_some,
      Nat.add_assoc]
  · rw [List.getElem?_eq_none (by rw [List.length_range]; omega),
      List.getElem?_eq_none (by rw [List.length_range]; omega)]
    rfl

/-- What a call that dumps the window `w` leaves. -/
structure Dumped (feed feed' : SectionFeed) (w : List UInt8) : Prop where
  window : feed'.window = (split sectionDelimiter w).2
  delivered : feed'.delivered =
    feed.delivered ++ if feed.pusiSeen then (split sectionDelimiter w).1 else []
  pusiSeen : feed'.pusiSeen = feed.pusiSeen
  cc : feed'.cc = feed.cc
  secbufp_le : feed'.secbufp ≤ feed'.tsfeedp
  tsfeedp : feed'.tsfeedp = feed.secbufp + w.length

/-- The loop stops where nothing is complete. -/
theorem dumpBody_stuck (hptr : feed.secbuf = feed.secbufp) (hlimit : feed.tsfeedp = limit)
    (h : Stuck sectionDelimiter feed.window) : dumpBody use limit feed = .exit feed := by
  rw [dumpBody]
  split
  · rename_i hmore
    dsimp only
    rw [if_pos]
    have hlen : 2 < feed.tsfeedp - feed.secbufp := by omega
    rw [sectionLength_at hptr hlen]
    by_contra hcon
    rw [not_or, not_or] at hcon
    obtain ⟨-, hmax, hfits⟩ := hcon
    have hsize : sectionSize feed.window = some (sectionLength fun i => feed.window.getD i 0) :=
      sectionSize_eq_some.mpr ⟨by rw [length_window]; exact hlen, Nat.le_of_not_gt hmax, rfl⟩
    have hlt := h _ hsize
    rw [length_window] at hlt
    omega
  · rfl

/-- One pass delivers one section. -/
theorem dumpBody_starts (hall : AllPass use) (hptr : feed.secbuf = feed.secbufp)
    (hlimit : feed.tsfeedp = limit) (h : Starts sectionDelimiter feed.window n) :
    ∃ feed', dumpBody use limit feed = .again feed' ∧ feed'.secbuf = feed'.secbufp ∧
      feed'.tsfeedp = limit ∧ feed'.secbufp = feed.secbufp + n ∧
      feed'.window = feed.window.drop n ∧ feed'.pusiSeen = feed.pusiSeen ∧ feed'.cc = feed.cc ∧
      feed'.delivered =
        feed.delivered ++ if feed.pusiSeen then [feed.window.take n] else [] := by
  obtain ⟨hsize, hfits⟩ := h
  obtain ⟨hlen, hmax, hn⟩ := sectionSize_eq_some.mp hsize
  rw [length_window] at hlen hfits
  have hseclen : sectionLength feed.at = n := (sectionLength_at hptr hlen).trans hn
  have hpos := sectionLength_pos feed.at
  have hwindow : ∀ feed' : SectionFeed, feed'.secbufBase = feed.secbufBase →
      feed'.tsfeedp = feed.tsfeedp → feed'.secbufp = feed.secbufp + n →
      feed'.window = feed.window.drop n := by
    intro feed' hbase hts hbufp
    rw [drop_window hfits, SectionFeed.window, hbase, hts, hbufp]
  rw [dumpBody, if_pos (by omega)]
  dsimp only
  rw [hseclen, if_neg (by omega)]
  by_cases hseen : feed.pusiSeen = true
  · obtain ⟨k, hfeed⟩ := swfilterSectionFeed_allPass hall { feed with seclen := n }
    rw [if_pos hseen, if_pos hseen, hfeed]
    refine ⟨_, rfl, congrArg (· + n) hptr, hlimit, rfl, hwindow _ rfl rfl rfl, rfl, rfl, ?_⟩
    rw [take_window hfits]
    refine congrArg (fun r => feed.delivered ++ [r]) ?_
    exact List.map_congr_left fun i _ => congrArg (fun j => feed.secbufBase (j + i)) hptr
  · rw [if_neg hseen, if_neg hseen]
    refine ⟨_, rfl, congrArg (· + n) hptr, hlimit, rfl, hwindow _ rfl rfl rfl, rfl, rfl, ?_⟩
    exact (List.append_nil _).symm

/-- The loop splits the window. -/
theorem dump_run (hall : AllPass use) (fuel : ℕ) (feed : SectionFeed)
    (hptr : feed.secbuf = feed.secbufp) (hlimit : feed.tsfeedp = limit)
    (hle : feed.secbufp ≤ feed.tsfeedp) (hfuel : feed.window.length < fuel) :
    ∃ feed', run (dumpBody use limit) fuel feed = some feed' ∧ Dumped feed feed' feed.window := by
  induction fuel generalizing feed with
  | zero => exact absurd hfuel (Nat.not_lt_zero _)
  | succ fuel ih =>
    rcases starts_or_stuck (D := sectionDelimiter) feed.window with ⟨n, hstarts⟩ | hstuck
    · obtain ⟨feed₁, hbody, hptr₁, hlimit₁, hbufp, hwindow, hseen, hcc, hdelivered⟩ :=
        dumpBody_starts hall hptr hlimit hstarts
      have hn := sectionDelimiter.size_pos hstarts.1
      have hfits := hstarts.2
      rw [length_window] at hfits hfuel
      have hle₁ : feed₁.secbufp ≤ feed₁.tsfeedp := by omega
      obtain ⟨feed₂, hrun, hdumped⟩ := ih feed₁ hptr₁ hlimit₁ hle₁ (by
        rw [length_window]
        omega)
      refine ⟨feed₂, (run_again hbody fuel).trans hrun, ?_⟩
      obtain ⟨hw, hd, hs, hc, hbound, hts⟩ := hdumped
      rw [hwindow] at hw hd hts
      refine ⟨?_, ?_, hs.trans hseen, hc.trans hcc, hbound, ?_⟩
      · rw [hw, split_starts hstarts]
      · rw [hd, hdelivered, hseen, split_starts hstarts, List.append_assoc]
        cases feed.pusiSeen with
        | true => rfl
        | false => rfl
      · rw [hts, List.length_drop, length_window, hbufp]
        omega
    · refine ⟨feed, run_exit (dumpBody_stuck hptr hlimit hstuck) fuel, ?_⟩
      rw [← hlimit] at *
      refine ⟨?_, ?_, rfl, rfl, hle, ?_⟩
      · rw [split_stuck hstuck]
      · rw [split_stuck hstuck]
        cases feed.pusiSeen <;> exact (List.append_nil _).symm
      · rw [length_window]
        omega

/-! ### Copying into the buffer -/

theorem window_copyInto (hle : feed.secbufp ≤ feed.tsfeedp) (src : List UInt8) :
    ({ feed with
      secbufBase := copyInto feed.secbufBase feed.tsfeedp src
      tsfeedp := feed.tsfeedp + src.length } : SectionFeed).window = feed.window ++ src := by
  have hlen : feed.tsfeedp + src.length - feed.secbufp =
      feed.tsfeedp - feed.secbufp + src.length := by omega
  rw [SectionFeed.window, SectionFeed.window]
  dsimp only
  rw [hlen, List.range_add, List.map_append, List.map_map]
  congr 1
  · refine List.map_congr_left fun i hi => ?_
    have hi' := List.mem_range.mp hi
    rw [copyInto, if_neg (by omega)]
  · refine List.ext_getElem? fun i => ?_
    rw [List.getElem?_map]
    rcases Nat.lt_or_ge i src.length with hi | hi
    · rw [List.getElem?_range hi, Option.map_some, Function.comp_apply, copyInto,
        if_pos (by omega), List.getElem?_eq_getElem hi, List.getD_eq_getElem?_getD]
      have hsub : feed.secbufp + (feed.tsfeedp - feed.secbufp + i) - feed.tsfeedp = i := by omega
      rw [hsub, List.getElem?_eq_getElem hi]
      rfl
    · rw [List.getElem?_eq_none (by rw [List.length_range]; omega), List.getElem?_eq_none hi]
      rfl

theorem copyDump_nil (feed : SectionFeed) (hle : feed.tsfeedp ≤ DMX_MAX_SECFEED_SIZE) :
    swfilterSectionCopyDump use feed [] = feed := by
  rw [swfilterSectionCopyDump]
  split
  · rfl
  · rw [List.length_nil, Nat.add_zero, if_neg (Nat.not_lt.mpr hle)]
    rfl

theorem copyAndDump_spec (hall : AllPass use) (feed : SectionFeed)
    (hle : feed.secbufp ≤ feed.tsfeedp) {buf : List UInt8} (hbuf : buf ≠ [])
    (hroom : feed.tsfeedp + buf.length ≤ DMX_MAX_SECFEED_SIZE) :
    Dumped feed (copyAndDump use feed buf) (feed.window ++ buf) := by
  rw [copyAndDump, if_neg (Nat.ne_of_gt (List.length_pos_of_ne_nil hbuf))]
  dsimp only
  rw [if_neg (Nat.not_lt.mpr hroom)]
  have hlen : ({ feed with
      secbufBase := copyInto feed.secbufBase feed.tsfeedp buf
      tsfeedp := feed.tsfeedp + buf.length
      secbuf := feed.secbufp } : SectionFeed).window.length < feed.tsfeedp + buf.length + 1 := by
    rw [length_window]
    exact Nat.lt_succ_of_le (Nat.sub_le ..)
  obtain ⟨feed', hrun, hdumped⟩ := dump_run hall (feed.tsfeedp + buf.length + 1) { feed with
    secbufBase := copyInto feed.secbufBase feed.tsfeedp buf
    tsfeedp := feed.tsfeedp + buf.length
    secbuf := feed.secbufp } rfl rfl (Nat.le_trans hle (Nat.le_add_right ..)) hlen
  have hwindow := window_copyInto hle buf
  rw [hrun, Option.getD_some]
  obtain ⟨hw, hd, hs, hc, hbound, hts⟩ := hdumped
  exact ⟨hw.trans (by rw [← hwindow]; rfl), hd.trans (by rw [← hwindow]; rfl), hs, hc, hbound,
    hts.trans (by rw [← hwindow]; rfl)⟩

/-- A call splits what was received together with the new bytes there is room for. -/
theorem copyDump_spec (hall : AllPass use) (feed : SectionFeed)
    (hle : feed.secbufp ≤ feed.tsfeedp) {buf : List UInt8} (hbuf : buf ≠ [])
    (hroom : feed.tsfeedp < DMX_MAX_SECFEED_SIZE) :
    Dumped feed (swfilterSectionCopyDump use feed buf)
      (feed.window ++ buf.take (DMX_MAX_SECFEED_SIZE - feed.tsfeedp)) := by
  rw [swfilterSectionCopyDump, if_neg (Nat.not_le.mpr hroom)]
  split
  · have hne : buf.take (DMX_MAX_SECFEED_SIZE - feed.tsfeedp) ≠ [] := by
      rw [Ne, List.take_eq_nil_iff, not_or]
      exact ⟨by omega, hbuf⟩
    have hfits : feed.tsfeedp + (buf.take (DMX_MAX_SECFEED_SIZE - feed.tsfeedp)).length ≤
        DMX_MAX_SECFEED_SIZE := by
      rw [List.length_take]
      omega
    obtain ⟨hw, hd, hs, hc, hbound, hts⟩ := copyAndDump_spec hall
      (feed.setBufFlags DMX_BUFFER_FLAG_DISCONTINUITY_DETECTED) hle hne hfits
    exact ⟨hw, hd, hs, hc, hbound, hts⟩
  · rw [List.take_of_length_le (by omega)]
    exact copyAndDump_spec hall feed hle hbuf (by omega)

/-! ### Sections in packets -/

/-- A section: its length is in its header, and 4096 bytes at most. -/
def IsSection (s : List UInt8) : Prop :=
  2 < s.length ∧ s.length ≤ DMX_MAX_SECTION_SIZE ∧ sectionLength (fun i => s.getD i 0) = s.length

/-- What a packet of the pid says: whether PUSI is set, whether a discontinuity is indicated, the
    continuity counter and the payload. -/
structure SectionUnit where
  pusi : Bool
  dc : Bool
  cc : UInt8
  body : List UInt8

/-- The packet, with an adaptation field or without, that says so. -/
structure Carries (buf : Packet UInt8) (u : SectionUnit) : Prop where
  hasPayload : buf 3 &&& 0x10 ≠ 0
  length : if buf 3 &&& 0x20 ≠ 0 then buf 4 ≤ 182 ∧ u.body.length = 183 - (buf 4).toNat
    else u.body.length = 184
  pusi : buf 1 &&& 0x40 ≠ 0 ↔ u.pusi = true
  dc : (buf 3 &&& 0x20 ≠ 0 ∧ buf 4 > 0 ∧ buf 5 &&& 0x80 ≠ 0) ↔ u.dc = true
  cc : buf 3 &&& 0x0f = u.cc
  body : buf.read (188 - u.body.length) u.body.length = u.body

/-- Packets of a stream of sections, of which the first `pending` bytes belong to a section that
    started before. A packet carries on with that section, or ends it and is stuffed, or ends it and
    starts others, the last of which may go on in the packets behind or is followed by stuffing.
    `Ok` is asked of each packet and of the bytes that were pending there. -/
inductive Packetised (Ok : SectionUnit → List UInt8 → Prop) :
    List UInt8 → List (List UInt8) → List SectionUnit → Prop where
  | done : Packetised Ok [] [] []
  | middle {c rest ss us dc cc} : rest ≠ [] → Ok ⟨false, dc, cc, c⟩ (c ++ rest) →
      Packetised Ok rest ss us → Packetised Ok (c ++ rest) ss (⟨false, dc, cc, c⟩ :: us)
  | last {pending n ss us dc cc} :
      Ok ⟨false, dc, cc, pending ++ List.replicate n 0xff⟩ pending → Packetised Ok [] ss us →
      Packetised Ok pending ss (⟨false, dc, cc, pending ++ List.replicate n 0xff⟩ :: us)
  | start {pending full c rest ss us dc cc} : c ≠ [] → rest ≠ [] →
      Ok ⟨true, dc, cc, UInt8.ofNat pending.length :: (pending ++ (full.flatten ++ c))⟩ pending →
      Packetised Ok rest ss us → Packetised Ok pending (full ++ (c ++ rest) :: ss)
        (⟨true, dc, cc, UInt8.ofNat pending.length :: (pending ++ (full.flatten ++ c))⟩ :: us)
  | startWhole {pending full n ss us dc cc} : full ≠ [] →
      Ok ⟨true, dc, cc, UInt8.ofNat pending.length ::
        (pending ++ (full.flatten ++ List.replicate n 0xff))⟩ pending →
      Packetised Ok [] ss us → Packetised Ok pending (full ++ ss)
        (⟨true, dc, cc, UInt8.ofNat pending.length ::
          (pending ++ (full.flatten ++ List.replicate n 0xff))⟩ :: us)

theorem IsSection.size {s : List UInt8} (h : IsSection s) :
    sectionDelimiter.size s = some s.length := sectionSize_eq_some.mpr h

theorem stuck_stuffing (n : ℕ) : Stuck sectionDelimiter (List.replicate n 0xff) := by
  intro k hk
  obtain ⟨hlen, hmax, hsize⟩ := sectionSize_eq_some.mp hk
  rw [List.length_replicate] at hlen
  have hbyte : ∀ i, i < n → (List.replicate n (0xff : UInt8)).getD i 0 = 0xff := by
    intro i hi
    rw [List.getD_eq_getElem?_getD, List.getElem?_replicate, if_pos hi]
    rfl
  have hlong : sectionLength (fun i => (List.replicate n (0xff : UInt8)).getD i 0) = 4098 := by
    rw [sectionLength, hbyte 1 (by omega), hbyte 2 (by omega)]
    rfl
  rw [hlong] at hsize
  rw [DMX_MAX_SECTION_SIZE] at hmax
  omega

theorem Carries.payload_eq {buf : Packet UInt8} {u : SectionUnit} (h : Carries buf u) :
    payload buf = u.body.length ∧ 0 < u.body.length ∧ u.body.length ≤ 184 := by
  have hlen := h.length
  rw [payload, if_neg h.hasPayload]
  split at hlen
  · rename_i haf
    obtain ⟨hle, hlen⟩ := hlen
    have hle' : (buf 4).toNat ≤ 182 := hle
    have hnot : ¬buf 4 > 183 := by
      rw [gt_iff_lt, UInt8.lt_iff_toNat_lt]
      exact Nat.not_lt.mpr (Nat.le_trans hle' (by decide))
    rw [if_pos haf, if_neg hnot, hlen]
    omega
  · rename_i haf
    rw [if_neg haf, hlen]
    omega

/-! ### One packet -/

variable {buf : Packet UInt8} {u : SectionUnit}

theorem Packet.read_parts {β : Type} {packet : Packet β} {p : ℤ} {l l' : List β} (hp : 0 ≤ p)
    (h : packet.read p (l.length + l'.length) = l ++ l') :
    packet.read p l.length = l ∧ packet.read (p + l.length) l'.length = l' := by
  rw [Packet.read_add packet hp (Int.natCast_nonneg _) (Int.natCast_nonneg _)] at h
  exact List.append_inj h (by rw [Packet.length_read, Int.toNat_natCast])

/-- A packet without PUSI. -/
theorem packet_middle (h : Carries buf u) (hpusi : u.pusi = false) :
    swfilterSectionPacket use feed buf =
      some (swfilterSectionCopyDump use (checkContinuity feed buf) u.body) := by
  obtain ⟨hcount, hpos, hmax⟩ := h.payload_eq
  have hno : ¬buf 1 &&& 0x40 ≠ 0 := fun hyes => by
    rw [h.pusi.mp hyes] at hpusi
    cases hpusi
  have hread : buf.read ((188 - u.body.length : ℕ) : ℤ) u.body.length = u.body := by
    rw [Int.natCast_sub (by omega)]
    exact h.body
  rw [swfilterSectionPacket]
  dsimp only
  rw [hcount, if_neg (Nat.ne_of_gt hpos), if_neg hno, hread]

/-- The buffer as the first section of a packet finds it. -/
def startSections (feed : SectionFeed) : SectionFeed :=
  swfilterSectionNew { feed with pusiSeen := true }

/-- A packet with PUSI: what belongs to the section before, and the sections that start. -/
theorem packet_start (h : Carries buf u) (hpusi : u.pusi = true) {before after : List UInt8}
    (hbody : u.body = UInt8.ofNat before.length :: (before ++ after)) (hafter : after ≠ []) :
    swfilterSectionPacket use feed buf = some (swfilterSectionCopyDump use
      (startSections (swfilterSectionCopyDump use (checkContinuity feed buf) before)) after) := by
  obtain ⟨hcount, hpos, hmax⟩ := h.payload_eq
  have hlen : u.body.length = 1 + (before.length + after.length) := by
    rw [hbody, List.length_cons, List.length_append, Nat.add_comm]
  have hsome := List.length_pos_of_ne_nil hafter
  have hcat : u.body = [UInt8.ofNat before.length] ++ (before ++ after) := hbody
  have hsum : ((u.body.length : ℕ) : ℤ) =
      ([UInt8.ofNat before.length].length : ℕ) + ((before ++ after).length : ℕ) := by
    rw [hcat, List.length_append, Int.natCast_add]
  have hp : ((188 - u.body.length : ℕ) : ℤ) = 188 - u.body.length := Int.natCast_sub (by omega)
  obtain ⟨hone, hrest⟩ := Packet.read_parts (p := (188 - u.body.length : ℕ)) (Int.natCast_nonneg _)
    (by rw [← hsum, ← hcat, hp]; exact h.body)
  rw [List.length_singleton, Int.natCast_one, List.length_append, Int.natCast_add] at hrest
  obtain ⟨hbefore, hbehind⟩ := Packet.read_parts (p := (188 - u.body.length : ℕ) + 1)
    (by omega) hrest
  have hptr : buf (188 - u.body.length) = UInt8.ofNat before.length := by
    have hread := List.cons_eq_cons.mp hone
    exact hread.1
  have hnat : (UInt8.ofNat before.length).toNat = before.length := by
    rw [UInt8.toNat_ofNat']
    exact Nat.mod_eq_of_lt (by omega)
  have hcond : u.body.length > 1 ∧ before.length < u.body.length := ⟨by omega, by omega⟩
  have hleft : ((u.body.length - 1 - before.length : ℕ) : ℤ) = after.length := by omega
  rw [swfilterSectionPacket]
  dsimp only
  rw [hcount, if_neg (Nat.ne_of_gt hpos), if_pos (h.pusi.mpr hpusi), hptr, hnat, if_pos hcond, hleft]
  rw [hbefore, hbehind]
  rfl

/-! ### The state between packets -/

/-- Between packets the window is stuffing, or what has been received of the section of which
    `pending` is still to come. -/
structure Holding (feed : SectionFeed) (cc : UInt8) (pending : List UInt8) : Prop where
  cc : feed.cc = cc
  le : feed.secbufp ≤ feed.tsfeedp
  room : feed.tsfeedp ≤ DMX_MAX_SECFEED_SIZE
  idle : pending = [] → ∃ n, feed.window = List.replicate n 0xff
  busy : pending ≠ [] → feed.pusiSeen = true ∧ IsSection (feed.window ++ pending) ∧
    feed.secbufp + (feed.window ++ pending).length ≤ DMX_MAX_SECFEED_SIZE

/-- The section that is being received. -/
def SectionFeed.owed (feed : SectionFeed) (pending : List UInt8) : List (List UInt8) :=
  if pending = [] then [] else [feed.window ++ pending]

/-- The buffer is started again, and nothing else is forgotten. -/
theorem sectionNew_fields (feed : SectionFeed) :
    (swfilterSectionNew feed).delivered = feed.delivered ∧
      (swfilterSectionNew feed).pusiSeen = feed.pusiSeen ∧
      (swfilterSectionNew feed).cc = feed.cc := by
  rw [swfilterSectionNew]
  dsimp only
  split
  · split
    · exact ⟨rfl, rfl, rfl⟩
    · exact ⟨rfl, rfl, rfl⟩
  · exact ⟨rfl, rfl, rfl⟩

theorem checkContinuity_ok (h : Carries buf u) (hcc : u.cc = (feed.cc + 1) &&& 0x0f)
    (hdc : u.dc = false) : checkContinuity feed buf = { feed with cc := u.cc } := by
  have hok : ¬(¬((feed.cc + 1) &&& 0x0f = buf 3 &&& 0x0f) ∨
      buf 3 &&& 0x20 ≠ 0 ∧ buf 4 > 0 ∧ buf 5 &&& 0x80 ≠ 0) := by
    rw [h.cc, h.dc, hdc, hcc]
    simp
  rw [checkContinuity]
  dsimp only
  rw [if_neg hok, h.cc]

/-- Without a section under way a discontinuity does no harm. -/
theorem checkContinuity_idle (h : Carries buf u) {cc : UInt8} (hidle : Holding feed cc []) :
    Holding (checkContinuity feed buf) u.cc [] ∧
      (checkContinuity feed buf).delivered = feed.delivered := by
  rw [checkContinuity]
  split
  · refine ⟨⟨h.cc, Nat.le_refl _, Nat.zero_le _, fun _ => ⟨0, rfl⟩, fun hne => absurd rfl hne⟩, ?_⟩
    exact (sectionNew_fields _).1
  · exact ⟨⟨h.cc, hidle.le, hidle.room, hidle.idle, fun hne => absurd rfl hne⟩, rfl⟩

/-- What is left of a section and what comes behind. -/
theorem Holding.finish (hall : AllPass use) {cc : UInt8} {pending : List UInt8}
    (h : Holding feed cc pending) (hne : pending ≠ []) (m : ℕ) :
    Holding (swfilterSectionCopyDump use feed (pending ++ List.replicate m 0xff)) cc [] ∧
      (swfilterSectionCopyDump use feed (pending ++ List.replicate m 0xff)).delivered =
        feed.delivered ++ [feed.window ++ pending] := by
  obtain ⟨hseen, hsection, hfits⟩ := h.busy hne
  have hlen := List.length_pos_of_ne_nil hne
  rw [List.length_append, length_window] at hfits
  have hle := h.le
  have hroom : feed.tsfeedp < DMX_MAX_SECFEED_SIZE := by omega
  have hbuf : pending ++ List.replicate m 0xff ≠ [] := List.append_ne_nil_of_left_ne_nil hne _
  have htake : ∃ k, (pending ++ List.replicate m (0xff : UInt8)).take
      (DMX_MAX_SECFEED_SIZE - feed.tsfeedp) = pending ++ List.replicate k 0xff := by
    refine ⟨min (DMX_MAX_SECFEED_SIZE - feed.tsfeedp - pending.length) m, ?_⟩
    rw [List.take_append, List.take_of_length_le (by omega), List.take_replicate]
  obtain ⟨k, hk⟩ := htake
  have hdumped := copyDump_spec hall feed h.le hbuf hroom
  have hsplit : split sectionDelimiter (feed.window ++ (pending ++ List.replicate k 0xff)) =
      ([feed.window ++ pending], List.replicate k 0xff) := by
    rw [← List.append_assoc, split_record hsection.size, split_stuck (stuck_stuffing k)]
  have htotal : (pending ++ List.replicate k (0xff : UInt8)).length ≤
      DMX_MAX_SECFEED_SIZE - feed.tsfeedp := by
    rw [← hk, List.length_take]
    exact Nat.min_le_left ..
  rw [hk] at hdumped
  obtain ⟨hw, hd, hs, hc, hbound, hts⟩ := hdumped
  rw [hsplit] at hw hd
  rw [hseen, if_pos rfl] at hd
  refine ⟨⟨hc.trans h.cc, hbound, ?_, fun _ => ⟨k, hw⟩, fun hcon => absurd rfl hcon⟩, hd⟩
  rw [hts, List.length_append, length_window]
  omega

/-- Bytes that do not end the section under way. -/
theorem Holding.more (hall : AllPass use) {cc : UInt8} {c rest : List UInt8}
    (h : Holding feed cc (c ++ rest)) (hc : c ≠ []) (hrest : rest ≠ []) :
    Holding (swfilterSectionCopyDump use feed c) cc rest ∧
      (swfilterSectionCopyDump use feed c).window = feed.window ++ c ∧
      (swfilterSectionCopyDump use feed c).delivered = feed.delivered := by
  obtain ⟨hseen, hsection, hfits⟩ := h.busy (List.append_ne_nil_of_left_ne_nil hc rest)
  have hlen := List.length_pos_of_ne_nil hrest
  have hle := h.le
  have hfits' := hfits
  rw [List.length_append, List.length_append, length_window] at hfits'
  have hdumped := copyDump_spec hall feed h.le hc (by omega)
  rw [List.take_of_length_le (by omega)] at hdumped
  have hwhole : feed.window ++ (c ++ rest) = feed.window ++ c ++ rest :=
    (List.append_assoc ..).symm
  have hstuck : Stuck sectionDelimiter (feed.window ++ c) :=
    stuck_of_unfinished (v := rest) (hwhole ▸ hsection.size) hrest
  obtain ⟨hw, hd, hs, hcc, hbound, hts⟩ := hdumped
  rw [split_stuck hstuck] at hw hd
  have hbufp : (swfilterSectionCopyDump use feed c).secbufp = feed.secbufp := by
    have hlen' := congrArg List.length hw
    rw [length_window, List.length_append, length_window] at hlen'
    rw [List.length_append, length_window] at hts
    omega
  refine ⟨⟨hcc.trans h.cc, hbound, ?_, fun hcon => absurd hcon hrest, fun _ => ?_⟩, hw, ?_⟩
  · rw [hts, List.length_append, length_window]
    omega
  · rw [hw, ← hwhole, hbufp]
    exact ⟨hs.trans hseen, hsection, hfits⟩
  · rw [hd]
    split <;> exact List.append_nil _

/-- Stuffing behind stuffing. -/
theorem Holding.stuffed (hall : AllPass use) {cc : UInt8} (h : Holding feed cc []) (m : ℕ) :
    Holding (swfilterSectionCopyDump use feed (List.replicate m 0xff)) cc [] ∧
      (swfilterSectionCopyDump use feed (List.replicate m 0xff)).delivered = feed.delivered := by
  obtain ⟨n, hn⟩ := h.idle rfl
  rcases Nat.eq_zero_or_pos m with rfl | hm
  · rw [List.replicate_zero, copyDump_nil feed h.room]
    exact ⟨h, rfl⟩
  · rcases Nat.lt_or_ge feed.tsfeedp DMX_MAX_SECFEED_SIZE with hroom | hfull
    · have hbuf : List.replicate m (0xff : UInt8) ≠ [] := by
        rw [Ne, List.replicate_eq_nil_iff]
        exact Nat.ne_of_gt hm
      have hdumped := copyDump_spec hall feed h.le hbuf hroom
      rw [List.take_replicate, hn, List.replicate_append_replicate] at hdumped
      obtain ⟨hw, hd, hs, hc, hbound, hts⟩ := hdumped
      rw [split_stuck (stuck_stuffing _)] at hw hd
      have hlen := congrArg List.length hn
      rw [length_window, List.length_replicate] at hlen
      have hle := h.le
      refine ⟨⟨hc.trans h.cc, hbound, ?_, fun _ => ⟨_, hw⟩, fun hcon => absurd rfl hcon⟩, ?_⟩
      · rw [hts, List.length_replicate]
        omega
      · rw [hd]
        split <;> exact List.append_nil _
    · rw [swfilterSectionCopyDump, if_pos hfull]
      exact ⟨h, rfl⟩

/-- The sections that start in a packet, from an empty buffer on; `v` is what follows them. -/
theorem sectionNew_dump (hall : AllPass use) (feed : SectionFeed) {full : List (List UInt8)}
    {v : List UInt8} (hfull : ∀ s ∈ full, IsSection s) (hv : Stuck sectionDelimiter v)
    (hne : full.flatten ++ v ≠ []) (hlen : (full.flatten ++ v).length ≤ 183) {fresh : SectionFeed}
    (hfresh : fresh = startSections feed) :
    (swfilterSectionCopyDump use fresh (full.flatten ++ v)).window = v ∧
      (swfilterSectionCopyDump use fresh (full.flatten ++ v)).delivered =
        feed.delivered ++ full ∧
      (swfilterSectionCopyDump use fresh (full.flatten ++ v)).pusiSeen = true ∧
      (swfilterSectionCopyDump use fresh (full.flatten ++ v)).cc = feed.cc ∧
      (swfilterSectionCopyDump use fresh (full.flatten ++ v)).secbufp ≤
        (swfilterSectionCopyDump use fresh (full.flatten ++ v)).tsfeedp ∧
      (swfilterSectionCopyDump use fresh (full.flatten ++ v)).tsfeedp =
        (full.flatten ++ v).length := by
  obtain ⟨hdelivered, hseen, hcc⟩ := sectionNew_fields { feed with pusiSeen := true }
  have hstart : fresh = swfilterSectionNew { feed with pusiSeen := true } := hfresh
  rw [← hstart] at hdelivered hseen hcc
  have hbufp : fresh.secbufp = 0 := by rw [hfresh]; rfl
  have htsfeedp : fresh.tsfeedp = 0 := by rw [hfresh]; rfl
  have hwindow : fresh.window = [] := by
    rw [SectionFeed.window, hbufp, htsfeedp]
    rfl
  have hmax : 183 < DMX_MAX_SECFEED_SIZE := by decide
  have hdumped := copyDump_spec hall fresh (by omega) hne (by omega)
  rw [List.take_of_length_le (by omega), hwindow, List.nil_append] at hdumped
  obtain ⟨hw, hd, hs, hc, hbound, hts⟩ := hdumped
  rw [split_flatten (fun s hs => (hfull s hs).size) hv] at hw hd
  rw [hseen, if_pos rfl, hdelivered] at hd
  refine ⟨hw, hd, hs.trans hseen, hc.trans hcc, hbound, ?_⟩
  rw [hts, hbufp, Nat.zero_add]

/-- The first part of a packet with PUSI ends the section under way. -/
theorem Holding.before (hall : AllPass use) {cc : UInt8} {pending : List UInt8}
    (h : Holding feed cc pending) :
    (swfilterSectionCopyDump use feed pending).cc = cc ∧
      (swfilterSectionCopyDump use feed pending).delivered =
        feed.delivered ++ feed.owed pending := by
  rcases eq_or_ne pending [] with rfl | hne
  · rw [copyDump_nil feed h.room, SectionFeed.owed, if_pos rfl, List.append_nil]
    exact ⟨h.cc, rfl⟩
  · obtain ⟨hholding, hdelivered⟩ := h.finish hall hne 0
    rw [List.replicate_zero, List.append_nil] at hholding hdelivered
    rw [SectionFeed.owed, if_neg hne]
    exact ⟨hholding.cc, hdelivered⟩

/-- The continuity counters go up by one from packet to packet. -/
def Contiguous : UInt8 → List SectionUnit → Prop
  | _, [] => True
  | cc, u :: us => u.cc = (cc + 1) &&& 0x0f ∧ Contiguous u.cc us

/-- No discontinuity is indicated in the middle of a section. -/
def Undisturbed (u : SectionUnit) (pending : List UInt8) : Prop := u.dc = true → pending = []

/-- What `neumo_dvb_dmx_swfilter_section_packet` starts from when the counter is right. -/
theorem Holding.continue (h : Carries buf u) {pending : List UInt8} {cc : UInt8}
    (hholding : Holding feed cc pending) (hcc : u.cc = (cc + 1) &&& 0x0f)
    (hok : Undisturbed u pending) :
    Holding (checkContinuity feed buf) u.cc pending ∧
      (checkContinuity feed buf).delivered = feed.delivered ∧
      (checkContinuity feed buf).owed pending = feed.owed pending := by
  rcases eq_or_ne pending [] with rfl | hne
  · obtain ⟨hholding', hdelivered⟩ := checkContinuity_idle h hholding
    exact ⟨hholding', hdelivered, rfl⟩
  · have hdc : u.dc = false := by
      rcases Bool.eq_false_or_eq_true u.dc with hyes | hno
      · exact absurd (hok hyes) hne
      · exact hno
    rw [← hholding.cc] at hcc
    rw [checkContinuity_ok h hcc hdc]
    exact ⟨⟨rfl, hholding.le, hholding.room, hholding.idle, hholding.busy⟩, rfl, rfl⟩

/-! ### All packets -/

/-- A packet in which sections start leaves the last of them under way. -/
theorem start_unfinished (hall : AllPass use) (hcarries : Carries buf u) (hpusi : u.pusi = true)
    {before c rest : List UInt8} {full : List (List UInt8)}
    (hbody : u.body = UInt8.ofNat before.length :: (before ++ (full.flatten ++ c)))
    (hc : c ≠ []) (hrest : rest ≠ []) (hfull : ∀ s ∈ full, IsSection s)
    (hsection : IsSection (c ++ rest)) {checked : SectionFeed}
    (hchecked : checked = swfilterSectionCopyDump use (checkContinuity feed buf) before) :
    ∃ feed', swfilterSectionPacket use feed buf = some feed' ∧
      Holding feed' checked.cc rest ∧ feed'.window = c ∧
      feed'.delivered = checked.delivered ++ full := by
  have hne : full.flatten ++ c ≠ [] := List.append_ne_nil_of_right_ne_nil _ hc
  obtain ⟨-, -, hmax⟩ := hcarries.payload_eq
  rw [hbody, List.length_cons, List.length_append] at hmax
  have hstuck : Stuck sectionDelimiter c := stuck_of_unfinished hsection.size hrest
  obtain ⟨hw, hd, hseen, hcc, hle, hts⟩ := sectionNew_dump hall checked hfull hstuck hne (by omega)
    rfl
  refine ⟨_, packet_start hcarries hpusi hbody hne, ?_, ?_⟩
  · rw [← hchecked]
    refine ⟨hcc, hle, ?_, fun hcon => absurd hcon hrest, fun _ => ?_⟩
    · rw [hts]
      have hsize : 183 < DMX_MAX_SECFEED_SIZE := by decide
      omega
    · rw [hw]
      refine ⟨hseen, hsection, ?_⟩
      -- at most 182 bytes of other sections come before this one
      have hlen := congrArg List.length hw
      rw [length_window, hts, List.length_append] at hlen
      rw [List.length_append] at hmax hts
      have hpos := List.length_pos_of_ne_nil hc
      have hlong : (c ++ rest).length ≤ 4096 := hsection.2.1
      have hsize : DMX_MAX_SECFEED_SIZE = 4284 := by decide
      omega
  · rw [← hchecked]
    exact ⟨hw, hd⟩

/-- A packet in which sections start and end leaves nothing under way. -/
theorem start_whole (hall : AllPass use) (hcarries : Carries buf u) (hpusi : u.pusi = true)
    {before : List UInt8} {full : List (List UInt8)} {n : ℕ}
    (hbody : u.body =
      UInt8.ofNat before.length :: (before ++ (full.flatten ++ List.replicate n 0xff)))
    (hsome : full ≠ []) (hfull : ∀ s ∈ full, IsSection s) {checked : SectionFeed}
    (hchecked : checked = swfilterSectionCopyDump use (checkContinuity feed buf) before) :
    ∃ feed', swfilterSectionPacket use feed buf = some feed' ∧
      Holding feed' checked.cc [] ∧ feed'.delivered = checked.delivered ++ full := by
  have hne : full.flatten ++ List.replicate n (0xff : UInt8) ≠ [] := by
    obtain ⟨s, full', rfl⟩ := List.exists_cons_of_ne_nil hsome
    have hs := (hfull s List.mem_cons_self).1
    rw [List.flatten_cons, List.append_assoc]
    exact List.append_ne_nil_of_left_ne_nil (List.ne_nil_of_length_pos (by omega)) _
  obtain ⟨-, -, hmax⟩ := hcarries.payload_eq
  rw [hbody, List.length_cons, List.length_append] at hmax
  obtain ⟨hw, hd, hseen, hcc, hle, hts⟩ := sectionNew_dump hall checked hfull (stuck_stuffing n) hne
    (by omega) rfl
  refine ⟨_, packet_start hcarries hpusi hbody hne, ?_, ?_⟩
  · rw [← hchecked]
    refine ⟨hcc, hle, ?_, fun _ => ⟨n, hw⟩, fun hcon => absurd rfl hcon⟩
    rw [hts]
    have hsize : 183 < DMX_MAX_SECFEED_SIZE := by decide
    omega
  · rw [← hchecked]
    exact hd

theorem sectionPackets_cons (hall : AllPass use) {packets : List (Packet UInt8)}
    (h : swfilterSectionPacket use feed buf = some feed') :
    sectionPackets use feed (buf :: packets) = sectionPackets use feed' packets := by
  have hstep : swfilterPacketType use feed buf = feed' := by
    rw [swfilterPacketType, hall.isFiltering, h]
    exact if_neg fun hno => hno rfl
  rw [sectionPackets, List.foldl_cons, hstep]
  rfl

/-- Behind any packet: the section under way and those that follow. -/
theorem Holding.packets (hall : AllPass use) {pending : List UInt8} {ss : List (List UInt8)}
    {us : List SectionUnit} (hp : Packetised Undisturbed pending ss us) :
    ∀ {feed : SectionFeed} {cc : UInt8} {packets : List (Packet UInt8)},
      (∀ s ∈ ss, IsSection s) → Holding feed cc pending → Contiguous cc us →
      List.Forall₂ Carries packets us →
      (sectionPackets use feed packets).delivered = feed.delivered ++ feed.owed pending ++ ss := by
  induction hp with
  | done =>
    intro feed cc packets _ _ _ hcarry
    cases hcarry
    rw [SectionFeed.owed, if_pos rfl, List.append_nil, List.append_nil]
    rfl
  | @middle c rest ss us dc cc' hrest hok _ ih =>
    rintro feed cc _ hsec hholding ⟨hcc, hnext⟩ (_ | ⟨hcarries, hcarry⟩)
    obtain ⟨hholding₁, hdelivered₁, howed₁⟩ := hholding.continue hcarries hcc hok
    have hc : c ≠ [] := List.ne_nil_of_length_pos hcarries.payload_eq.2.1
    have hwhole : c ++ rest ≠ [] := List.append_ne_nil_of_left_ne_nil hc rest
    obtain ⟨hholding₂, hwindow, hdelivered₂⟩ := hholding₁.more hall hc hrest
    rw [sectionPackets_cons hall (packet_middle hcarries rfl), ih hsec hholding₂ hnext hcarry,
      hdelivered₂, hdelivered₁, ← howed₁, SectionFeed.owed, SectionFeed.owed, if_neg hrest,
      if_neg hwhole, hwindow, List.append_assoc (checkContinuity feed _).window]
  | @last pending n ss us dc cc' hok _ ih =>
    rintro feed cc _ hsec hholding ⟨hcc, hnext⟩ (_ | ⟨hcarries, hcarry⟩)
    obtain ⟨hholding₁, hdelivered₁, howed₁⟩ := hholding.continue hcarries hcc hok
    rw [sectionPackets_cons hall (packet_middle hcarries rfl), ← howed₁]
    rcases eq_or_ne pending [] with rfl | hne
    · obtain ⟨hholding₂, hdelivered₂⟩ := hholding₁.stuffed hall n
      rw [List.nil_append, ih hsec hholding₂ hnext hcarry, hdelivered₂, hdelivered₁]
      rfl
    · obtain ⟨hholding₂, hdelivered₂⟩ := hholding₁.finish hall hne n
      rw [ih hsec hholding₂ hnext hcarry, hdelivered₂, hdelivered₁, SectionFeed.owed, if_pos rfl,
        List.append_nil, SectionFeed.owed, if_neg hne]
  | @start pending full c rest ss us dc cc' hc hrest hok _ ih =>
    rintro feed cc _ hsec hholding ⟨hcc, hnext⟩ (_ | ⟨hcarries, hcarry⟩)
    obtain ⟨hholding₁, hdelivered₁, howed₁⟩ := hholding.continue hcarries hcc hok
    obtain ⟨hcc₂, hdelivered₂⟩ := hholding₁.before hall
    obtain ⟨feed₃, heq, hholding₃, hwindow, hdelivered₃⟩ := start_unfinished hall hcarries rfl rfl
      hc hrest (fun s hs => hsec s (List.mem_append_left _ hs))
      (hsec _ (List.mem_append_right _ List.mem_cons_self)) rfl
    rw [hcc₂] at hholding₃
    have howed₃ : feed₃.owed rest = [c ++ rest] := by
      rw [SectionFeed.owed, if_neg hrest, hwindow]
    have hsec' : ∀ s ∈ ss, IsSection s := fun s hs =>
      hsec s (List.mem_append_right _ (List.mem_cons_of_mem _ hs))
    rw [sectionPackets_cons hall heq, ih hsec' hholding₃ hnext hcarry, hdelivered₃, hdelivered₂,
      hdelivered₁, howed₁, howed₃]
    simp only [List.append_assoc, List.singleton_append]
  | @startWhole pending full n ss us dc cc' hsome hok _ ih =>
    rintro feed cc _ hsec hholding ⟨hcc, hnext⟩ (_ | ⟨hcarries, hcarry⟩)
    obtain ⟨hholding₁, hdelivered₁, howed₁⟩ := hholding.continue hcarries hcc hok
    obtain ⟨hcc₂, hdelivered₂⟩ := hholding₁.before hall
    obtain ⟨feed₃, heq, hholding₃, hdelivered₃⟩ := start_whole hall hcarries rfl rfl hsome
      (fun s hs => hsec s (List.mem_append_left _ hs)) rfl
    rw [hcc₂] at hholding₃
    have howed₃ : feed₃.owed [] = [] := if_pos rfl
    have hsec' : ∀ s ∈ ss, IsSection s := fun s hs => hsec s (List.mem_append_right _ hs)
    rw [sectionPackets_cons hall heq, ih hsec' hholding₃ hnext hcarry, hdelivered₃, hdelivered₂,
      hdelivered₁, howed₁, howed₃]
    simp only [List.append_assoc, List.nil_append]

/-- Before the first PUSI nothing is delivered. -/
theorem unseen_before (hall : AllPass use) (feed : SectionFeed) (hcarries : Carries buf u)
    (before : List UInt8) {checked : SectionFeed} (hchecked : checked =
      swfilterSectionCopyDump use (checkContinuity (startSectionFiltering feed) buf) before) :
    checked.cc = u.cc ∧ checked.delivered = feed.delivered := by
  have hstart : Holding (startSectionFiltering feed) feed.cc [] :=
    ⟨rfl, Nat.le_refl _, Nat.zero_le _, fun _ => ⟨0, rfl⟩, fun hne => absurd rfl hne⟩
  obtain ⟨hholding, hdelivered⟩ := checkContinuity_idle hcarries hstart
  have hseen : (checkContinuity (startSectionFiltering feed) buf).pusiSeen = false := by
    rw [checkContinuity]
    split
    · exact (sectionNew_fields _).2.1
    · rfl
  rcases eq_or_ne before [] with rfl | hne
  · rw [hchecked, copyDump_nil _ hholding.room]
    exact ⟨hholding.cc, hdelivered⟩
  · rcases Nat.lt_or_ge (checkContinuity (startSectionFiltering feed) buf).tsfeedp
      DMX_MAX_SECFEED_SIZE with hroom | hfull
    · obtain ⟨-, hd, -, hc, -⟩ := copyDump_spec hall _ hholding.le hne hroom
      rw [hseen, if_neg Bool.false_ne_true, List.append_nil] at hd
      rw [hchecked]
      exact ⟨hc.trans hholding.cc, hd.trans hdelivered⟩
    · rw [hchecked, swfilterSectionCopyDump, if_pos hfull]
      exact ⟨hholding.cc, hdelivered⟩

/-- Sections that are put into packets in a standard way, the first packet with PUSI, are delivered
    each once, in order and byte for byte. -/
theorem sections_lossless (hall : AllPass use) (feed : SectionFeed) {tail : List UInt8}
    {ss : List (List UInt8)} {us : List SectionUnit} {packets : List (Packet UInt8)}
    (hp : Packetised Undisturbed tail ss (u :: us)) (hpusi : u.pusi = true)
    (hcontiguous : Contiguous u.cc us) (hsec : ∀ s ∈ ss, IsSection s)
    (hcarry : List.Forall₂ Carries packets (u :: us)) :
    (sectionPackets use (startSectionFiltering feed) packets).delivered = feed.delivered ++ ss := by
  rcases hcarry with _ | ⟨hcarries, hcarry⟩
  obtain ⟨hcc, hdelivered⟩ := unseen_before hall feed hcarries tail rfl
  cases hp with
  | middle => cases hpusi
  | last => cases hpusi
  | @start _ full c rest ss' _ _ _ hc hrest _ hp =>
    obtain ⟨feed', heq, hholding, hwindow, hdelivered'⟩ := start_unfinished hall hcarries hpusi rfl
      hc hrest (fun s hs => hsec s (List.mem_append_left _ hs))
      (hsec _ (List.mem_append_right _ List.mem_cons_self)) rfl
    have howed : feed'.owed rest = [c ++ rest] := by
      rw [SectionFeed.owed, if_neg hrest, hwindow]
    have hsec' : ∀ s ∈ ss', IsSection s := fun s hs =>
      hsec s (List.mem_append_right _ (List.mem_cons_of_mem _ hs))
    rw [hcc] at hholding
    rw [sectionPackets_cons hall heq, hholding.packets hall hp hsec' hcontiguous hcarry, hdelivered',
      hdelivered, howed]
    simp only [List.append_assoc, List.singleton_append]
  | @startWhole _ full n ss' _ _ _ hsome _ hp =>
    obtain ⟨feed', heq, hholding, hdelivered'⟩ := start_whole hall hcarries hpusi rfl hsome
      (fun s hs => hsec s (List.mem_append_left _ hs)) rfl
    have howed : feed'.owed [] = [] := if_pos rfl
    have hsec' : ∀ s ∈ ss', IsSection s := fun s hs => hsec s (List.mem_append_right _ hs)
    rw [hcc] at hholding
    rw [sectionPackets_cons hall heq, hholding.packets hall hp hsec' hcontiguous hcarry, hdelivered',
      hdelivered, howed]
    simp only [List.append_assoc, List.nil_append]

/-- A section of 12 bytes in two packets with 10 bytes of payload each. -/
def shortSection : List UInt8 := [0x42, 0x00, 9, 1, 2, 3, 4, 5, 6, 7, 8, 9]

def shortUnits (dc : Bool) : List SectionUnit :=
  [⟨true, false, 0, 0 :: ([] ++ (([] : List (List UInt8)).flatten ++ shortSection.take 9))⟩,
    ⟨false, dc, 1, shortSection.drop 9 ++ List.replicate 7 0xff⟩]

def shortPacket (b1 b3 b5 : UInt8) (body : List UInt8) : Packet UInt8 :=
  Packet.ofList ([0x47, b1, 0x11, b3, 173, b5] ++ List.replicate 172 0xff ++ body)

/-- The packets; the second one indicates a discontinuity or does not. -/
def shortPackets (dc : Bool) : List (Packet UInt8) :=
  [shortPacket 0x40 0x30 0 (0 :: shortSection.take 9),
    shortPacket 0 0x31 (if dc then 0x80 else 0) (shortSection.drop 9 ++ List.replicate 7 0xff)]

def passAll : SectionUse :=
  ⟨true, [prepareSecfilter [] (List.replicate DVB_DEMUX_MASK_MAX 0) []], false, fun _ => 0,
    fun _ => 0⟩

def idleFeed : SectionFeed := ⟨0, false, 0, fun _ => 0, 0, 0, 0, 0, []⟩

theorem passAll_allPass : AllPass passAll := ⟨rfl, ⟨[], [], rfl⟩, rfl⟩

theorem shortPackets_carry (dc : Bool) :
    List.Forall₂ Carries (shortPackets dc) (shortUnits dc) := by
  refine .cons ⟨by decide, by decide, by decide, by decide, rfl, rfl⟩ (.cons ?_ .nil)
  cases dc with
  | false => exact ⟨by decide, by decide, by decide, by decide, rfl, rfl⟩
  | true => exact ⟨by decide, by decide, by decide, by decide, rfl, rfl⟩

theorem shortSection_isSection : ∀ s ∈ [shortSection], IsSection s := by
  intro s hs
  rw [List.mem_singleton.mp hs]
  exact ⟨by decide, by decide, by decide⟩

theorem shortUnits_packetised {Ok : SectionUnit → List UInt8 → Prop} (dc : Bool)
    (hfirst : ∀ u, u.dc = false → Ok u [])
    (hsecond : ∀ u, u.dc = dc → Ok u (shortSection.drop 9)) :
    Packetised Ok [] [shortSection] (shortUnits dc) :=
  @Packetised.start Ok [] [] (shortSection.take 9) (shortSection.drop 9) [] _ _ _ (by decide)
    (by decide) (hfirst _ rfl) (.last (hsecond _ rfl) .done)

theorem sections_lossless_short :
    (sectionPackets passAll (startSectionFiltering idleFeed) (shortPackets false)).delivered =
      [shortSection] :=
  sections_lossless passAll_allPass idleFeed
    (shortUnits_packetised false (fun _ _ _ => rfl) fun u hno hyes => by rw [hno] at hyes; cases hyes)
    rfl ⟨rfl, trivial⟩ shortSection_isSection (shortPackets_carry false)

/-- With a discontinuity indicated in the second packet the section is not delivered, although the
    continuity counters are contiguous. -/
theorem section_dropped : ¬∀ (use : SectionUse) (feed : SectionFeed) (tail : List UInt8)
    (ss : List (List UInt8)) (u : SectionUnit) (us : List SectionUnit)
    (packets : List (Packet UInt8)), AllPass use → Packetised (fun _ _ => True) tail ss (u :: us) →
    u.pusi = true → Contiguous u.cc us → (∀ s ∈ ss, IsSection s) →
    List.Forall₂ Carries packets (u :: us) →
    (sectionPackets use (startSectionFiltering feed) packets).delivered =
      feed.delivered ++ ss := by
  intro hall
  have hdelivered := hall passAll idleFeed [] [shortSection] _ _ (shortPackets true) passAll_allPass
    (shortUnits_packetised true (fun _ _ => trivial) fun _ _ => trivial) rfl
    ⟨rfl, trivial⟩ shortSection_isSection (shortPackets_carry true)
  have hnone : (sectionPackets passAll (startSectionFiltering idleFeed)
      (shortPackets true)).delivered = [] := by decide
  rw [hnone] at hdelivered
  cases hdelivered

end Demux

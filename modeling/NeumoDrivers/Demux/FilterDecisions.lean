import NeumoDrivers.Demux.SectionFilters
import NeumoDrivers.Demux.SectionReads

/-! What the decision of a section filter depends on (`neumo-dvb-demux.c`).

    `neumo_dvb_dmx_swfilter_sectionfilter` compares `DVB_DEMUX_MASK_MAX` bytes from `secbuf` on,
    whatever the length of the section. For a shorter one the bytes compared last belong to what
    follows it in the buffer: the next section, stuffing, or what was left there by an earlier unit.
    Where these decide, the same section is delivered in one run and not in another. -/

namespace Demux
open Loop

variable {use : SectionUse} {feed t t' : SectionFeed} {buf buf' : ℕ → UInt8} {f : SectionFilter}
variable {s c : List UInt8} {i : ℕ}

variable (use) in
/-- In a run over packets a section is complete, and the filters are asked in the state `t`. -/
structure Completes (feed : SectionFeed) (packets : List (Packet UInt8)) (s : List UInt8)
    (t : SectionFeed) : Prop where
  pass : ∃ limit got, RunPass use feed packets limit t got ∧ More t.secbufBase limit t.secbufp
  seen : t.pusiSeen = true
  section_eq : sectionAt t.secbufBase t.secbufp = s

variable (use) in
/-- `neumo_dvb_dmx_swfilter_section_feed` gives the section found at `secbuf` to the callback
    through the filter. -/
def Through (f : SectionFilter) (t : SectionFeed) : Prop :=
  (swfilterSectionFeed { use with sectionFilter := [f] }
    { t with seclen := sectionLength t.at }).delivered ≠ t.delivered

/-! ### What is expected -/

variable (use) in
/-- The CRC is checked and does not fit. -/
def Rejected (s : List UInt8) : Prop :=
  use.checkCrc ∧ s.getD 1 0 &&& 0x80 ≠ 0 ∧ use.checkCrc32 s ≠ 0

/-- The bytes of the section decide: a bit fails, or all the bits of which one must differ are in
    the section and none does, or no bit behind it can fail and none is needed. -/
inductive Decides (f : SectionFilter) (s : List UInt8) : Prop where
  | fails (i : ℕ) : i < DVB_DEMUX_MASK_MAX → i < s.length →
      f.positive (fun j => s.getD j 0) i ≠ 0 → Decides f s
  | same : f.doneq = true →
      (∀ i < DVB_DEMUX_MASK_MAX, f.maskandnotmode.getD i 0 ≠ 0 →
        i < s.length ∧ f.negative (fun j => s.getD j 0) i = 0) → Decides f s
  | passes : (∀ i < DVB_DEMUX_MASK_MAX, f.maskandmode.getD i 0 ≠ 0 → i < s.length) →
      (f.doneq = true → ∃ i < DVB_DEMUX_MASK_MAX, i < s.length ∧
        f.negative (fun j => s.getD j 0) i ≠ 0) → Decides f s

/-! ### The bytes behind -/

/-- The buffer begins with the section. -/
def Begins (buf : ℕ → UInt8) (s : List UInt8) : Prop := ∀ i < s.length, buf i = s.getD i 0

theorem Begins.positive (h : Begins buf s) (f : SectionFilter) (hi : i < s.length) :
    f.positive buf i = f.positive (fun j => s.getD j 0) i := by
  rw [SectionFilter.positive, SectionFilter.positive, h i hi]

theorem Begins.negative (h : Begins buf s) (f : SectionFilter) (hi : i < s.length) :
    f.negative buf i = f.negative (fun j => s.getD j 0) i := by
  rw [SectionFilter.negative, SectionFilter.negative, h i hi]

theorem positive_zero (h : f.maskandmode.getD i 0 = 0) : f.positive buf i = 0 := by
  rw [SectionFilter.positive, h, UInt8.zero_and]

theorem negative_zero (h : f.maskandnotmode.getD i 0 = 0) : f.negative buf i = 0 := by
  rw [SectionFilter.negative, h, UInt8.zero_and]

/-- Where the bytes of the section decide, those behind it do not matter. -/
theorem Decides.agree (h : Decides f s) (hbuf : Begins buf s) (hbuf' : Begins buf' s) :
    filterPasses buf f = true → filterPasses buf' f = true := by
  rw [filterPasses_iff, filterPasses_iff]
  rintro ⟨hgood, hdiffers⟩
  cases h with
  | fails i hi hlt hbad =>
    rw [← hbuf.positive f hlt, hgood i hi] at hbad
    exact absurd rfl hbad
  | same hneq hsame =>
    obtain ⟨i, hi, hne⟩ := hdiffers hneq
    have hmask : f.maskandnotmode.getD i 0 ≠ 0 := fun hzero => hne (negative_zero hzero)
    obtain ⟨hlt, hzero⟩ := hsame i hi hmask
    rw [hbuf.negative f hlt, hzero] at hne
    exact absurd rfl hne
  | passes hwithin hneeded =>
    refine ⟨fun i hi => ?_, fun hneq => ?_⟩
    · by_cases hmask : f.maskandmode.getD i 0 = 0
      · exact positive_zero hmask
      · have hlt := hwithin i hi hmask
        rw [hbuf'.positive f hlt, ← hbuf.positive f hlt]
        exact hgood i hi
    · obtain ⟨i, hi, hlt, hne⟩ := hneeded hneq
      rw [← hbuf'.negative f hlt] at hne
      exact ⟨i, hi, hne⟩

/-! ### Two continuations -/

/-- The section with the bytes `c` behind it. -/
def followed (s : List UInt8) (c : ℕ → UInt8) (i : ℕ) : UInt8 :=
  if i < s.length then s.getD i 0 else c i

theorem followed_begins (s : List UInt8) (c : ℕ → UInt8) : Begins (followed s c) s := by
  intro i hi
  rw [followed, if_pos hi]

theorem xor_cancel (x y : UInt8) : x ^^^ (x ^^^ y) = y := by
  rw [← UInt8.xor_assoc, UInt8.xor_self, UInt8.zero_xor]

theorem and_and_not (x y : UInt8) : (x &&& y) &&& (x &&& ~~~y) = 0 := by
  by_contra hne
  obtain ⟨b, hb⟩ := ne_zero_iff_bitAt.mp hne
  have hb8 := bitAt_lt hb
  rw [bitAt_and, bitAt_and, bitAt_and, bitAt_not hb8, Bool.and_eq_true, Bool.and_eq_true,
    Bool.and_eq_true, Bool.not_eq_true'] at hb
  rw [hb.1.2] at hb
  cases hb.2.2

theorem positive_behind (c : ℕ → UInt8) (hi : ¬i < s.length) :
    f.positive (followed s c) i = f.maskandmode.getD i 0 &&& (f.filterValue.getD i 0 ^^^ c i) := by
  rw [SectionFilter.positive, followed, if_neg hi]

theorem negative_behind (c : ℕ → UInt8) (hi : ¬i < s.length) :
    f.negative (followed s c) i =
      f.maskandnotmode.getD i 0 &&& (f.filterValue.getD i 0 ^^^ c i) := by
  rw [SectionFilter.negative, followed, if_neg hi]

variable {value mask mode : List UInt8}

/-- The masks of a filter that `prepare_secfilters` leaves have no bit in common. -/
theorem prepared_disjoint (i : ℕ) :
    (prepareSecfilter value mask mode).maskandmode.getD i 0 &&&
      (prepareSecfilter value mask mode).maskandnotmode.getD i 0 = 0 := by
  by_cases hi : i < DVB_DEMUX_MASK_MAX
  · have hmode : (prepareSecfilter value mask mode).maskandmode.getD i 0 =
        mask.getD i 0 &&& mode.getD i 0 := map_range_getD _ hi
    have hnotmode : (prepareSecfilter value mask mode).maskandnotmode.getD i 0 =
        mask.getD i 0 &&& ~~~mode.getD i 0 := map_range_getD _ hi
    rw [hmode, hnotmode]
    exact and_and_not _ _
  · have hmode : (prepareSecfilter value mask mode).maskandmode.getD i 0 = 0 :=
      List.getD_eq_default _ _ (by simpa [prepareSecfilter] using Nat.le_of_not_gt hi)
    rw [hmode, UInt8.zero_and]

/-- If the bytes of the section do not decide, some bytes behind it let it pass, and others do
    not. -/
theorem exists_continuations (hs : ¬Decides (prepareSecfilter value mask mode) s) :
    ∃ c c' : ℕ → UInt8, filterPasses (followed s c) (prepareSecfilter value mask mode) = true ∧
      ¬filterPasses (followed s c') (prepareSecfilter value mask mode) = true := by
  generalize hf : prepareSecfilter value mask mode = f at hs ⊢
  have hdisjoint : ∀ i, f.maskandmode.getD i 0 &&& f.maskandnotmode.getD i 0 = 0 := by
    subst hf
    exact prepared_disjoint
  have hgood : ∀ c, ∀ i < DVB_DEMUX_MASK_MAX, i < s.length → f.positive (followed s c) i = 0 := by
    intro c i hi hlt
    by_contra hbad
    rw [(followed_begins s c).positive f hlt] at hbad
    exact hs (.fails i hi hlt hbad)
  -- the bits of which one must differ do so, and all others are as they should be
  have hpass : filterPasses (followed s fun i => f.filterValue.getD i 0 ^^^
      f.maskandnotmode.getD i 0) f = true := by
    refine filterPasses_iff.mpr ⟨fun i hi => ?_, fun hneq => ?_⟩
    · by_cases hlt : i < s.length
      · exact hgood _ i hi hlt
      · rw [positive_behind _ hlt, xor_cancel, hdisjoint]
    · by_contra hno
      refine hs (.same hneq fun i hi hmask => ?_)
      by_cases hlt : i < s.length
      · refine ⟨hlt, ?_⟩
        by_contra hne
        rw [← (followed_begins s _).negative f hlt] at hne
        exact hno ⟨i, hi, hne⟩
      · refine absurd ⟨i, hi, ?_⟩ hno
        rw [negative_behind _ hlt, xor_cancel, UInt8.and_self]
        exact hmask
  suffices hfail : ∃ c, ¬filterPasses (followed s c) f = true by
    obtain ⟨c, hc⟩ := hfail
    exact ⟨_, c, hpass, hc⟩
  by_cases hdeep : ∃ i < DVB_DEMUX_MASK_MAX, f.maskandmode.getD i 0 ≠ 0 ∧ ¬i < s.length
  · -- a bit behind the section that must not differ does
    obtain ⟨i, hi, hmask, hlt⟩ := hdeep
    refine ⟨fun i => f.filterValue.getD i 0 ^^^ f.maskandmode.getD i 0, fun hyes => hmask ?_⟩
    have hzero := (filterPasses_iff.mp hyes).1 i hi
    rw [positive_behind _ hlt, xor_cancel, UInt8.and_self] at hzero
    exact hzero
  · -- no bit behind the section differs
    refine ⟨fun i => f.filterValue.getD i 0, fun hyes => hs (.passes ?_ fun hneq => ?_)⟩
    · intro i hi hmask
      by_contra hlt
      exact hdeep ⟨i, hi, hmask, hlt⟩
    · obtain ⟨i, hi, hne⟩ := (filterPasses_iff.mp hyes).2 hneq
      by_cases hlt : i < s.length
      · rw [(followed_begins s _).negative f hlt] at hne
        exact ⟨i, hi, hlt, hne⟩
      · rw [negative_behind _ hlt, UInt8.xor_self, UInt8.and_zero] at hne
        exact absurd rfl hne

/-! ### What the filters are asked about -/

theorem DumpPass.secbuf {src : List UInt8} {limit : ℕ} (h : DumpPass use feed src limit t) :
    t.secbuf = t.secbufp := by
  refine @Visits.invariant _ _ _ _ _ (fun t : SectionFeed => t.secbuf = t.secbufp) rfl ?_ h.visits
  intro a b ha hbody
  obtain ⟨-, flags, seclen, rfl⟩ := dumpBody_again ha hbody
  rfl

theorem CopyDumpPass.secbuf {src : List UInt8} {limit : ℕ} (h : CopyDumpPass use feed src limit t) :
    t.secbuf = t.secbufp := by
  cases h with
  | whole _ _ hpass => exact hpass.secbuf
  | part _ _ hpass => exact hpass.secbuf

/-- The pass in which the filters are asked is at the section. -/
theorem Completes.at_section {packets : List (Packet UInt8)} (h : Completes use feed packets s t) :
    use.isFiltering = true ∧ sectionAt t.secbufBase t.secbuf = s := by
  obtain ⟨⟨limit, got, ⟨hon, before, buf, after, -, hpass⟩, -⟩, -, hsection⟩ := h
  refine ⟨hon, ?_⟩
  have hptr : t.secbuf = t.secbufp := by
    cases hpass with
    | ends _ hpass => exact hpass.secbuf
    | starts _ hpass => exact hpass.secbuf
  rw [hptr]
  exact hsection

theorem through_iff (use : SectionUse) (f : SectionFilter) (t : SectionFeed) :
    Through use f t ↔ Wanted { use with sectionFilter := [f] } t.secbufBase t.secbuf := by
  obtain ⟨flags, seclen, heq⟩ := swfilterSectionFeed_eq { use with sectionFilter := [f] }
    ({ t with seclen := sectionLength t.at }) rfl
  rw [Through, heq]
  dsimp only
  rw [Ne, List.append_right_eq_self, given_eq_nil, not_not]

theorem sectionAt_begins (base : ℕ → UInt8) (i : ℕ) :
    Begins (fun j => base (i + j)) (sectionAt base i) := by
  intro j hj
  rw [sectionAt, List.length_map, List.length_range] at hj
  exact (map_range_getD (fun j => base (i + j)) hj).symm

/-- A filter is asked if the CRC does not speak against the section, and then its bytes decide. -/
theorem Completes.through {packets : List (Packet UInt8)} (h : Completes use feed packets s t)
    (f : SectionFilter) :
    Begins t.at s ∧ (Through use f t ↔ ¬Rejected use s ∧ filterPasses t.at f = true) := by
  obtain ⟨hon, rfl⟩ := h.at_section
  have hbegins := sectionAt_begins t.secbufBase t.secbuf
  refine ⟨hbegins, ?_⟩
  have hlen := lengthAt_ge t.secbufBase t.secbuf
  have hone := hbegins 1 (by rw [sectionAt, List.length_map, List.length_range]; omega)
  rw [through_iff, Wanted, Rejected, ← hone]
  simp only [hon, true_and, List.mem_singleton, exists_eq_left]
  rfl

theorem passed_eq (hcb : ∀ s, 0 ≤ use.cb s) (base : ℕ → UInt8) (i : ℕ) (fs : List SectionFilter) :
    passed use base i fs =
      (fs.filter fun f => filterPasses (fun j => base (i + j)) f).map
        fun _ => sectionAt base i := by
  induction fs with
  | nil => rfl
  | cons f fs ih =>
    rw [passed, if_neg (Int.not_lt.mpr (hcb _)), ih]
    cases hf : filterPasses (fun j => base (i + j)) f with
    | true => rw [if_pos rfl, List.filter_cons_of_pos hf, List.map_cons]
    | false => rw [if_neg Bool.false_ne_true, List.filter_cons_of_neg (by simp [hf])]

/-! ### Histories -/

/-- A packet with the section at the start of a unit, and the bytes `c` behind it. -/
def sectionPacket (s : List UInt8) (c : ℕ → UInt8) : Packet UInt8 := fun i =>
  if i < 5 then [0x47, 0x40, 0x11, 0x11, 0].getD i 0 else followed s c (i - 5)

theorem sectionPacket_payload (s : List UInt8) (c : ℕ → UInt8) :
    payload (sectionPacket s c) = 184 := by
  have hflags : sectionPacket s c 3 = 0x11 := rfl
  rw [payload, hflags]
  rfl

theorem sectionPacket_starts (s : List UInt8) (c : ℕ → UInt8) :
    startsAnew (sectionPacket s c) = true := by
  have hpointer : sectionPacket s c (188 - 184) = 0 := rfl
  have hpusi : sectionPacket s c 1 = 0x40 := rfl
  rw [startsAnew, sectionPacket_payload, hpusi, hpointer]
  rfl

theorem sectionPacket_behind (s : List UInt8) (c : ℕ → UInt8) :
    behind (sectionPacket s c) = (List.range 183).map (followed s c) := by
  have hpointer : sectionPacket s c (188 - 184) = 0 := rfl
  rw [behind, sectionPacket_payload, hpointer, Packet.read]
  refine List.map_congr_left fun i _ => ?_
  have hplace : ((188 - 184 : ℕ) + 1 + (0 : UInt8).toNat : ℤ).toNat + i = i + 5 := by
    rw [Nat.add_comm]
    rfl
  rw [hplace, sectionPacket, if_neg (by omega), Nat.add_sub_cancel]

/-- Where sections start the buffer is written from its beginning on. -/
theorem startSections_cleared (feed : SectionFeed) :
    (startSections feed).tsfeedp = 0 ∧ (startSections feed).secbufp = 0 ∧
      (startSections feed).pusiSeen = true := ⟨rfl, rfl, (sectionNew_fields _).2.1⟩

/-- The section may be followed by any bytes when the filters are asked. -/
theorem exists_completes (hon : use.isFiltering = true) (hs : IsSection s) (hshort : s.length ≤ 18)
    (c : ℕ → UInt8) : ∃ t, Completes use idleFeed [sectionPacket s c] s t ∧
      ∀ i < DVB_DEMUX_MASK_MAX, t.at i = followed s c i := by
  obtain ⟨hsome, hmax, hlen⟩ := hs
  have hstarts := sectionPacket_starts s c
  have hbehind := sectionPacket_behind s c
  have hsize : (behind (sectionPacket s c)).length = 183 := by
    rw [hbehind, List.length_map, List.length_range]
  let first := startSections (swfilterSectionCopyDump use
    (checkContinuity (startSectionFiltering idleFeed) (sectionPacket s c))
    (front (sectionPacket s c)))
  obtain ⟨hfed, hstart, hseen⟩ : first.tsfeedp = 0 ∧ first.secbufp = 0 ∧ first.pusiSeen = true :=
    startSections_cleared _
  have hbase : ∀ i < 183, (first.loaded (behind (sectionPacket s c))).secbufBase i =
      followed s c i := by
    intro i hi
    rw [SectionFeed.loaded]
    dsimp only
    rw [SectionFeed.grown, hfed, copyInto, hsize, if_pos ⟨Nat.zero_le i, by omega⟩, hbehind, Nat.sub_zero,
      map_range_getD _ hi]
  have hsame : ∀ i < s.length, (first.loaded (behind (sectionPacket s c))).secbufBase i =
      s.getD i 0 := by
    intro i hi
    rw [hbase i (by omega), followed_begins s c i hi]
  have hlength : lengthAt (first.loaded (behind (sectionPacket s c))).secbufBase 0 = s.length := by
    rw [← hlen, lengthAt]
    refine sectionLength_congr ?_ ?_
    · rw [Nat.zero_add, hsame 1 (by omega)]
    · rw [Nat.zero_add, hsame 2 (by omega)]
  have hp : (first.loaded (behind (sectionPacket s c))).secbufp = 0 := hstart
  refine ⟨first.loaded (behind (sectionPacket s c)), ⟨⟨183, behind (sectionPacket s c), ?_, ?_⟩,
    ?_, ?_⟩, ?_⟩
  · refine ⟨hon, [], _, [], rfl, .starts hstarts (.whole ?_ ?_ ⟨?_, ?_, ?_, .start⟩)⟩
    · exact Nat.zero_lt_of_lt (show 0 < 4284 by decide)
    · change first.tsfeedp + _ ≤ _
      rw [hsize, hfed]
      decide
    · rw [hsize]
      decide
    · rw [hsize]
      rfl
    · decide
  · rw [hp]
    exact ⟨by decide, hlength ▸ hmax, by rw [hlength]; omega⟩
  · exact hseen
  · rw [hp, sectionAt, hlength]
    refine List.ext_getElem (by rw [List.length_map, List.length_range]) fun i hi hi' => ?_
    rw [List.getElem_map, List.getElem_range, Nat.zero_add, hsame i hi', List.getD_eq_getElem]
  · intro i hi
    have hat : (first.loaded (behind (sectionPacket s c))).at i =
        (first.loaded (behind (sectionPacket s c))).secbufBase (first.secbufp + i) := rfl
    rw [hat, hstart, Nat.zero_add]
    exact hbase i (Nat.lt_trans hi (by decide))

theorem filterPasses_congr (h : ∀ i < DVB_DEMUX_MASK_MAX, buf i = buf' i) :
    filterPasses buf f = true ↔ filterPasses buf' f = true := by
  rw [filterPasses_iff, filterPasses_iff]
  have hpositive : ∀ i < DVB_DEMUX_MASK_MAX, f.positive buf i = f.positive buf' i := by
    intro i hi
    rw [SectionFilter.positive, SectionFilter.positive, h i hi]
  have hnegative : ∀ i < DVB_DEMUX_MASK_MAX, f.negative buf i = f.negative buf' i := by
    intro i hi
    rw [SectionFilter.negative, SectionFilter.negative, h i hi]
  refine and_congr (forall₂_congr fun i hi => by rw [hpositive i hi]) (imp_congr_right fun _ => ?_)
  exact exists_congr fun i => and_congr_right fun hi => by rw [hnegative i hi]

/-- Where the bytes of a section do not decide, there are two runs in which it is complete, and it
    is delivered through the filter in one of them only. -/
theorem exists_histories (hon : use.isFiltering = true) (hs : IsSection s)
    (hcrc : ¬Rejected use s) (hno : ¬Decides (prepareSecfilter value mask mode) s) :
    ∃ packets packets' t t', Completes use idleFeed packets s t ∧
      Completes use idleFeed packets' s t' ∧
      Through use (prepareSecfilter value mask mode) t ∧
      ¬Through use (prepareSecfilter value mask mode) t' := by
  obtain ⟨c, c', hpasses, hfails⟩ := exists_continuations hno
  have hshort : s.length ≤ 18 := by
    by_contra hlong
    have hsame : ∀ i < DVB_DEMUX_MASK_MAX, followed s c i = followed s c' i := by
      intro i hi
      have hlt : i < s.length := Nat.lt_trans hi (Nat.lt_of_not_le hlong)
      rw [followed_begins s c i hlt, followed_begins s c' i hlt]
    exact hfails ((filterPasses_congr hsame).mp hpasses)
  obtain ⟨t, ht, hat⟩ := exists_completes hon hs hshort c
  obtain ⟨t', ht', hat'⟩ := exists_completes hon hs hshort c'
  refine ⟨_, _, t, t', ht, ht', ?_, ?_⟩
  · exact (ht.through _).2.mpr ⟨hcrc, (filterPasses_congr hat).mpr hpasses⟩
  · intro hthrough
    exact hfails ((filterPasses_congr hat').mp ((ht'.through _).2.mp hthrough).2)

/-- In all runs in which a section is complete the decision of the filter is the same if and only if
    the CRC speaks against the section or its own bytes decide. -/
theorem decision_alike (use : SectionUse) (value mask mode s : List UInt8)
    (hon : use.isFiltering = true) (hs : IsSection s) :
    (∀ feed feed' packets packets' t t', Completes use feed packets s t →
      Completes use feed' packets' s t' →
      (Through use (prepareSecfilter value mask mode) t ↔
        Through use (prepareSecfilter value mask mode) t')) ↔
      Rejected use s ∨ Decides (prepareSecfilter value mask mode) s := by
  constructor
  · intro hall
    by_contra hno
    rw [not_or] at hno
    obtain ⟨packets, packets', t, t', ht, ht', hyes, hnot⟩ := exists_histories hon hs hno.1 hno.2
    exact hnot ((hall _ _ _ _ _ _ ht ht').mp hyes)
  · intro h feed feed' packets packets' t t' ht ht'
    obtain ⟨hbegins, hiff⟩ := ht.through (prepareSecfilter value mask mode)
    obtain ⟨hbegins', hiff'⟩ := ht'.through (prepareSecfilter value mask mode)
    rw [hiff, hiff']
    rcases h with hcrc | hdecides
    · exact ⟨fun h => absurd hcrc h.1, fun h => absurd hcrc h.1⟩
    · exact and_congr_right fun _ => ⟨hdecides.agree hbegins hbegins',
        hdecides.agree hbegins' hbegins⟩

theorem decision_alike_short : IsSection shortSection ∧
    ∀ feed feed' packets packets' t t', Completes passAll feed packets shortSection t →
      Completes passAll feed' packets' shortSection t' →
      (Through passAll (prepareSecfilter [0x42] [0xff] [0]) t ↔
        Through passAll (prepareSecfilter [0x42] [0xff] [0]) t') := by
  have hsection : IsSection shortSection := ⟨by decide, by decide, by decide⟩
  refine ⟨hsection, (decision_alike passAll [0x42] [0xff] [0] shortSection rfl hsection).mpr
    (Or.inr (.same rfl ?_))⟩
  decide

/-- A section of 3 bytes, and a filter for the byte behind it. -/
def bareSection : List UInt8 := [0x42, 0, 0]

theorem bareSection_undecided :
    ¬Decides (prepareSecfilter [] [0, 0, 0, 0xff] [0, 0, 0, 0xff]) bareSection := by
  intro h
  cases h with
  | fails i hi hlt hbad =>
    have hall : ∀ i < bareSection.length,
        (prepareSecfilter [] [0, 0, 0, 0xff] [0, 0, 0, 0xff]).positive
          (fun j => bareSection.getD j 0) i = 0 := by decide
    exact hbad (hall i hlt)
  | same hneq _ => exact absurd hneq (by decide)
  | passes hwithin _ => exact absurd (hwithin 3 (by decide) (by decide)) (by decide)

/-- The bytes behind such a section decide on it. -/
theorem decision_depends : ¬∀ (use : SectionUse) (value mask mode s : List UInt8)
    (feed feed' : SectionFeed) (packets packets' : List (Packet UInt8)) (t t' : SectionFeed),
    IsSection s → Completes use feed packets s t → Completes use feed' packets' s t' →
      (Through use (prepareSecfilter value mask mode) t ↔
        Through use (prepareSecfilter value mask mode) t') := by
  intro hall
  have hsection : IsSection bareSection := ⟨by decide, by decide, by decide⟩
  have hcrc : ¬Rejected passAll bareSection := fun h => Bool.false_ne_true h.1
  obtain ⟨packets, packets', t, t', ht, ht', hyes, hnot⟩ :=
    exists_histories rfl hsection hcrc bareSection_undecided
  exact hnot ((hall _ _ _ _ _ _ _ _ _ _ _ hsection ht ht').mp hyes)

end Demux

import NeumoDrivers.Demux.EmptyPackets

/-! The filters of sections (`neumo-dmxdev.c`, `neumo-dvb-demux.c`).

    A user gives 16 bytes of filter, mask and mode. The second byte and those behind it are put two
    places further, so that they skip the length of a section, the modes are inverted, and the masks
    are split into one for the bits that must be equal and one for those of which one must differ. -/

namespace Demux

variable {buf : ℕ → UInt8} {f : SectionFilter} {x y : UInt8} {i b : ℕ}

def DMX_FILTER_SIZE : ℕ := 16
def DMX_MAX_FILTER_SIZE : ℕ := 18

/-- `struct dmx_filter`, as `DMX_SET_FILTER` gets it. -/
structure DmxFilter where
  filter : Vector UInt8 DMX_FILTER_SIZE
  mask : Vector UInt8 DMX_FILTER_SIZE
  mode : Vector UInt8 DMX_FILTER_SIZE

/-- `struct neumo_dmx_section_filter`. -/
structure DmxSectionFilter where
  filterValue : Vector UInt8 DMX_MAX_FILTER_SIZE
  filterMask : Vector UInt8 DMX_MAX_FILTER_SIZE
  filterMode : Vector UInt8 DMX_MAX_FILTER_SIZE

/-- `invert_mode`. -/
def invertMode (filter : DmxFilter) : DmxFilter :=
  { filter with mode := filter.mode.map fun byte => byte ^^^ 0xff }

/-- `memcpy(&dst[at], src)`. -/
def memcpyAt {n : ℕ} (dst : Vector UInt8 n) (start : ℕ) (src : List UInt8) : Vector UInt8 n :=
  Vector.ofFn fun i =>
    if start ≤ i ∧ i < start + src.length then src.getD (i - start) 0 else dst[i]

/-- What `dvb_dmxdev_filter_start` writes into the filter that has been allocated. Its bytes are
    those of an earlier use, and some stay. -/
def fillSecfilter (secfilter : DmxSectionFilter) (para : DmxFilter) : DmxSectionFilter :=
  let filterValue := memcpyAt secfilter.filterValue 3 (para.filter.toList.drop 1)
  let filterMask := memcpyAt secfilter.filterMask 3 (para.mask.toList.drop 1)
  let filterMode := memcpyAt secfilter.filterMode 3 (para.mode.toList.drop 1)
  { filterValue := filterValue.set 0 para.filter[0]
    filterMask := ((filterMask.set 0 para.mask[0]).set 1 0).set 2 0
    filterMode := filterMode.set 0 para.mode[0] }

/-- `prepare_secfilters`, for the filter in its structure. -/
def DmxSectionFilter.prepared (secfilter : DmxSectionFilter) : SectionFilter :=
  prepareSecfilter secfilter.filterValue.toList secfilter.filterMask.toList
    secfilter.filterMode.toList

/-- The way of a filter from `DMX_SET_FILTER` to the demux. -/
def secfilterOf (secfilter : DmxSectionFilter) (user : DmxFilter) : SectionFilter :=
  (fillSecfilter secfilter (invertMode user)).prepared

/-! ### What is expected -/

/-- The bit `b` of a byte. -/
def bitAt (x : UInt8) (b : ℕ) : Bool := x.toBitVec.getLsbD b

/-- The place in a section that is compared with a byte of the user. -/
def placeOf (i : ℕ) : ℕ := if i = 0 then 0 else i + 2

/-- A bit of the user that is masked, with its mode. -/
structure DmxFilter.Uses (user : DmxFilter) (i b : ℕ) (mode : Bool) : Prop where
  byte : i < DMX_FILTER_SIZE
  masked : bitAt (user.mask.toList.getD i 0) b = true
  mode : bitAt (user.mode.toList.getD i 0) b = mode

/-- A bit of the user is that of the section. -/
def DmxFilter.Same (user : DmxFilter) (s : List UInt8) (i b : ℕ) : Prop :=
  bitAt (s.getD (placeOf i) 0) b = bitAt (user.filter.toList.getD i 0) b

structure DmxFilter.Matches (user : DmxFilter) (s : List UInt8) : Prop where
  equal : ∀ i b, user.Uses i b false → user.Same s i b
  differs : (∃ i b, user.Uses i b true) → ∃ i b, user.Uses i b true ∧ ¬user.Same s i b

/-! ### The loop over the bytes -/

/-- The bits of a byte that differ and must not. -/
def SectionFilter.positive (f : SectionFilter) (buf : ℕ → UInt8) (i : ℕ) : UInt8 :=
  f.maskandmode.getD i 0 &&& (f.filterValue.getD i 0 ^^^ buf i)

/-- The bits of a byte that differ as one of them must. -/
def SectionFilter.negative (f : SectionFilter) (buf : ℕ → UInt8) (i : ℕ) : UInt8 :=
  f.maskandnotmode.getD i 0 &&& (f.filterValue.getD i 0 ^^^ buf i)

theorem or_eq_zero : x ||| y = 0 ↔ x = 0 ∧ y = 0 := by
  constructor
  · intro h
    have hbits : x.toBitVec ||| y.toBitVec = 0#8 := congrArg UInt8.toBitVec h
    exact ⟨UInt8.toBitVec_inj.mp (BitVec.or_eq_zero_iff.mp hbits).1,
      UInt8.toBitVec_inj.mp (BitVec.or_eq_zero_iff.mp hbits).2⟩
  · rintro ⟨rfl, rfl⟩
    rfl

theorem maskLoop_cons (i : ℕ) (is : List ℕ) (neq : UInt8) :
    maskLoop buf f (i :: is) neq =
      if f.positive buf i ≠ 0 then none else maskLoop buf f is (neq ||| f.negative buf i) := rfl

theorem maskLoop_none (is : List ℕ) :
    ∀ neq, maskLoop buf f is neq = none ↔ ∃ i ∈ is, f.positive buf i ≠ 0 := by
  induction is with
  | nil => simp [maskLoop]
  | cons i is ih =>
    intro neq
    rw [maskLoop_cons, List.exists_mem_cons_iff]
    by_cases hbad : f.positive buf i ≠ 0
    · rw [if_pos hbad]
      exact ⟨fun _ => Or.inl hbad, fun _ => rfl⟩
    · rw [if_neg hbad, ih]
      exact ⟨Or.inr, fun h => h.resolve_left hbad⟩

theorem maskLoop_some (is : List ℕ) :
    ∀ neq out, maskLoop buf f is neq = some out →
      (out = 0 ↔ neq = 0 ∧ ∀ i ∈ is, f.negative buf i = 0) := by
  induction is with
  | nil =>
    intro neq out hrun
    cases hrun
    simp
  | cons i is ih =>
    intro neq out hrun
    rw [maskLoop_cons] at hrun
    split at hrun
    · cases hrun
    · rw [ih _ _ hrun, or_eq_zero, List.forall_mem_cons, and_assoc]

/-- A filter passes a section when no bit fails and, if some must differ, one of them does. -/
theorem filterPasses_iff : filterPasses buf f = true ↔
    (∀ i < DVB_DEMUX_MASK_MAX, f.positive buf i = 0) ∧
      (f.doneq = true → ∃ i < DVB_DEMUX_MASK_MAX, f.negative buf i ≠ 0) := by
  have hnone := @maskLoop_none buf f (List.range DVB_DEMUX_MASK_MAX) 0
  have hsome := @maskLoop_some buf f (List.range DVB_DEMUX_MASK_MAX) 0
  rw [filterPasses]
  cases hrun : maskLoop buf f (List.range DVB_DEMUX_MASK_MAX) 0 with
  | none =>
    obtain ⟨i, hi, hbad⟩ := hnone.mp hrun
    have hno : ¬∀ i < DVB_DEMUX_MASK_MAX, f.positive buf i = 0 :=
      fun hall => hbad (hall i (List.mem_range.mp hi))
    simp [hno]
  | some out =>
    have hgood : ∀ i < DVB_DEMUX_MASK_MAX, f.positive buf i = 0 := by
      intro i hi
      by_contra hbad
      rw [hnone.mpr ⟨i, List.mem_range.mpr hi, hbad⟩] at hrun
      cases hrun
    have hout := hsome out hrun
    simp only [List.mem_range, true_and] at hout
    have hdiffers : out ≠ 0 ↔ ∃ i < DVB_DEMUX_MASK_MAX, f.negative buf i ≠ 0 := by
      rw [Ne, hout]
      push Not
      rfl
    rw [← hdiffers]
    simp only [Bool.not_eq_true', Bool.and_eq_false_iff, beq_eq_false_iff_ne]
    constructor
    · intro h
      exact ⟨hgood, fun hneq => h.resolve_left (by simp [hneq])⟩
    · rintro ⟨-, h⟩
      cases hneq : f.doneq with
      | false => exact Or.inl rfl
      | true => exact Or.inr (h hneq)

/-! ### The way of a byte -/

theorem toList_getD {n : ℕ} (bytes : Vector UInt8 n) (h : i < n) :
    bytes.toList.getD i 0 = bytes[i] := by
  rw [List.getD_eq_getElem _ _ (by simpa using h), Vector.getElem_toList]

theorem map_range_getD {n : ℕ} (g : ℕ → UInt8) (h : i < n) :
    ((List.range n).map g).getD i 0 = g i := by
  simp [h]

/-- A byte of the user at its new place. -/
theorem memcpyAt_place (dst : Vector UInt8 DMX_MAX_FILTER_SIZE)
    (src : Vector UInt8 DMX_FILTER_SIZE) (hi : i + 1 < DMX_FILTER_SIZE) :
    (memcpyAt dst 3 (src.toList.drop 1)).toList.getD (i + 3) 0 = src.toList.getD (i + 1) 0 := by
  have hlt : i + 3 < DMX_MAX_FILTER_SIZE := Nat.add_lt_add_right hi 2
  have hlen : (src.toList.drop 1).length = 15 := by
    rw [List.length_drop, Vector.length_toList]
    rfl
  have hfrom : 3 ≤ i + 3 ∧ i + 3 < 3 + 15 := ⟨by omega, hlt⟩
  rw [toList_getD _ hlt, memcpyAt, Vector.getElem_ofFn, hlen, if_pos hfrom, Nat.add_sub_cancel]
  simp

theorem set_getD_ne {n : ℕ} (bytes : Vector UInt8 n) {j : ℕ} (hj : j < n) (hne : j ≠ i) :
    (bytes.set j x).toList.getD i 0 = bytes.toList.getD i 0 := by
  rw [Vector.toList_set, List.getD, List.getElem?_set_ne hne]
  rfl

theorem set_getD_self {n : ℕ} (bytes : Vector UInt8 n) (hi : i < n) :
    (bytes.set i x).toList.getD i 0 = x := by
  rw [toList_getD _ hi, Vector.getElem_set_self]

variable (secfilter : DmxSectionFilter) (para : DmxFilter)

/-- What the user gave is found at its place. -/
theorem fillSecfilter_place (hi : i < DMX_FILTER_SIZE) :
    (fillSecfilter secfilter para).filterValue.toList.getD (placeOf i) 0 =
        para.filter.toList.getD i 0 ∧
      (fillSecfilter secfilter para).filterMask.toList.getD (placeOf i) 0 =
        para.mask.toList.getD i 0 ∧
      (fillSecfilter secfilter para).filterMode.toList.getD (placeOf i) 0 =
        para.mode.toList.getD i 0 := by
  have hzero : ∀ bytes : Vector UInt8 DMX_FILTER_SIZE, bytes.toList.getD 0 0 = bytes[0] :=
    fun bytes => toList_getD bytes (by decide)
  cases i with
  | zero =>
    rw [placeOf, if_pos rfl, hzero, hzero, hzero]
    refine ⟨set_getD_self _ (by decide), ?_, set_getD_self _ (by decide)⟩
    rw [fillSecfilter, set_getD_ne _ _ (by decide), set_getD_ne _ _ (by decide), set_getD_self]
  | succ i =>
    rw [placeOf, if_neg (Nat.succ_ne_zero i)]
    refine ⟨?_, ?_, ?_⟩
    · rw [fillSecfilter, set_getD_ne _ _ (by omega), memcpyAt_place _ _ hi]
    · rw [fillSecfilter, set_getD_ne _ _ (by omega), set_getD_ne _ _ (by omega),
        set_getD_ne _ _ (by omega), memcpyAt_place _ _ hi]
    · rw [fillSecfilter, set_getD_ne _ _ (by omega), memcpyAt_place _ _ hi]

theorem fillSecfilter_skipped (h : i = 1 ∨ i = 2) :
    (fillSecfilter secfilter para).filterMask.toList.getD i 0 = 0 := by
  rcases h with rfl | rfl
  · rw [fillSecfilter, set_getD_ne _ _ (by decide), set_getD_self]
  · rw [fillSecfilter, set_getD_self]

theorem invertMode_filter : (invertMode para).filter = para.filter := by
  unfold invertMode
  rfl

theorem invertMode_mask : (invertMode para).mask = para.mask := by
  unfold invertMode
  rfl

theorem invertMode_mode (hi : i < DMX_FILTER_SIZE) :
    (invertMode para).mode.toList.getD i 0 = para.mode.toList.getD i 0 ^^^ 0xff := by
  rw [toList_getD _ hi, toList_getD _ hi]
  exact Vector.getElem_map ..

/-! ### Bits -/

theorem bitAt_and : bitAt (x &&& y) b = (bitAt x b && bitAt y b) := BitVec.getLsbD_and

theorem bitAt_xor : bitAt (x ^^^ y) b = (bitAt x b ^^ bitAt y b) := BitVec.getLsbD_xor

theorem bitAt_lt (h : bitAt x b = true) : b < 8 := BitVec.lt_of_getLsbD h

theorem bitAt_not (hb : b < 8) : bitAt (~~~x) b = !bitAt x b := by
  rw [bitAt, UInt8.toBitVec_not, BitVec.getLsbD_not, decide_eq_true hb, Bool.true_and]
  rfl

theorem bitAt_inverted (hb : b < 8) : bitAt (x ^^^ 0xff) b = !bitAt x b := by
  have hones : bitAt 0xff b = true := by
    have hlt : b = 0 ∨ b = 1 ∨ b = 2 ∨ b = 3 ∨ b = 4 ∨ b = 5 ∨ b = 6 ∨ b = 7 := by omega
    rcases hlt with rfl | rfl | rfl | rfl | rfl | rfl | rfl | rfl <;> rfl
  rw [bitAt_xor, hones, Bool.xor_true]

theorem ne_zero_iff_bitAt : x ≠ 0 ↔ ∃ b, bitAt x b = true := by
  constructor
  · intro hne
    by_contra hno
    refine hne (UInt8.toBitVec_inj.mp (BitVec.eq_of_getLsbD_eq fun b hb => ?_))
    rw [show (0 : UInt8).toBitVec.getLsbD b = false from BitVec.getLsbD_zero]
    exact Bool.eq_false_iff.mpr fun hbit => hno ⟨b, hbit⟩
  · rintro ⟨b, hbit⟩ rfl
    cases BitVec.getLsbD_zero.symm.trans hbit

/-- A mask is split by the modes of its bits. -/
theorem mask_split {mask mode m : UInt8} {want : Bool}
    (hm : ∀ b < 8, bitAt m b = (bitAt mode b == want)) :
    bitAt (mask &&& m) b = true ↔ bitAt mask b = true ∧ bitAt mode b = want := by
  rw [bitAt_and, Bool.and_eq_true]
  constructor
  · rintro ⟨hmask, hbit⟩
    rw [hm b (bitAt_lt hmask), beq_iff_eq] at hbit
    exact ⟨hmask, hbit⟩
  · rintro ⟨hmask, hmode⟩
    rw [hm b (bitAt_lt hmask), beq_iff_eq]
    exact ⟨hmask, hmode⟩

theorem and_xor_ne_zero {mask : UInt8} :
    mask &&& (x ^^^ y) ≠ 0 ↔ ∃ b, bitAt mask b = true ∧ ¬bitAt y b = bitAt x b := by
  rw [ne_zero_iff_bitAt]
  refine exists_congr fun b => ?_
  rw [bitAt_and, bitAt_xor, Bool.and_eq_true, bne_iff_ne, Ne, @eq_comm _ (bitAt x b)]

/-! ### The filter of a user -/

variable {use : SectionUse} {feed : SectionFeed} {secfilter : DmxSectionFilter} {user : DmxFilter}

theorem filterValue_getD :
    secfilter.prepared.filterValue.getD i 0 = secfilter.filterValue.toList.getD i 0 := rfl

theorem maskandmode_getD (hi : i < DVB_DEMUX_MASK_MAX) :
    secfilter.prepared.maskandmode.getD i 0 =
      secfilter.filterMask.toList.getD i 0 &&& secfilter.filterMode.toList.getD i 0 :=
  map_range_getD _ hi

theorem maskandnotmode_getD (hi : i < DVB_DEMUX_MASK_MAX) :
    secfilter.prepared.maskandnotmode.getD i 0 =
      secfilter.filterMask.toList.getD i 0 &&& ~~~secfilter.filterMode.toList.getD i 0 :=
  map_range_getD _ hi

theorem placeOf_lt (hi : i < DMX_FILTER_SIZE) : placeOf i < DVB_DEMUX_MASK_MAX := by
  rw [placeOf]
  split
  · decide
  · exact Nat.add_lt_add_right hi 2

theorem exists_place {p : ℕ → Prop} (hskip : ∀ i, i = 1 ∨ i = 2 → ¬p i) :
    (∃ i < DVB_DEMUX_MASK_MAX, p i) ↔ ∃ i < DMX_FILTER_SIZE, p (placeOf i) := by
  constructor
  · rintro ⟨j, hj, hp⟩
    have hne : ¬(j = 1 ∨ j = 2) := fun h => hskip j h hp
    have hj18 : j < 18 := hj
    by_cases hzero : j = 0
    · exact ⟨0, by decide, by rwa [placeOf, if_pos rfl, ← hzero]⟩
    · refine ⟨j - 2, show j - 2 < 16 by omega, ?_⟩
      rw [placeOf, if_neg (by omega), Nat.sub_add_cancel (by omega)]
      exact hp
  · rintro ⟨i, hi, hp⟩
    exact ⟨placeOf i, placeOf_lt hi, hp⟩

theorem uses_iff {want : Bool} (hi : i < DMX_FILTER_SIZE) :
    user.Uses i b want ↔ bitAt (user.mask.toList.getD i 0) b = true ∧
      bitAt (user.mode.toList.getD i 0) b = want :=
  ⟨fun h => ⟨h.masked, h.mode⟩, fun h => ⟨hi, h.1, h.2⟩⟩

theorem inverted_positive : ∀ b < 8, bitAt (x ^^^ 0xff) b = (bitAt x b == false) := by
  intro b hb
  rw [bitAt_inverted hb]
  cases bitAt x b <;> rfl

theorem inverted_negative : ∀ b < 8, bitAt (~~~(x ^^^ 0xff)) b = (bitAt x b == true) := by
  intro b hb
  rw [bitAt_not hb, bitAt_inverted hb, Bool.not_not]
  cases bitAt x b <;> rfl

/-- What the demux has at the place of a byte of the user. -/
structure AtPlace (f : SectionFilter) (user : DmxFilter) (i : ℕ) : Prop where
  value : f.filterValue.getD (placeOf i) 0 = user.filter.toList.getD i 0
  positive : f.maskandmode.getD (placeOf i) 0 =
    user.mask.toList.getD i 0 &&& (user.mode.toList.getD i 0 ^^^ 0xff)
  negative : f.maskandnotmode.getD (placeOf i) 0 =
    user.mask.toList.getD i 0 &&& ~~~(user.mode.toList.getD i 0 ^^^ 0xff)

variable (secfilter user) in
theorem secfilterOf_place (hi : i < DMX_FILTER_SIZE) :
    AtPlace (secfilterOf secfilter user) user i := by
  obtain ⟨hvalue, hmask, hmode⟩ := fillSecfilter_place secfilter (invertMode user) hi
  rw [invertMode_filter] at hvalue
  rw [invertMode_mask] at hmask
  refine ⟨?_, ?_, ?_⟩
  · rw [secfilterOf, filterValue_getD, hvalue]
  · rw [secfilterOf, maskandmode_getD (placeOf_lt hi), hmask, hmode, invertMode_mode _ hi]
  · rw [secfilterOf, maskandnotmode_getD (placeOf_lt hi), hmask, hmode, invertMode_mode _ hi]

variable (secfilter user) in
theorem secfilterOf_skipped (h : i = 1 ∨ i = 2) :
    (secfilterOf secfilter user).maskandmode.getD i 0 = 0 ∧
      (secfilterOf secfilter user).maskandnotmode.getD i 0 = 0 := by
  have hi : i < DVB_DEMUX_MASK_MAX := by
    rcases h with rfl | rfl <;> decide
  rw [secfilterOf, maskandmode_getD hi, maskandnotmode_getD hi, fillSecfilter_skipped _ _ h]
  exact ⟨UInt8.zero_and, UInt8.zero_and⟩

/-- A bit of a section with the mode that is not the user's. -/
theorem differs_place {mask : UInt8} {want : Bool} {f : SectionFilter}
    (hvalue : f.filterValue.getD (placeOf i) 0 = user.filter.toList.getD i 0)
    (hmask : ∀ b, bitAt mask b = true ↔ user.Uses i b want) :
    mask &&& (f.filterValue.getD (placeOf i) 0 ^^^ buf (placeOf i)) ≠ 0 ↔
      ∃ b, user.Uses i b want ∧
        ¬bitAt (buf (placeOf i)) b = bitAt (user.filter.toList.getD i 0) b := by
  rw [and_xor_ne_zero, hvalue]
  exact exists_congr fun b => and_congr_left fun _ => hmask b

variable (secfilter user) in
theorem positive_bits (hi : i < DMX_FILTER_SIZE) (b : ℕ) :
    bitAt ((secfilterOf secfilter user).maskandmode.getD (placeOf i) 0) b = true ↔
      user.Uses i b false := by
  rw [(secfilterOf_place secfilter user hi).positive, mask_split inverted_positive, uses_iff hi]

variable (secfilter user) in
theorem negative_bits (hi : i < DMX_FILTER_SIZE) (b : ℕ) :
    bitAt ((secfilterOf secfilter user).maskandnotmode.getD (placeOf i) 0) b = true ↔
      user.Uses i b true := by
  rw [(secfilterOf_place secfilter user hi).negative, mask_split inverted_negative, uses_iff hi]

theorem doneq_iff : (secfilterOf secfilter user).doneq = true ↔ ∃ i b, user.Uses i b true := by
  have hany : (secfilterOf secfilter user).doneq = true ↔
      ∃ i < DVB_DEMUX_MASK_MAX, (secfilterOf secfilter user).maskandnotmode.getD i 0 ≠ 0 := by
    have hlist : (secfilterOf secfilter user).doneq =
        (secfilterOf secfilter user).maskandnotmode.any fun b => b != 0 := rfl
    rw [hlist, List.any_eq_true]
    constructor
    · rintro ⟨byte, hmem, hne⟩
      obtain ⟨i, hi, rfl⟩ := List.mem_map.mp hmem
      have hi' := List.mem_range.mp hi
      refine ⟨i, hi', ?_⟩
      rw [secfilterOf, maskandnotmode_getD hi']
      exact bne_iff_ne.mp hne
    · rintro ⟨i, hi, hne⟩
      rw [secfilterOf, maskandnotmode_getD hi] at hne
      exact ⟨_, List.mem_map.mpr ⟨i, List.mem_range.mpr hi, rfl⟩, bne_iff_ne.mpr hne⟩
  rw [hany, exists_place fun i h hne => hne (secfilterOf_skipped secfilter user h).2]
  constructor
  · rintro ⟨i, hi, hne⟩
    obtain ⟨b, hb⟩ := ne_zero_iff_bitAt.mp hne
    exact ⟨i, b, (negative_bits secfilter user hi b).mp hb⟩
  · rintro ⟨i, b, huses⟩
    refine ⟨i, huses.byte, ne_zero_iff_bitAt.mpr ⟨b, ?_⟩⟩
    exact (negative_bits secfilter user huses.byte b).mpr huses

/-- The bits that differ under a mask are those of the user that differ. -/
theorem differs_somewhere {s : List UInt8} {want : Bool} {mask : ℕ → UInt8}
    (hs : ∀ i < DVB_DEMUX_MASK_MAX, buf i = s.getD i 0)
    (hbits : ∀ i < DMX_FILTER_SIZE, ∀ b,
      bitAt (mask (placeOf i)) b = true ↔ user.Uses i b want)
    (hskip : ∀ i, i = 1 ∨ i = 2 → mask i = 0) :
    (∃ i < DVB_DEMUX_MASK_MAX,
      mask i &&& ((secfilterOf secfilter user).filterValue.getD i 0 ^^^ buf i) ≠ 0) ↔
        ∃ i b, user.Uses i b want ∧ ¬user.Same s i b := by
  rw [exists_place fun i h hne => hne (by rw [hskip i h, UInt8.zero_and])]
  constructor
  · rintro ⟨i, hi, hne⟩
    obtain ⟨b, huses, hdiff⟩ :=
      (differs_place (secfilterOf_place secfilter user hi).value (hbits i hi)).mp hne
    rw [hs _ (placeOf_lt hi)] at hdiff
    exact ⟨i, b, huses, hdiff⟩
  · rintro ⟨i, b, huses, hdiff⟩
    have hi := huses.byte
    refine ⟨i, hi, (differs_place (secfilterOf_place secfilter user hi).value
      (hbits i hi)).mpr ⟨b, huses, ?_⟩⟩
    rw [hs _ (placeOf_lt hi)]
    exact hdiff

/-- The filter of a user passes the sections that match it. -/
theorem filterPasses_user {s : List UInt8} (hs : ∀ i < DVB_DEMUX_MASK_MAX, buf i = s.getD i 0) :
    filterPasses buf (secfilterOf secfilter user) = true ↔ user.Matches s := by
  have hpositive : (∃ i < DVB_DEMUX_MASK_MAX, (secfilterOf secfilter user).positive buf i ≠ 0) ↔
      ∃ i b, user.Uses i b false ∧ ¬user.Same s i b :=
    differs_somewhere hs (fun _ hi => positive_bits secfilter user hi)
      fun _ h => (secfilterOf_skipped secfilter user h).1
  have hnegative : (∃ i < DVB_DEMUX_MASK_MAX, (secfilterOf secfilter user).negative buf i ≠ 0) ↔
      ∃ i b, user.Uses i b true ∧ ¬user.Same s i b :=
    differs_somewhere hs (fun _ hi => negative_bits secfilter user hi)
      fun _ h => (secfilterOf_skipped secfilter user h).2
  rw [filterPasses_iff, doneq_iff]
  constructor
  · rintro ⟨hequal, hdiffers⟩
    refine ⟨fun i b huses => ?_, fun hex => hnegative.mp (hdiffers hex)⟩
    by_contra hno
    obtain ⟨j, hj, hne⟩ := hpositive.mpr ⟨i, b, huses, hno⟩
    exact hne (hequal j hj)
  · intro hmatches
    refine ⟨fun i hi => ?_, fun hex => hnegative.mpr (hmatches.differs hex)⟩
    by_contra hne
    obtain ⟨j, b, huses, hno⟩ := hpositive.mp ⟨i, hi, hne⟩
    exact hno (hmatches.equal j b huses)

theorem swfilterSectionfilter_eq (use : SectionUse) (feed : SectionFeed) (f : SectionFilter) :
    swfilterSectionfilter use feed f =
      if filterPasses feed.at f then
        ({ feed with delivered := feed.delivered ++ [feed.section] }, use.cb feed.section)
      else (feed, 0) := by
  rw [swfilterSectionfilter, filterPasses]
  cases hrun : maskLoop feed.at f (List.range DVB_DEMUX_MASK_MAX) 0 with
  | none => rfl
  | some neq => by_cases hneq : f.doneq = true ∧ neq = 0 <;> simp [hneq]

/-- A section that reaches over all places compared is given to the callback of the feed through a
    filter if it matches what the user gave, and otherwise it is not. -/
theorem section_matches (use : SectionUse) (feed : SectionFeed) (secfilter : DmxSectionFilter)
    (user : DmxFilter) (hlong : DVB_DEMUX_MASK_MAX ≤ feed.seclen) :
    (user.Matches feed.section →
      swfilterSectionfilter use feed (secfilterOf secfilter user) =
        ({ feed with delivered := feed.delivered ++ [feed.section] }, use.cb feed.section)) ∧
    (¬user.Matches feed.section →
      swfilterSectionfilter use feed (secfilterOf secfilter user) = (feed, 0)) := by
  have hs : ∀ i < DVB_DEMUX_MASK_MAX, feed.at i = feed.section.getD i 0 := by
    intro i hi
    exact (map_range_getD _ (Nat.lt_of_lt_of_le hi hlong)).symm
  have hpasses : filterPasses feed.at (secfilterOf secfilter user) = true ↔
      user.Matches feed.section := filterPasses_user hs
  rw [← hpasses, swfilterSectionfilter_eq]
  exact ⟨fun h => if_pos h, fun h => if_neg h⟩

/-- A filter without a mask. -/
def openFilter : DmxFilter := ⟨.replicate _ 0x42, .replicate _ 0, .replicate _ 0xff⟩

theorem openFilter_matches (s : List UInt8) : openFilter.Matches s := by
  have hnone : ∀ i b mode, ¬openFilter.Uses i b mode := by
    intro i b mode h
    have hmask := h.masked
    rw [toList_getD _ h.byte, show openFilter.mask = .replicate _ 0 from rfl,
      Vector.getElem_replicate] at hmask
    exact ne_zero_iff_bitAt.mpr ⟨b, hmask⟩ rfl
  exact ⟨fun i b h => absurd h (hnone i b false), fun ⟨i, b, h⟩ => absurd h (hnone i b true)⟩

theorem section_matches_open :
    (swfilterSectionfilter passAll { idleFeed with seclen := 20 }
      (secfilterOf ⟨.replicate _ 1, .replicate _ 0xff, .replicate _ 1⟩ openFilter)).1.delivered =
      [List.replicate 20 0] := by
  rw [(section_matches passAll { idleFeed with seclen := 20 } _ openFilter (by decide)).1
    (openFilter_matches _)]
  rfl

end Demux

import NeumoDrivers.Stid135.PlsSearch
import Mathlib.Data.List.Nodup

/-! Searching for the PLS code with the other driver (`pls_search_range`, `pls_search_list` of
    `stv091x_drv.c`).

    It unpacks the words as `stid135-fe.c` does, but steps a range by 0xff: the low byte of the word, which
    is the dwell time, is counted down, and when it is used up the code is tried again that was tried
    before. So both drivers try the same codes of short ranges only. -/

namespace Stv091x
open Loop Stid135

/-- What a search finds after it has dwelt on a word: whether the packet delineator has locked, whether the
    search is to stop, and the stream that is received. -/
structure Signal where
  lock : Bool
  stop : Bool
  matstr0 : UInt8

/-- What a search leaves: what it tried, the stream it has selected, and its answer. -/
structure Search where
  tries : List PlsTry
  streamId : Option UInt32
  locked : Bool

/-- The stream of a word: the id that is received and the PLS code. -/
def streamOf (s : Signal) (word : UInt32) : UInt32 := s.matstr0.toUInt32 ||| (word &&& ~~~0xff)

/-- What a search leaves that ends with a word: it only selects a stream if it is not to stop. -/
def endWith (s : Signal) (word : UInt32) (tries : List PlsTry) : Search :=
  if s.stop then ⟨tries, none, s.lock⟩ else ⟨tries, some (streamOf s word), true⟩

/-- `pls_search_list` from its `n`-th entry on. -/
def plsSearchList (signals : ℕ → Signal) : ℕ → List UInt32 → Search
  | _, [] => ⟨[], none, false⟩
  | n, word :: words =>
    let timeout := word.toUInt8
    let tried : PlsTry := ⟨plsMode word, plsCode word, if timeout ≠ 0 then timeout else 15⟩
    if (signals n).stop ∨ (signals n).lock then endWith (signals n) word [tried]
    else
      let rest := plsSearchList signals (n + 1) words
      { rest with tries := tried :: rest.tries }

def plsRangeBody (signals : ℕ → Signal) (last : UInt32) (timeout : UInt8) (s : PlsRange) :
    Next PlsRange Search :=
  if s.word < last then
    let tries := s.tries ++ [⟨plsMode s.word, plsCode s.word, timeout⟩]
    let signal := signals s.tries.length
    if signal.stop ∨ signal.lock then .exit (endWith signal s.word tries)
    else .again ⟨s.word + 0xff, tries⟩
  else .exit ⟨s.tries, none, false⟩

/-- The dwell time of a range. -/
def plsRangeTimeout (start : UInt32) : UInt8 :=
  let timeout := start.toUInt8
  if timeout = 0 then 15 else timeout

/-- `pls_search_range`, within `n` passes of its loop. -/
def plsSearchRange (signals : ℕ → Signal) (start last : UInt32) (n : ℕ) : Option Search :=
  run (plsRangeBody signals last (plsRangeTimeout start)) n ⟨start, []⟩

/-- `set_pls_mode_code`, in both drivers: the mode and the code that are written. -/
def setPlsModeCode (c : UInt32 × UInt32) : UInt32 × UInt32 :=
  let plsCode := if c.1 = 0 ∧ c.2 = 0 then 1 else c.2
  (c.1 &&& 0x03, plsCode &&& 0x3FFFF)

/-! ### What both should do -/

/-- The packed code of a word. -/
def packed (word : UInt32) : UInt32 × UInt32 := (plsMode word, plsCode word)

/-- The packed codes that are tried. -/
def codes (tries : List PlsTry) : List (UInt32 × UInt32) := tries.map fun t => (t.mode, t.code)

/-- Each packed code of the range is tried once. -/
structure EachOnce (start last : UInt32) (tries : List PlsTry) : Prop where
  nodup : (codes tries).Nodup
  all : ∀ word, start ≤ word → word < last → packed word ∈ codes tries

/-- Nothing locks, and nobody stops the search. -/
def quiet : ℕ → Signal := fun _ => ⟨false, false, 0⟩

def quiet' : ℕ → PlsSignal := fun _ => ⟨false, false⟩

/-- Both range searches end, program the same sequence, and each packed code of the range once. -/
def SameRange (start last : UInt32) : Prop :=
  ∃ n search n' search', plsSearchRange quiet start last n = some search ∧
    Stid135.plsSearchRange quiet' start last n' = some search' ∧
    (codes search.tries).map setPlsModeCode = (codes search'.tries).map setPlsModeCode ∧
    EachOnce start last search.tries ∧ EachOnce start last search'.tries

/-- Both list searches program the same sequence, and dwell for as long as the low bytes say. -/
def SameList (fec : Bool) (words : List UInt32) : Prop :=
  (codes (plsSearchList quiet 0 words).tries).map setPlsModeCode =
    (codes (Stid135.plsSearchList quiet' fec 0 words).tries).map setPlsModeCode ∧
  (plsSearchList quiet 0 words).tries.map PlsTry.dwell = words.map (orDefault 15 ·.toUInt8) ∧
  (Stid135.plsSearchList quiet' fec 0 words).tries.map PlsTry.dwell = words.map (orDefault 100 ·.toUInt8)

/-! ### The list -/

variable {start last word v : UInt32} {words : List UInt32} {tries : List PlsTry} {m n : ℕ} {timeout : UInt8}
variable {search : Search} {fec : Bool}

theorem plsSearchList_quiet : ∀ (n : ℕ) (words : List UInt32),
    (plsSearchList quiet n words).tries = words.map (unpack 15)
  | _, [] => rfl
  | n, word :: words => by
    rw [plsSearchList, if_neg (by simp [quiet])]
    dsimp only
    rw [plsSearchList_quiet (n + 1) words, List.map_cons, unpack, orDefault, ite_not]

theorem upTo_quiet {α : Type} : ∀ (n : ℕ) (l : List α), upTo quiet' n l = l
  | _, [] => rfl
  | n, a :: l => by rw [upTo, if_neg (by simp [quiet', PlsSignal.ends]), upTo_quiet (n + 1) l]

theorem sameList_iff : SameList fec words ↔ ∀ word ∈ words, DwellRead word := by
  rw [SameList, plsSearchList_quiet, plsSearchList_tries, upTo_quiet]
  have hcodes (default : UInt8) : codes (words.map (unpack default)) = words.map packed := by
    rw [codes, List.map_map]
    rfl
  have hcodes' : codes (words.map listUnpack) = words.map packed := by
    rw [codes, List.map_map]
    rfl
  have hdwell : (words.map (unpack 15)).map PlsTry.dwell = words.map (orDefault 15 ·.toUInt8) := by
    rw [List.map_map]
    rfl
  have hdwell' : (words.map listUnpack).map PlsTry.dwell =
      words.map fun word : UInt32 => orDefault 100 (word >>> 8).toUInt8 := by
    rw [List.map_map]
    rfl
  rw [hcodes, hcodes', hdwell, hdwell']
  constructor
  · rintro ⟨-, -, h⟩ word hword
    exact (List.map_inj_left.mp h word hword).symm
  · intro h
    exact ⟨rfl, rfl, List.map_inj_left.mpr fun word hword => (h word hword).symm⟩

/-! ### Codes as numbers -/

theorem plsMode_toNat (word : UInt32) : (plsMode word).toNat = word.toNat / 2 ^ 26 % 4 := by
  rw [plsMode, UInt32.toNat_and, UInt32.toNat_shiftRight]
  change word.toNat >>> 26 &&& 2 ^ 2 - 1 = _
  rw [Nat.and_two_pow_sub_one_eq_mod, Nat.shiftRight_eq_div_pow]

theorem plsCode_toNat (word : UInt32) : (plsCode word).toNat = word.toNat / 2 ^ 8 % 2 ^ 18 := by
  rw [plsCode, UInt32.toNat_and, UInt32.toNat_shiftRight]
  change word.toNat >>> 8 &&& 2 ^ 18 - 1 = _
  rw [Nat.and_two_pow_sub_one_eq_mod, Nat.shiftRight_eq_div_pow]

theorem packed_eq_iff : packed v = packed word ↔ v.toNat / 2 ^ 8 % 2 ^ 20 = word.toNat / 2 ^ 8 % 2 ^ 20 := by
  rw [packed, packed, Prod.mk.injEq, ← UInt32.toNat_inj, ← UInt32.toNat_inj, plsMode_toNat, plsMode_toNat,
    plsCode_toNat, plsCode_toNat]
  omega

/-! ### The range -/

/-- The words `word`, `word + 0xff` and so on: `m` of them. -/
def stepsFrom (word : UInt32) (m : ℕ) : List UInt32 := (List.range' word.toNat m 0xff).map UInt32.ofNat

theorem stepsFrom_succ (hfits : word.toNat + 0xff < 2 ^ 32) :
    stepsFrom word (m + 1) = word :: stepsFrom (word + 0xff) m := by
  have hnext : (word + 0xff).toNat = word.toNat + 0xff := by
    rw [UInt32.toNat_add]
    exact Nat.mod_eq_of_lt hfits
  rw [stepsFrom, stepsFrom, List.range'_succ, List.map_cons, UInt32.ofNat_toNat, hnext]

theorem codes_try (tries : List PlsTry) (word : UInt32) (timeout : UInt8) :
    codes (tries ++ [⟨plsMode word, plsCode word, timeout⟩]) = codes tries ++ [packed word] :=
  List.map_append

theorem plsRangeBody_try (hlt : word < last) : plsRangeBody quiet last timeout ⟨word, tries⟩ =
    .again ⟨word + 0xff, tries ++ [⟨plsMode word, plsCode word, timeout⟩]⟩ := by
  rw [plsRangeBody, if_pos hlt]
  exact if_neg (by simp [quiet])

theorem plsRangeBody_past (hge : ¬ word < last) :
    plsRangeBody quiet last timeout ⟨word, tries⟩ = .exit ⟨tries, none, false⟩ :=
  if_neg hge

theorem next_toNat (hfits : word.toNat + 0xff < 2 ^ 32) : (word + 0xff).toNat = word.toNat + 0xff := by
  rw [UInt32.toNat_add]
  exact Nat.mod_eq_of_lt hfits

theorem range_keeps (h : Ends (plsRangeBody quiet last timeout) ⟨word, tries⟩ search) :
    ∃ rest, codes search.tries = codes tries ++ rest := by
  obtain ⟨n, hn⟩ := h
  induction n generalizing word tries with
  | zero => cases hn
  | succ n ih =>
    by_cases hlt : word < last
    · rw [run_again (plsRangeBody_try hlt)] at hn
      obtain ⟨rest, hrest⟩ := ih hn
      rw [codes_try, List.append_assoc] at hrest
      exact ⟨_, hrest⟩
    · rw [run_exit (plsRangeBody_past hlt)] at hn
      cases hn
      exact ⟨[], (List.append_nil _).symm⟩

/-- The words below the end are tried one after the other. -/
theorem range_begins (hbelow : ∀ j < m, word.toNat + 0xff * j < last.toNat)
    (h : Ends (plsRangeBody quiet last timeout) ⟨word, tries⟩ search) :
    ∃ rest, codes search.tries = codes tries ++ (stepsFrom word m).map packed ++ rest := by
  induction m generalizing word tries with
  | zero =>
    obtain ⟨rest, hrest⟩ := range_keeps h
    exact ⟨rest, by rw [hrest]; simp [stepsFrom]⟩
  | succ m ih =>
    have hnext := (ends_again_iff (plsRangeBody_try (hbelow 0 (Nat.succ_pos m)))).mp h
    by_cases hm : m = 0
    · subst hm
      obtain ⟨rest, hrest⟩ := range_keeps hnext
      refine ⟨rest, ?_⟩
      rw [hrest, codes_try, stepsFrom, List.range'_one, List.map_singleton, UInt32.ofNat_toNat,
        List.map_singleton]
    · have hfits : word.toNat + 0xff < 2 ^ 32 := by
        have := hbelow 1 (by omega)
        have := last.toNat_lt
        omega
      obtain ⟨rest, hrest⟩ := ih (fun j hj => by
        have := hbelow (j + 1) (by omega)
        rw [next_toNat hfits]
        omega) hnext
      refine ⟨rest, ?_⟩
      rw [hrest, codes_try, stepsFrom_succ hfits, List.map_cons, List.append_assoc (codes tries),
        List.singleton_append]

/-- A search whose word gets past the end has tried those. -/
theorem range_ends (hbelow : ∀ j < m, word.toNat + 0xff * j < last.toNat)
    (hend : last.toNat ≤ word.toNat + 0xff * m) (hfits : word.toNat + 0xff * m < 2 ^ 32) :
    ∃ search, Ends (plsRangeBody quiet last timeout) ⟨word, tries⟩ search ∧
      codes search.tries = codes tries ++ (stepsFrom word m).map packed := by
  induction m generalizing word tries with
  | zero =>
    have hge : ¬ word < last := fun hlt => Nat.not_lt.mpr hend hlt
    exact ⟨_, .exit (plsRangeBody_past hge), by simp [stepsFrom]⟩
  | succ m ih =>
    have hle : word.toNat + 0xff ≤ word.toNat + 0xff * (m + 1) := by omega
    have hfits' : word.toNat + 0xff < 2 ^ 32 := Nat.lt_of_le_of_lt hle hfits
    have hnext := next_toNat hfits'
    obtain ⟨search, hsearch, hcodes⟩ := @ih (word + 0xff) (tries ++ [⟨plsMode word, plsCode word, timeout⟩])
      (fun j hj => by
        have := hbelow (j + 1) (by omega)
        omega) (by omega) (by omega)
    refine ⟨search, .again (plsRangeBody_try (hbelow 0 (Nat.succ_pos m))) hsearch, ?_⟩
    rw [hcodes, codes_try, stepsFrom_succ hfits', List.map_cons, List.append_assoc, List.singleton_append]

/-! ### The range of the other driver -/

theorem codes_unpack (default : UInt8) (words : List UInt32) :
    codes (words.map (unpack default)) = words.map packed := by
  rw [codes, List.map_map]
  rfl

/-- The search of the other driver only ends if its word does not wrap, and has tried all the words then. -/
theorem other_codes {n' : ℕ} {search' : PlsSearch} (hlt : start < last)
    (h : Stid135.plsSearchRange quiet' start last n' = some search') :
    last.toNat ≤ 2 ^ 32 - 0x100 + start.toNat % 0x100 ∧
      codes search'.tries = (rangeWords start last).map packed := by
  have hrun : run (Stid135.plsRangeBody quiet' last (Stid135.plsRangeTimeout start)) n' ⟨start, []⟩ =
      some search' := by
    rwa [Stid135.plsSearchRange, if_neg, if_neg] at h
    · exact UInt32.not_le.mpr hlt
    · rintro rfl
      exact absurd hlt UInt32.not_lt_zero
  have hnone (j : ℕ) : ¬ (quiet' j).ends = true := Bool.false_ne_true
  have hfits : RangeFits quiet' start last := by
    by_contra hnot
    have hhigh : ¬ last.toNat ≤ 2 ^ 32 - 0x100 + start.toNat % 0x100 := fun hle => hnot (.inl hle)
    have hmore := range_runs_on (m := search'.tries.length) (below_high (Nat.not_le.mp hhigh))
      (fun j _ => hnone _) ⟨n', hrun⟩
    rw [List.length_nil] at hmore
    omega
  refine ⟨hfits.resolve_right (by rintro ⟨j, _, hends⟩; exact hnone j hends), ?_⟩
  obtain ⟨k, other, hother, htries⟩ := rangeCovered_iff.mpr hfits
  rw [Stid135.plsSearchRange, if_neg, if_neg] at hother
  · rw [Ends.unique ⟨n', hrun⟩ ⟨k, hother⟩, htries, upTo_quiet, codes_unpack]
  · exact UInt32.not_le.mpr hlt
  · rintro rfl
    exact absurd hlt UInt32.not_lt_zero

/-- The range is short enough: its low byte lasts for all its codes, it ends with a whole code, and the
    smaller steps do not get to the end later. -/
structure ShortRange (start last : UInt32) : Prop where
  lasts : rangeLength start last ≤ start.toNat % 0x100 + 1
  whole : last.toNat ≤ 0x100 * (start.toNat / 0x100 + rangeLength start last)
  steps : last.toNat ≤ start.toNat + 0xff * rangeLength start last
  fits : last.toNat ≤ 2 ^ 32 - 0x100 + start.toNat % 0x100

theorem fits_of_block {w : UInt32} (hsame : v.toNat / 0x100 = w.toNat / 0x100)
    (hw : w.toNat + 0x100 < 2 ^ 32) : v.toNat + 0xff < 2 ^ 32 := by
  omega

/-- While the low byte lasts, the smaller steps come to the same codes. -/
theorem steps_packed {w : UInt32} (hsame : v.toNat / 0x100 = w.toNat / 0x100)
    (hlow : m ≤ v.toNat % 0x100 + 1) (hfits : w.toNat + 0x100 * m < 2 ^ 32) :
    (stepsFrom v m).map packed = (wordsFrom w m).map packed := by
  induction m generalizing v w with
  | zero => rfl
  | succ m ih =>
    have hle : w.toNat + 0x100 ≤ w.toNat + 0x100 * (m + 1) := by omega
    have hw : w.toNat + 0x100 < 2 ^ 32 := Nat.lt_of_le_of_lt hle hfits
    have hv := fits_of_block hsame hw
    have hnext : (w + 0x100).toNat = w.toNat + 0x100 := by
      rw [UInt32.toNat_add]
      exact Nat.mod_eq_of_lt hw
    have hpacked : packed v = packed w := packed_eq_iff.mpr (by omega)
    rw [stepsFrom_succ hv, wordsFrom_succ hw, List.map_cons, List.map_cons, hpacked]
    by_cases hm : m = 0
    · rw [hm]
      rfl
    · rw [@ih (v + 0xff) (w + 0x100) (by rw [next_toNat hv, hnext]; omega)
        (by rw [next_toNat hv]; omega) ?_]
      rw [hnext]
      refine Nat.lt_of_le_of_lt (Nat.le_of_eq ?_) hfits
      rw [Nat.mul_succ, Nat.add_assoc, Nat.add_comm 0x100]

theorem mem_wordsFrom {N : ℕ} :
    v ∈ wordsFrom start N ↔ ∃ k < N, v = UInt32.ofNat (start.toNat + 0x100 * k) := by
  rw [wordsFrom, List.mem_map]
  constructor
  · rintro ⟨x, hx, rfl⟩
    obtain ⟨k, hk, rfl⟩ := List.mem_range'.mp hx
    exact ⟨k, hk, rfl⟩
  · rintro ⟨k, hk, rfl⟩
    exact ⟨_, List.mem_range'.mpr ⟨k, hk, rfl⟩, rfl⟩

/-- How long a range is, in words. -/
theorem rangeLength_bounds (hlt : start < last) :
    start.toNat + 0x100 * (rangeLength start last - 1) < last.toNat ∧
      last.toNat ≤ start.toNat + 0x100 * rangeLength start last ∧ 0 < rangeLength start last := by
  have hnat : start.toNat < last.toNat := hlt
  rw [rangeLength]
  omega

theorem toNat_word {k : ℕ} (hk : start.toNat + 0x100 * k < 2 ^ 32) :
    (UInt32.ofNat (start.toNat + 0x100 * k)).toNat = start.toNat + 0x100 * k :=
  UInt32.toNat_ofNat_of_lt' hk

/-- In a short range each packed code is tried once. -/
theorem ShortRange.eachOnce (h : ShortRange start last) (hlt : start < last) {tries : List PlsTry}
    (hcodes : codes tries = (rangeWords start last).map packed) : EachOnce start last tries := by
  obtain ⟨hlow, hhigh, hpos⟩ := rangeLength_bounds hlt
  have hlast := last.toNat_lt
  have hbyte : start.toNat % 0x100 < 0x100 := Nat.mod_lt _ (by decide)
  have hlasts := h.lasts
  constructor
  · rw [hcodes, rangeWords, List.map_map]
    refine List.Nodup.map_on ?_ (List.nodup_range' 0x100)
    intro x hx y hy hsame
    obtain ⟨i, hi, rfl⟩ := List.mem_range'.mp hx
    obtain ⟨j, hj, rfl⟩ := List.mem_range'.mp hy
    have hblock := packed_eq_iff.mp hsame
    rw [toNat_word (by omega), toNat_word (by omega)] at hblock
    omega
  · intro word hstart hend
    have hstart' : start.toNat ≤ word.toNat := hstart
    have hend' : word.toNat < last.toNat := hend
    have hwhole := h.whole
    rw [hcodes, List.mem_map]
    obtain ⟨k, hk⟩ : ∃ k, word.toNat / 0x100 = start.toNat / 0x100 + k :=
      ⟨word.toNat / 0x100 - start.toNat / 0x100, by omega⟩
    refine ⟨UInt32.ofNat (start.toNat + 0x100 * k), mem_wordsFrom.mpr ⟨k, by omega, rfl⟩, ?_⟩
    rw [packed_eq_iff, toNat_word (by omega)]
    omega

theorem ShortRange.of_same (hlt : start < last) (h : SameRange start last) : ShortRange start last := by
  obtain ⟨n, search, n', search', hsearch, hother, hsame, honce, honce'⟩ := h
  obtain ⟨hfits, hcodes⟩ := other_codes hlt hother
  obtain ⟨hlow, hhigh, hpos⟩ := rangeLength_bounds hlt
  obtain ⟨N, hN⟩ : ∃ N, N = rangeLength start last := ⟨_, rfl⟩
  have hlength : (codes search.tries).length = N := by
    have := congrArg List.length hsame
    rwa [List.length_map, List.length_map, hcodes, List.length_map, rangeWords, List.length_map,
      List.length_range', ← hN] at this
  have hbegins (m : ℕ) (hm : ∀ j < m, start.toNat + 0xff * j < last.toNat) :
      ∃ rest, codes search.tries = (stepsFrom start m).map packed ++ rest :=
    range_begins hm ⟨n, hsearch⟩
  have hbyte : start.toNat % 0x100 < 0x100 := Nat.mod_lt _ (by decide)
  have hlast := last.toNat_lt
  rw [← hN] at hlow hhigh hpos
  have hlasts : N ≤ start.toNat % 0x100 + 1 := by
    by_contra hlong
    obtain ⟨rest, hrest⟩ := hbegins N fun j hj => by omega
    have hnodup := honce.nodup
    rw [hrest, stepsFrom, List.map_map] at hnodup
    -- the code is the same once the low byte is used up
    have hinj := List.inj_on_of_nodup_map (List.Nodup.of_append_left hnodup)
    have hmem (j : ℕ) (hj : j < N) : start.toNat + 0xff * j ∈ List.range' start.toNat N 0xff :=
      List.mem_range'.mpr ⟨j, hj, rfl⟩
    have heq := hinj (hmem (start.toNat % 0x100) (by omega)) (hmem (start.toNat % 0x100 + 1) (by omega)) (by
      have hvalue (j : ℕ) (hj : j < N) : (UInt32.ofNat (start.toNat + 0xff * j)).toNat =
          start.toNat + 0xff * j :=
        UInt32.toNat_ofNat_of_lt' (show start.toNat + 0xff * j < 2 ^ 32 by omega)
      change packed _ = packed _
      rw [packed_eq_iff, hvalue _ (by omega), hvalue _ (by omega)]
      omega)
    omega
  refine ⟨hN ▸ hlasts, ?_, ?_, hfits⟩
  · have hvalue : (last - 1).toNat = last.toNat - 1 := by
      rw [UInt32.toNat_sub_of_le _ _ (show 1 ≤ last.toNat by omega)]
      rfl
    have hstart : start ≤ last - 1 := UInt32.le_iff_toNat_le.mpr (by omega)
    have hend : last - 1 < last := UInt32.lt_iff_toNat_lt.mpr (by omega)
    have hmem := honce'.all _ hstart hend
    rw [hcodes, List.mem_map] at hmem
    obtain ⟨word, hword, hpacked⟩ := hmem
    obtain ⟨k, hk, rfl⟩ := mem_wordsFrom.mp hword
    rw [← hN] at hk
    rw [packed_eq_iff, toNat_word (by omega), hvalue] at hpacked
    omega
  · by_contra hsteps
    rw [← hN] at hsteps
    obtain ⟨rest, hrest⟩ := hbegins (N + 1) fun j hj => by omega
    have := congrArg List.length hrest
    rw [hlength, List.length_append, List.length_map, stepsFrom, List.length_map, List.length_range'] at this
    omega

theorem sameRange_iff (hlt : start < last) : SameRange start last ↔ ShortRange start last := by
  refine ⟨.of_same hlt, fun h => ?_⟩
  obtain ⟨hlow, hhigh, hpos⟩ := rangeLength_bounds hlt
  have hpast : start.toNat + 0x100 * rangeLength start last < 2 ^ 32 := by
    have := h.whole
    have := h.fits
    omega
  obtain ⟨search, ⟨n, hn⟩, hcodes⟩ := @range_ends last start [] (rangeLength start last)
    (plsRangeTimeout start) (fun j hj => by omega) h.steps (by omega)
  have hfits : RangeFits quiet' start last := .inl h.fits
  obtain ⟨n', search', hother, htries⟩ := rangeCovered_iff.mpr hfits
  have hcodes' := (other_codes hlt hother).2
  have hsame : codes search.tries = codes search'.tries := by
    rw [hcodes, hcodes', steps_packed rfl h.lasts hpast]
    rfl
  exact ⟨n, search, n', search', hn, hother, by rw [hsame], h.eachOnce hlt (hsame.trans hcodes'),
    h.eachOnce hlt hcodes'⟩

/-! ### Both -/

/-- Both drivers search the same codes of a range, each once, and read the dwell times of a list alike, if
    and only if the range is short, and the low byte of each code in the list gives the dwell time of the
    word. -/
theorem pls_search_same_iff (fec : Bool) (words : List UInt32) (hlt : start < last) :
    SameRange start last ∧ SameList fec words ↔ ShortRange start last ∧ ∀ word ∈ words, DwellRead word :=
  and_congr (sameRange_iff hlt) sameList_iff

theorem pls_search_same_two : SameRange 0x105 0x206 ∧ SameList false [0x505] :=
  (pls_search_same_iff false [0x505] (by decide)).mpr
    ⟨⟨by decide, by decide, by decide, by decide⟩, by
      intro word hword
      rw [List.mem_singleton.mp hword, DwellRead]
      decide⟩

/-- Of the codes 1 and 2 without a dwell time, this driver tries the first one twice. -/
theorem pls_search_differs : ¬ ∀ (start last : UInt32) (fec : Bool) (words : List UInt32), start < last →
    SameRange start last ∧ SameList fec words := by
  intro h
  have hshort := ((sameRange_iff (show (0x100 : UInt32) < 0x300 by decide)).mp
    (h _ _ false [] (by decide)).1).lasts
  exact absurd hshort (by decide)

end Stv091x

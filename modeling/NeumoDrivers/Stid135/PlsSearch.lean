import Mathlib
import NeumoDrivers.Lib.Loop

/-! Searching for the PLS code of a transponder (`pls_search_range`, `pls_search_list`).

    A PLS word packs a mode (bits 26 and 27), a code (bits 8 to 25) and how long to dwell on it in
    milliseconds (the low byte). A search tries one word after the other until the demodulator locks or
    the search is to stop. The range counts its word up by 0x100 in 32 bits, so that it never gets past
    an end that is too high; and the list reads the dwell time from the word after it has shifted it. -/

namespace Stid135
open Loop

/-- What a search finds after it has dwelt on a word: whether the packet delineator has locked, and
    whether the search is to stop. -/
structure PlsSignal where
  lock : Bool
  stop : Bool

def PlsSignal.ends (s : PlsSignal) : Bool := s.lock || s.stop

/-- A word that is tried: the mode and the code that are set, and the time to sleep. -/
structure PlsTry where
  mode : UInt32
  code : UInt32
  dwell : UInt8
  deriving DecidableEq

/-- What a search leaves: the words it tried, the mode and code it locked on, and its answer. -/
structure PlsSearch where
  tries : List PlsTry
  found : Option (UInt32 × UInt32)
  locked : Bool

def plsMode (word : UInt32) : UInt32 := (word >>> 26) &&& 0x3

def plsCode (word : UInt32) : UInt32 := (word >>> 8) &&& 0x3FFFF

/-! ### The two searches -/

/-- `pls_search_list` from its `n`-th entry on; `fec` tells whether the FEC locks in the end. The local
    `pls_code` is shifted before the dwell time is taken from it. -/
def plsSearchList (signals : ℕ → PlsSignal) (fec : Bool) : ℕ → List UInt32 → PlsSearch
  | _, [] => ⟨[], none, false⟩
  | n, word :: words =>
    let mode := plsMode word
    let code := plsCode word
    let timeout := code.toUInt8
    let tried : PlsTry := ⟨mode, code, if timeout ≠ 0 then timeout else 100⟩
    if (signals n).lock then ⟨[tried], some (mode, code), fec⟩
    else if (signals n).stop then ⟨[tried], none, false⟩
    else
      let rest := plsSearchList signals fec (n + 1) words
      { rest with tries := tried :: rest.tries }

/-- The loop of `pls_search_range`. -/
structure PlsRange where
  word : UInt32
  tries : List PlsTry

def plsRangeBody (signals : ℕ → PlsSignal) (last : UInt32) (timeout : UInt8) (s : PlsRange) :
    Next PlsRange PlsSearch :=
  if s.word < last then
    let tries := s.tries ++ [⟨plsMode s.word, plsCode s.word, timeout⟩]
    let found := if (signals s.tries.length).lock then some (plsMode s.word, plsCode s.word) else none
    if (signals s.tries.length).ends then .exit ⟨tries, found, found.isSome⟩
    else .again ⟨s.word + 0x100, tries⟩
  else .exit ⟨s.tries, none, false⟩

/-- The dwell time of a range. -/
def plsRangeTimeout (start : UInt32) : UInt8 :=
  let timeout := start.toUInt8
  if timeout = 0 then 25 else timeout

/-- `pls_search_range`, within `n` passes of its loop. -/
def plsSearchRange (signals : ℕ → PlsSignal) (start last : UInt32) (n : ℕ) : Option PlsSearch :=
  if last = 0 then some ⟨[], none, false⟩
  else if last ≤ start then some ⟨[], none, false⟩
  else run (plsRangeBody signals last (plsRangeTimeout start)) n ⟨start, []⟩

/-! ### What a search should do -/

/-- What is tried of a list, from the `n`-th signal on. -/
def upTo {α : Type} (signals : ℕ → PlsSignal) : ℕ → List α → List α
  | _, [] => []
  | n, a :: l => if (signals n).ends then [a] else a :: upTo signals (n + 1) l

/-- A dwell time of 0 stands for the default. -/
def orDefault (default dwell : UInt8) : UInt8 := if dwell = 0 then default else dwell

/-- How a PLS word is packed. -/
def unpack (default : UInt8) (word : UInt32) : PlsTry :=
  ⟨plsMode word, plsCode word, orDefault default word.toUInt8⟩

/-- How many PLS words a range has. -/
def rangeLength (start last : UInt32) : ℕ := (last.toNat - start.toNat + 0xff) / 0x100

/-- The words `start`, `start + 0x100` and so on below `last`. -/
def rangeWords (start last : UInt32) : List UInt32 :=
  (List.range' start.toNat (rangeLength start last) 0x100).map UInt32.ofNat

/-- The range search ends, and has tried the words of the range once each and in order. -/
def RangeCovered (signals : ℕ → PlsSignal) (start last : UInt32) : Prop :=
  ∃ n search, plsSearchRange signals start last n = some search ∧
    search.tries = upTo signals 0 ((rangeWords start last).map (unpack 25))

/-- The list search has tried the entries of the list once each and in order. -/
def ListCovered (signals : ℕ → PlsSignal) (fec : Bool) (words : List UInt32) : Prop :=
  (plsSearchList signals fec 0 words).tries = upTo signals 0 (words.map (unpack 100))

/-! ### The list -/

variable {α β : Type} {signals : ℕ → PlsSignal} {n : ℕ} {start last word : UInt32}
variable {words : List UInt32} {fec : Bool} {tries : List PlsTry}

theorem upTo_map (f : α → β) : ∀ (n : ℕ) (l : List α),
    upTo signals n (l.map f) = (upTo signals n l).map f
  | _, [] => rfl
  | n, a :: l => by
    rw [List.map_cons, upTo, upTo]
    split
    · rfl
    · rw [List.map_cons, upTo_map f (n + 1) l]

/-- How the list reads a word: it dwells for as long as the low byte of the code says. -/
def listUnpack (word : UInt32) : PlsTry :=
  ⟨plsMode word, plsCode word, orDefault 100 (word >>> 8).toUInt8⟩

theorem plsCode_toUInt8 (word : UInt32) : (plsCode word).toUInt8 = (word >>> 8).toUInt8 := by
  rw [plsCode, UInt32.toUInt8_and]
  exact UInt8.and_neg_one

theorem listTry_eq (word : UInt32) :
    (⟨plsMode word, plsCode word, if (plsCode word).toUInt8 ≠ 0 then (plsCode word).toUInt8 else 100⟩ :
      PlsTry) = listUnpack word := by
  rw [listUnpack, orDefault, plsCode_toUInt8, ite_not]

theorem plsSearchList_tries : ∀ (n : ℕ) (words : List UInt32),
    (plsSearchList signals fec n words).tries = upTo signals n (words.map listUnpack)
  | _, [] => rfl
  | n, word :: words => by
    rw [plsSearchList, List.map_cons, upTo]
    dsimp only
    rw [listTry_eq]
    rcases hlock : (signals n).lock with _ | _
    · rcases hstop : (signals n).stop with _ | _
      · simp only [PlsSignal.ends, hlock, hstop, Bool.or_self, Bool.false_eq_true, if_false,
          plsSearchList_tries (n + 1) words]
      · simp only [PlsSignal.ends, hlock, hstop, Bool.or_true, Bool.false_eq_true, if_false, if_true]
    · simp only [PlsSignal.ends, hlock, Bool.true_or, if_true]

/-- The low byte of the code gives the dwell time that the low byte of the word does. -/
def DwellRead (word : UInt32) : Prop :=
  orDefault 100 word.toUInt8 = orDefault 100 (word >>> 8).toUInt8

theorem listCovered_iff :
    ListCovered signals fec words ↔ ∀ word ∈ upTo signals 0 words, DwellRead word := by
  rw [ListCovered, plsSearchList_tries, upTo_map, upTo_map, List.map_inj_left]
  refine forall₂_congr fun word _ => ?_
  rw [DwellRead, listUnpack, unpack, PlsTry.mk.injEq]
  constructor
  · rintro ⟨-, -, heq⟩
    exact heq.symm
  · intro heq
    exact ⟨rfl, rfl, heq.symm⟩

/-! ### The range -/

/-- The words of a loop that has `m` words to go. -/
def wordsFrom (word : UInt32) (m : ℕ) : List UInt32 :=
  (List.range' word.toNat m 0x100).map UInt32.ofNat

theorem wordsFrom_succ {m : ℕ} (hfits : word.toNat + 0x100 < 2 ^ 32) :
    wordsFrom word (m + 1) = word :: wordsFrom (word + 0x100) m := by
  have hnext : (word + 0x100).toNat = word.toNat + 0x100 := by
    rw [UInt32.toNat_add]
    exact Nat.mod_eq_of_lt hfits
  rw [wordsFrom, wordsFrom, List.range'_succ, List.map_cons, UInt32.ofNat_toNat, hnext]

theorem next_low (word : UInt32) : (word + 0x100).toUInt8 = word.toUInt8 := by
  rw [UInt32.toUInt8_add]
  exact UInt8.add_zero _

variable {timeout : UInt8} {search : PlsSearch} {m : ℕ}

theorem plsRangeBody_try (signals : ℕ → PlsSignal) (timeout : UInt8) (tries : List PlsTry)
    (hlt : word < last) :
    plsRangeBody signals last timeout ⟨word, tries⟩ =
      if (signals tries.length).ends then
        .exit ⟨tries ++ [⟨plsMode word, plsCode word, timeout⟩],
          if (signals tries.length).lock then some (plsMode word, plsCode word) else none,
          (signals tries.length).lock⟩
      else .again ⟨word + 0x100, tries ++ [⟨plsMode word, plsCode word, timeout⟩]⟩ := by
  rw [plsRangeBody, if_pos hlt]
  dsimp only
  cases (signals tries.length).lock <;> rfl

theorem plsRangeBody_past (hge : ¬word < last) :
    plsRangeBody signals last timeout ⟨word, tries⟩ = .exit ⟨tries, none, false⟩ :=
  if_neg hge

/-- A loop whose word gets past the end, or that is ended before, tries every word once. -/
theorem range_ends (hlow : orDefault 25 word.toUInt8 = timeout)
    (hend : last.toNat ≤ word.toNat + 0x100 * m)
    (hbelow : ∀ j < m, word.toNat + 0x100 * j < last.toNat)
    (hfits : word.toNat + 0x100 * m < 2 ^ 32 ∨ ∃ j < m, (signals (tries.length + j)).ends = true) :
    ∃ search, Ends (plsRangeBody signals last timeout) ⟨word, tries⟩ search ∧
      search.tries = tries ++ upTo signals tries.length ((wordsFrom word m).map (unpack 25)) := by
  induction m generalizing word tries with
  | zero =>
    have hge : ¬word < last := fun hlt => Nat.not_lt.mpr hend hlt
    exact ⟨_, .exit (plsRangeBody_past hge), by simp [wordsFrom, upTo]⟩
  | succ m ih =>
    have hlt : word < last := hbelow 0 (Nat.succ_pos m)
    have hpass := plsRangeBody_try signals timeout tries hlt
    have htry : unpack 25 word = ⟨plsMode word, plsCode word, timeout⟩ := by rw [unpack, hlow]
    by_cases hstop : (signals tries.length).ends = true
    · rw [if_pos hstop] at hpass
      refine ⟨_, .exit hpass, ?_⟩
      rw [wordsFrom, List.range'_succ, List.map_cons, List.map_cons, UInt32.ofNat_toNat, htry, upTo,
        if_pos hstop]
    · rw [if_neg hstop] at hpass
      have hlater : word.toNat + 0x100 * (m + 1) < 2 ^ 32 ∨
          ∃ j < m, (signals (tries.length + 1 + j)).ends = true := by
        rcases hfits with hfits | ⟨j, hj, hends⟩
        · exact Or.inl hfits
        · cases j with
          | zero => exact absurd hends hstop
          | succ j =>
            refine Or.inr ⟨j, by omega, ?_⟩
            rw [Nat.add_assoc, Nat.add_comm 1]
            exact hends
      have hnext : word.toNat + 0x100 < 2 ^ 32 := by
        have hbound := last.toNat_lt
        rcases hlater with hfits | ⟨j, hj, -⟩
        · have hle : word.toNat + 0x100 ≤ word.toNat + 0x100 * (m + 1) := by omega
          exact Nat.lt_of_le_of_lt hle hfits
        · have hword := hbelow 1 (by omega)
          omega
      have hword : (word + 0x100).toNat = word.toNat + 0x100 := by
        rw [UInt32.toNat_add]
        exact Nat.mod_eq_of_lt hnext
      obtain ⟨search, hsearch, htries⟩ := @ih (word + 0x100)
        (tries ++ [⟨plsMode word, plsCode word, timeout⟩]) (by rw [next_low, hlow])
        (by omega) (fun j hj => by have := hbelow (j + 1) (by omega); omega)
        (by rw [List.length_append, List.length_singleton]; exact hlater.imp_left fun h => by omega)
      refine ⟨search, .again hpass hsearch, ?_⟩
      rw [htries, wordsFrom_succ hnext, List.map_cons, upTo, if_neg hstop, htry, List.append_assoc,
        List.length_append, List.length_singleton, List.singleton_append]

theorem range_tries (h : Ends (plsRangeBody signals last timeout) ⟨word, tries⟩ search) :
    tries.length ≤ search.tries.length := by
  obtain ⟨s, hvisits, hexit⟩ := h.visits
  have hstep : ∀ s t : PlsRange, tries.length ≤ s.tries.length →
      plsRangeBody signals last timeout s = .again t → tries.length ≤ t.tries.length := by
    rintro ⟨word, tried⟩ t hle hbody
    by_cases hlt : word < last
    · rw [plsRangeBody_try _ _ _ hlt] at hbody
      split at hbody
      · cases hbody
      · cases hbody
        simpa using Nat.le_succ_of_le hle
    · rw [plsRangeBody_past hlt] at hbody
      cases hbody
  have hkept : tries.length ≤ s.tries.length :=
    @Visits.invariant _ _ _ _ _ (fun s => tries.length ≤ s.tries.length) (Nat.le_refl _) hstep hvisits
  obtain ⟨word, tried⟩ := s
  by_cases hlt : word < last
  · rw [plsRangeBody_try _ _ _ hlt] at hexit
    split at hexit
    · cases hexit
      simpa using Nat.le_succ_of_le hkept
    · cases hexit
  · rw [plsRangeBody_past hlt] at hexit
    cases hexit
    exact hkept

/-- A loop whose word never gets past the end goes on for as long as nothing ends it. -/
theorem range_runs_on (hall : ∀ w : UInt32, w.toUInt8 = word.toUInt8 → w < last)
    (hnone : ∀ j < m, ¬(signals (tries.length + j)).ends = true)
    (h : Ends (plsRangeBody signals last timeout) ⟨word, tries⟩ search) :
    tries.length + m < search.tries.length := by
  have hpass := plsRangeBody_try signals timeout tries (hall word rfl)
  induction m generalizing word tries with
  | zero =>
    split at hpass
    · rw [← (Ends.exit hpass).unique h]
      simp
    · have hkept := range_tries ((ends_again_iff hpass).mp h)
      rw [List.length_append, List.length_singleton] at hkept
      exact hkept
  | succ m ih =>
    rw [if_neg (by simpa using hnone 0 (Nat.succ_pos m))] at hpass
    have hlater := @ih (word + 0x100) (tries ++ [⟨plsMode word, plsCode word, timeout⟩])
      (fun w hw => hall w (hw.trans (next_low word)))
      (fun j hj => by
        rw [List.length_append, List.length_singleton, Nat.add_assoc, Nat.add_comm 1]
        exact hnone (j + 1) (by omega))
      ((ends_again_iff hpass).mp h) (plsRangeBody_try _ _ _ (hall _ (next_low word)))
    rw [List.length_append, List.length_singleton] at hlater
    omega

/-- The end of the range is not so high that the word wraps, or the search is ended before. -/
def RangeFits (signals : ℕ → PlsSignal) (start last : UInt32) : Prop :=
  last.toNat ≤ 2 ^ 32 - 0x100 + start.toNat % 0x100 ∨
    ∃ j < rangeLength start last, (signals j).ends = true

theorem length_upTo_le : ∀ (n : ℕ) (l : List α), (upTo signals n l).length ≤ l.length
  | _, [] => Nat.le_refl _
  | n, a :: l => by
    rw [upTo]
    split
    · simp
    · rw [List.length_cons, List.length_cons]
      exact Nat.succ_le_succ (length_upTo_le (n + 1) l)

theorem below_high (hhigh : 2 ^ 32 - 0x100 + start.toNat % 0x100 < last.toNat) (w : UInt32)
    (hw : w.toUInt8 = start.toUInt8) : w < last := by
  have hmod : w.toNat % 2 ^ 8 = start.toNat % 2 ^ 8 := by
    rw [← UInt32.toNat_toUInt8, ← UInt32.toNat_toUInt8, hw]
  have hbound := w.toNat_lt
  have hnat : w.toNat < last.toNat := by omega
  exact hnat

theorem not_rangeCovered (h : ¬RangeFits signals start last) : ¬RangeCovered signals start last := by
  rw [RangeFits, not_or, Nat.not_le, not_exists] at h
  obtain ⟨hhigh, hnone⟩ := h
  rintro ⟨n, search, hsearch, htries⟩
  have hstart := start.toNat_lt
  have hlast : ¬last = 0 := by
    rintro rfl
    rw [UInt32.toNat_zero] at hhigh
    omega
  have hlt : ¬last ≤ start := by
    intro hle
    have hnat : last.toNat ≤ start.toNat := hle
    omega
  rw [plsSearchRange, if_neg hlast, if_neg hlt] at hsearch
  have hmore := range_runs_on (m := rangeLength start last) (below_high hhigh)
    (fun j hj hends => hnone j ⟨hj, by simpa using hends⟩) ⟨n, hsearch⟩
  have hfew := @length_upTo_le _ signals 0 ((rangeWords start last).map (unpack 25))
  rw [List.length_map, rangeWords, List.length_map, List.length_range'] at hfew
  rw [htries, List.length_nil] at hmore
  rw [rangeWords] at hmore
  omega

theorem rangeCovered_iff : RangeCovered signals start last ↔ RangeFits signals start last := by
  refine ⟨fun h => by_contra fun hnot => not_rangeCovered hnot h, fun h => ?_⟩
  by_cases hempty : last = 0 ∨ last ≤ start
  · have hnone : rangeLength start last = 0 := by
      have hle : last.toNat ≤ start.toNat := by
        rcases hempty with rfl | hle
        · exact Nat.zero_le _
        · exact hle
      rw [rangeLength]
      omega
    refine ⟨0, ⟨[], none, false⟩, ?_, by rw [rangeWords, hnone]; rfl⟩
    rw [plsSearchRange]
    rcases hempty with hzero | hle
    · rw [if_pos hzero]
    · rw [if_pos hle, ite_self]
  · rw [not_or] at hempty
    have hlt : start.toNat < last.toNat := Nat.not_le.mp hempty.2
    have hfits : start.toNat + 0x100 * rangeLength start last < 2 ^ 32 ∨
        ∃ j < rangeLength start last, (signals (([] : List PlsTry).length + j)).ends = true := by
      rcases h with hle | ⟨j, hj, hends⟩
      · left
        rw [rangeLength]
        omega
      · exact Or.inr ⟨j, hj, by simpa using hends⟩
    have hend : last.toNat ≤ start.toNat + 0x100 * rangeLength start last := by
      rw [rangeLength]
      omega
    have hbelow : ∀ j < rangeLength start last, start.toNat + 0x100 * j < last.toNat := by
      intro j hj
      rw [rangeLength] at hj
      omega
    have hlow : orDefault 25 start.toUInt8 = plsRangeTimeout start := rfl
    obtain ⟨search, ⟨n, hn⟩, htries⟩ := range_ends hlow hend hbelow hfits
    refine ⟨n, search, ?_, htries⟩
    rw [plsSearchRange, if_neg hempty.1, if_neg hempty.2, hn]

/-! ### Both -/

/-- A range and a list are tried as they were asked for exactly when the end of the range is not too
    high or reached by an early end, and the low byte of each code tried in the list gives the dwell time
    of the word. -/
theorem pls_search_covers (signals signals' : ℕ → PlsSignal) (fec : Bool) (start last : UInt32)
    (words : List UInt32) :
    RangeCovered signals start last ∧ ListCovered signals' fec words ↔
      RangeFits signals start last ∧ ∀ word ∈ upTo signals' 0 words, DwellRead word :=
  and_congr rangeCovered_iff listCovered_iff

/-- A range up to the last word is searched for ever; and a word of code 1 with a dwell time of 5 is
    dwelt on for 1 millisecond. -/
theorem pls_search_uncovered :
    (¬∀ (signals : ℕ → PlsSignal) (start last : UInt32), RangeCovered signals start last) ∧
      ¬∀ (signals : ℕ → PlsSignal) (fec : Bool) (words : List UInt32),
        ListCovered signals fec words := by
  refine ⟨fun h => ?_, fun h => ?_⟩
  · have hwraps : ¬RangeFits (fun _ => ⟨false, false⟩) 0 0xffffffff := by
      rintro (hle | ⟨j, -, hends⟩)
      · exact absurd hle (by decide)
      · exact Bool.false_ne_true hends
    exact not_rangeCovered hwraps (h _ _ _)
  · have hlist := h (fun _ => ⟨false, false⟩) false [0x105]
    rw [ListCovered] at hlist
    exact absurd hlist (by decide)

end Stid135

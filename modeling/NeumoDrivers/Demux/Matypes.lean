import Mathlib
import NeumoDrivers.Demux.Embedded
import NeumoDrivers.Lib.Bitset

/-! Statistics of the MATYPEs of an embedded stream (`neumo-dvb-demux.c`).

    `embedded_stream_set_matype` notes each id with a bit in words of 32, keeps one MATYPE of it, and
    sets a second bit for an id that has been seen with both kinds of roll-off: those whose lower two
    bits are 3, and the others. What it keeps after any number of calls depends on the MATYPEs of
    that id alone, in their order. -/

namespace Demux
open Function

variable {β : Type} {emb : EmbeddedStream β} {calls : List (UInt8 × UInt8)}
variable {ms : List UInt8} {id m : UInt8}

/-- What happens to the statistics: a MATYPE is noted, or decoding is restarted. -/
inductive MatypeEvent where
  | setMatype (streamId matype : UInt8)
  | reset

def MatypeEvent.next [Cell β] (emb : EmbeddedStream β) : MatypeEvent → EmbeddedStream β
  | .setMatype streamId matype => embeddedStreamSetMatype emb streamId.toNat matype
  | .reset => embeddedStreamReset emb false

def MatypeEvent.call : MatypeEvent → Option (UInt8 × UInt8)
  | .setMatype streamId matype => some (streamId, matype)
  | .reset => none

/-! ### What is expected -/

/-- The roll-off bits are not 3. -/
def lowRolloff (matype : UInt8) : Bool := matype &&& 3 ≠ 3

/-- The MATYPEs of one id. -/
def matypesOf (id : UInt8) (calls : List (UInt8 × UInt8)) : List UInt8 :=
  (calls.filter fun call => call.1 = id).map Prod.snd

/-- The first MATYPE whose roll-off bits are not 3, if there is one, otherwise the first one. -/
def recorded (ms : List UInt8) : Option UInt8 := (ms.find? lowRolloff).or ms.head?

structure Exact (emb : EmbeddedStream β) (calls : List (UInt8 × UInt8)) : Prop where
  seen : ∀ id, bitOf emb.isiPlpBitset id.toNat = true ↔ id ∈ calls.map Prod.fst
  count : emb.numStreams = (calls.map Prod.fst).toFinset.card
  matype : ∀ id m, recorded (matypesOf id calls) = some m → emb.matypes id.toNat = m
  high : ∀ id, bitOf emb.highRolloffMode id.toNat = true ↔
    (∃ m ∈ matypesOf id calls, lowRolloff m = true) ∧ ∃ m ∈ matypesOf id calls, lowRolloff m = false

/-! ### Bits -/

@[simp] theorem bitOf_setBit (bits : ℕ → BitVec 32) (i j : ℕ) :
    bitOf (setBit bits i) j = (bitOf bits j || decide (j = i)) :=
  Bitset.mem_insert bits i j

theorem toNat_eq {i j : UInt8} : i.toNat = j.toNat ↔ i = j := UInt8.toNat_inj

/-! ### One more call -/

theorem matypesOf_append (calls : List (UInt8 × UInt8)) (call : UInt8 × UInt8) :
    matypesOf id (calls ++ [call]) =
      matypesOf id calls ++ if call.1 = id then [call.2] else [] := by
  by_cases hid : call.1 = id
  · simp [matypesOf, hid]
  · simp [matypesOf, hid]

theorem mem_ids : id ∈ calls.map Prod.fst ↔ matypesOf id calls ≠ [] := by
  simp [matypesOf]

/-- The MATYPE that is kept changes once at most, to the first one with low roll-off bits. -/
theorem recorded_append (hms : ms ≠ []) : recorded (ms ++ [m]) =
    if lowRolloff m = true ∧ ∀ m ∈ ms, lowRolloff m = false then some m else recorded ms := by
  obtain ⟨first, rest, rfl⟩ := List.exists_cons_of_ne_nil hms
  cases hfind : (first :: rest).find? lowRolloff with
  | some low =>
    have hmem := List.mem_of_find?_eq_some hfind
    have hlow := List.find?_some hfind
    rw [if_neg fun h => Bool.false_ne_true ((h.2 low hmem).symm.trans hlow)]
    rw [recorded, recorded, List.find?_append, hfind]
    rfl
  | none =>
    have hnone : ∀ m ∈ first :: rest, lowRolloff m = false := by
      simpa using hfind
    rw [recorded, recorded, List.find?_append, hfind]
    by_cases hm : lowRolloff m = true
    · rw [if_pos ⟨hm, hnone⟩]
      simp [hm]
    · rw [if_neg fun h => hm h.1]
      simp [hm]

theorem lowRolloff_recorded (h : recorded ms = some m) :
    lowRolloff m = true ↔ ∃ m ∈ ms, lowRolloff m = true := by
  rw [recorded, Option.or_eq_some_iff] at h
  rcases h with hfind | ⟨hnone, hhead⟩
  · exact iff_of_true (List.find?_some hfind) ⟨m, List.mem_of_find?_eq_some hfind,
      List.find?_some hfind⟩
  · rw [List.find?_eq_none] at hnone
    refine iff_of_false (hnone m (List.mem_of_head? hhead)) ?_
    rintro ⟨m', hmem, hlow⟩
    exact hnone m' hmem hlow

theorem setMatype_seen {i : ℕ} (hseen : bitOf emb.isiPlpBitset i = true) :
    embeddedStreamSetMatype emb i m = { emb with
      highRolloffMode := if lowRolloff m = lowRolloff (emb.matypes i) then emb.highRolloffMode
        else setBit emb.highRolloffMode i
      matypes := if lowRolloff m = true ∧ lowRolloff (emb.matypes i) = false then
        update emb.matypes i m else emb.matypes } := by
  rw [embeddedStreamSetMatype, if_pos hseen]
  dsimp only
  by_cases hm : m &&& 3 = 3
  · by_cases hold : emb.matypes i &&& 3 = 3
    · simp [lowRolloff, hm, hold]
    · simp [lowRolloff, hm, hold]
  · by_cases hold : emb.matypes i &&& 3 = 3
    · simp [lowRolloff, hm, hold]
    · simp [lowRolloff, hm, hold]

theorem setMatype_new {i : ℕ} (hnew : bitOf emb.isiPlpBitset i = false) :
    embeddedStreamSetMatype emb i m = { emb with
      numStreams := emb.numStreams + 1
      matypes := update emb.matypes i m
      isiPlpBitset := setBit emb.isiPlpBitset i } := by
  rw [embeddedStreamSetMatype, if_neg (Bool.eq_false_iff.mp hnew)]

theorem matypesOf_other {call : UInt8 × UInt8} (hid : id ≠ call.1) :
    matypesOf id (calls ++ [call]) = matypesOf id calls := by
  rw [matypesOf_append, if_neg (Ne.symm hid), List.append_nil]

theorem matypesOf_self : matypesOf id (calls ++ [(id, m)]) = matypesOf id calls ++ [m] := by
  rw [matypesOf_append, if_pos rfl]

theorem exists_append {b : Bool} : (∃ m' ∈ ms ++ [m], lowRolloff m' = b) ↔
    (∃ m' ∈ ms, lowRolloff m' = b) ∨ lowRolloff m = b := by
  simp [or_and_right, exists_or]

theorem exists_kind (hms : ms ≠ []) :
    (∃ m ∈ ms, lowRolloff m = true) ∨ ∃ m ∈ ms, lowRolloff m = false := by
  obtain ⟨first, rest, rfl⟩ := List.exists_cons_of_ne_nil hms
  cases hlow : lowRolloff first with
  | true => exact .inl ⟨first, List.mem_cons_self, hlow⟩
  | false => exact .inr ⟨first, List.mem_cons_self, hlow⟩

theorem ids_append : ((calls ++ [(id, m)]).map Prod.fst).toFinset =
    insert id (calls.map Prod.fst).toFinset := by
  simp [Finset.union_comm]

/-- A call for an id that occurred: the second bit is set when the MATYPE differs in kind from the one
    that is kept. -/
theorem Exact.setSeen (h : Exact emb calls) (hseen : id ∈ calls.map Prod.fst) :
    Exact (embeddedStreamSetMatype emb id.toNat m) (calls ++ [(id, m)]) := by
  have hms := mem_ids.mp hseen
  obtain ⟨old, hold⟩ : ∃ old, recorded (matypesOf id calls) = some old := by
    obtain ⟨first, rest, hcons⟩ := List.exists_cons_of_ne_nil hms
    cases hfind : (first :: rest).find? lowRolloff with
    | some low => exact ⟨low, by rw [hcons, recorded, hfind]; rfl⟩
    | none => exact ⟨first, by rw [hcons, recorded, hfind]; rfl⟩
  have hkept := h.matype id old hold
  have hlow := lowRolloff_recorded hold
  have hsame : ∀ {j : UInt8}, j ≠ id → j.toNat ≠ id.toNat := fun hj heq => hj (toNat_eq.mp heq)
  rw [setMatype_seen ((h.seen id).mpr hseen), hkept]
  refine ⟨fun j => ?_, ?_, fun j m' hm' => ?_, fun j => ?_⟩
  · rw [List.map_append, List.mem_append, h.seen j]
    refine ⟨.inl, fun hj => hj.elim (fun hj => hj) fun hj => ?_⟩
    rw [List.map_singleton, List.mem_singleton] at hj
    exact hj ▸ hseen
  · rw [ids_append, Finset.insert_eq_of_mem (List.mem_toFinset.mpr hseen)]
    exact h.count
  · by_cases hj : j = id
    · subst hj
      rw [matypesOf_self, recorded_append hms, hold] at hm'
      have hchange : (lowRolloff m = true ∧ lowRolloff old = false) ↔
          lowRolloff m = true ∧ ∀ m ∈ matypesOf j calls, lowRolloff m = false := by
        rw [← Bool.not_eq_true, hlow]
        simp
      dsimp only
      by_cases hm : lowRolloff m = true ∧ lowRolloff old = false
      · rw [if_pos (hchange.mp hm)] at hm'
        rw [if_pos hm, update_self]
        exact Option.some.inj hm'
      · rw [if_neg fun hyes => hm (hchange.mpr hyes)] at hm'
        rw [if_neg hm, hkept]
        exact Option.some.inj hm'
    · rw [matypesOf_other hj] at hm'
      have hm'' := h.matype j m' hm'
      dsimp only
      split
      · rw [update_of_ne (hsame hj), hm'']
      · exact hm''
  · by_cases hj : j = id
    · subst hj
      have hhigh := h.high j
      have hkind := exists_kind hms
      rw [matypesOf_self, exists_append, exists_append]
      dsimp only
      by_cases hm : lowRolloff m = lowRolloff old
      · rw [if_pos hm, hhigh]
        constructor
        · exact fun ⟨hlows, hhighs⟩ => ⟨.inl hlows, .inl hhighs⟩
        · rintro ⟨hlows, hhighs⟩
          refine ⟨hlows.elim id fun hlowm => hlow.mp (hm ▸ hlowm), hhighs.elim id fun hhighm => ?_⟩
          refine hkind.resolve_left fun hlows => ?_
          rw [← hlow, ← hm, hhighm] at hlows
          cases hlows
      · rw [if_neg hm, bitOf_setBit, decide_eq_true rfl, Bool.or_true]
        refine iff_of_true rfl ?_
        cases hlowm : lowRolloff m with
        | true =>
          refine ⟨.inr rfl, .inl (hkind.resolve_left fun hlows => hm ?_)⟩
          rw [hlowm, hlow.mpr hlows]
        | false =>
          refine ⟨.inl (hlow.mp ?_), .inr rfl⟩
          rw [hlowm] at hm
          exact (Bool.eq_false_or_eq_true (lowRolloff old)).resolve_right (Ne.symm hm)
    · rw [matypesOf_other hj, ← h.high j]
      dsimp only
      split
      · rfl
      · rw [bitOf_setBit, decide_eq_false (hsame hj), Bool.or_false]

/-- A call for an id that has not occurred. -/
theorem Exact.setNew (h : Exact emb calls) (hnew : id ∉ calls.map Prod.fst) :
    Exact (embeddedStreamSetMatype emb id.toNat m) (calls ++ [(id, m)]) := by
  have hnone : matypesOf id calls = [] := by
    by_contra hms
    exact hnew (mem_ids.mpr hms)
  have hsame : ∀ {j : UInt8}, j ≠ id → j.toNat ≠ id.toNat := fun hj heq => hj (toNat_eq.mp heq)
  have hbit : bitOf emb.isiPlpBitset id.toNat = false :=
    Bool.eq_false_iff.mpr fun hseen => hnew ((h.seen id).mp hseen)
  rw [setMatype_new hbit]
  refine ⟨fun j => ?_, ?_, fun j m' hm' => ?_, fun j => ?_⟩
  · rw [bitOf_setBit, Bool.or_eq_true, h.seen j, decide_eq_true_eq, toNat_eq]
    simp
  · rw [ids_append, Finset.card_insert_of_notMem fun hmem => hnew (List.mem_toFinset.mp hmem)]
    dsimp only
    rw [h.count]
    rfl
  · by_cases hj : j = id
    · subst hj
      rw [matypesOf_self, hnone] at hm'
      dsimp only
      rw [update_self]
      have hself : recorded [m] = some m := by
        cases hlow : lowRolloff m with
        | true => rw [recorded, List.find?_cons_of_pos hlow]; rfl
        | false => rw [recorded, List.find?_cons_of_neg (by simp [hlow])]; rfl
      rw [List.nil_append, hself] at hm'
      exact Option.some.inj hm'
    · rw [matypesOf_other hj] at hm'
      dsimp only
      rw [update_of_ne (hsame hj), h.matype j m' hm']
  · by_cases hj : j = id
    · subst hj
      dsimp only
      rw [matypesOf_self, h.high j, hnone, List.nil_append]
      simp
    · rw [matypesOf_other hj, ← h.high j]

theorem Exact.set (h : Exact emb calls) (id m : UInt8) :
    Exact (embeddedStreamSetMatype emb id.toNat m) (calls ++ [(id, m)]) := by
  by_cases hseen : id ∈ calls.map Prod.fst
  · exact h.setSeen hseen
  · exact h.setNew hseen

/-! ### Runs -/

section
variable [Cell β]

/-- What an embedded stream has noted after a full reset and calls in any order, with resets that are
    not full in between. -/
theorem matypes_exact (emb : EmbeddedStream β) (events : List MatypeEvent) :
    Exact (events.foldl MatypeEvent.next (embeddedStreamReset emb true))
      (events.filterMap MatypeEvent.call) := by
  induction events using List.reverseRecOn with
  | nil =>
    refine ⟨fun id => ?_, ?_, fun id m hm => ?_, fun id => ?_⟩
    · simp [bitOf, embeddedStreamReset]
    · simp [embeddedStreamReset]
    · simp [recorded, matypesOf] at hm
    · simp [bitOf, embeddedStreamReset, matypesOf]
  | append_singleton events event ih =>
    rw [List.foldl_append, List.filterMap_append]
    cases event with
    | setMatype streamId matype => exact ih.set streamId matype
    | reset =>
      obtain ⟨hseen, hcount, hmatype, hhigh⟩ := ih
      rw [List.filterMap_cons_none rfl, List.filterMap_nil, List.append_nil]
      exact ⟨hseen, hcount, hmatype, hhigh⟩

/-- The MATYPE with roll-off bits 3 is replaced by the first one without. -/
example : (List.foldl MatypeEvent.next
    (embeddedStreamReset (embeddedStreamInit 270 fun _ => false) true : EmbeddedStream UInt8)
    [.setMatype 5 0xF3, .setMatype 5 0xF2, .reset, .setMatype 5 0xF1]).matypes 5 = 0xF2 := by
  decide

end

end Demux

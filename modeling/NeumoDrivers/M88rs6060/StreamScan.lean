import NeumoDrivers.Lib.Bitset
import Mathlib.Data.List.Range
import Mathlib.Order.Bounds.Defs

/-! The streams of a DVB-S2 signal (`m88rs6060_isi_scan` and `m88rs6060_select_stream` of
    `m88rs6060_drv.c`).

    The chip has the ids of the streams in slots that are asked for one by one; `isi_scan` goes over them
    in rounds until fifty rounds show nothing new, and `select_stream` lets one stream through. Both use a
    variable that was never set; what it holds is an input. -/

namespace M88rs.Streams
open Bitset Function

/-- The fields of `m88rs6060_state` that streams use, and the stream filter, register 0xF5. -/
structure State where
  isiBitset : Words
  isMis : Bool
  activeStreamId : ℤ
  filter : UInt8

/-- What a round meets: register 0xF1, what the chip reports for the slot that is asked for, what the
    variable `j` holds when slot `i` is due, and a stop. -/
structure Round where
  reg : UInt8
  slot : ℕ → UInt8 → UInt8
  unset : ℕ → UInt8
  stop : Bool

/-- The number of streams detected. -/
def Round.count (r : Round) : ℕ := (r.reg &&& 0x1f).toNat

/-- The bitset and `newcount`; with them the slots that were asked for in the round, and all ids read. -/
structure Scan where
  isiBitset : Words
  newcount : ℕ
  asked : List UInt8
  ids : List UInt8

/-- `j` and `mask` of an id, as they are used in the source. -/
def word (id : ℕ) : ℕ := id / 32

def mask (id : ℕ) : BitVec 32 := 1#32 <<< (id % 32)

/-- The loop over the slots, for one of them. -/
def readSlot (r : Round) (s : Scan) (i : ℕ) : Scan :=
  let streamId := r.slot i (r.unset i)
  let j := word streamId.toNat
  { isiBitset := update s.isiBitset j (s.isiBitset j ||| mask streamId.toNat)
    newcount := if s.isiBitset j &&& mask streamId.toNat = 0 then s.newcount + 1 else s.newcount
    asked := s.asked ++ [r.unset i]
    ids := s.ids ++ [streamId] }

/-- A round. -/
def readSlots (r : Round) (s : Scan) : Scan :=
  (List.range r.count).foldl (readSlot r) { s with newcount := 0, asked := [] }

/-- What was done in a scan: the slots asked for in each round, the ids read, and whether it was stopped
    before its end. -/
structure Log where
  asked : List (List UInt8)
  ids : List UInt8
  stopped : Bool

/-- The rounds from round `k` on; `n` is one more than `totcount`. -/
def scanRounds (rounds : ℕ → Round) : ℕ → ℕ → ℤ → Words → Log → Words × Log
  | 0, _, _, b, log => (b, log)
  | n + 1, k, count, b, log =>
    if 0 < count then
      let s := readSlots (rounds k) ⟨b, 0, [], log.ids⟩
      let log := { log with asked := log.asked ++ [s.asked], ids := s.ids }
      if (rounds k).stop then (s.isiBitset, { log with stopped := true })
      else scanRounds rounds n (k + 1) (if 0 < s.newcount then 50 else count - 1) s.isiBitset log
    else (b, log)

/-- `m88rs6060_isi_scan` -/
def isiScan (rounds : ℕ → Round) (st : State) : State × Log :=
  let (b, log) := scanRounds rounds 501 0 1 st.isiBitset ⟨[], [], false⟩
  let b := if log.stopped then b else if b 0 &&& 1 ≠ 0 then update b 0 (b 0 &&& ~~~1) else b
  ({ st with isiBitset := b }, log)

/-- `m88rs6060_select_default_stream_id` -/
def selectDefaultStreamId (st : State) : ℤ :=
  ((List.range 256).find? fun id => st.isiBitset (word id) &&& mask id ≠ 0).elim (-1) Int.ofNat

/-- `m88rs6060_select_stream`; `tsid` is the first cell of an array that is never written to. -/
def selectStream (tsid : UInt32) (streamId : UInt8) (st : State) : State :=
  if ¬ st.isMis then { st with activeStreamId := -1 }
  else if st.isiBitset (word streamId.toNat) &&& mask streamId.toNat ≠ 0 then
    { st with filter := streamId, activeStreamId := streamId.toNat }
  else
    let selected := selectDefaultStreamId st
    if 0 ≤ selected then { st with filter := tsid.toUInt8, activeStreamId := selected }
    -- `m88rs6060_clear_stream`
    else { st with activeStreamId := -1, filter := 0x00 }

/-- What tuning does when it has a DVB-S2 lock: the streams were cleared at its beginning. -/
def tuneStreams (rounds : ℕ → Round) (tsid : UInt32) (isMis : Bool) (streamId : UInt8) : State × Log :=
  let (st, log) := isiScan rounds ⟨fun _ => 0, isMis, -1, 0⟩
  (selectStream tsid streamId st, log)

/-! ### The bitset -/

theorem present_iff (b : Words) (id : ℕ) : b (word id) &&& mask id ≠ 0 ↔ mem b id = true := by
  rw [ne_eq, mask, and_mask_eq_zero_iff (Nat.mod_lt id (by decide)), Bool.not_eq_false]
  rfl

/-! ### A round -/

/-- The bitset holds the ids that were read. -/
def Holds (b : Words) (ids : List UInt8) : Prop := ∀ id : UInt8, mem b id.toNat = true ↔ id ∈ ids

theorem readSlot_holds {s : Scan} (r : Round) (i : ℕ) (h : Holds s.isiBitset s.ids) :
    Holds (readSlot r s i).isiBitset (readSlot r s i).ids := by
  intro id
  have hmem : mem (readSlot r s i).isiBitset id.toNat =
      (mem s.isiBitset id.toNat || decide (id.toNat = (r.slot i (r.unset i)).toNat)) :=
    mem_insert s.isiBitset _ _
  rw [hmem, Bool.or_eq_true, h id, decide_eq_true_iff, UInt8.toNat_inj]
  simp only [readSlot, List.mem_append, List.mem_singleton]

/-- The slots that a round asks for are what the variable holds; the ids are what is in them. -/
def askedIn (r : Round) : List UInt8 := (List.range r.count).map r.unset

def idsIn (r : Round) (n : ℕ) : List UInt8 := (List.range n).map fun i => r.slot i (r.unset i)

/-- What the loop over the slots has done after `n` of them. -/
structure Read (r : Round) (ids : List UInt8) (n : ℕ) (s : Scan) : Prop where
  holds : Holds s.isiBitset s.ids
  asked : s.asked = (List.range n).map r.unset
  read : s.ids = ids ++ idsIn r n
  newcount : 0 < s.newcount ↔ ∃ id ∈ idsIn r n, id ∉ ids

theorem idsIn_succ (r : Round) (n : ℕ) : idsIn r (n + 1) = idsIn r n ++ [r.slot n (r.unset n)] := by
  rw [idsIn, List.range_succ, List.map_append]
  rfl

theorem Read.readSlot {r : Round} {ids : List UInt8} {n : ℕ} {s : Scan} (h : Read r ids n s) :
    Read r ids (n + 1) (readSlot r s n) := by
  refine ⟨readSlot_holds r n h.holds, ?_, ?_, ?_⟩
  · rw [List.range_succ, List.map_append, ← h.asked]
    rfl
  · rw [idsIn_succ, ← List.append_assoc, ← h.read]
    rfl
  · -- an id that is in the bitset and was not read in an earlier round makes no second difference
    have hpresent : s.isiBitset (word (r.slot n (r.unset n)).toNat) &&& mask (r.slot n (r.unset n)).toNat = 0 ↔
        r.slot n (r.unset n) ∉ ids ++ idsIn r n := by
      rw [← h.read, ← h.holds, ← present_iff, not_not]
    have hcount : (Streams.readSlot r s n).newcount =
        if r.slot n (r.unset n) ∉ ids ++ idsIn r n then s.newcount + 1 else s.newcount := by
      rw [Streams.readSlot]
      simp only [hpresent]
    simp only [hcount, idsIn_succ, List.mem_append, List.mem_singleton, or_and_right, exists_or,
      exists_eq_left]
    by_cases hnew : r.slot n (r.unset n) ∈ ids
    · simpa [hnew] using h.newcount
    · by_cases hagain : r.slot n (r.unset n) ∈ idsIn r n
      · have hfirst : ∃ id ∈ idsIn r n, id ∉ ids := ⟨_, hagain, hnew⟩
        simpa [hnew, hagain, hfirst] using h.newcount.mpr hfirst
      · simp [hnew, hagain]

theorem readSlots_read (r : Round) {b : Words} {ids : List UInt8} (h : Holds b ids) :
    Read r ids r.count (readSlots r ⟨b, 0, [], ids⟩) := by
  rw [readSlots]
  induction r.count with
  | zero => exact ⟨h, rfl, (List.append_nil ids).symm, by simp [idsIn]⟩
  | succ n ih =>
    rw [List.range_succ, List.foldl_append, List.foldl_cons, List.foldl_nil]
    exact ih.readSlot

/-! ### Which rounds are made -/

def idsBefore (rounds : ℕ → Round) (k : ℕ) : List UInt8 :=
  (List.range k).flatMap fun k => idsIn (rounds k) (rounds k).count

def BringsNew (rounds : ℕ → Round) (k : ℕ) : Prop :=
  ∃ id ∈ idsIn (rounds k) (rounds k).count, id ∉ idsBefore rounds k

/-- Another round follows round `k`, when the number of rounds allows it. -/
def Goes (rounds : ℕ → Round) (k : ℕ) : Prop :=
  (rounds k).stop = false ∧ ∃ j ≤ k, k < j + 50 ∧ BringsNew rounds j

/-- Round `m` is made. -/
def Made (rounds : ℕ → Round) (m : ℕ) : Prop := m < 501 ∧ ∀ k < m, Goes rounds k

/-- What has been done before round `k`. -/
structure Scanned (rounds : ℕ → Round) (k : ℕ) (b : Words) (log : Log) : Prop where
  holds : Holds b log.ids
  asked : log.asked = (List.range k).map fun k => askedIn (rounds k)
  ids : log.ids = idsBefore rounds k

/-- The rounds before round `k` and what is left of `count`. -/
structure Going (rounds : ℕ → Round) (k : ℕ) (count : ℤ) : Prop where
  made : ∀ i < k, Made rounds i
  runs : ∀ i < k, (rounds i).stop = false
  left : ∀ d : ℕ, d < count ↔ k = 0 ∧ d = 0 ∨ ∃ j < k, k + d ≤ j + 50 ∧ BringsNew rounds j

theorem going_start (rounds : ℕ → Round) : Going rounds 0 1 where
  made := fun _ h => absurd h (Nat.not_lt_zero _)
  runs := fun _ h => absurd h (Nat.not_lt_zero _)
  left := by
    intro d
    simp only [Nat.not_lt_zero, false_and, exists_false, or_false, true_and]
    omega

theorem Going.made_of_pos {rounds : ℕ → Round} {k : ℕ} {count : ℤ} (h : Going rounds k count)
    (hcount : 0 < count) (hk : k < 501) : Made rounds k := by
  refine ⟨hk, fun i hi => ⟨h.runs i hi, ?_⟩⟩
  by_cases hlast : i + 1 = k
  · rcases (h.left 0).mp hcount with ⟨hzero, -⟩ | ⟨j, hj, hwindow, hnew⟩
    · omega
    · exact ⟨j, by omega, by omega, hnew⟩
  · exact ((h.made (i + 1) (by omega)).2 i (by omega)).2

theorem Going.pos_of_made {rounds : ℕ → Round} {k : ℕ} {count : ℤ} (h : Going rounds k count)
    (hmade : Made rounds k) : 0 < count := by
  refine (h.left 0).mpr ?_
  cases k with
  | zero => exact Or.inl ⟨rfl, rfl⟩
  | succ i =>
    obtain ⟨j, hj, hwindow, hnew⟩ := (hmade.2 i (Nat.lt_succ_self i)).2
    exact Or.inr ⟨j, by omega, by omega, hnew⟩

theorem Going.step {rounds : ℕ → Round} {k newcount : ℕ} {count : ℤ} (h : Going rounds k count)
    (hcount : 0 < count) (hk : k < 501) (hstop : (rounds k).stop = false)
    (hnew : 0 < newcount ↔ BringsNew rounds k) :
    Going rounds (k + 1) (if 0 < newcount then 50 else count - 1) where
  made := by
    intro i hi
    rcases Nat.lt_succ_iff_lt_or_eq.mp hi with hlt | rfl
    · exact h.made i hlt
    · exact h.made_of_pos hcount hk
  runs := by
    intro i hi
    rcases Nat.lt_succ_iff_lt_or_eq.mp hi with hlt | rfl
    · exact h.runs i hlt
    · exact hstop
  left := by
    intro d
    by_cases hbrings : BringsNew rounds k
    · rw [if_pos (hnew.mpr hbrings)]
      constructor
      · intro hd
        exact Or.inr ⟨k, by omega, by omega, hbrings⟩
      · rintro (⟨hzero, -⟩ | ⟨j, hj, hwindow, -⟩) <;> omega
    · have hleft := h.left (d + 1)
      rw [if_neg (fun hpos => hbrings (hnew.mp hpos))]
      constructor
      · intro hd
        rcases hleft.mp (by omega) with ⟨-, hzero⟩ | ⟨j, hj, hwindow, hj'⟩
        · omega
        · exact Or.inr ⟨j, by omega, by omega, hj'⟩
      · rintro (⟨hzero, -⟩ | ⟨j, hj, hwindow, hj'⟩)
        · omega
        · -- the round that was new is not this one
          have hne : j ≠ k := fun heq => hbrings (heq ▸ hj')
          have := hleft.mpr (Or.inr ⟨j, by omega, by omega, hj'⟩)
          omega

theorem Scanned.step {rounds : ℕ → Round} {k : ℕ} {b : Words} {log : Log} (h : Scanned rounds k b log) :
    Scanned rounds (k + 1) (readSlots (rounds k) ⟨b, 0, [], log.ids⟩).isiBitset
        { log with
          asked := log.asked ++ [(readSlots (rounds k) ⟨b, 0, [], log.ids⟩).asked]
          ids := (readSlots (rounds k) ⟨b, 0, [], log.ids⟩).ids } ∧
      (0 < (readSlots (rounds k) ⟨b, 0, [], log.ids⟩).newcount ↔ BringsNew rounds k) := by
  obtain ⟨hholds, hasked, hids, hnew⟩ := readSlots_read (rounds k) h.holds
  refine ⟨⟨hholds, ?_, ?_⟩, ?_⟩
  · rw [List.range_succ, List.map_append, ← h.asked, hasked]
    rfl
  · rw [idsBefore, List.range_succ, List.flatMap_append, List.flatMap_singleton, ← idsBefore, ← h.ids, hids]
  · rw [hnew, BringsNew, h.ids]

/-- The scan at its end: the rounds that were made, and whether one of them was stopped. -/
structure Done (rounds : ℕ → Round) (m : ℕ) (b : Words) (log : Log) : Prop extends
    Scanned rounds m b log where
  made : ∀ k, k < m ↔ Made rounds k
  stopped : log.stopped = true ↔ ∃ k < m, (rounds k).stop = true

theorem Made.of_le {rounds : ℕ → Round} {i m : ℕ} (h : Made rounds m) (hi : i ≤ m) : Made rounds i :=
  ⟨Nat.lt_of_le_of_lt hi h.1, fun k hk => h.2 k (Nat.lt_of_lt_of_le hk hi)⟩

theorem Made.le_of_stop {rounds : ℕ → Round} {k m : ℕ} (h : Made rounds m)
    (hstop : (rounds k).stop = true) : m ≤ k := by
  by_contra hlater
  have hrun := (h.2 k (by omega)).1
  rw [hstop] at hrun
  exact Bool.noConfusion hrun

theorem Going.done {rounds : ℕ → Round} {k : ℕ} {count : ℤ} {b : Words} {log : Log}
    (h : Going rounds k count) (hscanned : Scanned rounds k b log) (hnot : ¬ Made rounds k)
    (hruns : log.stopped = false) : Done rounds k b log where
  toScanned := hscanned
  made := by
    intro i
    constructor
    · exact h.made i
    · intro hmade
      by_contra hle
      exact hnot (hmade.of_le (by omega))
  stopped := by
    rw [hruns]
    constructor
    · intro hfalse
      exact absurd hfalse Bool.false_ne_true
    · rintro ⟨i, hi, hstop⟩
      rw [← h.runs i hi, hstop]

theorem scanRounds_done (rounds : ℕ → Round) : ∀ {n k : ℕ} {count : ℤ} {b : Words} {log : Log},
    n + k = 501 → Scanned rounds k b log → Going rounds k count → log.stopped = false →
      ∃ m, Done rounds m (scanRounds rounds n k count b log).1 (scanRounds rounds n k count b log).2
  | 0, k, count, b, log, hn, h, hgoing, hruns =>
    ⟨k, hgoing.done h (fun hmade => absurd hmade.1 (by omega)) hruns⟩
  | n + 1, k, count, b, log, hn, h, hgoing, hruns => by
    rw [scanRounds]
    by_cases hcount : 0 < count
    · obtain ⟨hscanned, hnew⟩ := h.step
      rw [if_pos hcount]
      cases hstop : (rounds k).stop with
      | true =>
        refine ⟨k + 1, ⟨hscanned.holds, hscanned.asked, hscanned.ids⟩, fun i => ?_,
          fun _ => ⟨k, Nat.lt_succ_self k, hstop⟩, fun _ => rfl⟩
        constructor
        · intro hi
          exact (hgoing.made_of_pos hcount (by omega)).of_le (by omega)
        · intro hmade
          exact Nat.lt_succ_of_le (hmade.le_of_stop hstop)
      | false =>
        exact scanRounds_done rounds (by omega) hscanned (hgoing.step hcount (by omega) hstop hnew) hruns
    · rw [if_neg hcount]
      exact ⟨k, hgoing.done h (fun hmade => hcount (hgoing.pos_of_made hmade)) hruns⟩

/-! ### The bitset after a scan -/

theorem removeZero_mem (b : Words) (id : ℕ) :
    mem (if b 0 &&& 1 ≠ 0 then update b 0 (b 0 &&& ~~~1) else b) id = (mem b id && !decide (id = 0)) := by
  by_cases hzero : b 0 &&& 1 ≠ 0
  · rw [if_pos hzero]
    exact mem_erase b 0 id
  · have habsent : mem b 0 = false := Bool.eq_false_iff.mpr fun hmem => hzero ((present_iff b 0).mpr hmem)
    rw [if_neg hzero]
    by_cases hid : id = 0
    · simp [hid, habsent]
    · simp [hid]

theorem isiScan_done (rounds : ℕ → Round) (st : State) (hclear : st.isiBitset = fun _ => 0) :
    ∃ m b, Done rounds m b (isiScan rounds st).2 ∧ ∀ id, mem (isiScan rounds st).1.isiBitset id =
      (mem b id && !decide ((isiScan rounds st).2.stopped = false ∧ id = 0)) := by
  have hempty : Scanned rounds 0 st.isiBitset ⟨[], [], false⟩ :=
    ⟨fun id => by simp [hclear, mem], rfl, rfl⟩
  obtain ⟨m, hdone⟩ := scanRounds_done rounds (n := 501) rfl hempty (going_start rounds) rfl
  refine ⟨m, _, hdone, fun id => ?_⟩
  cases hstopped : (scanRounds rounds 501 0 1 st.isiBitset ⟨[], [], false⟩).2.stopped with
  | true => simp [isiScan, hstopped]
  | false => simpa [isiScan, hstopped] using removeZero_mem _ id

theorem Done.mem_ids {rounds : ℕ → Round} {m : ℕ} {b : Words} {log : Log} (h : Done rounds m b log)
    (id : UInt8) : id ∈ log.ids ↔ ∃ k, Made rounds k ∧ id ∈ idsIn (rounds k) (rounds k).count := by
  simp only [h.ids, idsBefore, List.mem_flatMap, List.mem_range, h.made]

theorem isiScan_asked_iff (rounds : ℕ → Round) (st : State) (hclear : st.isiBitset = fun _ => 0) :
    (isiScan rounds st).2.asked = ((List.range (isiScan rounds st).2.asked.length).map fun k =>
        (List.range (rounds k).count).map UInt8.ofNat) ↔
      ∀ k, Made rounds k → ∀ i < (rounds k).count, (rounds k).unset i = UInt8.ofNat i := by
  obtain ⟨m, b, hdone, -⟩ := isiScan_done rounds st hclear
  rw [hdone.asked, List.length_map, List.length_range]
  simp only [askedIn, List.map_inj_left, List.mem_range, hdone.made]

theorem isiScan_bitset_iff (rounds : ℕ → Round) (st : State) (hclear : st.isiBitset = fun _ => 0) :
    (∀ id : UInt8, mem (isiScan rounds st).1.isiBitset id.toNat = true ↔
        id ∈ (isiScan rounds st).2.ids ∧ id ≠ 0) ↔
      ∀ k, Made rounds k → (rounds k).stop = true → ∀ j ≤ k, 0 ∉ idsIn (rounds j) (rounds j).count := by
  obtain ⟨m, b, hdone, hmem⟩ := isiScan_done rounds st hclear
  have hbitset : ∀ id : UInt8, mem (isiScan rounds st).1.isiBitset id.toNat = true ↔
      id ∈ (isiScan rounds st).2.ids ∧ ¬ ((isiScan rounds st).2.stopped = false ∧ id = 0) := by
    intro id
    rw [hmem, Bool.and_eq_true, hdone.holds, Bool.not_eq_true', decide_eq_false_iff_not, ← UInt8.toNat_inj]
    rfl
  constructor
  · intro h k hk hstop j hj hread
    have hstopped : (isiScan rounds st).2.stopped = true :=
      hdone.stopped.mpr ⟨k, (hdone.made k).mpr hk, hstop⟩
    have hzero := (hbitset 0).mpr ⟨(hdone.mem_ids 0).mpr ⟨j, hk.of_le hj, hread⟩, by simp [hstopped]⟩
    exact ((h 0).mp hzero).2 rfl
  · intro h id
    rw [hbitset]
    refine and_congr_right fun hread => not_congr ?_
    cases hstopped : (isiScan rounds st).2.stopped with
    | false => simp
    | true =>
      obtain ⟨k, hk, hstop⟩ := hdone.stopped.mp hstopped
      obtain ⟨j, hj, hid⟩ := (hdone.mem_ids id).mp hread
      have hne : id ≠ 0 := fun heq =>
        h k ((hdone.made k).mp hk) hstop j (hj.le_of_stop hstop) (heq ▸ hid)
      simp [hne]

/-! ### The stream that is let through -/

def present (st : State) : Set UInt8 := {id | mem st.isiBitset id.toNat = true}

theorem mem_present {st : State} {id : UInt8} : id ∈ present st ↔ mem st.isiBitset id.toNat = true := Iff.rfl

/-- The stream that is asked for where there is one, else the smallest that is present, is the one that is
    recorded and the one that is let through. -/
structure Selected (st : State) (streamId : UInt8) : Prop where
  requested : streamId ∈ present st → st.activeStreamId = streamId.toNat ∧ st.filter = streamId
  smallest : streamId ∉ present st → ∀ id, IsLeast (present st) id →
    st.activeStreamId = id.toNat ∧ st.filter = id
  absent : present st = ∅ → st.activeStreamId = -1 ∧ st.filter = 0

theorem selectDefaultStreamId_cases (st : State) :
    (present st = ∅ ∧ selectDefaultStreamId st = -1) ∨
      ∃ id, IsLeast (present st) id ∧ selectDefaultStreamId st = id.toNat := by
  rw [selectDefaultStreamId]
  cases hfind : (List.range 256).find? fun id => st.isiBitset (word id) &&& mask id ≠ 0 with
  | none =>
    refine Or.inl ⟨Set.eq_empty_iff_forall_notMem.mpr fun id hid => ?_, rfl⟩
    have hnone := List.find?_range_eq_none.mp hfind id.toNat id.toNat_lt
    rw [decide_eq_true ((present_iff _ _).mpr hid)] at hnone
    exact Bool.noConfusion hnone
  | some n =>
    obtain ⟨hn, hlt, hfirst⟩ := List.find?_range_eq_some.mp hfind
    have hnat : (UInt8.ofNat n).toNat = n := UInt8.toNat_ofNat_of_lt' (List.mem_range.mp hlt)
    refine Or.inr ⟨UInt8.ofNat n, ⟨?_, fun id hid => ?_⟩, by rw [hnat]; rfl⟩
    · rw [mem_present, hnat]
      exact (present_iff _ _).mp (of_decide_eq_true hn)
    · rw [UInt8.le_iff_toNat_le, hnat]
      by_contra hless
      have hearlier := hfirst id.toNat (by omega)
      rw [decide_eq_true ((present_iff _ _).mpr hid)] at hearlier
      exact Bool.noConfusion hearlier

theorem selectStream_isiBitset (tsid : UInt32) (streamId : UInt8) (st : State) :
    (selectStream tsid streamId st).isiBitset = st.isiBitset := by
  unfold selectStream
  dsimp only
  split_ifs <;> rfl

theorem isLeast_unique {ids : Set UInt8} {a b : UInt8} (ha : IsLeast ids a) (hb : IsLeast ids b) : a = b :=
  UInt8.le_antisymm (ha.2 hb.1) (hb.2 ha.1)

theorem selectStream_selected_iff (tsid : UInt32) (streamId : UInt8) (st : State) (hmis : st.isMis = true) :
    Selected (selectStream tsid streamId st) streamId ↔
      (streamId ∉ present st → ∀ id, IsLeast (present st) id → tsid.toUInt8 = id) := by
  have hpresent : present (selectStream tsid streamId st) = present st := by
    rw [present, selectStream_isiBitset, ← present]
  by_cases hrequested : streamId ∈ present st
  · have hselect : selectStream tsid streamId st =
        { st with filter := streamId, activeStreamId := streamId.toNat } := by
      rw [selectStream, if_neg (not_not.mpr hmis), if_pos ((present_iff _ _).mpr hrequested)]
    refine ⟨fun _ habsent => absurd hrequested habsent, fun _ => ⟨fun _ => ?_, ?_, ?_⟩⟩
    · rw [hselect]
      exact ⟨rfl, rfl⟩
    · intro habsent
      exact absurd (hpresent.symm ▸ hrequested) habsent
    · intro hempty
      rw [hpresent] at hempty
      exact absurd (hempty ▸ hrequested) (Set.notMem_empty streamId)
  · have hnot : ¬ st.isiBitset (word streamId.toNat) &&& mask streamId.toNat ≠ 0 :=
      fun hmem => hrequested ((present_iff _ _).mp hmem)
    rcases selectDefaultStreamId_cases st with ⟨hempty, hdefault⟩ | ⟨least, hleast, hdefault⟩
    · have hselect : selectStream tsid streamId st = { st with activeStreamId := -1, filter := 0x00 } := by
        rw [selectStream, if_neg (not_not.mpr hmis), if_neg hnot, hdefault]
        rfl
      have hno : ∀ id, ¬ IsLeast (present st) id := fun id hid => (hempty ▸ hid.1 : id ∈ (∅ : Set UInt8))
      refine ⟨fun _ _ id hid => absurd hid (hno id), fun _ => ⟨?_, ?_, ?_⟩⟩
      · intro hmem
        exact absurd (hpresent ▸ hmem) hrequested
      · intro _ id hid
        exact absurd (hpresent ▸ hid) (hno id)
      · intro _
        rw [hselect]
        exact ⟨rfl, rfl⟩
    · -- the id that is recorded is not the one that is written
      have hselect : selectStream tsid streamId st =
          { st with filter := tsid.toUInt8, activeStreamId := least.toNat } := by
        rw [selectStream, if_neg (not_not.mpr hmis), if_neg hnot, hdefault]
        exact if_pos (Int.natCast_nonneg least.toNat)
      constructor
      · intro hselected _ id hid
        have hwritten := (hselected.smallest (hpresent.symm ▸ hrequested) id (hpresent.symm ▸ hid)).2
        rwa [hselect] at hwritten
      · intro hfilter
        refine ⟨?_, ?_, ?_⟩
        · intro hmem
          exact absurd (hpresent ▸ hmem) hrequested
        · intro _ id hid
          rw [hpresent] at hid
          rw [hselect, isLeast_unique hleast hid]
          exact ⟨rfl, hfilter hrequested id hid⟩
        · intro hempty
          rw [hpresent] at hempty
          exact absurd (hempty ▸ hleast.1) (Set.notMem_empty least)

/-! ### Tuning -/

/-- The ids, without zero, that are in the slots of the rounds that are made. -/
def idsRead (rounds : ℕ → Round) : Set UInt8 :=
  {id | id ≠ 0 ∧ ∃ k, Made rounds k ∧ id ∈ idsIn (rounds k) (rounds k).count}

/-- Every round asks for its slots, the bitset holds what was read but zero, and the right stream of
    several is let through. -/
structure Faithful (rounds : ℕ → Round) (isMis : Bool) (streamId : UInt8) (result : State × Log) :
    Prop where
  asked : result.2.asked = (List.range result.2.asked.length).map fun k =>
    (List.range (rounds k).count).map UInt8.ofNat
  bitset : ∀ id : UInt8, mem result.1.isiBitset id.toNat = true ↔ id ∈ result.2.ids ∧ id ≠ 0
  selected : isMis = true → Selected result.1 streamId

/-- The variable happens to hold the slot that is due, a scan that is stopped has not read id zero, and the
    first cell of `tsid` happens to hold the smallest id when another one was asked for. -/
structure Unaffected (rounds : ℕ → Round) (tsid : UInt32) (isMis : Bool) (streamId : UInt8) : Prop where
  slots : ∀ k, Made rounds k → ∀ i < (rounds k).count, (rounds k).unset i = UInt8.ofNat i
  stop : ∀ k, Made rounds k → (rounds k).stop = true →
    ∀ j ≤ k, 0 ∉ idsIn (rounds j) (rounds j).count
  fallback : isMis = true → streamId ∉ idsRead rounds →
    ∀ id, IsLeast (idsRead rounds) id → tsid.toUInt8 = id

theorem present_isiScan (rounds : ℕ → Round) (st : State) (hclear : st.isiBitset = fun _ => 0)
    (hbitset : ∀ id : UInt8, mem (isiScan rounds st).1.isiBitset id.toNat = true ↔
      id ∈ (isiScan rounds st).2.ids ∧ id ≠ 0) : present (isiScan rounds st).1 = idsRead rounds := by
  obtain ⟨m, b, hdone, -⟩ := isiScan_done rounds st hclear
  ext id
  rw [mem_present, hbitset, hdone.mem_ids, and_comm]
  rfl

theorem tuneStreams_log (rounds : ℕ → Round) (tsid : UInt32) (isMis : Bool) (streamId : UInt8) :
    (tuneStreams rounds tsid isMis streamId).2 = (isiScan rounds ⟨fun _ => 0, isMis, -1, 0⟩).2 := rfl

theorem tuneStreams_faithful_iff (rounds : ℕ → Round) (tsid : UInt32) (isMis : Bool) (streamId : UInt8) :
    Faithful rounds isMis streamId (tuneStreams rounds tsid isMis streamId) ↔
      Unaffected rounds tsid isMis streamId := by
  have hasked := isiScan_asked_iff rounds ⟨fun _ => 0, isMis, -1, 0⟩ rfl
  have hbitset := isiScan_bitset_iff rounds ⟨fun _ => 0, isMis, -1, 0⟩ rfl
  have hpresent := present_isiScan rounds ⟨fun _ => 0, isMis, -1, 0⟩ rfl
  have hselected := selectStream_selected_iff tsid streamId (isiScan rounds ⟨fun _ => 0, isMis, -1, 0⟩).1
  constructor
  · intro h
    have hclean := h.bitset
    rw [tuneStreams, selectStream_isiBitset] at hclean
    refine ⟨hasked.mp h.asked, hbitset.mp hclean, fun hmis => ?_⟩
    rw [← hpresent hclean]
    exact (hselected hmis).mp (h.selected hmis)
  · intro h
    have hclean := hbitset.mpr h.stop
    refine ⟨hasked.mpr h.slots, ?_, fun hmis => (hselected hmis).mpr ?_⟩
    · rw [tuneStreams, selectStream_isiBitset]
      exact hclean
    · rw [hpresent hclean]
      exact h.fallback hmis

/-- Streams 5 and 9 in slots 0 and 1, and a variable that is 0 whenever it is used. -/
def twoStreams : ℕ → Round := fun _ => ⟨2, fun _ slot => if slot = 0 then 5 else 9, fun _ => 0, false⟩

theorem slot_asked_twice : ¬ Faithful twoStreams true 9 (tuneStreams twoStreams 0 true 9) := by
  intro h
  have hasked := h.asked
  rw [tuneStreams_log] at hasked
  have hslots := (isiScan_asked_iff twoStreams ⟨fun _ => 0, true, -1, 0⟩ rfl).mp hasked
  have hmade : Made twoStreams 0 := ⟨by decide, fun k hk => absurd hk (Nat.not_lt_zero k)⟩
  exact absurd (hslots 0 hmade 1 (by decide)) (by decide)

end M88rs.Streams

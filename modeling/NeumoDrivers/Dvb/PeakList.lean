import Mathlib.Data.List.Basic
import NeumoDrivers.Dvb.SpectrumScan

/-! The peaks that are kept in a scan do not conflict.

    Two peaks conflict if one contains the other, or what is lowest next to the other; this is the same
    whichever is asked for first. A candidate is added when it conflicts with none of the peaks that are
    left, and all else that happens to them is that some are taken out. -/

namespace Dvb.Scan
open Buffers Passes

variable {a b cand : Peak} {ss : Spectrum} {si : Sums} {peaks peaks' : List Peak}
variable {w riseIdx fallIdx : ℤ}

/-- What makes `isBetterThan` decide. -/
def Conflict (a b : Peak) : Prop :=
  isPartOf a b ∨ isPartOf b a ∨ b.Contains a.lowestLeftIdx ∨ b.Contains a.lowestRightIdx ∨
    a.Contains b.lowestLeftIdx ∨ a.Contains b.lowestRightIdx

theorem isBetterThan_zero_iff : isBetterThan a b = 0 ↔ ¬ Conflict a b := by
  unfold isBetterThan Conflict
  constructor
  · intro h
    split_ifs at h <;> simp_all
  · intro h
    simp_all

theorem isBetterThan_zero_symm (h : isBetterThan a b = 0) : isBetterThan b a = 0 := by
  rw [isBetterThan_zero_iff] at h ⊢
  unfold Conflict at h ⊢
  tauto

/-- No two of the peaks conflict. -/
def Consistent (peaks : List Peak) : Prop :=
  peaks.Pairwise fun a b => isBetterThan a b = 0 ∧ isBetterThan b a = 0

/-! ### One candidate -/

/-- If the candidate is not rejected, then it conflicts with none of the peaks that are left. -/
theorem checkPeaks_kept : ∀ {peaks : List Peak}, (checkPeaks cand peaks).2 = false →
    ∀ old ∈ (checkPeaks cand peaks).1, isBetterThan old cand = 0
  | [], _, old, hold => by cases hold
  | p :: rest, h, old, hold => by
    rw [checkPeaks] at h hold
    split_ifs at h hold with h0 hpos
    · rcases List.mem_cons.mp hold with rfl | hold
      · exact h0
      · exact checkPeaks_kept h old hold
    · exact checkPeaks_kept h old hold

theorem checkCandidateTp_kept (h : 0 ≤ (checkCandidateTp ss cand peaks).1) :
    ∀ old ∈ (checkCandidateTp ss cand peaks).2, isBetterThan old cand = 0 := by
  unfold checkCandidateTp at h ⊢
  split_ifs at h ⊢ with h1 h2
  · dsimp only at h
    omega
  · dsimp only at h
    omega
  · refine checkPeaks_kept ?_
    by_contra hne
    rw [Bool.not_eq_false] at hne
    simp only [hne, if_true] at h
    omega

theorem Consistent.add (h : Consistent peaks) (hc : ∀ old ∈ peaks, isBetterThan old cand = 0) :
    Consistent (peaks ++ [cand]) := by
  refine List.pairwise_append.mpr ⟨h, List.pairwise_singleton _ _, fun old hold c hmem => ?_⟩
  rw [List.mem_singleton] at hmem
  subst hmem
  exact ⟨hc old hold, isBetterThan_zero_symm (hc old hold)⟩

/-! ### The scan -/

theorem Consistent.examine {done : Bool} (h : Consistent peaks)
    (hx : examine ss si w riseIdx fallIdx peaks = some (peaks', done)) : Consistent peaks' := by
  obtain ⟨cand, -, hx⟩ := Option.bind_eq_some_iff.mp hx
  have hleft : Consistent (checkCandidateTp ss cand peaks).2 := h.sublist checkCandidateTp_sublist
  dsimp only at hx
  split_ifs at hx with hkeep hroom
  · cases hx
    exact hleft.add (checkCandidateTp_kept hkeep)
  · cases hx
    exact hleft

theorem KeptAt.consistent (h : KeptAt ss peaks) : Consistent peaks :=
  h.invariant (fun _ _ hsub hp => List.Pairwise.sublist hsub hp)
    (fun _ _ _ _ _ _ _ hp => Consistent.examine hp) .nil

/-- At every point of a scan, no two of the peaks that are kept conflict: neither is better, neither
    contains the other or what is lowest next to it. -/
theorem peaks_consistent (ss : Spectrum) (peaks : List Peak) (h : KeptAt ss peaks) :
    peaks.Pairwise fun a b => (isBetterThan a b = 0 ∧ isBetterThan b a = 0) ∧
      ¬ isPartOf a b ∧ ¬ isPartOf b a ∧
      ¬ b.Contains a.lowestLeftIdx ∧ ¬ b.Contains a.lowestRightIdx ∧
      ¬ a.Contains b.lowestLeftIdx ∧ ¬ a.Contains b.lowestRightIdx := by
  refine h.consistent.imp fun {a b} hab => ⟨hab, ?_⟩
  have hconflict := isBetterThan_zero_iff.mp hab.1
  unfold Conflict at hconflict
  tauto

/-- Two plateaus, and what a scan makes of them. -/
theorem peaks_consistent_two :
    let ss : Spectrum := ⟨22, fun i => if (3 ≤ i ∧ i < 8) ∨ (13 ≤ i ∧ i < 18) then 10000 else 0,
      fun i => Int32.ofInt (950000 + 50 * i), 3000, 3000⟩
    ∃ a b, scanAll ss = some [a, b] ∧ isBetterThan a b = 0 ∧ isBetterThan b a = 0 := by
  intro ss
  obtain ⟨a, b, hscan⟩ : ∃ a b, scanAll ss = some [a, b] := by
    have hlen : (scanAll ss).map List.length = some 2 := by decide +kernel
    obtain ⟨l, hl, hlen⟩ := Option.map_eq_some_iff.mp hlen
    obtain ⟨a, b, rfl⟩ := List.length_eq_two.mp hlen
    exact ⟨a, b, hl⟩
  have h := peaks_consistent ss [a, b] (.finished hscan)
  exact ⟨a, b, hscan, (List.pairwise_pair.mp h).1⟩

/-! ### A candidate that is rejected -/

/-- The candidate is strong enough, and is rejected because a kept peak is better. -/
structure RejectedByPeak (ss : Spectrum) (cand : Peak) (peaks : List Peak) : Prop where
  strong : ¬ cand.meanSnr < ss.threshold2 ∧ ¬ cand.dipSnr ≤ ss.threshold
  rejected : (checkPeaks cand peaks).2 = true

/-- The peaks that are compared with the candidate before the first one that is better. -/
def beforeBetter (cand : Peak) (peaks : List Peak) : List Peak :=
  peaks.takeWhile fun old => decide (isBetterThan old cand ≤ 0)

theorem RejectedByPeak.result (h : RejectedByPeak ss cand peaks) :
    checkCandidateTp ss cand peaks = (-1, (checkPeaks cand peaks).1) := by
  unfold checkCandidateTp
  rw [if_neg h.strong.1, if_neg h.strong.2]
  simp only [h.rejected, if_true]

/-- The peaks are left as they are if and only if none is taken out before a better one is met. -/
theorem checkPeaks_unchanged_iff : ∀ {peaks : List Peak}, (checkPeaks cand peaks).2 = true →
    ((checkPeaks cand peaks).1 = peaks ↔ ∀ old ∈ beforeBetter cand peaks, ¬ isBetterThan old cand < 0)
  | [], h => by cases h
  | p :: rest, h => by
    rw [checkPeaks] at h ⊢
    rw [beforeBetter, List.takeWhile_cons]
    rcases lt_trichotomy (isBetterThan p cand) 0 with hneg | h0 | hpos
    · -- the candidate is better: `p` is gone
      rw [if_neg (by omega), if_neg (by omega), if_pos (decide_eq_true (Int.le_of_lt hneg))]
      refine iff_of_false (fun heq => ?_) fun hall => hall p List.mem_cons_self hneg
      have hlen := (checkPeaks_sublist cand rest).length_le
      rw [heq, List.length_cons] at hlen
      omega
    · -- no conflict: the comparison goes on
      rw [if_pos h0] at h ⊢
      rw [if_pos (decide_eq_true (Int.le_of_eq h0)), List.cons_inj_right, checkPeaks_unchanged_iff h]
      constructor
      · intro hall old hold
        rcases List.mem_cons.mp hold with rfl | hold
        · omega
        · exact hall old hold
      · intro hall old hold
        exact hall old (List.mem_cons_of_mem _ hold)
    · rw [if_neg (by omega), if_pos hpos,
        if_neg (fun h => absurd (of_decide_eq_true h) (by omega))]
      exact iff_of_true rfl fun old hold => by cases hold

/-- A candidate that is rejected because a kept peak is better changes nothing if and only if it is not
    better than a peak before that one. -/
theorem rejected_unchanged_iff (ss : Spectrum) (cand : Peak) (peaks : List Peak)
    (h : RejectedByPeak ss cand peaks) :
    (checkCandidateTp ss cand peaks).2 = peaks ↔
      ∀ old ∈ beforeBetter cand peaks, ¬ isBetterThan old cand < 0 := by
  rw [h.result]
  exact checkPeaks_unchanged_iff h.rejected

/-- A peak around its limits, with what is lowest to its left at `lowest` and as low as `level`. -/
def peakAt (rise fall lowest : ℤ) (level : Int32) : Peak where
  idx := (rise + fall) / 2
  lowestLeftIdx := lowest
  lowestRightIdx := fall + 2
  riseIdx := rise
  fallIdx := fall
  freq := 1000000
  bw := 20000
  lowestLeftLevel := level
  lowestRightLevel := level
  meanSnr := 9000
  meanLevel := 9000
  fluctuation := 100
  dipLevel := 8000
  dipSnr := 8000

/-- A wide candidate that takes a narrow peak out and is then rejected for a better one to its right. -/
theorem rejected_changes :
    let ss : Spectrum := ⟨64, fun _ => 0, fun _ => 0, 3000, 3000⟩
    let cand := peakAt 10 30 8 0
    let peaks := [peakAt 12 16 9 8500, peakAt 34 38 28 0]
    Consistent peaks ∧ RejectedByPeak ss cand peaks ∧
      (checkCandidateTp ss cand peaks).2 = [peakAt 34 38 28 0] ∧
      (checkCandidateTp ss cand peaks).2 ≠ peaks := by
  intro ss cand peaks
  refine ⟨?_, ⟨by decide, by decide⟩, by decide, by decide⟩
  exact List.pairwise_pair.mpr (by decide)

theorem rejected_unchanged_disjoint :
    let ss : Spectrum := ⟨64, fun _ => 0, fun _ => 0, 3000, 3000⟩
    let cand := peakAt 10 30 8 0
    let peaks := [peakAt 52 56 50 0, peakAt 34 38 28 0]
    RejectedByPeak ss cand peaks ∧ (checkCandidateTp ss cand peaks).2 = peaks := by
  intro ss cand peaks
  have hrej : RejectedByPeak ss cand peaks := ⟨by decide, by decide⟩
  exact ⟨hrej, (rejected_unchanged_iff ss cand peaks hrej).mpr (by decide)⟩

end Dvb.Scan

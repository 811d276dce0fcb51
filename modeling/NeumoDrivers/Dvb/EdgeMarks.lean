import NeumoDrivers.Dvb.PeakBounds
import Mathlib.Algebra.Order.Ring.Abs
import Mathlib.Algebra.Order.Ring.Int
import Mathlib.Tactic.Ring

/-! The marks of the edges.

    A kernel keeps the place of its best response pending. A stronger one that is close erases it, a
    weaker one is not marked, and one that is far enough makes it final. So all the other marks are at
    least a quarter of the window behind the pending one, and from each other. -/

namespace Dvb.Scan
open Buffers Passes

variable {ss : Spectrum} {rs : Buffer Int32} {cell : ℤ → UInt8} {flag other : UInt8} {marks : Buffer UInt8}
variable {w dir delta i j b apart : ℤ} {response : Int32} {above : ℤ → Prop} {st st' : Slope}

/-! ### The bits of a mark -/

/-- The bit `flag` is set at `i`. -/
def EdgeAt (flag : UInt8) (cell : ℤ → UInt8) (i : ℤ) : Prop := cell i &&& flag ≠ 0

theorem or_and (a b c : UInt8) : (a ||| b) &&& c = a &&& c ||| b &&& c :=
  UInt8.toBitVec_inj.1 BitVec.and_or_distrib_right

theorem set_and_other (m : UInt8) (h : flag &&& other = 0) : (m ||| flag) &&& other = m &&& other := by
  rw [or_and, h, UInt8.or_zero]

theorem clear_and_other (m : UInt8) (h : flag &&& other = 0) : m &&& ~~~flag &&& other = m &&& other := by
  have hm : m &&& flag &&& other ||| m &&& ~~~flag &&& other = m &&& other := by
    rw [← or_and, UInt8.and_comm m flag, UInt8.and_comm m (~~~flag), ← or_and, UInt8.or_not_self,
      UInt8.neg_one_and]
  rw [← hm, UInt8.and_assoc m flag, h, UInt8.and_zero, UInt8.zero_or]

/-- Setting the flag at `i` marks it. -/
theorem edgeAt_set (hflag : flag ≠ 0) :
    EdgeAt flag (Function.update cell i (cell i ||| flag)) j ↔ j = i ∨ EdgeAt flag cell j := by
  unfold EdgeAt
  by_cases hij : j = i
  · subst hij
    rw [Function.update_self, or_and, UInt8.and_self]
    exact iff_of_true (fun h => hflag (UInt8.or_eq_zero_iff.mp h).2) (.inl rfl)
  · rw [Function.update_of_ne hij]
    exact ⟨.inr, fun h => h.resolve_left hij⟩

/-- Clearing it at `b` takes the mark away. -/
theorem edgeAt_clear :
    EdgeAt flag (Function.update cell b (cell b &&& ~~~flag)) j ↔ j ≠ b ∧ EdgeAt flag cell j := by
  unfold EdgeAt
  by_cases hjb : j = b
  · subst hjb
    rw [Function.update_self, UInt8.and_assoc, UInt8.not_and_self, UInt8.and_zero]
    exact iff_of_false (fun h => h rfl) fun h => h.1 rfl
  · rw [Function.update_of_ne hjb]
    exact ⟨fun h => ⟨hjb, h⟩, fun h => h.2⟩

/-! ### What a response does -/

/-- A response is passed over because the pending one is close and better; or it is marked and is the
    pending one then, and the one before it is erased if it is close. -/
theorem markSlope_cases (h : markSlope flag w i apart response st = some st') :
    st' = st ∨ ∃ cell, st' = ⟨⟨st.marks.size, Function.update cell i (cell i ||| flag)⟩, i, response⟩ ∧
      ((st.besti < 0 ∨ w / 4 ≤ apart) ∧ cell = st.marks.cell ∨
        0 ≤ st.besti ∧
          cell = Function.update st.marks.cell st.besti (st.marks.cell st.besti &&& ~~~flag)) := by
  rw [markSlope] at h
  by_cases hfar : 0 ≤ st.besti ∧ w / 4 ≤ apart
  · simp only [if_pos hfar, show ¬ (0 : ℤ) ≤ -1 by decide, false_and, if_false, Option.bind_eq_bind,
      Option.bind_some, show (-1 : ℤ) < 0 by decide, or_true, if_true] at h
    obtain ⟨-, h⟩ := Buffer.change_inside h
    cases h
    exact .inr ⟨_, rfl, .inl ⟨.inr hfar.2, rfl⟩⟩
  · simp only [if_neg hfar] at h
    by_cases hworse : 0 ≤ st.besti ∧ st.best ≤ response
    · simp only [if_pos hworse] at h
      obtain ⟨-, h⟩ := Buffer.change_inside h
      simp only [show ¬ (0 : ℤ) ≤ -1 by decide, false_and, if_false, Option.bind_eq_bind, Option.bind_some,
        show (-1 : ℤ) < 0 by decide, or_true, if_true] at h
      obtain ⟨-, h⟩ := Buffer.change_inside h
      cases h
      exact .inr ⟨_, rfl, .inr ⟨hworse.1, rfl⟩⟩
    · simp only [if_neg hworse, Option.bind_eq_bind, Option.bind_some] at h
      by_cases hnone : st.besti < 0
      · rw [if_neg fun hw => absurd hw.1 (by omega)] at h
        obtain ⟨-, h⟩ := Buffer.change_inside h
        rw [if_pos (.inr hnone)] at h
        cases h
        exact .inr ⟨_, rfl, .inl ⟨.inl hnone, rfl⟩⟩
      · have hpending : 0 ≤ st.besti := by omega
        rw [if_pos ⟨hpending, Int32.not_le.mp fun hle => hworse ⟨hpending, hle⟩⟩] at h
        cases h
        exact .inl rfl

/-- The other bit stays as it is. -/
theorem markSlope_other (h : markSlope flag w i apart response st = some st') (hother : flag &&& other = 0) :
    st'.marks.cell j &&& other = st.marks.cell j &&& other := by
  have hset (cell : ℤ → UInt8) :
      Function.update cell i (cell i ||| flag) j &&& other = cell j &&& other := by
    by_cases hij : j = i
    · rw [hij, Function.update_self, set_and_other _ hother]
    · rw [Function.update_of_ne hij]
  rcases markSlope_cases h with rfl | ⟨cell, rfl, ⟨-, rfl⟩ | ⟨-, rfl⟩⟩
  · rfl
  · exact hset _
  · refine (hset _).trans ?_
    by_cases hb : j = st.besti
    · rw [hb, Function.update_self, clear_and_other _ hother]
    · rw [Function.update_of_ne hb]

/-! ### Marks that are apart -/

/-- The marks of `flag`: any two are far enough from each other, and each has a response that is enough. -/
structure Separated (flag : UInt8) (w : ℤ) (above : ℤ → Prop) (cell : ℤ → UInt8) : Prop where
  apart : ∀ i j, EdgeAt flag cell i → EdgeAt flag cell j → i ≠ j → w / 4 ≤ |i - j|
  above : ∀ i, EdgeAt flag cell i → above i

/-- The marks are apart, and those before the pending one (the kernel going to `dir`) are so from it. -/
structure Slope.Keeps (flag : UInt8) (w dir : ℤ) (above : ℤ → Prop) (st : Slope) : Prop where
  separated : Separated flag w above st.marks.cell
  pending : ∀ i, EdgeAt flag st.marks.cell i → 0 ≤ st.besti
  behind : ∀ i, EdgeAt flag st.marks.cell i → i ≠ st.besti → w / 4 ≤ dir * (st.besti - i)

/-- A mark far enough ahead of all the others. -/
theorem Separated.set (h : Separated flag w above cell) (hflag : flag ≠ 0) (hdir : |dir| = 1) (hi : above i)
    (hbehind : ∀ j, EdgeAt flag cell j → w / 4 ≤ dir * (i - j)) :
    Separated flag w above (Function.update cell i (cell i ||| flag)) := by
  have hfar (j : ℤ) (hj : EdgeAt flag cell j) : w / 4 ≤ |i - j| := by
    have habs := le_abs_self (dir * (i - j))
    rw [abs_mul, hdir, one_mul] at habs
    exact (hbehind j hj).trans habs
  constructor
  · intro j k hj hk hne
    rcases (edgeAt_set hflag).mp hj with rfl | hj'
    · exact hfar k (((edgeAt_set hflag).mp hk).resolve_left (Ne.symm hne))
    · rcases (edgeAt_set hflag).mp hk with rfl | hk'
      · rw [abs_sub_comm]
        exact hfar j hj'
      · exact h.apart j k hj' hk' hne
  · intro j hj
    rcases (edgeAt_set hflag).mp hj with rfl | hj
    · exact hi
    · exact h.above j hj

/-- What a response above the threshold does keeps the marks apart. -/
theorem Slope.Keeps.markSlope (h : st.Keeps flag w dir above) (hflag : flag ≠ 0) (hdir : |dir| = 1)
    (h0 : 0 ≤ i) (hi : above i) (hahead : 0 ≤ st.besti → 0 ≤ dir * (i - st.besti))
    (hmark : markSlope flag w i (dir * (i - st.besti)) response st = some st') :
    st'.Keeps flag w dir above := by
  have hahead' (j : ℤ) : dir * (i - j) = dir * (i - st.besti) + dir * (st.besti - j) := by ring
  obtain rfl | ⟨cell, rfl, hcell⟩ := markSlope_cases hmark
  · exact h
  have hbehind : ∀ j, EdgeAt flag cell j → w / 4 ≤ dir * (i - j) := by
    intro j hj
    rcases hcell with ⟨hfar, rfl⟩ | ⟨hpending, rfl⟩
    · have hpending := h.pending j hj
      have hfar := hfar.resolve_left (by omega)
      by_cases hjb : j = st.besti
      · rw [hjb]
        exact hfar
      · have := h.behind j hj hjb
        have := hahead hpending
        rw [hahead' j]
        omega
    · obtain ⟨hjb, hj⟩ := edgeAt_clear.mp hj
      have := h.behind j hj hjb
      have := hahead hpending
      rw [hahead' j]
      omega
  have hseparated : Separated flag w above cell := by
    rcases hcell with ⟨-, rfl⟩ | ⟨-, rfl⟩
    · exact h.separated
    · exact ⟨fun j k hj hk => h.separated.apart j k (edgeAt_clear.mp hj).2 (edgeAt_clear.mp hk).2,
        fun j hj => h.separated.above j (edgeAt_clear.mp hj).2⟩
  refine ⟨hseparated.set hflag hdir hi hbehind, fun _ _ => h0, fun j hj hne => ?_⟩
  exact hbehind j (((edgeAt_set hflag).mp hj).resolve_left hne)

/-! ### The kernels -/

/-- The average of a window that ends at `i`, and how far it is above what follows. -/
def fallingResponse (ss : Spectrum) (rs : Buffer Int32) (w i : ℤ) : Int32 :=
  (rs.cell i - rs.cell (i - w)) / Int32.ofInt w - ss.level (i + slopeWidth w (w * 16 / 200))

def risingResponse (ss : Spectrum) (rs : Buffer Int32) (w i : ℤ) : Int32 :=
  (rs.cell (i + w) - rs.cell i) / Int32.ofInt w - ss.level (i - slopeWidth w (w * 16 / 200))

theorem fallingStep_cases (h : fallingStep ss rs w (slopeWidth w (w * 16 / 200)) st i = some st') :
    st' = st ∨ 0 ≤ i ∧ ss.threshold < fallingResponse ss rs w i ∧
      markSlope falling w i (st.besti - i) (fallingResponse ss rs w i) st = some st' := by
  obtain ⟨x, hx, h⟩ := Option.bind_eq_some_iff.mp h
  obtain ⟨y, hy, h⟩ := Option.bind_eq_some_iff.mp h
  obtain ⟨right, hright, h⟩ := Option.bind_eq_some_iff.mp h
  obtain ⟨hin, rfl⟩ := Buffer.read_eq_some hx
  obtain ⟨-, rfl⟩ := Buffer.read_eq_some hy
  obtain ⟨-, rfl⟩ := Buffer.read_eq_some hright
  dsimp only at h
  split at h
  · exact .inr ⟨hin.1, ‹_›, h⟩
  · cases h
    exact .inl rfl

theorem risingStep_cases (h : risingStep ss rs w (slopeWidth w (w * 16 / 200)) st i = some st') :
    st' = st ∨ 0 ≤ i ∧ ss.threshold < risingResponse ss rs w i ∧
      markSlope rising w i (i - st.besti) (risingResponse ss rs w i) st = some st' := by
  obtain ⟨x, hx, h⟩ := Option.bind_eq_some_iff.mp h
  obtain ⟨y, hy, h⟩ := Option.bind_eq_some_iff.mp h
  obtain ⟨left, hleft, h⟩ := Option.bind_eq_some_iff.mp h
  obtain ⟨-, rfl⟩ := Buffer.read_eq_some hx
  obtain ⟨hin, rfl⟩ := Buffer.read_eq_some hy
  obtain ⟨-, rfl⟩ := Buffer.read_eq_some hleft
  dsimp only at h
  split at h
  · exact .inr ⟨hin.1, ‹_›, h⟩
  · cases h
    exact .inl rfl

theorem Slope.Keeps.start (h : ∀ i, ¬ EdgeAt flag marks.cell i) :
    Slope.Keeps flag w dir above ⟨marks, -1, 0⟩ :=
  ⟨⟨fun i _ hi => absurd hi (h i), fun i hi => absurd hi (h i)⟩, fun i hi => absurd hi (h i),
    fun i hi => absurd hi (h i)⟩

/-- The marks of the falling edges are apart. -/
theorem fallingKernel_separated {fallen : Buffer UInt8} (hclear : ∀ i, ¬ EdgeAt falling marks.cell i)
    (h : fallingKernel ss rs w marks = some fallen) :
    Separated falling w (fun i => ss.threshold < fallingResponse ss rs w i) fallen.cell := by
  obtain ⟨st, hst, h⟩ := Option.bind_eq_some_iff.mp h
  cases h
  -- the kernel goes down: what is pending is above where it is
  refine (foldlM_down_keeps (fun i st => Slope.Keeps falling w (-1)
    (fun i => ss.threshold < fallingResponse ss rs w i) st ∧ (0 ≤ st.besti → i < st.besti))
    ⟨.start hclear, fun hb => absurd (show (0 : ℤ) ≤ -1 from hb) (by decide)⟩ ?_ hst).1.separated
  rintro s i s' ⟨hk, hahead⟩ hstep
  rcases fallingStep_cases hstep with rfl | ⟨h0, hi, hmark⟩
  · exact ⟨hk, fun hb => by have := hahead hb; omega⟩
  · refine ⟨hk.markSlope (by decide) rfl h0 hi (fun hb => by have := hahead hb; omega)
      (by rwa [show -1 * (i - s.besti) = s.besti - i by omega]), fun hb => ?_⟩
    rcases markSlope_cases hmark with rfl | ⟨cell, rfl, -⟩
    · have := hahead hb
      omega
    · exact Int.sub_one_lt_of_le le_rfl

/-- The marks of the rising edges are apart. -/
theorem risingKernel_separated {fallen : Buffer UInt8} (hclear : ∀ i, ¬ EdgeAt rising fallen.cell i)
    (h : risingKernel ss rs w fallen = some marks) :
    Separated rising w (fun i => ss.threshold < risingResponse ss rs w i) marks.cell := by
  obtain ⟨st, hst, h⟩ := Option.bind_eq_some_iff.mp h
  cases h
  refine (foldlM_up_keeps (fun i st => Slope.Keeps rising w 1
    (fun i => ss.threshold < risingResponse ss rs w i) st ∧ (0 ≤ st.besti → st.besti < i))
    ⟨.start hclear, fun hb => absurd (show (0 : ℤ) ≤ -1 from hb) (by decide)⟩ ?_ hst).1.separated
  rintro s i s' ⟨hk, hahead⟩ hstep
  rcases risingStep_cases hstep with rfl | ⟨h0, hi, hmark⟩
  · exact ⟨hk, fun hb => by have := hahead hb; omega⟩
  · refine ⟨hk.markSlope (by decide) rfl h0 hi (fun hb => by have := hahead hb; omega)
      (by rwa [one_mul]), fun hb => ?_⟩
    rcases markSlope_cases hmark with rfl | ⟨cell, rfl, -⟩
    · have := hahead hb
      omega
    · exact Int.lt_add_one_of_le le_rfl

/-- Each kernel leaves the marks of the other alone. -/
theorem fallingKernel_rising {fallen : Buffer UInt8} (h : fallingKernel ss rs w marks = some fallen) :
    EdgeAt rising fallen.cell i ↔ EdgeAt rising marks.cell i := by
  obtain ⟨st, hst, h⟩ := Option.bind_eq_some_iff.mp h
  cases h
  have hkeep := foldlM_down_keeps (fun _ st => st.marks.cell i &&& rising = marks.cell i &&& rising) rfl
    (fun s k s' hs hstep => by
      rcases fallingStep_cases hstep with rfl | ⟨-, -, hmark⟩
      · exact hs
      · exact (markSlope_other hmark (by decide)).trans hs) hst
  rw [EdgeAt, EdgeAt, hkeep]

theorem risingKernel_falling {fallen : Buffer UInt8} (h : risingKernel ss rs w fallen = some marks) :
    EdgeAt falling marks.cell i ↔ EdgeAt falling fallen.cell i := by
  obtain ⟨st, hst, h⟩ := Option.bind_eq_some_iff.mp h
  cases h
  have hkeep := foldlM_up_keeps (fun _ st => st.marks.cell i &&& falling = fallen.cell i &&& falling) rfl
    (fun s k s' hs hstep => by
      rcases risingStep_cases hstep with rfl | ⟨-, -, hmark⟩
      · exact hs
      · exact (markSlope_other hmark (by decide)).trans hs) hst
  rw [EdgeAt, EdgeAt, hkeep]

/-- Any two positions that `falling_kernel` marks, and any two that `rising_kernel` marks, are at least a
    quarter of the window apart, and each has a response above the threshold; the marks are what the
    kernels leave of an unmarked spectrum, and they do come to an end. -/
theorem edge_marks_separated (ss : Spectrum) (rs : Buffer Int32) (w : ℤ) :
    (rs.size = ss.len → 0 < w → ∃ marks, spectralInitLevel ss rs w = some marks) ∧
      ∀ fallen marks, fallingKernel ss rs w ⟨ss.len, fun _ => 0⟩ = some fallen →
        risingKernel ss rs w fallen = some marks →
          Separated falling w (fun i => ss.threshold < fallingResponse ss rs w i) fallen.cell ∧
          Separated rising w (fun i => ss.threshold < risingResponse ss rs w i) marks.cell ∧
          ∀ i, EdgeAt falling marks.cell i ↔ EdgeAt falling fallen.cell i := by
  refine ⟨fun hrs hw => ?_, fun fallen marks hfall hrise => ?_⟩
  · obtain ⟨marks, hmarks, -⟩ := spectralInitLevel_some hrs hw
    exact ⟨marks, hmarks⟩
  · have hnone (flag : UInt8) (i : ℤ) : ¬ EdgeAt flag (fun _ : ℤ => 0) i := fun h => h UInt8.zero_and
    exact ⟨fallingKernel_separated (hnone _) hfall,
      risingKernel_separated (fun i hi => hnone _ i ((fallingKernel_rising hfall).mp hi)) hrise,
      fun i => risingKernel_falling hrise⟩

end Dvb.Scan

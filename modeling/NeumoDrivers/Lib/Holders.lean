import Mathlib.Data.Fintype.Card

/-! Counting who holds what.

    Each of finitely many holders has at most one resource. `count f i` is the number of holders of
    `i`; the lemmas say how it changes when a single holder lets go of one resource or takes up
    another. -/

namespace Holders

variable {D ι : Type} [Fintype D] [DecidableEq D] [DecidableEq ι]
variable {f : D → Option ι} {d : D} {i : ι} {x : Option ι}

/-- The number of holders of `i`. -/
def count (f : D → Option ι) (i : ι) : ℕ := (Finset.univ.filter fun d => f d = some i).card

omit [DecidableEq D] in
theorem count_none : count (fun _ : D => (none : Option ι)) i = 0 := by
  simp [count]

omit [DecidableEq D] in
theorem count_le_card (f : D → Option ι) (i : ι) : count f i ≤ Fintype.card D :=
  Finset.card_filter_le _ _

omit [DecidableEq D] in
theorem count_pos (h : f d = some i) : 0 < count f i :=
  Finset.card_pos.mpr ⟨d, by simpa using h⟩

omit [DecidableEq D] in
theorem count_eq_zero : count f i = 0 ↔ ∀ d, f d ≠ some i := by
  simp [count, Finset.filter_eq_empty_iff]

omit [DecidableEq D] in
theorem count_eq_one (h : f d = some i) : count f i = 1 ↔ ∀ e, f e = some i → e = d := by
  rw [count, Finset.card_eq_one]
  constructor
  · rintro ⟨a, ha⟩ e he
    have hmem : ∀ e, f e = some i ↔ e = a := fun e => by
      have := Finset.ext_iff.mp ha e
      simpa using this
    rw [(hmem e).mp he, (hmem d).mp h]
  · intro honly
    refine ⟨d, Finset.ext fun e => ?_⟩
    simp only [Finset.mem_filter, Finset.mem_univ, true_and, Finset.mem_singleton]
    exact ⟨honly e, fun he => he ▸ h⟩

theorem count_update_of_ne (hf : f d ≠ some i) (hx : x ≠ some i) :
    count (Function.update f d x) i = count f i := by
  refine congrArg Finset.card (Finset.filter_congr fun e _ => ?_)
  rcases eq_or_ne e d with rfl | he
  · simp [hf, hx]
  · rw [Function.update_of_ne he]

theorem count_update_gain (hf : f d ≠ some i) :
    count (Function.update f d (some i)) i = count f i + 1 := by
  rw [count, count, ← Finset.card_insert_of_notMem (a := d) (by simpa using hf)]
  refine congrArg Finset.card (Finset.ext fun e => ?_)
  rcases eq_or_ne e d with rfl | he
  · simp
  · simp [he]

theorem count_update_lose (hf : f d = some i) (hx : x ≠ some i) :
    count (Function.update f d x) i + 1 = count f i := by
  have hgain := count_update_gain (f := Function.update f d x) (d := d) (i := i)
    (by rw [Function.update_self]; exact hx)
  rw [Function.update_idem, ← hf, Function.update_eq_self] at hgain
  exact hgain.symm

end Holders

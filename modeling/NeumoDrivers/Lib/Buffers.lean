import Mathlib.Data.Int.Order.Basic
import Mathlib.Logic.Function.Basic
import Mathlib.Tactic.Common

/-! Arrays of a fixed size that are read and written at signed indices.

    An access outside the array has no result. `forUp` is a counting loop over such accesses, and
    `forUp_rule` its rule: an invariant that each pass has a result for, and keeps. -/

namespace Buffers

/-- An array of `size` cells. -/
structure Buffer (α : Type) where
  size : ℕ
  cell : ℤ → α

variable {α β σ : Type}

namespace Buffer

def Inside (b : Buffer α) (i : ℤ) : Prop := 0 ≤ i ∧ i < b.size

instance (b : Buffer α) (i : ℤ) : Decidable (b.Inside i) := inferInstanceAs (Decidable (_ ∧ _))

def read (b : Buffer α) (i : ℤ) : Option α := if b.Inside i then some (b.cell i) else none

def write (b : Buffer α) (i : ℤ) (x : α) : Option (Buffer α) :=
  if b.Inside i then some ⟨b.size, Function.update b.cell i x⟩ else none

def map (f : α → β) (b : Buffer α) : Buffer β := ⟨b.size, fun i => f (b.cell i)⟩

/-- Writes, one after the other. -/
def writeAll (b : Buffer α) : List (ℤ × α) → Option (Buffer α)
  | [] => some b
  | w :: ws => (b.write w.1 w.2).bind (writeAll · ws)

@[simp] theorem map_size (f : α → β) (b : Buffer α) : (b.map f).size = b.size := rfl

variable {b b' : Buffer α} {i j : ℤ} {x : α} {ws : List (ℤ × α)}

theorem read_inside (h : b.Inside i) : b.read i = some (b.cell i) := if_pos h

theorem read_eq_some (h : b.read i = some x) : b.Inside i ∧ x = b.cell i := by
  rw [read] at h
  split at h
  · cases h
    exact ⟨‹_›, rfl⟩
  · cases h

theorem write_inside (h : b.Inside i) : b.write i x = some ⟨b.size, Function.update b.cell i x⟩ :=
  if_pos h

/-- A cell that is read, changed and written back. -/
theorem change_inside {f : α → α} {k : Buffer α → Option σ} {s : σ}
    (h : ((b.read i).bind fun x => (b.write i (f x)).bind k) = some s) :
    b.Inside i ∧ k ⟨b.size, Function.update b.cell i (f (b.cell i))⟩ = some s := by
  by_cases hin : b.Inside i
  · rw [read_inside hin, Option.bind_some, write_inside hin, Option.bind_some] at h
    exact ⟨hin, h⟩
  · rw [read, if_neg hin] at h
    cases h

/-- Writes inside the array have a result, which is as large: a cell holds what one of them put there,
    or what it held. -/
theorem writeAll_inside (hin : ∀ w ∈ ws, b.Inside w.1) :
    ∃ b', b.writeAll ws = some b' ∧ b'.size = b.size ∧
      ∀ i, (i, b'.cell i) ∈ ws ∨ i ∉ ws.map Prod.fst ∧ b'.cell i = b.cell i := by
  induction ws generalizing b with
  | nil => exact ⟨b, rfl, rfl, fun i => .inr ⟨List.not_mem_nil, rfl⟩⟩
  | cons w ws ih =>
    have hw := write_inside (x := w.2) (hin w List.mem_cons_self)
    obtain ⟨b', hb', hsize, hcell⟩ := ih (b := ⟨b.size, Function.update b.cell w.1 w.2⟩)
      fun v hv => hin v (List.mem_cons_of_mem _ hv)
    refine ⟨b', by rw [writeAll, hw]; exact hb', hsize, fun i => ?_⟩
    rcases hcell i with hi | ⟨hi, heq⟩
    · exact .inl (List.mem_cons_of_mem _ hi)
    · by_cases hiw : i = w.1
      · subst hiw
        left
        rw [heq]
        dsimp only
        rw [Function.update_self]
        exact List.mem_cons_self
      · right
        rw [heq]
        dsimp only
        rw [Function.update_of_ne hiw]
        exact ⟨by simpa [hiw] using hi, rfl⟩

end Buffer

/-! ### Counting loops -/

/-- `for (i = a; i < a + n; ++i)`. -/
def forUp (f : ℤ → σ → Option σ) : ℕ → ℤ → σ → Option σ
  | 0, _, s => some s
  | n + 1, i, s => (f i s).bind (forUp f n (i + 1))

/-- Each pass has a result and takes the invariant on. -/
theorem forUp_rule {f : ℤ → σ → Option σ} (inv : ℤ → σ → Prop) {n : ℕ} {a : ℤ} {s : σ} (hs : inv a s)
    (hstep : ∀ i s, a ≤ i → i < a + n → inv i s → ∃ s', f i s = some s' ∧ inv (i + 1) s') :
    ∃ s', forUp f n a s = some s' ∧ inv (a + n) s' := by
  induction n generalizing a s with
  | zero => exact ⟨s, rfl, by simpa using hs⟩
  | succ n ih =>
    obtain ⟨t, ht, hinv⟩ := hstep a s le_rfl (by omega) hs
    obtain ⟨u, hu, hend⟩ := ih hinv fun i s hi hlt => hstep i s (by omega) (by omega)
    refine ⟨u, by rw [forUp, ht]; exact hu, ?_⟩
    rwa [show a + ((n + 1 : ℕ) : ℤ) = a + 1 + n by omega]

end Buffers

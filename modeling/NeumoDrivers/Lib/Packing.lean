import Mathlib.Tactic.Common
import Mathlib.Data.List.Basic

/-! Records packed into cells.

    Records follow one another and are cut into cells of one size. A cell in which a record starts is
    marked, and its first symbol tells how many symbols of an earlier record come before that start.
    Behind a record the rest of a cell may be filled up, and a record does not start in the last
    symbols of a cell. `Packed rest rs cells` says that `cells` hold the rest of a record and then the
    records `rs`. -/

namespace Packing

variable {α ρ : Type}

/-- How records are packed: what a record is spelled with, how many symbols a cell takes, which symbol
    fills it up, how the start of a record is pointed at, and how much room a start needs. -/
structure Format (α ρ : Type) where
  spell : ρ → List α
  size : ℕ
  pad : α
  pointer : ℕ → α
  least : ℕ

/-- What a cell carries, and whether a record starts in it. -/
structure Cell (α : Type) where
  starts : Bool
  symbols : List α

variable (F : Format α ρ)

/-- `n` symbols take in records: nothing more, a whole record and what follows, or the start of a
    record. What is left over is the rest of that record, and the records that have not started. -/
inductive Fill : ℕ → List ρ → List α → List α → List ρ → Prop where
  | pad (n : ℕ) (rs : List ρ) : Fill n rs (List.replicate n F.pad) [] rs
  | whole {n : ℕ} {rs rs' : List ρ} {w rest : List α} (r : ρ) : Fill n rs w rest rs' →
    Fill ((F.spell r).length + n) (r :: rs) (F.spell r ++ w) rest rs'
  | cut {n : ℕ} (r : ρ) (rs : List ρ) : F.least ≤ n → n < (F.spell r).length →
    Fill n (r :: rs) ((F.spell r).take n) ((F.spell r).drop n) rs

/-- The cells hold the rest of a record, and then records. -/
inductive Packed : List α → List ρ → List (Cell α) → Prop where
  | done : Packed [] [] []
  | inside {piece rest : List α} {rs : List ρ} {cells : List (Cell α)} :
    piece.length = F.size → rest ≠ [] → Packed rest rs cells →
    Packed (piece ++ rest) rs (⟨false, piece⟩ :: cells)
  | ends {rest : List α} {rs : List ρ} {cells : List (Cell α)} :
    rest.length ≤ F.size → Packed [] rs cells →
    Packed rest rs (⟨false, rest ++ List.replicate (F.size - rest.length) F.pad⟩ :: cells)
  | starts {n : ℕ} {rest rest' w : List α} {rs rs' : List ρ} {cells : List (Cell α)} :
    rest.length + n + 1 = F.size → Fill F n rs w rest' rs' → rs'.length < rs.length →
    Packed rest' rs' cells →
    Packed rest rs (⟨true, F.pointer rest.length :: (rest ++ w)⟩ :: cells)

variable {F}

theorem Fill.length {n : ℕ} {rs rs' : List ρ} {w rest : List α} (h : Fill F n rs w rest rs') :
    w.length = n := by
  induction h with
  | pad n rs => exact List.length_replicate
  | whole r _ ih => rw [List.length_append, ih]
  | cut r rs _ hlt => rw [List.length_take, Nat.min_eq_left (Nat.le_of_lt hlt)]

theorem Fill.suffix {n : ℕ} {rs rs' : List ρ} {w rest : List α} (h : Fill F n rs w rest rs') :
    ∃ begun, rs = begun ++ rs' := by
  induction h with
  | pad n rs => exact ⟨[], rfl⟩
  | whole r _ ih =>
    obtain ⟨begun, rfl⟩ := ih
    exact ⟨r :: begun, rfl⟩
  | cut r rs _ _ => exact ⟨[r], rfl⟩

end Packing

import Mathlib.Tactic.Common
import Mathlib.Data.List.Infix

/-! Reading records in pieces.

    Records are stored one after the other, and a reader takes their symbols out in pieces of any
    size. `Framed` says of a history that no piece runs over the end of a record, that nothing is
    left out but by a flush, which drops all that is stored, and that a reader that has been told of
    an error goes on with the start of a record. -/

namespace Framing

variable {α ε : Type} {rest rest' piece more : List α} {waiting waiting' : List (List α)}

/-- What happens to the records. -/
inductive Happening (α ε : Type) where
  | stored (record : List α)
  | flushed
  | returned (result : Except ε (List α))

/-- The reader takes a piece: nothing, a part of what is left of the record it is reading, or the
    start of the next one. -/
inductive Takes : List α → List (List α) → List α → List α → List (List α) → Prop where
  | none (rest : List α) (waiting : List (List α)) : Takes rest waiting [] rest waiting
  | more (piece rest : List α) (waiting : List (List α)) : piece ≠ [] →
    Takes (piece ++ rest) waiting piece rest waiting
  | next (piece rest : List α) (waiting : List (List α)) : piece ≠ [] →
    Takes [] ((piece ++ rest) :: waiting) piece rest waiting

/-- What is left of the record that is being read, and the records that wait. -/
inductive Framed : List (Happening α ε) → List α → List (List α) → Prop where
  | start : Framed [] [] []
  | stored {log rest waiting} (record : List α) : Framed log rest waiting →
    Framed (log ++ [.stored record]) rest (waiting ++ [record])
  | flushed {log rest waiting} : Framed log rest waiting → Framed (log ++ [.flushed]) [] []
  | returned {log rest waiting piece rest' waiting'} : Framed log rest waiting →
    Takes rest waiting piece rest' waiting' →
    Framed (log ++ [.returned (.ok piece)]) rest' waiting'
  | failed {log waiting} (e : ε) : Framed log [] waiting →
    Framed (log ++ [.returned (.error e)]) [] waiting

/-! ### A piece -/

theorem Takes.nil (h : Takes rest waiting [] rest' waiting') : rest' = rest ∧ waiting' = waiting := by
  generalize hpiece : ([] : List α) = piece at h
  cases h with
  | none => exact ⟨rfl, rfl⟩
  | more piece _ _ hne => exact absurd hpiece.symm hne
  | next piece _ _ hne => exact absurd hpiece.symm hne

/-- Records stored meanwhile wait. -/
theorem Takes.store (h : Takes rest waiting piece rest' waiting') (records : List (List α)) :
    Takes rest (waiting ++ records) piece rest' (waiting' ++ records) := by
  cases h with
  | none => exact .none _ _
  | more piece rest waiting hpiece => exact .more _ _ _ hpiece
  | next piece rest waiting hpiece => exact .next _ _ _ hpiece

/-- The reader goes on with the same record. -/
theorem Takes.extend (h : Takes rest waiting piece (more ++ rest') waiting') (hmore : more ≠ []) :
    Takes rest waiting (piece ++ more) rest' waiting' := by
  have hboth : piece ++ more ≠ [] := fun h => hmore (List.append_eq_nil_iff.mp h).2
  cases h with
  | none => exact .more _ _ _ hmore
  | more piece _ waiting _ =>
    rw [← List.append_assoc]
    exact .more _ _ _ hboth
  | next piece _ waiting _ =>
    rw [← List.append_assoc]
    exact .next _ _ _ hboth

/-! ### A history -/

/-- What is left, and what waits, are parts of stored records. -/
theorem Framed.parts {log : List (Happening α ε)} (h : Framed log rest waiting) :
    (rest ≠ [] → ∃ record, .stored record ∈ log ∧ rest <:+ record) ∧
      ∀ record ∈ waiting, .stored record ∈ log := by
  induction h with
  | start => exact ⟨fun h => absurd rfl h, nofun⟩
  | stored record _ ih =>
    obtain ⟨hrest, hwaiting⟩ := ih
    refine ⟨fun hne => ?_, fun r hr => ?_⟩
    · obtain ⟨r, hr, hsuffix⟩ := hrest hne
      exact ⟨r, List.mem_append_left _ hr, hsuffix⟩
    · rcases List.mem_append.mp hr with hr | hr
      · exact List.mem_append_left _ (hwaiting r hr)
      · rw [List.mem_singleton.mp hr]
        exact List.mem_append_right _ List.mem_cons_self
  | flushed _ _ => exact ⟨fun h => absurd rfl h, nofun⟩
  | returned _ htakes ih =>
    obtain ⟨hrest, hwaiting⟩ := ih
    cases htakes with
    | none =>
      refine ⟨fun hne => ?_, fun r hr => List.mem_append_left _ (hwaiting r hr)⟩
      obtain ⟨r, hr, hsuffix⟩ := hrest hne
      exact ⟨r, List.mem_append_left _ hr, hsuffix⟩
    | more piece rest waiting hpiece =>
      refine ⟨fun _ => ?_, fun r hr => List.mem_append_left _ (hwaiting r hr)⟩
      obtain ⟨r, hr, hsuffix⟩ := hrest fun h => hpiece (List.append_eq_nil_iff.mp h).1
      exact ⟨r, List.mem_append_left _ hr, (List.suffix_append ..).trans hsuffix⟩
    | next piece rest waiting hpiece =>
      refine ⟨fun _ => ⟨_, List.mem_append_left _ (hwaiting _ List.mem_cons_self),
        List.suffix_append ..⟩, fun r hr => List.mem_append_left _ (hwaiting r ?_)⟩
      exact List.mem_cons_of_mem _ hr
  | failed e _ ih =>
    exact ⟨fun h => absurd rfl h, fun r hr => List.mem_append_left _ (ih.2 r hr)⟩

/-- Every piece that was returned is part of one stored record. -/
theorem Framed.one_record {log : List (Happening α ε)} (h : Framed log rest waiting)
    (hpiece : .returned (.ok piece) ∈ log) (hne : piece ≠ []) :
    ∃ record, .stored record ∈ log ∧ piece <:+: record := by
  induction h with
  | start => cases hpiece
  | stored record _ ih =>
    rcases List.mem_append.mp hpiece with hold | hnew
    · obtain ⟨r, hr, hinfix⟩ := ih hold
      exact ⟨r, List.mem_append_left _ hr, hinfix⟩
    · cases List.mem_singleton.mp hnew
  | flushed _ ih =>
    rcases List.mem_append.mp hpiece with hold | hnew
    · obtain ⟨r, hr, hinfix⟩ := ih hold
      exact ⟨r, List.mem_append_left _ hr, hinfix⟩
    · cases List.mem_singleton.mp hnew
  | returned hframed htakes ih =>
    rcases List.mem_append.mp hpiece with hold | hnew
    · obtain ⟨r, hr, hinfix⟩ := ih hold
      exact ⟨r, List.mem_append_left _ hr, hinfix⟩
    · cases List.mem_singleton.mp hnew
      obtain ⟨hrest, hwaiting⟩ := hframed.parts
      cases htakes with
      | none => exact absurd rfl hne
      | more piece rest waiting _ =>
        obtain ⟨r, hr, hsuffix⟩ := hrest fun h => hne (List.append_eq_nil_iff.mp h).1
        exact ⟨r, List.mem_append_left _ hr,
          (List.prefix_append ..).isInfix.trans hsuffix.isInfix⟩
      | next piece rest waiting _ =>
        exact ⟨_, List.mem_append_left _ (hwaiting _ List.mem_cons_self),
          (List.prefix_append ..).isInfix⟩
  | failed e _ ih =>
    rcases List.mem_append.mp hpiece with hold | hnew
    · obtain ⟨r, hr, hinfix⟩ := ih hold
      exact ⟨r, List.mem_append_left _ hr, hinfix⟩
    · cases List.mem_singleton.mp hnew

end Framing

import Mathlib.Data.List.Basic
import Mathlib.Tactic.Common

/-! Computations that may fault.

    `Avoids bad Q x` says that `x` does not end in one of the faults `bad`, and that its result, if it
    has one, is in `Q`. It goes through a sequence of computations one at a time. -/

namespace Faults

variable {ε α β : Type} {bad : ε → Prop} {P Q : α → Prop} {R : β → Prop}

def Avoids (bad : ε → Prop) (Q : α → Prop) : Except ε α → Prop
  | .ok a => Q a
  | .error e => ¬bad e

theorem avoids_pure {a : α} (h : Q a) : Avoids bad Q (pure a) := h

theorem Avoids.mono {x : Except ε α} (h : Avoids bad P x) (hPQ : ∀ a, P a → Q a) :
    Avoids bad Q x := by
  cases x with
  | ok a => exact hPQ a h
  | error e => exact h

theorem Avoids.bind {x : Except ε α} {f : α → Except ε β} (hx : Avoids bad P x)
    (hf : ∀ a, P a → Avoids bad R (f a)) : Avoids bad R (x >>= f) := by
  cases x with
  | ok a => exact hf a hx
  | error e => exact hx

theorem Avoids.of_eq {x : Except ε α} {a : α} (h : x = .ok a) (ha : Q a) : Avoids bad Q x := by
  rw [h]
  exact ha

theorem Avoids.result {x : Except ε α} {a : α} (h : Avoids bad Q x) (hx : x = .ok a) : Q a := by
  rw [hx] at h
  exact h

/-- What each element keeps, a pass over all of them keeps. -/
theorem avoids_foldlM {f : β → α → Except ε β} {l : List α} {b : β} (hb : R b)
    (hf : ∀ b a, R b → a ∈ l → Avoids bad R (f b a)) : Avoids bad R (l.foldlM f b) := by
  induction l generalizing b with
  | nil => exact avoids_pure hb
  | cons a l ih =>
    rw [List.foldlM_cons]
    exact (hf b a hb List.mem_cons_self).bind fun b hb =>
      ih hb fun b a hb ha => hf b a hb (List.mem_cons_of_mem _ ha)

theorem ok_bind {x : Except ε α} {a : α} (h : x = .ok a) (f : α → Except ε β) : (x >>= f) = f a := by
  rw [h]
  rfl

end Faults

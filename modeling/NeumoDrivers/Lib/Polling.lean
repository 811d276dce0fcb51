import Mathlib.Data.Nat.Basic
import Mathlib.Tactic.Common

/-! Loops that poll a number of times.

    Pass `i` changes a state and may leave the loop for a reason; a loop that is not left by then ends
    after its last pass. Where the reasons do not depend on the state, `leaveAt` is where the loop is left
    and why, and `poll_rule` the rule for an invariant of its passes. -/

namespace Polling

variable {σ ρ : Type}

/-- At most `n` passes from pass `i` on: the pass at which the loop is left, why, and the state. -/
def poll (pass : ℕ → σ → σ × Option ρ) (last : ρ) : ℕ → ℕ → σ → ℕ × ρ × σ
  | 0, i, s => (i, last, s)
  | n + 1, i, s =>
    match pass i s with
    | (s', some r) => (i, r, s')
    | (s', none) => poll pass last n (i + 1) s'

/-- The first of at most `n` passes from pass `i` on that leaves, and why. -/
def leaveAt (leaves : ℕ → Option ρ) (last : ρ) : ℕ → ℕ → ℕ × ρ
  | 0, i => (i, last)
  | n + 1, i =>
    match leaves i with
    | some r => (i, r)
    | none => leaveAt leaves last n (i + 1)

/-- Where the reasons are those of `leaves`, the loop is left where they say, and the state is what the
    invariant says there: after the last pass, or after the one that leaves. -/
theorem poll_rule (pass : ℕ → σ → σ × Option ρ) (leaves : ℕ → Option ρ) (last : ρ)
    (inv : ℕ → σ → Prop) (n : ℕ) : ∀ {i : ℕ} {s : σ}, inv i s →
    (∀ j s, i ≤ j → inv j s →
      (pass j s).2 = leaves j ∧ (leaves j = none → inv (j + 1) (pass j s).1)) →
    ∃ s', poll pass last n i s = ((leaveAt leaves last n i).1, (leaveAt leaves last n i).2, s') ∧
      ((leaveAt leaves last n i).1 = i + n ∧ (leaveAt leaves last n i).2 = last ∧ inv (i + n) s' ∨
        ∃ k s₀, k < i + n ∧ (leaveAt leaves last n i).1 = k ∧ inv k s₀ ∧
          pass k s₀ = (s', some (leaveAt leaves last n i).2)) := by
  induction n with
  | zero => exact fun {i s} h _ => ⟨s, rfl, .inl ⟨rfl, rfl, h⟩⟩
  | succ n ih =>
    intro i s h hstep
    obtain ⟨hreason, hnext⟩ := hstep i s le_rfl h
    generalize hp : pass i s = p at hreason hnext
    obtain ⟨s₁, reason⟩ := p
    dsimp only at hreason hnext
    rw [poll, hp, leaveAt]
    cases hl : leaves i with
    | some r =>
      rw [hl] at hreason
      subst hreason
      exact ⟨s₁, rfl, .inr ⟨i, s, by omega, rfl, h, hp⟩⟩
    | none =>
      rw [hl] at hreason
      subst hreason
      obtain ⟨s', hpoll, hend⟩ := ih (hnext hl) fun j s hj => hstep j s (by omega)
      refine ⟨s', hpoll, ?_⟩
      rcases hend with ⟨hat, hlast, hinv⟩ | ⟨k, s₀, hkn, hat, hinv, hleave⟩
      · exact .inl ⟨by dsimp only; omega, hlast, by rwa [show i + (n + 1) = i + 1 + n by omega]⟩
      · exact .inr ⟨k, s₀, by omega, hat, hinv, hleave⟩

end Polling

import Mathlib.Data.Multiset.Filter

/-! Things on loan.

    Each holder has at most one thing. What is lent is covered by the holders when it can be got back
    by going round them: each thing that is out, as often as it is out, is held by one of them. A
    holder may think it has something that it has given back. -/

namespace Loans

variable {α β : Type*} {share share' : α → Option β} {held held' : Multiset α} {lent : Multiset β}
  {a : α} {b : β}

def Covered (share : α → Option β) (held : Multiset α) (lent : Multiset β) : Prop :=
  lent ≤ held.filterMap share

theorem covered_zero : Covered share 0 lent ↔ lent = 0 := by
  rw [Covered, Multiset.filterMap_zero, Multiset.le_zero]

theorem covered_of_zero (share : α → Option β) (held : Multiset α) : Covered share held 0 :=
  Multiset.zero_le _

theorem Covered.mono (h : Covered share held lent) (hle : held ≤ held') :
    Covered share held' lent :=
  h.trans (Multiset.filterMap_le_filterMap share hle)

theorem filterMap_congr (heq : ∀ a ∈ held, share' a = share a) :
    held.filterMap share' = held.filterMap share := by
  induction held using Multiset.induction with
  | empty => rfl
  | cons a held ih =>
    have hhead := heq a (Multiset.mem_cons_self a held)
    have htail := ih fun b hb => heq b (Multiset.mem_cons_of_mem hb)
    rw [Multiset.filterMap_cons, Multiset.filterMap_cons, hhead, htail]

theorem Covered.congr (h : Covered share held lent) (heq : ∀ a ∈ held, share' a = share a) :
    Covered share' held lent := by
  rw [Covered, filterMap_congr heq]
  exact h

theorem Covered.take (h : Covered share held lent) (ha : share a = some b) :
    Covered share (a ::ₘ held) (b ::ₘ lent) := by
  rw [Covered, Multiset.filterMap_cons_some share a held ha]
  exact Multiset.cons_le_cons b h

theorem Covered.give [DecidableEq β] (h : Covered share (a ::ₘ held) lent) (ha : share a = some b) :
    Covered share held (lent.erase b) := by
  rw [Covered, Multiset.filterMap_cons_some share a held ha] at h
  exact Multiset.erase_le_iff_le_cons.mpr h

theorem Covered.drop (h : Covered share (a ::ₘ held) lent) (ha : share a = none) :
    Covered share held lent := by
  rw [Covered, Multiset.filterMap_cons_none a held ha] at h
  exact h

end Loans

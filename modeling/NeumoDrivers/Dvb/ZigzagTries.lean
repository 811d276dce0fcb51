import NeumoDrivers.Dvb.Zigzag
import Mathlib.Data.List.Range
import Mathlib.Tactic.Ring

/-! What the zigzag search tries.

    From a retune the search goes through the steps in order. A step tries its drift with the inversion
    the last one ended with and, when the inversion is searched too, with the other one; behind the
    first step it then does the same to the other side. -/

namespace Dvb.Zigzag

namespace FrontendPrivate

variable {p : FrontendPrivate} {k : ℕ}

/-- The last step within the maximum drift. -/
def lastStep (p : FrontendPrivate) : ℕ := p.maxDrift.toNat / p.stepSize.toNat

theorem step_mul_toNat (k : ℕ) (h : k * p.stepSize.toNat < 2 ^ 32) :
    (UInt32.ofNat k * p.stepSize).toNat = k * p.stepSize.toNat := by
  rw [UInt32.toNat_mul, UInt32.toNat_ofNat', Nat.mod_mul_mod]
  exact Nat.mod_eq_of_lt h

theorem drift_eq (p : FrontendPrivate) (k : ℕ) :
    p.drift (UInt32.ofNat k) = Int32.ofInt (k * p.stepSize.toNat) := by
  have hmul : UInt32.ofNat k * p.stepSize = UInt32.ofNat (k * p.stepSize.toNat) := by
    rw [UInt32.ofNat_mul, UInt32.ofNat_toNat]
  rw [drift, hmul, UInt32.toInt32_ofNat', ← Int32.ofInt_eq_ofNat, Int.natCast_mul]

theorem lastStep_mul (hstep : 0 < p.stepSize.toNat) (hk : k ≤ p.lastStep) :
    k * p.stepSize.toNat ≤ p.maxDrift.toNat := (Nat.le_div_iff_mul_le hstep).mp hk

section
variable (hstep : 0 < p.stepSize.toNat) (hdrift : p.maxDrift.toNat < 2 ^ 31)
include hstep hdrift

theorem not_exceeds (hk : k ≤ p.lastStep) : ¬p.Exceeds (UInt32.ofNat k) := by
  have hle := lastStep_mul hstep hk
  rw [Exceeds, drift, UInt32.toUInt32_toInt32, UInt32.lt_iff_toNat_lt, step_mul_toNat k (by omega)]
  omega

theorem exceeds_behind : p.Exceeds (UInt32.ofNat (p.lastStep + 1)) := by
  have hlt : p.maxDrift.toNat < (p.lastStep + 1) * p.stepSize.toNat := by
    rw [← Nat.div_lt_iff_lt_mul hstep]
    exact Nat.lt_succ_self _
  have hwrap : (p.lastStep + 1) * p.stepSize.toNat < 2 ^ 32 := by
    have hlast := lastStep_mul hstep (Nat.le_refl p.lastStep)
    have hsize := p.stepSize.toNat_lt
    rw [Nat.succ_mul]
    by_cases hzero : p.lastStep = 0
    · rw [hzero, Nat.zero_mul]
      omega
    · have hone : p.stepSize.toNat ≤ p.lastStep * p.stepSize.toNat :=
        Nat.le_mul_of_pos_left _ (Nat.pos_of_ne_zero hzero)
      omega
  rw [Exceeds, drift, UInt32.toUInt32_toInt32, UInt32.lt_iff_toNat_lt, step_mul_toNat _ hwrap]
  exact hlt

theorem drift_eq_zero_iff (hk : k ≤ p.lastStep) : p.drift (UInt32.ofNat k) = 0 ↔ k = 0 := by
  have hle := lastStep_mul hstep hk
  rw [drift_eq, ← Int32.toInt_inj, Int32.toInt_ofInt_of_le (by omega) (by omega),
    Int32.toInt_zero]
  constructor
  · intro h
    have hzero : k * p.stepSize.toNat = 0 := by exact_mod_cast h
    exact (Nat.mul_eq_zero.mp hzero).resolve_right (by omega)
  · rintro rfl
    simp

end

end FrontendPrivate

namespace Frontend
open FrontendPrivate

/-- The retune of `neumo_dvb_frontend_swzigzag`; the first call behind it does not check whether the
    search has wrapped. -/
def retune (fe : Frontend) : Frontend :=
  { fe with priv := { fe.priv with
      lnbDrift := 0, autoStep := 0, autoSubStep := 0, startedAutoStep := 0 } }

/-- Successive calls that each try something. Call `n` finds `outcome n`; behind the first one
    `check_wrapped` is set. -/
inductive Calls (outcome : ℕ → Option Outcome) :
    ℕ → Frontend → Bool → List PropertyCache → Frontend → Bool → Prop where
  | nil {n : ℕ} {fe : Frontend} {checkWrapped : Bool} :
    Calls outcome n fe checkWrapped [] fe checkWrapped
  | call {n : ℕ} {fe g g' : Frontend} {checkWrapped checkWrapped' : Bool} {c : PropertyCache}
    {cs : List PropertyCache} :
    fe.Returns checkWrapped (outcome n) ⟨0, g, some c⟩ → Calls outcome (n + 1) g true cs g' checkWrapped' →
    Calls outcome n fe checkWrapped (c :: cs) g' checkWrapped'

theorem Calls.append {outcome : ℕ → Option Outcome} {n : ℕ} {fe g g' : Frontend} {w w' w'' : Bool}
    {cs cs' : List PropertyCache} (h : Calls outcome n fe w cs g w')
    (h' : Calls outcome (n + cs.length) g w' cs' g' w'') :
    Calls outcome n fe w (cs ++ cs') g' w'' := by
  induction h with
  | nil => exact h'
  | call hreturns _ ih =>
    refine .call hreturns (ih ?_)
    rwa [List.length_cons, ← Nat.add_assoc, Nat.add_right_comm] at h'

/-- The inversion that the step `k` begins with. -/
def inversionAt (fe : Frontend) (k : ℕ) : FeSpectralInversion :=
  if fe.autoinversion = true ∧ k ≠ 0 then fe.priv.inversion.other else fe.priv.inversion

/-- What the step `k` tries, in this order. -/
def stepTries (fe : Frontend) (k : ℕ) : List (ℤ × FeSpectralInversion) :=
  let d : ℤ := k * fe.priv.stepSize.toNat
  let i := fe.inversionAt k
  if fe.autoinversion then
    if k = 0 then [(d, i), (d, i.other)] else [(d, i), (d, i.other), (-d, i.other), (-d, i)]
  else if k = 0 then [(d, fe.cache.inversion)]
  else [(d, fe.cache.inversion), (-d, fe.cache.inversion)]

/-- What the search tries from a retune on. -/
def tries (fe : Frontend) : List (ℤ × FeSpectralInversion) :=
  (List.range (fe.priv.lastStep + 1)).flatMap fe.stepTries

/-- What a pair of a drift and an inversion asks of the driver. -/
def askedFor (fe : Frontend) (t : ℤ × FeSpectralInversion) : PropertyCache :=
  { frequency := fe.cache.frequency + (Int32.ofInt t.1).toUInt32, inversion := t.2 }

/-- The search stands in a step. -/
def within (fe : Frontend) (k : ℕ) (sub : UInt32) (d : Int32) (i : FeSpectralInversion) : Frontend :=
  { fe with priv := { fe.priv with
      autoStep := UInt32.ofNat k, autoSubStep := sub, lnbDrift := d, inversion := i } }

/-- The search stands at the beginning of a step. -/
def atBegin (fe : Frontend) (k : ℕ) (i : FeSpectralInversion) : Frontend :=
  { fe with priv := { fe.priv with inversion := i }.atStep (UInt32.ofNat k) }

variable {fe : Frontend} {k : ℕ} {sub : UInt32} {d : Int32} {i : FeSpectralInversion}

/-! ### One step -/

theorem atStep_autoStep (p : FrontendPrivate) (step sub next : UInt32) (d : Int32) :
    { p with autoStep := step, autoSubStep := sub, lnbDrift := d }.atStep next = p.atStep next := by
  by_cases h : p.Exceeds next
  · rw [atStep_exceeds h]
    exact atStep_exceeds
      (p := { p with autoStep := step, autoSubStep := sub, lnbDrift := d }) h
  · rw [atStep_within h]
    exact atStep_within
      (p := { p with autoStep := step, autoSubStep := sub, lnbDrift := d }) h

theorem atBegin_within (hin : ¬fe.priv.Exceeds (UInt32.ofNat k)) :
    fe.atBegin k i = fe.within k 0 (fe.priv.drift (UInt32.ofNat k)) i := by
  rw [atBegin, within, atStep_within (p := { fe.priv with inversion := i }) hin]
  rfl

section
variable (hin : ¬fe.priv.Exceeds (UInt32.ofNat k))
include hin

theorem next_other (hauto : fe.autoinversion = true) :
    (fe.within k 1 d i).next = fe.within k 1 (fe.priv.drift (UInt32.ofNat k)) i.other := by
  have hauto' : (fe.within k 1 d i).autoinversion = true := hauto
  have hsub : ¬((fe.within k 1 d i).priv.Exceeds (UInt32.ofNat k) ∨ (1 : UInt32) = 0) :=
    not_or.mpr ⟨hin, by decide⟩
  rw [next, hauto', position]
  refine congrArg (fun p => { fe with priv := p }) ?_
  exact (if_neg hsub).trans (if_pos ⟨rfl, rfl⟩)

/-- Then the drift goes to the other side. -/
theorem next_side (hdrift : fe.priv.drift (UInt32.ofNat k) ≠ 0)
    (hsub : sub = 1 ∧ ¬fe.autoinversion = true ∨ sub = 2) :
    (fe.within k sub d i).next = fe.within k 2 (-fe.priv.drift (UInt32.ofNat k)) i := by
  have hauto' : (fe.within k sub d i).autoinversion = fe.autoinversion := rfl
  have hfirst : ¬((fe.within k sub d i).priv.Exceeds (UInt32.ofNat k) ∨ sub = 0) := by
    refine not_or.mpr ⟨hin, ?_⟩
    rcases hsub with ⟨rfl, -⟩ | rfl <;> decide
  have hother : ¬(sub = 1 ∧ fe.autoinversion = true) := by
    rcases hsub with ⟨-, h⟩ | rfl
    · exact fun h' => h h'.2
    · exact fun h' => absurd h'.1 (by decide)
  rw [next, hauto', position]
  refine congrArg (fun p => { fe with priv := p }) ?_
  exact (if_neg hfirst).trans ((if_neg hother).trans (if_pos ⟨hsub.imp And.left id, hdrift⟩))

/-- The fourth sub-step tries the other inversion on the other side. -/
theorem next_otherSide (hdrift : fe.priv.drift (UInt32.ofNat k) ≠ 0)
    (hauto : fe.autoinversion = true) :
    (fe.within k 3 d i).next = fe.within k 3 (-fe.priv.drift (UInt32.ofNat k)) i.other := by
  have hauto' : (fe.within k 3 d i).autoinversion = true := hauto
  have hfirst : ¬((fe.within k 3 d i).priv.Exceeds (UInt32.ofNat k) ∨ (3 : UInt32) = 0) :=
    not_or.mpr ⟨hin, by decide⟩
  have hother : ¬((3 : UInt32) = 1 ∧ true = true) := by decide
  have hside : ¬(((3 : UInt32) = 1 ∨ (3 : UInt32) = 2) ∧ fe.priv.drift (UInt32.ofNat k) ≠ 0) :=
    fun h => absurd h.1 (by decide)
  rw [next, hauto', position]
  refine congrArg (fun p => { fe with priv := p }) ?_
  exact (if_neg hfirst).trans ((if_neg hother).trans ((if_neg hside).trans
    (if_pos ⟨rfl, hdrift, rfl⟩)))

/-- Sub-steps that would try the same again are left out. -/
theorem next_step (h0 : sub ≠ 0) (hother : ¬(sub = 1 ∧ fe.autoinversion = true))
    (hside : ¬((sub = 1 ∨ sub = 2) ∧ fe.priv.drift (UInt32.ofNat k) ≠ 0))
    (hlast : ¬(sub = 3 ∧ fe.priv.drift (UInt32.ofNat k) ≠ 0 ∧ fe.autoinversion = true)) :
    (fe.within k sub d i).next = fe.atBegin (k + 1) i := by
  have hauto' : (fe.within k sub d i).autoinversion = fe.autoinversion := rfl
  have hfirst : ¬((fe.within k sub d i).priv.Exceeds (UInt32.ofNat k) ∨ sub = 0) :=
    not_or.mpr ⟨hin, h0⟩
  rw [next, hauto', position, atBegin, UInt32.ofNat_add]
  refine congrArg (fun p => { fe with priv := p }) ?_
  refine (if_neg hfirst).trans ((if_neg hother).trans ((if_neg hside).trans ((if_neg hlast).trans ?_)))
  exact atStep_autoStep { fe.priv with inversion := i } (UInt32.ofNat k) sub _ d

end

section
variable {g g' : Frontend} {outcome : ℕ → Option Outcome} {n : ℕ} {w w' : Bool}
  {cs : List PropertyCache} {j : FeSpectralInversion}

/-- An attempt that the driver takes. -/
theorem calls_next (hnext : g.next = fe.within k sub d i)
    (hwrap : ¬wrapped (fe.within k sub d i).priv w = true) (htakes : ∀ n, Takes (outcome n))
    (hshown : (if fe.autoinversion then i else fe.cache.inversion) = j)
    (h : Calls outcome (n + 1) (fe.within k (sub + 1) d i) true cs g' w') :
    Calls outcome n g w
      ({ frequency := fe.cache.frequency + d.toUInt32, inversion := j } :: cs) g' w' := by
  subst hshown
  have hreturns := returns_attempt g w (outcome n)
  rw [hnext, attempt_takes hwrap (htakes n)] at hreturns
  exact .call hreturns h

theorem not_wrapped (hsub : sub ≠ 0) : ¬wrapped (fe.within k sub d i).priv w = true := by
  simp [wrapped, within, hsub]

theorem askedFor_drift (fe : Frontend) (k : ℕ) (i : FeSpectralInversion) :
    fe.askedFor (k * fe.priv.stepSize.toNat, i) =
      { frequency := fe.cache.frequency + (fe.priv.drift (UInt32.ofNat k)).toUInt32
        inversion := i } := by
  rw [askedFor, drift_eq]

theorem askedFor_neg (fe : Frontend) (k : ℕ) (i : FeSpectralInversion) :
    fe.askedFor (-(k * fe.priv.stepSize.toNat), i) =
      { frequency := fe.cache.frequency + (-fe.priv.drift (UInt32.ofNat k)).toUInt32
        inversion := i } := by
  rw [askedFor, drift_eq, Int32.neg_ofInt]

theorem other_other (h : i ≠ .auto) : i.other.other = i := by
  cases i
  · rfl
  · rfl
  · exact absurd rfl h

/-- A step tries what it has to try, and the next step begins behind it. -/
theorem step_calls (hstep : 0 < fe.priv.stepSize.toNat) (hdrift : fe.priv.maxDrift.toNat < 2 ^ 31)
    (hstarted : fe.priv.startedAutoStep = 0) (htakes : ∀ n, Takes (outcome n))
    (hk : k ≤ fe.priv.lastStep) (hw : k = 0 → w = false)
    (hbegin : g.next = fe.atBegin k (fe.inversionAt k)) :
    ∃ g', Calls outcome n g w ((fe.stepTries k).map fe.askedFor) g' true ∧
      g'.next = fe.atBegin (k + 1) (fe.inversionAt (k + 1)) := by
  have hin := not_exceeds hstep hdrift hk
  have hzero := drift_eq_zero_iff hstep hdrift hk
  have hwrap : ∀ d i, ¬wrapped (fe.within k 0 d i).priv w = true := by
    intro d i hwrapped
    simp only [wrapped, within, hstarted, Bool.and_eq_true, decide_eq_true_eq] at hwrapped
    have hk32 : k < 2 ^ 32 := by
      have hle := lastStep_mul hstep hk
      have hone : k ≤ k * fe.priv.stepSize.toNat := Nat.le_mul_of_pos_right k hstep
      omega
    have hk0 : k = 0 := by
      have htoNat := congrArg UInt32.toNat hwrapped.1.1
      rwa [UInt32.toNat_ofNat', Nat.mod_eq_of_lt hk32] at htoNat
    exact absurd (hwrapped.2.symm.trans (hw hk0)) (by decide)
  rw [atBegin_within hin] at hbegin
  by_cases hauto : fe.autoinversion = true
  · have hshown : ∀ i, (if fe.autoinversion then i else fe.cache.inversion) = i :=
      fun i => if_pos hauto
    by_cases hk0 : k = 0
    · have hdrift0 := hzero.mpr hk0
      refine ⟨fe.within k 2 (fe.priv.drift (UInt32.ofNat k)) (fe.inversionAt k).other, ?_, ?_⟩
      · dsimp only [stepTries]
        rw [if_pos hauto, if_pos hk0, List.map_cons, List.map_singleton, askedFor_drift,
          askedFor_drift]
        exact calls_next hbegin (hwrap _ _) htakes (hshown _)
          (calls_next (next_other hin hauto) (not_wrapped (by decide)) htakes (hshown _) .nil)
      · rw [next_step hin (by decide) (fun h => absurd h.1 (by decide)) (fun h => h.2 hdrift0)
          (fun h => absurd h.1 (by decide))]
        rw [inversionAt, inversionAt, if_neg (fun h => h.2 hk0), if_pos ⟨hauto, Nat.succ_ne_zero k⟩]
    · have hne : fe.priv.drift (UInt32.ofNat k) ≠ 0 := fun h => hk0 (hzero.mp h)
      have hinversion : fe.inversionAt k = fe.priv.inversion.other := if_pos ⟨hauto, hk0⟩
      have hback : (fe.inversionAt k).other.other = fe.inversionAt k := by
        rw [hinversion]
        exact other_other (other_ne_auto _)
      refine ⟨fe.within k 4 (-fe.priv.drift (UInt32.ofNat k)) (fe.inversionAt k).other.other, ?_, ?_⟩
      · dsimp only [stepTries]
        rw [if_pos hauto, if_neg hk0, List.map_cons, List.map_cons, List.map_cons,
          List.map_singleton, askedFor_drift, askedFor_drift, askedFor_neg, askedFor_neg]
        exact calls_next hbegin (hwrap _ _) htakes (hshown _)
          (calls_next (next_other hin hauto) (not_wrapped (by decide)) htakes (hshown _)
            (calls_next (next_side hin hne (.inr rfl)) (not_wrapped (by decide)) htakes (hshown _)
              (calls_next (next_otherSide hin hne hauto) (not_wrapped (by decide)) htakes
                ((hshown _).trans hback) .nil)))
      · rw [next_step hin (by decide) (fun h => absurd h.1 (by decide))
          (fun h => absurd h.1 (by decide)) (fun h => absurd h.1 (by decide)), hback, hinversion]
        rw [inversionAt, if_pos ⟨hauto, Nat.succ_ne_zero k⟩]
  · have hshown : ∀ i, (if fe.autoinversion then i else fe.cache.inversion) = fe.cache.inversion :=
      fun i => if_neg hauto
    have hinversion : fe.inversionAt (k + 1) = fe.inversionAt k := by
      rw [inversionAt, inversionAt, if_neg (fun h => hauto h.1), if_neg (fun h => hauto h.1)]
    by_cases hk0 : k = 0
    · have hdrift0 := hzero.mpr hk0
      refine ⟨fe.within k 1 (fe.priv.drift (UInt32.ofNat k)) (fe.inversionAt k), ?_, ?_⟩
      · dsimp only [stepTries]
        rw [if_neg hauto, if_pos hk0, List.map_singleton, askedFor_drift]
        exact calls_next hbegin (hwrap _ _) htakes (hshown _) .nil
      · rw [next_step hin (by decide) (fun h => hauto h.2) (fun h => h.2 hdrift0)
          (fun h => hauto h.2.2), hinversion]
    · have hne : fe.priv.drift (UInt32.ofNat k) ≠ 0 := fun h => hk0 (hzero.mp h)
      refine ⟨fe.within k 3 (-fe.priv.drift (UInt32.ofNat k)) (fe.inversionAt k), ?_, ?_⟩
      · dsimp only [stepTries]
        rw [if_neg hauto, if_neg hk0, List.map_cons, List.map_singleton, askedFor_drift, askedFor_neg]
        exact calls_next hbegin (hwrap _ _) htakes (hshown _)
          (calls_next (next_side hin hne (.inl ⟨rfl, hauto⟩)) (not_wrapped (by decide)) htakes
            (hshown _) .nil)
      · rw [next_step hin (by decide) (fun h => hauto h.2) (fun h => absurd h.1 (by decide))
          (fun h => hauto h.2.2), hinversion]

/-- The first `m` steps. -/
theorem range_calls (hstep : 0 < fe.priv.stepSize.toNat) (hdrift : fe.priv.maxDrift.toNat < 2 ^ 31)
    (htakes : ∀ n, Takes (outcome n)) (m : ℕ) (hm : m ≤ fe.priv.lastStep + 1) :
    ∃ g w, Calls outcome 0 fe.retune false (((List.range m).flatMap fe.stepTries).map fe.askedFor) g w ∧
      (w = true ↔ m ≠ 0) ∧ g.next = fe.retune.atBegin m (fe.inversionAt m) := by
  induction m with
  | zero =>
    refine ⟨fe.retune, false, .nil, by simp, ?_⟩
    rw [next, position, if_pos (.inr rfl), inversionAt, if_neg (fun h => h.2 rfl)]
    rfl
  | succ m ih =>
    obtain ⟨g, w, hcalls, hw, hbegin⟩ := ih (by omega)
    obtain ⟨g', hcalls', hbegin'⟩ := @step_calls fe.retune _ _ _
      (0 + (((List.range m).flatMap fe.stepTries).map fe.askedFor).length) w hstep hdrift rfl htakes
      (Nat.le_of_lt_succ hm) (by
        intro hm0
        rw [← Bool.not_eq_true, hw]
        exact not_not.mpr hm0) hbegin
    refine ⟨g', true, ?_, by simp, hbegin'⟩
    rw [List.range_succ, List.flatMap_append, List.map_append, List.flatMap_singleton]
    exact hcalls.append hcalls'

/-- Behind the last step the wrap is reported. -/
theorem behind_wraps (hstep : 0 < fe.priv.stepSize.toNat) (hdrift : fe.priv.maxDrift.toNat < 2 ^ 31)
    (hbegin : g.next = fe.retune.atBegin (fe.priv.lastStep + 1) i) (o : Option Outcome) :
    g.next.attempt true o = ⟨1, g.next, none⟩ := by
  refine attempt_wrapped ?_
  have hbehind := exceeds_behind hstep hdrift
  rw [hbegin, atBegin, atStep_exceeds (p := { fe.retune.priv with inversion := i }) hbehind]
  rfl

end

/-! ### What a step tries -/

theorem other_ne (i : FeSpectralInversion) : i.other ≠ i := by
  cases i <;> decide

theorem inversionAt_ne_auto (hinv : fe.priv.inversion ≠ .auto) (k : ℕ) :
    fe.inversionAt k ≠ .auto := by
  rw [inversionAt]
  split
  · exact other_ne_auto _
  · exact hinv

theorem eq_or_other_iff (hi : i ≠ .auto) (j : FeSpectralInversion) :
    j = i ∨ j = i.other ↔ j ≠ .auto := by
  cases i <;> cases j <;> simp [FeSpectralInversion.other] at hi ⊢

/-- The inversions a step tries. -/
def Shown (fe : Frontend) (i : FeSpectralInversion) : Prop :=
  if fe.autoinversion then i ≠ .auto else i = fe.cache.inversion

theorem mem_stepTries (hinv : fe.priv.inversion ≠ .auto) (x : ℤ) (j : FeSpectralInversion) :
    (x, j) ∈ fe.stepTries k ↔ x.natAbs = k * fe.priv.stepSize.toNat ∧ fe.Shown j := by
  have habs : x.natAbs = k * fe.priv.stepSize.toNat ↔
      x = k * fe.priv.stepSize.toNat ∨ x = -(k * fe.priv.stepSize.toNat) := by
    rw [Int.natAbs_eq_iff, Int.natCast_mul]
  have hzero : k = 0 → (x = k * fe.priv.stepSize.toNat ∨ x = -(k * fe.priv.stepSize.toNat) ↔
      x = k * fe.priv.stepSize.toNat) := by
    rintro rfl
    simp
  have hi := inversionAt_ne_auto hinv k
  dsimp only [stepTries]
  rw [habs, Shown]
  by_cases hauto : fe.autoinversion = true
  · rw [if_pos hauto, if_pos hauto, ← eq_or_other_iff hi]
    by_cases hk0 : k = 0
    · rw [if_pos hk0, hzero hk0]
      simp only [List.mem_cons, List.not_mem_nil, Prod.mk.injEq, or_false]
      tauto
    · rw [if_neg hk0]
      simp only [List.mem_cons, List.not_mem_nil, Prod.mk.injEq, or_false]
      tauto
  · rw [if_neg hauto, if_neg hauto]
    by_cases hk0 : k = 0
    · rw [if_pos hk0, hzero hk0]
      simp only [List.mem_cons, List.not_mem_nil, Prod.mk.injEq, or_false]
    · rw [if_neg hk0]
      simp only [List.mem_cons, List.not_mem_nil, Prod.mk.injEq, or_false]
      tauto

theorem stepTries_nodup (hstep : 0 < fe.priv.stepSize.toNat) (k : ℕ) : (fe.stepTries k).Nodup := by
  have hother := other_ne (fe.inversionAt k)
  dsimp only [stepTries]
  by_cases hk0 : k = 0
  · rw [if_pos hk0, if_pos hk0]
    split <;> simp [Ne.symm hother]
  · have hpos : 0 < k * fe.priv.stepSize.toNat := Nat.mul_pos (Nat.pos_of_ne_zero hk0) hstep
    have hside : (k * fe.priv.stepSize.toNat : ℤ) ≠ -(k * fe.priv.stepSize.toNat) := by
      rw [← Int.natCast_mul]
      omega
    rw [if_neg hk0, if_neg hk0]
    split <;> simp [Ne.symm hother, hother, hside]

theorem mem_tries (hstep : 0 < fe.priv.stepSize.toNat) (hinv : fe.priv.inversion ≠ .auto) (x : ℤ)
    (j : FeSpectralInversion) :
    (x, j) ∈ fe.tries ↔
      (∃ m : ℤ, x = m * fe.priv.stepSize.toNat) ∧ |x| ≤ fe.priv.maxDrift.toNat ∧ fe.Shown j := by
  have habs : |x| ≤ fe.priv.maxDrift.toNat ↔ x.natAbs ≤ fe.priv.maxDrift.toNat := by
    rw [Int.abs_eq_natAbs, Int.ofNat_le]
  rw [tries, List.mem_flatMap, habs]
  constructor
  · rintro ⟨k, hk, hmem⟩
    rw [mem_stepTries hinv] at hmem
    refine ⟨?_, ?_, hmem.2⟩
    · rcases Int.natAbs_eq_iff.mp hmem.1 with h | h
      · exact ⟨k, by rw [h, Int.natCast_mul]⟩
      · exact ⟨-k, by rw [h, Int.natCast_mul, neg_mul]⟩
    · rw [hmem.1]
      exact lastStep_mul hstep (Nat.le_of_lt_succ (List.mem_range.mp hk))
  · rintro ⟨⟨m, hm⟩, hle, hshown⟩
    have hnat : x.natAbs = m.natAbs * fe.priv.stepSize.toNat := by
      rw [hm, Int.natAbs_mul, Int.natAbs_natCast]
    refine ⟨m.natAbs, List.mem_range.mpr (Nat.lt_succ_of_le ?_), ?_⟩
    · rw [lastStep, Nat.le_div_iff_mul_le hstep, ← hnat]
      exact hle
    · rw [mem_stepTries hinv]
      exact ⟨hnat, hshown⟩

/-- Different pairs ask different things of the driver. -/
theorem askedFor_injective {t u : ℤ × FeSpectralInversion} (ht : t.1.natAbs < 2 ^ 31)
    (hu : u.1.natAbs < 2 ^ 31) (h : fe.askedFor t = fe.askedFor u) : t = u := by
  rw [askedFor, askedFor, PropertyCache.mk.injEq] at h
  have hint : Int32.ofInt t.1 = Int32.ofInt u.1 := by
    rw [← Int32.toInt32_toUInt32 (Int32.ofInt t.1), (UInt32.add_right_inj _).mp h.1,
      Int32.toInt32_toUInt32]
  have hdrift := congrArg Int32.toInt hint
  rw [Int32.toInt_ofInt_of_le (by omega) (by omega), Int32.toInt_ofInt_of_le (by omega) (by omega)]
    at hdrift
  exact Prod.ext hdrift h.2

/-- Nothing is tried twice. -/
theorem tries_nodup (hstep : 0 < fe.priv.stepSize.toNat) (hdrift : fe.priv.maxDrift.toNat < 2 ^ 31)
    (hinv : fe.priv.inversion ≠ .auto) : (fe.tries.map fe.askedFor).Nodup := by
  have hnodup : fe.tries.Nodup := by
    rw [tries, List.nodup_flatMap]
    refine ⟨fun k _ => stepTries_nodup hstep k, List.Nodup.pairwise_of_forall_ne List.nodup_range ?_⟩
    intro k _ m _ hne t hk hm
    have hk' := (mem_stepTries hinv t.1 t.2).mp hk
    have hm' := (mem_stepTries hinv t.1 t.2).mp hm
    exact hne (Nat.eq_of_mul_eq_mul_right hstep (hk'.1.symm.trans hm'.1))
  have hbound : ∀ t ∈ fe.tries, t.1.natAbs < 2 ^ 31 := by
    intro t ht
    have hle := ((mem_tries hstep hinv t.1 t.2).mp ht).2.1
    rw [Int.abs_eq_natAbs] at hle
    omega
  exact hnodup.map_on fun t ht u hu h => askedFor_injective (hbound t ht) (hbound u hu) h

/-- A maximum drift that is not negative as an `int`. -/
theorem toNat_lt_of_toInt32 {x : UInt32} (h : 0 ≤ x.toInt32) : x.toNat < 2 ^ 31 := by
  rw [Int32.le_iff_toInt_le, Int32.toInt_zero, ← Int32.toInt_toBitVec, UInt32.toBitVec_toInt32,
    BitVec.toInt_eq_toNat_cond] at h
  rw [← UInt32.toNat_toBitVec]
  split at h <;> omega

/-- Every call returns; and from a retune, when the driver takes what it is asked for, each pair of a
    multiple of the step size within the maximum drift and an inversion is tried exactly once before
    the wrap is reported. The inversion of the search is `INVERSION_OFF` at first and only ever
    switched over. -/
theorem zigzag_enumerates (fe : Frontend) (hstep : 0 < fe.priv.stepSize)
    (hdrift : 0 ≤ fe.priv.maxDrift.toInt32) (hinv : fe.priv.inversion ≠ .auto) :
    (∀ (g : Frontend) (checkWrapped : Bool) (outcome : Option Outcome),
      ∃ pass, g.Returns checkWrapped outcome pass) ∧
    (fe.tries.map fe.askedFor).Nodup ∧
    (∀ (drift : ℤ) (i : FeSpectralInversion), (drift, i) ∈ fe.tries ↔
      (∃ k : ℤ, drift = k * fe.priv.stepSize.toNat) ∧ |drift| ≤ fe.priv.maxDrift.toNat ∧
        if fe.autoinversion then i ≠ .auto else i = fe.cache.inversion) ∧
    ∀ outcome : ℕ → Option Outcome, (∀ n, Takes (outcome n)) →
      ∃ g, Calls outcome 0 fe.retune false (fe.tries.map fe.askedFor) g true ∧
        ∀ (o : Option Outcome) (pass : Pass), g.Returns true o pass → pass.ret = 1 ∧ pass.tried = none := by
  have hstep' : 0 < fe.priv.stepSize.toNat := by simpa [UInt32.lt_iff_toNat_lt] using hstep
  have hdrift' := toNat_lt_of_toInt32 hdrift
  refine ⟨fun g w o => ⟨_, returns_attempt g w o⟩, tries_nodup hstep' hdrift' hinv,
    mem_tries hstep' hinv, fun outcome htakes => ?_⟩
  obtain ⟨g, w, hcalls, hw, hbegin⟩ := range_calls hstep' hdrift' htakes _ (Nat.le_refl _)
  rw [hw.mpr (Nat.succ_ne_zero _)] at hcalls
  refine ⟨g, hcalls, fun o pass hreturns => ?_⟩
  rw [returns_iff, behind_wraps hstep' hdrift' hbegin] at hreturns
  rw [hreturns]
  exact ⟨rfl, rfl⟩

/-- With a step of 250 up to 500 and the inversion searched, ten attempts are made. -/
theorem searched_enumerates :
    let fe : Frontend := { retuned with
      canInversionAuto := false
      priv := { retuned.priv with maxDrift := 500 }
      cache := { frequency := 1210000, inversion := .auto } }
    fe.tries.length = 10 ∧ (fe.tries.map fe.askedFor).Nodup :=
  ⟨by decide, (zigzag_enumerates _ (by decide) (by decide) (by decide)).2.1⟩

end Frontend

end Dvb.Zigzag

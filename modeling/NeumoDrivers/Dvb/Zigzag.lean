import NeumoDrivers.Lib.Loop
import Mathlib.Data.Int.Basic
import Mathlib.Data.List.Nodup

/-! Software zigzag (`neumo-dvb-frontend.c`).

    A frontend that does not lock is tuned again and again, a little beside the frequency that was asked
    for and with either inversion. Where the search is, is kept in a step, a sub-step and the inversion
    that was tried last. -/

namespace Dvb.Zigzag
open Loop

inductive FeSpectralInversion where | off | on | auto
  deriving DecidableEq

/-- `(inversion == INVERSION_OFF) ? INVERSION_ON : INVERSION_OFF` -/
def FeSpectralInversion.other : FeSpectralInversion → FeSpectralInversion
  | off => on
  | _ => off

def festateError : UInt32 := 256

/-- Of `struct neumo_dvb_frontend_private` what the search uses. -/
structure FrontendPrivate where
  state : UInt32
  lnbDrift : Int32
  inversion : FeSpectralInversion
  autoStep : UInt32
  autoSubStep : UInt32
  startedAutoStep : UInt32
  maxDrift : UInt32
  stepSize : UInt32

/-- Of the property cache what the search uses. -/
@[ext] structure PropertyCache where
  frequency : UInt32
  inversion : FeSpectralInversion
  deriving DecidableEq

structure Frontend where
  canInversionAuto : Bool
  priv : FrontendPrivate
  cache : PropertyCache

/-- What `set_frontend` returns, and what it leaves in the property cache. -/
structure Outcome where
  ret : ℤ
  cache : PropertyCache

namespace FrontendPrivate

def nextSubStep (p : FrontendPrivate) : FrontendPrivate :=
  { p with autoSubStep := p.autoSubStep + 1 }

/-- The drift of a step. -/
def drift (p : FrontendPrivate) (step : UInt32) : Int32 := (step * p.stepSize).toInt32

/-- The step exceeds the maximum drift; the comparison is unsigned. -/
def Exceeds (p : FrontendPrivate) (step : UInt32) : Prop := p.maxDrift < (p.drift step).toUInt32

instance (p : FrontendPrivate) (step : UInt32) : Decidable (p.Exceeds step) :=
  inferInstanceAs (Decidable (_ < _))

/-- The lnb_drift, and wrap the auto_step if we've exceeded the maximum drift. -/
def setDrift (p : FrontendPrivate) : FrontendPrivate :=
  if p.Exceeds p.autoStep then { p with autoStep := 0, autoSubStep := 0, lnbDrift := 0 }
  else { p with lnbDrift := p.drift p.autoStep }

/-- Perform inversion and zigzag to either side. -/
def autoSubStepBody (autoinversion : Bool) (p : FrontendPrivate) :
    Next FrontendPrivate FrontendPrivate :=
  match p.autoSubStep with
  | 0 => .exit p
  | 1 =>
    if ¬autoinversion then .again p.nextSubStep
    else .exit { p with inversion := p.inversion.other }
  | 2 =>
    if p.lnbDrift = 0 then .again p.nextSubStep
    else .exit { p with lnbDrift := -p.lnbDrift }
  | 3 =>
    if p.lnbDrift = 0 then .again p.nextSubStep
    else if ¬autoinversion then .again p.nextSubStep
    else .exit { p with inversion := p.inversion.other, lnbDrift := -p.lnbDrift }
  | _ =>
    -- it'll be incremented to 0 in a moment
    .again { p with autoStep := p.autoStep + 1, autoSubStep := 0 - 1 }.nextSubStep

/-- A pass of the loop that sets up the parameters. -/
def autotuneBody (autoinversion : Bool) (p : FrontendPrivate) :
    Next FrontendPrivate FrontendPrivate := autoSubStepBody autoinversion p.setDrift

end FrontendPrivate

namespace Frontend

/-- Are we using autoinversion? -/
def autoinversion (fe : Frontend) : Bool :=
  !fe.canInversionAuto && decide (fe.cache.inversion = .auto)

/-- If this attempt would hit where we started, a complete iteration has occurred. -/
def wrapped (p : FrontendPrivate) (checkWrapped : Bool) : Bool :=
  decide (p.autoStep = p.startedAutoStep) && decide (p.autoSubStep = 0) && checkWrapped

/-- What a pass of `swzigzag_autotune` returns, the frontend after it, and what was tried. -/
structure Pass where
  ret : ℤ
  fe : Frontend
  tried : Option PropertyCache

/-- `neumo_dvb_frontend_swzigzag_autotune` behind its loop. Without a `set_frontend` there is no
    outcome. -/
def attempt (fe : Frontend) (checkWrapped : Bool) (outcome : Option Outcome) : Pass :=
  if wrapped fe.priv checkWrapped then ⟨1, fe, none⟩
  else
    let c : PropertyCache :=
      { frequency := fe.cache.frequency + fe.priv.lnbDrift.toUInt32
        inversion := if fe.autoinversion then fe.priv.inversion else fe.cache.inversion }
    let tmp := c
    let (feSetErr, _) :=
      match outcome with
      | none => (0, c)
      | some outcome => (outcome.ret, outcome.cache)
    let c := tmp
    if feSetErr < 0 then
      ⟨feSetErr, { fe with cache := c, priv := { fe.priv with state := festateError } }, some c⟩
    else
      ⟨0, { fe with cache := fe.cache, priv := fe.priv.nextSubStep }, some c⟩

/-- `neumo_dvb_frontend_swzigzag_autotune`, if its loop ends within `passes` passes. -/
def swzigzagAutotune (fe : Frontend) (checkWrapped : Bool) (outcome : Option Outcome) (passes : ℕ) :
    Option Pass :=
  (run (FrontendPrivate.autotuneBody fe.autoinversion) passes fe.priv).map fun p =>
    { fe with priv := p }.attempt checkWrapped outcome

end Frontend

/-! ### Where the next attempt is -/

namespace FrontendPrivate

variable {p : FrontendPrivate} {auto : Bool}

/-- The beginning of a step. -/
def atStep (p : FrontendPrivate) (step : UInt32) : FrontendPrivate :=
  { p with autoStep := step, autoSubStep := 0 }.setDrift

/-- Where the search goes on: sub-steps that would try the same again are left out. -/
def position (p : FrontendPrivate) (auto : Bool) : FrontendPrivate :=
  if p.Exceeds p.autoStep ∨ p.autoSubStep = 0 then p.atStep p.autoStep
  else if p.autoSubStep = 1 ∧ auto then
    { p with lnbDrift := p.drift p.autoStep, inversion := p.inversion.other }
  else if (p.autoSubStep = 1 ∨ p.autoSubStep = 2) ∧ p.drift p.autoStep ≠ 0 then
    { p with lnbDrift := -p.drift p.autoStep, autoSubStep := 2 }
  else if p.autoSubStep = 3 ∧ p.drift p.autoStep ≠ 0 ∧ auto then
    { p with lnbDrift := -p.drift p.autoStep, inversion := p.inversion.other }
  else p.atStep (p.autoStep + 1)

theorem setDrift_exceeds (h : p.Exceeds p.autoStep) :
    p.setDrift = { p with autoStep := 0, autoSubStep := 0, lnbDrift := 0 } := if_pos h

theorem setDrift_within (h : ¬p.Exceeds p.autoStep) :
    p.setDrift = { p with lnbDrift := p.drift p.autoStep } := if_neg h

/-- At the beginning of a step the loop ends at once. -/
theorem body_atStep (step : UInt32) :
    autotuneBody auto { p with autoStep := step, autoSubStep := 0 } = .exit (p.atStep step) := by
  rw [autotuneBody, atStep]
  by_cases h : p.Exceeds step
  · rw [setDrift_exceeds (p := { p with autoStep := step, autoSubStep := 0 }) h]
    rfl
  · rw [setDrift_within (p := { p with autoStep := step, autoSubStep := 0 }) h]
    rfl

/-- Beyond the maximum drift the search starts again. -/
theorem body_exceeds (h : p.Exceeds p.autoStep) :
    autotuneBody auto p = .exit (p.atStep p.autoStep) := by
  have hstart : p.atStep p.autoStep = p.setDrift := by
    rw [atStep, setDrift_exceeds h]
    exact setDrift_exceeds (p := { p with autoSubStep := 0 }) h
  rw [autotuneBody, hstart, setDrift_exceeds h]
  rfl

theorem atStep_lnbDrift (d : Int32) (sub step : UInt32) :
    { p with lnbDrift := d, autoSubStep := sub }.atStep step = p.atStep step := by
  by_cases h : p.Exceeds step
  · rw [atStep, atStep, setDrift_exceeds (p := { p with autoStep := step, autoSubStep := 0 }) h]
    exact setDrift_exceeds (p := { p with lnbDrift := d, autoStep := step, autoSubStep := 0 }) h
  · rw [atStep, atStep, setDrift_within (p := { p with autoStep := step, autoSubStep := 0 }) h]
    exact setDrift_within (p := { p with lnbDrift := d, autoStep := step, autoSubStep := 0 }) h

section
variable (hin : ¬p.Exceeds p.autoStep)
include hin

theorem body_one (hsub : p.autoSubStep = 1) :
    autotuneBody auto p =
      if auto then .exit { p with lnbDrift := p.drift p.autoStep, inversion := p.inversion.other }
      else .again { p with lnbDrift := p.drift p.autoStep, autoSubStep := 2 } := by
  rw [autotuneBody, setDrift_within hin, autoSubStepBody]
  simp only [hsub]
  cases auto <;> simp [nextSubStep]

theorem body_two (hsub : p.autoSubStep = 2) :
    autotuneBody auto p =
      if p.drift p.autoStep = 0 then
        .again { p with lnbDrift := p.drift p.autoStep, autoSubStep := 3 }
      else .exit { p with lnbDrift := -p.drift p.autoStep } := by
  rw [autotuneBody, setDrift_within hin, autoSubStepBody]
  simp only [hsub]
  split <;> simp [nextSubStep]

theorem body_three (hsub : p.autoSubStep = 3) :
    autotuneBody auto p =
      if p.drift p.autoStep ≠ 0 ∧ auto then
        .exit { p with lnbDrift := -p.drift p.autoStep, inversion := p.inversion.other }
      else .again { p with lnbDrift := p.drift p.autoStep, autoSubStep := 4 } := by
  rw [autotuneBody, setDrift_within hin, autoSubStepBody]
  simp only [hsub]
  by_cases hdrift : p.drift p.autoStep = 0 <;> cases auto <;> simp [nextSubStep, hdrift]

theorem body_default (hsub : 3 < p.autoSubStep) :
    autotuneBody auto p = .again { p with
      lnbDrift := p.drift p.autoStep, autoStep := p.autoStep + 1, autoSubStep := 0 } := by
  rw [autotuneBody, setDrift_within hin, autoSubStepBody]
  dsimp only
  split
  · exact absurd (‹p.autoSubStep = 0› ▸ hsub) (by decide)
  · exact absurd (‹p.autoSubStep = 1› ▸ hsub) (by decide)
  · exact absurd (‹p.autoSubStep = 2› ▸ hsub) (by decide)
  · exact absurd (‹p.autoSubStep = 3› ▸ hsub) (by decide)
  · have hwrap : (0 - 1 : UInt32) + 1 = 0 := by decide
    rw [nextSubStep, hwrap]

end

/-- Behind the last sub-step the next step begins. -/
theorem default_ends (hin : ¬p.Exceeds p.autoStep) (hsub : 3 < p.autoSubStep) :
    Ends (autotuneBody auto) p (p.atStep (p.autoStep + 1)) := by
  refine .again (body_default hin hsub) (.exit ?_)
  exact (body_atStep _).trans (congrArg Next.exit (atStep_lnbDrift _ _ _))

/-- The fourth sub-step. -/
theorem three_ends (hin : ¬p.Exceeds p.autoStep) (h3 : p.autoSubStep = 3) :
    Ends (autotuneBody auto) p
      (if p.drift p.autoStep ≠ 0 ∧ auto then
        { p with lnbDrift := -p.drift p.autoStep, inversion := p.inversion.other }
      else p.atStep (p.autoStep + 1)) := by
  have hbody := @body_three _ auto hin h3
  split at hbody
  · rename_i hflip
    rw [if_pos hflip]
    exact .exit hbody
  · rename_i hflip
    rw [if_neg hflip, ← atStep_lnbDrift (p.drift p.autoStep) 4]
    exact .again hbody (default_ends hin (show (3 : UInt32) < 4 by decide))

/-- The third sub-step. -/
theorem two_ends (hin : ¬p.Exceeds p.autoStep) (h2 : p.autoSubStep = 2) :
    Ends (autotuneBody auto) p
      (if p.drift p.autoStep ≠ 0 then { p with lnbDrift := -p.drift p.autoStep }
      else p.atStep (p.autoStep + 1)) := by
  have hbody := @body_two _ auto hin h2
  split at hbody
  · rename_i hzero
    have hends := @three_ends
      { p with lnbDrift := p.drift p.autoStep, autoSubStep := 3 } auto hin rfl
    rw [if_neg (fun hflip => hflip.1 hzero)] at hends
    rw [if_neg (not_not.mpr hzero), ← atStep_lnbDrift (p.drift p.autoStep) 3]
    exact .again hbody hends
  · rename_i hzero
    rw [if_pos hzero]
    exact .exit hbody

/-- The loop ends, whatever the state is. -/
theorem position_ends (p : FrontendPrivate) (auto : Bool) :
    Ends (autotuneBody auto) p (p.position auto) := by
  rw [position]
  by_cases hin : p.Exceeds p.autoStep
  · rw [if_pos (.inl hin)]
    exact .exit (body_exceeds hin)
  by_cases h0 : p.autoSubStep = 0
  · have hbegin : { p with autoStep := p.autoStep, autoSubStep := 0 } = p := by rw [← h0]
    rw [if_pos (.inr h0)]
    have hbody := @body_atStep p auto p.autoStep
    rw [hbegin] at hbody
    exact .exit hbody
  rw [if_neg (not_or.mpr ⟨hin, h0⟩)]
  by_cases h1 : p.autoSubStep = 1
  · have hbody := @body_one _ auto hin h1
    cases auto with
    | true =>
      rw [if_pos ⟨h1, rfl⟩]
      exact .exit hbody
    | false =>
      have hends : Ends (autotuneBody false)
          { p with lnbDrift := p.drift p.autoStep, autoSubStep := 2 }
          (if p.drift p.autoStep ≠ 0 then
            { p with lnbDrift := -p.drift p.autoStep, autoSubStep := 2 }
          else p.atStep (p.autoStep + 1)) := by
        rw [← atStep_lnbDrift (p.drift p.autoStep) 2]
        exact two_ends hin rfl
      rw [if_neg (fun h => Bool.false_ne_true h.2)]
      by_cases hdrift : p.drift p.autoStep = 0
      · rw [if_neg (not_not.mpr hdrift)] at hends
        rw [if_neg (fun h => h.2 hdrift), if_neg (fun h => h.2.1 hdrift)]
        exact .again hbody hends
      · rw [if_pos hdrift] at hends
        rw [if_pos ⟨.inl h1, hdrift⟩]
        exact .again hbody hends
  rw [if_neg (fun h => h1 h.1)]
  by_cases h2 : p.autoSubStep = 2
  · have hends := @two_ends _ auto hin h2
    by_cases hdrift : p.drift p.autoStep = 0
    · rw [if_neg (not_not.mpr hdrift)] at hends
      rwa [if_neg (fun h => h.2 hdrift), if_neg (fun h => h.2.1 hdrift)]
    · rw [if_pos hdrift] at hends
      rwa [if_pos ⟨.inr h2, hdrift⟩, ← h2]
  rw [if_neg (fun h => h.1.elim h1 h2)]
  by_cases h3 : p.autoSubStep = 3
  · have hends := @three_ends _ auto hin h3
    simpa only [h3, true_and] using hends
  · rw [if_neg (fun h => h3 h.1)]
    refine default_ends hin ?_
    rw [← UInt32.toNat_inj] at h0 h1 h2 h3
    rw [UInt32.lt_iff_toNat_lt]
    change ¬_ = 0 at h0
    change ¬_ = 1 at h1
    change ¬_ = 2 at h2
    change ¬_ = 3 at h3
    change 3 < _
    omega

/-- The step at whose beginning the next attempt is, if it is at the beginning of one. -/
def stepBegun (p : FrontendPrivate) (auto : Bool) : Option UInt32 :=
  if p.Exceeds p.autoStep then some 0
  else if p.autoSubStep = 0 then some p.autoStep
  else if p.autoSubStep = 1 ∧ auto ∨ (p.autoSubStep = 1 ∨ p.autoSubStep = 2) ∧
      p.drift p.autoStep ≠ 0 ∨ p.autoSubStep = 3 ∧ p.drift p.autoStep ≠ 0 ∧ auto then none
  else if p.Exceeds (p.autoStep + 1) then some 0
  else some (p.autoStep + 1)

theorem drift_zero (p : FrontendPrivate) : p.drift 0 = 0 := by
  rw [drift, UInt32.zero_mul]
  rfl

theorem atStep_within {step : UInt32} (h : ¬p.Exceeds step) :
    p.atStep step = { p with autoStep := step, autoSubStep := 0, lnbDrift := p.drift step } :=
  setDrift_within (p := { p with autoStep := step, autoSubStep := 0 }) h

theorem atStep_exceeds {step : UInt32} (h : p.Exceeds step) :
    p.atStep step = { p with autoStep := 0, autoSubStep := 0, lnbDrift := p.drift 0 } := by
  rw [drift_zero]
  exact setDrift_exceeds (p := { p with autoStep := step, autoSubStep := 0 }) h

/-- At the beginning of a step nothing but the drift of the step is tried. -/
theorem position_begun {step : UInt32} (h : p.stepBegun auto = some step) :
    p.position auto =
      { p with autoStep := step, autoSubStep := 0, lnbDrift := p.drift step } := by
  rw [stepBegun] at h
  rw [position]
  by_cases hin : p.Exceeds p.autoStep
  · rw [if_pos hin] at h
    rw [if_pos (.inl hin), atStep_exceeds hin, Option.some.inj h]
  rw [if_neg hin] at h
  by_cases h0 : p.autoSubStep = 0
  · rw [if_pos h0] at h
    rw [if_pos (.inr h0), atStep_within hin, Option.some.inj h]
  rw [if_neg h0] at h
  split at h
  · cases h
  rename_i hnone
  rw [if_neg (not_or.mpr ⟨hin, h0⟩), if_neg (fun h1 => hnone (.inl h1)),
    if_neg (fun h2 => hnone (.inr (.inl h2))), if_neg (fun h3 => hnone (.inr (.inr h3)))]
  split at h
  · rename_i hnext
    rw [atStep_exceeds hnext, Option.some.inj h]
  · rename_i hnext
    rw [atStep_within hnext, Option.some.inj h]

/-- Within a step either the drift is not zero or the other inversion is tried. -/
theorem position_within (h : p.stepBegun auto = none) :
    (p.position auto).autoSubStep ≠ 0 ∧
      ((p.position auto).lnbDrift ≠ 0 ∨ auto ∧ (p.position auto).inversion = p.inversion.other) := by
  rw [stepBegun] at h
  rw [position]
  split at h
  · cases h
  rename_i hin
  split at h
  · cases h
  rename_i h0
  rw [if_neg (not_or.mpr ⟨hin, h0⟩)]
  split at h
  · rename_i hwithin
    by_cases h1 : p.autoSubStep = 1 ∧ auto
    · rw [if_pos h1]
      exact ⟨h0, .inr ⟨h1.2, rfl⟩⟩
    rw [if_neg h1]
    have hneg : ∀ d : Int32, d ≠ 0 → -d ≠ 0 := fun d hd hn => hd (by rw [← Int32.neg_neg (a := d), hn, Int32.neg_zero])
    by_cases h2 : (p.autoSubStep = 1 ∨ p.autoSubStep = 2) ∧ p.drift p.autoStep ≠ 0
    · rw [if_pos h2]
      exact ⟨show (2 : UInt32) ≠ 0 by decide, .inl (hneg _ h2.2)⟩
    · have h3 := (hwithin.resolve_left h1).resolve_left h2
      rw [if_neg h2, if_pos h3]
      exact ⟨h0, .inl (hneg _ h3.2.1)⟩
  · split at h <;> cases h

theorem other_ne_auto (i : FeSpectralInversion) : i.other ≠ .auto := by
  cases i <;> decide

end FrontendPrivate

/-! ### What is left in the cache -/

namespace Frontend

variable {fe : Frontend} {checkWrapped : Bool} {outcome : Option Outcome} {pass : Pass}

/-- A call of `neumo_dvb_frontend_swzigzag_autotune` returns. -/
def Returns (fe : Frontend) (checkWrapped : Bool) (outcome : Option Outcome) (pass : Pass) : Prop :=
  ∃ passes, fe.swzigzagAutotune checkWrapped outcome passes = some pass

/-- Where the loop of the next call ends. -/
def next (fe : Frontend) : Frontend := { fe with priv := fe.priv.position fe.autoinversion }

/-- Every call returns. -/
theorem returns_attempt (fe : Frontend) (checkWrapped : Bool) (outcome : Option Outcome) :
    fe.Returns checkWrapped outcome (fe.next.attempt checkWrapped outcome) := by
  obtain ⟨passes, hrun⟩ := fe.priv.position_ends fe.autoinversion
  exact ⟨passes, by rw [swzigzagAutotune, hrun]; rfl⟩

theorem returns_iff :
    fe.Returns checkWrapped outcome pass ↔ pass = fe.next.attempt checkWrapped outcome := by
  refine ⟨?_, fun h => h ▸ returns_attempt fe checkWrapped outcome⟩
  rintro ⟨passes, hpass⟩
  rw [swzigzagAutotune, Option.map_eq_some_iff] at hpass
  obtain ⟨p, hrun, hpass⟩ := hpass
  rw [← hpass, Ends.unique ⟨passes, hrun⟩ (fe.priv.position_ends fe.autoinversion)]
  rfl

/-- The driver takes the attempt. -/
def Takes (outcome : Option Outcome) : Prop := ∀ o ∈ outcome, 0 ≤ o.ret

/-- What a pass tries. -/
def asked (fe : Frontend) : PropertyCache :=
  { frequency := fe.cache.frequency + fe.priv.lnbDrift.toUInt32
    inversion := if fe.autoinversion then fe.priv.inversion else fe.cache.inversion }

theorem attempt_wrapped (h : wrapped fe.priv checkWrapped = true) :
    fe.attempt checkWrapped outcome = ⟨1, fe, none⟩ := if_pos h

theorem attempt_takes (h : ¬wrapped fe.priv checkWrapped = true) (htakes : Takes outcome) :
    fe.attempt checkWrapped outcome =
      ⟨0, { fe with priv := fe.priv.nextSubStep }, some fe.asked⟩ := by
  rw [attempt, if_neg h]
  cases outcome with
  | none => rfl
  | some outcome =>
    have hret : ¬outcome.ret < 0 := Int.not_lt.mpr (htakes outcome rfl)
    exact if_neg hret

/-- When the driver refuses, what was tried stays in the cache. -/
theorem attempt_refuses (h : ¬wrapped fe.priv checkWrapped = true) (hrefuses : ¬Takes outcome) :
    (fe.attempt checkWrapped outcome).fe.cache = fe.asked := by
  rw [attempt, if_neg h]
  cases outcome with
  | none => exact absurd (fun o ho => nomatch ho) hrefuses
  | some outcome =>
    by_cases hret : outcome.ret < 0
    · dsimp only
      rw [if_pos hret]
      rfl
    · exact absurd (fun o ho => Option.some.inj ho ▸ Int.not_lt.mp hret) hrefuses

/-- The driver takes the attempt, or the attempt is at the beginning of a step: the one the search
    started at, or one without a drift while no inversion is tried. -/
def Spares (fe : Frontend) (checkWrapped : Bool) (outcome : Option Outcome) : Prop :=
  Takes outcome ∨ ∃ step, fe.priv.stepBegun fe.autoinversion = some step ∧
    (step = fe.priv.startedAutoStep ∧ checkWrapped ∨
      fe.priv.drift step = 0 ∧ (fe.autoinversion → fe.priv.inversion = .auto))

theorem add_eq_self_iff (f : UInt32) (d : Int32) : f + d.toUInt32 = f ↔ d = 0 := by
  rw [UInt32.add_eq_left]
  refine ⟨fun h => ?_, fun h => h ▸ rfl⟩
  rw [← Int32.toInt32_toUInt32 d, h]
  rfl

theorem asked_eq_iff : fe.asked = fe.cache ↔
    fe.priv.lnbDrift = 0 ∧ (fe.autoinversion → fe.priv.inversion = .auto) := by
  have hinv : (if fe.autoinversion then fe.priv.inversion else fe.cache.inversion) =
      fe.cache.inversion ↔ (fe.autoinversion → fe.priv.inversion = .auto) := by
    by_cases hauto : fe.autoinversion = true
    · have hcache : fe.cache.inversion = .auto := by
        rw [autoinversion, Bool.and_eq_true] at hauto
        exact of_decide_eq_true hauto.2
      rw [if_pos hauto, hcache]
      exact ⟨fun h _ => h, fun h => h hauto⟩
    · rw [if_neg hauto]
      exact ⟨fun _ h => absurd h hauto, fun _ => rfl⟩
  rw [← hinv, ← add_eq_self_iff fe.cache.frequency, asked]
  rw [PropertyCache.ext_iff]

/-- After a pass the cache is as the user has set it exactly when the pass spares it. -/
theorem returns_cache_iff (h : fe.Returns checkWrapped outcome pass) :
    pass.fe.cache = fe.cache ↔ fe.Spares checkWrapped outcome := by
  rw [returns_iff] at h
  subst h
  have hauto : fe.next.autoinversion = fe.autoinversion := rfl
  by_cases htakes : Takes outcome
  · refine iff_of_true ?_ (.inl htakes)
    by_cases hwrap : wrapped fe.next.priv checkWrapped = true
    · rw [attempt_wrapped hwrap]
      rfl
    · rw [attempt_takes hwrap htakes]
      rfl
  cases hbegun : fe.priv.stepBegun fe.autoinversion with
  | none =>
    obtain ⟨hsub, hother⟩ := FrontendPrivate.position_within hbegun
    have hwrap : ¬wrapped fe.next.priv checkWrapped = true := by
      intro hwrap
      simp only [wrapped, Bool.and_eq_true, decide_eq_true_eq] at hwrap
      exact hsub hwrap.1.2
    rw [attempt_refuses hwrap htakes]
    refine iff_of_false ?_ ?_
    · intro hcache
      obtain ⟨hdrift, hinv⟩ := asked_eq_iff.mp hcache
      rcases hother with hne | ⟨hon, hinversion⟩
      · exact hne hdrift
      · exact FrontendPrivate.other_ne_auto _ (hinversion ▸ hinv (hauto.trans hon))
    · rintro (h | ⟨step, hstep, -⟩)
      · exact htakes h
      · rw [hbegun] at hstep
        cases hstep
  | some step =>
    have hposition := FrontendPrivate.position_begun hbegun
    have hspares : fe.Spares checkWrapped outcome ↔
        (step = fe.priv.startedAutoStep ∧ checkWrapped ∨
          fe.priv.drift step = 0 ∧ (fe.autoinversion → fe.priv.inversion = .auto)) := by
      rw [Spares, hbegun]
      constructor
      · rintro (h | ⟨_, hstep, h⟩)
        · exact absurd h htakes
        · exact Option.some.inj hstep ▸ h
      · exact fun h => .inr ⟨step, rfl, h⟩
    have hnext : fe.next = { fe with priv := { fe.priv with
        autoStep := step, autoSubStep := 0, lnbDrift := fe.priv.drift step } } := by
      rw [next, hposition]
    rw [hspares]
    by_cases hwrap : step = fe.priv.startedAutoStep ∧ checkWrapped = true
    · refine iff_of_true ?_ (.inl hwrap)
      rw [attempt_wrapped (by simp [hnext, wrapped, hwrap])]
      rfl
    · rw [attempt_refuses (by simpa [hnext, wrapped] using hwrap) htakes]
      have hasked := @asked_eq_iff fe.next
      rw [hnext] at hasked ⊢
      exact hasked.trans ⟨.inr, fun h => h.resolve_left hwrap⟩

/-- A run of attempts each of which spares the cache; between them the rest of the state may
    change. -/
inductive Spared (fe : Frontend) : Frontend → Prop where
  | start : Spared fe fe
  | between (g : Frontend) (priv : FrontendPrivate) : Spared fe g → Spared fe { g with priv := priv }
  | pass {g : Frontend} {checkWrapped : Bool} {outcome : Option Outcome} {pass : Pass} :
    Spared fe g → g.Spares checkWrapped outcome → g.Returns checkWrapped outcome pass →
    Spared fe pass.fe

theorem Spared.cache_eq {g : Frontend} (h : Spared fe g) : g.cache = fe.cache := by
  induction h with
  | start => rfl
  | between g priv _ ih => exact ih
  | pass _ hspares hreturns ih => exact ((returns_cache_iff hreturns).mpr hspares).trans ih

/-- A pass leaves the user's parameters alone exactly when it spares them, and so does a run of
    passes that do. -/
theorem autotune_spares (fe : Frontend) :
    (∀ (checkWrapped : Bool) (outcome : Option Outcome) (pass : Pass),
      fe.Returns checkWrapped outcome pass →
        (pass.fe.cache = fe.cache ↔ fe.Spares checkWrapped outcome)) ∧
    ∀ g : Frontend, Spared fe g → g.cache = fe.cache :=
  ⟨fun _ _ _ => returns_cache_iff, fun _ => Spared.cache_eq⟩

/-- A frontend that was just retuned and has tried the frequency it was asked for. -/
def retuned : Frontend where
  canInversionAuto := true
  priv :=
    { state := 4, lnbDrift := 0, inversion := .off, autoStep := 0, autoSubStep := 1,
      startedAutoStep := 0, maxDrift := 2000, stepSize := 250 }
  cache := { frequency := 1210000, inversion := .off }

/-- The second attempt of `retuned` is taken. -/
theorem retuned_spared : (retuned.next.attempt true none).fe.cache = retuned.cache :=
  ((autotune_spares retuned).1 true none _ (returns_attempt _ _ _)).mpr
    (.inl (fun _ ho => nomatch ho))

/-- The second attempt of `retuned` is refused and the drift stays in the cache. -/
theorem refused_attempt_drifts : ∃ pass,
    retuned.Returns true (some ⟨-22, retuned.cache⟩) pass ∧
      pass.fe.cache = { frequency := 1210250, inversion := .off } ∧ pass.fe.cache ≠ retuned.cache :=
  ⟨_, ⟨5, rfl⟩, by decide, by decide⟩

end Frontend

end Dvb.Zigzag

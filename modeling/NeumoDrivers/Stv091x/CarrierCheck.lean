import Mathlib
import NeumoDrivers.Lib.Extremes
import NeumoDrivers.Lib.Loop

/-! The edge detector of the satellite scan (`stv091x_carrier_check`).

    The demodulator is moved over the tuner bandwidth in steps of half a megahertz, and the AGC2 level
    is read at each of them. The last ten levels stand in a ring; their least and greatest and their
    mean tell an edge of a carrier from noise. The least and the greatest are found in one pass that
    looks at a level as a new greatest one only when it is not a new least one, so that the greatest
    level is missed where it stands in the first slot alone; and nothing keeps the mean from being
    zero. -/

namespace Stv091x
open Loop

/-- What is found: nothing (0), a rising edge (1), a falling edge (2). -/
inductive Edge where
  | flat
  | rising
  | falling
  deriving DecidableEq

/-! ### The window -/

/-- The first `5 * div` slots of `agc2leveltab`; a level has 16 bits. -/
structure Window where
  levels : List UInt32
  size : levels.length = 10
  bounded : ∀ level ∈ levels, level ≤ 0xffff

theorem level_le (level : UInt16) : level.toUInt32 ≤ 0xffff := by
  rw [UInt32.le_iff_toNat_le, UInt16.toNat_toUInt32]
  exact Nat.le_of_lt_succ level.toNat_lt

/-- The window set to one level. -/
def Window.refill (level : UInt16) : Window where
  levels := List.replicate 10 level.toUInt32
  size := List.length_replicate
  bounded := by
    intro _ h
    rw [List.eq_of_mem_replicate h]
    exact level_le level

def Window.put (w : Window) (k : ℕ) (level : UInt16) : Window where
  levels := w.levels.set k level.toUInt32
  size := by rw [List.length_set, w.size]
  bounded := by
    intro _ h
    rcases List.mem_or_eq_of_mem_set h with h | rfl
    · exact w.bounded _ h
    · exact level_le level

/-- What the pass over the window keeps. -/
structure Extent where
  minagc2level : UInt32
  maxagc2level : UInt32
  acculevel : UInt32
  deriving DecidableEq

def Extent.see (e : Extent) (level : UInt32) : Extent where
  minagc2level := if level < e.minagc2level then level else e.minagc2level
  maxagc2level :=
    if level < e.minagc2level then e.maxagc2level
    else if e.maxagc2level < level then level
    else e.maxagc2level
  acculevel := e.acculevel + level

def Window.extent (w : Window) : Extent := w.levels.foldl Extent.see ⟨0xffff, 0, 0⟩

def Extent.midagc2level (e : Extent) : UInt32 := e.acculevel / 10

/-- What the least level is subtracted from. -/
def Extent.high (e : Extent) (waitforfall : Bool) (agc2level : UInt32) : UInt32 :=
  if waitforfall then agc2level else e.maxagc2level

/-- `agc2ratio`; `none` stands for the division by zero. -/
def Extent.agc2ratio (e : Extent) (waitforfall : Bool) (agc2level : UInt32) : Option UInt32 :=
  if e.midagc2level = 0 then none
  else
    let ratio := (e.high waitforfall agc2level - e.minagc2level) * 128 / e.midagc2level
    some (if 0xffff < ratio then 0xffff else ratio)

/-- `STV0910_BLIND_SEARCH_AGC2BANDWIDTH` -/
def blindSearchAgc2Bandwidth : UInt32 := 40

def edge (agc2ratio agc2level minagc2level : UInt32) : Edge :=
  if blindSearchAgc2Bandwidth < agc2ratio then
    if agc2level = minagc2level then .rising else .falling
  else .flat

/-! ### The loop -/

/-- The locals of the loop: `j` counts the steps from a rising edge on. -/
structure CarrierCheck where
  i : ℕ
  j : ℕ
  asperity : Edge
  waitforfall : Bool
  window : Window

/-- What the check returns: the edge, and the frequency jump in kHz. -/
structure Jump where
  asperity : Edge
  frequency : ℤ
  deriving DecidableEq

/-- `nbSteps`: a third of the tuner bandwidth in MHz, twice, and at least 1. -/
def nbSteps (tunerBw : Int32) : ℕ :=
  let steps := tunerBw.toInt.tdiv 3000000 * 2
  if steps ≤ 0 then 1 else steps.toNat

/-- There are at most 1430 steps, so that the 32 bits of the jump are enough. -/
def CarrierCheck.jump (s : CarrierCheck) : Jump where
  asperity := s.asperity
  frequency :=
    if s.asperity = .rising then 500 * ((s.i : ℤ) - ((s.j : ℤ) + 2) / 2) else 500 * (s.i : ℤ)

/-- The end of a step. -/
def CarrierCheck.next (s : CarrierCheck) : Next CarrierCheck (Option Jump) :=
  if s.waitforfall then
    if s.j = 10 then .exit (some s.jump) else .again { s with i := s.i + 1, j := s.j + 1 }
  else .again { s with i := s.i + 1 }

/-- The window with the level of this step. -/
def CarrierCheck.read (levels : ℕ → UInt16) (s : CarrierCheck) : Window :=
  s.window.put (s.i % 10) (levels s.i)

/-- A step after the first; `none` is left when it divides by zero. -/
def CarrierCheck.step (levels : ℕ → UInt16) (s : CarrierCheck) : Next CarrierCheck (Option Jump) :=
  let agc2level := (levels s.i).toUInt32
  let window := s.read levels
  match window.extent.agc2ratio s.waitforfall agc2level with
  | none => .exit none
  | some agc2ratio =>
    match edge agc2ratio agc2level window.extent.minagc2level with
    | .rising =>
      { s with asperity := .rising, waitforfall := true, window := .refill (levels s.i) }.next
    | .falling =>
      if s.j = 1 then
        { s with
          j := 0, asperity := .flat, waitforfall := false, window := .refill (levels s.i) }.next
      else .exit (some { s with asperity := if s.waitforfall then .rising else .falling }.jump)
    | .flat => { s with window := window }.next

def carrierCheckBody (levels : ℕ → UInt16) (nbSteps : ℕ) (s : CarrierCheck) :
    Next CarrierCheck (Option Jump) :=
  if s.i < nbSteps then
    if s.i = 0 then .again { s with i := 1, window := .refill (levels 0) }
    else s.step levels
  else .exit (some s.jump)

/-- Nothing reads the window before the first step has filled it. -/
def CarrierCheck.start : CarrierCheck := ⟨0, 0, .flat, false, .refill 0⟩

/-- `stv091x_carrier_check`; `none` stands for a division by zero. -/
def carrierCheck (tunerBw : Int32) (levels : ℕ → UInt16) : Option Jump :=
  (run (carrierCheckBody levels (nbSteps tunerBw)) (nbSteps tunerBw + 1) .start).join

/-- A step after the first that a check comes to. -/
structure Compares (tunerBw : Int32) (levels : ℕ → UInt16) (s : CarrierCheck) : Prop where
  visits : Visits (carrierCheckBody levels (nbSteps tunerBw)) .start s
  inRange : s.i < nbSteps tunerBw
  later : 0 < s.i

/-! ### What a step should compute -/

/-- The levels of a window, as numbers. -/
def Window.numbers (w : Window) : List ℕ := w.levels.map UInt32.toNat

def Window.mean (w : Window) : ℕ := w.numbers.sum / 10

/-- The definition of the ratio. -/
def edgeRatio (high low mean : ℕ) : ℕ := min 0xffff ((high - low) * 128 / mean)

/-- The value compared with the threshold is the ratio of the levels in the window, computed from its
    true greatest and least level without a division by zero or a wrap, and a window of equal levels
    is no falling edge. -/
structure Detects (w : Window) (waitforfall : Bool) (agc2level : UInt32) : Prop where
  least : IsLeast { n | n ∈ w.numbers } w.extent.minagc2level.toNat
  greatest : waitforfall = false → IsGreatest { n | n ∈ w.numbers } w.extent.maxagc2level.toNat
  total : w.extent.acculevel.toNat = w.numbers.sum
  divisor : w.mean ≠ 0
  difference : w.extent.minagc2level ≤ w.extent.high waitforfall agc2level
  product :
    ((w.extent.high waitforfall agc2level).toNat - w.extent.minagc2level.toNat) * 128 < 2 ^ 32
  ratio : ∃ ratio, w.extent.agc2ratio waitforfall agc2level = some ratio ∧
    ratio.toNat = edgeRatio (w.extent.high waitforfall agc2level).toNat
      w.extent.minagc2level.toNat w.mean
  flat : (∀ level ∈ w.levels, level = agc2level) → ∀ ratio,
    w.extent.agc2ratio waitforfall agc2level = some ratio →
      edge ratio agc2level w.extent.minagc2level ≠ .falling

/-- The pass over the window comes to see the greatest level: it stands in a slot after the first, or
    nothing is greater than it. -/
def Window.Seen (w : Window) : Prop :=
  ∃ n, IsGreatest { n | n ∈ w.numbers } n ∧ (n ∈ w.numbers.tail ∨ n = 0xffff)

/-! ### The pass over the window -/

variable {w : Window} {waitforfall : Bool} {agc2level : UInt32}

/-- The two levels of a pass, as numbers. -/
def Extent.extremes (e : Extent) : Extremes ℕ := ⟨e.minagc2level.toNat, e.maxagc2level.toNat⟩

theorem Extent.extremes_see (e : Extent) (level : UInt32) :
    (e.see level).extremes = e.extremes.see level.toNat := by
  rw [extremes, extremes, Extremes.see, see]
  dsimp only
  simp only [UInt32.lt_iff_toNat_lt, apply_ite UInt32.toNat]

theorem Extent.extremes_foldl : ∀ (l : List UInt32) (e : Extent),
    (l.foldl Extent.see e).extremes = (l.map UInt32.toNat).foldl Extremes.see e.extremes
  | [], _ => rfl
  | x :: l, e => by
    rw [List.foldl_cons, List.map_cons, List.foldl_cons, extremes_foldl l, extremes_see]

theorem Extent.total_foldl : ∀ {l : List UInt32} {e : Extent},
    e.acculevel.toNat + (l.map UInt32.toNat).sum < 2 ^ 32 →
      (l.foldl Extent.see e).acculevel.toNat = e.acculevel.toNat + (l.map UInt32.toNat).sum
  | [], _, _ => rfl
  | x :: l, e, h => by
    rw [List.map_cons, List.sum_cons] at h ⊢
    have hacc : (e.see x).acculevel.toNat = e.acculevel.toNat + x.toNat := by
      rw [see, UInt32.toNat_add]
      exact Nat.mod_eq_of_lt (by omega)
    rw [List.foldl_cons, total_foldl (by omega), hacc]
    omega

/-! ### A window -/

namespace Window

theorem length_numbers (w : Window) : w.numbers.length = 10 := by
  rw [numbers, List.length_map, w.size]

theorem numbers_ne_nil (w : Window) : w.numbers ≠ [] := by
  intro h
  have := w.length_numbers
  rw [h] at this
  cases this

theorem numbers_le (w : Window) : ∀ n ∈ w.numbers, n ≤ 0xffff := by
  intro n hn
  obtain ⟨level, hlevel, rfl⟩ := List.mem_map.mp hn
  exact UInt32.le_iff_toNat_le.mp (w.bounded level hlevel)

theorem sum_le (w : Window) : w.numbers.sum ≤ 10 * 0xffff := by
  have := List.sum_le_card_nsmul w.numbers 0xffff w.numbers_le
  rwa [w.length_numbers, smul_eq_mul] at this

theorem extremes_eq (w : Window) : w.extent.extremes = Extremes.pass 0xffff 0 w.numbers :=
  Extent.extremes_foldl w.levels ⟨0xffff, 0, 0⟩

theorem isLeast_min (w : Window) :
    IsLeast { n | n ∈ w.numbers } w.extent.minagc2level.toNat := by
  have hlow : w.extent.minagc2level.toNat = (Extremes.pass 0xffff 0 w.numbers).low :=
    congrArg Extremes.low w.extremes_eq
  rw [hlow]
  exact Extremes.isLeast_low w.numbers_ne_nil w.numbers_le

theorem seen_iff (w : Window) : w.Seen ↔ Extremes.Seen 0xffff 0 w.numbers := by
  constructor
  · rintro ⟨n, hn, htail | htop⟩
    · exact ⟨n, hn, .inl htail⟩
    · exact ⟨n, hn, .inr (.inl htop)⟩
  · rintro ⟨n, hn, htail | htop | rfl⟩
    · exact ⟨n, hn, .inl htail⟩
    · exact ⟨n, hn, .inr htop⟩
    · refine ⟨0, hn, .inl ?_⟩
      have hlength := w.length_numbers
      generalize w.numbers = l at hn hlength
      match l, hlength, hn with
      | _ :: x :: rest, _, hn =>
        have hx : x ≤ 0 := hn.2 (List.mem_cons_of_mem _ List.mem_cons_self)
        rw [Nat.le_zero.mp hx]
        exact List.mem_cons_self

theorem isGreatest_max_iff (w : Window) :
    IsGreatest { n | n ∈ w.numbers } w.extent.maxagc2level.toNat ↔ w.Seen := by
  have hhigh : w.extent.maxagc2level.toNat = (Extremes.pass 0xffff 0 w.numbers).high :=
    congrArg Extremes.high w.extremes_eq
  rw [hhigh, seen_iff]
  exact Extremes.isGreatest_high_iff w.numbers_le fun _ _ => Nat.zero_le _

theorem total (w : Window) : w.extent.acculevel.toNat = w.numbers.sum := by
  have hsum := w.sum_le
  have := @Extent.total_foldl w.levels ⟨0xffff, 0, 0⟩
  rw [numbers] at hsum ⊢
  simp only [UInt32.toNat_zero, Nat.zero_add] at this
  exact this (by omega)

theorem mid_eq_mean (w : Window) : w.extent.midagc2level.toNat = w.mean := by
  rw [Extent.midagc2level, UInt32.toNat_div, w.total]
  rfl

theorem mid_eq_zero_iff (w : Window) : w.extent.midagc2level = 0 ↔ w.mean = 0 := by
  rw [← w.mid_eq_mean, ← UInt32.toNat_inj, UInt32.toNat_zero]

theorem mean_ne_zero_iff (w : Window) : w.mean ≠ 0 ↔ 10 ≤ w.numbers.sum := by
  rw [mean]
  omega

end Window

/-! ### The ratio -/

variable {e : Extent} {ratio : UInt32}

theorem toNat_cap (n : UInt32) : (if 0xffff < n then 0xffff else n).toNat = min 0xffff n.toNat := by
  rw [apply_ite UInt32.toNat, min_def]
  simp only [UInt32.lt_iff_toNat_lt]
  rw [show (65535 : UInt32).toNat = 65535 from rfl]
  split <;> split <;> omega

/-- Without a wrap and a division by zero the ratio is the one defined. -/
theorem Extent.agc2ratio_eq (hmid : e.midagc2level ≠ 0)
    (hle : e.minagc2level ≤ e.high waitforfall agc2level)
    (hwrap : ((e.high waitforfall agc2level).toNat - e.minagc2level.toNat) * 128 < 2 ^ 32) :
    ∃ ratio, e.agc2ratio waitforfall agc2level = some ratio ∧
      ratio.toNat = edgeRatio (e.high waitforfall agc2level).toNat e.minagc2level.toNat
        e.midagc2level.toNat := by
  refine ⟨_, by rw [agc2ratio, if_neg hmid], ?_⟩
  rw [toNat_cap, UInt32.toNat_div, UInt32.toNat_mul, UInt32.toNat_sub_of_le _ _ hle]
  rw [show (128 : UInt32).toNat = 128 from rfl, Nat.mod_eq_of_lt hwrap, edgeRatio]

theorem edge_zero (agc2level minagc2level : UInt32) : edge 0 agc2level minagc2level = .flat := rfl

theorem Window.numbers_of_equal (heq : ∀ level ∈ w.levels, level = agc2level) :
    ∀ n ∈ w.numbers, n = agc2level.toNat := by
  intro n hn
  obtain ⟨level, hlevel, rfl⟩ := List.mem_map.mp hn
  rw [heq level hlevel]

/-- A step detects what it should exactly when the levels of its window have a mean, and the pass over
    the window sees the greatest of them where it is looked at. -/
theorem Window.detects_iff (w : Window) (waitforfall : Bool) (agc2level : UInt32)
    (hlevel : agc2level ∈ w.levels) :
    Detects w waitforfall agc2level ↔ 10 ≤ w.numbers.sum ∧ (waitforfall = true ∨ w.Seen) := by
  have hleast := w.isLeast_min
  have hmem : agc2level.toNat ∈ w.numbers := List.mem_map_of_mem hlevel
  constructor
  · intro h
    refine ⟨w.mean_ne_zero_iff.mp h.divisor, ?_⟩
    cases waitforfall with
    | false => exact .inr (w.isGreatest_max_iff.mp (h.greatest rfl))
    | true => exact .inl rfl
  · rintro ⟨hsum, hseen⟩
    have hmean : w.mean ≠ 0 := w.mean_ne_zero_iff.mpr hsum
    have hgreatest : waitforfall = false →
        IsGreatest { n | n ∈ w.numbers } w.extent.maxagc2level.toNat := by
      rintro rfl
      exact w.isGreatest_max_iff.mpr (hseen.resolve_left Bool.false_ne_true)
    -- What the least level is subtracted from is a level of the window.
    have hhigh : (w.extent.high waitforfall agc2level).toNat ∈ w.numbers := by
      cases waitforfall with
      | false => exact (hgreatest rfl).1
      | true => exact hmem
    have hle := hleast.2 hhigh
    have hbound := w.numbers_le _ hhigh
    have hwrap :
        ((w.extent.high waitforfall agc2level).toNat - w.extent.minagc2level.toNat) * 128 < 2 ^ 32 := by
      omega
    have hmid : w.extent.midagc2level ≠ 0 := fun h => hmean (w.mid_eq_zero_iff.mp h)
    obtain ⟨ratio, hratio, hvalue⟩ := Extent.agc2ratio_eq hmid (UInt32.le_iff_toNat_le.mpr hle) hwrap
    rw [w.mid_eq_mean] at hvalue
    refine ⟨hleast, hgreatest, w.total, hmean, UInt32.le_iff_toNat_le.mpr hle, hwrap,
      ⟨ratio, hratio, hvalue⟩, ?_⟩
    intro heq ratio' hratio'
    cases hratio.symm.trans hratio'
    -- All levels are equal: the difference is 0, and so is the ratio.
    have hnumbers := w.numbers_of_equal heq
    rw [hnumbers _ hhigh, hnumbers _ hleast.1, edgeRatio, Nat.sub_self, Nat.zero_mul, Nat.zero_div,
      Nat.min_zero] at hvalue
    have hzero : ratio = 0 := UInt32.toNat_inj.mp hvalue
    rw [hzero, edge_zero]
    exact fun h => by cases h

/-! ### The steps of a check -/

variable {levels : ℕ → UInt16} {s : CarrierCheck} {tunerBw : Int32}

theorem mem_read (levels : ℕ → UInt16) (s : CarrierCheck) :
    (levels s.i).toUInt32 ∈ (s.read levels).levels := by
  have hsize : s.i % 10 < s.window.levels.length := by
    rw [s.window.size]
    exact Nat.mod_lt _ (by decide)
  exact List.mem_set hsize _

theorem nbSteps_pos (tunerBw : Int32) : 0 < nbSteps tunerBw := by
  rw [nbSteps]
  split <;> omega

variable {n : ℕ} {next : CarrierCheck} {jump : Jump}

/-- What a check keeps: `j` counts the steps since a rising edge, and is 0 while none is found. -/
structure CarrierCheck.Inv (s : CarrierCheck) : Prop where
  idle : s.waitforfall = false → s.j = 0 ∧ s.asperity = .flat
  waiting : s.waitforfall = true → s.asperity = .rising ∧ 1 ≤ s.j ∧ s.j + 1 ≤ s.i

/-- What the end of a step expects: the rising edge may have been found in that step. -/
structure CarrierCheck.Moving (s : CarrierCheck) : Prop where
  later : 0 < s.i
  idle : s.waitforfall = false → s.j = 0 ∧ s.asperity = .flat
  waiting : s.waitforfall = true → s.asperity = .rising ∧ s.j + 1 ≤ s.i

/-- The jump leads on, and no further than the steps do. -/
def Jump.Within (n : ℕ) (jump : Jump) : Prop := 500 ≤ jump.frequency ∧ jump.frequency ≤ 500 * n

theorem CarrierCheck.start_inv : CarrierCheck.start.Inv :=
  ⟨fun _ => ⟨rfl, rfl⟩, fun h => by cases h⟩

theorem CarrierCheck.jump_within (hpos : 0 < s.i) (hle : s.i ≤ n)
    (hback : s.asperity = .rising → (s.j + 2) / 2 < s.i) : s.jump.Within n := by
  rw [Jump.Within, CarrierCheck.jump]
  dsimp only
  split
  next h =>
    have := hback h
    omega
  next => omega

theorem CarrierCheck.Inv.jump_within (h : s.Inv) (hpos : 0 < s.i) (hle : s.i ≤ n) :
    s.jump.Within n := by
  refine CarrierCheck.jump_within hpos hle fun hrising => ?_
  cases hwait : s.waitforfall with
  | false =>
    rw [(h.idle hwait).2] at hrising
    cases hrising
  | true =>
    obtain ⟨-, hj, hlt⟩ := h.waiting hwait
    omega

theorem CarrierCheck.Inv.moving (h : s.Inv) (hpos : 0 < s.i) : s.Moving where
  later := hpos
  idle := h.idle
  waiting hwait := ⟨(h.waiting hwait).1, (h.waiting hwait).2.2⟩

theorem CarrierCheck.Moving.next_again (h : s.Moving) (hnext : s.next = .again next) :
    next.Inv ∧ next.i = s.i + 1 := by
  rw [CarrierCheck.next] at hnext
  split at hnext
  next hwait =>
    split at hnext
    next => cases hnext
    next =>
      cases hnext
      obtain ⟨hrising, hlt⟩ := h.waiting hwait
      refine ⟨⟨fun hidle => ?_, fun _ => ⟨hrising, ?_, ?_⟩⟩, rfl⟩
      · rw [hwait] at hidle
        cases hidle
      · exact Nat.le_add_left 1 s.j
      · exact Nat.succ_le_succ hlt
  next hwait =>
    cases hnext
    exact ⟨⟨h.idle, fun h' => absurd h' hwait⟩, rfl⟩

theorem CarrierCheck.Moving.next_exit (h : s.Moving) (hle : s.i ≤ n) {result : Option Jump}
    (hnext : s.next = .exit result) : ∃ jump, result = some jump ∧ jump.Within n := by
  rw [CarrierCheck.next] at hnext
  split at hnext
  next hwait =>
    split at hnext
    next hj =>
      cases hnext
      have hlt := (h.waiting hwait).2
      exact ⟨_, rfl, CarrierCheck.jump_within h.later hle fun _ => by omega⟩
    next => cases hnext
  next => cases hnext

/-- What a step comes to: it divides by zero, it leads on from a state with the same count, or it
    finds a falling edge. -/
theorem CarrierCheck.Inv.step_cases (h : s.Inv) (hpos : 0 < s.i) (hle : s.i ≤ n)
    (levels : ℕ → UInt16) :
    ((s.read levels).mean = 0 ∧ s.step levels = .exit none) ∨
    (s.read levels).mean ≠ 0 ∧
      ((∃ t : CarrierCheck, s.step levels = t.next ∧ t.Moving ∧ t.i = s.i) ∨
        ∃ jump : Jump, s.step levels = .exit (some jump) ∧ jump.Within n) := by
  by_cases hmean : (s.read levels).mean = 0
  · refine .inl ⟨hmean, ?_⟩
    rw [CarrierCheck.step, Extent.agc2ratio, if_pos ((s.read levels).mid_eq_zero_iff.mpr hmean)]
  refine .inr ⟨hmean, ?_⟩
  have hmid : (s.read levels).extent.midagc2level ≠ 0 :=
    fun h => hmean ((s.read levels).mid_eq_zero_iff.mp h)
  rw [CarrierCheck.step, Extent.agc2ratio, if_neg hmid]
  dsimp only
  split
  next =>
    -- A rising edge: in a step that waits already, the count goes on.
    refine .inl ⟨_, rfl, ⟨hpos, fun h' => (nomatch h'), fun _ => ⟨rfl, ?_⟩⟩, rfl⟩
    cases hwait : s.waitforfall with
    | false => rw [(h.idle hwait).1]; exact hpos
    | true => exact (h.waiting hwait).2.2
  next =>
    split
    next => exact .inl ⟨_, rfl, ⟨hpos, fun _ => ⟨rfl, rfl⟩, fun h' => (nomatch h')⟩, rfl⟩
    next =>
      refine .inr ⟨_, rfl, CarrierCheck.jump_within hpos hle fun hrising => ?_⟩
      cases hwait : s.waitforfall with
      | false =>
        rw [hwait] at hrising
        cases hrising
      | true =>
        obtain ⟨-, hj, hlt⟩ := h.waiting hwait
        dsimp only
        omega
  next => exact .inl ⟨_, rfl, ⟨hpos, h.idle, (h.moving hpos).waiting⟩, rfl⟩

theorem body_first (hpos : 0 < n) :
    carrierCheckBody levels n .start =
      .again { CarrierCheck.start with i := 1, window := .refill (levels 0) } := by
  rw [carrierCheckBody, if_pos (show CarrierCheck.start.i < n from hpos),
    if_pos (show CarrierCheck.start.i = 0 from rfl)]

theorem body_step (hlt : s.i < n) (hpos : 0 < s.i) : carrierCheckBody levels n s = s.step levels := by
  rw [carrierCheckBody, if_pos hlt, if_neg (Nat.ne_of_gt hpos)]

theorem body_end (hle : n ≤ s.i) : carrierCheckBody levels n s = .exit (some s.jump) := by
  rw [carrierCheckBody, if_neg (Nat.not_lt.mpr hle)]

/-- What holds wherever a check gets. -/
structure CarrierCheck.Reached (n : ℕ) (s : CarrierCheck) : Prop where
  inv : s.Inv
  inRange : s.i ≤ n
  first : s.i = 0 → s = .start

theorem CarrierCheck.start_reached (n : ℕ) : CarrierCheck.start.Reached n :=
  ⟨CarrierCheck.start_inv, Nat.zero_le n, fun _ => rfl⟩

theorem CarrierCheck.Reached.again (h : s.Reached n)
    (hbody : carrierCheckBody levels n s = .again next) : next.Reached n ∧ next.i = s.i + 1 := by
  rcases Nat.lt_or_ge s.i n with hlt | hge
  swap
  · rw [body_end hge] at hbody
    cases hbody
  rcases Nat.eq_zero_or_pos s.i with hzero | hpos
  · rw [h.first hzero, body_first (Nat.zero_lt_of_lt hlt)] at hbody
    cases hbody
    refine ⟨⟨⟨fun _ => ⟨rfl, rfl⟩, fun h' => by cases h'⟩, Nat.zero_lt_of_lt hlt, fun h' => ?_⟩, ?_⟩
    · cases h'
    · exact congrArg (· + 1) hzero.symm
  rw [body_step hlt hpos] at hbody
  rcases h.inv.step_cases hpos h.inRange levels with ⟨-, hstep⟩ | ⟨-, ⟨t, hstep, ht, hi⟩ | ⟨_, hstep, _⟩⟩
  · rw [hstep] at hbody
    cases hbody
  · rw [hstep] at hbody
    obtain ⟨hinv, hnext⟩ := ht.next_again hbody
    rw [hi] at hnext
    exact ⟨⟨hinv, by omega, by omega⟩, hnext⟩
  · rw [hstep] at hbody
    cases hbody

/-- A check is left with a jump that leads on, or by a division by zero. -/
theorem CarrierCheck.Reached.exit (h : s.Reached n) (hn : 0 < n) {result : Option Jump}
    (hbody : carrierCheckBody levels n s = .exit result) :
    (∃ jump, result = some jump ∧ jump.Within n) ∨
      result = none ∧ 0 < s.i ∧ s.i < n ∧ (s.read levels).mean = 0 := by
  rcases Nat.lt_or_ge s.i n with hlt | hge
  swap
  · rw [body_end hge] at hbody
    cases hbody
    exact .inl ⟨_, rfl, h.inv.jump_within (by omega) h.inRange⟩
  rcases Nat.eq_zero_or_pos s.i with hzero | hpos
  · rw [h.first hzero, body_first hn] at hbody
    cases hbody
  rw [body_step hlt hpos] at hbody
  rcases h.inv.step_cases hpos h.inRange levels with
    ⟨hmean, hstep⟩ | ⟨-, ⟨t, hstep, ht, hi⟩ | ⟨jump, hstep, hjump⟩⟩
  · rw [hstep] at hbody
    cases hbody
    exact .inr ⟨rfl, hpos, hlt, hmean⟩
  · rw [hstep] at hbody
    exact .inl (ht.next_exit (hi ▸ h.inRange) hbody)
  · rw [hstep] at hbody
    cases hbody
    exact .inl ⟨jump, rfl, hjump⟩

theorem visits_reached (h : Visits (carrierCheckBody levels n) .start s) : s.Reached n :=
  h.invariant (CarrierCheck.start_reached n) fun _ _ ha hbody => (ha.again hbody).1

/-- The steps allowed are enough. -/
theorem carrierCheck_ends (tunerBw : Int32) (levels : ℕ → UInt16) :
    Ends (carrierCheckBody levels (nbSteps tunerBw)) .start (carrierCheck tunerBw levels) := by
  have hstep : ∀ a b, a.Reached (nbSteps tunerBw) →
      carrierCheckBody levels (nbSteps tunerBw) a = .again b →
      b.Reached (nbSteps tunerBw) ∧ nbSteps tunerBw - b.i < nbSteps tunerBw - a.i := by
    intro a b ha hbody
    obtain ⟨hb, hi⟩ := ha.again hbody
    have := hb.inRange
    exact ⟨hb, by omega⟩
  obtain ⟨result, hrun⟩ := run_of_measure _ hstep (CarrierCheck.start_reached (nbSteps tunerBw))
  have hrun' : run (carrierCheckBody levels (nbSteps tunerBw)) (nbSteps tunerBw + 1) .start =
      some result := hrun
  rw [carrierCheck, hrun']
  exact ⟨_, hrun⟩

theorem carrierCheck_within (h : carrierCheck tunerBw levels = some jump) :
    jump.Within (nbSteps tunerBw) := by
  obtain ⟨s, hvisits, hexit⟩ := (carrierCheck_ends tunerBw levels).visits
  rcases (visits_reached hvisits).exit (nbSteps_pos tunerBw) hexit with
    ⟨_, hsome, hwithin⟩ | ⟨hnone, -⟩
  · cases h.symm.trans hsome
    exact hwithin
  · rw [h] at hnone
    cases hnone

/-- A check returns exactly when each step it comes to has levels to divide by. -/
theorem carrierCheck_returns_iff (tunerBw : Int32) (levels : ℕ → UInt16) :
    (∃ jump, carrierCheck tunerBw levels = some jump) ↔
      ∀ s, Compares tunerBw levels s → 10 ≤ (s.read levels).numbers.sum := by
  have hends := carrierCheck_ends tunerBw levels
  constructor
  · rintro ⟨jump, hjump⟩ s hs
    rw [← Window.mean_ne_zero_iff]
    intro hmean
    have hbody : carrierCheckBody levels (nbSteps tunerBw) s = .exit none := by
      rw [body_step hs.inRange hs.later]
      rcases (visits_reached hs.visits).inv.step_cases hs.later hs.inRange.le levels with
        ⟨-, hstep⟩ | ⟨hne, -⟩
      · exact hstep
      · exact absurd hmean hne
    have := hends.unique (hs.visits.ends (.exit hbody))
    rw [hjump] at this
    cases this
  · intro hall
    obtain ⟨s, hvisits, hexit⟩ := hends.visits
    rcases (visits_reached hvisits).exit (nbSteps_pos tunerBw) hexit with
      ⟨jump, hsome, -⟩ | ⟨-, hpos, hlt, hmean⟩
    · exact ⟨jump, hsome⟩
    · exact absurd hmean (Window.mean_ne_zero_iff _ |>.mpr (hall s ⟨hvisits, hlt, hpos⟩))

/-- For every tuner bandwidth and every sequence of levels, at every step after the first: the edge
    detector computes its definition exactly when the ten levels of its window sum up to at least 10,
    and, unless it waits for a falling edge, the greatest of them stands in another slot than the first
    or is 0xffff. -/
theorem carrierCheck_detects_iff (tunerBw : Int32) (levels : ℕ → UInt16) (s : CarrierCheck)
    (_ : Compares tunerBw levels s) :
    Detects (s.read levels) s.waitforfall (levels s.i).toUInt32 ↔
      10 ≤ (s.read levels).numbers.sum ∧ (s.waitforfall = true ∨ (s.read levels).Seen) :=
  (s.read levels).detects_iff s.waitforfall _ (mem_read levels s)

/-- The levels of an even band, at the first step that compares them. -/
def evenStep : CarrierCheck := ⟨1, 0, .flat, false, .refill 100⟩

theorem evenStep_detects : Detects (evenStep.read fun _ => 100) false 100 := by
  have hle : ∀ n ∈ (evenStep.read fun _ => 100).numbers, n ≤ 100 := by decide
  have hsteps : Compares 72000000 (fun _ => 100) evenStep :=
    ⟨.pass .start rfl, by decide, by decide⟩
  exact (carrierCheck_detects_iff 72000000 (fun _ => 100) evenStep hsteps).mpr
    ⟨by decide, .inr ⟨100, ⟨by decide, fun n hn => hle n hn⟩, .inl (by decide)⟩⟩

/-- Levels that fall by a hundredth at each step. -/
def slope (i : ℕ) : UInt16 := 1000 - 10 * UInt16.ofNat i

/-- The tenth step of the slope: each level is a new least one, so that the greatest is left at 0. -/
def slopeStep : CarrierCheck where
  i := 9
  j := 0
  asperity := .flat
  waitforfall := false
  window := (List.range 9).foldl (fun w i => w.put i (slope i)) (.refill 1000)

/-- The difference wraps: a rising edge is found where the band slopes gently. -/
theorem slope_wraps :
    ¬ ∀ (tunerBw : Int32) (levels : ℕ → UInt16) (s : CarrierCheck), Compares tunerBw levels s →
      Detects (s.read levels) s.waitforfall (levels s.i).toUInt32 := by
  intro h
  have hvisits : Visits (carrierCheckBody slope (nbSteps 72000000)) .start slopeStep :=
    .of_after (n := 9) rfl
  have := (h 72000000 slope slopeStep ⟨hvisits, by decide, by decide⟩).difference
  revert this
  decide

end Stv091x

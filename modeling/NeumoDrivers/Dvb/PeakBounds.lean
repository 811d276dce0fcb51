import NeumoDrivers.Dvb.SpectrumScan

/-! How far a scan stays inside its arrays.

    The sums, the kernels and the search for edges do, but for a spectrum of one sample. A candidate
    does unless the search for its top runs off the end of the spectrum, and the list of peaks does as
    long as a peak is only kept while there is room. -/

namespace Dvb.Scan
open Buffers Passes

variable {ss : Spectrum} {si : Sums} {rs noise : Buffer Int32} {marks : Buffer UInt8}
variable {peaks peaks' : List Peak} {w riseIdx fallIdx i delta : ℤ} {n : ℕ}

theorem spectrum_inside (ss : Spectrum) (h0 : 0 ≤ i) (h : i < ss.len) : ss.spectrum.Inside i := ⟨h0, h⟩

/-! ### The sums -/

theorem runningSum_some (hn : 0 < ss.len) :
    ∃ rs, runningSum ss.spectrum ss.len = some rs ∧ rs.size = ss.len := by
  obtain ⟨s, hs, hsize⟩ := foldlM_rule (f := runningSumStep ss.spectrum) (l := up 0 ss.len)
    (s := (⟨ss.len, fun _ => 0⟩, ss.level 0)) (fun s => s.1.size = ss.len) rfl (by
      intro s i hi hsize
      rw [mem_up] at hi
      have hx := Buffer.read_inside (spectrum_inside ss hi.1 (by omega))
      have hin : s.1.Inside i := ⟨hi.1, by omega⟩
      simp only [runningSumStep, hx, Buffer.write_inside hin, Option.bind_eq_bind, Option.bind_some]
      exact ⟨_, rfl, hsize⟩)
  have h0 := Buffer.read_inside (spectrum_inside ss (i := 0) (by omega) (by omega))
  refine ⟨s.1, ?_, hsize⟩
  rw [runningSum, h0]
  simp only [Option.bind_eq_bind, Option.bind_some]
  rw [show ss.spectrum.cell 0 = ss.level 0 from rfl, hs]
  rfl

theorem spectrum_read (ss : Spectrum) (h0 : 0 ≤ i) (h : i < ss.len) :
    ss.spectrum.read i = some (ss.level i) := Buffer.read_inside (spectrum_inside ss h0 h)

/-- A sample that has two neighbours. -/
theorem noiseStep_eq {s : Buffer Int32 × Int32} (hsize : s.1.size = ss.len) (hi : 1 ≤ i)
    (hlt : i + 1 < ss.len) : noiseStep ss.spectrum s i =
      let accu := s.2 + dtabs (ss.level i * 2 - (ss.level (i - 1) + ss.level (i + 1)))
      some (⟨s.1.size, Function.update s.1.cell i accu⟩, accu) := by
  have hin : s.1.Inside i := ⟨by omega, by omega⟩
  simp only [noiseStep, spectrum_read ss (show 0 ≤ i by omega) (by omega),
    spectrum_read ss (show 0 ≤ i - 1 by omega) (by omega),
    spectrum_read ss (show 0 ≤ i + 1 by omega) hlt, Buffer.write_inside hin, Option.bind_eq_bind,
    Option.bind_some]

theorem noiseEst_eq (hn : 2 ≤ ss.len) {s : Buffer Int32 × Int32}
    (hs : (up 1 (ss.len - 2)).foldlM (noiseStep ss.spectrum)
      (⟨ss.len, fun _ => 0⟩, dtabs (2 * ss.level 0 - ss.level 1)) = some s)
    (hsize : s.1.size = ss.len) : noiseEst ss.spectrum ss.len =
      some ⟨s.1.size, Function.update s.1.cell (ss.len - 1)
        (s.2 + dtabs (2 * ss.level (ss.len - 1) - ss.level (ss.len - 1 - 1)))⟩ := by
  have hmax : max 1 ((ss.len : ℤ) - 1) = ss.len - 1 := by omega
  have hin : s.1.Inside (ss.len - 1) := ⟨by omega, by omega⟩
  rw [noiseEst, spectrum_read ss (by omega) (by omega), spectrum_read ss (by omega) (by omega)]
  simp only [Option.bind_eq_bind, Option.bind_some, hs, hmax, Buffer.write_inside hin,
    spectrum_read ss (show 0 ≤ (ss.len : ℤ) - 1 by omega) (by omega),
    spectrum_read ss (show 0 ≤ (ss.len : ℤ) - 1 - 1 by omega) (by omega)]

theorem noiseEst_some (hn : 2 ≤ ss.len) :
    ∃ noise, noiseEst ss.spectrum ss.len = some noise ∧ noise.size = ss.len := by
  obtain ⟨s, hs, hsize⟩ := foldlM_rule (f := noiseStep ss.spectrum) (l := up 1 (ss.len - 2))
    (s := (⟨ss.len, fun _ => 0⟩, dtabs (2 * ss.level 0 - ss.level 1))) (fun s => s.1.size = ss.len) rfl (by
      intro s i hi hsize
      rw [mem_up] at hi
      exact ⟨_, noiseStep_eq hsize hi.1 (by omega), hsize⟩)
  exact ⟨_, noiseEst_eq hn hs hsize, hsize⟩

theorem noiseEst_one (h : ss.len = 1) : noiseEst ss.spectrum ss.len = none := by
  have h1 : ss.spectrum.read 1 = none := if_neg fun hin => by
    have := hin.2
    rw [Spectrum.spectrum, h] at this
    dsimp only at this
    omega
  rw [noiseEst, h1]
  cases ss.spectrum.read 0 <;> rfl

/-- The arrays are as large as the spectrum. -/
structure Sums.Sized (ss : Spectrum) (si : Sums) : Prop where
  rs : si.rs.size = ss.len
  noise : si.noise.size = ss.len

theorem spectralScanInit_some (h : ss.len ≠ 1) : ∃ si, spectralScanInit ss = some si ∧ si.Sized ss := by
  rw [spectralScanInit]
  by_cases h0 : ss.len = 0
  · exact ⟨_, if_pos h0, h0.symm, h0.symm⟩
  · obtain ⟨rs, hrs, hrsSize⟩ := runningSum_some (show 0 < ss.len by omega)
    obtain ⟨noise, hnoise, hnoiseSize⟩ := noiseEst_some (show 2 ≤ ss.len by omega)
    rw [if_neg h0, hrs, hnoise]
    exact ⟨⟨rs, noise⟩, rfl, hrsSize, hnoiseSize⟩

theorem spectralScanInit_one (h : ss.len = 1) : spectralScanInit ss = none := by
  rw [spectralScanInit, if_neg (by omega), noiseEst_one h]
  cases runningSum ss.spectrum ss.len <;> rfl

/-! ### The edges -/

theorem windows_pos : ∀ w ∈ windows, 2 ≤ w := by decide +kernel

theorem slopeWidth_pos (w d : ℤ) : 1 ≤ slopeWidth w d := by
  unfold slopeWidth
  split <;> omega

/-- The marks are as many as the samples, and the best response is at one of them. -/
def Slope.Sized (n : ℕ) (st : Slope) : Prop := st.marks.size = n ∧ st.besti < n

theorem Slope.Sized.markSlope {st : Slope} (h : st.Sized n) (h0 : 0 ≤ i) (hi : i < n) (flag : UInt8)
    (w apart : ℤ) (response : Int32) :
    ∃ st', markSlope flag w i apart response st = some st' ∧ st'.Sized n := by
  obtain ⟨hsize, hbest⟩ := h
  obtain ⟨besti, hbesti⟩ : ∃ b, b = if 0 ≤ st.besti ∧ w / 4 ≤ apart then -1 else st.besti := ⟨_, rfl⟩
  have hlt : besti < n := by
    rw [hbesti]
    split <;> omega
  have hin : ∀ m : Buffer UInt8, m.size = n → m.Inside i := fun m hm => ⟨h0, by omega⟩
  rw [Scan.markSlope]
  simp only [← hbesti]
  by_cases hworse : 0 ≤ besti ∧ st.best ≤ response
  · have hb : st.marks.Inside besti := ⟨hworse.1, by omega⟩
    simp only [if_pos hworse, Buffer.read_inside hb, Buffer.write_inside hb, Option.bind_eq_bind,
      Option.bind_some]
    have hcleared : Buffer.Inside ⟨st.marks.size, Function.update st.marks.cell besti
        (st.marks.cell besti &&& ~~~flag)⟩ i := hin _ hsize
    rw [if_neg (by omega)]
    simp only [Buffer.read_inside hcleared, Buffer.write_inside hcleared, Option.bind_some]
    rw [if_pos (.inr (by decide))]
    exact ⟨_, rfl, hsize, hi⟩
  · simp only [if_neg hworse, Option.bind_eq_bind, Option.bind_some]
    by_cases hweak : 0 ≤ besti ∧ response < st.best
    · exact ⟨_, if_pos hweak, hsize, hlt⟩
    · simp only [if_neg hweak, Buffer.read_inside (hin _ hsize), Buffer.write_inside (hin _ hsize),
        Option.bind_some]
      split
      · exact ⟨_, rfl, hsize, hi⟩
      · exact ⟨_, rfl, hsize, hlt⟩

theorem fallingStep_some {st : Slope} (hrs : rs.size = ss.len) (h : st.Sized ss.len) (hw : 0 ≤ w)
    (hdelta : 0 ≤ delta) (hwi : w ≤ i) (hi : i + delta < ss.len) :
    ∃ st', fallingStep ss rs w delta st i = some st' ∧ st'.Sized ss.len := by
  have hx : rs.Inside i := ⟨by omega, by omega⟩
  have hy : rs.Inside (i - w) := ⟨by omega, by omega⟩
  have hright := spectrum_inside ss (i := i + delta) (by omega) hi
  simp only [fallingStep, Buffer.read_inside hx, Buffer.read_inside hy, Buffer.read_inside hright,
    Option.bind_eq_bind, Option.bind_some]
  split
  · exact h.markSlope (by omega) (by omega) _ _ _ _
  · exact ⟨st, rfl, h⟩

theorem risingStep_some {st : Slope} (hrs : rs.size = ss.len) (h : st.Sized ss.len) (hw : 0 ≤ w)
    (hdelta : 0 ≤ delta) (hdi : delta ≤ i) (hi : i + w < ss.len) :
    ∃ st', risingStep ss rs w delta st i = some st' ∧ st'.Sized ss.len := by
  have hx : rs.Inside (i + w) := ⟨by omega, by omega⟩
  have hy : rs.Inside i := ⟨by omega, by omega⟩
  have hleft := spectrum_inside ss (i := i - delta) (by omega) (by omega)
  simp only [risingStep, Buffer.read_inside hx, Buffer.read_inside hy, Buffer.read_inside hleft,
    Option.bind_eq_bind, Option.bind_some]
  split
  · exact h.markSlope (by omega) (by omega) _ _ _ _
  · exact ⟨st, rfl, h⟩

theorem spectralInitLevel_some (hrs : rs.size = ss.len) (hw : 0 < w) :
    ∃ marks, spectralInitLevel ss rs w = some marks ∧ marks.size = ss.len := by
  have hdelta := slopeWidth_pos w (w * 16 / 200)
  have hstart (marks : Buffer UInt8) (h : marks.size = ss.len) : Slope.Sized ss.len ⟨marks, -1, 0⟩ :=
    ⟨h, by dsimp only; omega⟩
  obtain ⟨fall, hfall, hfallSize⟩ := foldlM_rule
    (f := fallingStep ss rs w (slopeWidth w (w * 16 / 200)))
    (l := down (ss.len - slopeWidth w (w * 16 / 200) - 1) (ss.len - slopeWidth w (w * 16 / 200) - w).toNat)
    (Slope.Sized ss.len) (hstart ⟨ss.len, fun _ => 0⟩ rfl) fun st i hi h => by
      rw [mem_down] at hi
      exact fallingStep_some hrs h (by omega) (by omega) (by omega) (by omega)
  obtain ⟨rise, hrise, hriseSize⟩ := foldlM_rule
    (f := risingStep ss rs w (slopeWidth w (w * 16 / 200)))
    (l := up (slopeWidth w (w * 16 / 200)) (ss.len - w - slopeWidth w (w * 16 / 200)).toNat)
    (Slope.Sized ss.len) (hstart fall.marks hfallSize.1) fun st i hi h => by
      rw [mem_up] at hi
      exact risingStep_some hrs h (by omega) (by omega) (by omega) (by omega)
  refine ⟨rise.marks, ?_, hriseSize.1⟩
  rw [spectralInitLevel, fallingKernel, hfall]
  simp only [Option.bind_eq_bind, Option.bind_some, risingKernel, hrise]

theorem startIdx_pos (hw : 2 ≤ w) : 1 ≤ startIdx w := by
  unfold startIdx
  split <;> omega

theorem mem_fallRange (hw : 2 ≤ w) (h : fallIdx ∈ fallRange ss w) : 1 ≤ fallIdx ∧ fallIdx + 1 < ss.len := by
  have hstart := startIdx_pos hw
  rw [fallRange, mem_up] at h
  unfold endIdx at h
  split at h <;> omega

theorem mem_riseRange (hw : 2 ≤ w) (h : riseIdx ∈ riseRange w fallIdx) :
    2 ≤ riseIdx ∧ riseIdx + w ≤ fallIdx := by
  have hstart := startIdx_pos hw
  rw [riseRange, mem_down] at h
  unfold lowerLimit at h
  omega

/-! ### Measuring a candidate -/

variable {v : Valley} {left3db right3db : ℤ} {l : List ℤ} {level thresh : Int32}

theorem meanBetween_some {a b : ℤ} (hrs : rs.size = ss.len) (ha : 0 ≤ a ∧ a < ss.len)
    (hb : 0 ≤ b ∧ b < ss.len) : ∃ mean, meanBetween rs a b = some mean := by
  have hx : rs.Inside b := ⟨hb.1, by omega⟩
  have hy : rs.Inside a := ⟨ha.1, by omega⟩
  rw [meanBetween, Buffer.read_inside hx, Buffer.read_inside hy]
  exact ⟨_, rfl⟩

theorem lowest_some (ss : Spectrum) {s : Int32 × ℤ} (hl : ∀ i ∈ l, ss.spectrum.Inside i) :
    ∃ s', l.foldlM (lowestStep ss.spectrum) s = some s' ∧ (s'.2 = s.2 ∨ s'.2 ∈ l) := by
  refine foldlM_rule (fun t : Int32 × ℤ => t.2 = s.2 ∨ t.2 ∈ l) (.inl rfl) fun t i hi ht => ?_
  rw [lowestStep, Buffer.read_inside (hl i hi)]
  simp only [Option.bind_eq_bind, Option.bind_some]
  refine ⟨_, rfl, ?_⟩
  split
  · exact .inr hi
  · exact ht

/-- Where what is lowest next to a peak can be: on its side, at a sample. -/
structure Valley.Beside (ss : Spectrum) (riseIdx fallIdx : ℤ) (v : Valley) : Prop where
  left : 0 ≤ v.leftI ∧ v.leftI < riseIdx
  right : fallIdx ≤ v.rightI ∧ v.rightI < ss.len

theorem valley_some (h1 : 1 ≤ riseIdx) (hlt : riseIdx < fallIdx) (hn : fallIdx + 1 < ss.len) :
    ∃ v, valley ss w riseIdx fallIdx = some v ∧ v.Beside ss riseIdx fallIdx := by
  have hdelta := slopeWidth_pos w (w * 16 / 100)
  rw [valley]
  generalize slopeWidth w (w * 16 / 100) = delta at *
  obtain ⟨left, hleft⟩ : ∃ x, x = max (riseIdx - delta) 0 := ⟨_, rfl⟩
  obtain ⟨right, hright⟩ : ∃ x, x = min (fallIdx + delta) (ss.len : ℤ) := ⟨_, rfl⟩
  have hx := Buffer.read_inside (spectrum_inside ss (i := left) (by omega) (by omega))
  have hy := Buffer.read_inside (spectrum_inside ss (i := right - 1) (by omega) (by omega))
  obtain ⟨x, hfx, hxi⟩ := lowest_some ss (s := (ss.spectrum.cell left, left))
    (l := up left (riseIdx - left).toNat) fun i hi => by
      rw [mem_up] at hi
      exact spectrum_inside ss (by omega) (by omega)
  obtain ⟨y, hfy, hyi⟩ := lowest_some ss (s := (ss.spectrum.cell (right - 1), right - 1))
    (l := up (fallIdx + 1) (right - (fallIdx + 1)).toNat) fun i hi => by
      rw [mem_up] at hi
      exact spectrum_inside ss (by omega) (by omega)
  simp only [← hleft, ← hright, hx, hy, hfx, hfy, Option.bind_eq_bind, Option.bind_some]
  refine ⟨_, rfl, ?_, ?_⟩
  · rw [mem_up] at hxi
    dsimp only at hxi ⊢
    omega
  · rw [mem_up] at hyi
    dsimp only at hyi ⊢
    omega

theorem limit3db_some (ss : Spectrum) (thresh : Int32) (w fallback : ℤ) (hl : ∀ i ∈ l, ss.spectrum.Inside i) :
    ∃ i, limit3db ss.spectrum thresh w l fallback = some i ∧ (i = fallback ∨ i ∈ l) := by
  obtain ⟨s, done, hs, hinv⟩ := foldUntil_rule (g := limitStep ss.spectrum thresh w) (l := l)
    (s := (0, fallback)) (fun s => s.2 = fallback ∨ s.2 ∈ l) (.inl rfl) fun s i hi h => by
      rw [limitStep, Buffer.read_inside (hl i hi)]
      simp only [Option.bind_eq_bind, Option.bind_some]
      split
      · refine ⟨_, _, rfl, ?_⟩
        dsimp only
        split
        · exact .inr hi
        · exact h
      · exact ⟨_, _, rfl, h⟩
  rw [limit3db, hs]
  simp only [Option.bind_eq_bind, Option.bind_some]
  refine ⟨_, rfl, ?_⟩
  split
  · exact .inl rfl
  · exact hinv

theorem limits_some (hv : v.Beside ss riseIdx fallIdx) (hlt : riseIdx < fallIdx) (mean : Int32) :
    ∃ left3db right3db, limits ss w v mean = some (left3db, right3db) ∧
      (v.leftI ≤ left3db ∧ left3db ≤ v.rightI) ∧ v.leftI ≤ right3db ∧ right3db ≤ v.rightI := by
  obtain ⟨hl, hl'⟩ := hv.left
  obtain ⟨hr, hr'⟩ := hv.right
  obtain ⟨left3db, hleft, hleftI⟩ := limit3db_some ss (mean - 3000) w v.leftI
    (l := up v.leftI (v.rightI - v.leftI).toNat) fun i hi => by
      rw [mem_up] at hi
      exact spectrum_inside ss (by omega) (by omega)
  obtain ⟨right3db, hright, hrightI⟩ := limit3db_some ss (mean - 3000) w v.rightI
    (l := down v.rightI (v.rightI - v.leftI + 1).toNat) fun i hi => by
      rw [mem_down] at hi
      exact spectrum_inside ss (by omega) (by omega)
  rw [mem_up] at hleftI
  rw [mem_down] at hrightI
  refine ⟨left3db, right3db, ?_, by omega, by omega⟩
  simp only [limits, hleft, hright, Option.bind_eq_bind, Option.bind_some]

theorem firstReaching_some (ss : Spectrum) (level : Int32) (after : ℤ) (hl : ∀ i ∈ l, ss.spectrum.Inside i) :
    ∃ i, firstReaching ss.spectrum level after l = some i ∧
      (i ∈ l ∧ level ≤ ss.level i ∨ i = after ∧ ∀ j ∈ l, ¬ level ≤ ss.level j) := by
  induction l with
  | nil => exact ⟨after, rfl, .inr ⟨rfl, fun j hj => by cases hj⟩⟩
  | cons j l ih =>
    rw [firstReaching, Buffer.read_inside (hl j List.mem_cons_self)]
    simp only [Option.bind_eq_bind, Option.bind_some]
    by_cases hj : level ≤ ss.level j
    · exact ⟨j, if_pos hj, .inl ⟨List.mem_cons_self, hj⟩⟩
    · obtain ⟨i, hi, hcases⟩ := ih fun k hk => hl k (List.mem_cons_of_mem _ hk)
      refine ⟨i, (if_neg hj).trans hi, ?_⟩
      rcases hcases with ⟨hmem, hle⟩ | ⟨rfl, hall⟩
      · exact .inl ⟨List.mem_cons_of_mem _ hmem, hle⟩
      · refine .inr ⟨rfl, fun k hk => ?_⟩
        rcases List.mem_cons.mp hk with rfl | hk
        · exact hj
        · exact hall k hk

/-- The top of a peak begins inside its limits, or nothing in them reaches the mean level and it begins
    behind them. -/
theorem plateau_some (level : Int32) (hl : 0 ≤ left3db ∧ left3db < ss.len) (hr : 0 ≤ right3db ∧ right3db < ss.len) :
    ∃ leftTop rightTop, plateau ss left3db right3db level = some (leftTop, rightTop) ∧
      0 ≤ leftTop ∧ rightTop ≤ right3db ∧
      (leftTop < ss.len ↔ (right3db = ss.len - 1 →
        ∃ i, left3db ≤ i ∧ i ≤ right3db ∧ level ≤ ss.level i)) := by
  obtain ⟨leftTop, hleft, hcases⟩ := firstReaching_some ss level
    (max left3db (right3db + 1)) (l := up left3db (right3db - left3db + 1).toNat) fun i hi => by
      rw [mem_up] at hi
      exact spectrum_inside ss (by omega) (by omega)
  obtain ⟨rightTop, hright, hcases'⟩ := firstReaching_some ss level
    (min right3db (leftTop - 1)) (l := down right3db (right3db - leftTop + 1).toNat)
    fun i hi => by
      rw [mem_down] at hi
      rw [mem_up] at hcases
      exact spectrum_inside ss (by omega) (by omega)
  refine ⟨leftTop, rightTop, ?_, ?_, ?_, ?_⟩
  · simp only [plateau, hleft, hright, Option.bind_eq_bind, Option.bind_some]
  · rw [mem_up] at hcases
    omega
  · rw [mem_down] at hcases'
    omega
  · constructor
    · intro hlt hend
      rcases hcases with ⟨hmem, hle⟩ | ⟨hafter, -⟩
      · rw [mem_up] at hmem
        exact ⟨leftTop, hmem.1, by omega, hle⟩
      · omega
    · intro h
      rcases hcases with ⟨hmem, -⟩ | ⟨hafter, hall⟩
      · rw [mem_up] at hmem
        omega
      · by_cases hend : right3db = ss.len - 1
        · obtain ⟨i, hi, hi', hle⟩ := h hend
          exact absurd hle (hall i (mem_up.mpr ⟨hi, by omega⟩))
        · omega

/-- The search for the top of the peak does not run off the end of the spectrum: if the upper limit of
    the peak is the last sample, then something within the limits reaches the mean level. -/
def TopInside (ss : Spectrum) (si : Sums) (w riseIdx fallIdx : ℤ) : Prop :=
  ∀ mean v left3db right3db, meanBetween si.rs riseIdx fallIdx = some mean →
    valley ss w riseIdx fallIdx = some v → limits ss w v mean = some (left3db, right3db) →
    right3db = ss.len - 1 → ∃ i, left3db ≤ i ∧ i ≤ right3db ∧ mean ≤ ss.level i

/-- A candidate can be measured if and only if its top is inside the spectrum. -/
theorem processCandidate_isSome_iff (hsi : si.Sized ss) (h1 : 1 ≤ riseIdx) (hlt : riseIdx < fallIdx)
    (hn : fallIdx + 1 < ss.len) :
    (processCandidate ss si.rs si.noise w riseIdx fallIdx).isSome ↔ TopInside ss si w riseIdx fallIdx := by
  obtain ⟨mean, hmean⟩ := meanBetween_some (a := riseIdx) (b := fallIdx) hsi.rs
    ⟨by omega, by omega⟩ ⟨by omega, by omega⟩
  obtain ⟨v, hv, hbeside⟩ := valley_some (w := w) h1 hlt hn
  obtain ⟨hvl, hvl'⟩ := hbeside.left
  obtain ⟨hvr, hvr'⟩ := hbeside.right
  obtain ⟨left3db, right3db, hlimits, hl, hr⟩ := limits_some (w := w) hbeside hlt mean
  obtain ⟨leftTop, rightTop, hplateau, h0, hright, htop⟩ := plateau_some mean
    (show 0 ≤ left3db ∧ left3db < ss.len by omega) (show 0 ≤ right3db ∧ right3db < ss.len by omega)
  have hinside : TopInside ss si w riseIdx fallIdx ↔ leftTop < ss.len := by
    rw [htop]
    constructor
    · intro h
      exact h mean v left3db right3db hmean hv hlimits
    · intro h mean' v' left' right' hmean' hv' hlimits'
      rw [hmean] at hmean'
      cases hmean'
      rw [hv] at hv'
      cases hv'
      rw [hlimits] at hlimits'
      cases hlimits'
      exact h
  have hx : si.noise.Inside fallIdx := ⟨by omega, by rw [hsi.noise]; omega⟩
  have hy : si.noise.Inside riseIdx := ⟨by omega, by rw [hsi.noise]; omega⟩
  obtain ⟨mean', hmean'⟩ : ∃ mean', topLevel si.rs leftTop rightTop mean = some mean' := by
    rw [topLevel]
    by_cases hwide : leftTop < rightTop
    · obtain ⟨m, hm⟩ := meanBetween_some (a := leftTop) (b := rightTop) hsi.rs
        ⟨h0, by omega⟩ ⟨by omega, by omega⟩
      exact ⟨m, (if_pos hwide).trans hm⟩
    · exact ⟨mean, if_neg hwide⟩
  obtain ⟨left', right', hlimits', hl', hr'⟩ := limits_some (w := w) hbeside hlt mean'
  rw [hinside, processCandidate]
  simp only [hmean, Buffer.read_inside hx, Buffer.read_inside hy, hv, hlimits, hplateau, hmean', hlimits',
    Option.bind_eq_bind, Option.bind_some]
  by_cases hleft : leftTop < ss.len
  · refine iff_of_true ?_ hleft
    have hdip := spectrum_inside ss h0 hleft
    obtain ⟨dip, hdips, -⟩ := lowest_some ss (s := (ss.spectrum.cell leftTop, leftTop))
      (l := up leftTop (rightTop - leftTop + 1).toNat) fun i hi => by
        rw [mem_up] at hi
        exact spectrum_inside ss (by omega) (by omega)
    have hfreq : ∀ i : ℤ, 0 ≤ i → i < ss.len → ss.freq.Inside i := fun i hi hi' => ⟨hi, hi'⟩
    have hmid : 0 ≤ (right' + left').tdiv 2 ∧ (right' + left').tdiv 2 < ss.len := by
      rw [Int.tdiv_eq_ediv_of_nonneg (by omega)]
      omega
    simp only [Buffer.read_inside hdip, hdips, Buffer.read_inside (hfreq _ hmid.1 hmid.2),
      Buffer.read_inside (hfreq right' (by omega) (by omega)),
      Buffer.read_inside (hfreq left' (by omega) (by omega)), Option.bind_some, Option.isSome_some]
  · refine iff_of_false ?_ hleft
    have hout : ss.spectrum.read leftTop = none := if_neg fun hin => hleft hin.2
    rw [hout]
    exact Bool.false_ne_true

/-! ### The scan -/

/-- There is room for the candidate if it is kept. -/
def HasRoom (ss : Spectrum) (si : Sums) (w riseIdx fallIdx : ℤ) (peaks : List Peak) : Prop :=
  ∀ cand, processCandidate ss si.rs si.noise w riseIdx fallIdx = some cand →
    0 ≤ (checkCandidateTp ss cand peaks).1 → (checkCandidateTp ss cand peaks).2.length < maxNumPeaks

theorem examine_isSome_iff (hsi : si.Sized ss) (h1 : 1 ≤ riseIdx) (hlt : riseIdx < fallIdx)
    (hn : fallIdx + 1 < ss.len) :
    (examine ss si w riseIdx fallIdx peaks).isSome ↔
      TopInside ss si w riseIdx fallIdx ∧ HasRoom ss si w riseIdx fallIdx peaks := by
  rw [← processCandidate_isSome_iff hsi h1 hlt hn, examine, HasRoom]
  cases hcand : processCandidate ss si.rs si.noise w riseIdx fallIdx with
  | none => exact iff_of_false Bool.false_ne_true fun h => Bool.false_ne_true h.1
  | some cand =>
    simp only [Option.bind_eq_bind, Option.bind_some, Option.isSome_some, true_and, Option.some.injEq,
      forall_eq']
    split_ifs with hkeep hroom
    · exact iff_of_true rfl fun _ => hroom
    · exact iff_of_false Bool.false_ne_true fun h => hroom (h hkeep)
    · exact iff_of_true rfl fun h => absurd h hkeep

theorem KeptAt.length_le (h : KeptAt ss peaks) : peaks.length ≤ maxNumPeaks := by
  refine h.invariant (P := fun l => l.length ≤ maxNumPeaks) (fun l l' hsub hl => Nat.le_trans hsub.length_le hl)
    (fun si w riseIdx fallIdx peaks peaks' done hp hx => ?_) (Nat.zero_le _)
  obtain ⟨cand, -, hx⟩ := Option.bind_eq_some_iff.mp hx
  dsimp only at hx
  split_ifs at hx with hkeep hroom
  · cases hx
    rw [List.length_append]
    exact hroom
  · cases hx
    exact Nat.le_trans checkCandidateTp_sublist.length_le hp

theorem riseStep_isSome_iff {m : UInt8} (hm : marks.read riseIdx = some m) :
    (riseStep ss si w marks fallIdx peaks riseIdx).isSome ↔
      (m &&& rising ≠ 0 → (examine ss si w riseIdx fallIdx peaks).isSome) := by
  rw [riseStep, hm, Option.bind_eq_bind, Option.bind_some]
  split_ifs with h
  · exact ⟨fun hx _ => hx, fun hx => hx h⟩
  · exact iff_of_true rfl fun hx => absurd hx h

theorem fallStep_isSome_iff {m : UInt8} (hm : marks.read fallIdx = some m) :
    (fallStep ss si w marks peaks fallIdx).isSome ↔ (m &&& falling ≠ 0 → ∀ t i,
      Meets (riseStep ss si w marks fallIdx) (riseRange w fallIdx) peaks t i →
        (riseStep ss si w marks fallIdx t i).isSome) := by
  rw [fallStep, hm, Option.bind_eq_bind, Option.bind_some, ← foldUntil_isSome_iff]
  split_ifs with h
  · exact ⟨fun hx _ => hx, fun hx => hx h⟩
  · exact iff_of_true rfl fun hx => absurd hx h

theorem scanLevel_isSome_iff (hmarks : spectralInitLevel ss si.rs w = some marks) :
    (scanLevel ss si peaks w).isSome ↔ ∀ t i,
      Meets (fallStep ss si w marks) (fallRange ss w) peaks t i → (fallStep ss si w marks t i).isSome := by
  rw [scanLevel, hmarks, Option.bind_eq_bind, Option.bind_some, ← foldUntil_isSome_iff]
  cases foldUntil (fallStep ss si w marks) (fallRange ss w) peaks <;> rfl

/-- The scan stays inside its arrays: all its accesses have a result, and there are never more peaks than
    the list has room for. -/
def StaysInside (ss : Spectrum) : Prop :=
  (scanAll ss).isSome ∧ ∀ peaks, KeptAt ss peaks → peaks.length ≤ maxNumPeaks

/-- Each candidate that is examined can be measured, and is only kept while there is room. -/
def CandidatesFit (ss : Spectrum) : Prop :=
  ∀ si w riseIdx fallIdx peaks, Examines ss si w riseIdx fallIdx peaks →
    TopInside ss si w riseIdx fallIdx ∧ HasRoom ss si w riseIdx fallIdx peaks

theorem Enters.mem_windows (h : Enters ss si w peaks) : w ∈ Scan.windows := by
  obtain ⟨pre, post, hw, -⟩ := h.windows
  rw [hw]
  exact List.mem_append_right _ List.mem_cons_self

/-- The scan goes on from a window if and only if it goes on from each candidate it comes to. -/
theorem Enters.scanLevel_iff (hsi : si.Sized ss) {before : List Peak} (h : Enters ss si w before) :
    (scanLevel ss si before w).isSome ↔ ∀ marks, spectralInitLevel ss si.rs w = some marks →
      ∀ level fallIdx m, Meets (fallStep ss si w marks) (fallRange ss w) before level fallIdx →
        marks.read fallIdx = some m → m &&& falling ≠ 0 → ∀ peaks riseIdx m',
          Meets (riseStep ss si w marks fallIdx) (riseRange w fallIdx) level peaks riseIdx →
            marks.read riseIdx = some m' → m' &&& rising ≠ 0 →
              TopInside ss si w riseIdx fallIdx ∧ HasRoom ss si w riseIdx fallIdx peaks := by
  have hw := windows_pos w h.mem_windows
  obtain ⟨marks, hmarks, hsize⟩ := spectralInitLevel_some hsi.rs (show 0 < w by omega)
  have hread : ∀ i : ℤ, 0 ≤ i → i < ss.len → marks.read i = some (marks.cell i) := fun i h0 hi =>
    Buffer.read_inside ⟨h0, by omega⟩
  rw [scanLevel_isSome_iff hmarks]
  constructor
  · intro hall marks' hmarks' level fallIdx m hfall hm hmf peaks riseIdx m' hrise hm' hmr
    rw [hmarks] at hmarks'
    cases hmarks'
    obtain ⟨hf, hf'⟩ := mem_fallRange hw hfall.mem
    obtain ⟨hr, hr'⟩ := mem_riseRange hw hrise.mem
    have hstep := (fallStep_isSome_iff hm).mp (hall level fallIdx hfall) hmf peaks riseIdx hrise
    exact (examine_isSome_iff hsi (by omega) (by omega) hf').mp ((riseStep_isSome_iff hm').mp hstep hmr)
  · intro hall level fallIdx hfall
    obtain ⟨hf, hf'⟩ := mem_fallRange hw hfall.mem
    have hm := hread fallIdx (by omega) (by omega)
    refine (fallStep_isSome_iff hm).mpr fun hmf peaks riseIdx hrise => ?_
    obtain ⟨hr, hr'⟩ := mem_riseRange hw hrise.mem
    have hm' := hread riseIdx (by omega) (by omega)
    refine (riseStep_isSome_iff hm').mpr fun hmr => ?_
    exact (examine_isSome_iff hsi (by omega) (by omega) hf').mpr
      (hall marks hmarks level fallIdx _ hfall hm hmf peaks riseIdx _ hrise hm' hmr)

/-- A scan stays inside its arrays if and only if the spectrum is not a single sample, the top of each
    candidate is found in it, and no candidate is kept when the list of peaks is full. -/
theorem scan_stays_inside_iff (ss : Spectrum) : StaysInside ss ↔ ss.len ≠ 1 ∧ CandidatesFit ss := by
  have hiff : StaysInside ss ↔ (scanAll ss).isSome := ⟨fun h => h.1, fun h => ⟨h, fun _ hp => hp.length_le⟩⟩
  rw [hiff]
  by_cases hone : ss.len = 1
  · rw [scanAll, spectralScanInit_one hone]
    exact iff_of_false Bool.false_ne_true fun h => h.1 hone
  obtain ⟨si, hsi, hsized⟩ := spectralScanInit_some hone
  rw [scanAll, hsi, Option.bind_eq_bind, Option.bind_some, foldlM_isSome_iff]
  constructor
  · intro hall
    refine ⟨hone, fun si' w riseIdx fallIdx peaks hx => ?_⟩
    obtain ⟨before, level, marks, m, m', henter, hmarks, hfall, hm, hmf, hrise, hm', hmr⟩ := hx.edges
    have hsame := henter.sums
    rw [hsi] at hsame
    cases hsame
    obtain ⟨pre, post, hpre, hbefore⟩ := henter.windows
    exact (henter.scanLevel_iff hsized).mp (hall pre w post before hpre hbefore) marks hmarks level
      fallIdx m hfall hm hmf peaks riseIdx m' hrise hm' hmr
  · rintro ⟨-, hfit⟩ pre w post before hpre hbefore
    have henter : Enters ss si w before := ⟨hsi, pre, post, hpre, hbefore⟩
    refine (henter.scanLevel_iff hsized).mpr fun marks hmarks level fallIdx m hfall hm hmf peaks riseIdx m'
      hrise hm' hmr => ?_
    exact hfit si w riseIdx fallIdx peaks ⟨before, level, marks, m, m', henter, hmarks, hfall, hm, hmf,
      hrise, hm', hmr⟩

/-- A spectrum of one sample: `noise_est` reads its neighbour. -/
theorem scan_leaves_arrays : ¬ StaysInside ⟨1, fun _ => 0, fun _ => 950000, 3000, 3000⟩ := by
  intro h
  have : (scanAll ⟨1, fun _ => 0, fun _ => 950000, 3000, 3000⟩).isSome = false := by decide
  rw [h.1] at this
  cases this

end Dvb.Scan

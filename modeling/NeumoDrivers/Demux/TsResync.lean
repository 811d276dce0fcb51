import NeumoDrivers.Demux.TsFilter

/-! Finding packets again after garbage.

    When the search for a packet had to skip bytes, it looks one packet length before the place it
    got to: the garbage may be the end of a packet that a false sync byte hid. As no sync byte was
    skipped, that place lies among bytes already used, and the packet found overlaps the one before
    it. Otherwise packets are disjoint; their starts increase in any case. -/

namespace Demux
open Loop

variable {β : Type} [Cell β] {pktsize p : ℕ} {buf : List β} {s t : TsPass β}

/-- The search from `p` on skips bytes and finds a sync byte one packet length before the place where
    it stops, among the 188 bytes of the packet that ends at `p`. -/
def Overlaps (pktsize : ℕ) (buf : List β) (p : ℕ) : Prop :=
  ∃ b, b + (pktsize - 188) < p ∧ isSync pktsize (bufAt buf b) ∧ p < b + pktsize ∧
    Found pktsize buf p (b + pktsize)

/-- No search of the call does. -/
def Steady (pktsize : ℕ) (f : TsFilter β) (buf : List β) : Prop :=
  ∀ s t, swfilterEnter pktsize f buf = .again s → Visits (swfilterBody pktsize buf) s t →
    ¬ Overlaps pktsize buf t.p

/-- No search of a run of calls does. -/
def AllSteady (pktsize : ℕ) : TsInput β → List (List β) → Prop
  | _, [] => True
  | x, buf :: bufs => Steady pktsize x.filter buf ∧
    ∀ y, x.feed pktsize buf = .done y → AllSteady pktsize y bufs

/-- The packet was cut out of the input: from a sync byte on, with the usual one put in its place. -/
def CutFrom (pktsize : ℕ) (input : List β) (h : Handed β) : Prop :=
  ∃ k : ℕ, h.offset = k ∧ k + pktsize ≤ input.length ∧ isSync pktsize (bufAt input k) ∧
    h.cells = delivered pktsize (input.drop k)

/-- The bytes of the packets, 188 each, are disjoint and in order. -/
def Apart (hs : List (Handed β)) : Prop := hs.Pairwise fun a b => a.offset + 188 ≤ b.offset

theorem Found.unique {start a b : ℕ} (ha : Found pktsize buf start a)
    (hb : Found pktsize buf start b) : a = b := by
  have hle : ∀ {a b : ℕ}, Found pktsize buf start a → Found pktsize buf start b → a ≤ b := by
    intro a b ha hb
    by_contra hlt
    have hnone := ha.none_before b hb.ge (by omega)
    rw [hb.sync (Nat.lt_of_lt_of_le (by omega) ha.le)] at hnone
    cases hnone
  exact Nat.le_antisymm (hle ha hb) (hle hb ha)

theorem overlaps_iff (hp : p ≤ buf.length) :
    Overlaps pktsize buf p ↔ findNextPacket pktsize buf p + (pktsize - 188) < p := by
  obtain ⟨pos, hfound, hcase⟩ := findNextPacket_cases pktsize hp
  have hge := hfound.ge
  constructor
  · rintro ⟨b, hb, hsync, hlt, hfound'⟩
    have hpos := hfound.unique hfound'
    rcases hcase with ⟨-, hno⟩ | ⟨hback, -, -⟩
    · refine absurd ⟨by omega, by omega, ?_⟩ hno
      rw [hpos, Nat.add_sub_cancel]
      exact hsync
    · omega
  · intro hlt
    rcases hcase with ⟨hfind, -⟩ | ⟨hback, hlt', hsync⟩
    · omega
    · exact ⟨_, hlt, hsync, by omega, hback ▸ hfound⟩

theorem bufAt_append_right (front buf : List β) (k : ℕ) :
    bufAt (front ++ buf) (front.length + k) = bufAt buf k := by
  rw [bufAt, bufAt, List.getD_append_right _ _ _ _ (Nat.le_add_right ..), Nat.add_sub_cancel_left]

theorem CutFrom.append {input : List β} {h : Handed β} (hsize : 188 ≤ pktsize)
    (hcut : CutFrom pktsize input h) (more : List β) : CutFrom pktsize (input ++ more) h := by
  obtain ⟨k, hoff, hlen, hsync, hcells⟩ := hcut
  have hne : input.drop k ≠ [] := by
    rw [Ne, List.drop_eq_nil_iff]
    omega
  have hdrop : (input ++ more).drop k = input.drop k ++ more :=
    List.drop_append_of_le_length (by omega)
  refine ⟨k, hoff, by rw [List.length_append]; omega, ?_, ?_⟩
  · rw [← bufAt_drop, hdrop, bufAt_append hne, bufAt_drop]
    exact hsync
  · rw [hcells, hdrop, ← delivered_take (input.drop k ++ more) hsize,
      List.take_append_of_le_length (by rw [List.length_drop]; omega), delivered_take _ hsize]

/-! ### One pass -/

/-- The packets `hs` were cut out of `front ++ buf`, in the order of their starts, and none goes
    beyond the place `p` of `buf`. -/
structure CutUpTo (pktsize : ℕ) (front buf : List β) (hs : List (Handed β)) (p : ℕ) : Prop where
  le : p ≤ buf.length
  cut : ∀ h ∈ hs, CutFrom pktsize (front ++ buf) h
  ends : ∀ h ∈ hs, h.offset + pktsize ≤ front.length + p
  starts : hs.Pairwise fun a b => a.offset < b.offset

/-- The last packet ends at `p`, or no byte of `buf` was used. -/
def LastEnds (pktsize : ℕ) (front : List β) (hs : List (Handed β)) (p : ℕ) : Prop :=
  p = 0 ∨ ∃ h ∈ hs, h.offset + pktsize = front.length + p

variable {front : List β} {hs : List (Handed β)}

theorem CutUpTo.mono (h : CutUpTo pktsize front buf hs p) {q : ℕ} (hpq : p ≤ q)
    (hq : q ≤ buf.length) : CutUpTo pktsize front buf hs q where
  le := hq
  cut := h.cut
  ends := fun a ha => Int.le_trans (h.ends a ha) (by omega)
  starts := h.starts

/-- The packet that a pass cuts out of the input. -/
theorem CutUpTo.pass (h : CutUpTo pktsize front buf hs p) (hsize : 188 ≤ pktsize)
    (hgo : findNextPacket pktsize buf p + pktsize ≤ buf.length) :
    CutUpTo pktsize front buf
      (hs ++ [⟨front.length + findNextPacket pktsize buf p,
        delivered pktsize (buf.drop (findNextPacket pktsize buf p))⟩])
      (findNextPacket pktsize buf p + pktsize) := by
  obtain ⟨pos, hfound, hcase⟩ := findNextPacket_cases pktsize h.le
  have hge := hfound.ge
  have hle := hfound.le
  have hon : p < findNextPacket pktsize buf p + pktsize := by
    rcases hcase with ⟨hfind, -⟩ | ⟨hback, hlt, -⟩
    · omega
    · omega
  have hsync : isSync pktsize (bufAt buf (findNextPacket pktsize buf p)) = true := by
    rcases hcase with ⟨hfind, -⟩ | ⟨-, -, hsync⟩
    · rw [hfind]
      exact hfound.sync (by omega)
    · exact hsync
  refine ⟨hgo, ?_, ?_, ?_⟩
  · intro a ha
    rcases List.mem_append.mp ha with ha | ha
    · exact h.cut a ha
    · rw [List.mem_singleton.mp ha]
      refine ⟨front.length + findNextPacket pktsize buf p, by simp only; omega, ?_, ?_, ?_⟩
      · rw [List.length_append]
        omega
      · rw [bufAt_append_right]
        exact hsync
      · rw [List.drop_length_add_append]
  · intro a ha
    rcases List.mem_append.mp ha with ha | ha
    · have hend := h.ends a ha
      omega
    · rw [List.mem_singleton.mp ha]
      simp only
      omega
  · refine List.pairwise_append.mpr ⟨h.starts, List.pairwise_singleton _ _, ?_⟩
    intro a ha b hb
    rw [List.mem_singleton.mp hb]
    have hend := h.ends a ha
    simp only
    omega

/-- It keeps the packets apart unless the search overlaps. -/
theorem CutUpTo.apart (h : CutUpTo pktsize front buf hs p) (hlast : LastEnds pktsize front hs p)
    (hsize : 188 ≤ pktsize) {cells : List β} :
    Apart (hs ++ [⟨front.length + findNextPacket pktsize buf p, cells⟩]) ↔
      Apart hs ∧ ¬ Overlaps pktsize buf p := by
  rw [overlaps_iff h.le, Apart, List.pairwise_append]
  refine and_congr_right fun _ => ?_
  constructor
  · rintro ⟨-, hbefore⟩ hlt
    rcases hlast with rfl | ⟨a, ha, hend⟩
    · omega
    · have hapart := hbefore a ha _ (List.mem_singleton_self _)
      simp only at hapart
      omega
  · intro hno
    refine ⟨List.pairwise_singleton _ _, ?_⟩
    intro a ha b hb
    rw [List.mem_singleton.mp hb]
    have hend := h.ends a ha
    simp only
    omega

/-- Where the loop is left, the search went forward, to a sync byte or the end. -/
theorem exit_forward (hp : p ≤ buf.length)
    (hexit : buf.length < findNextPacket pktsize buf p + pktsize) :
    p ≤ findNextPacket pktsize buf p ∧ findNextPacket pktsize buf p ≤ buf.length ∧
      (findNextPacket pktsize buf p < buf.length →
        isSync pktsize (bufAt buf (findNextPacket pktsize buf p)) = true) := by
  obtain ⟨pos, hfound, hcase⟩ := findNextPacket_cases pktsize hp
  rcases hcase with ⟨hfind, -⟩ | ⟨hback, -, -⟩
  · rw [hfind]
    exact ⟨hfound.ge, hfound.le, hfound.sync⟩
  · have hle := hfound.le
    omega

/-! ### The main loop -/

/-- The packets handed over so far, in this call and before. -/
def TsPass.all (s : TsPass β) (front : List β) (old : List (Handed β)) : List (Handed β) :=
  old ++ s.handed.map (Handed.shift front.length)

variable {old : List (Handed β)}

theorem swfilterLoop_cut (hsize : 188 ≤ pktsize)
    (h : CutUpTo pktsize front buf (s.all front old) s.p)
    (hlast : LastEnds pktsize front (s.all front old) s.p) :
    ∃ t, Ends (swfilterBody pktsize buf) s (.done t) ∧
      CutUpTo pktsize front buf (t.all front old) t.p ∧ buf.length < t.p + pktsize ∧
      (t.p < buf.length → isSync pktsize (bufAt buf t.p) = true) ∧
      (Apart (t.all front old) ↔ Apart (s.all front old) ∧
        ∀ u, Visits (swfilterBody pktsize buf) s u → ¬ Overlaps pktsize buf u.p) := by
  induction hm : buf.length - s.p using Nat.strongRecOn generalizing s with
  | ind m ih =>
    rcases Nat.lt_or_ge buf.length (findNextPacket pktsize buf s.p + pktsize) with hexit | hgo
    · obtain ⟨hfwd, hle, hsync⟩ := exit_forward h.le hexit
      have hbody := swfilterBody_exit hexit
      refine ⟨_, .exit hbody, h.mono hfwd hle, hexit, hsync, ?_⟩
      refine ⟨fun ha => ⟨ha, fun u hu => ?_⟩, fun ha => ha.1⟩
      rcases visits_iff.mp hu with rfl | ⟨t, ht, -⟩
      · rw [overlaps_iff h.le]
        omega
      · rw [hbody] at ht
        cases ht
    · obtain ⟨tsbuf, hbody⟩ := swfilterBody_again hsize hgo
      have hon := (swfilterBody_progress hsize h.le hbody).1
      obtain ⟨t, ht⟩ : ∃ t, t = (⟨tsbuf, findNextPacket pktsize buf s.p + pktsize, s.handed ++
        [⟨findNextPacket pktsize buf s.p,
          delivered pktsize (buf.drop (findNextPacket pktsize buf s.p))⟩]⟩ : TsPass β) := ⟨_, rfl⟩
      have hall : t.all front old = s.all front old ++
          [⟨front.length + findNextPacket pktsize buf s.p,
            delivered pktsize (buf.drop (findNextPacket pktsize buf s.p))⟩] := by
        rw [ht, TsPass.all, TsPass.all, List.map_append, List.append_assoc]
        rfl
      have hp : t.p = findNextPacket pktsize buf s.p + pktsize := by rw [ht]
      rw [← ht] at hbody hon
      have hcut : CutUpTo pktsize front buf (t.all front old) t.p := by
        rw [hall, hp]
        exact h.pass hsize hgo
      have hlast' : LastEnds pktsize front (t.all front old) t.p := by
        refine .inr ⟨_, by rw [hall]; exact List.mem_append_right _ (List.mem_singleton_self _), ?_⟩
        rw [hp]
        simp only
        omega
      have hle := hcut.le
      obtain ⟨u, hends, hcut', hleft, hsync, hiff⟩ := ih _ (by omega) hcut hlast' rfl
      refine ⟨u, .again hbody hends, hcut', hleft, hsync, ?_⟩
      rw [hiff, hall, h.apart hlast hsize, and_assoc]
      refine and_congr_right fun _ => ⟨?_, ?_⟩
      · rintro ⟨hno, hrest⟩ v hv
        rcases visits_iff.mp hv with rfl | ⟨w, hw, hv⟩
        · exact hno
        · rw [hbody] at hw
          cases hw
          exact hrest v hv
      · intro hno
        exact ⟨hno s .start, fun v hv => hno v (hv.head hbody)⟩

/-! ### Calls -/

/-- Between two calls: the packets were cut out of the input given so far, and the filter keeps the
    bytes behind the last of them. -/
structure Cutting (pktsize : ℕ) (input : List β) (x : TsInput β) : Prop where
  fed_eq : x.fed = input.length
  kept_le : x.filter.tsbufp ≤ input.length
  keeps : Keeps pktsize (input.drop (input.length - x.filter.tsbufp)) x.filter
  cut : CutUpTo pktsize input [] x.handed 0
  ends : ∀ h ∈ x.handed, h.offset + pktsize + x.filter.tsbufp ≤ input.length

variable {x y : TsInput β} {input : List β}

theorem CutUpTo.more (h : CutUpTo pktsize front [] hs 0) (hsize : 188 ≤ pktsize) (buf : List β) :
    CutUpTo pktsize front buf hs 0 where
  le := Nat.zero_le _
  cut := fun a ha => by
    have hcut := h.cut a ha
    rw [List.append_nil] at hcut
    exact hcut.append hsize buf
  ends := h.ends
  starts := h.starts

theorem CutUpTo.next (h : CutUpTo pktsize front buf hs p) (hp : p ≤ buf.length) :
    CutUpTo pktsize (front ++ buf) [] hs 0 where
  le := Nat.zero_le _
  cut := fun a ha => by
    rw [List.append_nil]
    exact h.cut a ha
  ends := fun a ha => by
    have hend := h.ends a ha
    rw [List.length_append]
    omega
  starts := h.starts

/-- From where the main loop starts, the call cuts on. -/
theorem Cutting.feed_loop (h : Cutting pktsize input x) (hsize : 188 ≤ pktsize)
    (hsize' : pktsize ≤ 204) (henter : swfilterEnter pktsize x.filter buf = .again s)
    (hcut : CutUpTo pktsize input buf (s.all input x.handed) s.p)
    (hlast : LastEnds pktsize input (s.all input x.handed) s.p)
    (hapart : Apart (s.all input x.handed) ↔ Apart x.handed) :
    ∃ y, x.feed pktsize buf = .done y ∧ Cutting pktsize (input ++ buf) y ∧
      (Apart y.handed ↔ Apart x.handed ∧ Steady pktsize x.filter buf) := by
  obtain ⟨t, hends, hcut', hleft, hsync, hiff⟩ := swfilterLoop_cut hsize hcut hlast
  have htp := hcut'.le
  obtain ⟨f', hkeep, hkeeps⟩ := swfilterKeep_keeps hsize' htp hleft hsync
  have htsbufp : f'.tsbufp = buf.length - t.p := by rw [hkeeps.tsbufp_eq, List.length_drop]
  refine ⟨⟨f', x.fed + buf.length, t.all input x.handed⟩, ?_, ⟨?_, ?_, ?_, hcut'.next htp, ?_⟩, ?_⟩
  · rw [TsInput.feed, swfilter, henter]
    simp only [swfilterLoop_eq hsize hcut.le hends, hkeep]
    rw [TsPass.all, h.fed_eq]
  · rw [List.length_append, h.fed_eq]
  · rw [List.length_append, htsbufp]
    omega
  · have hdrop : (input ++ buf).drop ((input ++ buf).length - f'.tsbufp) = buf.drop t.p := by
      have hnat : (input ++ buf).length - f'.tsbufp = input.length + t.p := by
        rw [List.length_append, htsbufp]
        omega
      rw [hnat, List.drop_length_add_append]
    simp only
    rw [hdrop]
    exact hkeeps
  · intro a ha
    have hend := hcut'.ends a ha
    rw [List.length_append]
    simp only [htsbufp]
    omega
  · rw [hiff, hapart, Steady]
    refine and_congr_right fun _ => ⟨?_, fun hno u hu => hno s u henter hu⟩
    intro hno s' u hs' hu
    rw [henter] at hs'
    cases hs'
    exact hno u hu

theorem Cutting.feed (h : Cutting pktsize input x) (hsize : 188 ≤ pktsize) (hsize' : pktsize ≤ 204)
    (buf : List β) :
    ∃ y, x.feed pktsize buf = .done y ∧ Cutting pktsize (input ++ buf) y ∧
      (Apart y.handed ↔ Apart x.handed ∧ Steady pktsize x.filter buf) := by
  obtain ⟨pend, hpend⟩ : ∃ pend, pend = input.drop (input.length - x.filter.tsbufp) := ⟨_, rfl⟩
  have hkeeps := h.keeps
  rw [← hpend] at hkeeps
  have hlen := hkeeps.tsbufp_eq
  have hkept := h.kept_le
  have hlt := hkeeps.length_lt
  by_cases hnone : pend = []
  · rw [hnone] at hkeeps
    have hall : (⟨x.filter.tsbuf, 0, []⟩ : TsPass β).all input x.handed = x.handed :=
      List.append_nil _
    refine h.feed_loop hsize hsize' (hkeeps.fresh buf) ?_ (.inl rfl) (by rw [hall])
    rw [hall]
    exact h.cut.more hsize buf
  · rcases Nat.lt_or_ge (pend.length + buf.length) pktsize with hshort | hlong
    · obtain ⟨f', henter, hkeeps'⟩ := hkeeps.short hsize' hnone hshort
      have hsteady : Steady pktsize x.filter buf := by
        intro s u hs
        rw [henter] at hs
        cases hs
      have htsbufp : f'.tsbufp = x.filter.tsbufp + buf.length := by
        rw [hkeeps'.tsbufp_eq, List.length_append, hlen]
      refine ⟨⟨f', x.fed + buf.length, x.handed⟩, ?_, ⟨?_, ?_, ?_, ?_, ?_⟩, ?_⟩
      · rw [TsInput.feed, swfilter, henter]
        simp only [List.map_nil, List.append_nil]
      · rw [List.length_append, h.fed_eq]
      · rw [List.length_append, htsbufp]
        omega
      · have hdrop : (input ++ buf).drop ((input ++ buf).length - f'.tsbufp) = pend ++ buf := by
          have hnat : (input ++ buf).length - f'.tsbufp = input.length - x.filter.tsbufp := by
            rw [List.length_append, htsbufp]
            omega
          rw [hnat, List.drop_append_of_le_length (by omega), hpend]
        simp only
        rw [hdrop]
        exact hkeeps'
      · exact (h.cut.more hsize buf).next (Nat.zero_le _)
      · intro a ha
        have hend := h.ends a ha
        rw [List.length_append]
        simp only [htsbufp]
        omega
      · exact ⟨fun ha => ⟨ha, hsteady⟩, fun ha => ha.1⟩
    · obtain ⟨tsbuf, henter⟩ := hkeeps.completes hsize hsize' hnone hlong
      have hstart : (input.length : ℤ) + -(pend.length : ℤ) = (input.length - pend.length : ℕ) := by
        omega
      have hall : (⟨tsbuf, pktsize - pend.length, [⟨-(pend.length : ℤ),
          delivered pktsize (pend ++ buf)⟩]⟩ : TsPass β).all input x.handed =
          x.handed ++ [⟨((input.length - pend.length : ℕ) : ℤ),
            delivered pktsize (pend ++ buf)⟩] := by
        rw [TsPass.all, ← hstart]
        rfl
      have hbefore : ∀ a ∈ x.handed, a.offset + pktsize ≤ ((input.length - pend.length : ℕ) : ℤ) := by
        intro a ha
        have hend := h.ends a ha
        omega
      have hdrop : (input ++ buf).drop (input.length - pend.length) = pend ++ buf := by
        rw [List.drop_append_of_le_length (by omega), ← hlen, ← hpend]
      refine h.feed_loop hsize hsize' henter ?_ ?_ ?_
      · rw [hall]
        refine ⟨by simp only; omega, ?_, ?_, ?_⟩
        · intro a ha
          rcases List.mem_append.mp ha with ha | ha
          · exact (h.cut.more hsize buf).cut a ha
          · rw [List.mem_singleton.mp ha]
            refine ⟨input.length - pend.length, rfl, by rw [List.length_append]; omega, ?_, ?_⟩
            · rw [← bufAt_drop, hdrop, bufAt_append hnone]
              exact hkeeps.sync hnone
            · rw [hdrop]
        · intro a ha
          rcases List.mem_append.mp ha with ha | ha
          · have hend := hbefore a ha
            simp only
            omega
          · rw [List.mem_singleton.mp ha]
            simp only
            omega
        · refine List.pairwise_append.mpr ⟨h.cut.starts, List.pairwise_singleton _ _, ?_⟩
          intro a ha b hb
          rw [List.mem_singleton.mp hb]
          have hend := hbefore a ha
          simp only
          omega
      · refine .inr ⟨_, by rw [hall]; exact List.mem_append_right _ (List.mem_singleton_self _), ?_⟩
        simp only
        omega
      · rw [hall, Apart, List.pairwise_append]
        refine ⟨fun ha => ha.1, fun ha => ⟨ha, List.pairwise_singleton _ _, ?_⟩⟩
        intro a ha b hb
        rw [List.mem_singleton.mp hb]
        have hend := hbefore a ha
        simp only
        omega

theorem Cutting.run (h : Cutting pktsize input x) (hsize : 188 ≤ pktsize) (hsize' : pktsize ≤ 204)
    (bufs : List (List β)) :
    ∃ y, Outcome.run (TsInput.feed pktsize) x bufs = .done y ∧
      Cutting pktsize (input ++ bufs.flatten) y ∧
      (Apart y.handed ↔ Apart x.handed ∧ AllSteady pktsize x bufs) := by
  induction bufs generalizing x input with
  | nil =>
    refine ⟨x, rfl, ?_, fun ha => ⟨ha, trivial⟩, fun ha => ha.1⟩
    rw [List.flatten_nil, List.append_nil]
    exact h
  | cons buf bufs ih =>
    obtain ⟨y, hfeed, hcut, hiff⟩ := h.feed hsize hsize' buf
    obtain ⟨z, hrun, hcut', hiff'⟩ := ih hcut
    refine ⟨z, ?_, ?_, ?_⟩
    · rw [Outcome.run, hfeed]
      exact hrun
    · rw [List.flatten_cons, ← List.append_assoc]
      exact hcut'
    · rw [hiff', hiff, and_assoc, AllSteady]
      refine and_congr_right fun _ => and_congr_right fun _ => ⟨?_, fun hall => hall y hfeed⟩
      intro hall y' hy'
      rw [hfeed] at hy'
      cases hy'
      exact hall

/-- Whatever bytes it is given, every call ends, the packets handed over were cut out of the input
    from accepted sync bytes on, and each starts behind the start of the one before. They are
    disjoint exactly when no search steps back into the packet before it. -/
theorem swfilter_resync (hsize : pktsize = 188 ∨ pktsize = 204) (bufs : List (List β))
    (tsbuf : Buff β 204) :
    ∃ y, Outcome.run (TsInput.feed pktsize) ⟨⟨tsbuf, 0⟩, 0, []⟩ bufs = .done y ∧
      (∀ h ∈ y.handed, CutFrom pktsize bufs.flatten h) ∧
      y.handed.Pairwise (fun a b => a.offset < b.offset) ∧
      (Apart y.handed ↔ AllSteady pktsize ⟨⟨tsbuf, 0⟩, 0, []⟩ bufs) := by
  have hstart : Cutting pktsize [] (⟨⟨tsbuf, 0⟩, 0, []⟩ : TsInput β) := by
    refine ⟨rfl, Nat.le_refl _, ⟨rfl, ?_, ?_, fun hne => absurd rfl hne⟩, ⟨Nat.le_refl _, ?_, ?_, ?_⟩,
      ?_⟩
    · simp only [List.drop_nil, List.length_nil]
      omega
    · rw [List.drop_nil, fixSync]
      split <;> rfl
    · exact fun a ha => absurd ha (List.not_mem_nil)
    · exact fun a ha => absurd ha (List.not_mem_nil)
    · exact .nil
    · exact fun a ha => absurd ha (List.not_mem_nil)
  obtain ⟨y, hrun, hcut, hiff⟩ := hstart.run (by omega) (by omega) bufs
  rw [List.nil_append] at hcut
  refine ⟨y, hrun, fun a ha => ?_, hcut.cut.starts, ?_⟩
  · have hcut := hcut.cut.cut a ha
    rwa [List.append_nil] at hcut
  · rw [hiff]
    exact ⟨fun ha => ha.2, fun ha => ⟨.nil, ha⟩⟩

/-- One packet, with nothing behind it to search. -/
theorem swfilter_resync_one :
    ∃ y : TsInput UInt8, Outcome.run (TsInput.feed 188) ⟨⟨Buff.zeros 204, 0⟩, 0, []⟩
        [0x47 :: List.replicate 187 1] = .done y ∧
      y.handed.Pairwise (fun a b => a.offset < b.offset) := by
  obtain ⟨y, hrun, -, hstarts, -⟩ := @swfilter_resync UInt8 _ 188 (Or.inl rfl)
    [0x47 :: List.replicate 187 1] (Buff.zeros 204)
  exact ⟨y, hrun, hstarts⟩

/-- A packet whose second byte looks like a sync byte, and one byte of garbage: the search steps back
    by one packet length to that byte, and hands over a packet that shares all but one byte with the
    one before. -/
theorem swfilter_resync_overlap :
    ∃ y : TsInput UInt8, Outcome.run (TsInput.feed 188) ⟨⟨Buff.zeros 204, 0⟩, 0, []⟩
        [0x47 :: 0x47 :: List.replicate 187 0] = .done y ∧
      y.handed.map Handed.offset = [0, 1] ∧ ¬ Apart y.handed := by
  obtain ⟨y, hrun, htest⟩ := Outcome.holds_iff.mp
    (show (Outcome.run (TsInput.feed 188) ⟨⟨Buff.zeros 204, 0⟩, 0, []⟩
        [(0x47 : UInt8) :: 0x47 :: List.replicate 187 0]).holds
      (fun y => decide (y.handed.map Handed.offset = [0, 1])) = true by decide +kernel)
  have hoffsets := of_decide_eq_true htest
  refine ⟨y, hrun, hoffsets, ?_⟩
  intro hapart
  have hpair : (y.handed.map Handed.offset).Pairwise fun a b => a + 188 ≤ b :=
    List.pairwise_map.mpr hapart
  rw [hoffsets] at hpair
  revert hpair
  decide

end Demux

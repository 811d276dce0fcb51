import NeumoDrivers.Dvb.UleGaps

/-! Recovery of the decoder when cells have been lost.

    What arrives in a call is followed cell by cell: an skb never holds bytes of both sides of a gap.
    A cell in which an SNDU starts, with nothing lost from it on, brings the decoder back: it waits for
    that cell, drops what it has, or completes it with the bytes in front of the start. But a call is
    left when an skb is refused, with the cells that it still has. -/

namespace Dvb.Ule
open Loop Memory Packing DvbNetUleHandle

variable {dev : NetDevice} {alloc : SkbAllocator} {turns passes : ℕ} {buf : ℕ → UInt8} {tsEnd : ℕ}
  {skb : SkBuff} {p q : DvbNetPriv} {h g : DvbNetUleHandle} {c : Cell UInt8} {cc : ℕ}
  {f₀ f f' f'' : Front} {done todo cells cells' : List (Cell UInt8)} {call : Call}
  {calls calls' : List Call} {bytes : List UInt8}

/-! ### What arrives -/

theorem Arrives.trans (h : Arrives buf f cells f') (h' : Arrives buf f' cells' f'') :
    Arrives buf f (cells ++ cells') f'' := by
  induction h with
  | done => exact h'
  | comes hcarries _ ih => exact .comes hcarries (ih h')
  | spoilt c hspoilt hlt _ ih => exact .spoilt c hspoilt hlt (ih h')
  | missing c hlt _ ih => exact .missing c hlt (ih h')

theorem Arrives.ts_le (h : Arrives buf f cells f') : f.ts ≤ f'.ts := by
  induction h with
  | done => exact Nat.le_refl _
  | comes _ _ ih => exact Nat.le_trans (Nat.le_add_right _ _) ih
  | spoilt _ _ _ _ ih => exact Nat.le_trans (Nat.le_add_right _ _) ih
  | missing _ _ _ ih => exact ih

theorem lt_of_cell {ts : ℕ} (hle : ts + tsSz ≤ tsEnd) : ts < tsEnd :=
  Nat.lt_of_lt_of_le (Nat.lt_add_of_pos_right (by decide)) hle

theorem ArrivesIn.split (h : ArrivesIn f cells (calls ++ calls') f') :
    ∃ cells₁ cells₂ f₁, cells = cells₁ ++ cells₂ ∧ ArrivesIn f cells₁ calls f₁ ∧
      ArrivesIn f₁ cells₂ calls' f' := by
  induction calls generalizing f cells with
  | nil => exact ⟨[], cells, f, rfl, .nil f, h⟩
  | cons call calls ih =>
    cases h with
    | cons harrives hts hrest =>
      obtain ⟨cells₁, cells₂, f₁, rfl, hfirst, hsecond⟩ := ih hrest
      exact ⟨_, cells₂, f₁, (List.append_assoc _ _ _).symm, .cons harrives hts hfirst, hsecond⟩

/-- Where the decoder is in what arrives in a call: behind all of it, at the next cell that has come,
    intact or spoilt, or where an SNDU starts in such a cell. -/
inductive Tracks (buf : ℕ → UInt8) (f₀ f' : Front) (cells : List (Cell UInt8))
    (g : DvbNetUleHandle) : Prop where
  | ends (hall : Arrives buf f₀ cells f') (hnew : g.newTs = true) (hts : g.ts = f'.ts)
    (hsince : g.priv.Since f')
  | comes {f : Front} {c : Cell UInt8} {done todo : List (Cell UInt8)}
    (hcells : cells = done ++ c :: todo) (hdone : Arrives buf f₀ done f)
    (hcarries : Carries f.cc c fun i => buf (f.ts + i)) (htodo : Arrives buf (f.take c) todo f')
    (hnew : g.newTs = true) (hts : g.ts = f.ts) (hsince : g.priv.Since f)
  | spoilt {f : Front} {c : Cell UInt8} {done todo : List (Cell UInt8)}
    (hcells : cells = done ++ c :: todo) (hdone : Arrives buf f₀ done f)
    (hspoilt : Spoilt fun i => buf (f.ts + i)) (hlt : f.gap + 1 < 16)
    (htodo : Arrives buf f.spoil todo f') (hnew : g.newTs = true) (hts : g.ts = f.ts)
  | sndu {f : Front} {c : Cell UInt8} {done todo : List (Cell UInt8)}
    (hcells : cells = done ++ c :: todo) (hdone : Arrives buf f₀ done f)
    (hcarries : Carries f.cc c fun i => buf (f.ts + i)) (htodo : Arrives buf (f.take c) todo f')
    (hamid : f.Amid g)

/-- The decoder is at a cell boundary; cells that are missing are passed over. -/
theorem tracks_cell (done : List (Cell UInt8)) (htodo : Arrives buf f todo f') (hcells : cells = done ++ todo)
    (hdone : Arrives buf f₀ done f) (hnew : g.newTs = true) (hts : g.ts = f.ts)
    (hsince : g.priv.Since f) : Tracks buf f₀ f' cells g := by
  induction htodo generalizing done with
  | done f =>
    rw [List.append_nil] at hcells
    exact .ends (hcells ▸ hdone) hnew hts hsince
  | comes hcarries htodo _ => exact .comes hcells hdone hcarries htodo hnew hts hsince
  | spoilt c hspoilt hlt htodo _ => exact .spoilt hcells hdone hspoilt hlt htodo hnew hts
  | @missing f f' c todo hlt htodo ih =>
    have hmissing : Arrives buf f [c] f.miss := .missing c hlt (.done _)
    refine ih (done ++ [c]) ?_ (hdone.trans hmissing) hts hsince.miss
    rw [hcells, List.append_assoc, List.singleton_append]

/-! ### A call -/

theorem uleBody_faulty (hend : h.ts < tsEnd) (hnew : h.newTs = true) (hfaulty : h.Faulty buf) :
    uleBody dev alloc turns buf tsEnd h = .again h.resync.nextTs := by
  have hcell : h.newTsCell buf = (true, h.resync.nextTs) := if_pos hfaulty
  rw [uleBody, if_neg (Nat.not_le_of_lt hend), hnew, if_pos rfl, hcell]

theorem faulty_of_spoilt (hspoilt : Spoilt fun i => buf (f.ts + i)) (hts : h.ts = f.ts) :
    h.Faulty buf := by
  rw [Faulty, tsByte, tsByte, tsByte, hts]
  exact .inr hspoilt

section
variable (hsane : h.priv.Sane) (hgap : f₀.gap < 16) (hpointed : ∀ c ∈ cells, Pointed c)
  (htracks : Tracks buf f₀ f' cells h)
include hsane hgap hpointed htracks

theorem tracks_again (hpass : uleBody dev alloc turns buf f'.ts h = .again g) :
    Tracks buf f₀ f' cells g := by
  have hleads {f : Front} {c : Cell UInt8} {done todo : List (Cell UInt8)}
      (hcells : cells = done ++ c :: todo) (hdone : Arrives buf f₀ done f)
      (hcarries : Carries f.cc c fun i => buf (f.ts + i)) (htodo : Arrives buf (f.take c) todo f')
      (h : f.Leads c g) : Tracks buf f₀ f' cells g := by
    cases h with
    | cell hts hnew hsince =>
      refine tracks_cell (done ++ [c]) htodo ?_ (hdone.trans (.comes hcarries (.done _)))
        hnew hts hsince
      rw [hcells, List.append_assoc, List.singleton_append]
    | back hts hnew hnone =>
      exact .comes hcells hdone hcarries htodo hnew hts (since_of_none hnone)
    | sndu hamid => exact .sndu hcells hdone hcarries htodo hamid
  cases htracks with
  | ends _ _ hts =>
    rw [uleBody, if_pos (Nat.le_of_eq hts.symm)] at hpass
    cases hpass
  | @comes f c done todo hcells hdone hcarries htodo hnew hts hsince =>
    have hend : f.ts < f'.ts := lt_of_cell htodo.ts_le
    have hpc : Pointed c := hpointed c (hcells ▸ List.mem_append_right _ List.mem_cons_self)
    exact hleads hcells hdone hcarries htodo
      (cell_leads hcarries hpc (hdone.gap_lt hgap) hsane hnew hts hsince hend hpass)
  | @spoilt f c done todo hcells hdone hspoilt hlt htodo hnew hts =>
    have hend : h.ts < f'.ts := by
      rw [hts]
      exact lt_of_cell htodo.ts_le
    rw [uleBody_faulty hend hnew (faulty_of_spoilt hspoilt hts)] at hpass
    cases hpass
    refine tracks_cell (done ++ [c]) htodo ?_ (hdone.trans (.spoilt c hspoilt hlt (.done _)))
      hnew (congrArg (· + tsSz) hts) (since_of_none rfl)
    rw [hcells, List.append_assoc, List.singleton_append]
  | @sndu f c done todo hcells hdone hcarries htodo hamid =>
    have hend : f.ts < f'.ts := lt_of_cell htodo.ts_le
    exact hleads hcells hdone hcarries htodo (amid_leads hcarries hamid hend hpass)

/-- What a pass leaves in an skb has come without a gap. -/
theorem tracks_copies (hmem : bytes ∈ h.passCopies buf alloc f'.ts) :
    ∃ f done todo, cells = done ++ todo ∧ Arrives buf f₀ done f ∧ Gapless f.recent bytes := by
  cases htracks with
  | ends _ _ hts =>
    rw [passCopies, payloadOf, if_pos (Nat.le_of_eq hts.symm)] at hmem
    cases hmem
  | @comes f c done todo hcells hdone hcarries htodo hnew hts hsince =>
    have hpc : Pointed c := hpointed c (hcells ▸ List.mem_append_right _ List.mem_cons_self)
    refine ⟨f.take c, done ++ [c], todo, ?_, hdone.trans (.comes hcarries (.done _)),
      passCopies_cell hcarries hpc (hdone.gap_lt hgap) hsane hnew hts hsince hmem⟩
    rw [hcells, List.append_assoc, List.singleton_append]
  | @spoilt f c done todo hcells hdone hspoilt hlt htodo hnew hts =>
    rw [passCopies] at hmem
    cases hopen : h.payloadOf buf f'.ts with
    | none =>
      rw [hopen] at hmem
      cases hmem
    | some g => exact absurd (faulty_of_spoilt hspoilt hts) (payloadOf_opens hnew hopen).1
  | @sndu f c done todo hcells hdone hcarries htodo hamid =>
    refine ⟨f.take c, done ++ [c], todo, ?_, hdone.trans (.comes hcarries (.done _)),
      passCopies_amid hcarries hamid hmem⟩
    rw [hcells, List.append_assoc, List.singleton_append]

end

theorem ulePayload_exit (hexit : ulePayload dev alloc turns buf h = .exit (.ok q)) :
    q.uleSkb = none := by
  have hcopy {skb : SkBuff} {g : DvbNetUleHandle} :
      uleCopy dev turns buf skb g ≠ .exit (.ok q) := by
    rw [uleCopy]
    dsimp only
    split
    · rintro ⟨⟩
    split
    · split
      · rintro ⟨⟩
      · rintro ⟨⟩
    · rintro ⟨⟩
  rw [ulePayload] at hexit
  cases hskb : h.priv.uleSkb with
  | some skb =>
    rw [hskb] at hexit
    exact absurd hexit hcopy
  | none =>
    rw [hskb] at hexit
    obtain ⟨-, hempty⟩ := @newPayload_begins alloc buf h hskb
    generalize h.newPayload buf alloc = x at hempty hexit
    obtain ⟨ret, h'⟩ := x
    dsimp only at hempty hexit
    by_cases hneg : ret < 0
    · rw [if_pos hneg] at hexit
      cases hexit
      refine Option.eq_none_iff_forall_not_mem.mpr fun skb hskb => ?_
      have hzero := (hempty skb hskb).1
      omega
    rw [if_neg hneg] at hexit
    split at hexit
    · cases hexit
    split at hexit
    · exact absurd hexit hcopy
    · cases hexit

theorem uleBody_exit (hplaced : h.Placed) (hend : h.ts < tsEnd)
    (hexit : uleBody dev alloc turns buf tsEnd h = .exit (.ok q)) : q.uleSkb = none := by
  rcases hplaced with hnew | hwithin
  · have hcell := @uleBody_cellPass dev alloc turns buf tsEnd h hend hnew
    rw [hexit] at hcell
    generalize hx : Next.exit (Except.ok q) = x at hcell
    cases hcell with
    | faulty => cases hx
    | waits => cases hx
    | beyond => cases hx
    | found => exact ulePayload_exit hx.symm
    | gap => cases hx
    | mismatch => cases hx
    | ends => exact ulePayload_exit hx.symm
    | inside => exact ulePayload_exit hx.symm
  · rw [uleBody_within hend hwithin] at hexit
    exact ulePayload_exit hexit

theorem Tracks.behind (htracks : Tracks buf f₀ f' cells h) (hend : ¬h.ts < f'.ts) :
    h.newTs = true ∧ h.ts = f'.ts ∧ h.priv.Since f' := by
  cases htracks with
  | ends _ hnew hts hsince => exact ⟨hnew, hts, hsince⟩
  | comes _ _ _ htodo _ hts => exact absurd (hts ▸ lt_of_cell htodo.ts_le) hend
  | spoilt _ _ _ _ htodo _ hts => exact absurd (hts ▸ lt_of_cell htodo.ts_le) hend
  | sndu _ _ _ htodo hamid => exact absurd (hamid.ts ▸ lt_of_cell htodo.ts_le) hend

theorem uleBody_behind (hend : ¬h.ts < tsEnd) :
    uleBody dev alloc turns buf tsEnd h = .exit (.ok h.priv) := if_pos (Nat.le_of_not_lt hend)

theorem tracks_exit (hplaced : h.Placed) (htracks : Tracks buf f₀ f' cells h)
    (hexit : uleBody dev alloc turns buf f'.ts h = .exit (.ok q)) : q.Since f' := by
  by_cases hend : h.ts < f'.ts
  · exact since_of_none (uleBody_exit hplaced hend hexit)
  · rw [uleBody_behind hend] at hexit
    cases hexit
    exact (htracks.behind hend).2.2

/-- In front of its end a buffer is as one that ends later. -/
theorem uleBody_cut {tsEnd' : ℕ} (hend : h.ts < tsEnd) (hend' : h.ts < tsEnd') :
    uleBody dev alloc turns buf tsEnd h = uleBody dev alloc turns buf tsEnd' h := by
  rw [uleBody, if_neg (Nat.not_le_of_lt hend), uleBody, if_neg (Nat.not_le_of_lt hend')]

theorem visits_cut {tsEnd' : ℕ} (hle : tsEnd ≤ tsEnd')
    (hvisits : Visits (uleBody dev alloc turns buf tsEnd) h g) :
    Visits (uleBody dev alloc turns buf tsEnd') h g := by
  induction hvisits with
  | start => exact .start
  | @pass a b _ hpass ih =>
    have hend : a.ts < tsEnd := by
      by_contra hend
      rw [uleBody_behind hend] at hpass
      cases hpass
    rw [uleBody_cut hend (Nat.lt_of_lt_of_le hend hle)] at hpass
    exact .pass ih hpass

section
variable (hsane : p.Sane) (hgap : f₀.gap < 16) (hpointed : ∀ c ∈ cells, Pointed c)
  (hsince : p.Since f₀)
include hsane hgap hpointed hsince

theorem visits_tracks (harrives : Arrives buf { f₀ with ts := 0 } cells f')
    (hvisits : Visits (uleBody dev alloc turns buf f'.ts) p.handle h) :
    Tracks buf { f₀ with ts := 0 } f' cells h := by
  induction hvisits with
  | start => exact tracks_cell [] harrives rfl (.done _) rfl rfl hsince
  | pass hg hpass ih =>
    exact tracks_again (visits_sane hsane hg).priv hgap hpointed ih hpass

theorem call_since (harrives : Arrives buf { f₀ with ts := 0 } cells f')
    (hcall : dvbNetUle dev alloc turns buf passes p f'.ts = .ok q) : q.Since f' := by
  obtain ⟨h, hvisits, hexit⟩ := dvbNetUle_exits hcall
  exact tracks_exit (visits_sane hsane hvisits).placed
    (visits_tracks hsane hgap hpointed hsince harrives hvisits) hexit

theorem call_reaches (harrives : Arrives buf { f₀ with ts := 0 } cells f') (hle : f'.ts ≤ tsEnd)
    (hgoes : ∀ h, Visits (uleBody dev alloc turns buf tsEnd) p.handle h → h.ts < f'.ts →
      ∃ g, uleBody dev alloc turns buf tsEnd h = .again g)
    (hcall : dvbNetUle dev alloc turns buf passes p f'.ts = .ok q) :
    ∃ t, Visits (uleBody dev alloc turns buf tsEnd) p.handle t ∧ t.ts = f'.ts ∧ t.newTs = true ∧
      t.priv = q := by
  obtain ⟨t, hvisits, hexit⟩ := dvbNetUle_exits hcall
  have hvisits' := visits_cut hle hvisits
  by_cases hend : t.ts < f'.ts
  · obtain ⟨g, hpass⟩ := hgoes t hvisits' hend
    rw [uleBody_cut hend (Nat.lt_of_lt_of_le hend hle), hpass] at hexit
    cases hexit
  · rw [uleBody_behind hend] at hexit
    cases hexit
    obtain ⟨hnew, hts, -⟩ :=
      (visits_tracks hsane hgap hpointed hsince harrives hvisits).behind hend
    exact ⟨t, hvisits', hts, hnew, rfl⟩

theorem calls_since (harrives : ArrivesIn f₀ cells calls f')
    (hcalls : dvbNetUleCalls dev alloc turns passes p calls = .ok q) : q.Since f' := by
  induction harrives generalizing p with
  | nil =>
    cases hcalls
    exact hsince
  | @cons f f₁ f'' call cells cells' calls harrives hts hrest ih =>
    obtain ⟨hfirst, hsecond⟩ := List.forall_mem_append.mp hpointed
    rw [dvbNetUleCalls_cons] at hcalls
    cases hcall : dvbNetUle dev alloc turns call.buf passes p call.bufLen with
    | error e =>
      rw [hcall] at hcalls
      cases hcalls
    | ok p' =>
      rw [hcall] at hcalls
      have hsane' := dvbNetUle_sane hsane hcall
      rw [← hts] at hcall
      exact ih hsane' (harrives.gap_lt hgap) hsecond
        (call_since hsane hgap hfirst hsince harrives hcall) hcalls

end

/-- Every content that an skb gets in a call of the run is of cells that came without a gap. -/
def OneSided (dev : NetDevice) (alloc : SkbAllocator) (turns : ℕ) (f₀ : Front)
    (cells : List (Cell UInt8)) (calls : List Call) : Prop :=
  ∀ calls₁ call calls₂, calls = calls₁ ++ call :: calls₂ → ∀ passes p,
    dvbNetUleCalls dev alloc turns passes .feedStart calls₁ = .ok p → ∀ h,
      Visits (uleBody dev alloc turns call.buf call.bufLen) p.handle h →
      ∀ bytes ∈ h.passCopies call.buf alloc call.bufLen,
        ∃ cells₁ f₁ done todo f, cells = cells₁ ++ (done ++ todo) ∧
          ArrivesIn f₀ cells₁ calls₁ f₁ ∧ Arrives call.buf { f₁ with ts := 0 } done f ∧
          Gapless f.recent bytes

theorem calls_oneSided (hpointed : ∀ c ∈ cells, Pointed c)
    (harrives : ArrivesIn (.first cc) cells calls f') :
    OneSided dev alloc turns (.first cc) cells calls := by
  rintro calls₁ call calls₂ rfl passes p hcalls h hvisits bytes hmem
  obtain ⟨cells₁, cells₂, f₁, rfl, hfirst, hsecond⟩ := harrives.split
  obtain ⟨hpointed₁, hpointed₂⟩ := List.forall_mem_append.mp hpointed
  have hgap : (Front.first cc).gap < 16 := Nat.zero_lt_succ _
  have hsince := calls_since feedStart_sane hgap hpointed₁ (since_of_none rfl) hfirst hcalls
  have hsane := dvbNetUleCalls_sane feedStart_sane hcalls
  cases hsecond with
  | @cons _ f₂ _ _ cells₂ cells₃ _ hcall hts hrest =>
    obtain ⟨hpointed₂, -⟩ := List.forall_mem_append.mp hpointed₂
    rw [← hts] at hvisits hmem
    have htracks := visits_tracks hsane (hfirst.gap_lt hgap) hpointed₂ hsince hcall hvisits
    have hgap' : ({ f₁ with ts := 0 } : Front).gap < 16 := hfirst.gap_lt hgap
    obtain ⟨f, done, todo, rfl, hdone, hgapless⟩ :=
      tracks_copies (visits_sane hsane hvisits).priv hgap' hpointed₂ htracks hmem
    exact ⟨cells₁, f₁, done, todo ++ cells₃, f, by rw [List.append_assoc], hfirst, hdone, hgapless⟩

/-! ### The end of an SNDU in front of a start -/

variable {u w rest : List UInt8} {rs : List Sndu}

/-- What remains of the SNDU is copied, and the decoder is behind it. -/
theorem uleCopy_ends (hsees : h.Sees buf (u ++ w)) (hu : u.length = h.priv.uleSnduRemain)
    (hcopy : uleCopy dev turns buf skb h = .again g) :
    ∃ r g₀, r.length ≤ 1 ∧ g = g₀.nextSndu buf ∧ h.Behind g₀ buf r h.priv.allocs w := by
  have hlen := hsees.length
  rw [List.length_append] at hlen
  have hmin : min h.priv.uleSnduRemain h.tsRemain = u.length := by omega
  have hzero : h.priv.uleSnduRemain - u.length = 0 := by omega
  have hskip : (h.skip u.length).Sees buf w := by
    have := hsees.skip (m := u.length) (by rw [List.length_append]; omega)
    rwa [List.drop_left] at this
  rw [uleCopy] at hcopy
  dsimp only at hcopy
  rw [hmin] at hcopy
  split at hcopy
  · cases hcopy
  rw [if_pos hzero] at hcopy
  split at hcopy
  · cases hcopy
  · rename_i q hcomplete
    obtain ⟨r, hr, rfl⟩ := uleComplete_reset hcomplete
    cases hcopy
    exact ⟨r, _, hr, rfl, rfl, hskip, ⟨rfl, rfl, rfl, rfl, rfl⟩, rfl, rfl, rfl, rfl⟩

theorem allocSkb_given (hgiven : alloc.fails h.priv.allocs = false) :
    h.allocSkb alloc = (0, { h with priv := { h.priv with
      allocs := h.priv.allocs + 1
      uleSnduRemain := h.priv.uleSnduLen
      uleSkb :=
        some ⟨ethHlen + ethAlen, [], alloc.memory h.priv.allocs, h.priv.uleSnduLen⟩ } }) := by
  rw [allocSkb]
  exact if_neg (Bool.eq_false_iff.mp hgiven)

/-- Of the SNDU the header is not complete, and the rest of it brings the type. -/
theorem payloadHeader_ends (hsane : h.priv.Sane) (hskb : h.priv.uleSkb = none)
    (hlen : h.priv.uleSnduLen ≠ 0) (hgiven : alloc.fails h.priv.allocs = false)
    (hsees : h.Sees buf (u ++ w)) (hu : u.length = h.priv.uleSnduRemain) :
    ∃ skb h', h.newPayload buf alloc = (0, h') ∧ h'.priv.uleSkb = some skb ∧ h'.ts = h.ts ∧
      h.priv.Keeps h'.priv ∧ h'.priv.allocs = h.priv.allocs + 1 ∧
      ∃ u', h'.Sees buf (u' ++ w) ∧ u'.length = h'.priv.uleSnduRemain := by
  have hremain := hsane.header hskb hlen
  have htotal := hsees.length
  rw [List.length_append] at htotal
  have hsize : (if h.priv.uleSnduType1 = true then 1 else 2) ≤ u.length := by
    rw [hu, hremain]
    exact Nat.le_add_left _ _
  have hlong : 2 ≤ h.tsRemain := by
    split at hremain <;> omega
  have hview := readType_view
    { h with priv := { h.priv with uleSnduRemain := h.priv.uleSnduLen + 2 } } buf
  obtain ⟨type, htype⟩ := hview
  dsimp only at htype
  have hskip := hsees.skip (m := if h.priv.uleSnduType1 = true then 1 else 2)
    (by rw [List.length_append]; omega)
  rw [List.drop_append_of_le_length hsize] at hskip
  rw [newPayload, if_neg (by omega), if_neg hlen, payloadHeader]
  dsimp only
  rw [if_neg (by omega), if_neg (by omega), htype]
  refine ⟨_, _, allocSkb_given hgiven, rfl, rfl, ⟨rfl, rfl, rfl⟩, rfl, u.drop _, hskip, ?_⟩
  rw [List.length_drop, hu, hremain]
  exact Nat.add_sub_cancel _ _

theorem ulePayload_ends (hsane : h.priv.Sane)
    (hlen : h.priv.uleSkb = none → h.priv.uleSnduLen ≠ 0)
    (hgiven : alloc.fails h.priv.allocs = false) (hsees : h.Sees buf (u ++ w))
    (hu : u.length = h.priv.uleSnduRemain) (hpass : ulePayload dev alloc turns buf h = .again g) :
    ∃ r g₀ n, r.length ≤ 1 ∧ g = g₀.nextSndu buf ∧ h.Behind g₀ buf r n w ∧ h.priv.allocs ≤ n := by
  rw [ulePayload] at hpass
  cases hskb : h.priv.uleSkb with
  | some skb =>
    rw [hskb] at hpass
    obtain ⟨r, g₀, hr, hg, hbehind⟩ := uleCopy_ends hsees hu hpass
    exact ⟨r, g₀, _, hr, hg, hbehind, Nat.le_refl _⟩
  | none =>
    obtain ⟨skb, h', hnew, hskb', hts, hkeeps, hallocs, u', hsees', hu'⟩ :=
      payloadHeader_ends hsane hskb (hlen hskb) hgiven hsees hu
    rw [hskb] at hpass
    dsimp only at hpass
    rw [hnew] at hpass
    dsimp only at hpass
    rw [if_neg (Int.lt_irrefl 0), if_neg (not_not.mpr rfl), hskb'] at hpass
    obtain ⟨r, g₀, hr, hg, hbehind⟩ := uleCopy_ends hsees' hu' hpass
    refine ⟨r, g₀, _, hr, hg, ⟨hbehind.ts.trans hts, hbehind.sees, hbehind.fresh,
      hbehind.needPusi.trans hkeeps.needPusi, hbehind.tscc.trans hkeeps.tscc, hbehind.allocs, ?_⟩, ?_⟩
    · rw [hbehind.received, hkeeps.received]
    · rw [hallocs]
      exact Nat.le_succ _

/-! ### The cell in which an SNDU starts -/

/-- From `t`, or from what a pass leads to, the SNDUs that start in the cell are taken in; up to there
    at most one packet is handed over. -/
structure Recovered (dev : NetDevice) (alloc : SkbAllocator) (turns : ℕ) (buf : ℕ → UInt8)
    (tsEnd cc : ℕ) (t : DvbNetUleHandle) (cells : List (Cell UInt8)) (rs : List Sndu)
    (r : List Received) (n : ℕ) (t' : DvbNetUleHandle) (rest' : List UInt8) (rs' : List Sndu) :
    Prop where
  packed : Packed uleFormat rest' rs' cells
  admitted : ∀ s ∈ rs', s.Admitted dev False
  most : r.length ≤ 1
  allocs : t.priv.allocs ≤ n
  pass : t' = t ∨ uleBody dev alloc turns buf tsEnd t = .again t'
  received : t'.priv.received = t.priv.received ++ r
  comes : Comes dev alloc turns buf tsEnd False
    (DvbNetUleHandle.Stands dev alloc (t.ts + tsSz) (cc + 1) rest' rs') t' n rs

section
variable {t : DvbNetUleHandle} (hpacked : Packed uleFormat rest rs (c :: cells))
  (hadmitted : ∀ s ∈ rs, s.Admitted dev False)
  (hgiven : ∀ k, t.priv.allocs ≤ k → alloc.fails k = false)
  (hcarries : Carries cc c fun i => buf (t.ts + i)) (hend : t.ts < tsEnd)
include hpacked hadmitted hgiven hcarries hend

/-- The decoder waits for PUSI, at once or after a pass that has dropped what it had. -/
theorem waits_recovered {t' : DvbNetUleHandle}
    (hpass : t' = t ∨ uleBody dev alloc turns buf tsEnd t = .again t') (hts : t'.ts = t.ts)
    (hnew' : t'.newTs = true) (hneed : t'.priv.needPusi = true) (hfresh : t'.priv.Fresh)
    (hallocs : t'.priv.allocs = t.priv.allocs) (hreceived : t'.priv.received = t.priv.received) :
    ∃ rest' rs', Recovered dev alloc turns buf tsEnd cc t cells rs [] t.priv.allocs t' rest' rs' := by
  obtain ⟨rest', rs', hpacked', hadmitted', hcomes⟩ :=
    @cell_comes dev alloc turns buf tsEnd False t' cc t.priv.allocs rest rs rs c cells hpacked
      hadmitted hgiven (by rwa [hts]) (by rwa [hts]) hnew' (.waits rest rs hneed hfresh hallocs)
  rw [hts] at hcomes
  refine ⟨rest', rs', hpacked', hadmitted', Nat.zero_le 1, Nat.le_refl _, hpass, ?_, hcomes⟩
  rw [hreceived, List.append_nil]

/-- What is in front of the start is as long as what remains. -/
theorem ends_recovered {g : DvbNetUleHandle} (hsane : t.priv.Sane) (hstarts : c.starts = true)
    (hneed : t.priv.needPusi = false) (hcounter : t.counter buf = t.priv.tscc)
    (hrest : t.pointer buf = t.priv.uleSnduRemain)
    (hbody : uleBody dev alloc turns buf tsEnd t = ulePayload dev alloc turns buf (t.counted.skip 1))
    (hpass : uleBody dev alloc turns buf tsEnd t = .again g) :
    ∃ r n t' rest' rs', Recovered dev alloc turns buf tsEnd cc t cells rs r n t' rest' rs' := by
  have htscc : (t.priv.tscc + 1) % 16 = (cc + 1) % 16 := by
    rw [← hcounter, show t.counter buf = cc % 16 from hcarries.counter, Nat.mod_add_mod]
  cases hpacked with
  | inside => cases hstarts
  | ends => cases hstarts
  | @starts m _ rest' w _ rs' _ hsize hfill hlt hpacked' =>
    have hw : rest.length + w.length + 1 = 184 := hfill.length.symm ▸ hsize
    obtain ⟨hpointer, hbehind, -⟩ := carries_pointer hcarries rfl hw
    have hremain : rest.length = t.priv.uleSnduRemain := hpointer.symm.trans hrest
    have hsees : (t.counted.skip 1).Sees buf (rest ++ w) := by
      rw [DvbNetUleHandle.skip_eq (show 1 ≤ 184 by decide) (Nat.le_refl 184)]
      exact ⟨hbehind, (by decide : 183 ≤ 184)⟩
    have hadmitted' := Fill.suffix_mem hfill hadmitted
    by_cases hheader : t.priv.uleSkb = none ∧ t.priv.uleSnduLen = 0
    · -- nothing has been read of an SNDU, and the pass begins with the first one
      have hfresh := hsane.fresh hheader.1 hheader.2
      rw [hfresh.remain, List.length_eq_zero_iff] at hremain
      subst hremain
      have hopened : t.Opened dev alloc turns buf tsEnd cc (t.counted.skip 1) w :=
        ⟨hbody, rfl, hneed, htscc, rfl, hsees⟩
      exact ⟨[], t.priv.allocs, t, rest', rs', hpacked', hadmitted', Nat.zero_le 1, Nat.le_refl _,
        .inl rfl, (List.append_nil _).symm,
        starts_comes hfill hlt hadmitted hgiven hopened (hfresh.counter _) rfl hend⟩
    · have hlen : t.priv.uleSkb = none → t.priv.uleSnduLen ≠ 0 := not_and.mp hheader
      obtain ⟨r, g₀, n, hr, rfl, hg₀, hn⟩ := ulePayload_ends (h := t.counted.skip 1)
        (hsane.counter _) hlen (hgiven _ (Nat.le_refl _)) hsees hremain (hbody.symm.trans hpass)
      have hts : g₀.ts = t.ts := hg₀.ts
      refine ⟨r, n, _, rest', rs', hpacked', hadmitted', hr, hn, .inr hpass, ?_, ?_⟩
      · rw [nextSndu_received, hg₀.received]
        rfl
      · rw [← hts]
        exact next_comes hfill hadmitted (fun k hk => hgiven k (Nat.le_trans hn hk)) hg₀.fresh
          hg₀.allocs hg₀.sees (by rwa [hts]) (hg₀.needPusi.trans hneed) (hg₀.tscc.trans htscc)

/-- Whatever the decoder has when the cell comes. -/
theorem cell_recovered {g : DvbNetUleHandle} (hnew : t.newTs = true) (hsane : t.priv.Sane)
    (hstarts : c.starts = true)
    (hpass : uleBody dev alloc turns buf tsEnd t = .again g) :
    ∃ r n t' rest' rs', Recovered dev alloc turns buf tsEnd cc t cells rs r n t' rest' rs' := by
  have hstarts' : t.Starts buf := hcarries.pusi.mpr hstarts
  by_cases hwaits : t.priv.needPusi = true
  · have hnone : ∃ rest' rs',
        Recovered dev alloc turns buf tsEnd cc t cells rs [] t.priv.allocs t rest' rs' :=
      waits_recovered hpacked hadmitted hgiven hcarries hend (.inl rfl) rfl hnew hwaits
        (hsane.waits hwaits) rfl rfl
    obtain ⟨rest', rs', h⟩ := hnone
    exact ⟨[], _, t, rest', rs', h⟩
  have hcell := @uleBody_cellPass dev alloc turns buf tsEnd t hend hnew
  generalize hx : uleBody dev alloc turns buf tsEnd t = x at hcell
  cases hcell with
  | faulty hfaulty =>
    rcases hfaulty with hsync | htei | hscrambled
    · exact absurd hcarries.sync hsync
    · exact absurd hcarries.tei htei
    · exact absurd hcarries.scrambling hscrambled
  | waits hneed => exact absurd hneed hwaits
  | beyond hneed => exact absurd hneed hwaits
  | found hneed => exact absurd hneed hwaits
  | gap =>
    obtain ⟨rest', rs', h⟩ := waits_recovered hpacked hadmitted hgiven hcarries hend (.inr hx)
      rfl hnew rfl ⟨rfl, rfl, rfl, rfl, rfl⟩ rfl rfl
    exact ⟨[], _, _, rest', rs', h⟩
  | mismatch =>
    obtain ⟨rest', rs', h⟩ := waits_recovered hpacked hadmitted hgiven hcarries hend (.inr hx)
      rfl hnew rfl ⟨rfl, rfl, rfl, rfl, rfl⟩ rfl rfl
    exact ⟨[], _, _, rest', rs', h⟩
  | ends hneed hcounter _ _ hrest =>
    exact ends_recovered hpacked hadmitted hgiven hcarries hend hsane hstarts hneed hcounter
      hrest hx hpass
  | inside _ _ hinside => exact absurd hstarts' hinside

end

/-! ### From the cell on -/

/-- A cell in which an SNDU starts comes in a call, and nothing is lost from it on: the rest of an
    SNDU, and then `rs`. -/
structure Restart (cc : ℕ) (sndus : List Sndu) (cells : List (Cell UInt8)) (calls : List Call) where
  before₁ : List (Cell UInt8)
  before₂ : List (Cell UInt8)
  cell : Cell UInt8
  after₁ : List (Cell UInt8)
  after₂ : List (Cell UInt8)
  calls₁ : List Call
  call : Call
  calls₂ : List Call
  front₁ : Front
  front : Front
  rest : List UInt8
  rs : List Sndu
  cells_eq : cells = before₁ ++ (before₂ ++ cell :: (after₁ ++ after₂))
  calls_eq : calls = calls₁ ++ call :: calls₂
  starts : cell.starts = true
  comes₁ : ArrivesIn (.first cc) before₁ calls₁ front₁
  comes₂ : Arrives call.buf { front₁ with ts := 0 } before₂ front
  holds : Holds call.buf call.bufLen front.ts front.cc (cell :: after₁)
  delivered : Delivered (front.cc + (cell :: after₁).length) after₂ calls₂
  packed : Packed uleFormat rest rs (cell :: (after₁ ++ after₂))
  suffix : rs <:+ sndus

namespace Restart
variable {sndus : List Sndu} (x : Restart cc sndus cells calls)

/-- The calls before have led to `p`, and the cells of the call in front of the cell to `p'`. From
    then on no skb is refused. -/
structure Reached (dev : NetDevice) (alloc : SkbAllocator) (turns : ℕ) (p p' : DvbNetPriv) :
    Prop where
  calls : ∃ passes, dvbNetUleCalls dev alloc turns passes .feedStart x.calls₁ = .ok p
  call : ∃ passes, dvbNetUle dev alloc turns x.call.buf passes p x.front.ts = .ok p'
  given : ∀ k, p'.allocs ≤ k → alloc.fails k = false

/-- The call is not left up to the cell, and no SNDU without a destination address is empty. -/
structure Clean (dev : NetDevice) (alloc : SkbAllocator) (turns : ℕ) (p : DvbNetPriv) : Prop where
  goes : ∀ h, Visits (uleBody dev alloc turns x.call.buf x.call.bufLen) p.handle h →
    h.ts ≤ x.front.ts → ∃ g, uleBody dev alloc turns x.call.buf x.call.bufLen h = .again g
  full : ∀ s ∈ x.rs, s.dest = none → s.pdu.content ≠ []

/-- The calls hand over what the SNDUs lead to that start from the cell on, each once, and before
    that at most one packet for the SNDU that ends in the cell. -/
def Delivers (dev : NetDevice) (alloc : SkbAllocator) (turns : ℕ) (p : DvbNetPriv) : Prop :=
  ∃ q r, Completes dev alloc turns .feedStart calls (.ok q) ∧ r.length ≤ 1 ∧
    q.received = p.received ++ r ++ x.rs.map (·.expected dev)

end Restart

/-- No skb holds bytes of both sides of a gap, and wherever nothing is lost any more the SNDUs are
    handed over. -/
def Recovers (dev : NetDevice) (alloc : SkbAllocator) (turns cc : ℕ) (sndus : List Sndu)
    (cells : List (Cell UInt8)) (calls : List Call) : Prop :=
  OneSided dev alloc turns (.first cc) cells calls ∧
    ∀ (x : Restart cc sndus cells calls) p p', x.Reached dev alloc turns p p' →
      x.Delivers dev alloc turns p'

theorem Holds.first {ts : ℕ} (h : Holds buf tsEnd ts cc (c :: cells)) :
    Carries cc c (fun i => buf (ts + i)) ∧ Holds buf tsEnd (ts + tsSz) (cc + 1) cells := by
  cases h with
  | cons hcarries hholds => exact ⟨hcarries, hholds⟩

theorem dvbNetUleCalls_append : dvbNetUleCalls dev alloc turns passes p (calls ++ calls') =
    dvbNetUleCalls dev alloc turns passes p calls >>=
      fun q => dvbNetUleCalls dev alloc turns passes q calls' :=
  List.foldlM_append

/-- Calls, and the calls after them. -/
theorem Completes.behind {R : Except Stop DvbNetPriv}
    (hcalls : dvbNetUleCalls dev alloc turns passes p calls = .ok q)
    (hrest : Completes dev alloc turns q calls' R) :
    Completes dev alloc turns p (calls ++ calls') R := by
  obtain ⟨least, hleast⟩ := hrest
  refine ⟨max passes least, fun n hn => ?_⟩
  rw [dvbNetUleCalls_append,
    dvbNetUleCalls_mono (Nat.le_trans (Nat.le_max_left passes least) hn) hcalls]
  exact hleast n (Nat.le_trans (Nat.le_max_right passes least) hn)

section
variable {sndus : List Sndu} {n : ℕ} {t' : DvbNetUleHandle} {r : List Received}
  {after₁ after₂ : List (Cell UInt8)} {rest' : List UInt8} {rs' : List Sndu}

/-- The cells behind it, and the calls after it. -/
theorem Recovered.proceeds {t : DvbNetUleHandle}
    (hrec : Recovered dev alloc turns buf tsEnd cc t (after₁ ++ after₂) rs r n t' rest' rs')
    (hgiven : ∀ k, n ≤ k → alloc.fails k = false)
    (htyped : ∀ s ∈ rs, ∃ type payload, s.pdu = .typed type payload)
    (hholds : Holds buf tsEnd (t.ts + tsSz) (cc + 1) after₁)
    (hdelivered : Delivered (cc + 1 + after₁.length) after₂ calls) :
    ∃ q, Proceeds dev alloc turns buf tsEnd calls t (.ok q) ∧
      q.received = t.priv.received ++ r ++ rs.map (·.expected dev) := by
  have hcomes : Comes dev alloc turns buf tsEnd False
      (DvbNetUleHandle.At dev alloc False tsEnd (cc + 1 + after₁.length) after₂) t' n rs :=
    hrec.comes.count.bind fun h' n' todo' ⟨hstands, hn⟩ =>
      call_comes hholds (fun k hk => hgiven k (Nat.le_trans hn hk))
        ⟨rest', rs', hrec.packed, hrec.admitted, hstands⟩
  obtain ⟨R, hproceeds, hlog⟩ := hcomes.proceeds fun p' n' todo' hn hat =>
    calls_log (fun k hk => hgiven k (Nat.le_trans hn hk)) hdelivered hat
  obtain ⟨q, rfl, hreceived⟩ := hlog.delivered not_false fun k s hs => by
    obtain ⟨type, payload, hpdu⟩ := htyped s (List.mem_of_getElem? hs)
    rw [Sndu.outcome, hpdu]
  refine ⟨q, ?_, by rw [hreceived, hrec.received]⟩
  rcases hrec.pass with rfl | hpass
  · exact hproceeds
  · exact hproceeds.again hpass

/-- From a cell on in which an SNDU starts everything is handed over. -/
theorem restart_delivers {p' : DvbNetPriv} (x : Restart cc sndus cells calls)
    (hpointed : ∀ c ∈ cells, Pointed c)
    (htyped : ∀ s ∈ sndus, ∃ type payload, s.pdu = .typed type payload)
    (haccept : ∀ s ∈ sndus, ∀ mac ∈ s.dest, dev.Accepts mac)
    (hreached : x.Reached dev alloc turns p p') (hclean : x.Clean dev alloc turns p) :
    x.Delivers dev alloc turns p' := by
  obtain ⟨⟨passes, hcalls⟩, ⟨passes', hcall⟩, hgiven⟩ := hreached
  rw [x.cells_eq] at hpointed
  obtain ⟨hpointed₁, hpointed⟩ := List.forall_mem_append.mp hpointed
  obtain ⟨hpointed₂, -⟩ := List.forall_mem_append.mp hpointed
  have hgap : (Front.first cc).gap < 16 := Nat.zero_lt_succ _
  have hsane := dvbNetUleCalls_sane feedStart_sane hcalls
  have hsince := calls_since feedStart_sane hgap hpointed₁ (since_of_none rfl) x.comes₁ hcalls
  obtain ⟨t, hvisits, hts, hnew, rfl⟩ := call_reaches hsane (x.comes₁.gap_lt hgap) hpointed₂ hsince
    x.comes₂ x.holds.le (fun h hh hlt => hclean.goes h hh (Nat.le_of_lt hlt)) hcall
  obtain ⟨g, hpass⟩ := hclean.goes t hvisits (Nat.le_of_eq hts)
  have hadmitted : ∀ s ∈ x.rs, s.Admitted dev False := fun s hs =>
    ⟨haccept s (x.suffix.subset hs), fun hshort => by
      obtain ⟨hdest, hcontent⟩ := s.short_iff.mp hshort
      exact hclean.full s hs hdest hcontent⟩
  obtain ⟨hcarries, hholds⟩ := x.holds.first
  have hdelivered := x.delivered
  have hcount : x.front.cc + (x.cell :: x.after₁).length = x.front.cc + 1 + x.after₁.length := by
    rw [List.length_cons]
    omega
  rw [hcount] at hdelivered
  rw [← hts] at hcarries hholds
  obtain ⟨r, n, t', rest', rs', hrec⟩ := cell_recovered x.packed hadmitted hgiven hcarries
    (lt_of_cell hholds.le) hnew (visits_sane hsane hvisits).priv x.starts hpass
  obtain ⟨q, hproceeds, hreceived⟩ := hrec.proceeds
    (fun k hk => hgiven k (Nat.le_trans hrec.allocs hk))
    (fun s hs => htyped s (x.suffix.subset hs)) hholds hdelivered
  refine ⟨q, r, ?_, hrec.most, hreceived⟩
  rw [x.calls_eq]
  exact .behind hcalls (hproceeds.visited hvisits).completes

/-- When the call is not left, and no SNDU without a destination address is empty, the SNDUs are handed
    over from the first cell on in which one starts and behind which nothing is lost. -/
theorem ule_recovers (hpacked : Packed uleFormat [] sndus cells)
    (htyped : ∀ s ∈ sndus, ∃ type payload, s.pdu = .typed type payload)
    (haccept : ∀ s ∈ sndus, ∀ mac ∈ s.dest, dev.Accepts mac)
    (harrives : ArrivesIn (.first cc) cells calls f') :
    OneSided dev alloc turns (.first cc) cells calls ∧
      ∀ (x : Restart cc sndus cells calls) p p', x.Reached dev alloc turns p p' →
        x.Clean dev alloc turns p → x.Delivers dev alloc turns p' :=
  ⟨calls_oneSided (Packed.pointed hpacked) harrives, fun x _ _ hreached hclean =>
    restart_delivers x (Packed.pointed hpacked) htyped haccept hreached hclean⟩

end

/-! ### Two SNDUs -/

/-- An SNDU twice, each time in a TS cell of its own. -/
def twiceCall : Call :=
  ⟨fun i => ([tsSync, tsPusi, 0, 0] ++ typedSndu.oneCell.symbols ++
    ([tsSync, tsPusi, 0, 1] ++ typedSndu.oneCell.symbols)).getD i 0, 2 * tsSz⟩

/-- The first skb is refused. -/
def refusesFirst : SkbAllocator := ⟨fun n => n == 0, fun _ _ => 0⟩

theorem twice_packed : Packed uleFormat [] [typedSndu, typedSndu]
    [typedSndu.oneCell, typedSndu.oneCell] :=
  .starts (show 0 + (typedSndu.bytes.length + (183 - typedSndu.bytes.length)) + 1 = 184 by decide)
    (.whole typedSndu (.pad _ [typedSndu])) (Nat.lt_succ_self 1)
    (typedSndu.oneCell_packed (by decide))

theorem twice_first : Carries 0 typedSndu.oneCell fun i => twiceCall.buf (0 + i) := by
  have hpayload := typedSndu.oneCell_payload (by decide) [tsSync, tsPusi, 0, 0]
    ([tsSync, tsPusi, 0, 1] ++ typedSndu.oneCell.symbols)
  rw [← List.append_assoc] at hpayload
  exact ⟨rfl, by decide, iff_of_true (by decide) rfl, by decide, by decide,
    (block_shift _ _ _ _).trans hpayload⟩

theorem twice_second : Carries 1 typedSndu.oneCell fun i => twiceCall.buf (tsSz + i) := by
  have hpayload := typedSndu.oneCell_payload (by decide)
    ([tsSync, tsPusi, 0, 0] ++ typedSndu.oneCell.symbols ++ [tsSync, tsPusi, 0, 1]) []
  rw [List.append_nil, List.append_assoc] at hpayload
  exact ⟨rfl, by decide, iff_of_true (by decide) rfl, by decide, by decide,
    (block_shift _ _ _ _).trans hpayload⟩

/-- The second cell. -/
def twiceRestart : Restart 0 [typedSndu, typedSndu] [typedSndu.oneCell, typedSndu.oneCell]
    [twiceCall] where
  before₁ := []
  before₂ := [typedSndu.oneCell]
  cell := typedSndu.oneCell
  after₁ := []
  after₂ := []
  calls₁ := []
  call := twiceCall
  calls₂ := []
  front₁ := .first 0
  front := (Front.first 0).take typedSndu.oneCell
  rest := []
  rs := [typedSndu]
  cells_eq := rfl
  calls_eq := rfl
  starts := rfl
  comes₁ := .nil _
  comes₂ := .comes twice_first (.done _)
  holds := .cons twice_second (.nil 2)
  delivered := .nil 2
  packed := typedSndu.oneCell_packed (by decide)
  suffix := List.suffix_cons _ _

/-- The call is left when the first skb is refused, and the second SNDU is not handed over. -/
theorem refused_loses :
    (∃ f, ArrivesIn (.first 0) [typedSndu.oneCell, typedSndu.oneCell] [twiceCall] f) ∧
      ¬∃ turns, Recovers someDevice refusesFirst turns 0 [typedSndu, typedSndu]
        [typedSndu.oneCell, typedSndu.oneCell] [twiceCall] := by
  constructor
  · have harrives : Arrives twiceCall.buf (.first 0) [typedSndu.oneCell, typedSndu.oneCell] _ :=
      .comes twice_first (.comes twice_second (.done _))
    exact ⟨_, .cons (f := .first 0) harrives rfl (.nil _)⟩
  · rintro ⟨turns, -, hall⟩
    have hgiven : ∀ k, 1 ≤ k → refusesFirst.fails k = false := fun k hk =>
      beq_eq_false_iff_ne.mpr (Nat.ne_of_gt hk)
    obtain ⟨q, r, ⟨least, hleast⟩, -, hreceived⟩ :=
      hall twiceRestart _ _ ⟨⟨0, rfl⟩, ⟨1, rfl⟩, hgiven⟩
    have hcalls : dvbNetUleCalls someDevice refusesFirst turns 1 .feedStart [twiceCall] = .ok _ := rfl
    have hmore := dvbNetUleCalls_mono (Nat.le_max_right least 1) hcalls
    rw [hleast _ (Nat.le_max_left least 1)] at hmore
    have hcount := congrArg List.length hreceived
    rw [Except.ok.inj hmore, List.length_append] at hcount
    exact absurd hcount (Nat.ne_of_lt (Nat.succ_pos _))

theorem lost_second : Carries 16 typedSndu.oneCell fun i => typedSndu.oneCall.buf (0 + i) := by
  have hpayload := typedSndu.oneCell_payload (by decide) [tsSync, tsPusi, 0, 0] []
  rw [List.append_nil] at hpayload
  exact ⟨rfl, by decide, iff_of_true (by decide) rfl, by decide, by decide,
    (block_shift _ _ _ _).trans hpayload⟩

/-- The first cell is lost. -/
def lostRestart : Restart 15 [typedSndu, typedSndu] [typedSndu.oneCell, typedSndu.oneCell]
    [typedSndu.oneCall] where
  before₁ := []
  before₂ := [typedSndu.oneCell]
  cell := typedSndu.oneCell
  after₁ := []
  after₂ := []
  calls₁ := []
  call := typedSndu.oneCall
  calls₂ := []
  front₁ := .first 15
  front := (Front.first 15).miss
  rest := []
  rs := [typedSndu]
  cells_eq := rfl
  calls_eq := rfl
  starts := rfl
  comes₁ := .nil _
  comes₂ := .missing _ (by decide) (.done _)
  holds := .cons lost_second (.nil 17)
  delivered := .nil 17
  packed := typedSndu.oneCell_packed (by decide)
  suffix := List.suffix_cons _ _

theorem lost_recovers : lostRestart.Delivers someDevice zeroMemory 0 .feedStart := by
  have hall {s : Sndu} (hs : s ∈ [typedSndu, typedSndu]) : s = typedSndu := by simpa using hs
  have htyped : ∀ s ∈ [typedSndu, typedSndu], ∃ type payload, s.pdu = .typed type payload := by
    intro s hs
    rw [hall hs]
    exact ⟨_, _, rfl⟩
  have haccept : ∀ s ∈ [typedSndu, typedSndu], ∀ mac ∈ s.dest, someDevice.Accepts mac := by
    intro s hs mac hmac
    rw [hall hs] at hmac
    cases hmac
  have harrives : Arrives typedSndu.oneCall.buf { Front.first 15 with ts := 0 }
      [typedSndu.oneCell, typedSndu.oneCell] _ :=
    .missing _ (by decide) (.comes lost_second (.done _))
  refine (ule_recovers twice_packed htyped haccept (.cons harrives rfl (.nil _))).2 lostRestart _ _
    ⟨⟨0, rfl⟩, ⟨1, rfl⟩, fun _ _ => rfl⟩ ⟨fun h hvisits hle => ?_, fun s hs _ => ?_⟩
  · have hpass : ∃ g, uleBody someDevice zeroMemory 0 typedSndu.oneCall.buf tsSz
        DvbNetPriv.feedStart.handle = .again g ∧ g.ts = tsSz := ⟨_, rfl, rfl⟩
    obtain ⟨g, hg, hts⟩ := hpass
    rcases visits_iff.mp hvisits with rfl | ⟨t, ht, hrest⟩
    · exact ⟨g, hg⟩
    · cases hg.symm.trans ht
      rcases visits_iff.mp hrest with rfl | ⟨u, hu, -⟩
      · rw [hts] at hle
        exact absurd hle (by decide)
      · have hend : ¬g.ts < tsSz := Nat.not_lt_of_le (Nat.le_of_eq hts.symm)
        cases hu.symm.trans (uleBody_behind hend)
  · rw [List.mem_singleton.mp hs]
    exact List.cons_ne_nil _ _

end Dvb.Ule

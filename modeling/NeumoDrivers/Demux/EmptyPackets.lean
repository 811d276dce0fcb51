import NeumoDrivers.Demux.SectionFeeds
import NeumoDrivers.Demux.Embedded

/-! Packets without payload between those that carry sections (`neumo-dvb-demux.c`).

    `neumo_dvb_dmx_swfilter_packet_type` answers such a packet by setting `secbufp` back to the start
    of the buffer, but leaves the bytes received in it. The next payload that is added is then dumped
    together with all that was dumped before, and sections are delivered again.

    Two runs are compared: `feed` gets the packets with payload only, `feed'` gets them all. The two
    states stay the same but for `secbufp`, which may be 0 in the second one, and the loop that dumps
    the buffer first makes up for that. -/

namespace Demux
open Loop

variable {use : SectionUse} {feed feed' : SectionFeed} {base base' : ℕ → UInt8} {i k limit : ℕ}

/-! ### What a buffer holds -/

/-- The length of the section at the place `i`. -/
def lengthAt (base : ℕ → UInt8) (i : ℕ) : ℕ := sectionLength fun j => base (i + j)

def sectionAt (base : ℕ → UInt8) (i : ℕ) : List UInt8 :=
  (List.range (lengthAt base i)).map fun j => base (i + j)

/-- The bytes from one place to the other are whole sections. -/
inductive Cut (base : ℕ → UInt8) : ℕ → ℕ → Prop where
  | here {i : ℕ} : Cut base i i
  | next {i k : ℕ} : lengthAt base i ≤ DMX_MAX_SECTION_SIZE →
      Cut base (i + lengthAt base i) k → Cut base i k

theorem lengthAt_ge (base : ℕ → UInt8) (i : ℕ) : 3 ≤ lengthAt base i := by
  rw [lengthAt, sectionLength, Nat.add_assoc]
  exact Nat.le_add_right 3 _

theorem lengthAt_congr (h1 : base' (i + 1) = base (i + 1)) (h2 : base' (i + 2) = base (i + 2)) :
    lengthAt base' i = lengthAt base i :=
  sectionLength_congr h1 h2

theorem Cut.le (h : Cut base i k) : i ≤ k := by
  induction h with
  | here => exact Nat.le_refl _
  | next _ _ ih => exact Nat.le_trans (Nat.le_add_right ..) ih

theorem Cut.trans {m : ℕ} (h : Cut base i k) (h' : Cut base k m) : Cut base i m := by
  induction h with
  | here => exact h'
  | next hmax _ ih => exact .next hmax (ih h')

theorem Cut.congr (h : Cut base i k) (hbase : ∀ j < k, base' j = base j) : Cut base' i k := by
  induction h with
  | here => exact .here
  | @next i k hmax h ih =>
    have hle := h.le
    have hge := lengthAt_ge base i
    have hlen : lengthAt base' i = lengthAt base i :=
      lengthAt_congr (hbase _ (by omega)) (hbase _ (by omega))
    refine .next (hlen ▸ hmax) ?_
    rw [hlen]
    exact ih hbase

/-! ### What a section gives -/

/-- Whether a filter lets the section at the start of `buf` pass. -/
def filterPasses (buf : ℕ → UInt8) (f : SectionFilter) : Bool :=
  match maskLoop buf f (List.range DVB_DEMUX_MASK_MAX) 0 with
  | none => false
  | some neq => !(f.doneq && neq == 0)

variable (use) in
/-- Whether the section at the place `i` is given to the callback at all. -/
def Wanted (base : ℕ → UInt8) (i : ℕ) : Prop :=
  use.isFiltering ∧
    ¬(use.checkCrc ∧ base (i + 1) &&& 0x80 ≠ 0 ∧ use.checkCrc32 (sectionAt base i) ≠ 0) ∧
    ∃ f ∈ use.sectionFilter, filterPasses (fun j => base (i + j)) f

variable (use) in
/-- What the filters give to the callback, until it fails. -/
def passed (base : ℕ → UInt8) (i : ℕ) : List SectionFilter → List (List UInt8)
  | [] => []
  | f :: next =>
    if filterPasses (fun j => base (i + j)) f then
      sectionAt base i :: if use.cb (sectionAt base i) < 0 then [] else passed base i next
    else passed base i next

theorem passed_eq_nil (fs : List SectionFilter) :
    passed use base i fs = [] ↔ ¬∃ f ∈ fs, filterPasses (fun j => base (i + j)) f := by
  induction fs with
  | nil => simp [passed]
  | cons f next ih =>
    rw [passed]
    cases hf : filterPasses (fun j => base (i + j)) f with
    | true => simp [hf]
    | false => simpa [hf] using ih

variable (use) in
/-- The loop over the filters adds what they pass, and may set `seclen`. -/
theorem feedFilters_eq (fs : List SectionFilter) :
    ∀ feed : SectionFeed, feed.seclen = lengthAt feed.secbufBase feed.secbuf →
      ∃ seclen, feedFilters use feed fs = { feed with
        delivered := feed.delivered ++ passed use feed.secbufBase feed.secbuf fs
        seclen := seclen } := by
  induction fs with
  | nil =>
    intro feed _
    exact ⟨0, by simp [feedFilters, passed]⟩
  | cons f next ih =>
    intro feed hlen
    have hsection : feed.section = sectionAt feed.secbufBase feed.secbuf := by
      rw [SectionFeed.section, hlen]
      rfl
    rw [feedFilters, swfilterSectionfilter, passed, filterPasses, hsection]
    have hat : feed.at = fun j => feed.secbufBase (feed.secbuf + j) := rfl
    rw [hat]
    cases hmask : maskLoop (fun j => feed.secbufBase (feed.secbuf + j)) f
        (List.range DVB_DEMUX_MASK_MAX) 0 with
    | none => simpa using ih feed hlen
    | some neq =>
      by_cases hneq : f.doneq = true ∧ neq = 0
      · simpa [hneq] using ih feed hlen
      · by_cases hcb : use.cb (sectionAt feed.secbufBase feed.secbuf) < 0
        · exact ⟨feed.seclen, by simp [hneq, hcb]⟩
        · obtain ⟨seclen, heq⟩ := ih { feed with
            delivered := feed.delivered ++ [sectionAt feed.secbufBase feed.secbuf] } hlen
          exact ⟨seclen, by simp [hneq, hcb, heq]⟩

variable (use) in
open Classical in
/-- What a section that is dumped gives to the callback. -/
noncomputable def given (base : ℕ → UInt8) (i : ℕ) : List (List UInt8) :=
  if Wanted use base i then passed use base i use.sectionFilter else []

theorem given_eq_nil : given use base i = [] ↔ ¬Wanted use base i := by
  rw [given]
  split
  · rename_i h
    rw [passed_eq_nil]
    exact ⟨fun hno => absurd h.2.2 hno, fun hno => absurd h hno⟩
  · rename_i h
    exact ⟨fun _ => h, fun _ => rfl⟩

variable (use feed) in
/-- Nothing but the list of what is delivered, the flags and `seclen` changes. -/
theorem swfilterSectionFeed_eq (hlen : feed.seclen = lengthAt feed.secbufBase feed.secbuf) :
    ∃ flags seclen, swfilterSectionFeed use feed = { feed with
      delivered := feed.delivered ++ given use feed.secbufBase feed.secbuf
      bufferFlags := flags
      seclen := seclen } := by
  have hnone : ¬Wanted use feed.secbufBase feed.secbuf →
      given use feed.secbufBase feed.secbuf = [] := given_eq_nil.mpr
  have hsection : feed.section = sectionAt feed.secbufBase feed.secbuf := by
    rw [SectionFeed.section, hlen]
    rfl
  have hone : feed.at 1 = feed.secbufBase (feed.secbuf + 1) := rfl
  rw [swfilterSectionFeed, hsection, hone]
  split_ifs with hon hfs hcrc
  · rw [hnone fun h => by simpa [hfs] using h.2.2]
    exact ⟨feed.bufferFlags, feed.seclen, by simp⟩
  · rw [hnone fun h => h.2.1 hcrc]
    exact ⟨_, feed.seclen, by simp only [List.append_nil]; rfl⟩
  · obtain ⟨seclen, heq⟩ := feedFilters_eq use use.sectionFilter feed hlen
    refine ⟨feed.bufferFlags, seclen, ?_⟩
    rw [heq]
    congr 2
    by_cases hw : Wanted use feed.secbufBase feed.secbuf
    · rw [given, if_pos hw]
    · rw [hnone hw, passed_eq_nil]
      exact fun hex => hw ⟨hon, hcrc, hex⟩
  · rw [hnone fun h => hon h.1]
    exact ⟨feed.bufferFlags, feed.seclen, by simp⟩

/-! ### The loop -/

/-- A section that is complete begins at the place `i`. -/
def More (base : ℕ → UInt8) (limit i : ℕ) : Prop :=
  i + 2 < limit ∧ lengthAt base i ≤ DMX_MAX_SECTION_SIZE ∧ lengthAt base i + i ≤ limit

variable (use) in
theorem dumpBody_last (hptr : feed.secbuf = feed.secbufp)
    (h : ¬More feed.secbufBase limit feed.secbufp) : dumpBody use limit feed = .exit feed := by
  rw [dumpBody]
  split
  · rename_i hmore
    have hlen : sectionLength feed.at = lengthAt feed.secbufBase feed.secbufp := by
      rw [lengthAt, ← hptr]
      rfl
    dsimp only
    rw [hlen, if_pos]
    by_contra hcon
    rw [not_or, not_or] at hcon
    exact h ⟨hmore, by omega, by omega⟩
  · rfl

variable (use) in
/-- The feed behind the next section. -/
noncomputable def SectionFeed.past (feed : SectionFeed) (flags : UInt32) (seclen : ℕ) :
    SectionFeed :=
  { feed with
    secbuf := feed.secbufp + lengthAt feed.secbufBase feed.secbufp
    secbufp := feed.secbufp + lengthAt feed.secbufBase feed.secbufp
    delivered := feed.delivered ++
      if feed.pusiSeen then given use feed.secbufBase feed.secbufp else []
    bufferFlags := flags
    seclen := seclen }

variable (use) in
theorem dumpBody_more (hptr : feed.secbuf = feed.secbufp)
    (h : More feed.secbufBase limit feed.secbufp) :
    ∃ flags seclen, dumpBody use limit feed = .again (feed.past use flags seclen) := by
  have hlen : sectionLength feed.at = lengthAt feed.secbufBase feed.secbufp := by
    rw [lengthAt, ← hptr]
    rfl
  have hge := lengthAt_ge feed.secbufBase feed.secbufp
  obtain ⟨hmore, hmax, hfits⟩ := h
  rw [dumpBody, if_pos hmore]
  dsimp only
  rw [hlen, if_neg (by omega)]
  by_cases hseen : feed.pusiSeen = true
  · obtain ⟨flags, seclen, heq⟩ := swfilterSectionFeed_eq use
      ({ feed with seclen := lengthAt feed.secbufBase feed.secbufp })
      (by simp only [hptr])
    rw [if_pos hseen, heq]
    exact ⟨flags, seclen, by simp only [SectionFeed.past, hptr, hseen, if_true]⟩
  · refine ⟨feed.bufferFlags ||| DMX_BUFFER_FLAG_DISCONTINUITY_DETECTED,
      lengthAt feed.secbufBase feed.secbufp, ?_⟩
    rw [if_neg hseen, SectionFeed.past, if_neg hseen, List.append_nil]
    simp only [SectionFeed.setBufFlags, hptr]

variable (use limit) in
theorem dump_ends (feed : SectionFeed) :
    ∃ r, run (dumpBody use limit) (limit + 1) feed = some r := by
  have hstep : ∀ a b : SectionFeed, True → dumpBody use limit a = .again b →
      True ∧ limit - b.secbufp < limit - a.secbufp := by
    intro a b _ hb
    have hpos := sectionLength_pos a.at
    rw [dumpBody] at hb
    split at hb
    · dsimp only at hb
      split at hb
      · cases hb
      · cases hb
        refine ⟨trivial, ?_⟩
        dsimp only
        have hsame : ∀ x : SectionFeed, x.secbufp = a.secbufp →
            limit - (x.secbufp + sectionLength a.at) < limit - a.secbufp := by
          intro x hx
          omega
        split
        · obtain ⟨flags, seclen, heq⟩ := swfilterSectionFeed_eq use
            ({ a with seclen := sectionLength a.at }) rfl
          rw [heq]
          exact hsame _ rfl
        · exact hsame _ rfl
    · cases hb
  obtain ⟨r, hr⟩ := run_of_measure (fun feed => limit - feed.secbufp) hstep (s := feed) trivial
  exact ⟨r, run_mono (by omega) hr⟩

/-- The fields that the loop neither changes nor, apart from `secbufp`, the packets without payload. -/
structure Alike (feed feed' : SectionFeed) : Prop where
  cc : feed'.cc = feed.cc
  pusiSeen : feed'.pusiSeen = feed.pusiSeen
  secbufBase : feed'.secbufBase = feed.secbufBase
  tsfeedp : feed'.tsfeedp = feed.tsfeedp

theorem Alike.refl (feed : SectionFeed) : Alike feed feed := ⟨rfl, rfl, rfl, rfl⟩

theorem Alike.symm (h : Alike feed feed') : Alike feed' feed :=
  ⟨h.cc.symm, h.pusiSeen.symm, h.secbufBase.symm, h.tsfeedp.symm⟩

theorem Alike.trans {feed'' : SectionFeed} (h : Alike feed feed') (h' : Alike feed' feed'') :
    Alike feed feed'' :=
  ⟨h'.cc.trans h.cc, h'.pusiSeen.trans h.pusiSeen, h'.secbufBase.trans h.secbufBase,
    h'.tsfeedp.trans h.tsfeedp⟩

/-- What the loop leaves: whole sections are cut off, and some of them delivered. -/
structure Left (limit : ℕ) (feed feed' : SectionFeed) (d : List (List UInt8)) : Prop where
  kept : Alike feed feed'
  cut : Cut feed'.secbufBase 0 feed'.secbufp
  le : feed'.secbufp ≤ limit
  delivered : feed'.delivered = feed.delivered ++ d

/-- From the same place in the same buffer two loops deliver the same. -/
theorem dump_alike (use : SectionUse) (n : ℕ) :
    ∀ {feed feed' r : SectionFeed}, Alike feed feed' → feed'.secbufp = feed.secbufp →
      feed.secbuf = feed.secbufp → feed'.secbuf = feed'.secbufp →
      Cut feed.secbufBase 0 feed.secbufp → feed.secbufp ≤ limit →
      run (dumpBody use limit) n feed = some r →
      ∃ r' d, run (dumpBody use limit) n feed' = some r' ∧ r'.secbufp = r.secbufp ∧
        Left limit feed r d ∧ Left limit feed' r' d := by
  induction n with
  | zero =>
    intro feed feed' r _ _ _ _ _ _ hr
    cases hr
  | succ n ih =>
    intro feed feed' r hkept hp hptr hptr' hcut hle hr
    have hcut' : Cut feed'.secbufBase 0 feed'.secbufp := by
      rw [hkept.secbufBase, hp]
      exact hcut
    by_cases hmore : More feed.secbufBase limit feed.secbufp
    · have hmore' : More feed'.secbufBase limit feed'.secbufp := by
        rw [hkept.secbufBase, hp]
        exact hmore
      obtain ⟨flags, seclen, hbody⟩ := dumpBody_more use hptr hmore
      obtain ⟨flags', seclen', hbody'⟩ := dumpBody_more use hptr' hmore'
      rw [run_again hbody] at hr
      have hnext : Cut feed.secbufBase 0 (feed.secbufp + lengthAt feed.secbufBase feed.secbufp) :=
        hcut.trans (.next hmore.2.1 .here)
      have hroom : (feed.past use flags seclen).secbufp ≤ limit := by
        rw [SectionFeed.past, Nat.add_comm]
        exact hmore.2.2
      have hp' : (feed'.past use flags' seclen').secbufp =
          (feed.past use flags seclen).secbufp := by
        rw [SectionFeed.past, SectionFeed.past, hkept.secbufBase, hp]
      have hkept' : Alike (feed.past use flags seclen) (feed'.past use flags' seclen') :=
        ⟨hkept.cc, hkept.pusiSeen, hkept.secbufBase, hkept.tsfeedp⟩
      obtain ⟨r', d, hr', hsame, hleft, hleft'⟩ := ih hkept' hp' rfl rfl hnext hroom hr
      refine ⟨r', (if feed.pusiSeen then given use feed.secbufBase feed.secbufp else []) ++ d,
        (run_again hbody' n).trans hr', hsame, ?_, ?_⟩
      · have hkept₁ : Alike feed (feed.past use flags seclen) := ⟨rfl, rfl, rfl, rfl⟩
        refine ⟨hkept₁.trans hleft.kept, hleft.cut, hleft.le, ?_⟩
        rw [hleft.delivered, SectionFeed.past, List.append_assoc]
      · have hkept₁ : Alike feed' (feed'.past use flags' seclen') := ⟨rfl, rfl, rfl, rfl⟩
        refine ⟨hkept₁.trans hleft'.kept, hleft'.cut, hleft'.le, ?_⟩
        rw [hleft'.delivered, SectionFeed.past, hkept.pusiSeen, hkept.secbufBase, hp,
          List.append_assoc]
    · have hmore' : ¬More feed'.secbufBase limit feed'.secbufp := by
        rw [hkept.secbufBase, hp]
        exact hmore
      rw [run_exit (dumpBody_last use hptr hmore)] at hr
      cases hr
      refine ⟨feed', [], run_exit (dumpBody_last use hptr' hmore') n, hp, ?_, ?_⟩
      · exact ⟨.refl _, hcut, hle, (List.append_nil _).symm⟩
      · exact ⟨.refl _, hcut', hp ▸ hle, (List.append_nil _).symm⟩

variable (use) in
/-- None of the sections from one place to the other is delivered when they are dumped. -/
def Silent (pusiSeen : Bool) (base : ℕ → UInt8) (i k : ℕ) : Prop :=
  pusiSeen = true → ∀ j < k, Cut base i j → ¬Wanted use base j

theorem silent_here (pusiSeen : Bool) : Silent use pusiSeen base i i := by
  intro _ j hj hcut
  have hle := hcut.le
  omega

theorem silent_next (pusiSeen : Bool) (hmax : lengthAt base i ≤ DMX_MAX_SECTION_SIZE)
    (h : Cut base (i + lengthAt base i) k) : Silent use pusiSeen base i k ↔
      (pusiSeen = true → ¬Wanted use base i) ∧
        Silent use pusiSeen base (i + lengthAt base i) k := by
  have hge := lengthAt_ge base i
  have hle := h.le
  constructor
  · intro hs
    exact ⟨fun hseen => hs hseen i (by omega) .here,
      fun hseen j hj hcut => hs hseen j hj (.next hmax hcut)⟩
  · rintro ⟨hi, hs⟩ hseen j hj hcut
    cases hcut with
    | here => exact hi hseen
    | next _ hcut => exact hs hseen j hj hcut

/-- A loop that starts before sections that were dumped already gets past them. -/
theorem dump_again (use : SectionUse) (limit : ℕ) (h : Cut base i k) :
    ∀ feed : SectionFeed, feed.secbufBase = base → feed.secbuf = i → feed.secbufp = i →
      k ≤ limit → ∃ feed' extra, Alike feed feed' ∧ feed'.secbuf = k ∧ feed'.secbufp = k ∧
        feed'.delivered = feed.delivered ++ extra ∧
        (extra = [] ↔ Silent use feed.pusiSeen base i k) ∧
        ∀ r, Ends (dumpBody use limit) feed r ↔ Ends (dumpBody use limit) feed' r := by
  induction h with
  | here =>
    intro feed _ hptr hp _
    exact ⟨feed, [], .refl _, hptr, hp, (List.append_nil _).symm,
      ⟨fun _ => silent_here _, fun _ => rfl⟩, fun _ => Iff.rfl⟩
  | @next i k hmax h ih =>
    intro feed hbase hptr hp hk
    have hge := lengthAt_ge base i
    have hle := h.le
    have hmore : More feed.secbufBase limit feed.secbufp := by
      rw [hbase, hp]
      exact ⟨by omega, hmax, by omega⟩
    obtain ⟨flags, seclen, hbody⟩ := dumpBody_more use (hptr.trans hp.symm) hmore
    have hplace : feed.secbufp + lengthAt feed.secbufBase feed.secbufp = i + lengthAt base i := by
      rw [hbase, hp]
    obtain ⟨feed', extra, hkept, hptr', hp', hdelivered, hsilent, hends⟩ :=
      ih (feed.past use flags seclen) hbase hplace hplace hk
    have hkept₁ : Alike feed (feed.past use flags seclen) := ⟨rfl, rfl, rfl, rfl⟩
    refine ⟨feed', (if feed.pusiSeen then given use base i else []) ++ extra,
      hkept₁.trans hkept, hptr', hp', ?_, ?_, ?_⟩
    · rw [hdelivered, SectionFeed.past, hbase, hp, List.append_assoc]
    · have hseen : (feed.past use flags seclen).pusiSeen = feed.pusiSeen := rfl
      rw [List.append_eq_nil_iff, hsilent, silent_next _ hmax h, hseen]
      refine and_congr_left fun _ => ?_
      cases feed.pusiSeen with
      | true => simpa using given_eq_nil
      | false => simp
    · intro r
      rw [ends_again_iff hbody]
      exact hends r

/-! ### The two runs -/

/-- The state of the run without the packets, and that of the run with them. -/
structure Trails (feed feed' : SectionFeed) (rewound : Bool) : Prop where
  kept : Alike feed feed'
  secbufp : feed'.secbufp = if rewound then 0 else feed.secbufp
  cut : Cut feed.secbufBase 0 feed.secbufp
  le : feed.secbufp ≤ feed.tsfeedp

/-- What both runs deliver in a step, and what only the second delivers, before that. -/
def Repeats (new : Prop) (a a' b b' : SectionFeed) : Prop :=
  ∃ extra d, a'.delivered = a.delivered ++ d ∧ b'.delivered = b.delivered ++ (extra ++ d) ∧
    (extra = [] ↔ new)

variable {rewound : Bool} {src : List UInt8} {buf : Packet UInt8}

/-- The buffer with the bytes that are added. -/
def SectionFeed.grown (feed : SectionFeed) (src : List UInt8) : ℕ → UInt8 :=
  copyInto feed.secbufBase feed.tsfeedp src

/-- The feed as the loop finds it. -/
def SectionFeed.loaded (feed : SectionFeed) (src : List UInt8) : SectionFeed :=
  { feed with
    secbufBase := feed.grown src
    tsfeedp := feed.tsfeedp + src.length
    secbuf := feed.secbufp }

theorem copyAndDump_eq (hsrc : src ≠ [])
    (hroom : feed.tsfeedp + src.length ≤ DMX_MAX_SECFEED_SIZE) {r : SectionFeed}
    (hr : run (dumpBody use (feed.tsfeedp + src.length)) (feed.tsfeedp + src.length + 1)
      (feed.loaded src) = some r) : copyAndDump use feed src = r := by
  have hlen := List.length_pos_of_ne_nil hsrc
  rw [copyAndDump, if_neg (Nat.ne_of_gt hlen)]
  dsimp only
  rw [if_neg (Nat.not_lt.mpr hroom)]
  have hloaded : ({ feed with
      secbufBase := copyInto feed.secbufBase feed.tsfeedp src
      tsfeedp := feed.tsfeedp + src.length
      secbuf := feed.secbufp } : SectionFeed) = feed.loaded src := rfl
  rw [hloaded, hr, Option.getD_some]

theorem copyAndDump_trails (h : Trails feed feed' rewound) (hsrc : src ≠ [])
    (hroom : feed.tsfeedp + src.length ≤ DMX_MAX_SECFEED_SIZE) :
    Trails (copyAndDump use feed src) (copyAndDump use feed' src) false ∧
      Repeats (rewound = true → Silent use feed.pusiSeen (feed.grown src) 0 feed.secbufp)
        feed (copyAndDump use feed src) feed' (copyAndDump use feed' src) := by
  obtain ⟨⟨hcc, hseen, hbase, hts⟩, hp, hcut, hle⟩ := h
  have hcut' : Cut (feed.grown src) 0 feed.secbufp := hcut.congr fun j hj => by
    rw [SectionFeed.grown, copyInto, if_neg (by omega)]
  have hgrown : feed'.grown src = feed.grown src := by
    rw [SectionFeed.grown, SectionFeed.grown, hbase, hts]
  have hloaded : Alike (feed.loaded src) (feed'.loaded src) :=
    ⟨hcc, hseen, hgrown, congrArg (· + src.length) hts⟩
  have hfrom : Cut (feed.grown src) feed'.secbufp feed.secbufp := by
    rw [hp]
    split
    · exact hcut'
    · exact .here
  obtain ⟨r, hr⟩ := dump_ends use (feed.tsfeedp + src.length)
    (feed.loaded src)
  obtain ⟨r', hr'⟩ := dump_ends use (feed.tsfeedp + src.length)
    (feed'.loaded src)
  -- the second loop reaches the place where the first one starts
  obtain ⟨mid, extra, hkept, hptr, hmid, hdelivered, hsilent, hends⟩ := dump_again use
    (feed.tsfeedp + src.length) hfrom (feed'.loaded src) hgrown rfl rfl (by omega)
  obtain ⟨q, d, hq, hsame, hleft, hleft'⟩ := dump_alike use _ (hloaded.trans hkept) hmid
    rfl (hptr.trans hmid.symm) hcut' (Nat.le_trans hle (Nat.le_add_right ..)) hr
  obtain rfl : r' = q := ((hends r').mp ⟨_, hr'⟩).unique ⟨_, hq⟩
  rw [copyAndDump_eq hsrc hroom hr, copyAndDump_eq hsrc (hts ▸ hroom) (hts ▸ hr')]
  refine ⟨⟨?_, hsame, hleft.cut, ?_⟩, extra, d, hleft.delivered, ?_, ?_⟩
  · exact (hleft.kept.symm.trans (hloaded.trans hkept)).trans hleft'.kept
  · rw [hleft.kept.tsfeedp]
    exact hleft.le
  · rw [hleft'.delivered, hdelivered, List.append_assoc]
    rfl
  · have hseen' : (feed'.loaded src).pusiSeen = feed.pusiSeen := hseen
    rw [hsilent, hp, hseen']
    cases rewound with
    | true => simp
    | false => simpa using silent_here _

/-- No byte is added: there is none, or there is no room. -/
def SectionFeed.idle (feed : SectionFeed) (src : List UInt8) : Bool :=
  src.isEmpty || DMX_MAX_SECFEED_SIZE ≤ feed.tsfeedp

variable (use) in
/-- If bytes are added, none of the sections dumped before would be delivered with them. -/
def Unrepeated (feed : SectionFeed) (src : List UInt8) : Prop :=
  feed.idle src = false → Silent use feed.pusiSeen
    (feed.grown (src.take (DMX_MAX_SECFEED_SIZE - feed.tsfeedp))) 0 feed.secbufp

theorem copyDump_idle (h : feed.idle src = true) :
    swfilterSectionCopyDump use feed src = feed := by
  rw [SectionFeed.idle, Bool.or_eq_true, List.isEmpty_iff, decide_eq_true_iff] at h
  rw [swfilterSectionCopyDump]
  split
  · rfl
  · rename_i hroom
    have hsrc : src = [] := h.resolve_right hroom
    rw [hsrc, List.length_nil, Nat.add_zero, if_neg (by omega)]
    rfl

theorem repeats_nothing (new : Prop) (hnew : new) :
    Repeats new feed feed feed' feed' :=
  ⟨[], [], (List.append_nil _).symm, (List.append_nil _).symm, fun _ => hnew, fun _ => rfl⟩

theorem copyDump_trails (use : SectionUse) (src : List UInt8) (h : Trails feed feed' rewound) :
    Trails (swfilterSectionCopyDump use feed src) (swfilterSectionCopyDump use feed' src)
        (rewound && feed.idle src) ∧
      Repeats (rewound = true → Unrepeated use feed src)
        feed (swfilterSectionCopyDump use feed src) feed'
        (swfilterSectionCopyDump use feed' src) := by
  have hidle : feed'.idle src = feed.idle src := by
    rw [SectionFeed.idle, SectionFeed.idle, h.kept.tsfeedp]
  cases hfeed : feed.idle src with
  | true =>
    rw [copyDump_idle hfeed, copyDump_idle (hidle.trans hfeed), Bool.and_true]
    exact ⟨h, repeats_nothing _ fun _ hno => by rw [hfeed] at hno; cases hno⟩
  | false =>
    rw [Unrepeated, hfeed, Bool.and_false]
    rw [SectionFeed.idle, Bool.or_eq_false_iff, List.isEmpty_eq_false_iff,
      decide_eq_false_iff_not] at hfeed
    obtain ⟨hsrc, hroom⟩ := hfeed
    have hts := h.kept.tsfeedp
    simp only [forall_const]
    rw [swfilterSectionCopyDump, if_neg hroom, swfilterSectionCopyDump, hts, if_neg hroom]
    split
    · have hflags : Trails (feed.setBufFlags DMX_BUFFER_FLAG_DISCONTINUITY_DETECTED)
          (feed'.setBufFlags DMX_BUFFER_FLAG_DISCONTINUITY_DETECTED) rewound :=
        ⟨⟨h.kept.cc, h.kept.pusiSeen, h.kept.secbufBase, h.kept.tsfeedp⟩, h.secbufp, h.cut, h.le⟩
      have htake : src.take (DMX_MAX_SECFEED_SIZE - feed.tsfeedp) ≠ [] := by
        rw [Ne, List.take_eq_nil_iff, not_or]
        exact ⟨by omega, hsrc⟩
      refine copyAndDump_trails hflags htake ?_
      rw [List.length_take, SectionFeed.setBufFlags]
      dsimp only
      omega
    · rw [List.take_of_length_le (by omega)]
      exact copyAndDump_trails h hsrc (by omega)

theorem sectionNew_trails (h : Trails feed feed' rewound) :
    Trails (swfilterSectionNew feed) (swfilterSectionNew feed') false := by
  have hfields : ∀ feed : SectionFeed, (swfilterSectionNew feed).secbufBase = feed.secbufBase ∧
      (swfilterSectionNew feed).secbufp = 0 ∧ (swfilterSectionNew feed).tsfeedp = 0 := by
    intro feed
    rw [swfilterSectionNew]
    dsimp only
    split_ifs <;> exact ⟨rfl, rfl, rfl⟩
  obtain ⟨-, hseen, hcc⟩ := sectionNew_fields feed
  obtain ⟨-, hseen', hcc'⟩ := sectionNew_fields feed'
  obtain ⟨hbase, hp, hts⟩ := hfields feed
  obtain ⟨hbase', hp', hts'⟩ := hfields feed'
  refine ⟨⟨?_, ?_, ?_, ?_⟩, ?_, ?_, ?_⟩
  · rw [hcc, hcc', h.kept.cc]
  · rw [hseen, hseen', h.kept.pusiSeen]
  · rw [hbase, hbase', h.kept.secbufBase]
  · rw [hts, hts']
  · rw [hp, hp']
    rfl
  · rw [hp]
    exact .here
  · rw [hp, hts]

theorem Trails.empty (rewound : Bool) (h : Trails feed feed' false) (hp : feed.secbufp = 0) :
    Trails feed feed' rewound :=
  ⟨h.kept, by rw [h.secbufp, hp]; simp, h.cut, h.le⟩

theorem sectionNew_secbufp (feed : SectionFeed) : (swfilterSectionNew feed).secbufp = 0 := by
  rw [swfilterSectionNew]

theorem checkContinuity_trails (buf : Packet UInt8) (h : Trails feed feed' rewound) :
    Trails (checkContinuity feed buf) (checkContinuity feed' buf) rewound ∧
      (checkContinuity feed buf).delivered = feed.delivered ∧
      (checkContinuity feed' buf).delivered = feed'.delivered := by
  obtain ⟨hkept, hp, hcut, hle⟩ := h
  rw [checkContinuity, checkContinuity, hkept.cc]
  dsimp only
  split
  · have hset : Trails
        { feed.setBufFlags (if buf 3 &&& 0x20 ≠ 0 ∧ buf 4 > 0 ∧ buf 5 &&& 0x80 ≠ 0 then
          DMX_BUFFER_FLAG_DISCONTINUITY_INDICATOR else DMX_BUFFER_FLAG_DISCONTINUITY_DETECTED) with
          pusiSeen := false }
        { feed'.setBufFlags (if buf 3 &&& 0x20 ≠ 0 ∧ buf 4 > 0 ∧ buf 5 &&& 0x80 ≠ 0 then
          DMX_BUFFER_FLAG_DISCONTINUITY_INDICATOR else DMX_BUFFER_FLAG_DISCONTINUITY_DETECTED) with
          pusiSeen := false } rewound :=
      ⟨⟨hkept.cc, rfl, hkept.secbufBase, hkept.tsfeedp⟩, hp, hcut, hle⟩
    have hnew := sectionNew_trails hset
    obtain ⟨⟨-, hseen, hbase, hts⟩, hp', hcut', hle'⟩ := hnew.empty rewound
      (sectionNew_secbufp _)
    exact ⟨⟨⟨rfl, hseen, hbase, hts⟩, hp', hcut', hle'⟩, (sectionNew_fields _).1,
      (sectionNew_fields _).1⟩
  · exact ⟨⟨⟨rfl, hkept.pusiSeen, hkept.secbufBase, hkept.tsfeedp⟩, hp, hcut, hle⟩, rfl, rfl⟩

/-! ### Packets -/

/-- Sections start in the packet, and its pointer is within it. -/
def startsAnew (buf : Packet UInt8) : Bool :=
  buf 1 &&& 0x40 != 0 && (payload buf > 1 && (buf (188 - payload buf)).toNat < payload buf)

/-- The bytes of a packet that belong behind those received before. -/
def front (buf : Packet UInt8) : List UInt8 :=
  let count := payload buf
  let p := 188 - count
  if startsAnew buf then buf.read (p + 1) (buf p).toNat
  else if buf 1 &&& 0x40 ≠ 0 then []
  else buf.read p count

/-- The bytes of a packet behind the pointer. -/
def behind (buf : Packet UInt8) : List UInt8 :=
  let count := payload buf
  let p := 188 - count
  buf.read (p + 1 + (buf p).toNat) (count - 1 - (buf p).toNat : ℕ)

theorem packet_none (h : payload buf = 0) : swfilterSectionPacket use feed buf = none := by
  rw [swfilterSectionPacket]
  dsimp only
  rw [if_pos h]

theorem front_none (h : payload buf = 0) : startsAnew buf = false ∧ front buf = [] := by
  have hstarts : startsAnew buf = false := by simp [startsAnew, h]
  rw [front, hstarts, h]
  refine ⟨rfl, ?_⟩
  simp [Packet.read]

theorem packet_anew (h : startsAnew buf = true) :
    swfilterSectionPacket use feed buf = some (swfilterSectionCopyDump use (startSections
      (swfilterSectionCopyDump use (checkContinuity feed buf) (front buf))) (behind buf)) := by
  have hstarts := h
  rw [startsAnew, Bool.and_eq_true, Bool.and_eq_true, bne_iff_ne, decide_eq_true_iff,
    decide_eq_true_iff] at h
  obtain ⟨hpusi, hone, hptr⟩ := h
  rw [swfilterSectionPacket]
  dsimp only
  rw [if_neg (by omega), if_pos hpusi, if_pos ⟨hone, hptr⟩, front, if_pos hstarts]
  rfl

variable (use feed) in
theorem packet_behind (hcount : payload buf ≠ 0) (h : startsAnew buf = false) :
    ∃ flags, swfilterSectionPacket use feed buf = some { swfilterSectionCopyDump use
      (checkContinuity feed buf) (front buf) with bufferFlags := flags } := by
  rw [swfilterSectionPacket, front, h]
  dsimp only
  rw [if_neg hcount]
  by_cases hpusi : buf 1 &&& 0x40 ≠ 0
  · have hno : ¬(payload buf > 1 ∧ (buf (188 - payload buf)).toNat < payload buf) := by
      rintro ⟨hone, hptr⟩
      simp [startsAnew, hpusi, hone, hptr] at h
    rw [if_pos hpusi, if_neg hno]
    simp only [Bool.false_eq_true, if_false]
    rw [if_pos hpusi, copyDump_idle rfl]
    exact ⟨_, rfl⟩
  · rw [if_neg hpusi]
    simp only [Bool.false_eq_true, if_false]
    rw [if_neg hpusi]
    exact ⟨_, rfl⟩

/-- The packet leaves the bytes in the buffer as they are. -/
def leaves (feed : SectionFeed) (buf : Packet UInt8) : Bool :=
  !startsAnew buf && (checkContinuity feed buf).idle (front buf)

/-- What is repeated comes first. -/
theorem Repeats.trans {new new' : Prop} {a b c a' b' c' : SectionFeed}
    (h : Repeats new a b a' b') (h' : Repeats new' b c b' c') (hnew : new') :
    Repeats new a c a' c' := by
  obtain ⟨extra, d, hb, hb', hextra⟩ := h
  obtain ⟨extra', d', hc, hc', hextra'⟩ := h'
  rw [hextra'.mpr hnew, List.nil_append] at hc'
  refine ⟨extra, d ++ d', ?_, ?_, hextra⟩
  · rw [hc, hb, List.append_assoc]
  · rw [hc', hb', List.append_assoc, List.append_assoc]

theorem packetType_eq (hon : use.isFiltering = true) (feed : SectionFeed) (buf : Packet UInt8) :
    swfilterPacketType use feed buf =
      (swfilterSectionPacket use feed buf).getD { feed with seclen := 0, secbufp := 0 } := by
  rw [swfilterPacketType, if_neg (fun hno => hno hon)]
  cases swfilterSectionPacket use feed buf with
  | none => rfl
  | some feed' => rfl

/-- A packet without payload. -/
theorem rewound_trails (hon : use.isFiltering = true) (h : Trails feed feed' rewound)
    (hcount : payload buf = 0) : Trails feed (swfilterPacketType use feed' buf) true := by
  rw [packetType_eq hon, packet_none hcount]
  exact ⟨⟨h.kept.cc, h.kept.pusiSeen, h.kept.secbufBase, h.kept.tsfeedp⟩, rfl, h.cut, h.le⟩

/-- A packet that both runs get. -/
theorem packet_trails (buf : Packet UInt8) (hon : use.isFiltering = true) (h : Trails feed feed' rewound) :
    Trails (swfilterPacketType use feed buf) (swfilterPacketType use feed' buf)
        (rewound && leaves feed buf) ∧
      Repeats (rewound = true → Unrepeated use (checkContinuity feed buf) (front buf))
        feed (swfilterPacketType use feed buf) feed' (swfilterPacketType use feed' buf) := by
  rw [packetType_eq hon, packetType_eq hon]
  obtain ⟨hchecked, hdelivered, hdelivered'⟩ := checkContinuity_trails buf h
  obtain ⟨hdump, extra, d, hd, hd', hextra⟩ := copyDump_trails use (front buf)
    hchecked
  rw [hdelivered] at hd
  rw [hdelivered'] at hd'
  by_cases hcount : payload buf = 0
  · obtain ⟨hstarts, hfront⟩ := front_none hcount
    have hidle : (checkContinuity feed buf).idle (front buf) = true := by
      rw [hfront]
      rfl
    rw [packet_none hcount, packet_none hcount]
    have hzero : Trails { feed with seclen := 0, secbufp := 0 }
        { feed' with seclen := 0, secbufp := 0 } false :=
      ⟨⟨h.kept.cc, h.kept.pusiSeen, h.kept.secbufBase, h.kept.tsfeedp⟩, rfl, .here, Nat.zero_le _⟩
    refine ⟨hzero.empty _ rfl, repeats_nothing _ ?_⟩
    intro _ hno
    rw [hidle] at hno
    cases hno
  · cases hstarts : startsAnew buf with
    | true =>
      rw [packet_anew hstarts, packet_anew hstarts, leaves, hstarts]
      have hseen : Trails
          { swfilterSectionCopyDump use (checkContinuity feed buf) (front buf) with
            pusiSeen := true }
          { swfilterSectionCopyDump use (checkContinuity feed' buf) (front buf) with
            pusiSeen := true } (rewound && (checkContinuity feed buf).idle (front buf)) :=
        ⟨⟨hdump.kept.cc, rfl, hdump.kept.secbufBase, hdump.kept.tsfeedp⟩, hdump.secbufp,
          hdump.cut, hdump.le⟩
      have hnew := sectionNew_trails hseen
      obtain ⟨hlast, hrepeats⟩ := copyDump_trails use (behind buf) hnew
      rw [Bool.not_true, Bool.false_and, Bool.and_false]
      refine ⟨hlast, Repeats.trans ⟨extra, d, ?_, ?_, hextra⟩ hrepeats fun hno => by cases hno⟩
      · rw [(sectionNew_fields _).1]
        exact hd
      · rw [(sectionNew_fields _).1]
        exact hd'
    | false =>
      obtain ⟨flags, heq⟩ := packet_behind use feed hcount hstarts
      obtain ⟨flags', heq'⟩ := packet_behind use feed' hcount hstarts
      rw [heq, heq', leaves, hstarts, Bool.not_false, Bool.true_and]
      exact ⟨⟨⟨hdump.kept.cc, hdump.kept.pusiSeen, hdump.kept.secbufBase, hdump.kept.tsfeedp⟩,
        hdump.secbufp, hdump.cut, hdump.le⟩, extra, d, hd, hd', hextra⟩

variable (use) in
/-- Every time packets without payload come between, the payload that is added next is dumped
    together with sections of which none is delivered. `rewound` tells whether there has been such a
    packet since bytes were added. -/
def NothingTwice : SectionFeed → Bool → List (Packet UInt8) → Prop
  | _, _, [] => True
  | feed, rewound, buf :: packets =>
    if hasPayload buf then
      (rewound = true → Unrepeated use (checkContinuity feed buf) (front buf)) ∧
        NothingTwice (swfilterPacketType use feed buf) (rewound && leaves feed buf) packets
    else NothingTwice feed true packets

theorem payload_zero (h : hasPayload buf = false) : payload buf = 0 := by
  rw [hasPayload, decide_eq_false_iff_not, not_not] at h
  have hbit : buf 3 &&& 0x10 = 0 := h
  rw [payload, if_pos hbit]

/-- The run with the packets delivers as many sections at least, and more if one is delivered
    twice. -/
theorem Trails.packets (hon : use.isFiltering = true) (packets : List (Packet UInt8)) :
    ∀ {feed feed' : SectionFeed} {rewound : Bool}, Trails feed feed' rewound →
      ∃ d d', (sectionPackets use feed (packets.filter hasPayload)).delivered =
          feed.delivered ++ d ∧
        (sectionPackets use feed' packets).delivered = feed'.delivered ++ d' ∧
        d.length ≤ d'.length ∧ (d' = d ↔ NothingTwice use feed rewound packets) := by
  induction packets with
  | nil =>
    intro feed feed' rewound _
    exact ⟨[], [], (List.append_nil _).symm, (List.append_nil _).symm, Nat.le_refl _,
      fun _ => trivial, fun _ => rfl⟩
  | cons buf packets ih =>
    intro feed feed' rewound h
    cases hbuf : hasPayload buf with
    | false =>
      obtain ⟨d, d', hd, hd', hle, hiff⟩ := ih (rewound_trails hon h (payload_zero hbuf))
      refine ⟨d, d', ?_, ?_, hle, ?_⟩
      · rw [List.filter_cons_of_neg (by simp [hbuf])]
        exact hd
      · have hsame : (swfilterPacketType use feed' buf).delivered = feed'.delivered := by
          rw [packetType_eq hon, packet_none (payload_zero hbuf)]
          rfl
        rw [← hsame]
        exact hd'
      · rw [NothingTwice, hbuf]
        exact hiff
    | true =>
      obtain ⟨hnext, extra, d₁, hd₁, hd₁', hextra⟩ := packet_trails buf hon h
      obtain ⟨d, d', hd, hd', hle, hiff⟩ := ih hnext
      refine ⟨d₁ ++ d, extra ++ d₁ ++ d', ?_, ?_, ?_, ?_⟩
      · rw [List.filter_cons_of_pos hbuf, ← List.append_assoc, ← hd₁]
        exact hd
      · rw [← List.append_assoc, ← hd₁']
        exact hd'
      · simp only [List.length_append]
        omega
      · rw [NothingTwice, hbuf, if_pos rfl, ← hextra, ← hiff]
        constructor
        · intro heq
          have hlen := congrArg List.length heq
          simp only [List.length_append] at hlen
          have hnil : extra = [] := List.length_eq_zero_iff.mp (by omega)
          rw [hnil, List.nil_append] at heq
          exact ⟨hnil, List.append_cancel_left heq⟩
        · rintro ⟨hnil, heq⟩
          rw [hnil, heq, List.nil_append]

theorem sectionPackets_off (hoff : use.isFiltering = false) (packets : List (Packet UInt8)) :
    sectionPackets use feed packets = feed := by
  induction packets with
  | nil => rfl
  | cons buf packets ih =>
    have hstep : swfilterPacketType use feed buf = feed := by
      rw [swfilterPacketType, hoff]
      exact if_pos Bool.false_ne_true
    rw [sectionPackets, List.foldl_cons, hstep]
    exact ih

theorem nothingTwice_off (hoff : use.isFiltering = false) (packets : List (Packet UInt8)) :
    ∀ (feed : SectionFeed) (rewound : Bool), NothingTwice use feed rewound packets := by
  have hnone : ∀ (feed : SectionFeed) (src : List UInt8), Unrepeated use feed src := by
    intro feed src _ _ j _ _ hwanted
    have hon := hwanted.1
    rw [hoff] at hon
    cases hon
  induction packets with
  | nil => intro _ _; exact trivial
  | cons buf packets ih =>
    intro feed rewound
    rw [NothingTwice]
    split
    · exact ⟨fun _ => hnone _ _, ih _ _⟩
    · exact ih _ _

/-- The packets without payload make no difference if and only if no section that was dumped already
    is delivered a second time with the payload that is added behind it. -/
theorem empty_packets_neutral (use : SectionUse) (feed : SectionFeed)
    (packets : List (Packet UInt8)) :
    (sectionPackets use (startSectionFiltering feed) packets).delivered =
        (sectionPackets use (startSectionFiltering feed) (packets.filter hasPayload)).delivered ↔
      NothingTwice use (startSectionFiltering feed) false packets := by
  cases hon : use.isFiltering with
  | false =>
    rw [sectionPackets_off hon, sectionPackets_off hon]
    exact ⟨fun _ => nothingTwice_off hon packets _ _, fun _ => rfl⟩
  | true =>
    have hstart : Trails (startSectionFiltering feed) (startSectionFiltering feed) false :=
      ⟨.refl _, rfl, .here, Nat.le_refl _⟩
    obtain ⟨d, d', hd, hd', -, hiff⟩ := hstart.packets hon packets
    rw [hd, hd', ← hiff]
    exact ⟨List.append_cancel_left, fun heq => by rw [heq]⟩

/-- A section of 5 bytes and the start of another one, a packet without payload, and the rest. -/
def interrupted : List (Packet UInt8) :=
  [shortPacket 0x40 0x30 0 (0 :: [0x42, 0, 2, 1, 2] ++ shortSection.take 4),
    Packet.ofList ([0x47, 0, 0x11, 0x20, 183, 0] ++ List.replicate 182 0xff),
    shortPacket 0 0x31 0 (shortSection.drop 4 ++ List.replicate 2 0xff)]

/-- The section that came before the packet without payload is delivered twice. -/
theorem section_delivered_twice : ¬∀ (use : SectionUse) (feed : SectionFeed)
    (packets : List (Packet UInt8)),
    (sectionPackets use (startSectionFiltering feed) packets).delivered =
      (sectionPackets use (startSectionFiltering feed) (packets.filter hasPayload)).delivered := by
  intro hall
  have htwice : (sectionPackets passAll (startSectionFiltering idleFeed) interrupted).delivered =
      [[0x42, 0, 2, 1, 2], [0x42, 0, 2, 1, 2], shortSection] := by decide +kernel
  have honce : (sectionPackets passAll (startSectionFiltering idleFeed)
      (interrupted.filter hasPayload)).delivered = [[0x42, 0, 2, 1, 2], shortSection] := by
    decide +kernel
  have heq := hall passAll idleFeed interrupted
  rw [htwice, honce] at heq
  exact absurd heq (by decide)

end Demux

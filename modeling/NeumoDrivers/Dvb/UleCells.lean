import NeumoDrivers.Dvb.UlePayload

/-! How the decoder takes in the TS cells of a call.

    Between two TS cells the decoder either waits for PUSI, or it has read a part of an SNDU and knows
    the next continuity counter. A cell takes it to the next one, and meanwhile SNDUs are completed.
    Only when a length field is below 5 are SNDUs lost. -/

namespace Dvb.Ule
open Loop Memory Packing

variable {dev : NetDevice} {alloc : SkbAllocator} {turns : ℕ} {buf : ℕ → UInt8} {tsEnd : ℕ}
  {lossy : Prop} {P Q : DvbNetUleHandle → ℕ → List Sndu → Prop} {h h₁ g : DvbNetUleHandle}
  {p : DvbNetPriv} {s : Sndu} {cc k m n : ℕ} {u w rest rest' : List UInt8}
  {rs rs' todo begun : List Sndu} {c : Cell UInt8} {cells cells' : List (Cell UInt8)}

/-! ### The way through a call -/

section
variable (dev alloc turns buf tsEnd lossy)

/-- From `h` the loop comes to a state with `P`, or stops in an SNDU. On the way the first ones of the
    SNDUs are completed, the first of them when `n` skbs have been asked for, or they are lost. -/
inductive Comes (P : DvbNetUleHandle → ℕ → List Sndu → Prop) :
    DvbNetUleHandle → ℕ → List Sndu → Prop where
  | there {h : DvbNetUleHandle} {n : ℕ} {todo : List Sndu} : P h n todo → Comes P h n todo
  | pass {h h' : DvbNetUleHandle} {n : ℕ} {todo : List Sndu} :
    uleBody dev alloc turns buf tsEnd h = .again h' → h'.priv.received = h.priv.received →
    Comes P h' n todo → Comes P h n todo
  | heard {h h' : DvbNetUleHandle} {n : ℕ} {s : Sndu} {r : List Received} {todo : List Sndu} :
    uleBody dev alloc turns buf tsEnd h = .again h' → 5 ≤ s.len →
    s.outcome dev turns (alloc.memory n) = .ok r → h'.priv.received = h.priv.received ++ r →
    Comes P h' (n + 1) todo → Comes P h n (s :: todo)
  | lost {h : DvbNetUleHandle} {n : ℕ} {s : Sndu} {todo : List Sndu} :
    lossy → Comes P h n todo → Comes P h n (s :: todo)
  | stops {h : DvbNetUleHandle} {n : ℕ} {s : Sndu} {e : Stop} {todo : List Sndu} :
    uleBody dev alloc turns buf tsEnd h = .exit (.error e) → 5 ≤ s.len →
    s.outcome dev turns (alloc.memory n) = .error e → Comes P h n (s :: todo)

end

theorem Comes.bind (h₀ : Comes dev alloc turns buf tsEnd lossy P h n todo)
    (hnext : ∀ h n todo, P h n todo → Comes dev alloc turns buf tsEnd lossy Q h n todo) :
    Comes dev alloc turns buf tsEnd lossy Q h n todo := by
  induction h₀ with
  | there hp => exact hnext _ _ _ hp
  | pass hbody hreceived _ ih => exact .pass hbody hreceived ih
  | heard hbody hlen houtcome hreceived _ ih => exact .heard hbody hlen houtcome hreceived ih
  | lost hlossy _ ih => exact .lost hlossy ih
  | stops hbody hlen houtcome => exact .stops hbody hlen houtcome

/-- The count of the skbs that have been asked for does not fall. -/
theorem Comes.count (h₀ : Comes dev alloc turns buf tsEnd lossy P h n todo) :
    Comes dev alloc turns buf tsEnd lossy (fun h' n' todo' => P h' n' todo' ∧ n ≤ n') h n todo := by
  induction h₀ with
  | there hp => exact .there ⟨hp, Nat.le_refl _⟩
  | pass hbody hreceived _ ih => exact .pass hbody hreceived ih
  | heard hbody hlen houtcome hreceived _ ih =>
    refine .heard hbody hlen houtcome hreceived (ih.bind fun _ _ _ hp => .there ⟨hp.1, ?_⟩)
    exact Nat.le_of_succ_le hp.2
  | lost hlossy _ ih => exact .lost hlossy ih
  | stops hbody hlen houtcome => exact .stops hbody hlen houtcome

theorem Comes.losts (hlossy : lossy) (h₀ : Comes dev alloc turns buf tsEnd lossy P h n todo) :
    Comes dev alloc turns buf tsEnd lossy P h n (begun ++ todo) := by
  induction begun with
  | nil => exact h₀
  | cons s begun ih => exact .lost hlossy ih

/-! ### Between two TS cells -/

/-- The decoder when the rest of an SNDU comes next, and then the SNDUs `rs`. It waits for PUSI, or it
    has read the part before the rest; that SNDU is then the first one that is not accounted for. -/
inductive DvbNetPriv.Follows (p : DvbNetPriv) (dev : NetDevice) (alloc : SkbAllocator)
    (cc n : ℕ) : List UInt8 → List Sndu → List Sndu → Prop where
  | waits (rest : List UInt8) (rs : List Sndu) : p.needPusi = true → p.Fresh → p.allocs = n →
    Follows p dev alloc cc n rest rs rs
  | holds {s : Sndu} {k : ℕ} (rs : List Sndu) : p.needPusi = false → p.tscc = cc % 16 →
    p.Has alloc n s k → 0 < k → k < s.bytes.length → 5 ≤ s.len →
    (∀ mac ∈ s.dest, dev.Accepts mac) → Follows p dev alloc cc n (s.bytes.drop k) (s :: rs) rs

/-- The decoder has come to the TS cell at `ts`. -/
structure DvbNetUleHandle.Stands (dev : NetDevice) (alloc : SkbAllocator) (ts cc : ℕ)
    (rest : List UInt8) (rs : List Sndu) (h : DvbNetUleHandle) (n : ℕ) (todo : List Sndu) :
    Prop where
  ts : h.ts = ts
  newTs : h.newTs = true
  follows : h.priv.Follows dev alloc cc n rest todo rs

/-- What is expected of the SNDUs: their destinations are accepted, and if there is one with a length
    below 5, SNDUs may be lost. -/
structure Sndu.Admitted (dev : NetDevice) (lossy : Prop) (s : Sndu) : Prop where
  accepts : ∀ mac ∈ s.dest, dev.Accepts mac
  short : s.len < 5 → lossy

/-! ### In a TS cell -/

/-- The pass comes to the payload `u` of the TS cell, and the decoder is synchronized. -/
structure DvbNetUleHandle.Opened (dev : NetDevice) (alloc : SkbAllocator) (turns : ℕ)
    (buf : ℕ → UInt8) (tsEnd cc : ℕ) (h h₁ : DvbNetUleHandle) (u : List UInt8) : Prop where
  body : uleBody dev alloc turns buf tsEnd h = ulePayload dev alloc turns buf h₁
  ts : h₁.ts = h.ts
  needPusi : h₁.priv.needPusi = false
  tscc : h₁.priv.tscc = (cc + 1) % 16
  received : h₁.priv.received = h.priv.received
  sees : h₁.Sees buf u

theorem nextSndu_received : (h.nextSndu buf).priv.received = h.priv.received := by
  rw [DvbNetUleHandle.nextSndu]
  split
  · rfl
  · dsimp only [DvbNetUleHandle.nextTs]
    split <;> rfl

/-- The SNDU does not end in this TS cell. -/
theorem piece_comes (ho : h.Opened dev alloc turns buf tsEnd cc h₁ u)
    (hp : h₁.priv.Has alloc n s k) (hlen : 5 ≤ s.len) (hgiven : alloc.fails n = false)
    (haccept : ∀ mac ∈ s.dest, dev.Accepts mac) (hu : u = (s.bytes.drop k).take u.length)
    (h2 : 2 ≤ u.length) (hlt : k + u.length < s.bytes.length) :
    Comes dev alloc turns buf tsEnd lossy
      (DvbNetUleHandle.Stands dev alloc (h.ts + tsSz) (cc + 1) (s.bytes.drop (k + u.length)) rs) h n
      (s :: rs) := by
  obtain ⟨h', heq, hpasses, hkeeps, hhas⟩ :=
    @ulePayload_piece dev alloc turns _ _ _ _ _ _ hp hlen hgiven ho.sees hu h2 hlt
  refine .pass (ho.body.trans heq) (hkeeps.received.trans ho.received) (.there ?_)
  exact ⟨hpasses.ts.trans (congrArg (· + tsSz) ho.ts), hpasses.newTs,
    .holds rs (hkeeps.needPusi.trans ho.needPusi) (hkeeps.tscc.trans ho.tscc) hhas (by omega) hlt
      hlen haccept⟩

/-- The SNDU ends in this TS cell. -/
theorem whole_comes (ho : h.Opened dev alloc turns buf tsEnd cc h₁ (s.bytes.drop k ++ w))
    (hp : h₁.priv.Has alloc n s k) (hk : k < s.bytes.length) (hlen : 5 ≤ s.len)
    (hgiven : alloc.fails n = false) (haccept : ∀ mac ∈ s.dest, dev.Accepts mac)
    (hnext : ∀ r g, h₁.Behind g buf r (n + 1) w →
      Comes dev alloc turns buf tsEnd lossy P (g.nextSndu buf) (n + 1) todo) :
    Comes dev alloc turns buf tsEnd lossy P h n (s :: todo) := by
  rcases @ulePayload_whole dev alloc turns _ _ _ _ _ _ hp hk hlen hgiven haccept ho.sees with
    ⟨e, houtcome, heq⟩ | ⟨r, g, houtcome, heq, hbehind⟩
  · exact .stops (ho.body.trans heq) hlen houtcome
  · refine .heard (ho.body.trans heq) hlen houtcome ?_ (hnext r g hbehind)
    rw [nextSndu_received, hbehind.received, ho.received]

/-- The length field is below 5: what else starts in the TS cell is lost as well. -/
theorem short_comes (begun : List Sndu) (ho : h.Opened dev alloc turns buf tsEnd cc h₁ u)
    (hp : h₁.priv.Fresh) (hallocs : h₁.priv.allocs = n) (hlen : s.len < 5) (hu : Spells s 0 u) (h2 : 2 ≤ u.length)
    (hlossy : lossy) :
    Comes dev alloc turns buf tsEnd lossy
      (DvbNetUleHandle.Stands dev alloc (h.ts + tsSz) (cc + 1) rest rs) h n (begun ++ rs) := by
  obtain ⟨h', heq, hpasses, hfresh, hneed, hallocs', hreceived⟩ :=
    @ulePayload_short dev alloc turns _ _ _ _ hp hlen ho.sees hu h2
  refine .pass (ho.body.trans heq) (hreceived.trans ho.received) (.losts hlossy (.there ?_))
  exact ⟨hpasses.ts.trans (congrArg (· + tsSz) ho.ts), hpasses.newTs,
    .waits rest rs hneed hfresh (hallocs'.trans hallocs)⟩

/-- The first bytes of an SNDU. -/
theorem Sndu.take_piece (s : Sndu) (hm : m < s.bytes.length) : (s.bytes.take m).length = m ∧
    s.bytes.take m = (s.bytes.drop 0).take (s.bytes.take m).length := by
  have htake : (s.bytes.take m).length = m := List.length_take_of_le (Nat.le_of_lt hm)
  exact ⟨htake, by rw [htake, List.drop_zero]⟩

/-- Nothing more, or an SNDU that starts. -/
theorem fill_starts (hfill : Fill uleFormat m rs w rest rs') :
    w = List.replicate m 0xFF ∧ rest = [] ∧ rs' = rs ∨
      rs'.length < rs.length ∧ 2 ≤ w.length ∧ ∃ s, Spells s 0 w := by
  cases hfill with
  | pad => exact .inl ⟨rfl, rfl, rfl⟩
  | @whole n rs _ w _ s htail =>
    obtain ⟨begun, rfl⟩ := htail.suffix
    have hlong : s.bytes.length = s.len + 4 := s.bytes_length
    refine .inr ⟨?_, ?_, s, Spells.whole⟩
    · rw [List.length_cons, List.length_append]
      omega
    · change 2 ≤ (s.bytes ++ w).length
      rw [List.length_append]
      omega
  | cut s rs hleast hlt =>
    obtain ⟨htake, hpiece⟩ := s.take_piece hlt
    exact .inr ⟨Nat.lt_succ_self _, Nat.le_trans hleast (Nat.le_of_eq htake.symm), s,
      Spells.piece hpiece⟩

/-- Behind an SNDU there is padding. -/
theorem nextSndu_pad (hp : g.priv.Fresh) (hallocs : g.priv.allocs = n)
    (hsees : g.Sees buf (List.replicate m 0xFF)) :
    (g.nextSndu buf).Stands dev alloc (g.ts + tsSz) cc rest rs n rs := by
  have hlen := hsees.length
  rw [List.length_replicate] at hlen
  have hpad : ¬(2 ≤ g.tsRemain ∧ ¬(g.fromByte buf 0 = 0xFF ∧ g.fromByte buf 1 = 0xFF)) := by
    rintro ⟨h2, hne⟩
    have hbyte (i : ℕ) (hi : i < m) : g.fromByte buf i = 0xFF := by
      rw [hsees.fromByte (by rwa [List.length_replicate]), List.getD_replicate _ hi]
    exact hne ⟨hbyte 0 (by omega), hbyte 1 (by omega)⟩
  rw [DvbNetUleHandle.nextSndu, if_neg hpad]
  dsimp only [DvbNetUleHandle.nextTs]
  rw [hp.skb, if_pos (by rfl)]
  exact ⟨rfl, rfl, .waits rest rs rfl ⟨rfl, rfl, rfl, hp.remain, hp.bridged⟩ hallocs⟩

/-- Behind an SNDU the next one starts. -/
theorem nextSndu_start (hp : g.priv.Fresh) (hsees : g.Sees buf w) (hw : Spells s 0 w)
    (h2 : 2 ≤ w.length) (hend : g.ts < tsEnd) (hneed : g.priv.needPusi = false)
    (htscc : g.priv.tscc = (cc + 1) % 16) :
    (g.nextSndu buf).Opened dev alloc turns buf tsEnd cc (g.nextSndu buf) w ∧
      (g.nextSndu buf).priv.Fresh ∧ (g.nextSndu buf).priv.allocs = g.priv.allocs ∧
      (g.nextSndu buf).ts = g.ts := by
  have hlong := s.bytes_length
  have hstart : 2 ≤ g.tsRemain ∧ ¬(g.fromByte buf 0 = 0xFF ∧ g.fromByte buf 1 = 0xFF) := by
    refine ⟨by rwa [hsees.length], ?_⟩
    rw [hsees.fromByte (by omega), hsees.fromByte (by omega), hw 0 (by omega) (by omega),
      hw 1 (by omega) (by omega)]
    exact s.bytes_start
  rw [DvbNetUleHandle.nextSndu, if_pos hstart]
  refine ⟨⟨?_, rfl, hneed, htscc, rfl, hsees⟩, ⟨rfl, rfl, rfl, hp.remain, hp.bridged⟩, rfl, rfl⟩
  rw [uleBody]
  dsimp only
  rw [if_neg (Nat.not_le_of_lt hend), if_neg Bool.false_ne_true]
  dsimp only
  rw [hneed, if_neg Bool.false_ne_true]
  dsimp only
  rw [if_neg Bool.false_ne_true]

/-- What comes behind an SNDU, if SNDUs that start are dealt with. -/
theorem next_comes_of (hfill : Fill uleFormat m rs w rest rs') (hp : g.priv.Fresh)
    (hallocs : g.priv.allocs = n) (hsees : g.Sees buf w) (hend : g.ts < tsEnd)
    (hneed : g.priv.needPusi = false) (htscc : g.priv.tscc = (cc + 1) % 16)
    (hstarts : rs'.length < rs.length → ∀ h₁, h₁.Opened dev alloc turns buf tsEnd cc h₁ w →
      h₁.priv.Fresh → h₁.priv.allocs = n → h₁.ts = g.ts →
      Comes dev alloc turns buf tsEnd lossy
        (DvbNetUleHandle.Stands dev alloc (g.ts + tsSz) (cc + 1) rest rs') h₁ n rs) :
    Comes dev alloc turns buf tsEnd lossy
      (DvbNetUleHandle.Stands dev alloc (g.ts + tsSz) (cc + 1) rest rs') (g.nextSndu buf) n rs := by
  rcases fill_starts hfill with ⟨rfl, rfl, rfl⟩ | ⟨hlt, h2, s, hw⟩
  · exact .there (nextSndu_pad hp hallocs hsees)
  · obtain ⟨ho, hfresh, hallocs', hts⟩ :=
      @nextSndu_start dev alloc turns _ _ _ _ _ _ hp hsees hw h2 hend hneed htscc
    exact hstarts hlt _ ho hfresh (hallocs'.trans hallocs) hts

/-- An SNDU starts at the beginning of what is seen of the TS cell. -/
theorem starts_comes (hfill : Fill uleFormat m rs w rest rs') (hlt : rs'.length < rs.length)
    (hadmitted : ∀ s ∈ rs, s.Admitted dev lossy) (hgiven : ∀ k, n ≤ k → alloc.fails k = false)
    (ho : h.Opened dev alloc turns buf tsEnd cc h₁ w) (hp : h₁.priv.Fresh)
    (hallocs : h₁.priv.allocs = n) (hend : h.ts < tsEnd) :
    Comes dev alloc turns buf tsEnd lossy
      (DvbNetUleHandle.Stands dev alloc (h.ts + tsSz) (cc + 1) rest rs') h n rs := by
  induction hfill generalizing h h₁ n with
  | pad => exact absurd hlt (Nat.lt_irrefl _)
  | @whole m rs rs' w rest s htail ih =>
    obtain ⟨⟨haccept, hshort⟩, hadmitted⟩ := List.forall_mem_cons.mp hadmitted
    by_cases hlen : s.len < 5
    · obtain ⟨begun, rfl⟩ := htail.suffix
      have hlong : s.bytes.length = s.len + 4 := s.bytes_length
      have h2 : 2 ≤ (s.bytes ++ w).length := by
        rw [List.length_append]
        omega
      exact short_comes (s :: begun) ho hp hallocs hlen Spells.whole h2 (hshort hlen)
    · refine whole_comes (k := 0) ho (.nothing hp hallocs) ?_ (Nat.le_of_not_lt hlen)
        (hgiven n (Nat.le_refl n)) haccept fun r g hbehind => ?_
      · rw [s.bytes_length]
        omega
      have hts : g.ts = h.ts := hbehind.ts.trans ho.ts
      rw [← hts]
      refine next_comes_of htail hbehind.fresh hbehind.allocs hbehind.sees (hts ▸ hend)
        (hbehind.needPusi.trans ho.needPusi) (hbehind.tscc.trans ho.tscc)
        fun hlt h₁ ho₁ hp₁ hallocs₁ hts₁ => ?_
      rw [← hts₁]
      exact ih hlt hadmitted (fun k hk => hgiven k (Nat.le_of_succ_le hk)) ho₁ hp₁ hallocs₁
        (by rwa [hts₁, hts])
  | @cut m s rs hleast hcut =>
    obtain ⟨⟨haccept, hshort⟩, -⟩ := List.forall_mem_cons.mp hadmitted
    change h.Opened dev alloc turns buf tsEnd cc h₁ (s.bytes.take m) at ho
    obtain ⟨htake, hpiece⟩ := s.take_piece hcut
    have h2 : 2 ≤ (s.bytes.take m).length := Nat.le_trans hleast (Nat.le_of_eq htake.symm)
    by_cases hlen : s.len < 5
    · exact short_comes [s] ho hp hallocs hlen (.piece hpiece) h2 (hshort hlen)
    · have hlt : 0 + (s.bytes.take m).length < s.bytes.length := by rwa [htake, Nat.zero_add]
      have hrest : (uleFormat.spell s).drop m = s.bytes.drop (0 + (s.bytes.take m).length) := by
        rw [htake, Nat.zero_add]
        rfl
      rw [hrest]
      exact piece_comes ho (.nothing hp hallocs) (Nat.le_of_not_lt hlen)
        (hgiven n (Nat.le_refl n)) haccept hpiece h2 hlt

/-- What comes behind an SNDU. -/
theorem next_comes (hfill : Fill uleFormat m rs w rest rs')
    (hadmitted : ∀ s ∈ rs, s.Admitted dev lossy) (hgiven : ∀ k, n ≤ k → alloc.fails k = false)
    (hp : g.priv.Fresh) (hallocs : g.priv.allocs = n) (hsees : g.Sees buf w) (hend : g.ts < tsEnd)
    (hneed : g.priv.needPusi = false) (htscc : g.priv.tscc = (cc + 1) % 16) :
    Comes dev alloc turns buf tsEnd lossy
      (DvbNetUleHandle.Stands dev alloc (g.ts + tsSz) (cc + 1) rest rs') (g.nextSndu buf) n rs := by
  refine next_comes_of hfill hp hallocs hsees hend hneed htscc fun hlt h₁ ho hp₁ hallocs₁ hts => ?_
  rw [← hts]
  exact starts_comes hfill hlt hadmitted hgiven ho hp₁ hallocs₁ (by rwa [hts])

/-! ### From TS cell to TS cell -/

theorem newTsCell_carries (hcarries : Carries cc c fun i => buf (h.ts + i)) :
    h.newTsCell buf = (false, { h with tsRemain := 184, fromWhere := h.ts + 4 }) := by
  rw [DvbNetUleHandle.newTsCell, if_neg]
  rintro (hsync | htei | hscrambled)
  · exact hsync hcarries.sync
  · exact htei hcarries.tei
  · exact hscrambled hcarries.scrambling

/-- What follows the pointer field and the rest of an SNDU. -/
theorem carries_pointer (hcarries : Carries cc c fun i => buf (h.ts + i))
    (hsymbols : c.symbols = UInt8.ofNat rest.length :: (rest ++ w))
    (hsize : rest.length + w.length + 1 = 184) :
    (buf (h.ts + 4)).toNat = rest.length ∧ block buf (h.ts + 5) 183 = rest ++ w ∧
      block buf (h.ts + 5 + rest.length) (183 - rest.length) = w := by
  have hpayload : block buf (h.ts + 4) 184 = UInt8.ofNat rest.length :: (rest ++ w) := by
    rw [← hsymbols, ← hcarries.payload, block_shift]
  have hbehind : block buf (h.ts + 5) 183 = rest ++ w :=
    block_right (u := [UInt8.ofNat rest.length]) hpayload
  have hpointer : buf (h.ts + 4) = UInt8.ofNat rest.length := by
    have hfirst := getD_block (m := buf) (p := h.ts + 4) (show 0 < 184 by decide) 0
    rw [hpayload] at hfirst
    exact hfirst.symm
  refine ⟨?_, hbehind, block_right hbehind⟩
  rw [hpointer, UInt8.toNat_ofNat']
  omega

section
variable (hcounter : (buf (h.ts + 3) &&& 0x0F).toNat = h.priv.tscc)
include hcounter

theorem newTsCheck_inside (hpusi : buf (h.ts + 1) &&& tsPusi = 0) :
    h.newTsCheck buf =
      (false, { h with priv := { h.priv with tscc := (h.priv.tscc + 1) % 16 } }) := by
  simp only [DvbNetUleHandle.newTsCheck, DvbNetUleHandle.tsByte, hcounter, hpusi, ne_eq,
    not_true_eq_false, if_false]

/-- The pointer field is right. -/
theorem newTsCheck_synced (hpusi : buf (h.ts + 1) &&& tsPusi ≠ 0) (hneed : h.priv.needPusi = false)
    (hpointer : (buf h.fromWhere).toNat = h.priv.uleSnduRemain) (hremain : h.tsRemain = 184)
    (hlt : h.priv.uleSnduRemain < 183) :
    h.newTsCheck buf = (false, { h with
      priv := { h.priv with tscc := (h.priv.tscc + 1) % 16 }
      fromWhere := h.fromWhere + 1
      tsRemain := 183 }) := by
  have hright : (h.priv.uleSnduRemain : ℤ) < h.tsRemain - 1 := by omega
  have hshort : ¬h.priv.uleSnduRemain > 183 := by omega
  simp only [DvbNetUleHandle.newTsCheck, DvbNetUleHandle.tsByte, DvbNetUleHandle.fromByte,
    hcounter, hneed, hpointer, Nat.add_zero, hright]
  simp [DvbNetUleHandle.skip, hpusi, hremain, hshort]

/-- An SNDU has been found. -/
theorem newTsCheck_found (hpusi : buf (h.ts + 1) &&& tsPusi ≠ 0) (hneed : h.priv.needPusi = true)
    (hlt : h.priv.uleSnduRemain < 183) :
    h.newTsCheck buf = (false, { h with
      priv := { h.priv with tscc := (h.priv.tscc + 1) % 16, needPusi := false } }) := by
  have hshort : ¬h.priv.uleSnduRemain > 183 := by omega
  simp only [DvbNetUleHandle.newTsCheck, DvbNetUleHandle.tsByte, hcounter, hneed]
  simp [hpusi, hshort]

end

/-- The payload of the TS cell is in sight. -/
def DvbNetUleHandle.inCell (h : DvbNetUleHandle) : DvbNetUleHandle :=
  { h with tsRemain := 184, fromWhere := h.ts + 4 }

theorem DvbNetPriv.Has.sync (hp : p.Has alloc n s k) (need : Bool) (t : ℕ) :
    { p with needPusi := need, tscc := t }.Has alloc n s k := by
  cases hp with
  | nothing hp hallocs => exact .nothing ⟨hp.skb, hp.len, hp.type1, hp.remain, hp.bridged⟩ hallocs
  | length hp htype1 hremain hallocs =>
    exact .length ⟨hp.skb, hp.len, hp.dbit, hp.bridged⟩ htype1 hremain hallocs
  | half hp htype1 htype hremain hallocs =>
    exact .half ⟨hp.skb, hp.len, hp.dbit, hp.bridged⟩ htype1 htype hremain hallocs
  | body hj hp =>
    obtain ⟨⟨hlen, htype, hdbit, hbridged⟩, htype1, hskb, hremain, hallocs⟩ := hp
    exact .body hj ⟨⟨hlen, htype, hdbit, hbridged⟩, htype1, hskb, hremain, hallocs⟩

section
variable (hcarries : Carries cc c fun i => buf (h.ts + i)) (hend : h.ts < tsEnd)
  (hnew : h.newTs = true)
include hcarries hend hnew

/-- A decoder that waits for PUSI passes over a TS cell in which no SNDU starts. -/
theorem waits_pass (hneed : h.priv.needPusi = true) (hstarts : c.starts = false) :
    uleBody dev alloc turns buf tsEnd h = .again h.inCell.nextTs := by
  have hpusi : ¬h.inCell.tsByte buf 1 &&& tsPusi ≠ 0 := fun hne =>
    Bool.false_ne_true (hstarts.symm.trans (hcarries.pusi.mp hne))
  have hsync : h.inCell.tsPusiSync buf = (true, h.inCell.nextTs) := by
    rw [DvbNetUleHandle.tsPusiSync, if_neg hpusi]
  have hcell : h.newTsCell buf = (false, h.inCell) := newTsCell_carries hcarries
  have hneed₀ : h.inCell.priv.needPusi = true := hneed
  rw [uleBody, if_neg (Nat.not_le_of_lt hend), hnew, if_pos rfl, hcell]
  dsimp only
  rw [hneed₀, if_pos rfl, hsync]

/-- A decoder that waits comes to the payload when it finds PUSI and the check succeeds. -/
theorem waits_body (hneed : h.priv.needPusi = true) (hsync : h.inCell.tsPusiSync buf = (false, g))
    (hnew' : g.newTs = true) (hcheck : g.newTsCheck buf = (false, h₁)) :
    uleBody dev alloc turns buf tsEnd h = ulePayload dev alloc turns buf h₁ := by
  have hcell : h.newTsCell buf = (false, h.inCell) := newTsCell_carries hcarries
  have hneed₀ : h.inCell.priv.needPusi = true := hneed
  rw [uleBody, if_neg (Nat.not_le_of_lt hend), hnew, if_pos rfl, hcell]
  dsimp only
  rw [hneed₀, if_pos rfl, hsync]
  dsimp only
  rw [hnew', if_pos rfl, hcheck]

/-- A decoder that waits for PUSI finds the SNDU that starts in the TS cell. -/
theorem waits_open (hneed : h.priv.needPusi = true) (hp : h.priv.Fresh) (hstarts : c.starts = true)
    (hsymbols : c.symbols = UInt8.ofNat rest.length :: (rest ++ w))
    (hsize : rest.length + w.length + 1 = 184) :
    ∃ h₁, h.Opened dev alloc turns buf tsEnd cc h₁ w ∧ h₁.priv.Fresh ∧
      h₁.priv.allocs = h.priv.allocs := by
  obtain ⟨hpointer, -, hw⟩ := carries_pointer hcarries hsymbols hsize
  have hpusi : h.inCell.tsByte buf 1 &&& tsPusi ≠ 0 := hcarries.pusi.mpr hstarts
  let h₀ : DvbNetUleHandle := { h with
    priv := { h.priv with tscc := cc % 16 }
    fromWhere := h.ts + 4 + (1 + rest.length)
    tsRemain := 184 - (1 + rest.length) }
  have hsync : h.inCell.tsPusiSync buf = (false, h₀) := by
    have hcounter : (h.inCell.tsByte buf 3 &&& 0x0F).toNat = cc % 16 := hcarries.counter
    have hbyte : (buf (h.ts + 4)).toNat = rest.length := hpointer
    have hlow : ¬rest.length > 184 := by omega
    rw [DvbNetUleHandle.tsPusiSync, if_pos hpusi, hcounter]
    simp only [DvbNetUleHandle.tsByte, DvbNetUleHandle.inCell, hbyte, hlow, if_false]
    rw [DvbNetUleHandle.skip_eq ?fits (Nat.le_refl 184)]
    case fits => exact (show 1 + rest.length ≤ 184 by omega)
  have hcheck := newTsCheck_found (h := h₀) hcarries.counter hpusi hneed
    (show h.priv.uleSnduRemain < 183 by rw [hp.remain]; decide)
  refine ⟨_, ⟨waits_body hcarries hend hnew hneed hsync hnew hcheck, rfl, rfl, ?_, rfl, ?_⟩,
    ⟨hp.skb, hp.len, hp.type1, hp.remain, hp.bridged⟩, rfl⟩
  · exact Nat.mod_add_mod cc 16 1
  · refine ⟨?_, Nat.sub_le _ _⟩
    change block buf (h.ts + 4 + (1 + rest.length)) (184 - (1 + rest.length)) = w
    rw [← hw]
    congr 1 <;> omega

/-- A synchronized decoder comes to the payload when the check succeeds. -/
theorem holds_body (hneed : h.priv.needPusi = false)
    (hcheck : h.inCell.newTsCheck buf = (false, h₁)) :
    uleBody dev alloc turns buf tsEnd h = ulePayload dev alloc turns buf h₁ := by
  have hcell : h.newTsCell buf = (false, h.inCell) := newTsCell_carries hcarries
  have hneed₀ : h.inCell.priv.needPusi = false := hneed
  have hnew₀ : h.inCell.newTs = true := hnew
  rw [uleBody, if_neg (Nat.not_le_of_lt hend), hnew, if_pos rfl, hcell]
  dsimp only
  rw [hneed₀, if_neg Bool.false_ne_true]
  dsimp only
  rw [hnew₀, if_pos rfl, hcheck]

/-- The SNDU goes on in a TS cell in which no SNDU starts. -/
theorem holds_open (hneed : h.priv.needPusi = false) (htscc : h.priv.tscc = cc % 16)
    (hp : h.priv.Has alloc n s k) (hstarts : c.starts = false) :
    ∃ h₁, h.Opened dev alloc turns buf tsEnd cc h₁ c.symbols ∧ h₁.priv.Has alloc n s k := by
  have hpusi : buf (h.ts + 1) &&& tsPusi = 0 := by
    by_contra hne
    exact Bool.false_ne_true (hstarts.symm.trans (hcarries.pusi.mp hne))
  have hcheck := newTsCheck_inside (h := h.inCell) (hcarries.counter.trans htscc.symm) hpusi
  have hpayload : block buf (h.ts + 4) 184 = c.symbols := by
    rw [← hcarries.payload, block_shift]
  refine ⟨_, ⟨holds_body hcarries hend hnew hneed hcheck, rfl, hneed, ?_, rfl, hpayload,
    Nat.le_refl 184⟩, hp.sync h.priv.needPusi _⟩
  change (h.priv.tscc + 1) % 16 = _
  rw [htscc, Nat.mod_add_mod]

/-- The rest of the SNDU is in front of the one that starts. -/
theorem holds_open_start (hneed : h.priv.needPusi = false) (htscc : h.priv.tscc = cc % 16)
    (hp : h.priv.Has alloc n s k) (hk : 0 < k) (hstarts : c.starts = true)
    (hsymbols : c.symbols = UInt8.ofNat (s.bytes.drop k).length :: (s.bytes.drop k ++ w))
    (hsize : (s.bytes.drop k).length + w.length + 1 = 184) (h2 : 2 ≤ w.length) :
    ∃ h₁, h.Opened dev alloc turns buf tsEnd cc h₁ (s.bytes.drop k ++ w) ∧
      h₁.priv.Has alloc n s k := by
  obtain ⟨hpointer, hbehind, -⟩ := carries_pointer hcarries hsymbols hsize
  have hpusi : buf (h.ts + 1) &&& tsPusi ≠ 0 := hcarries.pusi.mpr hstarts
  have hremain := hp.remain hk
  have hcheck := newTsCheck_synced (h := h.inCell) (hcarries.counter.trans htscc.symm) hpusi hneed
    (hpointer.trans hremain.symm) rfl (show h.priv.uleSnduRemain < 183 by omega)
  refine ⟨_, ⟨holds_body hcarries hend hnew hneed hcheck, rfl, hneed, ?_, rfl, hbehind,
    (by decide : 183 ≤ 184)⟩, hp.sync h.priv.needPusi _⟩
  change (h.priv.tscc + 1) % 16 = _
  rw [htscc, Nat.mod_add_mod]

end

theorem Fill.suffix_mem (hfill : Fill uleFormat m rs w rest rs')
    (hadmitted : ∀ s ∈ rs, s.Admitted dev lossy) : ∀ s ∈ rs', s.Admitted dev lossy := by
  obtain ⟨begun, rfl⟩ := hfill.suffix
  exact fun s hs => hadmitted s (List.mem_append_right begun hs)

/-- A TS cell: what is left of the SNDUs is in the cells after it. -/
theorem cell_comes (hpacked : Packed uleFormat rest rs (c :: cells))
    (hadmitted : ∀ s ∈ rs, s.Admitted dev lossy) (hgiven : ∀ k, n ≤ k → alloc.fails k = false)
    (hcarries : Carries cc c fun i => buf (h.ts + i)) (hend : h.ts < tsEnd) (hnew : h.newTs = true)
    (hfollows : h.priv.Follows dev alloc cc n rest todo rs) :
    ∃ rest' rs', Packed uleFormat rest' rs' cells ∧ (∀ s ∈ rs', s.Admitted dev lossy) ∧
      Comes dev alloc turns buf tsEnd lossy
        (DvbNetUleHandle.Stands dev alloc (h.ts + tsSz) (cc + 1) rest' rs') h n todo := by
  cases hfollows with
  | waits _ _ hneed hp hallocs =>
    have hpass (rest' : List UInt8) (hstarts : c.starts = false) :
        Comes dev alloc turns buf tsEnd lossy
          (DvbNetUleHandle.Stands dev alloc (h.ts + tsSz) (cc + 1) rest' rs) h n rs :=
      .pass (waits_pass hcarries hend hnew hneed hstarts) rfl
        (.there ⟨rfl, hnew, .waits rest' rs hneed hp hallocs⟩)
    cases hpacked with
    | inside hpiece hne hrest => exact ⟨_, rs, hrest, hadmitted, hpass _ rfl⟩
    | ends hle hrest => exact ⟨[], rs, hrest, hadmitted, hpass [] rfl⟩
    | @starts m _ rest' w _ rs' _ hsize hfill hlt hrest =>
      have hw : rest.length + w.length + 1 = 184 := hfill.length.symm ▸ hsize
      obtain ⟨h₁, ho, hp₁, hallocs₁⟩ := waits_open hcarries hend hnew hneed hp rfl rfl hw
      exact ⟨rest', rs', hrest, Fill.suffix_mem hfill hadmitted, starts_comes hfill hlt hadmitted
        hgiven ho hp₁ (hallocs₁.trans hallocs) hend⟩
  | @holds s k _ hneed htscc hp hk hlt hlen haccept =>
    have hnext {m : ℕ} {w rest' : List UInt8} {rs' : List Sndu} {h₁ : DvbNetUleHandle}
        (hfill : Fill uleFormat m rs w rest' rs')
        (ho : h.Opened dev alloc turns buf tsEnd cc h₁ (s.bytes.drop k ++ w))
        (hp₁ : h₁.priv.Has alloc n s k) : Comes dev alloc turns buf tsEnd lossy
          (DvbNetUleHandle.Stands dev alloc (h.ts + tsSz) (cc + 1) rest' rs') h n (s :: rs) := by
      refine whole_comes ho hp₁ hlt hlen (hgiven n (Nat.le_refl n)) haccept fun r g hbehind => ?_
      have hts : g.ts = h.ts := hbehind.ts.trans ho.ts
      rw [← hts]
      exact next_comes hfill hadmitted (fun k hk => hgiven k (Nat.le_of_succ_le hk))
        hbehind.fresh hbehind.allocs hbehind.sees (hts ▸ hend) (hbehind.needPusi.trans ho.needPusi) (hbehind.tscc.trans ho.tscc)
    generalize hrest : s.bytes.drop k = rest at hpacked
    cases hpacked with
    | @inside piece rest' _ _ hpiece hne hpacked' =>
      obtain ⟨h₁, ho, hp₁⟩ := holds_open hcarries hend hnew hneed htscc hp rfl
      have hmore : s.bytes.drop (k + piece.length) = rest' := by
        rw [← List.drop_drop, hrest, List.drop_left]
      have hlt' : k + piece.length < s.bytes.length :=
        Nat.lt_of_not_le fun hle => hne (hmore.symm.trans (List.drop_eq_nil_of_le hle))
      have hsize : piece.length = 184 := hpiece
      refine ⟨rest', rs, hpacked', hadmitted, ?_⟩
      rw [← hmore]
      exact piece_comes ho hp₁ hlen (hgiven n (Nat.le_refl n)) haccept
        (by rw [hrest, List.take_left]) (by omega) hlt'
    | ends hle hpacked' =>
      obtain ⟨h₁, ho, hp₁⟩ := holds_open hcarries hend hnew hneed htscc hp rfl
      refine ⟨[], rs, hpacked', hadmitted, hnext (Fill.pad (184 - rest.length) rs) ?_ hp₁⟩
      rw [hrest]
      exact ho
    | @starts m _ rest' w _ rs' _ hsize hfill hstarts hpacked' =>
      have hw : rest.length + w.length + 1 = 184 := hfill.length.symm ▸ hsize
      have h2 : 2 ≤ w.length := by
        rcases fill_starts hfill with ⟨-, -, rfl⟩ | ⟨-, h2, -⟩
        · exact absurd hstarts (Nat.lt_irrefl _)
        · exact h2
      subst hrest
      obtain ⟨h₁, ho, hp₁⟩ := holds_open_start hcarries hend hnew hneed htscc hp hk rfl rfl hw h2
      exact ⟨rest', rs', hpacked', Fill.suffix_mem hfill hadmitted, hnext hfill ho hp₁⟩

theorem Holds.le {ts : ℕ} (hholds : Holds buf tsEnd ts cc cells) : ts ≤ tsEnd := by
  induction hholds with
  | nil => exact Nat.le_refl _
  | cons _ _ ih => exact Nat.le_trans (Nat.le_add_right _ _) ih

/-- The decoder has come to the TS cell at `ts`, the first one of `cells`. -/
def DvbNetUleHandle.At (dev : NetDevice) (alloc : SkbAllocator) (lossy : Prop) (ts cc : ℕ)
    (cells : List (Cell UInt8)) (h : DvbNetUleHandle) (n : ℕ) (todo : List Sndu) : Prop :=
  ∃ rest rs, Packed uleFormat rest rs cells ∧ (∀ s ∈ rs, s.Admitted dev lossy) ∧
    h.Stands dev alloc ts cc rest rs n todo

/-- The TS cells of a call. -/
theorem call_comes {ts : ℕ} (hholds : Holds buf tsEnd ts cc cells)
    (hgiven : ∀ k, n ≤ k → alloc.fails k = false)
    (hat : h.At dev alloc lossy ts cc (cells ++ cells') n todo) :
    Comes dev alloc turns buf tsEnd lossy
      (DvbNetUleHandle.At dev alloc lossy tsEnd (cc + cells.length) cells') h n todo := by
  induction hholds generalizing h n todo with
  | nil cc => exact .there hat
  | @cons ts cc c cells hcarries hholds ih =>
    obtain ⟨rest, rs, hpacked, hadmitted, rfl, hnew, hfollows⟩ := hat
    have hend : h.ts < tsEnd := Nat.lt_of_lt_of_le (Nat.lt_add_of_pos_right (by decide)) hholds.le
    obtain ⟨rest', rs', hpacked', hadmitted', hcomes⟩ :=
      @cell_comes dev alloc turns buf tsEnd lossy _ _ _ _ _ _ _ _ hpacked hadmitted hgiven hcarries
        hend hnew hfollows
    have hcount : cc + (c :: cells).length = cc + 1 + cells.length := by
      rw [List.length_cons]
      omega
    rw [hcount]
    exact hcomes.count.bind fun h' n' todo' ⟨hstands, hn⟩ =>
      ih (fun k hk => hgiven k (Nat.le_trans hn hk)) ⟨rest', rs', hpacked', hadmitted', hstands⟩

end Dvb.Ule

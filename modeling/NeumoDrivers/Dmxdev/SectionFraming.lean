import NeumoDrivers.Dmxdev.SectionRead

/-! Whether a read of sections keeps to them (`dvb_dmxdev_read_sec`).

    `Synced` relates `todo` and `secheader` to the section that the bytes in the buffer belong to.
    Every turn of a read keeps it as long as no overflow is found in the body of a section. When one is
    found there the buffer is flushed and `todo` stays, where in the header it is set to 0. -/

namespace Dmx
open Framing
open Demux (IsSection sectionLength)

variable {dfil : Dfil} {reading : Reading} {s : ReadState} {rest got p tail : List UInt8}
variable {waiting others : List (List UInt8)} {todo : ℤ} {secheader : ℕ → UInt8} {n : ℕ}

/-! ### Headers -/

theorem section_ne_nil {section_ : List UInt8} (h : IsSection section_) : section_ ≠ [] := by
  rintro rfl
  exact absurd h.1 (by decide)

theorem bodyLength_eq (secheader : ℕ → UInt8) :
    Dfil.bodyLength secheader = (secheader 1 &&& 0x0f).toNat <<< 8 + (secheader 2).toNat := by
  have hlow : (secheader 2).toNat < 2 ^ 8 := (secheader 2).toNat_lt
  have hhigh : (secheader 1 &&& 0x0f).toNat = (secheader 1).toNat % 2 ^ 4 := by
    rw [UInt8.toNat_and]
    exact Nat.and_two_pow_sub_one_eq_mod _ 4
  have hmask : ∀ n : ℕ, n &&& 0xfff = n % 2 ^ 12 := fun n => Nat.and_two_pow_sub_one_eq_mod n 12
  rw [Dfil.bodyLength, ← Nat.shiftLeft_add_eq_or_of_lt hlow, hmask, hhigh, Nat.shiftLeft_eq,
    Nat.shiftLeft_eq]
  omega

/-- The three bytes of the header say how much follows. -/
theorem bodyLength_of_header (hsection : IsSection (got ++ tail)) (hgot : got.length = 3)
    (hheader : ∀ i < 3, secheader i = got.getD i 0) : Dfil.bodyLength secheader = tail.length := by
  obtain ⟨-, -, hlength⟩ := hsection
  have hbyte : ∀ i < 3, (got ++ tail).getD i 0 = secheader i := by
    intro i hi
    rw [hheader i hi, List.getD_append _ _ _ _ (by omega)]
  rw [sectionLength, hbyte 1 (by decide), hbyte 2 (by decide), List.length_append, hgot] at hlength
  rw [bodyLength_eq]
  omega

theorem storeHeader_got (hheader : ∀ i < got.length, secheader i = got.getD i 0) :
    ∀ i < (got ++ p).length, Dfil.storeHeader secheader got.length p i = (got ++ p).getD i 0 := by
  intro i hi
  rw [List.length_append] at hi
  rw [Dfil.storeHeader]
  by_cases hold : i < got.length
  · rw [if_neg (by omega), hheader i hold, List.getD_append _ _ _ _ hold]
  · rw [if_pos (by omega), List.getD_append_right _ _ _ _ (by omega)]

/-! ### In step with a section -/

/-- `todo` and `secheader` fit what is left of the section that is being read. -/
inductive Aligned (secheader : ℕ → UInt8) : List UInt8 → ℤ → Prop where
  | boundary : Aligned secheader [] 0
  | header (got rest : List UInt8) : IsSection (got ++ rest) → got ≠ [] → got.length < 3 →
    (∀ i < got.length, secheader i = got.getD i 0) → Aligned secheader rest (-(got.length : ℤ))
  | body (rest : List UInt8) : rest ≠ [] → Aligned secheader rest rest.length

/-- The buffer holds the rest of a section and whole sections; when the filter has been stopped it
    holds nothing. -/
structure Synced (dfil : Dfil) (rest : List UInt8) (waiting : List (List UInt8)) : Prop where
  held : dfil.held = rest ++ waiting.flatten
  sections : ∀ section_ ∈ waiting, IsSection section_
  aligned : .go ≤ dfil.state → Aligned dfil.secheader rest dfil.todo
  idle : dfil.state < .go → rest = [] ∧ waiting = []
  todo_gt : -3 < dfil.todo

/-- A read that has not taken anything in its present call of `dvb_dmxdev_buffer_read`. -/
structure Reading.Ok (reading : Reading) (dfil : Dfil) : Prop where
  loop : reading.todo = reading.want
  inHeader : reading.header = true → dfil.todo ≤ 0 ∧ reading.done = 0 ∧ reading.buf = [] ∧
    reading.want = min (3 + dfil.todo).toNat reading.count
  inBody : reading.header = false → 0 ≤ dfil.todo ∧ reading.want ≤ dfil.todo.toNat ∧
    reading.buf.length = reading.done
  entered : reading.entered = true → 0 < reading.want
  idle : dfil.state < .go → reading.buf = []

/-- What holds at any time. -/
structure ReadState.Ok (s : ReadState) : Prop where
  timer : s.dfil.timer = true → s.dfil.state = .go
  reading : ∀ reading ∈ s.reading, reading.Ok s.dfil
  framed : ∃ rest waiting rest' waiting', Framed s.log rest waiting ∧
    Takes rest waiting (s.reading.elim [] Reading.buf) rest' waiting' ∧
    Synced s.dfil rest' waiting'

theorem Aligned.boundary_of_nil (h : Aligned secheader [] todo) : todo = 0 := by
  generalize hrest : ([] : List UInt8) = rest at h
  cases h with
  | boundary => rfl
  | header got rest hsection _ hshort _ =>
    subst hrest
    rw [List.append_nil] at hsection
    have := hsection.1
    omega
  | body rest hne => exact absurd hrest.symm hne

theorem Aligned.length_of_pos (h : Aligned secheader rest todo) (hpos : 0 < todo) :
    (rest.length : ℤ) = todo := by
  cases h with
  | boundary => omega
  | header got rest _ _ _ _ => omega
  | body rest _ => rfl

/-- In the header there is a section of which the first bytes have been read, or which comes next. -/
theorem Synced.inHeader (h : Synced dfil rest waiting) (hgo : .go ≤ dfil.state)
    (htodo : dfil.todo ≤ 0) (hsome : dfil.held ≠ []) :
    ∃ got rec others, IsSection (got ++ rec) ∧ got.length < 3 ∧ dfil.todo = -(got.length : ℤ) ∧
      (∀ i < got.length, dfil.secheader i = got.getD i 0) ∧ dfil.held = rec ++ others.flatten ∧
      (∀ section_ ∈ others, IsSection section_) ∧
      ∀ p tail, p ≠ [] → rec = p ++ tail → Takes rest waiting p tail others := by
  have haligned := h.aligned hgo
  have hheld := h.held
  have hsections := h.sections
  generalize dfil.todo = todo at htodo haligned
  cases haligned with
  | boundary =>
    cases waiting with
    | nil => exact absurd hheld hsome
    | cons section_ others =>
      refine ⟨[], section_, others, hsections _ List.mem_cons_self, by decide, rfl, nofun, ?_,
        fun s hs => hsections s (List.mem_cons_of_mem _ hs), ?_⟩
      · rw [hheld, List.nil_append, List.flatten_cons]
      · rintro p tail hp rfl
        exact .next p tail others hp
  | header got rest hsection hgot hshort hheader =>
    refine ⟨got, rest, waiting, hsection, hshort, rfl, hheader, hheld, hsections, ?_⟩
    rintro p tail hp rfl
    exact .more p tail waiting hp
  | body rest hne =>
    have := List.length_pos_of_ne_nil hne
    omega

theorem Aligned.of_length (h : (rest.length : ℤ) = todo) : Aligned secheader rest todo := by
  subst h
  cases rest with
  | nil => exact .boundary
  | cons b rest => exact .body _ (List.cons_ne_nil b rest)

theorem Synced.go_of_held (h : Synced dfil rest waiting) (hsome : dfil.held ≠ []) :
    .go ≤ dfil.state := by
  refine NeumoDmxdevState.not_lt.mp fun hidle => hsome ?_
  obtain ⟨rfl, rfl⟩ := h.idle hidle
  exact h.held

theorem Synced.nothing (h : Synced dfil rest waiting) (hnone : dfil.held = []) :
    rest = [] ∧ waiting = [] := by
  have hheld := h.held
  rw [hnone] at hheld
  obtain ⟨hrest, hflat⟩ := List.append_eq_nil_iff.mp hheld.symm
  refine ⟨hrest, ?_⟩
  cases waiting with
  | nil => rfl
  | cons section_ others =>
    have hne := section_ne_nil (h.sections section_ List.mem_cons_self)
    rw [List.flatten_cons] at hflat
    exact absurd (List.append_eq_nil_iff.mp hflat).1 hne

theorem synced_flushed (hheld : dfil.held = []) (htodo : dfil.todo = 0) : Synced dfil [] [] := by
  refine ⟨hheld, nofun, fun _ => ?_, fun _ => ⟨rfl, rfl⟩, ?_⟩
  · rw [htodo]
    exact .boundary
  · omega

/-! ### A turn -/

/-- What a turn of `dvb_dmxdev_buffer_read` can do when nothing has been taken yet. -/
inductive Turn (dfil : Dfil) (reading : Reading) : Dfil × Reading × Option (Except Errno ℕ) → Prop where
  | nothing : reading.entered = false → Turn dfil reading (dfil, reading, some (.ok 0))
  | failed (e : Errno) : dfil.error = some e →
    Turn dfil reading (dfil.flush, reading, some (.error e))
  | enters : reading.entered = false → 0 < reading.want →
    Turn dfil reading (dfil, { reading with entered := true }, none)
  | empty (e : Errno) : reading.entered = true → dfil.held = [] →
    Turn dfil reading (dfil, reading, some (.error e))
  | copies (avail : ℕ) : reading.entered = true → dfil.held ≠ [] →
    avail = min dfil.held.length reading.want →
    Turn dfil reading ({ dfil with held := dfil.held.drop avail },
      { reading with todo := reading.want - avail, buf := reading.buf ++ dfil.held.take avail },
      if reading.want - avail = 0 then some (.ok reading.want) else none)

theorem turn_of_bufferRead (hloop : reading.todo = reading.want) {signal : Bool}
    {out : Dfil × Reading × Option (Except Errno ℕ)}
    (h : dfil.bufferRead reading signal = some out) : Turn dfil reading out := by
  have hresult : ∀ ret, Dfil.loopResult reading ret = ret := by
    intro ret
    rw [Dfil.loopResult, hloop, Nat.sub_self, if_neg (Nat.lt_irrefl 0)]
  rw [Dfil.bufferRead] at h
  simp only [hresult] at h
  split at h
  · rename_i hentered
    have hentered' : reading.entered = false := Bool.eq_false_iff.mpr hentered
    split at h
    · cases h
      exact .nothing hentered'
    · split at h
      · rename_i e he
        cases h
        exact .failed e he
      · split at h
        · cases h
          exact .nothing hentered'
        · rename_i hwant
          cases h
          exact .enters hentered' (Nat.pos_of_ne_zero hwant)
  · rename_i hentered
    have hentered' : reading.entered = true := not_not.mp hentered
    split at h
    · rename_i hempty
      cases h
      exact .empty _ hentered' hempty.2
    · split at h
      · rename_i hwaits
        split at h
        · cases h
          exact .empty _ hentered' hwaits.1
        · cases h
      · rename_i hheld
        split at h
        · rename_i e he
          cases h
          exact .failed e he
        · rename_i hnone
          have hsome : dfil.held ≠ [] := fun hempty => hheld ⟨hempty, hnone⟩
          have hcopies := @Turn.copies dfil reading _ hentered' hsome rfl
          rw [hloop] at h
          split at h
          · rename_i hdone
            cases h
            rw [if_pos hdone] at hcopies
            exact hcopies
          · rename_i hmore
            cases h
            rw [if_neg hmore] at hcopies
            exact hcopies

theorem afterBufferRead_zero (hok : reading.Ok dfil) (hgt : -3 < dfil.todo) :
    dfil.afterBufferRead reading (.ok 0) = (dfil, .inr (.ok reading.buf)) := by
  have hstore : Dfil.storeHeader dfil.secheader (-dfil.todo).toNat [] = dfil.secheader := by
    funext i
    rw [Dfil.storeHeader, if_neg]
    rintro ⟨hle, hlt⟩
    rw [List.length_nil] at hlt
    omega
  rw [Dfil.afterBufferRead]
  dsimp only
  cases hheader : reading.header with
  | true =>
    obtain ⟨-, hdone, hbuf, -⟩ := hok.inHeader hheader
    rw [if_pos rfl, hdone, hbuf, List.take_nil, hstore, Int.natCast_zero, Int.sub_zero, if_pos hgt]
  | false =>
    obtain ⟨-, -, hlength⟩ := hok.inBody hheader
    rw [if_neg (by decide), Nat.add_zero, ← hlength, List.take_length, Int.natCast_zero, Int.sub_zero]

/-- What a piece of the header does. -/
theorem afterBufferRead_header (hheader : reading.header = true) (hdone : reading.done = 0)
    (hbuf : reading.buf = p) (hsection : IsSection (got ++ (p ++ tail))) (hp : p ≠ [])
    (hshort : got.length + p.length ≤ 3) (htodo : dfil.todo = -(got.length : ℤ))
    (hgot : ∀ i < got.length, dfil.secheader i = got.getD i 0)
    (hheld : dfil.held = tail ++ others.flatten) (hothers : ∀ section_ ∈ others, IsSection section_)
    (hgo : .go ≤ dfil.state) :
    ∃ dfil', Synced dfil' tail others ∧ dfil'.state = dfil.state ∧ dfil'.timer = dfil.timer ∧
      (dfil.afterBufferRead reading (.ok p.length) = (dfil', .inr (.ok p)) ∨
        ∃ reading', dfil.afterBufferRead reading (.ok p.length) = (dfil', .inl reading') ∧
          reading'.Ok dfil' ∧ reading'.buf = p) := by
  have hstored : ∀ i < (got ++ p).length,
      Dfil.storeHeader dfil.secheader (-dfil.todo).toNat p i = (got ++ p).getD i 0 := by
    rw [htodo, Int.neg_neg, Int.toNat_natCast]
    exact storeHeader_got hgot
  have hbytes : reading.buf.take (reading.done + p.length) = p := by
    rw [hbuf, hdone, Nat.zero_add, List.take_length]
  have hsum : dfil.todo - (p.length : ℤ) = -((got ++ p).length : ℤ) := by
    rw [htodo, List.length_append]
    omega
  have hsection' : IsSection ((got ++ p) ++ tail) := by rwa [List.append_assoc]
  have hidle : ∀ {P : Prop}, dfil.state < .go → P := fun hlt =>
    absurd hgo (NeumoDmxdevState.not_le.mpr hlt)
  rw [Dfil.afterBufferRead]
  dsimp only
  rw [if_pos hheader, hbytes, hsum]
  rw [List.length_append] at hstored ⊢
  by_cases hmore : got.length + p.length < 3
  · have hgt : -((got.length + p.length : ℕ) : ℤ) > -3 := by omega
    rw [if_pos hgt]
    refine ⟨_, ?_, ?_, ?_, .inl rfl⟩
    · refine ⟨hheld, hothers, fun _ => ?_, hidle, hgt⟩
      rw [← List.length_append]
      refine .header (got ++ p) tail hsection' ?_ ?_ ?_
      · exact fun h => hp (List.append_eq_nil_iff.mp h).2
      · rwa [List.length_append]
      · rwa [List.length_append]
    · rfl
    · rfl
  · have hthree : got.length + p.length = 3 := by omega
    rw [hthree] at hstored ⊢
    have hbody : Dfil.bodyLength (Dfil.storeHeader dfil.secheader (-dfil.todo).toNat p) =
        tail.length :=
      bodyLength_of_header hsection' (by rwa [List.length_append]) hstored
    rw [if_neg (by decide), hbody]
    have hsynced : Synced { dfil with
        todo := tail.length
        secheader := Dfil.storeHeader dfil.secheader (-dfil.todo).toNat p } tail others := by
      refine ⟨hheld, hothers, fun _ => .of_length rfl, hidle, ?_⟩
      dsimp only
      omega
    refine ⟨_, hsynced, rfl, rfl, ?_⟩
    by_cases hcount : reading.count - p.length = 0
    · exact .inl (if_pos hcount)
    · refine .inr ⟨_, if_neg hcount, ⟨rfl, nofun, fun _ => ⟨?_, ?_, ?_⟩, nofun, hidle⟩, hbuf⟩
      · exact Int.natCast_nonneg _
      · dsimp only
        rw [Int.toNat_natCast]
        exact Nat.min_le_right ..
      · dsimp only
        rw [hbuf]

/-- What a piece of the body does. -/
theorem afterBufferRead_body {bytes : List UInt8} (hheader : reading.header = false)
    (hdone : bytes.length = reading.done) (hbuf : reading.buf = bytes ++ p)
    (htodo : ((p ++ tail).length : ℤ) = dfil.todo) (hheld : dfil.held = tail ++ others.flatten)
    (hothers : ∀ section_ ∈ others, IsSection section_) (hgo : .go ≤ dfil.state) :
    ∃ dfil', Synced dfil' tail others ∧ dfil'.state = dfil.state ∧ dfil'.timer = dfil.timer ∧
      dfil.afterBufferRead reading (.ok p.length) = (dfil', .inr (.ok (bytes ++ p))) := by
  have hbytes : reading.buf.take (reading.done + p.length) = bytes ++ p := by
    rw [hbuf, ← hdone, ← List.length_append, List.take_length]
  have hrest : dfil.todo - (p.length : ℤ) = tail.length := by
    rw [← htodo, List.length_append]
    omega
  rw [Dfil.afterBufferRead]
  dsimp only
  rw [hheader, if_neg (by decide), hbytes, hrest]
  have hsynced : Synced { dfil with todo := tail.length } tail others := by
    refine ⟨hheld, hothers, fun _ => .of_length rfl, fun hlt => ?_, ?_⟩
    · exact absurd hgo (NeumoDmxdevState.not_le.mpr hlt)
    · dsimp only
      omega
  exact ⟨_, hsynced, rfl, rfl, rfl⟩

/-! ### What a turn keeps -/

theorem note_self (s : ReadState) {dfil : Dfil} (h : dfil.flushes = s.dfil.flushes) :
    s.note dfil = { s with dfil := dfil } := by
  rw [ReadState.note, if_pos h]

theorem note_flush (s : ReadState) {dfil : Dfil} (h : s.dfil.flushes < dfil.flushes) :
    s.note dfil = { s with dfil := dfil, log := s.log ++ [.flushed] } := by
  rw [ReadState.note, if_neg (Nat.ne_of_gt h)]

/-- A read that returns what it has taken. -/
theorem ok_returned {log : List (Happening UInt8 Errno)} {waiting' : List (List UInt8)}
    {rest' bytes : List UInt8} (htimer : dfil.timer = true → dfil.state = .go)
    (hframed : Framed log rest waiting) (htakes : Takes rest waiting bytes rest' waiting')
    (hsynced : Synced dfil rest' waiting') :
    ReadState.Ok ⟨dfil, none, log ++ [.returned (.ok bytes)]⟩ :=
  ⟨htimer, nofun, rest', waiting', rest', waiting', .returned hframed htakes, .none _ _, hsynced⟩

/-- A read that returns an error has flushed the buffer, or found it empty. -/
theorem ok_failed {log : List (Happening UInt8 Errno)} (e : Errno)
    (htimer : dfil.timer = true → dfil.state = .go) (hframed : Framed log [] waiting)
    (hsynced : Synced dfil [] waiting) :
    ReadState.Ok ⟨dfil, none, log ++ [.returned (.error e)]⟩ :=
  ⟨htimer, nofun, [], waiting, [], waiting, .failed e hframed, .none _ _, hsynced⟩

/-- A read that fails is at the start of a section afterwards. -/
theorem afterBufferRead_error (hok : reading.Ok dfil)
    (hbody : reading.header = false → dfil.todo ≤ 0) (e : Errno) (dfil' : Dfil)
    (htodo : dfil'.todo = dfil.todo) :
    dfil'.afterBufferRead reading (.error e) = ({ dfil' with todo := 0 }, .inr (.error e)) := by
  rw [Dfil.afterBufferRead]
  cases hheader : reading.header with
  | true => rfl
  | false =>
    have hzero : dfil'.todo = 0 := by
      have := (hok.inBody hheader).1
      have := hbody hheader
      omega
    rw [if_neg (by decide), ← hzero]

/-- When the buffer is empty a read of the body of a section has nothing left to wait for, or the
    filter has been stopped. -/
theorem empty_cases (hok : reading.Ok dfil) (hsynced : Synced dfil rest waiting)
    (hentered : reading.entered = true) (hempty : dfil.held = []) :
    reading.buf = [] ∧ (reading.header = false → dfil.state < .go) := by
  obtain ⟨rfl, rfl⟩ := hsynced.nothing hempty
  cases hheader : reading.header with
  | true => exact ⟨(hok.inHeader hheader).2.2.1, nofun⟩
  | false =>
    obtain ⟨-, hwant, -⟩ := hok.inBody hheader
    have hpos := hok.entered hentered
    have hidle : dfil.state < .go := by
      refine NeumoDmxdevState.not_le.mp fun hgo => ?_
      have := (hsynced.aligned hgo).boundary_of_nil
      omega
    exact ⟨hok.idle hidle, fun _ => hidle⟩

/-- A piece at the start of the buffer is what is copied. -/
theorem copied_piece {held x : List UInt8} {avail want : ℕ} (havail : avail = min held.length want)
    (hheld : held = (p ++ tail) ++ x) (hp : p.length = want) :
    avail = p.length ∧ held.take avail = p ∧ held.drop avail = tail ++ x := by
  have hlength : avail = p.length := by
    rw [havail, hheld, hp]
    simp only [List.length_append, hp]
    omega
  rw [hheld, hlength, List.append_assoc]
  exact ⟨rfl, List.take_left, List.drop_left⟩

/-- The state after a piece has been copied. -/
def afterCopy (dfil : Dfil) (reading : Reading) (log : List (Happening UInt8 Errno))
    (p held : List UInt8) : ReadState :=
  ReadState.after ⟨{ dfil with held := held }, some reading, log⟩
    ({ dfil with held := held }.afterBufferRead
      { reading with todo := 0, buf := reading.buf ++ p } (.ok p.length))

theorem ok_copy_header {log : List (Happening UInt8 Errno)}
    (htimer : dfil.timer = true → dfil.state = .go) (hok : reading.Ok dfil)
    (hheader : reading.header = true) (hframed : Framed log rest waiting)
    (htake : Takes rest waiting p tail others) (hsection : IsSection (got ++ (p ++ tail)))
    (hp : p ≠ []) (hshort : got.length + p.length ≤ 3) (htodo : dfil.todo = -(got.length : ℤ))
    (hgot : ∀ i < got.length, dfil.secheader i = got.getD i 0)
    (hothers : ∀ section_ ∈ others, IsSection section_) (hgo : .go ≤ dfil.state) :
    (afterCopy dfil reading log p (tail ++ others.flatten)).Ok := by
  obtain ⟨-, hdone, hbuf, -⟩ := hok.inHeader hheader
  have hp' : reading.buf ++ p = p := by rw [hbuf, List.nil_append]
  obtain ⟨dfil', hsynced, hstate, htimer', hresult | ⟨reading', hresult, hok', hbuf'⟩⟩ :=
    @afterBufferRead_header { dfil with held := tail ++ others.flatten }
      { reading with todo := 0, buf := reading.buf ++ p } got p tail others hheader hdone hp'
      hsection hp hshort htodo hgot rfl hothers hgo
  · rw [afterCopy, hresult]
    refine ok_returned ?_ hframed htake hsynced
    rw [htimer', hstate]
    exact htimer
  · rw [afterCopy, hresult]
    refine ⟨?_, ?_, rest, waiting, tail, others, hframed, ?_, hsynced⟩
    · dsimp only [ReadState.after]
      rw [htimer', hstate]
      exact htimer
    · intro r hr
      have hr' : some reading' = some r := hr
      cases hr'
      exact hok'
    · dsimp only [ReadState.after, Option.elim_some]
      rw [hbuf']
      exact htake

theorem ok_copy_body {log : List (Happening UInt8 Errno)}
    (htimer : dfil.timer = true → dfil.state = .go) (hok : reading.Ok dfil)
    (hheader : reading.header = false) (hframed : Framed log rest waiting)
    (htake : Takes rest waiting (reading.buf ++ p) tail others)
    (htodo : ((p ++ tail).length : ℤ) = dfil.todo)
    (hothers : ∀ section_ ∈ others, IsSection section_) (hgo : .go ≤ dfil.state) :
    (afterCopy dfil reading log p (tail ++ others.flatten)).Ok := by
  obtain ⟨-, -, hdone⟩ := hok.inBody hheader
  obtain ⟨dfil', hsynced, hstate, htimer', hresult⟩ :=
    @afterBufferRead_body { dfil with held := tail ++ others.flatten }
      { reading with todo := 0, buf := reading.buf ++ p } p tail others reading.buf hheader hdone
      rfl htodo rfl hothers hgo
  rw [afterCopy, hresult]
  refine ok_returned ?_ hframed htake hsynced
  rw [htimer', hstate]
  exact htimer

theorem ReadState.Ok.proceed (h : s.Ok) {signal : Bool} (hkept : ReadAct.Kept s (.proceed signal)) :
    (s.proceed signal).Ok := by
  obtain ⟨dfil, none | reading, log⟩ := s
  · exact h
  obtain ⟨htimer, hreading, rest, waiting, rest', waiting', hframed, htakes, hsynced⟩ := h
  have hok : reading.Ok dfil := hreading reading rfl
  have hbody : reading.header = false → 0 < dfil.todo → dfil.error = none := hkept reading rfl
  have htakes' : Takes rest waiting reading.buf rest' waiting' := htakes
  have hsynced' : Synced dfil rest' waiting' := hsynced
  have htimer' : dfil.timer = true → dfil.state = .go := htimer
  rw [ReadState.proceed]
  dsimp only
  cases hread : dfil.bufferRead reading signal with
  | none => exact ⟨htimer, hreading, rest, waiting, rest', waiting', hframed, htakes, hsynced⟩
  | some out =>
    have hturn := turn_of_bufferRead hok.loop hread
    cases hturn with
    | nothing hentered =>
      dsimp only
      rw [afterBufferRead_zero hok hsynced'.todo_gt, note_self _ rfl]
      exact ok_returned htimer' hframed htakes' hsynced'
    | failed e he =>
      have htodo : reading.header = false → dfil.todo ≤ 0 := by
        intro hheader
        by_contra hpos
        rw [hbody hheader (Int.not_le.mp hpos)] at he
        cases he
      dsimp only
      rw [afterBufferRead_error hok htodo e dfil.flush rfl, note_flush _ (Nat.lt_succ_self _)]
      exact ok_failed e htimer' hframed.flushed (synced_flushed rfl rfl)
    | enters hentered hwant =>
      dsimp only
      rw [note_self _ rfl]
      have hok' : ({ reading with entered := true } : Reading).Ok dfil :=
        ⟨hok.loop, hok.inHeader, hok.inBody, fun _ => hwant, hok.idle⟩
      refine ⟨htimer, ?_, rest, waiting, rest', waiting', hframed, htakes, hsynced⟩
      intro r hr
      have hr' : some { reading with entered := true } = some r := hr
      cases hr'
      exact hok'
    | empty e hentered hempty =>
      obtain ⟨hbuf, hidle⟩ := empty_cases hok hsynced' hentered hempty
      obtain ⟨rfl, rfl⟩ := hsynced'.nothing hempty
      rw [hbuf] at htakes'
      obtain ⟨rfl, rfl⟩ := htakes'.nil
      dsimp only
      rw [note_self _ rfl, Dfil.afterBufferRead]
      split
      · exact ok_failed e htimer' hframed (synced_flushed hempty rfl)
      · exact ok_failed e htimer' hframed hsynced'
    | copies avail hentered hsome havail =>
      have hgo := hsynced'.go_of_held hsome
      have hpos := hok.entered hentered
      rcases Bool.eq_false_or_eq_true reading.header with hheader | hheader
      · obtain ⟨htodo, hdone, hbuf, hwant⟩ := hok.inHeader hheader
        obtain ⟨got, rec, others, hsection, hshort, hgottodo, hgot, hheld, hothers, hpiece⟩ :=
          hsynced'.inHeader hgo htodo hsome
        rw [hbuf] at htakes'
        obtain ⟨rfl, rfl⟩ := htakes'.nil
        have hroom : reading.want ≤ 3 - got.length := by
          rw [hwant, hgottodo]
          omega
        have hrec : reading.want ≤ rec.length := by
          have := hsection.1
          rw [List.length_append] at this
          omega
        obtain ⟨p, tail, rfl, hp⟩ : ∃ p tail, rec = p ++ tail ∧ p.length = reading.want :=
          ⟨rec.take reading.want, rec.drop reading.want, (List.take_append_drop ..).symm,
            List.length_take_of_le hrec⟩
        have hne : p ≠ [] := List.ne_nil_of_length_pos (by omega)
        obtain ⟨hlength, htaken, hleft⟩ := copied_piece havail hheld hp
        rw [htaken, hleft, hlength, hp, Nat.sub_self, if_pos rfl]
        dsimp only
        rw [note_self _ (by rfl), ← hp]
        exact ok_copy_header htimer' hok hheader hframed (hpiece p tail hne rfl) hsection hne
          (by omega) hgottodo hgot hothers hgo
      · obtain ⟨hnonneg, hwant, -⟩ := hok.inBody hheader
        have hrest := (hsynced'.aligned hgo).length_of_pos (by omega)
        obtain ⟨p, tail, rfl, hp⟩ : ∃ p tail, rest' = p ++ tail ∧ p.length = reading.want :=
          ⟨rest'.take reading.want, rest'.drop reading.want, (List.take_append_drop ..).symm,
            List.length_take_of_le (by omega)⟩
        have hne : p ≠ [] := List.ne_nil_of_length_pos (by omega)
        obtain ⟨hlength, htaken, hleft⟩ := copied_piece havail hsynced'.held hp
        rw [htaken, hleft, hlength, hp, Nat.sub_self, if_pos rfl]
        dsimp only
        rw [note_self _ (by rfl), ← hp]
        exact ok_copy_body htimer' hok hheader hframed (htakes'.extend hne) hrest hsynced'.sections
          hgo

/-! ### What others do -/

theorem go_le_iff {a b : NeumoDmxdevState} (h : .go ≤ a ↔ .go ≤ b) : a < .go ↔ b < .go := by
  rw [← NeumoDmxdevState.not_le, ← NeumoDmxdevState.not_le, h]

theorem Reading.Ok.same (h : reading.Ok dfil) {dfil' : Dfil} (htodo : dfil'.todo = dfil.todo)
    (hgo : .go ≤ dfil'.state ↔ .go ≤ dfil.state) : reading.Ok dfil' := by
  obtain ⟨hloop, hhead, hbody, hentered, hidle⟩ := h
  rw [← htodo] at hhead hbody
  exact ⟨hloop, hhead, hbody, hentered, fun h => hidle ((go_le_iff hgo).mp h)⟩

/-- The buffer, and where a read is in it, stay as they are. -/
theorem ReadState.Ok.change (h : s.Ok) {dfil : Dfil} (hheld : dfil.held = s.dfil.held)
    (htodo : dfil.todo = s.dfil.todo) (hheader : dfil.secheader = s.dfil.secheader)
    (hgo : .go ≤ dfil.state ↔ .go ≤ s.dfil.state) (htimer : dfil.timer = true → dfil.state = .go) :
    ReadState.Ok { s with dfil := dfil } := by
  obtain ⟨-, hreading, rest, waiting, rest', waiting', hframed, htakes, hsynced⟩ := h
  refine ⟨htimer, fun r hr => (hreading r hr).same htodo hgo, rest, waiting, rest', waiting', hframed,
    htakes, hheld.trans hsynced.held, hsynced.sections, fun h => ?_,
    fun h => hsynced.idle ((go_le_iff hgo).mp h), ?_⟩
  · dsimp only
    rw [htodo, hheader]
    exact hsynced.aligned (hgo.mp h)
  · dsimp only
    rw [htodo]
    exact hsynced.todo_gt

/-- The buffer is flushed while nothing is read, and nothing is delivered before the next start. -/
theorem ReadState.Ok.flush (h : s.Ok) (hnone : s.reading = none) {dfil : Dfil}
    (hflushes : s.dfil.flushes < dfil.flushes) (hheld : dfil.held = [])
    (htodo : .go ≤ dfil.state → dfil.todo = 0) (hgt : -3 < dfil.todo)
    (htimer : dfil.timer = true → dfil.state = .go) : (s.note dfil).Ok := by
  obtain ⟨-, -, rest, waiting, -, -, hframed, -, -⟩ := h
  rw [note_flush _ hflushes]
  refine ⟨htimer, fun r hr => ?_, [], [], [], [], hframed.flushed, ?_, hheld, nofun, fun hgo => ?_,
    fun _ => ⟨rfl, rfl⟩, hgt⟩
  · dsimp only at hr
    rw [hnone] at hr
    cases hr
  · dsimp only
    rw [hnone]
    exact .none _ _
  · dsimp only
    rw [htodo hgo]
    exact .boundary

theorem ReadState.Ok.todo_gt (h : s.Ok) : -3 < s.dfil.todo := by
  obtain ⟨-, -, _, _, _, _, -, -, hsynced⟩ := h
  exact hsynced.todo_gt

theorem bufferWrite_cases (dfil : Dfil) (src : List UInt8) :
    dfil.bufferWrite src = .ok dfil ∨ dfil.bufferWrite src = .error EOVERFLOW ∨
      dfil.bufferWrite src = .ok { dfil with held := dfil.held ++ src } := by
  rw [Dfil.bufferWrite]
  split
  · exact .inl rfl
  · split
    · exact .inr (.inl rfl)
    · exact .inr (.inr rfl)

/-- A filter for one section only is done, and counts as started all the same. -/
theorem exists_oneshot (dfil : Dfil) (hgo : dfil.state = .go) :
    ∃ state, (.go ≤ state ↔ .go ≤ dfil.state) ∧
      (if dfil.oneshot then { dfil with state := .done } else dfil) =
        { dfil with state := state } := by
  split
  · refine ⟨.done, ?_, rfl⟩
    rw [hgo]
    decide
  · exact ⟨dfil.state, Iff.rfl, rfl⟩

/-- What the demux does to the filter when it has a section. -/
theorem sectionCallback_cases (dfil : Dfil) (section_ : List UInt8) :
    ∃ error state timer, (.go ≤ state ↔ .go ≤ dfil.state) ∧ (timer = true → dfil.timer = true ∧
      state = dfil.state) ∧ (dfil.sectionCallback section_ =
          { dfil with error := error, state := state, timer := timer } ∨ dfil.state = .go ∧
        dfil.sectionCallback section_ = { dfil with
          held := dfil.held ++ section_, error := error, state := state, timer := timer }) := by
  rw [Dfil.sectionCallback]
  split
  · exact ⟨dfil.error, dfil.state, dfil.timer, Iff.rfl, fun h => ⟨h, rfl⟩, .inl rfl⟩
  · split
    · exact ⟨dfil.error, dfil.state, dfil.timer, Iff.rfl, fun h => ⟨h, rfl⟩, .inl rfl⟩
    · rename_i hgo
      have hgo' : dfil.state = .go := not_not.mp hgo
      rcases bufferWrite_cases { dfil with timer := false } section_ with hwrite | hwrite | hwrite
      · obtain ⟨state, hstate, hends⟩ := exists_oneshot { dfil with timer := false } hgo'
        refine ⟨dfil.error, state, false, hstate, nofun, .inl ?_⟩
        dsimp only
        rw [hwrite]
        exact hends
      · obtain ⟨state, hstate, hends⟩ :=
          exists_oneshot { dfil with timer := false, error := some EOVERFLOW } hgo'
        refine ⟨some EOVERFLOW, state, false, hstate, nofun, .inl ?_⟩
        dsimp only
        rw [hwrite]
        exact hends
      · obtain ⟨state, hstate, hends⟩ :=
          exists_oneshot { dfil with timer := false, held := dfil.held ++ section_ } hgo'
        refine ⟨dfil.error, state, false, hstate, nofun, .inr ⟨hgo', ?_⟩⟩
        dsimp only
        rw [hwrite]
        exact hends

theorem ReadState.Ok.deliver (h : s.Ok) {section_ : List UInt8} (hsection : IsSection section_) :
    ((ReadAct.deliver section_).run s).Ok := by
  obtain ⟨error, state, timer, hgo, htimer, hcallback | ⟨hstate, hcallback⟩⟩ :=
    sectionCallback_cases s.dfil section_
  · have htimer' : timer = true → state = .go := fun ht =>
      (htimer ht).2.trans (h.timer (htimer ht).1)
    rw [ReadAct.run, hcallback]
    dsimp only
    rw [if_pos rfl]
    exact h.change rfl rfl rfl hgo htimer'
  · have hne : s.dfil.held ++ section_ ≠ s.dfil.held := by
      rw [Ne, List.append_right_eq_self]
      exact section_ne_nil hsection
    have hchange : ReadState.Ok { s with dfil := { s.dfil with
        error := error, state := state, timer := timer } } :=
      h.change rfl rfl rfl hgo fun ht => (htimer ht).2.trans (h.timer (htimer ht).1)
    obtain ⟨htimer', hreading, rest, waiting, rest', waiting', hframed, htakes, hsynced⟩ := hchange
    rw [ReadAct.run, hcallback]
    dsimp only
    rw [if_neg hne]
    refine ⟨htimer', fun r hr => (hreading r hr).same rfl Iff.rfl, rest, waiting ++ [section_], rest',
      waiting' ++ [section_], hframed.stored section_, htakes.store [section_], ?_, fun r hr => ?_,
      hsynced.aligned, fun hlt => ?_, hsynced.todo_gt⟩
    · dsimp only
      rw [List.flatten_append, List.flatten_singleton, ← List.append_assoc]
      exact congrArg (· ++ section_) hsynced.held
    · rcases List.mem_append.mp hr with hr | hr
      · exact hsynced.sections r hr
      · rw [List.mem_singleton.mp hr]
        exact hsection
    · have hgo' : NeumoDmxdevState.go ≤ s.dfil.state := by rw [hstate]; decide
      exact absurd (hgo.mpr hgo') (NeumoDmxdevState.not_le.mpr hlt)

/-! ### What its own calls do -/

theorem filterStop_cases (dfil : Dfil) :
    dfil.state < .go ∧ dfil.filterStop = dfil ∨
      dfil.filterStop = { dfil with state := .setPes, timer := false }.flush := by
  rw [Dfil.filterStop]
  split
  · rename_i hidle
    exact .inl ⟨hidle, rfl⟩
  · exact .inr rfl

theorem filterStop_spec (dfil : Dfil) (htimer : dfil.timer = true → dfil.state = .go) :
    dfil.filterStop.state < .go ∧ dfil.filterStop.timer = false ∧
      dfil.filterStop.todo = dfil.todo ∧ dfil.flushes ≤ dfil.filterStop.flushes := by
  rcases filterStop_cases dfil with ⟨hidle, heq⟩ | heq
  · rw [heq]
    refine ⟨hidle, Bool.eq_false_iff.mpr fun ht => ?_, rfl, le_rfl⟩
    rw [htimer ht] at hidle
    exact absurd hidle (by decide)
  · rw [heq]
    exact ⟨setPes_lt_go, rfl, rfl, Nat.le_succ _⟩

theorem ReadState.Ok.stop (h : s.Ok) (hnone : s.reading = none) :
    (s.note s.dfil.filterStop).Ok := by
  rcases filterStop_cases s.dfil with ⟨-, heq⟩ | heq
  · rw [heq, note_self _ rfl]
    exact h
  · rw [heq]
    refine h.flush hnone (Nat.lt_succ_self _) rfl (fun hgo => ?_) h.todo_gt nofun
    exact absurd hgo (NeumoDmxdevState.not_le.mpr setPes_lt_go)

theorem ReadState.Ok.start (h : s.Ok) (hnone : s.reading = none) (limited : Bool)
    (how : Dfil.StartEnd) : (s.note (s.dfil.filterStart limited how)).Ok := by
  obtain ⟨hidle, htimer, htodo, hflushes⟩ := filterStop_spec s.dfil h.timer
  have hlt := Nat.lt_succ_of_le hflushes
  have hgt : -3 < s.dfil.filterStop.todo := htodo ▸ h.todo_gt
  have hstop := h.stop hnone
  have hzero : (-3 : ℤ) < 0 := by decide
  rw [Dfil.filterStart]
  split
  · rw [note_self _ rfl]
    exact h
  · cases how with
    | noMemory => exact hstop
    | noFilter =>
      refine h.flush hnone hlt rfl (fun hgo => ?_) hgt fun ht => ?_
      · exact absurd hidle (NeumoDmxdevState.not_lt.mpr hgo)
      · exact absurd (htimer.symm.trans ht) (by decide)
    | notStarted =>
      refine h.flush hnone hlt rfl (fun _ => rfl) hzero fun ht => ?_
      exact absurd (htimer.symm.trans ht) (by decide)
    | started => exact h.flush hnone hlt rfl (fun _ => rfl) hzero fun _ => rfl

theorem ReadState.Ok.setFilter (h : s.Ok) (hnone : s.reading = none) (oneshot : Bool) :
    (s.note (s.dfil.sectionFilterSet oneshot)).Ok := by
  rw [Dfil.sectionFilterSet]
  rcases filterStop_cases s.dfil with ⟨hidle, heq⟩ | heq
  · obtain ⟨-, htimer, -, -⟩ := filterStop_spec s.dfil h.timer
    rw [heq] at htimer ⊢
    rw [note_self _ (by rfl)]
    refine h.change rfl rfl rfl ?_ fun ht => ?_
    · exact iff_of_false (NeumoDmxdevState.not_le.mpr setPes_lt_go) (NeumoDmxdevState.not_le.mpr hidle)
    · exact absurd (htimer.symm.trans ht) (by decide)
  · rw [heq]
    refine h.flush hnone (Nat.lt_succ_self _) rfl (fun hgo => ?_) h.todo_gt nofun
    exact absurd hgo (NeumoDmxdevState.not_le.mpr setPes_lt_go)

theorem ReadState.Ok.setBufferSize (h : s.Ok) (hnone : s.reading = none) (size : ℕ)
    (memory : Bool) : (s.note (s.dfil.setBufferSize size memory)).Ok := by
  have hsame : (s.note s.dfil).Ok := by
    rw [note_self _ rfl]
    exact h
  rw [Dfil.setBufferSize]
  split
  · exact hsame
  · split
    · exact hsame
    · split
      · exact hsame
      · rename_i hidle
        split
        · exact hsame
        · exact h.flush hnone (Nat.lt_succ_self _) rfl (fun hgo => absurd hgo hidle) h.todo_gt h.timer

theorem ReadState.Ok.read (h : s.Ok) (hnone : s.reading = none) (nonBlocking : Bool) (count : ℕ) :
    ReadState.Ok { s with reading := some (s.dfil.readSec nonBlocking count) } := by
  have hok : (s.dfil.readSec nonBlocking count).Ok s.dfil ∧
      (s.dfil.readSec nonBlocking count).buf = [] := by
    rw [Dfil.readSec]
    split
    · rename_i htodo
      exact ⟨⟨rfl, fun _ => ⟨htodo, rfl, rfl, rfl⟩, nofun, nofun, fun _ => rfl⟩, rfl⟩
    · rename_i htodo
      refine ⟨⟨rfl, nofun, fun _ => ⟨?_, Nat.min_le_right .., rfl⟩, nofun, fun _ => rfl⟩, rfl⟩
      omega
  obtain ⟨htimer, -, rest, waiting, rest', waiting', hframed, htakes, hsynced⟩ := h
  refine ⟨htimer, fun r hr => ?_, rest, waiting, rest', waiting', hframed, ?_, hsynced⟩
  · have hr' : some (s.dfil.readSec nonBlocking count) = some r := hr
    cases hr'
    exact hok.1
  · rw [hnone] at htakes
    dsimp only [Option.elim_some]
    rw [hok.2]
    exact htakes

/-! ### Runs -/

theorem ReadState.Ok.run (h : s.Ok) {act : ReadAct} (hallowed : act.Allowed s)
    (hkept : act.Kept s) : (act.run s).Ok := by
  cases act with
  | deliver section_ => exact h.deliver hallowed
  | timeout =>
    have hgo : NeumoDmxdevState.go ≤ .timedout ↔ .go ≤ s.dfil.state := by
      rw [h.timer hallowed]
      decide
    exact h.change rfl rfl rfl hgo nofun
  | restart => exact h.change rfl rfl rfl (iff_of_true (Nat.le_refl _) hallowed) fun _ => rfl
  | start limited how => exact h.start hallowed limited how
  | stop => exact h.stop hallowed
  | setFilter oneshot => exact h.setFilter hallowed oneshot
  | setBufferSize size memory => exact h.setBufferSize hallowed size memory
  | read nonBlocking count => exact h.read hallowed nonBlocking count
  | proceed signal => exact h.proceed hkept

theorem ok_opened (secheader : ℕ → UInt8) : (ReadState.opened secheader).Ok :=
  ⟨nofun, nofun, [], [], [], [], .start, .none _ _, synced_flushed rfl rfl⟩

theorem ReadRun.ok (h : ReadRun (fun s act => act.Kept s) s) : s.Ok := by
  induction h with
  | opened secheader => exact ok_opened secheader
  | step act _ hallowed hkept ih => exact ih.run hallowed hkept

/-- As long as no overflow is found in the body of a section, what is read is the sections that are
    stored, one after the other and in pieces of one section each, and after an error a read starts
    with a section. -/
theorem section_framing (hrun : ReadRun (fun s act => act.Kept s) s) :
    (∃ rest waiting, Framed s.log rest waiting) ∧
      ∀ piece, .returned (.ok piece) ∈ s.log → piece ≠ [] →
        ∃ section_, .stored section_ ∈ s.log ∧ piece <:+: section_ := by
  obtain ⟨-, -, rest, waiting, -, -, hframed, -, -⟩ := hrun.ok
  exact ⟨⟨rest, waiting, hframed⟩, fun piece hpiece hne => hframed.one_record hpiece hne⟩

/-- The acts can be done one after the other. -/
def Plays (Ok : ReadState → ReadAct → Prop) : List ReadAct → ReadState → Prop
  | [], _ => True
  | act :: acts, s => act.Allowed s ∧ Ok s act ∧ Plays Ok acts (act.run s)

def play (acts : List ReadAct) (s : ReadState) : ReadState := acts.foldl (fun s act => act.run s) s

theorem Plays.run {Ok : ReadState → ReadAct → Prop} : ∀ {acts : List ReadAct} {s : ReadState},
    Plays Ok acts s → ReadRun Ok s → ReadRun Ok (play acts s)
  | [], _, _, hrun => hrun
  | act :: _, _, ⟨hallowed, hok, hplays⟩, hrun => hplays.run (hrun.step act hallowed hok)

/-- A filter with a small buffer is started. -/
def startSmall : List ReadAct := [.setFilter false, .setBufferSize 12 true, .start false .started]

/-- Two sections of two bytes, and one that is too long for the buffer. -/
def shortSection (a b : UInt8) : List UInt8 := [0, 0, 2, a, b]

def longSection : List UInt8 := [0, 0, 20] ++ List.replicate 20 0

/-- The header and a byte of a section are read. -/
def readFour : List ReadAct :=
  startSmall ++ [.deliver (shortSection 10 11), .read true 4, .proceed false, .proceed false,
    .proceed false, .proceed false]

theorem section_framing_four : (∃ rest waiting,
      Framed (play readFour (.opened fun _ => 0)).log rest waiting) ∧
    ∃ section_, .stored section_ ∈ (play readFour (.opened fun _ => 0)).log ∧
      [0, 0, 2, 10] <:+: section_ := by
  have hplays : Plays (fun s act => act.Kept s) readFour (.opened fun _ => 0) := by
    refine ⟨rfl, trivial, rfl, trivial, rfl, trivial, ⟨by decide, by decide, by decide⟩, trivial, rfl,
      trivial, trivial, ?_, trivial, ?_, trivial, ?_, trivial, ?_, trivial⟩
    · exact fun _ _ _ _ => rfl
    · exact fun _ _ _ _ => rfl
    · exact fun _ _ _ _ => rfl
    · exact fun _ _ _ _ => rfl
  have hrun := hplays.run (.opened fun _ => 0)
  have hlog : (play readFour (.opened fun _ => 0)).log =
      [.flushed, .flushed, .stored [0, 0, 2, 10, 11], .returned (.ok [0, 0, 2, 10])] := rfl
  refine ⟨(section_framing hrun).1, (section_framing hrun).2 [0, 0, 2, 10] ?_ (by decide)⟩
  rw [hlog]
  exact List.mem_cons_of_mem _ (List.mem_cons_of_mem _ (List.mem_cons_of_mem _ List.mem_cons_self))

/-- Then a section does not fit, and two that follow are read from the wrong byte on. -/
def misread : List ReadAct :=
  readFour ++ [.deliver longSection, .read true 4, .proceed false,
    .deliver (shortSection 20 21), .deliver (shortSection 30 31),
    .read true 1, .proceed false, .proceed false,
    .read true 10, .proceed false, .proceed false, .proceed false, .proceed false, .proceed false]

theorem log_misread : (play misread (.opened fun _ => 0)).log =
    [.flushed, .flushed, .stored [0, 0, 2, 10, 11], .returned (.ok [0, 0, 2, 10]), .flushed,
      .returned (.error EOVERFLOW), .stored [0, 0, 2, 20, 21], .stored [0, 0, 2, 30, 31],
      .returned (.ok [0]), .returned (.ok [0, 2, 20, 21, 0, 0, 2, 30, 31])] := rfl

/-- After an overflow in the body of a section a read returns the end of a section and another. -/
theorem sections_joined : ¬∀ s, ReadRun (fun _ _ => True) s →
    (∃ rest waiting, Framed s.log rest waiting) := by
  intro h
  have hplays : Plays (fun _ _ => True) misread (.opened fun _ => 0) := by
    refine ⟨rfl, trivial, rfl, trivial, rfl, trivial, ⟨by decide, by decide, by decide⟩, trivial, rfl,
      trivial, trivial, trivial, trivial, trivial, trivial, trivial, trivial, trivial,
      ⟨by decide, by decide, by decide⟩, trivial, rfl, trivial, trivial, trivial,
      ⟨by decide, by decide, by decide⟩, trivial, ⟨by decide, by decide, by decide⟩, trivial, rfl,
      trivial, trivial, trivial, trivial, trivial, rfl, trivial, trivial, trivial, trivial, trivial,
      trivial, trivial, trivial, trivial, trivial, trivial, trivial⟩
  obtain ⟨rest, waiting, hframed⟩ := h _ (hplays.run (.opened fun _ => 0))
  have hpiece : Happening.returned (.ok [0, 2, 20, 21, 0, 0, 2, 30, 31]) ∈
      (play misread (.opened fun _ => 0)).log := by
    rw [log_misread]
    simp
  obtain ⟨section_, hstored, hinfix⟩ := hframed.one_record hpiece (by decide)
  have hlength := hinfix.length_le
  rw [log_misread] at hstored
  simp only [List.mem_cons, Happening.stored.injEq, reduceCtorEq, false_or, List.not_mem_nil,
    or_false] at hstored
  rcases hstored with rfl | rfl | rfl
  · exact absurd hlength (by decide)
  · exact absurd hlength (by decide)
  · exact absurd hlength (by decide)

end Dmx

import NeumoDrivers.Demux.Lookup
import NeumoDrivers.Demux.T2miResync

/-! What packets, resets and subscriptions do to the sub-streams of an embedded stream.

    A sub-stream changes when it is reset, when it takes over a BBFRAME header and when bytes are
    handed to it. A property that a fresh sub-stream has and that these three keep is one that every
    sub-stream has in every reachable state (`T2miReached.all`, `StidReached.all`); of the bytes
    handed over it need only be known what the steps of the run allow. -/

namespace Demux
open Loop

variable {β : Type} [Cell β] {packet : Packet β} {emb : EmbeddedStream β} {b : BbframesStream β}
  {good : BbframesStream β → Prop} {j k : ℕ} {p q num : ℤ}

/-- Every sub-stream has the property. -/
def EmbeddedStream.All (emb : EmbeddedStream β) (good : BbframesStream β → Prop) : Prop :=
  ∀ k b, emb.bbfStreams k = some b → good b

/-- A sub-stream somebody subscribes to. -/
def EmbeddedStream.subscribe (emb : EmbeddedStream β) (k : ℕ) : EmbeddedStream β :=
  emb.put k (bbframesStreamInit k)

/-- A sub-stream nobody subscribes to any more. -/
def EmbeddedStream.unsubscribe (emb : EmbeddedStream β) (k : ℕ) : EmbeddedStream β :=
  { emb with bbfStreams := Function.update emb.bbfStreams k none }

section
omit [Cell β]

theorem EmbeddedStream.All.put (h : emb.All good) (hb : good b) : (emb.put k b).All good := by
  intro j c hc
  by_cases hj : j = k
  · subst hj
    rw [EmbeddedStream.put_bbfStreams_self, Option.some.injEq] at hc
    exact hc ▸ hb
  · rw [EmbeddedStream.put_bbfStreams_ne hj] at hc
    exact h j c hc

theorem EmbeddedStream.All.reset (h : emb.All good) (hreset : ∀ b, good b →
    good (bbframesStreamReset b)) (fullReset : Bool) :
    (embeddedStreamReset emb fullReset).All good := by
  intro j c hc
  obtain ⟨b, hb, rfl⟩ := Option.map_eq_some_iff.mp hc
  exact hreset b (h j b hb)

theorem EmbeddedStream.All.of_eq {emb' : EmbeddedStream β} (h : emb.All good)
    (hsame : emb'.bbfStreams = emb.bbfStreams) : emb'.All good := by
  intro j c hc
  rw [hsame] at hc
  exact h j c hc

theorem EmbeddedStream.unsubscribe_some (hb : (emb.unsubscribe k).bbfStreams j = some b) :
    emb.bbfStreams j = some b := by
  by_cases hj : j = k
  · simp [EmbeddedStream.unsubscribe, hj] at hb
  · simpa [EmbeddedStream.unsubscribe, hj] using hb

theorem selectIsi_bbfStreams (emb : EmbeddedStream β) (isi : ℕ) :
    (selectIsi emb isi).bbfStreams = emb.bbfStreams := by
  rw [selectIsi]
  split <;> rfl

end

/-- What a reset and a new header keep, and a fresh sub-stream has. -/
structure Kept (good : BbframesStream β → Prop) : Prop where
  init : ∀ isi, good (bbframesStreamInit isi)
  reset : ∀ b, good b → good (bbframesStreamReset b)
  parse : ∀ b hemMode isi buff, good b → good (parseBbheader b hemMode isi buff)

theorem embeddedStreamInit_all (hkept : Kept good) (pid : ℤ) (subs : ℕ → Bool) :
    (embeddedStreamInit pid subs).All good := by
  refine EmbeddedStream.All.reset ?_ hkept.reset true
  intro j c hc
  simp only at hc
  split_ifs at hc
  cases hc
  exact hkept.init j

theorem EmbeddedStream.All.subscribe (h : emb.All good) (hkept : Kept good) (k : ℕ) :
    (emb.subscribe k).All good :=
  h.put (hkept.init k)

omit [Cell β] in
theorem EmbeddedStream.All.unsubscribe (h : emb.All good) (k : ℕ) : (emb.unsubscribe k).All good :=
  fun j b hb => h j b (EmbeddedStream.unsubscribe_some hb)

/-! ### T2-MI -/

variable {t2mi t2mi' : T2miStream β} {s t : T2miPos β}

/-- At a point of the loop `num` bytes are handed to a sub-stream. -/
structure T2miPos.Hands (s : T2miPos β) (b : BbframesStream β) (num : ℤ) : Prop where
  stage : s.stage = .payload
  current : ∃ k, s.t2mi.emb.currentBbf = some k ∧ s.t2mi.emb.bbfStreams k = some b
  counted : s.num = 188 - s.p
  due : num = min s.t2mi.t2miPayloadBytesLeft s.num
  some : 0 < num
  type : s.t2mi.packetType = 0

theorem getT2miPacketHeader_bbfStreams {done : Bool}
    (h : getT2miPacketHeader packet t2mi p num = .done (t2mi', q, done)) :
    t2mi'.emb.bbfStreams = t2mi.emb.bbfStreams := by
  rw [getT2miPacketHeader] at h
  by_cases hneg : num < 0
  · rw [if_pos hneg] at h
    cases h
    rfl
  · simp only [if_neg hneg] at h
    split_ifs at h
    · cases h
      rfl
    all_goals
      split at h
      · cases h
      · first
          | cases h
            rfl
          | split at h
            · cases h
              rfl
            · cases h
              exact (readT2miHeader_spec _).2.2.1

/-- A new header, or a reset when it is damaged. -/
theorem readT2miBbheader_all (hkept : Kept good) (hall : t2mi.emb.All good) {o : Option ℤ}
    {done : Bool} (h : readT2miBbheader t2mi p = .done (t2mi', o, done)) :
    t2mi'.emb.All good := by
  simp only [readT2miBbheader] at h
  split at h
  · cases h
    exact hall
  · split at h
    · cases h
      exact hall.reset hkept.reset false
    · split at h
      · cases h
        exact hall.of_eq (embeddedStreamSetMatype_bbfStreams ..)
      · split at h
        · cases h
        · rename_i b hb
          have hb' : good b := hall _ b (by rwa [embeddedStreamSetMatype_bbfStreams] at hb)
          split at h
          · cases h
            exact EmbeddedStream.All.reset (EmbeddedStream.All.put
              (hall.of_eq (embeddedStreamSetMatype_bbfStreams ..)) (hkept.parse _ _ _ _ hb'))
              hkept.reset false
          · cases h
            exact EmbeddedStream.All.put (hall.of_eq (embeddedStreamSetMatype_bbfStreams ..))
              (hkept.parse _ _ _ _ hb')

theorem getT2miBbheader_all (hkept : Kept good) (hall : t2mi.emb.All good) {o : Option ℤ}
    {done : Bool} (h : getT2miBbheader packet t2mi p num = .done (t2mi', o, done)) :
    t2mi'.emb.All good := by
  simp only [getT2miBbheader] at h
  split_ifs at h
  · cases h
    exact hall.reset hkept.reset false
  all_goals
    split at h
    · cases h
    · first
        | cases h
          exact hall.reset hkept.reset false
        | split at h
          · cases h
            exact hall
          · refine readT2miBbheader_all hkept ?_ h
            exact hall

theorem t2miHeaderStage_all (hall : t2mi.emb.All good) :
    Leads (fun t => t.emb.All good) (t2miHeaderStage packet t2mi p num) := by
  rw [t2miHeaderStage]
  split_ifs
  · exact hall
  · simp only
    split
    · trivial
    · trivial
    · rename_i t p' done h
      have hgot : t.emb.All good := hall.of_eq (getT2miPacketHeader_bbfStreams h)
      split_ifs
      all_goals exact hgot
  · exact hall

theorem t2miBbheaderStage_all (hkept : Kept good) (hall : t2mi.emb.All good) :
    Leads (fun t => t.emb.All good) (t2miBbheaderStage packet t2mi p num) := by
  rw [t2miBbheaderStage]
  split_ifs
  · exact hall
  · split
    · trivial
    · trivial
    · rename_i t done h
      exact getT2miBbheader_all hkept hall h
    · rename_i t p' done h
      have hgot : t.emb.All good := getT2miBbheader_all hkept hall h
      simp only
      split_ifs
      all_goals exact hgot
  · exact hall

omit [Cell β] in
theorem t2miAdvance_all {n : ℤ} (hall : t2mi.emb.All good) :
    Leads (fun t => t.emb.All good) (t2miAdvance t2mi p n num) := by
  rw [t2miAdvance]
  simp only
  split_ifs
  all_goals exact hall

theorem t2miPayloadStage_all (hall : t2mi.emb.All good)
    (hcall : ∀ b n, T2miPos.Hands ⟨t2mi, p, num, .payload⟩ b n → good b → ∀ b',
      (bbfOutputTsBytes packet b p n).bbf = some b' → good b') :
    Leads (fun t => t.emb.All good) (t2miPayloadStage packet t2mi p num) := by
  rw [t2miPayloadStage]
  cases hcur : t2mi.emb.currentBbf with
  | none => exact hall
  | some k =>
    simp only
    split_ifs with hnum hpos htype
    · exact hall
    · cases hb : t2mi.emb.bbfStreams k with
      | none => trivial
      | some b =>
        have hhands : T2miPos.Hands ⟨t2mi, p, num, .payload⟩ b
            (min t2mi.t2miPayloadBytesLeft num) :=
          ⟨rfl, ⟨k, hcur, hb⟩, not_not.mp hnum, rfl, hpos, htype⟩
        have hresult := hcall b _ hhands (hall k b hb)
        simp only
        split
        · trivial
        · trivial
        · rename_i b' hout
          exact hall.put (hresult b' (by rw [hout]; rfl))
        · rename_i b' p' hout
          exact t2miAdvance_all (hall.put (hresult b' (by rw [hout]; rfl)))
    · exact t2miAdvance_all hall
    · exact hall

theorem t2miCrcStage_all (hall : t2mi.emb.All good) :
    Leads (fun t => t.emb.All good) (t2miCrcStage packet t2mi p num) := by
  rw [t2miCrcStage]
  simp only
  split_ifs
  all_goals exact hall

/-- A pass of the loop keeps what a reset, a header and the bytes it hands over keep. -/
theorem t2miBody_all (hkept : Kept good) (hall : s.t2mi.emb.All good)
    (hcall : ∀ b num, s.Hands b num → good b → ∀ b',
      (bbfOutputTsBytes packet b s.p num).bbf = some b' → good b') :
    Leads (fun t => t.emb.All good) (t2miBody packet s) := by
  obtain ⟨t2mi, p, num, stage⟩ := s
  cases stage with
  | header => exact t2miHeaderStage_all hall
  | bbheader => exact t2miBbheaderStage_all hkept hall
  | payload => exact t2miPayloadStage_all hall hcall
  | crc => exact t2miCrcStage_all hall

/-- Up to the loop the sub-streams are left alone, or reset. -/
theorem t2miEnter_all (packet : Packet β) (hkept : Kept good) (hall : t2mi.emb.All good) :
    match t2miEnter t2mi packet with
    | .exit t => t.emb.All good
    | .again s => s.t2mi.emb.All good := by
  have henters := t2miEnter_enters t2mi packet
  generalize t2miEnter t2mi packet = next at henters ⊢
  cases henters with
  | reset => exact hall.reset hkept.reset false
  | left => exact hall
  | counted c => exact hall
  | dropped c => exact hall
  | started c p => exact hall

/-- Wherever the loop of a call gets to. -/
theorem t2miVisits_all (hkept : Kept good) (hall : t2mi.emb.All good)
    (hs : t2miEnter t2mi packet = .again s) (ht : Visits (t2miBody packet) s t)
    (hcall : ∀ u, Visits (t2miBody packet) s u → ∀ b num, u.Hands b num → good b → ∀ b',
      (bbfOutputTsBytes packet b u.p num).bbf = some b' → good b') :
    t.t2mi.emb.All good := by
  have henter := t2miEnter_all packet hkept hall
  rw [hs] at henter
  induction ht with
  | start => exact henter
  | pass hv hb ih =>
    have hstep := t2miBody_all hkept ih (hcall _ hv)
    rw [hb] at hstep
    exact hstep

/-- A call of `t2mi_stream_add_packet`. -/
theorem t2miStreamAddPacket_all (hkept : Kept good) (hall : t2mi.emb.All good)
    (hcall : ∀ s u, t2miEnter t2mi packet = .again s → Visits (t2miBody packet) s u →
      ∀ b num, u.Hands b num → good b → ∀ b',
        (bbfOutputTsBytes packet b u.p num).bbf = some b' → good b')
    (hadd : t2miStreamAddPacket t2mi packet = .done t2mi') : t2mi'.emb.All good := by
  rw [t2miStreamAddPacket] at hadd
  cases hs : t2miEnter t2mi packet with
  | exit t =>
    have henter := t2miEnter_all packet hkept hall
    rw [hs] at hadd henter
    cases hadd
    exact henter
  | again s =>
    rw [hs] at hadd
    simp only at hadd
    cases hrun : run (t2miBody packet) t2miPasses s with
    | none =>
      rw [hrun] at hadd
      cases hadd
    | some out =>
      rw [hrun, Option.getD_some] at hadd
      have hends : Ends (t2miBody packet) s (.done t2mi') := ⟨_, hadd ▸ hrun⟩
      obtain ⟨u, hu, hexit⟩ := hends.visits
      have hstep := t2miBody_all hkept (t2miVisits_all hkept hall hs hu (hcall s · hs))
        (hcall s u hs hu)
      rw [hexit] at hstep
      exact hstep

/-- The states a T2-MI stream gets into: packets come in that the state allows, and sub-streams come
    and go, though not the one that `current_bbf` points to. -/
inductive T2miReached (ok : T2miStream β → Packet β → Prop) : T2miStream β → Prop where
  | init (pid : ℤ) (subs : ℕ → Bool) : T2miReached ok (t2miStreamInit pid subs)
  | packet {t t' : T2miStream β} (h : T2miReached ok t) (packet : Packet β) (hok : ok t packet)
      (hadd : t2miStreamAddPacket t packet = .done t') : T2miReached ok t'
  | subscribe {t : T2miStream β} (h : T2miReached ok t) (k : ℕ)
      (hnew : t.emb.bbfStreams k = none) : T2miReached ok { t with emb := t.emb.subscribe k }
  | unsubscribe {t : T2miStream β} (h : T2miReached ok t) (k : ℕ)
      (hother : t.emb.currentBbf ≠ some k) : T2miReached ok { t with emb := t.emb.unsubscribe k }

variable {ok : T2miStream β → Packet β → Prop}

/-- In every reachable state every sub-stream has the property. -/
theorem T2miReached.all (h : T2miReached ok t2mi) (hkept : Kept good)
    (hcall : ∀ (t2mi : T2miStream β) packet s u, ok t2mi packet →
      t2miEnter t2mi packet = .again s → Visits (t2miBody packet) s u → ∀ b num, u.Hands b num →
        good b → ∀ b', (bbfOutputTsBytes packet b u.p num).bbf = some b' → good b') :
    t2mi.emb.All good := by
  induction h with
  | init pid subs =>
    exact (embeddedStreamInit_all hkept pid subs).reset hkept.reset true
  | @packet t t' _ packet hok hadd ih =>
    exact t2miStreamAddPacket_all hkept ih (fun s u hs hu => hcall t packet s u hok hs hu) hadd
  | subscribe _ k hnew ih => exact ih.subscribe hkept k
  | unsubscribe _ k hother ih => exact ih.unsubscribe k

theorem T2miReached.inv (h : T2miReached ok t2mi) : t2mi.Inv := by
  induction h with
  | init pid subs => exact t2miStreamReset_inv _ _
  | packet _ packet hok hadd ih => exact ih.add hadd
  | @subscribe t _ k hnew ih =>
    refine ⟨ih.header, ih.bbheader, ih.crc, ih.unsynced, ih.between, ih.payload, ?_, ?_⟩
    · intro j hj
      obtain ⟨b, hb, hupl⟩ := ih.current j hj
      have hne : j ≠ k := by
        rintro rfl
        rw [hnew] at hb
        cases hb
      exact ⟨b, by rw [EmbeddedStream.subscribe, EmbeddedStream.put_bbfStreams_ne hne, hb], hupl⟩
    · exact @EmbeddedStream.All.put _ t.emb _ _ _ ih.hem (by rintro ⟨⟩)
  | @unsubscribe t _ k hother ih =>
    refine ⟨ih.header, ih.bbheader, ih.crc, ih.unsynced, ih.between, ih.payload, ?_, ?_⟩
    · intro j hj
      obtain ⟨b, hb, hupl⟩ := ih.current j hj
      have hne : j ≠ k := by
        rintro rfl
        exact hother hj
      exact ⟨b, by simpa [EmbeddedStream.unsubscribe, hne] using hb, hupl⟩
    · exact fun j b hb => ih.hem j b (EmbeddedStream.unsubscribe_some hb)

/-! ### STID -/

variable {stid stid' : StidStream β} {starts : Bool}

/-- The first byte of the payload of a transport packet, as the adaptation field gives it. -/
def payloadStart (packet : Packet β) : ℤ :=
  if hasAdaptationField packet then 4 + 1 + (packet.byte 4).toNat else 4

/-- Behind the headers that end at `p` the bytes of a packet are handed to a sub-stream. -/
structure StidStream.HandsAt (stid : StidStream β) (p : ℤ) (starts : Bool) (b : BbframesStream β) :
    Prop where
  current : ∃ k c, stid.emb.currentBbf = some k ∧ stid.emb.bbfStreams k = some c ∧
    b = { c with synced := true } ∧ (c.synced = true ∨ starts = true)
  some : 0 < 188 - p

/-- The bytes of a packet from `p` on are handed to a sub-stream. -/
def StidStream.Hands (stid : StidStream β) (packet : Packet β) (b : BbframesStream β) (p : ℤ) :
    Prop :=
  tsPid packet = stid.emb.embeddingPid ∧ ∃ stid' starts,
    getStidHeader packet stid (payloadStart packet + 1) = .done (stid', p, starts) ∧
      stid'.HandsAt p starts b

/-- The headers read, the position is behind them. -/
theorem getStidHeader_all (hkept : Kept good) (hall : stid.emb.All good)
    (hdone : getStidHeader packet stid p = .done (stid', q, starts)) :
    stid'.emb.All good ∧ p + 4 ≤ q := by
  have hnote : (noteStidHeader packet stid p).emb.All good := hall.of_eq rfl
  rw [getStidHeader] at hdone
  split_ifs at hdone with hstart
  · rw [Outcome.done.injEq] at hdone
    cases hdone
    exact ⟨hnote, Int.le_refl _⟩
  simp only [readStidBbheader] at hdone
  split_ifs at hdone with hbad
  · rw [Outcome.done.injEq] at hdone
    cases hdone
    exact ⟨hnote, Int.le_refl _⟩
  generalize hemb : selectIsi _ _ = emb at hdone
  have hselect : emb.All good := by
    refine hnote.of_eq ?_
    rw [← hemb, selectIsi_bbfStreams, embeddedStreamSetMatype_bbfStreams]
  split at hdone
  · rw [Outcome.done.injEq] at hdone
    cases hdone
    exact ⟨hselect, Int.le_refl _⟩
  · split at hdone
    · cases hdone
    · rename_i b hb
      rw [Outcome.done.injEq] at hdone
      cases hdone
      exact ⟨hselect.put (hkept.parse _ _ _ _ (hselect _ b hb)), by omega⟩

theorem stidOutput_all (hkept : Kept good) (hmark : ∀ b, good b → good { b with synced := true })
    (hall : stid.emb.All good)
    (hcall : ∀ b, stid.HandsAt p starts b → good b → ∀ b',
      (bbfOutputTsBytes packet b p (188 - p)).bbf = some b' → good b')
    (hdone : stidOutput packet stid p starts = .done stid') : stid'.emb.All good := by
  rw [stidOutput] at hdone
  cases hcur : stid.emb.currentBbf with
  | none =>
    rw [hcur] at hdone
    cases hdone
    exact hall
  | some k =>
    simp only [hcur] at hdone
    cases hb : stid.emb.bbfStreams k with
    | none =>
      rw [hb] at hdone
      cases hdone
    | some c =>
      simp only [hb] at hdone
      have hgood : good { c with synced := true } := hmark c (hall k c hb)
      split_ifs at hdone with hskip hend
      · cases hdone
        exact hall
      · cases hdone
        exact hall.put hgood
      · have hstart : c.synced = true ∨ starts = true := by
          by_contra hno
          rw [not_or] at hno
          exact hskip hno
        have hresult := hcall _ ⟨⟨k, c, hcur, hb, rfl, hstart⟩, Int.not_le.mp hend⟩ hgood
        split at hdone
        · rename_i b' hout
          cases hdone
          exact EmbeddedStream.All.reset (hall.put (hresult b' (by rw [hout]; rfl))) hkept.reset
            false
        · rename_i b' q hout
          cases hdone
          exact hall.put (hresult b' (by rw [hout]; rfl))
        · cases hdone
        · cases hdone

theorem stidStreamAddPacket_eq (stid : StidStream β) (packet : Packet β) :
    stidStreamAddPacket stid packet =
      if tsPid packet ≠ stid.emb.embeddingPid then .done stid
      else
        match getStidHeader packet stid (payloadStart packet + 1) with
        | .hang => .hang
        | .wild => .wild
        | .done (stid, p, starts) => stidOutput packet stid p starts := rfl

/-- A call of `stid_stream_add_packet`. -/
theorem stidStreamAddPacket_all (hkept : Kept good)
    (hmark : ∀ b, good b → good { b with synced := true }) (hall : stid.emb.All good)
    (hcall : ∀ b q, stid.Hands packet b q → good b → ∀ b',
      (bbfOutputTsBytes packet b q (188 - q)).bbf = some b' → good b')
    (hdone : stidStreamAddPacket stid packet = .done stid') : stid'.emb.All good := by
  rw [stidStreamAddPacket_eq] at hdone
  split_ifs at hdone with hpid
  · cases hdone
    exact hall
  · split at hdone
    · cases hdone
    · cases hdone
    · rename_i stid₁ q starts hheader
      refine stidOutput_all hkept hmark (getStidHeader_all hkept hall hheader).1 ?_ hdone
      intro b hb
      exact hcall b q ⟨not_not.mp hpid, stid₁, starts, hheader, hb⟩

/-- The states an STID stream gets into. -/
inductive StidReached (ok : StidStream β → Packet β → Prop) : StidStream β → Prop where
  | init (pid : ℤ) (subs : ℕ → Bool) : StidReached ok (stidStreamInit pid subs)
  | packet {t t' : StidStream β} (h : StidReached ok t) (packet : Packet β) (hok : ok t packet)
      (hadd : stidStreamAddPacket t packet = .done t') : StidReached ok t'
  | subscribe {t : StidStream β} (h : StidReached ok t) (k : ℕ)
      (hnew : t.emb.bbfStreams k = none) : StidReached ok { t with emb := t.emb.subscribe k }
  | unsubscribe {t : StidStream β} (h : StidReached ok t) (k : ℕ)
      (hother : t.emb.currentBbf ≠ some k) : StidReached ok { t with emb := t.emb.unsubscribe k }

/-- In every reachable state every sub-stream has the property. -/
theorem StidReached.all {ok : StidStream β → Packet β → Prop} (h : StidReached ok stid)
    (hkept : Kept good) (hmark : ∀ b, good b → good { b with synced := true })
    (hcall : ∀ (stid : StidStream β) packet b q, ok stid packet → stid.Hands packet b q →
      good b → ∀ b', (bbfOutputTsBytes packet b q (188 - q)).bbf = some b' → good b') :
    stid.emb.All good := by
  induction h with
  | init pid subs => exact embeddedStreamInit_all hkept pid subs
  | @packet t t' _ packet hok hadd ih =>
    exact stidStreamAddPacket_all hkept hmark ih (fun b q => hcall t packet b q hok) hadd
  | subscribe _ k hnew ih => exact ih.subscribe hkept k
  | unsubscribe _ k hother ih => exact ih.unsubscribe k

/-! ### Sub-streams of high-efficiency mode -/

theorem hemLength_kept : Kept (HemLength : BbframesStream β → Prop) where
  init := fun _ => by rintro ⟨⟩
  reset := fun _ _ => by rintro ⟨⟩
  parse := fun _ _ _ _ _ => (parseBbheader_lengths ..).2.1

/-- Bytes handed over change neither the mode nor the length of a user packet. -/
theorem hemLength_call {b' : BbframesStream β} (hnum : 0 ≤ num) (h : HemLength b)
    (hb' : (bbfOutputTsBytes packet b p num).bbf = some b') : HemLength b' := by
  have hwithin := bbfOutputTsBytes_within packet p num h hnum
  cases hout : bbfOutputTsBytes packet b p num with
  | null c =>
    rw [hout] at hwithin hb'
    cases hb'
    exact SameFormat.hemLength hwithin h
  | ptr c q =>
    rw [hout] at hwithin hb'
    cases hb'
    exact hwithin.1.hemLength h
  | wild =>
    rw [hout] at hb'
    cases hb'
  | hang =>
    rw [hout] at hb'
    cases hb'

theorem StidReached.hem {ok : StidStream β → Packet β → Prop} (h : StidReached ok stid) :
    stid.emb.All HemLength := by
  refine h.all hemLength_kept (fun _ hb => hb) ?_
  rintro stid packet b q _ ⟨_, _, _, _, hhands⟩ hb b' hb'
  exact hemLength_call (Int.le_of_lt hhands.some) hb hb'

end Demux

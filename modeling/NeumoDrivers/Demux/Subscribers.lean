import NeumoDrivers.Demux.Lookup

/-! One more subscriber.

    Two runs over the same packets are compared, with the sub-streams of `subs` subscribed in the
    first and more in the second. What the decoders share between sub-streams is the pointer to the
    current one, the resets and, for T2-MI, the place in the packets: `Widens` and
    `T2miStream.withStreams` say that the second state is the first with further sub-streams. -/

namespace Demux
open Loop

variable {β : Type} [Cell β] {subs : ℕ → Bool}

/-- `f` holds the sub-streams of `subs` as `emb` has them, and `emb` has no others. -/
structure Extends (subs : ℕ → Bool) (emb : EmbeddedStream β)
    (f : ℕ → Option (BbframesStream β)) : Prop where
  others : ∀ k, subs k = false → emb.bbfStreams k = none
  same : ∀ k, subs k = true → f k = emb.bbfStreams k

section
omit [Cell β]
variable {emb emb' : EmbeddedStream β} {f : ℕ → Option (BbframesStream β)} {k : ℕ}
  {bbf : BbframesStream β}

theorem Extends.of_eq (h : Extends subs emb f) (hemb : emb'.bbfStreams = emb.bbfStreams) :
    Extends subs emb' f :=
  ⟨fun k hk => hemb ▸ h.others k hk, fun k hk => hemb ▸ h.same k hk⟩

theorem Extends.put (h : Extends subs emb f) (hk : subs k = true) :
    Extends subs (emb.put k bbf) (Function.update f k (some bbf)) := by
  constructor
  · intro j hj
    have hne : j ≠ k := by
      rintro rfl
      cases hk.symm.trans hj
    rw [EmbeddedStream.put_bbfStreams_ne hne]
    exact h.others j hj
  · intro j hj
    by_cases hjk : j = k
    · rw [hjk, EmbeddedStream.put_bbfStreams_self, Function.update_self]
    · rw [EmbeddedStream.put_bbfStreams_ne hjk, Function.update_of_ne hjk]
      exact h.same j hj

theorem Extends.put_added (h : Extends subs emb f) (hk : subs k = false) :
    Extends subs emb (Function.update f k (some bbf)) := by
  refine ⟨h.others, fun j hj => ?_⟩
  have hne : j ≠ k := by
    rintro rfl
    cases hk.symm.trans hj
  rw [Function.update_of_ne hne]
  exact h.same j hj

theorem Extends.reset (h : Extends subs emb f) (fullReset : Bool) :
    Extends subs (embeddedStreamReset emb fullReset) fun k => (f k).map bbframesStreamReset := by
  constructor
  · intro k hk
    simp only [embeddedStreamReset, h.others k hk, Option.map_none]
  · intro k hk
    simp only [embeddedStreamReset, h.same k hk]

end

/-! ### STID -/

/-- The second stream is the first with further sub-streams, of which one may be the current one. -/
structure Widens (subs : ℕ → Bool) (emb emb' : EmbeddedStream β) : Prop where
  pid : emb'.embeddingPid = emb.embeddingPid
  isi : emb'.currentIsi = emb.currentIsi
  streams : Extends subs emb emb'.bbfStreams
  pointer : emb.currentBbf = emb'.currentBbf.filter subs
  live : ∀ k, emb'.currentBbf = some k → ∃ bbf, emb'.bbfStreams k = some bbf

section
omit [Cell β]
variable {emb emb' : EmbeddedStream β} {k : ℕ}

/-- A sub-stream of both is the current one, or none is in the first run. -/
theorem Widens.cases (h : Widens subs emb emb') :
    (∃ k, emb.currentBbf = some k ∧ emb'.currentBbf = some k ∧ subs k = true) ∨
      emb.currentBbf = none ∧ ∀ k, emb'.currentBbf = some k → subs k = false := by
  have hp := h.pointer
  cases hc : emb'.currentBbf with
  | none =>
    rw [hc, Option.filter_none] at hp
    refine Or.inr ⟨hp, ?_⟩
    rintro k ⟨⟩
  | some k =>
    cases hk : subs k with
    | true =>
      rw [hc, Option.filter_some_pos hk] at hp
      exact Or.inl ⟨k, hp, rfl, hk⟩
    | false =>
      rw [hc, Option.filter_some_neg (by simp [hk])] at hp
      refine Or.inr ⟨hp, ?_⟩
      rintro j ⟨⟩
      exact hk

theorem Widens.reset (h : Widens subs emb emb') :
    Widens subs (embeddedStreamReset emb false) (embeddedStreamReset emb' false) :=
  ⟨h.pid, rfl, h.streams.reset false, rfl, by rintro k ⟨⟩⟩

theorem Widens.matype (h : Widens subs emb emb') (id : ℕ) (m : UInt8) :
    Widens subs (embeddedStreamSetMatype emb id m) (embeddedStreamSetMatype emb' id m) := by
  refine ⟨?_, ?_, ?_, ?_, ?_⟩
  · rw [embeddedStreamSetMatype_embeddingPid, embeddedStreamSetMatype_embeddingPid, h.pid]
  · rw [embeddedStreamSetMatype_currentIsi, embeddedStreamSetMatype_currentIsi, h.isi]
  · rw [embeddedStreamSetMatype_bbfStreams]
    exact h.streams.of_eq (embeddedStreamSetMatype_bbfStreams ..)
  · rw [embeddedStreamSetMatype_currentBbf, embeddedStreamSetMatype_currentBbf, h.pointer]
  · rw [embeddedStreamSetMatype_currentBbf, embeddedStreamSetMatype_bbfStreams]
    exact h.live

theorem live_put {emb : EmbeddedStream β} (k : ℕ)
    (h : ∀ j, emb.currentBbf = some j → ∃ bbf, emb.bbfStreams j = some bbf)
    (bbf : BbframesStream β) :
    ∀ j, (emb.put k bbf).currentBbf = some j → ∃ b, (emb.put k bbf).bbfStreams j = some b := by
  intro j hj
  by_cases hjk : j = k
  · exact ⟨bbf, hjk ▸ EmbeddedStream.put_bbfStreams_self⟩
  · simp only [EmbeddedStream.put_bbfStreams_ne hjk]
    exact h j hj

theorem Widens.put (h : Widens subs emb emb') (hk : subs k = true) (bbf : BbframesStream β) :
    Widens subs (emb.put k bbf) (emb'.put k bbf) :=
  ⟨h.pid, h.isi, h.streams.put hk, h.pointer, live_put k h.live bbf⟩

theorem Widens.put_added (h : Widens subs emb emb') (hk : subs k = false)
    (bbf : BbframesStream β) : Widens subs emb (emb'.put k bbf) :=
  ⟨h.pid, h.isi, h.streams.put_added hk, h.pointer, live_put k h.live bbf⟩

theorem Widens.select (h : Widens subs emb emb') (isi : ℕ) :
    Widens subs (selectIsi emb isi) (selectIsi emb' isi) := by
  rw [selectIsi, selectIsi, h.isi]
  split
  · refine ⟨h.pid, rfl, h.streams.of_eq rfl, ?_, ?_⟩
    rotate_left
    · intro k hk
      simp only at hk
      split_ifs at hk with hsome
      cases hk
      exact Option.isSome_iff_exists.mp hsome
    cases hk : subs isi with
    | true =>
      simp only [h.streams.same isi hk]
      split
      · rw [Option.filter_some_pos hk]
      · rfl
    | false =>
      simp only [h.streams.others isi hk, Option.isSome_none, Bool.false_eq_true, if_false]
      split
      · rw [Option.filter_some_neg (by simp [hk])]
      · rfl
  · exact h

end

section
variable {stid stid' : StidStream β} {packet : Packet β}

/-- What a header leads to: the same in both runs, unless in the second run an added sub-stream is
    the current one. -/
def HeaderRel (subs : ℕ → Bool) (r r' : StidStream β × ℤ × Bool) : Prop :=
  Widens subs r.1.emb r'.1.emb ∧
    ((∀ k, r'.1.emb.currentBbf = some k → subs k = true) → r.2 = r'.2)

omit [Cell β] in
theorem readStidBbheader_widens (h : Widens subs stid.emb stid'.emb) (p : ℤ)
    (buff : ℕ → UInt8) :
    Outcome.Rel (HeaderRel subs) (readStidBbheader stid p buff) (readStidBbheader stid' p buff) := by
  rw [readStidBbheader, readStidBbheader]
  simp only
  split
  · exact .done ⟨h, fun _ => rfl⟩
  · have hsel := (h.matype (buff 1).toNat (buff 0)).select (stidKey (buff 0) (buff 1))
    generalize selectIsi (embeddedStreamSetMatype stid.emb (buff 1).toNat (buff 0))
      (stidKey (buff 0) (buff 1)) = emb at hsel
    generalize selectIsi (embeddedStreamSetMatype stid'.emb (buff 1).toNat (buff 0))
      (stidKey (buff 0) (buff 1)) = emb' at hsel
    rcases hsel.cases with ⟨k, hcur, hcur', hk⟩ | ⟨hcur, hadded⟩
    · obtain ⟨bbf, hbbf'⟩ := hsel.live k hcur'
      have hbbf : emb.bbfStreams k = some bbf := (hsel.streams.same k hk).symm.trans hbbf'
      simp only [hcur, hcur', hbbf, hbbf']
      exact .done ⟨hsel.put hk _, fun _ => rfl⟩
    · simp only [hcur]
      cases hcur' : emb'.currentBbf with
      | none => exact .done ⟨hsel, fun _ => rfl⟩
      | some k =>
        obtain ⟨bbf, hbbf'⟩ := hsel.live k hcur'
        have hk := hadded k hcur'
        simp only [hbbf']
        refine .done ⟨hsel.put_added hk _, fun hall => ?_⟩
        cases hk.symm.trans (hall k hcur')

theorem getStidHeader_widens (h : Widens subs stid.emb stid'.emb) (p : ℤ) :
    Outcome.Rel (HeaderRel subs) (getStidHeader packet stid p) (getStidHeader packet stid' p) := by
  have hnote : Widens subs (noteStidHeader packet stid p).emb (noteStidHeader packet stid' p).emb :=
    ⟨h.pid, h.isi, h.streams.of_eq rfl, h.pointer, h.live⟩
  rw [getStidHeader, getStidHeader]
  split
  · exact .done ⟨hnote, fun _ => rfl⟩
  · exact readStidBbheader_widens hnote _ _

/-- Bytes for a sub-stream that is not one of `subs` make no error. -/
def StidStream.Spares (subs : ℕ → Bool) (stid : StidStream β) (packet : Packet β) : Prop :=
  tsPid packet = stid.emb.embeddingPid →
    let p : ℤ := if hasAdaptationField packet then 4 + 1 + (packet.byte 4).toNat else 4
    ∀ stid₁ p₁ starts, getStidHeader packet stid (p + 1) = .done (stid₁, p₁, starts) →
      ∀ k bbf, stid₁.emb.currentBbf = some k → subs k = false →
        stid₁.emb.bbfStreams k = some bbf → bbf.synced ∨ starts → p₁ < 188 →
        ∃ bbf' p', bbfOutputTsBytes packet { bbf with synced := true } p₁ (188 - p₁) = .ptr bbf' p'

theorem stidOutput_shared (h : Widens subs stid.emb stid'.emb)
    (hshared : ∀ k, stid'.emb.currentBbf = some k → subs k = true) (p : ℤ) (starts : Bool) :
    Outcome.Rel (fun s s' => Widens subs s.emb s'.emb) (stidOutput packet stid p starts)
      (stidOutput packet stid' p starts) := by
  rw [stidOutput, stidOutput]
  rcases h.cases with ⟨k, hcur, hcur', hk⟩ | ⟨hcur, hadded⟩
  · obtain ⟨bbf, hbbf'⟩ := h.live k hcur'
    have hbbf : stid.emb.bbfStreams k = some bbf := (h.streams.same k hk).symm.trans hbbf'
    simp only [hcur, hcur', hbbf, hbbf']
    split
    · exact .done h
    · split
      · exact .done (h.put hk _)
      · cases bbfOutputTsBytes packet { bbf with synced := true } p (188 - p) with
        | null b => exact .done (h.put hk b).reset
        | ptr b p' => exact .done (h.put hk b)
        | wild => exact .wild
        | hang => exact .hang
  · cases hcur' : stid'.emb.currentBbf with
    | none =>
      simp only [hcur]
      exact .done h
    | some k => cases (hadded k hcur').symm.trans (hshared k hcur')

/-- An added sub-stream takes the bytes that nobody takes in the first run. -/
theorem stidOutput_added (h : Widens subs stid.emb stid'.emb) {k : ℕ}
    (hcur : stid'.emb.currentBbf = some k) (hk : subs k = false) (p p' : ℤ) (starts starts' : Bool)
    (hspares : ∀ bbf, stid'.emb.bbfStreams k = some bbf → bbf.synced ∨ starts' → p' < 188 →
      ∃ b q, bbfOutputTsBytes packet { bbf with synced := true } p' (188 - p') = .ptr b q) :
    Outcome.Rel (fun s s' => Widens subs s.emb s'.emb) (stidOutput packet stid p starts)
      (stidOutput packet stid' p' starts') := by
  have hnone : stid.emb.currentBbf = none := by
    rw [h.pointer, hcur, Option.filter_some_neg (by simp [hk])]
  obtain ⟨bbf, hbbf⟩ := h.live k hcur
  rw [stidOutput, stidOutput]
  simp only [hnone, hcur, hbbf]
  split
  · exact .done h
  · rename_i hgo
    split
    · exact .done (h.put_added hk _)
    · obtain ⟨b, q, hcall⟩ := hspares bbf hbbf (by
        rw [Bool.not_eq_true, Bool.not_eq_true] at hgo
        by_contra hno
        rw [not_or, Bool.not_eq_true, Bool.not_eq_true] at hno
        exact hgo hno) (by omega)
      simp only [hcall]
      exact .done (h.put_added hk b)

/-- One packet. -/
theorem stidStreamAddPacket_widens (h : Widens subs stid.emb stid'.emb)
    (hspares : stid'.Spares subs packet) :
    Outcome.Rel (fun s s' => Widens subs s.emb s'.emb) (stidStreamAddPacket stid packet)
      (stidStreamAddPacket stid' packet) := by
  rw [StidStream.Spares] at hspares
  rw [stidStreamAddPacket, stidStreamAddPacket, h.pid]
  split
  · exact .done h
  · rename_i hpid
    rw [not_not] at hpid
    have hspares' := hspares (by rw [h.pid, hpid])
    simp only at hspares' ⊢
    generalize (if hasAdaptationField packet then 4 + 1 + ((packet.byte 4).toNat : ℤ) else 4) = p
      at hspares' ⊢
    have hhead := @getStidHeader_widens _ _ _ _ _ packet h (p + 1)
    generalize getStidHeader packet stid (p + 1) = x at hhead
    generalize getStidHeader packet stid' (p + 1) = y at hhead hspares'
    cases hhead with
    | hang => exact .hang
    | wild => exact .wild
    | @done r r' hr =>
      obtain ⟨stid₁, p₁, starts⟩ := r
      obtain ⟨stid₁', p₁', starts'⟩ := r'
      obtain ⟨hw, hsame⟩ := hr
      simp only at hw hsame ⊢
      by_cases hshared : ∀ k, stid₁'.emb.currentBbf = some k → subs k = true
      · obtain ⟨rfl, rfl⟩ := Prod.mk.injEq .. ▸ hsame hshared
        exact stidOutput_shared hw hshared _ _
      · obtain ⟨k, hk⟩ := not_forall.mp hshared
        obtain ⟨hcur, hk⟩ := Classical.not_imp.mp hk
        rw [Bool.not_eq_true] at hk
        exact stidOutput_added hw hcur hk _ _ _ _ fun bbf hbbf hgo hlt =>
          hspares' _ _ _ rfl k bbf hcur hk hbbf hgo hlt

end

/-! ### T2-MI -/

/-- The stream with other sub-streams. -/
abbrev T2miStream.withStreams (t2mi : T2miStream β) (f : ℕ → Option (BbframesStream β)) :
    T2miStream β :=
  { t2mi with emb := { t2mi.emb with bbfStreams := f } }

/-- The second state is the first with further sub-streams, of which none is the current one. -/
structure T2miWidens (subs : ℕ → Bool) (t2mi t2mi' : T2miStream β) : Prop where
  eq : t2mi' = t2mi.withStreams t2mi'.emb.bbfStreams
  streams : Extends subs t2mi.emb t2mi'.emb.bbfStreams
  current : ∀ k, t2mi.emb.currentBbf = some k → subs k = true

/-- The same point in the loop. -/
structure PosWidens (subs : ℕ → Bool) (s s' : T2miPos β) : Prop where
  t2mi : T2miWidens subs s.t2mi s'.t2mi
  p : s'.p = s.p
  num : s'.num = s.num
  stage : s'.stage = s.stage

/-- Passes of the loop that keep step. -/
abbrev PassRel (subs : ℕ → Bool) :
    Next (T2miPos β) (Outcome (T2miStream β)) → Next (T2miPos β) (Outcome (T2miStream β)) → Prop :=
  Next.Rel (PosWidens subs) (Outcome.Rel (T2miWidens subs))

section
variable {t2mi : T2miStream β} {f : ℕ → Option (BbframesStream β)} {packet : Packet β} {p num : ℤ}

omit [Cell β] in
theorem T2miWidens.of (h : Extends subs t2mi.emb f)
    (hcur : ∀ k, t2mi.emb.currentBbf = some k → subs k = true) :
    T2miWidens subs t2mi (t2mi.withStreams f) :=
  ⟨rfl, h, hcur⟩

omit [Cell β] in
theorem PassRel.again (h : Extends subs t2mi.emb f)
    (hcur : ∀ k, t2mi.emb.currentBbf = some k → subs k = true) (stage : T2miStage) :
    PassRel subs (.again ⟨t2mi, p, num, stage⟩) (.again ⟨t2mi.withStreams f, p, num, stage⟩) :=
  Next.Rel.again ⟨.of h hcur, rfl, rfl, rfl⟩

omit [Cell β] in
theorem PassRel.done (h : Extends subs t2mi.emb f)
    (hcur : ∀ k, t2mi.emb.currentBbf = some k → subs k = true) :
    PassRel subs (.exit (.done t2mi)) (.exit (.done (t2mi.withStreams f))) :=
  Next.Rel.exit (.done (.of h hcur))

theorem readT2miHeader_with (t2mi : T2miStream β) (f : ℕ → Option (BbframesStream β)) :
    readT2miHeader (t2mi.withStreams f) = (readT2miHeader t2mi).withStreams f := by
  by_cases hcount : 0 ≤ t2mi.emb.packetCount ∧
      (t2mi.emb.packetCount + 1) % 256 ≠ (t2mi.buff.byte 1).toNat
  · simp only [readT2miHeader, T2miStream.withStreams, if_pos hcount]
  · simp only [readT2miHeader, T2miStream.withStreams, if_neg hcount]

/-- The second result is the first with other sub-streams; those of the first and the pointer are as
    they were. -/
def Untouched (t2mi : T2miStream β) (f : ℕ → Option (BbframesStream β)) {γ : Type}
    (r r' : T2miStream β × γ) : Prop :=
  r' = (r.1.withStreams f, r.2) ∧ r.1.emb.bbfStreams = t2mi.emb.bbfStreams ∧
    r.1.emb.currentBbf = t2mi.emb.currentBbf

/-- Reading a packet header does not depend on the sub-streams. -/
theorem getT2miPacketHeader_with (packet : Packet β) (t2mi : T2miStream β)
    (f : ℕ → Option (BbframesStream β)) (p avail : ℤ) :
    Outcome.Rel (Untouched t2mi f) (getT2miPacketHeader packet t2mi p avail)
      (getT2miPacketHeader packet (t2mi.withStreams f) p avail) := by
  have hread : ∀ (t : T2miStream β) (r : ℤ × Bool), t.emb.bbfStreams = t2mi.emb.bbfStreams →
      t.emb.currentBbf = t2mi.emb.currentBbf →
      Untouched t2mi f (readT2miHeader t, r) (readT2miHeader (t.withStreams f), r) := by
    intro t r hs hc
    obtain ⟨_, _, hstreams, hcur, _⟩ := readT2miHeader_spec t
    exact ⟨Prod.ext (readT2miHeader_with t f) rfl, hstreams.trans hs, hcur.trans hc⟩
  rw [getT2miPacketHeader, getT2miPacketHeader]
  simp only
  generalize t2mi.buff.memcpy t2mi.headerIdx
    (packet.read p (min (min avail (6 - t2mi.headerIdx)) (188 - t2mi.headerIdx))) = copied
  cases copied with
  | none =>
    simp only
    split_ifs
    · exact .done ⟨rfl, rfl, rfl⟩
    · exact .done ⟨rfl, rfl, rfl⟩
    · exact .wild
    · exact .wild
  | some buff =>
    by_cases h0 : t2mi.headerIdx = 0
    · simp only [if_pos h0]
      split_ifs
      · exact .done ⟨rfl, rfl, rfl⟩
      · exact .done ⟨rfl, rfl, rfl⟩
      · exact .wild
      · exact .done ⟨rfl, rfl, rfl⟩
      · exact .done ⟨rfl, rfl, rfl⟩
      · exact .done (hread _ _ rfl rfl)
    · simp only [if_neg h0]
      split_ifs
      · exact .done ⟨rfl, rfl, rfl⟩
      · exact .done ⟨rfl, rfl, rfl⟩
      · exact .wild
      · exact .done ⟨rfl, rfl, rfl⟩
      · exact .done ⟨rfl, rfl, rfl⟩
      · exact .done (hread _ _ rfl rfl)

theorem t2miHeaderStage_widens (h : Extends subs t2mi.emb f)
    (hcur : ∀ k, t2mi.emb.currentBbf = some k → subs k = true) :
    PassRel subs (t2miHeaderStage packet t2mi p num)
      (t2miHeaderStage packet (t2mi.withStreams f) p num) := by
  have hread := getT2miPacketHeader_with packet t2mi f p (188 - p)
  rw [t2miHeaderStage, t2miHeaderStage]
  simp only [t2miFrameIsComplete]
  split_ifs
  · exact .done h hcur
  · generalize getT2miPacketHeader packet t2mi p (188 - p) = x at hread
    generalize getT2miPacketHeader packet (t2mi.withStreams f) p (188 - p) = y at hread
    cases hread with
    | hang => exact .exit .hang
    | wild => exact .exit .wild
    | @done r r' hr =>
      obtain ⟨t, p', complete⟩ := r
      obtain ⟨rfl, hstreams, hcur'⟩ := hr
      have ht : Extends subs t.emb f := h.of_eq hstreams
      have htcur : ∀ k, t.emb.currentBbf = some k → subs k = true := fun k hk => hcur k (hcur' ▸ hk)
      simp only
      split_ifs
      · exact .done ht htcur
      · exact .done ht htcur
      · exact .done ht htcur
      · exact @PassRel.again _ _ { t with synced := true } f _ _ ht htcur .bbheader
      · exact @PassRel.done _ _ { t with synced := true } f ht htcur
  · exact .again h hcur .bbheader

omit [Cell β] in
theorem setMatype_with (emb : EmbeddedStream β) (f : ℕ → Option (BbframesStream β)) (id : ℕ)
    (m : UInt8) :
    embeddedStreamSetMatype { emb with bbfStreams := f } id m =
      { embeddedStreamSetMatype emb id m with bbfStreams := f } := by
  unfold embeddedStreamSetMatype
  simp only
  split_ifs <;> rfl

omit [Cell β] in
theorem selectPlp_with {emb : EmbeddedStream β} (h : Extends subs emb f) {plpId d : ℤ}
    (hsel : ∀ k, selectPlp { emb with bbfStreams := f } plpId d = some k → subs k = true) :
    selectPlp { emb with bbfStreams := f } plpId d = selectPlp emb plpId d := by
  have hsome : ∀ k, (f k).isSome = true → subs k = true → (emb.bbfStreams k).isSome = true := by
    intro k hf hk
    rw [← h.same k hk, hf]
  have hnone : ∀ k, ¬ (f k).isSome = true → ¬ (emb.bbfStreams k).isSome = true := by
    intro k hf hemb
    cases hk : subs k with
    | true => exact hf (by rw [h.same k hk, hemb])
    | false =>
      rw [h.others k hk] at hemb
      cases hemb
  simp only [selectPlp] at hsel ⊢
  by_cases hplp : (f plpId.toNat).isSome = true
  · rw [if_pos hplp] at hsel ⊢
    rw [if_pos (hsome _ hplp (hsel _ rfl))]
  · rw [if_neg hplp] at hsel ⊢
    rw [if_neg (hnone _ hplp)]
    by_cases hdefault : plpId = d ∧ (f defaultKey).isSome = true
    · rw [if_pos hdefault] at hsel ⊢
      rw [if_pos ⟨hdefault.1, hsome _ hdefault.2 (hsel _ rfl)⟩]
    · rw [if_neg hdefault, if_neg fun hd => hdefault ⟨hd.1, ?_⟩]
      by_contra hf
      exact hnone _ hf hd.2

/-- Two results that keep step. -/
def Followed (subs : ℕ → Bool) {γ : Type} (r r' : T2miStream β × γ) : Prop :=
  T2miWidens subs r.1 r'.1 ∧ r'.2 = r.2

omit [Cell β] in
theorem T2miWidens.reset (h : Extends subs t2mi.emb f) :
    T2miWidens subs (t2miStreamReset t2mi false) (t2miStreamReset (t2mi.withStreams f) false) :=
  ⟨rfl, h.reset false, by rintro k ⟨⟩⟩

theorem readT2miBbheader_widens (h : Extends subs t2mi.emb f)
    (hcur : ∀ k, t2mi.emb.currentBbf = some k → subs k = true)
    (hsel : (bbheaderMode fun i => t2mi.buff.byte (3 + i)) &&& 0xFE = 0 →
      let plpId : ℤ := (t2mi.buff.byte 1).toNat
      ∀ k, selectPlp { t2mi.emb with bbfStreams := f } plpId
        (if t2mi.defaultIsi < 0 then plpId else t2mi.defaultIsi) = some k → subs k = true) :
    Outcome.Rel (Followed subs) (readT2miBbheader t2mi p)
      (readT2miBbheader (t2mi.withStreams f) p) := by
  simp only [readT2miBbheader]
  by_cases hleft : t2mi.bbheaderBytesLeft = 0
  · rw [if_neg (not_not.mpr hleft), if_neg (not_not.mpr hleft)]
    by_cases hmode : (bbheaderMode fun i => t2mi.buff.byte (3 + i)) &&& 0xFE = 0
    · rw [if_neg (not_not.mpr hmode), if_neg (not_not.mpr hmode)]
      have hfound := hsel hmode
      simp only [setMatype_with, Nat.add_zero, Int.toNat_natCast] at hfound ⊢
      have hemb := embeddedStreamSetMatype_bbfStreams t2mi.emb (t2mi.buff.byte 1).toNat
        (t2mi.buff.byte 3)
      generalize embeddedStreamSetMatype t2mi.emb (t2mi.buff.byte 1).toNat (t2mi.buff.byte 3) = emb
        at hemb ⊢
      have hext : Extends subs emb f := h.of_eq hemb
      generalize (if t2mi.defaultIsi < 0 then ((t2mi.buff.byte 1).toNat : ℤ) else t2mi.defaultIsi) = d
        at hfound ⊢
      have hfound' : ∀ k, selectPlp { emb with bbfStreams := f } (t2mi.buff.byte 1).toNat d = some k →
        subs k = true := hfound
      have hlook := selectPlp_with hext hfound'
      rw [hlook] at hfound' ⊢
      cases hk : selectPlp emb (t2mi.buff.byte 1).toNat d with
      | none =>
        simp only
        refine .done ⟨⟨rfl, hext.of_eq rfl, ?_⟩, rfl⟩
        rintro k ⟨⟩
      | some k =>
        have hshared := hfound' k hk
        have hsame := hext.same k hshared
        have hnow : ∀ j, some k = some j → subs j = true := by
          rintro j ⟨⟩
          exact hshared
        simp only [hsame]
        cases emb.bbfStreams k with
        | none => exact .wild
        | some bbf =>
          simp only
          generalize parseBbheader bbf _ _ _ = bbf'
          by_cases hlong : t2mi.t2miPayloadBytesLeft < bbf'.bbfPayloadBytesLeft
          · simp only [if_pos hlong]
            exact .done ⟨⟨rfl, (hext.put hshared).reset false, by rintro k ⟨⟩⟩, rfl⟩
          · simp only [if_neg hlong]
            exact .done ⟨⟨rfl, (hext.put hshared).of_eq rfl, hnow⟩, rfl⟩
    · rw [if_pos hmode, if_pos hmode]
      exact .done ⟨⟨rfl, (h.of_eq rfl).reset false, by rintro k ⟨⟩⟩, rfl⟩
  · rw [if_pos hleft, if_pos hleft]
    exact .done ⟨⟨rfl, h.of_eq rfl, hcur⟩, rfl⟩

/-- Reading the 13-byte header, if none that is completed is taken over by an added sub-stream. -/
theorem getT2miBbheader_widens (h : Extends subs t2mi.emb f)
    (hcur : ∀ k, t2mi.emb.currentBbf = some k → subs k = true) (hdue : 0 < t2mi.bbheaderBytesLeft)
    (hsel : ∀ buff k, T2miPos.Selects packet ⟨t2mi.withStreams f, p, num, .bbheader⟩ buff k →
      subs k = true) :
    Outcome.Rel (Followed subs) (getT2miBbheader packet t2mi p num)
      (getT2miBbheader packet (t2mi.withStreams f) p num) := by
  simp only [T2miPos.Selects] at hsel
  simp only [getT2miBbheader]
  generalize hcopied : t2mi.buff.memcpy t2mi.bbheaderIdx
    (packet.read p (min num (13 - t2mi.bbheaderIdx))) = copied at hsel ⊢
  cases copied with
  | none =>
    simp only
    split_ifs
    · exact .done ⟨.reset h, rfl⟩
    · exact .wild
    · exact .wild
  | some buff =>
    have hread : ∀ t : T2miStream β, Extends subs t.emb f →
        (∀ k, t.emb.currentBbf = some k → subs k = true) → t.buff = buff →
        t.defaultIsi = t2mi.defaultIsi →
        t2mi.bbheaderIdx + min num (13 - t2mi.bbheaderIdx) = 13 → ∀ p : ℤ,
        Outcome.Rel (Followed subs) (readT2miBbheader t p) (readT2miBbheader (t.withStreams f) p) := by
      intro t ht htcur hbuff hdefault h13 p
      refine readT2miBbheader_widens ht htcur ?_
      rw [hbuff, hdefault]
      intro hmode plpId k hk
      exact hsel buff k ⟨trivial, hdue, rfl, h13, hmode, hk⟩
    by_cases h0 : t2mi.bbheaderIdx = 0
    · simp only [if_pos h0]
      split_ifs
      · exact .done ⟨.reset h, rfl⟩
      · exact .wild
      · exact .done ⟨⟨rfl, (h.of_eq rfl).reset false, by rintro k ⟨⟩⟩, rfl⟩
      · exact .done ⟨⟨rfl, h.of_eq rfl, hcur⟩, rfl⟩
      · refine hread _ ?_ ?_ ?_ ?_ ?_ _
        · exact h.of_eq rfl
        · exact hcur
        · rfl
        · rfl
        · omega
    · simp only [if_neg h0]
      split_ifs
      · exact .done ⟨.reset h, rfl⟩
      · exact .wild
      · exact .done ⟨⟨rfl, (h.of_eq rfl).reset false, by rintro k ⟨⟩⟩, rfl⟩
      · exact .done ⟨⟨rfl, h.of_eq rfl, hcur⟩, rfl⟩
      · refine hread _ ?_ ?_ ?_ ?_ ?_ _
        · exact h.of_eq rfl
        · exact hcur
        · rfl
        · rfl
        · omega

theorem t2miBbheaderStage_widens (h : Extends subs t2mi.emb f)
    (hcur : ∀ k, t2mi.emb.currentBbf = some k → subs k = true)
    (hsel : ∀ buff k, T2miPos.Selects packet ⟨t2mi.withStreams f, p, num, .bbheader⟩ buff k →
      subs k = true) :
    PassRel subs (t2miBbheaderStage packet t2mi p num)
      (t2miBbheaderStage packet (t2mi.withStreams f) p num) := by
  rw [t2miBbheaderStage, t2miBbheaderStage]
  simp only
  split_ifs with hdue hnum
  · exact .done h hcur
  · have hread := getT2miBbheader_widens h hcur hdue hsel
    generalize getT2miBbheader packet t2mi p num = x at hread
    generalize getT2miBbheader packet (t2mi.withStreams f) p num = y at hread
    cases hread with
    | hang => exact .exit .hang
    | wild => exact .exit .wild
    | @done r r' hr =>
      obtain ⟨t, o, complete⟩ := r
      obtain ⟨t', r'⟩ := r'
      obtain ⟨ht, rfl⟩ := hr
      cases o with
      | none => exact .exit (.done ht)
      | some p' =>
        simp only
        split_ifs
        · refine .exit (.done ⟨?_, ht.streams, ht.current⟩)
          exact congrArg (fun u : T2miStream β => { u with synced := false, headerIdx := 0 }) ht.eq
        · exact .exit (.done ht)
        · exact Next.Rel.again ⟨ht, rfl, rfl, rfl⟩
        · exact .exit (.done ht)
  · exact .again h hcur .payload

omit [Cell β] in
theorem t2miAdvance_widens {t2mi t2mi' : T2miStream β} (h : T2miWidens subs t2mi t2mi') (n : ℤ) :
    PassRel subs (t2miAdvance t2mi p n num) (t2miAdvance t2mi' p n num) := by
  rw [h.eq, t2miAdvance, t2miAdvance]
  simp only
  split_ifs
  · exact .done h.streams h.current
  · exact @PassRel.done _ _ { t2mi with t2miPayloadBytesLeft := t2mi.t2miPayloadBytesLeft - n } _
      h.streams h.current
  · exact @PassRel.done _ _ { t2mi with t2miPayloadBytesLeft := t2mi.t2miPayloadBytesLeft - n } _
      h.streams h.current
  · exact @PassRel.again _ _ { t2mi with t2miPayloadBytesLeft := t2mi.t2miPayloadBytesLeft - n } _
      _ _ h.streams h.current .crc

theorem t2miPayloadStage_widens (h : Extends subs t2mi.emb f)
    (hcur : ∀ k, t2mi.emb.currentBbf = some k → subs k = true) :
    PassRel subs (t2miPayloadStage packet t2mi p num)
      (t2miPayloadStage packet (t2mi.withStreams f) p num) := by
  rw [t2miPayloadStage, t2miPayloadStage]
  simp only
  cases hk : t2mi.emb.currentBbf with
  | none => exact .done h hcur
  | some k =>
    have hshared := hcur k hk
    have hnow : ∀ j, some k = some j → subs j = true := by
      rintro j ⟨⟩
      exact hshared
    simp only [h.same k hshared]
    split_ifs
    · exact .done h hcur
    · cases t2mi.emb.bbfStreams k with
      | none => exact .exit .wild
      | some bbf =>
        simp only
        cases bbfOutputTsBytes packet bbf p (min t2mi.t2miPayloadBytesLeft num) with
        | hang => exact .exit .hang
        | wild => exact .exit .wild
        | null b =>
          refine .exit (.done ⟨?_, h.put hshared, hcur⟩)
          rw [← hk]
          exact rfl
        | ptr b p' =>
          refine t2miAdvance_widens (T2miWidens.mk ?_ ?_ ?_) _
          · rw [← hk]
            exact rfl
          · exact h.put hshared
          · exact hcur
    · refine t2miAdvance_widens (T2miWidens.mk ?_ ?_ ?_) _
      · rw [← hk]
      · exact h
      · exact hcur
    · exact .again h hcur .crc

theorem t2miCrcStage_widens (h : Extends subs t2mi.emb f)
    (hcur : ∀ k, t2mi.emb.currentBbf = some k → subs k = true) :
    PassRel subs (t2miCrcStage packet t2mi p num)
      (t2miCrcStage packet (t2mi.withStreams f) p num) := by
  rw [t2miCrcStage, t2miCrcStage]
  simp only
  split_ifs
  · exact .done h hcur
  · exact .done h hcur
  · exact .exit (.done ⟨rfl, h.of_eq rfl, hcur⟩)
  · exact .exit (.done ⟨rfl, h.of_eq rfl, hcur⟩)
  · exact Next.Rel.again ⟨⟨rfl, h.of_eq rfl, hcur⟩, rfl, rfl, rfl⟩
  · exact Next.Rel.again ⟨⟨rfl, h.of_eq rfl, hcur⟩, rfl, rfl, rfl⟩
  · exact .again h hcur .header

/-- One stretch of the loop. -/
theorem t2miBody_widens {s s' : T2miPos β} (h : PosWidens subs s s')
    (hsel : ∀ buff k, s'.Selects packet buff k → subs k = true) :
    PassRel subs (t2miBody packet s) (t2miBody packet s') := by
  obtain ⟨t2mi, p, num, stage⟩ := s
  obtain ⟨t2mi', p', num', stage'⟩ := s'
  obtain ⟨⟨heq, hext, hcur⟩, hp, hnum, hstage⟩ := h
  simp only at heq hext hcur hp hnum hstage
  subst hp hnum hstage
  rw [heq] at hsel ⊢
  cases stage' with
  | header => exact t2miHeaderStage_widens hext hcur
  | bbheader => exact t2miBbheaderStage_widens hext hcur hsel
  | payload => exact t2miPayloadStage_widens hext hcur
  | crc => exact t2miCrcStage_widens hext hcur

/-- Up to the loop. -/
theorem t2miEnter_widens (hext : Extends subs t2mi.emb f)
    (hcur : ∀ k, t2mi.emb.currentBbf = some k → subs k = true) (packet : Packet β) :
    Next.Rel (PosWidens subs) (T2miWidens subs) (t2miEnter t2mi packet)
      (t2miEnter (t2mi.withStreams f) packet) := by
  rw [t2miEnter, t2miEnter]
  split
  · exact .exit ⟨rfl, hext, hcur⟩
  · split
    · exact .exit ⟨rfl, hext, hcur⟩
    · split
      · exact .exit ⟨rfl, hext, hcur⟩
      · simp only
        generalize (if hasAdaptationField packet then 4 + 1 + ((packet.byte 4).toNat : ℤ) else 4) = p
        split
        · exact .exit ⟨rfl, hext, hcur⟩
        · split
          · exact .exit ⟨rfl, (hext.of_eq rfl).reset false, by rintro k ⟨⟩⟩
          · split
            · split
              · exact .exit ⟨rfl, hext.of_eq rfl, hcur⟩
              · split
                · exact .again ⟨⟨rfl, hext.of_eq rfl, hcur⟩, rfl, rfl, rfl⟩
                · split
                  · exact .exit ⟨rfl, hext.of_eq rfl, hcur⟩
                  · exact .again ⟨⟨rfl, hext.of_eq rfl, hcur⟩, rfl, rfl, rfl⟩
            · exact .again ⟨⟨rfl, hext.of_eq rfl, hcur⟩, rfl, rfl, rfl⟩

/-- No header in the packet is taken over by a sub-stream that is not one of `subs`. -/
def T2miStream.Spares (subs : ℕ → Bool) (t2mi : T2miStream β) (packet : Packet β) : Prop :=
  ∀ s u, t2miEnter t2mi packet = .again s → Visits (t2miBody packet) s u →
    ∀ buff k, u.Selects packet buff k → subs k = true

/-- One packet. -/
theorem t2miStreamAddPacket_widens {t2mi t2mi' : T2miStream β} (h : T2miWidens subs t2mi t2mi')
    (hspares : t2mi'.Spares subs packet) :
    Outcome.Rel (T2miWidens subs) (t2miStreamAddPacket t2mi packet)
      (t2miStreamAddPacket t2mi' packet) := by
  have henter := t2miEnter_widens h.streams h.current packet
  rw [← h.eq] at henter
  rw [t2miStreamAddPacket, t2miStreamAddPacket]
  rw [T2miStream.Spares] at hspares
  generalize t2miEnter t2mi packet = x at henter
  generalize t2miEnter t2mi' packet = y at henter hspares
  cases henter with
  | exit hq => exact .done hq
  | @again s s' hr =>
    have hrun := @run_rel _ _ _ _ (PosWidens subs) (Outcome.Rel (T2miWidens subs))
      (t2miBody packet) (t2miBody packet) (fun u => ∀ buff k, u.Selects packet buff k → subs k = true)
      (fun _ _ hr hok => t2miBody_widens hr hok) t2miPasses _ _ hr
      (fun u hu => hspares s' u rfl hu)
    simp only
    generalize run (t2miBody packet) t2miPasses s = a at hrun
    generalize run (t2miBody packet) t2miPasses s' = b at hrun
    cases hrun with
    | none => exact .hang
    | some h' => exact h'

end

/-! ### Runs -/

section
variable {subs' : ℕ → Bool}

theorem embeddedStreamInit_extends (hsub : ∀ k, subs k = true → subs' k = true) (pid : ℤ) :
    Extends subs (embeddedStreamInit pid subs : EmbeddedStream β)
      (embeddedStreamInit pid subs' : EmbeddedStream β).bbfStreams := by
  constructor
  · intro k hk
    simp only [embeddedStreamInit, embeddedStreamReset, hk, Bool.false_eq_true, if_false,
      Option.map_none]
  · intro k hk
    simp only [embeddedStreamInit, embeddedStreamReset, hk, hsub k hk, if_true]

/-- Subscribing to more leaves what is delivered to the others as it was: for STID as long as the
    bytes of the added sub-streams make no error, for T2-MI as long as no header is taken over by an
    added sub-stream. -/
theorem subscribers_unaffected (hsub : ∀ k, subs k = true → subs' k = true) (pid : ℤ)
    (packets : List (Packet β)) :
    (Outcome.Meets stidStreamAddPacket (StidStream.Spares subs) (stidStreamInit pid subs') packets →
      Outcome.Rel (fun s s' => ∀ k, subs k = true → s'.emb.bbfStreams k = s.emb.bbfStreams k)
        (stidRun (stidStreamInit pid subs) packets)
        (stidRun (stidStreamInit pid subs') packets)) ∧
    (Outcome.Meets t2miStreamAddPacket (T2miStream.Spares subs) (t2miStreamInit pid subs') packets →
      Outcome.Rel (fun s s' => ∀ k, subs k = true → s'.emb.bbfStreams k = s.emb.bbfStreams k)
        (t2miRun (t2miStreamInit pid subs) packets)
        (t2miRun (t2miStreamInit pid subs') packets)) := by
  have hext := @embeddedStreamInit_extends β _ subs subs' hsub pid
  constructor
  · intro hmeets
    have hinit : Widens subs (stidStreamInit pid subs : StidStream β).emb
        (stidStreamInit pid subs' : StidStream β).emb :=
      ⟨rfl, rfl, hext, rfl, by rintro k ⟨⟩⟩
    have hrun := @Outcome.Rel.run_meets _ _ _
      (fun s s' : StidStream β => Widens subs s.emb s'.emb) stidStreamAddPacket
      stidStreamAddPacket (StidStream.Spares subs) (fun _ _ _ => stidStreamAddPacket_widens)
      packets _ _ hinit hmeets
    exact hrun.mono fun _ _ h => h.streams.same
  · intro hmeets
    have hinit : T2miWidens subs (t2miStreamInit pid subs : T2miStream β)
        (t2miStreamInit pid subs') := by
      refine ⟨rfl, hext.reset true, ?_⟩
      rintro k ⟨⟩
    have hrun := @Outcome.Rel.run_meets _ _ _ (T2miWidens subs) t2miStreamAddPacket
      t2miStreamAddPacket (T2miStream.Spares subs) (fun _ _ _ => t2miStreamAddPacket_widens)
      packets _ _ hinit hmeets
    exact hrun.mono fun _ _ h => h.streams.same

end

omit [Cell β] in
theorem selectPlp_le {emb : EmbeddedStream β} {plpId : UInt8} {d : ℤ} {k : ℕ}
    (h : selectPlp emb plpId.toNat d = some k) : k ≤ defaultKey := by
  have := plpId.toNat_lt
  simp only [selectPlp, Int.toNat_natCast] at h
  split_ifs at h
  · cases h
    rw [defaultKey]
    omega
  · cases h
    exact Nat.le_refl _

/-- A packet of pid 270 in which a BBFRAME of ISI 3 begins. -/
def isi3Start : Packet UInt8 := Packet.ofList
  [0x47, 0x41, 0x0E, 0x10, 0x00, 0x80, 0x00, 0xB4, 0xB8,
    0x00, 0x03, 0x00, 0x00, 0x05, 0xD8, 0x00, 0x00, 0x00, 0xB0]

/-- All keys that can be asked for, and more. -/
theorem subscribers_unaffected_isi3 :
    (Outcome.Rel
      (fun s s' => ∀ k, decide (k ≤ defaultKey) = true → s'.emb.bbfStreams k = s.emb.bbfStreams k)
      (stidRun (stidStreamInit 270 fun k => k ≤ defaultKey) [isi3Start])
      (stidRun (stidStreamInit 270 fun _ => true) [isi3Start])) ∧
    Outcome.Rel
      (fun s s' => ∀ k, decide (k ≤ defaultKey) = true → s'.emb.bbfStreams k = s.emb.bbfStreams k)
      (t2miRun (t2miStreamInit 270 fun k => k ≤ defaultKey) [isi3Start])
      (t2miRun (t2miStreamInit 270 fun _ => true) [isi3Start]) := by
  obtain ⟨hstid, ht2mi⟩ := @subscribers_unaffected UInt8 _ (fun k => k ≤ defaultKey) (fun _ => true)
    (fun _ _ => rfl) 270 [isi3Start]
  refine ⟨hstid ⟨?_, fun _ _ => trivial⟩, ht2mi ⟨?_, fun _ _ => trivial⟩⟩
  · obtain ⟨r, hhead, hthree⟩ := Outcome.holds_iff.mp
      (show (getStidHeader isi3Start (stidStreamInit 270 fun _ => true) (4 + 1)).holds
        (fun r => decide (r.1.emb.currentBbf = some 3)) = true by decide +kernel)
    intro _ p stid₁ p₁ starts hget k bbf hcur hk
    rw [show p = 4 from rfl] at hget
    cases hhead.symm.trans hget
    cases hcur.symm.trans (of_decide_eq_true hthree)
    cases hk
  · rintro s u _ _ buff k ⟨_, _, _, _, _, hsel⟩
    exact decide_eq_true (selectPlp_le hsel)

/-- Two packets of pid 270 with a T2-MI packet of PLP 3: one user packet in a BBFRAME. -/
def plp3Packets : List (Packet UInt8) :=
  [Packet.ofList
    [0x47, 0x41, 0x0E, 0x10, 0x00,
      0x00, 0x00, 0x00, 0x00, 0x06, 0x40,
      0x00, 0x03, 0x00, 0x00, 0x03, 0x00, 0x00, 0x05, 0xD8, 0x00, 0x00, 0x00, 0xB0],
    Packet.ofList [0x47, 0x01, 0x0E, 0x11]]

/-- How many user packets a sub-stream has been handed. -/
def fedCount (out : Outcome (T2miStream UInt8)) (k : ℕ) : ℕ :=
  match out with
  | .done t2mi => ((t2mi.emb.bbfStreams k).map fun b => b.feeds.length).getD 0
  | _ => 0

theorem plp3_fed :
    fedCount (t2miRun (t2miStreamInit 270 fun k => k = defaultKey) plp3Packets) defaultKey = 1 ∧
      fedCount (t2miRun (t2miStreamInit 270 fun k => k = defaultKey ∨ k = 3) plp3Packets) defaultKey
        = 0 := by
  decide +kernel

/-- The user without a PLP of its own loses its data to one that asks for PLP 3. -/
theorem default_user_starved :
    ¬ ∀ (subs subs' : ℕ → Bool) (pid : ℤ) (packets : List (Packet UInt8)),
      (∀ k, subs k = true → subs' k = true) →
      Outcome.Rel (fun s s' => ∀ k, subs k = true → s'.emb.bbfStreams k = s.emb.bbfStreams k)
        (t2miRun (t2miStreamInit pid subs) packets) (t2miRun (t2miStreamInit pid subs') packets) := by
  intro hclaim
  have hrel := hclaim (fun k => k = defaultKey) (fun k => k = defaultKey ∨ k = 3) 270 plp3Packets
    fun k hk => decide_eq_true (Or.inl (of_decide_eq_true hk))
  obtain ⟨hone, hzero⟩ := plp3_fed
  generalize t2miRun (t2miStreamInit 270 fun k => k = defaultKey) plp3Packets = x at hrel hone
  generalize t2miRun (t2miStreamInit 270 fun k => k = defaultKey ∨ k = 3) plp3Packets = y
    at hrel hzero
  cases hrel with
  | done h =>
    rw [fedCount, h defaultKey (by decide)] at hzero
    rw [fedCount, hzero] at hone
    cases hone
  | hang => cases hone
  | wild => cases hone

end Demux

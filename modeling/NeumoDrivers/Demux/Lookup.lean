import Mathlib
import NeumoDrivers.Demux.T2miLoop
import NeumoDrivers.Demux.Stid

/-! Looking sub-streams up while packets are taken in.

    `bbf_streams` is indexed by a C `int`, so its entries stand below `placeLimit`. A packet neither
    adds an entry nor removes one. What it may change is the id an entry keeps of itself, which
    `bbframes_stream_release_` will look for, and `currentBbf`, the entry last looked up. STID
    writes the key it looked up back as the id; T2-MI writes the ISI byte of the header
    (`T2miPos.OwnIsi`). -/

namespace Demux
open Loop

variable {β : Type} [Cell β]

/-- Where `bbf_streams` ends. -/
def placeLimit : ℕ := 2 ^ 31

/-- Every entry has the key it stands under as its id. -/
def EmbeddedStream.Tied (emb : EmbeddedStream β) : Prop :=
  ∀ k < placeLimit, ∀ b, emb.bbfStreams k = some b → b.isi = k

/-- The same streams, the entries among them with the same ids. -/
structure SameIds (emb emb' : EmbeddedStream β) : Prop where
  isSome : ∀ k, (emb'.bbfStreams k).isSome = (emb.bbfStreams k).isSome
  isi : ∀ k < placeLimit,
    (emb'.bbfStreams k).map BbframesStream.isi = (emb.bbfStreams k).map BbframesStream.isi

section
omit [Cell β]
variable {emb emb' emb'' : EmbeddedStream β} {k : ℕ} {b b' : BbframesStream β}

theorem SameIds.refl (emb : EmbeddedStream β) : SameIds emb emb := ⟨fun _ => rfl, fun _ _ => rfl⟩

theorem SameIds.trans (h : SameIds emb emb') (h' : SameIds emb' emb'') : SameIds emb emb'' :=
  ⟨fun k => (h'.isSome k).trans (h.isSome k), fun k hk => (h'.isi k hk).trans (h.isi k hk)⟩

theorem SameIds.of_eq (h : emb'.bbfStreams = emb.bbfStreams) : SameIds emb emb' :=
  ⟨fun k => by rw [h], fun k _ => by rw [h]⟩

theorem SameIds.tied (h : SameIds emb emb') (ht : emb.Tied) : emb'.Tied := by
  intro k hk b' hb'
  have hids := h.isi k hk
  rw [hb', Option.map_some] at hids
  obtain ⟨b, hb, hisi⟩ := Option.map_eq_some_iff.mp hids.symm
  exact hisi.symm.trans (ht k hk b hb)

theorem SameIds.put (hb : emb.bbfStreams k = some b) (hisi : k < placeLimit → b'.isi = b.isi) :
    SameIds emb (emb.put k b') := by
  constructor
  · intro j
    by_cases hj : j = k
    · rw [hj, EmbeddedStream.put_bbfStreams_self, hb, Option.isSome_some, Option.isSome_some]
    · rw [EmbeddedStream.put_bbfStreams_ne hj]
  · intro j hlt
    by_cases hj : j = k
    · subst hj
      rw [EmbeddedStream.put_bbfStreams_self, hb, Option.map_some, Option.map_some, hisi hlt]
    · rw [EmbeddedStream.put_bbfStreams_ne hj]

theorem SameIds.reset (emb : EmbeddedStream β) (fullReset : Bool) :
    SameIds emb (embeddedStreamReset emb fullReset) := by
  constructor
  · intro k
    simp only [embeddedStreamReset, Option.isSome_map]
  · intro k _
    simp only [embeddedStreamReset, Option.map_map]
    rfl

theorem selectPlp_congr (h : SameIds emb emb') (plpId defaultIsi : ℤ) :
    selectPlp emb' plpId defaultIsi = selectPlp emb plpId defaultIsi := by
  rw [selectPlp, selectPlp, h.isSome, h.isSome]

theorem selectPlp_lt {plpId defaultIsi : ℤ} (hplp : plpId < placeLimit)
    (h : selectPlp emb plpId defaultIsi = some k) : k < placeLimit := by
  simp only [selectPlp] at h
  split_ifs at h
  · cases h
    simp only [placeLimit] at hplp ⊢
    omega
  · cases h
    decide

end

/-! ### A call of the decoder of user packets -/

/-- The stream after a call. -/
def BbfOut.bbf : BbfOut β → Option (BbframesStream β)
  | .null b => some b
  | .ptr b _ => some b
  | _ => none

theorem openUserPacket_isi {packet : Packet β} {s : BbfPos β} :
    (∀ b, openUserPacket packet s = .error b → b.isi = s.bbf.isi) ∧
      ∀ u, openUserPacket packet s = .ok u → u.bbf.isi = s.bbf.isi := by
  constructor
  · intro b hb
    simp only [openUserPacket] at hb
    split_ifs at hb
    cases hb
    rfl
  · intro u hu
    simp only [openUserPacket] at hu
    split_ifs at hu <;> cases hu <;> rfl

theorem storeUserBytes_isi {packet : Packet β} {b : BbframesStream β} {p n : ℤ} :
    (∀ r, storeUserBytes packet b p n = .error r → ∀ b' ∈ r.bbf, b'.isi = b.isi) ∧
      ∀ b', storeUserBytes packet b p n = .ok b' → b'.isi = b.isi := by
  constructor
  · intro r hr b' hb'
    simp only [storeUserBytes] at hr
    split at hr
    · split at hr
      · cases hr
        cases hb'
        rfl
      · split at hr
        · cases hr
          cases hb'
          rfl
        · split at hr <;> cases hr
          cases hb'
    · cases hr
  · intro b' hb'
    simp only [storeUserBytes] at hb'
    split at hb'
    · split at hb'
      · cases hb'
      · split at hb'
        · cases hb'
        · split at hb' <;> cases hb'
          rfl
    · cases hb'
      rfl

omit [Cell β] in
theorem deliverIfComplete_isi (b : BbframesStream β) : (deliverIfComplete b).isi = b.isi := by
  rw [deliverIfComplete]
  split <;> rfl

omit [Cell β] in
theorem closeUserPacket_isi {s : BbfPos β} {n out : ℤ} :
    (∀ t, closeUserPacket s n out = .again t → t.bbf.isi = s.bbf.isi) ∧
      ∀ r, closeUserPacket s n out = .exit r → ∀ b ∈ r.bbf, b.isi = s.bbf.isi := by
  constructor
  · intro t ht
    simp only [closeUserPacket] at ht
    split_ifs at ht
    cases ht
    exact deliverIfComplete_isi _
  · intro r hr b hb
    simp only [closeUserPacket] at hr
    split_ifs at hr
    · cases hr
      cases hb
      rfl
    · cases hr
      cases hb
      exact deliverIfComplete_isi _

/-- A pass keeps the id, whether the loop goes on or not. -/
theorem bbfBody_isi {packet : Packet β} {s : BbfPos β} :
    (∀ t, bbfBody packet s = .again t → t.bbf.isi = s.bbf.isi) ∧
      ∀ r, bbfBody packet s = .exit r → ∀ b ∈ r.bbf, b.isi = s.bbf.isi := by
  obtain ⟨hopenError, hopenOk⟩ := @openUserPacket_isi _ _ packet s
  rw [bbfBody]
  split
  · split
    · rename_i b hb
      constructor
      · rintro t ⟨⟩
      · rintro r ⟨⟩ b' ⟨⟩
        exact hopenError _ hb
    · rename_i u hu
      have hisi := hopenOk u hu
      simp only
      split_ifs
      · constructor
        · rintro t ⟨⟩
        · rintro r ⟨⟩ b' ⟨⟩
          exact hisi
      · split
        · rename_i r hr
          constructor
          · rintro t ⟨⟩
          · rintro r ⟨⟩ b' hb'
            exact (storeUserBytes_isi.1 _ hr b' hb').trans hisi
        · rename_i b hb
          have hstored : b.isi = s.bbf.isi := (storeUserBytes_isi.2 _ hb).trans hisi
          constructor
          · intro t ht
            exact (closeUserPacket_isi.1 t ht).trans hstored
          · intro r hr b' hb'
            exact (closeUserPacket_isi.2 r hr b' hb').trans hstored
  · constructor
    · rintro t ⟨⟩
    · rintro r ⟨⟩ b' ⟨⟩
      rfl

theorem bbfLoop_isi {packet : Packet β} {s : BbfPos β} :
    ∀ b ∈ (bbfLoop packet s).bbf, b.isi = s.bbf.isi := by
  rw [bbfLoop]
  cases hrun : run (bbfBody packet) (bbfPasses s) s with
  | none => rintro b ⟨⟩
  | some r =>
    intro b hb
    obtain ⟨t, ht, hexit⟩ := Ends.visits ⟨_, hrun⟩
    have hisi : t.bbf.isi = s.bbf.isi :=
      @Visits.invariant _ _ _ _ _ (fun u => u.bbf.isi = s.bbf.isi) rfl
        (fun _ v hu hv => (bbfBody_isi.1 v hv).trans hu) ht
    exact (bbfBody_isi.2 r hexit b hb).trans hisi

theorem bbfOutputTsBytes_isi {packet : Packet β} {bbf : BbframesStream β} {p n : ℤ} :
    ∀ b ∈ (bbfOutputTsBytes packet bbf p n).bbf, b.isi = bbf.isi := by
  intro b hb
  rw [bbfOutputTsBytes] at hb
  split_ifs at hb
  · exact bbfLoop_isi b hb
  · simp only at hb
    split_ifs at hb
    · cases hb
      rfl
    · cases hb
      rfl
    · exact bbfLoop_isi b hb

/-! ### STID -/

/-- The entry for the id that is being received; none is before the first header. -/
def StidStream.sought (stid : StidStream β) : Option ℕ :=
  if stid.emb.currentIsi < 0 then none
  else if (stid.emb.bbfStreams stid.emb.currentIsi.toNat).isSome then some stid.emb.currentIsi.toNat
  else none

/-- An entry that `currentBbf` points to is that of the id being received. -/
def StidStream.Matched (stid : StidStream β) : Prop :=
  ∀ k < placeLimit, stid.emb.currentBbf = some k → stid.emb.currentIsi = k

/-- `currentBbf` is what a lookup finds. -/
structure StidStream.Cached (stid : StidStream β) : Prop where
  isi : stid.emb.currentIsi < placeLimit
  pointer : stid.emb.currentBbf = stid.sought

/-- What a packet leaves as it was. -/
structure StidStream.Keeps (stid stid' : StidStream β) : Prop where
  ids : SameIds stid.emb stid'.emb
  matched : stid'.Matched
  cached : stid.Cached → stid'.Cached

section
omit [Cell β]
variable {stid stid' stid'' : StidStream β}

theorem StidStream.Keeps.trans (h : stid.Keeps stid') (h' : stid'.Keeps stid'') :
    stid.Keeps stid'' :=
  ⟨h.ids.trans h'.ids, h'.matched, fun hc => h'.cached (h.cached hc)⟩

/-- The id being received and the pointer are those of before. -/
theorem StidStream.Matched.keeps (hm : stid.Matched) (hids : SameIds stid.emb stid'.emb)
    (hcur : stid'.emb.currentBbf = stid.emb.currentBbf)
    (hisi : stid'.emb.currentIsi = stid.emb.currentIsi) : stid.Keeps stid' := by
  refine ⟨hids, ?_, ?_⟩
  · intro k hk hkcur
    rw [hisi]
    exact hm k hk (hcur ▸ hkcur)
  · intro hc
    refine ⟨hisi ▸ hc.isi, ?_⟩
    rw [StidStream.sought, hisi, hids.isSome, hcur]
    exact hc.pointer

end

theorem stidKey_lt (matype isi : UInt8) : stidKey matype isi < placeLimit := by
  have := isi.toNat_lt
  rw [stidKey, placeLimit]
  split
  · decide
  · omega

omit [Cell β] in
/-- After a header the pointer is where the lookup leads, if it was before. -/
theorem selectIsi_keeps {stid : StidStream β} (hm : stid.Matched) {isi : ℕ}
    (hisi : isi < placeLimit) {emb : EmbeddedStream β} (hstreams : emb.bbfStreams = stid.emb.bbfStreams)
    (hcur : emb.currentBbf = stid.emb.currentBbf) (hcurIsi : emb.currentIsi = stid.emb.currentIsi) :
    stid.Keeps { stid with emb := selectIsi emb isi } ∧ (selectIsi emb isi).currentIsi = isi ∧
      (selectIsi emb isi).bbfStreams = stid.emb.bbfStreams := by
  rw [selectIsi]
  split
  · refine ⟨⟨SameIds.of_eq hstreams, ?_, fun _ => ?_⟩, rfl, hstreams⟩
    · intro k _ hk
      simp only at hk
      split_ifs at hk
      cases hk
      rfl
    · have hpos : ¬ (isi : ℤ) < 0 := by omega
      refine ⟨Int.ofNat_lt.mpr hisi, ?_⟩
      simp only [StidStream.sought, Int.toNat_natCast, if_neg hpos]
  · rename_i hsame
    rw [not_not] at hsame
    exact ⟨hm.keeps (SameIds.of_eq hstreams) hcur hcurIsi, hsame.symm, hstreams⟩

omit [Cell β] in
theorem readStidBbheader_keeps {stid : StidStream β} (hm : stid.Matched) (ht : stid.emb.Tied)
    {p p' : ℤ} {buff : ℕ → UInt8} {stid' : StidStream β} {starts : Bool}
    (h : readStidBbheader stid p buff = .done (stid', p', starts)) : stid.Keeps stid' := by
  rw [readStidBbheader] at h
  simp only at h
  split at h
  · cases h
    exact hm.keeps (SameIds.refl _) rfl rfl
  · obtain ⟨hkeeps, hisi, hstreams⟩ := selectIsi_keeps hm (stidKey_lt (buff 0) (buff 1))
      (embeddedStreamSetMatype_bbfStreams stid.emb (buff 1).toNat (buff 0))
      (embeddedStreamSetMatype_currentBbf ..) (embeddedStreamSetMatype_currentIsi ..)
    generalize selectIsi (embeddedStreamSetMatype stid.emb (buff 1).toNat (buff 0))
      (stidKey (buff 0) (buff 1)) = emb at h hkeeps hisi hstreams
    split at h
    · cases h
      exact hkeeps
    · rename_i k hk
      split at h
      · cases h
      · rename_i bbf hbbf
        cases h
        refine hkeeps.trans (hkeeps.matched.keeps (SameIds.put hbbf fun hlt => ?_) rfl rfl)
        -- the key written into the header's stream is the id it has
        have hkey : emb.currentIsi = k := hkeeps.matched k hlt hk
        have hbbf' : bbf.isi = k := (hkeeps.ids.tied ht) k hlt bbf hbbf
        rw [hbbf', ← hkey, hisi]
        rfl

theorem stidOutput_keeps {packet : Packet β} {stid : StidStream β} (hm : stid.Matched) {p : ℤ}
    {starts : Bool} {stid' : StidStream β} (h : stidOutput packet stid p starts = .done stid') :
    stid.Keeps stid' := by
  rw [stidOutput] at h
  split at h
  · cases h
    exact hm.keeps (SameIds.refl _) rfl rfl
  · split at h
    · cases h
    · rename_i k hk bbf hbbf
      split at h
      · cases h
        exact hm.keeps (SameIds.refl _) rfl rfl
      · simp only at h
        split at h
        · cases h
          exact hm.keeps (SameIds.put hbbf fun _ => rfl) rfl rfl
        · have hcall := @bbfOutputTsBytes_isi _ _ packet { bbf with synced := true } p (188 - p)
          generalize bbfOutputTsBytes packet { bbf with synced := true } p (188 - p) = out at h hcall
          cases out with
          | null b =>
            cases h
            refine ⟨(SameIds.put hbbf fun _ => hcall b rfl).trans (SameIds.reset _ false), ?_, ?_⟩
            · rintro j _ ⟨⟩
            · exact fun _ =>
                ⟨Int.lt_of_lt_of_le (Int.negSucc_lt_zero 0) (Int.natCast_nonneg placeLimit), rfl⟩
          | ptr b p' =>
            cases h
            exact hm.keeps (SameIds.put hbbf fun _ => hcall b rfl) rfl rfl
          | wild => cases h
          | hang => cases h

/-- A packet of an STID stream. -/
theorem stidStreamAddPacket_keeps {stid stid' : StidStream β} (hm : stid.Matched)
    (ht : stid.emb.Tied) {packet : Packet β}
    (h : stidStreamAddPacket stid packet = .done stid') : stid.Keeps stid' := by
  rw [stidStreamAddPacket] at h
  split at h
  · cases h
    exact hm.keeps (SameIds.refl _) rfl rfl
  · simp only at h
    generalize (if hasAdaptationField packet then 4 + 1 + ((packet.byte 4).toNat : ℤ) else 4) = p at h
    split at h
    · cases h
    · cases h
    · rename_i stid₁ p₁ starts hhead
      have hnote : stid.Keeps (noteStidHeader packet stid (p + 1)) :=
        hm.keeps (SameIds.of_eq rfl) rfl rfl
      have hread : (noteStidHeader packet stid (p + 1)).Keeps stid₁ := by
        simp only [getStidHeader] at hhead
        split at hhead
        · cases hhead
          exact hnote.matched.keeps (SameIds.refl _) rfl rfl
        · exact readStidBbheader_keeps hnote.matched (hnote.ids.tied ht) hhead
      exact (hnote.trans hread).trans (stidOutput_keeps hread.matched h)

/-! ### T2-MI -/

/-- The entry for the PLP that is being received; none is before the first header. -/
def T2miStream.sought (t2mi : T2miStream β) : Option ℕ :=
  if t2mi.plpId < 0 then none else selectPlp t2mi.emb t2mi.plpId t2mi.defaultIsi

/-- `currentBbf` is what a lookup finds. -/
structure T2miStream.Cached (t2mi : T2miStream β) : Prop where
  plp : t2mi.plpId < placeLimit
  pointer : t2mi.emb.currentBbf = t2mi.sought

/-- What a packet leaves as it was. -/
structure T2miStream.Keeps (t2mi t2mi' : T2miStream β) : Prop where
  ids : SameIds t2mi.emb t2mi'.emb
  cached : t2mi.Cached → t2mi'.Cached

section
omit [Cell β]
variable {t2mi t2mi' t2mi'' : T2miStream β}

theorem T2miStream.Keeps.trans (h : t2mi.Keeps t2mi') (h' : t2mi'.Keeps t2mi'') :
    t2mi.Keeps t2mi'' :=
  ⟨h.ids.trans h'.ids, fun hc => h'.cached (h.cached hc)⟩

/-- The PLP being received and the pointer are those of before. -/
theorem T2miStream.Keeps.of_same (hids : SameIds t2mi.emb t2mi'.emb)
    (hcur : t2mi'.emb.currentBbf = t2mi.emb.currentBbf) (hplp : t2mi'.plpId = t2mi.plpId)
    (hdefault : t2mi'.defaultIsi = t2mi.defaultIsi) : t2mi.Keeps t2mi' := by
  refine ⟨hids, fun hc => ⟨hplp ▸ hc.plp, ?_⟩⟩
  rw [T2miStream.sought, hplp, hdefault, selectPlp_congr hids, hcur]
  exact hc.pointer

theorem T2miStream.Keeps.of_reset (hids : SameIds t2mi.emb t2mi'.emb)
    (hcur : t2mi'.emb.currentBbf = none) (hplp : t2mi'.plpId = -1) : t2mi.Keeps t2mi' := by
  refine ⟨hids, fun _ => ⟨?_, ?_⟩⟩
  · rw [hplp]
    exact Int.lt_of_lt_of_le (Int.negSucc_lt_zero 0) (Int.natCast_nonneg placeLimit)
  · rw [hcur, T2miStream.sought, hplp]
    rfl

/-- The pointer has just been looked up. -/
theorem T2miStream.Keeps.of_lookup (hids : SameIds t2mi.emb t2mi'.emb) (hpos : 0 ≤ t2mi'.plpId)
    (hlt : t2mi'.plpId < placeLimit)
    (hcur : t2mi'.emb.currentBbf = selectPlp t2mi.emb t2mi'.plpId t2mi'.defaultIsi) :
    t2mi.Keeps t2mi' := by
  refine ⟨hids, fun _ => ⟨hlt, ?_⟩⟩
  rw [T2miStream.sought, if_neg (by omega), selectPlp_congr hids, hcur]

end

/-- The last byte of a 13-byte header is read, which puts the header in `buff`, and the sub-stream
    under `k` takes it over. -/
def T2miPos.Selects (packet : Packet β) (s : T2miPos β) (buff : Buff β 188) (k : ℕ) : Prop :=
  let num := min s.num (13 - s.t2mi.bbheaderIdx)
  let plpId : ℤ := (buff.byte 1).toNat
  s.stage = .bbheader ∧ 0 < s.t2mi.bbheaderBytesLeft ∧
    s.t2mi.buff.memcpy s.t2mi.bbheaderIdx (packet.read s.p num) = some buff ∧
    s.t2mi.bbheaderIdx + num = 13 ∧
    (bbheaderMode fun i => buff.byte (3 + i)) &&& 0xFE = 0 ∧
    selectPlp s.t2mi.emb plpId (if s.t2mi.defaultIsi < 0 then plpId else s.t2mi.defaultIsi) = some k

/-- The ISI byte of a header is the key of the sub-stream that takes it over. -/
def T2miPos.OwnIsi (packet : Packet β) (s : T2miPos β) : Prop :=
  ∀ buff k, s.Selects packet buff k → (buff.byte 4).toNat = k

/-- `buff` holds a whole header: what follows keeps to `Keeps` if its ISI byte is the key that the
    sub-stream stands under. -/
theorem readT2miBbheader_keeps {t2mi : T2miStream β} (ht : t2mi.emb.Tied)
    (hleft : t2mi.bbheaderBytesLeft = 0) {p : ℤ}
    (hown : (bbheaderMode fun i => t2mi.buff.byte (3 + i)) &&& 0xFE = 0 →
      let plpId : ℤ := (t2mi.buff.byte 1).toNat
      ∀ k, selectPlp t2mi.emb plpId (if t2mi.defaultIsi < 0 then plpId else t2mi.defaultIsi) =
        some k → (t2mi.buff.byte 4).toNat = k)
    {t2mi' : T2miStream β} {o : Option ℤ} {complete : Bool}
    (h : readT2miBbheader t2mi p = .done (t2mi', o, complete)) : t2mi.Keeps t2mi' := by
  have hbyte : ((t2mi.buff.byte 1).toNat : ℤ) < placeLimit := by
    have := (t2mi.buff.byte 1).toNat_lt
    rw [placeLimit]
    omega
  simp only [readT2miBbheader, hleft, ne_eq, not_true_eq_false, if_false] at h
  split at h
  · cases h
    exact .of_reset (SameIds.reset _ false) rfl rfl
  · rename_i hmode
    rw [not_not] at hmode
    have hsame := embeddedStreamSetMatype_bbfStreams t2mi.emb (t2mi.buff.byte 1).toNat
      (t2mi.buff.byte 3)
    have hselect : ∀ d, selectPlp (embeddedStreamSetMatype t2mi.emb (t2mi.buff.byte 1).toNat
        (t2mi.buff.byte 3)) (t2mi.buff.byte 1).toNat d =
        selectPlp t2mi.emb (t2mi.buff.byte 1).toNat d :=
      fun d => selectPlp_congr (SameIds.of_eq hsame) _ d
    simp only [Int.toNat_natCast, Nat.add_zero, hselect] at h
    split at h
    · rename_i hnone
      cases h
      exact .of_lookup (SameIds.of_eq hsame) (Int.natCast_nonneg _) hbyte rfl
    · rename_i k hk
      split at h
      · cases h
      · rename_i bbf hbbf
        rw [hsame] at hbbf
        have hlt : k < placeLimit := selectPlp_lt hbyte hk
        have hisi : bbf.isi = (t2mi.buff.byte 4).toNat := by
          rw [ht k hlt bbf hbbf, hown hmode k hk]
        have hids : ∀ (emb : EmbeddedStream β) (b : BbframesStream β),
            emb.bbfStreams = t2mi.emb.bbfStreams → b.isi = (t2mi.buff.byte 4).toNat →
            SameIds t2mi.emb (emb.put k b) := by
          intro emb b hemb hb
          exact (SameIds.of_eq hemb).trans (SameIds.put (hemb ▸ hbbf) fun _ => hb.trans hisi.symm)
        split at h
        · cases h
          exact .of_reset ((hids _ _ hsame rfl).trans (SameIds.reset _ false)) rfl rfl
        · cases h
          exact .of_lookup (hids _ _ hsame rfl) (Int.natCast_nonneg _) hbyte rfl

/-- Holds of the state a stretch of the loop leads to. -/
def Leads (P : T2miStream β → Prop) : Next (T2miPos β) (Outcome (T2miStream β)) → Prop
  | .again s => P s.t2mi
  | .exit (.done t2mi) => P t2mi
  | .exit _ => True

section
variable {packet : Packet β} {t2mi t2mi' : T2miStream β} {p num : ℤ}

omit [Cell β] in
theorem T2miStream.Keeps.refl (t2mi : T2miStream β) : t2mi.Keeps t2mi :=
  ⟨SameIds.refl _, id⟩

theorem readT2miHeader_keeps (t2mi : T2miStream β) : t2mi.Keeps (readT2miHeader t2mi) := by
  obtain ⟨_, _, hstreams, hcur, _⟩ := readT2miHeader_spec t2mi
  refine .of_same (SameIds.of_eq hstreams) hcur ?_ ?_
  · simp only [readT2miHeader]
    split <;> rfl
  · simp only [readT2miHeader]
    split <;> rfl

theorem t2miHeaderStage_keeps (hs : T2miPos.Inv ⟨t2mi, p, num, .header⟩) :
    Leads t2mi.Keeps (t2miHeaderStage packet t2mi p num) := by
  rw [t2miHeaderStage]
  split_ifs
  · exact .refl _
  · obtain ⟨hlo, hhi⟩ := hs.stream.header
    obtain ⟨buff, _, heq⟩ := @getT2miPacketHeader_eq _ _ t2mi packet p (188 - p) _ hlo hhi (by omega)
      (by omega) rfl
    generalize min (188 - p) (6 - t2mi.headerIdx) = n at heq
    have htook : t2mi.Keeps (t2mi.tookHeader buff n) :=
      .of_same (SameIds.of_eq (T2miStream.tookHeader_bbfStreams ..))
        (T2miStream.tookHeader_currentBbf ..) rfl rfl
    have hgot : ∀ t p' c, getT2miPacketHeader packet t2mi p (188 - p) = .done (t, p', c) →
        t2mi.Keeps t := by
      intro t p' c h
      rw [heq] at h
      split at h
      · cases h
        exact htook.trans (readT2miHeader_keeps _)
      · cases h
        exact htook
    simp only
    split
    · trivial
    · trivial
    · rename_i t p' c h
      have hkeeps := hgot t p' c h
      have hsynced : t2mi.Keeps { t with synced := true } :=
        hkeeps.trans (.of_same (SameIds.refl _) rfl rfl rfl)
      split_ifs
      · exact hkeeps
      · exact hkeeps
      · exact hkeeps
      · exact hsynced
      · exact hsynced
  · exact .refl _

theorem t2miBbheaderStage_keeps (hs : T2miPos.Inv ⟨t2mi, p, num, .bbheader⟩)
    (ht : t2mi.emb.Tied) (hown : T2miPos.OwnIsi packet ⟨t2mi, p, num, .bbheader⟩) :
    Leads t2mi.Keeps (t2miBbheaderStage packet t2mi p num) := by
  have hnum : num = 188 - p := hs.num
  have hp : p ≤ 188 := (hs.inside (by rintro ⟨⟩)).1
  have hleft : t2mi.bbheaderBytesLeft = 0 ∧ t2mi.bbheaderIdx = 0 ∨
      0 < t2mi.bbheaderBytesLeft ∧ 0 ≤ t2mi.bbheaderIdx ∧
        t2mi.bbheaderIdx + t2mi.bbheaderBytesLeft = 13 := hs.stream.bbheader
  rw [t2miBbheaderStage]
  split_ifs with hdue
  · exact .refl _
  · obtain ⟨buff, hbuff, heq⟩ := @getT2miBbheader_eq _ _ t2mi packet p num _
      (by omega) (by omega) (by omega) (by omega) rfl
    have hown' := fun h13 hmode k hk => hown buff k ⟨rfl, hdue, hbuff, h13, hmode, hk⟩
    simp only at hown'
    generalize hn : min num (13 - t2mi.bbheaderIdx) = n at heq hown'
    have hstreams : (t2mi.tookBbheader buff n).emb.bbfStreams = t2mi.emb.bbfStreams :=
      T2miStream.tookBbheader_bbfStreams ..
    have htook : t2mi.Keeps (t2mi.tookBbheader buff n) :=
      .of_same (SameIds.of_eq hstreams) (T2miStream.tookBbheader_currentBbf ..) rfl rfl
    have hgot : ∀ t o c, getT2miBbheader packet t2mi p num = .done (t, o, c) → t2mi.Keeps t := by
      intro t o c h
      rw [heq] at h
      split at h
      · rename_i h13
        refine htook.trans (readT2miBbheader_keeps (htook.ids.tied ht) ?_ (fun hmode k hk => ?_) h)
        · simp only [T2miStream.tookBbheader]
          omega
        · refine hown' h13 hmode k ?_
          rw [← hk]
          exact (selectPlp_congr htook.ids _ _).symm
      · cases h
        exact htook
    split
    · trivial
    · trivial
    · rename_i t c h
      exact hgot t none c h
    · rename_i t p' c h
      have hkeeps := hgot t (some p') c h
      simp only
      split_ifs
      · exact hkeeps.trans (.of_same (SameIds.refl _) rfl rfl rfl)
      · exact hkeeps
      · exact hkeeps
      · exact hkeeps
  · exact .refl _

omit [Cell β] in
theorem t2miAdvance_keeps {n : ℤ} (h : t2mi.Keeps t2mi') :
    Leads t2mi.Keeps (t2miAdvance t2mi' p n num) := by
  have hread : t2mi.Keeps
      { t2mi' with t2miPayloadBytesLeft := t2mi'.t2miPayloadBytesLeft - n } :=
    h.trans (.of_same (SameIds.refl _) rfl rfl rfl)
  rw [t2miAdvance]
  simp only
  split_ifs
  · exact h
  · exact hread
  · exact hread
  · exact hread

theorem t2miPayloadStage_keeps :
    Leads t2mi.Keeps (t2miPayloadStage packet t2mi p num) := by
  rw [t2miPayloadStage]
  split
  · exact .refl _
  · rename_i k hk
    simp only
    split_ifs
    · exact .refl _
    · split
      · trivial
      · rename_i bbf hbbf
        have hcall := @bbfOutputTsBytes_isi _ _ packet bbf p (min t2mi.t2miPayloadBytesLeft num)
        split
        · trivial
        · trivial
        · rename_i b hout
          rw [hout] at hcall
          exact .of_same (SameIds.put hbbf fun _ => hcall b rfl) rfl rfl rfl
        · rename_i b p' hout
          rw [hout] at hcall
          exact t2miAdvance_keeps (.of_same (SameIds.put hbbf fun _ => hcall b rfl) rfl rfl rfl)
    · exact t2miAdvance_keeps (.of_same (SameIds.refl _) rfl rfl rfl)
    · exact .refl _

theorem t2miCrcStage_keeps : Leads t2mi.Keeps (t2miCrcStage packet t2mi p num) := by
  rw [t2miCrcStage]
  simp only
  split_ifs
  · exact .refl _
  · exact .refl _
  · exact .of_same (SameIds.refl _) rfl rfl rfl
  · exact .of_same (SameIds.refl _) rfl rfl rfl
  · exact .of_same (SameIds.refl _) rfl rfl rfl
  · exact .of_same (SameIds.refl _) rfl rfl rfl
  · exact .refl _

end

/-- One stretch of the loop. -/
theorem t2miBody_keeps {packet : Packet β} {s : T2miPos β} (hs : s.Inv) (ht : s.t2mi.emb.Tied)
    (hown : s.OwnIsi packet) : Leads s.t2mi.Keeps (t2miBody packet s) := by
  obtain ⟨t2mi, p, num, stage⟩ := s
  cases stage with
  | header => exact t2miHeaderStage_keeps hs
  | bbheader => exact t2miBbheaderStage_keeps hs ht hown
  | payload => exact t2miPayloadStage_keeps
  | crc => exact t2miCrcStage_keeps

/-- Up to the loop the entries and the pointer are left alone, or the stream is reset. -/
theorem t2miEnter_keeps (t2mi : T2miStream β) (packet : Packet β) :
    match t2miEnter t2mi packet with
    | .exit t => t2mi.Keeps t
    | .again s => t2mi.Keeps s.t2mi := by
  have henters := t2miEnter_enters t2mi packet
  generalize t2miEnter t2mi packet = next at henters ⊢
  cases henters with
  | left => exact .refl _
  | reset => exact .of_reset (SameIds.reset _ false) rfl rfl
  | counted c => exact .of_same (SameIds.of_eq rfl) rfl rfl rfl
  | dropped c => exact .of_same (SameIds.of_eq rfl) rfl rfl rfl
  | started c p => exact .of_same (SameIds.of_eq rfl) rfl rfl rfl

/-- Every header a packet completes is taken over under its own ISI. -/
def T2miStream.OwnIsis (t2mi : T2miStream β) (packet : Packet β) : Prop :=
  ∀ s u, t2miEnter t2mi packet = .again s → Visits (t2miBody packet) s u → u.OwnIsi packet

/-- A packet of a T2-MI stream. -/
theorem t2miStreamAddPacket_keeps {t2mi t2mi' : T2miStream β} (hinv : t2mi.Inv)
    (ht : t2mi.emb.Tied) {packet : Packet β} (hown : t2mi.OwnIsis packet)
    (h : t2miStreamAddPacket t2mi packet = .done t2mi') : t2mi.Keeps t2mi' := by
  have henter := t2miEnter_keeps t2mi packet
  have henterInv := t2miEnter_inv hinv packet
  rw [t2miStreamAddPacket] at h
  cases hs : t2miEnter t2mi packet with
  | exit t =>
    rw [hs] at h henter
    cases h
    exact henter
  | again s =>
    rw [hs] at h henter henterInv
    simp only at h henter
    have hends : Ends (t2miBody packet) s (.done t2mi') := by
      cases hrun : run (t2miBody packet) t2miPasses s with
      | none =>
        rw [hrun] at h
        cases h
      | some out =>
        rw [hrun, Option.getD_some] at h
        exact ⟨_, h ▸ hrun⟩
    have hpass : ∀ u, Visits (t2miBody packet) s u → t2mi.Keeps u.t2mi := by
      intro u hu
      induction hu with
      | start => exact henter
      | pass hv hb ih =>
        have hinv' := (visited_unjammed henterInv.1 ⟨_, hends⟩ hv).1
        have hstep := t2miBody_keeps hinv' (ih.ids.tied ht) (hown s _ hs hv)
        rw [hb] at hstep
        exact ih.trans hstep
    obtain ⟨u, hu, hexit⟩ := hends.visits
    have hinv' := (visited_unjammed henterInv.1 ⟨_, hends⟩ hu).1
    have hstep := t2miBody_keeps hinv' ((hpass u hu).ids.tied ht) (hown s u hs hu)
    rw [hexit] at hstep
    exact (hpass u hu).trans hstep

end Demux

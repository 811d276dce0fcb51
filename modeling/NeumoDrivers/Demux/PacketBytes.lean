import NeumoDrivers.Demux.PacketReads

/-! A packet is what is read of it.

    Two packets that are alike in the bytes that `T2miReads` and `stidAccesses` list lead to the same
    result: no read is left out. Where all reads are inside the packets, the memory behind them makes
    no difference to a whole run. -/

namespace Demux
open Loop

variable {β : Type} [Cell β] {packet packet' : Packet β} {s : BbfPos β} {b : BbframesStream β}
  {p num : ℤ} {t2mi : T2miStream β} {v : T2miPos β} {stid : StidStream β} {starts : Bool}

theorem Access.Alike.byte (h : Access.Alike packet packet' ⟨p, 1⟩) :
    packet'.byte p = packet.byte p := by
  have hcell : [packet' p.toNat] = [packet p.toNat] := h
  rw [Packet.byte, Packet.byte, (List.cons.inj hcell).1]

theorem openUserPacket_congr (h : ∀ a ∈ syncAccesses s, a.Alike packet packet') :
    openUserPacket packet' s = openUserPacket packet s := by
  rw [openUserPacket, openUserPacket]
  by_cases hsync : s.bbf.ts.buffIdx = 0 ∧ s.bbf.hemMode = false
  · have hbyte : packet'.byte s.p = packet.byte s.p :=
      (h ⟨s.p, 1⟩ (by rw [syncAccesses, if_pos hsync]; simp)).byte
    rw [hbyte]
  · by_cases hidx : s.bbf.ts.buffIdx = 0
    · have hhem : s.bbf.hemMode = true :=
        (Bool.eq_false_or_eq_true _).resolve_right fun hno => hsync ⟨hidx, hno⟩
      simp only [if_pos hidx, if_pos hhem]
    · rw [if_neg hidx, if_neg hidx]

theorem storeUserBytes_congr (h : ∀ a ∈ storeAccesses b p num, a.Alike packet packet') :
    storeUserBytes packet' b p num = storeUserBytes packet b p num := by
  by_cases hfit : 0 < num ∧ b.ts.buffIdx < 200 ∧ 0 ≤ b.ts.buffIdx + num ∧ b.ts.buffIdx + num < 200
  · rw [storeAccesses, if_pos hfit] at h
    have hcopy : packet'.read p (min num (200 - b.ts.buffIdx)) =
        packet.read p (min num (200 - b.ts.buffIdx)) := h _ (List.mem_cons_self ..)
    rw [storeUserBytes, storeUserBytes]
    simp only [hcopy]
    cases hhem : b.hemMode with
    | true => rfl
    | false =>
      have hcrc : packet'.read p num = packet.read p num := h ⟨p, num⟩ (by simp [hhem])
      rw [hcrc]
  · rw [storeUserBytes, storeUserBytes]
    by_cases hpos : 0 < num
    · by_cases hfull : 200 ≤ b.ts.buffIdx
      · simp only [if_pos hpos, if_pos hfull]
      · have hover : b.ts.buffIdx + num < 0 ∨ 200 ≤ b.ts.buffIdx + num := by omega
        simp only [if_pos hpos, if_neg hfull, if_pos hover]
    · simp only [if_neg hpos]

theorem bbfBody_congr (h : ∀ a ∈ bbfBodyAccesses packet s, a.Alike packet packet') :
    bbfBody packet' s = bbfBody packet s := by
  rw [bbfBody, bbfBody]
  split_ifs with hrun
  · rw [bbfBodyAccesses, if_pos hrun] at h
    rw [openUserPacket_congr fun a ha => h a (List.mem_append_left _ ha)]
    cases hopen : openUserPacket packet s with
    | error b => rfl
    | ok u =>
      simp only
      split_ifs with hstep
      · rfl
      · have hstore : ∀ a ∈ storeAccesses u.bbf u.p u.out, a.Alike packet packet' := by
          intro a ha
          refine h a (List.mem_append_right _ ?_)
          have hstep' : u.step ≠ 0 := hstep
          simp only [hopen]
          rw [if_neg hstep']
          exact ha
        have heq : storeUserBytes packet' u.bbf u.p
            (min u.bbf.bbfPayloadBytesLeft (min (u.bbf.upl - u.bbf.ts.buffIdx) u.num)) =
            storeUserBytes packet u.bbf u.p _ := storeUserBytes_congr hstore
        rw [heq]
  · rfl

theorem bbfLoop_congr (h : ∀ a ∈ bbfLoopAccesses packet s, a.Alike packet packet') :
    bbfLoop packet' s = bbfLoop packet s := by
  rw [bbfLoop, bbfLoop, run_congr (fun _ => bbfBody_congr) h]

/-- The bytes read settle what a call of `bbf_output_ts_bytes` comes to. -/
theorem bbfOutputTsBytes_congr (h : ∀ a ∈ bbfAccesses packet b p num, a.Alike packet packet') :
    bbfOutputTsBytes packet' b p num = bbfOutputTsBytes packet b p num := by
  simp only [bbfOutputTsBytes]
  simp only [bbfAccesses] at h
  split_ifs with hsync hneg hnull
  · rw [if_pos hsync] at h
    exact bbfLoop_congr h
  · rfl
  · rfl
  · rw [if_neg hsync, if_neg hneg, if_neg hnull] at h
    exact bbfLoop_congr h

theorem getT2miPacketHeader_congr
    (h : ∀ a ∈ packetHeaderAccesses t2mi p num, a.Alike packet packet') :
    getT2miPacketHeader packet' t2mi p num = getT2miPacketHeader packet t2mi p num := by
  rw [getT2miPacketHeader, getT2miPacketHeader]
  by_cases hneg : num < 0
  · rw [if_pos hneg, if_pos hneg]
  by_cases hover : t2mi.headerIdx + min num (6 - t2mi.headerIdx) < 0 ∨
      188 < t2mi.headerIdx + min num (6 - t2mi.headerIdx)
  · simp only [if_neg hneg, if_pos hover]
  · simp only [packetHeaderAccesses, if_neg hneg, if_neg hover] at h
    have hcopy : packet'.read p _ = packet.read p _ := h _ (List.mem_singleton_self _)
    simp only [hcopy]

theorem getT2miBbheader_congr (h : ∀ a ∈ bbheaderAccesses t2mi p num, a.Alike packet packet') :
    getT2miBbheader packet' t2mi p num = getT2miBbheader packet t2mi p num := by
  rw [getT2miBbheader, getT2miBbheader]
  by_cases hover : t2mi.bbheaderIdx + min num (13 - t2mi.bbheaderIdx) < 0 ∨
      188 < t2mi.bbheaderIdx + min num (13 - t2mi.bbheaderIdx)
  · simp only [if_pos hover]
  · simp only [bbheaderAccesses, if_neg hover] at h
    have hcopy : packet'.read p _ = packet.read p _ := h _ (List.mem_singleton_self _)
    simp only [hcopy]

theorem t2miPayloadStage_congr
    (h : ∀ a ∈ payloadAccesses packet t2mi p num, a.Alike packet packet') :
    t2miPayloadStage packet' t2mi p num = t2miPayloadStage packet t2mi p num := by
  rw [t2miPayloadStage, t2miPayloadStage]
  rw [payloadAccesses] at h
  cases hcur : t2mi.emb.currentBbf with
  | none => rfl
  | some k =>
    simp only [hcur] at h ⊢
    split_ifs with hnum hpos htype
    · rfl
    · rw [if_pos ⟨not_not.mp hnum, hpos⟩, if_pos htype] at h
      have hcrc : packet'.read p _ = packet.read p _ := h _ (List.mem_cons_self ..)
      rw [hcrc]
      cases hb : t2mi.emb.bbfStreams k with
      | none => rfl
      | some b =>
        simp only [hb] at h ⊢
        rw [bbfOutputTsBytes_congr fun a ha => h a (List.mem_cons_of_mem _ ha)]
    · rw [if_pos ⟨not_not.mp hnum, hpos⟩] at h
      have hcrc : packet'.read p _ = packet.read p _ := h _ (List.mem_cons_self ..)
      rw [hcrc]
    · rfl

theorem t2miBody_congr (h : ∀ a ∈ t2miBodyAccesses packet v, a.Alike packet packet') :
    t2miBody packet' v = t2miBody packet v := by
  rw [t2miBody, t2miBody]
  rw [t2miBodyAccesses] at h
  cases hstage : v.stage with
  | header =>
    simp only [hstage] at h ⊢
    rw [t2miHeaderStage, t2miHeaderStage]
    split_ifs with hend hdue
    · rfl
    · rw [if_pos ⟨Int.not_le.mp hend, hdue⟩] at h
      simp only [getT2miPacketHeader_congr h]
    · rfl
  | bbheader =>
    simp only [hstage] at h ⊢
    rw [t2miBbheaderStage, t2miBbheaderStage]
    split_ifs with hdue hnum
    · rfl
    · rw [if_pos ⟨hdue, not_not.mp hnum⟩] at h
      simp only [getT2miBbheader_congr h]
    · rfl
  | payload =>
    simp only [hstage] at h ⊢
    exact t2miPayloadStage_congr h
  | crc =>
    simp only [hstage] at h ⊢
    rw [t2miCrcStage, t2miCrcStage]
    split_ifs with hnum hdue hfull
    · rfl
    · rfl
    · rw [if_pos ⟨not_not.mp hnum, hdue.1, hdue.2, Int.not_le.mp hfull⟩] at h
      have hcrc : packet'.read v.p _ = packet.read v.p _ := h _ (List.mem_singleton_self _)
      simp only [hcrc]
    · rfl

/-- The adaptation field says the same. -/
theorem adaptation_congr (h3 : packet'.byte 3 = packet.byte 3)
    (h : ∀ a ∈ adaptationAccesses packet, a.Alike packet packet') :
    payloadStart packet' = payloadStart packet ∧ (Discontinuity packet' ↔ Discontinuity packet) := by
  have hadapt : hasAdaptationField packet' = hasAdaptationField packet := by
    rw [hasAdaptationField, hasAdaptationField, h3]
  rw [adaptationAccesses] at h
  simp only [payloadStart, Discontinuity, hadapt]
  cases hfield : hasAdaptationField packet with
  | false => simp
  | true =>
    rw [if_pos hfield] at h
    have h4 : packet'.byte 4 = packet.byte 4 := (h _ (List.mem_cons_self ..)).byte
    rw [h4]
    refine ⟨rfl, ?_⟩
    by_cases hlen : packet.byte 4 = 0
    · simp [hlen]
    · rw [if_pos hlen] at h
      have h5 : packet'.byte 5 = packet.byte 5 :=
        (h ⟨5, 1⟩ (List.mem_cons_of_mem _ (List.mem_singleton_self _))).byte
      rw [h5]

theorem t2miEnter_congr (h : ∀ a ∈ t2miEnterAccesses t2mi packet, a.Alike packet packet') :
    t2miEnter t2mi packet' = t2miEnter t2mi packet := by
  rw [t2miEnterAccesses] at h
  have h1 : packet'.byte 1 = packet.byte 1 := (h ⟨1, 1⟩ (by simp)).byte
  have h2 : packet'.byte 2 = packet.byte 2 := (h ⟨2, 1⟩ (by simp)).byte
  have hpid : tsPid packet' = tsPid packet := by rw [tsPid, tsPid, h1, h2]
  by_cases hown : tsPid packet = t2mi.emb.embeddingPid
  · rw [if_neg (not_not.mpr hown)] at h
    have h3 : packet'.byte 3 = packet.byte 3 := (h ⟨3, 1⟩ (by simp)).byte
    have hpay : hasPayload packet' = hasPayload packet := by rw [hasPayload, hasPayload, h3]
    by_cases htakes : t2mi.Takes packet
    · rw [if_pos htakes] at h
      obtain ⟨hstart, hdisc⟩ := adaptation_congr h3 fun a ha => h a (by simp [ha])
      rw [t2miEnter, t2miEnter, hpid, hpay, if_neg (not_not.mpr htakes.1),
        if_neg (not_not.mpr htakes.1), if_neg (not_not.mpr htakes.2.1),
        if_neg (not_not.mpr htakes.2.1)]
      rw [Discontinuity, Discontinuity] at hdisc
      rw [payloadStart, payloadStart] at hstart
      simp only [h1, h3, if_neg (not_not.mpr htakes.2.2), hstart, hdisc]
      by_cases hpointer : t2mi.ReadsPointer packet
      · have hbyte : packet'.byte (payloadStart packet) = packet.byte (payloadStart packet) :=
          (h ⟨payloadStart packet, 1⟩ (by simp [hpointer])).byte
        rw [payloadStart] at hbyte
        rw [hbyte]
      · by_cases hpusi : packet.byte 1 &&& 0x40 = 0
        · simp only [hpusi, ne_eq, not_true_eq_false, if_false]
        · -- the continuity counter stops the call before the byte is looked at
          have herror : ¬ Discontinuity packet ∧
              ((packet.byte 3 &&& 0xF).toNat : ℤ) ≠ (t2mi.emb.ccCounter + 1) % 16 ∧
                0 ≤ t2mi.emb.ccCounter := by
            rw [T2miStream.ReadsPointer] at hpointer
            push Not at hpointer
            obtain ⟨hno, hne, hle⟩ := hpointer hpusi
            exact ⟨hno, hne, by omega⟩
          rw [Discontinuity] at herror
          simp only [if_pos herror]
    · have hstop : ¬ hasPayload packet = true ∨ packet.byte 3 &&& 0xC0 ≠ 0 := by
        by_contra hno
        push Not at hno
        exact htakes ⟨hown, hno⟩
      rw [t2miEnter, t2miEnter, hpid, hpay, h3, if_neg (not_not.mpr hown),
        if_neg (not_not.mpr hown)]
      rcases hstop with hstop | hstop
      · rw [if_pos hstop, if_pos hstop]
      · simp only [if_pos hstop]
  · rw [t2miEnter, t2miEnter, hpid, if_pos hown, if_pos hown]

/-- The bytes read settle what becomes of the stream: no read of the call is left out. -/
theorem t2miStreamAddPacket_congr (h : ∀ a, T2miReads t2mi packet a → a.Alike packet packet') :
    t2miStreamAddPacket t2mi packet' = t2miStreamAddPacket t2mi packet := by
  rw [t2miStreamAddPacket, t2miStreamAddPacket, t2miEnter_congr fun a ha => h a (.inl ha)]
  cases hs : t2miEnter t2mi packet with
  | exit t => rfl
  | again s =>
    have hrun : run (t2miBody packet') t2miPasses s = run (t2miBody packet) t2miPasses s := by
      refine run_congr (fun _ => t2miBody_congr) fun a ha => ?_
      obtain ⟨u, hu, ha⟩ := Visits.of_mem_trace ha
      exact h a (.inr ⟨s, u, hs, hu, ha⟩)
    simp only [hrun]

/-- The bytes of a read, one by one. -/
theorem Access.Alike.byte_at {n : ℤ} (h : Access.Alike packet packet' ⟨p, n⟩) (hp : 0 ≤ p) {i : ℕ}
    (hi : (i : ℤ) < n) : packet'.byte (p + i) = packet.byte (p + i) := by
  have hread : packet'.read p n = packet.read p n := h
  have hcell := congrArg (fun l => l[i]?) hread
  simp only [Packet.read, List.getElem?_map] at hcell
  rw [List.getElem?_range (by omega), Option.map_some, Option.map_some, Option.some.injEq] at hcell
  have hat : (p + (i : ℤ)).toNat = p.toNat + i := by omega
  rw [Packet.byte, Packet.byte, hat, hcell]

omit [Cell β] in
theorem readStidBbheader_congr {buff buff' : ℕ → UInt8} (h : ∀ i < 10, buff' i = buff i) :
    readStidBbheader stid p buff' = readStidBbheader stid p buff := by
  have hmap : (List.range 9).map buff' = (List.range 9).map buff :=
    List.map_congr_left fun i hi => h i (by have := List.mem_range.mp hi; omega)
  have hmode : bbheaderMode buff' = bbheaderMode buff := by
    rw [bbheaderMode, bbheaderMode, hmap, h 9 (by decide)]
  have hparse : ∀ (b : BbframesStream β) (hem : Bool) (isi : ℤ),
      parseBbheader b hem isi buff' = parseBbheader b hem isi buff := by
    intro b hem isi
    rw [parseBbheader, parseBbheader, h 0 (by decide), h 2 (by decide), h 3 (by decide),
      h 4 (by decide), h 5 (by decide), h 6 (by decide), h 7 (by decide), h 8 (by decide)]
  rw [readStidBbheader, readStidBbheader]
  simp only [hmode, h 0 (by decide), h 1 (by decide), hparse]

theorem getStidHeader_congr (hp : 0 ≤ p)
    (h : ∀ a ∈ stidHeaderAccesses packet p, a.Alike packet packet') :
    getStidHeader packet' stid p = getStidHeader packet stid p := by
  rw [stidHeaderAccesses] at h
  have h2 : packet'.byte (p + 2) = packet.byte (p + 2) := (h ⟨p + 2, 1⟩ (by simp)).byte
  have h3 : packet'.byte (p + 3) = packet.byte (p + 3) := (h ⟨p + 3, 1⟩ (by simp)).byte
  have hnote : noteStidHeader packet' stid p = noteStidHeader packet stid p := by
    rw [noteStidHeader, noteStidHeader, h2, h3]
  rw [getStidHeader, getStidHeader, hnote, h3]
  by_cases hstarts : packet.byte (p + 3) = 0xB8
  · have hlast : Access.Alike packet packet' ⟨p + 4 + 9, 1⟩ := h _ (by simp [hstarts])
    have hheader : Access.Alike packet packet' ⟨p + 4, 9⟩ := h _ (by simp [hstarts])
    simp only [hstarts, ne_eq, not_true_eq_false, if_false]
    refine readStidBbheader_congr fun i hi => ?_
    rcases Nat.lt_or_ge i 9 with hlt | hge
    · exact hheader.byte_at (by omega) (by omega)
    · obtain rfl : i = 9 := by omega
      exact hlast.byte
  · simp only [ne_eq, hstarts, not_false_eq_true, if_true]

theorem stidOutput_congr
    (h : ∀ a ∈ stidOutputAccesses packet stid p starts, a.Alike packet packet') :
    stidOutput packet' stid p starts = stidOutput packet stid p starts := by
  rw [stidOutput, stidOutput]
  rw [stidOutputAccesses] at h
  cases hcur : stid.emb.currentBbf with
  | none => rfl
  | some k =>
    simp only [hcur] at h ⊢
    cases hb : stid.emb.bbfStreams k with
    | none => rfl
    | some b =>
      simp only [hb] at h ⊢
      by_cases hskip : ¬ b.synced ∧ ¬ starts
      · rw [if_pos hskip, if_pos hskip]
      by_cases hend : 188 - p ≤ 0
      · simp only [if_neg hskip, if_pos hend]
      · rw [if_neg hskip, if_neg hend] at h
        simp only [bbfOutputTsBytes_congr h]

/-- The same for STID. -/
theorem stidStreamAddPacket_congr (h : ∀ a ∈ stidAccesses stid packet, a.Alike packet packet') :
    stidStreamAddPacket stid packet' = stidStreamAddPacket stid packet := by
  rw [stidAccesses] at h
  have h1 : packet'.byte 1 = packet.byte 1 := (h ⟨1, 1⟩ (by simp)).byte
  have h2 : packet'.byte 2 = packet.byte 2 := (h ⟨2, 1⟩ (by simp)).byte
  have hpid : tsPid packet' = tsPid packet := by rw [tsPid, tsPid, h1, h2]
  rw [stidStreamAddPacket_eq, stidStreamAddPacket_eq, hpid]
  by_cases hown : tsPid packet = stid.emb.embeddingPid
  · rw [if_neg (not_not.mpr hown)] at h
    have h3 : packet'.byte 3 = packet.byte 3 := (h ⟨3, 1⟩ (by simp)).byte
    obtain ⟨hstart, _⟩ := adaptation_congr h3 fun a ha => h a (by simp [ha])
    have hpos : 0 ≤ payloadStart packet + 1 := by
      rw [payloadStart]
      split <;> omega
    rw [if_neg (not_not.mpr hown), if_neg (not_not.mpr hown), hstart,
      getStidHeader_congr hpos fun a ha => h a (by simp [ha])]
    cases hheader : getStidHeader packet stid (payloadStart packet + 1) with
    | hang => rfl
    | wild => rfl
    | done r =>
      obtain ⟨t, q, starts⟩ := r
      simp only
      refine stidOutput_congr fun a ha => h a ?_
      simp [hheader, ha]
  · rw [if_pos hown, if_pos hown]

omit [Cell β] in
theorem Access.InPacket.alike {a : Access} (h : a.InPacket)
    (hsame : ∀ i < 188, packet' i = packet i) : a.Alike packet packet' := by
  obtain ⟨_, hstart, hend⟩ := h
  rw [Access.Alike, Packet.read, Packet.read]
  refine List.map_congr_left fun i hi => hsame _ ?_
  have := List.mem_range.mp hi
  omega

omit [Cell β] in
/-- Inputs that make no difference to a step make none to a run. -/
theorem Outcome.run_alike {σ : Type} {step : σ → Packet β → Outcome σ} {good : σ → Prop}
    {alike : Packet β → Packet β → Prop} (hstep : ∀ s p q, good s → alike p q →
      step s q = step s p ∧ ∀ s', step s p = .done s' → good s') {ps qs : List (Packet β)}
    (h : List.Forall₂ alike ps qs) : ∀ s, good s → Outcome.run step s qs = Outcome.run step s ps := by
  induction h with
  | nil => exact fun _ _ => rfl
  | @cons p q _ _ hpq _ ih =>
    intro s hs
    obtain ⟨heq, hkept⟩ := hstep s p q hs hpq
    rw [Outcome.run, Outcome.run, heq]
    cases hres : step s p with
    | done s' => exact ih s' (hkept s' hres)
    | hang => rfl
    | wild => rfl

/-- The packets are the same, and leave room for the headers. -/
def SamePacket (packet packet' : Packet β) : Prop :=
  HeadersFit packet ∧ ∀ i < 188, packet' i = packet i

/-- A packet of pid 270 with `c` behind it. -/
def followedBy (c : UInt8) : Packet UInt8 := fun i =>
  if i < 188 then [0x47, 0x41, 0x0E, 0x10].getD i 0 else c

end Demux

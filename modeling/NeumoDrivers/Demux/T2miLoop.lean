import NeumoDrivers.Demux.Progress
import NeumoDrivers.Demux.T2miHeaders

/-! Termination of the loop over the bytes of a T2-MI packet.

    `T2miStream.Inv` relates the counters of a state to each other and holds in every reachable
    state. Under it each stretch of the loop reads a byte or brings the next byte nearer, as counted
    by `t2miFuel`, unless it stands before a sub-stream that stalls (`Jammed`): then it goes round
    without reading for ever. -/

namespace Demux
open Loop

variable {β : Type} [Cell β] {packet : Packet β} {t2mi : T2miStream β} {s : T2miPos β}

structure T2miStream.Inv (t2mi : T2miStream β) : Prop where
  header : 0 ≤ t2mi.headerIdx ∧ t2mi.headerIdx < 6
  bbheader : t2mi.bbheaderBytesLeft = 0 ∧ t2mi.bbheaderIdx = 0 ∨
    0 < t2mi.bbheaderBytesLeft ∧ 0 ≤ t2mi.bbheaderIdx ∧
      t2mi.bbheaderIdx + t2mi.bbheaderBytesLeft = 13
  crc : 0 ≤ t2mi.crcIdx ∧ t2mi.crcIdx ≤ 4
  unsynced : t2mi.synced = false → t2mi.t2miPayloadBytesLeft = 0 ∧ t2mi.headerIdx = 0
  between : 0 < t2mi.headerIdx → t2mi.t2miPayloadBytesLeft = 0
  payload : 0 ≤ t2mi.t2miPayloadBytesLeft ∨ 0 < t2mi.bbheaderBytesLeft ∨ t2mi.emb.currentBbf = none
  current : ∀ k, t2mi.emb.currentBbf = some k → ∃ b, t2mi.emb.bbfStreams k = some b ∧ 0 ≤ b.upl
  hem : ∀ k b, t2mi.emb.bbfStreams k = some b → HemLength b

omit [Cell β] in
theorem t2miStreamReset_inv (t2mi : T2miStream β) (fullReset : Bool) :
    (t2miStreamReset t2mi fullReset).Inv where
  header := ⟨Int.le_refl 0, Int.natCast_pos.mpr (Nat.succ_pos 5)⟩
  bbheader := Or.inl ⟨rfl, rfl⟩
  crc := ⟨Int.le_refl 0, Int.natCast_nonneg 4⟩
  unsynced := fun _ => ⟨rfl, rfl⟩
  between := fun _ => rfl
  payload := Or.inl (Int.le_refl 0)
  current := by rintro k ⟨⟩
  hem := by
    intro k b hb hmode
    obtain ⟨a, _, rfl⟩ := Option.map_eq_some_iff.mp hb
    cases hmode

/-- Where a pass of the loop may stand. -/
structure T2miPos.Inv (s : T2miPos β) : Prop where
  stream : s.t2mi.Inv
  num : s.num = 188 - s.p
  inside : s.stage ≠ .header → s.p ≤ 188 ∧ s.t2mi.synced = true ∧ s.t2mi.headerIdx = 0
  headers : s.stage = .payload ∨ s.stage = .crc → s.t2mi.bbheaderBytesLeft = 0
  counted : s.stage = .crc → 0 ≤ s.t2mi.t2miPayloadBytesLeft

/-- Falls with every stretch that leaves nothing jammed. -/
def t2miFuel (s : T2miPos β) : ℕ :=
  8 * (188 - s.p).toNat +
    match s.stage with
    | .header => if s.p < 188 then 7 else 0
    | .bbheader => 6
    | .payload => 5
    | .crc => if 0 < s.num ∧ s.t2mi.t2miPayloadBytesLeft ≠ 0 then 8 else 4

section
omit [Cell β]
variable (t2mi : T2miStream β) (p num : ℤ)

theorem t2miFuel_header : t2miFuel ⟨t2mi, p, num, .header⟩ =
    8 * (188 - p).toNat + if p < 188 then 7 else 0 := rfl

theorem t2miFuel_bbheader :
    t2miFuel ⟨t2mi, p, num, .bbheader⟩ = 8 * (188 - p).toNat + 6 := rfl

theorem t2miFuel_payload :
    t2miFuel ⟨t2mi, p, num, .payload⟩ = 8 * (188 - p).toNat + 5 := rfl

theorem t2miFuel_crc : t2miFuel ⟨t2mi, p, num, .crc⟩ =
    8 * (188 - p).toNat + if 0 < num ∧ t2mi.t2miPayloadBytesLeft ≠ 0 then 8 else 4 := rfl

end

/-- A stretch leads on to a position nearer to the end, or ends the loop well. -/
def Advances (s : T2miPos β) : Next (T2miPos β) (Outcome (T2miStream β)) → Prop
  | .again t => t.Inv ∧ t2miFuel t < t2miFuel s
  | .exit (.done t2mi) => t2mi.Inv
  | .exit .wild => True
  | .exit .hang => False

/-! ### The headers -/

/-- The fields of a packet header complete what `tookHeader` began. -/
theorem tookHeader_inv (h : t2mi.Inv) (hdue : t2mi.t2miPayloadBytesLeft = 0) {buff : Buff β 188}
    {num : ℤ} (hnum : 0 < num) (hle : t2mi.headerIdx + num ≤ 6) :
    let t := if t2mi.headerIdx + num = 6 then readT2miHeader (t2mi.tookHeader buff num)
      else t2mi.tookHeader buff num
    T2miStream.Inv { t with synced := true } ∧ (t2mi.headerIdx + num = 6 → t.headerIdx = 0) := by
  have hh := h.header
  have hcrc : 0 ≤ (t2mi.tookHeader buff num).crcIdx ∧ (t2mi.tookHeader buff num).crcIdx ≤ 4 := by
    simp only [T2miStream.tookHeader]
    split
    · decide
    · exact h.crc
  by_cases h6 : t2mi.headerIdx + num = 6
  · simp only [if_pos h6]
    obtain ⟨hidx, hcrc', hstreams', hcur', hlengths⟩ :=
      readT2miHeader_spec (t2mi.tookHeader buff num)
    have hpay : 0 ≤ (readT2miHeader (t2mi.tookHeader buff num)).t2miPayloadBytesLeft := by
      rcases hlengths with ⟨hsame, _, _⟩ | ⟨hpos, _, _⟩
      · rw [hsame]
        exact Int.le_of_eq hdue.symm
      · exact hpos
    refine ⟨⟨?_, ?_, ?_, by rintro ⟨⟩, ?_, Or.inl hpay, ?_, ?_⟩, fun _ => hidx⟩
    · simp only [hidx]
      decide
    · rcases hlengths with ⟨_, hleft, hbidx⟩ | ⟨_, hleft, hbidx⟩
      · simp only [hleft, hbidx]
        exact h.bbheader
      · simp only
        omega
    · simp only [hcrc']
      exact hcrc
    · intro hpos
      simp only [hidx] at hpos
      omega
    · simp only [hcur', hstreams', T2miStream.tookHeader_currentBbf,
        T2miStream.tookHeader_bbfStreams]
      exact h.current
    · simp only [hstreams', T2miStream.tookHeader_bbfStreams]
      exact h.hem
  · simp only [if_neg h6]
    refine ⟨⟨?_, h.bbheader, hcrc, by rintro ⟨⟩, fun _ => hdue, Or.inl (Int.le_of_eq hdue.symm),
      ?_, ?_⟩, fun h6' => absurd h6' h6⟩
    · simp only [T2miStream.tookHeader]
      omega
    · simp only [T2miStream.tookHeader_currentBbf, T2miStream.tookHeader_bbfStreams]
      exact h.current
    · simp only [T2miStream.tookHeader_bbfStreams]
      exact h.hem

theorem t2miHeaderStage_advances {p num : ℤ} (hs : T2miPos.Inv ⟨t2mi, p, num, .header⟩) :
    Advances ⟨t2mi, p, num, .header⟩ (t2miHeaderStage packet t2mi p num) := by
  have hinv : t2mi.Inv := hs.stream
  have hnum : num = 188 - p := hs.num
  rw [t2miHeaderStage]
  split_ifs with hend hdue
  · exact hinv
  · -- a packet header is due
    have hpay : t2mi.t2miPayloadBytesLeft = 0 := by
      rcases hdue with hcomplete | hidx
      · simp only [t2miFrameIsComplete, Bool.decide_or, Bool.decide_and, Bool.or_eq_true,
          Bool.and_eq_true, decide_eq_true_eq, Bool.not_eq_true] at hcomplete
        rcases hcomplete with ⟨h0, _⟩ | hsync
        · exact h0
        · exact (hinv.unsynced hsync).1
      · exact hinv.between hidx
    have hh := hinv.header
    obtain ⟨buff, _, heq⟩ := @getT2miPacketHeader_eq _ _ t2mi packet p (188 - p) _ hh.1 hh.2
      (by omega) (by omega) rfl
    have hgot := @tookHeader_inv _ _ _ hinv hpay buff (min (188 - p) (6 - t2mi.headerIdx)) (by omega)
      (by omega)
    obtain ⟨n, hdef⟩ : ∃ n, n = min (188 - p) (6 - t2mi.headerIdx) := ⟨_, rfl⟩
    rw [← hdef] at heq hgot
    by_cases h6 : t2mi.headerIdx + n = 6
    · simp only [if_pos h6] at heq hgot
      simp only [heq]
      rw [if_neg (by omega), if_neg (by omega), if_neg (by simp)]
      simp only [not_true_eq_false, if_false]
      refine ⟨⟨hgot.1, by simp only; omega, fun _ => ⟨by simp only; omega, rfl, hgot.2 h6⟩, ?_, ?_⟩,
        ?_⟩
      · rintro (⟨⟨⟩⟩ | ⟨⟨⟩⟩)
      · rintro ⟨⟩
      · rw [t2miFuel_header, t2miFuel_bbheader, if_pos (by omega)]
        omega
    · simp only [if_neg h6] at heq hgot
      simp only [heq]
      rw [if_neg (by omega), if_neg (by omega), if_neg (by omega)]
      exact hgot.1
  · -- in the middle of a packet
    simp only [t2miFrameIsComplete, Bool.decide_or, Bool.or_eq_true, decide_eq_true_eq, not_or,
      Bool.not_eq_true] at hdue
    have hsync : t2mi.synced = true := by
      rcases Bool.eq_false_or_eq_true t2mi.synced with hsync | hsync
      · exact hsync
      · exact absurd hsync hdue.1.2
    have hh := hinv.header
    refine ⟨⟨hinv, hnum, fun _ => ⟨by simp only; omega, hsync, by simp only; omega⟩, ?_, ?_⟩, ?_⟩
    · rintro (⟨⟨⟩⟩ | ⟨⟨⟩⟩)
    · rintro ⟨⟩
    · rw [t2miFuel_header, t2miFuel_bbheader, if_pos (by omega)]
      omega

omit [Cell β] in
/-- A header gives user packets a length, and 188 bytes in high-efficiency mode. -/
theorem parseBbheader_lengths (b : BbframesStream β) (hemMode : Bool) (isi : ℤ)
    (buff : ℕ → UInt8) :
    0 ≤ (parseBbheader b hemMode isi buff).upl ∧ HemLength (parseBbheader b hemMode isi buff) ∧
      0 ≤ (parseBbheader b hemMode isi buff).bbfPayloadBytesLeft := by
  refine ⟨?_, fun hmode => if_pos hmode, ?_⟩
  · simp only [parseBbheader]
    split
    · decide
    · simp only [be16]
      omega
  · simp only [parseBbheader, be16]
    omega

/-- What may follow when the last byte of the 13-byte header is in. -/
theorem readT2miBbheader_inv (t2mi : T2miStream β) (p : ℤ) (hidx : t2mi.headerIdx = 0)
    (hleft : t2mi.bbheaderBytesLeft = 0) (hcrc : 0 ≤ t2mi.crcIdx ∧ t2mi.crcIdx ≤ 4)
    (hsync : t2mi.synced = true) (hhem : ∀ k b, t2mi.emb.bbfStreams k = some b → HemLength b) :
    ∃ t o, readT2miBbheader t2mi p = .done (t, o, true) ∧ t.Inv ∧
      (o = none ∨ o = some p ∧ t.bbheaderBytesLeft = 0 ∧ t.synced = true ∧ t.headerIdx = 0) := by
  have hzero : 0 ≤ t2mi.headerIdx ∧ t2mi.headerIdx < 6 := by omega
  have hsynced : t2mi.synced = false → t2mi.t2miPayloadBytesLeft = 0 ∧ t2mi.headerIdx = 0 := by
    intro hno
    rw [hsync] at hno
    cases hno
  have hbetween : 0 < t2mi.headerIdx → t2mi.t2miPayloadBytesLeft = 0 := by omega
  simp only [readT2miBbheader, hleft, ne_eq, not_true_eq_false, if_false]
  split
  · refine ⟨_, _, rfl, ?_, Or.inl rfl⟩
    have h := t2miStreamReset_inv t2mi false
    exact ⟨h.header, h.bbheader, h.crc, h.unsynced, h.between, h.payload, h.current, h.hem⟩
  · split
    · -- nobody is subscribed
      rename_i hnone
      refine ⟨_, _, rfl, ⟨hzero, Or.inl ⟨rfl, rfl⟩, hcrc, hsynced, hbetween, Or.inr (Or.inr hnone),
        ?_, ?_⟩, Or.inr ⟨rfl, rfl, hsync, hidx⟩⟩
      · intro k hk
        rw [hnone] at hk
        cases hk
      · intro k b hb
        rw [embeddedStreamSetMatype_bbfStreams] at hb
        exact hhem k b hb
    · rename_i k hk
      obtain ⟨b, hb⟩ := selectPlp_some hk
      simp only [hb]
      generalize hparse : parseBbheader b _ _ _ = b'
      obtain ⟨hupl, hlen, hpos⟩ : 0 ≤ b'.upl ∧ HemLength b' ∧ 0 ≤ b'.bbfPayloadBytesLeft := by
        rw [← hparse]
        exact parseBbheader_lengths ..
      split
      · exact ⟨_, _, rfl, t2miStreamReset_inv _ _, Or.inl rfl⟩
      · rename_i hfits
        have hpay : 0 ≤ t2mi.t2miPayloadBytesLeft := by omega
        refine ⟨_, _, rfl, ⟨hzero, Or.inl ⟨rfl, rfl⟩, hcrc, hsynced, hbetween, Or.inl hpay, ?_, ?_⟩,
          Or.inr ⟨rfl, rfl, hsync, hidx⟩⟩
        · intro j hj
          simp only [EmbeddedStream.put_currentBbf, hk, Option.some.injEq] at hj
          subst hj
          exact ⟨b', EmbeddedStream.put_bbfStreams_self, hupl⟩
        · intro j c hc
          by_cases hj : j = k
          · subst hj
            rw [EmbeddedStream.put_bbfStreams_self] at hc
            cases hc
            exact hlen
          · rw [EmbeddedStream.put_bbfStreams_ne hj, embeddedStreamSetMatype_bbfStreams] at hc
            exact hhem j c hc

theorem t2miBbheaderStage_advances {p num : ℤ} (hs : T2miPos.Inv ⟨t2mi, p, num, .bbheader⟩) :
    Advances ⟨t2mi, p, num, .bbheader⟩ (t2miBbheaderStage packet t2mi p num) := by
  have hinv : t2mi.Inv := hs.stream
  have hnum : num = 188 - p := hs.num
  obtain ⟨hp, hsync, hidx⟩ : p ≤ 188 ∧ t2mi.synced = true ∧ t2mi.headerIdx = 0 :=
    hs.inside (by rintro ⟨⟩)
  rw [t2miBbheaderStage]
  split
  · -- the header is due
    rename_i hdue
    have hb := hinv.bbheader
    obtain ⟨buff, _, heq⟩ := @getT2miBbheader_eq _ _ t2mi packet p num _
      (by omega) (by omega) (by omega) (by omega) rfl
    obtain ⟨n, hdef⟩ : ∃ n, n = min num (13 - t2mi.bbheaderIdx) := ⟨_, rfl⟩
    rw [← hdef] at heq
    rw [if_neg (by omega), heq]
    by_cases h13 : t2mi.bbheaderIdx + n = 13
    · have hhem : ∀ k b, (t2mi.tookBbheader buff n).emb.bbfStreams k = some b → HemLength b := by
        rw [T2miStream.tookBbheader_bbfStreams]
        exact hinv.hem
      obtain ⟨t, o, hread, ht, ho⟩ := readT2miBbheader_inv (t2mi.tookBbheader buff n) (p + n) hidx
        (by simp only [T2miStream.tookBbheader]; omega) hinv.crc hsync hhem
      rw [if_pos h13, hread]
      rcases ho with rfl | ⟨rfl, hleft, hsync', hidx'⟩
      · exact ht
      · simp only
        rw [if_neg (by omega), if_neg (by omega), if_neg (by simp)]
        refine ⟨⟨ht, by simp only; omega, fun _ => ⟨by simp only; omega, hsync', hidx'⟩,
          fun _ => hleft, by rintro ⟨⟩⟩, ?_⟩
        rw [t2miFuel_bbheader, t2miFuel_payload]
        omega
    · rw [if_neg h13]
      simp only
      rw [if_neg (by omega), if_neg (by omega), if_pos (by simp)]
      refine ⟨hinv.header, Or.inr ?_, hinv.crc, fun hno => ?_, ?_, Or.inr (Or.inl ?_), ?_, ?_⟩
      · simp only [T2miStream.tookBbheader]
        omega
      · cases hsync.symm.trans hno
      · simp only [T2miStream.tookBbheader]
        omega
      · simp only [T2miStream.tookBbheader]
        omega
      · rw [T2miStream.tookBbheader_currentBbf, T2miStream.tookBbheader_bbfStreams]
        exact hinv.current
      · rw [T2miStream.tookBbheader_bbfStreams]
        exact hinv.hem
  · rename_i hdue
    have hb := hinv.bbheader
    have hzero : t2mi.bbheaderBytesLeft = 0 := by omega
    refine ⟨⟨hinv, hnum, fun _ => ⟨hp, hsync, hidx⟩, fun _ => hzero, by rintro ⟨⟩⟩, ?_⟩
    rw [t2miFuel_bbheader, t2miFuel_payload]
    omega

/-! ### Payload and CRC -/

/-- Payload bytes are due for a sub-stream that stalls on them. -/
def T2miPos.Jammed (s : T2miPos β) : Prop :=
  s.stage = .payload ∧ s.t2mi.packetType = 0 ∧ 0 < min s.t2mi.t2miPayloadBytesLeft s.num ∧
    ∃ b ∈ s.t2mi.emb.currentBbf.bind s.t2mi.emb.bbfStreams,
      b.Stalls (min s.t2mi.t2miPayloadBytesLeft s.num)

omit [Cell β] in
/-- A call on the current sub-stream does not touch the counters. -/
theorem T2miStream.Inv.put (h : t2mi.Inv) {k : ℕ} {b b' : BbframesStream β} (crc : UInt32)
    (hb : t2mi.emb.bbfStreams k = some b) (hupl : 0 ≤ b.upl) (hsame : SameFormat b b') :
    T2miStream.Inv { t2mi with t2miCrc32 := crc, emb := t2mi.emb.put k b' } := by
  refine ⟨h.header, h.bbheader, h.crc, h.unsynced, h.between, h.payload, ?_, ?_⟩
  · intro j hj
    by_cases hjk : j = k
    · subst hjk
      exact ⟨b', EmbeddedStream.put_bbfStreams_self, hsame.2.symm ▸ hupl⟩
    · simp only [EmbeddedStream.put_bbfStreams_ne hjk]
      exact h.current j hj
  · intro j c hc
    by_cases hjk : j = k
    · subst hjk
      rw [EmbeddedStream.put_bbfStreams_self] at hc
      cases hc
      exact hsame.hemLength (h.hem j b hb)
    · rw [EmbeddedStream.put_bbfStreams_ne hjk] at hc
      exact h.hem j c hc

omit [Cell β] in
/-- Counting payload bytes as read. -/
theorem t2miAdvance_advances {t : T2miStream β} {p n num : ℤ} (ht : t.Inv) (hnum : num = 188 - p)
    (hsync : t.synced = true) (hidx : t.headerIdx = 0) (hleft : t.bbheaderBytesLeft = 0)
    (hpos : 0 < n) (hn : n ≤ t.t2miPayloadBytesLeft) (hfits : n ≤ num) :
    Advances ⟨t2mi, p, num, .payload⟩ (t2miAdvance t p n num) := by
  rw [t2miAdvance, if_neg (by omega)]
  simp only
  rw [if_neg (by omega), if_neg (by omega)]
  have hpay : 0 ≤ t.t2miPayloadBytesLeft - n := by omega
  refine ⟨⟨⟨ht.header, ht.bbheader, ht.crc, fun hno => ?_, fun hbetween => ?_, Or.inl hpay,
    ht.current, ht.hem⟩, by simp only; omega, fun _ => ⟨by simp only; omega, hsync, hidx⟩,
    fun _ => hleft, fun _ => hpay⟩, ?_⟩
  · cases hsync.symm.trans hno
  · have : 0 < t.headerIdx := hbetween
    omega
  · rw [t2miFuel_payload, t2miFuel_crc]
    split <;> omega

theorem t2miPayloadStage_advances {p num : ℤ} (hs : T2miPos.Inv ⟨t2mi, p, num, .payload⟩)
    (hgo : ¬ T2miPos.Jammed ⟨t2mi, p, num, .payload⟩) :
    Advances ⟨t2mi, p, num, .payload⟩ (t2miPayloadStage packet t2mi p num) := by
  have hinv : t2mi.Inv := hs.stream
  have hnum : num = 188 - p := hs.num
  have hleft : t2mi.bbheaderBytesLeft = 0 := hs.headers (Or.inl rfl)
  obtain ⟨hp, hsync, hidx⟩ : p ≤ 188 ∧ t2mi.synced = true ∧ t2mi.headerIdx = 0 :=
    hs.inside (by rintro ⟨⟩)
  rw [t2miPayloadStage]
  cases hcur : t2mi.emb.currentBbf with
  | none => exact hinv
  | some k =>
    obtain ⟨b, hb, hupl⟩ := hinv.current k hcur
    have hpay : 0 ≤ t2mi.t2miPayloadBytesLeft := by
      rcases hinv.payload with h | h | h
      · exact h
      · omega
      · rw [hcur] at h
        cases h
    simp only
    rw [if_neg (by omega)]
    obtain ⟨n, hn⟩ : ∃ n, n = min t2mi.t2miPayloadBytesLeft num := ⟨_, rfl⟩
    simp only [← hn]
    split_ifs with hpos htype
    · -- bytes for the sub-stream
      have hread := bbfOutputTsBytes_reads packet p (hinv.hem k b hb) hupl hpos fun hst =>
        hgo ⟨rfl, htype, by simp only [← hn]; exact hpos, b, by simp [hcur, hb],
          by simp only [← hn]; exact hst⟩
      rw [hb]
      simp only
      generalize bbfOutputTsBytes packet b p n = out at hread
      cases out with
      | hang => exact hread
      | wild => trivial
      | null b' => exact hinv.put _ hb hupl hread
      | ptr b' p' =>
        obtain ⟨hsame, hlo, hhi⟩ := hread
        have hhi' : p' ≤ p + n := hhi
        exact t2miAdvance_advances (hinv.put _ hb hupl hsame) hnum hsync hidx hleft (by omega)
          (by simp only; omega) (by omega)
    · have hskip : T2miStream.Inv { t2mi with
          t2miCrc32 := extendCrc32 t2mi.t2miCrc32 ((packet.read p n).map Cell.val) } :=
        ⟨hinv.header, hinv.bbheader, hinv.crc, hinv.unsynced, hinv.between, hinv.payload,
          hinv.current, hinv.hem⟩
      exact t2miAdvance_advances hskip hnum hsync hidx hleft hpos (by simp only; omega) (by omega)
    · refine ⟨⟨hinv, hnum, fun _ => ⟨hp, hsync, hidx⟩, fun _ => hleft, fun _ => hpay⟩, ?_⟩
      rw [t2miFuel_payload, t2miFuel_crc, if_neg (by omega)]
      omega

theorem t2miCrcStage_advances {p num : ℤ} (hs : T2miPos.Inv ⟨t2mi, p, num, .crc⟩) :
    Advances ⟨t2mi, p, num, .crc⟩ (t2miCrcStage packet t2mi p num) := by
  have hinv : t2mi.Inv := hs.stream
  have hnum : num = 188 - p := hs.num
  obtain ⟨hp, hsync, hidx⟩ : p ≤ 188 ∧ t2mi.synced = true ∧ t2mi.headerIdx = 0 :=
    hs.inside (by rintro ⟨⟩)
  have hc := hinv.crc
  rw [t2miCrcStage, if_neg (by omega)]
  split_ifs with hdue hfull
  · exact hinv
  · obtain ⟨n, hn⟩ : ∃ n, n = min (4 - t2mi.crcIdx) num := ⟨_, rfl⟩
    simp only [← hn]
    rw [if_neg (by omega), if_neg (by omega)]
    have hread : ∀ errors, T2miStream.Inv { t2mi with
        t2miCrc32 := extendCrc32 t2mi.t2miCrc32 ((packet.read p n).map Cell.val)
        crcIdx := t2mi.crcIdx + n, numCrc32Errors := errors } := fun errors =>
      ⟨hinv.header, hinv.bbheader, by simp only; omega, hinv.unsynced, hinv.between, hinv.payload,
        hinv.current, hinv.hem⟩
    refine ⟨⟨?_, by simp only; omega, fun h => absurd rfl h, by rintro (⟨⟨⟩⟩ | ⟨⟨⟩⟩), by rintro ⟨⟩⟩,
      ?_⟩
    · simp only
      split
      · exact hread _
      · exact hread _
    · rw [t2miFuel_crc, t2miFuel_header]
      split_ifs <;> omega
  · refine ⟨⟨hinv, hnum, fun h => absurd rfl h, by rintro (⟨⟨⟩⟩ | ⟨⟨⟩⟩), by rintro ⟨⟩⟩, ?_⟩
    rw [t2miFuel_crc, t2miFuel_header]
    split_ifs <;> omega

/-! ### The loop -/

theorem t2miBody_advances (hs : s.Inv) (hgo : ¬ s.Jammed) : Advances s (t2miBody packet s) := by
  obtain ⟨t2mi, p, num, stage⟩ := s
  cases stage with
  | header => exact t2miHeaderStage_advances hs
  | bbheader => exact t2miBbheaderStage_advances hs
  | payload => exact t2miPayloadStage_advances hs hgo
  | crc => exact t2miCrcStage_advances hs

/-- Without a jam the loop ends, within the passes that the fuel allows, in a good state. -/
theorem run_t2miBody_ends (hs : s.Inv)
    (hgo : ∀ u, Visits (t2miBody packet) s u → ¬ u.Jammed) {k : ℕ} (hk : t2miFuel s < k) :
    ∃ out, run (t2miBody packet) k s = some out ∧ Advances s (.exit out) := by
  induction k generalizing s with
  | zero => omega
  | succ k ih =>
    have hstep := @t2miBody_advances _ _ packet _ hs (hgo s .start)
    cases hb : t2miBody packet s with
    | exit out =>
      rw [hb] at hstep
      exact ⟨out, run_exit hb k, hstep⟩
    | again t =>
      rw [hb] at hstep
      obtain ⟨ht, hlt⟩ := hstep
      obtain ⟨out, hrun, hout⟩ := ih ht (fun u hu => hgo u (hu.head hb)) (by omega)
      refine ⟨out, by rw [run_again hb, hrun], ?_⟩
      cases out with
      | done t2mi => exact hout
      | wild => trivial
      | hang => exact hout

/-- Going round in front of a stalled sub-stream. -/
structure T2miPos.Stuck (s : T2miPos β) : Prop where
  ahead : s.p < 188 ∧ s.num = 188 - s.p
  inside : s.t2mi.synced = true ∧ s.t2mi.headerIdx = 0 ∧ s.t2mi.bbheaderBytesLeft = 0
  due : 0 < s.t2mi.t2miPayloadBytesLeft ∧ s.t2mi.packetType = 0
  stalls : ∃ k b, s.t2mi.emb.currentBbf = some k ∧ s.t2mi.emb.bbfStreams k = some b ∧
    b.Stalls (min s.t2mi.t2miPayloadBytesLeft s.num)

theorem t2miBody_stuck (packet : Packet β) (hs : s.Stuck) :
    ∃ t, t2miBody packet s = .again t ∧ t.Stuck ∧ t.p = s.p ∧ t.t2mi.emb = s.t2mi.emb := by
  obtain ⟨t2mi, p, num, stage⟩ := s
  obtain ⟨hp, hnum⟩ : p < 188 ∧ num = 188 - p := hs.ahead
  obtain ⟨hsync, hidx, hleft⟩ :
    t2mi.synced = true ∧ t2mi.headerIdx = 0 ∧ t2mi.bbheaderBytesLeft = 0 := hs.inside
  obtain ⟨hpay, htype⟩ : 0 < t2mi.t2miPayloadBytesLeft ∧ t2mi.packetType = 0 := hs.due
  obtain ⟨k, b, hcur, hb, hst⟩ : ∃ k b, t2mi.emb.currentBbf = some k ∧
    t2mi.emb.bbfStreams k = some b ∧ b.Stalls (min t2mi.t2miPayloadBytesLeft num) := hs.stalls
  cases stage with
  | header =>
    refine ⟨⟨t2mi, p, num, .bbheader⟩, ?_, ⟨hs.ahead, hs.inside, hs.due, hs.stalls⟩, rfl, rfl⟩
    rw [t2miBody, t2miHeaderStage, if_neg (by simp only; omega), if_neg]
    simp only [t2miFrameIsComplete, hsync, hidx]
    simp [Int.ne_of_gt hpay]
  | bbheader =>
    refine ⟨⟨t2mi, p, num, .payload⟩, ?_, ⟨hs.ahead, hs.inside, hs.due, hs.stalls⟩, rfl, rfl⟩
    rw [t2miBody, t2miBbheaderStage, if_neg (by simp only; omega)]
  | payload =>
    have hput : t2mi.emb.put k b = t2mi.emb := by
      rw [EmbeddedStream.put, ← hb, Function.update_eq_self]
    let crc := extendCrc32 t2mi.t2miCrc32
      ((packet.read p (min t2mi.t2miPayloadBytesLeft num)).map Cell.val)
    refine ⟨⟨{ t2mi with t2miCrc32 := crc }, p, num, .crc⟩, ?_,
      ⟨hs.ahead, hs.inside, hs.due, hs.stalls⟩, rfl, rfl⟩
    simp only [t2miBody, t2miPayloadStage, hcur]
    rw [if_neg (by omega), if_pos (by omega), if_pos htype]
    simp only [hb, bbfOutputTsBytes_stalls packet p hst, hput, Int.sub_self, t2miAdvance,
      Int.add_zero, Int.sub_zero]
    rw [if_neg (by omega), if_neg (by omega), if_neg (by omega)]
  | crc =>
    refine ⟨⟨t2mi, p, num, .header⟩, ?_, ⟨hs.ahead, hs.inside, hs.due, hs.stalls⟩, rfl, rfl⟩
    rw [t2miBody, t2miCrcStage, if_neg (by simp only; omega), if_neg (by simp only; omega)]

omit [Cell β] in
theorem T2miPos.Jammed.stuck (hs : s.Inv) (hj : s.Jammed) : s.Stuck := by
  obtain ⟨hstage, htype, hpos, b, hb, hst⟩ := hj
  obtain ⟨k, hk, hb⟩ := Option.bind_eq_some_iff.mp hb
  obtain ⟨hp, hsync, hidx⟩ := hs.inside (by rw [hstage]; rintro ⟨⟩)
  have hnum := hs.num
  exact ⟨by omega, ⟨hsync, hidx, hs.headers (Or.inl hstage)⟩, ⟨by omega, htype⟩, k, b, hk, hb, hst⟩

/-- Where a loop that ends gets to nothing is jammed. -/
theorem visited_unjammed {u : T2miPos β} (hs : s.Inv) (hterm : Terminates (t2miBody packet) s)
    (hu : Visits (t2miBody packet) s u) : u.Inv ∧ ¬ u.Jammed := by
  have hfree : ∀ t : T2miPos β, Visits (t2miBody packet) s t → t.Inv → ¬ t.Jammed :=
    fun t ht hinv hj =>
      have hstay (a : T2miPos β) (ha : a.Stuck) : ∃ b, t2miBody packet a = .again b ∧ b.Stuck := by
        obtain ⟨b, hb, hstuck, _⟩ := t2miBody_stuck packet ha
        exact ⟨b, hb, hstuck⟩
      not_terminates_of_trap hstay ht (hj.stuck hinv) hterm
  induction hu with
  | start => exact ⟨hs, hfree _ .start hs⟩
  | pass hv hb ih =>
    have hstep := @t2miBody_advances _ _ packet _ ih.1 ih.2
    rw [hb] at hstep
    exact ⟨hstep.1, hfree _ (hv.pass hb) hstep.1⟩

/-! ### The call -/

/-- Up to the loop: the stream is left alone, reset or dropped out of sync, or the continuity counter
    is taken over and the loop may start behind the transport header. -/
inductive T2miStream.Enters (t2mi : T2miStream β) : Next (T2miPos β) (T2miStream β) → Prop where
  | left : t2mi.Enters (.exit t2mi)
  | reset : t2mi.Enters (.exit (t2miStreamReset { t2mi with numCcErrors := t2mi.numCcErrors + 1 } false))
  | counted (c : ℤ) : t2mi.Enters (.exit { t2mi with emb := { t2mi.emb with ccCounter := c } })
  | dropped (c : ℤ) (hsync : t2mi.synced = false) (hidx : 0 < t2mi.headerIdx) :
    t2mi.Enters (.exit { t2mi with
      emb := { t2mi.emb with ccCounter := c }, synced := false, headerIdx := 0 })
  | started (c p : ℤ) (hp : 4 ≤ p) :
    t2mi.Enters (.again ⟨{ t2mi with emb := { t2mi.emb with ccCounter := c } }, p, 188 - p, .header⟩)

theorem t2miEnter_enters (t2mi : T2miStream β) (packet : Packet β) :
    t2mi.Enters (t2miEnter t2mi packet) := by
  have hp : 4 ≤ (if hasAdaptationField packet then 4 + 1 + ((packet.byte 4).toNat : ℤ) else 4) := by
    split <;> omega
  rw [t2miEnter]
  generalize (if hasAdaptationField packet then 4 + 1 + ((packet.byte 4).toNat : ℤ) else 4) = p at hp ⊢
  by_cases hpid : tsPid packet ≠ t2mi.emb.embeddingPid
  · rw [if_pos hpid]
    exact .left
  rw [if_neg hpid]
  by_cases hpay : ¬ hasPayload packet
  · rw [if_pos hpay]
    exact .left
  rw [if_neg hpay]
  by_cases hscrambled : packet.byte 3 &&& 0xC0 ≠ 0
  · rw [if_pos hscrambled]
    exact .left
  rw [if_neg hscrambled]
  dsimp only
  by_cases hidle : ¬ t2mi.synced ∧ ¬ packet.byte 1 &&& 0x40 ≠ 0
  · rw [if_pos hidle]
    exact .left
  rw [if_neg hidle]
  split
  · exact .reset
  by_cases hpusi : packet.byte 1 &&& 0x40 ≠ 0
  · rw [if_pos hpusi]
    by_cases hrange : 188 ≤ p + 1 + ((packet.byte p).toNat : ℤ)
    · rw [if_pos hrange]
      exact .counted _
    rw [if_neg hrange]
    by_cases hsync : t2mi.synced = true
    · rw [if_pos hsync]
      exact .started _ _ (by omega)
    rw [if_neg hsync]
    by_cases hidx : 0 < t2mi.headerIdx
    · rw [if_pos hidx]
      exact .dropped _ (Bool.not_eq_true _ ▸ hsync) hidx
    rw [if_neg hidx]
    exact .started _ _ (by omega)
  · rw [if_neg hpusi]
    exact .started _ _ hp

/-- The call returns or the loop starts, in a good state and with fuel enough. -/
theorem t2miEnter_inv (h : t2mi.Inv) (packet : Packet β) :
    match t2miEnter t2mi packet with
    | .exit t => t.Inv
    | .again s => s.Inv ∧ t2miFuel s < t2miPasses := by
  have hcc : ∀ c : ℤ, T2miStream.Inv { t2mi with emb := { t2mi.emb with ccCounter := c } } :=
    fun _ => ⟨h.header, h.bbheader, h.crc, h.unsynced, h.between, h.payload, h.current, h.hem⟩
  have henters := t2miEnter_enters t2mi packet
  generalize t2miEnter t2mi packet = next at henters ⊢
  cases henters with
  | left => exact h
  | reset => exact t2miStreamReset_inv _ _
  | counted c => exact hcc c
  | dropped c hsync hidx =>
    -- no header is begun while the stream is out of sync
    have := (h.unsynced hsync).2
    omega
  | started c p hp =>
    refine ⟨⟨hcc c, rfl, fun hne => absurd rfl hne, by rintro (⟨⟨⟩⟩ | ⟨⟨⟩⟩), by rintro ⟨⟩⟩, ?_⟩
    rw [t2miFuel_header, t2miPasses]
    split <;> omega

/-- The loops of the call all end. -/
def T2miEnds (t2mi : T2miStream β) (packet : Packet β) : Prop :=
  ∀ s, t2miEnter t2mi packet = .again s → ∃ out, Ends (t2miBody packet) s out ∧ out ≠ .hang

/-- The loop comes to no jam. -/
def T2miUnjammed (t2mi : T2miStream β) (packet : Packet β) : Prop :=
  ∀ s u, t2miEnter t2mi packet = .again s → Visits (t2miBody packet) s u → ¬ u.Jammed

theorem T2miStream.Inv.ends_iff (h : t2mi.Inv) (packet : Packet β) :
    T2miEnds t2mi packet ↔ T2miUnjammed t2mi packet := by
  have henter := t2miEnter_inv h packet
  constructor
  · intro hends s u hs hu
    rw [hs] at henter
    obtain ⟨out, hout, _⟩ := hends s hs
    exact (visited_unjammed henter.1 ⟨out, hout⟩ hu).2
  · intro hgo s hs
    rw [hs] at henter
    obtain ⟨out, hrun, hout⟩ :=
      run_t2miBody_ends henter.1 (fun u hu => hgo s u hs hu) (Nat.lt_succ_self _)
    refine ⟨out, ⟨_, hrun⟩, ?_⟩
    rintro rfl
    exact hout

/-- A loop that ends gives the result of the call. -/
theorem T2miStream.Inv.add_of_ends (h : t2mi.Inv) {packet : Packet β} {s : T2miPos β}
    {out : Outcome (T2miStream β)} (hs : t2miEnter t2mi packet = .again s)
    (hends : Ends (t2miBody packet) s out) :
    t2miStreamAddPacket t2mi packet = out ∧ Advances s (.exit out) := by
  have henter := t2miEnter_inv h packet
  rw [hs] at henter
  obtain ⟨out', hrun, hout⟩ := run_t2miBody_ends henter.1
    (fun u hu => (visited_unjammed henter.1 ⟨out, hends⟩ hu).2) henter.2
  obtain rfl := hends.unique ⟨_, hrun⟩
  refine ⟨?_, hout⟩
  rw [t2miStreamAddPacket, hs]
  simp only [hrun, Option.getD_some]

theorem T2miStream.Inv.add (h : t2mi.Inv) {packet : Packet β} {t : T2miStream β}
    (ht : t2miStreamAddPacket t2mi packet = .done t) : t.Inv := by
  have henter := t2miEnter_inv h packet
  cases hs : t2miEnter t2mi packet with
  | exit t' =>
    rw [t2miStreamAddPacket, hs] at ht
    rw [hs] at henter
    cases ht
    exact henter
  | again s =>
    cases hrun : run (t2miBody packet) t2miPasses s with
    | none =>
      rw [t2miStreamAddPacket, hs] at ht
      simp [hrun] at ht
    | some out =>
      obtain ⟨hadd, hout⟩ := h.add_of_ends hs ⟨_, hrun⟩
      rw [hadd] at ht
      subst ht
      exact hout

/-- Every reachable state is a good one. -/
theorem t2miRun_inv : ∀ (packets : List (Packet β)) {s t : T2miStream β}, s.Inv →
    t2miRun s packets = .done t → t.Inv
  | [], s, t, hs, hrun => by
    rw [t2miRun, Outcome.run, Outcome.done.injEq] at hrun
    exact hrun ▸ hs
  | packet :: packets, s, t, hs, hrun => by
    rw [t2miRun, Outcome.run] at hrun
    cases hstep : t2miStreamAddPacket s packet with
    | done s' =>
      rw [hstep] at hrun
      exact t2miRun_inv packets (hs.add hstep) hrun
    | hang =>
      rw [hstep] at hrun
      cases hrun
    | wild =>
      rw [hstep] at hrun
      cases hrun

/-- A packet of pid 270 with a T2-MI packet of PLP 3 in normal mode: its BBHEADER gives a UPL of 8
    bits and a DFL of 16. -/
def shortUpl : Packet UInt8 := Packet.ofList
  [0x47, 0x41, 0x0E, 0x10, 0x00,
    0x00, 0x00, 0x00, 0x00, 0x00, 0x78,
    0x00, 0x03, 0x00, 0x00, 0x03, 0x00, 0x08, 0x00, 0x10, 0x47, 0x00, 0x00, 0x12]

instance (s : T2miPos β) : Decidable s.Jammed := inferInstanceAs (Decidable (_ ∧ _ ∧ _ ∧ _))

/-- With PLP 3 subscribed the second pass of the loop is jammed. -/
theorem shortUpl_jams :
    (match t2miEnter (t2miStreamInit 270 fun k => k = 3) shortUpl with
      | .again s => (after (t2miBody shortUpl) 6 s).any fun u => u.Jammed
      | .exit _ => false) = true := by decide

end Demux

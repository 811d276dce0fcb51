import NeumoDrivers.Demux.T2miHeaders

/-! The stretches of the loop over the bytes of a T2-MI packet, each as one equation.

    When a stretch has bytes to read, it reads as many as are due or as the packet still holds, and
    goes on if they were as many as were due; else it passes the position on as it is. -/

namespace Demux
open Loop

variable {β : Type} [Cell β] {packet : Packet β} {t2mi : T2miStream β} {p num n : ℤ}

theorem t2miHeaderStage_end (hp : 188 ≤ p) :
    t2miHeaderStage packet t2mi p num = .exit (.done t2mi) := by
  rw [t2miHeaderStage, if_pos hp]

/-- Between two T2-MI packets, or in the middle of a packet header. -/
theorem t2miHeaderStage_due (hidx : 0 ≤ t2mi.headerIdx) (hlt : t2mi.headerIdx < 6) (hp : p < 188)
    (hdue : t2miFrameIsComplete t2mi = true ∨ 0 < t2mi.headerIdx)
    (hn : n = min (188 - p) (6 - t2mi.headerIdx)) :
    ∃ buff, t2mi.buff.memcpy t2mi.headerIdx (packet.read p n) = some buff ∧
      t2miHeaderStage packet t2mi p num =
        if t2mi.headerIdx + n = 6 then
          .again ⟨{ readT2miHeader (t2mi.tookHeader buff n) with synced := true }, p + n,
            188 - (p + n), .bbheader⟩
        else .exit (.done { t2mi.tookHeader buff n with synced := true }) := by
  obtain ⟨buff, hbuff, heq⟩ :=
    getT2miPacketHeader_eq (p := p) packet hidx hlt (show 0 ≤ 188 - p by omega) (by omega) hn
  refine ⟨buff, hbuff, ?_⟩
  have hnum : 188 - p - (p + n - p) = 188 - (p + n) := by omega
  rw [t2miHeaderStage, if_neg (by omega), if_pos hdue]
  simp only [heq]
  by_cases h6 : t2mi.headerIdx + n = 6
  · simp only [if_pos h6, hnum]
    rw [if_neg (by omega), if_neg (by simp), if_neg (by simp), if_neg (by simp)]
  · simp only [if_neg h6, hnum]
    rw [if_neg (by omega), if_neg (by simp), if_neg (by omega), if_pos (by simp)]

/-- In the middle of a T2-MI packet. -/
theorem t2miHeaderStage_inside (hp : p < 188) (hdue : t2miFrameIsComplete t2mi = false)
    (hidx : t2mi.headerIdx = 0) :
    t2miHeaderStage packet t2mi p num = .again ⟨t2mi, p, num, .bbheader⟩ := by
  rw [t2miHeaderStage, if_neg (by omega), if_neg (by simp [hdue, hidx])]

theorem t2miBbheaderStage_inside (hleft : t2mi.bbheaderBytesLeft ≤ 0) :
    t2miBbheaderStage packet t2mi p num = .again ⟨t2mi, p, num, .payload⟩ := by
  rw [t2miBbheaderStage, if_neg (by omega)]

/-- In the middle of a 13-byte header: the header is not complete with the bytes at hand. -/
theorem t2miBbheaderStage_part (hidx : 0 ≤ t2mi.bbheaderIdx) (hleft : 0 < t2mi.bbheaderBytesLeft)
    (hp : p ≤ 188) (hn : n = 188 - p) (hpart : t2mi.bbheaderIdx + n < 13) :
    ∃ buff, t2mi.buff.memcpy t2mi.bbheaderIdx (packet.read p n) = some buff ∧
      t2miBbheaderStage packet t2mi p (188 - p) = .exit (.done (t2mi.tookBbheader buff n)) := by
  obtain ⟨buff, hbuff, heq⟩ := getT2miBbheader_eq (p := p) packet hidx (by omega)
    (show 0 ≤ 188 - p by omega) (by omega) (show n = min (188 - p) (13 - t2mi.bbheaderIdx) by omega)
  refine ⟨buff, hbuff, ?_⟩
  rw [t2miBbheaderStage, if_pos hleft, if_neg (by simp), heq, if_neg (by omega)]
  simp only
  rw [if_neg (by omega), if_neg (by omega), if_pos (by simp)]

/-- The last byte of a 13-byte header is at hand. -/
theorem t2miBbheaderStage_whole (hidx : 0 ≤ t2mi.bbheaderIdx) (hlt : t2mi.bbheaderIdx < 13)
    (hleft : 0 < t2mi.bbheaderBytesLeft) (hn : n = 13 - t2mi.bbheaderIdx) (hp : p + n ≤ 188) :
    ∃ buff, t2mi.buff.memcpy t2mi.bbheaderIdx (packet.read p n) = some buff ∧
      (∀ t, readT2miBbheader (t2mi.tookBbheader buff n) (p + n) = .done (t, some (p + n), true) →
        t2miBbheaderStage packet t2mi p (188 - p) =
          .again ⟨t, p + n, 188 - (p + n), .payload⟩) ∧
      ∀ t, readT2miBbheader (t2mi.tookBbheader buff n) (p + n) = .done (t, none, true) →
        t2miBbheaderStage packet t2mi p (188 - p) = .exit (.done t) := by
  obtain ⟨buff, hbuff, heq⟩ := getT2miBbheader_eq (p := p) packet hidx hlt
    (show 0 ≤ 188 - p by omega) (by omega) (show n = min (188 - p) (13 - t2mi.bbheaderIdx) by omega)
  have hnum : 188 - p - (p + n - p) = 188 - (p + n) := by omega
  rw [if_pos (by omega)] at heq
  refine ⟨buff, hbuff, fun t hread => ?_, fun t hread => ?_⟩
  · rw [t2miBbheaderStage, if_pos hleft, if_neg (by simp), heq, hread]
    simp only [hnum]
    rw [if_neg (by omega), if_neg (by simp), if_neg (by simp)]
  · rw [t2miBbheaderStage, if_pos hleft, if_neg (by simp), heq, hread]

/-- With no payload bytes at hand a sub-stream that is being received is passed by. -/
theorem t2miPayloadStage_none {k : ℕ} (hcur : t2mi.emb.currentBbf = some k)
    (hn : min t2mi.t2miPayloadBytesLeft (188 - p) ≤ 0) :
    t2miPayloadStage packet t2mi p (188 - p) = .again ⟨t2mi, p, 188 - p, .crc⟩ := by
  rw [t2miPayloadStage]
  simp only [hcur]
  rw [if_neg (by simp), if_neg (by omega)]

omit [Cell β] in
theorem t2miAdvance_eq (hp : p + n ≤ 188) (hn : n ≤ t2mi.t2miPayloadBytesLeft) :
    t2miAdvance t2mi p n (188 - p) =
      .again ⟨{ t2mi with t2miPayloadBytesLeft := t2mi.t2miPayloadBytesLeft - n }, p + n,
        188 - (p + n), .crc⟩ := by
  have hnum : 188 - p - n = 188 - (p + n) := by omega
  rw [t2miAdvance, if_neg (by omega)]
  simp only [hnum]
  rw [if_neg (by simp), if_neg (by omega)]

/-- Payload bytes for a sub-stream that takes `m` of them. -/
theorem t2miPayloadStage_output {k : ℕ} {b b' : BbframesStream β} {m : ℤ}
    (hcur : t2mi.emb.currentBbf = some k) (hb : t2mi.emb.bbfStreams k = some b)
    (htype : t2mi.packetType = 0) (hn : n = min t2mi.t2miPayloadBytesLeft (188 - p)) (hpos : 0 < n)
    (hout : bbfOutputTsBytes packet b p n = .ptr b' (p + m)) (hm : m ≤ n) :
    t2miPayloadStage packet t2mi p (188 - p) =
      .again ⟨{ t2mi with
          t2miCrc32 := extendCrc32 t2mi.t2miCrc32 ((packet.read p n).map Cell.val)
          emb := t2mi.emb.put k b'
          t2miPayloadBytesLeft := t2mi.t2miPayloadBytesLeft - m },
        p + m, 188 - (p + m), .crc⟩ := by
  have hq : p + m - p = m := by omega
  rw [t2miPayloadStage]
  simp only [hcur, ← hn]
  rw [if_neg (by simp), if_pos hpos, if_pos htype]
  simp only [hb, hout, hq]
  rw [t2miAdvance_eq (by omega) (by simp only; omega)]

theorem t2miCrcStage_pass (h : ¬ (t2mi.t2miPayloadBytesLeft = 0 ∧ p < 188)) :
    t2miCrcStage packet t2mi p (188 - p) = .again ⟨t2mi, p, 188 - p, .header⟩ := by
  rw [t2miCrcStage, if_neg (by simp), if_neg (by omega)]

/-- CRC bytes are due and at hand. -/
theorem t2miCrcStage_due (hpay : t2mi.t2miPayloadBytesLeft = 0) (hlt : t2mi.crcIdx < 4)
    (hp : p < 188) (hn : n = min (4 - t2mi.crcIdx) (188 - p)) :
    ∃ errors, t2miCrcStage packet t2mi p (188 - p) =
      .again ⟨{ t2mi with
          t2miCrc32 := extendCrc32 t2mi.t2miCrc32 ((packet.read p n).map Cell.val)
          crcIdx := t2mi.crcIdx + n
          numCrc32Errors := errors },
        p + n, 188 - (p + n), .header⟩ := by
  have hnum : 188 - p - n = 188 - (p + n) := by omega
  rw [t2miCrcStage, if_neg (by simp), if_pos (by omega), if_neg (by omega)]
  simp only [← hn, hnum]
  rw [if_neg (by omega), if_neg (by simp)]
  split
  · exact ⟨_, rfl⟩
  · exact ⟨_, rfl⟩

end Demux

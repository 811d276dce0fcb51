import NeumoDrivers.Demux.T2mi

/-! The two header readers of T2-MI decoding, each as one equation.

    With the index of the bytes read so far in range no copy leaves the buffer, and no header is
    read beyond the packet: the readers come down to `tookHeader` and `tookBbheader`, followed by
    the reading of the fields when the last byte is in. -/

namespace Demux

variable {β : Type} [Cell β] {t2mi : T2miStream β}

/-- `num` bytes of the packet header are taken in. -/
def T2miStream.tookHeader (t2mi : T2miStream β) (buff : Buff β 188) (num : ℤ) : T2miStream β :=
  { t2mi with
    buff := buff
    headerIdx := t2mi.headerIdx + num
    crcIdx := if t2mi.headerIdx = 0 then 0 else t2mi.crcIdx
    emb := if t2mi.headerIdx = 0 then { t2mi.emb with payloadLen := 0 } else t2mi.emb
    t2miCrc32 := if t2mi.headerIdx = 0 then 0xFFFFFFFF else t2mi.t2miCrc32 }

/-- `num` bytes of the PLP prefix and BBFRAME header are taken in. -/
def T2miStream.tookBbheader (t2mi : T2miStream β) (buff : Buff β 188) (num : ℤ) : T2miStream β :=
  { t2mi with
    buff := buff
    emb := if t2mi.bbheaderIdx = 0 then { t2mi.emb with bbfHeaderCrc8 := -1 } else t2mi.emb
    bbheaderBytesLeft := t2mi.bbheaderBytesLeft - num
    t2miPayloadBytesLeft := t2mi.t2miPayloadBytesLeft - num
    bbheaderIdx := t2mi.bbheaderIdx + num }

section
omit [Cell β]
variable (t2mi : T2miStream β) (buff : Buff β 188) (num : ℤ)

@[simp] theorem T2miStream.tookHeader_bbfStreams :
    (t2mi.tookHeader buff num).emb.bbfStreams = t2mi.emb.bbfStreams := by
  simp only [T2miStream.tookHeader]
  split <;> rfl

@[simp] theorem T2miStream.tookHeader_currentBbf :
    (t2mi.tookHeader buff num).emb.currentBbf = t2mi.emb.currentBbf := by
  simp only [T2miStream.tookHeader]
  split <;> rfl

@[simp] theorem T2miStream.tookBbheader_bbfStreams :
    (t2mi.tookBbheader buff num).emb.bbfStreams = t2mi.emb.bbfStreams := by
  simp only [T2miStream.tookBbheader]
  split <;> rfl

@[simp] theorem T2miStream.tookBbheader_currentBbf :
    (t2mi.tookBbheader buff num).emb.currentBbf = t2mi.emb.currentBbf := by
  simp only [T2miStream.tookBbheader]
  split <;> rfl

end

theorem getT2miPacketHeader_eq (packet : Packet β) {p avail num : ℤ} (hidx : 0 ≤ t2mi.headerIdx)
    (hlt : t2mi.headerIdx < 6) (havail : 0 ≤ avail) (hp : p + avail ≤ 188)
    (hnum : num = min avail (6 - t2mi.headerIdx)) :
    ∃ buff, t2mi.buff.memcpy t2mi.headerIdx (packet.read p num) = some buff ∧
      getT2miPacketHeader packet t2mi p avail =
        .done (if t2mi.headerIdx + num = 6 then
          (readT2miHeader (t2mi.tookHeader buff num), p + num, true)
        else (t2mi.tookHeader buff num, p + num, false)) := by
  obtain ⟨buff, hbuff, _⟩ := t2mi.buff.memcpy_append hidx _ (packet.read p num) rfl
    (by rw [packet.length_read]; omega)
  refine ⟨buff, hbuff, ?_⟩
  rw [getT2miPacketHeader, if_neg (by omega), ← hnum]
  simp only
  rw [if_neg (by omega), show min num (188 - t2mi.headerIdx) = num by omega, if_neg (by omega),
    hbuff]
  simp only
  rw [if_neg (by omega)]
  by_cases h6 : t2mi.headerIdx + num = 6
  · rw [if_pos h6]
    by_cases h0 : t2mi.headerIdx = 0
    · simp only [T2miStream.tookHeader, if_pos h0]
      rw [if_neg (not_not.mpr h6)]
    · simp only [T2miStream.tookHeader, if_neg h0]
      rw [if_neg (not_not.mpr h6)]
  · rw [if_neg h6]
    by_cases h0 : t2mi.headerIdx = 0
    · simp only [T2miStream.tookHeader, if_pos h0]
      rw [if_pos h6]
    · simp only [T2miStream.tookHeader, if_neg h0]
      rw [if_pos h6]

theorem getT2miBbheader_eq (packet : Packet β) {p avail num : ℤ} (hidx : 0 ≤ t2mi.bbheaderIdx)
    (hlt : t2mi.bbheaderIdx < 13) (havail : 0 ≤ avail) (hp : p + avail ≤ 188)
    (hnum : num = min avail (13 - t2mi.bbheaderIdx)) :
    ∃ buff, t2mi.buff.memcpy t2mi.bbheaderIdx (packet.read p num) = some buff ∧
      getT2miBbheader packet t2mi p avail =
        if t2mi.bbheaderIdx + num = 13 then
          readT2miBbheader (t2mi.tookBbheader buff num) (p + num)
        else .done (t2mi.tookBbheader buff num, some (p + num), false) := by
  obtain ⟨buff, hbuff, _⟩ := t2mi.buff.memcpy_append hidx _ (packet.read p num) rfl
    (by rw [packet.length_read]; omega)
  refine ⟨buff, hbuff, ?_⟩
  rw [getT2miBbheader, ← hnum]
  simp only
  rw [if_neg (by omega), if_neg (by omega), hbuff]
  simp only
  rw [if_neg (by omega)]
  by_cases h13 : t2mi.bbheaderIdx + num = 13
  · rw [if_pos h13]
    by_cases h0 : t2mi.bbheaderIdx = 0
    · simp only [T2miStream.tookBbheader, if_pos h0]
      rw [if_neg (not_not.mpr h13)]
    · simp only [T2miStream.tookBbheader, if_neg h0]
      rw [if_neg (not_not.mpr h13)]
  · rw [if_neg h13]
    by_cases h0 : t2mi.bbheaderIdx = 0
    · simp only [T2miStream.tookBbheader, if_pos h0]
      rw [if_pos h13]
    · simp only [T2miStream.tookBbheader, if_neg h0]
      rw [if_pos h13]

/-- Reading the fields of a packet header leaves the sub-streams alone. A packet count that does not
    follow leaves the lengths alone too. -/
theorem readT2miHeader_spec (t2mi : T2miStream β) :
    (readT2miHeader t2mi).headerIdx = 0 ∧ (readT2miHeader t2mi).crcIdx = t2mi.crcIdx ∧
      (readT2miHeader t2mi).emb.bbfStreams = t2mi.emb.bbfStreams ∧
      (readT2miHeader t2mi).emb.currentBbf = t2mi.emb.currentBbf ∧
      ((readT2miHeader t2mi).t2miPayloadBytesLeft = t2mi.t2miPayloadBytesLeft ∧
          (readT2miHeader t2mi).bbheaderBytesLeft = t2mi.bbheaderBytesLeft ∧
          (readT2miHeader t2mi).bbheaderIdx = t2mi.bbheaderIdx ∨
        0 ≤ (readT2miHeader t2mi).t2miPayloadBytesLeft ∧
          ((readT2miHeader t2mi).bbheaderBytesLeft = 13 ∨
            (readT2miHeader t2mi).bbheaderBytesLeft = 0) ∧
          (readT2miHeader t2mi).bbheaderIdx = 0) := by
  simp only [readT2miHeader]
  split
  · exact ⟨rfl, rfl, rfl, rfl, Or.inl ⟨rfl, rfl, rfl⟩⟩
  · refine ⟨rfl, rfl, rfl, rfl, Or.inr ⟨?_, ?_, rfl⟩⟩
    · simp only [be16]
      omega
    · simp only
      split
      · exact Or.inl rfl
      · exact Or.inr rfl

omit [Cell β] in
/-- The sub-stream selected for a PLP exists. -/
theorem selectPlp_some {emb : EmbeddedStream β} {plpId defaultIsi : ℤ} {k : ℕ}
    (h : selectPlp emb plpId defaultIsi = some k) : ∃ b, emb.bbfStreams k = some b := by
  simp only [selectPlp] at h
  split_ifs at h with hplp hdefault
  · cases h
    exact Option.isSome_iff_exists.mp hplp
  · cases h
    exact Option.isSome_iff_exists.mp hdefault.2

end Demux

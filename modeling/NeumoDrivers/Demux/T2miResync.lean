import NeumoDrivers.Demux.T2miLoop
import NeumoDrivers.Demux.T2miStages

/-! A T2-MI packet that went missing.

    `get_t2mi_packet_header` takes a `packet_count` that does not follow the one before as a
    protocol violation: it marks the stream as unsynchronised, leaves the rest of the header unread
    and reports the header as complete. Its caller marks the stream as synchronised as soon as a
    header was read, complete or not, so the mark is gone before anything looks at it: the loop goes
    on behind the header with the lengths of the packet before. -/

namespace Demux
open Loop

variable {β : Type} [Cell β] {packet : Packet β} {t2mi : T2miStream β} {s : T2miPos β}

/-- Byte `i` of the packet header that is read at a point of the loop; its first bytes may have come
    with the transport packet before. -/
def T2miPos.headerByte (s : T2miPos β) (packet : Packet β) (i : ℕ) : UInt8 :=
  if (i : ℤ) < s.t2mi.headerIdx then s.t2mi.buff.byte i
  else packet.byte (s.p + (i - s.t2mi.headerIdx))

/-- The last byte of a packet header is read here, and its `packet_count` does not follow the one
    before. -/
structure T2miPos.LosesCount (s : T2miPos β) (packet : Packet β) : Prop where
  stage : s.stage = .header
  inside : s.p < 188
  due : t2miFrameIsComplete s.t2mi = true ∨ 0 < s.t2mi.headerIdx
  whole : 6 - s.t2mi.headerIdx ≤ 188 - s.p
  counted : 0 ≤ s.t2mi.emb.packetCount
  wrong : (s.t2mi.emb.packetCount + 1) % 256 ≠ (s.headerByte packet 1).toNat

/-- From a point of the loop on the stream is unsynchronised: wherever the loop still gets to, and
    when it is done. -/
structure T2miPos.StaysUnsynced (s : T2miPos β) (packet : Packet β) : Prop where
  after : ∀ v u, Visits (t2miBody packet) s v → t2miBody packet v = .again u →
    u.t2mi.synced = false
  left : ∀ t, Ends (t2miBody packet) s (.done t) → t.synced = false

/-- The header read at a point of the loop, put together in the buffer. -/
theorem headerByte_eq {buff : Buff β 188} {n : ℤ} {i : ℕ} (hidx : 0 ≤ s.t2mi.headerIdx)
    (hp : 0 ≤ s.p) (hi : (i : ℤ) < s.t2mi.headerIdx + n) (hn : 0 ≤ n)
    (h : s.t2mi.buff.memcpy s.t2mi.headerIdx (packet.read s.p n) = some buff) :
    buff.byte i = s.headerByte packet i := by
  simp only [Buff.memcpy, Option.dite_none_right_eq_some, Option.some.injEq] at h
  obtain ⟨⟨_, hroom⟩, rfl⟩ := h
  rw [packet.length_read] at hroom
  have hlen : (s.t2mi.buff.cells.take s.t2mi.headerIdx.toNat).length = s.t2mi.headerIdx.toNat := by
    rw [List.length_take, s.t2mi.buff.size]
    omega
  simp only [Buff.byte, T2miPos.headerByte, Packet.byte, List.getD_eq_getElem?_getD]
  split_ifs with hlt
  · rw [List.append_assoc, List.getElem?_append_left (by omega), List.getElem?_take,
      if_pos (by omega)]
  · rw [List.append_assoc, List.getElem?_append_right (by omega), hlen,
      List.getElem?_append_left (by rw [packet.length_read]; omega), Packet.read,
      List.getElem?_map, List.getElem?_range (by omega), Option.map_some, Option.getD_some]
    congr 2
    omega

/-- A count that does not follow leaves the fields of the packet before in place. -/
theorem readT2miHeader_wrong (hcount : 0 ≤ t2mi.emb.packetCount)
    (hwrong : (t2mi.emb.packetCount + 1) % 256 ≠ (t2mi.buff.byte 1).toNat) :
    readT2miHeader t2mi =
      { t2mi with headerIdx := 0, packetType := (t2mi.buff.byte 0).toNat, synced := false } := by
  rw [readT2miHeader]
  simp only
  rw [if_pos ⟨hcount, hwrong⟩]

/-- The loop goes on behind the header, in step as if the header were a good one. -/
theorem T2miPos.LosesCount.goes_on (h : s.LosesCount packet) (hinv : s.t2mi.Inv) (hp : 0 ≤ s.p) :
    ∃ u, t2miBody packet s = .again u ∧ u.t2mi.synced = true ∧ u.stage = .bbheader ∧
      u.p = s.p + (6 - s.t2mi.headerIdx) ∧ u.t2mi.crcIdx = (if s.t2mi.headerIdx = 0 then 0
        else s.t2mi.crcIdx) ∧ u.t2mi.t2miPayloadBytesLeft = s.t2mi.t2miPayloadBytesLeft := by
  obtain ⟨hidx, hlt⟩ := hinv.header
  have hn : 6 - s.t2mi.headerIdx = min (188 - s.p) (6 - s.t2mi.headerIdx) :=
    (Int.min_eq_right h.whole).symm
  obtain ⟨buff, hbuff, hstage⟩ :=
    @t2miHeaderStage_due _ _ packet _ _ s.num _ hidx hlt h.inside h.due hn
  have hcount : (s.t2mi.tookHeader buff (6 - s.t2mi.headerIdx)).emb.packetCount =
      s.t2mi.emb.packetCount := by
    simp only [T2miStream.tookHeader]
    split <;> rfl
  have hbyte := headerByte_eq (i := 1) hidx hp (by omega) (by omega) hbuff
  rw [t2miBody, h.stage]
  simp only
  rw [hstage, if_pos (by omega), readT2miHeader_wrong (by rw [hcount]; exact h.counted)
    (by rw [hcount]; exact hbyte ▸ h.wrong)]
  exact ⟨_, rfl, rfl, rfl, rfl, rfl, rfl⟩

/-- Where the loop gets to: in a good state inside the memory from the packet on, or round and round
    in front of a stalled sub-stream. -/
def T2miPos.Placed (s : T2miPos β) : Prop := s.Inv ∧ 0 ≤ s.p ∨ s.Stuck

omit [Cell β] in
theorem t2miFuel_le (s : T2miPos β) : t2miFuel s ≤ 8 * (188 - s.p).toNat + 8 := by
  rw [t2miFuel, Nat.add_le_add_iff_left]
  cases s.stage with
  | header => simp only; split <;> omega
  | bbheader => exact Nat.le_of_lt (by decide : 6 < 8)
  | payload => exact Nat.le_of_lt (by decide : 5 < 8)
  | crc => simp only; split <;> omega

omit [Cell β] in
theorem le_t2miFuel (s : T2miPos β) : 8 * (188 - s.p).toNat ≤ t2miFuel s := Nat.le_add_right _ _

theorem T2miPos.Placed.step {u : T2miPos β} (h : s.Placed)
    (hstep : t2miBody packet s = .again u) : u.Placed := by
  have hjam : s.Stuck → u.Placed := by
    intro hstuck
    obtain ⟨v, hv, hstuck', _⟩ := t2miBody_stuck packet hstuck
    rw [hv] at hstep
    cases hstep
    exact .inr hstuck'
  rcases h with ⟨hinv, hp⟩ | hstuck
  · by_cases hgo : s.Jammed
    · exact hjam (hgo.stuck hinv)
    · have hadv := @t2miBody_advances _ _ packet _ hinv hgo
      rw [hstep] at hadv
      obtain ⟨hinv', hfuel⟩ := hadv
      refine .inl ⟨hinv', ?_⟩
      have hle := t2miFuel_le s
      have hge := le_t2miFuel u
      omega
  · exact hjam hstuck

theorem t2miEnter_start (hs : t2miEnter t2mi packet = .again s) : 4 ≤ s.p := by
  have henters := t2miEnter_enters t2mi packet
  rw [hs] at henters
  cases henters with
  | started c p hp => exact hp

theorem t2miEnter_placed (h : t2mi.Inv) (hs : t2miEnter t2mi packet = .again s) : s.Placed := by
  have hinv := t2miEnter_inv h packet
  rw [hs] at hinv
  have hstart := t2miEnter_start hs
  exact .inl ⟨hinv.1, by omega⟩

theorem T2miPos.LosesCount.inv (h : s.LosesCount packet) (hs : s.Placed) : s.t2mi.Inv ∧ 0 ≤ s.p := by
  rcases hs with ⟨hinv, hp⟩ | hstuck
  · exact ⟨hinv.stream, hp⟩
  · obtain ⟨hsync, hidx, _⟩ := hstuck.inside
    have hpay := hstuck.due.1
    rcases h.due with hdue | hdue
    · simp [t2miFrameIsComplete, hsync, Int.ne_of_gt hpay] at hdue
    · omega

/-- In every reachable state and for every packet, a packet header whose `packet_count` does not
    follow the one before never leaves the stream unsynchronised: the loop goes on behind it with
    the stream marked as synchronised. -/
theorem lost_t2mi_packet (pid : ℤ) (subs : ℕ → Bool) (packets : List (Packet β))
    (t2mi : T2miStream β) (hrun : t2miRun (t2miStreamInit pid subs) packets = .done t2mi)
    (packet : Packet β) (s u : T2miPos β) (hs : t2miEnter t2mi packet = .again s)
    (hu : Visits (t2miBody packet) s u) (hlost : u.LosesCount packet) :
    ¬ u.StaysUnsynced packet ∧ ∃ v, t2miBody packet u = .again v ∧ v.t2mi.synced = true ∧
      v.stage = .bbheader ∧ v.p = u.p + (6 - u.t2mi.headerIdx) := by
  have hinv : t2mi.Inv := t2miRun_inv packets (t2miStreamReset_inv _ _) hrun
  have hplaced : u.Placed :=
    hu.invariant (t2miEnter_placed hinv hs) fun _ _ ha hstep => ha.step hstep
  obtain ⟨hgood, hp⟩ := hlost.inv hplaced
  obtain ⟨v, hv, hsync, hstage, hpos, _⟩ := hlost.goes_on hgood hp
  refine ⟨fun hstays => ?_, v, hv, hsync, hstage, hpos⟩
  have := hstays.after u v .start hv
  rw [hsync] at this
  cases this

/-- A packet of pid 270 with a T2-MI packet of PLP 3 that holds an empty BBFRAME, and behind it the
    header of a T2-MI packet whose count is 5 instead of 1. -/
def lostFour : Packet UInt8 := Packet.ofList
  [0x47, 0x41, 0x0E, 0x10, 0x00,
    0x00, 0x00, 0x00, 0x00, 0x00, 0x68,
    0x00, 0x03, 0x00, 0x00, 0x03, 0x05, 0xE0, 0x00, 0x00, 0x47, 0x00, 0x00, 0xAE,
    0x00, 0x00, 0x00, 0x00,
    0x00, 0x05, 0x00, 0x00, 0x00, 0x68]

instance (s : T2miPos β) (packet : Packet β) : Decidable (s.LosesCount packet) :=
  decidable_of_iff (s.stage = .header ∧ s.p < 188 ∧
      (t2miFrameIsComplete s.t2mi = true ∨ 0 < s.t2mi.headerIdx) ∧
      6 - s.t2mi.headerIdx ≤ 188 - s.p ∧ 0 ≤ s.t2mi.emb.packetCount ∧
      (s.t2mi.emb.packetCount + 1) % 256 ≠ (s.headerByte packet 1).toNat)
    ⟨fun ⟨a, b, c, d, e, f⟩ => ⟨a, b, c, d, e, f⟩, fun ⟨a, b, c, d, e, f⟩ => ⟨a, b, c, d, e, f⟩⟩

theorem lostFour_loses :
    (match t2miEnter (t2miStreamInit 270 fun k => k = 3) lostFour with
      | .again s => (after (t2miBody lostFour) 4 s).any fun u => u.LosesCount lostFour
      | .exit _ => false) = true := by decide +kernel

theorem lostFour_reached :
    ∃ s u, t2miEnter (t2miStreamInit 270 fun k => k = 3) lostFour = .again s ∧
      Visits (t2miBody lostFour) s u ∧ u.LosesCount lostFour := by
  have hloses := lostFour_loses
  split at hloses
  · rename_i s hs
    obtain ⟨u, hu, hlost⟩ := (Option.any_eq_true _ _).mp hloses
    exact ⟨s, u, hs, Visits.of_after hu, of_decide_eq_true hlost⟩
  · cases hloses

theorem lost_t2mi_packet_four :
    ∃ (s u v : T2miPos UInt8), t2miEnter (t2miStreamInit 270 fun k => k = 3) lostFour = .again s ∧
      Visits (t2miBody lostFour) s u ∧ t2miBody lostFour u = .again v ∧ v.t2mi.synced = true := by
  obtain ⟨s, u, hs, hu, hlost⟩ := lostFour_reached
  obtain ⟨_, v, hv, hsync, _⟩ :=
    lost_t2mi_packet 270 (fun k => k = 3) [] _ rfl lostFour s u hs hu hlost
  exact ⟨s, u, v, hs, hu, hv, hsync⟩

/-- A lost T2-MI packet need not leave the stream unsynchronised. -/
theorem lostFour_stays_synced :
    ¬ ∀ (subs : ℕ → Bool) (packets : List (Packet UInt8)) (t2mi : T2miStream UInt8),
      t2miRun (t2miStreamInit 270 subs) packets = .done t2mi → ∀ packet s u,
        t2miEnter t2mi packet = .again s → Visits (t2miBody packet) s u → u.LosesCount packet →
          u.StaysUnsynced packet := by
  intro hclaim
  obtain ⟨s, u, hs, hu, hlost⟩ := lostFour_reached
  have hstays := hclaim (fun k => k = 3) [] _ rfl lostFour s u hs hu hlost
  have hplaced : u.Placed := hu.invariant
    (t2miEnter_placed (t2miStreamReset_inv _ _) hs) fun _ _ ha hstep => ha.step hstep
  obtain ⟨hgood, hp⟩ := hlost.inv hplaced
  obtain ⟨v, hv, hsync, _⟩ := hlost.goes_on hgood hp
  have hunsynced := hstays.after u v .start hv
  rw [hsync] at hunsynced
  cases hunsynced

end Demux

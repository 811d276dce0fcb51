import Mathlib
import NeumoDrivers.Demux.Embedded
import NeumoDrivers.Lib.Loop

/-! Cutting the transport stream into packets.

    `_neumo_dvb_dmx_swfilter` looks for packets in the bytes of a call, `pktsize` bytes each, and
    gives the packet filter the first 188 of them. An unfinished packet at the end is kept in
    `tsbuf` and completed by the next call; a packet that starts with an inverted sync byte is
    copied there too, to put the usual one in front. A packet handed over is recorded with the place
    of its first byte in the call's buffer; that of a packet begun in earlier calls is negative. -/

namespace Demux
open Loop

variable {β : Type} [Cell β]

/-- The bytes kept between two calls. -/
structure TsFilter (β : Type) where
  tsbuf : Buff β 204
  tsbufp : ℕ

/-- A packet handed to the packet filter. -/
structure Handed (β : Type) where
  offset : ℤ
  cells : List β

/-- The byte of the call's buffer at `pos`. -/
def bufAt (buf : List β) (pos : ℕ) : UInt8 := Cell.val (buf.getD pos (Cell.lit 0))

/-- The sync bytes that are accepted: inverted ones only in long packets. -/
def isSync (pktsize : ℕ) (byte : UInt8) : Bool := byte = 0x47 ∨ (pktsize = 204 ∧ byte = 0xB8)

/-- The loop of `find_next_packet`: the next sync byte in the `n` bytes from `pos` on. -/
def seekSync (pktsize : ℕ) (buf : List β) : ℕ → ℕ → ℕ
  | 0, pos => pos
  | n + 1, pos => if isSync pktsize (bufAt buf pos) then pos else seekSync pktsize buf n (pos + 1)

def findNextPacket (pktsize : ℕ) (buf : List β) (start : ℕ) : ℕ :=
  let pos := seekSync pktsize buf (buf.length - start) start
  let lost := pos - start
  if lost ≠ 0 then
    -- This garbage is part of a valid packet?
    let backtrack : ℤ := pos - pktsize
    if 0 ≤ backtrack ∧ isSync pktsize (bufAt buf backtrack.toNat) then backtrack.toNat else pos
  else pos

/-- Where a pass of the main loop stands, and the packets handed over in the call. -/
structure TsPass (β : Type) where
  tsbuf : Buff β 204
  p : ℕ
  handed : List (Handed β)

/-- A pass of the main loop. -/
def swfilterBody (pktsize : ℕ) (buf : List β) (s : TsPass β) :
    Next (TsPass β) (Outcome (TsPass β)) :=
  let p := findNextPacket pktsize buf s.p
  if buf.length ≤ p then .exit (.done { s with p })
  else if buf.length - p < pktsize then .exit (.done { s with p })
  else if pktsize = 204 ∧ bufAt buf p = 0xB8 then
    match s.tsbuf.memcpy 0 ((buf.drop p).take 188) with
    | none => .exit .wild
    | some tsbuf =>
      let tsbuf := tsbuf.put 0 (Cell.lit 0x47)
      .again ⟨tsbuf, p + pktsize, s.handed ++ [⟨p, tsbuf.cells.take 188⟩]⟩
  else .again ⟨s.tsbuf, p + pktsize, s.handed ++ [⟨p, (buf.drop p).take 188⟩]⟩

/-- Completing the packet kept: whether the call goes on to the main loop, and from where. The count
    is compared as a `size_t`. -/
def swfilterEnter (pktsize : ℕ) (f : TsFilter β) (buf : List β) :
    Next (TsPass β) (Outcome (TsFilter β)) :=
  if f.tsbufp ≠ 0 then
    let i := f.tsbufp
    let j : ℤ := pktsize - i
    if buf.length < (j % 2 ^ 64).toNat then
      match f.tsbuf.memcpy i buf with
      | none => .exit .wild
      | some tsbuf => .exit (.done ⟨tsbuf, f.tsbufp + buf.length⟩)
    else
      match f.tsbuf.memcpy i (buf.take j.toNat) with
      | none => .exit .wild
      | some tsbuf =>
        -- double check
        let handed := if tsbuf.byte 0 = 0x47 then [⟨-i, tsbuf.cells.take 188⟩] else []
        .again ⟨tsbuf, j.toNat, handed⟩
  else .again ⟨f.tsbuf, 0, []⟩

/-- Keeping the bytes behind the last packet. -/
def swfilterKeep (pktsize : ℕ) (buf : List β) (s : TsPass β) : Outcome (TsFilter β) :=
  let i := buf.length - s.p
  if i ≠ 0 then
    match s.tsbuf.memcpy 0 (buf.drop s.p) with
    | none => .wild
    | some tsbuf =>
      .done ⟨if pktsize = 204 ∧ tsbuf.byte 0 = 0xB8 then tsbuf.put 0 (Cell.lit 0x47) else tsbuf, i⟩
  else .done ⟨s.tsbuf, 0⟩

/-- The main loop from a pass on; a pass gets on by at least one byte. -/
def swfilterLoop (pktsize : ℕ) (buf : List β) (s : TsPass β) : Outcome (TsPass β) :=
  (run (swfilterBody pktsize buf) (buf.length + 1) s).getD .hang

/-- `_neumo_dvb_dmx_swfilter`: the bytes kept, and the packets handed over. It is called with packet
    sizes of 188 (`neumo_dvb_dmx_swfilter`) and 204 bytes (`neumo_dvb_dmx_swfilter_204`). -/
def swfilter (pktsize : ℕ) (f : TsFilter β) (buf : List β) :
    Outcome (TsFilter β × List (Handed β)) :=
  match swfilterEnter pktsize f buf with
  | .exit (.done f) => .done (f, [])
  | .exit .hang => .hang
  | .exit .wild => .wild
  | .again s =>
    match swfilterLoop pktsize buf s with
    | .hang => .hang
    | .wild => .wild
    | .done s =>
      match swfilterKeep pktsize buf s with
      | .hang => .hang
      | .wild => .wild
      | .done f => .done (f, s.handed)

/-- The filter after some calls, the number of bytes it was given, and the packets it handed over,
    with the places of their first bytes in the whole input. -/
structure TsInput (β : Type) where
  filter : TsFilter β
  fed : ℕ
  handed : List (Handed β)

/-- The place counted from `n` bytes earlier on. -/
def Handed.shift (n : ℕ) (h : Handed β) : Handed β := { h with offset := n + h.offset }

def TsInput.feed (pktsize : ℕ) (s : TsInput β) (buf : List β) : Outcome (TsInput β) :=
  match swfilter pktsize s.filter buf with
  | .hang => .hang
  | .wild => .wild
  | .done (filter, handed) =>
    .done ⟨filter, s.fed + buf.length,
      s.handed ++ handed.map (Handed.shift s.fed)⟩

/-! ### Searching -/

variable {pktsize n start pos : ℕ} {buf pend : List β}

/-- The search stops at the first sync byte or where the bytes end. -/
theorem seekSync_spec (n pos : ℕ) :
    pos ≤ seekSync pktsize buf n pos ∧ seekSync pktsize buf n pos ≤ pos + n ∧
      (∀ i, pos ≤ i → i < seekSync pktsize buf n pos → isSync pktsize (bufAt buf i) = false) ∧
      (seekSync pktsize buf n pos < pos + n →
        isSync pktsize (bufAt buf (seekSync pktsize buf n pos)) = true) := by
  induction n generalizing pos with
  | zero => exact ⟨Nat.le_refl _, Nat.le_refl _, fun i h h' => by rw [seekSync] at h'; omega,
      fun h => absurd h (Nat.lt_irrefl _)⟩
  | succ n ih =>
    rw [seekSync]
    split
    · next hsync => exact ⟨Nat.le_refl _, by omega, fun i h h' => by omega, fun _ => hsync⟩
    · next hsync =>
      obtain ⟨hge, hle, hbefore, hat⟩ := ih (pos + 1)
      refine ⟨by omega, by omega, fun i h h' => ?_, fun h => hat (by omega)⟩
      rcases Nat.eq_or_lt_of_le h with rfl | hlt
      · exact Bool.eq_false_iff.mpr hsync
      · exact hbefore i hlt h'

/-- The bytes from `start` up to `pos` hold no sync byte, and there the search ends. -/
structure Found (pktsize : ℕ) (buf : List β) (start pos : ℕ) : Prop where
  ge : start ≤ pos
  le : pos ≤ buf.length
  none_before : ∀ i, start ≤ i → i < pos → isSync pktsize (bufAt buf i) = false
  sync : pos < buf.length → isSync pktsize (bufAt buf pos) = true

/-- Where the next packet is looked for: where the search ends, or one packet before that. -/
theorem findNextPacket_cases (pktsize : ℕ) (hstart : start ≤ buf.length) :
    ∃ pos, Found pktsize buf start pos ∧
      ((findNextPacket pktsize buf start = pos ∧
          ¬ (start < pos ∧ pktsize ≤ pos ∧ isSync pktsize (bufAt buf (pos - pktsize)))) ∨
        (findNextPacket pktsize buf start + pktsize = pos ∧ start < pos ∧
          isSync pktsize (bufAt buf (findNextPacket pktsize buf start)))) := by
  obtain ⟨hge, hle, hbefore, hat⟩ :=
    @seekSync_spec β _ pktsize buf (buf.length - start) start
  rw [Nat.add_sub_cancel' hstart] at hle hat
  refine ⟨_, ⟨hge, hle, hbefore, hat⟩, ?_⟩
  rw [findNextPacket]
  generalize seekSync pktsize buf (buf.length - start) start = pos at hge hle
  have hnat : ((pos : ℤ) - pktsize).toNat = pos - pktsize := by omega
  simp only [hnat]
  by_cases hlost : start < pos
  · rw [if_pos (by omega)]
    by_cases hback : pktsize ≤ pos ∧ isSync pktsize (bufAt buf (pos - pktsize))
    · rw [if_pos ⟨by omega, hback.2⟩]
      exact .inr ⟨by omega, hlost, hback.2⟩
    · exact .inl ⟨if_neg fun hc => hback ⟨by omega, hc.2⟩, fun hc => hback hc.2⟩
  · rw [if_neg (by omega)]
    exact .inl ⟨rfl, fun hc => hlost hc.1⟩

/-- A search that starts at a sync byte, or at the end, stays there. -/
theorem findNextPacket_stays (hstart : start ≤ buf.length)
    (hsync : start < buf.length → isSync pktsize (bufAt buf start)) :
    findNextPacket pktsize buf start = start := by
  obtain ⟨pos, hfound, hcase⟩ := findNextPacket_cases pktsize hstart
  have hpos : pos = start := by
    by_contra hne
    have hlt : start < pos := Nat.lt_of_le_of_ne hfound.ge (Ne.symm hne)
    have hnone := hfound.none_before start (Nat.le_refl _) hlt
    rw [hsync (Nat.lt_of_lt_of_le hlt hfound.le)] at hnone
    cases hnone
  rcases hcase with ⟨hfind, -⟩ | ⟨-, hlt, -⟩
  · rw [hfind, hpos]
  · omega

/-! ### One pass -/

/-- The bytes of a packet with the usual sync byte in front. -/
def fixSync (pktsize : ℕ) (packet : List β) : List β :=
  if pktsize = 204 ∧ bufAt packet 0 = 0xB8 then packet.set 0 (Cell.lit 0x47) else packet

/-- What the packet filter gets of a packet. -/
def delivered (pktsize : ℕ) (packet : List β) : List β := (fixSync pktsize packet).take 188

theorem bufAt_drop (buf : List β) (p : ℕ) : bufAt (buf.drop p) 0 = bufAt buf p := by
  rw [bufAt, bufAt, List.getD_eq_getElem?_getD, List.getD_eq_getElem?_getD, List.getElem?_drop,
    Nat.add_zero]

theorem bufAt_take (buf : List β) (hn : 0 < n) : bufAt (buf.take n) 0 = bufAt buf 0 := by
  rw [bufAt, bufAt, List.getD_eq_getElem?_getD, List.getD_eq_getElem?_getD,
    List.getElem?_take_of_lt hn]

theorem bufAt_append (hpend : pend ≠ []) (buf : List β) : bufAt (pend ++ buf) 0 = bufAt pend 0 := by
  rw [bufAt, bufAt, List.getD_append _ _ _ _ (List.length_pos_iff.mpr hpend)]

@[simp] theorem length_fixSync (packet : List β) :
    (fixSync pktsize packet).length = packet.length := by
  rw [fixSync]
  split
  · rw [List.length_set]
  · rfl

theorem fixSync_append (hpend : pend ≠ []) (buf : List β) :
    fixSync pktsize (pend ++ buf) = fixSync pktsize pend ++ buf := by
  rw [fixSync, fixSync, bufAt_append hpend]
  split
  · rw [List.set_append_left _ _ (List.length_pos_iff.mpr hpend)]
  · rfl

theorem fixSync_take (packet : List β) (hn : 0 < n) :
    fixSync pktsize (packet.take n) = (fixSync pktsize packet).take n := by
  rw [fixSync, fixSync, bufAt_take packet hn]
  split
  · rw [List.take_set]
  · rfl

theorem delivered_take (packet : List β) (hn : 188 ≤ n) :
    delivered pktsize (packet.take n) = delivered pktsize packet := by
  rw [delivered, delivered, fixSync_take _ (by omega), List.take_take, Nat.min_eq_left hn]

theorem bufAt_fixSync {packet : List β} (h : packet ≠ [])
    (hsync : isSync pktsize (bufAt packet 0)) : bufAt (fixSync pktsize packet) 0 = 0x47 := by
  obtain ⟨c, cs, rfl⟩ := List.exists_cons_of_ne_nil h
  rw [fixSync]
  split
  · simp [bufAt]
  · next hno =>
    rw [isSync, decide_eq_true_iff] at hsync
    exact hsync.resolve_right hno

omit [Cell β] in
/-- A copy to the front of the array. -/
theorem memcpy_front {m : ℕ} (b : Buff β m) (src : List β) (h : src.length ≤ m) :
    ∃ b', b.memcpy 0 src = some b' ∧ b'.cells.take src.length = src := by
  obtain ⟨b', hb, hcells⟩ := b.memcpy_append (Int.le_refl 0) [] src rfl
    (by rw [Int.toNat_zero, Nat.zero_add]; exact h)
  rw [Int.toNat_zero, Nat.zero_add, List.nil_append] at hcells
  exact ⟨b', hb, hcells⟩

theorem Buff.byte_take {m : ℕ} (b : Buff β m) (hn : 0 < n) : b.byte 0 = bufAt (b.cells.take n) 0 := by
  rw [bufAt_take _ hn]
  rfl

variable {s : TsPass β} {tsbuf : Buff β 204} {p : ℕ} {handed : List (Handed β)}

theorem swfilterBody_exit
    (h : buf.length < findNextPacket pktsize buf s.p + pktsize) :
    swfilterBody pktsize buf s =
      .exit (.done { s with p := findNextPacket pktsize buf s.p }) := by
  rw [swfilterBody]
  split
  · rfl
  · rw [if_pos (by omega)]

/-- Else it hands over the packet it found. -/
theorem swfilterBody_again (hsize : 188 ≤ pktsize)
    (h : findNextPacket pktsize buf s.p + pktsize ≤ buf.length) :
    ∃ tsbuf, swfilterBody pktsize buf s =
      .again ⟨tsbuf, findNextPacket pktsize buf s.p + pktsize, s.handed ++
        [⟨findNextPacket pktsize buf s.p,
          delivered pktsize (buf.drop (findNextPacket pktsize buf s.p))⟩]⟩ := by
  rw [swfilterBody]
  generalize findNextPacket pktsize buf s.p = f at h
  simp only
  rw [if_neg (by omega), if_neg (by omega)]
  by_cases hinv : pktsize = 204 ∧ bufAt buf f = 0xB8
  · have hlen : ((buf.drop f).take 188).length = 188 := by
      rw [List.length_take, List.length_drop]
      omega
    obtain ⟨tsbuf, hcpy, hcells⟩ := memcpy_front s.tsbuf ((buf.drop f).take 188) (by omega)
    refine ⟨tsbuf.put 0 (Cell.lit 0x47), ?_⟩
    rw [if_pos hinv, hcpy]
    have hfix : (tsbuf.put 0 (Cell.lit 0x47)).cells.take 188 = delivered pktsize (buf.drop f) := by
      rw [hlen] at hcells
      rw [delivered, fixSync, bufAt_drop, if_pos hinv, Buff.put, List.take_set, List.take_set,
        hcells]
    simp only [hfix]
  · rw [if_neg hinv]
    refine ⟨s.tsbuf, ?_⟩
    rw [delivered, fixSync, bufAt_drop, if_neg hinv]

/-! ### One call -/

/-- The filter keeps the bytes `pend` of an unfinished packet. -/
structure Keeps (pktsize : ℕ) (pend : List β) (f : TsFilter β) : Prop where
  tsbufp_eq : f.tsbufp = pend.length
  length_lt : pend.length < pktsize
  cells_eq : f.tsbuf.cells.take pend.length = fixSync pktsize pend
  sync : pend ≠ [] → isSync pktsize (bufAt pend 0)

variable {f : TsFilter β}

/-- Bytes that do not complete the packet are kept with it. -/
theorem Keeps.short (h : Keeps pktsize pend f) (hsize : pktsize ≤ 204) (hpend : pend ≠ [])
    (hshort : pend.length + buf.length < pktsize) :
    ∃ f', swfilterEnter pktsize f buf = .exit (.done f') ∧ Keeps pktsize (pend ++ buf) f' := by
  obtain ⟨hp, hlt, hcells, hsync⟩ := h
  have hlen := List.length_pos_iff.mpr hpend
  obtain ⟨tsbuf, hcpy, hcells'⟩ := f.tsbuf.memcpy_append (Int.natCast_nonneg pend.length)
    (fixSync pktsize pend) buf hcells (by omega)
  refine ⟨⟨tsbuf, pend.length + buf.length⟩, ?_, List.length_append.symm, ?_, ?_, ?_⟩
  · rw [swfilterEnter, if_pos (by omega), hp, if_pos (by omega), hcpy]
  · rw [List.length_append]
    exact hshort
  · rw [List.length_append, fixSync_append hpend]
    exact hcells'
  · intro _
    rw [bufAt_append hpend]
    exact hsync hpend

/-- Bytes that complete the packet let the main loop start behind them. -/
theorem Keeps.completes (h : Keeps pktsize pend f) (hsize : 188 ≤ pktsize) (hsize' : pktsize ≤ 204)
    (hpend : pend ≠ []) (hlong : pktsize ≤ pend.length + buf.length) :
    ∃ tsbuf, swfilterEnter pktsize f buf = .again ⟨tsbuf, pktsize - pend.length,
      [⟨-(pend.length : ℤ), delivered pktsize (pend ++ buf)⟩]⟩ := by
  obtain ⟨hp, hlt, hcells, hsync⟩ := h
  have hlen := List.length_pos_iff.mpr hpend
  have htake : (buf.take (pktsize - pend.length)).length = pktsize - pend.length := by
    rw [List.length_take]
    omega
  obtain ⟨tsbuf, hcpy, hcells'⟩ := f.tsbuf.memcpy_append (Int.natCast_nonneg pend.length)
    (fixSync pktsize pend) (buf.take (pktsize - pend.length)) hcells (by omega)
  have hj : ((pktsize : ℤ) - pend.length).toNat = pktsize - pend.length := by omega
  have hpacket : tsbuf.cells.take pktsize = (fixSync pktsize (pend ++ buf)).take pktsize := by
    rw [htake, Int.toNat_natCast, Nat.add_sub_cancel' (Nat.le_of_lt hlt)] at hcells'
    have hall : (fixSync pktsize pend).take pktsize = fixSync pktsize pend :=
      List.take_of_length_le (by rw [length_fixSync]; omega)
    rw [hcells', fixSync_append hpend, List.take_append, length_fixSync, hall]
  have hbyte : tsbuf.byte 0 = 0x47 := by
    rw [tsbuf.byte_take (show 0 < pktsize by omega), hpacket, bufAt_take _ (by omega)]
    refine bufAt_fixSync (by simp [hpend]) ?_
    rw [bufAt_append hpend]
    exact hsync hpend
  have hdeliver : tsbuf.cells.take 188 = delivered pktsize (pend ++ buf) := by
    have h188 := congrArg (List.take 188) hpacket
    rwa [List.take_take, List.take_take, Nat.min_eq_left hsize] at h188
  refine ⟨tsbuf, ?_⟩
  rw [swfilterEnter, if_pos (by omega), hp, if_neg (by omega), hj, hcpy]
  simp only [hbyte, hdeliver, if_true]

theorem Keeps.fresh (h : Keeps pktsize [] f) (buf : List β) :
    swfilterEnter pktsize f buf = .again ⟨f.tsbuf, 0, []⟩ := by
  rw [swfilterEnter, if_neg (by rw [h.tsbufp_eq]; simp)]

/-- What is left of the bytes is kept. -/
theorem swfilterKeep_keeps (hsize : pktsize ≤ 204) (hp : s.p ≤ buf.length)
    (hleft : buf.length < s.p + pktsize)
    (hsync : s.p < buf.length → isSync pktsize (bufAt buf s.p)) :
    ∃ f, swfilterKeep pktsize buf s = .done f ∧ Keeps pktsize (buf.drop s.p) f := by
  rw [swfilterKeep]
  have hlen : (buf.drop s.p).length = buf.length - s.p := List.length_drop ..
  by_cases hnone : buf.length - s.p = 0
  · have hnil : buf.drop s.p = [] := List.drop_eq_nil_of_le (by omega)
    simp only [hnone, ne_eq, not_true_eq_false, if_false]
    rw [hnil]
    refine ⟨_, rfl, rfl, by simp only [List.length_nil]; omega, ?_, fun h => absurd rfl h⟩
    rw [fixSync]
    split <;> rfl
  · obtain ⟨tsbuf, hcpy, hcells⟩ := memcpy_front s.tsbuf (buf.drop s.p) (by omega)
    have hbyte : tsbuf.byte 0 = bufAt buf s.p := by
      rw [tsbuf.byte_take (show 0 < (buf.drop s.p).length by omega), hcells, bufAt_drop]
    refine ⟨_, by rw [if_pos hnone, hcpy], by simp only; omega, by omega, ?_, ?_⟩
    · simp only
      rw [hbyte, fixSync, bufAt_drop]
      split
      · rw [Buff.put, List.take_set, hcells]
      · exact hcells
    · intro _
      rw [bufAt_drop]
      exact hsync (by omega)

/-! ### The main loop -/

/-- A pass that goes on gets on. -/
theorem swfilterBody_progress (hsize : 188 ≤ pktsize) (hp : s.p ≤ buf.length) {t : TsPass β}
    (h : swfilterBody pktsize buf s = .again t) : s.p < t.p ∧ t.p ≤ buf.length := by
  obtain ⟨pos, hfound, hcase⟩ := findNextPacket_cases pktsize hp
  rcases Nat.lt_or_ge buf.length (findNextPacket pktsize buf s.p + pktsize) with hexit | hgo
  · rw [swfilterBody_exit hexit] at h
    cases h
  · obtain ⟨tsbuf, hagain⟩ := swfilterBody_again hsize hgo
    rw [hagain] at h
    cases h
    have hge := hfound.ge
    simp only
    omega

/-- The passes allowed are enough. -/
theorem swfilterLoop_eq (hsize : 188 ≤ pktsize) (hp : s.p ≤ buf.length)
    {r : Outcome (TsPass β)} (h : Ends (swfilterBody pktsize buf) s r) :
    swfilterLoop pktsize buf s = r := by
  have hprogress : ∀ a b : TsPass β, a.p ≤ buf.length → swfilterBody pktsize buf a = .again b →
      b.p ≤ buf.length ∧ buf.length - b.p < buf.length - a.p := by
    intro a b ha hb
    have hstep := swfilterBody_progress hsize ha hb
    exact ⟨hstep.2, by omega⟩
  obtain ⟨r', hrun⟩ := run_of_measure (fun s : TsPass β => buf.length - s.p) hprogress hp
  have hrun' := run_mono (show buf.length - s.p + 1 ≤ buf.length + 1 by omega) hrun
  rw [swfilterLoop, hrun', Ends.unique h ⟨_, hrun⟩]
  rfl

/-! ### A stream of packets -/

/-- A packet as it is sent. -/
def TsPacket (pktsize : ℕ) (packet : List β) : Prop :=
  packet.length = pktsize ∧ isSync pktsize (bufAt packet 0)

variable {ps : List (List β)} {later : List β}

theorem length_flatten_packets (hps : ∀ q ∈ ps, TsPacket pktsize q) :
    ps.flatten.length = ps.length * pktsize := by
  induction ps with
  | nil => rw [List.flatten_nil, List.length_nil, List.length_nil, Nat.zero_mul]
  | cons q qs ih =>
    rw [List.flatten_cons, List.length_append, (hps q List.mem_cons_self).1,
      ih fun r hr => hps r (List.mem_cons_of_mem _ hr), List.length_cons, Nat.succ_mul, Nat.add_comm]

/-- On a packet boundary there is a sync byte. -/
theorem sync_of_packets (hsize : 188 ≤ pktsize) (hps : ∀ q ∈ ps, TsPacket pktsize q)
    (h : pend ++ later = ps.flatten) (hpend : pend ≠ []) : isSync pktsize (bufAt pend 0) := by
  cases ps with
  | nil =>
    rw [List.flatten_nil] at h
    exact absurd (List.append_eq_nil_iff.mp h).1 hpend
  | cons q qs =>
    obtain ⟨hlen, hsync⟩ := hps q List.mem_cons_self
    have hq : q ≠ [] := by
      rintro rfl
      rw [List.length_nil] at hlen
      omega
    rw [← bufAt_append hpend later, h, List.flatten_cons, bufAt_append hq]
    exact hsync

/-- A full packet at the front of the bytes is the next packet of the stream. -/
theorem packet_of_packets (hps : ∀ q ∈ ps, TsPacket pktsize q) (h : pend ++ later = ps.flatten)
    (hpos : 0 < pktsize) (hlen : pktsize ≤ pend.length) :
    ∃ q qs, ps = q :: qs ∧ pend = q ++ pend.drop pktsize ∧
      pend.drop pktsize ++ later = qs.flatten := by
  cases ps with
  | nil =>
    rw [List.flatten_nil] at h
    rw [(List.append_eq_nil_iff.mp h).1, List.length_nil] at hlen
    omega
  | cons q qs =>
    have hq := (hps q List.mem_cons_self).1
    rw [List.flatten_cons, ← List.take_append_drop pktsize pend, List.append_assoc] at h
    obtain ⟨htake, hdrop⟩ := List.append_inj h (by rw [List.length_take]; omega)
    refine ⟨q, qs, rfl, ?_, hdrop⟩
    rw [← htake, List.take_append_drop]

/-- On a packet boundary the main loop hands over the packets that are complete. -/
theorem swfilterLoop_packets (hsize : 188 ≤ pktsize) (hps : ∀ q ∈ ps, TsPacket pktsize q)
    (hp : s.p ≤ buf.length) (h : buf.drop s.p ++ later = ps.flatten) :
    ∃ t k hs, Ends (swfilterBody pktsize buf) s (.done t) ∧ t.handed = s.handed ++ hs ∧
      hs.map Handed.cells = (ps.take k).map (delivered pktsize) ∧
      buf.drop t.p ++ later = (ps.drop k).flatten ∧ t.p ≤ buf.length ∧
      buf.length < t.p + pktsize := by
  induction ps generalizing s with
  | nil =>
    have hend : s.p = buf.length := by
      have hlen := congrArg List.length h
      rw [List.flatten_nil, List.length_nil, List.length_append, List.length_drop] at hlen
      omega
    have hfind : findNextPacket pktsize buf s.p = s.p :=
      findNextPacket_stays hp fun hlt => by omega
    refine ⟨s, 0, [], .exit ?_, (List.append_nil _).symm, rfl, h, hp, by omega⟩
    rw [swfilterBody_exit (by omega), hfind]
  | cons q qs ih =>
    have hfind : findNextPacket pktsize buf s.p = s.p := by
      refine findNextPacket_stays hp fun hlt => ?_
      have hne : buf.drop s.p ≠ [] := by
        rw [Ne, List.drop_eq_nil_iff]
        omega
      rw [← bufAt_drop]
      exact sync_of_packets hsize hps h hne
    rcases Nat.lt_or_ge buf.length (s.p + pktsize) with hshort | hlong
    · refine ⟨s, 0, [], .exit ?_, (List.append_nil _).symm, rfl, h, hp, hshort⟩
      rw [swfilterBody_exit (by omega), hfind]
    · obtain ⟨q', qs', heq, hpacket, hrest⟩ := packet_of_packets hps h (by omega)
        (by rw [List.length_drop]; omega)
      cases heq
      rw [List.drop_drop] at hpacket hrest
      obtain ⟨tsbuf, hagain⟩ := @swfilterBody_again β _ pktsize buf s hsize (by omega)
      rw [hfind] at hagain
      obtain ⟨t, k, hs, hends, hhanded, hcells, hleft, htp, htl⟩ :=
        @ih ⟨tsbuf, s.p + pktsize, _⟩ (fun r hr => hps r (List.mem_cons_of_mem _ hr)) hlong hrest
      refine ⟨t, k + 1, ⟨s.p, delivered pktsize (buf.drop s.p)⟩ :: hs, .again hagain hends, ?_, ?_,
        hleft, htp, htl⟩
      · rw [hhanded, List.append_assoc, List.singleton_append]
      · have hq : delivered pktsize (buf.drop s.p) = delivered pktsize q := by
          rw [← delivered_take (buf.drop s.p) hsize, hpacket,
            List.take_left' (hps q List.mem_cons_self).1]
        rw [List.map_cons, List.take_succ_cons, List.map_cons, hcells]
        exact congrArg (· :: _) hq

/-- A call hands over the packets that its bytes complete, and keeps what is left. -/
theorem swfilter_packets (hsize : 188 ≤ pktsize) (hsize' : pktsize ≤ 204)
    (hps : ∀ q ∈ ps, TsPacket pktsize q) (hk : Keeps pktsize pend f)
    (h : pend ++ buf ++ later = ps.flatten) :
    ∃ f' hs k pend', swfilter pktsize f buf = .done (f', hs) ∧
      hs.map Handed.cells = (ps.take k).map (delivered pktsize) ∧ Keeps pktsize pend' f' ∧
      pend' ++ later = (ps.drop k).flatten := by
  -- the main loop from a packet boundary on
  have hloop : ∀ (s : TsPass β) (qs : List (List β)), (∀ q ∈ qs, TsPacket pktsize q) →
      s.p ≤ buf.length → buf.drop s.p ++ later = qs.flatten →
      swfilterEnter pktsize f buf = .again s →
      ∃ f' hs k pend', swfilter pktsize f buf = .done (f', s.handed ++ hs) ∧
        hs.map Handed.cells = (qs.take k).map (delivered pktsize) ∧ Keeps pktsize pend' f' ∧
        pend' ++ later = (qs.drop k).flatten := by
    intro s qs hqs hp hrest henter
    obtain ⟨t, k, hs, hends, hhanded, hcells, hleft, htp, htl⟩ :=
      swfilterLoop_packets hsize hqs hp hrest
    obtain ⟨f', hkeep, hkeeps⟩ := @swfilterKeep_keeps β _ pktsize buf t hsize' htp htl (by
      intro hlt
      rw [← bufAt_drop]
      refine sync_of_packets hsize (fun q hq => hqs q (List.mem_of_mem_drop hq)) hleft ?_
      rw [Ne, List.drop_eq_nil_iff]
      omega)
    refine ⟨f', hs, k, buf.drop t.p, ?_, hcells, hkeeps, hleft⟩
    rw [swfilter, henter]
    simp only [swfilterLoop_eq hsize hp hends, hkeep, hhanded]
  by_cases hpend : pend = []
  · subst hpend
    exact hloop ⟨f.tsbuf, 0, []⟩ ps hps (Nat.zero_le _) h (hk.fresh buf)
  · rcases Nat.lt_or_ge (pend.length + buf.length) pktsize with hshort | hlong
    · obtain ⟨f', henter, hkeeps⟩ := hk.short hsize' hpend hshort
      refine ⟨f', [], 0, pend ++ buf, ?_, rfl, hkeeps, h⟩
      rw [swfilter, henter]
    · have hlt := hk.length_lt
      obtain ⟨tsbuf, henter⟩ := hk.completes hsize hsize' hpend hlong
      obtain ⟨q, qs, rfl, hpacket, hrest⟩ := packet_of_packets hps h (by omega)
        (by rw [List.length_append]; exact hlong)
      have hdrop : (pend ++ buf).drop pktsize = buf.drop (pktsize - pend.length) := by
        rw [List.drop_append, List.drop_eq_nil_of_le (Nat.le_of_lt hlt), List.nil_append]
      rw [hdrop] at hpacket hrest
      obtain ⟨f', hs, k, pend', hcall, hcells, hkeeps, hleft⟩ := hloop _ qs
        (fun r hr => hps r (List.mem_cons_of_mem _ hr)) (by simp only; omega) hrest henter
      have hq : delivered pktsize (pend ++ buf) = delivered pktsize q := by
        rw [← delivered_take (pend ++ buf) hsize, hpacket,
          List.take_left' (hps q List.mem_cons_self).1]
      refine ⟨f', _, k + 1, pend', hcall, ?_, hkeeps, hleft⟩
      rw [List.map_append, hcells, List.map_singleton, hq, List.take_succ_cons, List.map_cons]
      rfl

/-! ### A run of calls -/

/-- What a run of calls hands over and keeps. -/
theorem run_packets (hsize : 188 ≤ pktsize) (hsize' : pktsize ≤ 204)
    {bufs : List (List β)} {x : TsInput β} (hps : ∀ q ∈ ps, TsPacket pktsize q)
    (hk : Keeps pktsize pend x.filter) (h : pend ++ bufs.flatten ++ later = ps.flatten) :
    ∃ y k pend', Outcome.run (TsInput.feed pktsize) x bufs = .done y ∧
      y.handed.map Handed.cells =
        x.handed.map Handed.cells ++ (ps.take k).map (delivered pktsize) ∧
      Keeps pktsize pend' y.filter ∧ pend' ++ later = (ps.drop k).flatten := by
  induction bufs generalizing x ps pend with
  | nil =>
    rw [List.flatten_nil, List.append_nil] at h
    exact ⟨x, 0, pend, rfl, (List.append_nil _).symm, hk, h⟩
  | cons buf bufs ih =>
    rw [List.flatten_cons, ← List.append_assoc, List.append_assoc] at h
    obtain ⟨f', hs, k, pend', hcall, hcells, hkeeps, hleft⟩ :=
      swfilter_packets hsize hsize' hps hk h
    rw [← List.append_assoc] at hleft
    obtain ⟨y, k', pend'', hrun, hhanded, hkeeps', hleft'⟩ :=
      @ih pend' (ps.drop k) ⟨f', x.fed + buf.length, x.handed ++ hs.map (Handed.shift x.fed)⟩
        (fun q hq => hps q (List.mem_of_mem_drop hq)) hkeeps hleft
    refine ⟨y, k + k', pend'', ?_, ?_, hkeeps', ?_⟩
    · rw [Outcome.run, TsInput.feed, hcall]
      exact hrun
    · rw [hhanded, List.map_append, List.map_map, List.append_assoc, List.take_add, List.map_append,
        ← hcells]
      rfl
    · rw [hleft', List.drop_drop]

/-- The transport stream is cut into packets whatever the pieces it comes in. When the bytes given
    so far are those of a stream of packets up to some point, the packets handed over are the
    stream's packets that are complete by then, once each and in order, and the bytes behind them are
    kept; at the end of the stream every packet was handed over. -/
theorem swfilter_chunking {bufs : List (List β)} {tsbuf : Buff β 204}
    (hsize : pktsize = 188 ∨ pktsize = 204) (hps : ∀ q ∈ ps, TsPacket pktsize q)
    (h : bufs.flatten ++ later = ps.flatten) :
    ∃ y, Outcome.run (TsInput.feed pktsize) ⟨⟨tsbuf, 0⟩, 0, []⟩ bufs = .done y ∧
      y.handed.map Handed.cells =
        (ps.take (bufs.flatten.length / pktsize)).map (delivered pktsize) ∧
      y.filter.tsbufp = bufs.flatten.length % pktsize ∧ y.filter.tsbufp < pktsize ∧
      (later = [] → y.handed.map Handed.cells = ps.map (delivered pktsize)) := by
  have hlo : 188 ≤ pktsize := by omega
  have hhi : pktsize ≤ 204 := by omega
  have hk : Keeps pktsize [] (⟨tsbuf, 0⟩ : TsFilter β) := by
    refine ⟨rfl, by simp only [List.length_nil]; omega, ?_, fun hne => absurd rfl hne⟩
    rw [fixSync]
    split <;> rfl
  obtain ⟨y, k, pend', hrun, hhanded, hkeeps, hleft⟩ :=
    @run_packets β _ pktsize [] ps later hlo hhi bufs ⟨⟨tsbuf, 0⟩, 0, []⟩ hps hk h
  have hlt := hkeeps.length_lt
  obtain ⟨m, hm⟩ : ∃ m, m = min k ps.length := ⟨_, rfl⟩
  have htake : ps.take k = ps.take m := by
    rw [hm, List.take_eq_take_iff]
    omega
  -- the bytes given are those of `m` packets and those kept
  have hlen : bufs.flatten.length = m * pktsize + pend'.length := by
    have hall := congrArg List.length h
    have hrest := congrArg List.length hleft
    rw [List.length_append, length_flatten_packets hps] at hall
    rw [List.length_append, length_flatten_packets fun q hq => hps q (List.mem_of_mem_drop hq),
      List.length_drop] at hrest
    have hsum : (ps.length - k) * pktsize + m * pktsize = ps.length * pktsize := by
      rw [← Nat.add_mul]
      congr 1
      omega
    omega
  have hdiv : bufs.flatten.length / pktsize = m := by
    rw [hlen, Nat.add_comm, Nat.add_mul_div_right _ _ (by omega), Nat.div_eq_of_lt hlt, Nat.zero_add]
  have hmod : bufs.flatten.length % pktsize = pend'.length := by
    rw [hlen, Nat.add_comm, Nat.add_mul_mod_self_right, Nat.mod_eq_of_lt hlt]
  have hcells : y.handed.map Handed.cells = (ps.take m).map (delivered pktsize) := by
    rw [hhanded, htake]
    rfl
  refine ⟨y, hrun, by rw [hdiv, hcells], by rw [hmod]; exact hkeeps.tsbufp_eq,
    hkeeps.tsbufp_eq ▸ hlt, fun hnone => ?_⟩
  rw [hnone, List.append_nil] at h
  have hfull : m = ps.length := by
    rw [← hdiv, h, length_flatten_packets hps, Nat.mul_div_cancel _ (by omega)]
  rw [hcells, hfull, List.take_length]

/-- A long packet with an inverted sync byte, given in three pieces. -/
theorem swfilter_chunking_inverted :
    ∃ y : TsInput UInt8, Outcome.run (TsInput.feed 204) ⟨⟨Buff.zeros 204, 0⟩, 0, []⟩
        [[0xB8], [], List.replicate 203 1] = .done y ∧
      y.handed.map Handed.cells = [0x47 :: List.replicate 187 1] := by
  obtain ⟨y, hrun, -, -, -, hall⟩ := @swfilter_chunking UInt8 _ 204 [0xB8 :: List.replicate 203 1] []
    [[0xB8], [], List.replicate 203 1] (Buff.zeros 204) (Or.inr rfl)
    (fun q hq => by
      rw [List.mem_singleton.mp hq]
      exact ⟨by rw [List.length_cons, List.length_replicate], by decide⟩)
    (by
      simp only [List.flatten_cons, List.flatten_nil, List.append_nil, List.nil_append,
        List.singleton_append])
  exact ⟨y, hrun, (hall rfl).trans (by rfl)⟩

end Demux

import NeumoDrivers.Demux.Stid

/-! STID packets and what they do to the sub-streams.

    `StidPacket` is a transport packet as the chip sends it. Of the decoder's state only the
    sub-streams and the id looked up last matter for what is delivered: `StidView` keeps these, with
    the cached pointer and the id it was loaded under as one (`cur`), and `stidViewStep` says what a
    packet does to them. `stidStreamAddPacket_view` and `stidRun_view` show that the decoder does
    just that. -/

namespace Demux

variable {β : Type} [Cell β]

/-- A transport packet of the pid with an STID header: the transport header and one further byte,
    the four bytes of the STID header, and what follows. -/
structure StidPacket (β : Type) [Cell β] (pid : ℤ) where
  head : List β
  stid : List β
  body : List β
  head_size : head.length = 5
  stid_size : stid.length = 4
  body_size : body.length = 179
  pid_eq : tsPid (Packet.ofList head) = pid
  payload_only : hasAdaptationField (Packet.ofList head) = false

namespace StidPacket

variable {pid : ℤ}

def toPacket (pk : StidPacket β pid) : Packet β := Packet.ofList (pk.head ++ pk.stid ++ pk.body)

/-- The byte that counts the packets of a BBFRAME is `0xB8` in the first one. -/
def isStart (pk : StidPacket β pid) : Bool := Cell.val (pk.stid.getD 3 (Cell.lit 0)) = 0xB8

/-- The bytes where the packet that starts a BBFRAME has its header. -/
def header (pk : StidPacket β pid) (i : ℕ) : UInt8 := Cell.val (pk.body.getD i (Cell.lit 0))

/-- The packet starts a BBFRAME whose header passes its CRC-8. -/
def opens (pk : StidPacket β pid) : Bool :=
  pk.isStart && bbheaderMode pk.header &&& 0xFE = 0

def hem (pk : StidPacket β pid) : Bool := bbheaderMode pk.header ≠ 0

/-- The id the BBFRAME is looked up under. -/
def key (pk : StidPacket β pid) : ℕ := stidKey (pk.header 0) (pk.header 1)

/-- The bytes behind the headers. -/
def content (pk : StidPacket β pid) : List β := if pk.opens then pk.body.drop 10 else pk.body

theorem byte_toPacket_head (pk : StidPacket β pid) {p : ℤ} (h0 : 0 ≤ p) (h : p < 5) :
    pk.toPacket.byte p = (Packet.ofList pk.head).byte p := by
  have hlen := pk.head_size
  rw [toPacket, List.append_assoc, Packet.byte_ofList_append_left _ _ h0 (by omega)]

theorem tsPid_toPacket (pk : StidPacket β pid) : tsPid pk.toPacket = pid := by
  refine Eq.trans ?_ pk.pid_eq
  rw [tsPid, tsPid, pk.byte_toPacket_head (by omega) (by omega),
    pk.byte_toPacket_head (by omega) (by omega)]

theorem hasAdaptationField_toPacket (pk : StidPacket β pid) :
    hasAdaptationField pk.toPacket = false := by
  refine Eq.trans ?_ pk.payload_only
  rw [hasAdaptationField, hasAdaptationField, pk.byte_toPacket_head (by omega) (by omega)]

theorem byte_toPacket_count (pk : StidPacket β pid) :
    pk.toPacket.byte 8 = Cell.val (pk.stid.getD 3 (Cell.lit 0)) := by
  have h5 := pk.head_size
  have h4 := pk.stid_size
  rw [toPacket, List.append_assoc,
    Packet.byte_ofList_append_right _ _ (q := 3) (by omega) (by omega),
    Packet.byte_ofList_append_left _ _ (by omega) (by omega)]
  rfl

theorem byte_toPacket_header (pk : StidPacket β pid) (i : ℕ) :
    pk.toPacket.byte (9 + i) = pk.header i := by
  have h5 := pk.head_size
  have h4 := pk.stid_size
  rw [toPacket, Packet.byte_ofList_append_right _ _ (Int.natCast_nonneg i)
    (by rw [List.length_append]; omega)]
  rfl

theorem read_toPacket (pk : StidPacket β pid) :
    pk.toPacket.read (if pk.opens then 19 else 9) (188 - if pk.opens then 19 else 9) =
      pk.content := by
  have h5 := pk.head_size
  have h4 := pk.stid_size
  have hb := pk.body_size
  have hlen : (pk.head ++ pk.stid ++ pk.body).length = 188 := by simp; omega
  rw [toPacket, Packet.read_ofList _ (by split <;> omega) (by split <;> omega), content]
  split
  · rw [show (19 : ℤ).toNat = (pk.head ++ pk.stid).length + 10 by simp; omega, List.drop_append,
      List.drop_of_length_le (by omega), List.nil_append, List.take_of_length_le (by simp; omega)]
    congr 1; omega
  · rw [show (9 : ℤ).toNat = (pk.head ++ pk.stid).length by simp; omega, List.drop_left,
      List.take_of_length_le (by omega)]

/-- The packet with its cells marked: the bytes behind the STID header as `body` says, the others
    with `m`. -/
def marked {τ : Type} (pk : StidPacket UInt8 pid) (m : τ) (body : List (Marked τ))
    (hbody : body.map Prod.fst = pk.body) : StidPacket (Marked τ) pid where
  head := pk.head.map fun b => (b, some m)
  stid := pk.stid.map fun b => (b, some m)
  body := body
  head_size := by rw [List.length_map, pk.head_size]
  stid_size := by rw [List.length_map, pk.stid_size]
  body_size := by rw [← pk.body_size, ← hbody, List.length_map]
  pid_eq := by
    refine Eq.trans ?_ pk.pid_eq
    simp [tsPid, Packet.byte_ofList_marked, Function.comp_def]
  payload_only := by
    refine Eq.trans ?_ pk.payload_only
    simp [hasAdaptationField, Packet.byte_ofList_marked, Function.comp_def]

section
variable {τ : Type} (pk : StidPacket UInt8 pid) (m : τ) (body : List (Marked τ))
  (hbody : body.map Prod.fst = pk.body)

@[simp] theorem isStart_marked : (pk.marked m body hbody).isStart = pk.isStart := by
  have h : ∀ l : List UInt8, Cell.val ((l.map fun b => (b, some m)).getD 3 (Cell.lit 0)) =
      Cell.val (l.getD 3 (Cell.lit 0)) := by
    intro l
    rcases Nat.lt_or_ge 3 l.length with hl | hl
    · simp [List.getD_eq_getElem?_getD, List.getElem?_eq_getElem hl, Cell.val]
    · simp [List.getD_eq_getElem?_getD, List.getElem?_eq_none hl]
  rw [isStart, isStart, marked]
  simp only [h]

@[simp] theorem header_marked : (pk.marked m body hbody).header = pk.header := by
  funext i
  rw [header, header, ← hbody]
  exact (List.getD_map (f := Prod.fst) (d := (0, none)) ..).symm

@[simp] theorem opens_marked : (pk.marked m body hbody).opens = pk.opens := by
  rw [opens, opens, isStart_marked, header_marked]

end

end StidPacket

/-! ### What a packet does to the sub-streams -/

/-- The sub-streams, and the id looked up last. -/
structure StidView (β : Type) where
  streams : ℕ → Option (BbframesStream β)
  cur : Option ℕ

namespace StidView

/-- The sub-stream the decoder holds a pointer to. -/
def current (v : StidView β) : Option (BbframesStream β) := v.cur.bind v.streams

def put (v : StidView β) (k : ℕ) (bbf : BbframesStream β) : StidView β :=
  { v with streams := Function.update v.streams k (some bbf) }

section
omit [Cell β]
variable {v : StidView β} {j k : ℕ} {bbf bbf' : BbframesStream β}

@[simp] theorem put_streams_self : (v.put k bbf).streams k = some bbf := by simp [put]

@[simp] theorem put_streams_ne (h : j ≠ k) : (v.put k bbf).streams j = v.streams j := by
  simp [put, h]

@[simp] theorem put_cur : (v.put k bbf).cur = v.cur := rfl

@[simp] theorem put_put : (v.put k bbf).put k bbf' = v.put k bbf' := by simp [put]

theorem put_eq_self (h : v.streams k = some bbf) : v.put k bbf = v := by
  rw [put, Function.update_eq_self_iff.mpr h.symm]

end

/-- Every sub-stream restarts and no pointer is held. -/
def reset (v : StidView β) : StidView β :=
  ⟨fun k => (v.streams k).map bbframesStreamReset, none⟩

end StidView

/-- The decoder's state has the sub-streams of `v`, and its cached pointer is what looking up the
    id looked up last gives. -/
structure Views (pid : ℤ) (stid : StidStream β) (v : StidView β) : Prop where
  pid_eq : stid.emb.embeddingPid = pid
  streams : stid.emb.bbfStreams = v.streams
  isi : stid.emb.currentIsi = v.cur.elim (-1) fun k => (k : ℤ)
  pointer : stid.emb.currentBbf = v.cur.filter fun k => (v.streams k).isSome

/-- The bytes behind the headers go to the sub-stream pointed to, once it has seen the start of a
    BBFRAME. An error in them restarts everything. -/
def handOver {pid : ℤ} (v : StidView β) (pk : StidPacket β pid) : Outcome (StidView β) :=
  match v.cur with
  | none => .done v
  | some k =>
    match v.streams k with
    | none => .done v
    | some bbf =>
      if ¬ bbf.synced ∧ ¬ pk.opens then .done v
      else
        let p : ℤ := if pk.opens then 19 else 9
        match bbfOutputTsBytes pk.toPacket { bbf with synced := true } p (188 - p) with
        | .null bbf => .done (v.put k bbf).reset
        | .ptr bbf _ => .done (v.put k bbf)
        | .wild => .wild
        | .hang => .hang

/-- Take over the header of a BBFRAME that passes its CRC-8. -/
def openFrame {pid : ℤ} (v : StidView β) (pk : StidPacket β pid) : StidView β :=
  let v := { v with cur := some pk.key }
  match v.streams pk.key with
  | none => v
  | some bbf => v.put pk.key (parseBbheader bbf pk.hem pk.key pk.header)

def stidViewStep {pid : ℤ} (v : StidView β) (pk : StidPacket β pid) : Outcome (StidView β) :=
  handOver (if pk.opens then openFrame v pk else v) pk

/-! ### The decoder does the same -/

section
variable {pid : ℤ} {stid : StidStream β} {v : StidView β}

omit [Cell β] in
/-- Looking up an id leaves the pointer that looking it up always gives: the cache is transparent. -/
theorem selectIsi_view (h : Views pid stid v) (emb : EmbeddedStream β)
    (hs : emb.bbfStreams = v.streams) (hi : emb.currentIsi = stid.emb.currentIsi)
    (hc : emb.currentBbf = stid.emb.currentBbf) (hp : emb.embeddingPid = pid) (k : ℕ) {n : ℤ} :
    Views pid ⟨selectIsi emb k, n⟩ { v with cur := some k } := by
  rw [selectIsi]
  split
  · exact ⟨hp, hs, rfl, by rw [hs, Option.filter_some]⟩
  · rename_i heq
    have hk : (k : ℤ) = emb.currentIsi := not_not.mp heq
    refine ⟨hp, hs, hk.symm, ?_⟩
    rw [hi, h.isi] at hk
    rw [hc, h.pointer]
    cases hcur : v.cur with
    | none => rw [hcur, Option.elim_none] at hk; omega
    | some j =>
      rw [hcur, Option.elim_some] at hk
      obtain rfl : k = j := by exact_mod_cast hk
      rfl

omit [Cell β] in
theorem Views.put (h : Views pid stid v) {k : ℕ} (hk : (v.streams k).isSome)
    (bbf : BbframesStream β) :
    Views pid { stid with emb := stid.emb.put k bbf } (v.put k bbf) := by
  refine ⟨h.pid_eq, ?_, h.isi, ?_⟩
  · rw [StidView.put, ← h.streams]; rfl
  · have hsome : ∀ j, ((v.put k bbf).streams j).isSome = (v.streams j).isSome := by
      intro j
      by_cases hj : j = k
      · subst hj; simp [StidView.put, hk]
      · simp [StidView.put, hj]
    simp only [hsome]
    exact h.pointer

omit [Cell β] in
theorem Views.reset (h : Views pid stid v) : Views pid (stidStreamReset stid) v.reset := by
  refine ⟨h.pid_eq, ?_, rfl, rfl⟩
  rw [stidStreamReset, embeddedStreamReset, StidView.reset, ← h.streams]

theorem Views.noteStidHeader (h : Views pid stid v) (packet : Packet β) (p : ℤ) :
    Views pid (noteStidHeader packet stid p) v :=
  ⟨h.pid_eq, h.streams, h.isi, h.pointer⟩

/-- Reading the headers: a BBFRAME that opens is looked up and its header taken over; otherwise
    the sub-streams and the pointer stay as they are. -/
theorem getStidHeader_view (h : Views pid stid v) (pk : StidPacket β pid) :
    ∃ stid', Views pid stid' (if pk.opens then openFrame v pk else v) ∧
      getStidHeader pk.toPacket stid 5 =
        if pk.opens ∧ (v.streams pk.key).isSome then .done (stid', 19, true)
        else .done (stid', 9, false) := by
  have hcount : pk.toPacket.byte (5 + 3) = Cell.val (pk.stid.getD 3 (Cell.lit 0)) :=
    pk.byte_toPacket_count
  have hheader : (fun i : ℕ => pk.toPacket.byte (5 + 4 + i)) = pk.header := by
    funext i
    exact pk.byte_toPacket_header i
  have hnote := h.noteStidHeader pk.toPacket 5
  rw [getStidHeader]
  simp only [hcount, hheader]
  generalize Demux.noteStidHeader pk.toPacket stid 5 = stid at hnote
  by_cases hstart : Cell.val (pk.stid.getD 3 (Cell.lit 0)) = 0xB8
  · rw [if_neg (not_not.mpr hstart), readStidBbheader]
    by_cases hcrc : bbheaderMode pk.header &&& 0xFE = 0
    · have hopens : pk.opens = true := by
        rw [StidPacket.opens, StidPacket.isStart, decide_eq_true hstart, decide_eq_true hcrc]
        rfl
      have hsel := selectIsi_view hnote
        (embeddedStreamSetMatype stid.emb (pk.header 1).toNat (pk.header 0))
        (by simpa using hnote.streams) (by simp) (by simp)
        (by simpa using hnote.pid_eq) pk.key (n := stid.sectionLength)
      simp only [hopens, if_true, true_and]
      rw [if_neg (not_not.mpr hcrc)]
      have hptr := hsel.pointer
      have hstr := hsel.streams
      simp only [StidPacket.key] at hsel hptr hstr ⊢
      generalize selectIsi (embeddedStreamSetMatype stid.emb (pk.header 1).toNat (pk.header 0))
        (stidKey (pk.header 0) (pk.header 1)) = emb at hsel hptr hstr ⊢
      rw [Option.filter_some] at hptr
      rcases Option.eq_none_or_eq_some (v.streams (stidKey (pk.header 0) (pk.header 1))) with
        hk | ⟨bbf, hk⟩
      · simp only [hk, Option.isSome_none] at hptr
        refine ⟨⟨emb, stid.sectionLength⟩, ?_, ?_⟩
        · simp only [openFrame, StidPacket.key, hk]
          exact hsel
        · simp only [hptr, hk, Option.isSome_none, Bool.false_eq_true, if_false]
          rfl
      · simp only [hk, Option.isSome_some, if_true] at hptr
        refine ⟨⟨emb.put (stidKey (pk.header 0) (pk.header 1))
          (parseBbheader bbf pk.hem (stidKey (pk.header 0) (pk.header 1)) pk.header),
          stid.sectionLength⟩, ?_, ?_⟩
        · simp only [openFrame, StidPacket.key, hk]
          exact hsel.put (by simp [hk]) _
        · simp only [hptr, hstr, hk]
          rfl
    · have hopens : pk.opens = false := by
        rw [StidPacket.opens, decide_eq_false hcrc, Bool.and_false]
      refine ⟨stid, ?_, ?_⟩
      · rw [hopens]; exact hnote
      · rw [if_pos hcrc, hopens]; rfl
  · have hopens : pk.opens = false := by
      rw [StidPacket.opens, StidPacket.isStart, decide_eq_false hstart, Bool.false_and]
    refine ⟨stid, ?_, ?_⟩
    · rw [hopens]; exact hnote
    · rw [if_pos hstart, hopens]; rfl

theorem stidOutput_view (h : Views pid stid v) (pk : StidPacket β pid) (starts : Bool) (p : ℤ)
    (hstarts : v.current.isSome → starts = pk.opens ∧ p = if pk.opens then 19 else 9) :
    Outcome.Rel (Views pid) (stidOutput pk.toPacket stid p starts) (handOver v pk) := by
  rw [stidOutput, handOver, h.pointer]
  cases hcur : v.cur with
  | none => exact .done h
  | some k =>
    rcases Option.eq_none_or_eq_some (v.streams k) with hk | ⟨bbf, hk⟩
    · simp only [Option.filter_some, hk, Option.isSome_none, Bool.false_eq_true, if_false]
      exact .done h
    · obtain ⟨rfl, rfl⟩ := hstarts (by simp [StidView.current, hcur, hk])
      have hput := fun bbf => h.put (k := k) (by rw [hk]; rfl) bbf
      have hpos : ¬ (188 : ℤ) - (if pk.opens then 19 else 9) ≤ 0 := by split <;> omega
      simp only [Option.filter_some, hk, Option.isSome_some, if_true, h.streams, if_neg hpos]
      split
      · exact .done h
      · generalize bbfOutputTsBytes pk.toPacket { bbf with synced := true } _ _ = out
        cases out with
        | null bbf => exact .done (hput bbf).reset
        | ptr bbf _ => exact .done (hput bbf)
        | wild => exact .wild
        | hang => exact .hang

/-- A packet does to the decoder's state what `stidViewStep` says. -/
theorem stidStreamAddPacket_view (h : Views pid stid v) (pk : StidPacket β pid) :
    Outcome.Rel (Views pid) (stidStreamAddPacket stid pk.toPacket) (stidViewStep v pk) := by
  obtain ⟨stid', hv, hget⟩ := getStidHeader_view h pk
  rw [stidStreamAddPacket, pk.tsPid_toPacket, if_neg (not_not.mpr h.pid_eq.symm),
    pk.hasAdaptationField_toPacket]
  simp only [Bool.false_eq_true, if_false]
  rw [show (4 : ℤ) + 1 = 5 from rfl, hget, stidViewStep]
  by_cases hopens : pk.opens = true
  · by_cases hsub : (v.streams pk.key).isSome = true
    · rw [if_pos ⟨hopens, hsub⟩]
      exact stidOutput_view hv pk true 19 fun _ => by rw [hopens]; exact ⟨rfl, rfl⟩
    · rw [if_neg fun hand => hsub hand.2]
      refine stidOutput_view hv pk false 9 fun hcur => ?_
      rw [if_pos hopens, openFrame] at hcur
      rw [Option.not_isSome_iff_eq_none] at hsub
      simp [hsub, StidView.current] at hcur
  · rw [if_neg fun hand => hopens hand.1]
    refine stidOutput_view hv pk false 9 fun _ => ?_
    rw [Bool.not_eq_true] at hopens
    rw [hopens]
    exact ⟨rfl, rfl⟩

/-- A run of packets does to the decoder's state what the steps on its view say. -/
theorem stidRun_view (h : Views pid stid v) (pks : List (StidPacket β pid)) :
    Outcome.Rel (Views pid) (stidRun stid (pks.map StidPacket.toPacket))
      (Outcome.run stidViewStep v pks) :=
  Outcome.Rel.run (fun _ _ pk hv => stidStreamAddPacket_view hv pk) pks stid v h

end

end Demux

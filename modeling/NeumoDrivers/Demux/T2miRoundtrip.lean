import Mathlib.Data.List.Chain
import NeumoDrivers.Demux.T2miFrames

/-! T2-MI packets cut into transport packets.

    The T2-MI packets of one PLP follow each other without a gap, and the transport packets cut them
    anywhere; one in which a T2-MI packet starts points to the first that does. `receiving_loop` says
    what the loop of one call takes in, `CutInto` is the cutting and `t2mi_roundtrip` the result. -/

namespace Demux
open Loop

variable {β : Type} [Cell β] {pid cc : ℤ} {plp : ℕ} {packet : Packet β} {t2mi : T2miStream β}
  {rest : List β} {want : List (List β)}

/-! ### One call -/

namespace T2miFrame

/-- The data fields, one behind the other. -/
def fields (frames : List (T2miFrame β)) : List β := frames.flatMap T2miFrame.field

/-- T2-MI packets of one PLP, counted without a gap. -/
structure SentFor (plp : ℕ) (frames : List (T2miFrame β)) : Prop where
  plp_eq : ∀ f ∈ frames, f.plp = plp
  counted : frames.IsChain fun f g => (f.count + 1) % 256 = g.count

theorem SentFor.tail {f : T2miFrame β} {frames : List (T2miFrame β)}
    (h : SentFor plp (f :: frames)) : SentFor plp frames :=
  ⟨fun g hg => h.plp_eq g (List.mem_cons_of_mem _ hg), h.counted.tail⟩

/-- Behind a T2-MI packet the decoder stands before the next one. -/
theorem At.next {f g : T2miFrame β} {fed : List (List β)} {tr : Track β} {i : ℕ}
    (h : f.At pid cc plp fed tr i t2mi) (hi : i = f.bytes.length) (hready : tr.Ready)
    (hcount : (f.count + 1) % 256 = g.count) :
    ∃ pend, ((tr.resume f.syncd).feed f.field).2 = .run pend ∧
      g.At pid cc plp (fed ++ ((tr.resume f.syncd).feed f.field).1.map withSync)
        (.live 0 (.run pend)) 0 t2mi := by
  have hlen := f.length_bytes
  have hend : 19 ≤ f.payloadEnd := Nat.le_add_right ..
  obtain ⟨pend, hpend⟩ := Align.feed_starts tr hready f.syncd f.field f.syncd_lt
  refine ⟨pend, hpend, ?_⟩
  cases h with
  | heading h hsub =>
    have := h.lt
    omega
  | headed h hsub =>
    have := h.lt
    omega
  | inside h hsub =>
    have hpay := h.payload
    have hcrc := h.crc
    obtain ⟨hfed, hleft⟩ := @fedBy_end _ _ f i tr (by omega)
    rw [hfed, hleft, hpend] at hsub
    obtain ⟨bbf, hbbf, hfeeds, hfollows⟩ := hsub.sub
    have hcomplete : t2miFrameIsComplete t2mi = true := by
      rw [t2miFrameIsComplete, decide_eq_true_iff]
      exact Or.inl ⟨by omega, by omega⟩
    refine .heading ⟨by decide, by rw [h.idx]; rfl, Or.inl hcomplete, fun h0 => absurd h0 (by simp),
      fun h0 => absurd h0 (by simp), rfl, Or.inr ?_⟩ ⟨hsub.pid_eq, hsub.cc_eq, bbf, hbbf, hfeeds, ?_⟩
    · rw [h.count]
      exact hcount
    · exact hfollows.aligned

theorem At.synced {f : T2miFrame β} {fed : List (List β)} {tr : Track β} {i : ℕ}
    (h : f.At pid cc plp fed tr i t2mi) (hi : 0 < i) : t2mi.synced = true := by
  cases h with
  | heading h _ => exact h.synced hi
  | headed h _ => exact h.synced
  | inside h _ => exact h.synced

/-- The counter of the transport packets is of no account within them. -/
theorem At.counter {f : T2miFrame β} {fed : List (List β)} {tr : Track β} {i : ℕ}
    (h : f.At pid cc plp fed tr i t2mi) (c : ℤ) :
    f.At pid c plp fed tr i { t2mi with emb := { t2mi.emb with ccCounter := c } } := by
  cases h with
  | heading h hsub =>
    exact .heading ⟨h.lt, h.idx, h.due, h.synced, h.crc, h.got, h.follows⟩
      ⟨hsub.pid_eq, rfl, hsub.sub⟩
  | headed h hsub =>
    exact .headed ⟨h.ge, h.lt, h.synced, h.idx, h.crc, h.payload, h.left, h.bbidx, h.type, h.count,
      h.got⟩ ⟨hsub.pid_eq, rfl, hsub.sub⟩
  | inside h hsub =>
    exact .inside ⟨h.ge, h.le, h.synced, h.idx, h.left, h.payload, h.crc, h.type, h.count, h.current⟩
      ⟨hsub.pid_eq, rfl, hsub.sub⟩

end T2miFrame

open T2miFrame

/-- The decoder stands somewhere in the T2-MI packets; `rest` is still to come, and with it the feeds
    will have got `want`. -/
def Receiving (pid cc : ℤ) (plp : ℕ) (t2mi : T2miStream β) (rest : List β) (want : List (List β)) :
    Prop :=
  ∃ (f : T2miFrame β) (frames : List (T2miFrame β)) (fed : List (List β)) (tr : Track β) (i : ℕ),
    f.At pid cc plp fed tr i t2mi ∧ i ≤ f.bytes.length ∧ tr.Ready ∧ SentFor plp (f :: frames) ∧
      rest = f.bytes.drop i ++ frames.flatMap T2miFrame.bytes ∧
      want = fed ++ ((tr.resume f.syncd).feed (fields (f :: frames))).1.map withSync

/-- If bytes are to come, some are of the T2-MI packet the decoder stands in. -/
theorem Receiving.ahead (h : Receiving pid cc plp t2mi rest want) (hrest : rest ≠ []) :
    ∃ (f : T2miFrame β) (frames : List (T2miFrame β)) (fed : List (List β)) (tr : Track β) (i : ℕ),
      f.At pid cc plp fed tr i t2mi ∧ i < f.bytes.length ∧ tr.Ready ∧ SentFor plp (f :: frames) ∧
        rest = f.bytes.drop i ++ frames.flatMap T2miFrame.bytes ∧
        want = fed ++ ((tr.resume f.syncd).feed (fields (f :: frames))).1.map withSync := by
  obtain ⟨f, frames, fed, tr, i, hat, hi, hready, hsent, hrest', hwant⟩ := h
  rcases Nat.lt_or_ge i f.bytes.length with hlt | hge
  · exact ⟨f, frames, fed, tr, i, hat, hlt, hready, hsent, hrest', hwant⟩
  · rw [List.drop_of_length_le hge, List.nil_append] at hrest'
    cases frames with
    | nil => exact absurd hrest' hrest
    | cons g frames =>
      obtain ⟨pend, hpend, hat'⟩ := hat.next (g := g) (by omega) hready hsent.counted.rel
      have hlen := g.length_bytes
      refine ⟨g, frames, _, _, 0, hat', by omega, by rintro _ _ ⟨⟩, hsent.tail, hrest', ?_⟩
      rw [hwant, fields, List.flatMap_cons, Align.feed_append, hpend, List.map_append,
        List.append_assoc]
      rfl

/-- The loop of a call takes in the bytes at hand. -/
theorem receiving_loop (m : ℕ) : ∀ {t2mi : T2miStream β} {p : ℤ}, (188 - p).toNat = m → 0 ≤ p →
    p ≤ 188 → Receiving pid cc plp t2mi (packet.read p (188 - p) ++ rest) want →
    ∃ t, Ends (t2miBody packet) ⟨t2mi, p, 188 - p, .header⟩ (.done t) ∧
      Receiving pid cc plp t rest want ∧ (p < 188 ∨ t2mi.synced = true → t.synced = true) := by
  induction m using Nat.strongRecOn with
  | ind m ih =>
    intro t2mi p hm hp0 hp h
    by_cases hend : p = 188
    · subst hend
      refine ⟨t2mi, .exit (t2miHeaderStage_end (Int.le_refl _)), h, ?_⟩
      rintro (hlt | hsync)
      · exact absurd hlt (Int.lt_irrefl _)
      · exact hsync
    · have hne : packet.read p (188 - p) ++ rest ≠ [] := by
        intro hnil
        have hlen := congrArg List.length (List.append_eq_nil_iff.mp hnil).1
        rw [Packet.length_read, List.length_nil] at hlen
        omega
      obtain ⟨f, frames, fed, tr, i, hat, hi, hready, hsent, hread, hwant⟩ := h.ahead hne
      obtain ⟨n, t, hpn, hin, hpos, hat', hgo⟩ := frame_pass hat hi hp0 (by omega)
        (hsent.plp_eq f (by simp)) hready hread
      simp only at hpn hpos hgo
      have hn := hpos (by omega)
      obtain ⟨_, hread'⟩ := read_spells hp0 hpn (by rw [List.length_drop]; omega) hread
      rw [List.drop_drop] at hread'
      obtain ⟨t', hends, hthen, hsync⟩ := ih _ (by omega) rfl (by omega) hpn
        ⟨f, frames, fed, tr, i + n, hat', hin, hready, hsent, hread', hwant⟩
      exact ⟨t', hgo _ hends, hthen, fun _ => hsync (Or.inr (hat'.synced (by omega)))⟩

/-! ### Transport packets -/

/-- `payload_unit_start_indicator`. -/
def tsPusi (packet : Packet β) : Bool := packet.byte 1 &&& 0x40 ≠ 0

/-- Where the payload begins, behind the pointer field if there is one. -/
def tsPayloadAt (packet : Packet β) : ℤ :=
  let p : ℤ := if hasAdaptationField packet then 4 + 1 + (packet.byte 4).toNat else 4
  if tsPusi packet then p + 1 else p

/-- A transport packet with a piece of the byte stream, in which every byte tells whether a T2-MI
    packet starts with it. -/
structure Carried (pid cc : ℤ) (piece : List (Bool × β)) (packet : Packet β) : Prop where
  pid_eq : tsPid packet = pid
  payload : hasPayload packet = true
  clear : packet.byte 3 &&& 0xC0 = 0
  counter : ((packet.byte 3 &&& 0xF).toNat : ℤ) = cc
  inside : tsPayloadAt packet ≤ 188
  cells : packet.read (tsPayloadAt packet) (188 - tsPayloadAt packet) = piece.map Prod.snd
  pusi : tsPusi packet = piece.any Prod.fst
  pointer : tsPusi packet = true →
    (packet.byte (tsPayloadAt packet - 1)).toNat = piece.findIdx Prod.fst

/-- The pieces are the payloads of the packets, whose continuity counters follow each other. -/
def CutInto (pid : ℤ) : ℤ → List (List (Bool × β)) → List (Packet β) → Prop
  | _, [], [] => True
  | cc, piece :: pieces, packet :: packets =>
    Carried pid (cc % 16) piece packet ∧ CutInto pid (cc + 1) pieces packets
  | _, _, _ => False

/-- Bytes with which no T2-MI packet starts. -/
def unmarked (l : List β) : List (Bool × β) := l.map fun c => (false, c)

/-- The bytes of a T2-MI packet, which starts with the first. -/
def T2miFrame.marked (f : T2miFrame β) : List (Bool × β) :=
  (f.bytes.take 1).map (fun c => (true, c)) ++ unmarked (f.bytes.drop 1)

/-- The end of a T2-MI packet whose beginning was missed, and the T2-MI packets behind it. -/
def sentStream (lead : List β) (frames : List (T2miFrame β)) : List (Bool × β) :=
  unmarked lead ++ frames.flatMap T2miFrame.marked

theorem T2miFrame.map_marked (f : T2miFrame β) : f.marked.map Prod.snd = f.bytes := by
  rw [marked, unmarked, List.map_append, List.map_map, List.map_map]
  simp only [Function.comp_def, List.map_id', List.take_append_drop]

omit [Cell β] in
theorem map_unmarked (l : List β) : (unmarked l).map Prod.snd = l := by
  simp [unmarked, Function.comp_def]

omit [Cell β] in
theorem any_unmarked (l : List β) : (unmarked l).any Prod.fst = false := by
  simp [unmarked]

omit [Cell β] in
theorem findIdx_unmarked (l : List β) : (unmarked l).findIdx Prod.fst = l.length := by
  rw [List.findIdx_eq_length.mpr]
  · rw [unmarked, List.length_map]
  · intro x hx
    obtain ⟨c, _, rfl⟩ := List.mem_map.mp hx
    rfl

theorem flatMap_marked (frames : List (T2miFrame β)) :
    (frames.flatMap T2miFrame.marked).map Prod.snd = frames.flatMap T2miFrame.bytes := by
  rw [List.map_flatMap]
  simp only [T2miFrame.map_marked]

/-- From the first bytes of a packet the decoder goes into the loop, unless it waits for a packet in
    which a T2-MI packet starts. -/
theorem t2miEnter_carried {piece : List (Bool × β)} (h : Carried pid cc piece packet)
    (hpid : t2mi.emb.embeddingPid = pid)
    (hcc : t2mi.emb.ccCounter < 0 ∨ (t2mi.emb.ccCounter + 1) % 16 = cc)
    (hidx : t2mi.synced = false → t2mi.headerIdx ≤ 0) {q : ℤ}
    (hq : q = if t2mi.synced then tsPayloadAt packet
      else tsPayloadAt packet + (piece.findIdx Prod.fst : ℕ)) :
    t2miEnter t2mi packet =
      if t2mi.synced = false ∧ piece.any Prod.fst = false then .exit t2mi
      else .again ⟨{ t2mi with emb := { t2mi.emb with ccCounter := cc } }, q, 188 - q, .header⟩ := by
  have hinside := h.inside
  have hcounter := h.counter
  have hat : tsPayloadAt packet =
      if tsPusi packet then
        (if hasAdaptationField packet then 4 + 1 + ((packet.byte 4).toNat : ℤ) else 4) + 1
      else (if hasAdaptationField packet then 4 + 1 + ((packet.byte 4).toNat : ℤ) else 4) := rfl
  have hlen := congrArg List.length h.cells
  rw [Packet.length_read, List.length_map] at hlen
  simp only [t2miEnter]
  generalize (if hasAdaptationField packet then 4 + 1 + ((packet.byte 4).toNat : ℤ) else 4) = p
    at hat ⊢
  rw [if_neg (by rw [h.pid_eq, hpid]; simp), if_neg (by simp [h.payload]), if_neg (by simp [h.clear])]
  by_cases hpusi : packet.byte 1 &&& 0x40 ≠ 0
  · have hstart : tsPusi packet = true := decide_eq_true hpusi
    rw [hstart, if_pos rfl] at hat
    have hpointer := h.pointer hstart
    rw [h.pusi] at hstart
    have hfound : piece.findIdx Prod.fst < piece.length :=
      List.findIdx_lt_length_of_exists (by simpa using List.any_eq_true.mp hstart)
    rw [show tsPayloadAt packet - 1 = p by omega] at hpointer
    have hgo : ¬ (t2mi.synced = false ∧ piece.any Prod.fst = false) := by
      rw [hstart]
      rintro ⟨_, ⟨⟩⟩
    rw [if_neg (by simp [hpusi]), if_neg (by omega), if_pos hpusi, if_neg (by omega), hcounter,
      hpointer, if_neg hgo]
    rcases Bool.eq_false_or_eq_true t2mi.synced with hsync | hsync
    · rw [hsync, if_pos rfl] at hq
      rw [if_pos hsync, hq, hat]
    · have hzero := hidx hsync
      rw [hsync, if_neg Bool.false_ne_true] at hq
      rw [if_neg (by simp [hsync]), if_neg (by omega), hq, hat]
  · have hstart : tsPusi packet = false := decide_eq_false hpusi
    rw [hstart, if_neg Bool.false_ne_true] at hat
    rw [h.pusi] at hstart
    rcases Bool.eq_false_or_eq_true t2mi.synced with hsync | hsync
    · rw [hsync, if_pos rfl] at hq
      rw [if_neg (by simp [hsync]), if_neg (by omega), if_neg hpusi, hcounter,
        if_neg (by simp [hsync]), hq, hat]
    · rw [if_pos ⟨by simp [hsync], hpusi⟩, if_pos ⟨hsync, hstart⟩]

/-! ### Runs -/

theorem Receiving.serves {c : ℤ} (h : Receiving pid c plp t2mi rest want) :
    t2mi.emb.embeddingPid = pid ∧ t2mi.emb.ccCounter = c := by
  obtain ⟨f, frames, fed, tr, i, hat, _⟩ := h
  cases hat with
  | heading _ hsub => exact ⟨hsub.pid_eq, hsub.cc_eq⟩
  | headed _ hsub => exact ⟨hsub.pid_eq, hsub.cc_eq⟩
  | inside _ hsub => exact ⟨hsub.pid_eq, hsub.cc_eq⟩

/-- One packet, once the first T2-MI packet has begun. -/
theorem receiving_packet {c : ℤ} {piece : List (Bool × β)} (h : Carried pid cc piece packet)
    (hinv : t2mi.Inv) (hsync : t2mi.synced = true) (hnext : (c + 1) % 16 = cc)
    (hrec : Receiving pid c plp t2mi (piece.map Prod.snd ++ rest) want) :
    ∃ t, t2miStreamAddPacket t2mi packet = .done t ∧ t.synced = true ∧
      Receiving pid cc plp t rest want := by
  obtain ⟨hpid, hcc⟩ := hrec.serves
  obtain ⟨f, frames, fed, tr, i, hat, hrec'⟩ := hrec
  have henter := t2miEnter_carried h hpid (Or.inr (by rw [hcc]; exact hnext))
    (fun hno => by rw [hsync] at hno; cases hno) (q := tsPayloadAt packet)
    (by rw [hsync, if_pos rfl])
  rw [if_neg (by simp [hsync])] at henter
  have hpos : 0 ≤ tsPayloadAt packet := by
    rw [tsPayloadAt]
    split <;> split <;> omega
  rw [← h.cells] at hrec'
  obtain ⟨t, hends, hthen, hsync'⟩ := receiving_loop _ rfl hpos h.inside
    (⟨f, frames, fed, tr, i, hat.counter cc, hrec'⟩ :
      Receiving pid cc plp { t2mi with emb := { t2mi.emb with ccCounter := cc } } _ want)
  exact ⟨t, (hinv.add_of_ends henter hends).1, hsync' (Or.inr hsync), hthen⟩

theorem receiving_run : ∀ (pieces : List (List (Bool × β))) (packets : List (Packet β)) (cc c : ℤ)
    {t2mi : T2miStream β}, CutInto pid cc pieces packets → t2mi.Inv → t2mi.synced = true →
    (c + 1) % 16 = cc % 16 → Receiving pid c plp t2mi (pieces.flatten.map Prod.snd) want →
    ∃ t c', t2miRun t2mi packets = .done t ∧ Receiving pid c' plp t [] want
  | [], [], _, c, t2mi, _, _, _, _, hrec => ⟨t2mi, c, rfl, hrec⟩
  | [], _ :: _, _, _, _, hcut, _, _, _, _ => absurd hcut id
  | _ :: _, [], _, _, _, hcut, _, _, _, _ => absurd hcut id
  | piece :: pieces, packet :: packets, cc, c, t2mi, hcut, hinv, hsync, hnext, hrec => by
    obtain ⟨hhere, hthen⟩ := hcut
    rw [List.flatten_cons, List.map_append] at hrec
    obtain ⟨t, hadd, hsync', hrec'⟩ := receiving_packet hhere hinv hsync hnext hrec
    obtain ⟨t', c', hrun, hdone⟩ := receiving_run pieces packets (cc + 1) (cc % 16) hthen
      (hinv.add hadd) hsync' (by omega) hrec'
    refine ⟨t', c', ?_, hdone⟩
    rw [t2miRun, Outcome.run, hadd]
    exact hrun

theorem Receiving.done {c : ℤ} (h : Receiving pid c plp t2mi [] want) :
    ∃ bbf, t2mi.emb.bbfStreams plp = some bbf ∧ bbf.feeds = want := by
  obtain ⟨f, frames, fed, tr, i, hat, hi, hready, hsent, hrest, hwant⟩ := h
  obtain ⟨hdrop, hframes⟩ := List.append_eq_nil_iff.mp hrest.symm
  have hlen := f.length_bytes
  have hend : 19 ≤ f.payloadEnd := Nat.le_add_right ..
  have hall : f.bytes.length ≤ i := List.drop_eq_nil_iff.mp hdrop
  obtain rfl : frames = [] := by
    cases frames with
    | nil => rfl
    | cons g frames =>
      have hg := g.length_bytes
      rw [List.flatMap_cons, List.append_eq_nil_iff] at hframes
      rw [hframes.1, List.length_nil] at hg
      omega
  cases hat with
  | heading h _ =>
    have := h.lt
    omega
  | headed h _ =>
    have := h.lt
    omega
  | inside h hsub =>
    obtain ⟨bbf, hbbf, hfeeds, _⟩ := hsub.sub
    refine ⟨bbf, hbbf, ?_⟩
    rw [hfeeds, hwant, (fedBy_end (by omega)).1, fields, List.flatMap_cons, List.flatMap_nil,
      List.append_nil]

/-! ### From the first packet on -/

section
variable {subs : ℕ → Bool}

theorem t2miStreamInit_sub (hsub : subs plp = true) :
    (t2miStreamInit pid subs : T2miStream β).emb.bbfStreams plp =
      some (bbframesStreamReset (bbframesStreamReset (bbframesStreamInit plp))) := by
  simp only [t2miStreamInit, t2miStreamReset, embeddedStreamInit, embeddedStreamReset, hsub, if_true]
  rfl

/-- Before the first T2-MI packet begins, packets change nothing. -/
theorem lead_packet {piece : List (Bool × β)} (h : Carried pid cc piece packet)
    (hlead : piece.any Prod.fst = false) :
    t2miStreamAddPacket (t2miStreamInit pid subs) packet = .done (t2miStreamInit pid subs) := by
  have henter := @t2miEnter_carried _ _ _ _ _ (t2miStreamInit pid subs) _ h rfl
    (Or.inl (Int.negSucc_lt_zero 0)) (fun _ => Int.le_refl 0) _ rfl
  rw [if_pos ⟨rfl, hlead⟩] at henter
  rw [t2miStreamAddPacket, henter]

/-- The bytes before the first T2-MI packet of a packet are passed over. -/
theorem first_packet {f : T2miFrame β} {frames : List (T2miFrame β)} {lead : List β}
    {first : List (Bool × β)} (h : Carried pid cc (unmarked lead ++ first) packet)
    (hfirst : first.head?.map Prod.fst = some true) (hsub : subs plp = true)
    (hsent : SentFor plp (f :: frames))
    (hread : first.map Prod.snd ++ rest = (f :: frames).flatMap T2miFrame.bytes)
    (hwant : want = ((Track.fresh.resume f.syncd).feed (fields (f :: frames))).1.map withSync) :
    ∃ t, t2miStreamAddPacket (t2miStreamInit pid subs) packet = .done t ∧ t.synced = true ∧
      Receiving pid cc plp t rest want := by
  obtain ⟨⟨m, c⟩, cs, rfl⟩ : ∃ x xs, first = x :: xs := by
    cases first with
    | nil => cases hfirst
    | cons x xs => exact ⟨x, xs, rfl⟩
  obtain rfl : m = true := by simpa using hfirst
  have hidx : (unmarked lead ++ (true, c) :: cs).findIdx Prod.fst = lead.length := by
    rw [List.findIdx_append, findIdx_unmarked, if_neg (by rw [unmarked, List.length_map]; omega),
      List.findIdx_cons]
    simp [unmarked]
  have hinside := h.inside
  have hcells := h.cells
  have hpos : 0 ≤ tsPayloadAt packet := by
    rw [tsPayloadAt]
    split <;> split <;> omega
  have hlen := congrArg List.length hcells
  rw [Packet.length_read, List.length_map, List.length_append, unmarked, List.length_map,
    List.length_cons] at hlen
  rw [List.map_append, map_unmarked] at hcells
  obtain ⟨_, hcells'⟩ := @read_spells _ _ _ _ _ rest (((true, c) :: cs).map Prod.snd ++ rest)
    hpos (show tsPayloadAt packet + lead.length ≤ 188 by omega) (Nat.le_refl _)
    (by rw [hcells, List.append_assoc])
  rw [List.drop_length, List.nil_append] at hcells'
  have henter := @t2miEnter_carried _ _ _ _ _ (t2miStreamInit pid subs) _ h rfl
    (Or.inl (Int.negSucc_lt_zero 0)) (fun _ => Int.le_refl 0) _ rfl
  rw [if_neg (by simp), hidx] at henter
  have hstart : Receiving pid cc plp
      { (t2miStreamInit pid subs : T2miStream β) with
        emb := { (t2miStreamInit pid subs : T2miStream β).emb with ccCounter := cc } }
      (packet.read (tsPayloadAt packet + lead.length) (188 - (tsPayloadAt packet + lead.length)) ++
        rest) want := by
    have hserves : Serves pid cc plp
        { (t2miStreamInit pid subs : T2miStream β) with
          emb := { (t2miStreamInit pid subs : T2miStream β).emb with ccCounter := cc } } []
        (Resumes · .fresh) := ⟨rfl, rfl, _, t2miStreamInit_sub hsub, rfl, rfl, rfl⟩
    have hheading : f.Heading 0
        { (t2miStreamInit pid subs : T2miStream β) with
          emb := { (t2miStreamInit pid subs : T2miStream β).emb with ccCounter := cc } } :=
      ⟨by decide, rfl, Or.inl rfl, fun h0 => absurd h0 (by simp), fun h0 => absurd h0 (by simp), rfl,
        Or.inl (Int.negSucc_lt_zero 0)⟩
    refine ⟨f, frames, [], .fresh, 0, .heading hheading hserves, Nat.zero_le _, by rintro _ _ ⟨⟩,
      hsent, ?_, ?_⟩
    · rw [hcells', hread, List.flatMap_cons]
      rfl
    · rw [hwant, List.nil_append]
  obtain ⟨t, hends, hthen, hsync⟩ := receiving_loop _ rfl (show 0 ≤ tsPayloadAt packet + lead.length by
    omega) (by omega) hstart
  refine ⟨t, ?_, hsync (Or.inl (by omega)), hthen⟩
  exact ((t2miStreamReset_inv _ _).add_of_ends henter hends).1

namespace T2miFrame

/-- Bytes before the first user packet that starts in the first BBFRAME. -/
def firstSyncd (frames : List (T2miFrame β)) : ℕ := (frames.head?.map T2miFrame.syncd).getD 0

/-- The user packets are `ups`: the data fields are the end of an earlier user packet, as long as the
    first BBFRAME says, then these packets, then the beginning of a further one. -/
def Carries (frames : List (T2miFrame β)) (ups : List (List β)) : Prop :=
  ∃ lead tail, fields frames = lead ++ ups.flatten ++ tail ∧ lead.length = firstSyncd frames ∧
    (∀ up ∈ ups, up.length = hemPacketLen) ∧ tail.length < hemPacketLen

theorem marked_eq (f : T2miFrame β) : ∃ c cs, f.marked = (true, c) :: cs := by
  have hlen := f.length_bytes
  obtain ⟨c, cs, hcs⟩ := List.exists_cons_of_length_pos (show 0 < f.bytes.length by omega)
  exact ⟨c, _, by rw [marked, hcs]; rfl⟩

end T2miFrame

/-- From any piece on, as long as no T2-MI packet has begun. -/
theorem lead_run {frames : List (T2miFrame β)} (hsub : subs plp = true)
    (hsent : SentFor plp frames) :
    ∀ (pieces : List (List (Bool × β))) (packets : List (Packet β)) (cc : ℤ) (lead : List β),
      CutInto pid cc pieces packets → pieces.flatten = sentStream lead frames →
      ∃ t bbf, t2miRun (t2miStreamInit pid subs) packets = .done t ∧
        t.emb.bbfStreams plp = some bbf ∧
        bbf.feeds = ((Align.skip (firstSyncd frames)).feed (fields frames)).1.map withSync
  | [], [], _, lead, _, hstream => by
    have hnone : frames = [] := by
      cases frames with
      | nil => rfl
      | cons f frames =>
        obtain ⟨c, cs, hmarked⟩ := f.marked_eq
        rw [sentStream, List.flatMap_cons, hmarked] at hstream
        simp at hstream
    subst hnone
    refine ⟨t2miStreamInit pid subs, _, rfl, t2miStreamInit_sub hsub, ?_⟩
    rw [show fields ([] : List (T2miFrame β)) = [] from rfl, Align.feed_nil]
    rfl
  | [], _ :: _, _, _, hcut, _ => absurd hcut id
  | _ :: _, [], _, _, hcut, _ => absurd hcut id
  | piece :: pieces, packet :: packets, cc, lead, hcut, hstream => by
    obtain ⟨hhere, hthen⟩ := hcut
    -- nothing of the first T2-MI packet is in a piece that lies within the lead
    have hwait : ∀ lead', piece.any Prod.fst = false →
        pieces.flatten = sentStream lead' frames → ∃ t bbf,
          t2miRun (t2miStreamInit pid subs) (packet :: packets) = .done t ∧
          t.emb.bbfStreams plp = some bbf ∧
          bbf.feeds = ((Align.skip (firstSyncd frames)).feed (fields frames)).1.map withSync := by
      intro lead' hnone hrest
      obtain ⟨t, bbf, hrun, hbbf, hfeeds⟩ :=
        lead_run hsub hsent pieces packets (cc + 1) lead' hthen hrest
      refine ⟨t, bbf, ?_, hbbf, hfeeds⟩
      rw [t2miRun, Outcome.run, lead_packet hhere hnone]
      exact hrun
    rw [List.flatten_cons, sentStream, List.append_eq_append_iff] at hstream
    rcases hstream with ⟨later, hlead, hrest⟩ | ⟨first, hpiece, hrest⟩
    · obtain ⟨here, later, rfl, rfl, rfl⟩ := List.map_eq_append_iff.mp hlead
      exact hwait later (any_unmarked here) hrest
    · subst hpiece
      cases first with
      | nil =>
        refine hwait [] ?_ hrest.symm
        rw [List.append_nil]
        exact any_unmarked lead
      | cons x first =>
        cases frames with
        | nil => cases hrest
        | cons f frames =>
          have hhead : (x :: first).head?.map Prod.fst = some true := by
            obtain ⟨c, cs, hmarked⟩ := f.marked_eq
            rw [List.flatMap_cons, hmarked, List.cons_append, List.cons_append,
              List.cons.injEq] at hrest
            rw [List.head?_cons, ← hrest.1]
            rfl
          have hread : (x :: first).map Prod.snd ++ pieces.flatten.map Prod.snd =
              (f :: frames).flatMap T2miFrame.bytes := by
            rw [← List.map_append, ← hrest, flatMap_marked]
          obtain ⟨t, hadd, hsync, hrec⟩ := first_packet hhere hhead hsub hsent hread rfl
          obtain ⟨t', c', hrun, hdone⟩ := receiving_run pieces packets (cc + 1) (cc % 16) hthen
            ((t2miStreamReset_inv _ _).add hadd) hsync (by omega) hrec
          obtain ⟨bbf, hbbf, hfeeds⟩ := hdone.done
          refine ⟨t', bbf, ?_, hbbf, hfeeds⟩
          rw [t2miRun, Outcome.run, hadd]
          exact hrun

end

/-- However the T2-MI packets of a PLP are cut into transport packets, and whatever comes before the
    first of them, the PLP's subscriber gets exactly the user packets carried, in order and byte for
    byte. -/
theorem t2mi_roundtrip (pid cc : ℤ) (subs : ℕ → Bool) (plp : ℕ) (lead : List UInt8)
    (frames : List (T2miFrame UInt8)) (pieces : List (List (Bool × UInt8)))
    (packets : List (Packet UInt8)) (ups : List (List UInt8)) (hsub : subs plp = true)
    (hsent : SentFor plp frames) (hups : T2miFrame.Carries frames ups)
    (hcut : CutInto pid cc pieces packets) (hpieces : pieces.flatten = sentStream lead frames) :
    ∃ t2mi bbf, t2miRun (t2miStreamInit pid subs) packets = .done t2mi ∧
      t2mi.emb.bbfStreams plp = some bbf ∧ bbf.feeds = ups.map withSync := by
  obtain ⟨before, tail, hfields, hbefore, hlen, htail⟩ := hups
  obtain ⟨t, bbf, hrun, hbbf, hfeeds⟩ := lead_run hsub hsent pieces packets cc lead hcut hpieces
  refine ⟨t, bbf, hrun, hbbf, ?_⟩
  rw [hfeeds, hfields, ← hbefore, Align.feed_carries before tail ups hlen htail]

/-- One user packet of PLP 3. -/
def T2miFrame.sample : T2miFrame UInt8 where
  header := [0x00, 0x00, 0x00, 0x00, 0x06, 0x40]
  bbheader := [0x00, 0x03, 0x00, 0x00, 3, 0, 0, 0x05, 0xD8, 0, 0, 0, 0xB0]
  field := List.replicate 187 0xAA
  pad := []
  crc := [0x11, 0x22, 0x33, 0x44]
  header_size := rfl
  bbheader_size := rfl
  crc_size := rfl
  type_eq := by decide
  payload_size := by decide +kernel
  hem := by decide
  field_size := by decide +kernel
  starts := by decide +kernel

/-- The last byte of an earlier T2-MI packet and 182 bytes of this one, then the other 28. -/
def T2miFrame.samplePackets : List (Packet UInt8) :=
  [Packet.ofList ([0x47, 0x41, 0x0E, 0x17, 0x01, 0x99] ++ T2miFrame.sample.bytes.take 182),
    Packet.ofList ([0x47, 0x01, 0x0E, 0x38, 155, 0x00] ++ List.replicate 154 0xFF ++
      T2miFrame.sample.bytes.drop 182)]

theorem t2mi_roundtrip_one_frame :
    ∃ t2mi bbf, t2miRun (t2miStreamInit 270 fun k => k = 3) T2miFrame.samplePackets = .done t2mi ∧
      t2mi.emb.bbfStreams 3 = some bbf ∧
      bbf.feeds = [List.replicate 187 (0xAA : UInt8)].map withSync :=
  t2mi_roundtrip 270 7 (fun k => k = 3) 3 [0x99] [T2miFrame.sample]
    [(sentStream [0x99] [T2miFrame.sample]).take 183, (sentStream [0x99] [T2miFrame.sample]).drop 183]
    T2miFrame.samplePackets [List.replicate 187 0xAA] (by decide)
    ⟨by decide +kernel, .singleton _⟩
    ⟨[], [], by decide +kernel, by decide +kernel, by decide +kernel, by decide⟩
    ⟨⟨by decide +kernel, by decide +kernel, by decide +kernel, by decide +kernel, by decide +kernel,
        by decide +kernel, by decide +kernel, by decide +kernel⟩,
      ⟨by decide +kernel, by decide +kernel, by decide +kernel, by decide +kernel, by decide +kernel,
        by decide +kernel, by decide +kernel, by decide +kernel⟩, trivial⟩
    (by decide +kernel)

end Demux

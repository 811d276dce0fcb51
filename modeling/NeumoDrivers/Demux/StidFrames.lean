import NeumoDrivers.Demux.StidView
import NeumoDrivers.Demux.UserPackets

/-! BBFRAMEs in high-efficiency mode, sent in STID packets.

    A `HemFrame` is a BBFRAME cut into the packets that carry it: a first one with the header and as
    many further ones as the data field and the padding fill. A sub-stream is `fresh` until its
    first BBFRAME; from then on its `Track` is the part of the data field that is still to come and
    the alignment on user packets. `hemFrame_run` says what the packets of one BBFRAME do, and
    `stid_roundtrip` what any interleaving of the BBFRAMEs of any number of streams delivers. -/

namespace Demux

variable {β : Type} [Cell β] {pid : ℤ}

/-- Bytes of the data field, and of them up to the first user packet, as the header says. -/
def StidPacket.dfl (pk : StidPacket β pid) : ℕ := (be16 (pk.header 4) (pk.header 5) / 8).toNat

def StidPacket.syncd (pk : StidPacket β pid) : ℕ := (be16 (pk.header 7) (pk.header 8) / 8).toNat

/-- A BBFRAME in which a user packet starts, cut into STID packets. -/
structure HemFrame (β : Type) [Cell β] (pid : ℤ) where
  first : StidPacket β pid
  rest : List (StidPacket β pid)
  field : List β
  pad : List β
  opens : first.opens = true
  hem : first.hem = true
  continues : ∀ pk ∈ rest, pk.isStart = false
  cut : first.content ++ (rest.map StidPacket.body).flatten = field ++ pad
  field_size : field.length = first.dfl
  starts : first.syncd < first.dfl

namespace HemFrame

def key (f : HemFrame β pid) : ℕ := f.first.key

def packets (f : HemFrame β pid) : List (StidPacket β pid) := f.first :: f.rest

end HemFrame

/-- What is known of a sub-stream: it has seen no BBFRAME, or so many bytes of its data field are to
    come and its alignment is this. -/
inductive Track (β : Type) where
  | fresh
  | live (left : ℕ) (a : Align β)

/-- The alignment a data field is read with that has so many bytes before its first user packet:
    only a fresh sub-stream asks. -/
def Track.resume (t : Track β) (syncd : ℕ) : Align β :=
  match t with
  | .fresh => .skip syncd
  | .live _ a => a

/-- The sub-stream is not in the middle of the bytes it skips first. -/
def Track.Ready (t : Track β) : Prop := ∀ left todo, t ≠ .live left (.skip todo)

/-- Bytes behind the headers come in: the user packets they complete, and what is known then. -/
def Track.feed (t : Track β) (u : List β) : List (List β) × Track β :=
  match t with
  | .fresh => ([], .fresh)
  | .live left a =>
    let r := a.feed (u.take left)
    (r.1, .live (left - u.length) r.2)

/-- The fields of a sub-stream say what `t` says. -/
def Tracks (bbf : BbframesStream β) (t : Track β) : Prop :=
  match t with
  | .fresh => bbf.synced = false ∧ bbf.ts.synced = false ∧ bbf.ts.buffIdx = 0
  | .live left a =>
    bbf.synced = true ∧ bbf.bbfPayloadBytesLeft = left ∧ Aligned bbf a ∧
      ∀ todo, a = .skip todo → todo ≤ left

omit [Cell β] in
theorem Track.feed_append (t : Track β) (u w : List β) :
    t.feed (u ++ w) = ((t.feed u).1 ++ ((t.feed u).2.feed w).1, ((t.feed u).2.feed w).2) := by
  cases t with
  | fresh => rfl
  | live left a =>
    simp only [Track.feed, List.take_append, List.length_append, Align.feed_append, Nat.sub_sub]

omit [Cell β] in
theorem Track.feed_nil (t : Track β) (u : List β) : (t.feed u).2.feed [] = ([], (t.feed u).2) := by
  have h := t.feed_append u []
  rw [List.append_nil, Prod.ext_iff] at h
  exact Prod.ext (List.self_eq_append_right.mp h.1) h.2.symm

omit [Cell β] in
/-- Nothing but padding comes in once the data field is read. -/
theorem Track.feed_field (a : Align β) (field pad : List β) :
    (Track.live field.length a).feed (field ++ pad) =
      ((a.feed field).1, .live 0 (a.feed field).2) := by
  simp only [Track.feed, List.take_left, List.length_append]
  rw [Nat.sub_eq_zero_of_le (Nat.le_add_right _ _)]

/-! ### One packet -/

/-- A data field is being read: so many bytes of it are to come, aligned like this. -/
structure Follows (bbf : BbframesStream β) (left : ℕ) (a : Align β) : Prop where
  due : bbf.bbfPayloadBytesLeft = left
  aligned : Aligned bbf a
  skip : ∀ todo, a = .skip todo → todo ≤ left

/-- What a header finds: nothing of a data field read yet, or an alignment. -/
def Resumes (bbf : BbframesStream β) (t : Track β) : Prop :=
  match t with
  | .fresh => bbf.ts.synced = false ∧ bbf.ts.buffIdx = 0
  | .live _ a => Aligned bbf a

theorem Tracks.resumes {bbf : BbframesStream β} {t : Track β} (h : Tracks bbf t) :
    Resumes bbf t := by
  cases t with
  | fresh => exact h.2
  | live left a => exact h.2.2.1

/-- A call on a data field that is being read takes in its bytes as `Align.feed` says. -/
theorem Follows.output {bbf : BbframesStream β} {left : ℕ} {a : Align β} (h : Follows bbf left a)
    (packet : Packet β) {p num : ℤ} (hp : 0 ≤ p) (hnum : 0 ≤ num) :
    ∃ bbf', bbfOutputTsBytes packet bbf p num = .ptr bbf' (p + num) ∧ bbf'.synced = bbf.synced ∧
      Follows bbf' (left - num.toNat) (a.feed ((packet.read p num).take left)).2 ∧
      bbf'.feeds = bbf.feeds ++ (a.feed ((packet.read p num).take left)).1.map withSync := by
  have hleft := h.due
  have hread : packet.read p (min left num) = (packet.read p num).take left := by
    rw [Packet.take_read]
  obtain ⟨ts, halign, hout⟩ := bbfOutputTsBytes_aligned packet bbf p num a h.aligned hp hnum
    (by omega) (fun todo ht => by rw [hleft]; exact_mod_cast h.skip todo ht)
    (d := min left num) (by rw [hleft])
  rw [hread] at halign hout
  refine ⟨_, hout, rfl, ⟨?_, halign, ?_⟩, rfl⟩
  · simp only [BbframesStream.took]
    omega
  · intro todo ht
    cases a with
    | run pend => cases ht
    | skip todo' =>
      have hle := h.skip todo' rfl
      simp only [Align.feed] at ht
      split at ht
      · rename_i hlt
        rw [List.length_take, Packet.length_read] at ht hlt
        injection ht with ht
        omega
      · cases ht

/-- What a packet hands over is taken in as `Track.feed` says. -/
theorem handOver_tracks (v : StidView β) (pk : StidPacket β pid) (k : ℕ) (bbf : BbframesStream β)
    (hcur : v.cur = some k) (hk : v.streams k = some bbf) (left : ℕ) (a : Align β)
    (hsync : bbf.synced = true ∨ pk.opens = true) (h : Follows bbf left a) :
    ∃ bbf', handOver v pk = .done (v.put k bbf') ∧
      Tracks bbf' ((Track.live left a).feed pk.content).2 ∧
      bbf'.feeds = bbf.feeds ++ ((Track.live left a).feed pk.content).1.map withSync := by
  obtain ⟨p, hp⟩ : ∃ p : ℤ, p = if pk.opens then 19 else 9 := ⟨_, rfl⟩
  have hrange : 0 ≤ p ∧ p ≤ 188 := by rw [hp]; split <;> omega
  have hcontent : pk.toPacket.read p (188 - p) = pk.content := by rw [hp]; exact pk.read_toPacket
  have hlen : (188 - p).toNat = pk.content.length := by rw [← hcontent, Packet.length_read]
  have hlive : Follows { bbf with synced := true } left a := ⟨h.due, h.aligned, h.skip⟩
  obtain ⟨bbf', hout, hsync', hfollows, hfeeds⟩ :=
    hlive.output pk.toPacket hrange.1 (show 0 ≤ 188 - p by omega)
  rw [hcontent] at hfollows hfeeds
  rw [hlen] at hfollows
  refine ⟨bbf', ?_, ⟨hsync', hfollows.due, hfollows.aligned, hfollows.skip⟩, hfeeds⟩
  rw [handOver]
  simp only [hcur, hk]
  rw [if_neg (by rcases hsync with h | h <;> simp [h]), ← hp, hout]

/-- A packet that starts no BBFRAME goes to the sub-stream of the BBFRAME before. -/
theorem stidViewStep_continue (v : StidView β) (pk : StidPacket β pid) (k : ℕ)
    (bbf : BbframesStream β) (hstart : pk.isStart = false) (hcur : v.cur = some k)
    (hk : v.streams k = some bbf) (t : Track β) (ht : Tracks bbf t) :
    ∃ bbf', stidViewStep v pk = .done (v.put k bbf') ∧ Tracks bbf' (t.feed pk.body).2 ∧
      bbf'.feeds = bbf.feeds ++ (t.feed pk.body).1.map withSync := by
  have hopens : pk.opens = false := by rw [StidPacket.opens, hstart, Bool.false_and]
  have hcontent : pk.content = pk.body := by rw [StidPacket.content, hopens]; rfl
  cases t with
  | fresh =>
    refine ⟨bbf, ?_, ht, by simp [Track.feed]⟩
    rw [StidView.put_eq_self hk, stidViewStep, hopens, if_neg Bool.false_ne_true, handOver]
    simp only [hcur, hk]
    rw [if_pos ⟨by rw [ht.1]; decide, by rw [hopens]; decide⟩]
  | live left a =>
    obtain ⟨hsync, hleft, ha, hskip⟩ := ht
    obtain ⟨bbf', hhand, htrack, hfeeds⟩ :=
      handOver_tracks v pk k bbf hcur hk left a (Or.inl hsync) ⟨hleft, ha, hskip⟩
    rw [hcontent] at htrack hfeeds
    exact ⟨bbf', by rw [stidViewStep, hopens]; exact hhand, htrack, hfeeds⟩

/-- A sub-stream takes over the header of a BBFRAME in which a user packet starts. -/
theorem parseBbheader_follows {bbf : BbframesStream β} {t : Track β} (ht : Resumes bbf t)
    (hready : t.Ready) (isi : ℤ) (buff : ℕ → UInt8) {dfl syncd : ℕ}
    (hdfl : be16 (buff 4) (buff 5) / 8 = dfl) (hsyncd : be16 (buff 7) (buff 8) / 8 = syncd)
    (hstarts : syncd < dfl) :
    Follows (parseBbheader bbf true isi buff) dfl (t.resume syncd) := by
  rcases t with _ | ⟨left, todo | pend⟩
  · obtain ⟨hts, hidx⟩ := ht
    refine ⟨hdfl, ⟨rfl, rfl, hts, Int.le_of_eq hidx.symm, ?_⟩, ?_⟩
    · rw [parseBbheader]
      simp only [hidx, hsyncd, Int.zero_add]
    · rintro todo ⟨⟩
      exact Nat.le_of_lt hstarts
  · exact absurd rfl (hready left todo)
  · obtain ⟨_, _, hrun⟩ := ht
    refine ⟨hdfl, ⟨rfl, rfl, hrun⟩, ?_⟩
    rintro todo ⟨⟩

theorem StidPacket.be16_dfl (pk : StidPacket β pid) :
    be16 (pk.header 4) (pk.header 5) / 8 = (pk.dfl : ℤ) := by
  rw [StidPacket.dfl, Int.toNat_of_nonneg (by unfold be16; omega)]

theorem StidPacket.be16_syncd (pk : StidPacket β pid) :
    be16 (pk.header 7) (pk.header 8) / 8 = (pk.syncd : ℤ) := by
  rw [StidPacket.syncd, Int.toNat_of_nonneg (by unfold be16; omega)]

/-- A packet that starts a BBFRAME hands over to the sub-stream of its id what is behind the
    header. -/
theorem stidViewStep_open (v : StidView β) (pk : StidPacket β pid) (bbf : BbframesStream β)
    (hopens : pk.opens = true) (hhem : pk.hem = true) (hstarts : pk.syncd < pk.dfl)
    (hk : v.streams pk.key = some bbf) (t : Track β) (ht : Tracks bbf t)
    (hready : t.Ready) :
    ∃ bbf', stidViewStep v pk = .done ({ v with cur := some pk.key }.put pk.key bbf') ∧
      Tracks bbf' ((Track.live pk.dfl (t.resume pk.syncd)).feed pk.content).2 ∧
      bbf'.feeds =
        bbf.feeds ++ ((Track.live pk.dfl (t.resume pk.syncd)).feed pk.content).1.map withSync := by
  have hfollows : Follows (parseBbheader bbf pk.hem pk.key pk.header) pk.dfl
      (t.resume pk.syncd) := by
    rw [hhem]
    exact parseBbheader_follows ht.resumes hready _ _ pk.be16_dfl pk.be16_syncd hstarts
  have hframe : openFrame v pk =
      { v with cur := some pk.key }.put pk.key (parseBbheader bbf pk.hem pk.key pk.header) := by
    rw [openFrame]; simp only [hk]
  obtain ⟨bbf', hhand, htrack, hfeeds⟩ :=
    handOver_tracks (openFrame v pk) pk pk.key _ (by rw [hframe]; rfl)
      (by rw [hframe, StidView.put_streams_self]) pk.dfl _ (Or.inr hopens) hfollows
  refine ⟨bbf', ?_, htrack, hfeeds⟩
  rw [stidViewStep, if_pos hopens, hhand, hframe, StidView.put_put]

/-! ### One BBFRAME -/

/-- Packets that start no BBFRAME are lost on an id nobody subscribed to. -/
theorem continue_run_none (k : ℕ) (v : StidView β) (hcur : v.cur = some k)
    (hk : v.streams k = none) :
    ∀ pks : List (StidPacket β pid), (∀ pk ∈ pks, pk.isStart = false) →
      Outcome.run stidViewStep v pks = .done v
  | [], _ => rfl
  | pk :: pks, h => by
    have hopens : pk.opens = false := by rw [StidPacket.opens, h pk (by simp), Bool.false_and]
    have hstep : stidViewStep v pk = .done v := by
      rw [stidViewStep, hopens, if_neg Bool.false_ne_true, handOver]
      simp only [hcur, hk]
    rw [Outcome.run, hstep]
    exact continue_run_none k v hcur hk pks fun q hq => h q (List.mem_cons_of_mem _ hq)

/-- Packets that start no BBFRAME are taken in one after the other. -/
theorem continue_run (k : ℕ) :
    ∀ (pks : List (StidPacket β pid)) (v : StidView β) (bbf : BbframesStream β) (t : Track β),
      (∀ pk ∈ pks, pk.isStart = false) → v.cur = some k → v.streams k = some bbf →
      Tracks bbf t → t.feed [] = ([], t) →
      ∃ bbf', Outcome.run stidViewStep v pks = .done (v.put k bbf') ∧
        Tracks bbf' (t.feed (pks.map StidPacket.body).flatten).2 ∧
        bbf'.feeds = bbf.feeds ++ (t.feed (pks.map StidPacket.body).flatten).1.map withSync
  | [], v, bbf, t, _, _, hk, ht, hnil => by
    refine ⟨bbf, by rw [StidView.put_eq_self hk]; rfl, ?_, ?_⟩
    · rw [List.map_nil, List.flatten_nil, hnil]; exact ht
    · rw [List.map_nil, List.flatten_nil, hnil, List.map_nil, List.append_nil]
  | pk :: pks, v, bbf, t, hpks, hcur, hk, ht, _ => by
    obtain ⟨bbf₁, hstep, ht₁, hf₁⟩ :=
      stidViewStep_continue v pk k bbf (hpks pk (by simp)) hcur hk t ht
    obtain ⟨bbf₂, hrun, ht₂, hf₂⟩ := continue_run k pks (v.put k bbf₁) bbf₁ _
      (fun q hq => hpks q (List.mem_cons_of_mem _ hq)) hcur StidView.put_streams_self ht₁
      (t.feed_nil _)
    rw [List.map_cons, List.flatten_cons, Track.feed_append]
    refine ⟨bbf₂, ?_, ht₂, ?_⟩
    · rw [Outcome.run, hstep]
      simp only [hrun, StidView.put_put]
    · rw [hf₂, hf₁, List.map_append, List.append_assoc]

/-- On an id nobody subscribed to, a BBFRAME only changes the id looked up last. -/
theorem hemFrame_run_none (v : StidView β) (f : HemFrame β pid) (hk : v.streams f.key = none) :
    Outcome.run stidViewStep v f.packets = .done { v with cur := some f.key } := by
  have hstep : stidViewStep v f.first = .done { v with cur := some f.key } := by
    have hframe : openFrame v f.first = { v with cur := some f.key } := by
      rw [HemFrame.key] at hk
      rw [openFrame]
      simp only [hk]
      rfl
    rw [stidViewStep, if_pos f.opens, hframe, handOver]
    simp only [hk]
  rw [HemFrame.packets, Outcome.run, hstep]
  exact continue_run_none f.key { v with cur := some f.key } rfl hk f.rest f.continues

omit [Cell β] in
/-- A data field in which a user packet starts leaves the alignment on user packets. -/
theorem Align.feed_starts (t : Track β) (ht : t.Ready) (syncd : ℕ) (field : List β)
    (hstarts : syncd < field.length) : ∃ pend, ((t.resume syncd).feed field).2 = .run pend := by
  rcases t with _ | ⟨left, todo | pend⟩
  · refine ⟨(Records.feed hemPacketLen [] (field.drop syncd)).2, ?_⟩
    simp only [Track.resume, Align.feed]
    rw [if_neg (by omega)]
  · exact absurd rfl (ht left todo)
  · exact ⟨_, rfl⟩

/-- The packets of a BBFRAME give the sub-stream of its id the data field, and change nothing
    else. -/
theorem hemFrame_run (v : StidView β) (f : HemFrame β pid) (bbf : BbframesStream β)
    (hk : v.streams f.key = some bbf) (t : Track β) (ht : Tracks bbf t) (hready : t.Ready) :
    ∃ bbf', Outcome.run stidViewStep v f.packets =
        .done ({ v with cur := some f.key }.put f.key bbf') ∧
      Tracks bbf' (.live 0 ((t.resume f.first.syncd).feed f.field).2) ∧
      bbf'.feeds =
        bbf.feeds ++ ((t.resume f.first.syncd).feed f.field).1.map withSync := by
  obtain ⟨bbf₁, hstep, ht₁, hf₁⟩ :=
    stidViewStep_open v f.first bbf f.opens f.hem f.starts hk t ht hready
  obtain ⟨bbf₂, hrun, ht₂, hf₂⟩ := continue_run f.key f.rest
    ({ v with cur := some f.key }.put f.key bbf₁) bbf₁ _ f.continues rfl
    StidView.put_streams_self ht₁ (Track.feed_nil _ _)
  have hfeed := Track.feed_append (Track.live f.first.dfl (t.resume f.first.syncd)) f.first.content
    (f.rest.map StidPacket.body).flatten
  rw [f.cut, ← f.field_size, Track.feed_field, Prod.mk.injEq] at hfeed
  rw [← f.field_size] at hf₁ hf₂ ht₂
  refine ⟨bbf₂, ?_, ?_, ?_⟩
  · rw [HemFrame.packets, Outcome.run, hstep]
    simp only [HemFrame.key] at hrun ⊢
    rw [hrun, StidView.put_put]
  · rw [hfeed.2]; exact ht₂
  · rw [hfeed.1, hf₂, hf₁, List.map_append, List.append_assoc]

/-! ### Any interleaving of BBFRAMEs -/

namespace HemFrame

/-- The BBFRAMEs of one id. -/
def owned (k : ℕ) (frames : List (HemFrame β pid)) : List (HemFrame β pid) :=
  frames.filter fun f => f.key = k

/-- The data fields of one id, one behind the other. -/
def fields (k : ℕ) (frames : List (HemFrame β pid)) : List β :=
  ((owned k frames).map HemFrame.field).flatten

/-- Bytes before the first user packet that starts in the first BBFRAME of an id. -/
def firstSyncd (k : ℕ) (frames : List (HemFrame β pid)) : ℕ :=
  ((owned k frames).head?.map fun f => f.first.syncd).getD 0

/-- The user packets of an id are `ups`: its data fields are the end of an earlier user packet, as
    long as the first BBFRAME says, then these packets, then the beginning of a further one. -/
def Carries (k : ℕ) (frames : List (HemFrame β pid)) (ups : List (List β)) : Prop :=
  ∃ lead tail, fields k frames = lead ++ ups.flatten ++ tail ∧
    lead.length = firstSyncd k frames ∧ (∀ up ∈ ups, up.length = hemPacketLen) ∧
    tail.length < hemPacketLen

end HemFrame

/-- Every sub-stream is between two BBFRAMEs. -/
def Ready (v : StidView β) : Prop :=
  ∀ k bbf, v.streams k = some bbf → ∃ t, Tracks bbf t ∧ t.Ready

theorem Ready.put {v : StidView β} (hv : Ready v) {k : ℕ} {bbf : BbframesStream β} {t : Track β}
    (ht : Tracks bbf t) (hready : t.Ready) (c : Option ℕ) :
    Ready ({ v with cur := c }.put k bbf) := by
  intro j b hb
  by_cases hj : j = k
  · subst hj
    rw [StidView.put_streams_self] at hb
    cases hb
    exact ⟨t, ht, hready⟩
  · rw [StidView.put_streams_ne hj] at hb
    exact hv j b hb

theorem HemFrame.owned_cons_self (f : HemFrame β pid) (frames : List (HemFrame β pid)) :
    owned f.key (f :: frames) = f :: owned f.key frames := by
  rw [owned, List.filter_cons_of_pos (by simp)]
  rfl

theorem HemFrame.owned_cons_ne {k : ℕ} {f : HemFrame β pid} (h : f.key ≠ k)
    (frames : List (HemFrame β pid)) : owned k (f :: frames) = owned k frames := by
  rw [owned, List.filter_cons_of_neg (by simpa using h)]
  rfl

theorem HemFrame.fields_cons_self (f : HemFrame β pid) (frames : List (HemFrame β pid)) :
    fields f.key (f :: frames) = f.field ++ fields f.key frames := by
  rw [fields, owned_cons_self, List.map_cons, List.flatten_cons]
  rfl

theorem HemFrame.firstSyncd_cons_self (f : HemFrame β pid) (frames : List (HemFrame β pid)) :
    firstSyncd f.key (f :: frames) = f.first.syncd := by
  rw [firstSyncd, owned_cons_self]
  rfl

/-- One BBFRAME: its own sub-stream gets the data field, the others stay as they are. -/
theorem hemFrame_run_ready (v : StidView β) (f : HemFrame β pid) (hv : Ready v) :
    ∃ v', Outcome.run stidViewStep v f.packets = .done v' ∧ Ready v' ∧
      (∀ j, j ≠ f.key → v'.streams j = v.streams j) ∧
      ∀ bbf t, v.streams f.key = some bbf → Tracks bbf t → t.Ready →
        ∃ bbf' pend, v'.streams f.key = some bbf' ∧ Tracks bbf' (.live 0 (.run pend)) ∧
          ((t.resume f.first.syncd).feed f.field).2 = .run pend ∧
          bbf'.feeds = bbf.feeds ++ ((t.resume f.first.syncd).feed f.field).1.map withSync := by
  have hlt : f.first.syncd < f.field.length := by rw [f.field_size]; exact f.starts
  rcases Option.eq_none_or_eq_some (v.streams f.key) with hk | ⟨bbf, hk⟩
  · refine ⟨_, hemFrame_run_none v f hk, hv, fun _ _ => rfl, ?_⟩
    intro bbf _ hsome
    rw [hk] at hsome
    cases hsome
  · obtain ⟨t, ht, hready⟩ := hv f.key bbf hk
    obtain ⟨bbf', hrun, ht', hfeeds⟩ := hemFrame_run v f bbf hk t ht hready
    obtain ⟨pend, hpend⟩ := Align.feed_starts t hready f.first.syncd f.field hlt
    rw [hpend] at ht'
    refine ⟨_, hrun, hv.put ht' (by rintro _ _ ⟨⟩) _, fun j hj => StidView.put_streams_ne hj, ?_⟩
    intro b u hb hu hur
    obtain ⟨b₁, hrun₁, ht₁, hfeeds₁⟩ := hemFrame_run v f b hb u hu hur
    obtain ⟨pend₁, hpend₁⟩ := Align.feed_starts u hur f.first.syncd f.field hlt
    rw [hrun, Outcome.done.injEq] at hrun₁
    rw [hpend₁] at ht₁
    exact ⟨b₁, pend₁, by rw [hrun₁]; exact StidView.put_streams_self, ht₁, hpend₁, hfeeds₁⟩

/-- A run of BBFRAMEs gives each sub-stream the data fields of its id. -/
theorem hemFrames_run (k : ℕ) :
    ∀ (frames : List (HemFrame β pid)) (v : StidView β) (bbf : BbframesStream β) (t : Track β),
      Ready v → v.streams k = some bbf → Tracks bbf t → t.Ready →
      ∃ v' bbf', Outcome.run stidViewStep v (frames.flatMap HemFrame.packets) = .done v' ∧
        v'.streams k = some bbf' ∧
        bbf'.feeds = bbf.feeds ++
          ((t.resume (HemFrame.firstSyncd k frames)).feed
            (HemFrame.fields k frames)).1.map withSync
  | [], v, bbf, t, _, hk, _, _ => by
    refine ⟨v, bbf, rfl, hk, ?_⟩
    rw [show HemFrame.fields k ([] : List (HemFrame β pid)) = [] from rfl, Align.feed_nil,
      List.map_nil, List.append_nil]
  | f :: frames, v, bbf, t, hv, hk, ht, hready => by
    obtain ⟨v₁, hrun₁, hv₁, hother, hown⟩ := hemFrame_run_ready v f hv
    rw [List.flatMap_cons]
    by_cases hj : f.key = k
    · subst hj
      obtain ⟨bbf₁, pend, hk₁, ht₁, hpend, hf₁⟩ := hown bbf t hk ht hready
      obtain ⟨v₂, bbf₂, hrun₂, hk₂, hf₂⟩ :=
        hemFrames_run f.key frames v₁ bbf₁ _ hv₁ hk₁ ht₁ (by rintro _ _ ⟨⟩)
      refine ⟨v₂, bbf₂, ?_, hk₂, ?_⟩
      · rw [Outcome.run_append _ _ _ _ _ hrun₁, hrun₂]
      · rw [hf₂, hf₁, List.append_assoc, ← List.map_append]
        rw [HemFrame.fields_cons_self, HemFrame.firstSyncd_cons_self, Align.feed_append, hpend]
        rfl
    · have hk₁ : v₁.streams k = some bbf := by rw [hother k (Ne.symm hj), hk]
      obtain ⟨v₂, bbf₂, hrun₂, hk₂, hf₂⟩ := hemFrames_run k frames v₁ bbf t hv₁ hk₁ ht hready
      refine ⟨v₂, bbf₂, ?_, hk₂, ?_⟩
      · rw [Outcome.run_append _ _ _ _ _ hrun₁, hrun₂]
      · rw [hf₂, HemFrame.fields, HemFrame.fields, HemFrame.firstSyncd, HemFrame.firstSyncd,
          HemFrame.owned_cons_ne hj]

/-- Before the first packet the sub-streams are those subscribed to, all fresh. -/
def StidView.init (subs : ℕ → Bool) : StidView β :=
  ⟨fun k => if subs k then some (bbframesStreamInit k) else none, none⟩

theorem stidStreamInit_view (subs : ℕ → Bool) :
    Views pid (stidStreamInit pid subs) (StidView.init subs : StidView β) := by
  refine ⟨rfl, ?_, rfl, rfl⟩
  funext k
  simp only [stidStreamInit, embeddedStreamInit, embeddedStreamReset, StidView.init]
  split <;> rfl

theorem StidView.init_ready (subs : ℕ → Bool) : Ready (StidView.init subs : StidView β) := by
  intro k bbf hk
  simp only [StidView.init] at hk
  split at hk
  · cases hk
    exact ⟨.fresh, ⟨rfl, rfl, rfl⟩, by rintro _ _ ⟨⟩⟩
  · cases hk

omit [Cell β] in
/-- On the data fields of an id, an alignment that starts where the first BBFRAME says finds exactly
    the user packets that are carried. -/
theorem Align.feed_carries (lead tail : List β) (ups : List (List β))
    (hups : ∀ up ∈ ups, up.length = hemPacketLen) (htail : tail.length < hemPacketLen) :
    ((Align.skip lead.length).feed (lead ++ ups.flatten ++ tail)).1 = ups := by
  rw [Align.feed, if_neg (by simp only [List.length_append]; omega), List.append_assoc,
    List.drop_left, Records.feed_flatten _ _ _ (by decide) hups htail]

/-- Every interleaving of the BBFRAMEs of any number of streams delivers to each id subscribed to
    from the start exactly the user packets carried for it, in order and byte for byte. -/
theorem stid_roundtrip (subs : ℕ → Bool) (frames : List (HemFrame UInt8 pid)) (k : ℕ)
    (ups : List (List UInt8)) (hsub : subs k = true) (hups : HemFrame.Carries k frames ups) :
    ∃ stid bbf,
      stidRun (stidStreamInit pid subs)
        ((frames.flatMap HemFrame.packets).map StidPacket.toPacket) = .done stid ∧
      stid.emb.bbfStreams k = some bbf ∧ bbf.feeds = ups.map withSync := by
  obtain ⟨lead, tail, hfields, hlead, hlen, htail⟩ := hups
  obtain ⟨v, bbf, hrun, hk, hfeeds⟩ := hemFrames_run k frames (StidView.init subs)
    (bbframesStreamInit k : BbframesStream UInt8) .fresh (StidView.init_ready subs)
    (by simp [StidView.init, hsub]) ⟨rfl, rfl, rfl⟩ (by rintro _ _ ⟨⟩)
  have hinit : Views pid (stidStreamInit pid subs) (StidView.init subs : StidView UInt8) :=
    stidStreamInit_view subs
  have hrel := stidRun_view hinit (frames.flatMap HemFrame.packets)
  rw [hrun] at hrel
  generalize stidRun (stidStreamInit pid subs)
    ((frames.flatMap HemFrame.packets).map StidPacket.toPacket) = out at hrel
  cases hrel with
  | done hv =>
    refine ⟨_, bbf, rfl, by rw [hv.streams, hk], ?_⟩
    rw [hfeeds, hfields, Track.resume, ← hlead, Align.feed_carries lead tail ups hlen htail]
    rfl

/-- A packet of pid 270 without adaptation field. -/
def StidPacket.sample (count : UInt8) (body : List UInt8) (h : body.length = 179) :
    StidPacket UInt8 270 where
  head := [0x47, 0x41, 0x0E, 0x10, 0]
  stid := [0x80, 0x00, 0xB4, count]
  body := body
  head_size := rfl
  stid_size := rfl
  body_size := h
  pid_eq := by decide
  payload_only := by decide

/-- One user packet of ISI 3 in a BBFRAME of two packets. -/
def HemFrame.sample : HemFrame UInt8 270 where
  first := .sample 0xB8 ([0x00, 3, 0, 0, 0x05, 0xD8, 0, 0, 0, 0xB0] ++ List.replicate 169 0xAA)
    (by decide +kernel)
  rest := [.sample 1 (List.replicate 18 0xAA ++ List.replicate 161 0xFF) (by decide +kernel)]
  field := List.replicate 187 0xAA
  pad := List.replicate 161 0xFF
  opens := by decide
  hem := by decide
  continues := by decide
  cut := by decide +kernel
  field_size := by decide +kernel
  starts := by decide

theorem stid_roundtrip_one_frame :
    ∃ stid bbf,
      stidRun (stidStreamInit 270 fun k => k = 3)
        (([HemFrame.sample].flatMap HemFrame.packets).map StidPacket.toPacket) = .done stid ∧
      stid.emb.bbfStreams 3 = some bbf ∧
      bbf.feeds = [List.replicate 187 (0xAA : UInt8)].map withSync :=
  stid_roundtrip _ _ 3 _ (by decide)
    ⟨[], [], by decide +kernel, by decide +kernel, by decide +kernel, by decide⟩

end Demux

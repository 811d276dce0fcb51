import NeumoDrivers.Demux.NormalMode
import NeumoDrivers.Demux.Progress
import NeumoDrivers.Demux.T2miStages
import NeumoDrivers.Demux.StidFrames

/-! Padding behind the data fields.

    A `Bbframes` is what a stream sends: BBFRAMEs of one mode, in normal mode with user packets of 188
    bytes whose CRC-8s are right. Each is handed to the sub-stream in pieces, wherever the carrying
    packets cut its data field and the padding behind that (`CutFrame`). The callers go on after a call
    that reads its whole piece (`Piece.hand`). In normal mode a call that begins between two user
    packets when no data byte is left takes padding for the byte in place of a sync byte; without such
    calls the user packets delivered are those of the data fields (`padding_neutral`). -/

namespace Demux
open Loop

variable {β : Type} [Cell β]

/-- A BBFRAME: its 10-byte header and its data field. -/
structure Bbframe (β : Type) where
  header : ℕ → UInt8
  field : List β

namespace Bbframe

/-- Bytes of the data field, and of them up to the first user packet, as the header says. -/
def dfl (f : Bbframe β) : ℕ := (be16 (f.header 4) (f.header 5) / 8).toNat

def syncd (f : Bbframe β) : ℕ := (be16 (f.header 7) (f.header 8) / 8).toNat

omit [Cell β] in
theorem be16_dfl (f : Bbframe β) : be16 (f.header 4) (f.header 5) / 8 = (f.dfl : ℤ) := by
  rw [dfl, Int.toNat_of_nonneg (by unfold be16; omega)]

omit [Cell β] in
theorem be16_syncd (f : Bbframe β) : be16 (f.header 7) (f.header 8) / 8 = (f.syncd : ℤ) := by
  rw [syncd, Int.toNat_of_nonneg (by unfold be16; omega)]

end Bbframe

/-- The data fields, one behind the other. -/
def dataFields (frames : List (Bbframe β)) : List β := frames.flatMap Bbframe.field

/-- Bytes before the first user packet that starts in the first BBFRAME. -/
def leadOf (frames : List (Bbframe β)) : ℕ := (frames.head?.map Bbframe.syncd).getD 0

/-- The BBFRAMEs of one stream. -/
structure Bbframes (β : Type) [Cell β] where
  hem : Bool
  frames : List (Bbframe β)
  mode : ∀ f ∈ frames, bbheaderMode f.header = if hem then 1 else 0
  upl : hem = false → ∀ f ∈ frames, be16 (f.header 2) (f.header 3) / 8 = 188
  field_size : ∀ f ∈ frames, f.field.length = f.dfl
  crcs : ((UserRun.start hem).feed ((dataFields frames).drop (leadOf frames))).isSome

/-- The first BBFRAME has a data field, and the first user packet does not start behind it. -/
def Bbframes.Starts (s : Bbframes β) : Prop :=
  ∀ f, s.frames.head? = some f → 0 < f.dfl ∧ f.syncd ≤ f.dfl

/-- The bytes one call is given. -/
structure Piece (β : Type) where
  packet : Packet β
  p : ℤ
  num : ℤ
  p_nonneg : 0 ≤ p
  num_nonneg : 0 ≤ num

def Piece.bytes (x : Piece β) : List β := x.packet.read x.p x.num

/-- A call; its caller goes on behind the piece. -/
def Piece.hand (b : BbframesStream β) (x : Piece β) : Option (BbframesStream β) :=
  match bbfOutputTsBytes x.packet b x.p x.num with
  | .ptr b' q => if q = x.p + x.num then some b' else none
  | _ => none

/-- A BBFRAME cut into pieces, with padding behind its data field. -/
structure CutFrame (β : Type) where
  frame : Bbframe β
  pieces : List (Piece β)
  pad : List β
  cut : pieces.flatMap Piece.bytes = frame.field ++ pad

/-- The sub-stream takes over the header of a BBFRAME. -/
def takeHeader (isi : ℤ) (b : BbframesStream β) (f : Bbframe β) : BbframesStream β :=
  { parseBbheader b (bbheaderMode f.header ≠ 0) isi f.header with synced := true }

/-- The sub-stream is handed a BBFRAME: the header, then the pieces. -/
def CutFrame.hand (isi : ℤ) (b : BbframesStream β) (x : CutFrame β) : Option (BbframesStream β) :=
  x.pieces.foldlM Piece.hand (takeHeader isi b x.frame)

def handAll (isi : ℤ) (b : BbframesStream β) (sent : List (CutFrame β)) : Option (BbframesStream β) :=
  sent.foldlM (CutFrame.hand isi) b

/-- No call begins a user packet of normal mode where no data byte is left. -/
def PieceSlots : BbframesStream β → List (Piece β) → Prop
  | _, [] => True
  | b, x :: xs => Slot (bbfStart b x.p x.num) ∧ ∀ b', x.hand b = some b' → PieceSlots b' xs

def Slots (isi : ℤ) : BbframesStream β → List (CutFrame β) → Prop
  | _, [] => True
  | b, x :: xs =>
    PieceSlots (takeHeader isi b x.frame) x.pieces ∧ ∀ b', x.hand isi b = some b' → Slots isi b' xs

instance (s : BbfPos β) : Decidable (Slot s) := inferInstanceAs (Decidable (_ → _ → _))

instance PieceSlots.decidable :
    (b : BbframesStream β) → (xs : List (Piece β)) → Decidable (PieceSlots b xs)
  | _, [] => .isTrue trivial
  | b, x :: xs =>
    have : ∀ b', Decidable (PieceSlots b' xs) := fun b' => PieceSlots.decidable b' xs
    inferInstanceAs (Decidable (Slot (bbfStart b x.p x.num) ∧ ∀ b' ∈ x.hand b, PieceSlots b' xs))

instance Slots.decidable (isi : ℤ) :
    (b : BbframesStream β) → (sent : List (CutFrame β)) → Decidable (Slots isi b sent)
  | _, [] => .isTrue trivial
  | b, x :: xs =>
    have : ∀ b', Decidable (Slots isi b' xs) := fun b' => Slots.decidable isi b' xs
    inferInstanceAs (Decidable (PieceSlots (takeHeader isi b x.frame) x.pieces ∧
      ∀ b' ∈ x.hand isi b, Slots isi b' xs))

/-- A sub-stream that has seen no BBFRAME since it was allocated or reset. -/
structure Unbegun (b : BbframesStream β) : Prop where
  outOfStep : b.ts.synced = false
  idx : b.ts.buffIdx = 0
  crc : b.bbfCrc8 = -1

theorem unbegun_init (isi : ℤ) : Unbegun (bbframesStreamInit isi : BbframesStream β) := ⟨rfl, rfl, rfl⟩

/-! ### What the data bytes say -/

namespace UserRun

theorem feed_inHem {r r' : UserRun β} {u : List β} {ups : List (List β)}
    (h : r.feed u = some (ups, r')) : r'.inHem = r.inHem := by
  induction u generalizing r ups with
  | nil =>
    rw [feed, Option.some.injEq, Prod.mk.injEq] at h
    rw [h.2]
  | cons c u ih =>
    have hpush : ∀ q, r.push c = some q → q.2.inHem = r.inHem := by
      intro q hq
      cases r with
      | hem pend =>
        simp only [push, Option.some.injEq] at hq
        subst hq
        split <;> rfl
      | between prev =>
        simp only [push] at hq
        split_ifs at hq
        obtain rfl := Option.some.inj hq
        rfl
      | within pend =>
        simp only [push, Option.some.injEq] at hq
        subst hq
        split <;> rfl
    rw [feed] at h
    obtain ⟨q, hq, hmap⟩ := Option.bind_eq_some_iff.mp h
    obtain ⟨⟨more, t⟩, ht, heq⟩ := Option.map_eq_some_iff.mp hmap
    rw [Prod.mk.injEq] at heq
    obtain ⟨-, rfl⟩ := heq
    exact (ih ht).trans (hpush q hq)

omit [Cell β] in
theorem inHem_start (hem : Bool) : (start hem : UserRun β).inHem = hem := by
  cases hem <;> rfl

end UserRun

namespace Intake

theorem feed_append (a : Intake β) (u v : List β) :
    a.feed (u ++ v) = (a.feed u).bind fun q => (q.2.feed v).map fun t => (q.1 ++ t.1, t.2) := by
  have hrun : ∀ (r : UserRun β) (w : List β),
      ((r.feed (w ++ v)).map fun q => (q.1, Intake.run q.2)) =
        ((r.feed w).map fun q => (q.1, Intake.run q.2)).bind fun q =>
          (q.2.feed v).map fun t => (q.1 ++ t.1, t.2) := by
    intro r w
    rw [UserRun.feed_append]
    cases r.feed w with
    | none => rfl
    | some q =>
      simp only [Option.bind_some, Option.map_some, feed]
      cases q.2.feed v with
      | none => rfl
      | some t => rfl
  cases a with
  | run r => exact hrun r u
  | skip hem todo =>
    rcases Nat.lt_or_ge u.length todo with hu | hu
    · have hdrop : (u ++ v).drop todo = v.drop (todo - u.length) := by
        rw [List.drop_append, List.drop_of_length_le (by omega), List.nil_append]
      simp only [feed, List.length_append, if_pos hu, hdrop, Option.bind_some, List.nil_append]
      rcases Nat.lt_or_ge (u.length + v.length) todo with hv | hv
      · rw [if_pos hv, if_pos (by omega), Nat.sub_sub]
        rfl
      · rw [if_neg (by omega), if_neg (by omega)]
        cases (UserRun.start hem).feed (v.drop (todo - u.length)) with
        | none => rfl
        | some q => rfl
    · have hdrop : (u ++ v).drop todo = u.drop todo ++ v := by
        rw [List.drop_append_of_le_length hu]
      have hlen : ¬ (u ++ v).length < todo := by
        rw [List.length_append]
        omega
      rw [feed, if_neg hlen, hdrop, hrun, feed, if_neg (by omega)]

theorem feed_nil_of_feed {a a' : Intake β} {u : List β} {ups : List (List β)}
    (h : a.feed u = some (ups, a')) : a'.feed [] = some ([], a') := by
  have hsplit := a.feed_append u []
  rw [List.append_nil, h, Option.bind_some] at hsplit
  obtain ⟨t, ht, heq⟩ := Option.map_eq_some_iff.mp hsplit.symm
  rw [Prod.mk.injEq] at heq
  rw [ht, Option.some.injEq]
  exact Prod.ext (List.self_eq_append_right.mp heq.1.symm) heq.2

end Intake

/-! ### One BBFRAME -/

theorem Piece.hand_eq_some {b b' : BbframesStream β} {x : Piece β} :
    x.hand b = some b' ↔ bbfOutputTsBytes x.packet b x.p x.num = .ptr b' (x.p + x.num) := by
  rw [hand]
  split
  · rename_i c q hout
    rw [hout, BbfOut.ptr.injEq]
    split_ifs with hq
    · simp [hq]
    · simp [hq]
  · rename_i hout
    refine ⟨nofun, fun h => absurd h (hout _ _)⟩

/-- The pieces of a data field and its padding are taken in one after the other. -/
theorem hand_pieces {xs : List (Piece β)} {b : BbframesStream β} {a a' : Intake β}
    {ups : List (List β)} (left : ℕ) (ha : b.Awaits a) (hskip : a.Within b.bbfPayloadBytesLeft)
    (hslots : PieceSlots b xs) (hbegun : xs ≠ [] ∨ a.feed [] = some ([], a))
    (hleft : b.bbfPayloadBytesLeft = left)
    (hfeed : a.feed ((xs.flatMap Piece.bytes).take left) = some (ups, a')) :
    ∃ b', xs.foldlM Piece.hand b = some b' ∧ b'.Awaits a' ∧
      b'.feeds = b.feeds ++ ups.map withSync := by
  induction xs generalizing b a ups left with
  | nil =>
    rw [List.flatMap_nil, List.take_nil, hbegun.resolve_left (by simp), Option.some.injEq,
      Prod.mk.injEq] at hfeed
    obtain ⟨rfl, rfl⟩ := hfeed
    exact ⟨b, rfl, ha, by simp⟩
  | cons x xs ih =>
    have hnum := x.num_nonneg
    have hbytes : x.bytes.take left = x.packet.read x.p (min left x.num) := by
      rw [Piece.bytes, Packet.take_read]
    have hlen : x.bytes.length = x.num.toNat := x.packet.length_read _ _
    rw [List.flatMap_cons, List.take_append, hbytes, Intake.feed_append] at hfeed
    obtain ⟨⟨ups₁, a₁⟩, hfirst, hmap⟩ := Option.bind_eq_some_iff.mp hfeed
    obtain ⟨⟨ups₂, a₂⟩, hrest, heq⟩ := Option.map_eq_some_iff.mp hmap
    rw [Prod.mk.injEq] at heq
    obtain ⟨rfl, rfl⟩ := heq
    obtain ⟨b₁, hout, ha₁, hskip₁, htook⟩ := bbfOutputTsBytes_intake x.packet ha x.p_nonneg hnum
      (by omega) hskip hslots.1 (d := min left x.num) (by rw [hleft]) hfirst
    have hhand : x.hand b = some b₁ := Piece.hand_eq_some.mpr hout
    have hleft₁ := htook.left
    obtain ⟨b₂, hfold, ha₂, hfeeds⟩ := ih (left - x.bytes.length) ha₁ hskip₁ (hslots.2 b₁ hhand)
      (Or.inr (Intake.feed_nil_of_feed hfirst)) (by omega) hrest
    refine ⟨b₂, ?_, ha₂, ?_⟩
    · rw [List.foldlM_cons, hhand]
      exact hfold
    · rw [hfeeds, htook.feeds, List.map_append, List.append_assoc]

/-- A header in the mode of the stream. -/
structure Bbframe.InMode (hem : Bool) (f : Bbframe β) : Prop where
  mode : bbheaderMode f.header = if hem then 1 else 0
  upl : hem = false → be16 (f.header 2) (f.header 3) / 8 = 188
  field_size : f.field.length = f.dfl

theorem Bbframes.inMode (s : Bbframes β) {f : Bbframe β} (hf : f ∈ s.frames) : f.InMode s.hem :=
  ⟨s.mode f hf, fun hem => s.upl hem f hf, s.field_size f hf⟩

section
variable {isi : ℤ} {b : BbframesStream β} {f : Bbframe β} {hem : Bool}

omit [Cell β] in
theorem takeHeader_fields (isi : ℤ) (b : BbframesStream β) (h : f.InMode hem) :
    (takeHeader isi b f).hemMode = hem ∧ (takeHeader isi b f).upl = 188 ∧
      (takeHeader isi b f).bbfPayloadBytesLeft = f.dfl := by
  have hmode : decide (bbheaderMode f.header ≠ 0) = hem := by
    rw [h.mode]
    cases hem <;> rfl
  refine ⟨hmode, ?_, f.be16_dfl⟩
  simp only [takeHeader, parseBbheader, hmode]
  cases hem with
  | true => rfl
  | false => exact h.upl rfl

theorem takeHeader_unbegun (h : f.InMode hem) (hb : Unbegun b) :
    (takeHeader isi b f).Awaits (.skip hem f.syncd) := by
  obtain ⟨hmode, hupl, _⟩ := takeHeader_fields isi b h
  refine ⟨hmode, hupl, hb.outOfStep, Int.le_of_eq hb.idx.symm, ?_, hb.crc⟩
  have hidx : (takeHeader isi b f).ts.buffIdx = 0 := hb.idx
  have hsyncd : (takeHeader isi b f).syncd = f.syncd := f.be16_syncd
  rw [hidx, hsyncd, Int.zero_add]

theorem takeHeader_takes (h : f.InMode hem) {r : UserRun β} (hr : r.inHem = hem)
    (hb : b.Takes r) : (takeHeader isi b f).Takes r := by
  obtain ⟨hmode, hupl, _⟩ := takeHeader_fields isi b h
  cases r with
  | hem pend => exact ⟨hmode.trans hr.symm, hupl, hb.2.2⟩
  | between prev => exact ⟨⟨hmode.trans hr.symm, hupl, hb.1.inStep⟩, hb.2⟩
  | within pend => exact ⟨⟨hmode.trans hr.symm, hupl, hb.1.inStep⟩, hb.2⟩

/-- A BBFRAME is taken in as `feed` says of its data field, whatever padding is behind it. -/
theorem hand_frame {x : CutFrame β} (h : x.frame.InMode hem) (a a' : Intake β)
    {ups : List (List β)} (ha : (takeHeader isi b x.frame).Awaits a)
    (hskip : a.Within x.frame.dfl) (hslots : PieceSlots (takeHeader isi b x.frame) x.pieces)
    (hbegun : x.pieces ≠ [] ∨ a.feed [] = some ([], a))
    (hfeed : a.feed x.frame.field = some (ups, a')) :
    ∃ b', x.hand isi b = some b' ∧ b'.Awaits a' ∧ b'.feeds = b.feeds ++ ups.map withSync := by
  have hdue := (takeHeader_fields isi b h).2.2
  exact hand_pieces x.frame.dfl ha (by rw [hdue]; exact hskip) hslots hbegun hdue
    (by rw [x.cut, ← h.field_size, List.take_left]; exact hfeed)

/-- Behind the first user packet the data fields are taken in as one. -/
theorem hand_frames {sent : List (CutFrame β)} (h : ∀ x ∈ sent, x.frame.InMode hem)
    {r r' : UserRun β} {ups : List (List β)} (hb : b.Takes r) (hr : r.inHem = hem)
    (hslots : Slots isi b sent)
    (hfeed : r.feed (dataFields (sent.map CutFrame.frame)) = some (ups, r')) :
    ∃ b', handAll isi b sent = some b' ∧ b'.feeds = b.feeds ++ ups.map withSync := by
  induction sent generalizing b r ups with
  | nil =>
    rw [List.map_nil, dataFields, List.flatMap_nil, UserRun.feed_nil, Option.some.injEq,
      Prod.mk.injEq] at hfeed
    obtain ⟨rfl, rfl⟩ := hfeed
    exact ⟨b, rfl, by simp⟩
  | cons x sent ih =>
    have hx := h x List.mem_cons_self
    rw [List.map_cons, dataFields, List.flatMap_cons, UserRun.feed_append] at hfeed
    obtain ⟨⟨ups₁, r₁⟩, hfirst, hmap⟩ := Option.bind_eq_some_iff.mp hfeed
    obtain ⟨⟨ups₂, r₂⟩, hrest, heq⟩ := Option.map_eq_some_iff.mp hmap
    rw [Prod.mk.injEq] at heq
    obtain ⟨rfl, rfl⟩ := heq
    obtain ⟨b₁, hhand, hb₁, hfeeds₁⟩ := hand_frame hx (.run r) (.run r₁)
      (takeHeader_takes hx hr hb) trivial hslots.1 (Or.inr rfl)
      (by rw [Intake.feed, hfirst]; rfl)
    obtain ⟨b₂, hall, hfeeds₂⟩ := ih (fun y hy => h y (List.mem_cons_of_mem _ hy)) hb₁
      ((UserRun.feed_inHem hfirst).trans hr) (hslots.2 b₁ hhand) hrest
    refine ⟨b₂, ?_, ?_⟩
    · rw [handAll, List.foldlM_cons, hhand]
      exact hall
    · rw [hfeeds₂, hfeeds₁, List.map_append, List.append_assoc]

end

/-! ### Every way to send the BBFRAMEs -/

/-- The user packets of the data fields. -/
def Bbframes.userPackets (s : Bbframes β) : List (List β) :=
  (((UserRun.start s.hem).feed ((dataFields s.frames).drop (leadOf s.frames))).map Prod.fst).getD []

/-- A sub-stream that has seen no BBFRAME delivers the user packets of the data fields. -/
theorem handAll_feeds {s : Bbframes β} (hstarts : s.Starts) (isi : ℤ) {b : BbframesStream β}
    {sent : List (CutFrame β)} (hb : Unbegun b) (hsent : sent.map CutFrame.frame = s.frames)
    (hslots : Slots isi b sent) :
    ∃ b', handAll isi b sent = some b' ∧ b'.feeds = b.feeds ++ s.userPackets.map withSync := by
  obtain ⟨⟨ups, r⟩, hcarried⟩ := Option.isSome_iff_exists.mp s.crcs
  have hups : s.userPackets = ups := by rw [Bbframes.userPackets, hcarried]; rfl
  have hmode : ∀ x ∈ sent, x.frame.InMode s.hem := fun x hx =>
    s.inMode (by rw [← hsent]; exact List.mem_map_of_mem hx)
  rw [hups]
  cases sent with
  | nil =>
    rw [← hsent] at hcarried
    obtain rfl : ups = [] := by
      have hnil : (UserRun.start s.hem : UserRun β).feed [] = some (ups, r) := hcarried
      rw [UserRun.feed_nil, Option.some.injEq, Prod.mk.injEq] at hnil
      exact hnil.1.symm
    exact ⟨b, rfl, by simp⟩
  | cons x sent =>
    have hx := hmode x List.mem_cons_self
    have hhead : s.frames.head? = some x.frame := by rw [← hsent]; rfl
    obtain ⟨hpos, hle⟩ := hstarts x.frame hhead
    have hlead : leadOf s.frames = x.frame.syncd := by rw [leadOf, hhead]; rfl
    have hdrop : (dataFields s.frames).drop (leadOf s.frames) =
        x.frame.field.drop x.frame.syncd ++ dataFields (sent.map CutFrame.frame) := by
      rw [hlead, ← hsent, List.map_cons, dataFields, List.flatMap_cons,
        List.drop_append_of_le_length (by rw [hx.field_size]; exact hle)]
      rfl
    rw [hdrop, UserRun.feed_append] at hcarried
    obtain ⟨⟨ups₁, r₁⟩, hfirst, hmap⟩ := Option.bind_eq_some_iff.mp hcarried
    obtain ⟨⟨ups₂, r₂⟩, hrest, heq⟩ := Option.map_eq_some_iff.mp hmap
    rw [Prod.mk.injEq] at heq
    obtain ⟨rfl, rfl⟩ := heq
    have hpieces : x.pieces ≠ [] := by
      intro hnil
      have hcut := congrArg List.length x.cut
      rw [hnil, List.length_append, hx.field_size] at hcut
      simp only [List.flatMap_nil, List.length_nil] at hcut
      omega
    obtain ⟨b₁, hhand, hb₁, hfeeds₁⟩ := hand_frame hx _
      (.run r₁) (takeHeader_unbegun hx hb) (Int.ofNat_le.mpr hle) hslots.1 (Or.inl hpieces)
      (by rw [Intake.feed, if_neg (by rw [hx.field_size]; omega), hfirst]; rfl)
    obtain ⟨b₂, hall, hfeeds₂⟩ := hand_frames 
      (fun y hy => hmode y (List.mem_cons_of_mem _ hy)) hb₁
      ((UserRun.feed_inHem hfirst).trans (UserRun.inHem_start _)) (hslots.2 b₁ hhand) hrest
    refine ⟨b₂, ?_, ?_⟩
    · rw [handAll, List.foldlM_cons, hhand]
      exact hall
    · rw [hfeeds₂, hfeeds₁, List.map_append, List.append_assoc]

/-! ### The callers -/

/-- A call leaves alone whether the sub-stream has seen a BBFRAME. -/
theorem bbfBody_synced (packet : Packet β) (s : BbfPos β) :
    match bbfBody packet s with
    | .again t => t.bbf.synced = s.bbf.synced
    | .exit (.ptr b _) => b.synced = s.bbf.synced
    | .exit _ => True := by
  have hdeliver : ∀ b : BbframesStream β, (deliverIfComplete b).synced = b.synced := by
    intro b
    rw [deliverIfComplete]
    split <;> rfl
  rw [bbfBody]
  split_ifs with hrun
  · cases hopen : openUserPacket packet s with
    | error b => trivial
    | ok u =>
      have hu : u.bbf.synced = s.bbf.synced := by
        simp only [openUserPacket] at hopen
        split_ifs at hopen <;> cases hopen <;> rfl
      simp only
      split_ifs with hn
      · exact hu
      · cases hstore : storeUserBytes packet u.bbf u.p
            (min u.bbf.bbfPayloadBytesLeft (min (u.bbf.upl - u.bbf.ts.buffIdx) u.num)) with
        | error r =>
          rcases storeUserBytes_error hstore with rfl | rfl | ⟨rfl, _⟩
          · trivial
          · trivial
          · exact hu
        | ok b =>
          have hb : b.synced = u.bbf.synced := by
            simp only [storeUserBytes] at hstore
            split_ifs at hstore
            · split at hstore <;> cases hstore
              rfl
            · split at hstore <;> cases hstore
              rfl
            · cases hstore
              rfl
          simp only [closeUserPacket]
          split_ifs
          · exact hb.trans hu
          · exact (hdeliver _).trans (hb.trans hu)
          · exact (hdeliver _).trans (hb.trans hu)
  · rfl

theorem bbfLoop_synced {packet : Packet β} {s : BbfPos β} {b : BbframesStream β} {q : ℤ}
    (h : bbfLoop packet s = .ptr b q) : b.synced = s.bbf.synced := by
  rw [bbfLoop] at h
  cases hrun : run (bbfBody packet) (bbfPasses s) s with
  | none =>
    rw [hrun] at h
    cases h
  | some r =>
    rw [hrun, Option.getD_some] at h
    subst h
    have hends : Ends (bbfBody packet) s (.ptr b q) := ⟨_, hrun⟩
    obtain ⟨t, ht, hexit⟩ := hends.visits
    have hlast := bbfBody_synced packet t
    rw [hexit] at hlast
    refine hlast.trans ?_
    clear hexit hlast
    induction ht with
    | start => rfl
    | @pass u v _ hpass ih =>
      have hnext := bbfBody_synced packet u
      rw [hpass] at hnext
      exact hnext.trans ih

theorem Piece.hand_synced {b b' : BbframesStream β} {x : Piece β} (h : x.hand b = some b') :
    b'.synced = b.synced := by
  have hout := Piece.hand_eq_some.mp h
  simp only [bbfOutputTsBytes] at hout
  split_ifs at hout
  · exact bbfLoop_synced hout
  · rw [BbfOut.ptr.injEq] at hout
    rw [← hout.1]
  · exact (bbfLoop_synced hout).trans rfl

/-- A BBFRAME of either mode, cut into STID packets. -/
structure StidFrame (β : Type) [Cell β] (pid : ℤ) where
  first : StidPacket β pid
  rest : List (StidPacket β pid)
  field : List β
  pad : List β
  opens : first.opens = true
  continues : ∀ pk ∈ rest, pk.isStart = false
  cut : first.content ++ (rest.map StidPacket.body).flatten = field ++ pad

namespace StidFrame

variable {pid : ℤ}

def packets (f : StidFrame β pid) : List (StidPacket β pid) := f.first :: f.rest

/-- What is behind the headers of a packet. -/
def piece (pk : StidPacket β pid) : Piece β where
  packet := pk.toPacket
  p := if pk.opens then 19 else 9
  num := 188 - if pk.opens then 19 else 9
  p_nonneg := by split <;> decide
  num_nonneg := by split <;> decide

theorem bytes_piece (pk : StidPacket β pid) : (piece pk).bytes = pk.content := pk.read_toPacket

theorem opens_of_continues {pk : StidPacket β pid} (h : pk.isStart = false) : pk.opens = false := by
  rw [StidPacket.opens, h, Bool.false_and]

/-- The BBFRAME, cut as the packets cut it. -/
def cutFrame (f : StidFrame β pid) : CutFrame β where
  frame := ⟨fun i => if i < 10 then f.first.header i else 0, f.field⟩
  pieces := f.packets.map piece
  pad := f.pad
  cut := by
    have hrest : (f.rest.map piece).flatMap Piece.bytes = (f.rest.map StidPacket.body).flatten := by
      rw [List.flatMap_map, List.flatMap_def]
      congr 1
      refine List.map_congr_left fun pk hpk => ?_
      rw [bytes_piece, StidPacket.content, opens_of_continues (f.continues pk hpk)]
      rfl
    rw [packets, List.map_cons, List.flatMap_cons, bytes_piece, hrest, f.cut]

/-- A packet handed to a sub-stream that is being received. -/
theorem handOver_piece {v : StidView β} {pk : StidPacket β pid} {k : ℕ} {b b' : BbframesStream β}
    (hcur : v.cur = some k) (hk : v.streams k = some b) (hsync : b.synced = true ∨ pk.opens = true)
    (h : (piece pk).hand { b with synced := true } = some b') :
    handOver v pk = .done (v.put k b') := by
  have hout := Piece.hand_eq_some.mp h
  rw [handOver]
  simp only [hcur, hk]
  rw [if_neg (by rcases hsync with h | h <;> simp [h])]
  simp only [piece] at hout
  rw [hout]

/-- The packets behind the first are taken in one after the other. -/
theorem continue_hand {pks : List (StidPacket β pid)} (hpks : ∀ pk ∈ pks, pk.isStart = false)
    {v : StidView β} {k : ℕ} {b b' : BbframesStream β} (hcur : v.cur = some k)
    (hk : v.streams k = some b) (hsync : b.synced = true)
    (h : (pks.map piece).foldlM Piece.hand b = some b') :
    Outcome.run stidViewStep v pks = .done (v.put k b') := by
  induction pks generalizing v b with
  | nil =>
    obtain rfl := Option.some.inj h
    rw [StidView.put_eq_self hk]
    rfl
  | cons pk pks ih =>
    rw [List.map_cons, List.foldlM_cons] at h
    obtain ⟨b₁, hfirst, hrest⟩ := Option.bind_eq_some_iff.mp h
    have hb : { b with synced := true } = b := by rw [← hsync]
    have hopens := opens_of_continues (hpks pk List.mem_cons_self)
    have hstep : stidViewStep v pk = .done (v.put k b₁) := by
      rw [stidViewStep, hopens, if_neg Bool.false_ne_true]
      exact handOver_piece hcur hk (Or.inl hsync) (by rw [hb]; exact hfirst)
    rw [Outcome.run, hstep]
    simp only
    rw [ih (fun q hq => hpks q (List.mem_cons_of_mem _ hq)) (v := v.put k b₁) hcur
      StidView.put_streams_self ((Piece.hand_synced hfirst).trans hsync) hrest, StidView.put_put]

/-- The header of the first packet. -/
theorem takeHeader_cutFrame (f : StidFrame β pid) (b : BbframesStream β) :
    takeHeader f.first.key b f.cutFrame.frame =
      { parseBbheader b f.first.hem f.first.key f.first.header with synced := true } := by
  have hmode : bbheaderMode f.cutFrame.frame.header = bbheaderMode f.first.header := by
    rw [bbheaderMode, bbheaderMode]
    rfl
  rw [takeHeader, hmode]
  rfl

/-- The packets of a BBFRAME hand it to the sub-stream of its id. -/
theorem run_hand {f : StidFrame β pid} {v : StidView β} {b b' : BbframesStream β}
    (hk : v.streams f.first.key = some b) (h : f.cutFrame.hand f.first.key b = some b') :
    Outcome.run stidViewStep v f.packets =
      .done ({ v with cur := some f.first.key }.put f.first.key b') := by
  rw [CutFrame.hand, takeHeader_cutFrame] at h
  have hpieces : f.cutFrame.pieces = piece f.first :: f.rest.map piece := rfl
  rw [hpieces, List.foldlM_cons] at h
  obtain ⟨b₁, hfirst, hrest⟩ := Option.bind_eq_some_iff.mp h
  have hframe : openFrame v f.first =
      { v with cur := some f.first.key }.put f.first.key
        (parseBbheader b f.first.hem f.first.key f.first.header) := by
    rw [openFrame]
    simp only [hk]
  have hstep : stidViewStep v f.first =
      .done ({ v with cur := some f.first.key }.put f.first.key b₁) := by
    rw [stidViewStep, if_pos f.opens, hframe,
      handOver_piece rfl StidView.put_streams_self (Or.inr f.opens) hfirst, StidView.put_put]
  rw [packets, Outcome.run, hstep]
  simp only
  rw [continue_hand f.continues rfl StidView.put_streams_self
    ((Piece.hand_synced hfirst).trans rfl) hrest, StidView.put_put]

/-- The BBFRAMEs of one stream. -/
theorem runs_hand {k : ℕ} {frames : List (StidFrame β pid)} (hkey : ∀ f ∈ frames, f.first.key = k)
    {v : StidView β} {b b' : BbframesStream β} (hk : v.streams k = some b)
    (h : handAll k b (frames.map cutFrame) = some b') :
    ∃ v', Outcome.run stidViewStep v (frames.flatMap packets) = .done v' ∧
      v'.streams k = some b' := by
  induction frames generalizing v b with
  | nil =>
    obtain rfl := Option.some.inj h
    exact ⟨v, rfl, hk⟩
  | cons f frames ih =>
    rw [List.map_cons, handAll, List.foldlM_cons] at h
    obtain ⟨b₁, hfirst, hrest⟩ := Option.bind_eq_some_iff.mp h
    obtain rfl := hkey f List.mem_cons_self
    obtain ⟨v', hrun, hv'⟩ := ih (fun g hg => hkey g (List.mem_cons_of_mem _ hg))
      StidView.put_streams_self hrest
    refine ⟨v', ?_, hv'⟩
    rw [List.flatMap_cons, Outcome.run_append _ _ _ _ _ (run_hand hk hfirst), hrun]

end StidFrame

/-- STID packets with the BBFRAMEs of one stream, from the first packet on. -/
theorem stidRun_hand {pid : ℤ} {subs : ℕ → Bool} {k : ℕ} {frames : List (StidFrame β pid)}
    (hsub : subs k = true) (hkey : ∀ f ∈ frames, f.first.key = k) {b : BbframesStream β}
    (h : handAll k (bbframesStreamInit k) (frames.map StidFrame.cutFrame) = some b) :
    ∃ stid, stidRun (stidStreamInit pid subs)
        ((frames.flatMap StidFrame.packets).map StidPacket.toPacket) = .done stid ∧
      stid.emb.bbfStreams k = some b := by
  obtain ⟨v, hrun, hv⟩ := StidFrame.runs_hand hkey (v := StidView.init subs)
    (by simp [StidView.init, hsub]) h
  have hrel := stidRun_view (stidStreamInit_view subs) (frames.flatMap StidFrame.packets)
  rw [hrun] at hrel
  generalize stidRun (stidStreamInit pid subs)
    ((frames.flatMap StidFrame.packets).map StidPacket.toPacket) = out at hrel
  cases hrel with
  | done hviews => exact ⟨_, rfl, by rw [hviews.streams, hv]⟩

/-- However the BBFRAMEs of a stream are cut into pieces, and whatever padding they have, a sub-stream
    that has seen no BBFRAME delivers the same user packets, in STID packets from the first one on as
    in any other: if a data byte is left wherever a call begins a user packet of normal mode, and the
    first data field reaches up to the first user packet. -/
theorem padding_neutral (s : Bbframes β) (hstarts : s.Starts) :
    ∃ packets : List (List β),
      (∀ (isi : ℤ) (b : BbframesStream β) (sent : List (CutFrame β)), Unbegun b →
        sent.map CutFrame.frame = s.frames → Slots isi b sent →
        ∃ b', handAll isi b sent = some b' ∧ b'.feeds = b.feeds ++ packets) ∧
      ∀ (pid : ℤ) (subs : ℕ → Bool) (k : ℕ) (frames : List (StidFrame β pid)), subs k = true →
        (∀ f ∈ frames, f.first.key = k) → frames.map (fun f => f.cutFrame.frame) = s.frames →
        Slots k (bbframesStreamInit k) (frames.map StidFrame.cutFrame) →
        ∃ stid b, stidRun (stidStreamInit pid subs)
            ((frames.flatMap StidFrame.packets).map StidPacket.toPacket) = .done stid ∧
          stid.emb.bbfStreams k = some b ∧ b.feeds = packets := by
  refine ⟨s.userPackets.map withSync, ?_, ?_⟩
  · intro isi b sent hb hsent hslots
    exact handAll_feeds hstarts isi hb hsent hslots
  · intro pid subs k frames hsub hkey hframes hslots
    obtain ⟨b, hall, hfeeds⟩ := handAll_feeds hstarts k (unbegun_init k)
      (by rw [List.map_map]; exact hframes) hslots
    obtain ⟨stid, hrun, hk⟩ := stidRun_hand hsub hkey hall
    exact ⟨stid, b, hrun, hk, hfeeds⟩

namespace StidFrame

/-- The first packet of a BBFRAME of ISI 3 in normal mode whose data field has 188 bytes. -/
def sampleFirst (sync : UInt8) : List UInt8 :=
  [0x00, 0x03, 0x05, 0xE0, 0x05, 0xE0, 0x47, 0x00, 0x00, 0xAA, sync] ++ List.replicate 168 0xAA

/-- The further packets: the end of the data field, and padding of a value of its own. -/
def sampleRest (pad : UInt8) : StidPacket UInt8 270 :=
  .sample 1 (List.replicate 19 0xAA ++ List.replicate 160 pad)
    (by rw [List.length_append, List.length_replicate, List.length_replicate])

/-- The first user packet, with padding in the last packet of its data field only. -/
def tight : StidFrame UInt8 270 where
  first := .sample 0xB8 (sampleFirst 0x00) (by decide +kernel)
  rest := [sampleRest 0xFF]
  field := 0x00 :: List.replicate 187 0xAA
  pad := List.replicate 160 0xFF
  opens := by decide
  continues := by decide
  cut := by decide +kernel

/-- The same with other padding. -/
def other : StidFrame UInt8 270 where
  first := .sample 0xB8 (sampleFirst 0x00) (by decide +kernel)
  rest := [sampleRest 0x55]
  field := 0x00 :: List.replicate 187 0xAA
  pad := List.replicate 160 0x55
  opens := by decide
  continues := by decide
  cut := by decide +kernel

/-- The same with a packet of padding behind it, which begins with the CRC-8 of the user packet. -/
def wide : StidFrame UInt8 270 where
  first := .sample 0xB8 (sampleFirst 0x00) (by decide +kernel)
  rest := [sampleRest 0xFF, .sample 2 (List.replicate 179 0x1D) (by decide +kernel)]
  field := 0x00 :: List.replicate 187 0xAA
  pad := List.replicate 160 0xFF ++ List.replicate 179 0x1D
  opens := by decide
  continues := by decide
  cut := by decide +kernel

/-- The second user packet. -/
def second : StidFrame UInt8 270 where
  first := .sample 0xB8 (sampleFirst 0x1D) (by decide +kernel)
  rest := [sampleRest 0xFF]
  field := 0x1D :: List.replicate 187 0xAA
  pad := List.replicate 160 0xFF
  opens := by decide
  continues := by decide
  cut := by decide +kernel

end StidFrame

/-- Two user packets in two BBFRAMEs of normal mode. -/
def Bbframes.pair : Bbframes UInt8 where
  hem := false
  frames := [StidFrame.tight.cutFrame.frame, StidFrame.second.cutFrame.frame]
  mode := by decide
  upl := fun _ => by decide
  field_size := by decide +kernel
  crcs := by decide +kernel

theorem Bbframes.pair_starts : Bbframes.pair.Starts := by
  intro f hf
  obtain rfl := Option.some.inj hf
  decide

theorem padding_neutral_pair :
    ∃ packets : List (List UInt8),
      (∃ stid b, stidRun (stidStreamInit 270 fun k => k = 3)
          (([StidFrame.tight, StidFrame.second].flatMap StidFrame.packets).map
            StidPacket.toPacket) = .done stid ∧
        stid.emb.bbfStreams 3 = some b ∧ b.feeds = packets) ∧
      ∃ stid b, stidRun (stidStreamInit 270 fun k => k = 3)
          (([StidFrame.other, StidFrame.second].flatMap StidFrame.packets).map
            StidPacket.toPacket) = .done stid ∧
        stid.emb.bbfStreams 3 = some b ∧ b.feeds = packets := by
  obtain ⟨packets, -, hstid⟩ := padding_neutral Bbframes.pair Bbframes.pair_starts
  exact ⟨packets,
    hstid 270 (fun k => k = 3) 3 [StidFrame.tight, StidFrame.second] (by decide)
      (by decide +kernel) rfl (by decide +kernel),
    hstid 270 (fun k => k = 3) 3 [StidFrame.other, StidFrame.second] (by decide)
      (by decide +kernel) rfl (by decide +kernel)⟩

/-- The user packets an id gets from STID packets. -/
def stidFeeds (k : ℕ) (frames : List (StidFrame UInt8 270)) : Option (List (List UInt8)) :=
  match stidRun (stidStreamInit 270 fun i => i = k)
      ((frames.flatMap StidFrame.packets).map StidPacket.toPacket) with
  | .done stid => (stid.emb.bbfStreams k).map BbframesStream.feeds
  | _ => none

/-- What the packets do to the sub-streams gives the user packets. -/
theorem stidFeeds_eq (k : ℕ) (frames : List (StidFrame UInt8 270)) :
    stidFeeds k frames =
      match Outcome.run stidViewStep (StidView.init fun i => i = k)
        (frames.flatMap StidFrame.packets) with
      | .done v => (v.streams k).map BbframesStream.feeds
      | _ => none := by
  have hrel := stidRun_view
    (show Views 270 (stidStreamInit 270 fun i => decide (i = k))
        (StidView.init fun i => decide (i = k) : StidView UInt8) from stidStreamInit_view _)
    (frames.flatMap StidFrame.packets)
  rw [stidFeeds]
  generalize stidRun (stidStreamInit 270 fun i => decide (i = k))
    ((frames.flatMap StidFrame.packets).map StidPacket.toPacket) = out at hrel ⊢
  generalize Outcome.run stidViewStep (StidView.init fun i => decide (i = k))
    (frames.flatMap StidFrame.packets) = view at hrel ⊢
  cases hrel with
  | done hviews => simp only [hviews.streams]
  | hang => rfl
  | wild => rfl

theorem stidFeeds_tight :
    (stidFeeds 3 [StidFrame.tight, StidFrame.second]).map List.length = some 2 := by
  rw [stidFeeds_eq]
  decide +kernel

theorem stidFeeds_wide :
    (stidFeeds 3 [StidFrame.wide, StidFrame.second]).map List.length = some 1 := by
  rw [stidFeeds_eq]
  decide +kernel

theorem padding_not_neutral :
    ¬ ∀ (s : Bbframes UInt8) (frames frames' : List (StidFrame UInt8 270)),
      frames.map (fun f => f.cutFrame.frame) = s.frames →
      frames'.map (fun f => f.cutFrame.frame) = s.frames →
      stidFeeds 3 frames = stidFeeds 3 frames' := by
  intro hclaim
  have hsame := hclaim Bbframes.pair [StidFrame.tight, StidFrame.second]
    [StidFrame.wide, StidFrame.second] rfl rfl
  have htight := stidFeeds_tight
  rw [hsame, stidFeeds_wide] at htight
  exact absurd htight (by decide)

end Demux

import Mathlib.Data.List.Forall2
import NeumoDrivers.Demux.StidFrames
import NeumoDrivers.Demux.UserBytes

/-! Isolation of the streams carried in STID packets.

    A BBFRAME is `Sent` for one id. It arrives intact, or its header is damaged or lost; then its
    packets are stray, and the decoder hands them to the sub-stream it used last. That is harmless
    only while this sub-stream has read its data field (`StepOk`). In runs where every step is so,
    a sub-stream gets nothing but data fields of its own id, and what happens to the BBFRAMEs of
    one id does not show in what the others get (`stid_isolated`). -/

namespace Demux

variable {β : Type} [Cell β] {pid : ℤ}

/-- A BBFRAME as it arrives: headed by its first packet, or without an intact header. -/
inductive Sent (β : Type) [Cell β] (pid : ℤ) where
  | intact (first : StidPacket β pid) (rest : List (StidPacket β pid)) (opens : first.opens = true)
      (continues : ∀ pk ∈ rest, pk.isStart = false)
  | damaged (isi : ℕ) (packets : List (StidPacket β pid))
      (closed : ∀ pk ∈ packets, pk.opens = false)

namespace Sent

/-- The id it was sent for. -/
def isi : Sent β pid → ℕ
  | .intact first _ _ _ => first.key
  | .damaged isi _ _ => isi

def stray : Sent β pid → Bool
  | .intact .. => false
  | .damaged .. => true

def packets : Sent β pid → List (StidPacket β pid)
  | .intact first rest _ _ => first :: rest
  | .damaged _ packets _ => packets

/-- Its packets, each with the mark whether it is stray. -/
def items (f : Sent β pid) : List (Bool × StidPacket β pid) := f.packets.map fun pk => (f.stray, pk)

/-- The cells of its data field belong to the id it was sent for. -/
def Owned (own : ℕ → β → Prop) : Sent β pid → Prop
  | .intact first rest _ _ =>
    ∀ c ∈ (first.content ++ (rest.map StidPacket.body).flatten).take first.dfl, own first.key c
  | .damaged .. => True

end Sent

/-! ### When a step is harmless -/

/-- The sub-stream with the header of the packet taken over. -/
def StidPacket.headed (pk : StidPacket β pid) (bbf : BbframesStream β) : BbframesStream β :=
  { parseBbheader bbf pk.hem pk.key pk.header with synced := true }

/-- The header gives user packets a length that the buffer and the feeds can take, and does not
    change the format under a user packet already begun. -/
structure HeaderOk (bbf : BbframesStream β) (pk : StidPacket β pid) : Prop where
  fits : Fits (pk.headed bbf)
  room : bbf.ts.synced = true → bbf.ts.buffIdx < (pk.headed bbf).upl
  keeps : bbf.ts.synced = true → bbf.ts.buffIdx = 1 → pk.hem = bbf.hemMode

/-- The stream is in step, or has not yet skipped past its first user packet. -/
def Awaits (bbf : BbframesStream β) : Prop :=
  bbf.ts.synced = true ∨ bbf.ts.buffIdx ≤ bbf.syncd

/-- The bytes behind the headers meet no error. -/
def CallOk (pk : StidPacket β pid) (bbf : BbframesStream β) : Prop :=
  Awaits bbf →
    Proper pk.toPacket bbf (if pk.opens then 19 else 9) (188 - if pk.opens then 19 else 9)

/-- Given the sub-streams and the one pointed to: the header and the bytes of a packet meet no
    error, and a stray packet finds the sub-stream pointed to idle. -/
def StepOk (streams : ℕ → Option (BbframesStream β)) (pointer : Option ℕ) (stray : Bool)
    (pk : StidPacket β pid) : Prop :=
  if pk.opens then
    ∀ bbf, streams pk.key = some bbf → HeaderOk bbf pk ∧ CallOk pk (pk.headed bbf)
  else
    ∀ k bbf, pointer = some k → streams k = some bbf → bbf.synced = true →
      if stray then Idle bbf else CallOk pk bbf

/-- Every step of the run on the packets of these BBFRAMEs is harmless. -/
def Harmless (stid : StidStream β) (sent : List (Sent β pid)) : Prop :=
  Outcome.Meets (fun stid (i : Bool × StidPacket β pid) => stidStreamAddPacket stid i.2.toPacket)
    (fun stid i => StepOk stid.emb.bbfStreams stid.emb.currentBbf i.1 i.2) stid
    (sent.flatMap Sent.items)

/-- The same of the view. -/
def HarmlessView (v : StidView β) (items : List (Bool × StidPacket β pid)) : Prop :=
  Outcome.Meets (fun v (i : Bool × StidPacket β pid) => stidViewStep v i.2)
    (fun v i => StepOk v.streams v.cur i.1 i.2) v items

theorem Harmless.view {stid : StidStream β} {v : StidView β} {sent : List (Sent β pid)}
    (hv : Views pid stid v) (h : Harmless stid sent) :
    HarmlessView v (sent.flatMap Sent.items) := by
  rw [Harmless, ← List.map_id' (sent.flatMap Sent.items)] at h
  refine Outcome.Meets.rel (r := Views pid) ?_ ?_ _ stid v hv h
  · intro s t i hst
    exact stidStreamAddPacket_view hst i.2
  · rintro s t ⟨stray, pk⟩ hst hok
    simp only [StepOk, hst.streams, hst.pointer] at hok ⊢
    split
    · rename_i hopens
      rwa [if_pos hopens] at hok
    · rename_i hopens
      rw [if_neg hopens] at hok
      intro k bbf hcur hk hsync
      exact hok k bbf (by rw [hcur, Option.filter_some, hk]; rfl) hk hsync

theorem StepOk.head {streams : ℕ → Option (BbframesStream β)} {pointer : Option ℕ} {stray : Bool}
    {pk : StidPacket β pid} (h : pk.opens = true)
    (hok : ∀ bbf, streams pk.key = some bbf → HeaderOk bbf pk ∧ CallOk pk (pk.headed bbf)) :
    StepOk streams pointer stray pk := by
  rw [StepOk, if_pos h]
  exact hok

theorem StepOk.stray {streams : ℕ → Option (BbframesStream β)} {pointer : Option ℕ}
    {pk : StidPacket β pid} (h : pk.opens = false)
    (hok : ∀ k, pointer = some k → ∀ bbf, streams k = some bbf → Idle bbf) :
    StepOk streams pointer true pk := by
  rw [StepOk, if_neg (by rw [h]; exact Bool.false_ne_true)]
  intro k bbf hk hbbf _
  exact hok k hk bbf hbbf

theorem HeaderOk.of_hem {bbf : BbframesStream β} {pk : StidPacket β pid} (hhem : pk.hem = true)
    (hts : bbf.ts.synced = false) : HeaderOk bbf pk := by
  have hupl : (pk.headed bbf).upl = 188 := if_pos hhem
  have hno : ¬ bbf.ts.synced = true := by rw [hts]; exact Bool.false_ne_true
  refine ⟨?_, fun h => absurd h hno, fun h => absurd h hno⟩
  rw [Fits, hupl]
  decide

/-- In high-efficiency mode its bytes are harmless if a user packet starts in the data field. -/
theorem CallOk.of_hem {bbf : BbframesStream β} {pk : StidPacket β pid} (hhem : pk.hem = true)
    (hidx : 0 ≤ bbf.ts.buffIdx) (hstarts : pk.syncd ≤ pk.dfl) : CallOk pk (pk.headed bbf) := by
  refine fun _ => proper_of_hem _ _ _ _ hhem fun _ _ => ?_
  have hsyncd : (pk.headed bbf).syncd = pk.syncd := (Int.natCast_ediv _ 8).symm
  have hleft : (pk.headed bbf).bbfPayloadBytesLeft = pk.dfl := (Int.natCast_ediv _ 8).symm
  have hts : (pk.headed bbf).ts = bbf.ts := rfl
  rw [hsyncd, hleft, hts]
  omega

/-! ### One packet -/

/-- Every sub-stream got and holds only what is its own. -/
def SoundView (own : ℕ → β → Prop) (v : StidView β) : Prop :=
  ∀ k bbf, v.streams k = some bbf → Sound (own k) bbf

theorem SoundView.put {own : ℕ → β → Prop} {v : StidView β} (hv : SoundView own v) {k : ℕ}
    {bbf : BbframesStream β} (h : Sound (own k) bbf) (c : Option ℕ) :
    SoundView own ({ v with cur := c }.put k bbf) := by
  intro j b hb
  by_cases hj : j = k
  · subst hj
    rw [StidView.put_streams_self] at hb
    cases hb
    exact h
  · rw [StidView.put_streams_ne hj] at hb
    exact hv j b hb

/-- Where a packet's bytes start, and that they are its content. -/
theorem StidPacket.read_take (pk : StidPacket β pid) (left : ℕ) :
    pk.toPacket.read (if pk.opens then 19 else 9)
      (min left (188 - if pk.opens then 19 else 9)) = pk.content.take left := by
  rw [← pk.read_toPacket, Packet.take_read]

theorem StidPacket.length_content (pk : StidPacket β pid) :
    (pk.content.length : ℤ) = 188 - if pk.opens then 19 else 9 := by
  rw [← pk.read_toPacket, Packet.length_read]
  split <;> rfl

theorem handOver_open (v : StidView β) (pk : StidPacket β pid) (k : ℕ) (bbf : BbframesStream β)
    (hcur : v.cur = some k) (hk : v.streams k = some bbf)
    (hopen : bbf.synced = true ∨ pk.opens = true) :
    handOver v pk =
      match bbfOutputTsBytes pk.toPacket { bbf with synced := true }
        (if pk.opens then 19 else 9) (188 - if pk.opens then 19 else 9) with
      | .null bbf => .done (v.put k bbf).reset
      | .ptr bbf _ => .done (v.put k bbf)
      | .wild => .wild
      | .hang => .hang := by
  rw [handOver]
  simp only [hcur, hk]
  exact if_neg (by rcases hopen with h | h <;> simp [h])

/-- Bytes of its own that meet no error leave a sub-stream sound, and count. -/
theorem handOver_sound {own : β → Prop} (v : StidView β) (pk : StidPacket β pid) (k ρ : ℕ)
    (bbf : BbframesStream β) (hcur : v.cur = some k) (hk : v.streams k = some bbf)
    (hopen : bbf.synced = true ∨ pk.opens = true)
    (h : Sound own { bbf with synced := true }) (hok : CallOk pk { bbf with synced := true })
    (hρ : Awaits bbf → bbf.bbfPayloadBytesLeft = ρ) (hown : ∀ c ∈ pk.content.take ρ, own c) :
    ∃ bbf', handOver v pk = .done (v.put k bbf') ∧ Sound own bbf' ∧ bbf'.synced = true ∧
      (Awaits bbf' → bbf'.bbfPayloadBytesLeft = (ρ - pk.content.length : ℕ)) := by
  have hhand := handOver_open v pk k bbf hcur hk hopen
  have hp : (0 : ℤ) ≤ if pk.opens then 19 else 9 := by split <;> decide
  have hlen := pk.length_content
  by_cases hawait : Awaits bbf
  · have hleft := hρ hawait
    obtain ⟨bbf', hout, hsound, hleft', hsync, _⟩ :=
      bbfOutputTsBytes_sound h rfl hp (by omega) (hok hawait)
        (by simp only [hleft]; rw [pk.read_take]; exact hown) hawait
    refine ⟨bbf', by rw [hhand, hout], hsound, hsync, fun _ => ?_⟩
    simp only [hleft] at hleft'
    omega
  · have hts : bbf.ts.synced = false := by
      rw [Awaits, not_or] at hawait
      simpa using hawait.1
    have hpast : bbf.syncd < bbf.ts.buffIdx := by
      rw [Awaits, not_or] at hawait
      omega
    have hout := bbfOutputTsBytes_past pk.toPacket { bbf with synced := true }
      (if pk.opens then 19 else 9) (188 - if pk.opens then 19 else 9) hts hpast
    exact ⟨{ bbf with synced := true }, by rw [hhand, hout], h, rfl, fun ha => absurd ha hawait⟩

/-! ### The packets of one BBFRAME -/

/-- A run over marked items is a run over the packets. -/
theorem run_items (stray : Bool) :
    ∀ (pks : List (StidPacket β pid)) (v : StidView β),
      Outcome.run (fun v (i : Bool × StidPacket β pid) => stidViewStep v i.2) v
        (pks.map fun pk => (stray, pk)) = Outcome.run stidViewStep v pks
  | [], _ => rfl
  | pk :: pks, v => by
    rw [List.map_cons, Outcome.run, Outcome.run]
    cases stidViewStep v pk with
    | done v' => exact run_items stray pks v'
    | wild => rfl
    | hang => rfl

theorem StidPacket.content_of_continue {pk : StidPacket β pid} (h : pk.isStart = false) :
    pk.opens = false ∧ pk.content = pk.body := by
  have hopens : pk.opens = false := by rw [opens, h, Bool.false_and]
  exact ⟨hopens, by rw [content, hopens]; rfl⟩

/-- The further packets of an intact BBFRAME: own bytes for the sub-stream pointed to. -/
theorem rest_sound {own : β → Prop} (k : ℕ) :
    ∀ (rest : List (StidPacket β pid)) (v : StidView β) (bbf : BbframesStream β) (ρ : ℕ),
      (∀ pk ∈ rest, pk.isStart = false) → v.cur = some k → v.streams k = some bbf →
      bbf.synced = true → Sound own bbf → (Awaits bbf → bbf.bbfPayloadBytesLeft = ρ) →
      (∀ c ∈ (rest.map StidPacket.body).flatten.take ρ, own c) →
      HarmlessView v (rest.map fun pk => (false, pk)) →
      ∃ bbf', Outcome.run stidViewStep v rest = .done (v.put k bbf') ∧ Sound own bbf'
  | [], v, bbf, ρ, _, _, hk, _, h, _, _, _ =>
    ⟨bbf, by rw [StidView.put_eq_self hk]; rfl, h⟩
  | pk :: rest, v, bbf, ρ, hrest, hcur, hk, hsync, h, hρ, hown, hok => by
    obtain ⟨hopens, hcontent⟩ := StidPacket.content_of_continue (hrest pk (by simp))
    have hself : { bbf with synced := true } = bbf := by rw [← hsync]
    obtain ⟨hhere, hthen⟩ := hok
    have hcall : CallOk pk bbf := by
      simp only [StepOk, hopens, Bool.false_eq_true, if_false] at hhere
      exact hhere k bbf hcur hk hsync
    rw [List.map_cons, List.flatten_cons, List.take_append] at hown
    obtain ⟨bbf₁, hstep, hs₁, hsync₁, hρ₁⟩ := handOver_sound v pk k ρ bbf hcur hk (Or.inl hsync)
      (hself ▸ h) (hself ▸ hcall) hρ
      (fun c hc => hown c (List.mem_append_left _ (by rwa [hcontent] at hc)))
    have hview : stidViewStep v pk = .done (v.put k bbf₁) := by
      rw [stidViewStep, hopens]
      exact hstep
    rw [hcontent] at hρ₁
    obtain ⟨bbf₂, hrun, hs₂⟩ := rest_sound k rest (v.put k bbf₁) bbf₁ (ρ - pk.body.length)
      (fun q hq => hrest q (List.mem_cons_of_mem _ hq)) hcur StidView.put_streams_self hsync₁ hs₁ hρ₁
      (fun c hc => hown c (List.mem_append_right _ hc)) (hthen _ hview)
    refine ⟨bbf₂, ?_, hs₂⟩
    rw [Outcome.run, hview]
    simp only [hrun, StidView.put_put]

/-- Taking over a header that is in order keeps the stream sound. -/
theorem headed_sound {own : β → Prop} {bbf : BbframesStream β} {pk : StidPacket β pid}
    (h : Sound own bbf) (hok : HeaderOk bbf pk) :
    Sound own (pk.headed bbf) ∧ (pk.headed bbf).bbfPayloadBytesLeft = pk.dfl := by
  have hleft : (pk.headed bbf).bbfPayloadBytesLeft = pk.dfl := by
    rw [StidPacket.dfl, Int.toNat_of_nonneg (by unfold be16; omega)]
    rfl
  refine ⟨⟨h.fed, ?_, h.idx, fun _ => hok.fits, hok.room, h.held⟩, hleft⟩
  rw [hleft]
  exact Int.natCast_nonneg _

/-- An intact BBFRAME keeps the sub-streams sound, and touches only that of its id. -/
theorem intact_sound {own : ℕ → β → Prop} (v : StidView β) (first : StidPacket β pid)
    (rest : List (StidPacket β pid)) (hopens : first.opens = true)
    (hrest : ∀ pk ∈ rest, pk.isStart = false) (hv : SoundView own v)
    (hown : ∀ c ∈ (first.content ++ (rest.map StidPacket.body).flatten).take first.dfl,
      own first.key c)
    (hok : HarmlessView v ((first :: rest).map fun pk => (false, pk))) :
    ∃ v', Outcome.run stidViewStep v (first :: rest) = .done v' ∧ SoundView own v' ∧
      ∀ j, j ≠ first.key → v'.streams j = v.streams j := by
  obtain ⟨hhere, hthen⟩ := hok
  rcases Option.eq_none_or_eq_some (v.streams first.key) with hk | ⟨bbf, hk⟩
  · have hstep : stidViewStep v first = .done { v with cur := some first.key } := by
      have hframe : openFrame v first = { v with cur := some first.key } := by
        rw [openFrame]
        simp only [hk]
      rw [stidViewStep, if_pos hopens, hframe, handOver]
      simp only [hk]
    refine ⟨{ v with cur := some first.key }, ?_, hv, fun _ _ => rfl⟩
    rw [Outcome.run, hstep]
    exact continue_run_none first.key { v with cur := some first.key } rfl hk rest hrest
  · simp only [StepOk, hopens, if_true] at hhere
    obtain ⟨hheader, hcall⟩ := hhere bbf hk
    obtain ⟨hsound, hleft⟩ := headed_sound (hv _ bbf hk) hheader
    have hframe : openFrame v first =
        { v with cur := some first.key }.put first.key
          (parseBbheader bbf first.hem first.key first.header) := by
      rw [openFrame]
      simp only [hk]
    rw [List.take_append] at hown
    obtain ⟨bbf₁, hhand, hs₁, hsync₁, hρ₁⟩ := handOver_sound
      (openFrame v first) first first.key first.dfl _ (by rw [hframe]; rfl)
      (by rw [hframe, StidView.put_streams_self]) (Or.inr hopens) hsound hcall (fun _ => hleft)
      (fun c hc => hown c (List.mem_append_left _ hc))
    have hstep : stidViewStep v first =
        .done ({ v with cur := some first.key }.put first.key bbf₁) := by
      rw [stidViewStep, if_pos hopens, hhand, hframe, StidView.put_put]
    obtain ⟨bbf₂, hrun, hs₂⟩ := rest_sound first.key rest
      ({ v with cur := some first.key }.put first.key bbf₁) bbf₁ _ hrest rfl
      StidView.put_streams_self hsync₁ hs₁ hρ₁ (fun c hc => hown c (List.mem_append_right _ hc))
      (hthen _ hstep)
    refine ⟨{ v with cur := some first.key }.put first.key bbf₂, ?_, hv.put hs₂ _,
      fun j hj => StidView.put_streams_ne hj⟩
    rw [Outcome.run, hstep]
    simp only [hrun, StidView.put_put]

/-- The sub-streams up to a user packet that is begun or not. -/
def StidView.settled (v : StidView β) (k : ℕ) : Option (BbframesStream β) :=
  (v.streams k).map BbframesStream.begun

/-- A stray packet leaves the sub-streams as they are. -/
theorem stray_step {own : ℕ → β → Prop} (v : StidView β) (pk : StidPacket β pid)
    (hclosed : pk.opens = false) (hv : SoundView own v) (hok : StepOk v.streams v.cur true pk) :
    ∃ v', stidViewStep v pk = .done v' ∧ SoundView own v' ∧ ∀ k, v'.settled k = v.settled k := by
  simp only [StepOk, hclosed, Bool.false_eq_true, if_false, if_true] at hok
  rw [stidViewStep, hclosed, if_neg Bool.false_ne_true, handOver]
  cases hcur : v.cur with
  | none => exact ⟨v, rfl, hv, fun _ => rfl⟩
  | some k =>
    rcases Option.eq_none_or_eq_some (v.streams k) with hk | ⟨bbf, hk⟩
    · exact ⟨v, by simp only [hk], hv, fun _ => rfl⟩
    · rcases Bool.eq_false_or_eq_true bbf.synced with hsync | hsync
      · have hidle := hok k bbf hcur hk hsync
        have hself : { bbf with synced := true } = bbf := by rw [← hsync]
        have hsound := hv k bbf hk
        have hout : bbfOutputTsBytes pk.toPacket bbf 9 179 = .ptr bbf.begun (9 + 179) :=
          bbfOutputTsBytes_idle hsound hsync hidle (by decide)
        refine ⟨v.put k bbf.begun, ?_, hv.put (hsound.begun hsync hidle) v.cur, fun j => ?_⟩
        · simp only [hk, hsync, hclosed]
          rw [if_neg (by simp), hself]
          simp only [Bool.false_eq_true, if_false]
          rw [show (188 : ℤ) - 9 = 179 by decide, hout]
        · by_cases hj : j = k
          · subst hj
            rw [StidView.settled, StidView.settled, StidView.put_streams_self, hk, Option.map_some,
              Option.map_some, BbframesStream.begun_begun]
          · rw [StidView.settled, StidView.settled, StidView.put_streams_ne hj]
      · exact ⟨v, by simp only [hk, hsync, hclosed]; rfl, hv, fun _ => rfl⟩

theorem stray_run {own : ℕ → β → Prop} :
    ∀ (pks : List (StidPacket β pid)) (v : StidView β), (∀ pk ∈ pks, pk.opens = false) →
      SoundView own v → HarmlessView v (pks.map fun pk => (true, pk)) →
      ∃ v', Outcome.run stidViewStep v pks = .done v' ∧ SoundView own v' ∧
        ∀ k, v'.settled k = v.settled k
  | [], v, _, hv, _ => ⟨v, rfl, hv, fun _ => rfl⟩
  | pk :: pks, v, hclosed, hv, hok => by
    obtain ⟨hhere, hthen⟩ := hok
    obtain ⟨v₁, hstep, hv₁, hs₁⟩ := stray_step v pk (hclosed pk (by simp)) hv hhere
    obtain ⟨v₂, hrun, hv₂, hs₂⟩ := stray_run pks v₁
      (fun q hq => hclosed q (List.mem_cons_of_mem _ hq)) hv₁ (hthen v₁ hstep)
    exact ⟨v₂, by rw [Outcome.run, hstep]; exact hrun, hv₂, fun k => (hs₂ k).trans (hs₁ k)⟩

/-- A BBFRAME keeps the sub-streams sound, and touches at most that of its id. -/
theorem sent_sound {own : ℕ → β → Prop} (v : StidView β) (f : Sent β pid) (hv : SoundView own v)
    (hown : f.Owned own) (hok : HarmlessView v f.items) :
    ∃ v', Outcome.run stidViewStep v f.packets = .done v' ∧ SoundView own v' ∧
      ∀ j, j ≠ f.isi → v'.settled j = v.settled j := by
  cases f with
  | intact first rest hopens hrest =>
    obtain ⟨v', hrun, hv', hother⟩ := intact_sound v first rest hopens hrest hv hown hok
    exact ⟨v', hrun, hv', fun j hj => by rw [StidView.settled, StidView.settled, hother j hj]⟩
  | damaged isi pks hclosed =>
    obtain ⟨v', hrun, hv', hsame⟩ := stray_run pks v hclosed hv hok
    exact ⟨v', hrun, hv', fun j _ => hsame j⟩

/-- In a run of harmless steps the sub-streams stay sound. -/
theorem sents_sound {own : ℕ → β → Prop} :
    ∀ (sent : List (Sent β pid)) (v : StidView β), SoundView own v → (∀ f ∈ sent, f.Owned own) →
      HarmlessView v (sent.flatMap Sent.items) →
      ∃ v', Outcome.run stidViewStep v (sent.flatMap Sent.packets) = .done v' ∧ SoundView own v'
  | [], v, hv, _, _ => ⟨v, rfl, hv⟩
  | f :: sent, v, hv, hown, hok => by
    rw [List.flatMap_cons] at hok ⊢
    obtain ⟨hhere, hthen⟩ := Outcome.meets_append hok
    obtain ⟨v₁, hrun₁, hv₁, _⟩ := sent_sound v f hv (hown f (by simp)) hhere
    obtain ⟨v₂, hrun₂, hv₂⟩ := sents_sound sent v₁ hv₁
      (fun g hg => hown g (List.mem_cons_of_mem _ hg))
      (hthen v₁ (by rw [Sent.items, run_items]; exact hrun₁))
    exact ⟨v₂, by rw [Outcome.run_append _ _ _ _ _ hrun₁, hrun₂], hv₂⟩

/-! ### Two runs -/

/-- Streams that differ in a begun packet only give the same output. -/
theorem call_begun {own : β → Prop} {pk : StidPacket β pid} {bbf bbf' : BbframesStream β}
    (h : Sound own bbf) (h' : Sound own bbf') (hsync : bbf.synced = true)
    (hsync' : bbf'.synced = true) (hok : CallOk pk bbf) (hok' : CallOk pk bbf')
    (heq : bbf.begun = bbf'.begun) :
    bbfOutputTsBytes pk.toPacket bbf (if pk.opens then 19 else 9)
        (188 - if pk.opens then 19 else 9) =
      bbfOutputTsBytes pk.toPacket bbf' (if pk.opens then 19 else 9)
        (188 - if pk.opens then 19 else 9) := by
  have hnum : (0 : ℤ) < 188 - if pk.opens then 19 else 9 := by split <;> decide
  have hstart : ∀ b : BbframesStream β, CallOk pk b → b.ts.synced = true →
      ¬ CrcFails pk.toPacket ⟨b, if pk.opens then 19 else 9,
        188 - if pk.opens then 19 else 9⟩ := by
    intro b hb hts
    have hcrc := (hb (Or.inl hts)).crc _ .start
    rwa [bbfStart, if_pos hts] at hcrc
  rw [← bbfOutputTsBytes_begun h hsync hnum (hstart bbf hok),
    ← bbfOutputTsBytes_begun h' hsync' hnum (hstart bbf' hok'), heq]

/-- Taking over a header does not tell such streams apart either. -/
theorem headed_begun {bbf bbf' : BbframesStream β} {pk : StidPacket β pid}
    (hok : HeaderOk bbf pk) (hok' : HeaderOk bbf' pk) (heq : bbf.begun = bbf'.begun) :
    (pk.headed bbf).begun = (pk.headed bbf').begun := by
  have hts : bbf.ts.synced = bbf'.ts.synced := by
    rw [← bbf.begun_inStep, heq, bbf'.begun_inStep]
  have hhem : bbf.hemMode = bbf'.hemMode := by
    rw [← bbf.begun_hemMode, heq, bbf'.begun_hemMode]
  have hfeeds : bbf.feeds = bbf'.feeds := by
    rw [← bbf.begun_feeds, heq, bbf'.begun_feeds]
  rcases Bool.eq_false_or_eq_true bbf.ts.synced with hs | hs
  · have hs' : bbf'.ts.synced = true := hts ▸ hs
    have hkeeps := hok.keeps hs
    have hkeeps' := hok'.keeps hs'
    rw [BbframesStream.begun, BbframesStream.begun, if_pos hs, if_pos hs'] at heq
    have hcrc : bbf.bbfCrc8 = bbf'.bbfCrc8 := by
      have h := congrArg BbframesStream.bbfCrc8 heq
      exact h
    have herrs : bbf.numCrcErrors = bbf'.numCrcErrors := by
      have h := congrArg BbframesStream.numCrcErrors heq
      exact h
    have hbuff : bbf.ts.buff.put 0 (Cell.lit 0x47) = bbf'.ts.buff.put 0 (Cell.lit 0x47) :=
      congrArg (fun b : BbframesStream β => b.ts.buff) heq
    have hidx : (if bbf.hemMode = true ∧ bbf.ts.buffIdx = 0 then 1 else bbf.ts.buffIdx) =
        if bbf'.hemMode = true ∧ bbf'.ts.buffIdx = 0 then 1 else bbf'.ts.buffIdx :=
      congrArg (fun b : BbframesStream β => b.ts.buffIdx) heq
    -- the header changes the mode only where it is clear whether the packet is begun
    have hidx' : (if pk.hem = true ∧ bbf.ts.buffIdx = 0 then 1 else bbf.ts.buffIdx) =
        if pk.hem = true ∧ bbf'.ts.buffIdx = 0 then 1 else bbf'.ts.buffIdx := by
      rw [← hhem] at hidx hkeeps'
      by_cases hp : pk.hem = true
      · simp only [hp, true_and] at hidx ⊢
        split at hidx <;> split at hidx <;> split <;> split <;> omega
      · have h1 : bbf.hemMode = true → bbf.ts.buffIdx ≠ 1 := fun hb h => hp ((hkeeps h).trans hb)
        have h1' : bbf.hemMode = true → bbf'.ts.buffIdx ≠ 1 := fun hb h => hp ((hkeeps' h).trans hb)
        split at hidx <;> split at hidx <;> simp_all
    have hparse : ∀ b : BbframesStream β, b.ts.synced = true → (pk.headed b).begun =
        { pk.headed b with
          ts :=
            { buffIdx := if pk.hem = true ∧ b.ts.buffIdx = 0 then 1 else b.ts.buffIdx
              synced := true
              buff := b.ts.buff.put 0 (Cell.lit 0x47) } } := by
      intro b hb
      rw [BbframesStream.begun, if_pos (show (pk.headed b).ts.synced = true from hb)]
      simp only [StidPacket.headed, parseBbheader, hb]
      rfl
    rw [hparse bbf hs, hparse bbf' hs', hidx', hbuff]
    simp only [StidPacket.headed, parseBbheader, hfeeds, hcrc, herrs]
  · have hs' : bbf'.ts.synced = false := hts ▸ hs
    simp only [BbframesStream.begun, hs, hs', Bool.false_eq_true, if_false] at heq
    rw [heq]

/-- Two states with the same sub-stream `k`, which is the one pointed to, or none is. -/
structure Joined (k : ℕ) (v w : StidView β) : Prop where
  cur : v.cur = w.cur
  here : v.cur = some k ∨ v.cur = none
  stream : v.streams k = w.streams k

/-- Packets that start no BBFRAME do the same to both. -/
theorem joined_step {k : ℕ} {v w : StidView β} (h : Joined k v w) (pk : StidPacket β pid)
    (hclosed : pk.opens = false) :
    Outcome.Rel (Joined k) (stidViewStep v pk) (stidViewStep w pk) := by
  rw [stidViewStep, stidViewStep, hclosed, if_neg Bool.false_ne_true, if_neg Bool.false_ne_true,
    handOver, handOver, ← h.cur]
  rcases h.here with hcur | hcur
  · simp only [hcur, ← h.stream]
    rcases Option.eq_none_or_eq_some (v.streams k) with hk | ⟨bbf, hk⟩
    · simp only [hk]
      exact .done h
    · simp only [hk]
      have hput : ∀ b, Joined k (v.put k b) (w.put k b) := fun b =>
        ⟨h.cur, h.here, by rw [StidView.put_streams_self, StidView.put_streams_self]⟩
      have hreset : ∀ b, Joined k (v.put k b).reset (w.put k b).reset := fun b =>
        ⟨rfl, Or.inr rfl, by
          rw [StidView.reset, StidView.reset]
          simp only [StidView.put_streams_self]⟩
      split
      · exact .done h
      · generalize bbfOutputTsBytes pk.toPacket { bbf with synced := true } _ _ = out
        cases out with
        | null b => exact .done (hreset b)
        | ptr b _ => exact .done (hput b)
        | wild => exact .wild
        | hang => exact .hang
  · simp only [hcur]
    exact .done h

theorem joined_run {k : ℕ} :
    ∀ (pks : List (StidPacket β pid)) (v w : StidView β), Joined k v w →
      (∀ pk ∈ pks, pk.opens = false) →
      Outcome.Rel (Joined k) (Outcome.run stidViewStep v pks) (Outcome.run stidViewStep w pks)
  | [], _, _, h, _ => .done h
  | pk :: pks, v, w, h, hclosed => by
    have hstep := joined_step h pk (hclosed pk (by simp))
    rw [Outcome.run, Outcome.run]
    generalize stidViewStep v pk = x, stidViewStep w pk = y at hstep
    cases hstep with
    | done h' => exact joined_run pks _ _ h' fun q hq => hclosed q (List.mem_cons_of_mem _ hq)
    | wild => exact .wild
    | hang => exact .hang

/-- An intact BBFRAME gives its sub-stream the same in two runs in which it was the same. -/
theorem intact_agree {own : ℕ → β → Prop} (v w : StidView β) (first : StidPacket β pid)
    (rest : List (StidPacket β pid)) (hopens : first.opens = true)
    (hrest : ∀ pk ∈ rest, pk.isStart = false) (hv : SoundView own v) (hw : SoundView own w)
    (hok : HarmlessView v ((first :: rest).map fun pk => (false, pk)))
    (hok' : HarmlessView w ((first :: rest).map fun pk => (false, pk)))
    (heq : v.settled first.key = w.settled first.key) :
    ∀ v' w', Outcome.run stidViewStep v (first :: rest) = .done v' →
      Outcome.run stidViewStep w (first :: rest) = .done w' →
      v'.settled first.key = w'.settled first.key := by
  intro v' w' hrun hrun'
  have hstep : Outcome.Rel (Joined first.key) (stidViewStep v first) (stidViewStep w first) := by
    rw [stidViewStep, stidViewStep, if_pos hopens, if_pos hopens, openFrame, openFrame]
    rw [StidView.settled, StidView.settled] at heq
    rcases Option.eq_none_or_eq_some (v.streams first.key) with hk | ⟨bbf, hk⟩
    · have hk' : w.streams first.key = none := by
        rw [hk, Option.map_none] at heq
        exact Option.map_eq_none_iff.mp heq.symm
      simp only [hk, hk', handOver]
      exact .done ⟨rfl, Or.inl rfl, by rw [hk, hk']⟩
    · rw [hk, Option.map_some] at heq
      obtain ⟨bbf', hk', heq'⟩ := Option.map_eq_some_iff.mp heq.symm
      have hhere := hok.1
      have hhere' := hok'.1
      simp only [StepOk, hopens, if_true] at hhere hhere'
      obtain ⟨hheader, hcall⟩ := hhere bbf hk
      obtain ⟨hheader', hcall'⟩ := hhere' bbf' hk'
      have hout := call_begun (headed_sound (hv _ bbf hk) hheader).1
        (headed_sound (hw _ bbf' hk') hheader').1 rfl rfl hcall hcall'
        (headed_begun hheader hheader' heq'.symm)
      simp only [hopens, if_true] at hout
      simp only [hk, hk', handOver, StidView.put_cur, StidView.put_streams_self, hopens, if_true,
        not_true_eq_false, and_false, if_false]
      rw [show ({ parseBbheader bbf first.hem first.key first.header with synced := true } :
          BbframesStream β) = first.headed bbf from rfl,
        show ({ parseBbheader bbf' first.hem first.key first.header with synced := true } :
          BbframesStream β) = first.headed bbf' from rfl, hout]
      generalize bbfOutputTsBytes first.toPacket (first.headed bbf') _ _ = out
      cases out with
      | null b =>
        refine .done ⟨rfl, Or.inr rfl, ?_⟩
        rw [StidView.reset, StidView.reset]
        simp only [StidView.put_streams_self]
      | ptr b _ =>
        exact .done ⟨rfl, Or.inl rfl, by rw [StidView.put_streams_self, StidView.put_streams_self]⟩
      | wild => exact .wild
      | hang => exact .hang
  have hwhole : Outcome.Rel (Joined first.key) (Outcome.run stidViewStep v (first :: rest))
      (Outcome.run stidViewStep w (first :: rest)) := by
    rw [Outcome.run, Outcome.run]
    generalize stidViewStep v first = x, stidViewStep w first = y at hstep
    cases hstep with
    | done hj =>
      exact joined_run rest _ _ hj fun pk hpk => (StidPacket.content_of_continue (hrest pk hpk)).1
    | wild => exact .wild
    | hang => exact .hang
  rw [hrun, hrun'] at hwhole
  cases hwhole with
  | done hfinal => rw [StidView.settled, StidView.settled, hfinal.stream]

/-- What the two runs have in common: the same BBFRAMEs, but for those of one id. -/
def AgreeBut (isi : ℕ) (f g : Sent β pid) : Prop := (f.isi = isi ∧ g.isi = isi) ∨ f = g

/-- Two runs that differ in the BBFRAMEs of one id only keep the other sub-streams alike. -/
theorem sents_agree {own : ℕ → β → Prop} (isi : ℕ) :
    ∀ (sent sent' : List (Sent β pid)) (v w v' w' : StidView β),
      List.Forall₂ (AgreeBut isi) sent sent' → SoundView own v → SoundView own w →
      (∀ f ∈ sent, f.Owned own) → (∀ f ∈ sent', f.Owned own) →
      HarmlessView v (sent.flatMap Sent.items) → HarmlessView w (sent'.flatMap Sent.items) →
      (∀ k, k ≠ isi → v.settled k = w.settled k) →
      Outcome.run stidViewStep v (sent.flatMap Sent.packets) = .done v' →
      Outcome.run stidViewStep w (sent'.flatMap Sent.packets) = .done w' →
      ∀ k, k ≠ isi → v'.settled k = w'.settled k
  | [], [], v, w, v', w', _, _, _, _, _, _, _, heq, hrun, hrun' => by
    intro k hk
    rw [List.flatMap_nil, Outcome.run, Outcome.done.injEq] at hrun hrun'
    rw [← hrun, ← hrun']
    exact heq k hk
  | f :: sent, g :: sent', v, w, v', w', hagree, hv, hw, hown, hown', hok, hok', heq, hrun,
      hrun' => by
    rw [List.flatMap_cons] at hok hok' hrun hrun'
    obtain ⟨hfg, hagree⟩ := List.forall₂_cons.mp hagree
    obtain ⟨hhere, hthen⟩ := Outcome.meets_append hok
    obtain ⟨hhere', hthen'⟩ := Outcome.meets_append hok'
    obtain ⟨v₁, hrun₁, hv₁, hother⟩ := sent_sound v f hv (hown f (by simp)) hhere
    obtain ⟨w₁, hrun₁', hw₁, hother'⟩ := sent_sound w g hw (hown' g (by simp)) hhere'
    rw [Outcome.run_append _ _ _ _ _ hrun₁] at hrun
    rw [Outcome.run_append _ _ _ _ _ hrun₁'] at hrun'
    have heq₁ : ∀ k, k ≠ isi → v₁.settled k = w₁.settled k := by
      intro k hk
      rcases hfg with ⟨hf, hg⟩ | rfl
      · rw [hother k (by rw [hf]; exact hk), hother' k (by rw [hg]; exact hk)]
        exact heq k hk
      · by_cases hkf : k = f.isi
        · subst hkf
          cases f with
          | intact first rest hopens hrest =>
            exact intact_agree v w first rest hopens hrest hv hw hhere hhere' (heq _ hk) v₁ w₁
              hrun₁ hrun₁'
          | damaged j pks hclosed =>
            obtain ⟨v₂, hrun₂, _, hs₂⟩ := stray_run pks v hclosed hv hhere
            obtain ⟨w₂, hrun₂', _, hs₂'⟩ := stray_run pks w hclosed hw hhere'
            simp only [Sent.packets] at hrun₁ hrun₁'
            rw [hrun₁, Outcome.done.injEq] at hrun₂
            rw [hrun₁', Outcome.done.injEq] at hrun₂'
            subst hrun₂ hrun₂'
            rw [hs₂, hs₂']
            exact heq _ hk
        · rw [hother k hkf, hother' k hkf]
          exact heq k hk
    exact sents_agree isi sent sent' v₁ w₁ v' w' hagree hv₁ hw₁
      (fun q hq => hown q (List.mem_cons_of_mem _ hq))
      (fun q hq => hown' q (List.mem_cons_of_mem _ hq))
      (hthen v₁ (by rw [Sent.items, run_items]; exact hrun₁))
      (hthen' w₁ (by rw [Sent.items, run_items]; exact hrun₁')) heq₁ hrun hrun'
  | [], _ :: _, _, _, _, _, hagree, _, _, _, _, _, _, _, _, _ => by cases hagree
  | _ :: _, [], _, _, _, _, hagree, _, _, _, _, _, _, _, _, _ => by cases hagree

/-! ### Marked BBFRAMEs -/

/-- Where a byte comes from: the data field of a BBFRAME of an id, or a header or padding. -/
inductive Origin where
  | data (isi : ℕ)
  | other
  deriving DecidableEq

/-- The bytes behind the STID header, the first `ρ` of the content marked as data of the id. -/
def markBody (isi ρ : ℕ) (pk : StidPacket UInt8 pid) : List (Marked Origin) :=
  (pk.body.take (pk.body.length - pk.content.length)).map (fun b => (b, some .other)) ++
    (pk.content.take ρ).map (fun b => (b, some (.data isi))) ++
      (pk.content.drop ρ).map fun b => (b, some .other)

theorem StidPacket.body_eq (pk : StidPacket β pid) :
    pk.body.take (pk.body.length - pk.content.length) ++ pk.content = pk.body := by
  rw [content]
  split
  · rw [List.length_drop, pk.body_size, List.take_append_drop]
  · rw [Nat.sub_self, List.take_zero, List.nil_append]

theorem markBody_fst (isi ρ : ℕ) (pk : StidPacket UInt8 pid) :
    (markBody isi ρ pk).map Prod.fst = pk.body := by
  simp only [markBody, List.map_append, List.map_map, Function.comp_def, List.map_id']
  rw [List.append_assoc, List.take_append_drop, pk.body_eq]

def markPacket (isi ρ : ℕ) (pk : StidPacket UInt8 pid) : StidPacket (Marked Origin) pid :=
  pk.marked .other (markBody isi ρ pk) (markBody_fst isi ρ pk)

/-- The further packets of a BBFRAME of which `ρ` data bytes are still to come. -/
def markRest (isi : ℕ) : ℕ → List (StidPacket UInt8 pid) → List (StidPacket (Marked Origin) pid)
  | _, [] => []
  | ρ, pk :: rest => markPacket isi ρ pk :: markRest isi (ρ - pk.content.length) rest

theorem mem_markRest {isi : ℕ} :
    ∀ {rest : List (StidPacket UInt8 pid)} {ρ : ℕ} {q : StidPacket (Marked Origin) pid},
      q ∈ markRest isi ρ rest → ∃ pk ∈ rest, ∃ ρ', q = markPacket isi ρ' pk
  | pk :: rest, ρ, q, hq => by
    rcases List.mem_cons.mp hq with rfl | hq
    · exact ⟨pk, by simp, ρ, rfl⟩
    · obtain ⟨pk', hmem, h⟩ := mem_markRest hq
      exact ⟨pk', List.mem_cons_of_mem _ hmem, h⟩

/-- The BBFRAME with every cell marked. -/
def Sent.mark : Sent UInt8 pid → Sent (Marked Origin) pid
  | .intact first rest hopens hrest =>
    .intact (markPacket first.key first.dfl first)
      (markRest first.key (first.dfl - first.content.length) rest)
      (by rw [markPacket, StidPacket.opens_marked, hopens])
      (fun q hq => by
        obtain ⟨pk, hpk, ρ, rfl⟩ := mem_markRest hq
        rw [markPacket, StidPacket.isStart_marked, hrest pk hpk])
  | .damaged isi pks hclosed =>
    .damaged isi (pks.map (markPacket isi 0)) (fun q hq => by
      obtain ⟨pk, hpk, rfl⟩ := List.mem_map.mp hq
      rw [markPacket, StidPacket.opens_marked, hclosed pk hpk])

theorem content_markPacket (isi ρ : ℕ) (pk : StidPacket UInt8 pid) :
    (markPacket isi ρ pk).content =
      (pk.content.take ρ).map (fun b => (b, some (.data isi))) ++
        (pk.content.drop ρ).map fun b => (b, some .other) := by
  have hopens : (markPacket isi ρ pk).opens = pk.opens := StidPacket.opens_marked ..
  have hbody : (markPacket isi ρ pk).body = markBody isi ρ pk := rfl
  rw [StidPacket.content, hopens, hbody, markBody, List.append_assoc]
  split
  · rename_i h
    have hlen : pk.content.length = 169 := by
      rw [StidPacket.content, if_pos h, List.length_drop, pk.body_size]
    rw [List.drop_append_of_le_length (by simp; have := pk.body_size; omega),
      List.drop_of_length_le (by simp [hlen, pk.body_size]), List.nil_append]
  · rename_i h
    have hlen : pk.content.length = pk.body.length := by rw [StidPacket.content, if_neg h]
    rw [hlen, Nat.sub_self, List.take_zero, List.map_nil, List.nil_append]

/-- The first `ρ` cells of the content are marked as data. -/
theorem take_content_markPacket (isi ρ : ℕ) (pk : StidPacket UInt8 pid) :
    ∀ c ∈ (markPacket isi ρ pk).content.take ρ, c.2 = some (.data isi) := by
  intro c hc
  rw [content_markPacket, List.take_append] at hc
  rcases List.mem_append.mp hc with hc | hc
  · obtain ⟨b, _, rfl⟩ := List.mem_map.mp (List.mem_of_mem_take hc)
    rfl
  · have hnil : pk.content.drop ρ = [] ∨ ρ ≤ pk.content.length := by
      rcases Nat.le_total ρ pk.content.length with h | h
      · exact Or.inr h
      · exact Or.inl (List.drop_of_length_le h)
    rcases hnil with hnil | hle
    · simp [hnil] at hc
    · simp [Nat.min_eq_left hle] at hc

theorem length_content_markPacket (isi ρ : ℕ) (pk : StidPacket UInt8 pid) :
    (markPacket isi ρ pk).content.length = pk.content.length := by
  rw [content_markPacket, List.length_append, List.length_map, List.length_map,
    ← List.length_append, List.take_append_drop]

theorem take_markRest (isi : ℕ) :
    ∀ (rest : List (StidPacket UInt8 pid)) (ρ : ℕ), (∀ pk ∈ rest, pk.isStart = false) →
      ∀ c ∈ ((markRest isi ρ rest).map StidPacket.body).flatten.take ρ, c.2 = some (.data isi)
  | [], _, _ => by simp [markRest]
  | pk :: rest, ρ, hrest => by
    intro c hc
    have hstart : (markPacket isi ρ pk).isStart = false :=
      (StidPacket.isStart_marked ..).trans (hrest pk (by simp))
    have hbody := (StidPacket.content_of_continue hstart).2
    rw [markRest, List.map_cons, List.flatten_cons, ← hbody, List.take_append,
      length_content_markPacket] at hc
    rcases List.mem_append.mp hc with hc | hc
    · exact take_content_markPacket isi ρ pk c hc
    · exact take_markRest isi rest (ρ - pk.content.length)
        (fun q hq => hrest q (List.mem_cons_of_mem _ hq)) c hc

@[simp] theorem Sent.isi_mark (f : Sent UInt8 pid) : f.mark.isi = f.isi := by
  cases f with
  | intact first rest hopens hrest =>
    simp only [mark, isi, StidPacket.key, markPacket, StidPacket.header_marked]
  | damaged isi pks hclosed => rfl

theorem Sent.owned_mark (f : Sent UInt8 pid) :
    f.mark.Owned fun k c => c.2 = some (.data k) := by
  cases f with
  | damaged isi pks hclosed => trivial
  | intact first rest hopens hrest =>
    have hkey : (markPacket first.key first.dfl first).key = first.key := by
      simp only [StidPacket.key, markPacket, StidPacket.header_marked]
    have hdfl : (markPacket first.key first.dfl first).dfl = first.dfl := by
      simp only [StidPacket.dfl, markPacket, StidPacket.header_marked]
    intro c hc
    rw [hdfl, List.take_append, length_content_markPacket] at hc
    rw [hkey]
    rcases List.mem_append.mp hc with hc | hc
    · exact take_content_markPacket _ _ _ c hc
    · exact take_markRest _ rest _ hrest c hc

/-! ### The whole run -/

theorem StidView.init_sound (own : ℕ → β → Prop) (subs : ℕ → Bool) :
    SoundView own (StidView.init subs : StidView β) := by
  intro k bbf hk
  simp only [StidView.init] at hk
  split at hk
  · cases hk
    refine ⟨?_, Int.le_refl 0, Int.le_refl 0, ?_, ?_, ?_⟩ <;>
      simp [bbframesStreamInit, bbframesStreamReset]
  · cases hk

/-- What the feeds of an id got. -/
def StidStream.feeds (stid : StidStream β) (k : ℕ) : List (List β) :=
  (stid.emb.bbfStreams k).elim [] BbframesStream.feeds

/-- The decoder on the packets of these BBFRAMEs, from the start. -/
def stidSend (pid : ℤ) (subs : ℕ → Bool) (sent : List (Sent β pid)) : Outcome (StidStream β) :=
  stidRun (stidStreamInit pid subs) ((sent.flatMap Sent.packets).map StidPacket.toPacket)

/-- A run on the view gives the run of the decoder. -/
theorem stidSend_view (subs : ℕ → Bool) (sent : List (Sent β pid)) {v : StidView β}
    (hrun : Outcome.run stidViewStep (StidView.init subs) (sent.flatMap Sent.packets) = .done v) :
    ∃ stid, stidSend pid subs sent = .done stid ∧ Views pid stid v := by
  have hinit : Views pid (stidStreamInit pid subs) (StidView.init subs : StidView β) :=
    stidStreamInit_view subs
  have hrel := stidRun_view hinit (sent.flatMap Sent.packets)
  rw [hrun] at hrel
  rw [stidSend]
  generalize stidRun (stidStreamInit pid subs)
    ((sent.flatMap Sent.packets).map StidPacket.toPacket) = out at hrel
  cases hrel with
  | done hv => exact ⟨_, rfl, hv⟩

/-- In a run of harmless steps every user packet delivered to an id consists of bytes of data fields
    of that id, behind the driver's sync byte; and BBFRAMEs of one id changed, damaged or not, do not
    change what the other ids get in another such run. -/
theorem stid_isolated (subs : ℕ → Bool) (sent : List (Sent UInt8 pid))
    (hok : Harmless (stidStreamInit pid subs) (sent.map Sent.mark)) :
    ∃ stid, stidSend pid subs (sent.map Sent.mark) = .done stid ∧
      (∀ k, ∀ up ∈ stid.feeds k, OwnPacket (fun c => c.2 = some (Origin.data k)) up) ∧
      ∀ isi (sent' : List (Sent UInt8 pid)), List.Forall₂ (AgreeBut isi) sent sent' →
        Harmless (stidStreamInit pid subs) (sent'.map Sent.mark) →
        ∃ stid', stidSend pid subs (sent'.map Sent.mark) = .done stid' ∧
          ∀ k, k ≠ isi → stid'.feeds k = stid.feeds k := by
  have hinit : Views pid (stidStreamInit pid subs) (StidView.init subs : StidView (Marked Origin)) :=
    stidStreamInit_view subs
  have hsound : SoundView (fun k (c : Marked Origin) => c.2 = some (Origin.data k)) (StidView.init subs) :=
    StidView.init_sound _ subs
  have howned : ∀ l : List (Sent UInt8 pid), ∀ f ∈ l.map Sent.mark,
      f.Owned fun k c => c.2 = some (Origin.data k) := by
    intro l f hf
    obtain ⟨g, _, rfl⟩ := List.mem_map.mp hf
    exact g.owned_mark
  obtain ⟨v, hrun, hv⟩ := sents_sound _ _ hsound (howned sent) (hok.view hinit)
  obtain ⟨stid, hsend, hview⟩ := stidSend_view subs _ hrun
  refine ⟨stid, hsend, fun k up hup => ?_, fun isi sent' hagree hok' => ?_⟩
  · rw [StidStream.feeds, hview.streams] at hup
    cases hk : v.streams k with
    | none => rw [hk] at hup; cases hup
    | some bbf =>
      rw [hk] at hup
      exact (hv k bbf hk).fed up hup
  · obtain ⟨v', hrun', hv'⟩ := sents_sound _ _ hsound (howned sent') (hok'.view hinit)
    obtain ⟨stid', hsend', hview'⟩ := stidSend_view subs _ hrun'
    refine ⟨stid', hsend', fun k hk => ?_⟩
    have hmarked : List.Forall₂ (AgreeBut isi) (sent.map Sent.mark) (sent'.map Sent.mark) := by
      rw [List.forall₂_map_left_iff, List.forall₂_map_right_iff]
      refine hagree.imp fun f g hfg => ?_
      rcases hfg with ⟨hf, hg⟩ | rfl
      · exact Or.inl ⟨f.isi_mark.trans hf, g.isi_mark.trans hg⟩
      · exact Or.inr rfl
    have hset := sents_agree isi _ _ _ _ v v' hmarked hsound hsound (howned sent) (howned sent')
      (hok.view hinit) (hok'.view hinit) (fun _ _ => rfl) hrun hrun' k hk
    rw [StidView.settled, StidView.settled] at hset
    have hfeeds := congrArg (Option.map BbframesStream.feeds) hset
    simp only [Option.map_map, Function.comp_def, BbframesStream.begun_feeds] at hfeeds
    rw [StidStream.feeds, StidStream.feeds, hview.streams, hview'.streams]
    cases h : v.streams k <;> cases h' : v'.streams k <;> simp_all

/-- A BBFRAME of one packet whose data field ends in it, then a stray packet. -/
theorem harmless_ended (stid : StidStream β) {first spoilt : StidPacket β pid} {isi : ℕ}
    (hopens : first.opens = true) (hclosed : ∀ pk ∈ [spoilt], pk.opens = false)
    (hhead : ∀ bbf, stid.emb.bbfStreams first.key = some bbf →
      HeaderOk bbf first ∧ CallOk first (first.headed bbf))
    (hidle : ∀ s, stidStreamAddPacket stid first.toPacket = .done s →
      ∀ k ∈ s.emb.currentBbf, ∀ bbf ∈ s.emb.bbfStreams k, Idle bbf) :
    Harmless stid [.intact first [] hopens (by simp), .damaged isi [spoilt] hclosed] :=
  ⟨.head hopens hhead,
    fun s hs => ⟨.stray (hclosed spoilt (by simp)) (hidle s hs), fun _ _ => trivial⟩⟩

/-- 100 data bytes of ISI 3 and padding. -/
def endedPacket : StidPacket UInt8 270 :=
  .sample 0xB8 ([0x00, 0x03, 0x00, 0x00, 0x03, 0x20, 0x00, 0x00, 0x00, 0x42] ++
    List.replicate 169 0x11) (by decide +kernel)

/-- The start of a BBFRAME, its header damaged. -/
def spoiltPacket : StidPacket UInt8 270 :=
  .sample 0xB8 (List.replicate 179 0x22) (by decide +kernel)

theorem endedPacket_opens : endedPacket.opens = true := by decide

theorem spoiltPacket_closed : ∀ pk ∈ [spoiltPacket], pk.opens = false := by decide

/-- A BBFRAME of ISI 3 that ends, then a damaged one of ISI 5. -/
def endedThenSpoilt : List (Sent UInt8 270) :=
  [.intact endedPacket [] endedPacket_opens (by simp), .damaged 5 [spoiltPacket] spoiltPacket_closed]

/-- The first packet leaves the sub-stream with its data field read. -/
theorem endedPacket_idle :
    ∀ s, stidStreamAddPacket (stidStreamInit 270 fun k => k = 3)
        (markPacket endedPacket.key endedPacket.dfl endedPacket).toPacket = .done s →
      ∀ k ∈ s.emb.currentBbf, ∀ bbf ∈ s.emb.bbfStreams k, Idle bbf := by
  obtain ⟨s, hdone, hidle⟩ := Outcome.holds_iff.mp
    (show (stidStreamAddPacket (stidStreamInit 270 fun k => k = 3)
        (markPacket endedPacket.key endedPacket.dfl endedPacket).toPacket).holds (fun s =>
      decide (∀ k ∈ s.emb.currentBbf, ∀ bbf ∈ s.emb.bbfStreams k, Idle bbf)) = true by decide +kernel)
  intro s' hs
  cases hdone.symm.trans hs
  exact of_decide_eq_true hidle

theorem endedThenSpoilt_harmless :
    Harmless (stidStreamInit 270 fun k => k = 3) (endedThenSpoilt.map Sent.mark) := by
  refine harmless_ended _ _ _ (fun bbf hbbf => ?_) endedPacket_idle
  have hkey : (markPacket endedPacket.key endedPacket.dfl endedPacket).key = 3 := by decide +kernel
  have hhem : (markPacket endedPacket.key endedPacket.dfl endedPacket).hem = true := by
    decide +kernel
  rw [hkey] at hbbf
  obtain rfl : bbframesStreamReset (bbframesStreamInit 3) = bbf := Option.some.inj hbbf
  exact ⟨.of_hem hhem rfl, .of_hem hhem (Int.le_refl 0) (by decide +kernel)⟩

theorem stid_isolated_ended :
    ∃ stid, stidSend 270 (fun k => k = 3) (endedThenSpoilt.map Sent.mark) = .done stid ∧
      (∀ k, ∀ up ∈ stid.feeds k, OwnPacket (fun c => c.2 = some (Origin.data k)) up) ∧
      ∀ isi (sent' : List (Sent UInt8 270)), List.Forall₂ (AgreeBut isi) endedThenSpoilt sent' →
        Harmless (stidStreamInit 270 fun k => k = 3) (sent'.map Sent.mark) →
        ∃ stid', stidSend 270 (fun k => k = 3) (sent'.map Sent.mark) = .done stid' ∧
          ∀ k, k ≠ isi → stid'.feeds k = stid.feeds k :=
  stid_isolated _ _ endedThenSpoilt_harmless

/-- The start of a BBFRAME of ISI 1 with 400 data bytes. -/
def brokenOffPacket : StidPacket UInt8 270 :=
  .sample 0xB8 ([0x00, 0x01, 0x00, 0x00, 0x0C, 0x80, 0x00, 0x00, 0x00, 0x25] ++
    List.replicate 169 0x11) (by decide +kernel)

/-- A BBFRAME of ISI 1 that breaks off, then one of ISI 2 with a damaged header. -/
def brokenOff : List (Sent UInt8 270) :=
  [.intact brokenOffPacket [] (by decide) (by simp),
    .damaged 2 [spoiltPacket] spoiltPacket_closed]

/-- The packet delivered to an id by the end of a run, if there is one. -/
def firstFed (out : Outcome (StidStream (Marked Origin))) (k : ℕ) :
    Option (List (Marked Origin)) :=
  match out with
  | .done stid => (stid.feeds k).head?
  | _ => none

/-- The last byte delivered is one of the damaged BBFRAME. -/
theorem brokenOff_leaks :
    ((firstFed (stidSend 270 (fun k => k = 1) (brokenOff.map Sent.mark)) 1).bind
      fun up => up[187]?).map Prod.snd = some (some Origin.other) := by
  decide +kernel

theorem stid_not_isolated :
    ¬ ∀ (subs : ℕ → Bool) (sent : List (Sent UInt8 270)) (stid : StidStream (Marked Origin)),
      stidSend 270 subs (sent.map Sent.mark) = .done stid →
      ∀ k, ∀ up ∈ stid.feeds k, OwnPacket (fun c => c.2 = some (Origin.data k)) up := by
  intro hclaim
  have hleak := brokenOff_leaks
  rw [Option.map_eq_some_iff] at hleak
  obtain ⟨c, hc, hother⟩ := hleak
  rw [Option.bind_eq_some_iff] at hc
  obtain ⟨up, hup, hlast⟩ := hc
  unfold firstFed at hup
  split at hup
  · rename_i stid hsend
    obtain ⟨bytes, rfl, hbytes⟩ := hclaim _ _ stid hsend 1 up (List.mem_of_head? hup)
    rw [withSync, List.getElem?_cons_succ] at hlast
    have hmark : c.2 = some (Origin.data 1) := hbytes c (List.mem_of_getElem? hlast)
    rw [hother] at hmark
    cases hmark
  · cases hup

end Demux

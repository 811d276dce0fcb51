import NeumoDrivers.Demux.Lookup
import NeumoDrivers.Demux.Subscriptions

/-! Sub-streams that come and go while packets are taken in.

    `Served` is an embedded stream with the number of references to each of its sub-streams. A
    sub-stream has a place: below `placeLimit` the key of its entry in `bbf_streams`, from there on
    one that `xa_erase` gave it when its entry was removed. What is freed stays at its place, so that
    a pointer to it still leads there: no memory is given out twice. When the last reference is
    released the entry erased is that of the id the sub-stream has at that time, which parse_bbheader
    may have changed. -/

namespace Demux
open Function

variable {β : Type} [Cell β]

inductive Embedding (β : Type) where
  | stid (stid : StidStream β)
  | t2mi (t2mi : T2miStream β)

namespace Embedding

def init (type : EmbeddedStreamType) (embeddingPid : ℤ) : Embedding β :=
  match type with
  | .stid => .stid (stidStreamInit embeddingPid fun _ => false)
  | .t2mi => .t2mi (t2miStreamInit embeddingPid fun _ => false)

def emb : Embedding β → EmbeddedStream β
  | .stid s => s.emb
  | .t2mi s => s.emb

def setEmb (e : Embedding β) (emb : EmbeddedStream β) : Embedding β :=
  match e with
  | .stid s => .stid { s with emb := emb }
  | .t2mi s => .t2mi { s with emb := emb }

/-- The packet is taken in and the result is the stream given. -/
def Adds (packet : Packet β) : Embedding β → Embedding β → Prop
  | .stid s, .stid s' => stidStreamAddPacket s packet = .done s'
  | .t2mi s, .t2mi s' => t2miStreamAddPacket s packet = .done s'
  | _, _ => False

/-- The entry for the stream id being received. -/
def sought : Embedding β → Option ℕ
  | .stid s => s.sought
  | .t2mi s => s.sought

/-- Every header in a packet is taken over under the key it is looked up with; for STID it always
    is. -/
def OwnIsis : Embedding β → Packet β → Prop
  | .stid _, _ => True
  | .t2mi s, packet => s.OwnIsis packet

/-- `currentBbf` is what a lookup finds. -/
def Cached : Embedding β → Prop
  | .stid s => s.Cached
  | .t2mi s => s.Cached

/-- The entry under a key bears on the lookup for the stream id being received. -/
def Seeks : Embedding β → ℕ → Prop
  | .stid s, k => s.emb.currentIsi = k
  | .t2mi s, k =>
    s.plpId = k ∨
      k = defaultKey ∧ 0 ≤ s.plpId ∧ s.plpId = s.defaultIsi ∧ s.emb.bbfStreams s.plpId.toNat = none

/-- What every packet keeps. -/
def Sane : Embedding β → Prop
  | .stid s => s.Matched
  | .t2mi s => s.Inv

omit [Cell β] in
@[simp] theorem emb_setEmb (e : Embedding β) (emb : EmbeddedStream β) :
    (e.setEmb emb).emb = emb := by
  cases e <;> rfl

end Embedding

/-- A new sub-stream under a key. -/
def EmbeddedStream.register (emb : EmbeddedStream β) (key : ℕ) : EmbeddedStream β :=
  { emb with bbfStreams := update emb.bbfStreams key (some (bbframesStreamInit key)) }

/-- What stood under a key gets another place, and the pointer to it follows. -/
def EmbeddedStream.moveOut (emb : EmbeddedStream β) (key place : ℕ) : EmbeddedStream β :=
  { emb with
    bbfStreams := update (update emb.bbfStreams key none) place (emb.bbfStreams key)
    currentBbf := if emb.currentBbf = some key then some place else emb.currentBbf }

section
variable (emb : EmbeddedStream β) (key place : ℕ) {k : ℕ}

@[simp] theorem EmbeddedStream.register_self :
    (emb.register key).bbfStreams key = some (bbframesStreamInit key) := update_self ..

@[simp] theorem EmbeddedStream.register_ne (h : k ≠ key) :
    (emb.register key).bbfStreams k = emb.bbfStreams k := update_of_ne h ..

omit [Cell β]

@[simp] theorem EmbeddedStream.moveOut_place :
    (emb.moveOut key place).bbfStreams place = emb.bbfStreams key := update_self ..

theorem EmbeddedStream.moveOut_key (h : key ≠ place) :
    (emb.moveOut key place).bbfStreams key = none :=
  (update_of_ne h ..).trans (update_self ..)

theorem EmbeddedStream.moveOut_ne (h : k ≠ place) (h' : k ≠ key) :
    (emb.moveOut key place).bbfStreams k = emb.bbfStreams k :=
  (update_of_ne h ..).trans (update_of_ne h' ..)

theorem EmbeddedStream.moveOut_currentBbf :
    (emb.moveOut key place).currentBbf = some k ↔
      emb.currentBbf = some key ∧ k = place ∨ emb.currentBbf = some k ∧ k ≠ key := by
  simp only [EmbeddedStream.moveOut]
  by_cases hkey : emb.currentBbf = some key
  · rw [if_pos hkey, hkey]
    constructor
    · rintro hk
      exact Or.inl ⟨rfl, (Option.some.inj hk).symm⟩
    · rintro (⟨_, hk⟩ | ⟨hk, hne⟩)
      · exact congrArg some hk.symm
      · exact absurd (Option.some.inj hk).symm hne
  · rw [if_neg hkey]
    constructor
    · intro hk
      refine Or.inr ⟨hk, ?_⟩
      rintro rfl
      exact hkey hk
    · rintro (⟨h, -⟩ | ⟨hk, -⟩)
      · exact absurd h hkey
      · exact hk

end

structure Served (β : Type) where
  stream : Embedding β
  refs : ℕ → ℕ
  erased : ℕ

namespace Served

/-- `dvb_dmx_find_or_alloc_bbf_stream`. -/
def allocate (s : Served β) (isi : ℤ) : Served β :=
  let key := bbfKey isi
  let emb := s.stream.emb
  match emb.bbfStreams key with
  | none =>
    { s with stream := s.stream.setEmb (emb.register key), refs := update s.refs key 1 }
  | some _ => { s with refs := update s.refs key (s.refs key + 1) }

/-- `xa_erase`: the sub-stream that stood under the key, if there is one, gets a place outside. -/
def erase (s : Served β) (key : ℕ) : Served β :=
  let emb := s.stream.emb
  match emb.bbfStreams key with
  | none => s
  | some _ =>
    let place := placeLimit + s.erased
    { stream := s.stream.setEmb (emb.moveOut key place)
      refs := update (update s.refs key 0) place (s.refs key)
      erased := s.erased + 1 }

/-- `kref_put` on the sub-stream at a place, with `bbframes_stream_release_`. -/
def release (s : Served β) (k : ℕ) : Served β :=
  let s := { s with refs := update s.refs k (s.refs k - 1) }
  if s.refs k = 0 then
    match s.stream.emb.bbfStreams k with
    | none => s
    | some bbf => s.erase (bbfKey bbf.isi)
  else s

inductive Event (β : Type) where
  | packet (packet : Packet β)
  | allocate (isi : ℤ)
  | release (k : ℕ)

/-- Packets, allocations and releases in any order, from the allocation that sets the embedded stream
    up to the release of its last sub-stream. Ids are C `int`s, and only what is held is released. -/
inductive Run (Good : Served β → Event β → Prop) : Served β → Prop where
  | init (type : EmbeddedStreamType) (embeddingPid isi : ℤ) : isi < placeLimit →
      Run Good (allocate ⟨.init type embeddingPid, fun _ => 0, 0⟩ isi)
  | packet {s : Served β} {stream : Embedding β} (packet : Packet β) : Run Good s →
      (∃ k, 0 < s.refs k) → Good s (.packet packet) → s.stream.Adds packet stream →
      Run Good { s with stream := stream }
  | allocate {s : Served β} (isi : ℤ) : Run Good s → (∃ k, 0 < s.refs k) → isi < placeLimit →
      Good s (.allocate isi) → Run Good (s.allocate isi)
  | release {s : Served β} (k : ℕ) : Run Good s → 0 < s.refs k → Good s (.release k) →
      Run Good (s.release k)

/-- The entries of `bbf_streams` are the sub-streams that are referred to: none has been freed, and
    none that is referred to is missing. -/
structure Intact (s : Served β) : Prop where
  entries : ∀ k < placeLimit, (s.stream.emb.bbfStreams k).isSome = true ↔ 0 < s.refs k
  outside : ∀ k, placeLimit ≤ k → s.refs k = 0

/-- The condition on a step under which every sub-stream keeps the id it was registered with. -/
def OwnIsis (s : Served β) : Event β → Prop
  | .packet packet => s.stream.OwnIsis packet
  | _ => True

/-- The invariant of runs whose steps meet it. -/
structure Kept (s : Served β) : Prop where
  intact : s.Intact
  tied : s.stream.emb.Tied
  fresh : ∀ k, placeLimit + s.erased ≤ k → s.stream.emb.bbfStreams k = none
  sane : s.stream.Sane

omit [Cell β] in
theorem bbfKey_self (k : ℕ) : bbfKey k = k := by
  rw [bbfKey, if_neg (by omega), Int.toNat_natCast]

omit [Cell β] in
theorem bbfKey_lt {isi : ℤ} (h : isi < placeLimit) : bbfKey isi < placeLimit := by
  rw [bbfKey]
  split
  · decide
  · omega

/-! ### Single steps -/

theorem allocate_new {s : Served β} {isi : ℤ} (h : s.stream.emb.bbfStreams (bbfKey isi) = none) :
    s.allocate isi =
      { s with
        stream := s.stream.setEmb (s.stream.emb.register (bbfKey isi))
        refs := update s.refs (bbfKey isi) 1 } := by
  simp only [allocate, h]

theorem allocate_known {s : Served β} {isi : ℤ} {b : BbframesStream β}
    (h : s.stream.emb.bbfStreams (bbfKey isi) = some b) :
    s.allocate isi = { s with refs := update s.refs (bbfKey isi) (s.refs (bbfKey isi) + 1) } := by
  simp only [allocate, h]

omit [Cell β] in
theorem release_shared {s : Served β} {k : ℕ} (h : s.refs k - 1 ≠ 0) :
    s.release k = { s with refs := update s.refs k (s.refs k - 1) } := by
  simp only [release, update_self]
  exact if_neg h

omit [Cell β] in
/-- The last reference to an entry whose id is its key: that entry goes. -/
theorem release_last {s : Served β} {k : ℕ} {b : BbframesStream β} (href : s.refs k = 1)
    (hb : s.stream.emb.bbfStreams k = some b) (hisi : b.isi = k) :
    s.release k =
      { stream := s.stream.setEmb (s.stream.emb.moveOut k (placeLimit + s.erased))
        refs := update (update s.refs k 0) (placeLimit + s.erased) 0
        erased := s.erased + 1 } := by
  simp only [release, update_self, href, Nat.sub_self, if_true, hb, hisi, bbfKey_self, erase,
    update_idem]

/-! ### What the steps keep -/

theorem sane_register {e : Embedding β} (h : e.Sane) {key : ℕ}
    (hnone : e.emb.bbfStreams key = none) : (e.setEmb (e.emb.register key)).Sane := by
  cases e with
  | stid s => exact h
  | t2mi t =>
    refine ⟨h.header, h.bbheader, h.crc, h.unsynced, h.between, h.payload, ?_, ?_⟩
    · intro k hk
      obtain ⟨b, hb, hupl⟩ := h.current k hk
      have hne : k ≠ key := by
        rintro rfl
        cases hnone.symm.trans hb
      exact ⟨b, (EmbeddedStream.register_ne _ _ hne).trans hb, hupl⟩
    · intro k b hb hmode
      by_cases hk : k = key
      · subst hk
        have hnew := (EmbeddedStream.register_self t.emb k).symm.trans hb
        rw [Option.some.injEq] at hnew
        subst hnew
        cases hmode
      · exact h.hem k b ((EmbeddedStream.register_ne _ _ hk).symm.trans hb) hmode

omit [Cell β] in
/-- An entry that moves to a free place, with the pointer to it. -/
theorem sane_moveOut {e : Embedding β} (h : e.Sane) {key place : ℕ} (hplace : placeLimit ≤ place)
    (hfree : e.emb.bbfStreams place = none) : (e.setEmb (e.emb.moveOut key place)).Sane := by
  cases e with
  | stid s =>
    intro k hk hcur
    rcases (EmbeddedStream.moveOut_currentBbf ..).mp hcur with ⟨_, rfl⟩ | ⟨hcur, _⟩
    · omega
    · exact h k hk hcur
  | t2mi t =>
    refine ⟨h.header, h.bbheader, h.crc, h.unsynced, h.between, ?_, ?_, ?_⟩
    · rcases h.payload with hpay | hpay | hpay
      · exact Or.inl hpay
      · exact Or.inr (Or.inl hpay)
      · refine Or.inr (Or.inr (Option.eq_none_iff_forall_ne_some.mpr fun k hk => ?_))
        rcases (EmbeddedStream.moveOut_currentBbf ..).mp hk with ⟨hcur, _⟩ | ⟨hcur, _⟩
        · cases hpay.symm.trans hcur
        · cases hpay.symm.trans hcur
    · intro k hk
      rcases (EmbeddedStream.moveOut_currentBbf ..).mp hk with ⟨hcur, rfl⟩ | ⟨hcur, hne⟩
      · obtain ⟨b, hb, hupl⟩ := h.current key hcur
        exact ⟨b, (EmbeddedStream.moveOut_place ..).trans hb, hupl⟩
      · obtain ⟨b, hb, hupl⟩ := h.current k hcur
        have hplace' : k ≠ place := by
          rintro rfl
          cases hfree.symm.trans hb
        exact ⟨b, (EmbeddedStream.moveOut_ne _ _ _ hplace' hne).trans hb, hupl⟩
    · intro k b hb
      by_cases hk : k = place
      · subst hk
        exact h.hem key b ((EmbeddedStream.moveOut_place ..).symm.trans hb)
      · by_cases hkey : k = key
        · subst hkey
          cases (EmbeddedStream.moveOut_key _ _ _ hk).symm.trans hb
        · exact h.hem k b ((EmbeddedStream.moveOut_ne _ _ _ hk hkey).symm.trans hb)

theorem init_kept (type : EmbeddedStreamType) (embeddingPid : ℤ) :
    Kept (⟨.init type embeddingPid, fun _ => 0, 0⟩ : Served β) := by
  cases type with
  | stid =>
    refine ⟨⟨fun k _ => ?_, fun _ _ => rfl⟩, ?_, fun _ _ => rfl, ?_⟩
    · exact ⟨by rintro ⟨⟩, by rintro ⟨⟩⟩
    · rintro k _ b ⟨⟩
    · rintro k _ ⟨⟩
  | t2mi =>
    refine ⟨⟨fun k _ => ?_, fun _ _ => rfl⟩, ?_, fun _ _ => rfl, t2miStreamReset_inv _ _⟩
    · exact ⟨by rintro ⟨⟩, by rintro ⟨⟩⟩
    · rintro k _ b ⟨⟩

theorem allocate_kept {s : Served β} (hs : s.Kept) {isi : ℤ} (hisi : isi < placeLimit) :
    (s.allocate isi).Kept := by
  have hkey : bbfKey isi < placeLimit := bbfKey_lt hisi
  have hother : ∀ n k, k ≠ bbfKey isi → update s.refs (bbfKey isi) n k = s.refs k :=
    fun n k hk => update_of_ne hk n s.refs
  cases hb : s.stream.emb.bbfStreams (bbfKey isi) with
  | none =>
    rw [allocate_new hb]
    refine ⟨⟨fun k hk => ?_, fun k hk => ?_⟩, fun k hk b' hb' => ?_, fun k hk => ?_,
      sane_register hs.sane hb⟩
    · rw [Embedding.emb_setEmb]
      by_cases hkk : k = bbfKey isi
      · simp [hkk]
      · simp only [EmbeddedStream.register_ne _ _ hkk, hother _ k hkk]
        exact hs.intact.entries k hk
    · simp only [hother _ k (show k ≠ bbfKey isi by omega)]
      exact hs.intact.outside k hk
    · rw [Embedding.emb_setEmb] at hb'
      by_cases hkk : k = bbfKey isi
      · subst hkk
        rw [EmbeddedStream.register_self, Option.some.injEq] at hb'
        exact hb' ▸ rfl
      · rw [EmbeddedStream.register_ne _ _ hkk] at hb'
        exact hs.tied k hk b' hb'
    · rw [Embedding.emb_setEmb, EmbeddedStream.register_ne _ _ (by omega)]
      exact hs.fresh k hk
  | some b =>
    rw [allocate_known hb]
    refine ⟨⟨fun k hk => ?_, fun k hk => ?_⟩, hs.tied, hs.fresh, hs.sane⟩
    · by_cases hkk : k = bbfKey isi
      · simp [hkk, hb]
      · simp only [hother _ k hkk]
        exact hs.intact.entries k hk
    · simp only [hother _ k (show k ≠ bbfKey isi by omega)]
      exact hs.intact.outside k hk

omit [Cell β] in
/-- What is referred to is an entry, under the id it has. -/
theorem Kept.entry {s : Served β} (hs : s.Kept) {k : ℕ} (hk : 0 < s.refs k) :
    k < placeLimit ∧ ∃ b, s.stream.emb.bbfStreams k = some b ∧ b.isi = k := by
  have hlt : k < placeLimit := by
    by_contra hge
    have := hs.intact.outside k (by omega)
    omega
  obtain ⟨b, hb⟩ := Option.isSome_iff_exists.mp ((hs.intact.entries k hlt).mpr hk)
  exact ⟨hlt, b, hb, hs.tied k hlt b hb⟩

omit [Cell β] in
theorem release_kept {s : Served β} (hs : s.Kept) {k : ℕ} (hk : 0 < s.refs k) :
    (s.release k).Kept := by
  obtain ⟨hlt, b, hb, hisi⟩ := hs.entry hk
  by_cases hlast : s.refs k = 1
  · rw [release_last hlast hb hisi]
    have hfree := hs.fresh (placeLimit + s.erased) (Nat.le_refl _)
    refine ⟨⟨fun j hj => ?_, fun j hj => ?_⟩, fun j hj b' hb' => ?_, fun j hj => ?_,
      sane_moveOut hs.sane (by omega) hfree⟩
    · have hplace : j ≠ placeLimit + s.erased := by omega
      rw [Embedding.emb_setEmb]
      simp only [update_of_ne hplace]
      by_cases hjk : j = k
      · subst hjk
        simp [EmbeddedStream.moveOut_key _ _ _ hplace]
      · rw [EmbeddedStream.moveOut_ne _ _ _ hplace hjk, update_of_ne hjk]
        exact hs.intact.entries j hj
    · by_cases hplace : j = placeLimit + s.erased
      · simp only [hplace, update_self]
      · simp only [update_of_ne hplace, update_of_ne (show j ≠ k by omega)]
        exact hs.intact.outside j hj
    · have hplace : j ≠ placeLimit + s.erased := by omega
      rw [Embedding.emb_setEmb] at hb'
      by_cases hjk : j = k
      · subst hjk
        cases (EmbeddedStream.moveOut_key _ _ _ hplace).symm.trans hb'
      · rw [EmbeddedStream.moveOut_ne _ _ _ hplace hjk] at hb'
        exact hs.tied j hj b' hb'
    · have hj' : placeLimit + (s.erased + 1) ≤ j := hj
      rw [Embedding.emb_setEmb, EmbeddedStream.moveOut_ne _ _ _ (by omega) (by omega)]
      exact hs.fresh j (by omega)
  · rw [release_shared (by omega)]
    refine ⟨⟨fun j hj => ?_, fun j hj => ?_⟩, hs.tied, hs.fresh, hs.sane⟩
    · by_cases hjk : j = k
      · subst hjk
        simp only [update_self, hb, Option.isSome_some, true_iff]
        omega
      · simp only [update_of_ne hjk]
        exact hs.intact.entries j hj
    · simp only [update_of_ne (show j ≠ k by omega)]
      exact hs.intact.outside j hj

/-- A packet whose headers keep to their ISIs. -/
theorem adds_keeps {e e' : Embedding β} (hsane : e.Sane) (ht : e.emb.Tied) {packet : Packet β}
    (hown : e.OwnIsis packet) (h : e.Adds packet e') :
    SameIds e.emb e'.emb ∧ e'.Sane ∧ (e.Cached → e'.Cached) := by
  cases e with
  | stid s =>
    cases e' with
    | stid s' =>
      have hkeeps := stidStreamAddPacket_keeps hsane ht h
      exact ⟨hkeeps.ids, hkeeps.matched, hkeeps.cached⟩
    | t2mi s' => exact h.elim
  | t2mi s =>
    cases e' with
    | stid s' => exact h.elim
    | t2mi s' =>
      have hkeeps := t2miStreamAddPacket_keeps hsane ht hown h
      exact ⟨hkeeps.ids, T2miStream.Inv.add hsane h, hkeeps.cached⟩

theorem packet_kept {s : Served β} (hs : s.Kept) {packet : Packet β} {stream : Embedding β}
    (hown : s.stream.OwnIsis packet) (h : s.stream.Adds packet stream) :
    Kept { s with stream := stream } := by
  obtain ⟨hids, hsane, _⟩ := adds_keeps hs.sane hs.tied hown h
  refine ⟨⟨?_, hs.intact.outside⟩, hids.tied hs.tied, ?_, hsane⟩
  · intro k hk
    rw [hids.isSome]
    exact hs.intact.entries k hk
  · intro k hk
    have hnone := hs.fresh k hk
    have hsome := hids.isSome k
    rw [hnone, Option.isSome_none] at hsome
    exact Option.not_isSome_iff_eq_none.mp (by rw [hsome]; exact Bool.false_ne_true)

/-- Every reachable state, as long as the headers keep to their ISIs. -/
theorem Run.kept {Good : Served β → Event β → Prop}
    (hgood : ∀ s packet, Good s (.packet packet) → s.stream.OwnIsis packet) {s : Served β}
    (h : Run Good s) : s.Kept := by
  induction h with
  | init type embeddingPid isi hisi => exact allocate_kept (init_kept type embeddingPid) hisi
  | packet packet _ _ hg hadd ih => exact packet_kept ih (hgood _ packet hg) hadd
  | allocate isi _ _ hisi _ ih => exact allocate_kept ih hisi
  | release k _ hk _ ih => exact release_kept ih hk

/-! ### Erasing -/

/-- As long as the headers keep to their ISIs, the last release of a sub-stream removes its own entry
    and no other: no entry is ever that of a freed sub-stream, and none in use is missing. -/
theorem erased_under_own_key {s : Served β} (h : Run OwnIsis s) :
    s.Intact ∧ ∀ k, s.refs k = 1 → ∀ j < placeLimit,
      (s.release k).stream.emb.bbfStreams j =
        if j = k then none else s.stream.emb.bbfStreams j := by
  have hs : s.Kept := h.kept fun _ _ hown => hown
  refine ⟨hs.intact, fun k hk j hj => ?_⟩
  obtain ⟨hlt, b, hb, hisi⟩ := hs.entry (show 0 < s.refs k by omega)
  rw [release_last hk hb hisi, Embedding.emb_setEmb]
  have hplace : j ≠ placeLimit + s.erased := by omega
  by_cases hjk : j = k
  · subst hjk
    rw [if_pos rfl]
    exact EmbeddedStream.moveOut_key _ _ _ hplace
  · rw [if_neg hjk]
    exact EmbeddedStream.moveOut_ne _ _ _ hplace hjk

/-- Two sub-streams of an STID stream on pid 270, of which the second goes again. -/
def twoSubs : Served UInt8 := ((allocate ⟨.init .stid 270, fun _ => 0, 0⟩ 5).allocate 7).release 7

theorem erased_under_own_key_twoSubs :
    twoSubs.Intact ∧ ∀ k, twoSubs.refs k = 1 → ∀ j < placeLimit,
      (twoSubs.release k).stream.emb.bbfStreams j =
        if j = k then none else twoSubs.stream.emb.bbfStreams j :=
  erased_under_own_key
    (((Run.init .stid 270 5 (by decide)).allocate 7 ⟨5, by decide⟩ (by decide) trivial).release 7
      (by decide) trivial)

/-- A packet of pid 270 in which a BBFRAME of PLP 3 and ISI 3 begins. -/
def plp3Packet : Packet UInt8 := Packet.ofList
  [0x47, 0x41, 0x0E, 0x10, 0x00,
    0x00, 0x00, 0x00, 0x00, 0x06, 0x40,
    0x00, 0x03, 0x00, 0x00, 0x03, 0x00, 0x00, 0x05, 0xD8, 0x00, 0x00, 0x00, 0xB0]

/-- A T2-MI stream on pid 270 with a user that asks for no PLP in particular. -/
def anyPlp : Served UInt8 := allocate ⟨.init .t2mi 270, fun _ => 0, 0⟩ (-1)

def anyPlpT2mi : T2miStream UInt8 :=
  let t2mi : T2miStream UInt8 := t2miStreamInit 270 fun _ => false
  { t2mi with emb := t2mi.emb.register defaultKey }

/-- The header leaves the sub-stream with another id than it is registered under. -/
theorem anyPlp_retagged :
    ∃ stream, anyPlp.stream.Adds plp3Packet stream ∧
      (stream.emb.bbfStreams defaultKey).map BbframesStream.isi = some 3 ∧
      (stream.emb.bbfStreams 3).isSome = false := by
  obtain ⟨t, hadd, hafter⟩ := Outcome.holds_iff.mp
    (show (t2miStreamAddPacket anyPlpT2mi plp3Packet).holds (fun t =>
        decide ((t.emb.bbfStreams defaultKey).map BbframesStream.isi = some 3 ∧
          (t.emb.bbfStreams 3).isSome = false)) = true by decide +kernel)
  exact ⟨.t2mi t, hadd, of_decide_eq_true hafter⟩

theorem freed_stream_stays :
    ¬ ∀ s : Served UInt8, Run (fun _ _ => True) s → s.Intact := by
  intro hclaim
  obtain ⟨stream, hadd, hisi, hthree⟩ := anyPlp_retagged
  obtain ⟨b, hb, hb3⟩ := Option.map_eq_some_iff.mp hisi
  have hrun : Run (fun _ _ => True) anyPlp := .init .t2mi 270 (-1) (by decide)
  have hpacket := hrun.packet plp3Packet ⟨defaultKey, by decide⟩ trivial hadd
  have hheld : 0 < anyPlp.refs defaultKey := by decide
  have hintact := hclaim _ (hpacket.release defaultKey hheld trivial)
  have hentry := hintact.entries defaultKey (by decide)
  have hrefs : anyPlp.refs defaultKey - 1 = 0 := by decide
  have hkey : bbfKey b.isi = 3 := by
    rw [hb3]
    decide
  simp only [release, update_self, hrefs, if_true, hb, hkey, erase,
    Option.not_isSome_iff_eq_none.mp (ne_true_of_eq_false hthree)] at hentry
  simp only [Option.isSome_some, Nat.lt_irrefl, true_iff] at hentry

end Served

/-! ### The cached pointer -/

namespace Embedding
variable {e : Embedding β} {key place k : ℕ}

omit [Cell β] in
theorem sought_isSome (h : e.sought = some k) : (e.emb.bbfStreams k).isSome = true := by
  cases e with
  | stid s =>
    simp only [sought, StidStream.sought] at h
    split_ifs at h with _ hsome
    cases h
    exact hsome
  | t2mi s =>
    simp only [sought, T2miStream.sought] at h
    split_ifs at h
    obtain ⟨b, hb⟩ := selectPlp_some h
    exact Option.isSome_iff_exists.mpr ⟨b, hb⟩

omit [Cell β] in
theorem Cached.pointer (h : e.Cached) : e.emb.currentBbf = e.sought := by
  cases e with
  | stid s => exact StidStream.Cached.pointer h
  | t2mi s => exact T2miStream.Cached.pointer h

omit [Cell β] in
theorem Seeks.sought (h : e.Seeks key) (hkey : (e.emb.bbfStreams key).isSome = true) :
    e.sought = some key := by
  cases e with
  | stid s =>
    have hisi : s.emb.currentIsi = key := h
    have hkey' : (s.emb.bbfStreams key).isSome = true := hkey
    simp only [Embedding.sought, StidStream.sought, hisi, Int.toNat_natCast, if_pos hkey']
    exact if_neg (by omega)
  | t2mi s =>
    have hkey' : (s.emb.bbfStreams key).isSome = true := hkey
    rcases h with hplp | ⟨rfl, hpos, hdefault, hnone⟩
    · simp only [Embedding.sought, T2miStream.sought, selectPlp, hplp, Int.toNat_natCast,
        if_pos hkey']
      exact if_neg (by omega)
    · simp only [Embedding.sought, T2miStream.sought, selectPlp]
      rw [if_neg (by omega), hnone]
      simp only [Option.isSome_none, Bool.false_eq_true, if_false]
      exact if_pos ⟨hdefault, hkey'⟩

omit [Cell β] in
theorem seeks_of_sought (h : e.sought = some key) : e.Seeks key := by
  cases e with
  | stid s =>
    simp only [sought, StidStream.sought] at h
    split_ifs at h
    cases h
    exact (Int.toNat_of_nonneg (by omega)).symm
  | t2mi s =>
    simp only [sought, T2miStream.sought, selectPlp] at h
    split_ifs at h with hneg hsome hdefault
    · cases h
      exact Or.inl (Int.toNat_of_nonneg (by omega)).symm
    · cases h
      exact Or.inr ⟨rfl, by omega, hdefault.1, Option.not_isSome_iff_eq_none.mp hsome⟩

omit [Cell β] in
theorem Cached.seeks_lt (h : e.Cached) (hk : e.Seeks k) : k < placeLimit := by
  cases e with
  | stid s =>
    have hlt : s.emb.currentIsi < placeLimit := StidStream.Cached.isi h
    have hisi : s.emb.currentIsi = k := hk
    omega
  | t2mi s =>
    have hlt : s.plpId < placeLimit := T2miStream.Cached.plp h
    rcases hk with hplp | ⟨rfl, _⟩
    · omega
    · decide

omit [Cell β] in
/-- Two streams that differ in entries that do not bear on the lookup. -/
theorem sought_setEmb {emb : EmbeddedStream β} (hisi : emb.currentIsi = e.emb.currentIsi)
    (hsame : ∀ k, e.Seeks k → (emb.bbfStreams k).isSome = (e.emb.bbfStreams k).isSome) :
    (e.setEmb emb).sought = e.sought := by
  cases e with
  | stid s =>
    have hisi' : emb.currentIsi = s.emb.currentIsi := hisi
    simp only [setEmb, sought, StidStream.sought, hisi']
    by_cases hneg : s.emb.currentIsi < 0
    · rw [if_pos hneg, if_pos hneg]
    · have hentry := hsame s.emb.currentIsi.toNat (Int.toNat_of_nonneg (by omega)).symm
      rw [hentry]
      rfl
  | t2mi s =>
    simp only [setEmb, sought, T2miStream.sought, selectPlp]
    by_cases hneg : s.plpId < 0
    · rw [if_pos hneg, if_pos hneg]
    · have hentry := hsame s.plpId.toNat (Or.inl (Int.toNat_of_nonneg (by omega)).symm)
      rw [if_neg hneg, if_neg hneg, hentry]
      by_cases hsome : (s.emb.bbfStreams s.plpId.toNat).isSome = true
      · exact (if_pos hsome).trans (if_pos hsome).symm
      · refine (if_neg hsome).trans (Eq.trans ?_ (if_neg hsome).symm)
        by_cases hdefault : s.plpId = s.defaultIsi
        · have hentry' := hsame defaultKey (Or.inr ⟨rfl, by omega, hdefault,
            Option.not_isSome_iff_eq_none.mp hsome⟩)
          rw [hentry']
          rfl
        · rw [if_neg fun h => hdefault h.1, if_neg fun h => hdefault h.1]

omit [Cell β] in
/-- Whether an entry bears on the lookup is not changed by it. -/
theorem seeks_setEmb {emb : EmbeddedStream β} (hisi : emb.currentIsi = e.emb.currentIsi)
    (hsame : ∀ k, k ≠ key → k < placeLimit → emb.bbfStreams k = e.emb.bbfStreams k)
    (h : e.Seeks key) (hc : e.Cached) : (e.setEmb emb).Seeks key := by
  cases e with
  | stid s => exact hisi.trans h
  | t2mi s =>
    rcases h with hplp | ⟨rfl, hpos, hdefault, hnone⟩
    · exact Or.inl hplp
    · by_cases hplp : s.plpId.toNat = defaultKey
      · have hkey : s.plpId = defaultKey := by omega
        exact Or.inl hkey
      · have hlt : s.plpId < placeLimit := T2miStream.Cached.plp hc
        exact Or.inr ⟨rfl, hpos, hdefault, (hsame _ hplp (by omega)).trans hnone⟩

omit [Cell β] in
theorem Cached.setEmb {emb : EmbeddedStream β} (h : e.Cached)
    (hisi : emb.currentIsi = e.emb.currentIsi) (hcur : emb.currentBbf = e.emb.currentBbf)
    (hsame : ∀ k, e.Seeks k → (emb.bbfStreams k).isSome = (e.emb.bbfStreams k).isSome) :
    (e.setEmb emb).Cached := by
  have hsought := sought_setEmb hisi hsame
  have hpointer : emb.currentBbf = (e.setEmb emb).sought := by rw [hcur, hsought, h.pointer]
  cases e with
  | stid s =>
    have hlt : s.emb.currentIsi < placeLimit := StidStream.Cached.isi h
    exact ⟨Int.lt_of_le_of_lt (Int.le_of_eq hisi) hlt, hpointer⟩
  | t2mi s =>
    have hlt : s.plpId < placeLimit := T2miStream.Cached.plp h
    exact ⟨hlt, hpointer⟩

end Embedding

namespace Served

/-- The pointer is what a lookup would find now, and that is in use. -/
def Current (s : Served β) : Prop :=
  s.stream.emb.currentBbf = s.stream.sought ∧
    ∀ k, s.stream.emb.currentBbf = some k → 0 < s.refs k

/-- The condition on a step under which the pointer stays current: the headers keep to their ISIs, and
    no entry that bears on the lookup for the stream being received comes or goes. -/
def Undisturbed (s : Served β) : Event β → Prop
  | .packet packet => s.stream.OwnIsis packet
  | .allocate isi => s.refs (bbfKey isi) = 0 → ¬ s.stream.Seeks (bbfKey isi)
  | .release k => s.refs k = 1 → ¬ s.stream.Seeks k

theorem init_cached (type : EmbeddedStreamType) (embeddingPid : ℤ) :
    (Embedding.init type embeddingPid : Embedding β).Cached ∧
      ∀ k, ¬ (Embedding.init type embeddingPid : Embedding β).Seeks k := by
  have hneg : (-1 : ℤ) < placeLimit :=
    Int.lt_of_lt_of_le (Int.negSucc_lt_zero 0) (Int.natCast_nonneg placeLimit)
  cases type with
  | stid =>
    refine ⟨⟨hneg, rfl⟩, fun k hk => ?_⟩
    have hisi : (-1 : ℤ) = k := hk
    omega
  | t2mi =>
    refine ⟨⟨hneg, rfl⟩, ?_⟩
    rintro k (hplp | ⟨-, hpos, -⟩)
    · have hisi : (-1 : ℤ) = k := hplp
      omega
    · have hisi : (0 : ℤ) ≤ -1 := hpos
      omega

theorem allocate_cached {s : Served β} (hs : s.Kept) (hc : s.stream.Cached) {isi : ℤ}
    (hisi : isi < placeLimit) (hgood : Undisturbed s (.allocate isi)) :
    (s.allocate isi).stream.Cached := by
  cases hb : s.stream.emb.bbfStreams (bbfKey isi) with
  | some b =>
    rw [allocate_known hb]
    exact hc
  | none =>
    have hrefs : s.refs (bbfKey isi) = 0 := by
      have hentry := hs.intact.entries _ (bbfKey_lt hisi)
      rw [hb, Option.isSome_none] at hentry
      by_contra hpos
      cases hentry.mpr (Nat.pos_of_ne_zero hpos)
    rw [allocate_new hb]
    refine hc.setEmb rfl rfl fun k hk => ?_
    have hne : k ≠ bbfKey isi := by
      rintro rfl
      exact hgood hrefs hk
    rw [EmbeddedStream.register_ne _ _ hne]

theorem release_cached {s : Served β} (hs : s.Kept) (hc : s.stream.Cached) {k : ℕ}
    (hk : 0 < s.refs k) (hgood : Undisturbed s (.release k)) : (s.release k).stream.Cached := by
  by_cases hlast : s.refs k = 1
  · obtain ⟨hlt, b, hb, hisi⟩ := hs.entry hk
    have hseeks := hgood hlast
    rw [release_last hlast hb hisi]
    refine hc.setEmb rfl ?_ fun j hj => ?_
    · -- the pointer leads elsewhere
      refine if_neg fun hcur => hseeks (Embedding.seeks_of_sought ?_)
      rw [← hc.pointer, hcur]
    · have hne : j ≠ k := by
        rintro rfl
        exact hseeks hj
      have hjlt := hc.seeks_lt hj
      rw [EmbeddedStream.moveOut_ne _ _ _ (by omega) hne]
  · rw [release_shared (by omega)]
    exact hc

omit [Cell β] in
theorem Kept.current {s : Served β} (hs : s.Kept) (hc : s.stream.Cached) : s.Current := by
  refine ⟨hc.pointer, fun k hk => ?_⟩
  rw [hc.pointer] at hk
  exact (hs.intact.entries k (hc.seeks_lt (Embedding.seeks_of_sought hk))).mp
    (Embedding.sought_isSome hk)

theorem Run.cached {s : Served β} (h : Run Undisturbed s) : s.Kept ∧ s.stream.Cached := by
  induction h with
  | init type embeddingPid isi hisi =>
    obtain ⟨hc, hseeks⟩ := @init_cached β _ type embeddingPid
    have hs := @init_kept β _ type embeddingPid
    exact ⟨allocate_kept hs hisi, allocate_cached hs hc hisi fun _ => hseeks _⟩
  | packet packet _ _ hgood hadd ih =>
    obtain ⟨_, _, hcached⟩ := adds_keeps ih.1.sane ih.1.tied hgood hadd
    exact ⟨packet_kept ih.1 hgood hadd, hcached ih.2⟩
  | allocate isi _ _ hisi hgood ih =>
    exact ⟨allocate_kept ih.1 hisi, allocate_cached ih.1 ih.2 hisi hgood⟩
  | release k _ hk hgood ih =>
    exact ⟨release_kept ih.1 hk, release_cached ih.1 ih.2 hk hgood⟩

/-- As long as the headers keep to their ISIs and no entry that bears on the lookup comes or goes,
    `currentBbf` is the live entry for the stream id being received. An allocation or a release
    that does not keep to this makes it stale. -/
theorem current_bbf_live {s : Served β} (h : Run Undisturbed s) :
    s.Current ∧
      (∀ isi : ℤ, isi < placeLimit →
        ((s.allocate isi).Current ↔ Undisturbed s (.allocate isi))) ∧
      ∀ k, 0 < s.refs k → ((s.release k).Current ↔ Undisturbed s (.release k)) := by
  obtain ⟨hs, hc⟩ := h.cached
  refine ⟨hs.current hc, fun isi hisi => ⟨?_, fun hgood => ?_⟩, fun k hk => ⟨?_, fun hgood => ?_⟩⟩
  · -- the new entry would have to be what the pointer led to
    intro hcurrent hrefs hseeks
    have hentry := hs.intact.entries _ (bbfKey_lt hisi)
    have hb : s.stream.emb.bbfStreams (bbfKey isi) = none := by
      refine Option.not_isSome_iff_eq_none.mp fun hsome => ?_
      have := hentry.mp hsome
      omega
    rw [allocate_new hb] at hcurrent
    have hseeks' : (s.stream.setEmb (s.stream.emb.register (bbfKey isi))).Seeks (bbfKey isi) :=
      Embedding.seeks_setEmb rfl (fun k hk _ => EmbeddedStream.register_ne _ _ hk) hseeks hc
    have hfound := hseeks'.sought (by
      rw [Embedding.emb_setEmb, EmbeddedStream.register_self, Option.isSome_some])
    have hpointer := hcurrent.1
    simp only at hpointer
    rw [hfound, Embedding.emb_setEmb] at hpointer
    have hold := Embedding.sought_isSome (hc.pointer.symm.trans hpointer)
    rw [hb] at hold
    cases hold
  · exact (allocate_kept hs hisi).current (allocate_cached hs hc hisi hgood)
  · -- the pointer would lead to what is released
    intro hcurrent hlast hseeks
    obtain ⟨hlt, b, hb, hisi⟩ := hs.entry hk
    have hfound := hseeks.sought (Option.isSome_iff_exists.mpr ⟨b, hb⟩)
    rw [← hc.pointer] at hfound
    rw [release_last hlast hb hisi] at hcurrent
    have hused := hcurrent.2 (placeLimit + s.erased) (by
      rw [Embedding.emb_setEmb, EmbeddedStream.moveOut_currentBbf]
      exact Or.inl ⟨hfound, rfl⟩)
    simp only [update_self, Nat.lt_irrefl] at hused
  · exact (release_kept hs hk).current (release_cached hs hc hk hgood)

theorem current_bbf_live_twoSubs :
    twoSubs.Current ∧
      (∀ isi : ℤ, isi < placeLimit →
        ((twoSubs.allocate isi).Current ↔ Undisturbed twoSubs (.allocate isi))) ∧
      ∀ k, 0 < twoSubs.refs k → ((twoSubs.release k).Current ↔ Undisturbed twoSubs (.release k)) :=
  current_bbf_live
    (((Run.init .stid 270 5 (by decide)).allocate 7 ⟨5, by decide⟩ (by decide)
      (fun _ => (@init_cached UInt8 _ .stid 270).2 7)).release 7 (by decide)
      (fun _ => (@init_cached UInt8 _ .stid 270).2 7))

/-- A packet of pid 270 in which a BBFRAME of ISI 3 begins. -/
def isi3Packet : Packet UInt8 := Packet.ofList
  [0x47, 0x41, 0x0E, 0x10, 0x00, 0x80, 0x00, 0xB4, 0xB8,
    0x00, 0x03, 0x00, 0x00, 0x05, 0xD8, 0x00, 0x00, 0x00, 0xB0]

/-- An STID stream on pid 270 with a user of ISI 5. -/
def isi5 : Served UInt8 := allocate ⟨.init .stid 270, fun _ => 0, 0⟩ 5

def isi5Stid : StidStream UInt8 :=
  let stid : StidStream UInt8 := stidStreamInit 270 fun _ => false
  { stid with emb := stid.emb.register 5 }

/-- While ISI 3 is received nobody has subscribed to it. -/
theorem isi5_receives3 :
    ∃ s : StidStream UInt8, isi5.stream.Adds isi3Packet (.stid s) ∧ s.emb.currentBbf = none ∧
      s.emb.currentIsi = 3 ∧ (s.emb.bbfStreams 3).isSome = false := by
  obtain ⟨s, hadd, hafter⟩ := Outcome.holds_iff.mp
    (show (stidStreamAddPacket isi5Stid isi3Packet).holds (fun s =>
        decide (s.emb.currentBbf = none ∧ s.emb.currentIsi = 3 ∧
          (s.emb.bbfStreams 3).isSome = false)) = true by decide)
  exact ⟨s, hadd, of_decide_eq_true hafter⟩

theorem late_subscriber_missed :
    ¬ ∀ s : Served UInt8, Run (fun _ _ => True) s → s.Current := by
  intro hclaim
  obtain ⟨t, hadd, hcur, hisi, hthree⟩ := isi5_receives3
  have hnone := Option.not_isSome_iff_eq_none.mp (ne_true_of_eq_false hthree)
  have hrun : Run (fun _ _ => True) isi5 := .init .stid 270 5 (by decide)
  have hheld : 0 < isi5.refs 5 := by decide
  have hpacket := hrun.packet isi3Packet ⟨5, hheld⟩ trivial hadd
  have hcurrent := hclaim _ (hpacket.allocate 3 ⟨5, hheld⟩ (by decide) trivial)
  have hkey : bbfKey 3 = 3 := by decide
  have hpointer := hcurrent.1
  rw [allocate_new (by rw [hkey]; exact hnone), hkey, Embedding.emb_setEmb] at hpointer
  have hseeks : (Embedding.setEmb (.stid t) (t.emb.register 3)).Seeks 3 := hisi
  have hfound := hseeks.sought (by
    rw [Embedding.emb_setEmb, EmbeddedStream.register_self, Option.isSome_some])
  cases hcur.symm.trans (hpointer.trans hfound)

end Served

end Demux

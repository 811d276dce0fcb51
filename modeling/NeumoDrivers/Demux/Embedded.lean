import NeumoDrivers.Demux.Bbframes

/-! The part common to STID and T2-MI decoding (`struct embedded_stream`, `neumo-dvb-demux.c`).

    `bbfStreams` is the xarray of the sub-streams somebody subscribed to, under their ISI or PLP or
    under the key 256 of the stream asked for without an id. `currentBbf` is the cached pointer into
    it, kept as the key it was loaded from. -/

namespace Demux

/-- The key of the sub-stream that is subscribed to without an id. -/
def defaultKey : ℕ := 256

structure EmbeddedStream (β : Type) where
  embeddingPid : ℤ
  bbfStreams : ℕ → Option (BbframesStream β)
  payloadLen : ℤ
  packetCount : ℤ
  bbfHeaderCrc8 : ℤ
  currentIsi : ℤ
  currentBbf : Option ℕ
  ccCounter : ℤ
  isiPlpBitset : ℕ → BitVec 32
  highRolloffMode : ℕ → BitVec 32
  numStreams : ℤ
  matypes : ℕ → UInt8

/-- How a call ends: with the new state, in a loop that does not end, or writing outside an array. -/
inductive Outcome (σ : Type) where
  | done (s : σ)
  | hang
  | wild

variable {β : Type} [Cell β]

/-- Feed the inputs one by one, each to the state the one before left. -/
def Outcome.run {σ ι : Type} (step : σ → ι → Outcome σ) : σ → List ι → Outcome σ
  | s, [] => .done s
  | s, i :: is =>
    match step s i with
    | .done s' => Outcome.run step s' is
    | .hang => .hang
    | .wild => .wild

/-- The call ends well, in a state that passes the test. -/
def Outcome.holds {σ : Type} (test : σ → Bool) : Outcome σ → Bool
  | .done s => test s
  | _ => false

theorem Outcome.holds_iff {σ : Type} {test : σ → Bool} {x : Outcome σ} :
    x.holds test = true ↔ ∃ s, x = .done s ∧ test s = true := by
  cases x with
  | done s => exact ⟨fun h => ⟨s, rfl, h⟩, by rintro ⟨_, ⟨⟩, h⟩; exact h⟩
  | hang => exact ⟨by rintro ⟨⟩, by rintro ⟨_, ⟨⟩, _⟩⟩
  | wild => exact ⟨by rintro ⟨⟩, by rintro ⟨_, ⟨⟩, _⟩⟩

/-- Two calls end alike, with related states if they end well. -/
inductive Outcome.Rel {σ τ : Type} (r : σ → τ → Prop) : Outcome σ → Outcome τ → Prop where
  | done {s : σ} {t : τ} (h : r s t) : Rel r (.done s) (.done t)
  | hang : Rel r .hang .hang
  | wild : Rel r .wild .wild

/-- A step that refines another one does so over a whole run. -/
theorem Outcome.Rel.run {σ τ ι κ : Type} {r : σ → τ → Prop} {f : σ → ι → Outcome σ}
    {g : τ → κ → Outcome τ} {m : κ → ι} (hstep : ∀ s t i, r s t → Rel r (f s (m i)) (g t i)) :
    ∀ (is : List κ) (s : σ) (t : τ), r s t →
      Rel r (Outcome.run f s (is.map m)) (Outcome.run g t is)
  | [], _, _, h => .done h
  | i :: is, s, t, h => by
    have hi := hstep s t i h
    rw [List.map_cons, Outcome.run, Outcome.run]
    generalize f s (m i) = x, g t i = y at hi
    cases hi with
    | done h' => exact Outcome.Rel.run hstep is _ _ h'
    | hang => exact .hang
    | wild => exact .wild

/-- Running a list is running its parts one after the other. -/
theorem Outcome.run_append {σ ι : Type} (step : σ → ι → Outcome σ) (is js : List ι) (s t : σ)
    (h : Outcome.run step s is = .done t) :
    Outcome.run step s (is ++ js) = Outcome.run step t js := by
  induction is generalizing s with
  | nil =>
    rw [Outcome.run, Outcome.done.injEq] at h
    rw [List.nil_append, h]
  | cons i is ih =>
    rw [Outcome.run] at h
    rw [List.cons_append, Outcome.run]
    cases hs : step s i with
    | done s' => rw [hs] at h; exact ih s' h
    | hang => rw [hs] at h; cases h
    | wild => rw [hs] at h; cases h

/-- Along a run every step starts in a state in which `ok` holds of its input. -/
def Outcome.Meets {σ ι : Type} (step : σ → ι → Outcome σ) (ok : σ → ι → Prop) :
    σ → List ι → Prop
  | _, [] => True
  | s, i :: is => ok s i ∧ ∀ s', step s i = .done s' → Outcome.Meets step ok s' is

theorem Outcome.meets_append {σ ι : Type} {step : σ → ι → Outcome σ} {ok : σ → ι → Prop}
    {is js : List ι} {s : σ} (h : Outcome.Meets step ok s (is ++ js)) :
    Outcome.Meets step ok s is ∧
      ∀ t, Outcome.run step s is = .done t → Outcome.Meets step ok t js := by
  induction is generalizing s with
  | nil =>
    refine ⟨trivial, fun t ht => ?_⟩
    rw [Outcome.run, Outcome.done.injEq] at ht
    exact ht ▸ h
  | cons i is ih =>
    obtain ⟨hok, hrest⟩ := h
    refine ⟨⟨hok, fun s' hs => (ih (hrest s' hs)).1⟩, fun t ht => ?_⟩
    rw [Outcome.run] at ht
    cases hs : step s i with
    | done s' => rw [hs] at ht; exact (ih (hrest s' hs)).2 t ht
    | hang => rw [hs] at ht; cases ht
    | wild => rw [hs] at ht; cases ht

/-- What holds along a run holds along a run that it refines. -/
theorem Outcome.Meets.rel {σ τ ι κ : Type} {r : σ → τ → Prop} {f : σ → ι → Outcome σ}
    {g : τ → κ → Outcome τ} {m : κ → ι} {ok : σ → ι → Prop} {ok' : τ → κ → Prop}
    (hstep : ∀ s t i, r s t → Outcome.Rel r (f s (m i)) (g t i))
    (hok : ∀ s t i, r s t → ok s (m i) → ok' t i) :
    ∀ (is : List κ) (s : σ) (t : τ), r s t → Outcome.Meets f ok s (is.map m) →
      Outcome.Meets g ok' t is
  | [], _, _, _, _ => trivial
  | i :: is, s, t, h, hm => by
    refine ⟨hok s t i h hm.1, fun t' ht => ?_⟩
    have hi := hstep s t i h
    rw [ht] at hi
    generalize hs : f s (m i) = x at hi
    cases hi with
    | done h' => exact Outcome.Meets.rel hstep hok is _ _ h' (hm.2 _ hs)

theorem Outcome.Rel.mono {σ τ : Type} {r q : σ → τ → Prop} (h : ∀ s t, r s t → q s t)
    {x : Outcome σ} {y : Outcome τ} (hr : Outcome.Rel r x y) : Outcome.Rel q x y := by
  cases hr with
  | done h' => exact .done (h _ _ h')
  | hang => exact .hang
  | wild => exact .wild

/-- Two steps that keep step as long as the second meets a condition do so over a run that meets it. -/
theorem Outcome.Rel.run_meets {σ τ ι : Type} {r : σ → τ → Prop} {f : σ → ι → Outcome σ}
    {g : τ → ι → Outcome τ} {ok : τ → ι → Prop}
    (hstep : ∀ s t i, r s t → ok t i → Outcome.Rel r (f s i) (g t i)) :
    ∀ (is : List ι) (s : σ) (t : τ), r s t → Outcome.Meets g ok t is →
      Outcome.Rel r (Outcome.run f s is) (Outcome.run g t is)
  | [], _, _, h, _ => .done h
  | i :: is, s, t, h, hm => by
    have hi := hstep s t i h hm.1
    rw [Outcome.run, Outcome.run]
    generalize f s i = x at hi
    generalize hg : g t i = y at hi
    cases hi with
    | done h' => exact Outcome.Rel.run_meets hstep is _ _ h' (hm.2 _ hg)
    | hang => exact .hang
    | wild => exact .wild

/-- Reset prior to restarting decoding, e.g. after a crc error: every sub-stream restarts. -/
def embeddedStreamReset (emb : EmbeddedStream β) (fullReset : Bool) : EmbeddedStream β :=
  { emb with
    payloadLen := 0, packetCount := -1, bbfHeaderCrc8 := -1, currentIsi := -1, ccCounter := -1
    currentBbf := none
    isiPlpBitset := if fullReset then fun _ => 0 else emb.isiPlpBitset
    highRolloffMode := if fullReset then fun _ => 0 else emb.highRolloffMode
    numStreams := if fullReset then 0 else emb.numStreams
    matypes := if fullReset then fun _ => 0 else emb.matypes
    bbfStreams := fun k => (emb.bbfStreams k).map bbframesStreamReset }

/-- An embedded stream on a pid, with the sub-streams of `subs` subscribed. -/
def embeddedStreamInit (embeddingPid : ℤ) (subs : ℕ → Bool) : EmbeddedStream β :=
  embeddedStreamReset
    { embeddingPid := embeddingPid
      bbfStreams := fun k => if subs k then some (bbframesStreamInit k) else none
      payloadLen := 0, packetCount := 0, bbfHeaderCrc8 := 0, currentIsi := 0, currentBbf := none
      ccCounter := 0, isiPlpBitset := fun _ => 0, highRolloffMode := fun _ => 0, numStreams := 0
      matypes := fun _ => 0 } true

def bitOf (bits : ℕ → BitVec 32) (id : ℕ) : Bool := (bits (id / 32)).getLsbD (id % 32)

def setBit (bits : ℕ → BitVec 32) (id : ℕ) : ℕ → BitVec 32 :=
  Function.update bits (id / 32) (bits (id / 32) ||| 1#32 <<< (id % 32))

/-- Note the MATYPE of a stream; a stream seen with both kinds of roll-off uses the high ones. -/
def embeddedStreamSetMatype (emb : EmbeddedStream β) (streamId : ℕ) (matype : UInt8) :
    EmbeddedStream β :=
  if bitOf emb.isiPlpBitset streamId then
    let ro := matype &&& 3
    let oldRo := emb.matypes streamId &&& 3
    if ro = 3 then
      if oldRo ≠ 3 then { emb with highRolloffMode := setBit emb.highRolloffMode streamId } else emb
    else if oldRo = 3 then
      { emb with
        highRolloffMode := setBit emb.highRolloffMode streamId
        matypes := Function.update emb.matypes streamId matype }
    else emb
  else
    { emb with
      numStreams := emb.numStreams + 1
      matypes := Function.update emb.matypes streamId matype
      isiPlpBitset := setBit emb.isiPlpBitset streamId }

/-- Store a sub-stream back under its key. -/
def EmbeddedStream.put (emb : EmbeddedStream β) (k : ℕ) (bbf : BbframesStream β) :
    EmbeddedStream β :=
  { emb with bbfStreams := Function.update emb.bbfStreams k (some bbf) }

/-- The pid of a transport packet. -/
def tsPid (packet : Packet β) : ℤ := (packet.byte 1 &&& 0x1F).toNat * 256 + (packet.byte 2).toNat

/-- Bits 5 and 4 of byte 3: adaptation field, payload. -/
def hasAdaptationField (packet : Packet β) : Bool := packet.byte 3 &&& 0x20 ≠ 0

def hasPayload (packet : Packet β) : Bool := packet.byte 3 &&& 0x10 ≠ 0

section
omit [Cell β]
variable {emb : EmbeddedStream β} {k j : ℕ} {bbf : BbframesStream β}

@[simp] theorem EmbeddedStream.put_bbfStreams_self : (emb.put k bbf).bbfStreams k = some bbf := by
  simp [EmbeddedStream.put]

@[simp] theorem EmbeddedStream.put_bbfStreams_ne (h : j ≠ k) :
    (emb.put k bbf).bbfStreams j = emb.bbfStreams j := by
  simp [EmbeddedStream.put, h]

@[simp] theorem EmbeddedStream.put_currentBbf : (emb.put k bbf).currentBbf = emb.currentBbf := rfl

/-! Noting a MATYPE touches the statistics only. -/

variable (emb) (id : ℕ) (m : UInt8)

@[simp] theorem embeddedStreamSetMatype_bbfStreams :
    (embeddedStreamSetMatype emb id m).bbfStreams = emb.bbfStreams := by
  unfold embeddedStreamSetMatype; simp only; split_ifs <;> rfl

@[simp] theorem embeddedStreamSetMatype_currentBbf :
    (embeddedStreamSetMatype emb id m).currentBbf = emb.currentBbf := by
  unfold embeddedStreamSetMatype; simp only; split_ifs <;> rfl

@[simp] theorem embeddedStreamSetMatype_currentIsi :
    (embeddedStreamSetMatype emb id m).currentIsi = emb.currentIsi := by
  unfold embeddedStreamSetMatype; simp only; split_ifs <;> rfl

@[simp] theorem embeddedStreamSetMatype_packetCount :
    (embeddedStreamSetMatype emb id m).packetCount = emb.packetCount := by
  unfold embeddedStreamSetMatype; simp only; split_ifs <;> rfl

@[simp] theorem embeddedStreamSetMatype_ccCounter :
    (embeddedStreamSetMatype emb id m).ccCounter = emb.ccCounter := by
  unfold embeddedStreamSetMatype; simp only; split_ifs <;> rfl

@[simp] theorem embeddedStreamSetMatype_embeddingPid :
    (embeddedStreamSetMatype emb id m).embeddingPid = emb.embeddingPid := by
  unfold embeddedStreamSetMatype; simp only; split_ifs <;> rfl

end

end Demux

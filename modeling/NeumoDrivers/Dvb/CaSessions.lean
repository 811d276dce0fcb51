import NeumoDrivers.Dvb.CaSlots
import Mathlib.Data.List.Chain

/-! Messages and the sessions they come from.

    The receive buffer of a slot outlives a link session and an open file. Neither the shutdown of a
    slot nor a new link initialisation empties it, and the open flushes it only where there is none,
    against its own comment. So a message that a session left unfinished is completed by the next
    session's fragments of the same connection, unless none does. -/

namespace Dvb.CaSystem
open DvbRingbuffer

variable {n : ℕ} {s s' : CaSystem n} {ev : CaEvent n}

/-- Every message returned was received on its slot in one link session, after the device was last
    opened. -/
def OneSession (s : CaSystem n) : Prop :=
  ∀ r ∈ s.reads, ∀ c data, r.result = .ok (c, data) →
    ∃ session, ∀ f ∈ r.taken,
      f ∈ s.received r.slot ∧ f.session = session ∧ f.opening = r.opening

/-- No step continues what an earlier session left. A fragment does not come in behind an unfinished
    message of its connection that an earlier session of the slot began, and nothing is queued when
    the device is opened. -/
def StartsClean (s : CaSystem n) : CaEvent n → Prop
  | .receive slot bytes => ∀ f ∈ (s.queue slot (bytes.getD 0 0)).getLast?,
      f.isLast ∨ f.session = s.session slot
  | .open => ∀ slot c, s.queue slot c = []
  | _ => True

/-- A fragment that does not end its message is followed by one of its session. -/
def Continues (f g : Fragment) : Prop := f.isLast ∨ f.session = g.session

/-- What is queued of each connection was received on its slot after the last opening, and no message
    goes over from one session to the next. -/
structure Unmixed (s : CaSystem n) : Prop where
  chain : ∀ slot c, (s.queue slot c).IsChain Continues
  opening : ∀ slot c, ∀ f ∈ s.queue slot c, f.opening = s.opening
  source : ∀ slot c, ∀ f ∈ s.queue slot c, f ∈ s.received slot
  reads : s.OneSession

/-- The fragments of a message are of one session if none goes over to another. -/
theorem session_eq {parts : List Fragment} {f : Fragment} (h : (parts ++ [f]).IsChain Continues)
    (hparts : ∀ g ∈ parts, ¬ g.isLast) : ∀ g ∈ parts ++ [f], g.session = f.session := by
  induction parts with
  | nil =>
    intro g hg
    rw [List.mem_singleton.mp hg]
  | cons g parts ih =>
    obtain ⟨hg, hparts⟩ := List.forall_mem_cons.mp hparts
    rw [List.cons_append, List.isChain_cons] at h
    have hrest := ih h.2 hparts
    refine List.forall_mem_cons.mpr ⟨?_, hrest⟩
    cases parts with
    | nil => exact (h.1 f rfl).resolve_left hg
    | cons g' parts =>
      exact ((h.1 g' rfl).resolve_left hg).trans (hrest g' (by simp))

theorem Fresh.unmixed (h : s.Fresh) : s.Unmixed := by
  have hqueue : ∀ slot c, s.queue slot c = [] := by
    intro slot c
    rw [queue, taking, h.reader, h.log]
    rfl
  refine ⟨?_, ?_, ?_, ?_⟩
  · intro slot c
    rw [hqueue]
    exact .nil
  · intro slot c f hf
    rw [hqueue] at hf
    cases hf
  · intro slot c f hf
    rw [hqueue] at hf
    cases hf
  · intro r hr
    rw [h.reads] at hr
    cases hr

/-- A step that changes no queue. -/
theorem Unmixed.same (h : s.Unmixed) (hqueue : s'.queue = s.queue)
    (hreceived : s'.received = s.received) (hreads : s'.reads = s.reads)
    (hopening : s'.opening = s.opening ∨ ∀ slot c, s.queue slot c = []) : s'.Unmixed := by
  refine ⟨?_, ?_, ?_, ?_⟩
  · rw [hqueue]
    exact h.chain
  · intro slot c f hf
    rw [hqueue] at hf
    rcases hopening with hsame | hnil
    · rw [hsame]
      exact h.opening slot c f hf
    · rw [hnil] at hf
      cases hf
  · rw [hqueue, hreceived]
    exact h.source
  · rw [OneSession, hreceived, hreads]
    exact h.reads

variable [NeZero n]

theorem opening_same (hs : Step s ev s') (hopen : ev ≠ .open) : s'.opening = s.opening := by
  cases hs with
  | «open» => exact absurd rfl hopen
  | _ => rfl

omit [NeZero n] in
theorem Unmixed.receive (h : s.Unmixed) {slot : Fin n} {f : Fragment}
    (hclean : ∀ g ∈ (s.queue slot f.connectionId).getLast?, g.isLast ∨ g.session = f.session)
    (hf : f.opening = s.opening)
    (hqueue : ∀ slot' c, s'.queue slot' c = s.queue slot' c ++
      if slot' = slot then ofConnection c [f] else [])
    (hreceived : ∀ slot', s'.received slot' = s.received slot' ++
      if slot' = slot then [f] else [])
    (hreads : s'.reads = s.reads) (hopening : s'.opening = s.opening) : s'.Unmixed := by
  have hadded : ∀ slot' c, s'.queue slot' c = s.queue slot' c ∨
      slot' = slot ∧ c = f.connectionId ∧ s'.queue slot' c = s.queue slot' c ++ [f] := by
    intro slot' c
    rw [hqueue]
    split_ifs with hs
    · rw [ofConnection_singleton]
      split_ifs with hc
      · exact .inr ⟨hs, hc.symm, rfl⟩
      · exact .inl (List.append_nil _)
    · exact .inl (List.append_nil _)
  refine ⟨?_, ?_, ?_, ?_⟩
  · intro slot' c
    rcases hadded slot' c with heq | ⟨rfl, rfl, heq⟩
    · rw [heq]
      exact h.chain slot' c
    · rw [heq]
      refine (h.chain slot' _).append (.singleton f) ?_
      rintro g hg _ ⟨⟩
      exact hclean g hg
  · intro slot' c g hg
    rw [hopening]
    rcases hadded slot' c with heq | ⟨-, -, heq⟩
    · rw [heq] at hg
      exact h.opening slot' c g hg
    · rw [heq] at hg
      rcases List.mem_append.mp hg with hg | hg
      · exact h.opening slot' c g hg
      · rw [List.mem_singleton.mp hg, hf]
  · intro slot' c g hg
    rw [hreceived]
    rcases hadded slot' c with heq | ⟨rfl, -, heq⟩
    · rw [heq] at hg
      exact List.mem_append_left _ (h.source slot' c g hg)
    · rw [heq] at hg
      rcases List.mem_append.mp hg with hg | hg
      · exact List.mem_append_left _ (h.source slot' c g hg)
      · rw [if_pos rfl]
        exact List.mem_append_right _ hg
  · intro r hr c data hresult
    rw [hreads] at hr
    obtain ⟨session, hm⟩ := h.reads r hr c data hresult
    refine ⟨session, fun g hg => ?_⟩
    obtain ⟨hsource, hrest⟩ := hm g hg
    rw [hreceived]
    exact ⟨List.mem_append_left _ hsource, hrest⟩

omit [NeZero n] in
/-- A read returns from the front of a queue. -/
theorem Unmixed.finish (h : s.Unmixed) {r : Returned n} (hreads : s'.reads = s.reads ++ [r])
    (hr : r.opening = s.opening) (hanswer : Answers r.count r.taken r.result)
    (hqueue : ∀ slot c, s.queue slot c =
      (if slot = r.slot then ofConnection c r.taken else []) ++ s'.queue slot c)
    (hreceived : s'.received = s.received) (hopening : s'.opening = s.opening) :
    s'.Unmixed := by
  refine ⟨?_, ?_, ?_, ?_⟩
  · intro slot c
    have hchain := h.chain slot c
    rw [hqueue] at hchain
    exact hchain.right_of_append
  · intro slot c f hf
    rw [hopening]
    refine h.opening slot c f ?_
    rw [hqueue]
    exact List.mem_append_right _ hf
  · intro slot c f hf
    rw [hreceived]
    refine h.source slot c f ?_
    rw [hqueue]
    exact List.mem_append_right _ hf
  · intro q hq c data hresult
    rw [hreads] at hq
    rw [hreceived]
    rcases List.mem_append.mp hq with hq | hq
    · exact h.reads q hq c data hresult
    · rw [List.mem_singleton.mp hq] at hresult ⊢
      rcases hanswer with ⟨herror, -⟩ | ⟨c', hm, hok⟩
      · rw [herror] at hresult
        cases hresult
      · obtain ⟨parts, f, htaken, hparts, -⟩ := hm.ends
        have hfront : s.queue r.slot c' = r.taken ++ s'.queue r.slot c' := by
          rw [hqueue, if_pos rfl, ofConnection_eq_self hm.conn]
        have hchain := h.chain r.slot c'
        rw [hfront, htaken] at hchain
        have hsession := session_eq hchain.left_of_append hparts
        rw [htaken] at hfront ⊢
        refine ⟨f.session, fun g hg => ?_⟩
        have hmem : g ∈ s.queue r.slot c' := by
          rw [hfront]
          exact List.mem_append_left _ hg
        rw [hr]
        exact ⟨h.source _ _ g hmem, hsession g hg, h.opening _ _ g hmem⟩

theorem Unmixed.step (h : s.Unmixed) (htracks : s.Tracks) (hclean : s.StartsClean ev)
    (hs : Step s ev s') : s'.Unmixed := by
  by_cases hreceive : ∃ slot bytes, ev = .receive slot bytes
  · obtain ⟨slot, bytes, rfl⟩ := hreceive
    obtain ⟨hqueue, hreceived, hreads, -, hopening⟩ := receive_queue hs
    exact h.receive (f := ⟨bytes, s.session slot, s.opening⟩) hclean rfl hqueue hreceived hreads
      hopening
  · by_cases hfinish : ev = .finish
    · subst hfinish
      obtain ⟨r, hreads, hr, hanswer, hqueue, hreceived, -, hopening⟩ := htracks.finish hs
      exact h.finish hreads hr hanswer hqueue hreceived hopening
    · obtain ⟨hqueue, hreceived, hreads⟩ :=
        htracks.others hs (fun slot bytes hev => hreceive ⟨slot, bytes, hev⟩) hfinish
      refine h.same hqueue hreceived hreads ?_
      by_cases hopen : ev = .open
      · subst hopen
        exact .inr hclean
      · exact .inl (opening_same hs hopen)

theorem Run.unmixed (h : Run StartsClean s) : s.Unmixed := by
  induction h with
  | init h => exact h.unmixed
  | step hrun hs hok ih => exact ih.step hrun.tracks hok hs

/-- In a run in which no step continues what an earlier session left, every message returned is of
    one session and of the last opening. -/
theorem message_one_session (h : Run StartsClean s) : s.OneSession := h.unmixed.reads

/-- A device with one slot, whose CAM waits for its link initialisation. -/
def oneSlot : CaSystem 1 where
  ca := ⟨fun _ => ⟨.linkInit, none, 0⟩, 0, false⟩
  reader := .idle
  log := fun _ => []
  session := fun _ => 0
  opening := 0
  reads := []

theorem oneSlot_fresh : oneSlot.Fresh := ⟨nofun, fun _ => rfl, rfl, rfl⟩

/-- A message of two fragments, received and read. -/
theorem message_one_session_read : ∃ s : CaSystem 1, s.OneSession ∧
    s.reads = [⟨0, 4, [⟨[1, 0x80, 7], 1, 1⟩, ⟨[1, 0, 8], 1, 1⟩], 1, .ok (1, [7, 8])⟩] := by
  have h₀ : Run StartsClean oneSlot := .init oneSlot_fresh
  have h₁ := h₀.step (@Step.linkInit _ _ _ 0 16 (.zeros _) rfl (by decide)) trivial
  have h₂ := h₁.step (.open rfl) fun _ _ => rfl
  obtain ⟨pos₁, rbuf₁, h₃⟩ :=
    h₂.receives 0 [1, 0x80, 7] nofun rfl rfl (by decide) (by decide) (by decide)
  obtain ⟨pos₂, rbuf₂, h₄⟩ := h₃.receives 0 [1, 0, 8] (by rintro f ⟨⟩; exact .inr rfl) rfl rfl
    (by decide) (by decide : 3 ≤ 16) (by decide : 16 + 3 + 6 < 65535)
  have hm : Message 1 [⟨[1, 0x80, 7], 1, 1⟩, ⟨[1, 0, 8], 1, 1⟩] :=
    ⟨by decide, [⟨[1, 0x80, 7], 1, 1⟩], ⟨[1, 0, 8], 1, 1⟩, rfl, by decide, by decide⟩
  obtain ⟨s, hs, hreads⟩ := h₄.reads_message trivial (fun _ => ⟨trivial, trivial, trivial⟩) rfl rfl
    rfl rfl hm [] rfl 4 (by decide)
  exact ⟨s, message_one_session hs, hreads⟩

/-- A message that a session began before the device was closed is completed by the next session
    after it was opened again. -/
theorem message_two_sessions : ∃ s : CaSystem 1, Run (fun _ _ => True) s ∧ ¬ s.OneSession := by
  have h₀ : Run (fun _ _ => True) oneSlot := .init oneSlot_fresh
  have h₁ := h₀.step (@Step.linkInit _ _ _ 0 16 (.zeros _) rfl (by decide)) trivial
  have h₂ := h₁.step (.open rfl) trivial
  obtain ⟨pos₁, rbuf₁, h₃⟩ :=
    h₂.receives 0 [1, 0x80, 7] trivial rfl rfl (by decide) (by decide) (by decide)
  -- the link fails in the middle of the message
  have h₄ := h₃.step (@Step.slotState _ _ _ 0 .linkInit nofun) trivial
  have h₅ := h₄.step (@Step.linkInit _ _ _ 0 16 (.zeros _) rfl (by decide)) trivial
  have h₆ := (h₅.step (.close rfl rfl) trivial).step (.open rfl) trivial
  obtain ⟨pos₂, rbuf₂, h₇⟩ := h₆.receives 0 [1, 0, 8] trivial rfl rfl (by decide)
    (by decide : 3 ≤ 16) (by decide : 16 + 3 + 6 < 65535)
  have hm : Message 1 [⟨[1, 0x80, 7], 1, 1⟩, ⟨[1, 0, 8], 2, 2⟩] :=
    ⟨by decide, [⟨[1, 0x80, 7], 1, 1⟩], ⟨[1, 0, 8], 2, 2⟩, rfl, by decide, by decide⟩
  obtain ⟨s, hs, hreads⟩ := h₇.reads_message trivial (fun _ => ⟨trivial, trivial, trivial⟩) rfl rfl
    rfl rfl hm [] rfl 4 (by decide)
  refine ⟨s, hs, fun hone => ?_⟩
  obtain ⟨session, hall⟩ := hone _ (by rw [hreads]; exact List.mem_singleton_self _) _ _ rfl
  have hfirst := (hall ⟨[1, 0x80, 7], 1, 1⟩ (by simp)).2.2
  cases hfirst

end Dvb.CaSystem

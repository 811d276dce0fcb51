import NeumoDrivers.Dvb.CaSlots

/-! Reassembling the messages of running CAMs.

    The condition that a read waits for remembers the connection of the first fragment it sees and
    keeps it from slot to slot, so it may name a slot for a message of a connection that another slot
    made it remember. The read then takes the connection of the slot's first fragment. If that one's
    message is not complete the read disposes of its fragments and fails, with a message that calls
    this a bug. -/

namespace Dvb.CaSystem
open DvbRingbuffer

variable {n : ℕ} {s s' : CaSystem n} {ev : CaEvent n}

/-- The fragments that the read condition finds in a slot. -/
def inSight (s : CaSystem n) (slot : Fin n) : List Fragment :=
  if (s.ca.slotInfo slot).slotState = .running then held (s.log slot) else []

/-- Some fragment ends a message of the known connection, or of the first fragment's if none is
    known. -/
def Pending (conn : Option UInt8) (fs : List Fragment) : Prop :=
  ∃ f ∈ fs, conn.or (fs.head?.map Fragment.connectionId) = some f.connectionId ∧ f.isLast

/-- The slots in the order of a scan from `slot` on. -/
def scanFrom [NeZero n] : ℕ → Fin n → List (Fin n)
  | 0, _ => []
  | k + 1, slot => slot :: scanFrom k (slot + 1)

/-- The first slot in the order of the scan that holds the end of a message of the connection that
    the very first fragment is of, also holds the end of a message of its own first fragment's
    connection. -/
def Agrees [NeZero n] (s : CaSystem n) : Prop :=
  ∀ before slot behind c, scanFrom n s.ca.nextReadSlot = before ++ slot :: behind →
    ((before ++ [slot]).flatMap s.inSight).head?.map Fragment.connectionId = some c →
    (∀ f ∈ before.flatMap s.inSight, ¬ (f.connectionId = c ∧ f.isLast)) →
    (∃ f ∈ s.inSight slot, f.connectionId = c ∧ f.isLast) → Pending none (s.inSight slot)

/-- The steps of running CAMs and of reads and polls. -/
def Running : CaEvent n → Prop
  | .receive _ _ | .poll | .select | .start | .pass | .finish => True
  | _ => False

/-- What the reads returned, and what became of the fragments. Every read returned the connection and
    the payload of one whole message. The fragments of a connection are those of the messages
    returned, one message after the other, and then those that are still queued, which lie in the
    buffer unless a read is taking them. -/
structure Reassembled (s : CaSystem n) : Prop where
  whole : ∀ r ∈ s.reads, ∃ c, Message c r.taken ∧
    r.result = .ok (c, (Fragment.payloads r.taken).take (r.count - 2))
  order : ∀ slot c, ofConnection c (s.received slot) =
    (s.reads.filter fun r => r.slot = slot).flatMap (fun r => ofConnection c r.taken) ++
      s.queue slot c
  buffer : ∀ slot rbuf, (s.ca.slotInfo slot).rxBuffer = some rbuf →
    Holds (kept ((s.log slot).map Logged.pkt)) rbuf

/-- A read that was let through has its message complete in front of it. -/
structure Sure (s : CaSystem n) : Prop where
  selected : ∀ count slot, s.reader = .selected count slot → Pending none (held (s.log slot))
  reading : ∀ count slot st taken, s.reader = .reading count slot st taken →
    st.idx ≠ none ∧ Pending st.conn (held (s.log slot))

theorem Pending.append {conn : Option UInt8} {fs : List Fragment} (h : Pending conn fs)
    (gs : List Fragment) : Pending conn (fs ++ gs) := by
  obtain ⟨f, hf, hconn, hlast⟩ := h
  refine ⟨f, List.mem_append_left _ hf, ?_, hlast⟩
  rw [List.head?_append_of_ne_nil _ (List.ne_nil_of_mem hf), hconn]

variable [NeZero n]

/-- Where the condition finds a message. -/
theorem Tracks.scansSlots_found (h : s.Tracks) {k : ℕ} {slot found next : Fin n}
    {conn : Option UInt8} (hscan : ScansSlots s.ca k slot conn (some found) next) :
    ∃ before behind c, scanFrom k slot = before ++ found :: behind ∧
      conn.or (((before ++ [found]).flatMap s.inSight).head?.map Fragment.connectionId) = some c ∧
      (∀ f ∈ before.flatMap s.inSight, ¬ (f.connectionId = c ∧ f.isLast)) ∧
      ∃ f ∈ s.inSight found, f.connectionId = c ∧ f.isLast := by
  generalize hr : some found = r at hscan
  induction hscan with
  | done => cases hr
  | @notRunning k slot next conn r hstate hrest ih =>
    obtain ⟨before, behind, c, horder, hconn, hno, hyes⟩ := ih hr
    have hnil : s.inSight slot = [] := if_neg hstate
    refine ⟨slot :: before, behind, c, by rw [scanFrom, horder, List.cons_append], ?_, ?_, hyes⟩
    · rwa [List.cons_append, List.flatMap_cons, hnil, List.nil_append]
    · rwa [List.flatMap_cons, hnil, List.nil_append]
  | noBuffer => cases hr
  | @found k slot conn conn' rbuf next hstate hbuf hnext hscan =>
    cases hr
    have hall : s.inSight found = held (s.log found) := if_pos hstate
    obtain ⟨hconn, hfound⟩ := h.scansSlot_cases found hbuf hnext hscan
    obtain ⟨f, hf, hfc, hlast⟩ := hfound.mp rfl
    refine ⟨[], scanFrom k (found + 1), f.connectionId, rfl, ?_, nofun, f, hall ▸ hf, rfl, hlast⟩
    simp only [List.nil_append, List.flatMap_singleton, hall]
    exact (hfc.trans hconn).symm
  | @nothing k slot next conn conn' r rbuf next' hstate hbuf hnext hscan hrest ih =>
    obtain ⟨before, behind, c, horder, hconn, hno, hyes⟩ := ih hr
    have hall : s.inSight slot = held (s.log slot) := if_pos hstate
    obtain ⟨hknown, hfound⟩ := h.scansSlot_cases slot hbuf hnext hscan
    simp only at hknown hfound
    refine ⟨slot :: before, behind, c, by rw [scanFrom, horder, List.cons_append], ?_, ?_, hyes⟩
    · rw [List.cons_append, List.flatMap_cons, List.head?_append, hall, Option.map_or,
        ← Option.or_assoc, ← hknown]
      exact hconn
    · intro f hf
      rw [List.flatMap_cons, List.mem_append] at hf
      rcases hf with hf | hf
      · rintro ⟨rfl, hlast⟩
        rw [hall] at hf
        have hsome : conn' = some f.connectionId := by
          obtain ⟨g, l, hg⟩ := List.exists_cons_of_ne_nil (List.ne_nil_of_mem hf)
          rw [hg, List.head?_cons, Option.map_some, Option.or_some] at hknown
          rwa [hknown, Option.some_or, ← hknown] at hconn
        exact absurd (hfound.mpr ⟨f, hf, hsome.symm, hlast⟩) nofun
      · exact hno f hf

omit [NeZero n] in
theorem Fresh.sure (h : s.Fresh) : s.Sure := by
  constructor <;> (rw [h.reader]; exact nofun)

omit [NeZero n] in
/-- A pass of a read that is sure of its message. It goes on and stays so, or it returns the
    message. -/
theorem Sure.pass (h : s.Sure) (htracks : s.Tracks) {count : ℕ} {slot : Fin n} {st : Reading}
    {taken : List Fragment} {rbuf rbuf' : DvbRingbuffer rxBufferSize} {gone : Option ℕ}
    {out : Loop.Next Reading (Except ℤ (UInt8 × List UInt8))}
    (hreader : s.reader = .reading count slot st taken)
    (hbuf : (s.ca.slotInfo slot).rxBuffer = some rbuf)
    (hstep : ReadStep count rbuf st out gone rbuf') :
    (∀ st', out = .again st' →
      st'.idx ≠ none ∧ Pending st'.conn (held (dispose gone (s.log slot)))) ∧
    out ≠ .exit (.error (-eio)) := by
  have hholds := htracks.buffer slot rbuf hbuf
  obtain ⟨hidx, f, hf, hconn, hlast⟩ := h.reading count slot st taken hreader
  rcases (htracks.reading count slot st taken hreader).step_cases hholds (htracks.fragments slot)
      hstep with ⟨hnone, -⟩ | ⟨l, e, rest, hlog, he, hl, hcases⟩
  · exact absurd hnone hidx
  · rw [hlog, held_append, held_ready he] at hf hconn
    -- the fragment that ends the message is of the connection that the read looks for
    have hfc : f.connectionId = st.conn.getD e.fragment.connectionId := by
      cases hst : st.conn with
      | some c =>
        rw [hst, Option.some_or] at hconn
        exact (Option.some.inj hconn).symm
      | none =>
        have hnil : held l = [] := List.eq_nil_iff_forall_not_mem.mpr fun g hg => (hl g hg).2 hst
        rw [hst, hnil] at hconn
        exact (Option.some.inj hconn).symm
    have hrest : f ≠ e.fragment → f ∈ held rest := by
      intro hne
      rcases List.mem_append.mp hf with hf | hf
      · exact absurd hfc (hl f hf).1
      · exact (List.mem_cons.mp hf).resolve_left hne
    rcases hcases with ⟨hother, rfl, -, rfl⟩ | ⟨hsame, rfl, -, rfl⟩
    · have hmem := hrest fun heq => hother (heq ▸ hfc)
      refine ⟨?_, by rintro ⟨⟩⟩
      rintro _ ⟨⟩
      refine ⟨firstReady_ne_none hmem, f, ?_, ?_, hlast⟩
      · rw [dispose, hlog, held_append, held_ready he]
        exact hf
      · rw [hfc]
        rfl
    · by_cases hend : e.fragment.isLast
      · rw [if_pos hend]
        exact ⟨by rintro _ ⟨⟩, by rintro ⟨⟩⟩
      · have hmem := hrest fun heq => hend (heq ▸ hlast)
        rw [if_neg hend]
        refine ⟨?_, by rintro ⟨⟩⟩
        rintro _ ⟨⟩
        rw [hlog] at hholds ⊢
        rw [(dispose_eq hholds he).1, held_append, held_gone rfl]
        refine ⟨firstReady_ne_none hmem, f, List.mem_append_right _ hmem, ?_, hlast⟩
        rw [hfc, ← hsame]
        rfl

/-- What lets a read through makes it sure of its message. -/
theorem Agrees.pending (h : s.Agrees) (htracks : s.Tracks) {slot : Fin n} {ca' : CaPrivate n}
    (hcond : ReadCondition s.ca (some slot) ca') : Pending none (held (s.log slot)) := by
  obtain ⟨next, hscan, -⟩ := hcond
  obtain ⟨before, behind, c, horder, hconn, hno, hyes⟩ := htracks.scansSlots_found hscan
  have hpending := h before slot behind c horder hconn hno hyes
  obtain ⟨f, hf, -⟩ := hyes
  have hall : s.inSight slot = held (s.log slot) := by
    rw [inSight] at hf ⊢
    split_ifs at hf ⊢ with hstate
    · rfl
    · cases hf
  rwa [← hall]

/-- What the steps of running CAMs and reads need. -/
def Allowed (s : CaSystem n) (ev : CaEvent n) : Prop := Running ev ∧ (ev = .select → s.Agrees)

theorem Sure.step (h : s.Sure) (htracks : s.Tracks) (hok : s.Allowed ev) (hs : Step s ev s') :
    s'.Sure := by
  cases hs with
  | @receive slot rbuf rbuf' bytes hstate hbuf hlen hlen' hfree hwrite =>
    have hgrows : ∀ {conn slot'}, Pending conn (held (s.log slot')) →
        Pending conn (held (Function.update s.log slot (s.log slot ++
          [⟨rbuf.pwrite, false, ⟨bytes, s.session slot, s.opening⟩⟩]) slot')) := by
      intro conn slot' hpending
      by_cases hs : slot' = slot
      · rw [hs, Function.update_self, held_append]
        exact (hs ▸ hpending).append _
      · rwa [Function.update_of_ne hs]
    refine ⟨fun count slot' hr => hgrows (h.selected count slot' hr), ?_⟩
    intro count slot' st taken hr
    obtain ⟨hidx, hpending⟩ := h.reading count slot' st taken hr
    exact ⟨hidx, hgrows hpending⟩
  | poll hcond => exact ⟨h.selected, h.reading⟩
  | select hopen hidle hcount hcond =>
    refine ⟨?_, nofun⟩
    rintro _ _ ⟨⟩
    exact (hok.2 rfl).pending htracks hcond
  | @start count slot rbuf idx hreader hbuf hnext =>
    refine ⟨nofun, ?_⟩
    rintro _ _ _ _ ⟨⟩
    have hpending := h.selected count slot hreader
    obtain ⟨f, hf, -⟩ := hpending
    obtain rfl := Loop.Ends.unique hnext ((htracks.buffer slot rbuf hbuf).first (by decide))
    exact ⟨firstReady_ne_none hf, h.selected count slot hreader⟩
  | @pass count slot st st' taken rbuf rbuf' gone hreader hbuf hstep =>
    refine ⟨nofun, ?_⟩
    rintro _ _ _ _ ⟨⟩
    simpa using (h.pass htracks hreader hbuf hstep).1 st' rfl
  | finish => exact ⟨nofun, nofun⟩
  | slotState => exact hok.1.elim
  | linkInit => exact hok.1.elim
  | reset => exact hok.1.elim
  | «open» => exact hok.1.elim
  | close => exact hok.1.elim

theorem Run.sure (h : Run Allowed s) : s.Sure := by
  induction h with
  | init h => exact h.sure
  | step hrun hs hok ih => exact ih.step hrun.tracks hok hs

omit [NeZero n] in
theorem Fresh.reassembled (h : s.Fresh) : s.Reassembled where
  whole r hr := by
    rw [h.reads] at hr
    cases hr
  order slot c := by
    rw [h.reads, queue, taking, h.reader, received, h.log]
    rfl
  buffer := h.tracks.buffer

theorem Sure.finish (h : s.Sure) (htracks : s.Tracks) (hs : Step s .finish s') :
    ∀ r ∈ s'.reads, r ∈ s.reads ∨ r.result ≠ .error (-eio) := by
  cases hs with
  | finish hreader hbuf hstep =>
    intro q hq
    rcases List.mem_append.mp hq with hq | hq
    · exact .inl hq
    · rw [List.mem_singleton.mp hq]
      exact .inr fun herror => (h.pass htracks hreader hbuf hstep).2 (congrArg _ herror)

theorem Reassembled.step (h : s.Reassembled) (hsure : s.Sure) (htracks : s.Tracks)
    (hs : Step s ev s') : s'.Reassembled := by
  have hbuffer := (htracks.step hs).buffer
  by_cases hreceive : ∃ slot bytes, ev = .receive slot bytes
  · obtain ⟨slot, bytes, rfl⟩ := hreceive
    obtain ⟨hqueue, hreceived, hreads, -, -⟩ := receive_queue hs
    refine ⟨hreads ▸ h.whole, fun slot' c => ?_, hbuffer⟩
    rw [hreceived, hreads, hqueue, ← List.append_assoc, ← h.order, ofConnection_append]
    split_ifs <;> rfl
  · by_cases hfinish : ev = .finish
    · subst hfinish
      obtain ⟨r, hreads, -, hanswer, hqueue, hreceived, -, -⟩ := htracks.finish hs
      refine ⟨fun q hq => ?_, fun slot c => ?_, hbuffer⟩
      · rcases hsure.finish htracks hs q hq with hq' | hne
        · exact h.whole q hq'
        · rw [hreads] at hq
          rcases List.mem_append.mp hq with hq | hq
          · exact h.whole q hq
          · rw [List.mem_singleton.mp hq] at hne ⊢
            rcases hanswer with ⟨herror, -⟩ | hmessage
            · exact absurd herror hne
            · exact hmessage
      · rw [hreceived, h.order, hqueue, hreads, List.filter_append, List.flatMap_append,
          List.append_assoc]
        congr 2
        by_cases hslot : slot = r.slot
        · simp [hslot]
        · simp [hslot, Ne.symm hslot]
    · obtain ⟨hqueue, hreceived, hreads⟩ :=
        htracks.others hs (fun slot bytes hev => hreceive ⟨slot, bytes, hev⟩) hfinish
      exact ⟨hreads ▸ h.whole, by rw [hqueue, hreceived, hreads]; exact h.order, hbuffer⟩

/-- In a run of running CAMs in which every slot that the condition can name for a message also has
    the message of its own first fragment complete, every read returns exactly one message, in order,
    and no fragment is lost. -/
theorem messages_reassembled (h : Run Allowed s) : s.Reassembled := by
  induction h with
  | init h => exact h.reassembled
  | step hrun hs hok ih => exact ih.step hrun.sure hrun.tracks hs

theorem agrees_one (s : CaSystem 1) : s.Agrees := by
  rintro before slot behind c horder hconn - ⟨f, hf, rfl, hlast⟩
  have hnil : before = [] := by
    have hlen := congrArg List.length horder
    simp only [scanFrom, List.length_append, List.length_cons, List.length_nil] at hlen
    exact List.eq_nil_of_length_eq_zero (by omega)
  rw [hnil] at hconn
  refine ⟨f, hf, ?_, hlast⟩
  simpa using hconn

/-- Slots of running CAMs, with empty buffers. -/
def runningSlots (n : ℕ) [NeZero n] : CaSystem n where
  ca := ⟨fun _ => ⟨.running, some (init (.zeros _)), 16⟩, 0, true⟩
  reader := .idle
  log := fun _ => []
  session := fun _ => 1
  opening := 1
  reads := []

theorem runningSlots_fresh : (runningSlots n).Fresh := by
  refine ⟨?_, fun _ => rfl, rfl, rfl⟩
  rintro slot _ ⟨⟩
  exact ⟨_, rfl⟩

/-- A message of two fragments, received and read by a user with room for one byte. -/
theorem messages_reassembled_read : ∃ s : CaSystem 1, s.Reassembled ∧
    s.reads = [⟨0, 3, [⟨[1, 0x80, 7], 1, 1⟩, ⟨[1, 0, 8], 1, 1⟩], 1, .ok (1, [7])⟩] := by
  have h₀ : Run Allowed (runningSlots 1) := .init runningSlots_fresh
  obtain ⟨pos₁, rbuf₁, h₁⟩ :=
    h₀.receives 0 [1, 0x80, 7] ⟨trivial, nofun⟩ rfl rfl (by decide) (by decide) (by decide)
  obtain ⟨pos₂, rbuf₂, h₂⟩ := h₁.receives 0 [1, 0, 8] ⟨trivial, nofun⟩ rfl rfl (by decide)
    (by decide : 3 ≤ 16) (by decide : 16 + 3 + 6 < 65535)
  have hm : Message 1 [⟨[1, 0x80, 7], 1, 1⟩, ⟨[1, 0, 8], 1, 1⟩] :=
    ⟨by decide, [⟨[1, 0x80, 7], 1, 1⟩], ⟨[1, 0, 8], 1, 1⟩, rfl, by decide, by decide⟩
  obtain ⟨s, hs, hreads⟩ := h₂.reads_message ⟨trivial, fun _ => agrees_one _⟩
    (fun _ => ⟨⟨trivial, nofun⟩, ⟨trivial, nofun⟩, trivial, nofun⟩) rfl rfl rfl rfl hm [] rfl 3
    (by decide)
  exact ⟨s, messages_reassembled hs, hreads⟩

/-- The first slot makes the condition remember connection 1 and the second slot has the end of a
    message of it, behind a fragment of connection 2. -/
theorem read_loses_fragment :
    ∃ s : CaSystem 2, Run (fun _ => Running) s ∧ ¬ s.Reassembled := by
  have h₀ : Run (fun _ => Running) (runningSlots 2) := .init runningSlots_fresh
  obtain ⟨pos₁, rbuf₁, h₁⟩ :=
    h₀.receives 0 [1, 0x80] trivial rfl rfl (by decide) (by decide) (by decide)
  obtain ⟨pos₂, rbuf₂, h₂⟩ :=
    h₁.receives 1 [2, 0x80] trivial rfl rfl (by decide) (by decide : 2 ≤ 16)
      (by decide : 16 + 3 + 0 < 65535)
  obtain ⟨pos₃, rbuf₃, h₃⟩ := h₂.receives 1 [1, 0] trivial rfl rfl (by decide)
    (by decide : 2 ≤ 16) (by decide : 16 + 3 + 5 < 65535)
  obtain ⟨⟨conn₁, found₁⟩, next₁, hnext₁, hscan₁⟩ :=
    h₃.tracks.exists_scansSlot 0 (rfl : _ = some rbuf₁) none
  obtain ⟨rfl, hfound₁⟩ := h₃.tracks.scansSlot_cases 0 rfl hnext₁ hscan₁
  have hfalse : found₁ = false := by
    refine Bool.eq_false_iff.mpr fun htrue => ?_
    obtain ⟨f, hf, -, hlast⟩ := hfound₁.mp htrue
    cases List.mem_singleton.mp hf
    exact absurd hlast (by decide : ¬ lastFragment 0x80)
  obtain ⟨⟨conn₃, found₃⟩, next₃, hnext₃, hscan₃⟩ :=
    h₃.tracks.exists_scansSlot 1 (rfl : _ = some rbuf₃) (some 1)
  obtain ⟨rfl, hfound₃⟩ := h₃.tracks.scansSlot_cases 1 rfl hnext₃ hscan₃
  have htrue : found₃ = true :=
    hfound₃.mpr ⟨⟨[1, 0], 1, 1⟩, List.mem_of_getElem? (i := 1) rfl, rfl, by decide⟩
  subst hfalse htrue
  have h₄ := h₃.step (.select rfl rfl (le_refl 2)
    ⟨_, .nothing rfl rfl hnext₁ hscan₁ (.found rfl rfl hnext₃ hscan₃), rfl⟩) trivial
  have h₅ := h₄.step (.start rfl rfl hnext₃) trivial
  have hidx : next₃ ≠ none := by
    rw [Loop.Ends.unique hnext₃ ((h₃.tracks.buffer 1 rbuf₃ rfl).first (by decide))]
    exact nofun
  -- the read takes the fragment of connection 2
  obtain ⟨out, gone, rbuf₄, hstep, hat, hheld, -, hout⟩ :=
    h₅.tracks.front_step rfl rfl rfl hidx (.inl rfl)
  obtain ⟨st, rfl, hsome, hconn⟩ := hout (by decide : ¬ lastFragment 0x80)
  have h₆ := h₅.step (.pass rfl rfl hstep) trivial
  obtain ⟨out, gone', rbuf₅, hstep⟩ := h₆.tracks.exists_step rfl rfl
  have hplaces := h₆.tracks.reading _ _ _ _ rfl
  have hfails : ∀ {s' : CaSystem 2} {r}, s'.reads = [r] → r.result = .error (-eio) →
      ¬ s'.Reassembled := by
    rintro s' r hreads herror h
    obtain ⟨c, -, hresult⟩ := h.whole r (by rw [hreads]; exact List.mem_singleton_self _)
    rw [herror] at hresult
    cases hresult
  rcases hplaces.step_cases (h₆.tracks.buffer 1 _ rfl) (h₆.tracks.fragments 1) hstep with
    ⟨-, -, -, rfl⟩ | ⟨l, e, rest, hlog, he, -, hcases⟩
  · exact ⟨_, h₆.step (.finish rfl rfl hstep) trivial, hfails rfl rfl⟩
  · -- the only one left is of connection 1
    have hleft : held (l ++ e :: rest) = [⟨[1, 0], 1, 1⟩] := hlog ▸ hheld
    rw [held_append, held_ready he] at hleft
    obtain ⟨-, hleft⟩ := (List.append_eq_singleton_iff.mp hleft).resolve_right fun h => nomatch h.2
    rw [List.cons.injEq] at hleft
    obtain ⟨hfragment, hnil⟩ := hleft
    have hnone : firstReady (rest.map Logged.pkt) = none :=
      firstReady_eq_none.mpr hnil
    rw [hfragment, hconn] at hcases
    rcases hcases with ⟨-, rfl, rfl, rfl⟩ | ⟨hsame, -⟩
    · rw [hnone] at hstep
      have h₇ := h₆.step (.pass rfl rfl hstep) trivial
      exact ⟨_, h₇.step (.finish rfl rfl .ended) trivial, hfails rfl rfl⟩
    · cases hsame

end Dvb.CaSystem

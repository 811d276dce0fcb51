import NeumoDrivers.Lib.Loop
import NeumoDrivers.Lib.Ring
import Mathlib.Logic.Function.Basic
import Mathlib.Data.List.Nodup

/-! The memory mapped buffers of a demux filter (`dvb_vb2.c`).

    The video buffer core gives the buffers that the user queued to the driver, which fills them one
    after the other and hands them back. A buffer that is not full yet is remembered in `ctx->buf`, and
    stays on the queue. The data of a plane is as long as the plane. What was handed back, how often
    each buffer was queued and the bytes reported as copied are history. -/

namespace Dvb
open Loop

/-- `VB2_BUF_STATE_DONE` and `VB2_BUF_STATE_ERROR` -/
inductive BufState where
  | done
  | error
  deriving DecidableEq

/-- A buffer that was handed back: what is in it for the user, and the bytes that were copied to it. -/
structure HandedBack where
  buf : ℕ
  state : BufState
  payload : List UInt8
  filled : List UInt8

/-- `struct dvb_vb2_ctx`, with the planes of the buffers and their payload sizes. -/
structure DvbVb2Ctx where
  dvbQ : List ℕ
  buf : Option ℕ
  remain : ℕ
  offset : ℕ
  streaming : Bool
  nonblocking : Bool
  flags : ℕ
  plane : ℕ → List UInt8
  payload : ℕ → ℕ
  returned : List HandedBack
  queued : ℕ → ℕ
  copied : List UInt8

namespace DvbVb2Ctx
variable (s : DvbVb2Ctx) (b : ℕ)

/-- What was copied to a buffer so far. -/
def filled : List UInt8 := if s.buf = some b then (s.plane b).take s.offset else []

/-- `vb2_buffer_done` and `list_del` -/
def handBack (state : BufState) : DvbVb2Ctx :=
  { s with
    returned := s.returned ++ [⟨b, state, (s.plane b).take (s.payload b), s.filled b⟩]
    dvbQ := s.dvbQ.erase b }

/-- The buffer that was being filled is handed back. -/
def complete (state : BufState) : DvbVb2Ctx := { s.handBack b state with buf := none }

/-- `_buffer_prepare` and `_buffer_queue` -/
def bufferQueue : DvbVb2Ctx :=
  { s with
    dvbQ := s.dvbQ ++ [b]
    payload := Function.update s.payload b (s.plane b).length
    queued := Function.update s.queued b (s.queued b + 1) }

/-- `_stop_streaming` -/
def stopStreaming : DvbVb2Ctx := s.dvbQ.foldl (fun s b => s.handBack b .error) s

/-- The buffer to fill: the one that is not full yet, or the first one on the queue. -/
def nextBuf : Option (ℕ × DvbVb2Ctx) :=
  match s.buf with
  | some b => some (b, s)
  | none =>
    match s.dvbQ with
    | [] => none
    | b :: _ => some (b, { s with buf := some b, remain := (s.plane b).length, offset := 0 })

/-- Copy data to the buffer. -/
def copyTo (chunk : List UInt8) : DvbVb2Ctx :=
  { s with
    plane := Function.update s.plane b (Ring.store (s.plane b) s.offset chunk)
    remain := s.remain - chunk.length
    offset := s.offset + chunk.length }

end DvbVb2Ctx

/-- The variables of the loop of `dvb_vb2_fill_buffer`; `todo` is the data from `psrc` on. -/
structure Fill where
  ctx : DvbVb2Ctx
  todo : List UInt8
  ll : ℕ

namespace Fill

/-- A pass of the loop. -/
def body (f : Fill) : Next Fill Fill :=
  if f.todo = [] then .exit f
  else
    match f.ctx.nextBuf with
    -- buffer overflow
    | none => .exit f
    | some (b, ctx) =>
      if ctx.streaming then
        let ll := min f.todo.length ctx.remain
        let ctx := ctx.copyTo b (f.todo.take ll)
        .again ⟨if ctx.remain = 0 then ctx.complete b .done else ctx, f.todo.drop ll, ll⟩
      else .exit { f with ctx := ctx.complete b .error }

/-- Behind the loop: without blocking a buffer is handed back though it is not full. -/
def finish (f : Fill) : DvbVb2Ctx :=
  match f.ctx.buf with
  | none => f.ctx
  | some b =>
    if f.ctx.nonblocking then
      { f.ctx with payload := Function.update f.ctx.payload b f.ll }.complete b .done
    else f.ctx

end Fill

namespace DvbVb2Ctx

/-- `dvb_vb2_fill_buffer`; without `src` there are no data, and without `buffer_flags` these are 0. -/
def FillBuffer (s : DvbVb2Ctx) (src : List UInt8) (bufferFlags ret : ℕ) (s' : DvbVb2Ctx) : Prop :=
  if src = [] then ret = 0 ∧ s' = s
  else
    ∃ f, Ends Fill.body ⟨{ s with flags := s.flags ||| bufferFlags }, src, 0⟩ f ∧
      ret = src.length - f.todo.length ∧
      s' = { f.finish with copied := f.finish.copied ++ src.take ret }

/-- The bytes in the buffer that is not full yet. -/
def current (s : DvbVb2Ctx) : List UInt8 :=
  match s.buf with
  | none => []
  | some b => (s.plane b).take s.offset

/-- The buffer being filled is one on the queue. Every buffer was handed back as often as it was queued,
    or once less while it is on the queue. A buffer handed back as done holds what was copied to it,
    and what was copied to the buffers, in the order they were handed back, is what was reported as
    copied. -/
structure Sound (s : DvbVb2Ctx) : Prop where
  onQueue : ∀ b ∈ s.buf, b ∈ s.dvbQ
  nodup : s.dvbQ.Nodup
  once : ∀ b, s.queued b = s.returned.countP (·.buf = b) + s.dvbQ.count b
  contents : ∀ r ∈ s.returned, r.state = .done → r.payload = r.filled
  order : s.copied = s.returned.flatMap HandedBack.filled ++ s.current

/-- What the core, the user and the demux do. The core queues a buffer that the driver does not have;
    `STREAMON` is set and cleared outside of the lock; and the user may write to the buffers that the
    driver does not have. -/
inductive Step (s : DvbVb2Ctx) : DvbVb2Ctx → Prop where
  | queue {b : ℕ} (hdriver : b ∉ s.dvbQ) : Step s (s.bufferQueue b)
  | stream (on : Bool) : Step s { s with streaming := on }
  | fill {src : List UInt8} {bufferFlags ret : ℕ} {s' : DvbVb2Ctx}
      (hfill : s.FillBuffer src bufferFlags ret s') : Step s s'
  | dqbuf : Step s { s with flags := 0 }
  | write {b : ℕ} {plane : List UInt8} (hdriver : b ∉ s.dvbQ) (hsize : plane.length = (s.plane b).length) :
    Step s { s with plane := Function.update s.plane b plane }

/-- Before the first buffer was queued. -/
structure Initial (s : DvbVb2Ctx) : Prop where
  dvbQ : s.dvbQ = []
  buf : s.buf = none
  returned : s.returned = []
  queued : ∀ b, s.queued b = 0
  copied : s.copied = []

/-- A run in which streaming is stopped in states that are `ok` only. -/
inductive Run (ok : DvbVb2Ctx → Prop) : DvbVb2Ctx → Prop where
  | init {s : DvbVb2Ctx} (h : s.Initial) : Run ok s
  | step {s s' : DvbVb2Ctx} (h : Run ok s) (hs : Step s s') : Run ok s'
  | stop {s : DvbVb2Ctx} (h : Run ok s) (hok : ok s) : Run ok s.stopStreaming

/-! ### One operation -/

/-- The bookkeeping of a context, when of the data of the call under way `extra` was copied. -/
structure Inv (s : DvbVb2Ctx) (extra : List UInt8) : Prop where
  onQueue : ∀ b ∈ s.buf, b ∈ s.dvbQ
  nodup : s.dvbQ.Nodup
  once : ∀ b, s.queued b = s.returned.countP (·.buf = b) + s.dvbQ.count b
  contents : ∀ r ∈ s.returned, r.state = .done → r.payload = r.filled
  order : s.copied ++ extra = s.returned.flatMap HandedBack.filled ++ s.current
  payload : ∀ b ∈ s.dvbQ, s.payload b = (s.plane b).length
  room : ∀ b ∈ s.buf, s.offset + s.remain = (s.plane b).length

variable {s s' : DvbVb2Ctx} {b : ℕ} {extra chunk : List UInt8}

theorem Inv.sound (h : s.Inv []) : s.Sound :=
  ⟨h.onQueue, h.nodup, h.once, h.contents, (List.append_nil _).symm.trans h.order⟩

theorem current_eq (hbuf : s.buf = some b) : s.current = s.filled b := by
  rw [current, filled, hbuf, if_pos rfl]

theorem filled_of_none (hbuf : s.buf = none) (b : ℕ) : s.filled b = [] := by
  rw [filled, hbuf]
  exact if_neg nofun

theorem count_handBack (hnodup : s.dvbQ.Nodup)
    (honce : ∀ b, s.queued b = s.returned.countP (·.buf = b) + s.dvbQ.count b) (hb : b ∈ s.dvbQ)
    (state : BufState) (x : ℕ) :
    s.queued x = (s.handBack b state).returned.countP (·.buf = x) +
      (s.handBack b state).dvbQ.count x := by
  have hcount := honce x
  dsimp only [handBack]
  rw [List.countP_append, List.countP_singleton]
  by_cases heq : x = b
  · subst heq
    have hone := List.count_eq_one_of_mem hnodup hb
    have hgone := List.count_erase_self (a := x) (l := s.dvbQ)
    rw [if_pos (decide_eq_true rfl)]
    omega
  · rw [if_neg (by simpa using Ne.symm heq), List.count_erase_of_ne heq]
    omega

/-- The buffer that was being filled is handed back, with a payload of `n` bytes. -/
theorem Inv.completeWith (h : s.Inv extra) (hbuf : s.buf = some b) {state : BufState} (n : ℕ)
    (hdone : state = .done → (s.plane b).take n = (s.plane b).take s.offset) :
    ({ s with payload := Function.update s.payload b n }.complete b state).Inv extra where
  onQueue := nofun
  nodup := h.nodup.erase b
  once := @count_handBack { s with payload := Function.update s.payload b n } b h.nodup h.once
    (h.onQueue b hbuf) state
  contents := by
    intro r hr hstate
    rcases List.mem_append.mp hr with hold | hnew
    · exact h.contents r hold hstate
    · obtain rfl := List.mem_singleton.mp hnew
      dsimp only
      rw [Function.update_self, hdone hstate]
      exact (if_pos hbuf).symm
  order := by
    have hfilled : ({ s with payload := Function.update s.payload b n } : DvbVb2Ctx).filled b =
        s.filled b := rfl
    refine h.order.trans ?_
    rw [current_eq hbuf]
    simp [complete, handBack, current, hfilled]
  payload := by
    intro x hx
    have hx := h.nodup.mem_erase_iff.mp hx
    exact (Function.update_of_ne hx.1 _ _).trans (h.payload x hx.2)
  room := nofun

theorem Inv.complete (h : s.Inv extra) (hbuf : s.buf = some b) {state : BufState}
    (hdone : state = .done → (s.plane b).take (s.payload b) = (s.plane b).take s.offset) :
    (s.complete b state).Inv extra := by
  have hwith := h.completeWith hbuf (s.payload b) hdone
  rwa [Function.update_eq_self] at hwith

theorem Inv.copyTo (h : s.Inv extra) (hbuf : s.buf = some b) (hle : chunk.length ≤ s.remain) :
    (s.copyTo b chunk).Inv (extra ++ chunk) := by
  have hroom := h.room b hbuf
  have hfit : s.offset + chunk.length ≤ (s.plane b).length := by omega
  have hlength (x : ℕ) : ((s.copyTo b chunk).plane x).length = (s.plane x).length := by
    dsimp only [DvbVb2Ctx.copyTo]
    by_cases heq : x = b
    · rw [heq, Function.update_self, Ring.length_store hfit]
    · rw [Function.update_of_ne heq]
  constructor
  · exact h.onQueue
  · exact h.nodup
  · exact h.once
  · exact h.contents
  · have htake : ((s.plane b).take s.offset).length = s.offset :=
      List.length_take_of_le (Nat.le_trans (Nat.le_add_right _ _) hfit)
    have hcurrent : (s.copyTo b chunk).current = s.current ++ chunk := by
      rw [current, current, show (s.copyTo b chunk).buf = some b from hbuf, hbuf]
      dsimp only [DvbVb2Ctx.copyTo]
      rw [Function.update_self, Ring.store, List.take_left' (by rw [List.length_append, htake])]
    rw [hcurrent, ← List.append_assoc, ← List.append_assoc]
    exact congrArg (· ++ chunk) h.order
  · exact fun x hx => (h.payload x hx).trans (hlength x).symm
  · intro x hx
    obtain rfl := Option.some.inj (hbuf.symm.trans hx)
    rw [hlength]
    dsimp only [DvbVb2Ctx.copyTo]
    omega

theorem Inv.full (h : s.Inv extra) (hbuf : s.buf = some b) (hfull : s.remain = 0) :
    (s.complete b .done).Inv extra := by
  refine h.complete hbuf fun _ => ?_
  have hroom := h.room b hbuf
  rw [h.payload b (h.onQueue b hbuf), ← hroom, hfull, Nat.add_zero]

/-- The buffer to fill is on the queue, and nothing else has changed. -/
theorem Inv.nextBuf (h : s.Inv extra) (hnext : s.nextBuf = some (b, s')) :
    s'.Inv extra ∧ s'.buf = some b ∧ s'.dvbQ = s.dvbQ ∧ s'.copied = s.copied ∧
      s'.nonblocking = s.nonblocking ∧ (s.buf = none → s'.offset = 0) := by
  rw [DvbVb2Ctx.nextBuf] at hnext
  split at hnext
  · rename_i hbuf
    cases hnext
    exact ⟨h, hbuf, rfl, rfl, rfl, fun hno => nomatch hbuf.symm.trans hno⟩
  rename_i hbuf
  split at hnext
  · cases hnext
  rename_i hq
  cases hnext
  refine ⟨⟨?_, h.nodup, h.once, h.contents, ?_, h.payload, ?_⟩, rfl, rfl, rfl, rfl, fun _ => rfl⟩
  · rintro x ⟨⟩
    rw [hq]
    exact List.mem_cons_self
  · rw [h.order, current, current, hbuf]
    rfl
  · rintro x ⟨⟩
    exact Nat.zero_add _

/-! ### The loop -/

/-- Where the loop stands: what was copied and what is to do make up the data, and without blocking a
    buffer is only left partly filled when all was copied, with the last copy in it. -/
structure Fills (s : DvbVb2Ctx) (src : List UInt8) (f : Fill) (extra : List UInt8) : Prop where
  inv : f.ctx.Inv extra
  data : extra ++ f.todo = src
  copied : f.ctx.copied = s.copied
  partly : f.ctx.nonblocking → ∀ b ∈ f.ctx.buf, f.todo = [] ∧ f.ctx.offset = f.ll

theorem Fills.pass {src : List UInt8} {f g : Fill} (h : Fills s src f extra)
    (hpass : f.body = .again g) :
    (∃ extra, Fills s src g extra) ∧
      g.todo.length + g.ctx.dvbQ.length < f.todo.length + f.ctx.dvbQ.length := by
  rw [Fill.body] at hpass
  split at hpass
  · cases hpass
  rename_i htodo
  split at hpass
  · cases hpass
  rename_i b ctx hnext
  split at hpass
  swap
  · cases hpass
  obtain ⟨hinv, hbuf, hq, hcopied, hnonblocking, hoffset⟩ := h.inv.nextBuf hnext
  have hpos := List.length_pos_iff.mpr htodo
  have hlength : (f.todo.take (min f.todo.length ctx.remain)).length = min f.todo.length ctx.remain :=
    List.length_take_of_le (Nat.min_le_left _ _)
  have hcopy := hinv.copyTo hbuf (Nat.le_trans (Nat.le_of_eq hlength) (Nat.min_le_right _ _))
  have hdata : extra ++ f.todo.take (min f.todo.length ctx.remain) ++
      f.todo.drop (min f.todo.length ctx.remain) = src := by
    rw [List.append_assoc, List.take_append_drop, h.data]
  have hleft : ((ctx.copyTo b (f.todo.take (min f.todo.length ctx.remain))).remain) =
      ctx.remain - min f.todo.length ctx.remain := congrArg (ctx.remain - ·) hlength
  cases hpass
  dsimp only
  split
  · rename_i hfull
    refine ⟨⟨_, hcopy.full hbuf hfull, hdata, hcopied.trans h.copied, fun _ _ hno => nomatch hno⟩, ?_⟩
    have hmem := hinv.onQueue b hbuf
    have herase := List.length_erase_of_mem hmem
    have hsome := List.length_pos_of_mem hmem
    change _ + (ctx.dvbQ.erase b).length < _
    rw [List.length_drop, herase, hq]
    rw [hq] at hsome
    omega
  · rename_i hroom
    rw [hleft] at hroom
    have hall : min f.todo.length ctx.remain = f.todo.length := by omega
    have hnone : f.todo.drop (min f.todo.length ctx.remain) = [] := by rw [hall, List.drop_length]
    refine ⟨⟨_, hcopy, hdata, hcopied.trans h.copied, fun hnb x _ => ⟨hnone, ?_⟩⟩, ?_⟩
    · -- the buffer was begun in this pass
      have hbegun : f.ctx.buf = none := by
        refine Option.eq_none_iff_forall_ne_some.mpr fun y hy => htodo ?_
        exact (h.partly (hnonblocking.symm.trans hnb) y hy).1
      change ctx.offset + _ = _
      rw [hoffset hbegun, hlength, Nat.zero_add]
    · change _ + ctx.dvbQ.length < _
      rw [hnone, hq]
      exact Nat.add_lt_add_right hpos _

theorem Fills.exit {src : List UInt8} {f g : Fill} (h : Fills s src f extra)
    (hexit : f.body = .exit g) : Fills s src g extra := by
  rw [Fill.body] at hexit
  split at hexit
  · cases hexit
    exact h
  split at hexit
  · cases hexit
    exact h
  rename_i b ctx hnext
  split at hexit
  · cases hexit
  cases hexit
  obtain ⟨hinv, hbuf, hq, hcopied, -, -⟩ := h.inv.nextBuf hnext
  exact ⟨hinv.complete hbuf nofun, h.data, hcopied.trans h.copied, fun _ _ hno => nomatch hno⟩

theorem finish_nonblocking (f : Fill) : f.finish.nonblocking = f.ctx.nonblocking := by
  rw [Fill.finish]
  split
  · rfl
  split <;> rfl

theorem Fills.finish {src : List UInt8} {f : Fill} (h : Fills s src f extra) :
    f.finish.Inv extra ∧ f.finish.copied = s.copied ∧ (f.ctx.nonblocking → f.finish.buf = none) := by
  rw [Fill.finish]
  split
  · rename_i hnone
    exact ⟨h.inv, h.copied, fun _ => hnone⟩
  rename_i b hbuf
  split
  · rename_i hnb
    obtain ⟨-, hoffset⟩ := h.partly hnb b hbuf
    exact ⟨h.inv.completeWith hbuf f.ll fun _ => by rw [hoffset], h.copied, fun _ => rfl⟩
  · rename_i hblocks
    exact ⟨h.inv, h.copied, fun hno => absurd hno hblocks⟩

/-! ### Runs -/

/-- A call ends, and leaves the context as it should be. -/
theorem Inv.fill (h : s.Inv []) (hnb : s.nonblocking → s.buf = none) (src : List UInt8)
    (bufferFlags : ℕ) :
    (∃ ret s', s.FillBuffer src bufferFlags ret s') ∧
    ∀ ret s', s.FillBuffer src bufferFlags ret s' →
      s'.Inv [] ∧ (s'.nonblocking → s'.buf = none) := by
  by_cases hsrc : src = []
  · refine ⟨⟨0, s, by rw [FillBuffer, if_pos hsrc]; exact ⟨rfl, rfl⟩⟩, fun ret s' hfill => ?_⟩
    rw [FillBuffer, if_pos hsrc] at hfill
    obtain ⟨-, rfl⟩ := hfill
    exact ⟨h, hnb⟩
  have hstart : Fills s src ⟨{ s with flags := s.flags ||| bufferFlags }, src, 0⟩ [] := by
    refine ⟨⟨h.onQueue, h.nodup, h.once, h.contents, h.order, h.payload, h.room⟩, rfl, rfl, ?_⟩
    intro hblock b hbuf
    exact nomatch (hnb hblock).symm.trans hbuf
  have hpass : ∀ f g : Fill, (∃ extra, Fills s src f extra) → f.body = .again g →
      (∃ extra, Fills s src g extra) ∧
        g.todo.length + g.ctx.dvbQ.length < f.todo.length + f.ctx.dvbQ.length :=
    fun f g ⟨_, hf⟩ hbody => hf.pass hbody
  constructor
  · obtain ⟨f, hends⟩ := terminates_of_measure (fun f : Fill => f.todo.length + f.ctx.dvbQ.length)
      hpass ⟨[], hstart⟩
    exact ⟨_, _, by rw [FillBuffer, if_neg hsrc]; exact ⟨f, hends, rfl, rfl⟩⟩
  · intro ret s' hfill
    rw [FillBuffer, if_neg hsrc] at hfill
    obtain ⟨f, hends, rfl, rfl⟩ := hfill
    obtain ⟨g, hvisits, hexit⟩ := hends.visits
    obtain ⟨extra, hg⟩ := @Visits.invariant _ _ _ _ _ (fun f => ∃ extra, Fills s src f extra)
      ⟨[], hstart⟩ (fun a b ha hb => (hpass a b ha hb).1) hvisits
    have hf := hg.exit hexit
    obtain ⟨hinv, hcopied, hbuf⟩ := hf.finish
    have hret : src.take (src.length - f.todo.length) = extra := by
      rw [← hf.data, List.length_append, Nat.add_sub_cancel, List.take_left]
    rw [hret]
    refine ⟨⟨hinv.onQueue, hinv.nodup, hinv.once, hinv.contents, ?_, hinv.payload, hinv.room⟩, ?_⟩
    · exact (List.append_nil _).trans hinv.order
    · exact fun hblock => hbuf ((finish_nonblocking f).symm.trans hblock)

theorem stop_cases (s : DvbVb2Ctx) :
    s.stopStreaming.dvbQ = [] ∧ s.stopStreaming.buf = s.buf ∧
      s.stopStreaming.nonblocking = s.nonblocking ∧
      (s.Inv [] → s.buf = none → s.stopStreaming.Inv []) := by
  rw [stopStreaming]
  generalize hq : s.dvbQ = l
  induction l generalizing s with
  | nil => exact ⟨hq, rfl, rfl, fun h _ => h⟩
  | cons b l ih =>
    have hrest : (s.handBack b .error).dvbQ = l := by
      dsimp only [handBack]
      rw [hq, List.erase_cons_head]
    obtain ⟨hnone, hbuf, hnb, hinv⟩ := ih (s.handBack b .error) hrest
    refine ⟨hnone, hbuf, hnb, fun h hno => hinv ?_ hno⟩
    have hb : b ∈ s.dvbQ := hq ▸ List.mem_cons_self
    have hempty : ∀ x, s.buf ≠ some x := fun x hx => nomatch hno.symm.trans hx
    refine ⟨fun x hx => absurd hx (hempty x), h.nodup.erase b,
      count_handBack h.nodup h.once hb .error, ?_, ?_,
      fun x hx => h.payload x (List.mem_of_mem_erase hx), fun x hx => absurd hx (hempty x)⟩
    · intro r hr hstate
      rcases List.mem_append.mp hr with hold | hnew
      · exact h.contents r hold hstate
      · obtain rfl := List.mem_singleton.mp hnew
        cases hstate
    · have hcurrent : (s.handBack b .error).current = s.current := rfl
      rw [hcurrent]
      refine h.order.trans ?_
      simp [handBack, filled_of_none hno]

theorem Inv.bufferQueue (h : s.Inv []) (hdriver : b ∉ s.dvbQ) : (s.bufferQueue b).Inv [] where
  onQueue x hx := List.mem_append_left _ (h.onQueue x hx)
  nodup := by
    refine List.nodup_append.mpr ⟨h.nodup, List.nodup_singleton b, ?_⟩
    rintro x hx y hy rfl
    exact hdriver (List.mem_singleton.mp hy ▸ hx)
  once := by
    intro x
    have hcount := h.once x
    dsimp only [DvbVb2Ctx.bufferQueue]
    rw [List.count_append]
    by_cases heq : x = b
    · subst heq
      rw [Function.update_self, List.count_singleton_self]
      omega
    · rw [Function.update_of_ne heq, List.count_singleton, if_neg (by simpa using Ne.symm heq)]
      exact hcount
  contents := h.contents
  order := h.order
  payload := by
    intro x hx
    dsimp only [DvbVb2Ctx.bufferQueue]
    by_cases heq : x = b
    · rw [heq, Function.update_self]
    · rw [Function.update_of_ne heq]
      refine h.payload x ((List.mem_append.mp hx).resolve_right fun hno => ?_)
      exact heq (List.mem_singleton.mp hno)
  room := h.room

theorem Inv.write (h : s.Inv []) (hdriver : b ∉ s.dvbQ) (plane : List UInt8) :
    Inv { s with plane := Function.update s.plane b plane } [] := by
  have hsame : ∀ x ∈ s.dvbQ, Function.update s.plane b plane x = s.plane x := by
    intro x hx
    refine Function.update_of_ne ?_ _ _
    rintro rfl
    exact hdriver hx
  refine ⟨h.onQueue, h.nodup, h.once, h.contents, h.order.trans ?_, fun x hx => ?_, fun x hx => ?_⟩
  · congr 1
    rw [current, current]
    dsimp only
    split
    · rfl
    · rename_i x hx
      rw [hsame x (h.onQueue x hx)]
  · dsimp only
    rw [hsame x hx]
    exact h.payload x hx
  · dsimp only
    rw [hsame x (h.onQueue x hx)]
    exact h.room x hx

theorem Inv.step (h : s.Inv []) (hnb : s.nonblocking → s.buf = none) (hs : s.Step s') :
    s'.Inv [] ∧ (s'.nonblocking → s'.buf = none) := by
  cases hs with
  | queue hdriver => exact ⟨h.bufferQueue hdriver, hnb⟩
  | stream on =>
    exact ⟨⟨h.onQueue, h.nodup, h.once, h.contents, h.order, h.payload, h.room⟩, hnb⟩
  | fill hfill => exact (h.fill hnb _ _).2 _ _ hfill
  | dqbuf => exact ⟨⟨h.onQueue, h.nodup, h.once, h.contents, h.order, h.payload, h.room⟩, hnb⟩
  | write hdriver hsize => exact ⟨h.write hdriver _, hnb⟩

theorem Initial.inv (h : s.Initial) : s.Inv [] := by
  constructor
  · rw [h.buf]
    exact nofun
  · rw [h.dvbQ]
    exact List.nodup_nil
  · intro b
    rw [h.queued, h.returned, h.dvbQ]
    rfl
  · rw [h.returned]
    exact nofun
  · rw [h.copied, h.returned, current, h.buf]
    rfl
  · rw [h.dvbQ]
    exact nofun
  · rw [h.buf]
    exact nofun

theorem Run.inv (h : Run (fun s => s.buf = none) s) :
    s.Inv [] ∧ (s.nonblocking → s.buf = none) := by
  induction h with
  | init h => exact ⟨h.inv, fun _ => h.buf⟩
  | step _ hs ih => exact ih.1.step ih.2 hs
  | @stop s _ hok ih =>
    obtain ⟨-, hbuf, -, hinv⟩ := stop_cases s
    exact ⟨hinv ih.1 hok, fun _ => hbuf.trans hok⟩

/-- Buffers of four bytes, in a context that blocks. -/
def fourBytes : DvbVb2Ctx where
  dvbQ := []
  buf := none
  remain := 0
  offset := 0
  streaming := false
  nonblocking := false
  flags := 0
  plane _ := [0, 0, 0, 0]
  payload _ := 0
  returned := []
  queued _ := 0
  copied := []

theorem fourBytes_initial : fourBytes.Initial := ⟨rfl, rfl, rfl, fun _ => rfl, rfl⟩

end DvbVb2Ctx

end Dvb

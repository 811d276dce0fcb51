import NeumoDrivers.Dvb.UleCells

/-! From the SNDUs in the TS cells to the packets handed over.

    The calls of the decoder lead through the SNDUs one after the other. Each of them leads to at most
    one packet, so every SNDU must lead to its own; and that it does when its length field is not
    below 5, and the type of a bridged frame with a destination address is not looked up in the frame's
    payload in vain. -/

namespace Dvb.Ule
open Loop Memory Packing

variable {dev : NetDevice} {alloc : SkbAllocator} {turns passes passes' : ℕ} {buf : ℕ → UInt8}
  {tsEnd : ℕ} {lossy : Prop} {P : DvbNetUleHandle → ℕ → List Sndu → Prop} {h : DvbNetUleHandle}
  {p q : DvbNetPriv} {s : Sndu} {cc n : ℕ} {sndus todo : List Sndu} {cells : List (Cell UInt8)}
  {call : Call} {calls : List Call} {before : List Received} {R : Except Stop DvbNetPriv}

/-! ### Calls -/

section
variable (dev alloc turns)

/-- What the calls lead to, when they are given enough passes. -/
def Completes (p : DvbNetPriv) (calls : List Call) (R : Except Stop DvbNetPriv) : Prop :=
  ∃ least, ∀ passes, least ≤ passes → dvbNetUleCalls dev alloc turns passes p calls = R

/-- What the rest of a call leads to, and the calls after it. -/
inductive Proceeds (buf : ℕ → UInt8) (tsEnd : ℕ) (calls : List Call) :
    DvbNetUleHandle → Except Stop DvbNetPriv → Prop where
  | ends {h : DvbNetUleHandle} {p : DvbNetPriv} {R : Except Stop DvbNetPriv} :
    Ends (uleBody dev alloc turns buf tsEnd) h (.ok p) → Completes dev alloc turns p calls R →
    Proceeds buf tsEnd calls h R
  | stops {h : DvbNetUleHandle} {e : Stop} :
    Ends (uleBody dev alloc turns buf tsEnd) h (.error e) → Proceeds buf tsEnd calls h (.error e)

/-- What the SNDUs lead to: packets are added to those of `before`. -/
inductive Log (lossy : Prop) :
    ℕ → List Sndu → List Received → Except Stop DvbNetPriv → Prop where
  | done (n : ℕ) (p : DvbNetPriv) : Log lossy n [] p.received (.ok p)
  | heard {n : ℕ} {s : Sndu} {todo : List Sndu} {before r : List Received}
    {R : Except Stop DvbNetPriv} : 5 ≤ s.len → s.outcome dev turns (alloc.memory n) = .ok r →
    Log lossy (n + 1) todo (before ++ r) R → Log lossy n (s :: todo) before R
  | lost {n : ℕ} {s : Sndu} {todo : List Sndu} {before : List Received}
    {R : Except Stop DvbNetPriv} : lossy → Log lossy n todo before R →
    Log lossy n (s :: todo) before R
  | stops {n : ℕ} {s : Sndu} {todo : List Sndu} {before : List Received} {e : Stop} :
    5 ≤ s.len → s.outcome dev turns (alloc.memory n) = .error e →
    Log lossy n (s :: todo) before (.error e)

end

theorem dvbNetUle_ends {R : Except Stop DvbNetPriv}
    (h : Ends (uleBody dev alloc turns call.buf call.bufLen) p.handle R) :
    ∃ least, ∀ passes, least ≤ passes →
      dvbNetUle dev alloc turns call.buf passes p call.bufLen = R := by
  obtain ⟨least, hrun⟩ := h
  refine ⟨least, fun passes hle => ?_⟩
  rw [dvbNetUle, run_mono hle hrun]
  rfl

theorem dvbNetUleCalls_cons : dvbNetUleCalls dev alloc turns passes p (call :: calls) =
    dvbNetUle dev alloc turns call.buf passes p call.bufLen >>=
      fun q => dvbNetUleCalls dev alloc turns passes q calls := rfl

theorem Proceeds.again {h' : DvbNetUleHandle}
    (hbody : uleBody dev alloc turns buf tsEnd h = .again h')
    (hp : Proceeds dev alloc turns buf tsEnd calls h' R) :
    Proceeds dev alloc turns buf tsEnd calls h R := by
  cases hp with
  | ends hends hcompletes => exact .ends (.again hbody hends) hcompletes
  | stops hends => exact .stops (.again hbody hends)

/-- What a visited state leads to. -/
theorem Proceeds.visited {t : DvbNetUleHandle}
    (hvisits : Visits (uleBody dev alloc turns buf tsEnd) h t)
    (hp : Proceeds dev alloc turns buf tsEnd calls t R) :
    Proceeds dev alloc turns buf tsEnd calls h R := by
  induction hvisits with
  | start => exact hp
  | pass _ hpass ih => exact ih (hp.again hpass)

theorem Proceeds.completes
    (hp : Proceeds dev alloc turns call.buf call.bufLen calls p.handle R) :
    Completes dev alloc turns p (call :: calls) R := by
  cases hp with
  | ends hends hcompletes =>
    obtain ⟨least, hcall⟩ := dvbNetUle_ends hends
    obtain ⟨least', hcalls⟩ := hcompletes
    refine ⟨max least least', fun passes hle => ?_⟩
    rw [dvbNetUleCalls_cons, hcall passes (Nat.le_trans (Nat.le_max_left _ _) hle)]
    exact hcalls passes (Nat.le_trans (Nat.le_max_right _ _) hle)
  | stops hends =>
    obtain ⟨least, hcall⟩ := dvbNetUle_ends hends
    refine ⟨least, fun passes hle => ?_⟩
    rw [dvbNetUleCalls_cons, hcall passes hle]
    rfl

/-- On the way to `P` the SNDUs lead to packets. -/
theorem Comes.log (hcomes : Comes dev alloc turns buf tsEnd lossy P h n todo)
    (hthere : ∀ h n todo, P h n todo → ∃ R, Proceeds dev alloc turns buf tsEnd calls h R ∧
      Log dev alloc turns lossy n todo h.priv.received R) :
    ∃ R, Proceeds dev alloc turns buf tsEnd calls h R ∧
      Log dev alloc turns lossy n todo h.priv.received R := by
  induction hcomes with
  | there hp => exact hthere _ _ _ hp
  | pass hbody hreceived _ ih =>
    obtain ⟨R, hproceeds, hlog⟩ := ih
    exact ⟨R, hproceeds.again hbody, hreceived ▸ hlog⟩
  | heard hbody hlen houtcome hreceived _ ih =>
    obtain ⟨R, hproceeds, hlog⟩ := ih
    exact ⟨R, hproceeds.again hbody, .heard hlen houtcome (hreceived ▸ hlog)⟩
  | lost hlossy _ ih =>
    obtain ⟨R, hproceeds, hlog⟩ := ih
    exact ⟨R, hproceeds, .lost hlossy hlog⟩
  | stops hbody hlen houtcome =>
    exact ⟨_, .stops (.exit hbody), .stops hlen houtcome⟩

/-- The rest of a call leads to its end, and the calls after it through the SNDUs that are left. -/
theorem Comes.proceeds {buf : ℕ → UInt8} {tsEnd : ℕ}
    (hcomes : Comes dev alloc turns buf tsEnd lossy
      (DvbNetUleHandle.At dev alloc lossy tsEnd cc cells) h n todo)
    (hrest : ∀ p n' todo', n ≤ n' → p.handle.At dev alloc lossy 0 cc cells n' todo' →
      ∃ R, Completes dev alloc turns p calls R ∧ Log dev alloc turns lossy n' todo' p.received R) :
    ∃ R, Proceeds dev alloc turns buf tsEnd calls h R ∧
      Log dev alloc turns lossy n todo h.priv.received R := by
  refine hcomes.count.log fun h' n' todo' ⟨hat, hn⟩ => ?_
  obtain ⟨rest, rs, hpacked, hadmitted, hts, -, hfollows⟩ := hat
  obtain ⟨R, hcompletes, hlog⟩ :=
    hrest h'.priv n' todo' hn ⟨rest, rs, hpacked, hadmitted, rfl, rfl, hfollows⟩
  have hexit : uleBody dev alloc turns buf tsEnd h' = .exit (.ok h'.priv) :=
    if_pos (Nat.le_of_eq hts.symm)
  exact ⟨R, .ends (.exit hexit) hcompletes, hlog⟩

/-- The calls lead through all SNDUs. -/
theorem calls_log (hgiven : ∀ k, n ≤ k → alloc.fails k = false)
    (hdelivered : Delivered cc cells calls)
    (hat : p.handle.At dev alloc lossy 0 cc cells n todo) :
    ∃ R, Completes dev alloc turns p calls R ∧ Log dev alloc turns lossy n todo p.received R := by
  induction hdelivered generalizing p n todo with
  | nil cc =>
    obtain ⟨rest, rs, hpacked, -, -, -, hfollows⟩ := hat
    cases hpacked
    generalize hrest : ([] : List UInt8) = rest at hfollows
    cases hfollows with
    | waits => exact ⟨.ok p, ⟨0, fun _ _ => rfl⟩, .done n p⟩
    | holds _ _ _ _ _ hlt =>
      have hlen := congrArg List.length hrest
      rw [List.length_drop, List.length_nil] at hlen
      omega
  | @cons _ call _ _ calls hholds _ ih =>
    have hcomes := @call_comes dev alloc turns _ _ _ _ _ _ _ _ _ _ hholds hgiven hat
    obtain ⟨R, hproceeds, hlog⟩ := hcomes.proceeds fun p' n' todo' hn hat' =>
      ih (fun k hk => hgiven k (Nat.le_trans hn hk)) hat'
    exact ⟨R, hproceeds.completes, hlog⟩

/-! ### Packets -/

/-- Every SNDU leads to its packet. -/
theorem Log.delivered (hlog : Log dev alloc turns lossy n todo before R) (hclean : ¬lossy)
    (hall : ∀ k (s : Sndu), todo[k]? = some s →
      s.outcome dev turns (alloc.memory (n + k)) = .ok [s.expected dev]) :
    ∃ p, R = .ok p ∧ p.received = before ++ todo.map (·.expected dev) := by
  induction hlog with
  | done n p => exact ⟨p, rfl, (List.append_nil _).symm⟩
  | @heard n s todo before r R hlen houtcome _ ih =>
    obtain rfl : r = [s.expected dev] := Except.ok.inj (houtcome.symm.trans (hall 0 s rfl))
    obtain ⟨p, hp, hreceived⟩ := ih fun k s' hs' => by
      rw [Nat.add_assoc, Nat.add_comm 1 k]
      exact hall (k + 1) s' hs'
    exact ⟨p, hp, by rw [hreceived, List.append_assoc]; rfl⟩
  | lost hlossy => exact absurd hlossy hclean
  | @stops n s todo before e hlen houtcome =>
    cases houtcome.symm.trans (hall 0 s rfl)

theorem Log.at_most (hlog : Log dev alloc turns lossy n todo before (.ok p)) :
    ∃ out, p.received = before ++ out ∧ out.length ≤ todo.length := by
  generalize hR : Except.ok p = R at hlog
  induction hlog with
  | done n p => cases hR; exact ⟨[], (List.append_nil _).symm, Nat.le_refl 0⟩
  | @heard _ _ _ _ r _ _ houtcome _ ih =>
    obtain ⟨out, hout, hle⟩ := ih hR
    have hone := outcome_length houtcome
    refine ⟨r ++ out, by rw [hout, List.append_assoc], ?_⟩
    rw [List.length_append, List.length_cons]
    omega
  | lost _ _ ih =>
    obtain ⟨out, hout, hle⟩ := ih hR
    exact ⟨out, hout, Nat.le_succ_of_le hle⟩
  | stops => cases hR

/-- When there are all packets, each SNDU has led to its own. -/
theorem Log.each (hlog : Log dev alloc turns lossy n todo before (.ok p))
    (hreceived : p.received = before ++ todo.map (·.expected dev)) :
    ∀ k (s : Sndu), todo[k]? = some s →
      5 ≤ s.len ∧ s.outcome dev turns (alloc.memory (n + k)) = .ok [s.expected dev] := by
  generalize hR : Except.ok p = R at hlog
  induction hlog with
  | done => intro k s hs; cases hs
  | @heard n s todo before r R hlen houtcome hlog ih =>
    subst hR
    obtain ⟨out, hout, hle⟩ := hlog.at_most
    have hone := outcome_length houtcome
    have hboth : r ++ out = s.expected dev :: todo.map (·.expected dev) := by
      rw [hreceived, List.append_assoc] at hout
      exact (List.append_cancel_left hout).symm
    have hcount := congrArg List.length hboth
    rw [List.length_append, List.length_cons, List.length_map] at hcount
    obtain ⟨x, rfl⟩ := List.length_eq_one_iff.mp (show r.length = 1 by omega)
    obtain ⟨rfl, hrest⟩ := List.cons.inj hboth
    have hall := ih (by rw [hreceived, List.append_assoc]; rfl) rfl
    intro k s' hs'
    cases k with
    | zero =>
      cases hs'
      exact ⟨hlen, houtcome⟩
    | succ k =>
      have hk := hall k s' hs'
      rwa [Nat.add_assoc, Nat.add_comm 1 k] at hk
  | lost _ hlog =>
    subst hR
    obtain ⟨out, hout, hle⟩ := hlog.at_most
    have hcount := congrArg List.length (List.append_cancel_left (hout.symm.trans hreceived))
    rw [List.length_map, List.length_cons] at hcount
    omega
  | stops => cases hR

/-! ### Round trip -/

theorem Sndu.short_iff (s : Sndu) : s.len < 5 ↔ s.dest = none ∧ s.pdu.content = [] := by
  rw [Sndu.len, Sndu.covered, List.length_append, ← List.length_eq_zero_iff]
  cases hdest : s.dest with
  | none =>
    rw [Option.getD_none, List.length_nil]
    simp only [true_and]
    omega
  | some mac =>
    have hmac : mac.length = 6 := s.dest_length mac hdest
    rw [Option.getD_some, hmac]
    simp only [reduceCtorEq, false_and, iff_false]
    omega

/-- One bound is enough for the headers of all SNDUs. -/
theorem outcomes_of (hall : ∀ k (s : Sndu), todo[k]? = some s → s.Unharmed (alloc.memory (n + k))) :
    ∃ turns, ∀ k (s : Sndu), todo[k]? = some s →
      s.outcome dev turns (alloc.memory (n + k)) = .ok [s.expected dev] := by
  induction todo generalizing n with
  | nil => exact ⟨0, nofun⟩
  | cons s todo ih =>
    obtain ⟨turns, hturns⟩ := delivered_iff.mpr (hall 0 s rfl)
    obtain ⟨turns', hturns'⟩ := ih (n := n + 1) fun k s' hs' => by
      rw [Nat.add_assoc, Nat.add_comm 1 k]
      exact hall (k + 1) s' hs'
    refine ⟨max turns turns', fun k s' hs' => ?_⟩
    cases k with
    | zero =>
      cases hs'
      exact outcome_mono (Nat.le_max_left _ _) hturns
    | succ k =>
      have hk := hturns' k s' hs'
      rw [Nat.add_assoc, Nat.add_comm 1 k] at hk
      exact outcome_mono (Nat.le_max_right _ _) hk

theorem dvbNetUle_mono {bufLen : ℕ} (hle : passes ≤ passes')
    (h : dvbNetUle dev alloc turns buf passes p bufLen = .ok q) :
    dvbNetUle dev alloc turns buf passes' p bufLen = .ok q := by
  rw [dvbNetUle] at h ⊢
  cases hrun : run (uleBody dev alloc turns buf bufLen) passes p.handle with
  | none =>
    rw [hrun] at h
    cases h
  | some R =>
    rw [run_mono hle hrun]
    rwa [hrun] at h

theorem dvbNetUleCalls_mono (hle : passes ≤ passes')
    (h : dvbNetUleCalls dev alloc turns passes p calls = .ok q) :
    dvbNetUleCalls dev alloc turns passes' p calls = .ok q := by
  induction calls generalizing p with
  | nil => exact h
  | cons call calls ih =>
    rw [dvbNetUleCalls_cons] at h ⊢
    cases hcall : dvbNetUle dev alloc turns call.buf passes p call.bufLen with
    | error e =>
      rw [hcall] at h
      cases h
    | ok p' =>
      rw [hcall] at h
      rw [dvbNetUle_mono hle hcall]
      exact ih h

/-- The decoder of a feed that has just been started waits for the first SNDU. -/
theorem feedStart_at (haccept : ∀ s ∈ sndus, ∀ mac ∈ s.dest, dev.Accepts mac)
    (hpacked : Packed uleFormat [] sndus cells) :
    DvbNetPriv.feedStart.handle.At dev alloc (∃ s ∈ sndus, s.len < 5) 0 cc cells 0 sndus :=
  ⟨[], sndus, hpacked, fun s hs => ⟨haccept s hs, fun hlen => ⟨s, hs, hlen⟩⟩, rfl, rfl,
    .waits [] sndus rfl ⟨rfl, rfl, rfl, rfl, rfl⟩ rfl⟩

section
variable (hgiven : ∀ n, alloc.fails n = false)
  (haccept : ∀ s ∈ sndus, ∀ mac ∈ s.dest, dev.Accepts mac)
  (hpacked : Packed uleFormat [] sndus cells) (hdelivered : Delivered cc cells calls)
include hgiven haccept hpacked hdelivered

/-- SNDUs that are long enough and unharmed lead to their packets. -/
theorem calls_deliver (hlong : ∀ s ∈ sndus, 5 ≤ s.len)
    (hunharmed : ∀ k (s : Sndu), sndus[k]? = some s → s.Unharmed (alloc.memory k)) :
    ∃ turns passes p, dvbNetUleCalls dev alloc turns passes .feedStart calls = .ok p ∧
      p.received = sndus.map (·.expected dev) := by
  obtain ⟨turns, hturns⟩ := @outcomes_of dev alloc 0 sndus fun k s hs => by
    rw [Nat.zero_add]
    exact hunharmed k s hs
  obtain ⟨R, ⟨least, hcalls⟩, hlog⟩ :=
    @calls_log dev alloc turns _ _ _ _ _ _ _ (fun k _ => hgiven k) hdelivered (feedStart_at haccept hpacked)
  have hclean : ¬∃ s ∈ sndus, s.len < 5 := by
    rintro ⟨s, hs, hshort⟩
    exact Nat.not_lt_of_le (hlong s hs) hshort
  obtain ⟨p, rfl, hreceived⟩ := hlog.delivered hclean hturns
  exact ⟨turns, least, p, hcalls least (Nat.le_refl _), hreceived⟩

/-- When there are all packets, the SNDUs are long enough and unharmed. -/
theorem calls_need (hcalls : dvbNetUleCalls dev alloc turns passes .feedStart calls = .ok p)
    (hreceived : p.received = sndus.map (·.expected dev)) (k : ℕ) (s : Sndu)
    (hs : sndus[k]? = some s) : 5 ≤ s.len ∧ s.Unharmed (alloc.memory k) := by
  obtain ⟨R, ⟨least, hR⟩, hlog⟩ :=
    @calls_log dev alloc turns _ _ _ _ _ _ _ (fun k _ => hgiven k) hdelivered (feedStart_at haccept hpacked)
  have hmore := dvbNetUleCalls_mono (Nat.le_max_right least passes) hcalls
  obtain rfl : Except.ok p = R := hmore.symm.trans (hR _ (Nat.le_max_left least passes))
  have hreceived' : p.received = DvbNetPriv.feedStart.received ++ sndus.map (·.expected dev) :=
    hreceived
  obtain ⟨hlen, houtcome⟩ := hlog.each hreceived' k s hs
  rw [Nat.zero_add] at houtcome
  exact ⟨hlen, delivered_iff.mp ⟨turns, houtcome⟩⟩

/-- Round trip: the calls lead to exactly the packets of the SNDUs when no SNDU without a destination
    address is empty, and the bridged frames with one are unharmed. -/
theorem dvbNetUleCalls_received_iff :
    (∃ turns passes p, dvbNetUleCalls dev alloc turns passes .feedStart calls = .ok p ∧
      p.received = sndus.map (·.expected dev)) ↔
    ∀ k (s : Sndu), sndus[k]? = some s →
      (s.dest = none → s.pdu.content ≠ []) ∧ s.Unharmed (alloc.memory k) := by
  have hlong (s : Sndu) : 5 ≤ s.len ↔ (s.dest = none → s.pdu.content ≠ []) := by
    rw [← Nat.not_lt, s.short_iff]
    exact not_and
  constructor
  · rintro ⟨turns, passes, p, hcalls, hreceived⟩ k s hs
    obtain ⟨hlen, hunharmed⟩ :=
      calls_need hgiven haccept hpacked hdelivered hcalls hreceived k s hs
    exact ⟨(hlong s).mp hlen, hunharmed⟩
  · intro hall
    refine calls_deliver hgiven haccept hpacked hdelivered (fun s hs => ?_)
      fun k s hs => (hall k s hs).2
    obtain ⟨k, hk⟩ := List.mem_iff_getElem?.mp hs
    exact (hlong s).mpr (hall k s hk).1

end

/-! ### One SNDU in one TS cell -/

namespace Sndu
variable (s : Sndu)

/-- The SNDU at the start of a TS cell, and padding behind it. -/
def oneCell : Cell UInt8 :=
  ⟨true, uleFormat.pointer 0 :: ([] ++ (s.bytes ++ List.replicate (183 - s.bytes.length) 0xFF))⟩

def oneCall : Call := ⟨fun i => ([tsSync, tsPusi, 0, 0] ++ s.oneCell.symbols).getD i 0, tsSz⟩

variable (hfits : s.bytes.length ≤ 183)
include hfits

theorem oneCell_packed : Packed uleFormat [] [s] [s.oneCell] :=
  .starts (show 0 + (s.bytes.length + (183 - s.bytes.length)) + 1 = 184 by omega)
    (.whole s (.pad _ [])) Nat.zero_lt_one .done

theorem oneCell_payload (u v : List UInt8) :
    block (fun i => (u ++ (s.oneCell.symbols ++ v)).getD i 0) u.length 184 = s.oneCell.symbols := by
  have hlen : s.oneCell.symbols.length = 184 := by
    rw [oneCell, List.length_cons, List.nil_append, List.length_append, List.length_replicate]
    omega
  rw [block_getD _ _ (by rw [List.length_append, List.length_append]; omega), List.drop_left,
    ← hlen, List.take_left]

theorem oneCall_delivered : Delivered 0 [s.oneCell] [s.oneCall] := by
  have hpayload : block (fun i => s.oneCall.buf (0 + i)) 4 184 = s.oneCell.symbols := by
    have hcell := oneCell_payload s hfits [tsSync, tsPusi, 0, 0] []
    rw [List.append_nil] at hcell
    rw [block_shift]
    exact hcell
  have hcarries : Carries 0 s.oneCell fun i => s.oneCall.buf (0 + i) :=
    ⟨rfl, show tsPusi &&& tsTei = 0 by decide,
      iff_of_true (show tsPusi &&& tsPusi ≠ 0 by decide) rfl, show (0 : UInt8) &&& tsSc = 0 by decide,
      show ((0 : UInt8) &&& 0x0F).toNat = 0 % 16 by decide, hpayload⟩
  exact @Delivered.cons _ _ [s.oneCell] _ _ (.cons hcarries (.nil 1)) (.nil 1)

end Sndu

/-- An interface that accepts its own address. -/
def someDevice : NetDevice :=
  { devAddr := [2, 0, 0, 0, 0, 1]
    broadcast := List.replicate ethAlen 0xFF
    rxMode := .uni
    multiNum := 0
    multiMacs := [] }

def zeroMemory : SkbAllocator := ⟨fun _ => false, fun _ _ => 0⟩

def typedSndu : Sndu where
  dest := none
  pdu := .typed 0x0800 [1, 2, 3]
  proper := ⟨by decide, by decide⟩
  dest_length := nofun
  length_le := by decide
  not_end := by decide

/-- A frame for the interface itself, with zeros behind the first four bytes of its payload. -/
def bridgedSndu : Sndu where
  dest := some [2, 0, 0, 0, 0, 1]
  pdu := .bridged [2, 0, 0, 0, 0, 1, 2, 0, 0, 0, 0, 2, 8, 0, 0x45, 0, 0, 20, 0, 0]
  proper := ⟨by decide, by decide⟩
  dest_length := by decide
  length_le := by decide
  not_end := by decide


theorem typedSndu_received :
    ∃ turns passes p, dvbNetUleCalls someDevice zeroMemory turns passes .feedStart
      [typedSndu.oneCall] = .ok p ∧ p.received = [typedSndu.expected someDevice] := by
  have haccept : ∀ s ∈ [typedSndu], ∀ mac ∈ s.dest, someDevice.Accepts mac := by
    intro s hs mac hmac
    obtain rfl := List.mem_singleton.mp hs
    cases hmac
  refine (dvbNetUleCalls_received_iff (fun _ => rfl) haccept
    (typedSndu.oneCell_packed (by decide)) (typedSndu.oneCall_delivered (by decide))).mpr ?_
  intro k s hs
  obtain rfl := List.mem_singleton.mp (List.mem_of_getElem? hs)
  exact ⟨fun _ => List.cons_ne_nil _ _, nofun⟩

/-- Where the frame has its zeros, the type of a test SNDU is found. -/
theorem bridgedSndu_not_received :
    ¬∃ turns passes p, dvbNetUleCalls someDevice zeroMemory turns passes .feedStart
      [bridgedSndu.oneCall] = .ok p ∧ p.received = [bridgedSndu.expected someDevice] := by
  rintro ⟨turns, passes, p, hcalls, hreceived⟩
  have haccept : ∀ s ∈ [bridgedSndu], ∀ mac ∈ s.dest, someDevice.Accepts mac := by
    intro s hs mac hmac
    obtain rfl := List.mem_singleton.mp hs
    cases hmac
    exact .inr (by decide)
  obtain ⟨-, hunharmed⟩ := calls_need (fun _ => rfl) haccept
    (bridgedSndu.oneCell_packed (by decide)) (bridgedSndu.oneCall_delivered (by decide)) hcalls
    hreceived 0 bridgedSndu rfl
  obtain ⟨stop, hto, -⟩ := hunharmed _ rfl (Option.some_ne_none _)
  have htype : (bridgedSndu.inSkb (zeroMemory.memory 0)).ntohs (3 * ethAlen) = 0 := rfl
  rw [htype] at hto
  cases hto with
  | ends _ hge => exact absurd hge (by decide)
  | optional _ hhlen => exact absurd (by decide) hhlen
  | bridged _ _ hhtype => exact absurd hhtype (by decide)

end Dvb.Ule

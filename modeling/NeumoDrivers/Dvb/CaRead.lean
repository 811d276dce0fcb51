import NeumoDrivers.Dvb.RingPackets

/-! Reading a CAM's messages out of the receive buffer of its slot.

    A fragment is a packet of the ring: its first byte is the connection id, the top bit of the
    second one says that more fragments of the message follow, and the payload comes behind them.
    `dvb_ca_en50221_io_read` takes the connection of the first packet and collects the fragments of
    that connection, disposing of them one by one, until one is the last of its message. -/

namespace Dvb
open Demux Loop DvbRingbuffer

/-- `RX_BUFFER_SIZE` -/
abbrev rxBufferSize : ℕ := 65535

def eio : ℤ := 5

/-- The top bit of a fragment's second byte is clear. -/
def lastFragment (flags : UInt8) : Prop := flags &&& 0x80 = 0

instance (flags : UInt8) : Decidable (lastFragment flags) := inferInstanceAs (Decidable (_ = _))

variable {size : ℕ}

/-- The scan of one slot in `dvb_ca_en50221_io_read_condition`, from what `dvb_ringbuffer_pkt_next`
    gave on: the connection id it knows then, and whether it found the last fragment of a message of
    that connection. -/
inductive ScansSlot (rbuf : DvbRingbuffer size) :
    Option (ℕ × ℕ) → Option UInt8 → Option UInt8 × Bool → Prop where
  | none {conn : Option UInt8} : ScansSlot rbuf none conn (conn, false)
  | found {idx len : ℕ} {conn : Option UInt8} {hdr₀ hdr₁ : UInt8}
      (hdr : rbuf.pktRead idx 0 2 = some (.ok [hdr₀, hdr₁])) (hsame : hdr₀ = conn.getD hdr₀)
      (hlast : lastFragment hdr₁) :
      ScansSlot rbuf (some (idx, len)) conn (some (conn.getD hdr₀), true)
  | next {idx len : ℕ} {conn : Option UInt8} {hdr₀ hdr₁ : UInt8} {next : Option (ℕ × ℕ)}
      {r : Option UInt8 × Bool} (hdr : rbuf.pktRead idx 0 2 = some (.ok [hdr₀, hdr₁]))
      (hother : ¬ (hdr₀ = conn.getD hdr₀ ∧ lastFragment hdr₁))
      (hnext : rbuf.PktNext (some idx) next)
      (hrest : ScansSlot rbuf next (some (conn.getD hdr₀)) r) :
      ScansSlot rbuf (some (idx, len)) conn r

/-- Copy the payload of a fragment of `fraglen` bytes behind what the user has got, as far as
    `count` allows; `pktlen` counts the two bytes of the header too. -/
def copyFragment (rbuf : DvbRingbuffer size) (idx fraglen count : ℕ) (buf : List UInt8) :
    Option (List UInt8) :=
  let pktlen := 2 + buf.length
  if pktlen < count then
    let fraglen := if count < pktlen + fraglen - 2 then count - pktlen else fraglen - 2
    match rbuf.pktRead idx 2 fraglen with
    | some (.ok bytes) => some (buf ++ bytes)
    | _ => none
  else some buf

/-- The variables of the loop of `dvb_ca_en50221_io_read`: the packet it is at and its length, the
    connection id, and the payload the user has got. -/
structure Reading where
  idx : Option (ℕ × ℕ)
  conn : Option UInt8
  buf : List UInt8

/-- One pass of that loop. It goes on or ends, with the error for a message that does not end or with
    the connection id and the payload; `gone` is the packet that it disposes of. -/
inductive ReadStep (count : ℕ) (rbuf : DvbRingbuffer size) : Reading →
    Next Reading (Except ℤ (UInt8 × List UInt8)) → Option ℕ → DvbRingbuffer size → Prop where
  | ended {conn : Option UInt8} {buf : List UInt8} :
      ReadStep count rbuf ⟨none, conn, buf⟩ (.exit (.error (-eio))) none rbuf
  | other {idx fraglen : ℕ} {conn : Option UInt8} {buf : List UInt8} {hdr₀ hdr₁ : UInt8}
      {next : Option (ℕ × ℕ)} (hdr : rbuf.pktRead idx 0 2 = some (.ok [hdr₀, hdr₁]))
      (hother : hdr₀ ≠ conn.getD hdr₀) (hnext : rbuf.PktNext (some idx) next) :
      ReadStep count rbuf ⟨some (idx, fraglen), conn, buf⟩
        (.again ⟨next, some (conn.getD hdr₀), buf⟩) none rbuf
  | part {idx fraglen : ℕ} {conn : Option UInt8} {buf buf' : List UInt8} {hdr₀ hdr₁ : UInt8}
      {next : Option (ℕ × ℕ)} {rbuf' : DvbRingbuffer size}
      (hdr : rbuf.pktRead idx 0 2 = some (.ok [hdr₀, hdr₁])) (hsame : hdr₀ = conn.getD hdr₀)
      (hmore : ¬ lastFragment hdr₁) (hcopy : copyFragment rbuf idx fraglen count buf = some buf')
      (hnext : rbuf.PktNext (some idx) next) (hdispose : rbuf.PktDispose idx rbuf') :
      ReadStep count rbuf ⟨some (idx, fraglen), conn, buf⟩ (.again ⟨next, some hdr₀, buf'⟩)
        (some idx) rbuf'
  | last {idx fraglen : ℕ} {conn : Option UInt8} {buf buf' : List UInt8} {hdr₀ hdr₁ : UInt8}
      {rbuf' : DvbRingbuffer size} (hdr : rbuf.pktRead idx 0 2 = some (.ok [hdr₀, hdr₁]))
      (hsame : hdr₀ = conn.getD hdr₀) (hlast : lastFragment hdr₁)
      (hcopy : copyFragment rbuf idx fraglen count buf = some buf')
      (hdispose : rbuf.PktDispose idx rbuf') :
      ReadStep count rbuf ⟨some (idx, fraglen), conn, buf⟩ (.exit (.ok (hdr₀, buf'))) (some idx)
        rbuf'

/-! ### Fragments in the buffer -/

namespace DvbRingbuffer

def Pkt.connectionId (p : Pkt) : UInt8 := p.bytes.getD 0 0

/-- The fragment ends its message. -/
def Pkt.isLast (p : Pkt) : Prop := lastFragment (p.bytes.getD 1 0)

instance (p : Pkt) : Decidable p.isLast := inferInstanceAs (Decidable (lastFragment _))

def Pkt.payload (p : Pkt) : List UInt8 := p.bytes.drop 2

/-- What `dvb_ringbuffer_pkt_next` answers if these are the packets it has still to look at. -/
def firstReady (ps : List Pkt) : Option (ℕ × ℕ) := (ps.find? fun p => !p.disposed).map Pkt.found

variable {rbuf rbuf' : DvbRingbuffer size} {p : Pkt} {l ps qs : List Pkt} {conn : Option UInt8}
  {count : ℕ} {buf : List UInt8}

/-- A fragment has its two header bytes. -/
def Fragments (ps : List Pkt) : Prop := ∀ p ∈ ps, 2 ≤ p.bytes.length

theorem firstReady_cons (p : Pkt) (ps : List Pkt) :
    firstReady (p :: ps) = if p.disposed then firstReady ps else some p.found := by
  rw [firstReady, List.find?_cons]
  cases p.disposed <;> rfl

/-- Either every packet was disposed of, or there is a first one that was not. -/
theorem firstReady_cases (ps : List Pkt) :
    (firstReady ps = none ∧ ∀ p ∈ ps, p.disposed) ∨
    ∃ skipped p rest, ps = skipped ++ p :: rest ∧ (∀ q ∈ skipped, q.disposed) ∧
      p.disposed = false ∧ firstReady ps = some p.found := by
  induction ps with
  | nil => exact .inl ⟨rfl, by simp⟩
  | cons p ps ih =>
    by_cases hd : p.disposed
    · have hfirst : firstReady (p :: ps) = firstReady ps := by rw [firstReady_cons, if_pos hd]
      rw [hfirst]
      rcases ih with ⟨hnone, hall⟩ | ⟨skipped, q, rest, rfl, hskip, hq, hsome⟩
      · exact .inl ⟨hnone, List.forall_mem_cons.mpr ⟨hd, hall⟩⟩
      · exact .inr ⟨p :: skipped, q, rest, rfl, List.forall_mem_cons.mpr ⟨hd, hskip⟩, hq, hsome⟩
    · exact .inr ⟨[], p, ps, rfl, by simp, by simpa using hd, by
        rw [firstReady_cons, if_neg hd]⟩

theorem firstReady_eq_some {x : ℕ × ℕ} (h : firstReady ps = some x) :
    ∃ skipped p rest, ps = skipped ++ p :: rest ∧ (∀ q ∈ skipped, q.disposed) ∧
      p.disposed = false ∧ x = p.found := by
  rcases firstReady_cases ps with ⟨hnone, -⟩ | ⟨skipped, p, rest, hps, hskip, hp, hsome⟩
  · rw [h] at hnone
    cases hnone
  · exact ⟨skipped, p, rest, hps, hskip, hp, Option.some.inj (h.symm.trans hsome)⟩

theorem find_ready {skipped rest : List Pkt} (hskip : ∀ q ∈ skipped, q.disposed)
    (hp : p.disposed = false) :
    ((skipped ++ p :: rest).find? fun p => !p.disposed) = some p := by
  have hnone : (skipped.find? fun p => !p.disposed) = none :=
    List.find?_eq_none.mpr fun q hq => by simp [hskip q hq]
  rw [List.find?_append, hnone, Option.none_or, List.find?_cons_of_pos (by simp [hp])]

theorem firstReady_kept (ps : List Pkt) : firstReady (kept ps) = firstReady ps := by
  induction ps with
  | nil => rfl
  | cons p ps ih =>
    rw [firstReady_cons, kept, List.dropWhile_cons]
    split_ifs with hd
    · exact ih
    · rw [firstReady_cons, if_neg hd]

theorem kept_split (l ps : List Pkt) (hp : p.disposed = false) :
    kept (l ++ p :: ps) = kept l ++ p :: ps := by
  induction l with
  | nil => rw [kept, List.nil_append, List.dropWhile_cons_of_neg (by simp [hp])]; rfl
  | cons q l ih =>
    rw [kept, kept, List.cons_append, List.dropWhile_cons, List.dropWhile_cons]
    split
    · exact ih
    · rfl

theorem Holds.hdr (h : Holds (qs ++ p :: ps) rbuf) (hp : 2 ≤ p.bytes.length) :
    rbuf.pktRead p.pos 0 2 = some (.ok [p.connectionId, p.bytes.getD 1 0]) := by
  rw [h.pktRead, Pkt.readAt, if_pos ⟨by decide, Int.natCast_nonneg _⟩]
  obtain ⟨pos, bytes, disposed⟩ := p
  match bytes, hp with
  | a :: b :: rest, _ => rfl

theorem Holds.copyFragment (h : Holds (qs ++ p :: ps) rbuf) (hp : 2 ≤ p.bytes.length)
    (hbuf : 2 + buf.length ≤ count) :
    copyFragment rbuf p.pos p.bytes.length count buf =
      some ((buf ++ p.payload).take (count - 2)) := by
  have hlen : p.payload.length = p.bytes.length - 2 := List.length_drop ..
  have hread : ∀ n, rbuf.pktRead p.pos 2 n = some (.ok (p.payload.take n)) := fun n => by
    rw [h.pktRead, Pkt.readAt, if_pos ⟨by decide, by
      have : (2 : Int32).toInt = 2 := rfl
      omega⟩]
    rfl
  have htake : (buf ++ p.payload).take (count - 2) =
      buf ++ p.payload.take (count - 2 - buf.length) := by
    rw [List.take_append, List.take_of_length_le (by omega : buf.length ≤ count - 2)]
  rw [Dvb.copyFragment, htake]
  simp only [hread]
  split_ifs with hroom hcut
  · congr 3
    omega
  · rw [List.take_of_length_le (by omega : p.payload.length ≤ p.bytes.length - 2),
      List.take_of_length_le (by omega : p.payload.length ≤ count - 2 - buf.length)]
  · rw [(by omega : count - 2 - buf.length = 0), List.take_zero, List.append_nil]

theorem Holds.pos_inj (h : Holds (qs ++ p :: ps) rbuf) {q : Pkt} (hq : q ∈ qs ∨ q ∈ ps) :
    q.pos ≠ p.pos := by
  have hlt := h.sound.avail_bounds.2
  have havail := h.avail_eq
  have hpread := h.sound.pread_lt
  rw [space_append, space_cons] at havail
  have hapart : ∀ {i j : ℕ}, i < j → j < i + size → i % size ≠ j % size := by
    intro i j hij hji heq
    have hdvd := (Nat.modEq_iff_dvd' hij.le).mp heq
    exact absurd (Nat.le_of_dvd (by omega) hdvd) (by omega)
  rcases hq with hq | hq
  · obtain ⟨a, b, rfl⟩ := List.append_of_mem hq
    have h' : Holds (a ++ q :: (b ++ p :: ps)) rbuf := by
      rwa [List.append_assoc, List.cons_append] at h
    rw [h.pos_eq, h'.pos_eq, space_append, space_cons]
    rw [space_append, space_cons] at havail
    exact hapart (by omega) (by omega)
  · obtain ⟨a, b, rfl⟩ := List.append_of_mem hq
    have h' : Holds ((qs ++ p :: a) ++ q :: b) rbuf := by
      rwa [List.append_assoc, List.cons_append]
    rw [h.pos_eq, h'.pos_eq, space_append, space_cons]
    rw [space_append, space_cons] at havail
    exact (hapart (by omega) (by omega)).symm

/-- No other packet lies where one lies that was not disposed of, unless it was disposed of itself
    and is no longer kept. -/
theorem Holds.apart (h : Holds (kept (l ++ p :: ps)) rbuf) (hp : p.disposed = false) :
    (∀ q ∈ l, q.disposed ∨ q.pos ≠ p.pos) ∧ ∀ q ∈ ps, q.pos ≠ p.pos := by
  rw [kept_split l ps hp] at h
  refine ⟨fun q hq => ?_, fun q hq => h.pos_inj (.inr hq)⟩
  by_cases hd : q.disposed
  · exact .inl hd
  · have hmem : q ∈ (kept l).filter fun p => !p.disposed := by
      rw [filter_kept]
      exact List.mem_filter.mpr ⟨hq, by simpa using hd⟩
    exact .inr (h.pos_inj (.inl (List.mem_of_mem_filter hmem)))

/-- The packets held after one of those kept was disposed of. -/
theorem Holds.disposeAt (h : Holds (kept (l ++ p :: ps)) rbuf) (hp : p.disposed = false) :
    ∃ rbuf', rbuf.PktDispose p.pos rbuf' ∧
      Holds (kept (l ++ { p with disposed := true } :: ps)) rbuf' := by
  rw [kept_split l ps hp] at h
  obtain ⟨rbuf', hd, hholds⟩ :=
    h.dispose fun q hq => List.all_eq_true.mp (List.all_takeWhile (l := l)) q hq
  have hl : l.takeWhile Pkt.disposed ++ kept l = l := List.takeWhile_append_dropWhile
  rw [hl] at hholds
  exact ⟨rbuf', hd, hholds⟩

/-- A search behind a packet finds the first of the later ones. -/
theorem Holds.next (h : Holds (kept (l ++ p :: ps)) rbuf) (hp : p.disposed = false)
    (hsize : size < 2 ^ 31) : rbuf.PktNext (some p.pos) (firstReady ps) := by
  rw [kept_split l ps hp] at h
  exact h.next_some hsize

theorem Holds.first (h : Holds (kept l) rbuf) (hsize : size < 2 ^ 31) :
    rbuf.PktNext none (firstReady l) := by
  rw [← firstReady_kept]
  exact h.next_none hsize

/-- What a pass does, by the packets the loop has still to look at. Either there is none, or the
    first one belongs to another connection, or it is copied and disposed of. -/
theorem Holds.readStep_cases (h : Holds (kept (l ++ ps)) rbuf) (hsize : size < 2 ^ 31)
    (hf : Fragments ps) (hbuf : 2 + buf.length ≤ count)
    {out : Next Reading (Except ℤ (UInt8 × List UInt8))} {gone : Option ℕ}
    (hstep : ReadStep count rbuf ⟨firstReady ps, conn, buf⟩ out gone rbuf') :
    ((∀ p ∈ ps, p.disposed) ∧ out = .exit (.error (-eio)) ∧ gone = none ∧ rbuf' = rbuf) ∨
    ∃ skipped p rest, ps = skipped ++ p :: rest ∧ (∀ q ∈ skipped, q.disposed) ∧
      p.disposed = false ∧
      ((p.connectionId ≠ conn.getD p.connectionId ∧ gone = none ∧ rbuf' = rbuf ∧
          out = .again ⟨firstReady rest, some (conn.getD p.connectionId), buf⟩) ∨
        (p.connectionId = conn.getD p.connectionId ∧ gone = some p.pos ∧
          Holds (kept (l ++ skipped ++ { p with disposed := true } :: rest)) rbuf' ∧
          out = if p.isLast then .exit (.ok (p.connectionId, (buf ++ p.payload).take (count - 2)))
            else .again ⟨firstReady rest, some p.connectionId,
              (buf ++ p.payload).take (count - 2)⟩)) := by
  rcases firstReady_cases ps with ⟨hnone, hall⟩ | ⟨skipped, p, rest, rfl, hskip, hp, hsome⟩
  · rw [hnone] at hstep
    cases hstep
    exact .inl ⟨hall, rfl, rfl, rfl⟩
  · refine .inr ⟨skipped, p, rest, rfl, hskip, hp, ?_⟩
    have hlen := hf p (by simp)
    rw [← List.append_assoc] at h
    have hkept := h
    rw [kept_split _ _ hp] at hkept
    obtain ⟨rbuf₁, hdispose₁, hholds⟩ := h.disposeAt hp
    rw [hsome, Pkt.found] at hstep
    have hheader : ∀ {hdr₀ hdr₁ : UInt8}, rbuf.pktRead p.pos 0 2 = some (.ok [hdr₀, hdr₁]) →
        p.connectionId = hdr₀ ∧ p.bytes.getD 1 0 = hdr₁ := by
      intro hdr₀ hdr₁ hread
      rw [hkept.hdr hlen] at hread
      simpa using hread
    have hcopied : ∀ {buf'}, Dvb.copyFragment rbuf p.pos p.bytes.length count buf = some buf' →
        (buf ++ p.payload).take (count - 2) = buf' := by
      intro buf' hcopy
      rw [hkept.copyFragment hlen hbuf] at hcopy
      exact Option.some.inj hcopy
    cases hstep with
    | other hdr hother hnext =>
      obtain ⟨rfl, rfl⟩ := hheader hdr
      obtain rfl := Ends.unique hnext (h.next hp hsize)
      exact .inl ⟨hother, rfl, rfl, rfl⟩
    | part hdr hsame hmore hcopy hnext hdispose =>
      obtain ⟨rfl, rfl⟩ := hheader hdr
      obtain rfl := hcopied hcopy
      obtain rfl := Ends.unique hnext (h.next hp hsize)
      obtain rfl := Ends.unique hdispose hdispose₁
      exact .inr ⟨hsame, rfl, hholds, (if_neg hmore).symm⟩
    | last hdr hsame hlast hcopy hdispose =>
      obtain ⟨rfl, rfl⟩ := hheader hdr
      obtain rfl := hcopied hcopy
      obtain rfl := Ends.unique hdispose hdispose₁
      exact .inr ⟨hsame, rfl, hholds, (if_pos hlast).symm⟩

/-- Every pass can be made. -/
theorem Holds.readStep (h : Holds (kept (l ++ ps)) rbuf) (hsize : size < 2 ^ 31)
    (hf : Fragments ps) (hbuf : 2 + buf.length ≤ count) (conn : Option UInt8) :
    ∃ out gone rbuf', ReadStep count rbuf ⟨firstReady ps, conn, buf⟩ out gone rbuf' := by
  rcases firstReady_cases ps with ⟨hnone, -⟩ | ⟨skipped, p, rest, rfl, -, hp, hsome⟩
  · rw [hnone]
    exact ⟨_, _, _, .ended⟩
  · have hlen := hf p (by simp)
    rw [← List.append_assoc] at h
    have hkept := h
    rw [kept_split _ _ hp] at hkept
    obtain ⟨rbuf₁, hdispose, -⟩ := h.disposeAt hp
    have hnext := h.next hp hsize
    have hcopy := hkept.copyFragment hlen hbuf
    rw [hsome]
    by_cases hsame : p.connectionId = conn.getD p.connectionId
    · by_cases hlast : p.isLast
      · exact ⟨_, _, _, .last (hkept.hdr hlen) hsame hlast hcopy hdispose⟩
      · exact ⟨_, _, _, .part (hkept.hdr hlen) hsame hlast hcopy hnext hdispose⟩
    · exact ⟨_, _, _, .other (hkept.hdr hlen) hsame hnext⟩

/-- What a scan of the slot knows afterwards. The connection is that of the first packet unless an
    earlier slot gave one, and a message was found if a packet of that connection is its last
    fragment. -/
theorem Holds.scansSlot_cases (h : Holds (kept (l ++ ps)) rbuf) (hsize : size < 2 ^ 31)
    (hf : Fragments ps) {r : Option UInt8 × Bool} (hscan : ScansSlot rbuf (firstReady ps) conn r) :
    r.1 = conn.or ((ps.find? fun p => !p.disposed).map Pkt.connectionId) ∧
      (r.2 ↔ ∃ p ∈ ps, p.disposed = false ∧ some p.connectionId = r.1 ∧ p.isLast) := by
  generalize hidx : firstReady ps = idx at hscan
  induction hscan generalizing l ps with
  | none =>
    rcases firstReady_cases ps with ⟨-, hall⟩ | ⟨_, _, _, _, _, _, hsome⟩
    · have hfind : (ps.find? fun p => !p.disposed) = none :=
        List.find?_eq_none.mpr fun p hp => by simp [hall p hp]
      rw [hfind]
      refine ⟨(Option.or_none).symm, by simp, ?_⟩
      rintro ⟨p, hp, hd, -⟩
      rw [hall p hp] at hd
      cases hd
    · rw [hsome] at hidx
      cases hidx
  | @found idx len conn hdr₀ hdr₁ hdr hsame hlast =>
    obtain ⟨skipped, p, rest, rfl, hskip, hp, hpos⟩ := firstReady_eq_some hidx
    have hkept := h
    rw [← List.append_assoc, kept_split _ _ hp] at hkept
    have hlen := hf p (by simp)
    cases hpos
    rw [hkept.hdr hlen] at hdr
    simp only [Option.some.injEq, Except.ok.injEq, List.cons.injEq] at hdr
    obtain ⟨rfl, rfl, -⟩ := hdr
    rw [find_ready hskip hp]
    refine ⟨(Option.or_some ..).symm, iff_of_true rfl ⟨p, by simp, hp, ?_, hlast⟩⟩
    exact congrArg some hsame
  | @next idx len conn hdr₀ hdr₁ next r hdr hother hnext _ ih =>
    obtain ⟨skipped, p, rest, rfl, hskip, hp, hpos⟩ := firstReady_eq_some hidx
    have hkept := h
    rw [← List.append_assoc] at h hkept
    rw [kept_split _ _ hp] at hkept
    have hlen := hf p (by simp)
    cases hpos
    rw [hkept.hdr hlen] at hdr
    simp only [Option.some.injEq, Except.ok.injEq, List.cons.injEq] at hdr
    obtain ⟨rfl, rfl, -⟩ := hdr
    have hrest : Holds (kept ((l ++ skipped ++ [p]) ++ rest)) rbuf := by
      rwa [List.append_assoc, List.singleton_append]
    obtain ⟨hconn, hfound⟩ :=
      ih hrest (fun q hq => hf q (by simp [hq])) (Ends.unique (h.next hp hsize) hnext)
    rw [Option.some_or] at hconn
    rw [find_ready hskip hp]
    refine ⟨hconn.trans (Option.or_some ..).symm, hfound.trans ⟨?_, ?_⟩⟩
    · rintro ⟨q, hq, hrest⟩
      exact ⟨q, by simp [hq], hrest⟩
    · rintro ⟨q, hq, hd, hq₁, hq₂⟩
      rcases List.mem_append.mp hq with hq | hq
      · rw [hskip q hq] at hd
        cases hd
      · rcases List.mem_cons.mp hq with rfl | hq
        · rw [hconn] at hq₁
          exact absurd ⟨Option.some.inj hq₁, hq₂⟩ hother
        · exact ⟨q, hq, hd, hq₁, hq₂⟩

/-- Every slot can be scanned. -/
theorem Holds.scansSlot (h : Holds (kept (l ++ ps)) rbuf) (hsize : size < 2 ^ 31)
    (hf : Fragments ps) (conn : Option UInt8) : ∃ r, ScansSlot rbuf (firstReady ps) conn r := by
  induction ps generalizing l conn with
  | nil => exact ⟨_, .none⟩
  | cons p ps ih =>
    have hrest : Holds (kept ((l ++ [p]) ++ ps)) rbuf := by
      rwa [List.append_assoc, List.singleton_append]
    have ih' := fun conn => ih hrest (fun q hq => hf q (List.mem_cons_of_mem p hq)) conn
    rw [firstReady_cons]
    split_ifs with hd
    · exact ih' conn
    · have hp : p.disposed = false := by simpa using hd
      have hkept := h
      rw [kept_split l ps hp] at hkept
      have hread := hkept.hdr (hf p List.mem_cons_self)
      by_cases hfound : p.connectionId = conn.getD p.connectionId ∧ p.isLast
      · exact ⟨_, .found hread hfound.1 hfound.2⟩
      · obtain ⟨r, hr⟩ := ih' (some (conn.getD p.connectionId))
        exact ⟨r, .next hread hfound (h.next hp hsize) hr⟩

end DvbRingbuffer

end Dvb

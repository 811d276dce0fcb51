import Mathlib
import NeumoDrivers.Dvb.CamLink

/-! What the CAM sends.

    `dvb_ca_en50221_read_data` fetches a link packet through the control registers of the CAM, or
    through a callback of the card, and stores it in the receive buffer of the slot. How much space
    the buffer has is only asked for before, with the size that was negotiated at link
    initialisation. -/

namespace Dvb
open Demux Loop DvbRingbuffer

/-- With the callback that fetches a packet of at most so many bytes, where the card has one. -/
structure CamCard (σ : Type) extends CamBus σ where
  readData : Option (σ → ℕ → Except ℤ (List UInt8) × σ)

variable {σ : Type} {n : ℕ}

namespace CamCard
variable (card : CamCard σ) (sl : CaSlot) (s : σ)

/-- The middle of `dvb_ca_en50221_read_data`: the packet, or the status without one. -/
def fetch (linkBufSize : ℕ) : Except ℤ (List UInt8) × σ :=
  match card.readData with
  | some readData =>
    if card.slotState s ≠ .linkInit then
      match readData s hostLinkBufSize with
      | (.ok [], s) => (.error 0, s)
      | r => r
    else card.readControl none linkBufSize s
  | none => card.readControl none linkBufSize s

/-- `dvb_ca_en50221_read_data` up to the packet that it adds to the receive buffer. -/
def received : Except ℤ (DvbRingbuffer rxBufferSize × List UInt8) × σ :=
  match sl.rxBuffer with
  | none => (.error (-eio), s)
  | some rbuf =>
    -- check if we have space for a link buf in the rx_buffer
    if rbuf.free < (sl.linkBufSize + pkthdrsize : ℕ) then (.error (-eagain), s)
    else
      match card.fetch s sl.linkBufSize with
      | (.error status, s) => (.error status, s)
      | (.ok bytes, s) => (.ok (rbuf, bytes), s)

/-- `dvb_ca_en50221_read_data` without an `ebuf` -/
def dvbCaEn50221ReadData : Option (ℤ × CaSlot × σ) :=
  match card.received sl s with
  | (.error status, s) => some (status, sl, s)
  | (.ok (rbuf, bytes), s) => do
    let rbuf ← rbuf.pktWrite bytes
    some (bytes.length, { sl with rxBuffer := some rbuf }, s)

/-- The packet stored, if there is one, has at least two bytes and fits with its header into the free
    space. -/
def Fits : Prop :=
  ∀ rbuf bytes, (card.received sl s).1 = .ok (rbuf, bytes) →
    2 ≤ bytes.length ∧ (bytes.length + pkthdrsize : ℕ) ≤ rbuf.free

/-- Where the callback is asked, it returns no packet of one byte and none that the free space does
    not hold. -/
def Meets : Prop :=
  ∀ rbuf, sl.rxBuffer = some rbuf → (sl.linkBufSize + pkthdrsize : ℕ) ≤ rbuf.free →
    ∀ readData, card.readData = some readData → card.slotState s ≠ .linkInit →
      ∀ bytes, (readData s hostLinkBufSize).1 = .ok bytes →
        bytes.length ≠ 1 ∧ (bytes.length + pkthdrsize : ℕ) ≤ rbuf.free

end CamCard

/-! ### The system -/

/-- The CA device, and all that its link packets come from. -/
structure CaLink (σ : Type) (n : ℕ) where
  sys : CaSystem n
  link : σ

namespace CaLink

/-- What a reception adds to the history of a slot. -/
def arrived (s : CaLink σ n) (card : CamCard σ) (slot : Fin n) : List Logged :=
  match (card.received (s.sys.ca.slotInfo slot) s.link).1 with
  | .error _ => []
  | .ok (rbuf, bytes) => [⟨rbuf.pwrite, false, ⟨bytes, s.sys.session slot, s.sys.opening⟩⟩]

/-- The thread receives for a slot, or something else happens: to the device, or to what the link
    packets come from. -/
inductive Step [NeZero n] (card : Fin n → CamCard σ) (s : CaLink σ n) :
    Option (Fin n) → CaLink σ n → Prop where
  | receive {slot : Fin n} {status : ℤ} {sl : CaSlot} {link : σ}
      (hstate : (s.sys.ca.slotInfo slot).slotState = .running)
      (hread : (card slot).dvbCaEn50221ReadData (s.sys.ca.slotInfo slot) s.link =
        some (status, sl, link)) :
      Step card s (some slot)
        { sys := { s.sys with
            ca := s.sys.ca.setSlot slot sl
            log := Function.update s.sys.log slot (s.sys.log slot ++ s.arrived (card slot) slot) }
          link := link }
  | device {ev : CaEvent n} {sys : CaSystem n} (hs : s.sys.Step ev sys)
      (hother : ∀ slot bytes, ev ≠ .receive slot bytes) : Step card s none { s with sys := sys }
  | link (link : σ) : Step card s none { s with link := link }

/-- A run from a fresh device in which every reception is `ok`. -/
inductive Run [NeZero n] (card : Fin n → CamCard σ) (ok : CaLink σ n → Fin n → Prop) :
    CaLink σ n → Prop where
  | init {s : CaLink σ n} (h : s.sys.Fresh) : Run card ok s
  | step {s s' : CaLink σ n} {slot : Option (Fin n)} (h : Run card ok s)
      (hs : Step card s slot s') (hok : ∀ i ∈ slot, ok s i) : Run card ok s'

/-- The buffers hold the packets received from the first one on that was not disposed of, every packet
    has the two bytes of its header, and so has the fragment that a read is at. -/
structure WellFormed (s : CaLink σ n) : Prop where
  ring : ∀ slot rbuf, (s.sys.ca.slotInfo slot).rxBuffer = some rbuf →
    Holds (kept ((s.sys.log slot).map Logged.pkt)) rbuf
  packets : ∀ slot, ∀ e ∈ s.sys.log slot, 2 ≤ e.fragment.bytes.length
  fraglen : ∀ count slot st taken, s.sys.reader = .reading count slot st taken →
    ∀ idx fraglen, st.idx = some (idx, fraglen) → 2 ≤ fraglen

end CaLink

variable {card : CamCard σ} {sl : CaSlot} {s s' : σ} {bytes : List UInt8}
  {rbuf rbuf' : DvbRingbuffer rxBufferSize}

/-! ### One reception -/

theorem length_readBytes {bus : CamBus σ} {k : ℕ} (h : bus.readBytes k s = (.ok bytes, s')) :
    bytes.length = k := by
  induction k generalizing s bytes s' with
  | zero =>
    cases h
    rfl
  | succ k ih =>
    rw [CamBus.readBytes] at h
    dsimp only at h
    split at h
    · cases h
    split at h
    · cases h
    · rename_i rest _ hrest
      cases h
      exact congrArg (· + 1) (ih hrest)

/-- The size that the CAM names is checked against the size negotiated. -/
theorem readControl_size {bus : CamBus σ} {linkBufSize : ℕ}
    (h : (bus.readControl none linkBufSize s).1 = .ok bytes) :
    2 ≤ bytes.length ∧ bytes.length ≤ linkBufSize := by
  rw [CamBus.readControl] at h
  dsimp only at h
  split at h
  · cases h
  split at h
  · cases h
  split at h
  · cases h
  split at h
  · cases h
  split at h
  · cases h
  rename_i hsize
  split at h
  · cases h
  split at h
  · cases h
  rename_i hread
  split at h
  · cases h
  split at h
  · cases h
  cases h
  rw [length_readBytes hread]
  have hsize := not_or.mp fun hno => hsize ⟨rfl, hno⟩
  exact ⟨Nat.le_of_not_lt hsize.2, Nat.le_of_not_lt hsize.1⟩

/-- What a reception stores: there was space for a link packet, and it was fetched. -/
theorem received_ok (h : (card.received sl s).1 = .ok (rbuf, bytes)) :
    sl.rxBuffer = some rbuf ∧ (sl.linkBufSize + pkthdrsize : ℕ) ≤ rbuf.free ∧
      (card.fetch s sl.linkBufSize).1 = .ok bytes := by
  rw [CamCard.received] at h
  split at h
  · cases h
  rename_i rbuf₀ hrx
  split at h
  · cases h
  rename_i hfree
  split at h
  · cases h
  rename_i hfetch
  cases h
  exact ⟨hrx, not_lt.mp hfree, congrArg Prod.fst hfetch⟩

theorem received_of_fetch (hrx : sl.rxBuffer = some rbuf)
    (hfree : (sl.linkBufSize + pkthdrsize : ℕ) ≤ rbuf.free)
    (hfetch : (card.fetch s sl.linkBufSize).1 = .ok bytes) :
    (card.received sl s).1 = .ok (rbuf, bytes) := by
  rw [CamCard.received, hrx]
  dsimp only
  rw [if_neg (not_lt.mpr hfree)]
  split
  · rename_i hno
    rw [hno] at hfetch
    cases hfetch
  · rename_i hyes
    rw [hyes] at hfetch
    cases hfetch
    rfl

/-- A packet comes from the callback, which is not asked how long it is, or from the control
    registers. -/
theorem fetch_cases {linkBufSize : ℕ} (h : (card.fetch s linkBufSize).1 = .ok bytes) :
    (∃ readData, card.readData = some readData ∧ card.slotState s ≠ .linkInit ∧
      (readData s hostLinkBufSize).1 = .ok bytes ∧ bytes ≠ []) ∨
    2 ≤ bytes.length ∧ bytes.length ≤ linkBufSize := by
  rw [CamCard.fetch] at h
  split at h
  · rename_i readData hdata
    split at h
    · rename_i hstate
      split at h
      · cases h
      · rename_i r hne
        refine .inl ⟨readData, hdata, hstate, h, ?_⟩
        rintro rfl
        exact hne _ (Prod.ext h rfl)
    · exact .inr (readControl_size h)
  · exact .inr (readControl_size h)

theorem fetch_callback {linkBufSize : ℕ} {readData : σ → ℕ → Except ℤ (List UInt8) × σ}
    (hdata : card.readData = some readData) (hstate : card.slotState s ≠ .linkInit)
    (hbytes : (readData s hostLinkBufSize).1 = .ok bytes) (hne : bytes ≠ []) :
    (card.fetch s linkBufSize).1 = .ok bytes := by
  rw [CamCard.fetch, hdata]
  dsimp only
  rw [if_pos hstate]
  split
  · rename_i hno
    rw [hno] at hbytes
    exact absurd (Except.ok.inj hbytes).symm hne
  · exact hbytes

theorem fits_iff (card : CamCard σ) (sl : CaSlot) (s : σ) : card.Fits sl s ↔ card.Meets sl s := by
  constructor
  · intro h rbuf hrx hfree readData hdata hstate bytes hbytes
    by_cases hne : bytes = []
    · subst hne
      refine ⟨Nat.zero_ne_one, ?_⟩
      rw [List.length_nil]
      omega
    · obtain ⟨h2, hfit⟩ := h rbuf bytes
        (received_of_fetch hrx hfree (fetch_callback hdata hstate hbytes hne))
      exact ⟨(Nat.ne_of_lt h2).symm, hfit⟩
  · intro h rbuf bytes hreceived
    obtain ⟨hrx, hfree, hfetch⟩ := received_ok hreceived
    rcases fetch_cases hfetch with ⟨readData, hdata, hstate, hbytes, hne⟩ | ⟨h2, hle⟩
    · obtain ⟨h1, hfit⟩ := h rbuf hrx hfree readData hdata hstate bytes hbytes
      have hpos := List.length_pos_iff.mpr hne
      exact ⟨by omega, hfit⟩
    · refine ⟨h2, ?_⟩
      omega

/-! ### Runs -/

namespace CaLink
variable [NeZero n] {cards : Fin n → CamCard σ} {t t' : CaLink σ n}

theorem tracks_step {slot : Option (Fin n)} (h : t.sys.Tracks) (hs : Step cards t slot t')
    (hok : ∀ i ∈ slot, (cards i).Meets (t.sys.ca.slotInfo i) t.link) : t'.sys.Tracks := by
  cases hs with
  | @receive slot status sl link hstate hread =>
    have hfits := (fits_iff (cards slot) _ t.link).mpr (hok slot rfl)
    rw [CamCard.dvbCaEn50221ReadData] at hread
    rw [arrived]
    split at hread
    · rename_i status' link' hnone
      cases hread
      rw [hnone]
      dsimp only
      refine h.same ?_ (CaSystem.rxBuffer_setSlot t.sys.ca rfl) rfl
      rw [List.append_nil, Function.update_eq_self]
    · rename_i rbuf bytes link' hstored
      obtain ⟨rbuf', hwrite, hread⟩ := Option.bind_eq_some_iff.mp hread
      cases hread
      obtain ⟨h2, hfit⟩ := hfits rbuf bytes (congrArg Prod.fst hstored)
      rw [hstored]
      exact h.receive (received_ok (congrArg Prod.fst hstored)).1 h2 hfit hwrite
  | device hs hother => exact h.step hs
  | link link => exact h

theorem Run.tracks (h : Run cards (fun s slot => (cards slot).Meets (s.sys.ca.slotInfo slot) s.link) t) :
    t.sys.Tracks := by
  induction h with
  | init h => exact h.tracks
  | step _ hs hok ih => exact tracks_step ih hs hok

omit [NeZero n] in
theorem wellFormed_of_tracks {s : CaLink σ n} (h : s.sys.Tracks) : s.WellFormed where
  ring := h.buffer
  packets slot e he := h.fragments slot e.pkt (List.mem_map_of_mem he)
  fraglen count slot st taken hreader idx fraglen hidx := by
    obtain ⟨l, ps, hlog, hat, -⟩ := (h.reading count slot st taken hreader).at_next
    rw [hidx] at hat
    obtain ⟨skipped, p, rest, hps, -, -, hfound⟩ := firstReady_eq_some (hat.resolve_left nofun).symm
    have hp : p ∈ (s.sys.log slot).map Logged.pkt := by
      rw [hlog, List.map_append, hps]
      exact List.mem_append_right _ (List.mem_append_right _ List.mem_cons_self)
    rw [(Prod.mk.inj hfound).2]
    exact h.fragments slot p hp

end CaLink

/-! ### A packet of one byte -/

/-- A card whose callback has always one byte. -/
def oneByteCard : CamCard Unit where
  readCamControl _ _ := (0, ())
  writeCamControl _ _ _ := (0, ())
  writeData := none
  slotState _ := .running
  setSlotState _ _ := ()
  tries _ := 0
  readData := some fun _ _ => (.ok [1], ())

/-- A device whose only slot runs, with nothing in its buffer. -/
def runningDevice (data : Buff UInt8 rxBufferSize) : CaLink Unit 1 where
  sys :=
    { ca :=
        { slotInfo := fun _ => ⟨.running, some (init data), hostLinkBufSize⟩
          nextReadSlot := ⟨0, Nat.one_pos⟩
          opened := true }
      reader := .idle
      log := fun _ => []
      session := fun _ => 0
      opening := 0
      reads := [] }
  link := ()

theorem runningDevice_fresh (data : Buff UInt8 rxBufferSize) : (runningDevice data).sys.Fresh where
  buffer _ _ h := ⟨data, (Option.some.inj h).symm⟩
  log _ := rfl
  reader := rfl
  reads := rfl

theorem oneByteCard_received (data : Buff UInt8 rxBufferSize) :
    (oneByteCard.received ((runningDevice data).sys.ca.slotInfo 0) ()).1 = .ok (init data, [1]) := by
  have hfree : (hostLinkBufSize + pkthdrsize : ℕ) ≤ (init data).free := by
    simp [DvbRingbuffer.free, init, hostLinkBufSize, pkthdrsize]
  exact received_of_fetch rfl hfree (fetch_callback rfl (by rintro ⟨⟩) rfl (List.cons_ne_nil _ _))

end Dvb

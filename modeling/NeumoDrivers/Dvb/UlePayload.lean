import NeumoDrivers.Dvb.UleDelivery

/-! How the decoder takes in an SNDU.

    What has been read of the SNDU shows in the fields of the decoder: nothing, the length field, half
    of the type field, or the whole header and a part of what follows. A stretch of a TS cell either
    brings more of the SNDU, or the rest of it and something behind it. -/

namespace Dvb.Ule
open Loop Memory

variable {dev : NetDevice} {alloc : SkbAllocator} {turns : ℕ} {buf : ℕ → UInt8}
  {h : DvbNetUleHandle} {p : DvbNetPriv} {s : Sndu} {memory : ℕ → UInt8} {n k : ℕ}
  {u w : List UInt8}

/-! ### What has been read -/

/-- The skb when `j` bytes have come in. -/
def Sndu.filling (s : Sndu) (memory : ℕ → UInt8) (j : ℕ) : SkBuff :=
  ⟨ethHlen + ethAlen, s.body.take j, fun i => memory (j + i), s.len - j⟩

theorem Sndu.filling_len (s : Sndu) (memory : ℕ → UInt8) :
    s.filling memory s.len = s.filled memory := by
  rw [filling, filled, Nat.sub_self, List.take_of_length_le (Nat.le_of_eq s.body_length)]

theorem Sndu.filling_putData {j m : ℕ} (hm : j + m ≤ s.len) :
    (s.filling memory j).putData ((s.body.drop j).take m) = .ok (s.filling memory (j + m)) := by
  have hlen : ((s.body.drop j).take m).length = m := by
    rw [List.length_take, List.length_drop, s.body_length]
    omega
  have hroom : m ≤ (s.filling memory j).tailroom := Nat.le_sub_of_add_le (by omega)
  rw [SkBuff.putData, hlen, if_pos hroom]
  simp only [filling, List.take_add, Nat.sub_sub, Nat.add_assoc]

/-- Nothing has been read of an SNDU. -/
structure DvbNetPriv.Fresh (p : DvbNetPriv) : Prop where
  skb : p.uleSkb = none
  len : p.uleSnduLen = 0
  type1 : p.uleSnduType1 = false
  remain : p.uleSnduRemain = 0
  bridged : p.uleBridged = false

/-- The length field has been read. -/
structure DvbNetPriv.Measured (p : DvbNetPriv) (s : Sndu) : Prop where
  skb : p.uleSkb = none
  len : p.uleSnduLen = s.len
  dbit : p.uleDbit = if s.dest = none then 1 else 0
  bridged : p.uleBridged = false

/-- The header has been read, and `j` bytes of what follows are in the skb, the one after `n` others. -/
structure DvbNetPriv.Filling (p : DvbNetPriv) (alloc : SkbAllocator) (n : ℕ) (s : Sndu) (j : ℕ) :
    Prop where
  fields : p.Of s
  type1 : p.uleSnduType1 = false
  skb : p.uleSkb = some (s.filling (alloc.memory n) j)
  remain : p.uleSnduRemain = s.len - j
  allocs : p.allocs = n + 1

/-- `k` bytes of the SNDU have been read, and `n` skbs had been asked for before it. -/
inductive DvbNetPriv.Has (p : DvbNetPriv) (alloc : SkbAllocator) (n : ℕ) (s : Sndu) : ℕ → Prop where
  | nothing (hp : p.Fresh) (hallocs : p.allocs = n) : Has p alloc n s 0
  | length (hp : p.Measured s) (htype1 : p.uleSnduType1 = false)
    (hremain : p.uleSnduRemain = s.len + 2) (hallocs : p.allocs = n) : Has p alloc n s 2
  | half (hp : p.Measured s) (htype1 : p.uleSnduType1 = true)
    (htype : p.uleSnduType = s.pdu.type / 256 * 256) (hremain : p.uleSnduRemain = s.len + 1)
    (hallocs : p.allocs = n) : Has p alloc n s 3
  | body {j : ℕ} (hj : j < s.len) (hp : p.Filling alloc n s j) : Has p alloc n s (4 + j)

theorem DvbNetPriv.Has.remain (hp : p.Has alloc n s k) (hk : 0 < k) :
    p.uleSnduRemain = (s.bytes.drop k).length := by
  rw [List.length_drop, s.bytes_length]
  cases hp with
  | nothing => omega
  | length _ _ hremain => rw [hremain]; omega
  | half _ _ _ hremain => rw [hremain]; omega
  | body hj hp => rw [hp.remain]; omega

/-- The decoder sees `u` in the rest of the TS cell. -/
def DvbNetUleHandle.Sees (h : DvbNetUleHandle) (buf : ℕ → UInt8) (u : List UInt8) : Prop :=
  block buf h.fromWhere h.tsRemain = u ∧ h.tsRemain ≤ 184

theorem DvbNetUleHandle.Sees.length (hsees : h.Sees buf u) : h.tsRemain = u.length := by
  rw [← hsees.1, length_block]

theorem DvbNetUleHandle.Sees.fromByte (hsees : h.Sees buf u) {i : ℕ} (hi : i < u.length) :
    h.fromByte buf i = u.getD i 0 := by
  rw [← hsees.1, getD_block (by rwa [hsees.length])]
  rfl

theorem DvbNetUleHandle.skip_eq {m : ℕ} (hm : m ≤ h.tsRemain) (hle : h.tsRemain ≤ 184) :
    h.skip m = { h with fromWhere := h.fromWhere + m, tsRemain := h.tsRemain - m } := by
  rw [skip]
  congr 1
  omega

theorem DvbNetUleHandle.Sees.skip {m : ℕ} (hsees : h.Sees buf u) (hm : m ≤ u.length) :
    (h.skip m).Sees buf (u.drop m) := by
  rw [skip_eq (by rwa [hsees.length]) hsees.2]
  refine ⟨?_, Nat.le_trans (Nat.sub_le _ _) hsees.2⟩
  rw [← hsees.1, drop_block]

/-! ### Copying -/

/-- The synchronization and the packets handed over are as before. -/
structure DvbNetPriv.Keeps (p p' : DvbNetPriv) : Prop where
  needPusi : p'.needPusi = p.needPusi
  tscc : p'.tscc = p.tscc
  received : p'.received = p.received

/-- The decoder goes on with the next TS cell. -/
structure DvbNetUleHandle.Passes (h h' : DvbNetUleHandle) : Prop where
  ts : h'.ts = h.ts + tsSz
  newTs : h'.newTs = true

theorem nextSndu_filling {skb : SkBuff} (hskb : h.priv.uleSkb = some skb) (hremain : h.tsRemain < 2) :
    h.nextSndu buf = { h with newTs := true, ts := h.ts + tsSz } := by
  rw [DvbNetUleHandle.nextSndu, if_neg (by omega)]
  dsimp only [DvbNetUleHandle.nextTs]
  rw [hskb, if_neg (by simp)]

/-- More of the SNDU, up to the end of the TS cell. -/
theorem uleCopy_piece {j : ℕ} (hp : h.priv.Filling alloc n s j) (hsees : h.Sees buf u)
    (hu : u = (s.body.drop j).take u.length) (hlt : j + u.length < s.len) :
    ∃ h', uleCopy dev turns buf (s.filling (alloc.memory n) j) h = .again h' ∧ h.Passes h' ∧
      h.priv.Keeps h'.priv ∧ h'.priv.Has alloc n s (4 + (j + u.length)) := by
  obtain ⟨⟨hl, htype, hdbit, hbridged⟩, htype1, hskb, hremain, hallocs⟩ := hp
  have hlen := hsees.length
  have hmin : min h.priv.uleSnduRemain h.tsRemain = u.length := by omega
  have hput : (s.filling (alloc.memory n) j).putData (block buf h.fromWhere u.length) =
      .ok (s.filling (alloc.memory n) (j + u.length)) := by
    have hblock : block buf h.fromWhere u.length = (s.body.drop j).take u.length := by
      rw [← hu, ← hlen]
      exact hsees.1
    rw [hblock]
    exact s.filling_putData (Nat.le_of_lt hlt)
  have hmore : h.priv.uleSnduRemain - u.length ≠ 0 := by omega
  rw [uleCopy]
  dsimp only
  rw [hmin, hput]
  dsimp only
  rw [if_neg hmore, DvbNetUleHandle.skip_eq (by omega) hsees.2,
    nextSndu_filling rfl (by dsimp only; omega)]
  exact ⟨_, rfl, ⟨rfl, rfl⟩, ⟨rfl, rfl, rfl⟩, .body hlt
    ⟨⟨hl, htype, hdbit, hbridged⟩, htype1, rfl, by dsimp only; omega, hallocs⟩⟩

/-- The decoder behind an SNDU that has been completed. -/
def DvbNetUleHandle.behind (h : DvbNetUleHandle) (m : ℕ) (r : List Received) : DvbNetUleHandle :=
  { h with
    priv := { h.priv.resetUle with received := h.priv.received ++ r }
    fromWhere := h.fromWhere + m
    tsRemain := h.tsRemain - m }

/-- The rest of the SNDU. -/
theorem uleCopy_whole {j : ℕ} (hp : h.priv.Filling alloc n s j) (hj : j ≤ s.len)
    (haccept : ∀ mac ∈ s.dest, dev.Accepts mac) (hsees : h.Sees buf (s.body.drop j ++ w)) :
    uleCopy dev turns buf (s.filling (alloc.memory n) j) h =
      match s.outcome dev turns (alloc.memory n) with
      | .error e => .exit (.error e)
      | .ok r => .again ((h.behind (s.len - j) r).nextSndu buf) := by
  obtain ⟨⟨hl, htype, hdbit, hbridged⟩, htype1, hskb, hremain, hallocs⟩ := hp
  have hlen := hsees.length
  have hrest : (s.body.drop j).length = s.len - j := by rw [List.length_drop, s.body_length]
  rw [List.length_append, hrest] at hlen
  have hmin : min h.priv.uleSnduRemain h.tsRemain = s.len - j := by omega
  have hput : (s.filling (alloc.memory n) j).putData (block buf h.fromWhere (s.len - j)) =
      .ok (s.filled (alloc.memory n)) := by
    have hblock : block buf h.fromWhere (s.len - j) = (s.body.drop j).take (s.len - j) := by
      rw [← hrest, block_left hsees.1, List.take_length]
    rw [hblock, s.filling_putData (by omega), ← s.filling_len]
    congr 2
    omega
  rw [uleCopy]
  dsimp only
  rw [hmin, hput]
  dsimp only
  rw [if_pos (by omega), uleComplete_outcome ?fields haccept]
  case fields => exact ⟨hl, htype, hdbit, hbridged⟩
  cases s.outcome dev turns (alloc.memory n) with
  | error e => rfl
  | ok r =>
    rw [DvbNetUleHandle.skip_eq (by omega) hsees.2]
    rfl

/-! ### The header -/

namespace Sndu
variable (s : Sndu)

theorem bytes_getD_length : s.bytes.getD 0 0 = UInt8.ofNat (s.lengthField / 256) ∧
    s.bytes.getD 1 0 = UInt8.ofNat s.lengthField := ⟨rfl, rfl⟩

theorem bytes_getD_type : s.bytes.getD 2 0 = UInt8.ofNat (s.pdu.type / 256) ∧
    s.bytes.getD 3 0 = UInt8.ofNat s.pdu.type := ⟨rfl, rfl⟩

theorem bytes_drop (j : ℕ) : s.bytes.drop (4 + j) = s.body.drop j := by
  rw [← List.drop_drop]
  rfl

end Sndu

/-- What is seen is what follows `k` bytes of the SNDU. -/
def Spells (s : Sndu) (k : ℕ) (u : List UInt8) : Prop :=
  ∀ i < u.length, k + i < s.bytes.length → u.getD i 0 = s.bytes.getD (k + i) 0

theorem Spells.piece (hu : u = (s.bytes.drop k).take u.length) : Spells s k u := by
  intro i hi hk
  rw [hu, List.getD_eq_getElem _ _ (by rwa [← hu]), List.getElem_take, List.getElem_drop,
    List.getD_eq_getElem _ _ hk]

theorem Spells.whole : Spells s k (s.bytes.drop k ++ w) := by
  intro i hi hk
  have hlt : i < (s.bytes.drop k).length := by
    rw [List.length_drop]
    omega
  rw [List.getD_append _ _ _ _ hlt, List.getD_eq_getElem _ _ hlt, List.getElem_drop,
    List.getD_eq_getElem _ _ hk]

theorem readLength_eq (hsees : h.Sees buf u) (hu : Spells s 0 u) (h2 : 2 ≤ u.length) :
    h.readLength buf = { h with priv := { h.priv with
      uleSnduLen := s.len, uleDbit := if s.dest = none then 1 else 0 } } := by
  have hlong := s.bytes_length
  have hlt := s.lengthField_lt
  have h0 := hu 0 (by omega) (by omega)
  have h1 := hu 1 (by omega) (by omega)
  rw [Nat.add_zero, s.bytes_getD_length.1] at h0
  rw [Nat.zero_add, s.bytes_getD_length.2] at h1
  have hfield : (h.fromByte buf 0).toNat * 256 + (h.fromByte buf 1).toNat = s.lengthField := by
    rw [hsees.fromByte (by omega), hsees.fromByte (by omega), h0, h1]
    exact ntohs_htons (by omega)
  rw [DvbNetUleHandle.readLength]
  dsimp only
  rw [hfield]
  by_cases hdest : s.dest = none
  · rw [if_pos (s.lengthField_and.mpr hdest), if_pos hdest, s.lengthField_low hdest]
  · rw [if_neg (mt s.lengthField_and.mp hdest), if_neg hdest, Sndu.lengthField, if_neg hdest]

/-- No byte of the type field has been read, or the first one. -/
def DvbNetPriv.Typing (p : DvbNetPriv) (s : Sndu) (k : ℕ) : Prop :=
  k = 2 ∧ p.uleSnduType1 = false ∨
    k = 3 ∧ p.uleSnduType1 = true ∧ p.uleSnduType = s.pdu.type / 256 * 256

theorem readType_eq (hk : h.priv.Typing s k) (hsees : h.Sees buf u) (hu : Spells s k u)
    (h2 : 2 ≤ u.length) :
    h.readType buf = { h with
      priv := { h.priv with uleSnduType1 := false, uleSnduType := s.pdu.type }
      fromWhere := h.fromWhere + (4 - k)
      tsRemain := h.tsRemain - (4 - k) } := by
  have hlong := s.bytes_length
  have hlen := hsees.length
  have hle := hsees.2
  have htype := s.type_lt
  rw [DvbNetUleHandle.readType]
  rcases hk with ⟨rfl, htype1⟩ | ⟨rfl, htype1, hhigh⟩
  · have h0 := hu 0 (by omega) (by omega)
    have h1 := hu 1 (by omega) (by omega)
    rw [Nat.add_zero, s.bytes_getD_type.1] at h0
    rw [s.bytes_getD_type.2] at h1
    rw [htype1, if_neg Bool.false_ne_true, hsees.fromByte (by omega), hsees.fromByte (by omega), h0,
      h1, ntohs_htons htype, DvbNetUleHandle.skip_eq (by dsimp only; omega) (by dsimp only; omega)]
    dsimp only
    rw [htype1]
  · have h0 := hu 0 (by omega) (by omega)
    rw [Nat.add_zero, s.bytes_getD_type.2] at h0
    have hor : s.pdu.type / 256 * 256 ||| (UInt8.ofNat s.pdu.type).toNat = s.pdu.type := by
      rw [or_low (UInt8.toNat_lt _), UInt8.toNat_ofNat']
      omega
    rw [htype1, if_pos rfl, hsees.fromByte (by omega), h0, hhigh, hor,
      DvbNetUleHandle.skip_eq (by dsimp only; omega) (by dsimp only; omega)]

/-- The rest of the header, and the skb. -/
theorem payloadHeader_eq (hp : h.priv.Measured s) (hk : h.priv.Typing s k)
    (hallocs : h.priv.allocs = n) (hgiven : alloc.fails n = false) (hsees : h.Sees buf u)
    (hu : Spells s k u) (h2 : 2 ≤ u.length) :
    ∃ h', h.payloadHeader buf alloc = (0, h') ∧ h'.ts = h.ts ∧
      h'.Sees buf (u.drop (4 - k)) ∧ h.priv.Keeps h'.priv ∧ h'.priv.Filling alloc n s 0 := by
  have hlen := hsees.length
  have hle : 4 - k ≤ u.length := by
    rcases hk with ⟨rfl, -⟩ | ⟨rfl, -⟩ <;> omega
  have hrest := hsees.skip hle
  rw [DvbNetUleHandle.skip_eq (by omega) hsees.2] at hrest
  rw [DvbNetUleHandle.payloadHeader]
  dsimp only
  rw [if_neg (by omega), if_neg (by omega), readType_eq ?typing ?sees hu h2,
    DvbNetUleHandle.allocSkb]
  case typing => exact hk
  case sees => exact hsees
  dsimp only
  rw [hallocs, hgiven, if_neg Bool.false_ne_true]
  refine ⟨_, rfl, rfl, hrest, ⟨rfl, rfl, rfl⟩,
    ⟨⟨hp.len, rfl, hp.dbit, hp.bridged⟩, rfl, ?_, hp.len, rfl⟩⟩
  dsimp only
  rw [hp.len, Sndu.filling]
  simp

theorem Spells.drop {m : ℕ} (hu : Spells s k u) : Spells s (k + m) (u.drop m) := by
  intro i hi hk
  rw [List.length_drop] at hi
  have hget := hu (m + i) (by omega) (by omega)
  rw [List.getD_eq_getElem _ _ (by omega)] at hget
  rw [List.getD_eq_getElem _ _ (by rw [List.length_drop]; omega), List.getElem_drop, hget,
    Nat.add_assoc]

theorem DvbNetPriv.Has.skb (hp : p.Has alloc n s k) (hk : k < 4) : p.uleSkb = none := by
  cases hp with
  | nothing hp => exact hp.skb
  | length hp => exact hp.skb
  | half hp => exact hp.skb
  | body => omega

theorem newPayload_measured (hp : h.priv.Measured s) (hlen : 5 ≤ s.len) (h2 : 2 ≤ h.tsRemain) :
    h.newPayload buf alloc = h.payloadHeader buf alloc := by
  rw [DvbNetUleHandle.newPayload, if_neg (by omega), if_neg (by rw [hp.len]; omega)]

/-- The length field is read now. -/
theorem newPayload_fresh (hp : h.priv.Fresh) (hlen : 5 ≤ s.len) (hsees : h.Sees buf u)
    (hu : Spells s 0 u) (h2 : 2 ≤ u.length) :
    ∃ h' : DvbNetUleHandle, h.newPayload buf alloc = h'.payloadHeader buf alloc ∧ h'.ts = h.ts ∧
      h'.Sees buf (u.drop 2) ∧ h.priv.Keeps h'.priv ∧ h'.priv.Measured s ∧
      h'.priv.uleSnduType1 = false ∧ h'.priv.allocs = h.priv.allocs := by
  have hrest := hsees.skip h2
  rw [DvbNetUleHandle.newPayload, if_neg (by rw [hsees.length]; omega), if_pos hp.len,
    readLength_eq hsees hu h2]
  dsimp only
  rw [if_neg (by omega)]
  exact ⟨_, rfl, rfl, hrest, ⟨rfl, rfl, rfl⟩, ⟨hp.skb, rfl, rfl, hp.bridged⟩, hp.type1, rfl⟩

/-- The header is complete in this TS cell. -/
theorem newPayload_header (hp : h.priv.Has alloc n s k) (hk : k < 4) (hlen : 5 ≤ s.len)
    (hgiven : alloc.fails n = false) (hsees : h.Sees buf u) (hu : Spells s k u)
    (h2 : 2 ≤ u.length) (h4 : 4 ≤ k + u.length) :
    ∃ h', h.newPayload buf alloc = (0, h') ∧ h'.ts = h.ts ∧ h'.Sees buf (u.drop (4 - k)) ∧
      h.priv.Keeps h'.priv ∧ h'.priv.Filling alloc n s 0 := by
  have h2' : 2 ≤ h.tsRemain := by rwa [hsees.length]
  cases hp with
  | nothing hp hallocs =>
    obtain ⟨h₁, heq, hts, hsees₁, hkeeps, hmeasured, htype1, hallocs₁⟩ :=
      @newPayload_fresh alloc _ _ _ _ hp hlen hsees hu h2
    obtain ⟨h', heq', hts', hsees', hkeeps', hfilling⟩ := payloadHeader_eq hmeasured
      (.inl ⟨rfl, htype1⟩) (hallocs₁.trans hallocs) hgiven hsees₁ hu.drop
      (by rw [List.length_drop]; omega)
    refine ⟨h', heq.trans heq', hts'.trans hts, ?_, ⟨hkeeps'.needPusi.trans hkeeps.needPusi,
      hkeeps'.tscc.trans hkeeps.tscc, hkeeps'.received.trans hkeeps.received⟩, hfilling⟩
    rwa [List.drop_drop] at hsees'
  | length hp htype1 _ hallocs =>
    rw [newPayload_measured hp hlen h2']
    exact payloadHeader_eq hp (.inl ⟨rfl, htype1⟩) hallocs hgiven hsees hu h2
  | half hp htype1 htype _ hallocs =>
    rw [newPayload_measured hp hlen h2']
    exact payloadHeader_eq hp (.inr ⟨rfl, htype1, htype⟩) hallocs hgiven hsees hu h2
  | body => omega

/-- The TS cell ends in the header. -/
theorem newPayload_cut (hp : h.priv.Fresh) (hallocs : h.priv.allocs = n) (hlen : 5 ≤ s.len)
    (hsees : h.Sees buf u) (hu : Spells s 0 u) (h2 : 2 ≤ u.length) (h4 : u.length < 4) :
    ∃ h', h.newPayload buf alloc = (1, h') ∧ h.Passes h' ∧ h.priv.Keeps h'.priv ∧
      h'.priv.Has alloc n s u.length := by
  have hlong := s.bytes_length
  have htype := s.type_lt
  obtain ⟨h₁, heq, hts, hsees₁, hkeeps, hmeasured, htype1, hallocs₁⟩ :=
    @newPayload_fresh alloc _ _ _ _ hp hlen hsees hu h2
  have hlen₁ := hsees₁.length
  rw [List.length_drop] at hlen₁
  rw [heq, DvbNetUleHandle.payloadHeader]
  dsimp only
  by_cases h0 : u.length = 2
  · rw [if_pos (by omega), h0]
    exact ⟨_, rfl, ⟨congrArg (· + tsSz) hts, rfl⟩, ⟨hkeeps.needPusi, hkeeps.tscc, hkeeps.received⟩,
      .length ⟨hmeasured.skb, hmeasured.len, hmeasured.dbit, hmeasured.bridged⟩ htype1
        (congrArg (· + 2) hmeasured.len) (hallocs₁.trans hallocs)⟩
  · have h3 : u.length = 3 := by omega
    have hbyte : h₁.fromByte buf 0 = UInt8.ofNat (s.pdu.type / 256) := by
      rw [hsees₁.fromByte (by rw [List.length_drop]; omega), hu.drop 0
        (by rw [List.length_drop]; omega) (by omega)]
      exact s.bytes_getD_type.1
    have hhigh : (h₁.fromByte buf 0).toNat * 256 = s.pdu.type / 256 * 256 := by
      rw [hbyte, UInt8.toNat_ofNat']
      omega
    rw [if_neg (by omega), if_pos (by omega), h3,
      DvbNetUleHandle.skip_eq (by dsimp only; omega) (by dsimp only; omega)]
    refine ⟨_, rfl, ⟨congrArg (· + tsSz) hts, rfl⟩, ⟨hkeeps.needPusi, hkeeps.tscc, hkeeps.received⟩,
      .half ⟨hmeasured.skb, hmeasured.len, hmeasured.dbit, hmeasured.bridged⟩ rfl hhigh ?_
        (hallocs₁.trans hallocs)⟩
    change h₁.priv.uleSnduLen + 2 - 1 = s.len + 1
    rw [hmeasured.len]
    rfl

/-! ### A stretch of a TS cell -/

/-- The header is complete, before or in this TS cell. -/
theorem ulePayload_copies (hp : h.priv.Has alloc n s k) (hlen : 5 ≤ s.len)
    (hgiven : alloc.fails n = false) (hsees : h.Sees buf u) (hu : Spells s k u)
    (h2 : k < 4 → 2 ≤ u.length) (h4 : 4 ≤ k + u.length) :
    ∃ h' j m, ulePayload dev alloc turns buf h =
        uleCopy dev turns buf (s.filling (alloc.memory n) j) h' ∧ k + m = 4 + j ∧ m ≤ 4 - k ∧
      h'.ts = h.ts ∧ h'.Sees buf (u.drop m) ∧ h.priv.Keeps h'.priv ∧
      h'.priv.Filling alloc n s j := by
  by_cases hk : k < 4
  · obtain ⟨h', heq, hts, hsees', hkeeps, hfilling⟩ :=
      newPayload_header hp hk hlen hgiven hsees hu (h2 hk) h4
    refine ⟨h', 0, 4 - k, ?_, by omega, Nat.le_refl _, hts, hsees', hkeeps, hfilling⟩
    rw [ulePayload, hp.skb hk]
    dsimp only
    rw [heq]
    dsimp only
    rw [if_neg (by decide), if_neg (by decide), hfilling.skb]
  · cases hp with
    | nothing => omega
    | length => omega
    | half => omega
    | @body j hj hp =>
      refine ⟨h, j, 0, ?_, rfl, Nat.zero_le _, rfl, hsees, ⟨rfl, rfl, rfl⟩, hp⟩
      rw [ulePayload, hp.skb]

/-- The TS cell ends in the SNDU. -/
theorem ulePayload_piece (hp : h.priv.Has alloc n s k) (hlen : 5 ≤ s.len)
    (hgiven : alloc.fails n = false) (hsees : h.Sees buf u)
    (hu : u = (s.bytes.drop k).take u.length) (h2 : 2 ≤ u.length)
    (hlt : k + u.length < s.bytes.length) :
    ∃ h', ulePayload dev alloc turns buf h = .again h' ∧ h.Passes h' ∧ h.priv.Keeps h'.priv ∧
      h'.priv.Has alloc n s (k + u.length) := by
  have hspells : Spells s k u := .piece hu
  by_cases h4 : 4 ≤ k + u.length
  · obtain ⟨h₁, j, m, heq, hj, hm, hts, hsees₁, hkeeps, hfilling⟩ :=
      @ulePayload_copies dev alloc turns buf h s n k u hp hlen hgiven hsees hspells (fun _ => h2) h4
    have hrest : u.drop m = (s.body.drop j).take (u.drop m).length := by
      rw [List.length_drop, ← s.bytes_drop, ← hj, ← List.drop_drop, ← List.drop_take, ← hu]
    have hmore : j + (u.drop m).length < s.len := by
      rw [List.length_drop]
      rw [s.bytes_length] at hlt
      omega
    obtain ⟨h', heq', hpasses, hkeeps', hhas⟩ :=
      @uleCopy_piece dev alloc turns _ _ _ _ _ _ hfilling hsees₁ hrest hmore
    refine ⟨h', heq.trans heq', ⟨hpasses.ts.trans (congrArg (· + tsSz) hts), hpasses.newTs⟩,
      ⟨hkeeps'.needPusi.trans hkeeps.needPusi, hkeeps'.tscc.trans hkeeps.tscc,
        hkeeps'.received.trans hkeeps.received⟩, ?_⟩
    have hplace : 4 + (j + (u.drop m).length) = k + u.length := by
      rw [List.length_drop]
      omega
    rwa [hplace] at hhas
  · cases hp with
    | nothing hp hallocs =>
      obtain ⟨h', heq, hpasses, hkeeps, hhas⟩ :=
        newPayload_cut hp hallocs hlen hsees hspells h2 (by omega)
      refine ⟨h', ?_, hpasses, hkeeps, by rwa [Nat.zero_add]⟩
      rw [ulePayload, hp.skb]
      dsimp only
      rw [heq]
      dsimp only
      rw [if_neg (by decide), if_pos (by decide)]
    | length => omega
    | half => omega
    | body => omega

/-- The decoder has completed the SNDU, and sees what is behind it. -/
structure DvbNetUleHandle.Behind (h g : DvbNetUleHandle) (buf : ℕ → UInt8) (r : List Received)
    (n : ℕ) (w : List UInt8) : Prop where
  ts : g.ts = h.ts
  sees : g.Sees buf w
  fresh : g.priv.Fresh
  needPusi : g.priv.needPusi = h.priv.needPusi
  tscc : g.priv.tscc = h.priv.tscc
  allocs : g.priv.allocs = n
  received : g.priv.received = h.priv.received ++ r

/-- The SNDU ends in the TS cell. -/
theorem ulePayload_whole (hp : h.priv.Has alloc n s k) (hk : k < s.bytes.length) (hlen : 5 ≤ s.len)
    (hgiven : alloc.fails n = false) (haccept : ∀ mac ∈ s.dest, dev.Accepts mac)
    (hsees : h.Sees buf (s.bytes.drop k ++ w)) :
    (∃ e, s.outcome dev turns (alloc.memory n) = .error e ∧
      ulePayload dev alloc turns buf h = .exit (.error e)) ∨
    ∃ r g, s.outcome dev turns (alloc.memory n) = .ok r ∧
      ulePayload dev alloc turns buf h = .again (g.nextSndu buf) ∧ h.Behind g buf r (n + 1) w := by
  have hlong := s.bytes_length
  have hrest : (s.bytes.drop k).length = s.bytes.length - k := List.length_drop
  have hu : (s.bytes.drop k ++ w).length = s.bytes.length - k + w.length := by
    rw [List.length_append, hrest]
  obtain ⟨h₁, j, m, heq, hj, hm, hts, hsees₁, hkeeps, hfilling⟩ :=
    @ulePayload_copies dev alloc turns _ _ _ _ _ _ hp hlen hgiven hsees .whole
      (fun _ => by omega) (by omega)
  rw [List.drop_append_of_le_length (by omega), List.drop_drop, hj, s.bytes_drop] at hsees₁
  have hbody : (s.body.drop j).length = s.len - j := by rw [List.length_drop, s.body_length]
  rw [heq, uleCopy_whole hfilling (by omega) haccept hsees₁]
  cases houtcome : s.outcome dev turns (alloc.memory n) with
  | error e => exact .inl ⟨e, rfl, rfl⟩
  | ok r =>
    have hsees' : (h₁.behind (s.len - j) r).Sees buf w := by
      have hdrop := hsees₁.skip (m := s.len - j) (by rw [List.length_append]; omega)
      have htotal := hsees₁.length
      rw [List.length_append, hbody] at htotal
      rw [DvbNetUleHandle.skip_eq (by omega) hsees₁.2, List.drop_left' hbody] at hdrop
      exact hdrop
    exact .inr ⟨r, _, rfl, rfl, hts, hsees', ⟨rfl, rfl, rfl, rfl, rfl⟩, hkeeps.needPusi,
      hkeeps.tscc, hfilling.allocs, congrArg (· ++ r) hkeeps.received⟩

/-- A length field below 5 is taken for an error: the decoder goes on with the next TS cell. -/
theorem ulePayload_short (hp : h.priv.Fresh) (hlen : s.len < 5) (hsees : h.Sees buf u)
    (hu : Spells s 0 u) (h2 : 2 ≤ u.length) :
    ∃ h', ulePayload dev alloc turns buf h = .again h' ∧ h.Passes h' ∧ h'.priv.Fresh ∧
      h'.priv.needPusi = true ∧ h'.priv.allocs = h.priv.allocs ∧
      h'.priv.received = h.priv.received := by
  have hremain : ¬h.tsRemain < 2 := by
    rw [hsees.length]
    omega
  rw [ulePayload, hp.skb]
  dsimp only
  rw [DvbNetUleHandle.newPayload, if_neg hremain, if_pos hp.len, readLength_eq hsees hu h2]
  dsimp only
  rw [if_pos hlen]
  dsimp only
  rw [if_neg (by decide), if_pos (by decide)]
  exact ⟨_, rfl, ⟨rfl, rfl⟩, ⟨hp.skb, rfl, hp.type1, hp.remain, hp.bridged⟩, rfl, rfl, rfl⟩

end Dvb.Ule

import NeumoDrivers.Lib.Faults
import NeumoDrivers.Stid135.Chip
import Mathlib.Data.Fintype.Card

/-! Looking up a register.

    The index of the last search is tried before a new one is made. While that index is in the image the
    two agree, since no two registers have one address. A search that fails leaves `-1`, and the next
    lookup reads the register in front of the image. -/

namespace Stid135
open Faults

variable {σ : Type}

namespace ChipInfo

def addresses (c : ChipInfo σ) : List UInt16 := c.regMapImage.map ChipRegister.addr

/-- The addresses are in order, and the index that the next lookup tries is in the image. -/
structure Ready (c : ChipInfo σ) : Prop where
  sorted : c.addresses.Pairwise (· < ·)
  first : 0 ≤ c.lastRegIndex
  last : c.lastRegIndex < c.nbRegs
  active : c.abort = false

variable {c : ChipInfo σ} {a : UInt16} {i n : ℤ} {k : ℕ} {r : ChipRegister}

/-! ### The image -/

theorem regAt_eq (h : c.regMapImage[k]? = some r) : c.regAt k = .ok r := by
  rw [regAt, if_pos (Int.natCast_nonneg k), Int.toNat_natCast, h]

theorem getElem?_of_range (h0 : 0 ≤ i) (h : i < c.nbRegs) :
    ∃ k : ℕ, i = k ∧ ∃ r, c.regMapImage[k]? = some r := by
  rw [nbRegs] at h
  refine ⟨i.toNat, (Int.toNat_of_nonneg h0).symm, ?_⟩
  exact ⟨_, List.getElem?_eq_getElem (by omega)⟩

theorem modifyAt_eq (h : k < c.regMapImage.length) (f : ChipRegister → ChipRegister) :
    c.modifyAt k f = .ok { c with regMapImage := c.regMapImage.modify k f } := by
  rw [modifyAt, if_pos ⟨Int.natCast_nonneg k, Int.ofNat_lt.mpr h⟩, Int.toNat_natCast]

/-- An image in which `n` registers from the `k`-th on are changed. -/
def modifyRange (image : List ChipRegister) (k n : ℕ) (f : ℕ → ChipRegister → ChipRegister) :
    List ChipRegister :=
  image.mapIdx fun j r => if k ≤ j ∧ j < k + n then f (j - k) r else r

theorem length_modifyRange (image : List ChipRegister) (k n : ℕ)
    (f : ℕ → ChipRegister → ChipRegister) : (modifyRange image k n f).length = image.length :=
  List.length_mapIdx

theorem getElem?_modifyRange (image : List ChipRegister) (k n j : ℕ)
    (f : ℕ → ChipRegister → ChipRegister) :
    (modifyRange image k n f)[j]? =
      image[j]?.map fun r => if k ≤ j ∧ j < k + n then f (j - k) r else r := List.getElem?_mapIdx

theorem modifyRange_zero (image : List ChipRegister) (k : ℕ)
    (f : ℕ → ChipRegister → ChipRegister) : modifyRange image k 0 f = image := by
  refine List.ext_getElem? fun j => ?_
  rw [getElem?_modifyRange]
  simp [show ¬(k ≤ j ∧ j < k) by omega]

theorem modifyRange_succ (image : List ChipRegister) (k n : ℕ)
    (f : ℕ → ChipRegister → ChipRegister) :
    (modifyRange image k n f).modify (k + n) (f n) = modifyRange image k (n + 1) f := by
  refine List.ext_getElem? fun j => ?_
  rw [List.getElem?_modify, getElem?_modifyRange, getElem?_modifyRange, Option.map_eq_map,
    Option.map_map]
  refine congrArg (fun g => Option.map g image[j]?) (funext fun r => ?_)
  rw [Function.comp_apply]
  by_cases hj : k + n = j
  · subst hj
    rw [if_pos rfl, if_neg (by omega), if_pos (by omega), Nat.add_sub_cancel_left]
  · have hiff : k ≤ j ∧ j < k + n ↔ k ≤ j ∧ j < k + (n + 1) := by omega
    rw [if_neg hj]
    simp only [hiff]

theorem modifyAll_eq (f : ℕ → ChipRegister → ChipRegister)
    (h : k + n.toNat ≤ c.regMapImage.length) :
    c.modifyAll k n f = .ok { c with regMapImage := modifyRange c.regMapImage k n.toNat f } := by
  rw [modifyAll]
  generalize n.toNat = m at h ⊢
  induction m with
  | zero => rw [modifyRange_zero]; rfl
  | succ m ih =>
    have hlt : k + m < (modifyRange c.regMapImage k m f).length := by
      rw [length_modifyRange]
      omega
    rw [List.range_succ, List.foldlM_append, ok_bind (ih (by omega)), List.foldlM_cons,
      ← Int.natCast_add, ok_bind (modifyAt_eq hlt _), modifyRange_succ]
    rfl

theorem registersAt_eq (h : k + n.toNat ≤ c.regMapImage.length) :
    c.registersAt k n = .ok ((c.regMapImage.drop k).take n.toNat) := by
  rw [registersAt]
  generalize n.toNat = m at h ⊢
  induction m with
  | zero => rfl
  | succ m ih =>
    have hget : c.regMapImage[k + m]? = some c.regMapImage[k + m] := List.getElem?_eq_getElem (by omega)
    have hat := regAt_eq hget
    rw [Int.natCast_add] at hat
    rw [List.range_succ, List.mapM_append, ok_bind (ih (by omega)), List.mapM_cons, List.mapM_nil,
      bind_assoc, ok_bind hat, List.take_add_one, List.getElem?_drop, hget]
    rfl

theorem s32_eq {x : ℤ} (h : -2 ^ 31 ≤ x) (h' : x < 2 ^ 31) : s32 x = x :=
  Int32.toInt_ofInt_of_le h h'

/-- The check of a transfer keeps it in the image. -/
theorem transfer_le (hk : k < c.regMapImage.length) (hn : n + c.nbRegs ≤ 2 ^ 31)
    (h : s32 (k + n - 1) < c.nbRegs) : k + n.toNat ≤ c.regMapImage.length := by
  by_cases hpos : n ≤ 0
  · rw [Int.toNat_of_nonpos hpos]
    omega
  · rw [nbRegs] at hn h
    rw [s32_eq (by omega) (by omega)] at h
    omega

/-! ### The search -/

theorem dichotomySearch_cases (tab : List ChipRegister) (a : UInt16) :
    (∃ (k : ℕ) (r : ChipRegister), tab[k]? = some r ∧ r.addr = a ∧ dichotomySearch tab a = k) ∨
      a ∉ tab.map ChipRegister.addr ∧ dichotomySearch tab a = -1 := by
  rw [dichotomySearch]
  cases hfind : tab.findIdx? fun r => r.addr = a with
  | some k =>
    obtain ⟨hlt, haddr, -⟩ := List.findIdx?_eq_some_iff_getElem.mp hfind
    exact .inl ⟨k, tab[k], List.getElem?_eq_getElem hlt, of_decide_eq_true haddr, rfl⟩
  | none =>
    refine .inr ⟨fun hmem => ?_, rfl⟩
    obtain ⟨r, hr, haddr⟩ := List.mem_map.mp hmem
    have hne := List.findIdx?_eq_none_iff.mp hfind r hr
    exact absurd haddr (by simpa using hne)

theorem dichotomySearch_mem {tab : List ChipRegister} (h : a ∈ tab.map ChipRegister.addr) :
    ∃ (k : ℕ) (r : ChipRegister), tab[k]? = some r ∧ r.addr = a ∧ dichotomySearch tab a = k :=
  (dichotomySearch_cases tab a).resolve_right fun hnot => hnot.1 h

/-- No two registers have one address. -/
theorem addr_injective {tab : List ChipRegister} (hs : (tab.map ChipRegister.addr).Pairwise (· < ·))
    {j k : ℕ} {q r : ChipRegister} (hq : tab[j]? = some q) (hr : tab[k]? = some r)
    (h : q.addr = r.addr) : j = k := by
  have hnodup : (tab.map ChipRegister.addr).Nodup := hs.imp fun hlt heq => by
    rw [heq] at hlt
    exact absurd hlt (UInt16.lt_irrefl _)
  obtain ⟨hj, hqj⟩ := List.getElem?_eq_some_iff.mp hq
  refine (List.getElem?_inj (by simpa using hj) hnodup).mp ?_
  rw [List.getElem?_map, List.getElem?_map, hq, hr, Option.map_some, Option.map_some, h]

theorem dichotomySearch_at {tab : List ChipRegister}
    (hs : (tab.map ChipRegister.addr).Pairwise (· < ·)) (h : tab[k]? = some r) :
    dichotomySearch tab r.addr = k := by
  have hmem : r.addr ∈ tab.map ChipRegister.addr := List.mem_map_of_mem (List.mem_of_getElem? h)
  obtain ⟨j, q, hq, haddr, hsearch⟩ := dichotomySearch_mem hmem
  rw [hsearch, addr_injective hs hq h haddr]

theorem Ready.length_le (h : c.Ready) : c.regMapImage.length ≤ 65536 := by
  have hnodup : (c.addresses.map UInt16.toFin).Nodup := by
    refine (List.pairwise_map.mpr (h.sorted.imp fun hlt heq => ?_))
    rw [UInt16.toFin_inj.mp heq] at hlt
    exact UInt16.lt_irrefl _ hlt
  have hcard := hnodup.length_le_card
  rw [List.length_map, addresses, List.length_map, Fintype.card_fin] at hcard
  exact hcard

theorem getRegisterIndex_eq (h : c.Ready) (a : UInt16) :
    c.getRegisterIndex a = .ok ({ c with lastRegIndex := dichotomySearch c.regMapImage a },
      dichotomySearch c.regMapImage a) := by
  obtain ⟨k, hk, r, hr⟩ := getElem?_of_range h.first h.last
  rw [getRegisterIndex, if_pos h.active, hk, ok_bind (regAt_eq hr)]
  by_cases haddr : r.addr = a
  · have hsearch : dichotomySearch c.regMapImage a = k := haddr ▸ dichotomySearch_at h.sorted hr
    rw [if_pos haddr, hsearch, ← hk]
    rfl
  · rw [if_neg haddr]
    rfl

theorem getFieldIndex_eq (h : c.Ready) (fieldId : UInt32) :
    c.getFieldIndex fieldId =
      .ok ({ c with lastRegIndex := dichotomySearch c.regMapImage (regAddress fieldId) },
        dichotomySearch c.regMapImage (regAddress fieldId)) :=
  getRegisterIndex_eq h (regAddress fieldId)

theorem getRegisterIndex_missed (hactive : c.abort = false) (h : c.lastRegIndex = -1) (a : UInt16) :
    c.getRegisterIndex a = .error .image := by
  rw [getRegisterIndex, if_pos hactive, h, regAt, if_neg (by decide)]
  rfl

theorem getFieldIndex_missed (hactive : c.abort = false) (h : c.lastRegIndex = -1)
    (fieldId : UInt32) : c.getFieldIndex fieldId = .error .image :=
  getRegisterIndex_missed hactive h (regAddress fieldId)

/-! ### What a call keeps -/

/-- The addresses of the registers stay, and what the lookups need. -/
structure Kept (c c' : ChipInfo σ) : Prop where
  ready : c'.Ready
  addresses : c'.addresses = c.addresses
  chipMode : c'.chipMode = c.chipMode
  rdStart : c'.rdStart = c.rdStart

/-- A search has failed. -/
structure Missed (c c' : ChipInfo σ) : Prop where
  addresses : c'.addresses = c.addresses
  chipMode : c'.chipMode = c.chipMode
  rdStart : c'.rdStart = c.rdStart
  active : c'.abort = false
  last : c'.lastRegIndex = -1

variable {c' c'' : ChipInfo σ} {bus : I2cHost σ} {f : ℕ → ChipRegister → ChipRegister}

theorem Kept.refl (h : c.Ready) : Kept c c := ⟨h, rfl, rfl, rfl⟩

theorem Kept.trans (h : Kept c c') (h' : Kept c' c'') : Kept c c'' :=
  ⟨h'.ready, h'.addresses.trans h.addresses, h'.chipMode.trans h.chipMode, h'.rdStart.trans h.rdStart⟩

theorem Kept.mem (h : Kept c c') (ha : a ∈ c.addresses) : a ∈ c'.addresses := by
  rw [h.addresses]
  exact ha

theorem Kept.missed (h : Kept c c') (h' : Missed c' c'') : Missed c c'' :=
  ⟨h'.addresses.trans h.addresses, h'.chipMode.trans h.chipMode, h'.rdStart.trans h.rdStart, h'.active,
    h'.last⟩

theorem Kept.nbRegs_eq (h : Kept c c') : c'.nbRegs = c.nbRegs := by
  have hlen := congrArg List.length h.addresses
  rw [ChipInfo.addresses, ChipInfo.addresses, List.length_map, List.length_map] at hlen
  rw [nbRegs, nbRegs, hlen]

theorem Ready.nbRegs_le (h : c.Ready) : c.nbRegs ≤ 65536 := by
  have hle := h.length_le
  rw [nbRegs]
  omega

/-- Everything but the image and the index may change. -/
theorem Ready.kept (h : c.Ready) (himage : c'.regMapImage = c.regMapImage)
    (hlast : c'.lastRegIndex = c.lastRegIndex) (habort : c'.abort = c.abort)
    (hmode : c'.chipMode = c.chipMode) (hstart : c'.rdStart = c.rdStart) : Kept c c' := by
  have haddr : c'.addresses = c.addresses := congrArg (List.map ChipRegister.addr) himage
  have hn : c'.nbRegs = c.nbRegs := by rw [nbRegs, nbRegs, himage]
  exact ⟨⟨haddr ▸ h.sorted, hlast ▸ h.first, by rw [hlast, hn]; exact h.last, habort ▸ h.active⟩,
    haddr, hmode, hstart⟩

theorem Ready.kept_image (h : c.Ready) {image : List ChipRegister}
    (haddr : image.map ChipRegister.addr = c.addresses) : Kept c { c with regMapImage := image } := by
  have hlen := congrArg List.length haddr
  rw [addresses, List.length_map, List.length_map] at hlen
  have hsorted : (image.map ChipRegister.addr).Pairwise (· < ·) := by
    rw [haddr]
    exact h.sorted
  refine ⟨⟨hsorted, h.first, ?_, h.active⟩, haddr, rfl, rfl⟩
  have hlast := h.last
  rw [nbRegs] at hlast ⊢
  rwa [hlen]

theorem addresses_modifyRange (hf : ∀ j r, (f j r).addr = r.addr) (image : List ChipRegister)
    (k m : ℕ) : (modifyRange image k m f).map ChipRegister.addr = image.map ChipRegister.addr := by
  refine List.ext_getElem? fun j => ?_
  rw [List.getElem?_map, List.getElem?_map, getElem?_modifyRange, Option.map_map]
  refine congrArg (fun g => Option.map g image[j]?) (funext fun r => ?_)
  rw [Function.comp_apply]
  split
  · exact hf _ r
  · rfl

theorem addresses_modify {g : ChipRegister → ChipRegister} (hg : ∀ r, (g r).addr = r.addr)
    (image : List ChipRegister) (k : ℕ) :
    (image.modify k g).map ChipRegister.addr = image.map ChipRegister.addr := by
  refine List.ext_getElem? fun j => ?_
  rw [List.getElem?_map, List.getElem?_map, List.getElem?_modify, Option.map_eq_map, Option.map_map]
  refine congrArg (fun g => Option.map g image[j]?) (funext fun r => ?_)
  rw [Function.comp_apply]
  split
  · exact hg r
  · rfl

theorem Ready.lookup (h : c.Ready) (ha : a ∈ c.addresses) :
    ∃ k : ℕ, k < c.regMapImage.length ∧ Kept c { c with lastRegIndex := k } ∧
      dichotomySearch c.regMapImage a = k := by
  obtain ⟨k, r, hr, -, hsearch⟩ := dichotomySearch_mem ha
  obtain ⟨hlt, -⟩ := List.getElem?_eq_some_iff.mp hr
  exact ⟨k, hlt, ⟨⟨h.sorted, Int.natCast_nonneg k, Int.ofNat_lt.mpr hlt, h.active⟩, rfl, rfl, rfl⟩,
    hsearch⟩

theorem dichotomySearch_absent (ha : a ∉ c.addresses) : dichotomySearch c.regMapImage a = -1 := by
  rcases dichotomySearch_cases c.regMapImage a with ⟨k, r, hr, rfl, -⟩ | ⟨-, hsearch⟩
  · exact absurd (List.mem_map_of_mem (List.mem_of_getElem? hr)) ha
  · exact hsearch

theorem writeData_kept (h : c.Ready) (hk : k + n.toNat ≤ c.regMapImage.length)
    (hlt : k < c.regMapImage.length) :
    Avoids (· = Fault.image) (fun p => Kept c p.1) (c.writeData k n) := by
  have hat := regAt_eq (List.getElem?_eq_getElem hlt)
  rw [writeData, ok_bind hat]
  cases hmode : c.chipMode with
  | i2c2stbus =>
    dsimp only
    have haddr := addresses_modifyRange (f := fun i r => { r with
      modified := c.modified + UInt32.ofNat (i + 1) }) (fun _ _ => rfl) c.regMapImage k n.toNat
    rw [ok_bind (modifyAll_eq _ hk), ok_bind (registersAt_eq (by rwa [length_modifyRange]))]
    have hkept := h.kept_image haddr
    exact avoids_pure (hkept.trans (hkept.ready.kept rfl rfl rfl rfl rfl))
  | subadr16 =>
    dsimp only
    rw [ok_bind (registersAt_eq hk)]
    exact avoids_pure (Kept.refl h)
  | subadr8 =>
    dsimp only
    rw [ok_bind (registersAt_eq hk)]
    exact avoids_pure (Kept.refl h)
  | nosubadr =>
    dsimp only
    rw [ok_bind (registersAt_eq hk)]
    exact avoids_pure (Kept.refl h)
  | nosubadrRd =>
    dsimp only
    rw [ok_bind (registersAt_eq hk)]
    exact avoids_pure (Kept.refl h)

theorem setRegisters_kept (h : c.Ready) (ha : a ∈ c.addresses) (hn : n + c.nbRegs ≤ 2 ^ 31) :
    Avoids (· = Fault.image) (fun p => Kept c p.1) (c.setRegisters bus a n) := by
  rw [setRegisters]
  split
  · obtain ⟨k, hlt, hkept, hsearch⟩ := h.lookup ha
    rw [ok_bind (getRegisterIndex_eq h a), hsearch]
    dsimp only
    split
    · rename_i hcheck
      refine (writeData_kept hkept.ready (transfer_le hlt hn hcheck.2) hlt).bind fun p hp => ?_
      split
      · exact fun hfault => nomatch hfault
      · exact avoids_pure ((hkept.trans hp).trans (hp.ready.kept rfl rfl rfl rfl rfl))
    · exact avoids_pure (hkept.trans (hkept.ready.kept rfl rfl rfl rfl rfl))
  · exact avoids_pure (Kept.refl h)

/-- A register that is not in the map. -/
def missing (c : ChipInfo σ) (error : UInt32) : ChipInfo σ :=
  { c with lastRegIndex := -1, error := error }

theorem Ready.missed (h : c.Ready) (error : UInt32) : Missed c (c.missing error) :=
  ⟨rfl, rfl, rfl, h.active, rfl⟩

theorem setRegisters_absent (h : c.Ready) (ha : a ∉ c.addresses) (herror : c.error = noError) :
    c.setRegisters bus a n = .ok (c.missing invalidRegId, invalidRegId) := by
  rw [setRegisters, if_pos herror, ok_bind (getRegisterIndex_eq h a), dichotomySearch_absent ha]
  rfl

theorem Ready.writeSubAddress_kept (h : c.Ready) (a : UInt16) (n : ℤ) :
    Kept c (c.writeSubAddress bus a n) := by
  rw [writeSubAddress]
  split
  · exact h.kept rfl rfl rfl rfl rfl
  · exact .refl h

theorem writeSubAddress_image (a : UInt16) (n : ℤ) :
    (c.writeSubAddress bus a n).regMapImage = c.regMapImage := by
  rw [writeSubAddress]
  split <;> rfl

theorem readData_kept (h : c.Ready) (hk : k + n.toNat ≤ c.regMapImage.length)
    (hlt : k < c.regMapImage.length) :
    Avoids (· = Fault.image) (fun p => Kept c p.1) (c.readData bus k n) := by
  rw [readData, ok_bind (regAt_eq (List.getElem?_eq_getElem hlt))]
  dsimp only
  rw [ok_bind (registersAt_eq (by rwa [writeSubAddress_image]))]
  split
  · exact fun hfault => nomatch hfault
  · have hsub := @Ready.writeSubAddress_kept _ _ bus h (c.regMapImage[k]).addr n
    exact avoids_pure (hsub.trans (hsub.ready.kept rfl rfl rfl rfl rfl))

theorem getRegisters_kept (h : c.Ready) (ha : a ∈ c.addresses) :
    Avoids (· = Fault.image) (fun p => Kept c p.1) (c.getRegisters bus a n) := by
  rw [getRegisters]
  split
  · rw [if_pos h.active]
    split
    · rename_i hburst
      obtain ⟨k, hlt, hkept, hsearch⟩ := h.lookup ha
      rw [ok_bind (getRegisterIndex_eq h a), hsearch]
      dsimp only
      split
      · rename_i hcheck
        have hn := h.nbRegs_le
        have hk := transfer_le hlt (by omega) hcheck.2
        refine (readData_kept hkept.ready hk hlt).bind fun p hp => ?_
        have hlen : p.1.regMapImage.length = c.regMapImage.length := by
          have hnb := (hkept.trans hp).nbRegs_eq
          rw [nbRegs, nbRegs] at hnb
          omega
        have hlt' : k < p.1.regMapImage.length := by rwa [hlen]
        have haddr := addresses_modify (g := fun r =>
          if r.size = .unset then { r with size := .size8 } else r)
          (fun r => by split <;> rfl) p.1.regMapImage k
        have hsized := hp.ready.kept_image haddr
        have haddr' := addresses_modifyRange (f := fun i r => { r with
          value := readValue p.1.chipMode p.2 i r.size }) (fun _ _ => rfl)
          (p.1.regMapImage.modify k fun r =>
            if r.size = .unset then { r with size := .size8 } else r) k n.toNat
        rw [ok_bind (modifyAt_eq hlt' _), ok_bind (modifyAll_eq _ (by
          rw [List.length_modify, hlen]
          exact hk))]
        exact avoids_pure (((hkept.trans hp).trans hsized).trans (hsized.ready.kept_image haddr'))
      · exact avoids_pure (hkept.trans (hkept.ready.kept rfl rfl rfl rfl rfl))
    · exact avoids_pure (h.kept rfl rfl rfl rfl rfl)
  · exact avoids_pure (Kept.refl h)

theorem getRegisters_absent (h : c.Ready) (ha : a ∉ c.addresses) (herror : c.error = noError)
    (hn : n < 70) : c.getRegisters bus a n = .ok (c.missing invalidRegId, invalidRegId) := by
  rw [getRegisters, if_pos herror, if_pos h.active, if_pos hn, ok_bind (getRegisterIndex_eq h a),
    dichotomySearch_absent ha]
  rfl

theorem getRegisters_burst (h : c.Ready) (hn : ¬n < 70) :
    Avoids (· = Fault.image) (fun p => Kept c p.1) (c.getRegisters bus a n) := by
  rw [getRegisters, if_neg hn]
  split
  · rw [if_pos h.active]
    exact avoids_pure (h.kept rfl rfl rfl rfl rfl)
  · exact avoids_pure (Kept.refl h)

theorem setOneRegister_kept (h : c.Ready) (ha : a ∈ c.addresses) (data : UInt32) :
    Avoids (· = Fault.image) (fun p => Kept c p.1) (c.setOneRegister bus a data) := by
  have hclear : Kept c { c with error := noError } := h.kept rfl rfl rfl rfl rfl
  obtain ⟨k, hlt, hkept, hsearch⟩ := hclear.ready.lookup (a := a) (hclear.addresses.symm ▸ ha)
  have haddr := addresses_modify (g := fun r => { r with value := data }) (fun _ => rfl)
    c.regMapImage k
  have hwritten := hkept.ready.kept_image haddr
  dsimp only [setOneRegister]
  rw [if_pos h.active, ok_bind (getRegisterIndex_eq hclear.ready a), hsearch]
  dsimp only
  rw [if_pos ⟨Int.natCast_nonneg k, Int.ofNat_lt.mpr hlt⟩,
    ok_bind (modifyAt_eq (c := { c with error := noError, lastRegIndex := k }) hlt _)]
  have hn := hwritten.ready.nbRegs_le
  have hall := (hclear.trans hkept).trans hwritten
  exact (setRegisters_kept hwritten.ready (hall.mem ha) (by omega)).mono fun p hp => hall.trans hp

theorem setOneRegister_absent (h : c.Ready) (ha : a ∉ c.addresses) (data : UInt32) :
    c.setOneRegister bus a data = .ok (c.missing invalidRegId, invalidRegId) := by
  have hclear : Kept c { c with error := noError } := h.kept rfl rfl rfl rfl rfl
  dsimp only [setOneRegister]
  rw [if_pos h.active, ok_bind (getRegisterIndex_eq hclear.ready a),
    dichotomySearch_absent (c := c) ha]
  rfl

/-- `ChipGetOneRegister` looks up a second register where the mode has no sub address. -/
theorem getOneRegister_found (h : c.Ready) (ha : a ∈ c.addresses) :
    Avoids (· = Fault.image)
      (fun p => Kept c p.1 ∨ c.chipMode = .nosubadr ∧ s32 c.rdSize.toNat < 70 ∧
        c.rdStart ∉ c.addresses ∧ Missed c p.1) (c.getOneRegister bus a) := by
  have hclear : Kept c { c with error := noError } := h.kept rfl rfl rfl rfl rfl
  obtain ⟨k, hlt, hkept, hsearch⟩ := hclear.ready.lookup (a := a) (hclear.addresses.symm ▸ ha)
  have hall := hclear.trans hkept
  have hlt : k < c.addresses.length := (List.length_map ChipRegister.addr).symm ▸ hlt
  dsimp only [getOneRegister]
  rw [if_pos h.active, ok_bind (getRegisterIndex_eq hclear.ready a), hsearch]
  dsimp only
  rw [if_pos ⟨Int.natCast_nonneg k, Int.ofNat_lt.mpr (by simpa [addresses] using hlt)⟩]
  have hread : ∀ (x : Except Fault (ChipInfo σ × UInt32)) (Q : ChipInfo σ → Prop),
      Avoids (· = Fault.image) (fun p => Q p.1) x → (∀ c', Q c' → c'.addresses = c.addresses) →
      Avoids (· = Fault.image) (fun p : ChipInfo σ × UInt32 × UInt32 => Q p.1) (x >>= fun p =>
        if p.2 = noError then p.1.regAt k >>= fun r => pure (p.1, p.1.error, r.value)
        else pure (p.1, p.1.error, 0xFFFFFFFF)) := by
    intro x Q hx hQ
    refine hx.bind fun p hp => ?_
    have hlen := congrArg List.length (hQ p.1 hp)
    rw [addresses, List.length_map] at hlen
    split
    · rw [ok_bind (regAt_eq (List.getElem?_eq_getElem (by omega)))]
      exact avoids_pure hp
    · exact avoids_pure hp
  split
  · exact (hread _ _ (getRegisters_kept hkept.ready ha)
      fun c' h' => h'.addresses).mono fun p hp => .inl (hall.trans hp)
  · rename_i hmode
    by_cases hstart : c.rdStart ∈ c.addresses
    · exact (hread _ _ (getRegisters_kept hkept.ready hstart)
        fun c' h' => h'.addresses).mono fun p hp => .inl (hall.trans hp)
    by_cases hburst : s32 c.rdSize.toNat < 70
    · rw [getRegisters_absent (c := { c with error := noError, lastRegIndex := k }) hkept.ready hstart rfl
        hburst]
      exact avoids_pure (.inr ⟨not_not.mp hmode, hburst, hstart, h.missed _⟩)
    · exact (hread _ _ (getRegisters_burst hkept.ready hburst)
        fun c' h' => h'.addresses).mono fun p hp => .inl (hall.trans hp)

theorem getOneRegister_absent (h : c.Ready) (ha : a ∉ c.addresses) :
    c.getOneRegister bus a = .ok (c.missing invalidRegId, invalidRegId, 0xFFFFFFFF) := by
  have hclear : Kept c { c with error := noError } := h.kept rfl rfl rfl rfl rfl
  dsimp only [getOneRegister]
  rw [if_pos h.active, ok_bind (getRegisterIndex_eq hclear.ready a),
    dichotomySearch_absent (c := c) ha]
  rfl

/-- Without a sub address the first readable register is looked up as well. -/
theorem getOneRegister_unread (h : c.Ready) (ha : a ∈ c.addresses) (hmode : c.chipMode = .nosubadr)
    (hburst : s32 c.rdSize.toNat < 70) (hstart : c.rdStart ∉ c.addresses) :
    c.getOneRegister bus a = .ok (c.missing invalidRegId, invalidRegId, 0xFFFFFFFF) := by
  have hclear : Kept c { c with error := noError } := h.kept rfl rfl rfl rfl rfl
  obtain ⟨k, hlt, hkept, hsearch⟩ := hclear.ready.lookup (a := a) (hclear.addresses.symm ▸ ha)
  dsimp only [getOneRegister]
  rw [if_pos h.active, ok_bind (getRegisterIndex_eq hclear.ready a), hsearch]
  dsimp only
  rw [if_pos ⟨Int.natCast_nonneg k, Int.ofNat_lt.mpr hlt⟩, if_neg (not_not.mpr hmode),
    getRegisters_absent (c := { c with error := noError, lastRegIndex := k }) hkept.ready hstart rfl hburst]
  rfl

/-! ### Fields -/

theorem Ready.lookup_cases (h : c.Ready) (a : UInt16) :
    (∃ k : ℕ, k < c.regMapImage.length ∧ Kept c { c with lastRegIndex := k } ∧
      dichotomySearch c.regMapImage a = k) ∨
      a ∉ c.addresses ∧ dichotomySearch c.regMapImage a = -1 := by
  by_cases ha : a ∈ c.addresses
  · exact .inl (h.lookup ha)
  · exact .inr ⟨ha, dichotomySearch_absent ha⟩

theorem setFieldImage_looks (h : c.Ready) (fieldId : UInt32) (value : Int32) :
    Avoids (· = Fault.image)
      (fun p => Kept c p.1 ∨ regAddress fieldId ∉ c.addresses ∧ Missed c p.1)
      (c.setFieldImage fieldId value) := by
  rw [setFieldImage]
  split
  · rw [if_pos h.active, ok_bind (getFieldIndex_eq h fieldId)]
    rcases h.lookup_cases (regAddress fieldId) with ⟨k, hlt, hkept, hsearch⟩ | ⟨habsent, hsearch⟩
    · rw [hsearch]
      dsimp only
      rw [if_pos ⟨Int.natCast_nonneg k, Int.ofNat_lt.mpr hlt⟩,
        ok_bind (modifyAt_eq (c := { c with lastRegIndex := k }) hlt _)]
      refine avoids_pure (.inl (hkept.trans (hkept.ready.kept_image ?_)))
      exact addresses_modify (g := fun r => { r with
        value := (r.value &&& (~~~getFieldMask fieldId).toUInt32) +
          (maskedImageValue fieldId value).toUInt32 }) (fun _ => rfl) c.regMapImage k
    · rw [hsearch]
      exact avoids_pure (.inr ⟨habsent, rfl, rfl, rfl, h.active, rfl⟩)
  · exact avoids_pure (.inl (.refl h))

theorem getFieldImage_looks (h : c.Ready) (fieldId : UInt32) :
    Avoids (· = Fault.image)
      (fun p => Kept c p.1 ∨ regAddress fieldId ∉ c.addresses ∧ Missed c p.1)
      (c.getFieldImage fieldId) := by
  rw [getFieldImage, if_pos h.active, ok_bind (getFieldIndex_eq h fieldId)]
  rcases h.lookup_cases (regAddress fieldId) with ⟨k, hlt, hkept, hsearch⟩ | ⟨habsent, hsearch⟩
  · rw [hsearch]
    dsimp only
    rw [if_pos ⟨Int.natCast_nonneg k, Int.ofNat_lt.mpr hlt⟩,
      ok_bind (regAt_eq (c := { c with lastRegIndex := k }) (List.getElem?_eq_getElem hlt))]
    exact avoids_pure (.inl hkept)
  · rw [hsearch]
    exact avoids_pure (.inr ⟨habsent, rfl, rfl, rfl, h.active, rfl⟩)

/-- `ChipSetField` writes a register that it may not have found. -/
theorem setField_found (h : c.Ready) (fieldId : UInt32) (value : Int32)
    (ha : regAddress fieldId ∈ c.addresses)
    (hstart : c.chipMode = .nosubadr → s32 c.rdSize.toNat < 70 → c.rdStart ∈ c.addresses) :
    Avoids (· = Fault.image) (fun p => Kept c p.1) (c.setField bus fieldId value) := by
  rw [setField]
  split
  · rw [if_pos h.active]
    refine (getOneRegister_found h ha).bind fun p hp => ?_
    have hp : Kept c p.1 := 
      hp.resolve_right fun hmiss => hmiss.2.2.1 (hstart hmiss.1 hmiss.2.1)
    have herror : Kept p.1 { p.1 with error := p.2.1 } := hp.ready.kept rfl rfl rfl rfl rfl
    refine (setOneRegister_kept herror.ready (herror.mem (hp.mem ha)) _).bind fun q hq => ?_
    exact avoids_pure (((hp.trans herror).trans hq).trans (hq.ready.kept rfl rfl rfl rfl rfl))
  · exact avoids_pure (h.kept rfl rfl rfl rfl rfl)

theorem regAddress_eq (fieldId : UInt32) : (fieldId >>> 16).toUInt16 = regAddress fieldId := by
  rw [regAddress, ← UInt16.toNat_inj, UInt32.toNat_toUInt16, UInt32.toNat_toUInt16, UInt32.toNat_and]
  rw [show UInt32.toNat 0xFFFF = 2 ^ 16 - 1 from rfl, Nat.and_two_pow_sub_one_eq_mod, Nat.mod_mod]

theorem getField_looks (h : c.Ready) (fieldId : UInt32) :
    Avoids (· = Fault.image)
      (fun p => Kept c p.1 ∨ (regAddress fieldId ∈ c.addresses →
        c.chipMode = .nosubadr ∧ s32 c.rdSize.toNat < 70 ∧ c.rdStart ∉ c.addresses) ∧ Missed c p.1)
      (c.getField bus fieldId) := by
  rw [getField]
  split
  · rw [if_pos h.active]
    dsimp only
    rw [regAddress_eq]
    by_cases ha : regAddress fieldId ∈ c.addresses
    · exact (getOneRegister_found h ha).bind fun p hp =>
        avoids_pure (hp.imp id fun hmiss =>
          ⟨fun _ => ⟨hmiss.1, hmiss.2.1, hmiss.2.2.1⟩, hmiss.2.2.2⟩)
    · rw [ok_bind (getOneRegister_absent h ha)]
      exact avoids_pure (.inr ⟨fun hmem => absurd hmem ha, h.missed _⟩)
  · exact avoids_pure (.inl (.refl h))

/-! ### Runs -/

end ChipInfo

/-- A call of a register or field function. -/
inductive ChipCall where
  | getRegisterIndex (regId : UInt16)
  | getFieldIndex (fieldId : UInt32)
  | setOneRegister (regAddr : UInt16) (data : UInt32)
  | getOneRegister (regAddr : UInt16)
  | setRegisters (firstReg : UInt16) (n : ℤ)
  | getRegisters (firstReg : UInt16) (n : ℤ)
  | setFieldImage (fieldId : UInt32) (value : Int32)
  | setField (fieldId : UInt32) (value : Int32)
  | getFieldImage (fieldId : UInt32)
  | getField (fieldId : UInt32)

namespace ChipInfo

def call (bus : I2cHost σ) (c : ChipInfo σ) : ChipCall → Except Fault (ChipInfo σ)
  | .getRegisterIndex a => do return (← c.getRegisterIndex a).1
  | .getFieldIndex f => do return (← c.getFieldIndex f).1
  | .setOneRegister a data => do return (← c.setOneRegister bus a data).1
  | .getOneRegister a => do return (← c.getOneRegister bus a).1
  | .setRegisters a n => do return (← c.setRegisters bus a n).1
  | .getRegisters a n => do return (← c.getRegisters bus a n).1
  | .setFieldImage f value => do return (← c.setFieldImage f value).1
  | .setField f value => do return (← c.setField bus f value).1
  | .getFieldImage f => do return (← c.getFieldImage f).1
  | .getField f => do return (← c.getField bus f).1

/-- Whether a call looks up a register: most do not while there is an error. -/
def LooksUp (c : ChipInfo σ) : ChipCall → Prop
  | .setRegisters _ _ | .setFieldImage _ _ | .setField _ _ | .getField _ => c.error = noError
  | .getRegisters _ n => c.error = noError ∧ n < 70
  | _ => True

/-- Where `ChipSetField` writes, it has found the register; without a sub address it has also found
    the first readable one. -/
def WritesFound (c : ChipInfo σ) : ChipCall → Prop
  | .setField f _ => regAddress f ∈ c.addresses ∧
      (c.chipMode = .nosubadr → s32 c.rdSize.toNat < 70 → c.rdStart ∈ c.addresses)
  | _ => True

/-- A lookup does not follow one that failed. -/
def Sound (c : ChipInfo σ) (x : ChipCall) : Prop :=
  c.LooksUp x → c.lastRegIndex ≠ -1 ∧ c.WritesFound x

/-- The number of registers of a transfer does not wrap. -/
def Counted (c : ChipInfo σ) : ChipCall → Prop
  | .setRegisters _ n => n + c.nbRegs ≤ 2 ^ 31
  | _ => True

/-- The addresses a call looks up. -/
def addressesOf (c : ChipInfo σ) : ChipCall → List UInt16
  | .getRegisterIndex a | .setOneRegister a _ | .setRegisters a _ | .getRegisters a _ => [a]
  | .getFieldIndex f | .setFieldImage f _ | .getFieldImage f => [regAddress f]
  | .getOneRegister a => if c.chipMode = .nosubadr then [a, c.rdStart] else [a]
  | .setField f _ | .getField f =>
    if c.chipMode = .nosubadr then [regAddress f, c.rdStart] else [regAddress f]

variable {c c' c₀ : ChipInfo σ} {bus : I2cHost σ} {a : UInt16}

theorem call_kept (h : c.Ready) {x : ChipCall} (hcount : c.Counted x) (hfound : c.WritesFound x) :
    Avoids (· = Fault.image)
      (fun c' => Kept c c' ∨ (∃ a ∈ c.addressesOf x, a ∉ c.addresses) ∧ Missed c c') (c.call bus x) := by
  cases x with
  | getRegisterIndex a =>
    rw [call, ok_bind (getRegisterIndex_eq h a)]
    rcases h.lookup_cases a with ⟨k, -, hkept, hsearch⟩ | ⟨habsent, hsearch⟩
    · rw [hsearch]
      exact avoids_pure (.inl hkept)
    · rw [hsearch]
      exact avoids_pure (.inr ⟨⟨a, List.mem_singleton_self a, habsent⟩, h.missed c.error⟩)
  | getFieldIndex f =>
    rw [call, ok_bind (getFieldIndex_eq h f)]
    rcases h.lookup_cases (regAddress f) with ⟨k, -, hkept, hsearch⟩ | ⟨habsent, hsearch⟩
    · rw [hsearch]
      exact avoids_pure (.inl hkept)
    · rw [hsearch]
      exact avoids_pure (.inr ⟨⟨_, List.mem_singleton_self _, habsent⟩, h.missed c.error⟩)
  | setOneRegister a data =>
    rw [call]
    by_cases ha : a ∈ c.addresses
    · exact (setOneRegister_kept h ha data).bind fun p hp => avoids_pure (.inl hp)
    · rw [ok_bind (setOneRegister_absent h ha data)]
      exact avoids_pure (.inr ⟨⟨a, List.mem_singleton_self a, ha⟩, h.missed _⟩)
  | getOneRegister a =>
    rw [call]
    by_cases ha : a ∈ c.addresses
    · refine (getOneRegister_found h ha).bind fun p hp => avoids_pure (hp.imp id ?_)
      rintro ⟨hmode, -, hstart, hmiss⟩
      exact ⟨⟨c.rdStart, by simp [addressesOf, hmode], hstart⟩, hmiss⟩
    · rw [ok_bind (getOneRegister_absent h ha)]
      refine avoids_pure (.inr ⟨⟨a, ?_, ha⟩, h.missed _⟩)
      rw [addressesOf]
      split <;> exact List.mem_cons_self
  | setRegisters a n =>
    rw [call]
    by_cases ha : a ∈ c.addresses
    · exact (setRegisters_kept h ha hcount).bind fun p hp => avoids_pure (.inl hp)
    by_cases herror : c.error = noError
    · rw [ok_bind (setRegisters_absent h ha herror)]
      exact avoids_pure (.inr ⟨⟨a, List.mem_singleton_self a, ha⟩, h.missed _⟩)
    · rw [setRegisters, if_neg herror]
      exact avoids_pure (.inl (.refl h))
  | getRegisters a n =>
    rw [call]
    by_cases ha : a ∈ c.addresses
    · exact (getRegisters_kept h ha).bind fun p hp => avoids_pure (.inl hp)
    by_cases hn : n < 70
    · by_cases herror : c.error = noError
      · rw [ok_bind (getRegisters_absent h ha herror hn)]
        exact avoids_pure (.inr ⟨⟨a, List.mem_singleton_self a, ha⟩, h.missed _⟩)
      · rw [getRegisters, if_neg herror]
        exact avoids_pure (.inl (.refl h))
    · exact (getRegisters_burst h hn).bind fun p hp => avoids_pure (.inl hp)
  | setFieldImage f value =>
    rw [call]
    exact (setFieldImage_looks h f value).bind fun p hp =>
      avoids_pure (hp.imp id fun hmiss => ⟨⟨_, List.mem_singleton_self _, hmiss.1⟩, hmiss.2⟩)
  | setField f value =>
    rw [call]
    exact (setField_found h f value hfound.1 hfound.2).bind fun p hp => avoids_pure (.inl hp)
  | getFieldImage f =>
    rw [call]
    exact (getFieldImage_looks h f).bind fun p hp =>
      avoids_pure (hp.imp id fun hmiss => ⟨⟨_, List.mem_singleton_self _, hmiss.1⟩, hmiss.2⟩)
  | getField f =>
    rw [call]
    refine (getField_looks h f).bind fun p hp => avoids_pure (hp.imp id ?_)
    rintro ⟨hmode, hmiss⟩
    by_cases ha : regAddress f ∈ c.addresses
    · obtain ⟨hno, -, hstart⟩ := hmode ha
      exact ⟨⟨c.rdStart, by simp [addressesOf, hno], hstart⟩, hmiss⟩
    · refine ⟨⟨regAddress f, ?_, ha⟩, hmiss⟩
      rw [addressesOf]
      split <;> exact List.mem_cons_self

theorem call_idle {x : ChipCall} (hactive : c.abort = false) (h : ¬c.LooksUp x) :
    ∃ error, c.call bus x = .ok { c with error := error } := by
  cases x with
  | getRegisterIndex a => exact absurd trivial h
  | getFieldIndex f => exact absurd trivial h
  | setOneRegister a data => exact absurd trivial h
  | getOneRegister a => exact absurd trivial h
  | setRegisters a n =>
    exact ⟨c.error, by rw [call, setRegisters, if_neg (show ¬c.error = noError from h)]; rfl⟩
  | getRegisters a n =>
    by_cases herror : c.error = noError
    · exact ⟨i2cBurst, by
        rw [call, getRegisters, if_pos herror, if_pos hactive, if_neg fun hn => h ⟨herror, hn⟩]
        rfl⟩
    · exact ⟨c.error, by rw [call, getRegisters, if_neg herror]; rfl⟩
  | setFieldImage f value =>
    exact ⟨c.error, by rw [call, setFieldImage, if_neg (show ¬c.error = noError from h)]; rfl⟩
  | setField f value =>
    exact ⟨invalidFieldId, by rw [call, setField, if_neg (show ¬c.error = noError from h)]; rfl⟩
  | getFieldImage f => exact absurd trivial h
  | getField f =>
    exact ⟨c.error, by rw [call, getField, if_neg (show ¬c.error = noError from h)]; rfl⟩

theorem error_bind {ε α β : Type} {x : Except ε α} {e : ε} (h : x = .error e) (f : α → Except ε β) :
    (x >>= f) = .error e := by
  rw [h]
  rfl

theorem setOneRegister_missed (hactive : c.abort = false) (hlast : c.lastRegIndex = -1)
    (data : UInt32) : c.setOneRegister bus a data = .error .image := by
  dsimp only [setOneRegister]
  rw [if_pos hactive]
  exact error_bind (getRegisterIndex_missed (c := { c with error := noError }) hactive hlast a) _

theorem getOneRegister_missed (hactive : c.abort = false) (hlast : c.lastRegIndex = -1) :
    c.getOneRegister bus a = .error .image := by
  dsimp only [getOneRegister]
  rw [if_pos hactive]
  exact error_bind (getRegisterIndex_missed (c := { c with error := noError }) hactive hlast a) _

theorem call_missed {x : ChipCall} (hactive : c.abort = false) (hlast : c.lastRegIndex = -1)
    (h : c.LooksUp x) : c.call bus x = .error .image := by
  cases x with
  | getRegisterIndex a => exact error_bind (getRegisterIndex_missed hactive hlast a) _
  | getFieldIndex f => exact error_bind (getFieldIndex_missed hactive hlast f) _
  | setOneRegister a data => exact error_bind (setOneRegister_missed hactive hlast data) _
  | getOneRegister a => exact error_bind (getOneRegister_missed hactive hlast) _
  | setRegisters a n =>
    rw [call, setRegisters, if_pos (show c.error = noError from h)]
    exact error_bind (error_bind (getRegisterIndex_missed hactive hlast a) _) _
  | getRegisters a n =>
    rw [call, getRegisters, if_pos h.1, if_pos hactive, if_pos h.2]
    exact error_bind (error_bind (getRegisterIndex_missed hactive hlast a) _) _
  | setFieldImage f value =>
    rw [call, setFieldImage, if_pos (show c.error = noError from h), if_pos hactive]
    exact error_bind (error_bind (getFieldIndex_missed hactive hlast f) _) _
  | setField f value =>
    rw [call, setField, if_pos (show c.error = noError from h), if_pos hactive]
    exact error_bind (error_bind (getOneRegister_missed hactive hlast) _) _
  | getFieldImage f =>
    rw [call, getFieldImage, if_pos hactive]
    exact error_bind (error_bind (getFieldIndex_missed hactive hlast f) _) _
  | getField f =>
    rw [call, getField, if_pos (show c.error = noError from h), if_pos hactive]
    exact error_bind (error_bind (getOneRegister_missed hactive hlast) _) _

/-- `ChipSetField` looks the register up again to write it. -/
theorem setField_lost (h : c.Ready) {f : UInt32} {value : Int32} (herror : c.error = noError)
    (hlost : ¬c.WritesFound (.setField f value)) : c.setField bus f value = .error .image := by
  have hread : c.getOneRegister bus (regAddress f) =
      .ok (c.missing invalidRegId, invalidRegId, 0xFFFFFFFF) := by
    by_cases ha : regAddress f ∈ c.addresses
    · have hstart : ¬(c.chipMode = .nosubadr → s32 c.rdSize.toNat < 70 → c.rdStart ∈ c.addresses) :=
        fun hstart => hlost ⟨ha, hstart⟩
      push Not at hstart
      exact getOneRegister_unread h ha hstart.1 hstart.2.1 hstart.2.2
    · exact getOneRegister_absent h ha
  rw [setField, if_pos herror, if_pos h.active, ok_bind hread]
  exact error_bind (setOneRegister_missed (c := c.missing invalidRegId) h.active rfl _) _

/-- What a run of calls comes to in which no lookup follows one that failed. -/
inductive Reached (bus : I2cHost σ) (c₀ : ChipInfo σ) : ChipInfo σ → Prop where
  | start : Reached bus c₀ c₀
  | call {c c' : ChipInfo σ} (x : ChipCall) : Reached bus c₀ c → c.Counted x → c.Sound x →
    c.call bus x = .ok c' → Reached bus c₀ c'

theorem Kept.of_error (h : Kept c c') (error : UInt32) : Kept c { c' with error := error } :=
  h.trans (h.ready.kept rfl rfl rfl rfl rfl)

theorem Missed.of_error (h : Missed c c') (error : UInt32) : Missed c { c' with error := error } :=
  ⟨h.addresses, h.chipMode, h.rdStart, h.active, h.last⟩

theorem Reached.settled (h₀ : c₀.Ready) (h : Reached bus c₀ c) : Kept c₀ c ∨ Missed c₀ c := by
  induction h with
  | start => exact .inl (.refl h₀)
  | @call c c' x _ hcount hsound hcall ih =>
    by_cases hlook : c.LooksUp x
    · obtain ⟨hlast, hfound⟩ := hsound hlook
      have hkept := ih.resolve_right fun hmiss => hlast hmiss.last
      rcases (call_kept hkept.ready hcount hfound).result hcall with hstep | ⟨-, hstep⟩
      · exact .inl (hkept.trans hstep)
      · exact .inr (hkept.missed hstep)
    · have hactive : c.abort = false := ih.elim (·.ready.active) (·.active)
      obtain ⟨error, hidle⟩ := @call_idle _ _ bus _ hactive hlook
      rw [hidle] at hcall
      cases hcall
      exact ih.imp (·.of_error error) (·.of_error error)

/-- A call stays in the image exactly when its lookups do not follow one that failed. -/
theorem avoids_iff_sound (h : Kept c₀ c ∨ Missed c₀ c) {x : ChipCall} (hcount : c.Counted x) :
    Avoids (· = Fault.image) (fun _ => True) (c.call bus x) ↔ c.Sound x := by
  have hactive : c.abort = false := h.elim (·.ready.active) (·.active)
  constructor
  · intro havoids hlook
    have hlast : c.lastRegIndex ≠ -1 := by
      intro hlast
      rw [call_missed hactive hlast hlook] at havoids
      exact havoids rfl
    have hkept := h.resolve_right fun hmiss => hlast hmiss.last
    refine ⟨hlast, ?_⟩
    by_contra hlost
    cases x with
    | setField f value =>
      rw [call, error_bind (setField_lost hkept.ready hlook hlost)] at havoids
      exact havoids rfl
    | _ => exact hlost trivial
  · intro hsound
    by_cases hlook : c.LooksUp x
    · obtain ⟨hlast, hfound⟩ := hsound hlook
      have hkept := h.resolve_right fun hmiss => hlast hmiss.last
      exact (call_kept hkept.ready hcount hfound).mono fun _ _ => trivial
    · obtain ⟨error, hidle⟩ := @call_idle _ _ bus _ hactive hlook
      exact .of_eq hidle trivial

/-- The index of an address, or `-1`. -/
def IsIndex (addresses : List UInt16) (a : UInt16) (i : ℤ) : Prop :=
  (∃ k : ℕ, i = k ∧ addresses[k]? = some a) ∨ a ∉ addresses ∧ i = -1

theorem isIndex_search (a : UInt16) : IsIndex c.addresses a (dichotomySearch c.regMapImage a) := by
  refine (dichotomySearch_cases c.regMapImage a).imp ?_ id
  rintro ⟨k, r, hr, haddr, hsearch⟩
  exact ⟨k, hsearch, by rw [addresses, List.getElem?_map, hr, Option.map_some, haddr]⟩

/-- Calls that only look up registers of the map. -/
theorem calls_kept (xs : List ChipCall) (h : Kept c₀ c)
    (hxs : ∀ x ∈ xs, c₀.Counted x ∧ ∀ a ∈ c₀.addressesOf x, a ∈ c₀.addresses) :
    Avoids (· = Fault.image) (fun c' => Kept c₀ c') (xs.foldlM (call bus) c) := by
  refine avoids_foldlM h fun c x hc hx => ?_
  obtain ⟨hcount, hfound⟩ := hxs x hx
  have hof : c.addressesOf x = c₀.addressesOf x := by
    cases x <;> simp only [addressesOf, hc.chipMode, hc.rdStart]
  have hmem : ∀ a ∈ c.addressesOf x, a ∈ c.addresses := fun a ha =>
    hc.addresses.symm ▸ hfound a (hof ▸ ha)
  have hcount' : c.Counted x := by
    cases x with
    | setRegisters a n =>
      rw [Counted, hc.nbRegs_eq]
      exact hcount
    | _ => trivial
  have hwrites : c.WritesFound x := by
    cases x with
    | setField f value =>
      rw [addressesOf] at hmem
      refine ⟨hmem _ (by split <;> exact List.mem_cons_self), fun hmode _ => hmem _ ?_⟩
      rw [if_pos hmode]
      exact List.mem_cons_of_mem _ List.mem_cons_self
    | _ => trivial
  refine (call_kept hc.ready hcount' hwrites).mono fun c' hc' => ?_
  rcases hc' with hkept | ⟨⟨a, ha, habsent⟩, -⟩
  · exact hc.trans hkept
  · exact absurd (hmem a ha) habsent

/-- In a run in which no lookup follows one that failed, every lookup finds what a search finds and
    every access is in the image; a call that breaks this goes outside. So it is in particular where only
    registers of the map are looked up. -/
theorem lookups_sound (bus : I2cHost σ) (c₀ : ChipInfo σ) (h₀ : c₀.Ready) :
    (∀ c, Reached bus c₀ c →
      (c.lastRegIndex ≠ -1 → ∀ a, ∃ c' i, c.getRegisterIndex a = .ok (c', i) ∧ IsIndex c₀.addresses a i) ∧
      (c.lastRegIndex ≠ -1 → ∀ f, ∃ c' i, c.getFieldIndex f = .ok (c', i) ∧
        IsIndex c₀.addresses (regAddress f) i) ∧
      ∀ x, c.Counted x →
        (Avoids (· = Fault.image) (fun _ => True) (c.call bus x) ↔ c.Sound x)) ∧
    ∀ xs : List ChipCall,
      (∀ x ∈ xs, c₀.Counted x ∧ ∀ a ∈ c₀.addressesOf x, a ∈ c₀.addresses) →
      Avoids (· = Fault.image) (fun c => c.Ready ∧ c.addresses = c₀.addresses)
        (xs.foldlM (call bus) c₀) := by
  constructor
  · intro c hreached
    have hsettled := hreached.settled h₀
    refine ⟨fun hlast a => ?_, fun hlast f => ?_, fun x hcount => avoids_iff_sound hsettled hcount⟩
    · have hkept := hsettled.resolve_right fun hmiss => hlast hmiss.last
      exact ⟨_, _, getRegisterIndex_eq hkept.ready a, hkept.addresses ▸ isIndex_search a⟩
    · have hkept := hsettled.resolve_right fun hmiss => hlast hmiss.last
      exact ⟨_, _, getFieldIndex_eq hkept.ready f, hkept.addresses ▸ isIndex_search _⟩
  · intro xs hxs
    exact (calls_kept xs (.refl h₀) hxs).mono fun c hc => ⟨hc.ready, hc.addresses⟩

/-- A chip of two registers. -/
def twoRegisters : ChipInfo Unit where
  i2cHost := ()
  regMapImage := [⟨0x100, 0, .size8, 0⟩, ⟨0x110, 0, .size8, 0⟩]
  error := noError
  chipMode := .i2c2stbus
  wrStart := 2
  rdStart := 0x100
  rdSize := 2
  lastRegIndex := 0
  abort := false
  modified := 0

/-- A bus on which every transfer is acknowledged. -/
def quietBus : I2cHost Unit where
  write _ _ := (true, ())
  read _ _ := (some fun _ => 0, ())

theorem twoRegisters_sound :
    Avoids (· = Fault.image) (fun c => c.Ready ∧ c.addresses = twoRegisters.addresses)
      ([ChipCall.setOneRegister 0x110 5, .getField 0x010000F0, .setField 0x0110010F 1].foldlM
        (call quietBus) twoRegisters) :=
  (lookups_sound quietBus twoRegisters ⟨by decide, by decide, by decide, rfl⟩).2 _ (by
    intro x hx
    simp only [List.mem_cons, List.not_mem_nil, or_false] at hx
    rcases hx with rfl | rfl | rfl
    all_goals
      refine ⟨trivial, fun a ha => ?_⟩
      rw [List.mem_singleton.mp ha]
      decide)

/-- A register that is in the map is looked up behind one that is not. -/
theorem twoRegisters_missed :
    [ChipCall.getOneRegister 0x200, .getOneRegister 0x100].foldlM (call quietBus) twoRegisters =
      .error .image := by
  rfl

end ChipInfo

end Stid135

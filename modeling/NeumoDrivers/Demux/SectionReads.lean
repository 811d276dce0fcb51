import NeumoDrivers.Demux.EmptyPackets

/-! What is read of the buffer of a section feed (`neumo-dvb-demux.c`).

    The loop that dumps the buffer looks for the length of a section at `secbuf`, computes the CRC
    over the section and gives it to the callback. `secbufp` and `tsfeedp` are kept beside `secbuf`,
    and the payloads, pointers and lengths they are moved by come from the packets. A unit starts
    where the pointer of a packet says so, with a discontinuity, and when filtering starts. -/

namespace Demux
open Loop

variable {use : SectionUse} {feed t t' : SectionFeed} {buf : Packet UInt8} {src got : List UInt8}
variable {limit : ℕ}

/-! ### The passes of the loop -/

variable (use) in
/-- A pass of the loop that dumps the buffer, in the second part of
    `neumo_dvb_dmx_swfilter_section_copy_dump`, starts in the state `t`. -/
structure DumpPass (feed : SectionFeed) (src : List UInt8) (limit : ℕ) (t : SectionFeed) :
    Prop where
  some : src.length ≠ 0
  limit_eq : limit = feed.tsfeedp + src.length
  fits : ¬limit > DMX_MAX_SECFEED_SIZE
  visits : Visits (dumpBody use limit) (feed.loaded src) t

/-- The same for `neumo_dvb_dmx_swfilter_section_copy_dump`. -/
inductive CopyDumpPass (use : SectionUse) (feed : SectionFeed) (src : List UInt8) (limit : ℕ)
    (t : SectionFeed) : Prop where
  | whole : feed.tsfeedp < DMX_MAX_SECFEED_SIZE →
      feed.tsfeedp + src.length ≤ DMX_MAX_SECFEED_SIZE → DumpPass use feed src limit t →
      CopyDumpPass use feed src limit t
  | part : feed.tsfeedp < DMX_MAX_SECFEED_SIZE → feed.tsfeedp + src.length > DMX_MAX_SECFEED_SIZE →
      DumpPass use (feed.setBufFlags DMX_BUFFER_FLAG_DISCONTINUITY_DETECTED)
        (src.take (DMX_MAX_SECFEED_SIZE - feed.tsfeedp)) limit t →
      CopyDumpPass use feed src limit t

/-- What `neumo_dvb_dmx_swfilter_section_packet` takes for a discontinuity. -/
def Discontinuous (cc : UInt8) (buf : Packet UInt8) : Prop :=
  ¬((cc + 1) &&& 0x0f = buf 3 &&& 0x0f) ∨ buf 3 &&& 0x20 ≠ 0 ∧ buf 4 > 0 ∧ buf 5 &&& 0x80 ≠ 0

instance (cc : UInt8) (buf : Packet UInt8) : Decidable (Discontinuous cc buf) :=
  inferInstanceAs (Decidable (_ ∨ _))

/-- The bytes received since the last unit start, as far as there is room for them, and the
    continuity counter. -/
structure Received where
  cc : UInt8
  got : List UInt8

/-- The bytes that a packet adds to, behind those of it that belong there. -/
def Received.extended (rec : Received) (buf : Packet UInt8) : List UInt8 :=
  ((if Discontinuous rec.cc buf then [] else rec.got) ++ front buf).take DMX_MAX_SECFEED_SIZE

def Received.next (rec : Received) (buf : Packet UInt8) : Received :=
  if payload buf = 0 then rec
  else ⟨buf 3 &&& 0x0f, if startsAnew buf then behind buf else rec.extended buf⟩

/-- A pass while a packet is taken, with the bytes received of the unit. -/
inductive PacketPass (use : SectionUse) (rec : Received) (feed : SectionFeed)
    (buf : Packet UInt8) : ℕ → SectionFeed → List UInt8 → Prop where
  | ends {limit : ℕ} {t : SectionFeed} : payload buf ≠ 0 →
      CopyDumpPass use (checkContinuity feed buf) (front buf) limit t →
      PacketPass use rec feed buf limit t (rec.extended buf)
  | starts {limit : ℕ} {t : SectionFeed} : startsAnew buf = true →
      CopyDumpPass use (startSections
        (swfilterSectionCopyDump use (checkContinuity feed buf) (front buf))) (behind buf) limit t →
      PacketPass use rec feed buf limit t (behind buf)

variable (use) in
/-- A pass in a run over packets, from the start of filtering. -/
def RunPass (feed : SectionFeed) (packets : List (Packet UInt8)) (limit : ℕ) (t : SectionFeed)
    (got : List UInt8) : Prop :=
  use.isFiltering = true ∧ ∃ before buf after, packets = before ++ buf :: after ∧
    PacketPass use (before.foldl Received.next ⟨feed.cc, []⟩)
      (sectionPackets use (startSectionFiltering feed) before) buf limit t got

/-! ### What is expected -/

/-- The places in the buffer. -/
structure Bounded (feed : SectionFeed) : Prop where
  secbufp : feed.secbufp ≤ feed.tsfeedp
  secbuf : feed.secbuf ≤ feed.tsfeedp
  tsfeedp : feed.tsfeedp ≤ DMX_MAX_SECFEED_SIZE

variable (use) in
/-- What a pass reads has been received. -/
structure ReadsReceived (limit : ℕ) (t : SectionFeed) (got : List UInt8) : Prop where
  length : t.secbufp + 2 < limit → t.secbuf + 2 < got.length ∧
    sectionLength t.at = sectionLength fun i => got.getD (t.secbuf + i) 0
  crc : ∀ t', dumpBody use limit t = .again t' → t.secbuf + sectionLength t.at ≤ got.length ∧
    ({ t with seclen := sectionLength t.at } : SectionFeed).section =
      (got.drop t.secbuf).take (sectionLength t.at)
  delivered : ∀ t', dumpBody use limit t = .again t' → ∃ n, t'.delivered = t.delivered ++
    List.replicate n ((got.drop t.secbuf).take (sectionLength t.at))

/-! ### The loop -/

theorem dumpBody_again (hptr : t.secbuf = t.secbufp) (h : dumpBody use limit t = .again t') :
    More t.secbufBase limit t.secbufp ∧ ∃ flags seclen, t' = t.past use flags seclen := by
  by_cases hmore : More t.secbufBase limit t.secbufp
  · obtain ⟨flags, seclen, heq⟩ := dumpBody_more use hptr hmore
    rw [heq, Next.again.injEq] at h
    exact ⟨hmore, flags, seclen, h.symm⟩
  · rw [dumpBody_last use hptr hmore] at h
    cases h

theorem dumpBody_exit (hptr : t.secbuf = t.secbufp) (h : dumpBody use limit t = .exit t') :
    t' = t := by
  by_cases hmore : More t.secbufBase limit t.secbufp
  · obtain ⟨flags, seclen, heq⟩ := dumpBody_more use hptr hmore
    rw [heq] at h
    cases h
  · rw [dumpBody_last use hptr hmore, Next.exit.injEq] at h
    exact h.symm

/-- The states in which the passes start: nothing has been moved but the two places, which are
    the same and within the bytes received. -/
structure Passing (feed t : SectionFeed) : Prop where
  kept : Alike feed t
  secbuf : t.secbuf = t.secbufp
  le : t.secbufp ≤ feed.tsfeedp

theorem Passing.again (h : Passing feed t) (hlimit : limit = feed.tsfeedp)
    (hbody : dumpBody use limit t = .again t') : Passing feed t' := by
  obtain ⟨hmore, flags, seclen, rfl⟩ := dumpBody_again h.secbuf hbody
  have hroom := hmore.2.2
  refine ⟨h.kept.trans ⟨rfl, rfl, rfl, rfl⟩, rfl, ?_⟩
  rw [SectionFeed.past, ← hlimit, Nat.add_comm]
  exact hroom

theorem visits_passing (hlimit : limit = feed.tsfeedp) (hptr : feed.secbuf = feed.secbufp)
    (hle : feed.secbufp ≤ feed.tsfeedp) (h : Visits (dumpBody use limit) feed t) :
    Passing feed t :=
  h.invariant ⟨.refl _, hptr, hle⟩ fun _ _ ha hbody => ha.again hlimit hbody

/-- The bytes received are in the buffer. -/
structure Has (feed : SectionFeed) (got : List UInt8) : Prop where
  bounded : Bounded feed
  length : feed.tsfeedp = got.length
  content : ∀ i < got.length, feed.secbufBase i = got.getD i 0

theorem Has.grown (h : Has feed got) : ∀ i < (got ++ src).length,
    feed.grown src i = (got ++ src).getD i 0 := by
  intro i hi
  rw [List.length_append] at hi
  rw [SectionFeed.grown, copyInto, h.length]
  by_cases hold : i < got.length
  · rw [if_neg (by omega), h.content i hold, List.getD_append _ _ _ _ hold]
  · rw [if_pos (by omega), List.getD_append_right _ _ _ _ (by omega)]

theorem Has.flagged (h : Has feed got) (flag : UInt32) : Has (feed.setBufFlags flag) got :=
  ⟨⟨h.bounded.secbufp, h.bounded.secbuf, h.bounded.tsfeedp⟩, h.length, h.content⟩

theorem DumpPass.passing (h : DumpPass use feed src limit t) (hhas : Has feed got) :
    Passing (feed.loaded src) t ∧ limit = (got ++ src).length := by
  have hlimit : limit = (feed.loaded src).tsfeedp := h.limit_eq
  refine ⟨visits_passing hlimit rfl ?_ h.visits, ?_⟩
  · exact Nat.le_trans hhas.bounded.secbufp (Nat.le_add_right ..)
  · rw [h.limit_eq, hhas.length, List.length_append]

theorem given_replicate (base : ℕ → UInt8) (i : ℕ) :
    ∃ n, given use base i = List.replicate n (sectionAt base i) := by
  have hpassed : ∀ fs, ∃ n, passed use base i fs = List.replicate n (sectionAt base i) := by
    intro fs
    induction fs with
    | nil => exact ⟨0, rfl⟩
    | cons f fs ih =>
      obtain ⟨n, hn⟩ := ih
      rw [passed]
      split_ifs with hf hcb
      · exact ⟨1, rfl⟩
      · exact ⟨n + 1, by rw [hn]; rfl⟩
      · exact ⟨n, hn⟩
  rw [given]
  split_ifs
  · exact hpassed _
  · exact ⟨0, rfl⟩

/-- A section that lies in the bytes received is a part of them. -/
theorem map_range_eq {f : ℕ → UInt8} {i n : ℕ} (hf : ∀ j < got.length, f j = got.getD j 0)
    (hn : i + n ≤ got.length) : ((List.range n).map fun j => f (i + j)) = (got.drop i).take n := by
  refine List.ext_getElem (by simp; omega) fun j hj _ => ?_
  rw [List.length_map, List.length_range] at hj
  rw [List.getElem_map, List.getElem_range, List.getElem_take, List.getElem_drop,
    hf _ (by omega), List.getD_eq_getElem]

theorem Passing.reads (h : Passing (feed.loaded src) t) (hhas : Has feed got) :
    ReadsReceived use (got ++ src).length t (got ++ src) := by
  have hbase : ∀ i < (got ++ src).length, t.secbufBase i = (got ++ src).getD i 0 := by
    intro i hi
    rw [h.kept.secbufBase]
    exact hhas.grown i hi
  have hlen : lengthAt t.secbufBase t.secbufp = sectionLength t.at := by
    rw [← h.secbuf]
    rfl
  refine ⟨fun hroom => ?_, fun t' hbody => ?_, fun t' hbody => ?_⟩
  · rw [← h.secbuf] at hroom
    exact ⟨hroom, sectionLength_congr (hbase _ (by omega)) (hbase _ hroom)⟩
  · obtain ⟨⟨-, -, hfits⟩, -⟩ := dumpBody_again h.secbuf hbody
    rw [hlen, ← h.secbuf, Nat.add_comm] at hfits
    exact ⟨hfits, map_range_eq hbase hfits⟩
  · obtain ⟨⟨-, -, hfits⟩, flags, seclen, rfl⟩ := dumpBody_again h.secbuf hbody
    rw [hlen, ← h.secbuf, Nat.add_comm] at hfits
    obtain ⟨n, hn⟩ := @given_replicate use t.secbufBase t.secbufp
    have hsection : sectionAt t.secbufBase t.secbufp =
        ((got ++ src).drop t.secbuf).take (sectionLength t.at) := by
      rw [sectionAt, hlen, ← h.secbuf]
      exact map_range_eq hbase hfits
    rw [SectionFeed.past, hn, hsection]
    cases t.pusiSeen with
    | true => exact ⟨n, rfl⟩
    | false => exact ⟨0, rfl⟩

theorem DumpPass.reads (h : DumpPass use feed src limit t) (hhas : Has feed got) :
    ReadsReceived use limit t (got ++ src) := by
  obtain ⟨hpassing, rfl⟩ := h.passing hhas
  exact hpassing.reads hhas

theorem CopyDumpPass.reads (h : CopyDumpPass use feed src limit t) (hhas : Has feed got) :
    ReadsReceived use limit t ((got ++ src).take DMX_MAX_SECFEED_SIZE) := by
  cases h with
  | whole _ hfits hpass =>
    rw [hhas.length, ← List.length_append] at hfits
    rw [List.take_of_length_le hfits]
    exact hpass.reads hhas
  | part hroom _ hpass =>
    have hold : got.length ≤ DMX_MAX_SECFEED_SIZE := hhas.length ▸ Nat.le_of_lt hroom
    rw [List.take_append, List.take_of_length_le hold, ← hhas.length]
    exact hpass.reads (hhas.flagged _)

/-! ### The places -/

/-- The loop leaves one of the states its passes start in. -/
theorem copyAndDump_passing (use : SectionUse) (hsrc : src ≠ []) (hle : feed.secbufp ≤ feed.tsfeedp)
    (hfits : feed.tsfeedp + src.length ≤ DMX_MAX_SECFEED_SIZE) :
    Passing (feed.loaded src) (copyAndDump use feed src) := by
  obtain ⟨r, hr⟩ := dump_ends use (feed.tsfeedp + src.length) (feed.loaded src)
  obtain ⟨t, hvisits, hexit⟩ := Ends.visits ⟨_, hr⟩
  have hpassing : Passing (feed.loaded src) t :=
    visits_passing rfl rfl (Nat.le_trans hle (Nat.le_add_right ..)) hvisits
  rw [copyAndDump_eq hsrc hfits hr, dumpBody_exit hpassing.secbuf hexit]
  exact hpassing

theorem copyAndDump_has (use : SectionUse) (hhas : Has feed got)
    (hfits : feed.tsfeedp + src.length ≤ DMX_MAX_SECFEED_SIZE) :
    Has (copyAndDump use feed src) (got ++ src) ∧ (copyAndDump use feed src).cc = feed.cc := by
  by_cases hsrc : src = []
  · rw [hsrc, List.append_nil]
    exact ⟨hhas, rfl⟩
  · obtain ⟨hkept, hptr, hle⟩ := copyAndDump_passing use hsrc hhas.bounded.secbufp hfits
    have hts : (copyAndDump use feed src).tsfeedp = feed.tsfeedp + src.length := hkept.tsfeedp
    have hle' : (copyAndDump use feed src).secbufp ≤ feed.tsfeedp + src.length := hle
    refine ⟨⟨⟨?_, ?_, ?_⟩, ?_, ?_⟩, hkept.cc⟩
    · rw [hts]
      exact hle'
    · rw [hts, hptr]
      exact hle'
    · rw [hts]
      exact hfits
    · rw [hts, hhas.length, List.length_append]
    · intro i hi
      rw [hkept.secbufBase]
      exact hhas.grown i hi

theorem copyDump_has (use : SectionUse) (hhas : Has feed got) (src : List UInt8) :
    Has (swfilterSectionCopyDump use feed src) ((got ++ src).take DMX_MAX_SECFEED_SIZE) ∧
      (swfilterSectionCopyDump use feed src).cc = feed.cc := by
  have hroom := hhas.bounded.tsfeedp
  have hlen := hhas.length
  rw [swfilterSectionCopyDump]
  split_ifs with hfull hpart
  · rw [List.take_append_of_le_length (by omega), List.take_of_length_le (by omega)]
    exact ⟨hhas, rfl⟩
  · rw [List.take_append, List.take_of_length_le (by omega), ← hlen]
    refine copyAndDump_has use (hhas.flagged _) ?_
    rw [List.length_take, SectionFeed.setBufFlags]
    dsimp only
    omega
  · rw [List.take_of_length_le (by rw [List.length_append]; omega)]
    exact copyAndDump_has use hhas (by omega)

theorem sectionNew_has (feed : SectionFeed) : Has (swfilterSectionNew feed) [] :=
  ⟨⟨Nat.le_refl 0, Nat.le_refl 0, Nat.zero_le _⟩, rfl, fun _ hi => absurd hi (Nat.not_lt_zero _)⟩

theorem startSections_has (feed : SectionFeed) : Has (startSections feed) [] := sectionNew_has _

theorem checkContinuity_has (hhas : Has feed got) (buf : Packet UInt8) :
    Has (checkContinuity feed buf) (if Discontinuous feed.cc buf then [] else got) := by
  rw [checkContinuity]
  by_cases hbreak : Discontinuous feed.cc buf
  · have hbreak' := hbreak
    rw [Discontinuous] at hbreak'
    simp only [if_pos hbreak]
    rw [if_pos hbreak']
    obtain ⟨⟨hp, hbuf, hts⟩, hlen, hcontent⟩ := sectionNew_has
      { feed.setBufFlags (if buf 3 &&& 0x20 ≠ 0 ∧ buf 4 > 0 ∧ buf 5 &&& 0x80 ≠ 0 then
        DMX_BUFFER_FLAG_DISCONTINUITY_INDICATOR else DMX_BUFFER_FLAG_DISCONTINUITY_DETECTED) with
        pusiSeen := false }
    exact ⟨⟨hp, hbuf, hts⟩, hlen, hcontent⟩
  · have hbreak' := hbreak
    rw [Discontinuous] at hbreak'
    simp only [if_neg hbreak]
    rw [if_neg hbreak']
    exact ⟨⟨hhas.bounded.secbufp, hhas.bounded.secbuf, hhas.bounded.tsfeedp⟩, hhas.length,
      hhas.content⟩

theorem Has.withFlags (h : Has feed got) (flags : UInt32) :
    Has { feed with bufferFlags := flags } got :=
  ⟨⟨h.bounded.secbufp, h.bounded.secbuf, h.bounded.tsfeedp⟩, h.length, h.content⟩

/-- What is received of a unit is in the buffer. -/
structure Gathers (feed : SectionFeed) (rec : Received) : Prop where
  has : Has feed rec.got
  cc : feed.cc = rec.cc

variable {rec : Received}

theorem Gathers.extended (use : SectionUse) (h : Gathers feed rec) (buf : Packet UInt8) :
    Has (swfilterSectionCopyDump use (checkContinuity feed buf) (front buf)) (rec.extended buf) ∧
      (swfilterSectionCopyDump use (checkContinuity feed buf) (front buf)).cc = buf 3 &&& 0x0f := by
  have hchecked := checkContinuity_has h.has buf
  rw [h.cc] at hchecked
  exact copyDump_has use hchecked (front buf)

theorem behind_length (buf : Packet UInt8) : (behind buf).length ≤ 183 := by
  have hcount : payload buf ≤ 184 := by
    rw [payload]
    split_ifs <;> omega
  rw [behind, Packet.length_read]
  omega

theorem Gathers.packet (hon : use.isFiltering = true) (h : Gathers feed rec) (buf : Packet UInt8) :
    Gathers (swfilterPacketType use feed buf) (rec.next buf) := by
  obtain ⟨hextended, hcc⟩ := h.extended use buf
  rw [packetType_eq hon, Received.next]
  by_cases hcount : payload buf = 0
  · rw [packet_none hcount, if_pos hcount]
    refine ⟨⟨⟨Nat.zero_le _, h.has.bounded.secbuf, h.has.bounded.tsfeedp⟩, h.has.length,
      h.has.content⟩, h.cc⟩
  · rw [if_neg hcount]
    cases hstarts : startsAnew buf with
    | true =>
      rw [packet_anew hstarts]
      obtain ⟨hbehind, hcc'⟩ := copyDump_has use (startSections_has
        (swfilterSectionCopyDump use (checkContinuity feed buf) (front buf))) (behind buf)
      have hshort : (behind buf).length ≤ DMX_MAX_SECFEED_SIZE :=
        Nat.le_trans (behind_length buf) (by decide)
      rw [List.nil_append, List.take_of_length_le hshort] at hbehind
      exact ⟨hbehind, hcc'.trans ((sectionNew_fields _).2.2.trans hcc)⟩
    | false =>
      obtain ⟨flags, heq⟩ := packet_behind use feed hcount hstarts
      rw [heq]
      exact ⟨hextended.withFlags flags, hcc⟩

theorem Gathers.reads (h : Gathers feed rec) (hpass : PacketPass use rec feed buf limit t got) :
    ReadsReceived use limit t got := by
  cases hpass with
  | ends _ hpass =>
    have hchecked := checkContinuity_has h.has buf
    rw [h.cc] at hchecked
    exact hpass.reads hchecked
  | starts hstarts hpass =>
    have hreads := hpass.reads (startSections_has _)
    have hshort : (behind buf).length ≤ DMX_MAX_SECFEED_SIZE :=
      Nat.le_trans (behind_length buf) (by decide)
    rw [List.nil_append, List.take_of_length_le hshort] at hreads
    exact hreads

theorem Gathers.packets (hon : use.isFiltering = true) (packets : List (Packet UInt8)) :
    ∀ {feed : SectionFeed} {rec : Received}, Gathers feed rec →
      Gathers (sectionPackets use feed packets) (packets.foldl Received.next rec) := by
  induction packets with
  | nil =>
    intro feed rec h
    exact h
  | cons buf packets ih =>
    intro feed rec h
    exact ih (h.packet hon buf)

theorem started_gathers (feed : SectionFeed) :
    Gathers (startSectionFiltering feed) ⟨feed.cc, []⟩ :=
  ⟨⟨⟨Nat.le_refl 0, Nat.le_refl 0, Nat.zero_le _⟩, rfl, fun _ hi => absurd hi (Nat.not_lt_zero _)⟩,
    rfl⟩

/-- After any packets the places are in order, and all that the passes of the loop read, check and
    deliver was received since the last unit start. -/
theorem section_reads (use : SectionUse) (feed : SectionFeed) (packets : List (Packet UInt8)) :
    Bounded (sectionPackets use (startSectionFiltering feed) packets) ∧
      ∀ limit t got, RunPass use feed packets limit t got → ReadsReceived use limit t got := by
  refine ⟨?_, ?_⟩
  · cases hon : use.isFiltering with
    | false =>
      rw [sectionPackets_off hon]
      exact (started_gathers feed).has.bounded
    | true => exact ((started_gathers feed).packets hon packets).has.bounded
  · rintro limit t got ⟨hon, before, buf, after, -, hpass⟩
    exact ((started_gathers feed).packets hon before).reads hpass

/-! ### A full buffer -/

/-- Bytes 0, of which three are a section. The bytes that are left are less. -/
structure Zeros (feed : SectionFeed) (n : ℕ) : Prop where
  base : ∀ i, feed.secbufBase i = 0
  tsfeedp : feed.tsfeedp = n
  secbufp : feed.secbufp ≤ n ∧ 3 ∣ feed.secbufp
  secbuf : feed.secbuf = feed.secbufp
  rest : n < feed.secbufp + 3

theorem lengthAt_zeros {base : ℕ → UInt8} (h : ∀ i, base i = 0) (i : ℕ) : lengthAt base i = 3 := by
  rw [lengthAt, sectionLength, h, h]
  rfl

theorem Zeros.grown {n : ℕ} (h : Zeros feed n) (hsrc : ∀ b ∈ src, b = 0) (i : ℕ) :
    feed.grown src i = 0 := by
  rw [SectionFeed.grown, copyInto]
  split
  · rename_i hi
    rw [List.getD_eq_getElem _ _ (by omega)]
    exact hsrc _ (List.getElem_mem _)
  · exact h.base i

/-- Every pass but the last takes three bytes. -/
theorem Zeros.copyAndDump {n : ℕ} (use : SectionUse) (h : Zeros feed n) (hsrc : ∀ b ∈ src, b = 0)
    (hne : src ≠ []) (hfits : n + src.length ≤ DMX_MAX_SECFEED_SIZE) :
    Zeros (copyAndDump use feed src) (n + src.length) := by
  have hbase := h.grown hsrc
  rw [← h.tsfeedp] at hfits ⊢
  obtain ⟨r, hr⟩ := dump_ends use (feed.tsfeedp + src.length) (feed.loaded src)
  obtain ⟨t, hvisits, hexit⟩ := Ends.visits ⟨_, hr⟩
  have hle : feed.secbufp ≤ feed.tsfeedp := h.tsfeedp ▸ h.secbufp.1
  have hthree : Passing (feed.loaded src) t ∧ 3 ∣ t.secbufp := by
    refine @Visits.invariant _ _ _ _ _ (fun t => Passing (feed.loaded src) t ∧ 3 ∣ t.secbufp)
      ⟨⟨.refl _, rfl, Nat.le_trans hle (Nat.le_add_right ..)⟩, h.secbufp.2⟩ ?_ hvisits
    rintro a b ⟨hpassing, hdvd⟩ hbody
    refine ⟨hpassing.again rfl hbody, ?_⟩
    obtain ⟨-, flags, seclen, rfl⟩ := dumpBody_again hpassing.secbuf hbody
    have hzero : ∀ i, a.secbufBase i = 0 := fun i => by
      rw [hpassing.kept.secbufBase]
      exact hbase i
    rw [SectionFeed.past, lengthAt_zeros hzero]
    exact Nat.dvd_add hdvd (Nat.dvd_refl 3)
  obtain ⟨hpassing, hdvd⟩ := hthree
  have hzero : ∀ i, t.secbufBase i = 0 := fun i => by
    rw [hpassing.kept.secbufBase]
    exact hbase i
  have hlast : ¬More t.secbufBase (feed.tsfeedp + src.length) t.secbufp := by
    intro hmore
    obtain ⟨flags, seclen, heq⟩ := dumpBody_more use hpassing.secbuf hmore
    rw [heq] at hexit
    cases hexit
  rw [copyAndDump_eq hne hfits hr, dumpBody_exit hpassing.secbuf hexit]
  refine ⟨hzero, hpassing.kept.tsfeedp, ⟨hpassing.le, hdvd⟩, hpassing.secbuf, ?_⟩
  by_contra hmore
  refine hlast ⟨by omega, ?_, ?_⟩
  · rw [lengthAt_zeros hzero]
    decide
  · rw [lengthAt_zeros hzero]
    omega

theorem Zeros.copyDump {n : ℕ} (use : SectionUse) (h : Zeros feed n) (hsrc : ∀ b ∈ src, b = 0)
    (hne : src ≠ []) (hroom : n < DMX_MAX_SECFEED_SIZE) :
    Zeros (swfilterSectionCopyDump use feed src) (min (n + src.length) DMX_MAX_SECFEED_SIZE) := by
  have hts := h.tsfeedp
  rw [swfilterSectionCopyDump, if_neg (by omega)]
  split
  · have hflagged : Zeros (feed.setBufFlags DMX_BUFFER_FLAG_DISCONTINUITY_DETECTED) n :=
      ⟨h.base, h.tsfeedp, h.secbufp, h.secbuf, h.rest⟩
    have hlen : (src.take (DMX_MAX_SECFEED_SIZE - n)).length = DMX_MAX_SECFEED_SIZE - n := by
      rw [List.length_take]
      omega
    have hfull : min (n + src.length) DMX_MAX_SECFEED_SIZE =
        n + (src.take (DMX_MAX_SECFEED_SIZE - n)).length := by omega
    rw [hfull, hts]
    refine hflagged.copyAndDump use (fun b hb => hsrc b (List.mem_of_mem_take hb)) ?_ (by omega)
    exact List.ne_nil_of_length_pos (by omega)
  · rw [Nat.min_eq_left (by omega)]
    exact h.copyAndDump use hsrc hne (by omega)

/-- The packet with the number `k` and bytes 0; a unit starts in the first one. -/
def zeroPacket (k : ℕ) : Packet UInt8 :=
  Packet.ofList [0x47, if k = 0 then 0x40 else 0, 0x11, 0x10 ||| UInt8.ofNat ((k + 1) % 16)]

def zeroPackets (n : ℕ) : List (Packet UInt8) := (List.range n).map zeroPacket

theorem zeroPacket_read (k : ℕ) {p m : ℤ} (hp : 4 ≤ p) :
    ∀ b ∈ (zeroPacket k).read p m, b = 0 := by
  intro b hb
  obtain ⟨i, -, rfl⟩ := List.mem_map.mp hb
  rw [zeroPacket, Packet.ofList, List.getD_eq_default]
  · rfl
  · simp only [List.length_cons, List.length_nil]
    omega

theorem zeroPacket_payload : ∀ k < 24, payload (zeroPacket k) = 184 := by decide

theorem zeroPacket_contiguous : ∀ k < 23,
    ¬Discontinuous (zeroPacket k 3 &&& 0x0f) (zeroPacket (k + 1)) := by decide

theorem zeroPacket_middle : ∀ k < 23, startsAnew (zeroPacket (k + 1)) = false ∧
    ¬zeroPacket (k + 1) 1 &&& 0x40 ≠ 0 := by decide

theorem checkContinuity_zeros {n : ℕ} (h : Zeros feed n) (hcc : ¬Discontinuous feed.cc buf) :
    Zeros (checkContinuity feed buf) n := by
  rw [Discontinuous] at hcc
  rw [checkContinuity]
  dsimp only
  rw [if_neg hcc]
  exact ⟨h.base, h.tsfeedp, h.secbufp, h.secbuf, h.rest⟩

theorem startSections_base (feed : SectionFeed) :
    (startSections feed).secbufBase = feed.secbufBase := by
  rw [startSections, swfilterSectionNew]
  dsimp only
  split_ifs <;> rfl

theorem startSections_zeros {n : ℕ} (h : Zeros feed n) : Zeros (startSections feed) 0 :=
  ⟨fun i => by rw [startSections_base, h.base], rfl, ⟨Nat.le_refl 0, Nat.dvd_zero 3⟩, rfl,
    show 0 < 3 by decide⟩

theorem zeroPacket_front : ∀ k < 23, front (zeroPacket (k + 1)) =
    (zeroPacket (k + 1)).read 4 184 := by
  intro k hk
  obtain ⟨hstarts, hpusi⟩ := zeroPacket_middle k hk
  rw [front, hstarts, zeroPacket_payload _ (by omega)]
  simp only [Bool.false_eq_true, if_false]
  rw [if_neg hpusi]
  rfl

theorem zeroPackets_succ (n : ℕ) :
    sectionPackets passAll (startSectionFiltering idleFeed) (zeroPackets (n + 1)) =
      swfilterPacketType passAll (sectionPackets passAll (startSectionFiltering idleFeed)
        (zeroPackets n)) (zeroPacket n) := by
  have hlast : zeroPackets (n + 1) = zeroPackets n ++ [zeroPacket n] := by
    rw [zeroPackets, List.range_succ, List.map_append]
    rfl
  rw [hlast, sectionPackets, List.foldl_append]
  rfl

theorem zeroPackets_cc (n : ℕ) (hn : n < 24) :
    (sectionPackets passAll (startSectionFiltering idleFeed) (zeroPackets (n + 1))).cc =
      zeroPacket n 3 &&& 0x0f := by
  have hon : passAll.isFiltering = true := rfl
  have hgathers := ((started_gathers idleFeed).packets hon (zeroPackets n)).packet hon
    (zeroPacket n)
  have hcount : payload (zeroPacket n) ≠ 0 := by
    rw [zeroPacket_payload _ hn]
    decide
  rw [zeroPackets_succ, hgathers.cc, Received.next, if_neg hcount]

/-- After that many packets. -/
theorem zeroPackets_zeros (n : ℕ) (hn : n < 24) :
    Zeros (sectionPackets passAll (startSectionFiltering idleFeed) (zeroPackets (n + 1)))
      (min (184 * n + 183) DMX_MAX_SECFEED_SIZE) := by
  have hsize : DMX_MAX_SECFEED_SIZE = 4284 := rfl
  induction n with
  | zero =>
    have hstarts : startsAnew (zeroPacket 0) = true := by decide
    have hfront : front (zeroPacket 0) = [] := by
      rw [front, hstarts]
      rfl
    have hstart : Zeros (startSectionFiltering idleFeed) 0 :=
      ⟨fun _ => rfl, rfl, ⟨Nat.le_refl 0, Nat.dvd_zero 3⟩, rfl, show 0 < 3 by decide⟩
    have hcc : ¬Discontinuous (startSectionFiltering idleFeed).cc (zeroPacket 0) := by decide
    have hchecked := checkContinuity_zeros hstart hcc
    have hidle : (checkContinuity (startSectionFiltering idleFeed) (zeroPacket 0)).idle [] = true :=
      rfl
    have hfirst : sectionPackets passAll (startSectionFiltering idleFeed) (zeroPackets 0) =
        startSectionFiltering idleFeed := rfl
    have hbehind : (behind (zeroPacket 0)).length = 183 := by
      rw [behind, Packet.length_read]
      decide
    rw [zeroPackets_succ, hfirst, packetType_eq rfl, packet_anew hstarts, hfront,
      copyDump_idle hidle, Option.getD_some]
    have hne : behind (zeroPacket 0) ≠ [] := List.ne_nil_of_length_pos (by omega)
    have hbytes : ∀ b ∈ behind (zeroPacket 0), b = 0 := zeroPacket_read 0 (by decide)
    have hzeros := (startSections_zeros hchecked).copyDump passAll hbytes hne (by decide)
    have hsum : min (0 + 183) DMX_MAX_SECFEED_SIZE = min (184 * 0 + 183) DMX_MAX_SECFEED_SIZE := by
      omega
    rw [hbehind, hsum] at hzeros
    exact hzeros
  | succ n ih =>
    have hn' : n < 23 := by omega
    have hcount : payload (zeroPacket (n + 1)) ≠ 0 := by
      rw [zeroPacket_payload _ hn]
      decide
    obtain ⟨flags, heq⟩ := packet_behind passAll
      (sectionPackets passAll (startSectionFiltering idleFeed) (zeroPackets (n + 1))) hcount
      (zeroPacket_middle n hn').1
    have hchecked := checkContinuity_zeros (ih (by omega))
      (zeroPackets_cc n (by omega) ▸ zeroPacket_contiguous n hn')
    have hlen : ((zeroPacket (n + 1)).read 4 184).length = 184 := Packet.length_read ..
    have hne : (zeroPacket (n + 1)).read 4 184 ≠ [] := List.ne_nil_of_length_pos (by omega)
    have hzeros := hchecked.copyDump passAll (zeroPacket_read (n + 1) (Int.le_refl 4)) hne
      (by omega)
    rw [hlen, ← zeroPacket_front n hn'] at hzeros
    have hsum : min (min (184 * n + 183) DMX_MAX_SECFEED_SIZE + 184) DMX_MAX_SECFEED_SIZE =
        min (184 * (n + 1) + 183) DMX_MAX_SECFEED_SIZE := by omega
    rw [hsum] at hzeros
    rw [zeroPackets_succ, packetType_eq rfl, heq]
    exact ⟨hzeros.base, hzeros.tsfeedp, hzeros.secbufp, hzeros.secbuf, hzeros.rest⟩

/-- Sections that fill the buffer leave `secbuf` right behind its last byte. -/
theorem secbuf_behind : ¬∀ (use : SectionUse) (feed : SectionFeed) (packets : List (Packet UInt8)),
    (sectionPackets use (startSectionFiltering feed) packets).secbuf < DMX_MAX_SECFEED_SIZE := by
  intro hall
  have hlt := hall passAll idleFeed (zeroPackets 24)
  obtain ⟨-, -, ⟨hle, hdvd⟩, hptr, hrest⟩ := zeroPackets_zeros 23 (by decide)
  rw [hptr] at hlt
  have hfull : min (184 * 23 + 183) DMX_MAX_SECFEED_SIZE = 4284 := by decide
  have hsize : DMX_MAX_SECFEED_SIZE = 4284 := rfl
  omega

end Demux

/-
# Samples and AAC

An AAC access unit is one packet, and comes back.  A buffer of samples is cut into
packets of as many bytes as the mtu says, with the time of its first sample each, and
the depayloader takes every new time for the beginning of another buffer: what comes
back is what has the time of the last packet.
-/

import Zstreamer.Rtp.RoundTrip

namespace Zstreamer.Rtp

open Foundation Payloader List

/-! ## What the depayloader gathers -/

/-- The samples that are left of packets, from a time and some samples on: another time forgets
what was there before. -/
def gather : BitVec 32 → List Byte → List Request → List Byte
  | _, samples, [] => samples
  | time, samples, r :: requests =>
      gather r.timestamp ((if r.timestamp = time then samples else []) ++ r.payload) requests

/-- Packets of one time are gathered as they are. -/
theorem gather_of_same {time : BitVec 32} {samples : List Byte} {requests : List Request}
    (hsame : ∀ r ∈ requests, r.timestamp = time) :
    gather time samples requests = samples ++ requests.flatMap Request.payload := by
  induction requests generalizing samples with
  | nil => exact (append_nil _).symm
  | cons r requests ih =>
      have hr := hsame r mem_cons_self
      rw [gather, if_pos hr, hr, ih fun r' hr' => hsame r' (mem_cons_of_mem r hr'),
        append_assoc]
      rfl

theorem length_gather_le (time : BitVec 32) (samples : List Byte) (requests : List Request) :
    (gather time samples requests).length ≤
      samples.length + (requests.flatMap Request.payload).length := by
  induction requests generalizing time samples with
  | nil => exact Nat.le_add_right _ _
  | cons r requests ih =>
      refine (ih _ _).trans ?_
      rw [length_append, flatMap_cons, length_append]
      split
      · omega
      · rw [length_nil]
        omega

/-- Another time forgets something. -/
theorem length_gather_lt {time : BitVec 32} {samples : List Byte} {requests : List Request}
    (hsamples : samples ≠ []) (hother : ∃ r ∈ requests, r.timestamp ≠ time) :
    (gather time samples requests).length <
      samples.length + (requests.flatMap Request.payload).length := by
  induction requests generalizing time samples with
  | nil =>
      obtain ⟨r, hr, -⟩ := hother
      cases hr
  | cons r requests ih =>
      have hpos := length_pos_iff.mpr hsamples
      rw [gather, flatMap_cons, length_append]
      by_cases hsame : r.timestamp = time
      · have hlater : ∃ r' ∈ requests, r'.timestamp ≠ r.timestamp := by
          obtain ⟨r', hr', hne⟩ := hother
          rcases mem_cons.mp hr' with rfl | hr'
          · exact absurd hsame hne
          · exact ⟨r', hr', hsame ▸ hne⟩
        rw [if_pos hsame]
        refine (ih (append_ne_nil_of_left_ne_nil hsamples _) hlater).trans_le ?_
        rw [length_append]
        omega
      · rw [if_neg hsame]
        refine (length_gather_le _ _ _).trans_lt ?_
        rw [nil_append]
        omega

/-- **What is gathered is everything exactly when there is one time.** -/
theorem gather_eq_iff {r : Request} {requests : List Request} (hpayload : r.payload ≠ []) :
    gather r.timestamp [] (r :: requests) = (r :: requests).flatMap Request.payload ↔
      ∀ r' ∈ r :: requests, r'.timestamp = r.timestamp := by
  constructor
  · intro hall
    by_contra hother
    push Not at hother
    obtain ⟨r', hr', hne⟩ := hother
    have hlater : r' ∈ requests := by
      rcases mem_cons.mp hr' with rfl | hlater
      · exact absurd rfl hne
      · exact hlater
    have hless := length_gather_lt hpayload ⟨r', hlater, hne⟩
    rw [gather, if_pos rfl, nil_append, flatMap_cons] at hall
    rw [hall, length_append] at hless
    exact lt_irrefl _ hless
  · exact gather_of_same

namespace Depayloader

/-! ## Packets of samples -/

/-- The depayloader is set up for the packets of a payloader, and the next one has this number. -/
structure Awaits (start : Payloader) (i : ℕ) (d : Depayloader) : Prop extends SetUp start d where
  seq : d.haveSeq = true → d.nextSeq = start.seq + BitVec.ofNat 16 i

/-- The depayloader at the payload of the packet. -/
def reached (start : Payloader) (i : ℕ) (d : Depayloader) (p : Packet) : Depayloader :=
  { d.counted p with
    haveSeq := true
    nextSeq := start.seq + BitVec.ofNat 16 i + 1 }

variable {start : Payloader} {i : ℕ} {d : Depayloader} {p : Packet} {r : Request}

theorem Awaits.pushPacket (h : Awaits start i d) (hbrings : Brings start i p r) :
    d.pushPacket p = (reached start i d p).depay
      { payload := r.header ++ r.payload
        payloadType := start.payloadType &&& 0x7f
        marker := r.marker
        seq := start.seq + BitVec.ofNat 16 i
        timestamp := r.timestamp
        ssrc := start.ssrc } := by
  obtain ⟨-, hparse⟩ := hbrings
  rw [pushPacket_eq hparse (h.accepts rfl rfl), follow_same]
  · rfl
  · exact fun hand => hand.2 (h.seq hand.1).symm

theorem Awaits.of_link (h : Awaits start i d) {d' : Depayloader}
    (hlink : d'.link = (reached start i d p).link) : Awaits start (i + 1) d' := by
  simp only [link, Prod.mk.injEq] at hlink
  obtain ⟨hcodec, htype, hfilter, hssrc, -, hnext⟩ := hlink
  refine ⟨⟨hcodec.trans h.codec, htype.trans h.payloadType,
    fun hf => hssrc.trans (h.filter (hfilter.symm.trans hf))⟩, fun _ => hnext.trans ?_⟩
  rw [BitVec.ofNat_add, ← BitVec.add_assoc]
  rfl

/-- The data of an access unit of a time that begins or goes on. -/
theorem beginAu_spec (d : Depayloader) (ts : BitVec 32) :
    (d.beginAu ts).auActive = true ∧ (d.beginAu ts).auTs = ts ∧
      (d.beginAu ts).auData = if d.auActive = true ∧ d.auTs = ts then d.auData else [] := by
  rw [beginAu]
  split
  case isTrue hsame => exact ⟨hsame.1, hsame.2, rfl⟩
  case isFalse => exact ⟨rfl, rfl, rfl⟩

/-- One packet of samples: they are added to the ones of their time, and handed over with the
marker. -/
theorem Awaits.pushPcm (h : Awaits start i d) (hcodec : start.codec = .pcm)
    (hbrings : Brings start i p r) (hheader : r.header = []) (hpayload : r.payload ≠ [])
    {samples : List Byte} (hsamples : samples =
      (if d.auActive = true ∧ d.auTs = r.timestamp then d.auData else []) ++ r.payload) :
    Awaits start (i + 1) (d.pushPacket p).depayloader ∧
      if r.marker then (∃ out, (d.pushPacket p).out = [out] ∧ out.data = samples) ∧
        (d.pushPacket p).depayloader.auActive = false
      else (d.pushPacket p).out = [] ∧ (d.pushPacket p).depayloader.auActive = true ∧
        (d.pushPacket p).depayloader.auTs = r.timestamp ∧
        (d.pushPacket p).depayloader.auData = samples := by
  obtain ⟨hactive, hts, hdata⟩ := (reached start i d p).beginAu_spec r.timestamp
  have hbegun : (((reached start i d p).beginAu r.timestamp).appendAu r.payload).auData =
      samples := by
    rw [appendAu, hsamples, hdata]
    rfl
  have hne : samples ≠ [] := hsamples ▸ append_ne_nil_of_right_ne_nil _ hpayload
  have hpcm : (reached start i d p).codec = .pcm := h.codec.trans hcodec
  have hstep := h.pushPacket hbrings
  rw [depay, hpcm] at hstep
  dsimp only at hstep
  rw [depayPcm, hheader, nil_append, if_neg hpayload] at hstep
  dsimp only at hstep
  cases hmarker : r.marker with
  | true =>
      rw [if_pos hmarker] at hstep
      rw [hstep, if_pos rfl]
      refine ⟨h.of_link (p := p) ?_, ?_⟩
      · rw [link_pushBytes]
        exact link_beginAu _ _
      · rw [pushBytes, if_neg fun hnil => hne (hbegun.symm.trans hnil)]
        exact ⟨⟨_, rfl, hbegun⟩, rfl⟩
  | false =>
      rw [if_neg (by rw [hmarker]; exact Bool.false_ne_true)] at hstep
      rw [hstep, if_neg Bool.false_ne_true]
      exact ⟨h.of_link (p := p) (link_beginAu _ _), rfl, hactive, hts, hbegun⟩

/-- The packets of a buffer give one buffer, of what is gathered. -/
theorem pushAll_pcm {packets : List Packet} {requests : List Request}
    (hcodec : start.codec = .pcm) (hlast : Ending Request.marker requests)
    (hbrings : BringsAll start i packets requests) (hawaits : Awaits start i d)
    (hpayload : ∀ r ∈ requests, r.header = [] ∧ r.payload ≠ []) {time : BitVec 32}
    {samples : List Byte}
    (hgathers : d.auActive = true ∧ d.auTs = time ∧ d.auData = samples ∨
      d.auActive = false ∧ samples = [] ∧ ∀ r ∈ requests.head?, r.timestamp = time) :
    ∃ out, (pushAll packets d).2 = [out] ∧ out.data = gather time samples requests ∧
      Awaits start (i + packets.length) (pushAll packets d).1 ∧
      (pushAll packets d).1.auActive = false := by
  have hbegun : ∀ r ∈ requests.head?,
      (if r.timestamp = time then samples else []) ++ r.payload =
        (if d.auActive = true ∧ d.auTs = r.timestamp then d.auData else []) ++ r.payload := by
    intro r hr
    rcases hgathers with ⟨hactive, hts, hdata⟩ | ⟨hactive, hnil, htime⟩
    · rw [hactive, hts, hdata]
      simp only [true_and, eq_comm]
    · rw [hactive, hnil, ite_self, if_neg fun hand => Bool.false_ne_true hand.1]
  induction hlast generalizing d i packets time samples with
  | @last r hmarker =>
      cases hbrings with
      | @cons _ p _ packets _ hone hrest =>
          cases hrest
          obtain ⟨hheader, hne⟩ := hpayload r mem_cons_self
          have hstep := hawaits.pushPcm hcodec hone hheader hne (hbegun r rfl)
          rw [hmarker, if_pos rfl] at hstep
          obtain ⟨hnext, ⟨out, hout, hdata⟩, hidle⟩ := hstep
          exact ⟨out, by rw [pushAll, hout]; rfl, hdata, hnext, hidle⟩
  | @more r requests hmarker hlater ih =>
      cases hbrings with
      | @cons _ p _ packets _ hone hrest =>
          obtain ⟨hheader, hne⟩ := hpayload r mem_cons_self
          have hstep := hawaits.pushPcm hcodec hone hheader hne (hbegun r rfl)
          rw [hmarker, if_neg Bool.false_ne_true] at hstep
          obtain ⟨hnext, hnone, hactive, hts, hdata⟩ := hstep
          obtain ⟨out, hout, hgather, hend, hidle⟩ := ih hrest hnext
            (fun r' hr' => hpayload r' (mem_cons_of_mem r hr'))
            (.inl ⟨hactive, hts, hdata⟩) fun r' hr' => by
              rw [hactive, hts, hdata]
              simp only [true_and, eq_comm]
          refine ⟨out, by rw [pushAll, hnone]; exact hout, hgather, ?_, hidle⟩
          rw [length_cons, Nat.add_comm _ 1, ← Nat.add_assoc]
          exact hend

/-- What is gathered is everything exactly when there is one time. -/
theorem pushAll_pcm_iff {packets : List Packet} {requests : List Request}
    (hcodec : start.codec = .pcm) (hlast : Ending Request.marker requests)
    (hbrings : BringsAll start i packets requests) (hawaits : Awaits start i d)
    (hpayload : ∀ r ∈ requests, r.header = [] ∧ r.payload ≠ []) (hidle : d.auActive = false)
    {time : BitVec 32} (htime : ∀ r ∈ requests.head?, r.timestamp = time) :
    ∃ out, (pushAll packets d).2 = [out] ∧
      (out.data = requests.flatMap Request.payload ↔ ∀ r ∈ requests, r.timestamp = time) ∧
      Awaits start (i + packets.length) (pushAll packets d).1 ∧
      (pushAll packets d).1.auActive = false := by
  obtain ⟨out, hout, hdata, hnext, hdone⟩ := pushAll_pcm hcodec hlast hbrings hawaits hpayload
    (.inr ⟨hidle, rfl, htime⟩)
  refine ⟨out, hout, ?_, hnext, hdone⟩
  cases requests with
  | nil => exact absurd rfl hlast.ne_nil
  | cons r requests =>
      rw [hdata, ← htime r rfl]
      exact gather_eq_iff (hpayload r mem_cons_self).2

/-! ## AAC packets -/

/-- The size of an access unit is read back from its header. -/
theorem size_auHeader {size : ℕ} (hsize : size ≤ 0x1fff) :
    (BitVec.ofNat 16 (size <<< 3) >>> 3).toNat = size := by
  rw [BitVec.toNat_ushiftRight, BitVec.toNat_ofNat, Nat.shiftLeft_eq, Nat.shiftRight_eq_div_pow]
  omega

/-- The only access unit of a packet. -/
theorem depayAacUnits_one (s : Depayloader) {rtp : View} {data : List Byte}
    (hpayload : rtp.payload = auHeader data.length ++ data) (hdata : data ≠ [])
    (hsize : data.length ≤ 0x1fff) :
    (depayAacUnits rtp 1 0 4 s).depayloader.link = s.link ∧
      (depayAacUnits rtp 1 0 4 s).depayloader.auActive = s.auActive ∧
      ∃ out, (depayAacUnits rtp 1 0 4 s).out = [out] ∧ out.data = data := by
  have hpos := length_pos_iff.mpr hdata
  have hread : (be16 (rtp.payload.getD (2 + 0 * 2) 0) (rtp.payload.getD (2 + 0 * 2 + 1) 0) >>> 3).toNat =
      data.length := by
    rw [hpayload]
    exact (congrArg (fun header : BitVec 16 => (header >>> 3).toNat) (be16_bytes _)).trans (size_auHeader hsize)
  have htake : (rtp.payload.drop 4).take data.length = data := by
    rw [hpayload]
    exact take_length
  have hlength : rtp.payload.length = data.length + 4 := by
    rw [hpayload, length_append, Nat.add_comm]
    rfl
  rw [depayAacUnits]
  dsimp only
  rw [hread, if_neg (by omega), htake, depayAacUnits, pushBytes, if_neg hdata]
  exact ⟨rfl, rfl, _, rfl, rfl⟩

/-- A packet with an access unit gives it back. -/
theorem Awaits.pushAac (h : Awaits start i d) (hcodec : start.codec = .aac)
    (hbrings : Brings start i p r) (hheader : r.header = auHeader r.payload.length)
    (hpayload : r.payload ≠ []) (hsize : r.payload.length ≤ 0x1fff) :
    Awaits start (i + 1) (d.pushPacket p).depayloader ∧
      (d.pushPacket p).depayloader.auActive = d.auActive ∧
      ∃ out, (d.pushPacket p).out = [out] ∧ out.data = r.payload := by
  have hpos := length_pos_iff.mpr hpayload
  have haac : (reached start i d p).codec = .aac := h.codec.trans hcodec
  have hbits : (be16 ((auHeader r.payload.length ++ r.payload).getD 0 0)
      ((auHeader r.payload.length ++ r.payload).getD 1 0)).toNat = 16 :=
    (by decide : (be16 0 16).toNat = 16)
  have hlength : (auHeader r.payload.length ++ r.payload).length = r.payload.length + 4 := by
    rw [length_append, Nat.add_comm]
    rfl
  have hstep := h.pushPacket hbrings
  rw [depay, haac] at hstep
  dsimp only at hstep
  rw [depayAac, hheader] at hstep
  dsimp only at hstep
  rw [hbits, if_neg (by omega), if_neg (by omega)] at hstep
  obtain ⟨hlink, hactive, hout⟩ := @depayAacUnits_one (reached start i d p)
    ⟨auHeader r.payload.length ++ r.payload, start.payloadType &&& 0x7f, r.marker,
      start.seq + BitVec.ofNat 16 i, r.timestamp, start.ssrc⟩ _ rfl hpayload hsize
  rw [hstep]
  exact ⟨h.of_link hlink, hactive, hout⟩

end Depayloader

end Zstreamer.Rtp

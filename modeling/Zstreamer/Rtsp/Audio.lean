/-
# Access units of audio on their way to a client

`aac_packetize` of `rtsp_server.c` copies an access unit into a packet of its own, which has a
fixed size, and nothing on the way there says how long the unit may be.  What is copied without
overflow comes back from the depayloader.

The size of the buffer becomes an `int` before the copy, and the `int` a `size_t` in it.
-/

import Zstreamer.Rtsp.Delivery
import Zstreamer.Rtp.Audio

namespace Zstreamer.Rtsp

open Foundation Rtp

/-- So many bytes of a packet are written from an offset on. -/
structure PacketWrite where
  offset : ℕ
  length : ℕ
  deriving DecidableEq, Repr

/-- All of them are bytes of the packet. -/
def PacketWrite.Inside (w : PacketWrite) : Prop := w.offset + w.length ≤ rtpMtu

instance (w : PacketWrite) : Decidable w.Inside := inferInstanceAs (Decidable (_ ≤ _))

/-- `(int)buf->memory.size`. -/
def aacLen (aac : List Byte) : ℤ := (BitVec.ofNat 32 aac.length).toInt

/-- What `aac_packetize` writes to the packet: the header, the AU header section byte by byte, and
the access unit. -/
def aacWrites (aac : List Byte) : List PacketWrite :=
  [⟨0, 12⟩, ⟨12, 1⟩, ⟨13, 1⟩, ⟨14, 1⟩, ⟨15, 1⟩, ⟨16, (BitVec.ofInt 64 (aacLen aac)).toNat⟩]

/-- What a packet asks for that holds so many bytes of an access unit. -/
def aacRequest (aac : List Byte) (timestamp : BitVec 32) : Rtp.Request where
  header := Payloader.auHeader (aacLen aac).toNat
  payload := aac.take (aacLen aac).toNat
  timestamp := timestamp
  marker := true

namespace Stream

/-- `aac_packetize`; nothing can be said when it writes behind its packet. -/
def aacPacketize (st : Stream) (aac : List Byte) : Option (Stream × List Byte) :=
  if ∀ w ∈ aacWrites aac, w.Inside then some (st.send (aacRequest aac st.timestamp)) else none

/-- The body of the loop over the clients for a buffer of audio. -/
def deliverAudio (st : Stream) (buf : Rtp.Buffer) : Option Sent :=
  let st := st.stamp buf.pts
  if st.codec = some .aac then
    (st.aacPacketize buf.data).map fun out => ⟨out.1, [], [out.2]⟩
  else some ⟨st, [], []⟩

end Stream

/-! ## The room in a packet -/

/-- **All writes are inside the packet** exactly when the size is that of a small access unit, as an
`int`. -/
theorem inside_aacWrites_iff (aac : List Byte) :
    (∀ w ∈ aacWrites aac, w.Inside) ↔ 0 ≤ aacLen aac ∧ aacLen aac ≤ 1384 := by
  have hmtu : rtpMtu = 1400 := rfl
  have hrange : -2 ^ 31 ≤ aacLen aac ∧ aacLen aac < 2 ^ 31 :=
    ⟨BitVec.le_toInt _, BitVec.toInt_lt⟩
  have hcopied : ((BitVec.ofInt 64 (aacLen aac)).toNat : ℤ) = aacLen aac % 2 ^ 64 := by
    rw [BitVec.toNat_ofInt]
    exact Int.toNat_of_nonneg (Int.emod_nonneg _ (by decide))
  simp only [aacWrites, List.forall_mem_cons, PacketWrite.Inside, hmtu]
  constructor
  · rintro ⟨-, -, -, -, -, hcopy, -⟩
    omega
  · rintro ⟨hlow, hhigh⟩
    exact ⟨by decide, by decide, by decide, by decide, by decide, by omega, nofun⟩

/-- A size below the limit of an `int` is what it is. -/
theorem aacLen_eq {aac : List Byte} (h : aac.length < 2 ^ 31) : aacLen aac = aac.length := by
  rw [aacLen, BitVec.toInt_eq_toNat_of_lt, BitVec.toNat_ofNat, Nat.mod_eq_of_lt (by omega)]
  rw [BitVec.toNat_ofNat, Nat.mod_eq_of_lt (by omega)]
  omega

/-! ## What the depayloader makes of the packet -/

/-- A depayloader for the packets of a stream, in whatever state. -/
structure ForStream (st : Stream) (d : Depayloader) : Prop where
  codec : d.codec = .aac
  payloadType : d.payloadType = st.payloadType &&& 0x7f
  filter : d.filterSsrc = true → d.expectedSsrc = st.ssrc

/-- The packet of one access unit in the depayloader: the unit, if it has any bytes. -/
theorem depayAac_one (d : Depayloader) {rtp : View} {data : List Byte}
    (hpayload : rtp.payload = Payloader.auHeader data.length ++ data)
    (hsize : data.length ≤ 0x1fff) :
    (d.depayAac rtp).out.map Delivery.data = if data = [] then [] else [data] := by
  have hbits : (be16 (rtp.payload.getD 0 0) (rtp.payload.getD 1 0)).toNat = 16 := by
    rw [hpayload]
    exact (by decide : (be16 0 16).toNat = 16)
  have hlength : rtp.payload.length = data.length + 4 := by
    rw [hpayload, List.length_append, Nat.add_comm]
    rfl
  rw [Depayloader.depayAac]
  dsimp only
  rw [hbits, if_neg (by omega), if_neg (by omega)]
  by_cases hdata : data = []
  · subst hdata
    have hnone : (be16 (rtp.payload.getD (2 + 0 * 2) 0) (rtp.payload.getD (2 + 0 * 2 + 1) 0) >>>
        3).toNat = 0 := by
      rw [hpayload]
      decide
    rw [if_pos rfl]
    show ((Depayloader.depayAacUnits rtp 1 0 4 d).out).map Delivery.data = []
    rw [Depayloader.depayAacUnits]
    dsimp only
    rw [hnone, if_pos (.inl rfl)]
    rfl
  · obtain ⟨-, -, out, hout, hback⟩ := Depayloader.depayAacUnits_one d hpayload hdata hsize
    rw [if_neg hdata]
    show ((Depayloader.depayAacUnits rtp 1 0 4 d).out).map Delivery.data = [data]
    rw [hout, List.map_singleton, hback]

/-- **What a packet brings back**: the bytes that were copied. -/
theorem ForStream.push_send {st : Stream} {d : Depayloader} (h : ForStream st d) (pts : BitVec 64)
    {r : Rtp.Request} {data : List Byte} (hheader : r.header = Payloader.auHeader data.length)
    (hpayload : r.payload = data) (hsize : data.length ≤ 0x1fff) :
    (d.push ⟨(st.send r).2, pts, false⟩).out.map Delivery.data =
      if data = [] then [] else [data] := by
  have hparse := @parseRtp_bytes ⟨r.marker, st.payloadType, st.seq, st.timestamp, st.ssrc⟩
    (r.header ++ r.payload) (by
      rw [hheader, hpayload, List.length_append]
      show 4 + data.length ≤ 65523
      omega)
  rw [Depayloader.push, if_neg Bool.false_ne_true]
  dsimp only [Stream.send]
  rw [hparse]
  dsimp only
  rw [if_neg, Depayloader.depay]
  · have hcodec : ∀ s : Depayloader, ∀ seq, (s.follow seq).codec = s.codec := fun s seq => by
      rw [Depayloader.follow]
      dsimp only
      split <;> rfl
    rw [hcodec, h.codec]
    exact depayAac_one _ (congrArg₂ (· ++ ·) hheader hpayload) hsize
  · refine not_or.mpr ⟨not_not.mpr h.payloadType.symm, fun hand => ?_⟩
    exact hand.2 (h.filter hand.1).symm

/-! ## Which access units are safe -/

/-- An access unit is delivered in its packet, and the depayloader gives it back. -/
structure AudioRight (st : Stream) (buf : Rtp.Buffer) : Prop where
  inside : ∀ w ∈ aacWrites buf.data, w.Inside
  comesBack : ∀ out packet, st.deliverAudio buf = some out → packet ∈ out.packets →
    ∀ d : Depayloader, ForStream st d → ∀ pts,
      (d.push ⟨packet, pts, false⟩).out.map Delivery.data = [buf.data]

/-- Stamping leaves alone what a depayloader goes by. -/
theorem ForStream.stamp {st : Stream} {d : Depayloader} (h : ForStream st d) (pts : BitVec 64) :
    ForStream (st.stamp pts) d := by
  have htype : (st.stamp pts).payloadType = st.payloadType := by
    rw [Stream.stamp]
    split <;> rfl
  have hssrc : (st.stamp pts).ssrc = st.ssrc := by
    rw [Stream.stamp]
    split <;> rfl
  exact ⟨h.codec, h.payloadType.trans (congrArg (· &&& 0x7f) htype.symm),
    fun hfilter => (h.filter hfilter).trans hssrc.symm⟩

/-- The packet of a delivery. -/
theorem packet_deliverAudio {st : Stream} {buf : Rtp.Buffer} {out : Sent} {packet : List Byte}
    (h : st.deliverAudio buf = some out) (hpacket : packet ∈ out.packets) :
    packet = ((st.stamp buf.pts).send (aacRequest buf.data (st.stamp buf.pts).timestamp)).2 := by
  rw [Stream.deliverAudio] at h
  split at h
  case isTrue =>
    obtain ⟨sent, hsent, rfl⟩ := Option.map_eq_some_iff.mp h
    rw [Stream.aacPacketize] at hsent
    split at hsent
    case isTrue =>
      cases hsent
      exact List.mem_singleton.mp hpacket
    case isFalse => cases hsent
  case isFalse =>
    cases h
    cases hpacket

/-- **An access unit is delivered safely and comes back exactly when it has at most 1384 bytes.** -/
theorem audioRight_iff {st : Stream} (hcodec : st.codec = some .aac) (buf : Rtp.Buffer)
    (hdata : buf.data ≠ []) : AudioRight st buf ↔ buf.data.length ≤ 1384 := by
  constructor
  · intro h
    obtain ⟨hlow, hhigh⟩ := (inside_aacWrites_iff buf.data).mp h.inside
    by_contra hlong
    -- the size is that of a small access unit only because it has been cut to an `int`
    have hless : (aacLen buf.data).toNat < buf.data.length := by omega
    have hlen : (buf.data.take (aacLen buf.data).toNat).length = (aacLen buf.data).toNat := by
      rw [List.length_take]
      omega
    have hstamped : (st.stamp buf.pts).codec = some .aac := by
      rw [Stream.stamp]
      split <;> exact hcodec
    obtain ⟨sent, hsend⟩ : ∃ sent, sent =
        (st.stamp buf.pts).send (aacRequest buf.data (st.stamp buf.pts).timestamp) := ⟨_, rfl⟩
    have hsent : st.deliverAudio buf = some ⟨sent.1, [], [sent.2]⟩ := by
      rw [Stream.deliverAudio, if_pos hstamped, Stream.aacPacketize, if_pos h.inside, hsend]
      rfl
    obtain ⟨d, hd⟩ : ∃ d : Depayloader, ForStream st d :=
      ⟨{ codec := .aac, payloadType := st.payloadType &&& 0x7f, clockRate := 1, channels := 2
         sampleSize := 2, expectedSsrc := 0, filterSsrc := false, haveSeq := false, nextSeq := 0
         auData := [], auTs := 0, auPts := 0, auActive := false, h264DiscontinuityPending := false
         packets := 0, bytes := 0, outBuffers := 0, outBytes := 0, inPackets := 0, parseErrors := 0
         droppedPackets := 0 }, rfl, rfl, nofun⟩
    have hback := h.comesBack _ _ hsent List.mem_cons_self d hd 0
    have hpush := @ForStream.push_send _ _ (hd.stamp buf.pts) 0
      (aacRequest buf.data (st.stamp buf.pts).timestamp)
      (buf.data.take (aacLen buf.data).toNat)
      (by rw [hlen]; rfl) rfl (by omega)
    rw [← hsend] at hpush
    have heq := hpush.symm.trans hback
    split at heq
    case isTrue => cases heq
    case isFalse =>
      have hshort := congrArg List.length (List.singleton_inj.mp heq)
      omega
  · intro hsmall
    have hlen := @aacLen_eq buf.data (by omega)
    refine ⟨(inside_aacWrites_iff _).mpr (by omega), fun out packet hout hpacket d hd pts => ?_⟩
    have hall : (aacLen buf.data).toNat = buf.data.length := by omega
    rw [packet_deliverAudio hout hpacket, @ForStream.push_send _ _ (hd.stamp buf.pts) pts _ buf.data
      (by rw [aacRequest, hall]) (by rw [aacRequest, hall, List.take_length]) (by omega),
      if_neg hdata]

/-- An audio stream that has been set up. -/
def audioStream : Stream where
  ssrc := 7
  seq := 0
  timestamp := 1000
  baseRtpTs := 0
  basePts := 0
  clockRate := 48000
  payloadType := 97
  codec := some .aac
  packetCount := 0
  octetCount := 0
  spsPpsSent := false
  clientRtpAddr := ⟨0, 0⟩

theorem audioRight_small : AudioRight audioStream ⟨[1, 2, 3], 0, false⟩ :=
  (audioRight_iff rfl ⟨[1, 2, 3], 0, false⟩ (List.cons_ne_nil _ _)).mpr (by decide)

/-- One byte more than the packet has room for. -/
theorem not_audioRight_1385 : ¬ AudioRight audioStream ⟨List.replicate 1385 0, 0, false⟩ := by
  intro h
  obtain ⟨-, hhigh⟩ := (inside_aacWrites_iff _).mp h.inside
  rw [aacLen_eq (by rw [List.length_replicate]; decide), List.length_replicate] at hhigh
  exact absurd hhigh (by decide)

end Zstreamer.Rtsp

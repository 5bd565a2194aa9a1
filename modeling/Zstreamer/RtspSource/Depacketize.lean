/-
# Depacketizing in the RTSP source

`rtsp_source.c` turns RTP payloads into NAL units and AAC frames.  A NAL unit is pushed
behind a start code of four bytes, and the fragments of one are gathered in an array of
the client.

Every read of a payload is checked here, and every loop has so many turns at most: a
function gives nothing at all when a read leaves the payload or a loop does not end.  The
array of the client is never larger than it is, by its type.  Allocations succeed; the
clock is read once for a packet.
-/

import Zstreamer.Foundation.Cursor
import Zstreamer.Rtp.Payloader
import Zstreamer.Rtsp.Text

namespace Zstreamer.RtspSource

open Foundation Rtp

/-! ## Tracks and the client -/

/-- `type` of `track_info_t`. -/
inductive TrackType
  | none
  | video
  | audio
  deriving DecidableEq, Repr

/-- What the depacketizers and their callers use of `track_info_t`. -/
structure Track where
  type : TrackType
  payloadType : ℤ
  encoding : List Byte
  clockRate : ℤ
  hasSr : Bool
  lastNtpTime : BitVec 64
  lastRtpTime : BitVec 32
  deriving DecidableEq, Repr

/-- `MAX_FU_ACCUM`. -/
def maxFuAccum : ℕ := 150000

/-- `fu_accum`, up to `fu_accum_len`. -/
structure Accum where
  bytes : List Byte
  fits : bytes.length ≤ maxFuAccum
  deriving DecidableEq, Repr

namespace Accum

/-- Nothing. -/
def empty : Accum := ⟨[], Nat.zero_le _⟩

/-- The header of a NAL unit alone. -/
def single (header : Byte) : Accum := ⟨[header], (by decide : 1 ≤ maxFuAccum)⟩

/-- Bytes are added when there is room for all of them. -/
def copy (accum : Accum) (data : List Byte) : Accum :=
  if h : accum.bytes.length + data.length ≤ maxFuAccum then
    ⟨accum.bytes ++ data, List.length_append.trans_le h⟩
  else accum

theorem bytes_copy (accum : Accum) (data : List Byte) : (accum.copy data).bytes =
    if accum.bytes.length + data.length ≤ maxFuAccum then accum.bytes ++ data
    else accum.bytes := by
  rw [copy]
  split <;> rfl

end Accum

/-- What the depacketizers use of `rtsp_client_t`.  `fu_accum_ssrc` is an `int`, but its bits are
those of the SSRC. -/
structure Client where
  fuAccum : Accum
  fuAccumTs : BitVec 32
  fuAccumSsrc : BitVec 32
  basePts : BitVec 64
  baseRtpTsVideo : BitVec 32
  baseRtpTsAudio : BitVec 32
  deriving DecidableEq, Repr

/-- A client that has received nothing. -/
def Client.start : Client := ⟨.empty, 0, 0, 0, 0, 0⟩

/-- The pad that a buffer is pushed to. -/
inductive Pad
  | video
  | audio
  deriving DecidableEq, Repr

/-- A buffer that is pushed; `dts` is always `pts`. -/
structure Pushed where
  pad : Pad
  data : List Byte
  pts : BitVec 64
  deriving DecidableEq, Repr

/-! ## Times -/

/-- `ntp_to_unix_ns`. -/
def ntpToUnixNs (ntp : BitVec 64) : BitVec 64 :=
  let sec : BitVec 32 := (ntp >>> 32).setWidth 32
  let frac : BitVec 32 := ntp.setWidth 32
  let unixSec : BitVec 64 := if sec ≥ 2208988800 then (sec - 2208988800).setWidth 64 else 0
  let ns : BitVec 64 := (frac.setWidth 64 * 1000000000) >>> 32
  unixSec * 1000000000 + ns

/-- `rtp_ts_to_pts_track`; `now` is what `now_us` says. -/
def Client.rtpTsToPts (cl : Client) (tr : Track) (now : BitVec 64) (rtpTs : BitVec 32) :
    Client × BitVec 64 :=
  let clockRate : ℤ := if tr.clockRate > 0 then tr.clockRate else 90000
  let rate : BitVec 64 := BitVec.ofInt 64 clockRate
  if tr.hasSr then
    let delta := rtpTs - tr.lastRtpTime
    (cl, ntpToUnixNs tr.lastNtpTime + delta.setWidth 64 * 1000000000 / rate)
  else if cl.basePts = 0 then
    let cl := { cl with basePts := now * 1000 }
    if clockRate = 90000 then ({ cl with baseRtpTsVideo := rtpTs }, cl.basePts)
    else ({ cl with baseRtpTsAudio := rtpTs }, cl.basePts)
  else
    let baseRtp := if clockRate = 90000 then cl.baseRtpTsVideo else cl.baseRtpTsAudio
    let delta := rtpTs - baseRtp
    (cl, cl.basePts + delta.setWidth 64 * 1000000000 / rate)

/-! ## H.264 -/

/-- `push_h264_nal`; the marker is not used. -/
def pushH264Nal (data : List Byte) (pts : BitVec 64) : Pushed :=
  ⟨.video, startCode true ++ data, pts⟩

/-- A turn of the loop over a STAP-A packet.  A NAL unit may be empty. -/
def stapTurn (payload : List Byte) : ℕ → Option (Turn (List Byte)) :=
  sizedTurn (fun high low => (be16 high low).toNat) false payload

namespace Client

/-- The first fragment of a NAL unit begins to gather with the header of the unit. -/
def startFragment (cl : Client) (rtpTs ssrc : BitVec 32) (header : Byte) : Client :=
  { cl with fuAccum := .single header, fuAccumTs := rtpTs, fuAccumSsrc := ssrc }

/-- What a fragment has behind its headers is copied. -/
def copyFragment (cl : Client) (rtpTs ssrc : BitVec 32) (data : List Byte) : Client :=
  if cl.fuAccumSsrc = ssrc ∧ cl.fuAccumTs = rtpTs then
    { cl with fuAccum := cl.fuAccum.copy data }
  else cl

/-- The last fragment pushes what is gathered, if that is more than a header. -/
def endFragment (cl : Client) (tr : Track) (now : BitVec 64) : Client × List Pushed :=
  if cl.fuAccum.bytes.length > 1 then
    let (cl, pts) := cl.rtpTsToPts tr now cl.fuAccumTs
    ({ cl with fuAccum := .empty }, [pushH264Nal cl.fuAccum.bytes pts])
  else (cl, [])

/-- A FU-A packet: its two headers, and its data. -/
def processFragment (cl : Client) (tr : Track) (now : BitVec 64) (rtpTs ssrc : BitVec 32)
    (fuIndicator fuHeader : Byte) (data : List Byte) : Client × List Pushed :=
  let fuNalType := fuHeader &&& 0x1f
  let startBit := (fuHeader >>> 7) &&& 1
  let endBit := (fuHeader >>> 6) &&& 1
  let nri := (fuIndicator >>> 5) &&& 0x03
  let cl := if startBit ≠ 0 then cl.startFragment rtpTs ssrc ((nri <<< 5) ||| fuNalType) else cl
  let cl := cl.copyFragment rtpTs ssrc data
  if endBit ≠ 0 then cl.endFragment tr now else (cl, [])

/-- `process_h264_rtp`. -/
def processH264Rtp (cl : Client) (tr : Track) (now : BitVec 64) (payload : List Byte)
    (rtpTs ssrc : BitVec 32) : Option (Client × List Pushed) :=
  if payload.length < 1 then some (cl, [])
  else do
    let fuIndicator ← payload[0]?
    let nalType := fuIndicator &&& 0x1f
    let (cl, pts) := cl.rtpTsToPts tr now rtpTs
    if nalType ≤ 23 then some (cl, [pushH264Nal payload pts])
    else if nalType = 28 ∧ payload.length ≥ 2 then do
      let fuHeader ← payload[1]?
      let data ← span payload 2 (payload.length - 2)
      some (cl.processFragment tr now rtpTs ssrc fuIndicator fuHeader data)
    else if nalType = 24 then do
      let nals ← collect (stapTurn payload) payload.length 1
      some (cl, nals.map fun nal => pushH264Nal nal pts)
    else some (cl, [])

end Client

/-! ## AAC -/

/-- A turn of the loop over an AAC packet: what is behind an AU header is taken for its access
unit. -/
def aacTurn (payload : List Byte) : ℕ → Option (Turn (List Byte)) :=
  sizedTurn (fun high low => ((be16 high low >>> 3) &&& 0x1fff).toNat) true payload

/-- `process_aac_rtp`. -/
def Client.processAacRtp (cl : Client) (tr : Track) (now : BitVec 64) (payload : List Byte)
    (rtpTs : BitVec 32) (clockRate : ℤ) : Option (Client × Track × List Pushed) :=
  if payload.length < 4 then some (cl, tr, [])
  else do
    let high ← payload[0]?
    let low ← payload[1]?
    let auHeadersLenBits := (be16 high low).toNat
    let auHeadersLenBytes := (auHeadersLenBits + 7) / 8
    if auHeadersLenBytes + 2 > payload.length then some (cl, tr, [])
    else do
      let tr := if tr.clockRate ≤ 0 then { tr with clockRate := clockRate } else tr
      let (cl, pts) := cl.rtpTsToPts tr now rtpTs
      let frames ← collect (aacTurn payload) payload.length 2
      some (cl, tr, frames.map fun frame => ⟨.audio, frame, pts⟩)

end Zstreamer.RtspSource

/-! # RTP packets of the RTSP source

`process_udp_data` reads datagrams into buffers of 2048 bytes, looks past the RTP header,
and gives the payload to the depacketizer of the first track with the payload type of the
packet.  `process_interleaved_data` reads the header in the same way.

A source gets datagrams one after the other, each at a time of its clock.
-/

namespace Zstreamer.RtspSource

open Foundation Rtp

/-- The RTP header, and the payload behind it if there is one. -/
def parsePacket (data : List Byte) : Option View :=
  let p (i : ℕ) : Byte := data.getD i 0
  let afterCsrc := 12 + (p 0 &&& 0x0f).toNat * 4
  let extLen := (be16 (p (afterCsrc + 2)) (p (afterCsrc + 3))).toNat
  let payloadOffset :=
    if p 0 &&& 0x10 ≠ 0 ∧ afterCsrc + 4 ≤ data.length then afterCsrc + 4 + extLen * 4
    else afterCsrc
  if data.length < 12 ∨ payloadOffset ≥ data.length then none
  else some
    { payload := data.drop payloadOffset
      payloadType := p 1 &&& 0x7f
      marker := p 1 &&& 0x80 ≠ 0
      seq := be16 (p 2) (p 3)
      timestamp := be32 (p 4) (p 5) (p 6) (p 7)
      ssrc := be32 (p 8) (p 9) (p 10) (p 11) }

/-- What the source keeps while it streams. -/
structure Receiver where
  client : Client
  tracks : List Track
  deriving DecidableEq, Repr

namespace Receiver

/-- A payload goes to the depacketizer of a track. -/
def dispatch (r : Receiver) (trackIdx : ℕ) (now : BitVec 64) (rtp : View) :
    Option (Receiver × List Pushed) :=
  match r.tracks[trackIdx]? with
  | none => none
  | some tr =>
      if tr.type = .video ∧ Rtsp.SameCase tr.encoding (Rtsp.text "H264") then
        (r.client.processH264Rtp tr now rtp.payload rtp.timestamp rtp.ssrc).map fun one =>
          ({ r with client := one.1 }, one.2)
      else if tr.type = .audio ∧ Rtsp.SameCase tr.encoding (Rtsp.text "MPEG4-GENERIC") then
        (r.client.processAacRtp tr now rtp.payload rtp.timestamp tr.clockRate).map fun one =>
          ({ client := one.1, tracks := r.tracks.set trackIdx one.2.1 }, one.2.2)
      else some (r, [])

/-- `sizeof(rtp_bufs[k])`. -/
def rtpBufSize : ℕ := 2048

/-- The body of the loop over the datagrams in `process_udp_data`. -/
def processUdp (r : Receiver) (now : BitVec 64) (datagram : List Byte) :
    Option (Receiver × List Pushed) :=
  match parsePacket (datagram.take rtpBufSize) with
  | none => some (r, [])
  | some rtp =>
      match r.tracks.findIdx? fun tr => tr.payloadType = (rtp.payloadType.toNat : ℤ) with
      | none => some (r, [])
      | some trackIdx => r.dispatch trackIdx now rtp

/-- Datagrams one after the other. -/
def processAll : List (BitVec 64 × List Byte) → Receiver → Option (Receiver × List Pushed)
  | [], r => some (r, [])
  | (now, datagram) :: datagrams, r => do
      let one ← r.processUdp now datagram
      let rest ← processAll datagrams one.1
      some (rest.1, one.2 ++ rest.2)

end Receiver

/-! ## A packet of the repository -/

/-- A packet without CSRCs and without an extension is read as it was written. -/
theorem parsePacket_bytes (h : Header) {payload : List Byte} (hpayload : payload ≠ []) :
    parsePacket (h.bytes ++ payload) = some
      { payload
        payloadType := h.payloadType &&& 0x7f
        marker := h.marker
        seq := h.seq
        timestamp := h.timestamp
        ssrc := h.ssrc } := by
  have hpos := List.length_pos_iff.mpr hpayload
  have hlength : (h.bytes ++ payload).length = payload.length + 12 := by
    rw [List.length_append, h.length_bytes, Nat.add_comm]
  obtain ⟨htype, hmarker⟩ := payloadType_or_marker h.payloadType h.marker
  have hcsrc : ((0x80 : Byte) &&& 0x0f).toNat = 0 := rfl
  have hplain : ¬ (((0x80 : Byte) &&& 0x10 ≠ 0) ∧ 12 + 0 * 4 + 4 ≤ payload.length + 12) :=
    fun hextended => hextended.1 rfl
  rw [parsePacket, hlength]
  simp only [Header.bytes, List.cons_append, List.nil_append, List.getD_cons_zero,
    List.getD_cons_succ, be16_bytes, be32_bytes, htype, hmarker, hcsrc]
  rw [if_neg hplain, if_neg (by omega)]
  rfl

end Zstreamer.RtspSource

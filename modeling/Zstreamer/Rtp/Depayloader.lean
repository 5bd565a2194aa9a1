/-
# The RTP depayloader

`rtp_depayloader.c` turns RTP packets back into access units or samples.  What it has
of an access unit is kept until a packet with the marker ends it, another time stamp
begins the next one, or a gap in the sequence numbers throws it away.

Memory is always there, and the answers of the next element are left out.  The data of
an access unit is a null pointer when it is empty.
-/

import Zstreamer.Rtp.Payloader

namespace Zstreamer.Rtp

open Foundation

/-- `ZST_BUFFER_VIDEO_PACKET` and `ZST_BUFFER_AUDIO_PACKET`. -/
inductive BufferType
  | videoPacket
  | audioPacket
  deriving DecidableEq, Repr

/-- A buffer on the source pad. -/
structure Delivery where
  bufferType : BufferType
  data : List Byte
  pts : BitVec 64
  duration : BitVec 64
  /-- `ZST_BUFFER_FLAG_DROP`, the only flag that is ever set. -/
  drop : Bool
  deriving DecidableEq, Repr

/-- `rtp_depayloader_t`. -/
structure Depayloader where
  codec : Codec
  payloadType : Byte
  /-- Never zero: the setter takes positive rates only. -/
  clockRate : BitVec 32
  channels : ℤ
  sampleSize : ℤ
  expectedSsrc : BitVec 32
  filterSsrc : Bool
  haveSeq : Bool
  nextSeq : BitVec 16
  auData : List Byte
  auTs : BitVec 32
  auPts : BitVec 64
  auActive : Bool
  h264DiscontinuityPending : Bool
  packets : ℕ
  bytes : ℕ
  outBuffers : ℕ
  outBytes : ℕ
  inPackets : ℕ
  parseErrors : ℕ
  droppedPackets : ℕ
  deriving DecidableEq, Repr

/-- What a call leaves: the depayloader, the buffers on the source pad and whether the result is
`ZST_OK`. -/
structure Depayed where
  depayloader : Depayloader
  out : List Delivery
  ok : Bool
  deriving DecidableEq, Repr

/-- `rtp_depayloader_ts_to_pts`. -/
def tsToPts (ts : BitVec 32) (clockRate : BitVec 32) : BitVec 64 :=
  if clockRate = 0 then 0 else ts.setWidth 64 * 1000000000 / clockRate.setWidth 64

/-- The units of an aggregation packet, each behind its size, for so many turns at most. -/
def aggregated : ℕ → List Byte → List (List Byte)
  | turns + 1, high :: low :: rest =>
      let size := (be16 high low).toNat
      if size = 0 ∨ size > rest.length then []
      else rest.take size :: aggregated turns (rest.drop size)
  | _, _ => []

namespace Depayloader

/-- `rtp_depayloader_reset_au`. -/
def resetAu (s : Depayloader) : Depayloader :=
  { s with auData := [], auTs := 0, auPts := 0, auActive := false }

/-- `rtp_depayloader_begin_au`. -/
def beginAu (s : Depayloader) (ts : BitVec 32) : Depayloader :=
  if s.auActive = true ∧ s.auTs = ts then s
  else { s.resetAu with auTs := ts, auPts := tsToPts ts s.clockRate, auActive := true }

/-- `rtp_depayloader_append_au`. -/
def appendAu (s : Depayloader) (data : List Byte) : Depayloader :=
  { s with auData := s.auData ++ data }

/-- `rtp_depayloader_append_start_code` and then a NAL unit. -/
def appendUnit (s : Depayloader) (nal : List Byte) : Depayloader :=
  s.appendAu (startCode true ++ nal)

/-- `rtp_depayloader_output_type`. -/
def outputType (s : Depayloader) : BufferType :=
  match s.codec with
  | .h264 | .h265 => .videoPacket
  | .aac | .pcm => .audioPacket

/-- `rtp_depayloader_push_bytes`. -/
def pushBytes (s : Depayloader) (data : List Byte) (pts duration : BitVec 64) (drop : Bool) :
    Depayed :=
  if data = [] then ⟨s, [], false⟩
  else
    ⟨{ s with outBuffers := s.outBuffers + 1, outBytes := s.outBytes + data.length },
      [⟨s.outputType, data, pts, duration, drop⟩], true⟩

/-- The access unit is handed over. -/
def takeAu (s : Depayloader) : Depayloader := { s with auData := [], auActive := false }

/-- `rtp_depayloader_push_au`. -/
def pushAu (s : Depayloader) : Depayed :=
  if s.auActive = false ∨ s.auData = [] then ⟨s.resetAu, [], true⟩
  else if s.codec = .h264 ∧ s.h264DiscontinuityPending = true then
    { s.takeAu with h264DiscontinuityPending := false }.pushBytes s.auData s.auPts 0 true
  else s.takeAu.pushBytes s.auData s.auPts 0 false

/-- The end of a packet: one with the marker ends the access unit. -/
def finish (s : Depayloader) (rtp : View) : Depayed :=
  if rtp.marker then s.pushAu else ⟨s, [], true⟩

/-- One more packet that is of no use. -/
def dropPacket (s : Depayloader) : Depayloader := { s with droppedPackets := s.droppedPackets + 1 }

/-- A fragment of a NAL unit: the first one brings the header of the unit, and the others need
the access unit that it has begun. -/
def depayFragment (s : Depayloader) (rtp : View) (start : Bool) (nalHeader data : List Byte) :
    Depayed :=
  if start then (((s.beginAu rtp.timestamp).appendUnit nalHeader).appendAu data).finish rtp
  else if s.auActive = false ∨ s.auTs ≠ rtp.timestamp then ⟨s.dropPacket, [], true⟩
  else (s.appendAu data).finish rtp

/-- `rtp_depayloader_depay_h264`. -/
def depayH264 (s : Depayloader) (rtp : View) : Depayed :=
  let p (i : ℕ) : Byte := rtp.payload.getD i 0
  let nalType := p 0 &&& 0x1f
  if rtp.payload = [] then ⟨s, [], false⟩
  else if 1 ≤ nalType ∧ nalType ≤ 23 then
    ((s.beginAu rtp.timestamp).appendUnit rtp.payload).finish rtp
  else if nalType = 24 then
    let units := aggregated rtp.payload.length (rtp.payload.drop 1)
    (units.foldl appendUnit (s.beginAu rtp.timestamp)).finish rtp
  else if nalType = 28 then
    if rtp.payload.length < 2 then ⟨s, [], false⟩
    else
      s.depayFragment rtp (p 1 &&& 0x80 ≠ 0) [(p 0 &&& 0xe0) ||| (p 1 &&& 0x1f)]
        (rtp.payload.drop 2)
  else ((s.beginAu rtp.timestamp).appendUnit rtp.payload).finish rtp

/-- `rtp_depayloader_depay_h265`. -/
def depayH265 (s : Depayloader) (rtp : View) : Depayed :=
  let p (i : ℕ) : Byte := rtp.payload.getD i 0
  let nalType := (p 0 >>> 1) &&& 0x3f
  if rtp.payload.length < 2 then ⟨s, [], false⟩
  else if nalType ≠ 48 ∧ nalType ≠ 49 then
    ((s.beginAu rtp.timestamp).appendUnit rtp.payload).finish rtp
  else if nalType = 48 then
    let units := aggregated rtp.payload.length (rtp.payload.drop 2)
    (units.foldl appendUnit (s.beginAu rtp.timestamp)).finish rtp
  else if rtp.payload.length < 3 then ⟨s, [], false⟩
  else
    s.depayFragment rtp (p 2 &&& 0x80 ≠ 0) [(p 0 &&& 0x81) ||| ((p 2 &&& 0x3f) <<< 1), p 1]
      (rtp.payload.drop 3)

/-- The loop over the access units of an AAC packet: how many are left, the index of the next
one, and where its data begins. -/
def depayAacUnits (rtp : View) : ℕ → ℕ → ℕ → Depayloader → Depayed
  | 0, _, _, s => ⟨s, [], true⟩
  | count + 1, i, cursor, s =>
      let p (i : ℕ) : Byte := rtp.payload.getD i 0
      let size := (be16 (p (2 + i * 2)) (p (2 + i * 2 + 1)) >>> 3).toNat
      let rate : BitVec 64 := s.clockRate.setWidth 64
      let pts := tsToPts rtp.timestamp s.clockRate +
        BitVec.ofNat 64 i * 1024 * 1000000000 / rate
      if size = 0 ∨ cursor + size > rtp.payload.length then ⟨s.dropPacket, [], false⟩
      else
        let one := s.pushBytes ((rtp.payload.drop cursor).take size) pts (1024 * 1000000000 / rate)
          false
        let rest := depayAacUnits rtp count (i + 1) (cursor + size) one.depayloader
        ⟨rest.depayloader, one.out ++ rest.out, one.ok && rest.ok⟩

/-- `rtp_depayloader_depay_aac`. -/
def depayAac (s : Depayloader) (rtp : View) : Depayed :=
  let p (i : ℕ) : Byte := rtp.payload.getD i 0
  let auBits := (be16 (p 0) (p 1)).toNat
  let auHeaderBytes := (auBits + 7) / 8
  if rtp.payload.length < 4 then ⟨s, [], false⟩
  else if auBits = 0 ∨ auBits % 16 ≠ 0 ∨ 2 + auHeaderBytes > rtp.payload.length then ⟨s, [], false⟩
  else depayAacUnits rtp (auBits / 16) 0 (2 + auHeaderBytes) s

/-- How long the samples of an access unit last. -/
def pcmDuration (s : Depayloader) : BitVec 64 :=
  let bytesPerFrame := (s.channels * s.sampleSize).bmod (2 ^ 32)
  if bytesPerFrame > 0 ∧ s.clockRate ≠ 0 then
    BitVec.ofNat 64 (s.auData.length / bytesPerFrame.toNat) * 1000000000 / s.clockRate.setWidth 64
  else 0

/-- `rtp_depayloader_depay_pcm`. -/
def depayPcm (s : Depayloader) (rtp : View) : Depayed :=
  if rtp.payload = [] then ⟨s, [], false⟩
  else
    let s := (s.beginAu rtp.timestamp).appendAu rtp.payload
    if rtp.marker then s.takeAu.pushBytes s.auData s.auPts s.pcmDuration false
    else ⟨s, [], true⟩

/-- What the sequence number of a packet says: a gap throws away the access unit. -/
def follow (s : Depayloader) (seq : BitVec 16) : Depayloader :=
  let s :=
    if s.haveSeq = true ∧ seq ≠ s.nextSeq then
      { s.dropPacket.resetAu with
        h264DiscontinuityPending := s.h264DiscontinuityPending || s.codec = .h264 }
    else s
  { s with haveSeq := true, nextSeq := seq + 1 }

/-- The payload of a packet. -/
def depay (s : Depayloader) (rtp : View) : Depayed :=
  match s.codec with
  | .h264 => s.depayH264 rtp
  | .h265 => s.depayH265 rtp
  | .aac => s.depayAac rtp
  | .pcm => s.depayPcm rtp

/-- The packet is for another receiver. -/
def Ignores (s : Depayloader) (rtp : View) : Prop :=
  rtp.payloadType ≠ s.payloadType ∨ (s.filterSsrc = true ∧ rtp.ssrc ≠ s.expectedSsrc)

instance (s : Depayloader) (rtp : View) : Decidable (s.Ignores rtp) :=
  inferInstanceAs (Decidable (_ ∨ _))

/-- `rtp_depayloader_pad_push`. -/
def push (s : Depayloader) (buf : Buffer) : Depayed :=
  if buf.eos then s.pushAu
  else
    let s := { s with inPackets := s.inPackets + 1 }
    match parseRtp buf.data with
    | none => ⟨{ s with
        parseErrors := s.parseErrors + 1
        droppedPackets := s.droppedPackets + 1 }, [], true⟩
    | some rtp =>
        let s := { s with packets := s.packets + 1, bytes := s.bytes + buf.data.length }
        if s.Ignores rtp then ⟨s.dropPacket, [], true⟩ else (s.follow rtp.seq).depay rtp

/-- A packet as a buffer on the sink pad. -/
def pushPacket (s : Depayloader) (p : Packet) : Depayed := s.push ⟨p.data, p.pts, false⟩

/-- Packets one after the other: the depayloader and the buffers on the source pad. -/
def pushAll : List Packet → Depayloader → Depayloader × List Delivery
  | [], s => (s, [])
  | p :: packets, s =>
      let one := s.pushPacket p
      let rest := pushAll packets one.depayloader
      (rest.1, one.out ++ rest.2)

end Depayloader

end Zstreamer.Rtp

/-
# RTP packets

The fixed header that the payloaders write in front of a payload, and what the
depayloader makes of a buffer: a view of its fields and of the payload behind the
header, the contributing sources and the extension.
-/

import Zstreamer.Foundation.Bits

namespace Zstreamer.Rtp

open Foundation

/-- The fields of the header that the payloaders write. -/
structure Header where
  marker : Bool
  payloadType : Byte
  seq : BitVec 16
  timestamp : BitVec 32
  ssrc : BitVec 32
  deriving DecidableEq, Repr

/-- The twelve bytes of the header. -/
def Header.bytes (h : Header) : List Byte :=
  [0x80,
    (if h.marker then 0x80 else 0x00) ||| (h.payloadType &&& 0x7f),
    (h.seq >>> 8).setWidth 8, h.seq.setWidth 8,
    (h.timestamp >>> 24).setWidth 8, (h.timestamp >>> 16).setWidth 8,
    (h.timestamp >>> 8).setWidth 8, h.timestamp.setWidth 8,
    (h.ssrc >>> 24).setWidth 8, (h.ssrc >>> 16).setWidth 8,
    (h.ssrc >>> 8).setWidth 8, h.ssrc.setWidth 8]

@[simp]
theorem Header.length_bytes (h : Header) : h.bytes.length = 12 := rfl

/-- The timestamp in the header of a packet. -/
def stampOf (packet : List Byte) : BitVec 32 :=
  be32 (packet.getD 4 0) (packet.getD 5 0) (packet.getD 6 0) (packet.getD 7 0)

theorem stampOf_header (h : Header) (rest : List Byte) : stampOf (h.bytes ++ rest) = h.timestamp :=
  be32_bytes h.timestamp

/-- A buffer that carries a packet. -/
structure Packet where
  data : List Byte
  pts : BitVec 64
  deriving DecidableEq, Repr

/-- `rtp_packet_view_t`. -/
structure View where
  payload : List Byte
  payloadType : Byte
  marker : Bool
  seq : BitVec 16
  timestamp : BitVec 32
  ssrc : BitVec 32
  deriving DecidableEq, Repr

/-- `RTP_DEPAYLOADER_MAX_PACKET`. -/
def maxPacket : ℕ := 65535

/-- The view of a packet whose header has so many bytes. -/
def viewAt (packet : List Byte) (hlen : ℕ) : View :=
  let p (i : ℕ) : Byte := packet.getD i 0
  { payload := packet.drop hlen
    payloadType := p 1 &&& 0x7f
    marker := p 1 &&& 0x80 ≠ 0
    seq := be16 (p 2) (p 3)
    timestamp := be32 (p 4) (p 5) (p 6) (p 7)
    ssrc := be32 (p 8) (p 9) (p 10) (p 11) }

/-- `rtp_depayloader_parse_rtp`. -/
def parseRtp (packet : List Byte) : Option View :=
  let p (i : ℕ) : Byte := packet.getD i 0
  let size := packet.length
  let hlen := 12 + (p 0 &&& 0x0f).toNat * 4
  let extWords := (be16 (p (hlen + 2)) (p (hlen + 3))).toNat
  if size < 12 ∨ size > maxPacket then none
  else if p 0 &&& 0xc0 ≠ 0x80 then none
  else if hlen > size then none
  else if p 0 &&& 0x10 ≠ 0 then
    if hlen + 4 > size then none
    else if hlen + (4 + extWords * 4) > size then none
    else some (viewAt packet (hlen + (4 + extWords * 4)))
  else some (viewAt packet hlen)

/-- A payload type has seven bits. -/
theorem payloadType_or_marker :
    ∀ (pt : Byte) (marker : Bool),
      (((if marker then 0x80 else 0x00) ||| (pt &&& 0x7f) : Byte) &&& 0x7f) = pt &&& 0x7f ∧
      decide (((if marker then 0x80 else 0x00) ||| (pt &&& 0x7f) : Byte) &&& 0x80 ≠ 0) =
        marker := by
  decide +kernel

/-- A packet without contributing sources and extension has its payload behind twelve bytes. -/
theorem parseRtp_plain {packet : List Byte} (hfirst : packet.getD 0 0 = 0x80)
    (hlow : 12 ≤ packet.length) (hhigh : packet.length ≤ maxPacket) :
    parseRtp packet = some (viewAt packet 12) := by
  have hsize : ¬ (packet.length < 12 ∨ packet.length > maxPacket) := by omega
  have hheader : 12 + ((0x80 : Byte) &&& 0x0f).toNat * 4 = 12 := rfl
  rw [parseRtp]
  simp only [hfirst, hheader]
  rw [if_neg hsize, if_neg (by decide), if_neg (by omega), if_neg (by decide)]

/-- **What is written is read back.** -/
theorem parseRtp_bytes (h : Header) {payload : List Byte} (hsize : payload.length ≤ 65523) :
    parseRtp (h.bytes ++ payload) = some
      { payload := payload
        payloadType := h.payloadType &&& 0x7f
        marker := h.marker
        seq := h.seq
        timestamp := h.timestamp
        ssrc := h.ssrc } := by
  have hlength : (h.bytes ++ payload).length = 12 + payload.length := by
    rw [List.length_append, h.length_bytes]
  obtain ⟨htype, hmarker⟩ := payloadType_or_marker h.payloadType h.marker
  rw [parseRtp_plain rfl (by omega) (by rw [hlength, maxPacket]; omega)]
  simp only [viewAt, Header.bytes, List.cons_append, List.nil_append, List.getD_cons_succ,
    List.getD_cons_zero, List.drop_succ_cons, List.drop_zero, be16_bytes, be32_bytes, htype,
    hmarker]

end Zstreamer.Rtp

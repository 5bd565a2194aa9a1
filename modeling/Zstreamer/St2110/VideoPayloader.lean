/-
# The ST 2110-20 payloader

`st2110_20_payloader.c` sends a frame of raw video line by line, a line in as many packets
as it takes.  The bytes of a pixel are what the size of the buffer has for every pixel of
the picture, and the rest of the call goes by them: the pixels of a packet, and the
addresses that it reads from.

What the C language does not define is a fault, also the reading of bytes that the buffer
does not have.  A loop runs for so many turns at most; `Fault.endless` says that it has
not ended by then.
-/

import Zstreamer.Foundation.Cursor
import Zstreamer.Rtp.Payloader

namespace Zstreamer.St2110.Video

open Foundation Rtp

/-- What goes wrong in a call. -/
inductive Fault
  | endless
  | overflow
  | outside
  deriving DecidableEq, Repr

/-- `st2110_20_payloader_t`, without the pads. -/
structure Payloader where
  width : ℤ
  height : ℤ
  sampling : String
  rtpPt : BitVec 32
  ssrc : BitVec 32
  seq : BitVec 32
  packets : BitVec 64
  bytes : BitVec 64
  deriving DecidableEq, Repr

/-- Pixels of a line that go into one packet: the line, the first pixel, and the bytes. -/
structure Piece where
  y : ℕ
  x : ℤ
  payload : List Byte
  isLastPacket : Bool
  deriving DecidableEq, Repr

/-- Bytes of pixels that a packet has room for: `max_payload_bytes` before the alignment. -/
def maxPayloadBytes : ℤ := 1376

/-- `max_pixels`, behind the alignment of `max_payload_bytes`. -/
def maxPixels (bpp : ℤ) : ℤ := (maxPayloadBytes - maxPayloadBytes.tmod bpp).tdiv bpp

namespace Payloader

/-- `bpp` before the size of the buffer is looked at. -/
def defaultBpp (s : Payloader) : ℤ :=
  if s.sampling = "RGB" ∨ s.sampling = "YCbCr-4:4:4" then 3 else 2

/-- `bpp`: the quotient of two `size_t` as an `int`. -/
def bppOf (s : Payloader) (size : ℕ) : Except Fault ℤ :=
  if 0 < s.width ∧ 0 < s.height ∧ 0 < size then
    if IsInt (s.width * s.height) then
      let bpp := (BitVec.ofNat 32 (size / (s.width * s.height).toNat)).toInt
      .ok (if bpp = 0 then 2 else bpp)
    else .error .overflow
  else .ok s.defaultBpp

/-- The bytes that `memcpy` takes from behind `src_ptr`. -/
def readPixels (s : Payloader) (data : List Byte) (bpp : ℤ) (y : ℕ) (c : Chunk) :
    Except Fault (List Byte) :=
  let line := y * s.width * bpp
  let pixel := c.offset * bpp
  let bytesToSend := c.length * bpp
  if ¬ (IsInt (y * s.width) ∧ IsInt line ∧ IsInt pixel ∧ IsInt bytesToSend) then .error .overflow
  else if line + pixel < 0 ∨ bytesToSend < 0 ∨ data.length < line + pixel + bytesToSend then
    .error .outside
  else .ok ((data.drop (line + pixel).toNat).take bytesToSend.toNat)

/-- A turn of the loop over a line. -/
def piece (s : Payloader) (data : List Byte) (bpp : ℤ) (y : ℕ) (c : Chunk) :
    Except Fault Piece :=
  (s.readPixels data bpp y c).map fun payload =>
    { y := y
      x := c.offset
      payload := payload
      isLastPacket := y = s.height - 1 && c.offset + c.length = s.width }

/-- The loop over a line. -/
def linePieces (s : Payloader) (turns : ℕ) (data : List Byte) (bpp : ℤ) (y : ℕ) :
    Except Fault (List Piece) :=
  match chunkLoop (maxPixels bpp) s.width turns 0 with
  | none => .error .endless
  | some chunks => chunks.mapM (s.piece data bpp y)

/-- The pieces of a frame. -/
def pieces (s : Payloader) (turns : ℕ) (data : List Byte) : Except Fault (List Piece) := do
  let bpp ← s.bppOf data.length
  let lines ← (List.range s.height.toNat).mapM (s.linePieces turns data bpp)
  return lines.flatten

/-- The fixed header of the packet of a piece. -/
def header (s : Payloader) (p : Piece) (ts : BitVec 32) : Header where
  marker := p.isLastPacket
  payloadType := s.rtpPt.setWidth 8
  seq := s.seq.setWidth 16
  timestamp := ts
  ssrc := s.ssrc

/-- The extended sequence number and the line header. -/
def lineHeader (s : Payloader) (p : Piece) : List Byte :=
  let extSeq : BitVec 16 := (s.seq >>> 16).setWidth 16
  let lengthField := BitVec.ofNat 16 p.payload.length
  let fLine := BitVec.ofNat 16 p.y &&& 0x7fff
  let cOffset := BitVec.ofInt 16 p.x &&& 0x7fff
  [(extSeq >>> 8).setWidth 8, extSeq.setWidth 8,
    (lengthField >>> 8).setWidth 8, lengthField.setWidth 8,
    (fLine >>> 8).setWidth 8, fLine.setWidth 8,
    (cOffset >>> 8).setWidth 8, cOffset.setWidth 8]

/-- The packet of a piece. -/
def makePacket (s : Payloader) (p : Piece) (pts : BitVec 64) : Payloader × Rtp.Buffer :=
  ({ s with
      seq := s.seq + 1
      packets := s.packets + 1
      bytes := s.bytes + BitVec.ofNat 64 (12 + 8 + p.payload.length) },
    { data := (s.header p (ptsToRtpTs pts 90000)).bytes ++ (s.lineHeader p ++ p.payload)
      pts := pts
      eos := false })

/-- The packets of the pieces in order. -/
def makeAll (pts : BitVec 64) : List Piece → Payloader → Payloader × List Rtp.Buffer
  | [], s => (s, [])
  | p :: pieces, s =>
      let made := s.makePacket p pts
      let rest := makeAll pts pieces made.1
      (rest.1, made.2 :: rest.2)

/-- `st2110_20_payloader_pad_push`, which returns `ZST_OK` when it returns. -/
def padPush (s : Payloader) (turns : ℕ) (buf : Rtp.Buffer) :
    Except Fault (Payloader × List Rtp.Buffer) :=
  if buf.eos then .ok (s, [⟨[], 0, true⟩])
  else (s.pieces turns buf.data).map fun pieces => makeAll buf.pts pieces s

end Payloader

end Zstreamer.St2110.Video

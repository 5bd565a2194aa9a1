/-
# The ST 2110-30 payloader and depayloader

`st2110_30_payloader.c` sends samples in packets of whole sample frames, as many as go
into 1400 bytes, or one when it is larger.  The last packet is returned and the others are
pushed.  `st2110_30_depayloader.c` makes a buffer of every packet, and counts its samples
as if each had three bytes.

What the C language does not define, or the processor traps, is a fault.
-/

import Zstreamer.Foundation.Cursor
import Zstreamer.Rtp.Payloader

namespace Zstreamer.St2110.Audio

open Foundation Rtp

/-- What goes wrong in a call. -/
inductive Fault
  | endless
  | overflow
  | divisionByZero
  | outside
  deriving DecidableEq, Repr

/-- `zst_audio_frame_t`, as much of it as the payloader reads. -/
structure AudioFrame where
  nbSamples : BitVec 32
  data : Option (List Byte)
  deriving DecidableEq, Repr

/-- A buffer on the sink pad; the payload is that of an audio frame. -/
structure Input where
  memory : List Byte
  payload : Option AudioFrame
  pts : BitVec 64
  eos : Bool
  deriving DecidableEq, Repr

/-- `st2110_30_payloader_t` -/
structure Payloader where
  channels : ℤ
  sampleRate : ℤ
  bitDepth : ℤ
  rtpPt : BitVec 32
  ssrc : BitVec 32
  seq : BitVec 16
  deriving DecidableEq, Repr

namespace Payloader

/-- `bytes_per_sample` -/
def bytesPerSample (s : Payloader) : ℤ := if s.bitDepth.tdiv 8 ≤ 0 then 3 else s.bitDepth.tdiv 8

/-- `frame_size` -/
def frameSize (s : Payloader) : ℤ := s.channels * s.bytesPerSample

/-- `max_payload` -/
def maxPayload (frameSize : ℤ) : ℤ :=
  if 1400 - 1400 % frameSize = 0 then frameSize else 1400 - 1400 % frameSize

/-- `in_size` and `in_data`; the product is one of `uint32_t`. -/
def inputOf (frameSize : ℤ) (input : Input) : ℕ × Option (List Byte) :=
  match input.payload with
  | some frame => ((frame.nbSamples * BitVec.ofInt 32 frameSize).toNat, frame.data)
  | none => (input.memory.length, some input.memory)

/-- The bytes of a chunk. -/
def readChunk (data : Option (List Byte)) (c : Chunk) : Except Fault (List Byte) :=
  match data with
  | none => .ok (List.replicate c.length.toNat 0)
  | some data =>
      if data.length < c.offset + c.length then .error .outside else .ok (c.slice data)

/-- The header of the packet at an offset. -/
def header (s : Payloader) (frameSize : ℤ) (pts : BitVec 64) (offset : ℤ) : Header where
  marker := false
  payloadType := s.rtpPt.setWidth 8
  seq := s.seq
  timestamp := (pts * BitVec.ofInt 64 s.sampleRate / 1000000000).setWidth 32 +
    BitVec.ofInt 32 (offset / frameSize)
  ssrc := s.ssrc

/-- A turn of the loop. -/
def makePacket (s : Payloader) (frameSize : ℤ) (pts : BitVec 64) (c : Chunk)
    (payload : List Byte) : Payloader × Rtp.Buffer :=
  ({ s with seq := s.seq + 1 },
    { data := (s.header frameSize pts c.offset).bytes ++ payload
      pts := pts +
        BitVec.ofInt 64 (c.offset / frameSize) * (1000000000 / BitVec.ofInt 64 s.sampleRate)
      eos := false })

/-- The packets, and whether each is the one that is returned. -/
def makeAll (frameSize : ℤ) (size : ℕ) (pts : BitVec 64) :
    List (Chunk × List Byte) → Payloader → Payloader × List (Rtp.Buffer × Bool)
  | [], s => (s, [])
  | c :: chunks, s =>
      let made := s.makePacket frameSize pts c.1 c.2
      let rest := makeAll frameSize size pts chunks made.1
      (rest.1, (made.2, decide (size ≤ c.1.offset + c.1.length)) :: rest.2)

/-- The chunks of the input with their bytes. -/
def cut (s : Payloader) (turns : ℕ) (size : ℕ) (data : Option (List Byte)) :
    Except Fault (List (Chunk × List Byte)) :=
  match chunkLoop (maxPayload s.frameSize) size turns 0 with
  | none => .error .endless
  | some chunks =>
      if chunks ≠ [] ∧ s.sampleRate = 0 then .error .divisionByZero
      else chunks.mapM fun c => (readChunk data c).map fun payload => (c, payload)

/-- What a call gives: the packets that are pushed, and the one that is returned. -/
structure Output where
  pushed : List Rtp.Buffer
  out : Option Rtp.Buffer
  deriving DecidableEq, Repr

/-- The packets as they come to the next element. -/
def Output.packets (o : Output) : List Rtp.Buffer := o.pushed ++ o.out.toList

/-- `payloader_process` -/
def process (s : Payloader) (turns : ℕ) (input : Input) : Except Fault (Payloader × Output) :=
  if input.eos then .ok (s, ⟨[], some ⟨input.memory, input.pts, true⟩⟩)
  else if ¬ IsInt s.frameSize then .error .overflow
  else if s.frameSize ≤ 0 then .ok (s, ⟨[], none⟩)
  else
    let source := inputOf s.frameSize input
    (s.cut turns source.1 source.2).map fun chunks =>
      let made := makeAll s.frameSize source.1 input.pts chunks s
      (made.1,
        { pushed := (made.2.filter fun p => !p.2).map Prod.fst
          out := ((made.2.filter Prod.snd).map Prod.fst).getLast? })

end Payloader

/-- A buffer that the depayloader hands on; the end of the stream has no samples. -/
structure Samples where
  data : List Byte
  pts : BitVec 64
  sampleRate : BitVec 32
  channels : BitVec 32
  nbSamples : BitVec 32
  eos : Bool
  deriving DecidableEq, Repr

/-- `st2110_30_depayloader_t` -/
structure Depayloader where
  expectedChannels : ℤ
  expectedSampleRate : ℤ
  deriving DecidableEq, Repr

namespace Depayloader

/-- `nb_samples`: each sample has three bytes, and a packet one sample at least. -/
def nbSamples (s : Depayloader) (payloadLen : ℕ) : Except Fault (BitVec 32) :=
  if ¬ IsInt (s.expectedChannels * 3) then .error .overflow
  else if s.expectedChannels = 0 then .error .divisionByZero
  else
    -- a negative divisor is a large number of `size_t`
    let divisor := (BitVec.ofInt 64 (s.expectedChannels * 3)).toNat
    let nb := BitVec.ofNat 32 (payloadLen / divisor)
    .ok (if nb = 0 ∧ 0 < payloadLen then 1 else nb)

/-- `depayloader_process` -/
def process (s : Depayloader) (packet : Rtp.Buffer) : Except Fault (Option Samples) :=
  let p (i : ℕ) : Byte := packet.data.getD i 0
  if packet.eos then .ok (some ⟨packet.data, packet.pts, 0, 0, 0, true⟩)
  else if packet.data.length ≤ 12 then .ok none
  else
    (s.nbSamples (packet.data.length - 12)).map fun nb => some
      { data := packet.data.drop 12
        pts :=
          if s.expectedSampleRate > 0 then
            (be32 (p 4) (p 5) (p 6) (p 7)).setWidth 64 * 1000000000 /
              BitVec.ofInt 64 s.expectedSampleRate
          else packet.pts
        sampleRate := BitVec.ofInt 32 s.expectedSampleRate
        channels := BitVec.ofInt 32 s.expectedChannels
        nbSamples := nb
        eos := false }

/-- The buffers of packets one after the other. -/
def processAll (s : Depayloader) (packets : List Rtp.Buffer) : Except Fault (List Samples) :=
  (packets.mapM s.process).map fun buffers => buffers.filterMap id

end Depayloader

end Zstreamer.St2110.Audio

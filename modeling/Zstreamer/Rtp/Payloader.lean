/-
# Sending a NAL unit

Both payloaders of the repository send a NAL unit as a single packet when it fits and
as fragments when it does not, and both do so for H.264 and for H.265.  What differs
is the layout of the fragments: how long the header of the NAL unit is, which is not
sent, and the header of a fragment that replaces it.

A request is what `make_packet` is called with.  Whether a packet comes of it never
decides which requests follow, so the requests are computed first.
-/

import Zstreamer.Foundation.Chunks
import Zstreamer.Rtp.Packet
import Zstreamer.Rtp.StartCode

namespace Zstreamer.Rtp

open Foundation

/-- The arguments of `make_packet`: what is put in front of the payload, the payload, the time
stamp and the marker. -/
structure Request where
  header : List Byte
  payload : List Byte
  timestamp : BitVec 32
  marker : Bool
  deriving DecidableEq, Repr

/-- Bytes of the packet behind the fixed header. -/
def Request.size (r : Request) : ℕ := r.header.length + r.payload.length

/-- How the NAL units of a codec are cut into fragments. -/
structure Layout where
  /-- Bytes at the beginning of the NAL unit that are not sent. -/
  nalHeader : ℕ
  /-- The bytes at the beginning of a fragment, for the first one, the last one and others. -/
  header : (nal : List Byte) → (first last : Bool) → List Byte
  /-- They are one more than the bytes they replace. -/
  length_header : ∀ nal first last, (header nal first last).length = nalHeader + 1

/-- Bytes at the beginning of a fragment. -/
def Layout.headerLen (layout : Layout) : ℕ := layout.nalHeader + 1

/-- The flags of a fragment: the start bit and the end bit. -/
def fuFlags (first last : Bool) : Byte :=
  (if first then 0x80 else 0) ||| (if last then 0x40 else 0)

/-- FU-A of H.264: the indicator, and the header with the type of the NAL unit. -/
def layoutH264 : Layout where
  nalHeader := 1
  header nal first last :=
    let b := nal.getD 0 0
    [(b &&& 0xe0) ||| 28, (b &&& 0x1f) ||| fuFlags first last]
  length_header _ _ _ := rfl

/-- Fragmentation units of H.265: a payload header of type 49, and the type of the NAL unit. -/
def layoutH265 : Layout where
  nalHeader := 2
  header nal first last :=
    let b := nal.getD 0 0
    [(b &&& 0x81) ||| (49 <<< 1), nal.getD 1 0, ((b >>> 1) &&& 0x3f) ||| fuFlags first last]
  length_header _ _ _ := rfl

/-- The fragments of a NAL unit.  `first` is the variable of the loop. -/
def fragments (layout : Layout) (nal : List Byte) (timestamp : BitVec 32) (marker : Bool) :
    Bool → List Chunk → List Request
  | _, [] => []
  | first, c :: chunks =>
      let last : Bool := c.offset + c.length ≥ nal.length
      { header := layout.header nal first last
        payload := c.slice nal
        timestamp := timestamp
        marker := marker && last } :: fragments layout nal timestamp marker false chunks

/-- The loop that sends fragments of a payload of so many bytes at most. -/
def fragmentLoop (layout : Layout) (most : ℤ) (nal : List Byte) (timestamp : BitVec 32)
    (marker : Bool) (turns : ℕ) : Option (List Request) :=
  (chunkLoop (most - layout.headerLen) nal.length turns layout.nalHeader).map
    (fragments layout nal timestamp marker true)

section Bounds

variable {layout : Layout} {most : ℤ} {nal : List Byte} {timestamp : BitVec 32}
  {marker : Bool}

/-- Fragments stay within the maximum. -/
theorem size_fragments_le {chunks : List Chunk} {first : Bool}
    (hchunks : ∀ c ∈ chunks, 0 ≤ c.offset ∧ 0 ≤ c.length ∧ c.length ≤ most - layout.headerLen ∧
      c.offset + c.length ≤ nal.length) :
    ∀ r ∈ fragments layout nal timestamp marker first chunks, (r.size : ℤ) ≤ most := by
  induction chunks generalizing first with
  | nil => exact nofun
  | cons c chunks ih =>
      intro r hr
      rcases List.mem_cons.mp hr with rfl | hr
      · obtain ⟨hoffset, hlength, hmost, hend⟩ := hchunks c List.mem_cons_self
        have hslice := Chunk.length_slice hoffset hlength hend
        rw [Layout.headerLen] at hmost
        rw [Request.size, layout.length_header]
        push_cast at hmost ⊢
        omega
      · exact ih (fun c hc => hchunks c (List.mem_cons_of_mem _ hc)) r hr

/-- **Fragmenting ends** when a fragment holds more than its header, and the fragments stay
within the maximum. -/
theorem fragmentLoop_ends (hmost : layout.headerLen < most) {turns : ℕ}
    (hturns : nal.length ≤ turns) :
    ∃ requests, fragmentLoop layout most nal timestamp marker turns = some requests ∧
      ∀ r ∈ requests, (r.size : ℤ) ≤ most := by
  have hpos : 1 ≤ most - layout.headerLen := by omega
  have hlong : (nal.length : ℤ) - layout.nalHeader ≤ turns := by omega
  obtain ⟨chunks, hchunks⟩ := chunkLoop_ends hpos hlong
  have hbounds := (chunked_of_chunkLoop hchunks).bounds hpos
  refine ⟨_, by rw [fragmentLoop, hchunks]; rfl, size_fragments_le fun c hc => ?_⟩
  obtain ⟨hoffset, hlength, hmost', hend⟩ := hbounds c hc
  exact ⟨by omega, by omega, hmost', hend⟩

/-- There is nothing to send of a NAL unit that is only a header. -/
theorem fragmentLoop_short (hshort : nal.length ≤ layout.nalHeader) (turns : ℕ) :
    fragmentLoop layout most nal timestamp marker turns = some [] := by
  rw [fragmentLoop, chunkLoop_of_end (by exact_mod_cast hshort)]
  rfl

/-- **Fragmenting never ends** when a fragment holds its header at most.  With room for less, the
chunks are negative: they are refused, and the offset moves away from the end until it leaves
the `int`s. -/
theorem fragmentLoop_endless (hmost : most ≤ layout.headerLen)
    (hlong : layout.nalHeader < nal.length) (turns : ℕ) :
    fragmentLoop layout most nal timestamp marker turns = none := by
  rw [fragmentLoop, chunkLoop_endless (by omega) (by exact_mod_cast hlong)]
  rfl

end Bounds

end Zstreamer.Rtp

/-! # The RTP payloader

`rtp_payloader.c` turns an access unit or a buffer of samples into RTP packets.  A
call first says which packets it asks for and then makes them: a packet that cannot be
made, because it is too long, changes the result of the call and nothing else, and so
does an error of the next element, which is left out here.

The loops run for so many turns at most; `none` says that a loop has not ended by then.
-/

namespace Zstreamer.Rtp

open Foundation

/-- `rtp_payloader_codec_t`. -/
inductive Codec
  | h264
  | h265
  | aac
  | pcm
  deriving DecidableEq, Repr

/-- `RTP_PAYLOADER_MAX_PAYLOAD`. -/
def maxPayload : ℕ := 65507

/-- `INT32_MAX`. -/
def int32Max : ℕ := 2 ^ 31 - 1

/-- `rtp_payloader_t`. -/
structure Payloader where
  codec : Codec
  payloadType : Byte
  ssrc : BitVec 32
  seq : BitVec 16
  clockRate : BitVec 32
  mtu : ℤ
  channels : ℤ
  sampleSize : ℤ
  packets : ℕ
  bytes : ℕ
  extSeqNum : BitVec 32
  strictMtu : Bool
  deriving DecidableEq, Repr

/-- A `zst_buffer_t` on the sink pad. -/
structure Buffer where
  data : List Byte
  pts : BitVec 64
  eos : Bool
  deriving DecidableEq, Repr

/-- `rtp_payloader_pts_to_rtp_ts`. -/
def ptsToRtpTs (pts : BitVec 64) (clockRate : BitVec 32) : BitVec 32 :=
  (pts * clockRate.setWidth 64 / 1000000000).setWidth 32

/-- The requests of a call, and whether it refuses a part of the data. -/
structure Sending where
  requests : List Request
  ok : Bool
  deriving DecidableEq, Repr

/-- `ZST_ERROR` before anything is sent. -/
def Sending.refused : Sending := ⟨[], false⟩

def Sending.append (one rest : Sending) : Sending :=
  ⟨one.requests ++ rest.requests, one.ok && rest.ok⟩

namespace Payloader

/-- `rtp_payloader_send_h264_nal` and `rtp_payloader_send_h265_nal`.  A NAL unit must have its
header at least. -/
def sendNal (layout : Layout) (s : Payloader) (turns : ℕ) (nal : List Byte)
    (timestamp : BitVec 32) (marker : Bool) : Option Sending :=
  if nal.length < layout.nalHeader then some .refused
  else if s.mtu - 12 < 1 then some .refused
  else if nal.length ≤ s.mtu - 12 then some ⟨[⟨[], nal, timestamp, marker⟩], true⟩
  else
    (fragmentLoop layout (s.mtu - 12) nal timestamp marker turns).map fun requests =>
      ⟨requests, true⟩

/-- The loop over the NAL units of an access unit. -/
def sendUnits (layout : Layout) (s : Payloader) (turns : ℕ) (timestamp : BitVec 32) :
    List (List Byte × Bool) → Option Sending
  | [] => some ⟨[], true⟩
  | unit :: units =>
      (s.sendNal layout turns unit.1 timestamp unit.2).bind fun one =>
        (sendUnits layout s turns timestamp units).map one.append

/-- `rtp_payloader_packetize_h264`. -/
def packetizeH264 (s : Payloader) (turns : ℕ) (data : List Byte) (pts : BitVec 64) :
    Option Sending :=
  s.sendUnits layoutH264 turns (ptsToRtpTs pts 90000) (nalUnits data)

/-- `rtp_payloader_packetize_h265`. -/
def packetizeH265 (s : Payloader) (turns : ℕ) (data : List Byte) (pts : BitVec 64) :
    Option Sending :=
  s.sendUnits layoutH265 turns (ptsToRtpTs pts 90000) (nalUnits data)

/-- The AU header section of one access unit: 16 bits, of which 13 are its size. -/
def auHeader (size : ℕ) : List Byte :=
  let header := BitVec.ofNat 16 (size <<< 3)
  [0, 16, (header >>> 8).setWidth 8, header.setWidth 8]

/-- `rtp_payloader_packetize_aac`. -/
def packetizeAac (s : Payloader) (data : List Byte) (pts : BitVec 64) : Sending :=
  if data.length > 0x1fff ∨ data.length + 4 > s.mtu then .refused
  else ⟨[⟨auHeader data.length, data, ptsToRtpTs pts s.clockRate, true⟩], true⟩

/-- Bytes of the samples of one moment.  The product is an `int`. -/
def bytesPerSampleFrame (s : Payloader) : ℤ :=
  let product := (s.channels * s.sampleSize).bmod (2 ^ 32)
  if product ≤ 0 then 1 else product

/-- The packet of a chunk of samples. -/
def pcmRequest (s : Payloader) (data : List Byte) (timestamp : BitVec 32) (c : Chunk) : Request where
  header := []
  payload := c.slice data
  timestamp := timestamp + BitVec.ofInt 32 (c.offset.tdiv s.bytesPerSampleFrame)
  marker := c.offset + c.length ≥ data.length

/-- `rtp_payloader_packetize_pcm`. -/
def packetizePcm (s : Payloader) (turns : ℕ) (data : List Byte) (pts : BitVec 64) :
    Option Sending :=
  (chunkLoop s.mtu data.length turns 0).map fun chunks =>
    ⟨chunks.map (s.pcmRequest data (ptsToRtpTs pts s.clockRate)), true⟩

/-- The packets that `rtp_payloader_pad_push` asks for. -/
def packetize (s : Payloader) (turns : ℕ) (buf : Buffer) : Option Sending :=
  if buf.eos = true ∨ buf.data = [] then some ⟨[], true⟩
  else if buf.data.length > int32Max then some .refused
  else
    match s.codec with
    | .h264 => s.packetizeH264 turns buf.data buf.pts
    | .h265 => s.packetizeH265 turns buf.data buf.pts
    | .aac => some (s.packetizeAac buf.data buf.pts)
    | .pcm => s.packetizePcm turns buf.data buf.pts

/-- The header of the packet of a request. -/
def header (s : Payloader) (r : Request) : Header where
  marker := r.marker
  payloadType := s.payloadType
  seq := s.seq
  timestamp := r.timestamp
  ssrc := s.ssrc

/-- `rtp_payloader_make_packet` makes the packet: it is not too long. -/
def Makes (s : Payloader) (r : Request) : Prop :=
  r.size ≤ maxPayload ∧ (s.strictMtu = true → r.size + 12 ≤ s.mtu)

instance (s : Payloader) (r : Request) : Decidable (s.Makes r) :=
  inferInstanceAs (Decidable (_ ∧ _))

/-- The payloader after a packet of so many bytes behind the header. -/
def sent (s : Payloader) (size : ℕ) : Payloader :=
  { s with
    seq := s.seq + 1
    extSeqNum := if s.seq + 1 = 0 then s.extSeqNum + 0x10000 else s.extSeqNum
    packets := s.packets + 1
    bytes := s.bytes + (size + 12) }

/-- The packet of a request. -/
def packet (s : Payloader) (r : Request) (pts : BitVec 64) : Packet :=
  ⟨(s.header r).bytes ++ (r.header ++ r.payload), pts⟩

/-- `rtp_payloader_push_packet` for every request in order: the payloader, the packets, and
whether all of them were made. -/
def pushAll (pts : BitVec 64) : List Request → Payloader → Payloader × List Packet × Bool
  | [], s => (s, [], true)
  | r :: requests, s =>
      if s.Makes r then
        let rest := pushAll pts requests (s.sent r.size)
        (rest.1, s.packet r pts :: rest.2.1, rest.2.2)
      else
        let rest := pushAll pts requests s
        (rest.1, rest.2.1, false)

/-- What a call leaves: the payloader, the packets on the source pad and whether the result is
`ZST_OK`. -/
structure Pushed where
  payloader : Payloader
  packets : List Packet
  ok : Bool
  deriving DecidableEq, Repr

/-- `rtp_payloader_pad_push`. -/
def push (s : Payloader) (turns : ℕ) (buf : Buffer) : Option Pushed :=
  (s.packetize turns buf).map fun sending =>
    let all := pushAll buf.pts sending.requests s
    ⟨all.1, all.2.1, sending.ok && all.2.2⟩

/-- Buffers one after the other. -/
def pushBuffers (turns : ℕ) : List Buffer → Payloader → Option (List Pushed)
  | [], _ => some []
  | buf :: buffers, s =>
      (s.push turns buf).bind fun one =>
        (pushBuffers turns buffers one.payloader).map (one :: ·)

/-- The packets of calls, in order. -/
def packetsOf (pushes : List Pushed) : List Packet := pushes.flatMap Pushed.packets

end Payloader

end Zstreamer.Rtp

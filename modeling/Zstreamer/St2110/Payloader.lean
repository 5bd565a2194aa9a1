/-
# The ST 2110-21 payloader

`st2110_21_payloader.c` sends the NAL units of an access unit like the RTP payloader,
with fewer checks: the mtu is any `int`, and nothing is refused.  What the C language
does not define, or the processor traps, is a fault here.  The pacing is left out but
for the number of packets it estimates, which it divides by.

The loops run for so many turns at most; `Fault.endless` says that a loop has not ended
by then.
-/

import Zstreamer.Rtp.Pieces

namespace Zstreamer.St2110

open Foundation Rtp

/-- What goes wrong in a call. -/
inductive Fault
  | endless
  | overflow
  | divisionByZero
  | negativeLength
  | nullRead
  deriving DecidableEq, Repr

/-- `st2110_21_payloader_t`, without the pacing. -/
structure Payloader where
  mtu : BitVec 32
  rtpPt : BitVec 32
  ssrc : BitVec 32
  seq : BitVec 16
  extSeqNum : BitVec 32
  isH265 : Bool
  deriving DecidableEq, Repr

namespace Payloader

/-- The fragments of the codec.  The source takes the type of an H.265 NAL unit as
`(nal[0] & 0x7E) >> 1`. -/
def layout (s : Payloader) : Layout := if s.isH265 then layoutH265 else layoutH264

theorem nalType_h265 : ∀ b : Byte, (b &&& 0x7e) >>> 1 = (b >>> 1) &&& 0x3f := by
  decide

/-- Bytes of a packet behind the fixed header: `max_payload`. -/
def room (s : Payloader) : ℤ := s.mtu.toInt - 12

/-- The first lines of `payloader_process`: `num_packets`, and the division by it. -/
def numPackets (s : Payloader) (size : ℤ) : Except Fault ℤ :=
  if s.room < -2 ^ 31 then .error .overflow
  else if s.room = 0 then .error .divisionByZero
  else if size.tdiv s.room + 1 ≥ 2 ^ 31 then .error .overflow
  else if size.tdiv s.room + 1 = 0 then .error .divisionByZero
  else .ok (size.tdiv s.room + 1)

/-- `send_nal`: the memory at the NAL unit, and its length. -/
def sendNal (s : Payloader) (turns : ℕ) (nal : List Byte) (len : ℤ) (timestamp : BitVec 32)
    (marker : Bool) : Except Fault (List Request) :=
  let unit := nal.take len.toNat
  if len ≤ s.room then
    if len < 0 then .error .negativeLength else .ok [⟨[], unit, timestamp, marker⟩]
  else if nal = [] then .error .nullRead
  else if len ≤ s.layout.nalHeader then .ok []
  -- the first chunk
  else if (nextChunk (s.room - s.layout.headerLen) len s.layout.nalHeader).length < 0 then
    .error .negativeLength
  else
    match fragmentLoop s.layout s.room unit timestamp marker turns with
    | none => .error .endless
    | some requests => .ok requests

/-- The loop over the NAL units. -/
def sendUnits (s : Payloader) (turns : ℕ) (timestamp : BitVec 32) :
    List (List Byte × Bool) → Except Fault (List Request)
  | [] => .ok []
  | unit :: units => do
      let one ← s.sendNal turns unit.1 unit.1.length timestamp unit.2
      let rest ← sendUnits s turns timestamp units
      return one ++ rest

/-- `in->memory.size` as an `int`. -/
def intSize (data : List Byte) : ℤ := (BitVec.ofNat 32 data.length).toInt

/-- The packets that `payloader_process` makes. -/
def packetize (s : Payloader) (turns : ℕ) (buf : Rtp.Buffer) : Except Fault (List Request) := do
  let size := intSize buf.data
  let timestamp := ptsToRtpTs buf.pts 90000
  let _ ← s.numPackets size
  let data := buf.data.take size.toNat
  match findStartCode data with
  | none => s.sendNal turns buf.data size timestamp true
  | some _ => s.sendUnits turns timestamp (nalUnits data)

/-- The header of the packet of a request. -/
def header (s : Payloader) (r : Request) : Header where
  marker := r.marker
  payloadType := s.rtpPt.setWidth 8
  seq := s.seq
  timestamp := r.timestamp
  ssrc := s.ssrc

/-- `make_packet`. -/
def makePacket (s : Payloader) (r : Request) (pts : BitVec 64) : Payloader × Packet :=
  ({ s with
      seq := s.seq + 1
      extSeqNum := if s.seq + 1 = 0 then s.extSeqNum + 0x10000 else s.extSeqNum },
    ⟨(s.header r).bytes ++ (r.header ++ r.payload), pts⟩)

/-- `make_packet` for every request in order. -/
def makeAll (pts : BitVec 64) : List Request → Payloader → Payloader × List Packet
  | [], s => (s, [])
  | r :: requests, s =>
      let made := s.makePacket r pts
      let rest := makeAll pts requests made.1
      (rest.1, made.2 :: rest.2)

/-- `payloader_process`, which always returns `ZST_OK`. -/
def process (s : Payloader) (turns : ℕ) (buf : Rtp.Buffer) : Except Fault (Payloader × List Packet) :=
  (s.packetize turns buf).map fun requests => makeAll buf.pts requests s

end Payloader

end Zstreamer.St2110

/-! # The ST 2110-21 depayloader

`st2110_21_depayloader.c` puts access units together again.  It looks at no sequence
number and at no time stamp of the packets: everything is appended to one access unit,
and a packet with the marker pushes it.

Memory is always there, and the answers of the next element are left out.  A packet is
shorter than 2 GiB, so that its lengths are `int`s.
-/

namespace Zstreamer.St2110

open Foundation Rtp

/-- A buffer on the source pad, which is a `ZST_BUFFER_VIDEO_FRAME`. -/
structure Frame where
  data : List Byte
  pts : BitVec 64
  dts : BitVec 64
  deriving DecidableEq, Repr

/-- `st2110_21_depayloader_t`, with as much of `au_data` as `au_size` says. -/
structure Depayloader where
  isH265 : Bool
  auData : List Byte
  auPts : BitVec 64
  deriving DecidableEq, Repr

/-- The payload of a packet, behind the contributing sources and the extension.  There is none in
a packet that is too short for it. -/
def payloadOf (pkt : List Byte) : Option (List Byte) :=
  let p (i : ℕ) : Byte := pkt.getD i 0
  let size := pkt.length
  let offset := 12 + (p 0 &&& 0x0f).toNat * 4
  let extLen := (be16 (p (offset + 2)) (p (offset + 3))).toNat * 4
  if size < 12 then none
  else if p 0 &&& 0x10 ≠ 0 then
    if size < offset + 4 then none
    else if size ≤ offset + (4 + extLen) then none
    else some (pkt.drop (offset + (4 + extLen)))
  else if size ≤ offset then none
  else some (pkt.drop offset)

namespace Depayloader

/-- `append_au`. -/
def appendAu (s : Depayloader) (data : List Byte) : Depayloader :=
  { s with auData := s.auData ++ data }

/-- `push_au`. -/
def pushAu (s : Depayloader) : Depayloader × List Frame :=
  if s.auData = [] then (s, []) else ({ s with auData := [] }, [⟨s.auData, s.auPts, s.auPts⟩])

/-- `push_nal`. -/
def pushNal (s : Depayloader) (payload : List Byte) (pts : BitVec 64) : Depayloader :=
  (({ s with auPts := pts }).appendAu (startCode true)).appendAu payload

/-- `handle_fu_chunk`. -/
def handleFuChunk (s : Depayloader) (payload nalHeader : List Byte) (isStart : Bool)
    (pts : BitVec 64) : Depayloader :=
  let s :=
    if isStart then (({ s with auPts := pts }).appendAu (startCode true)).appendAu nalHeader else s
  s.appendAu payload

/-- The payload of a packet of H.264.  After a fragment that is too short the call returns. -/
def takeH264 (s : Depayloader) (payload : List Byte) (pts : BitVec 64) : Option Depayloader :=
  let p (i : ℕ) : Byte := payload.getD i 0
  let nalType := p 0 &&& 0x1f
  if nalType ≠ 28 ∧ nalType ≠ 24 then some (s.pushNal payload pts)
  else if nalType = 28 then
    if payload.length < 2 then none
    else
      some (s.handleFuChunk (payload.drop 2) [(p 0 &&& 0xe0) ||| (p 1 &&& 0x1f)]
        (p 1 &&& 0x80 ≠ 0) pts)
  else some s

/-- The payload of a packet of H.265.  After a fragment that is too short the call returns. -/
def takeH265 (s : Depayloader) (payload : List Byte) (pts : BitVec 64) : Option Depayloader :=
  let p (i : ℕ) : Byte := payload.getD i 0
  let nalType := (p 0 &&& 0x7e) >>> 1
  if nalType ≠ 49 ∧ nalType ≠ 48 then some (s.pushNal payload pts)
  else if nalType = 49 then
    if payload.length < 3 then none
    else
      some (s.handleFuChunk (payload.drop 3) [(p 0 &&& 0x81) ||| ((p 2 &&& 0x3f) <<< 1), p 1]
        (p 2 &&& 0x80 ≠ 0) pts)
  else some s

/-- The payload of a packet. -/
def take (s : Depayloader) (payload : List Byte) (pts : BitVec 64) : Option Depayloader :=
  if s.isH265 then s.takeH265 payload pts else s.takeH264 payload pts

/-- `depayloader_process`, which always returns `ZST_OK`. -/
def process (s : Depayloader) (p : Packet) : Depayloader × List Frame :=
  match payloadOf p.data with
  | none => (s, [])
  | some payload =>
      match s.take payload p.pts with
      | none => (s, [])
      | some s => if p.data.getD 1 0 &&& 0x80 ≠ 0 then s.pushAu else (s, [])

/-- Packets one after the other. -/
def processAll : List Packet → Depayloader → Depayloader × List Frame
  | [], s => (s, [])
  | p :: packets, s =>
      let one := s.process p
      let rest := processAll packets one.1
      (rest.1, one.2 ++ rest.2)

end Depayloader

/-! ## What the depayloader makes of a piece -/

/-- The codec of a payloader or depayloader. -/
def codecOf (isH265 : Bool) : Codec := if isH265 then .h265 else .h264

namespace Depayloader

/-- A piece is appended; the first one of a NAL unit sets the time. -/
def takePiece (s : Depayloader) (starts : Bool) (content : List Byte) (pts : BitVec 64) :
    Depayloader :=
  { s with auData := s.auData ++ content, auPts := if starts then pts else s.auPts }

theorem pushNal_eq (s : Depayloader) (nal : List Byte) (pts : BitVec 64) :
    s.pushNal nal pts = s.takePiece true (startCode true ++ nal) pts := by
  rw [pushNal, appendAu, appendAu, takePiece, List.append_assoc]
  rfl

theorem handleFuChunk_eq (s : Depayloader) (data nalHeader : List Byte) (start : Bool)
    (pts : BitVec 64) : s.handleFuChunk data nalHeader start pts =
      s.takePiece start ((if start then startCode true ++ nalHeader else []) ++ data) pts := by
  cases start with
  | false => rfl
  | true =>
      rw [handleFuChunk, takePiece]
      simp only [appendAu, if_true, List.append_assoc]

/-- A NAL unit in a packet of its own. -/
theorem take_whole {s : Depayloader} {nal : List Byte} (hnal : ValidNal (codecOf s.isH265) nal)
    (pts : BitVec 64) : s.take nal pts = some (s.takePiece true (startCode true ++ nal) pts) := by
  rw [take, ← pushNal_eq]
  cases hcodec : s.isH265 with
  | false =>
      rw [hcodec] at hnal
      have htype : ∀ b : Byte, 1 ≤ b &&& 0x1f ∧ b &&& 0x1f ≤ 23 →
          b &&& 0x1f ≠ 28 ∧ b &&& 0x1f ≠ 24 := by decide
      rw [if_neg Bool.false_ne_true, takeH264]
      dsimp only
      rw [if_pos (htype _ hnal.2)]
  | true =>
      rw [hcodec] at hnal
      obtain ⟨-, -, haggregated, hfragment⟩ := hnal
      rw [if_pos rfl, takeH265]
      dsimp only
      rw [Payloader.nalType_h265, if_pos ⟨hfragment, haggregated⟩]

/-- A fragment of a NAL unit. -/
theorem take_fragment {s : Depayloader} {nal : List Byte} (hnal : ValidNal (codecOf s.isH265) nal)
    (first last : Bool) (data : List Byte) (pts : BitVec 64) :
    s.take ((codecOf s.isH265).layout.header nal first last ++ data) pts =
      some (s.takePiece first
        ((if first then startCode true ++ nal.take (codecOf s.isH265).layout.nalHeader else []) ++
          data) pts) := by
  rw [take, ← handleFuChunk_eq]
  cases hcodec : s.isH265 with
  | false =>
      rw [hcodec] at hnal
      obtain ⟨htype, hstart, hheader⟩ := fragment_h264 (nal.getD 0 0) first last
      have htake : nal.take 1 = [nal.getD 0 0] := by
        obtain ⟨b, rest, rfl⟩ := List.exists_cons_of_ne_nil hnal.clean.nonempty
        rfl
      rw [if_neg Bool.false_ne_true, takeH264]
      simp only [codecOf, Codec.layout, layoutH264, List.cons_append, List.nil_append,
        List.getD_cons_zero, List.getD_cons_succ, List.length_cons, List.drop_succ_cons,
        List.drop_zero, htype, hstart, hheader, htake, Bool.false_eq_true, if_false]
      rw [if_neg (by decide), if_pos trivial, if_neg (by omega)]
  | true =>
      rw [hcodec] at hnal
      obtain ⟨htype, hstart, hheader⟩ := fragment_h265 (nal.getD 0 0) first last
      have htake : nal.take 2 = [nal.getD 0 0, nal.getD 1 0] := by
        obtain ⟨-, hlength, -⟩ := hnal
        obtain ⟨b, c, rest, rfl⟩ : ∃ b c rest, nal = b :: c :: rest := by
          rcases nal with _ | ⟨b, _ | ⟨c, rest⟩⟩
          · cases hlength
          · exact absurd hlength (Nat.not_lt.mpr le_rfl)
          · exact ⟨b, c, rest, rfl⟩
        rfl
      rw [if_pos rfl, takeH265]
      simp only [codecOf, Codec.layout, layoutH265, List.cons_append, List.nil_append,
        List.getD_cons_zero, List.getD_cons_succ, List.length_cons, List.drop_succ_cons,
        List.drop_zero, Payloader.nalType_h265, htype, hstart, hheader, htake, if_true]
      rw [if_neg (by decide), if_neg (by omega)]

end Depayloader

end Zstreamer.St2110

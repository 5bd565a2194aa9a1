/-
# What the parser makes of a NAL unit

`handle_nal` of `h26x_parser.c` and what it calls: the cache of parameter sets, the caps,
single NAL units and access units.  Calls that can fail beside the parser's own checks
(allocations, and the pads behind it) are answered by a function of how many calls there
were before; a call that fails leaves what was done before it.

A buffer on the source pad, and the access unit that is being put together, carry the
positions in the stream of the NAL units in them, and so does the count of NAL units.  No
definition looks at the positions.
The source pad is linked, and nothing listens on the bus.
-/

import Zstreamer.H26x.Bits

namespace Zstreamer.H26x

open Foundation

/-- `h26x_codec_t` -/
inductive Codec
  | auto
  | h264
  | h265
  deriving DecidableEq, Repr

/-- The times of a buffer. -/
structure Stamp where
  pts : BitVec 64
  dts : BitVec 64
  duration : BitVec 64
  deriving DecidableEq, Repr

/-- The flags of a buffer that the parser sets. -/
structure Flags where
  eos : Bool
  keyframe : Bool
  deriving DecidableEq, Repr

/-- The flags of both. -/
def Flags.or (a b : Flags) : Flags := ⟨a.eos || b.eos, a.keyframe || b.keyframe⟩

/-- A NAL unit, and the position in the stream of the first byte of its start code or length. -/
structure Nal where
  bytes : List Byte
  position : ℕ
  deriving DecidableEq, Repr

/-- `h264_sps_t` -/
structure Sps where
  nal : List Byte
  format : Format
  version : ℕ
  valid : Bool
  deriving DecidableEq, Repr

/-- `h264_pps_t` -/
structure Pps where
  nal : List Byte
  spsId : BitVec 32
  version : ℕ
  valid : Bool
  deriving DecidableEq, Repr

/-- The caps of the source pad; the stream format is always `byte-stream`. -/
structure Caps where
  codec : Codec
  alignmentAu : Bool
  format : Format
  avcc : Option (List Byte)
  codecData : Option (List Byte)
  generation : BitVec 32
  deriving DecidableEq, Repr

/-- A buffer on the source pad. -/
structure Out where
  data : List Byte
  stamp : Stamp
  flags : Flags
  positions : List ℕ
  deriving DecidableEq, Repr

/-- What goes out of the source pad; a buffer with the flag `DROP` is handed on as it is. -/
inductive Event
  | caps (c : Caps)
  | buffer (b : Out)
  | dropped (data : List Byte)
  deriving DecidableEq, Repr

/-- Which configuration is active: the parameter sets and their versions. -/
structure Active where
  spsId : BitVec 32
  ppsId : BitVec 32
  spsVersion : ℕ
  ppsVersion : ℕ
  deriving DecidableEq, Repr

/-- `h26x_parser_t` without the adapter. -/
structure Assembler where
  codec : Codec
  aggregateAu : Bool
  maxAuSize : ℕ
  /-- `ps`, with no bytes where there is none -/
  ps : ℕ → List Byte
  h264Sps : BitVec 32 → Sps
  h264Pps : BitVec 32 → Pps
  h264Active : Option Active
  format : Format
  formatValid : Bool
  formatDirty : Bool
  generation : ℕ
  parsedNals : ℕ
  outputBuffers : ℕ
  parseErrors : ℕ
  droppedNals : ℕ
  au : List Byte
  auStamp : Stamp
  auFlags : Flags
  auHasVcl : Bool
  auPositions : List ℕ
  /-- the NAL units that `parsed_nals` counts -/
  counted : List ℕ
  /-- what has gone out of the source pad -/
  sent : List Event
  /-- how many calls were answered -/
  calls : ℕ

/-- The bytes of a start code. -/
def startCode : List Byte := [0, 0, 0, 1]

/-- What a NAL unit is to the parser. -/
structure Kind where
  type : Byte
  vcl : Bool
  key : Bool
  /-- which of the parameter sets -/
  ps : Option ℕ
  /-- the number of the picture parameter set in a slice header that can be read -/
  slice : Option (BitVec 32)
  first : Bool
  deriving DecidableEq, Repr

/-- The kind of a NAL unit of H.264. -/
def kindH264 (nal : List Byte) : Kind :=
  let type := nal.headD 0 &&& 31
  let vcl := decide (1 ≤ type ∧ type ≤ 5)
  let slice := if vcl then parseH264Slice nal else none
  { type := type
    vcl := vcl
    key := decide (type = 5)
    ps := if type = 7 then some 0 else if type = 8 then some 1 else none
    slice := slice.map Prod.snd
    first := slice.any fun header => header.1 = 0 }

/-- The kind of a NAL unit of H.265. -/
def kindH265 (nal : List Byte) : Kind :=
  let type := (nal.headD 0 >>> 1) &&& 63
  let vcl := decide (type ≤ 31)
  { type := type
    vcl := vcl
    key := decide (16 ≤ type ∧ type ≤ 21)
    ps := if type = 32 then some 0 else if type = 33 then some 1 else if type = 34 then some 2 else none
    slice := none
    first := vcl && decide (nal.length > 2) && decide (nal.getD 2 0 &&& 0x80 ≠ 0) }

/-- The kind of a NAL unit. -/
def kindOf (codec : Codec) (nal : List Byte) : Kind :=
  match codec with
  | .h264 => kindH264 nal
  | .auto | .h265 => kindH265 nal

/-- The NAL units that end an access unit of H.264. -/
def endsAu (codec : Codec) (type : Byte) : Bool :=
  codec = .h264 && (decide (6 ≤ type ∧ type ≤ 9) || decide (14 ≤ type ∧ type ≤ 18))

/-- `reserve`, the part that does not allocate: `limit - have` is a `size_t`. -/
def hasRoom (have' add limit : ℕ) : Bool :=
  decide (add ≤ if have' ≤ limit then limit - have' else 2 ^ 64 + limit - have')

/-- A format that says nothing. -/
def Format.none : Format := ⟨0, 0, 0, 0, 0, 0, 0, Option.none⟩

namespace Assembler

/-- The parser when it is created, with properties set. -/
def create (codec : Codec) (aggregateAu : Bool) (maxAuSize : ℕ) : Assembler where
  codec := codec
  aggregateAu := aggregateAu
  maxAuSize := maxAuSize
  ps := fun _ => []
  h264Sps := fun _ => ⟨[], Format.none, 0, false⟩
  h264Pps := fun _ => ⟨[], 0, 0, false⟩
  h264Active := none
  format := Format.none
  formatValid := false
  formatDirty := false
  generation := 0
  parsedNals := 0
  outputBuffers := 0
  parseErrors := 0
  droppedNals := 0
  au := []
  auStamp := ⟨0, 0, 0⟩
  auFlags := ⟨false, false⟩
  auHasVcl := false
  auPositions := []
  counted := []
  sent := []
  calls := 0

variable (answers : ℕ → Bool)

/-- A call that can fail. -/
def ask (s : Assembler) : Assembler × Bool := ({ s with calls := s.calls + 1 }, answers s.calls)

/-- What follows a call that has not failed. -/
def andThen (result : Assembler × Bool) (next : Assembler → Assembler × Bool) : Assembler × Bool :=
  if result.2 then next result.1 else result

/-- `avcC` of a sequence and a picture parameter set. -/
def avccOf (sps pps : List Byte) : Option (List Byte) :=
  if 4 ≤ sps.length ∧ sps.length ≤ 65535 ∧ 0 < pps.length ∧ pps.length ≤ 65535 then
    some ([1, sps.getD 1 0, sps.getD 2 0, sps.getD 3 0, 0xff, 0xe1,
      BitVec.ofNat 8 (sps.length / 256), BitVec.ofNat 8 sps.length] ++ sps ++
      [1, BitVec.ofNat 8 (pps.length / 256), BitVec.ofNat 8 pps.length] ++ pps)
  else none

/-- The caps of the format. -/
def capsOf (s : Assembler) : Caps :=
  let sps := (s.h264Active.map fun a => (s.h264Sps a.spsId).nal).getD []
  let pps := (s.h264Active.map fun a => (s.h264Pps a.ppsId).nal).getD []
  let sets := ((List.range 3).map s.ps).filter (· ≠ [])
  { codec := s.codec
    alignmentAu := s.aggregateAu
    format :=
      { s.format with
        framerate :=
          if s.codec = .h264 then s.format.framerate.filter fun rate => rate.timeScale ≠ 0 else none }
    avcc := if s.codec = .h264 then avccOf sps pps else none
    codecData :=
      if s.codec = .h264 then some (startCode ++ sps ++ (startCode ++ pps))
      else if sets = [] then none
      else some (sets.flatMap (startCode ++ ·))
    generation := BitVec.ofNat 32 (s.generation + 1) }

/-- `push_caps`.  The event can fail to be made when the generation already counts it. -/
def pushCaps (s : Assembler) : Assembler × Bool :=
  if ¬ (s.formatValid ∧ s.formatDirty) then (s, true)
  else if s.codec = .h264 ∧ s.h264Active = none then (s, true)
  else
    andThen (s.ask answers) fun s =>
      let caps := s.capsOf
      andThen ({ s with generation := s.generation + 1 }.ask answers) fun s =>
        ({ s with sent := s.sent ++ [.caps caps], formatDirty := false }, true)

/-- A buffer is made, counted, and handed on. -/
def sendBuffer (s : Assembler) (b : Out) : Assembler × Bool :=
  { s with outputBuffers := s.outputBuffers + 1, sent := s.sent ++ [Event.buffer b] }.ask answers

/-- `emit` -/
def emit (s : Assembler) (nal : Nal) (stamp : Stamp) (flags : Flags) : Assembler × Bool :=
  andThen (s.pushCaps answers) fun s =>
    andThen (s.ask answers) fun s =>
      s.sendBuffer answers ⟨startCode ++ nal.bytes, stamp, flags, [nal.position]⟩

/-- `flush_au`.  The access unit is gone when its buffer cannot be made. -/
def flushAu (s : Assembler) : Assembler × Bool :=
  if s.au = [] then (s, true)
  else
    andThen (s.pushCaps answers) fun s =>
      let out : Out := ⟨s.au, s.auStamp, s.auFlags, s.auPositions⟩
      andThen ({ s with au := [], auHasVcl := false, auPositions := [] }.ask answers) fun s =>
        { s with auFlags := ⟨false, false⟩ }.sendBuffer answers out

/-- `clear_au` -/
def clearAu (s : Assembler) : Assembler :=
  { s with au := [], auHasVcl := false, auFlags := ⟨false, false⟩, auPositions := [] }

/-- `cache_h264_sps`, and the count of an error. -/
def cacheH264Sps (s : Assembler) (nal : List Byte) : Assembler × Bool :=
  match parseH264Sps nal with
  | none => ({ s with parseErrors := s.parseErrors + 1 }, true)
  | some (id, format) =>
      let entry := s.h264Sps id
      if id ≥ maxSps then ({ s with parseErrors := s.parseErrors + 1 }, true)
      else if entry.valid ∧ entry.nal = nal then (s, true)
      else
        andThen (s.ask answers) fun s =>
          ({ s with
            h264Sps := Function.update s.h264Sps id ⟨nal, format, entry.version + 1, true⟩ }, true)

/-- `cache_h264_pps`, and the count of an error. -/
def cacheH264Pps (s : Assembler) (nal : List Byte) : Assembler × Bool :=
  match parseH264Pps nal with
  | none => ({ s with parseErrors := s.parseErrors + 1 }, true)
  | some (ppsId, spsId) =>
      let entry := s.h264Pps ppsId
      if entry.valid ∧ entry.nal = nal then (s, true)
      else
        andThen (s.ask answers) fun s =>
          ({ s with
            h264Pps := Function.update s.h264Pps ppsId ⟨nal, spsId, entry.version + 1, true⟩ }, true)

/-- A parameter set of H.265. -/
def cacheH265 (s : Assembler) (nal : List Byte) (ps : ℕ) (type : Byte) : Assembler × Bool :=
  andThen (s.ask answers) fun s =>
    let s := if s.ps ps = nal then s
      else { s with ps := Function.update s.ps ps nal, formatDirty := true }
    if s.codec = .h265 ∧ type = 33 ∧ parseH265Sps nal = none then
      ({ s with parseErrors := s.parseErrors + 1 }, true)
    else (s, true)

/-- A parameter set is cached. -/
def cache (s : Assembler) (nal : List Byte) (kind : Kind) : Assembler × Bool :=
  match kind.ps with
  | none => (s, true)
  | some ps =>
      if s.codec = .h264 then
        if kind.type = 7 then s.cacheH264Sps answers nal else s.cacheH264Pps answers nal
      else s.cacheH265 answers nal ps kind.type

/-- `activate_h264_config` -/
def activateH264Config (s : Assembler) (ppsId : BitVec 32) : Assembler :=
  let pps := s.h264Pps ppsId
  let sps := s.h264Sps pps.spsId
  let active : Active := ⟨pps.spsId, ppsId, sps.version, pps.version⟩
  if ppsId ≥ maxPps ∨ ¬ pps.valid ∨ ¬ sps.valid then s
  else if s.h264Active = some active then s
  else
    { s with
      h264Active := some active
      format := sps.format
      formatValid := true
      formatDirty := true }

/-- The end of `handle_nal`: the NAL unit goes out, or into the access unit. -/
def deliver (s : Assembler) (nal : Nal) (stamp : Stamp) (flags : Flags) (vcl : Bool) :
    Assembler × Bool :=
  if ¬ s.aggregateAu then s.emit answers nal stamp flags
  else
    let s := if s.au = [] then { s with auStamp := stamp } else s
    if ¬ hasRoom s.au.length (nal.bytes.length + 4) s.maxAuSize then (s, false)
    else
      andThen (s.ask answers) fun s =>
        ({ s with
          au := s.au ++ (startCode ++ nal.bytes)
          auFlags := s.auFlags.or flags
          auHasVcl := s.auHasVcl || vcl
          auPositions := s.auPositions ++ [nal.position] }, true)

/-- `handle_nal` from where the NAL unit is counted. -/
def count (s : Assembler) (nal : Nal) (stamp : Stamp) (eos : Bool) (kind : Kind) :
    Assembler × Bool :=
  let s := { s with parsedNals := s.parsedNals + 1, counted := s.counted ++ [nal.position] }
  andThen (if kind.vcl ∧ kind.first ∧ s.auHasVcl then s.flushAu answers else (s, true)) fun s =>
    let s :=
      match kind.slice with
      | some ppsId => if s.codec = Codec.h264 ∧ kind.first then s.activateH264Config ppsId else s
      | none => s
    s.deliver answers nal stamp ⟨eos, kind.key⟩ kind.vcl

/-- `handle_nal` -/
def handleNal (s : Assembler) (nal : Nal) (stamp : Stamp) (eos : Bool) : Assembler × Bool :=
  if nal.bytes = [] then (s, true)
  else
    let kind := kindOf s.codec nal.bytes
    andThen (if s.aggregateAu ∧ s.auHasVcl ∧ endsAu s.codec kind.type then s.flushAu answers
      else (s, true)) fun s =>
      andThen (s.cache answers nal.bytes kind) fun s =>
        s.count answers nal stamp eos kind

/-- NAL units one after the other, as long as none fails; the last may be flagged. -/
def handleAll (stamp : Stamp) : List (Nal × Bool) → Assembler → Assembler × Bool
  | [], s => (s, true)
  | unit :: units, s =>
      andThen (s.handleNal answers unit.1 stamp unit.2) fun s => handleAll stamp units s

/-- The end of the stream behind the last NAL unit. -/
def finish (s : Assembler) : Assembler × Bool :=
  { s with auFlags := { s.auFlags with eos := true } }.flushAu answers

end Assembler

end Zstreamer.H26x

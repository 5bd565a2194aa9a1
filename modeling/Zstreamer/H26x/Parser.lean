/-
# The parser of elementary streams

`h26x_parser.c` gathers the buffers on its sink pad in an adapter, finds the NAL units in
it, behind start codes or behind their lengths, and hands each to `handle_nal`.  What is
left is kept for the next buffer, from the last start code or length on; but only when no
NAL unit has failed.

`handle_nal` does not look at the adapter, so the loops are written as what they find; the
NAL units are handled in this order, up to the first that fails.  Where the adapter begins in
the stream, and what has gone into it, is kept beside; no definition looks at it.
-/

import Zstreamer.H26x.Assembler
import Zstreamer.Rtp.StartCode

namespace Zstreamer.H26x

open Foundation Rtp

/-- `h26x_format_t` -/
inductive StreamFormat
  | auto
  | annexB
  | length
  deriving DecidableEq, Repr

/-- `h26x_policy_t` -/
inductive Policy
  | error
  | drop
  | warnDrop
  deriving DecidableEq, Repr

/-- A buffer on the sink pad. -/
structure Input where
  data : List Byte
  stamp : Stamp
  eos : Bool
  drop : Bool
  deriving DecidableEq, Repr

/-- A call: a buffer on the sink pad, or the end of the stream. -/
inductive Call
  | push (buf : Input)
  | eos
  deriving DecidableEq, Repr

/-- `h26x_parser_t` -/
structure Parser where
  inputFormat : StreamFormat
  nalLengthSize : ℕ
  maxNalSize : ℕ
  maxBufferedBytes : ℕ
  policy : Policy
  adapter : List Byte
  /-- where in the stream the adapter begins -/
  adapterPosition : ℕ
  adapterStamp : Stamp
  haveTimestamp : Bool
  /-- the buffers whose bytes have gone into the adapter -/
  taken : List Input
  assembler : Assembler

/-! ## Start codes -/

/-- What the loop over the start codes comes to: the NAL units behind each but the last, where the
last is, how long it is, and what is behind it. -/
structure Codes where
  units : List Nal
  off : ℕ
  scLen : ℕ
  rest : List Byte
  deriving DecidableEq, Repr

/-- The loop over the start codes, behind the one at an offset, for so many turns at most. -/
def codesFrom (position : ℕ) : ℕ → ℕ → ℕ → List Byte → Codes
  | 0, off, scLen, rest => ⟨[], off, scLen, rest⟩
  | turns + 1, off, scLen, rest =>
      match findStartCode rest with
      | none => ⟨[], off, scLen, rest⟩
      | some (len, nextLen) =>
          let later := codesFrom position turns (off + scLen + len) nextLen
            (rest.drop (len + nextLen))
          { later with
            units := (if 0 < len then [⟨rest.take len, position + off⟩] else []) ++ later.units }

/-- What is found in the adapter: NAL units, the last flagged with the end of the stream; the offset
to keep it from; and whether the loop goes through. -/
structure Scan where
  units : List (Nal × Bool)
  off : ℕ
  ok : Bool
  deriving DecidableEq, Repr

/-- The adapter of a byte stream, behind the first start code. -/
def scanAnnexB (adapter : List Byte) (position : ℕ) (eos : Bool) (sc scLen : ℕ) : Scan :=
  let codes := codesFrom position adapter.length sc scLen (adapter.drop (sc + scLen))
  let units := codes.units.map fun unit => (unit, false)
  if eos ∧ codes.rest ≠ [] then
    ⟨units ++ [(⟨codes.rest, position + codes.off⟩, true)], adapter.length, true⟩
  else ⟨units, codes.off, true⟩

/-! ## Lengths -/

/-- The loop over the lengths, for so many turns at most. -/
def lengthsFrom (size maxNalSize position : ℕ) (eos : Bool) : ℕ → ℕ → List Byte → Scan
  | 0, off, _ => ⟨[], off, true⟩
  | turns + 1, off, rest =>
      let n := bigEndian (rest.take size)
      if rest.length < size then ⟨[], off, true⟩
      else if n = 0 ∨ n > maxNalSize then ⟨[], off, false⟩
      else if n > rest.length - size then ⟨[], off, true⟩
      else
        let later := lengthsFrom size maxNalSize position eos turns (off + (size + n))
          (rest.drop (size + n))
        { later with
          units := (⟨(rest.drop size).take n, position + off⟩,
            eos && decide (size + n = rest.length)) :: later.units }

namespace Parser

/-- The parser when it is created, with properties set. -/
def create (inputFormat : StreamFormat) (nalLengthSize maxNalSize maxBufferedBytes : ℕ)
    (policy : Policy) (assembler : Assembler) : Parser where
  inputFormat := inputFormat
  nalLengthSize := nalLengthSize
  maxNalSize := maxNalSize
  maxBufferedBytes := maxBufferedBytes
  policy := policy
  adapter := []
  adapterPosition := 0
  adapterStamp := ⟨0, 0, 0⟩
  haveTimestamp := false
  taken := []
  assembler := assembler

variable (answers : ℕ → Bool)

/-- The first line of `parse_adapter`. -/
def detect (s : Parser) : Parser :=
  if s.inputFormat = .auto ∧ 4 ≤ s.adapter.length then
    { s with
      inputFormat := if (findStartCode s.adapter).map Prod.fst = some 0 then .annexB else .length }
  else s

/-- The last lines of `parse_adapter`: what is before the offset is gone. -/
def compact (s : Parser) (off : ℕ) : Parser :=
  { s with adapter := s.adapter.drop off, adapterPosition := s.adapterPosition + off }

/-- The NAL units are handled. -/
def handleUnits (s : Parser) (units : List (Nal × Bool)) : Parser × Bool :=
  let result := s.assembler.handleAll answers s.adapterStamp units
  ({ s with assembler := result.1 }, result.2)

/-- `parse_adapter` for a byte stream. -/
def parseAnnexB (s : Parser) (eos : Bool) : Parser × Bool :=
  match findStartCode s.adapter with
  | none => (s, decide (s.adapter.length ≤ s.maxBufferedBytes))
  | some (sc, scLen) =>
      let scan := scanAnnexB s.adapter s.adapterPosition eos sc scLen
      let handled := s.handleUnits answers scan.units
      if handled.2 then (handled.1.compact scan.off, true) else handled

/-- What is left behind the last NAL unit at the end of the stream. -/
def leaveRest (s : Parser) : Parser × Bool :=
  let asm := { s.assembler with parseErrors := s.assembler.parseErrors + 1 }
  if s.policy = .error then ({ s with assembler := asm }, false)
  else
    ({ s with assembler := { asm with droppedNals := asm.droppedNals + 1 } }.compact s.adapter.length,
      true)

/-- `parse_adapter` for NAL units behind their lengths. -/
def parseLength (s : Parser) (eos : Bool) : Parser × Bool :=
  let scan := lengthsFrom s.nalLengthSize s.maxNalSize s.adapterPosition eos
    (s.adapter.length + 1) 0 s.adapter
  let handled := s.handleUnits answers scan.units
  if ¬ handled.2 then handled
  else if ¬ scan.ok then (handled.1, false)
  else if eos ∧ scan.off ≠ s.adapter.length then handled.1.leaveRest
  else (handled.1.compact scan.off, true)

/-- `parse_adapter` -/
def parseAdapter (s : Parser) (eos : Bool) : Parser × Bool :=
  let s := s.detect
  match s.inputFormat with
  | .auto => (s, true)
  | .annexB => s.parseAnnexB answers eos
  | .length => s.parseLength answers eos

/-- `clear_adapter` -/
def clearAdapter (s : Parser) : Parser :=
  { s.compact s.adapter.length with haveTimestamp := false }

/-- The end of the stream goes on to the assembler. -/
def finish (s : Parser) : Parser × Bool :=
  let result := s.assembler.finish answers
  ({ s with assembler := result.1 }, result.2)

/-- A buffer that is to be dropped clears the parser and is handed on. -/
def pushDropped (s : Parser) (buf : Input) : Parser × Bool :=
  let asm := s.assembler.clearAu
  let result := { asm with sent := asm.sent ++ [Event.dropped buf.data] }.ask answers
  ({ s.clearAdapter with assembler := result.1 }, result.2)

/-- The times of the first buffer are kept. -/
def keepStamp (s : Parser) (stamp : Stamp) : Parser :=
  if s.haveTimestamp then s else { s with adapterStamp := stamp, haveTimestamp := true }

/-- The bytes go into the adapter, when there is room. -/
def append (s : Parser) (buf : Input) : Parser × Bool :=
  if ¬ hasRoom s.adapter.length buf.data.length s.maxBufferedBytes then (s, false)
  else
    let result := s.assembler.ask answers
    if result.2 then
      ({ s with adapter := s.adapter ++ buf.data, taken := s.taken ++ [buf], assembler := result.1 },
        true)
    else ({ s with assembler := result.1 }, false)

/-- A parse that fails is counted. -/
def countError (result : Parser × Bool) : Parser × Bool :=
  if result.2 then result
  else
    ({ result.1 with
      assembler :=
        { result.1.assembler with parseErrors := result.1.assembler.parseErrors + 1 } }, false)

/-- `parser_push` -/
def parserPush (s : Parser) (buf : Input) : Parser × Bool :=
  if buf.drop then s.pushDropped answers buf
  else
    let appended := (s.keepStamp buf.stamp).append answers buf
    if ¬ appended.2 then appended
    else
      let parsed := countError (appended.1.parseAdapter answers buf.eos)
      if ¬ parsed.2 then parsed
      else if buf.eos then parsed.1.finish answers
      else parsed

/-- `parser_event` for the end of the stream, before the event is handed on. -/
def eosEvent (s : Parser) : Parser × Bool :=
  let parsed := s.parseAdapter answers true
  if parsed.2 then parsed.1.finish answers else parsed

/-- What a call comes to. -/
def call (s : Parser) : Call → Parser × Bool
  | .push buf => s.parserPush answers buf
  | .eos => s.eosEvent answers

/-- Calls one after the other, whatever each returns. -/
def calls : List Call → Parser → Parser
  | [], s => s
  | c :: cs, s => calls cs (s.call answers c).1

end Parser

end Zstreamer.H26x

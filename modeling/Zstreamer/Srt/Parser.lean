/-
# The subtitle parser

`parse_srt_file` of `srt_parser.c`.  It takes a file line by line: a line of digits is an index,
behind it stands the line with the times, and then the lines of the text up to an empty one.  The
text and the entries are in arrays that are doubled where they are too small.

Files open and memory is there; what is written outside of an array gives no value.
-/

import Mathlib.Data.List.DropRight
import Zstreamer.Rtsp.TransportHeader

namespace Zstreamer.Srt

open Foundation
open Rtsp (text isSpace isDigit cstr strstr scanInt)

/-! ## Lines -/

/-- `getline`: the next line, and what is behind it. -/
def getline : List Byte → Option (List Byte × List Byte)
  | [] => none
  | c :: rest =>
      if c = 0x0a then some ([c], rest)
      else
        match getline rest with
        | none => some ([c], [])
        | some (line, rest) => some (c :: line, rest)

/-- The line without the characters that end it. -/
def trimmed (line : List Byte) : List Byte := line.rdropWhile fun c => c = 0x0a || c = 0x0d

/-! ## Times -/

/-- A conversion `%63s`. -/
def scanWord (s : List Byte) : Option (List Byte × List Byte) :=
  let s := s.dropWhile isSpace
  let word := (s.takeWhile fun c => !isSpace c).take 63
  if word = [] then none else some (word, s.drop word.length)

/-- Characters that a format asks for. -/
def scanLiteral (literal s : List Byte) : Option (List Byte) :=
  if literal <+: s then some (s.drop literal.length) else none

/-- `sscanf` with the format `%63s --> %63s`, where both buffers were empty. -/
def scanTimes (line : List Byte) : List Byte × List Byte :=
  match scanWord line with
  | none => ([], [])
  | some (start, rest) =>
      match (scanLiteral (text "-->") (rest.dropWhile isSpace)).bind scanWord with
      | none => (start, [])
      | some (stop, _) => (start, stop)

/-- `sscanf` with the format `%d:%d:%d,%d`, where it converts all four. -/
def scanStamp (s : List Byte) : Option (ℤ × ℤ × ℤ × ℤ) := do
  let (hh, s) ← scanInt s
  let s ← scanLiteral (text ":") s
  let (mm, s) ← scanInt s
  let s ← scanLiteral (text ":") s
  let (ss, s) ← scanInt s
  let s ← scanLiteral (text ",") s
  let (ms, _) ← scanInt s
  return (hh, mm, ss, ms)

/-- `parse_timestamp_ns` -/
def parseTimestampNs (s : List Byte) : BitVec 64 :=
  match scanStamp s with
  | some (hh, mm, ss, ms) =>
      let ns := BitVec.ofInt 64 hh
      let ns := (ns * 60 + BitVec.ofInt 64 mm) * 60 + BitVec.ofInt 64 ss
      let ns := ns * 1000 + BitVec.ofInt 64 ms
      ns * 1000000
  | none => 0

/-! ## The text of an entry -/

/-- The text so far, and how much room its array has. -/
structure TextBuffer where
  textCap : ℕ
  text : List Byte

/-- A capacity is doubled until it is enough, in so many turns at most. -/
def grow : ℕ → ℕ → ℕ → Option ℕ
  | 0, _, _ => none
  | turns + 1, newCap, required =>
      if newCap < required then grow turns (newCap * 2) required else some newCap

/-- A line of the text. -/
def TextBuffer.push (b : TextBuffer) (line : List Byte) : Option TextBuffer := do
  let required := b.text.length + line.length + 2
  let textCap ← if required > b.textCap then grow required b.textCap required else some b.textCap
  let text := (if b.text.length > 0 then b.text ++ [0x0a] else b.text) ++ line
  -- the text and the zero byte behind it
  if text.length + 1 ≤ textCap then some ⟨textCap, text⟩ else none

/-- The lines of the text up to an empty one, in so many turns at most; what is behind them is
left. -/
def readText : ℕ → List Byte → TextBuffer → Option (List Byte × TextBuffer)
  | 0, _, _ => none
  | turns + 1, file, b =>
      match getline file with
      | none => some (file, b)
      | some (line, rest) =>
          if trimmed line = [] then some (rest, b)
          else (b.push (trimmed line)).bind (readText turns rest)

/-! ## The entries -/

/-- An entry. -/
structure Entry where
  startNs : BitVec 64
  durationNs : BitVec 64
  text : List Byte
  deriving DecidableEq, Repr

/-- The entries so far, and how many their array has room for. -/
structure Parser where
  cap : ℕ
  entries : List Entry

/-- An entry is put behind the others. -/
def Parser.store (p : Parser) (e : Entry) : Option Parser :=
  let cap := if p.entries.length + 1 > p.cap then p.cap * 2 else p.cap
  if p.entries.length < cap then some ⟨cap, p.entries ++ [e]⟩ else none

/-- What stands behind an index: the line with the times, and the text. -/
def parseEntry (line rest : List Byte) : Option (List Byte × Entry) := do
  let (startStr, endStr) := scanTimes (cstr line)
  let startNs := parseTimestampNs startStr
  let endNs := parseTimestampNs endStr
  let durNs := if endNs > startNs then endNs - startNs else 0
  let (rest, b) ← readText (rest.length + 1) rest ⟨256, []⟩
  return (rest, ⟨startNs, durNs, b.text⟩)

/-- The loop over the lines, in so many turns at most. -/
def parseLines : ℕ → List Byte → Parser → Option Parser
  | 0, _, _ => none
  | turns + 1, file, p =>
      match getline file with
      | none => some p
      | some (line, rest) =>
          if trimmed line = [] then parseLines turns rest p
          else if (cstr (trimmed line)).all isDigit = true then
            match getline rest with
            | none => some p
            | some (line, rest) =>
                if strstr (trimmed line) (text "-->") = none then parseLines turns rest p
                else do
                  let (rest, e) ← parseEntry (trimmed line) rest
                  let p ← p.store e
                  parseLines turns rest p
          else parseLines turns rest p

/-- `parse_srt_file`: the entries of a file. -/
def parseSrtFile (file : List Byte) : Option (List Entry) :=
  (parseLines (file.length + 1) file ⟨16, []⟩).map Parser.entries

end Zstreamer.Srt

/-
# Subtitles are read back

What a subtitle file looks like when it is printed, with the endings and the empty lines that it may
have, and that the parser gives back what was printed.
-/

import Zstreamer.Foundation.Tokens
import Zstreamer.Srt.Parser

namespace Zstreamer.Srt

open Foundation List Option
open Rtsp (text isSpace isDigit cstr strstr scanInt number)

/-! ## Printing -/

/-- The end of a line. -/
inductive Ending
  | lf
  | crlf

def Ending.bytes : Ending → List Byte
  | lf => [0x0a]
  | crlf => [0x0d, 0x0a]

/-- A time as subtitles have it. -/
structure Time where
  hours : ℕ
  minutes : ℕ
  seconds : ℕ
  millis : ℕ
  hours_lt : hours < 100000
  minutes_lt : minutes < 100
  seconds_lt : seconds < 100
  millis_lt : millis < 1000

/-- The time in nanoseconds. -/
def Time.ns (t : Time) : ℕ :=
  (((t.hours * 60 + t.minutes) * 60 + t.seconds) * 1000 + t.millis) * 1000000

/-- A number in so many digits at least. -/
def padded (width n : ℕ) : List Byte :=
  replicate (width - (Rtsp.Printf.decimal n).length) 0x30 ++ Rtsp.Printf.decimal n

/-- `HH:MM:SS,mmm` -/
def Time.bytes (t : Time) : List Byte :=
  padded 2 t.hours ++ (text ":" ++ (padded 2 t.minutes ++ (text ":" ++ (padded 2 t.seconds ++
    (text "," ++ padded 3 t.millis)))))

/-- A line of a text. -/
structure Line where
  chars : List Byte
  ne_nil : chars ≠ []
  no_zero : 0 ∉ chars
  no_lf : 0x0a ∉ chars
  no_cr : 0x0d ∉ chars

/-- A subtitle. -/
structure Cue where
  start : Time
  stop : Time
  lines : List Line
  earlier : start.ns < stop.ns
  lines_ne_nil : lines ≠ []

/-- A subtitle in a file: its index, and how its lines end. -/
structure Block where
  cue : Cue
  index : List Byte
  index_ne_nil : index ≠ []
  index_digits : ∀ b ∈ index, isDigit b = true
  ending : ℕ → Ending

/-- Some lines, from a number on. -/
def printLines (ending : ℕ → Ending) : ℕ → List Line → List Byte
  | _, [] => []
  | k, line :: lines => line.chars ++ ((ending k).bytes ++ printLines ending (k + 1) lines)

/-- The line with the times. -/
def Cue.times (c : Cue) : List Byte := c.start.bytes ++ (text " --> " ++ c.stop.bytes)

/-- The index and the line with the times, in front of something. -/
def Block.head (b : Block) (rest : List Byte) : List Byte :=
  b.index ++ ((b.ending 0).bytes ++ (b.cue.times ++ ((b.ending 1).bytes ++ rest)))

/-- Empty lines. -/
def blankLines (endings : List Ending) : List Byte := endings.flatMap Ending.bytes

/-- A subtitle with the empty line behind it, and as many more as there are. -/
structure Closed where
  block : Block
  blank : Ending
  extra : List Ending

/-- It in front of something. -/
def Closed.before (c : Closed) (rest : List Byte) : List Byte :=
  c.block.head (printLines c.block.ending 2 c.block.cue.lines ++
    (c.blank.bytes ++ (blankLines c.extra ++ rest)))

/-- The end of a file: nothing more, or a subtitle without the empty line, whose last line may also
have no ending. -/
inductive Last
  | nothing
  | noBlank (b : Block)
  | noEnding (b : Block)

def Last.bytes : Last → List Byte
  | nothing => []
  | noBlank b => b.head (printLines b.ending 2 b.cue.lines)
  | noEnding b => b.head (printLines b.ending 2 b.cue.lines.dropLast ++
      (b.cue.lines.getLast b.cue.lines_ne_nil).chars)

def Last.cues : Last → List Cue
  | nothing => []
  | noBlank b => [b.cue]
  | noEnding b => [b.cue]

/-- A file. -/
def printFile (lead : List Ending) (blocks : List Closed) (last : Last) : List Byte :=
  blankLines lead ++ blocks.foldr Closed.before last.bytes

/-! ## Lines are read back -/

/-- Bytes of a line. -/
theorem getline_append {l : List Byte} (hl : 0x0a ∉ l) (rest : List Byte) :
    getline (l ++ 0x0a :: rest) = some (l ++ [0x0a], rest) := by
  induction l with
  | nil => exact if_pos rfl
  | cons c l ih =>
      rw [mem_cons, not_or] at hl
      rw [cons_append, getline, if_neg fun h => hl.1 h.symm, ih hl.2]
      rfl

/-- The last line may have no end. -/
theorem getline_last {l : List Byte} (hne : l ≠ []) (hl : 0x0a ∉ l) : getline l = some (l, []) := by
  induction l with
  | nil => exact absurd rfl hne
  | cons c l ih =>
      rw [mem_cons, not_or] at hl
      rw [getline, if_neg fun h => hl.1 h.symm]
      cases l with
      | nil => rfl
      | cons d l => rw [ih (cons_ne_nil d l) hl.2]

theorem trimmed_self {l : List Byte} (hlf : 0x0a ∉ l) (hcr : 0x0d ∉ l) : trimmed l = l := by
  refine rdropWhile_eq_self_iff.mpr fun hne hlast => ?_
  rw [Bool.or_eq_true, decide_eq_true_iff, decide_eq_true_iff] at hlast
  have hmem := getLast_mem hne
  rcases hlast with hlast | hlast <;> rw [hlast] at hmem
  · exact hlf hmem
  · exact hcr hmem

/-- A line and its ending are read, and the ending is taken off. -/
theorem getline_ending {l : List Byte} (hlf : 0x0a ∉ l) (hcr : 0x0d ∉ l) (e : Ending)
    (rest : List Byte) :
    ∃ line, getline (l ++ (e.bytes ++ rest)) = some (line, rest) ∧ trimmed line = l := by
  cases e with
  | lf =>
      refine ⟨l ++ [0x0a], getline_append hlf rest, ?_⟩
      rw [trimmed, rdropWhile_concat_pos _ _ _ rfl]
      exact trimmed_self hlf hcr
  | crlf =>
      have hline : 0x0a ∉ l ++ [0x0d] := by
        rw [mem_append, not_or]
        exact ⟨hlf, by decide⟩
      have hget := getline_append hline rest
      rw [append_assoc] at hget
      refine ⟨l ++ [0x0d] ++ [0x0a], hget, ?_⟩
      rw [trimmed, rdropWhile_concat_pos _ _ _ rfl, rdropWhile_concat_pos _ _ _ rfl]
      exact trimmed_self hlf hcr

/-- An empty line is read. -/
theorem getline_blank (e : Ending) (rest : List Byte) :
    ∃ line, getline (e.bytes ++ rest) = some (line, rest) ∧ trimmed line = [] :=
  getline_ending not_mem_nil not_mem_nil e rest

/-! ## The text is read back -/

/-- A capacity grows until it is enough. -/
theorem grow_spec {turns newCap required : ℕ} (hcap : 0 < newCap)
    (hturns : required - newCap < turns) :
    ∃ cap, grow turns newCap required = some cap ∧ required ≤ cap ∧ 0 < cap := by
  induction turns generalizing newCap with
  | zero => exact absurd hturns (Nat.not_lt_zero _)
  | succ turns ih =>
      rw [grow]
      split
      case isTrue hless => exact ih (by omega) (by omega)
      case isFalse henough => exact ⟨newCap, rfl, by omega, hcap⟩

/-- A line is put behind the text. -/
theorem push_spec {b : TextBuffer} (hcap : 0 < b.textCap) (line : List Byte) :
    ∃ b', b.push line = some b' ∧ 0 < b'.textCap ∧
      b'.text = (if b.text = [] then line else b.text ++ 0x0a :: line) := by
  have htext : (if b.text.length > 0 then b.text ++ [0x0a] else b.text) ++ line =
      if b.text = [] then line else b.text ++ 0x0a :: line := by
    by_cases hempty : b.text = []
    · rw [if_pos hempty, hempty]
      rfl
    · rw [if_neg hempty, if_pos (length_pos_iff.mpr hempty), append_assoc]
      rfl
  have hlength : (if b.text = [] then line else b.text ++ 0x0a :: line).length ≤
      b.text.length + line.length + 1 := by
    split
    · omega
    · rw [length_append, length_cons]
      omega
  have hwrite : ∀ cap, b.text.length + line.length + 2 ≤ cap → 0 < cap → ∃ b',
      (if (if b.text = [] then line else b.text ++ 0x0a :: line).length + 1 ≤ cap then
        some (TextBuffer.mk cap (if b.text = [] then line else b.text ++ 0x0a :: line)) else none) =
          some b' ∧ 0 < b'.textCap ∧
        b'.text = (if b.text = [] then line else b.text ++ 0x0a :: line) :=
    fun cap henough hpos => ⟨_, if_pos (by omega), hpos, rfl⟩
  rw [TextBuffer.push, htext]
  by_cases hless : b.text.length + line.length + 2 > b.textCap
  · obtain ⟨cap, hgrow, henough, hpos⟩ := grow_spec hcap
      (show b.text.length + line.length + 2 - b.textCap < b.text.length + line.length + 2 by omega)
    simp only [if_pos hless, hgrow, bind_eq_bind, bind_some]
    exact hwrite cap henough hpos
  · simp only [if_neg hless]
    exact hwrite b.textCap (by omega) hcap

/-- The lines of a text, behind what is there. -/
def withLines (before : List Byte) (lines : List Line) : List Byte :=
  lines.foldl (fun before line =>
    if before = [] then line.chars else before ++ 0x0a :: line.chars) before

theorem withLines_append {before : List Byte} (hne : before ≠ []) (lines : List Line) :
    withLines before lines = before ++ lines.flatMap fun line => 0x0a :: line.chars := by
  induction lines generalizing before with
  | nil => exact (append_nil before).symm
  | cons line lines ih =>
      have hnext : before ++ 0x0a :: line.chars ≠ [] :=
        append_ne_nil_of_right_ne_nil _ (cons_ne_nil _ _)
      rw [withLines, foldl_cons, if_neg hne, flatMap_cons, ← append_assoc]
      exact ih hnext

/-- They are joined by line feeds. -/
theorem withLines_eq (lines : List Line) :
    withLines [] lines = joined 0x0a (lines.map Line.chars) := by
  cases lines with
  | nil => rfl
  | cons line lines =>
      rw [withLines, foldl_cons, if_pos rfl, map_cons, joined_eq_flatMap, flatMap_map]
      exact withLines_append line.ne_nil lines

/-- The lines of a text are read, and what comes behind them is left. -/
theorem readText_lines {b : TextBuffer} (hcap : 0 < b.textCap) (ending : ℕ → Ending) (k : ℕ)
    (lines : List Line) :
    ∃ b', 0 < b'.textCap ∧ b'.text = withLines b.text lines ∧ ∀ turns rest,
      readText (turns + lines.length) (printLines ending k lines ++ rest) b =
        readText turns rest b' := by
  induction lines generalizing b k with
  | nil => exact ⟨b, hcap, rfl, fun turns rest => rfl⟩
  | cons l lines ih =>
      obtain ⟨b₁, hpush, hcap₁, htext₁⟩ := push_spec hcap l.chars
      obtain ⟨b', hcap', htext, hrun⟩ := ih hcap₁ (k + 1)
      refine ⟨b', hcap', by rw [htext, htext₁]; rfl, fun turns rest => ?_⟩
      obtain ⟨line, hline, htrim⟩ := getline_ending l.no_lf l.no_cr (ending k)
        (printLines ending (k + 1) lines ++ rest)
      rw [printLines, append_assoc, append_assoc, length_cons, ← Nat.add_assoc,
        readText]
      simp only [hline, htrim]
      rw [if_neg l.ne_nil, hpush, bind_some, hrun]

/-- What may stand behind the lines of a text: the end of the file, an empty line, or a last line
that has no ending.  The lines are those of the text behind it. -/
inductive Behind : List Byte → List Byte → List Line → Prop
  | nothing : Behind [] [] []
  | blank (e : Ending) (rest : List Byte) : Behind (e.bytes ++ rest) rest []
  | line (l : Line) : Behind l.chars [] [l]

/-- The text ends there. -/
theorem readText_behind {file rest : List Byte} {lines : List Line} (h : Behind file rest lines)
    {b : TextBuffer} (hcap : 0 < b.textCap) {turns : ℕ} (hturns : 2 ≤ turns) :
    ∃ b', readText turns file b = some (rest, b') ∧ b'.text = withLines b.text lines := by
  obtain ⟨turns, rfl⟩ := Nat.exists_eq_add_of_le' hturns
  cases h with
  | nothing => exact ⟨b, rfl, rfl⟩
  | blank e rest =>
      obtain ⟨line, hline, htrim⟩ := getline_blank e rest
      refine ⟨b, ?_, rfl⟩
      rw [readText]
      simp only [hline]
      rw [if_pos htrim]
  | line l =>
      obtain ⟨b', hpush, -, htext⟩ := push_spec hcap l.chars
      refine ⟨b', ?_, htext⟩
      rw [readText]
      simp only [getline_last l.ne_nil l.no_lf, trimmed_self l.no_lf l.no_cr]
      rw [if_neg l.ne_nil, hpush, bind_some]
      rfl

/-! ## The times are read back -/

theorem padded_spec (width n : ℕ) :
    padded width n ≠ [] ∧ (∀ b ∈ padded width n, isDigit b = true) ∧ number (padded width n) = n := by
  have hzeros : ∀ k, number (replicate k 0x30 ++ Rtsp.Printf.decimal n) = n := by
    intro k
    induction k with
    | zero => exact Rtsp.Printf.number_decimal n
    | succ k ih => exact ih
  refine ⟨append_ne_nil_of_right_ne_nil _ (Rtsp.Printf.decimal_ne_nil n), fun b hb => ?_, hzeros _⟩
  rcases mem_append.mp hb with hb | hb
  · rw [eq_of_mem_replicate hb]
    rfl
  · exact Rtsp.Printf.decimal_digits n b hb

theorem length_padded {width n k : ℕ} (hk : 0 < k) (hn : n < 10 ^ k) :
    (padded width n).length ≤ max width k := by
  have hlength := Rtsp.Printf.length_decimal_le hk hn
  rw [padded, length_append, length_replicate]
  omega

/-- A small number is an `int`. -/
theorem toInt_ofInt {n : ℕ} (hn : n < 2 ^ 31) : (BitVec.ofInt 32 (n : ℤ)).toInt = n := by
  rw [BitVec.toInt_ofInt, Int.bmod_eq_of_le (by omega) (by omega)]

/-- A number in front of what is no digit is read. -/
theorem scanInt_padded {width n : ℕ} (hn : n < 2 ^ 31) {rest : List Byte}
    (hrest : ∀ b ∈ rest.head?, isDigit b = false) :
    scanInt (padded width n ++ rest) = some ((n : ℤ), rest) := by
  obtain ⟨hne, hdigits, hnumber⟩ := padded_spec width n
  rw [Rtsp.scanInt_append hne hdigits hrest, hnumber, toInt_ofInt hn]

theorem scanLiteral_append (literal rest : List Byte) :
    scanLiteral literal (literal ++ rest) = some rest := by
  rw [scanLiteral, if_pos (prefix_append _ _), drop_left]

/-- A time is converted. -/
theorem scanStamp_bytes (t : Time) :
    scanStamp t.bytes = some ((t.hours : ℤ), (t.minutes : ℤ), (t.seconds : ℤ), (t.millis : ℤ)) := by
  have hh := t.hours_lt
  have hm := t.minutes_lt
  have hs := t.seconds_lt
  have hms := t.millis_lt
  have hcolon : ∀ rest, ∀ b ∈ (text ":" ++ rest).head?, isDigit b = false := by
    intro rest b hb
    rw [Rtsp.text_chars ":" (l := [':']) rfl] at hb
    cases hb
    rfl
  have hcomma : ∀ rest, ∀ b ∈ (text "," ++ rest).head?, isDigit b = false := by
    intro rest b hb
    rw [Rtsp.text_chars "," (l := [',']) rfl] at hb
    cases hb
    rfl
  have hlast := @scanInt_padded 3 t.millis (by omega) [] nofun
  rw [append_nil] at hlast
  rw [scanStamp, Time.bytes]
  simp only [bind_eq_bind, scanInt_padded (show t.hours < 2 ^ 31 by omega) (hcolon _),
    scanInt_padded (show t.minutes < 2 ^ 31 by omega) (hcolon _),
    scanInt_padded (show t.seconds < 2 ^ 31 by omega) (hcomma _), scanLiteral_append, hlast,
    bind_some]
  rfl

theorem Time.ns_lt (t : Time) : t.ns < 2 ^ 63 := by
  have hh := t.hours_lt
  have hm := t.minutes_lt
  have hs := t.seconds_lt
  have hms := t.millis_lt
  rw [Time.ns]
  omega

/-- Its nanoseconds are computed without overflow. -/
theorem parseTimestampNs_bytes (t : Time) : (parseTimestampNs t.bytes).toNat = t.ns := by
  have hns := t.ns_lt
  have hvalue : parseTimestampNs t.bytes = BitVec.ofNat 64 t.ns := by
    rw [parseTimestampNs, scanStamp_bytes]
    simp only [Time.ns, BitVec.ofInt_natCast, BitVec.ofNat_mul, BitVec.ofNat_add]
    rfl
  rw [hvalue, BitVec.toNat_ofNat, Nat.mod_eq_of_lt (by omega)]

/-- The characters of a time. -/
def IsStampChar (b : Byte) : Prop := isDigit b = true ∨ b = 0x3a ∨ b = 0x2c

instance : DecidablePred IsStampChar := fun _ => inferInstanceAs (Decidable (_ ∨ _ ∨ _))

theorem stampChar_spec : ∀ b : Byte, IsStampChar b →
    isSpace b = false ∧ b ≠ 0 ∧ b ≠ 0x2d ∧ b ≠ 0x0a ∧ b ≠ 0x0d := by
  decide +kernel

theorem stampChar_bytes (t : Time) : ∀ b ∈ t.bytes, IsStampChar b := by
  have hdigits : ∀ width n, ∀ b ∈ padded width n, IsStampChar b :=
    fun width n _ hb => .inl ((padded_spec width n).2.1 _ hb)
  have hcolon : ∀ b ∈ text ":", IsStampChar b := Rtsp.forall_mem_text ":" (l := [':']) rfl (by decide)
  have hcomma : ∀ b ∈ text ",", IsStampChar b := Rtsp.forall_mem_text "," (l := [',']) rfl (by decide)
  rw [Time.bytes]
  simp only [forall_mem_append]
  exact ⟨hdigits _ _, hcolon, hdigits _ _, hcolon, hdigits _ _, hcomma, hdigits _ _⟩

theorem bytes_ne_nil (t : Time) : t.bytes ≠ [] :=
  append_ne_nil_of_left_ne_nil (padded_spec 2 t.hours).1 _

/-- A time fits in its buffer. -/
theorem length_bytes (t : Time) : t.bytes.length ≤ 63 := by
  have hh := @length_padded 2 t.hours 5 (by decide) t.hours_lt
  have hm := @length_padded 2 t.minutes 2 (by decide) t.minutes_lt
  have hs := @length_padded 2 t.seconds 2 (by decide) t.seconds_lt
  have hms := @length_padded 3 t.millis 3 (by decide) t.millis_lt
  have hcolon := Rtsp.length_text ":" (l := [':']) rfl
  have hcomma := Rtsp.length_text "," (l := [',']) rfl
  rw [Time.bytes]
  simp only [length_append, hcolon, hcomma, length_singleton]
  omega

/-- A word up to a space, or to the end, is read. -/
theorem scanWord_append {word rest : List Byte} (hne : word ≠ []) (hlength : word.length ≤ 63)
    (hword : ∀ b ∈ word, isSpace b = false) (hrest : ∀ b ∈ rest.head?, isSpace b = true) :
    scanWord (word ++ rest) = some (word, rest) := by
  obtain ⟨c, word, rfl⟩ := exists_cons_of_ne_nil hne
  have hstart : (c :: word ++ rest).dropWhile isSpace = c :: word ++ rest :=
    dropWhile_cons_of_neg (Bool.eq_false_iff.mp (hword c mem_cons_self))
  have htake : (c :: word ++ rest).takeWhile (fun c => !isSpace c) = c :: word := by
    rw [takeWhile_append_of_pos fun b hb => by rw [hword b hb]; rfl]
    cases rest with
    | nil => exact append_nil _
    | cons b rest =>
        rw [takeWhile_cons_of_neg (by rw [hrest b rfl]; decide), append_nil]
  rw [scanWord, hstart]
  simp only [htake]
  rw [take_of_length_le hlength, if_neg hne, drop_left]

/-- The arrow between the times, and the spaces around it. -/
theorem text_arrow : text " --> " = 0x20 :: (text "-->" ++ [0x20]) := by
  rw [Rtsp.text_chars " --> " (l := [' ', '-', '-', '>', ' ']) rfl,
    Rtsp.text_chars "-->" (l := ['-', '-', '>']) rfl]
  rfl

theorem text_arrow_cons : text "-->" = 0x2d :: [0x2d, 0x3e] := by
  rw [Rtsp.text_chars "-->" (l := ['-', '-', '>']) rfl]
  rfl

/-- Both times are found in their line. -/
theorem scanTimes_times (c : Cue) : scanTimes c.times = (c.start.bytes, c.stop.bytes) := by
  have hspaces : ∀ t : Time, ∀ b ∈ t.bytes, isSpace b = false :=
    fun t b hb => (stampChar_spec b (stampChar_bytes t b hb)).1
  have hstart : scanWord c.times = some (c.start.bytes, text " --> " ++ c.stop.bytes) := by
    refine scanWord_append (bytes_ne_nil _) (length_bytes _) (hspaces _) fun b hb => ?_
    rw [text_arrow] at hb
    cases hb
    rfl
  have hstop : scanWord (0x20 :: c.stop.bytes) = some (c.stop.bytes, []) := by
    have hword := @scanWord_append _ [] (bytes_ne_nil c.stop) (length_bytes _) (hspaces _) nofun
    rw [append_nil] at hword
    rw [scanWord, dropWhile_cons_of_pos rfl]
    exact hword
  have harrow : (text " --> " ++ c.stop.bytes).dropWhile isSpace =
      text "-->" ++ 0x20 :: c.stop.bytes := by
    rw [text_arrow, cons_append, dropWhile_cons_of_pos rfl, append_assoc, text_arrow_cons]
    exact dropWhile_cons_of_neg (by decide)
  rw [scanTimes, hstart]
  simp only [harrow, scanLiteral_append, bind_some, hstop]

/-- The line with the times has no end in it, and the arrow is found. -/
theorem times_spec (c : Cue) :
    0 ∉ c.times ∧ 0x0a ∉ c.times ∧ 0x0d ∉ c.times ∧ strstr c.times (text "-->") ≠ none := by
  have htime : ∀ t : Time, 0 ∉ t.bytes ∧ 0x2d ∉ t.bytes ∧ 0x0a ∉ t.bytes ∧ 0x0d ∉ t.bytes := by
    intro t
    have hall := fun b hb => (stampChar_spec b (stampChar_bytes t b hb)).2
    exact ⟨fun h => (hall _ h).1 rfl, fun h => (hall _ h).2.1 rfl, fun h => (hall _ h).2.2.1 rfl,
      fun h => (hall _ h).2.2.2 rfl⟩
  obtain ⟨hzero, hdash, hlf, hcr⟩ := htime c.start
  obtain ⟨hzero', -, hlf', hcr'⟩ := htime c.stop
  have hnone : ∀ b : Byte, b ≠ 0x20 → b ≠ 0x2d → b ≠ 0x3e → b ∉ c.start.bytes → b ∉ c.stop.bytes →
      b ∉ c.times := by
    intro b hspace hb hgt hstart hstop
    rw [Cue.times, text_arrow, text_arrow_cons]
    simp only [mem_append, mem_cons, not_mem_nil, or_false, not_or]
    exact ⟨hstart, ⟨hspace, ⟨hb, hb, hgt⟩, hspace⟩, hstop⟩
  refine ⟨hnone 0 (by decide) (by decide) (by decide) hzero hzero',
    hnone _ (by decide) (by decide) (by decide) hlf hlf',
    hnone _ (by decide) (by decide) (by decide) hcr hcr', ?_⟩
  have hsplit : c.times = (c.start.bytes ++ [0x20]) ++ (text "-->" ++ 0x20 :: c.stop.bytes) := by
    rw [Cue.times, text_arrow, append_assoc, cons_append, append_assoc]
    rfl
  have hfound : strstr (text "-->" ++ 0x20 :: c.stop.bytes) (text "-->") = some 0 := by
    rw [strstr, Rtsp.cstr_append (by rw [text_arrow_cons]; decide)]
    exact Rtsp.firstAt_of_prefix (prefix_append _ _)
  rw [hsplit, text_arrow_cons, Rtsp.strstr_append]
  · rw [← text_arrow_cons, hfound]
    exact some_ne_none _
  · rw [mem_append, not_or]
    exact ⟨hzero, by decide⟩
  · rw [mem_append, not_or]
    exact ⟨hdash, by decide⟩

/-! ## The entries are read back -/

/-- The entry of a subtitle. -/
structure Entry.Shows (e : Entry) (c : Cue) : Prop where
  start : e.startNs.toNat = c.start.ns
  duration : e.durationNs.toNat = c.stop.ns - c.start.ns
  text : e.text = joined 0x0a (c.lines.map Line.chars)

theorem length_printLines (ending : ℕ → Ending) (k : ℕ) (lines : List Line) :
    2 * lines.length ≤ (printLines ending k lines).length := by
  induction lines generalizing k with
  | nil => exact Nat.zero_le _
  | cons l lines ih =>
      have hchars := length_pos_iff.mpr l.ne_nil
      have hending : 0 < (ending k).bytes.length := by
        cases ending k with
        | lf => exact Nat.one_pos
        | crlf => exact Nat.two_pos
      have hrest := ih (k + 1)
      rw [printLines, length_append, length_append, length_cons]
      omega

/-- What stands behind the index of a subtitle is its entry. -/
theorem parseEntry_spec (c : Cue) (ending : ℕ → Ending) {front more : List Line}
    {tail rest : List Byte} (hlines : front ++ more = c.lines) (htail : Behind tail rest more)
    (hlength : 0 < front.length + tail.length) :
    ∃ e, e.Shows c ∧ parseEntry c.times (printLines ending 2 front ++ tail) = some (rest, e) := by
  have hcstr : cstr c.times = c.times := by
    have happend := Rtsp.cstr_append (times_spec c).1 []
    rwa [append_nil, show cstr [] = [] from rfl, append_nil] at happend
  have hstart := parseTimestampNs_bytes c.start
  have hstop := parseTimestampNs_bytes c.stop
  have hless : parseTimestampNs c.stop.bytes > parseTimestampNs c.start.bytes := by
    rw [gt_iff_lt, BitVec.lt_def, hstart, hstop]
    exact c.earlier
  obtain ⟨b, hcap, htext, hrun⟩ := @readText_lines ⟨256, []⟩ (by decide) ending 2 front
  have hprinted := length_printLines ending 2 front
  obtain ⟨turns, hturns⟩ := Nat.exists_eq_add_of_le'
    (show front.length ≤ (printLines ending 2 front ++ tail).length + 1 by
      rw [length_append]
      omega)
  rw [length_append] at hturns
  obtain ⟨b', hend, htext'⟩ := @readText_behind _ _ _ htail b hcap turns (by omega)
  refine ⟨⟨parseTimestampNs c.start.bytes,
    parseTimestampNs c.stop.bytes - parseTimestampNs c.start.bytes, b'.text⟩, ⟨hstart, ?_, ?_⟩, ?_⟩
  · rw [BitVec.toNat_sub_of_le (BitVec.le_of_lt hless), hstart, hstop]
  · rw [← withLines_eq, ← hlines, withLines, foldl_append, htext', htext]
    rfl
  · rw [parseEntry, hcstr, scanTimes_times]
    simp only [bind_eq_bind, length_append, hturns, hrun, hend, bind_some,
      if_pos hless]
    rfl

/-- There is room for the entries. -/
structure Parser.Fits (p : Parser) : Prop where
  le_cap : p.entries.length ≤ p.cap
  cap_pos : 0 < p.cap

theorem store_spec {p : Parser} (h : p.Fits) (e : Entry) :
    ∃ p', p.store e = some p' ∧ p'.Fits ∧ p'.entries = p.entries ++ [e] := by
  have hle := h.le_cap
  have hpos := h.cap_pos
  have hwrite : ∀ cap, p.entries.length < cap → ∃ p',
      (if p.entries.length < cap then some (Parser.mk cap (p.entries ++ [e])) else none) = some p' ∧
        p'.Fits ∧ p'.entries = p.entries ++ [e] := by
    intro cap hroom
    refine ⟨_, if_pos hroom, ⟨?_, Nat.zero_lt_of_lt hroom⟩, rfl⟩
    rw [length_append, length_singleton]
    exact hroom
  rw [Parser.store]
  split
  case isTrue => exact hwrite _ (by omega)
  case isFalse => exact hwrite _ (by omega)

/-- A subtitle of the file adds its entry. -/
theorem parseLines_head (b : Block) {front more : List Line} {tail rest : List Byte}
    (hlines : front ++ more = b.cue.lines) (htail : Behind tail rest more)
    (hlength : 0 < front.length + tail.length) {p : Parser} (hp : p.Fits) :
    ∃ e p', e.Shows b.cue ∧ p'.Fits ∧ p'.entries = p.entries ++ [e] ∧ ∀ turns,
      parseLines (turns + 1) (b.head (printLines b.ending 2 front ++ tail)) p =
        parseLines turns rest p' := by
  have hdigit : ∀ c : Byte, isDigit c = true → c ≠ 0 ∧ c ≠ 0x0a ∧ c ≠ 0x0d := by
    decide +kernel
  have hindex := fun c hc => hdigit c (b.index_digits c hc)
  obtain ⟨line, hline, htrim⟩ := getline_ending (fun h => (hindex _ h).2.1 rfl)
    (fun h => (hindex _ h).2.2 rfl) (b.ending 0) (b.cue.times ++ ((b.ending 1).bytes ++
      (printLines b.ending 2 front ++ tail)))
  have hcstr : cstr b.index = b.index := by
    have happend := Rtsp.cstr_append (fun h => (hindex _ h).1 rfl) []
    rwa [append_nil, show cstr [] = [] from rfl, append_nil] at happend
  obtain ⟨-, hlf, hcr, harrow⟩ := times_spec b.cue
  obtain ⟨line', hline', htrim'⟩ := getline_ending hlf hcr (b.ending 1)
    (printLines b.ending 2 front ++ tail)
  obtain ⟨e, hshows, hentry⟩ := parseEntry_spec b.cue b.ending hlines htail hlength
  obtain ⟨p', hstore, hfits, hentries⟩ := store_spec hp e
  refine ⟨e, p', hshows, hfits, hentries, fun turns => ?_⟩
  rw [parseLines, Block.head]
  simp only [hline, htrim, hline', htrim', hcstr]
  rw [if_neg b.index_ne_nil, if_pos (all_eq_true.mpr b.index_digits), if_neg harrow]
  simp only [bind_eq_bind, hentry, hstore, bind_some]

/-- Empty lines are passed over. -/
theorem parseLines_blank (endings : List Ending) (turns : ℕ) (rest : List Byte) (p : Parser) :
    parseLines (turns + endings.length) (blankLines endings ++ rest) p = parseLines turns rest p := by
  induction endings with
  | nil => rfl
  | cons e endings ih =>
      obtain ⟨line, hline, htrim⟩ := getline_blank e (blankLines endings ++ rest)
      rw [length_cons, ← Nat.add_assoc, parseLines, blankLines, flatMap_cons,
        append_assoc]
      rw [blankLines] at hline ih
      simp only [hline]
      rw [if_pos htrim, ih]

/-- How many turns some subtitles take. -/
def turnsOf (blocks : List Closed) : ℕ := (blocks.map fun c => c.extra.length + 1).sum

/-- The subtitles of a file add their entries. -/
theorem parseLines_blocks (blocks : List Closed) (rest : List Byte) {p : Parser} (hp : p.Fits) :
    ∃ entries p', List.Forall₂ Entry.Shows entries (blocks.map fun c => c.block.cue) ∧ p'.Fits ∧
      p'.entries = p.entries ++ entries ∧ ∀ turns,
        parseLines (turns + turnsOf blocks) (blocks.foldr Closed.before rest) p =
          parseLines turns rest p' := by
  induction blocks generalizing p with
  | nil => exact ⟨[], p, .nil, hp, (append_nil _).symm, fun turns => rfl⟩
  | cons c blocks ih =>
      have hlines := length_pos_iff.mpr c.block.cue.lines_ne_nil
      obtain ⟨e, p₁, hshows, hfits, hentries, hrun⟩ := parseLines_head c.block
        (append_nil _) (.blank c.blank (blankLines c.extra ++ blocks.foldr Closed.before rest))
        (by omega) hp
      obtain ⟨entries, p', hall, hfits', hentries', hrun'⟩ := ih hfits
      refine ⟨e :: entries, p', .cons hshows hall, hfits', ?_, fun turns => ?_⟩
      · rw [hentries', hentries, append_assoc]
        rfl
      · have hturns : turns + turnsOf (c :: blocks) = turns + turnsOf blocks + c.extra.length + 1 := by
          rw [turnsOf, turnsOf, map_cons, sum_cons]
          omega
        rw [hturns, foldr_cons, Closed.before, hrun, parseLines_blank, hrun']

/-- How many turns the end takes. -/
def Last.turns : Last → ℕ
  | nothing => 1
  | noBlank _ => 2
  | noEnding _ => 2

/-- The end of a file adds its entry, if it has one. -/
theorem parseLines_last (last : Last) {p : Parser} (hp : p.Fits) :
    ∃ entries p', List.Forall₂ Entry.Shows entries last.cues ∧ p'.entries = p.entries ++ entries ∧
      ∀ turns, parseLines (turns + last.turns) last.bytes p = some p' := by
  cases last with
  | nothing => exact ⟨[], p, .nil, (append_nil _).symm, fun turns => rfl⟩
  | noBlank b =>
      have hlines := length_pos_iff.mpr b.cue.lines_ne_nil
      obtain ⟨e, p', hshows, -, hentries, hrun⟩ := parseLines_head b (append_nil _) .nothing
        (by omega) hp
      refine ⟨[e], p', .cons hshows .nil, hentries, fun turns => ?_⟩
      have hall := hrun (turns + 1)
      rw [append_nil] at hall
      exact hall
  | noEnding b =>
      have hchars := length_pos_iff.mpr (b.cue.lines.getLast b.cue.lines_ne_nil).ne_nil
      obtain ⟨e, p', hshows, -, hentries, hrun⟩ := parseLines_head b
        (dropLast_append_getLast b.cue.lines_ne_nil)
        (.line (b.cue.lines.getLast b.cue.lines_ne_nil)) (by omega) hp
      exact ⟨[e], p', .cons hshows .nil, hentries, fun turns => hrun (turns + 1)⟩

theorem length_blankLines (endings : List Ending) : endings.length ≤ (blankLines endings).length := by
  induction endings with
  | nil => exact Nat.zero_le _
  | cons e endings ih =>
      rw [blankLines] at ih
      rw [blankLines, flatMap_cons, length_append, length_cons]
      cases e with
      | lf => exact (Nat.add_comm _ _).trans_le (Nat.add_le_add_left ih 1)
      | crlf => exact (Nat.add_comm _ _).trans_le (Nat.add_le_add (by decide) ih)

theorem length_head (b : Block) (rest : List Byte) : rest.length + 1 ≤ (b.head rest).length := by
  have hindex := length_pos_iff.mpr b.index_ne_nil
  rw [Block.head]
  simp only [length_append]
  omega

/-- A file has enough turns. -/
theorem turns_le (blocks : List Closed) (last : Last) :
    turnsOf blocks + last.turns ≤ (blocks.foldr Closed.before last.bytes).length + 1 := by
  induction blocks with
  | nil =>
      have hlast : last.turns ≤ last.bytes.length + 1 := by
        cases last with
        | nothing => exact Nat.le_refl _
        | noBlank b => exact Nat.succ_le_succ ((Nat.le_add_left 1 _).trans (length_head b _))
        | noEnding b => exact Nat.succ_le_succ ((Nat.le_add_left 1 _).trans (length_head b _))
      rw [turnsOf, map_nil, sum_nil, Nat.zero_add]
      exact hlast
  | cons c blocks ih =>
      have hhead := length_head c.block (printLines c.block.ending 2 c.block.cue.lines ++
        (c.blank.bytes ++ (blankLines c.extra ++ blocks.foldr Closed.before last.bytes)))
      have hextra := length_blankLines c.extra
      simp only [length_append] at hhead
      rw [turnsOf] at ih
      rw [turnsOf, map_cons, sum_cons, foldr_cons, Closed.before]
      omega

/-- **Subtitles that are printed are read back**: however their lines end, with empty lines in front
and between, and whether or not the last one has its empty line. -/
theorem parseSrtFile_printFile (lead : List Ending) (blocks : List Closed) (last : Last) :
    ∃ entries, parseSrtFile (printFile lead blocks last) = some entries ∧
      List.Forall₂ Entry.Shows entries (blocks.map (fun c => c.block.cue) ++ last.cues) := by
  obtain ⟨entries, p₁, hall, hfits, hentries, hrun⟩ := parseLines_blocks blocks last.bytes
    (p := ⟨16, []⟩) ⟨Nat.zero_le _, by decide⟩
  obtain ⟨entries', p', hall', hentries', hrun'⟩ := parseLines_last last hfits
  have hlead := length_blankLines lead
  have hturns := turns_le blocks last
  obtain ⟨more, hmore⟩ := Nat.exists_eq_add_of_le'
    (show last.turns + turnsOf blocks + lead.length ≤ (printFile lead blocks last).length + 1 by
      rw [printFile, length_append]
      omega)
  refine ⟨entries ++ entries', ?_, rel_append hall hall'⟩
  rw [parseSrtFile, hmore, ← Nat.add_assoc, ← Nat.add_assoc, printFile, parseLines_blank, hrun, hrun',
    map_some, hentries', hentries, nil_append]

example : parseSrtFile (text "\n1\n00:00:01,500 --> 00:00:02,000\n42\n-->\n\n") =
    some [⟨1500000000, 500000000, text "42\n-->"⟩] := by
  decide +kernel

end Zstreamer.Srt

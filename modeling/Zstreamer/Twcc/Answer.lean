/-
# The extension line in an answer

`zst_webrtc_twcc_inject_answer` copies the lines of an answer, each with a line break of two bytes,
and puts the line of the extension behind every line that begins with `c=IN `.  It goes from line
feed to line feed, and takes one carriage return off the end of a line, where `strtok_r` takes every
carriage return and line feed for a separator.

A text is the bytes before its zero.  Sizes do not wrap around.
-/

import Mathlib.Data.List.TakeWhile
import Zstreamer.Foundation.Tokens
import Zstreamer.Twcc.Stamping

namespace Zstreamer.Twcc

open Foundation List

/-- A carriage return, and a line feed. -/
def cr : Byte := 0x0d
def lf : Byte := 0x0a

/-- The bytes of `"\r\n"`. -/
def isBreak (b : Byte) : Bool := b = cr || b = lf

/-- The line of the extension, in as many bytes as `inj_buf` has. -/
def injBuf (extmapId : BitVec 32) : List Byte :=
  (extmapStr ++ Rtsp.Printf.int extmapId ++ Rtsp.text " " ++ extUri ++ [cr, lf]).take 255

/-- What a line begins with that the extension is put behind. -/
def connection : List Byte := Rtsp.text "c=IN "

/-- A line without a carriage return at its end. -/
def stripCr (raw : List Byte) : List Byte := if raw.getLast? = some cr then raw.dropLast else raw

/-- `memcpy` to `temp`, which has so many bytes. -/
def copyTo (maxLen : ℕ) (temp data : List Byte) : Option (List Byte) :=
  if temp.length + data.length ≤ maxLen then some (temp ++ data) else none

/-- The loop over the lines, for so many turns at most.  `some none` is an error; `none` says that
bytes are written outside of `temp`, or that the loop has not ended. -/
def injectLoop (inj : List Byte) (maxLen : ℕ) : ℕ → List Byte → List Byte →
    Option (Option (List Byte))
  | 0, _, _ => none
  | turns + 1, p, temp =>
      let q := p.dropWhile isBreak
      if q = [] then some (some temp)
      else
        let raw := q.takeWhile (· ≠ lf)
        let line := stripCr raw
        if temp.length + line.length + 2 ≥ maxLen then some none
        else
          (copyTo maxLen temp (line ++ [cr, lf])).bind fun temp =>
            if line.length ≥ 5 ∧ q.take 5 = connection then
              if temp.length + inj.length ≥ maxLen then some none
              else
                (copyTo maxLen temp inj).bind fun temp =>
                  if raw.length = q.length then some (some temp)
                  else injectLoop inj maxLen turns (q.drop (raw.length + 1)) temp
            else if raw.length = q.length then some (some temp)
            else injectLoop inj maxLen turns (q.drop (raw.length + 1)) temp

/-- `zst_webrtc_twcc_inject_answer`: whether it returns 0, and the text afterwards.  `grant` says
whether there is memory for `temp`. -/
def injectAnswer (extmapId : BitVec 32) (grant : Bool) (maxLen : ℕ) (sdp : List Byte) :
    Option (Bool × List Byte) :=
  if extmapId.toInt < 0 then some (true, sdp)
  else if sdp.length + (injBuf extmapId).length + 1 > maxLen then some (false, sdp)
  else if grant = false then some (false, sdp)
  else
    (injectLoop (injBuf extmapId) maxLen (sdp.length + 1) sdp []).bind fun
      | none => some (false, sdp)
      | some temp =>
          if temp.length ≥ maxLen then some (false, sdp)
          else (copyTo maxLen temp [0]).map fun _ => (true, temp)

/-! ## What it is to give -/

/-- The line of the extension. -/
def extmapLine (extmapId : BitVec 32) : List Byte :=
  extmapStr ++ Rtsp.Printf.int extmapId ++ Rtsp.text " " ++ extUri ++ [cr, lf]

/-- A line with its break, and the line of the extension behind it where it belongs. -/
def emit (inj line : List Byte) : List Byte :=
  line ++ [cr, lf] ++ (if line.take 5 = connection then inj else [])

/-- The tokens of the text, each as a line. -/
def expected (extmapId : BitVec 32) (sdp : List Byte) : List Byte :=
  (tokens isBreak sdp).flatMap (emit (extmapLine extmapId))

/-- What a call is to do with a text. -/
structure Injected (extmapId : BitVec 32) (sdp : List Byte) (maxLen : ℕ)
    (outcome : Option (Bool × List Byte)) : Prop where
  inside : outcome ≠ none
  result : ∀ out, outcome = some (true, out) → out = expected extmapId sdp ∧ out.length < maxLen
  unchanged : ∀ out, outcome = some (false, out) → out = sdp

/-- A carriage return behind a byte of a line and not before a line feed, nor at the end. -/
def loneCr : List Byte → Bool
  | x :: c :: y :: rest => (!isBreak x && c = cr && y ≠ lf) || loneCr (c :: y :: rest)
  | _ => false

/-! ## The lines that the loop finds -/

/-- The lines, for so many turns at most. -/
def scanLines : ℕ → List Byte → List (List Byte)
  | 0, _ => []
  | turns + 1, p =>
      let q := p.dropWhile isBreak
      if q = [] then []
      else
        let raw := q.takeWhile (· ≠ lf)
        stripCr raw :: scanLines turns (q.drop (raw.length + 1))

theorem isBreak_iff {b : Byte} : isBreak b = true ↔ b = cr ∨ b = lf := by
  rw [isBreak, Bool.or_eq_true_iff, decide_eq_true_eq, decide_eq_true_eq]

theorem not_isBreak {b : Byte} (hcr : b ≠ cr) (hlf : b ≠ lf) : isBreak b = false :=
  eq_false_of_ne_true fun h => (isBreak_iff.mp h).elim hcr hlf

/-- The first bytes of a line, as the loop looks at them. -/
theorem connection_iff (raw rest : List Byte) :
    ((stripCr raw).length ≥ 5 ∧ (raw ++ rest).take 5 = connection) ↔
      (stripCr raw).take 5 = connection := by
  have hprefix : ∃ more, raw = stripCr raw ++ more := by
    rw [stripCr]
    split
    · exact ⟨_, (dropLast_append_getLast? _ ‹_›).symm⟩
    · exact ⟨[], (append_nil _).symm⟩
  obtain ⟨more, hraw⟩ := hprefix
  constructor
  · rintro ⟨hlong, htake⟩
    rw [hraw, append_assoc, take_append_of_le_length hlong] at htake
    exact htake
  · intro htake
    have hlong : (stripCr raw).length ≥ 5 := by
      have hlength := congrArg List.length htake
      rw [length_take, connection, Rtsp.length_text "c=IN " rfl] at hlength
      simp only [length_cons, length_nil] at hlength
      omega
    refine ⟨hlong, ?_⟩
    conv_lhs => rw [hraw]
    rw [append_assoc, take_append_of_le_length hlong, htake]

/-- What `p` is made of where a line begins. -/
theorem line_split {p : List Byte} (hne : p.dropWhile isBreak ≠ []) :
    let q := p.dropWhile isBreak
    let raw := q.takeWhile (· ≠ lf)
    (∃ x more, raw = x :: more ∧ isBreak x = false) ∧ (∀ b ∈ raw, b ≠ lf) ∧
      (q.drop (raw.length + 1) = [] ∧ q = raw ∨ q = raw ++ lf :: q.drop (raw.length + 1)) := by
  obtain ⟨x, more, hq⟩ := exists_cons_of_ne_nil hne
  have hx : isBreak x = false := by
    have hhead := head?_dropWhile_not isBreak p
    rw [hq, head?_cons] at hhead
    simpa using hhead
  have hxlf : x ≠ lf := by
    rintro rfl
    exact absurd hx (by decide)
  intro q raw
  refine ⟨⟨x, more.takeWhile (· ≠ lf), ?_, hx⟩, ?_, ?_⟩
  · show (p.dropWhile isBreak).takeWhile (· ≠ lf) = _
    rw [hq, takeWhile_cons, if_pos (decide_eq_true hxlf)]
  · intro b hb
    exact of_decide_eq_true (mem_takeWhile_imp (p := fun b => decide (b ≠ lf)) hb)
  · have hsplit : raw ++ q.dropWhile (· ≠ lf) = q := takeWhile_append_dropWhile
    cases hrest : q.dropWhile (· ≠ lf) with
    | nil =>
        rw [hrest, append_nil] at hsplit
        left
        refine ⟨?_, hsplit.symm⟩
        rw [hsplit]
        exact drop_eq_nil_of_le (Nat.le_succ _)
    | cons y rest =>
        have hy : y = lf := by
          have hhead := head?_dropWhile_not (fun b => decide (b ≠ lf)) q
          rw [hrest, head?_cons] at hhead
          simpa using hhead
        rw [hrest, hy] at hsplit
        right
        conv_lhs => rw [← hsplit]
        conv_rhs => rw [← hsplit]
        rw [← drop_drop, drop_left]
        rfl

/-- What `temp` becomes when these lines are put behind it. -/
def withLines (inj : List Byte) (temp : List Byte) (lines : List (List Byte)) : List Byte :=
  temp ++ lines.flatMap (emit inj)

theorem withLines_cons (inj temp line : List Byte) (lines : List (List Byte)) :
    withLines inj temp (line :: lines) = withLines inj (temp ++ emit inj line) lines := by
  rw [withLines, withLines, flatMap_cons, append_assoc]

theorem length_withLines (inj temp : List Byte) (lines : List (List Byte)) :
    temp.length ≤ (withLines inj temp lines).length := by
  rw [withLines, length_append]
  exact Nat.le_add_right _ _

theorem length_dropWhile_le (p : Byte → Bool) (l : List Byte) : (l.dropWhile p).length ≤ l.length :=
  (dropWhile_sublist p).length_le

theorem scanLines_nil (turns : ℕ) : scanLines turns [] = [] := by
  cases turns <;> rfl

theorem copyTo_of_le {maxLen : ℕ} {temp data : List Byte}
    (h : temp.length + data.length ≤ maxLen) : copyTo maxLen temp data = some (temp ++ data) :=
  if_pos h

/-- **The loop ends and writes inside of `temp`.**  It puts all the lines there, if they leave room
for one more byte. -/
theorem injectLoop_eq (inj : List Byte) (maxLen : ℕ) {turns : ℕ} {p temp : List Byte}
    (hturns : p.length < turns) (htemp : temp.length < maxLen) :
    injectLoop inj maxLen turns p temp =
      some (if (withLines inj temp (scanLines turns p)).length < maxLen then
        some (withLines inj temp (scanLines turns p)) else none) := by
  induction turns generalizing p temp with
  | zero => exact absurd hturns (Nat.not_lt_zero _)
  | succ turns ih =>
      rw [injectLoop, scanLines]
      dsimp only
      by_cases hend : p.dropWhile isBreak = []
      · rw [if_pos hend, if_pos hend, withLines, flatMap_nil, append_nil, if_pos htemp]
      · rw [if_neg hend, if_neg hend]
        obtain ⟨⟨x, more, hraw, -⟩, -, hrest⟩ := line_split hend
        have hshort := length_dropWhile_le isBreak p
        generalize hq : p.dropWhile isBreak = q at *
        generalize hline : q.takeWhile (· ≠ lf) = raw at *
        have hpos : 0 < raw.length := by rw [hraw]; exact Nat.succ_pos _
        have hinside : raw.length ≤ q.length := by
          rw [← hline]
          exact (takeWhile_sublist _).length_le
        have hfirst : ((stripCr raw).length ≥ 5 ∧ q.take 5 = connection) ↔
            (stripCr raw).take 5 = connection := by
          rcases hrest with ⟨-, hwhole⟩ | hwhole
          · have hiff := connection_iff raw []
            rw [append_nil] at hiff
            rw [hwhole]
            exact hiff
          · have hiff := connection_iff raw (lf :: q.drop (raw.length + 1))
            rwa [← hwhole] at hiff
        simp only [hfirst]
        rw [withLines_cons]
        have hlater := length_withLines inj (temp ++ emit inj (stripCr raw))
          (scanLines turns (q.drop (raw.length + 1)))
        -- how the loop goes on when the line has been put there
        have htail : (temp ++ emit inj (stripCr raw)).length < maxLen →
            (if raw.length = q.length then some (some (temp ++ emit inj (stripCr raw)))
              else injectLoop inj maxLen turns (q.drop (raw.length + 1))
                (temp ++ emit inj (stripCr raw))) =
            some (if (withLines inj (temp ++ emit inj (stripCr raw))
                (scanLines turns (q.drop (raw.length + 1)))).length < maxLen then
              some (withLines inj (temp ++ emit inj (stripCr raw))
                (scanLines turns (q.drop (raw.length + 1)))) else none) := by
          intro hroom
          by_cases hlast : raw.length = q.length
          · have hnil : q.drop (raw.length + 1) = [] := drop_eq_nil_of_le (by omega)
            rw [if_pos hlast, hnil, scanLines_nil, withLines, flatMap_nil, append_nil,
              if_pos hroom]
          · rw [if_neg hlast, ih (by rw [length_drop]; omega) hroom]
        have hbreak : (stripCr raw ++ [cr, lf]).length = (stripCr raw).length + 2 :=
          length_append
        by_cases hconnection : (stripCr raw).take 5 = connection
        · have hemit : emit inj (stripCr raw) = stripCr raw ++ [cr, lf] ++ inj := by
            rw [emit, if_pos hconnection]
          rw [hemit, length_append, length_append, hbreak] at hlater htail
          rw [hemit]
          split
          case isTrue hfull => rw [if_neg (by omega)]
          case isFalse hroom =>
            rw [copyTo_of_le (by omega), Option.bind_some, length_append, hbreak]
            split
            case isTrue hfull => rw [if_neg (by omega)]
            case isFalse hmore =>
              rw [copyTo_of_le (by rw [length_append]; omega), Option.bind_some,
                append_assoc]
              exact htail (by omega)
        · have hemit : emit inj (stripCr raw) = stripCr raw ++ [cr, lf] := by
            rw [emit, if_neg hconnection, append_nil]
          rw [hemit, length_append, hbreak] at hlater htail
          rw [hemit]
          split
          case isTrue hfull => rw [if_neg (by omega)]
          case isFalse hroom =>
            rw [copyTo_of_le (by omega), Option.bind_some]
            exact htail (by omega)

/-! ## Lines and tokens -/

theorem stripCr_cons (x : Byte) {l : List Byte} (hl : l ≠ []) :
    stripCr (x :: l) = x :: stripCr l := by
  obtain ⟨y, more, rfl⟩ := exists_cons_of_ne_nil hl
  rw [stripCr, stripCr, getLast?_cons_cons]
  split
  case isTrue => rfl
  case isFalse => rfl

/-- Only a carriage return at the end makes a line longer than what is copied. -/
theorem stripCr_or (raw : List Byte) : raw = stripCr raw ∨ raw = stripCr raw ++ [cr] := by
  rw [stripCr]
  split
  case isTrue h => exact Or.inr (dropLast_append_getLast? _ h).symm
  case isFalse => exact Or.inl rfl

theorem loneCr_break {x : Byte} (hx : isBreak x = true) (l : List Byte) :
    loneCr (x :: l) = loneCr l := by
  match l with
  | [] => rfl
  | [_] => rfl
  | c :: y :: rest => rw [loneCr, hx, Bool.not_true, Bool.false_and, Bool.false_and, Bool.false_or]

theorem loneCr_dropWhile (p : List Byte) : loneCr (p.dropWhile isBreak) = loneCr p := by
  induction p with
  | nil => rfl
  | cons x p ih =>
      rw [dropWhile_cons]
      split
      case isTrue hx => rw [ih, loneCr_break hx]
      case isFalse => rfl

theorem isBreak_lf : isBreak lf = true := by decide

/-- A line feed parts the carriage returns before it from those behind it. -/
theorem loneCr_append_lf (raw rest : List Byte) :
    loneCr (raw ++ lf :: rest) = (loneCr raw || loneCr rest) := by
  induction raw with
  | nil => exact loneCr_break isBreak_lf rest
  | cons x raw ih =>
      match raw, ih with
      | [], _ =>
          cases rest with
          | nil => rfl
          | cons y rest =>
              show (_ || loneCr (lf :: y :: rest)) = _
              rw [loneCr_break isBreak_lf, show decide (lf = cr) = false from by decide,
                Bool.and_false, Bool.false_and, Bool.false_or]
              rfl
      | [c], ih =>
          show (_ || loneCr ([c] ++ lf :: rest)) = _
          rw [ih, show decide (lf ≠ lf) = false from by decide, Bool.and_false, Bool.false_or]
          rfl
      | c :: y :: more, ih =>
          show (_ || loneCr (c :: y :: more ++ lf :: rest)) = _
          rw [ih, ← Bool.or_assoc]
          rfl

/-- In a line a carriage return is copied when it stands alone. -/
theorem loneCr_iff_mem {raw : List Byte} (hraw : ∀ b ∈ raw, b ≠ lf) {x : Byte}
    (hfirst : raw.head? = some x) (hx : isBreak x = false) :
    loneCr raw = true ↔ cr ∈ stripCr raw := by
  have hxcr : x ≠ cr := by
    rintro rfl
    exact absurd hx (by decide)
  induction raw generalizing x with
  | nil => exact absurd hfirst (by simp)
  | cons a raw ih =>
      obtain rfl : a = x := Option.some.inj hfirst
      match raw, hraw, ih with
      | [], _, _ =>
          rw [stripCr, getLast?_singleton, if_neg fun h => hxcr (Option.some.inj h)]
          exact ⟨fun h => absurd h Bool.false_ne_true,
            fun h => absurd (mem_singleton.mp h).symm hxcr⟩
      | [c], _, _ =>
          rw [stripCr_cons _ (cons_ne_nil _ _), mem_cons, or_iff_right hxcr.symm, stripCr,
            getLast?_singleton]
          refine ⟨fun h => absurd h Bool.false_ne_true, fun h => ?_⟩
          split at h
          case isTrue => exact absurd h not_mem_nil
          case isFalse hc => exact absurd (congrArg some (mem_singleton.mp h).symm) hc
      | c :: y :: rest, hraw, ih =>
          have hlater : ∀ b ∈ c :: y :: rest, b ≠ lf := fun b hb => hraw b (mem_cons_of_mem _ hb)
          rw [stripCr_cons _ (cons_ne_nil _ _), mem_cons, or_iff_right hxcr.symm, loneCr, hx,
            Bool.not_false, Bool.true_and]
          by_cases hc : c = cr
          · have hy : y ≠ lf := hlater y (mem_cons_of_mem _ mem_cons_self)
            rw [decide_eq_true hc, decide_eq_true hy, stripCr_cons _ (cons_ne_nil _ _), hc]
            exact ⟨fun _ => mem_cons_self, fun _ => rfl⟩
          · have hcbreak := not_isBreak hc (hlater c mem_cons_self)
            rw [decide_eq_false hc, Bool.false_and, Bool.false_or]
            exact ih hlater rfl hcbreak hc

/-- No line has a carriage return when none stands alone. -/
theorem scanLines_clean_iff {turns : ℕ} {p : List Byte} (hturns : p.length < turns) :
    (∀ line ∈ scanLines turns p, cr ∉ line) ↔ loneCr p = false := by
  induction turns generalizing p with
  | zero => exact absurd hturns (Nat.not_lt_zero _)
  | succ turns ih =>
      rw [scanLines, ← loneCr_dropWhile p]
      dsimp only
      by_cases hend : p.dropWhile isBreak = []
      · rw [if_pos hend, hend]
        exact ⟨fun _ => rfl, fun _ _ h => absurd h not_mem_nil⟩
      · rw [if_neg hend]
        obtain ⟨⟨x, more, hraw, hx⟩, hlf, hrest⟩ := line_split hend
        have hshort := length_dropWhile_le isBreak p
        generalize hq : p.dropWhile isBreak = q at *
        generalize hline : q.takeWhile (· ≠ lf) = raw at *
        have hsplit : loneCr q = (loneCr raw || loneCr (q.drop (raw.length + 1))) := by
          rcases hrest with ⟨hnil, hwhole⟩ | hwhole
          · rw [hnil, hwhole]
            exact (Bool.or_false _).symm
          · conv_lhs => rw [hwhole]
            exact loneCr_append_lf _ _
        have hmem := loneCr_iff_mem hlf (by rw [hraw]; rfl) hx
        have hlater : (q.drop (raw.length + 1)).length < turns := by
          rw [length_drop]
          have hpos : 0 < q.length := length_pos_of_ne_nil hend
          omega
        rw [forall_mem_cons, ih hlater, hsplit, Bool.or_eq_false_iff, ← hmem,
          Bool.not_eq_true]

/-- Lines without carriage returns are the tokens. -/
theorem scanLines_eq_tokens {turns : ℕ} {p : List Byte} (hturns : p.length < turns)
    (hclean : ∀ line ∈ scanLines turns p, cr ∉ line) : scanLines turns p = tokens isBreak p := by
  induction turns generalizing p with
  | zero => exact absurd hturns (Nat.not_lt_zero _)
  | succ turns ih =>
      rw [← tokens_dropWhile p]
      rw [scanLines] at hclean ⊢
      dsimp only at hclean ⊢
      by_cases hend : p.dropWhile isBreak = []
      · rw [if_pos hend, hend]
        rfl
      · rw [if_neg hend] at hclean ⊢
        obtain ⟨⟨x, more, hraw, hx⟩, hlf, hrest⟩ := line_split hend
        have hshort := length_dropWhile_le isBreak p
        generalize hq : p.dropWhile isBreak = q at *
        generalize hline : q.takeWhile (· ≠ lf) = raw at *
        rw [forall_mem_cons] at hclean
        have hlater : (q.drop (raw.length + 1)).length < turns := by
          rw [length_drop]
          have hpos : 0 < q.length := length_pos_of_ne_nil hend
          omega
        have hsub : ∀ b ∈ stripCr raw, b ∈ raw := by
          intro b hb
          rcases stripCr_or raw with h | h
          · rw [h]
            exact hb
          · rw [h]
            exact mem_append_left _ hb
        have hsep : ∀ b ∈ stripCr raw, isBreak b = false := fun b hb =>
          not_isBreak (fun h => hclean.1 (h ▸ hb)) (hlf b (hsub b hb))
        have hne : stripCr raw ≠ [] := by
          intro hnil
          rcases stripCr_or raw with h | h
          · rw [hnil, hraw] at h
            exact absurd h (cons_ne_nil _ _)
          · rw [hnil, hraw] at h
            obtain rfl : x = cr := (List.cons.inj h).1
            exact absurd hx (by decide)
        -- a carriage return at the end of the line is one more separator
        have htoken : tokens isBreak raw = [stripCr raw] := by
          rcases stripCr_or raw with h | h
          · conv_lhs => rw [h]
            exact tokens_eq_singleton hne hsep
          · conv_lhs => rw [h]
            rw [tokens_append_cons _ _ (by decide), tokens_eq_singleton hne hsep]
            rfl
        rw [ih hlater hclean.2]
        rcases hrest with ⟨hnil, hwhole⟩ | hwhole
        · rw [hnil, hwhole, htoken]
          rfl
        · conv_rhs => rw [hwhole]
          rw [tokens_append_cons _ _ isBreak_lf, htoken]
          rfl

/-! ## Carriage returns and line feeds -/

/-- As many carriage returns as line feeds. -/
def Balanced (l : List Byte) : Prop := l.count cr = l.count lf

theorem balanced_extmapLine (extmapId : BitVec 32) : Balanced (extmapLine extmapId) := by
  have hint : ∀ b : Byte, b = cr ∨ b = lf → (Rtsp.Printf.int extmapId).count b = 0 := by
    intro b hb
    refine count_eq_zero.mpr fun hmem => ?_
    rcases Rtsp.Printf.mem_int hmem with h | h
    · rcases hb with rfl | rfl <;> exact absurd h (by decide)
    · rcases hb with rfl | rfl <;> exact absurd h (by decide)
  have hrest : ∀ b : Byte, b = cr ∨ b = lf → (extmapLine extmapId).count b = 1 := by
    intro b hb
    rw [extmapLine, count_append, count_append, count_append, count_append,
      hint b hb]
    rcases hb with rfl | rfl <;> decide +kernel
  rw [Balanced, hrest cr (Or.inl rfl), hrest lf (Or.inr rfl)]

/-- The carriage returns of the lines are those for which there is no line feed. -/
theorem count_lines {inj : List Byte} (hinj : Balanced inj) {lines : List (List Byte)}
    (hlines : ∀ line ∈ lines, lf ∉ line) :
    (lines.flatMap (emit inj)).count cr =
      (lines.flatMap (emit inj)).count lf + (lines.map (count cr)).sum := by
  induction lines with
  | nil => rfl
  | cons line lines ih =>
      rw [forall_mem_cons] at hlines
      have hbehind : (if line.take 5 = connection then inj else []).count cr =
          (if line.take 5 = connection then inj else []).count lf := by
        split
        case isTrue => exact hinj
        case isFalse => rfl
      have hemit : (emit inj line).count cr = (emit inj line).count lf + line.count cr := by
        rw [emit, count_append, count_append, count_append, count_append,
          count_eq_zero.mpr hlines.1, hbehind, show [cr, lf].count cr = 1 from rfl,
          show [cr, lf].count lf = 1 from rfl]
        omega
      rw [flatMap_cons, count_append, count_append, ih hlines.2, hemit,
        map_cons, sum_cons]
      omega

theorem sum_count_eq_zero {lines : List (List Byte)} :
    (lines.map (List.count cr)).sum = 0 ↔ ∀ line ∈ lines, cr ∉ line := by
  rw [List.sum_eq_zero_iff_forall_eq_nat, List.forall_mem_map]
  exact forall₂_congr fun line _ => count_eq_zero

/-- There is no line feed in a line. -/
theorem not_mem_scanLines {turns : ℕ} {p : List Byte} :
    ∀ line ∈ scanLines turns p, lf ∉ line := by
  induction turns generalizing p with
  | zero => exact fun _ h => absurd h not_mem_nil
  | succ turns ih =>
      rw [scanLines]
      dsimp only
      by_cases hend : p.dropWhile isBreak = []
      · rw [if_pos hend]
        exact fun _ h => absurd h not_mem_nil
      · rw [if_neg hend, forall_mem_cons]
        refine ⟨fun hmem => ?_, ih⟩
        obtain ⟨-, hlf, -⟩ := line_split hend
        refine hlf lf ?_ rfl
        rcases stripCr_or ((p.dropWhile isBreak).takeWhile (· ≠ lf)) with h | h
        · rw [h]
          exact hmem
        · rw [h]
          exact mem_append_left _ hmem

/-- The text is the expected one when no carriage return stands alone, and only then. -/
theorem lines_eq_expected_iff (extmapId : BitVec 32) (sdp : List Byte) :
    (scanLines (sdp.length + 1) sdp).flatMap (emit (extmapLine extmapId)) = expected extmapId sdp ↔
      loneCr sdp = false := by
  have hturns : sdp.length < sdp.length + 1 := Nat.lt_succ_self _
  rw [← scanLines_clean_iff hturns]
  constructor
  · intro heq
    have hcode := count_lines (balanced_extmapLine extmapId)
      (@not_mem_scanLines (sdp.length + 1) sdp)
    have htokens := @count_lines _ (balanced_extmapLine extmapId) (tokens isBreak sdp)
      (fun line hline hmem => absurd (sep_of_mem_tokens hline lf hmem) (by decide))
    have hnone : ((tokens isBreak sdp).map (count cr)).sum = 0 :=
      sum_count_eq_zero.mpr fun line hline hmem =>
        absurd (sep_of_mem_tokens hline cr hmem) (by decide)
    rw [heq, expected, htokens, hnone] at hcode
    exact sum_count_eq_zero.mp (by omega)
  · intro hclean
    rw [scanLines_eq_tokens hturns hclean, expected]

/-! ## The call -/

theorem length_extmapLine (extmapId : BitVec 32) : (extmapLine extmapId).length ≤ 255 := by
  have hint := Rtsp.Printf.length_int extmapId
  rw [extmapLine, length_append, length_append, length_append, length_append]
  have hstr : extmapStr.length = 9 := Rtsp.length_text "a=extmap:" rfl
  have huri : extUri.length = 73 := Rtsp.length_text _ rfl
  have hspace : (Rtsp.text " ").length = 1 := Rtsp.length_text " " rfl
  have hbreak : [cr, lf].length = 2 := rfl
  omega

/-- `inj_buf` holds the whole line. -/
theorem injBuf_eq (extmapId : BitVec 32) : injBuf extmapId = extmapLine extmapId :=
  take_of_length_le (length_extmapLine extmapId)

/-- **What a call gives.** -/
theorem injectAnswer_eq {extmapId : BitVec 32} (hid : 0 ≤ extmapId.toInt) (grant : Bool)
    (maxLen : ℕ) (sdp : List Byte) :
    injectAnswer extmapId grant maxLen sdp =
      some (if sdp.length + (extmapLine extmapId).length + 1 ≤ maxLen ∧ grant = true ∧
          ((scanLines (sdp.length + 1) sdp).flatMap (emit (extmapLine extmapId))).length < maxLen then
        (true, (scanLines (sdp.length + 1) sdp).flatMap (emit (extmapLine extmapId)))
      else (false, sdp)) := by
  rw [injectAnswer, if_neg (by omega), injBuf_eq]
  by_cases hfits : sdp.length + (extmapLine extmapId).length + 1 ≤ maxLen
  swap
  · rw [if_pos (by omega), if_neg fun h => hfits h.1]
  rw [if_neg (by omega)]
  cases grant with
  | false => rw [if_pos rfl, if_neg fun h => Bool.false_ne_true h.2.1]
  | true =>
      rw [if_neg Bool.true_eq_false.mp, injectLoop_eq _ _ (Nat.lt_add_one _) (by
        show 0 < maxLen
        omega), Option.bind_some, withLines, nil_append]
      by_cases hroom :
          ((scanLines (sdp.length + 1) sdp).flatMap (emit (extmapLine extmapId))).length < maxLen
      · rw [if_pos hroom, if_pos ⟨hfits, rfl, hroom⟩]
        dsimp only
        rw [if_neg (by omega), copyTo_of_le (by
          rw [length_singleton]
          omega)]
        rfl
      · rw [if_neg hroom, if_neg fun h => hroom h.2.2]

/-- Where the injection does what it is to do, no carriage return stands alone. -/
theorem loneCr_of_injected {extmapId : BitVec 32} (hid : 0 ≤ extmapId.toInt) {sdp : List Byte}
    (hall : ∀ maxLen grant, sdp.length < maxLen →
      Injected extmapId sdp maxLen (injectAnswer extmapId grant maxLen sdp)) :
    loneCr sdp = false := by
  rw [← lines_eq_expected_iff extmapId]
  let maxLen := sdp.length + (extmapLine extmapId).length + 1 +
    ((scanLines (sdp.length + 1) sdp).flatMap (emit (extmapLine extmapId))).length
  have hcall := hall maxLen true (by omega)
  rw [injectAnswer_eq hid, if_pos ⟨by omega, rfl, by omega⟩] at hcall
  exact (hcall.result _ rfl).1

/-- The injection does what it is to do with a text, however much room there is and whether or not
there is memory, when no carriage return stands alone in a line of the text. -/
theorem injected_iff (extmapId : BitVec 32) (hid : 0 ≤ extmapId.toInt) (sdp : List Byte) :
    (∀ maxLen grant, sdp.length < maxLen →
      Injected extmapId sdp maxLen (injectAnswer extmapId grant maxLen sdp)) ↔
      loneCr sdp = false := by
  constructor
  · exact loneCr_of_injected hid
  · intro hclean maxLen grant _
    have heq := (lines_eq_expected_iff extmapId sdp).mpr hclean
    rw [injectAnswer_eq hid]
    refine ⟨Option.some_ne_none _, ?_, ?_⟩
    · intro out hout
      split at hout
      case isTrue hall =>
        obtain rfl := (Prod.mk.inj (Option.some.inj hout)).2
        exact ⟨heq, hall.2.2⟩
      case isFalse => exact absurd (Prod.mk.inj (Option.some.inj hout)).1 (by decide)
    · intro out hout
      split at hout
      case isTrue => exact absurd (Prod.mk.inj (Option.some.inj hout)).1 (by decide)
      case isFalse => exact (Prod.mk.inj (Option.some.inj hout)).2.symm

/-- Two lines of an answer, with a carriage return too many behind the first. -/
def doubledCr : List Byte := Rtsp.text "v=0\r\r\nc=IN IP4 0.0.0.0\r\n"

/-- The carriage return is copied, where the tokenizer takes it off. -/
theorem carriage_return_copied :
    ¬ ∀ maxLen grant, doubledCr.length < maxLen →
      Injected 5 doubledCr maxLen (injectAnswer 5 grant maxLen doubledCr) := by
  intro hall
  have hclean := @loneCr_of_injected 5 (by decide) doubledCr hall
  exact absurd hclean (by decide +kernel)

/-- Two descriptions of a connection; some line feeds are without carriage returns, and there is no
line break at the end. -/
def mixedBreaks : List Byte :=
  Rtsp.text "v=0\n\nc=IN IP4 0.0.0.0\r\nm=video 9 RTP/AVP 96\nc=IN IP4 0.0.0.0"

theorem injected_iff_mixedBreaks :
    Injected 5 mixedBreaks 1024 (injectAnswer 5 true 1024 mixedBreaks) ∧
      (injectAnswer 5 true 1024 mixedBreaks).map Prod.fst = some true :=
  ⟨(injected_iff 5 (by decide) mixedBreaks).mpr (by decide +kernel) 1024 true
    ((Rtsp.length_text _ rfl).trans_lt (by decide)), by decide +kernel⟩

end Zstreamer.Twcc

/-
# Messages of a client

What a client sends is a list of requests and interleaved frames.  A request that is in the
buffer as a whole is parsed as what it means, whatever is behind it, and what is behind it
comes to the front.
-/

import Zstreamer.Foundation.FirstSeen
import Zstreamer.Rtsp.Identifier
import Zstreamer.Rtsp.Receive

namespace Zstreamer.Rtsp

open Foundation List Option

/-- A header of a request: its name and what stands behind the colon. -/
structure HeaderLine where
  name : List Byte
  value : List Byte
  deriving DecidableEq, Repr

/-- A request as it is written. -/
structure RequestText where
  method : List Byte
  uri : List Byte
  version : List Byte
  headers : List HeaderLine
  deriving DecidableEq, Repr

/-- No zero byte, no `\r` and no `\n`. -/
def OneLine (l : List Byte) : Prop := 0 ∉ l ∧ 0x0d ∉ l ∧ 0x0a ∉ l

instance (l : List Byte) : Decidable (OneLine l) := inferInstanceAs (Decidable (_ ∧ _))

namespace HeaderLine

/-- The line. -/
def bytes (hd : HeaderLine) : List Byte := hd.name ++ 0x3a :: hd.value

/-- The value without the spaces in front. -/
def content (hd : HeaderLine) : List Byte := hd.value.dropWhile (· = 0x20)

/-- The identifier of a `Session` header. -/
def identifier (hd : HeaderLine) : List Byte := hd.content.takeWhile (· ≠ 0x3b)

/-- It is a header of this name. -/
def Named (hd : HeaderLine) (name : String) : Prop := SameCase hd.name (text name)

instance (hd : HeaderLine) (name : String) : Decidable (hd.Named name) :=
  inferInstanceAs (Decidable (SameCase _ _))

/-- A header is on one line, and what the server keeps of it has a place. -/
structure Valid (hd : HeaderLine) : Prop where
  name : OneLine hd.name ∧ 0x3a ∉ hd.name
  value : OneLine hd.value
  session : hd.Named "Session" → hd.identifier.length < 32
  transport : hd.Named "Transport" → hd.content.length < 256

end HeaderLine

namespace RequestText

/-- The request line. -/
def requestLine (q : RequestText) : List Byte :=
  q.method ++ 0x20 :: (q.uri ++ 0x20 :: q.version)

/-- The headers, each with the end of its line. -/
def headerLines (headers : List HeaderLine) : List Byte :=
  headers.flatMap fun hd => hd.bytes ++ crlf

/-- The request. -/
def bytes (q : RequestText) : List Byte :=
  q.requestLine ++ (crlf ++ (headerLines q.headers ++ crlf))

/-- The last header of a name. -/
def header (q : RequestText) (name : String) : Option HeaderLine :=
  lastWith (fun hd => decide (hd.Named name)) q.headers

/-- What it means. -/
def meaning (q : RequestText) : Request where
  method := q.method
  uri := q.uri
  cseq := ((q.header "CSeq").map fun hd => atoi hd.content).getD 0
  sessionId := ((q.header "Session").map HeaderLine.identifier).getD []
  transportHdr := ((q.header "Transport").map HeaderLine.content).getD []

/-- A request that is well formed and not too long. -/
structure Valid (q : RequestText) : Prop where
  method : OneLine q.method ∧ 0x20 ∉ q.method ∧ q.method ≠ [] ∧ q.method.length < 16
  /-- What begins so is an interleaved frame. -/
  dollar : q.method.head? ≠ some 0x24
  uri : OneLine q.uri ∧ 0x20 ∉ q.uri ∧ q.uri ≠ [] ∧ q.uri.length < 512
  version : OneLine q.version ∧ q.version ≠ []
  headers : ∀ hd ∈ q.headers, hd.Valid
  size : q.bytes.length ≤ 4096

end RequestText

/-! ## Headers -/

/-- What a header tells. -/
def Request.take (req : Request) (hd : HeaderLine) : Request :=
  if hd.Named "CSeq" then { req with cseq := atoi hd.content }
  else if hd.Named "Session" then { req with sessionId := hd.identifier }
  else if hd.Named "Transport" then { req with transportHdr := hd.content }
  else req

theorem set_append_cons {α : Type*} (front : List α) (a b : α) (back : List α) :
    (front ++ a :: back).set front.length b = front ++ b :: back := by
  rw [set_append_right _ _ le_rfl, Nat.sub_self, set_cons_zero]

/-- What ends a search ends it behind it, too. -/
theorem takeWhile_append_cons {α : Type*} {p : α → Bool} {b : α} (hb : p b = false)
    (l back : List α) : (l ++ b :: back).takeWhile p = l.takeWhile p := by
  induction l with
  | nil => exact takeWhile_cons_of_neg (by rw [hb]; exact Bool.false_ne_true)
  | cons a l ih =>
      rw [cons_append, takeWhile_cons, takeWhile_cons, ih]

theorem OneLine.of_append {front back : List Byte} (h : OneLine (front ++ back)) :
    OneLine front ∧ OneLine back :=
  ⟨⟨fun hmem => h.1 (mem_append_left _ hmem),
      fun hmem => h.2.1 (mem_append_left _ hmem),
      fun hmem => h.2.2 (mem_append_left _ hmem)⟩,
    fun hmem => h.1 (mem_append_right _ hmem),
    fun hmem => h.2.1 (mem_append_right _ hmem),
    fun hmem => h.2.2 (mem_append_right _ hmem)⟩

/-- Bytes go as far as the first one of a kind, or there is none. -/
theorem takeWhile_ne_cases (c : Byte) (l : List Byte) :
    (c ∉ l ∧ l.takeWhile (· ≠ c) = l) ∨
      ∃ more, l = l.takeWhile (· ≠ c) ++ c :: more ∧ c ∉ l.takeWhile (· ≠ c) := by
  induction l with
  | nil => exact .inl ⟨not_mem_nil, rfl⟩
  | cons b l ih =>
      by_cases hb : b = c
      · subst hb
        have hnone : (b :: l).takeWhile (· ≠ b) = [] :=
          takeWhile_cons_of_neg fun hne => of_decide_eq_true hne rfl
        rw [hnone]
        exact .inr ⟨l, rfl, not_mem_nil⟩
      · have hmore : (b :: l).takeWhile (· ≠ c) = b :: l.takeWhile (· ≠ c) :=
          takeWhile_cons_of_pos (decide_eq_true hb)
        have hnot : ∀ {l' : List Byte}, c ∉ l' → c ∉ b :: l' := fun hl' hmem =>
          (mem_cons.mp hmem).elim (fun hsame => hb hsame.symm) hl'
        rw [hmore]
        rcases ih with ⟨hmem, hsame⟩ | ⟨more, hsplit, hmem⟩
        · exact .inl ⟨hnot hmem, congrArg (b :: ·) hsame⟩
        · exact .inr ⟨more, congrArg (b :: ·) hsplit, hnot hmem⟩

/-- **A header is parsed as what it tells**, and stays within its line. -/
theorem parseHeader_eq {hd : HeaderLine} (hvalid : hd.Valid) (tail : List Byte) (req : Request) :
    ∃ front, front.length = hd.bytes.length ∧
      parseHeader (hd.bytes ++ 0 :: tail) req = (front ++ 0 :: tail, req.take hd) := by
  obtain ⟨⟨hzero, -, -⟩, hcolon⟩ := hvalid.name
  obtain ⟨pad, hpad⟩ : ∃ pad, pad = hd.value.takeWhile (· = 0x20) := ⟨_, rfl⟩
  have hsplit : hd.value = pad ++ hd.content := by
    rw [hpad, HeaderLine.content, takeWhile_append_dropWhile]
  have hcontent : 0 ∉ hd.content := (OneLine.of_append (hsplit ▸ hvalid.value)).2.1
  -- the line with its colon replaced, up to the value
  obtain ⟨front, hfront⟩ : ∃ front, front = hd.name ++ 0 :: pad := ⟨_, rfl⟩
  have hmemory : hd.bytes ++ 0 :: tail = hd.name ++ 0x3a :: (hd.value ++ 0 :: tail) := by
    rw [HeaderLine.bytes, append_assoc, cons_append]
  have hfound : strchr (hd.bytes ++ 0 :: tail) 0x3a = some hd.name.length := by
    rw [hmemory, strchr_append hzero hcolon (by decide)]
  have hset : (hd.bytes ++ 0 :: tail).set hd.name.length 0 =
      front ++ (hd.content ++ 0 :: tail) := by
    rw [hmemory, set_append_cons, hsplit, hfront, append_assoc, append_assoc,
      cons_append]
  have hname : cstr (front ++ (hd.content ++ 0 :: tail)) = hd.name := by
    rw [hfront, append_assoc, cons_append, cstr_zero hzero]
  have hplace : headerValue (front ++ (hd.content ++ 0 :: tail)) hd.name.length = front.length := by
    have hrest : (front ++ (hd.content ++ 0 :: tail)).drop (hd.name.length + 1) =
        hd.value ++ 0 :: tail := by
      rw [hsplit, hfront, ← drop_drop, append_assoc, drop_left, append_assoc]
      rfl
    rw [headerValue, hrest, takeWhile_append_cons (by decide), ← hpad, hfront, length_append,
      length_cons]
    omega
  have hlength : front.length + hd.content.length = hd.bytes.length := by
    rw [HeaderLine.bytes, hsplit, hfront]
    simp only [length_append, length_cons]
    omega
  have hwhole : (front ++ hd.content).length = hd.bytes.length := by
    rw [length_append, hlength]
  rw [parseHeader, hfound]
  dsimp only
  rw [hset, hplace, hname, drop_left, cstr_zero hcontent, Request.take]
  by_cases hcseq : hd.Named "CSeq"
  · rw [if_pos hcseq, if_pos (show SameCase _ _ from hcseq)]
    exact ⟨_, hwhole, by rw [append_assoc]⟩
  · rw [if_neg hcseq, if_neg (show ¬ SameCase _ _ from hcseq)]
    by_cases hsession : hd.Named "Session"
    · rw [if_pos hsession, if_pos (show SameCase _ _ from hsession)]
      have hshort : copied 32 hd.identifier = hd.identifier :=
        take_of_length_le (Nat.le_of_lt_succ (hvalid.session hsession))
      have hcases : (0x3b ∉ hd.content ∧ hd.identifier = hd.content) ∨
          ∃ more, hd.content = hd.identifier ++ 0x3b :: more ∧ 0x3b ∉ hd.identifier :=
        takeWhile_ne_cases 0x3b hd.content
      rcases hcases with ⟨hnone, hsame⟩ | ⟨more, hmore, hbefore⟩
      · have hsearch : strchr (hd.content ++ 0 :: tail) 0x3b = none :=
          strchr_eq_none (by rw [cstr_zero hcontent]; exact hnone)
        rw [hsearch]
        dsimp only
        rw [drop_left, cstr_zero hcontent, ← hsame, hshort, hsame]
        exact ⟨_, hwhole, by rw [append_assoc]⟩
      · rw [hmore] at hcontent hwhole
        have hidentifier : 0 ∉ hd.identifier := fun hmem =>
          hcontent (mem_append_left _ hmem)
        have hsearch : strchr (hd.content ++ 0 :: tail) 0x3b = some hd.identifier.length := by
          rw [hmore, append_assoc, cons_append,
            strchr_append hidentifier hbefore (by decide)]
        have hcut : (front ++ (hd.content ++ 0 :: tail)).set
            (front.length + hd.identifier.length) 0 =
            front ++ (hd.identifier ++ 0 :: (more ++ 0 :: tail)) := by
          rw [hmore, append_assoc, cons_append, ← append_assoc,
            ← length_append, set_append_cons, append_assoc]
        rw [hsearch]
        dsimp only
        rw [hcut, drop_left, cstr_zero hidentifier, hshort]
        refine ⟨front ++ (hd.identifier ++ 0 :: more), ?_, ?_⟩
        · rw [← hwhole]
          simp only [length_append, length_cons]
        · simp only [append_assoc, cons_append]
    · rw [if_neg hsession, if_neg (show ¬ SameCase _ _ from hsession)]
      by_cases htransport : hd.Named "Transport"
      · rw [if_pos htransport, if_pos (show SameCase _ _ from htransport), copied,
          take_of_length_le (Nat.le_of_lt_succ (hvalid.transport htransport))]
        exact ⟨_, hwhole, by rw [append_assoc]⟩
      · rw [if_neg htransport, if_neg (show ¬ SameCase _ _ from htransport)]
        exact ⟨_, hwhole, by rw [append_assoc]⟩

/-! ## All headers -/

theorem HeaderLine.Valid.oneLine {hd : HeaderLine} (h : hd.Valid) : OneLine hd.bytes := by
  have hcolon : ∀ {c : Byte}, c ≠ 0x3a → c ∉ hd.name → c ∉ hd.value → c ∉ hd.bytes := by
    intro c hc hname hvalue hmem
    rcases mem_append.mp hmem with hmem | hmem
    · exact hname hmem
    · exact (mem_cons.mp hmem).elim hc hvalue
  obtain ⟨⟨hzero, hcr, hlf⟩, -⟩ := h.name
  exact ⟨hcolon (by decide) hzero h.value.1, hcolon (by decide) hcr h.value.2.1,
    hcolon (by decide) hlf h.value.2.2⟩

theorem HeaderLine.bytes_ne_nil (hd : HeaderLine) : hd.bytes ≠ [] :=
  append_ne_nil_of_right_ne_nil _ (cons_ne_nil _ _)

/-- A line ends where its end is. -/
theorem strstr_crlf {line : List Byte} (hline : OneLine line) (rest : List Byte) :
    strstr (line ++ (crlf ++ rest)) crlf = some line.length := by
  have hhere : strstr (crlf ++ rest) crlf = some 0 := by
    rw [strstr, cstr_append (by decide)]
    exact firstAt_of_prefix (prefix_append _ _)
  have hbehind := strstr_append hline.1 hline.2.1 [0x0a] (crlf ++ rest)
  rw [crlf] at hhere hbehind ⊢
  rw [hbehind, hhere, map_some, Nat.zero_add]

theorem headerLines_cons (hd : HeaderLine) (headers : List HeaderLine) (rest : List Byte) :
    RequestText.headerLines (hd :: headers) ++ rest =
      hd.bytes ++ (crlf ++ (RequestText.headerLines headers ++ rest)) := by
  rw [RequestText.headerLines, flatMap_cons, append_assoc, append_assoc]
  rfl

/-- **The headers are parsed one after the other**, and stay within their lines. -/
theorem parseHeaders_eq {headers : List HeaderLine} (hvalid : ∀ hd ∈ headers, hd.Valid)
    (tail : List Byte) (req : Request) {turns : ℕ} (hturns : headers.length ≤ turns) :
    ∃ front, front.length = (RequestText.headerLines headers).length ∧
      parseHeaders turns ((RequestText.headerLines headers).length - 2)
        (RequestText.headerLines headers ++ tail) req =
        (front ++ tail, headers.foldl Request.take req) := by
  induction headers generalizing req turns with
  | nil =>
      refine ⟨[], rfl, ?_⟩
      cases turns with
      | zero => rfl
      | succ turns => exact if_neg (Nat.lt_irrefl 0)
  | cons hd headers ih =>
      have hd_valid := hvalid hd mem_cons_self
      obtain ⟨turns, rfl⟩ : ∃ m, turns = m + 1 := ⟨turns - 1, by
        rw [length_cons] at hturns
        omega⟩
      have hpos := length_pos_iff.mpr hd.bytes_ne_nil
      have hlength : (RequestText.headerLines (hd :: headers)).length =
          hd.bytes.length + 2 + (RequestText.headerLines headers).length := by
        rw [RequestText.headerLines, flatMap_cons, length_append, length_append]
        rfl
      have hset : (hd.bytes ++ (crlf ++ (RequestText.headerLines headers ++ tail))).set
          hd.bytes.length 0 =
          hd.bytes ++ 0 :: (0x0a :: (RequestText.headerLines headers ++ tail)) :=
        set_append_cons _ _ _ _
      obtain ⟨one, hone, hparse⟩ := parseHeader_eq hd_valid
        (0x0a :: (RequestText.headerLines headers ++ tail)) req
      obtain ⟨front, hfront, hrest⟩ := ih (fun other hother =>
        hvalid other (mem_cons_of_mem hd hother)) (req.take hd) (Nat.le_of_succ_le_succ hturns)
      have hsplit : one ++ 0 :: 0x0a :: (RequestText.headerLines headers ++ tail) =
          (one ++ [0, 0x0a]) ++ (RequestText.headerLines headers ++ tail) := by
        rw [append_assoc]
        rfl
      have hplace : (one ++ [(0 : Byte), 0x0a]).length = hd.bytes.length + 2 := by
        rw [length_append, hone]
        rfl
      have hleft : hd.bytes.length + 2 + (RequestText.headerLines headers).length - 2 -
          (hd.bytes.length + 2) = (RequestText.headerLines headers).length - 2 := by omega
      rw [hlength, headerLines_cons, parseHeaders, if_pos (by omega), strstr_crlf hd_valid.oneLine]
      dsimp only
      rw [if_neg (by omega), hset, hparse]
      dsimp only
      rw [hsplit, ← hplace, drop_left, take_left, hplace, hleft, hrest]
      refine ⟨(one ++ [0, 0x0a]) ++ front, ?_, ?_⟩
      · rw [length_append, hplace, hfront]
      · rw [append_assoc (one ++ [0, 0x0a]), foldl_cons]

/-- The last header of a name counts. -/
theorem lastWith_cons {α : Type*} (kind : α → Bool) (a : α) (l : List α) :
    lastWith kind (a :: l) = (lastWith kind l).or (if kind a then some a else none) := by
  have hone : lastWith kind [a] = if kind a then some a else none := by
    rw [lastWith, filter_cons]
    split <;> rfl
  rw [← hone]
  exact lastWith_append kind [a] l

theorem Request.foldl_take (headers : List HeaderLine) (req : Request) :
    let last (name : String) := lastWith (fun hd : HeaderLine => decide (hd.Named name)) headers
    headers.foldl Request.take req =
      { req with
        cseq := ((last "CSeq").map fun hd => atoi hd.content).getD req.cseq
        sessionId := ((last "Session").map HeaderLine.identifier).getD req.sessionId
        transportHdr := ((last "Transport").map HeaderLine.content).getD req.transportHdr } := by
  induction headers generalizing req with
  | nil => rfl
  | cons hd headers ih =>
      have hdiffer : ∀ {s t : String}, (text s).map lower ≠ (text t).map lower →
          hd.Named s → ¬ hd.Named t := fun hne hnamed => not_sameCase hnamed hne
      have hkeep : ∀ {α : Type} (o : Option HeaderLine) (f : HeaderLine → α) (a : α),
          ((o.or (some hd)).map f).getD a = (o.map f).getD (f hd) := by
        intro α o f a
        cases o <;> rfl
      dsimp only
      rw [foldl_cons, ih, Request.take]
      simp only [lastWith_cons, decide_eq_true_eq]
      by_cases hcseq : hd.Named "CSeq"
      · rw [if_pos hcseq, if_pos hcseq, if_neg (hdiffer (by decide) hcseq),
          if_neg (hdiffer (by decide) hcseq), hkeep]
        simp only [or_none]
      · rw [if_neg hcseq, if_neg hcseq]
        by_cases hsession : hd.Named "Session"
        · rw [if_pos hsession, if_pos hsession, if_neg (hdiffer (by decide) hsession), hkeep]
          simp only [or_none]
        · rw [if_neg hsession, if_neg hsession]
          by_cases htransport : hd.Named "Transport"
          · rw [if_pos htransport, if_pos htransport, hkeep]
            simp only [or_none]
          · rw [if_neg htransport, if_neg htransport]
            simp only [or_none]

/-! ## A whole request -/

/-- What does not begin with the end of a line has no empty line in front. -/
theorem strstr_line {line : List Byte} (hline : OneLine line) {rest : List Byte}
    (hrest : rest.head? ≠ some 0x0d) :
    strstr (line ++ (crlf ++ rest)) (crlf ++ crlf) =
      (strstr rest (crlf ++ crlf)).map (· + (line.length + 2)) := by
  have hsplit : crlf ++ rest = 0x0d :: ([0x0a] ++ rest) := rfl
  have hneedle : crlf ++ crlf = 0x0d :: [0x0a, 0x0d, 0x0a] := rfl
  have hnot : ¬ (0x0d :: [0x0a, 0x0d, 0x0a]) <+: (0x0d : Byte) :: ([0x0a] ++ cstr rest) := by
    rintro ⟨more, hmore⟩
    have hcstr : cstr rest = 0x0d :: 0x0a :: more :=
      (List.cons.inj (List.cons.inj hmore).2).2.symm
    cases rest with
    | nil => cases hcstr
    | cons b rest =>
        rw [cstr, takeWhile_cons] at hcstr
        split at hcstr
        · exact hrest (congrArg some (List.cons.inj hcstr).1)
        · cases hcstr
  have hbehind : strstr (crlf ++ rest) (crlf ++ crlf) =
      (strstr rest (crlf ++ crlf)).map (· + 2) := by
    rw [strstr, cstr_append (by decide), hneedle]
    show firstAt _ ((0x0d : Byte) :: ([0x0a] ++ cstr rest)) = _
    rw [firstAt, if_neg hnot, firstAt_append (by decide), Option.map_map]
    rfl
  rw [hneedle] at hbehind ⊢
  rw [strstr_append hline.1 hline.2.1, hbehind, Option.map_map]
  exact congrArg (fun f => Option.map f _) (funext fun i => by
    show i + 2 + line.length = i + (line.length + 2)
    omega)

/-- The empty line is found behind the last line. -/
theorem strstr_lines {line : List Byte} (hline : OneLine line) {headers : List HeaderLine}
    (hvalid : ∀ hd ∈ headers, hd.Valid) (tail : List Byte) :
    strstr (line ++ (crlf ++ (RequestText.headerLines headers ++ (crlf ++ tail)))) (crlf ++ crlf) =
      some (line.length + (RequestText.headerLines headers).length) := by
  induction headers generalizing line with
  | nil =>
      have hhere : strstr (crlf ++ (crlf ++ tail)) (crlf ++ crlf) = some 0 := by
        rw [← append_assoc, strstr, cstr_append (by decide)]
        exact firstAt_of_prefix (prefix_append _ _)
      have hneedle : crlf ++ crlf = 0x0d :: [0x0a, 0x0d, 0x0a] := rfl
      rw [hneedle] at hhere ⊢
      show strstr (line ++ (crlf ++ (crlf ++ tail))) _ = some (line.length + 0)
      rw [strstr_append hline.1 hline.2.1, hhere, map_some, Nat.zero_add, Nat.add_zero]
  | cons hd headers ih =>
      have hone := hvalid hd mem_cons_self
      have hhead : (RequestText.headerLines (hd :: headers) ++ (crlf ++ tail)).head? ≠
          some 0x0d := by
        rw [headerLines_cons]
        obtain ⟨b, rest, hbytes⟩ := exists_cons_of_ne_nil hd.bytes_ne_nil
        rw [hbytes]
        rintro ⟨⟩
        exact hone.oneLine.2.1 (hbytes ▸ mem_cons_self)
      have hlength : (RequestText.headerLines (hd :: headers)).length =
          hd.bytes.length + 2 + (RequestText.headerLines headers).length := by
        rw [RequestText.headerLines, flatMap_cons, length_append, length_append]
        rfl
      rw [strstr_line hline hhead, headerLines_cons,
        ih hone.oneLine fun other hother => hvalid other (mem_cons_of_mem hd hother),
        map_some, hlength]
      exact congrArg some (by omega)

namespace RequestText

variable {q : RequestText}

theorem Valid.oneLine (h : q.Valid) : OneLine q.requestLine := by
  have hspace : ∀ {c : Byte}, c ≠ 0x20 → c ∉ q.method → c ∉ q.uri → c ∉ q.version →
      c ∉ q.requestLine := by
    intro c hc hmethod huri hversion hmem
    rcases mem_append.mp hmem with hmem | hmem
    · exact hmethod hmem
    · rcases mem_cons.mp hmem with hsame | hmem
      · exact hc hsame
      · rcases mem_append.mp hmem with hmem | hmem
        · exact huri hmem
        · exact (mem_cons.mp hmem).elim hc hversion
  obtain ⟨⟨⟨hzero, hcr, hlf⟩, -⟩, ⟨⟨hzero', hcr', hlf'⟩, -⟩, ⟨hzero'', hcr'', hlf''⟩, -⟩ :=
    And.intro h.method (And.intro h.uri h.version)
  exact ⟨hspace (by decide) hzero hzero' hzero'', hspace (by decide) hcr hcr' hcr'',
    hspace (by decide) hlf hlf' hlf''⟩

theorem length_bytes (q : RequestText) :
    q.bytes.length = q.requestLine.length + 2 + (headerLines q.headers).length + 2 := by
  rw [bytes]
  simp only [length_append]
  show _ + (2 + (_ + 2)) = _
  omega

theorem length_headers_le (headers : List HeaderLine) :
    headers.length ≤ (headerLines headers).length := by
  induction headers with
  | nil => exact le_rfl
  | cons hd headers ih =>
      rw [headerLines, flatMap_cons, length_append, length_append, length_cons]
      rw [headerLines] at ih
      show _ ≤ _ + 2 + _
      omega

/-- The memory in front of what follows a request. -/
theorem bytes_append (q : RequestText) (tail : List Byte) :
    q.bytes ++ tail = q.requestLine ++ (crlf ++ (headerLines q.headers ++ (crlf ++ tail))) := by
  simp only [bytes, append_assoc]

/-- The end of a request is found. -/
theorem Valid.strstr_end (h : q.Valid) (tail : List Byte) :
    strstr (q.bytes ++ tail) (crlf ++ crlf) =
      some (q.requestLine.length + (headerLines q.headers).length) := by
  rw [bytes_append, strstr_lines h.oneLine h.headers]

theorem Valid.looked_eq (h : q.Valid) (tail : List Byte) :
    looked (q.bytes ++ tail) = q.bytes.length := by
  rw [looked, h.strstr_end, length_bytes]
  dsimp only
  omega

/-- What the headers of a request say is its meaning. -/
theorem Valid.meaning_eq (h : q.Valid) :
    q.headers.foldl Request.take ⟨copied 16 q.method, copied 512 q.uri, 0, [], []⟩ = q.meaning := by
  have hmethod : copied 16 q.method = q.method :=
    take_of_length_le (Nat.le_of_lt_succ h.method.2.2.2)
  have huri : copied 512 q.uri = q.uri := take_of_length_le (Nat.le_of_lt_succ h.uri.2.2.2)
  rw [hmethod, huri, Request.foldl_take]
  rfl

/-- **A request is parsed as what it means**, and the end of its last line is left as it was. -/
theorem Valid.parseRtspRequest_eq (h : q.Valid) (tail : List Byte) (bufLen : ℤ) :
    ∃ front, front.length + 2 = q.bytes.length ∧
      Receiver.parseRtspRequest ⟨q.bytes ++ tail, bufLen⟩ =
        .request ⟨Receiver.moveFront (front ++ (crlf ++ tail)) bufLen q.bytes.length,
          bufLen - q.bytes.length⟩ q.meaning := by
  obtain ⟨⟨mzero, -⟩, mspace, mne, -⟩ := h.method
  obtain ⟨⟨uzero, -⟩, uspace, une, -⟩ := h.uri
  obtain ⟨⟨vzero, -⟩, vne⟩ := h.version
  obtain ⟨rest, hrest⟩ : ∃ rest, rest = headerLines q.headers ++ (crlf ++ tail) := ⟨_, rfl⟩
  -- the memory as the spaces and the end of the request line are replaced
  have hline : (q.bytes ++ tail).set q.requestLine.length 0 =
      q.method ++ 0x20 :: (q.uri ++ 0x20 :: (q.version ++ 0 :: 0x0a :: rest)) := by
    rw [bytes_append, ← hrest]
    show (q.requestLine ++ 0x0d :: (0x0a :: rest)).set q.requestLine.length 0 = _
    rw [set_append_cons, requestLine]
    simp only [append_assoc, cons_append]
  have hfirst := strchr_append mzero mspace (by decide)
    (q.uri ++ 0x20 :: (q.version ++ 0 :: 0x0a :: rest))
  have hbehind : ∀ more, (q.method ++ (0 : Byte) :: more).drop (q.method.length + 1) = more := by
    intro more
    rw [← drop_drop, drop_left]
    rfl
  have hsecond := strchr_append uzero uspace (by decide) (q.version ++ 0 :: 0x0a :: rest)
  have hset : (q.method ++ 0 :: (q.uri ++ 0x20 :: (q.version ++ 0 :: 0x0a :: rest))).set
      (q.method.length + 1 + q.uri.length) 0 =
      q.method ++ 0 :: (q.uri ++ 0 :: (q.version ++ 0 :: 0x0a :: rest)) := by
    have hplace : (q.method ++ 0 :: q.uri).length = q.method.length + 1 + q.uri.length := by
      rw [length_append, length_cons]
      omega
    rw [← hplace, ← cons_append, ← append_assoc, set_append_cons, append_assoc,
      cons_append]
  have hversion : (q.method ++ 0 :: (q.uri ++ 0 :: (q.version ++ 0 :: 0x0a :: rest))).drop
      (q.method.length + 1 + q.uri.length + 1) = q.version ++ 0 :: 0x0a :: rest := by
    rw [Nat.add_assoc, ← drop_drop, hbehind, ← drop_drop, drop_left]
    rfl
  obtain ⟨line, hfront⟩ : ∃ line, line =
      q.method ++ 0 :: (q.uri ++ 0 :: (q.version ++ [0, 0x0a])) := ⟨_, rfl⟩
  have hmemory : q.method ++ 0 :: (q.uri ++ 0 :: (q.version ++ 0 :: 0x0a :: rest)) =
      line ++ rest := by
    rw [hfront]
    simp only [append_assoc, cons_append, nil_append]
  have hlength : line.length = q.requestLine.length + 2 := by
    rw [hfront, requestLine]
    simp only [length_append, length_cons, length_nil]
    omega
  have hturns : q.headers.length ≤ (line ++ rest).length := by
    have hle := length_headers_le q.headers
    rw [hrest]
    simp only [length_append]
    omega
  have hleft : q.requestLine.length + (headerLines q.headers).length -
      (q.requestLine.length + 2) = (headerLines q.headers).length - 2 := by omega
  obtain ⟨headers, hheaders, hparse⟩ := parseHeaders_eq h.headers (crlf ++ tail)
    ⟨copied 16 q.method, copied 512 q.uri, 0, [], []⟩ hturns
  rw [← hrest] at hparse
  have hwhole : q.requestLine.length + (headerLines q.headers).length + 4 = q.bytes.length := by
    rw [length_bytes]
    omega
  refine ⟨line ++ headers, ?_, ?_⟩
  · rw [length_append, hlength, hheaders, length_bytes]
  · rw [Receiver.parseRtspRequest, h.strstr_end]
    dsimp only
    rw [bytes_append, strstr_crlf h.oneLine, ← bytes_append]
    dsimp only
    rw [hline, hfirst]
    dsimp only
    rw [set_append_cons, hbehind, hsecond]
    dsimp only
    rw [hset, cstr_zero mzero, hbehind, cstr_zero uzero, hversion, cstr_zero vzero,
      if_neg (not_or.mpr ⟨mne, not_or.mpr ⟨une, vne⟩⟩), hmemory, ← hlength, drop_left,
      take_left, hlength, hleft, hparse, h.meaning_eq, hwhole, append_assoc]

/-! ## A part of a request -/

theorem Valid.zero_notMem (h : q.Valid) : 0 ∉ q.bytes := by
  have hend : (0 : Byte) ∉ crlf := by decide
  intro hmem
  rcases mem_append.mp hmem with hmem | hmem
  · exact h.oneLine.1 hmem
  · rcases mem_append.mp hmem with hmem | hmem
    · exact hend hmem
    · rcases mem_append.mp hmem with hmem | hmem
      · obtain ⟨hd, hhd, hmem⟩ := mem_flatMap.mp hmem
        exact (mem_append.mp hmem).elim (h.headers hd hhd).oneLine.1 hend
      · exact hend hmem

/-- **A request that is not there as a whole has no end**, and the search goes on behind it. -/
theorem Valid.lt_looked (h : q.Valid) {part more : List Byte} (hpart : part ++ more = q.bytes)
    (hmore : more ≠ []) (stale : List Byte) : part.length < looked (part ++ stale) := by
  have hlength : part.length < q.bytes.length := by
    rw [← hpart, length_append]
    exact Nat.lt_add_of_pos_right (length_pos_iff.mpr hmore)
  have hzero : 0 ∉ part := fun hmem =>
    h.zero_notMem (hpart ▸ mem_append_left more hmem)
  rw [looked]
  cases hfound : strstr (part ++ stale) (crlf ++ crlf) with
  | none =>
      rw [cstr_append hzero, length_append]
      show part.length < part.length + (cstr stale).length + 1
      omega
  | some i =>
      show part.length < i + 4
      by_contra hinside
      rw [strstr, cstr_append hzero] at hfound
      -- then it would be in the request, and not at its end
      have hbytes : cstr (q.bytes ++ []) = q.bytes := by
        rw [cstr_append h.zero_notMem]
        exact append_nil _
      have hend := h.strstr_end []
      rw [strstr, hbytes] at hend
      have hneedle : crlf ++ crlf <+: part.drop i := by
        have hpre := prefix_of_firstAt hfound
        rw [drop_append_of_le_length (by omega)] at hpre
        refine prefix_of_prefix_length_le hpre (prefix_append _ _) ?_
        rw [length_drop]
        show 4 ≤ _
        omega
      have hle := firstAt_le (i := i) hend (by
        rw [← hpart, drop_append_of_le_length (by omega)]
        exact hneedle.trans (prefix_append _ _))
      rw [length_bytes] at hlength
      omega

end RequestText

end Zstreamer.Rtsp

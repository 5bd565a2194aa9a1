/-
# Replies are well framed

A reply is a status line, headers that end in `\r\n`, an empty line, and as many bytes of a body as
its `Content-Length` says.  All replies of the handlers are, but for two: that to a PLAY whose
`RTP-Info` does not fit in its array, and that to a SETUP for multicast without a Transport header.
-/

import Zstreamer.Rtsp.Replies

namespace Zstreamer.Rtsp

open Foundation List

/-! ## What a reply looks like -/

/-- A header. -/
@[ext]
structure Field where
  name : List Byte
  value : List Byte

/-- `name: value` -/
def Field.line (f : Field) : List Byte := f.name ++ 0x3a :: 0x20 :: f.value

/-- A character of a name. -/
def IsNameChar (b : Byte) : Prop := 0x41 ≤ b ∧ b ≤ 0x5a ∨ 0x61 ≤ b ∧ b ≤ 0x7a ∨ b = 0x2d

instance : DecidablePred IsNameChar := fun _ => inferInstanceAs (Decidable (_ ∨ _ ∨ _))

/-- A header that has a name, and is on one line. -/
structure Field.Sound (f : Field) : Prop where
  name_ne : f.name ≠ []
  name_chars : ∀ b ∈ f.name, IsNameChar b
  value : NoBreak f.value

/-- Headers one behind the other. -/
def fieldBytes (fields : List Field) : List Byte := fields.flatMap fun f => f.line ++ crlf

/-- The header that says how long the body is. -/
def contentLength : List Byte := text "Content-Length"

/-- A reply of these parts. -/
structure Framed (bytes status : List Byte) (fields : List Field) (body : List Byte) : Prop where
  parts : bytes = status ++ (crlf ++ (fieldBytes fields ++ (crlf ++ body)))
  code : ∃ code phrase, status = text "RTSP/1.0 " ++ (Printf.decimal code ++ (text " " ++ phrase))
  oneLine : NoBreak status
  sound : ∀ f ∈ fields, f.Sound
  has_length : ∃ f ∈ fields, f.name = contentLength
  length : ∀ f ∈ fields, f.name = contentLength → f.value = Printf.decimal body.length

/-- A reply has these parts. -/
def WellFramed (bytes : List Byte) : Prop := ∃ status fields body, Framed bytes status fields body

/-! ## Lines -/

/-- Without a line feed there is no end of a line. -/
theorem noBreak_of_notMem {l : List Byte} (hzero : 0 ∉ l) (hlf : 0x0a ∉ l) : NoBreak l := by
  refine ⟨hzero, isChain_iff_getElem.mpr fun i hi hbreak => hlf ?_⟩
  rw [← hbreak.2]
  exact getElem_mem _

theorem NoBreak.append {front back : List Byte} (hfront : NoBreak front) (hback : NoBreak back)
    (hjoin : 0x0d ∉ front.getLast? ∨ 0x0a ∉ back.head?) : NoBreak (front ++ back) := by
  refine ⟨fun hzero => (mem_append.mp hzero).elim hfront.1 hback.1,
    isChain_append.mpr ⟨hfront.2, hback.2, fun a ha b hb hbreak => ?_⟩⟩
  rcases hjoin with hcr | hlf
  · exact hcr (hbreak.1 ▸ ha)
  · exact hlf (hbreak.2 ▸ hb)

theorem NoBreak.part {l part : List Byte} (h : NoBreak l) (hpart : part <:+: l) : NoBreak part :=
  ⟨fun hzero => h.1 (hpart.subset hzero), IsChain.infix h.2 hpart⟩

/-- A name has no colon, no zero byte and no end of a line. -/
theorem nameChar_spec : ∀ b : Byte, IsNameChar b → b ≠ 0x3a ∧ b ≠ 0 ∧ b ≠ 0x0a := by
  decide +kernel

/-- A header is on one line. -/
theorem Field.Sound.noBreak {f : Field} (h : f.Sound) : NoBreak f.line := by
  have hname : NoBreak f.name := noBreak_of_notMem
    (fun hmem => (nameChar_spec _ (h.name_chars _ hmem)).2.1 rfl)
    (fun hmem => (nameChar_spec _ (h.name_chars _ hmem)).2.2 rfl)
  have hcolon : NoBreak [0x3a, 0x20] := noBreak_of_notMem (by decide) (by decide)
  have hhead : NoBreak (f.name ++ [0x3a, 0x20]) := by
    refine hname.append hcolon (.inl fun hlast => ?_)
    have hmem := mem_of_getLast? hlast
    exact absurd (h.name_chars _ hmem) (by decide)
  have hall := hhead.append h.value (.inl (by
    rw [getLast?_append_of_ne_nil _ (cons_ne_nil _ _)]
    decide))
  rwa [append_assoc] at hall

/-- The first end of a line is where it is. -/
theorem line_unique {l₁ l₂ r₁ r₂ : List Byte} (h₁ : NoBreak l₁) (h₂ : NoBreak l₂)
    (heq : l₁ ++ (crlf ++ r₁) = l₂ ++ (crlf ++ r₂)) : l₁ = l₂ ∧ r₁ = r₂ := by
  have hshort : ∀ {l r r' : List Byte} {b : Byte}, NoBreak (b :: l) →
      crlf ++ r ≠ b :: l ++ (crlf ++ r') := by
    intro l r r' b hl heq
    obtain ⟨rfl, htail⟩ := List.cons.inj heq
    cases l with
    | nil => exact absurd (List.cons.inj htail).1 (by decide)
    | cons c l =>
        obtain ⟨rfl, -⟩ := List.cons.inj htail
        exact (isChain_cons_cons.mp hl.2).1 ⟨rfl, rfl⟩
  have htail : ∀ {l : List Byte} {b : Byte}, NoBreak (b :: l) → NoBreak l := fun h =>
    h.part (suffix_cons _ _).isInfix
  induction l₁ generalizing l₂ with
  | nil =>
      cases l₂ with
      | nil => exact ⟨rfl, append_cancel_left heq⟩
      | cons b l₂ => exact absurd heq (hshort h₂)
  | cons a l₁ ih =>
      cases l₂ with
      | nil => exact absurd heq.symm (hshort h₁)
      | cons b l₂ =>
          obtain ⟨rfl, hrest⟩ := List.cons.inj heq
          obtain ⟨rfl, hr⟩ := ih (htail h₁) (htail h₂) hrest
          exact ⟨rfl, hr⟩

/-- A line is the line of one header. -/
theorem Field.Sound.eq_of_line {f g : Field} (hf : f.Sound) (hg : g.Sound) (h : f.line = g.line) :
    f = g := by
  have htake : ∀ {f : Field}, f.Sound → f.line.takeWhile (fun b => b ≠ 0x3a) = f.name := by
    intro f hf
    rw [Field.line, takeWhile_append_of_pos fun b hb =>
      decide_eq_true (nameChar_spec b (hf.name_chars b hb)).1,
      takeWhile_cons_of_neg (by decide), append_nil]
  have hname : f.name = g.name := by rw [← htake hf, ← htake hg, h]
  rw [Field.line, Field.line, hname] at h
  have hvalue := append_cancel_left h
  exact Field.ext hname (List.cons.inj (List.cons.inj hvalue).2).2

/-- The headers of a reply are what they are. -/
theorem fields_unique {fields₁ fields₂ : List Field} (h₁ : ∀ f ∈ fields₁, f.Sound)
    (h₂ : ∀ f ∈ fields₂, f.Sound) {body₁ body₂ : List Byte}
    (heq : fieldBytes fields₁ ++ (crlf ++ body₁) = fieldBytes fields₂ ++ (crlf ++ body₂)) :
    fields₁ = fields₂ := by
  have hnil : NoBreak [] := noBreak_of_notMem not_mem_nil not_mem_nil
  have hne : ∀ {f : Field}, f.line ≠ [] := fun {f} =>
    append_ne_nil_of_right_ne_nil f.name (cons_ne_nil _ _)
  have hcons : ∀ (f : Field) (fields : List Field) (body : List Byte),
      fieldBytes (f :: fields) ++ (crlf ++ body) =
        f.line ++ (crlf ++ (fieldBytes fields ++ (crlf ++ body))) := by
    intro f fields body
    rw [fieldBytes, flatMap_cons, append_assoc, append_assoc]
    rfl
  induction fields₁ generalizing fields₂ with
  | nil =>
      cases fields₂ with
      | nil => rfl
      | cons f fields₂ =>
          rw [hcons] at heq
          exact absurd (line_unique hnil (h₂ f mem_cons_self).noBreak heq).1.symm hne
  | cons f fields₁ ih =>
      cases fields₂ with
      | nil =>
          rw [hcons] at heq
          exact absurd (line_unique (h₁ f mem_cons_self).noBreak hnil heq).1 hne
      | cons g fields₂ =>
          rw [hcons, hcons] at heq
          have hf := h₁ f mem_cons_self
          have hg := h₂ g mem_cons_self
          obtain ⟨hline, hrest⟩ := line_unique hf.noBreak hg.noBreak heq
          have hsame := hf.eq_of_line hg hline
          rw [hsame, ih (fun x hx => h₁ x (mem_cons_of_mem f hx))
            (fun x hx => h₂ x (mem_cons_of_mem g hx)) hrest]

/-- A reply with headers none of which says the length is not well framed. -/
theorem not_wellFramed {status : List Byte} {fields : List Field} {body : List Byte}
    (hstatus : NoBreak status) (hfields : ∀ f ∈ fields, f.Sound ∧ f.name ≠ contentLength) :
    ¬ WellFramed (status ++ (crlf ++ (fieldBytes fields ++ (crlf ++ body)))) := by
  rintro ⟨status', fields', body', h⟩
  obtain ⟨-, hrest⟩ := line_unique hstatus h.oneLine h.parts
  obtain rfl := fields_unique (fun f hf => (hfields f hf).1) h.sound hrest
  obtain ⟨f, hf, hname⟩ := h.has_length
  exact (hfields f hf).2 hname

/-! ## The text of a reply -/

theorem append_fits {size : ℕ} {buf str : List Byte} (h : buf.length + str.length < size) :
    appendSnprintf size buf str = buf ++ str := by
  rw [appendSnprintf, if_pos (by omega), if_pos h]

/-- An array never counts more bytes than it has. -/
theorem length_append_le {size : ℕ} {buf : List Byte} (h : buf.length ≤ size) (str : List Byte) :
    (appendSnprintf size buf str).length ≤ size := by
  rw [appendSnprintf]
  split
  · split
    · rw [length_append]
      omega
    · rw [length_append, length_append, length_take, length_singleton]
      omega
  · exact h

theorem length_foldl_append_le {size : ℕ} (strs : List (List Byte)) {buf : List Byte}
    (h : buf.length ≤ size) : (strs.foldl (appendSnprintf size) buf).length ≤ size := by
  induction strs generalizing buf with
  | nil => exact h
  | cons str strs ih => exact ih (length_append_le h str)

theorem header_eq (name : String) (value : List Byte) :
    header name value = Field.line ⟨text name, value⟩ ++ crlf := by
  rw [header, Field.line, append_assoc]
  rfl

/-- The headers that all replies have. -/
def baseFields (w : Wire) (cseq : BitVec 32) (session : List Byte) : List Field :=
  [⟨text "CSeq", Printf.decimal cseq.toNat⟩, ⟨text "Date", w.date⟩, ⟨text "Server", text "zstreamer/1.0"⟩] ++
    if session = [] then [] else [⟨text "Session", session⟩]

/-- The line that a reply begins with. -/
def statusLine (code : ℕ) : List Byte :=
  text "RTSP/1.0 " ++ (Printf.decimal code ++ (text " " ++ text (reasonPhrase code)))

theorem length_reasonPhrase (code : ℕ) : (text (reasonPhrase code)).length ≤ 26 := by
  rw [reasonPhrase.eq_def]
  split <;> exact (length_text _ rfl).trans_le (by decide)

theorem length_line (label : String) (value : List Byte) :
    (line label value).length = (text label).length + value.length + 2 := by
  rw [line, length_append, length_append]
  rfl

theorem length_header (name : String) (value : List Byte) :
    (header name value).length = (text name).length + value.length + 4 := by
  rw [header, length_append, length_cons, length_cons, length_append]
  rfl

/-- What is written behind each other has a place, if the parts are no longer than this. -/
theorem assembled_eq (plain : Prop) [Decidable plain] {head session extra content body : List Byte}
    (hhead : head.length ≤ 200) (hsession : session.length ≤ 42) (hextra : extra.length < 1200)
    (hcontent : content.length ≤ 30) (hbody : body.length ≤ 4096) :
    (let buf := appendSnprintf 8192 [] head
      let buf := if plain then buf else appendSnprintf 8192 buf session
      let buf := appendSnprintf 8192 buf extra
      let buf := appendSnprintf 8192 buf content
      if buf.length + body.length ≤ 8192 then buf ++ body else buf) =
        head ++ ((if plain then [] else session) ++ (extra ++ (content ++ body))) ∧
      (let buf := appendSnprintf 8192 [] head
        let buf := if plain then buf else appendSnprintf 8192 buf session
        let buf := appendSnprintf 8192 buf extra
        let buf := appendSnprintf 8192 buf content
        if buf.length + body.length ≤ 8192 then buf ++ body else buf).length ≤ 8192 := by
  have hfirst : appendSnprintf 8192 [] head = head := append_fits (show 0 + head.length < 8192 by omega)
  have hsecond : (if plain then head else appendSnprintf 8192 head session) =
      head ++ if plain then [] else session := by
    split
    · exact (append_nil head).symm
    · exact append_fits (by omega)
  have hshort : (head ++ if plain then [] else session).length ≤ 242 := by
    rw [length_append]
    split
    · exact (Nat.add_le_add hhead (Nat.zero_le 42))
    · exact (Nat.add_le_add hhead hsession)
  have hthird := @append_fits 8192 _ extra (show (head ++ if plain then [] else session).length +
    extra.length < 8192 by omega)
  have hfourth := @append_fits 8192 ((head ++ if plain then [] else session) ++ extra) content (by
    rw [length_append]
    omega)
  have hlength : (((head ++ if plain then [] else session) ++ extra) ++ content).length +
      body.length ≤ 8192 := by
    rw [length_append, length_append]
    omega
  simp only [hfirst, hsecond, hthird, hfourth, if_pos hlength]
  refine ⟨by simp only [append_assoc], ?_⟩
  rw [length_append]
  exact hlength

/-- **The whole text of a reply has a place**: nothing of it is cut off. -/
theorem sendReply_eq (w : Wire) (cseq : BitVec 32) {reply : Reply} {extra body : List Byte}
    (hcode : reply.code < 1000) (hsession : reply.session.length < 32) (hextra : extra.length < 1200)
    (hbody : body.length ≤ 4096) :
    sendReply w cseq reply extra body = statusLine reply.code ++ (crlf ++
        (fieldBytes (baseFields w cseq reply.session) ++ (extra ++
          (header "Content-Length" (Printf.decimal body.length) ++ (crlf ++ body))))) ∧
      (sendReply w cseq reply extra body).length ≤ 8192 := by
  have hhead : line "RTSP/1.0 " (Printf.decimal reply.code ++ text " " ++ text (reasonPhrase reply.code)) ++
      header "CSeq" (Printf.decimal cseq.toNat) ++ header "Date" w.date ++
        header "Server" (text "zstreamer/1.0") =
      statusLine reply.code ++ (crlf ++ fieldBytes
        [⟨text "CSeq", Printf.decimal cseq.toNat⟩, ⟨text "Date", w.date⟩,
          ⟨text "Server", text "zstreamer/1.0"⟩]) := by
    rw [header_eq "CSeq", header_eq "Date",
      header_eq "Server", line, statusLine]
    simp only [fieldBytes, flatMap_cons, flatMap_nil, append_assoc, append_nil]
  have hlength : (line "RTSP/1.0 " (Printf.decimal reply.code ++ text " " ++
      text (reasonPhrase reply.code)) ++ header "CSeq" (Printf.decimal cseq.toNat) ++ header "Date" w.date ++
        header "Server" (text "zstreamer/1.0")).length ≤ 200 := by
    have hcodes := Printf.length_decimal_le (k := 3) (by decide) hcode
    have hphrase := length_reasonPhrase reply.code
    have hcseq := Printf.length_decimal cseq.isLt
    have hdate := w.date_length
    have h₁ : (text "RTSP/1.0 ").length = 9 := (length_text _ rfl).trans rfl
    have h₂ : (text " ").length = 1 := (length_text _ rfl).trans rfl
    have h₃ : (text "CSeq").length = 4 := (length_text _ rfl).trans rfl
    have h₄ : (text "Date").length = 4 := (length_text _ rfl).trans rfl
    have h₅ : (text "Server").length = 6 := (length_text _ rfl).trans rfl
    have h₆ : (text "zstreamer/1.0").length = 13 := (length_text _ rfl).trans rfl
    simp only [length_append, length_line, length_header]
    omega
  have hsessions : (header "Session" reply.session).length ≤ 42 := by
    rw [length_header, show (text "Session").length = 7 from (length_text _ rfl).trans rfl]
    omega
  have hsession' : (if reply.session = [] then [] else header "Session" reply.session) =
      fieldBytes (if reply.session = [] then [] else [⟨text "Session", reply.session⟩]) := by
    split
    · rfl
    · rw [header_eq "Session"]
      exact (append_nil _).symm
  have hcontent : (header "Content-Length" (Printf.decimal body.length) ++ crlf).length ≤ 30 := by
    have hdigits := Printf.length_decimal (show body.length < 2 ^ 32 by omega)
    rw [length_append, length_header,
      show (text "Content-Length").length = 14 from (length_text _ rfl).trans rfl]
    show _ + 2 ≤ 30
    omega
  obtain ⟨hall, hle⟩ := assembled_eq (reply.session = []) (show _ ≤ 200 from hlength) hsessions hextra
    hcontent hbody
  refine ⟨?_, hle⟩
  rw [sendReply, hall, hhead, hsession', baseFields, fieldBytes, fieldBytes, fieldBytes,
    flatMap_append]
  simp only [append_assoc]

/-! ## Headers of a reply -/

/-- No zero byte and no line feed. -/
def IsText (l : List Byte) : Prop := ∀ b ∈ l, b ≠ 0 ∧ b ≠ 0x0a

instance : DecidablePred IsText := fun l => inferInstanceAs (Decidable (∀ b ∈ l, _))

theorem IsText.noBreak {l : List Byte} (h : IsText l) : NoBreak l :=
  noBreak_of_notMem (fun hmem => (h _ hmem).1 rfl) (fun hmem => (h _ hmem).2 rfl)

theorem IsText.append {front back : List Byte} (hfront : IsText front) (hback : IsText back) :
    IsText (front ++ back) :=
  fun b hb => (mem_append.mp hb).elim (hfront b) (hback b)

theorem isText_text (s : String) {l : List Char} (hs : s = String.ofList l)
    (hl : (l.all fun c => decide (BitVec.ofNat 8 c.toNat ≠ 0 ∧ BitVec.ofNat 8 c.toNat ≠ 0x0a)) = true) :
    IsText (text s) :=
  forall_mem_text s hs hl

theorem isText_of_oneLine {l : List Byte} (h : OneLine l) : IsText l :=
  fun _ hb => ⟨fun hzero => h.1 (hzero ▸ hb), fun hlf => h.2.2 (hlf ▸ hb)⟩

theorem isText_decimal (n : ℕ) : IsText (Printf.decimal n) := by
  have hdigit : ∀ b : Byte, isDigit b = true → b ≠ 0 ∧ b ≠ 0x0a := by
    decide +kernel
  exact fun b hb => hdigit b (Printf.decimal_digits n b hb)

theorem isText_int (x : BitVec 32) : IsText (d x) := by
  have hdigit : ∀ b : Byte, b = 0x2d ∨ isDigit b = true → b ≠ 0 ∧ b ≠ 0x0a := by
    decide +kernel
  exact fun b hb => hdigit b (Printf.mem_int hb)

theorem isText_reasonPhrase (code : ℕ) : IsText (text (reasonPhrase code)) := by
  rw [reasonPhrase.eq_def]
  split <;> exact forall_mem_text _ rfl rfl

theorem isText_statusLine (code : ℕ) : IsText (statusLine code) :=
  (isText_text "RTSP/1.0 " rfl rfl).append ((isText_decimal code).append
    ((isText_text " " rfl rfl).append (isText_reasonPhrase code)))

/-- A header with a name that is written out. -/
theorem sound_of (name : String) {l : List Char} (hs : name = String.ofList l) (hne : l ≠ [])
    (hl : (l.all fun c => decide (IsNameChar (BitVec.ofNat 8 c.toNat))) = true)
    {value : List Byte} (hvalue : NoBreak value) : Field.Sound ⟨text name, value⟩ where
  name_ne := by
    rw [text_chars name hs]
    exact fun hnil => hne (map_eq_nil_iff.mp hnil)
  name_chars := forall_mem_text name hs hl
  value := hvalue

/-- A name that is another one. -/
theorem ne_contentLength (name : String) {l : List Char} (hs : name = String.ofList l)
    (hne : (l.map fun c => BitVec.ofNat 8 c.toNat) ≠ ['C', 'o', 'n', 't', 'e', 'n', 't', '-', 'L', 'e',
      'n', 'g', 't', 'h'].map fun c => BitVec.ofNat 8 c.toNat) : text name ≠ contentLength :=
  text_ne name "Content-Length" hs rfl hne

/-- The headers that all replies have are sound, and do not say a length. -/
theorem baseFields_sound (w : Wire) (cseq : BitVec 32) {session : List Byte} (h : NoBreak session) :
    ∀ f ∈ baseFields w cseq session, f.Sound ∧ f.name ≠ contentLength := by
  have hsession : ∀ f ∈ (if session = [] then [] else [(⟨text "Session", session⟩ : Field)]),
      f.Sound ∧ f.name ≠ contentLength := by
    intro f hf
    split at hf
    · exact absurd hf not_mem_nil
    · obtain rfl := mem_singleton.mp hf
      exact ⟨sound_of "Session" rfl (cons_ne_nil _ _) rfl h, ne_contentLength "Session" rfl (by decide)⟩
  rw [baseFields]
  simp only [forall_mem_append, forall_mem_cons]
  exact ⟨⟨⟨sound_of "CSeq" rfl (cons_ne_nil _ _) rfl (isText_decimal _).noBreak,
      ne_contentLength "CSeq" rfl (by decide)⟩,
    ⟨sound_of "Date" rfl (cons_ne_nil _ _) rfl (isText_of_oneLine w.date_line).noBreak, ne_contentLength "Date" rfl (by decide)⟩,
    ⟨sound_of "Server" rfl (cons_ne_nil _ _) rfl (isText_text "zstreamer/1.0" rfl rfl).noBreak,
      ne_contentLength "Server" rfl (by decide)⟩, nofun⟩, hsession⟩

theorem fieldBytes_append (front back : List Field) :
    fieldBytes (front ++ back) = fieldBytes front ++ fieldBytes back := flatMap_append

/-- A reply with headers is well framed. -/
theorem sendReply_wellFramed (w : Wire) (cseq : BitVec 32) {reply : Reply} {fields : List Field}
    {body : List Byte} (hcode : reply.code < 1000) (hsession : reply.session.length < 32)
    (hline : NoBreak reply.session) (hfields : ∀ f ∈ fields, f.Sound ∧ f.name ≠ contentLength)
    (hextra : (fieldBytes fields).length < 1200) (hbody : body.length ≤ 4096) :
    WellFramed (sendReply w cseq reply (fieldBytes fields) body) ∧
      (sendReply w cseq reply (fieldBytes fields) body).length ≤ 8192 := by
  obtain ⟨hparts, hle⟩ := sendReply_eq w cseq hcode hsession hextra hbody
  have hbase := baseFields_sound w cseq hline
  have hquiet : ∀ f ∈ baseFields w cseq reply.session ++ fields,
      f.Sound ∧ f.name ≠ contentLength := forall_mem_append.mpr ⟨hbase, hfields⟩
  refine ⟨⟨statusLine reply.code, (baseFields w cseq reply.session ++ fields) ++
    [⟨contentLength, Printf.decimal body.length⟩], body, ?_, ⟨_, _, rfl⟩,
      (isText_statusLine _).noBreak, ?_, ?_, ?_⟩, hle⟩
  · rw [hparts, header_eq "Content-Length", fieldBytes_append,
      fieldBytes_append]
    simp only [fieldBytes, flatMap_cons, flatMap_nil, append_assoc, append_nil]
    rfl
  · rw [forall_mem_append]
    refine ⟨fun f hf => (hquiet f hf).1, fun f hf => ?_⟩
    obtain rfl := mem_singleton.mp hf
    exact sound_of "Content-Length" rfl (cons_ne_nil _ _) rfl (isText_decimal _).noBreak
  · exact ⟨_, mem_append_right _ (mem_singleton_self _), rfl⟩
  · rw [forall_mem_append]
    refine ⟨fun f hf hname => absurd hname (hquiet f hf).2, fun f hf _ => ?_⟩
    obtain rfl := mem_singleton.mp hf
    rfl

/-- A reply is not well framed whose last header has no end: the length goes on in it. -/
theorem sendReply_not_wellFramed (w : Wire) (cseq : BitVec 32) {reply : Reply} {fields : List Field}
    {last : Field} (hcode : reply.code < 1000) (hsession : reply.session.length < 32)
    (hline : NoBreak reply.session) (hfields : ∀ f ∈ fields, f.Sound ∧ f.name ≠ contentLength)
    (hlast : last.Sound ∧ last.name ≠ contentLength) (hvalue : IsText last.value)
    (hextra : (fieldBytes fields ++ last.line).length < 1200) :
    ¬ WellFramed (sendReply w cseq reply (fieldBytes fields ++ last.line) []) := by
  obtain ⟨hparts, -⟩ := @sendReply_eq w cseq reply _ [] hcode hsession hextra (Nat.zero_le _)
  have hmore : Field.Sound ⟨last.name, last.value ++ (text "Content-Length" ++ 0x3a :: 0x20 :: Printf.decimal 0)⟩ :=
    ⟨hlast.1.name_ne, hlast.1.name_chars,
      (hvalue.append ((isText_text "Content-Length" rfl rfl).append
        (show IsText (0x3a :: 0x20 :: Printf.decimal 0) by decide))).noBreak⟩
  have hnot := @not_wellFramed (statusLine reply.code)
    (baseFields w cseq reply.session ++ fields ++
      [⟨last.name, last.value ++ (text "Content-Length" ++ 0x3a :: 0x20 :: Printf.decimal 0)⟩]) []
    (isText_statusLine _).noBreak (by
      rw [forall_mem_append, forall_mem_append]
      refine ⟨⟨baseFields_sound w cseq hline, hfields⟩, fun f hf => ?_⟩
      obtain rfl := mem_singleton.mp hf
      exact ⟨hmore, hlast.2⟩)
  rw [hparts]
  refine fun hframed => hnot ?_
  rw [fieldBytes_append, fieldBytes_append]
  simp only [fieldBytes, flatMap_cons, flatMap_nil, Field.line, append_assoc, append_nil,
    cons_append, length_nil] at hframed ⊢
  exact hframed

end Zstreamer.Rtsp

/-
# The Transport header

`parse_transport_header` cuts the header at semicolons and commas and looks at one piece after
the other.  Two numbers with a dash between them are read with `sscanf`, out of a copy of no
more than 31 bytes of the piece.  What it finds for multicast is not kept here beyond the fact
that multicast is wanted.
-/

import Zstreamer.Rtsp.Connection

namespace Zstreamer.Rtsp

open Foundation List
open Printf (decimal)

/-- A conversion `%d` of `sscanf`, and what is left behind it. -/
def scanInt (s : List Byte) : Option (ℤ × List Byte) :=
  let digits (sign : ℤ) (s : List Byte) : Option (ℤ × List Byte) :=
    if s.takeWhile isDigit = [] then none
    else some ((BitVec.ofInt 32 (sign * number (s.takeWhile isDigit))).toInt, s.dropWhile isDigit)
  match s.dropWhile isSpace with
  | 0x2d :: rest => digits (-1) rest
  | 0x2b :: rest => digits 1 rest
  | rest => digits 1 rest

/-- `sscanf` with the format `%d-%d`: the number, and the second one if it is there. -/
def scanPair (s : List Byte) : Option (ℤ × Option ℤ) :=
  (scanInt s).map fun first =>
    (first.1,
      match first.2 with
      | 0x2d :: rest => (scanInt rest).map Prod.fst
      | _ => none)

/-- What has been found. -/
structure TransportSoFar where
  transportType : TransportType
  clientPort : BitVec 16
  interleaved1 : ℤ
  interleaved2 : ℤ
  multicast : Bool
  deriving DecidableEq, Repr

/-- What follows the name of a parameter, out of the copy. -/
def parameterValue (name : String) (tok : List Byte) : List Byte := (tok.take 31).drop name.length

/-- The piece is a parameter of that name, and has a value. -/
def IsParameter (name : String) (tok : List Byte) : Prop :=
  name.length < tok.length ∧ SameCase (tok.take name.length) (text name)

instance (name : String) (tok : List Byte) : Decidable (IsParameter name tok) :=
  inferInstanceAs (Decidable (_ ∧ _))

/-- `parse_transport_token`. -/
def parseTransportToken (t : TransportSoFar) (tok : List Byte) : TransportSoFar :=
  let tok := tok.dropWhile (· = 0x20)
  if tok = [] then t
  else if SameCase tok (text "RTP/AVP/TCP") then { t with transportType := .tcp }
  else if SameCase tok (text "RTP/AVP/UDP") then { t with transportType := .udp }
  else if SameCase tok (text "RTP/AVP") then { t with transportType := .udp }
  else if SameCase tok (text "unicast") then { t with multicast := false }
  else if SameCase tok (text "multicast") then { t with multicast := true }
  else if IsParameter "client_port=" tok then
    match scanPair (parameterValue "client_port=" tok) with
    | none => t
    | some (port, _) =>
        { t with clientPort := BitVec.ofNat 16 ((BitVec.ofInt 16 port).toNat / 2 * 2) }
  else if IsParameter "interleaved=" tok then
    match scanPair (parameterValue "interleaved=" tok) with
    | none => t
    | some (first, second) =>
        let second := second.getD t.interleaved2
        { t with
          interleaved1 := first
          interleaved2 := if second < 0 then first + 1 else second }
  else t

/-- `parse_transport_header`. -/
def parseTransportHeader (field : List Byte) : Transport :=
  let t := (field.splitOnP fun b => b = 0x3b ∨ b = 0x2c).foldl parseTransportToken
    ⟨.tcp, 0, -1, -1, false⟩
  let transportType := if t.multicast = true then .multicast else t.transportType
  if t.interleaved1 < 0 ∧ transportType = .tcp then ⟨transportType, t.clientPort, 0, 1⟩
  else ⟨transportType, t.clientPort, t.interleaved1, t.interleaved2⟩

/-! ## The header of a client that asks for channels -/

/-- `interleaved=a-b`. -/
def interleavedToken (a b : ℕ) : List Byte :=
  text "interleaved=" ++ (decimal a ++ 0x2d :: decimal b)

/-- `RTP/AVP/TCP;unicast;interleaved=a-b`. -/
def interleavedHeader (a b : ℕ) : List Byte :=
  text "RTP/AVP/TCP" ++ 0x3b :: (text "unicast" ++ 0x3b :: interleavedToken a b)

/-- What is known of the digits of a channel. -/
theorem decimal_spec {n : ℕ} (hn : n < 1000) :
    decimal n ≠ [] ∧ (∀ b ∈ decimal n, isDigit b = true) ∧ number (decimal n) = n ∧
      (decimal n).length ≤ 3 :=
  ⟨Printf.decimal_ne_nil n, Printf.decimal_digits n, Printf.number_decimal n,
    Printf.length_decimal_le (by decide) hn⟩

/-- Digits are converted up to what is none. -/
theorem scanInt_append {digits rest : List Byte} (hne : digits ≠ [])
    (hdigits : ∀ b ∈ digits, isDigit b = true) (hrest : ∀ b ∈ rest.head?, isDigit b = false) :
    scanInt (digits ++ rest) =
      some ((BitVec.ofInt 32 (number digits : ℤ)).toInt, rest) := by
  obtain ⟨d, ds, rfl⟩ := exists_cons_of_ne_nil hne
  obtain ⟨hspace, hminus, hplus⟩ := isSpace_of_isDigit d (hdigits d mem_cons_self)
  obtain ⟨htake, hdrop⟩ := digits_append hdigits hrest
  have hstart : (d :: ds ++ rest).dropWhile isSpace = d :: ds ++ rest :=
    dropWhile_cons_of_neg (Bool.eq_false_iff.mp hspace)
  rw [scanInt, hstart]
  split
  case h_1 _ heq => exact absurd (List.cons.inj heq).1 hminus
  case h_2 _ heq => exact absurd (List.cons.inj heq).1 hplus
  case h_3 =>
    dsimp only
    rw [htake, hdrop, if_neg (cons_ne_nil d ds), one_mul]

/-- Two small numbers with a dash between them. -/
theorem scanPair_decimal {a b : ℕ} (ha : a < 256) (hb : b < 256) :
    scanPair (decimal a ++ 0x2d :: decimal b) = some ((a : ℤ), some (b : ℤ)) := by
  have hint : ∀ n, n < 256 → (BitVec.ofInt 32 ((n : ℕ) : ℤ)).toInt = n := by
    decide +kernel
  obtain ⟨hane, hadigits, hanumber, -⟩ := decimal_spec (show a < 1000 by omega)
  obtain ⟨hbne, hbdigits, hbnumber, -⟩ := decimal_spec (show b < 1000 by omega)
  have hsecond := @scanInt_append (decimal b) [] hbne hbdigits nofun
  rw [append_nil, hbnumber, hint b hb] at hsecond
  rw [scanPair, scanInt_append hane hadigits (fun c hc => by
    cases hc
    rfl), hanumber, hint a ha]
  show some ((a : ℤ), (scanInt (decimal b)).map Prod.fst) = _
  rw [hsecond]
  rfl

/-- The piece is not cut. -/
theorem interleavedToken_clean {a b : ℕ} (ha : a < 256) (hb : b < 256) :
    ∀ c ∈ interleavedToken a b, decide (c = 0x3b ∨ c = 0x2c) = false := by
  have hdigit : ∀ c : Byte, isDigit c = true → decide (c = 0x3b ∨ c = 0x2c) = false := by
    decide +kernel
  intro c hc
  rcases mem_append.mp hc with hc | hc
  · exact (show ∀ c ∈ text "interleaved=", decide (c = 0x3b ∨ c = 0x2c) = false by decide) c hc
  · rcases mem_append.mp hc with hc | hc
    · exact hdigit c ((decimal_spec (show a < 1000 by omega)).2.1 c hc)
    · rcases mem_cons.mp hc with rfl | hc
      · rfl
      · exact hdigit c ((decimal_spec (show b < 1000 by omega)).2.1 c hc)

/-- What the piece says. -/
theorem parseTransportToken_interleaved (t : TransportSoFar) {a b : ℕ} (ha : a < 256)
    (hb : b < 256) :
    parseTransportToken t (interleavedToken a b) = { t with interleaved1 := a, interleaved2 := b } := by
  obtain ⟨-, -, -, halen⟩ := decimal_spec (show a < 1000 by omega)
  obtain ⟨-, -, -, hblen⟩ := decimal_spec (show b < 1000 by omega)
  have hlength : (interleavedToken a b).length =
      12 + ((decimal a).length + ((decimal b).length + 1)) := by
    rw [interleavedToken, length_append, length_append, length_cons]
    rfl
  have hother : ∀ s : String, some 0x69 ≠ ((text s).map lower).head? →
      ¬ SameCase (interleavedToken a b) (text s) := fun s hne => not_sameCase_of_head hne
  have hname : (interleavedToken a b).take 12 = text "interleaved=" := take_left' rfl
  have hport : ¬ IsParameter "client_port=" (interleavedToken a b) := by
    rintro ⟨-, hsame⟩
    have hsame : SameCase ((interleavedToken a b).take 12) (text "client_port=") := hsame
    rw [hname] at hsame
    exact absurd hsame (by decide)
  have hil : IsParameter "interleaved=" (interleavedToken a b) := by
    refine ⟨?_, ?_⟩
    · show 12 < (interleavedToken a b).length
      omega
    · show SameCase ((interleavedToken a b).take 12) (text "interleaved=")
      rw [hname]
      exact rfl
  have hvalue : parameterValue "interleaved=" (interleavedToken a b) =
      decimal a ++ 0x2d :: decimal b := by
    rw [parameterValue, take_of_length_le (by omega)]
    exact drop_left' rfl
  have hspaces : (interleavedToken a b).dropWhile (· = 0x20) = interleavedToken a b := rfl
  have hsome : interleavedToken a b ≠ [] := cons_ne_nil _ _
  rw [parseTransportToken, hspaces]
  dsimp only
  rw [if_neg hsome, if_neg (hother "RTP/AVP/TCP" (by decide)),
    if_neg (hother "RTP/AVP/UDP" (by decide)), if_neg (hother "RTP/AVP" (by decide)),
    if_neg (hother "unicast" (by decide)), if_neg (hother "multicast" (by decide)),
    if_neg hport, if_pos hil, hvalue, scanPair_decimal ha hb]
  dsimp only
  rw [Option.getD_some, if_neg (by omega)]

/-- **What such a header asks for is found.** -/
theorem parseTransportHeader_interleaved {a b : ℕ} (ha : a < 256) (hb : b < 256) :
    parseTransportHeader (interleavedHeader a b) = ⟨.tcp, 0, a, b⟩ := by
  have hpieces : (interleavedHeader a b).splitOnP (fun b => b = 0x3b ∨ b = 0x2c) =
      [text "RTP/AVP/TCP", text "unicast", interleavedToken a b] := by
    rw [interleavedHeader, splitOnP_append_cons _ _ (by decide),
      splitOnP_append_cons _ _ (by decide),
      splitOnP_eq_singleton (interleavedToken_clean ha hb)]
    rfl
  have hfold : [text "RTP/AVP/TCP", text "unicast", interleavedToken a b].foldl
      parseTransportToken ⟨.tcp, 0, -1, -1, false⟩ = ⟨.tcp, 0, a, b, false⟩ := by
    have htype : parseTransportToken ⟨.tcp, 0, -1, -1, false⟩ (text "RTP/AVP/TCP") =
        ⟨.tcp, 0, -1, -1, false⟩ := by decide
    have hcast : parseTransportToken ⟨.tcp, 0, -1, -1, false⟩ (text "unicast") =
        ⟨.tcp, 0, -1, -1, false⟩ := by decide
    rw [foldl_cons, htype, foldl_cons, hcast, foldl_cons,
      parseTransportToken_interleaved _ ha hb, foldl_nil]
  have hpos : ¬ ((a : ℤ) < 0 ∧ TransportType.tcp = .tcp) := by omega
  rw [parseTransportHeader, hpieces, hfold]
  exact if_neg hpos

end Zstreamer.Rtsp

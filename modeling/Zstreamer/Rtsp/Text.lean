/-
# Strings of the RTSP server

`rtsp_server.c` works on C strings: bytes up to the first zero.  These are the functions of
the C library that it uses, on the bytes from a pointer on.
-/

import Mathlib.Data.Nat.Digits.Lemmas
import Zstreamer.Foundation.Bits

namespace Zstreamer.Rtsp

open Foundation List

/-- The bytes of a literal. -/
def text (s : String) : List Byte := s.toList.map fun c => BitVec.ofNat 8 c.toNat

/-- The characters of a literal give its bytes, without a look at how it is encoded. -/
theorem text_chars (s : String) {l : List Char} (h : s = String.ofList l) :
    text s = l.map fun c => BitVec.ofNat 8 c.toNat := by
  rw [h, text, String.toList_ofList]

/-- What holds of the characters of a literal. -/
theorem forall_mem_text (s : String) {l : List Char} {p : Byte → Prop} [DecidablePred p]
    (hs : s = String.ofList l)
    (hl : (l.all fun c => decide (p (BitVec.ofNat 8 c.toNat))) = true) :
    ∀ b ∈ text s, p b := by
  rw [text_chars s hs]
  intro b hb
  obtain ⟨c, hc, rfl⟩ := mem_map.mp hb
  exact of_decide_eq_true (all_eq_true.mp hl c hc)

/-- A byte that is none of the characters of a literal. -/
theorem not_mem_text (s : String) {l : List Char} {b : Byte} (hs : s = String.ofList l)
    (hl : (l.all fun c => decide (BitVec.ofNat 8 c.toNat ≠ b)) = true) : b ∉ text s :=
  fun hmem => forall_mem_text (p := fun c => c ≠ b) s hs hl b hmem rfl

/-- A literal has as many bytes as characters. -/
theorem length_text (s : String) {l : List Char} (h : s = String.ofList l) :
    (text s).length = l.length := by
  rw [text_chars s h, length_map]

/-- Literals differ when their characters do. -/
theorem text_ne (s t : String) {l m : List Char} (hs : s = String.ofList l)
    (ht : t = String.ofList m)
    (hne : (l.map fun c => BitVec.ofNat 8 c.toNat) ≠ m.map fun c => BitVec.ofNat 8 c.toNat) : text s ≠ text t := by
  rwa [text_chars s hs, text_chars t ht]

theorem text_append (s t : String) : text (s ++ t) = text s ++ text t := by
  rw [text, text, text, String.toList_append, map_append]

/-- The C string that begins here. -/
def cstr (s : List Byte) : List Byte := s.takeWhile (· ≠ 0)

/-- Where some bytes stand first. -/
def firstAt (needle : List Byte) : List Byte → Option ℕ
  | [] => if needle = [] then some 0 else none
  | b :: s => if needle <+: b :: s then some 0 else (firstAt needle s).map (· + 1)

/-- `strstr`: how far behind the pointer the needle begins. -/
def strstr (s needle : List Byte) : Option ℕ := firstAt needle (cstr s)

/-- `strchr`, for a character that is not zero. -/
def strchr (s : List Byte) (c : Byte) : Option ℕ := strstr s [c]

/-- `tolower` in the C locale. -/
def lower (b : Byte) : Byte := if 0x41 ≤ b ∧ b ≤ 0x5a then b + 0x20 else b

/-- `strcasecmp` says that two strings are the same. -/
def SameCase (s t : List Byte) : Prop := s.map lower = t.map lower

instance : DecidableRel SameCase := fun s t => inferInstanceAs (Decidable (s.map lower = t.map lower))

/-- What `strncpy` leaves in a field of so many bytes whose last byte is zero. -/
def copied (size : ℕ) (s : List Byte) : List Byte := s.take (size - 1)

/-- `isspace`. -/
def isSpace (b : Byte) : Bool := b = 0x20 || (0x09 ≤ b && b ≤ 0x0d)

/-- `isdigit`. -/
def isDigit (b : Byte) : Bool := 0x30 ≤ b && b ≤ 0x39

/-- The number that digits make up. -/
def number (digits : List Byte) : ℕ := digits.foldl (fun n b => n * 10 + (b - 0x30).toNat) 0

/-- `strtol` in base ten, where nothing overflows. -/
def strtol (s : List Byte) : ℤ :=
  let digits (s : List Byte) : ℤ := number (s.takeWhile isDigit)
  match s.dropWhile isSpace with
  | 0x2d :: rest => -digits rest
  | 0x2b :: rest => digits rest
  | rest => digits rest

/-- `atoi`: the result of `strtol` as an `int`. -/
def atoi (s : List Byte) : BitVec 32 := BitVec.ofInt 32 (strtol s)

/-! ## Characters -/

/-- A digit is no space and no sign. -/
theorem isSpace_of_isDigit : ∀ b : Byte, isDigit b = true →
    isSpace b = false ∧ b ≠ 0x2d ∧ b ≠ 0x2b := by
  decide +kernel

/-- Digits end where something else begins. -/
theorem digits_append {digits rest : List Byte} (hdigits : ∀ b ∈ digits, isDigit b = true)
    (hrest : ∀ b ∈ rest.head?, isDigit b = false) :
    (digits ++ rest).takeWhile isDigit = digits ∧ (digits ++ rest).dropWhile isDigit = rest := by
  rw [takeWhile_append_of_pos hdigits, dropWhile_append_of_pos hdigits]
  cases rest with
  | nil => exact ⟨append_nil digits, rfl⟩
  | cons b rest =>
      have hb := Bool.eq_false_iff.mp (hrest b rfl)
      rw [takeWhile_cons_of_neg hb, dropWhile_cons_of_neg hb]
      exact ⟨append_nil digits, rfl⟩

/-- Strings that begin differently. -/
theorem not_sameCase_of_head {s t : List Byte} (h : (s.map lower).head? ≠ (t.map lower).head?) :
    ¬ SameCase s t := fun hsame => h (congrArg head? hsame)

/-! ## Strings in memory -/

/-- Behind bytes without a zero byte, a string goes on. -/
theorem cstr_append {l : List Byte} (hl : 0 ∉ l) (s : List Byte) : cstr (l ++ s) = l ++ cstr s := by
  have hall : ∀ b ∈ l, decide (b ≠ 0) = true := by
    intro b hb
    refine decide_eq_true ?_
    rintro rfl
    exact hl hb
  rw [cstr, takeWhile_append_of_pos hall]
  rfl

theorem cstr_zero {l : List Byte} (hl : 0 ∉ l) (s : List Byte) : cstr (l ++ 0 :: s) = l := by
  rw [cstr_append hl]
  exact append_nil l

theorem firstAt_of_prefix {needle s : List Byte} (h : needle <+: s) :
    firstAt needle s = some 0 := by
  cases s with
  | nil => exact if_pos (prefix_nil.mp h)
  | cons b s => exact if_pos h

/-- What does not have the first byte of a needle is passed over. -/
theorem firstAt_append {c : Byte} {l : List Byte} (hl : c ∉ l) (needle s : List Byte) :
    firstAt (c :: needle) (l ++ s) = (firstAt (c :: needle) s).map (· + l.length) := by
  induction l with
  | nil => exact Option.map_id'.symm
  | cons b l ih =>
      have hb : c ≠ b := fun hsame => hl (hsame ▸ mem_cons_self)
      have hnot : ¬ (c :: needle) <+: b :: (l ++ s) := fun hpre =>
        hb (cons_prefix_cons.mp hpre).1
      rw [cons_append, firstAt, if_neg hnot, ih fun hmem => hl (mem_cons_of_mem b hmem),
        Option.map_map]
      exact congrArg (fun f => Option.map f (firstAt (c :: needle) s))
        (funext fun i => Nat.add_assoc i l.length 1)

/-- What is found is there. -/
theorem prefix_of_firstAt {needle s : List Byte} {i : ℕ} (h : firstAt needle s = some i) :
    needle <+: s.drop i := by
  induction s generalizing i with
  | nil =>
      rw [firstAt] at h
      split at h
      case isTrue hnil => exact hnil ▸ nil_prefix
      case isFalse => cases h
  | cons b s ih =>
      rw [firstAt] at h
      split at h
      case isTrue hhere =>
        cases h
        exact hhere
      case isFalse =>
        obtain ⟨j, hj, rfl⟩ := Option.map_eq_some_iff.mp h
        exact ih hj

/-- It is the first. -/
theorem firstAt_le {needle s : List Byte} {i j : ℕ} (h : firstAt needle s = some j)
    (hi : needle <+: s.drop i) : j ≤ i := by
  induction s generalizing i j with
  | nil =>
      rw [firstAt] at h
      split at h
      case isTrue =>
        cases h
        exact Nat.zero_le i
      case isFalse => cases h
  | cons b s ih =>
      rw [firstAt] at h
      split at h
      case isTrue =>
        cases h
        exact Nat.zero_le i
      case isFalse hnot =>
        obtain ⟨k, hk, rfl⟩ := Option.map_eq_some_iff.mp h
        cases i with
        | zero => exact absurd hi hnot
        | succ i => exact Nat.succ_le_succ (ih hk hi)

theorem strstr_append {c : Byte} {l : List Byte} (hzero : 0 ∉ l) (hl : c ∉ l)
    (needle s : List Byte) :
    strstr (l ++ s) (c :: needle) = (strstr s (c :: needle)).map (· + l.length) := by
  rw [strstr, cstr_append hzero, firstAt_append hl]
  rfl

/-- A byte is found behind bytes that are others. -/
theorem strchr_append {c : Byte} {l : List Byte} (hzero : 0 ∉ l) (hl : c ∉ l) (hc : c ≠ 0)
    (s : List Byte) : strchr (l ++ c :: s) c = some l.length := by
  have hfound : strstr (c :: s) [c] = some 0 := by
    rw [strstr]
    refine firstAt_of_prefix ?_
    have hcons : cstr (c :: s) = c :: cstr s := takeWhile_cons_of_pos (decide_eq_true hc)
    rw [hcons]
    exact cons_prefix_cons.mpr ⟨rfl, nil_prefix⟩
  rw [strchr, strstr_append hzero hl, hfound, Option.map_some, Nat.zero_add]

theorem strchr_eq_none {c : Byte} {s : List Byte} (h : c ∉ cstr s) : strchr s c = none := by
  have hall := firstAt_append h [] []
  rw [append_nil] at hall
  rw [strchr, strstr, hall]
  rfl

end Zstreamer.Rtsp

/-! # Numbers in text

What `printf` writes for a number in decimal, and that the functions that read numbers read it
back.
-/

namespace Zstreamer.Rtsp.Printf

open Foundation List

/-- A number in decimal, as `%u` and `%llu` write it. -/
def decimal (n : ℕ) : List Byte :=
  if n = 0 then [0x30] else (Nat.digits 10 n).reverse.map fun d => 0x30 + BitVec.ofNat 8 d

/-- What `%d` writes for an `int`. -/
def int (x : BitVec 32) : List Byte :=
  if x.toInt < 0 then 0x2d :: decimal x.toInt.natAbs else decimal x.toInt.toNat

theorem decimal_digits (n : ℕ) : ∀ b ∈ decimal n, isDigit b = true := by
  have hdigit : ∀ d : Fin 10, isDigit (0x30 + BitVec.ofNat 8 d.val) = true := by decide
  intro b hb
  rw [decimal] at hb
  split at hb
  case isTrue =>
    rw [mem_singleton.mp hb]
    decide
  case isFalse =>
    obtain ⟨d, hd, rfl⟩ := mem_map.mp hb
    exact hdigit ⟨d, Nat.digits_lt_base (by decide) (mem_reverse.mp hd)⟩

/-- The digits of a number are read as the number. -/
theorem number_decimal (n : ℕ) : number (decimal n) = n := by
  have hvalue : ∀ d : Fin 10, ((0x30 + BitVec.ofNat 8 d.val : Byte) - 0x30).toNat = d.val := by
    decide
  rw [decimal]
  split
  case isTrue hzero =>
    subst hzero
    rfl
  case isFalse =>
    have hsum : ∀ digits : List ℕ, (∀ d ∈ digits, d < 10) →
        number (digits.reverse.map fun d => 0x30 + BitVec.ofNat 8 d) = Nat.ofDigits 10 digits := by
      intro digits
      induction digits with
      | nil => exact fun _ => rfl
      | cons d digits ih =>
          intro hdigits
          have hd : ((0x30 + BitVec.ofNat 8 d : Byte) - 0x30).toNat = d :=
            hvalue ⟨d, hdigits d mem_cons_self⟩
          have hrest := ih fun other hother => hdigits other (mem_cons_of_mem d hother)
          rw [reverse_cons, map_append, number, foldl_append]
          rw [number] at hrest
          rw [hrest, Nat.ofDigits_cons]
          simp only [map_cons, map_nil, foldl_cons, foldl_nil]
          rw [hd]
          omega
    rw [hsum _ fun d hd => Nat.digits_lt_base (by decide) hd, Nat.ofDigits_digits]

theorem length_decimal_le {n k : ℕ} (hk : 0 < k) (hn : n < 10 ^ k) : (decimal n).length ≤ k := by
  rw [decimal]
  split
  case isTrue => exact hk
  case isFalse =>
    rw [length_map, length_reverse]
    exact (Nat.digits_length_le_iff (by decide) n).mpr hn

theorem length_decimal {n : ℕ} (hn : n < 2 ^ 32) : (decimal n).length ≤ 10 :=
  length_decimal_le (by decide) (by omega)

theorem decimal_ne_nil (n : ℕ) : decimal n ≠ [] := by
  rw [decimal]
  split
  case isTrue => exact cons_ne_nil _ _
  case isFalse hn =>
    rw [Ne, map_eq_nil_iff, reverse_eq_nil_iff]
    exact Nat.digits_ne_nil_iff_ne_zero.mpr hn

/-- A number is written in digits, with a dash in front of them or without. -/
theorem mem_int {x : BitVec 32} {b : Byte} (hb : b ∈ int x) : b = 0x2d ∨ isDigit b = true := by
  rw [int] at hb
  split at hb
  case isTrue =>
    rcases mem_cons.mp hb with hdash | hdigit
    · exact .inl hdash
    · exact .inr (decimal_digits _ b hdigit)
  case isFalse => exact .inr (decimal_digits _ b hb)

theorem length_int (x : BitVec 32) : (int x).length ≤ 11 := by
  have hlow := x.le_toInt
  have hhigh := x.toInt_lt
  rw [int]
  split
  case isTrue => exact Nat.succ_le_succ (length_decimal (by omega))
  case isFalse => exact Nat.le_succ_of_le (length_decimal (by omega))

end Zstreamer.Rtsp.Printf

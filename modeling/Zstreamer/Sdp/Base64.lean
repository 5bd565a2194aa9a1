/-
# Base64 in SDP

`sdp_muxer_base64` writes parameter sets in base64 and `sdp_base64_decode` reads them.  What is
read from the first characters of what was written is a prefix of the set: three bytes for each
four characters, rounded down.
-/

import Zstreamer.Rtsp.Text

namespace Zstreamer.Sdp

open Foundation List
open Rtsp (text isSpace)

/-! ## Writing -/

/-- The characters of `sdp_muxer_base64`. -/
def base64Table : List Byte :=
  text "ABCDEFGHIJKLMNOPQRSTUVWXYZabcdefghijklmnopqrstuvwxyz0123456789+/"

/-- The character for the six bits from there upwards. -/
def sixBits (v : BitVec 32) (shift : ℕ) : Byte := base64Table.getD ((v >>> shift) &&& 0x3f).toNat 0

/-- Three bytes in one number. -/
def group (a b c : Byte) : BitVec 32 :=
  (a.setWidth 32 <<< 16) ||| (b.setWidth 32 <<< 8) ||| c.setWidth 32

/-- The loop of `sdp_muxer_base64`. -/
def base64 : List Byte → List Byte
  | [] => []
  | [a] => [sixBits (group a 0 0) 18, sixBits (group a 0 0) 12, 0x3d, 0x3d]
  | [a, b] =>
      [sixBits (group a b 0) 18, sixBits (group a b 0) 12, sixBits (group a b 0) 6, 0x3d]
  | a :: b :: c :: rest =>
      sixBits (group a b c) 18 :: sixBits (group a b c) 12 :: sixBits (group a b c) 6 ::
        sixBits (group a b c) 0 :: base64 rest

/-- `sdp_muxer_b64_len`. -/
def base64Length (len : ℕ) : ℕ := (len + 2) / 3 * 4

/-! ## Reading -/

/-- `sdp_base64_value`. -/
def base64Value (ch : Byte) : ℤ :=
  if 0x41 ≤ ch ∧ ch ≤ 0x5a then ch.toNat - 0x41
  else if 0x61 ≤ ch ∧ ch ≤ 0x7a then ch.toNat - 0x61 + 26
  else if 0x30 ≤ ch ∧ ch ≤ 0x39 then ch.toNat - 0x30 + 52
  else if ch = 0x2b then 62
  else if ch = 0x2f then 63
  else if ch = 0x3d then -2
  else -1

/-- The loop of `sdp_base64_decode`, with the bits that have been read, how many of them are
above the next byte, and the bytes so far. -/
def decodeFrom (capacity : ℕ) (val : BitVec 32) (valb : ℤ) (out : List Byte) :
    List Byte → Option (List Byte)
  | [] => some out
  | ch :: rest =>
      if isSpace ch = true then decodeFrom capacity val valb out rest
      else if base64Value ch = -2 then some out
      else if base64Value ch < 0 then none
      else
        let val := (val <<< 6) ||| BitVec.ofInt 32 (base64Value ch)
        let valb := valb + 6
        if 0 ≤ valb then
          if capacity ≤ out.length then none
          else
            decodeFrom capacity val (valb - 8)
              (out ++ [((val.sshiftRight valb.toNat) &&& 0xff).setWidth 8]) rest
        else decodeFrom capacity val valb out rest

/-- `sdp_base64_decode`, for so many bytes at most. -/
def base64Decode (capacity : ℕ) (s : List Byte) : Option (List Byte) :=
  decodeFrom capacity 0 (-8) [] s

/-! ## Characters -/

/-- A character of the table stands for its position, and is no space. -/
theorem sixBits_spec (v : BitVec 32) (shift : ℕ) :
    base64Value (sixBits v shift) = ((v >>> shift) &&& 0x3f).toNat ∧
      isSpace (sixBits v shift) = false := by
  have htable : ∀ n : Fin 64, base64Value (base64Table.getD n.val 0) = n.val ∧
      isSpace (base64Table.getD n.val 0) = false := by decide +kernel
  have hsix : ((v >>> shift) &&& 0x3f).toNat < 64 := by
    rw [BitVec.toNat_and]
    exact Nat.lt_succ_of_le Nat.and_le_right
  exact htable ⟨_, hsix⟩

/-- The bits that such a character adds. -/
theorem decodeFrom_sixBits (capacity : ℕ) (val v : BitVec 32) (shift : ℕ) (valb : ℤ)
    (out rest : List Byte) :
    decodeFrom capacity val valb out (sixBits v shift :: rest) =
      let val := (val <<< 6) ||| ((v >>> shift) &&& 0x3f)
      if 0 ≤ valb + 6 then
        if capacity ≤ out.length then none
        else
          decodeFrom capacity val (valb + 6 - 8)
            (out ++ [((val.sshiftRight (valb + 6).toNat) &&& 0xff).setWidth 8]) rest
      else decodeFrom capacity val (valb + 6) out rest := by
  obtain ⟨hvalue, hspace⟩ := sixBits_spec v shift
  have hnumber : BitVec.ofInt 32 (base64Value (sixBits v shift)) = (v >>> shift) &&& 0x3f := by
    rw [hvalue, BitVec.ofInt_natCast, BitVec.ofNat_toNat, BitVec.setWidth_eq]
  have hpad : ¬ base64Value (sixBits v shift) = -2 := by omega
  have hneg : ¬ base64Value (sixBits v shift) < 0 := by omega
  rw [decodeFrom, hspace, if_neg Bool.false_ne_true, if_neg hpad, if_neg hneg, hnumber]

theorem decodeFrom_padding (capacity : ℕ) (val : BitVec 32) (valb : ℤ) (out rest : List Byte) :
    decodeFrom capacity val valb out (0x3d :: rest) = some out := rfl

section Group

variable (val : BitVec 32) (a b c : Byte)

/-- The bits behind two, three and four characters of a group. -/
def twoRead : BitVec 32 :=
  (((val <<< 6) ||| ((group a b c >>> 18) &&& 0x3f)) <<< 6) ||| ((group a b c >>> 12) &&& 0x3f)

def threeRead : BitVec 32 := (twoRead val a b c <<< 6) ||| ((group a b c >>> 6) &&& 0x3f)

def fourRead : BitVec 32 := (threeRead val a b c <<< 6) ||| ((group a b c >>> 0) &&& 0x3f)

theorem twoRead_byte : (((twoRead val a b c).sshiftRight 4) &&& 0xff).setWidth 8 = a := by
  refine BitVec.eq_of_getLsbD_eq fun i hi => ?_
  rw [twoRead, group]
  interval_cases i <;> simp [BitVec.getElem_sshiftRight]

theorem threeRead_byte : (((threeRead val a b c).sshiftRight 2) &&& 0xff).setWidth 8 = b := by
  refine BitVec.eq_of_getLsbD_eq fun i hi => ?_
  rw [threeRead, group]
  interval_cases i <;> simp [BitVec.getElem_sshiftRight, twoRead, group]

theorem fourRead_byte : (((fourRead val a b c).sshiftRight 0) &&& 0xff).setWidth 8 = c := by
  refine BitVec.eq_of_getLsbD_eq fun i hi => ?_
  rw [fourRead, group]
  interval_cases i <;> simp [threeRead, twoRead, group]

/-! ## A group of characters -/

variable {capacity : ℕ} {out : List Byte} (rest : List Byte)

/-- The first character gives no byte. -/
theorem decodeFrom_first :
    decodeFrom capacity val (-8) out (sixBits (group a b c) 18 :: rest) =
      decodeFrom capacity ((val <<< 6) ||| ((group a b c >>> 18) &&& 0x3f)) (-2) out rest :=
  decodeFrom_sixBits capacity val (group a b c) 18 (-8) out rest

theorem decodeFrom_second (hout : out.length < capacity) :
    decodeFrom capacity val (-8) out
        (sixBits (group a b c) 18 :: sixBits (group a b c) 12 :: rest) =
      decodeFrom capacity (twoRead val a b c) (-4) (out ++ [a]) rest := by
  rw [decodeFrom_first, decodeFrom_sixBits]
  show (if capacity ≤ out.length then none
    else decodeFrom capacity (twoRead val a b c) (-4)
      (out ++ [(((twoRead val a b c).sshiftRight 4) &&& 0xff).setWidth 8]) rest) = _
  rw [if_neg (not_le.mpr hout), twoRead_byte]

theorem decodeFrom_third (hout : out.length < capacity) :
    decodeFrom capacity (twoRead val a b c) (-4) out (sixBits (group a b c) 6 :: rest) =
      decodeFrom capacity (threeRead val a b c) (-6) (out ++ [b]) rest := by
  rw [decodeFrom_sixBits]
  show (if capacity ≤ out.length then none
    else decodeFrom capacity (threeRead val a b c) (-6)
      (out ++ [(((threeRead val a b c).sshiftRight 2) &&& 0xff).setWidth 8]) rest) = _
  rw [if_neg (not_le.mpr hout), threeRead_byte]

theorem decodeFrom_fourth (hout : out.length < capacity) :
    decodeFrom capacity (threeRead val a b c) (-6) out (sixBits (group a b c) 0 :: rest) =
      decodeFrom capacity (fourRead val a b c) (-8) (out ++ [c]) rest := by
  rw [decodeFrom_sixBits]
  show (if capacity ≤ out.length then none
    else decodeFrom capacity (fourRead val a b c) (-8)
      (out ++ [(((fourRead val a b c).sshiftRight 0) &&& 0xff).setWidth 8]) rest) = _
  rw [if_neg (not_le.mpr hout), fourRead_byte]

end Group

/-! ## What was written is read -/

theorem length_base64 (bytes : List Byte) : (base64 bytes).length = base64Length bytes.length := by
  fun_induction base64 bytes with
  | case1 => rfl
  | case2 => exact (show base64Length 1 = 4 by decide).symm
  | case3 => exact (show base64Length 2 = 4 by decide).symm
  | case4 a b c rest ih =>
      simp only [length_cons, ih, base64Length]
      omega

/-- The first characters of what was written give the first bytes. -/
theorem decodeFrom_take {capacity : ℕ} (bytes : List Byte) (val : BitVec 32) (out : List Byte)
    (k : ℕ) (hfits : out.length + bytes.length ≤ capacity) :
    decodeFrom capacity val (-8) out ((base64 bytes).take k) =
      some (out ++ bytes.take (3 * k / 4)) := by
  induction bytes using base64.induct generalizing val out k with
  | case1 => rw [base64, take_nil, take_nil, append_nil, decodeFrom]
  | case2 a =>
      rw [length_singleton] at hfits
      have hroom : out.length < capacity := hfits
      rw [base64]
      match k with
      | 0 => exact congrArg some (append_nil out).symm
      | 1 =>
          refine (decodeFrom_first val a 0 0 []).trans ?_
          exact congrArg some (append_nil out).symm
      | k + 2 =>
          have hall : [a].take (3 * (k + 2) / 4) = [a] := take_of_length_le (by simp; omega)
          rw [hall]
          refine (decodeFrom_second val a 0 0 _ hroom).trans ?_
          cases k with
          | zero => rfl
          | succ k => exact decodeFrom_padding _ _ _ _ _
  | case3 a b =>
      rw [length_cons, length_singleton] at hfits
      have hroom : out.length < capacity := by omega
      have hroom' : (out ++ [a]).length < capacity := by
        rw [length_append, length_singleton]
        omega
      rw [base64]
      match k with
      | 0 => exact congrArg some (append_nil out).symm
      | 1 =>
          refine (decodeFrom_first val a b 0 []).trans ?_
          exact congrArg some (append_nil out).symm
      | 2 => exact decodeFrom_second val a b 0 [] hroom
      | k + 3 =>
          have hall : [a, b].take (3 * (k + 3) / 4) = [a, b] :=
            take_of_length_le (by simp; omega)
          have happend : out ++ [a, b] = out ++ [a] ++ [b] := by rw [append_assoc]; rfl
          rw [hall, happend]
          refine (decodeFrom_second val a b 0 _ hroom).trans ?_
          refine (decodeFrom_third val a b 0 _ hroom').trans ?_
          cases k with
          | zero => rfl
          | succ k => exact decodeFrom_padding _ _ _ _ _
  | case4 a b c rest ih =>
      simp only [length_cons] at hfits
      have hroom : out.length < capacity := by omega
      have hroom' : (out ++ [a]).length < capacity := by
        rw [length_append, length_singleton]
        omega
      have hroom'' : (out ++ [a] ++ [b]).length < capacity := by
        simp only [length_append, length_singleton]
        omega
      rw [base64]
      match k with
      | 0 => exact congrArg some (append_nil out).symm
      | 1 =>
          refine (decodeFrom_first val a b c []).trans ?_
          exact congrArg some (append_nil out).symm
      | 2 => exact decodeFrom_second val a b c [] hroom
      | 3 =>
          refine (decodeFrom_second val a b c _ hroom).trans ?_
          refine (decodeFrom_third val a b c [] hroom').trans ?_
          exact congrArg some (append_assoc out [a] [b])
      | k + 4 =>
          have hcount : 3 * (k + 4) / 4 = 3 * k / 4 + 3 := by omega
          have hbytes : (a :: b :: c :: rest).take (3 * k / 4 + 3) =
              a :: b :: c :: rest.take (3 * k / 4) := rfl
          rw [hcount, hbytes]
          refine (decodeFrom_second val a b c _ hroom).trans ?_
          refine (decodeFrom_third val a b c _ hroom').trans ?_
          refine (decodeFrom_fourth val a b c _ hroom'').trans ?_
          rw [ih]
          · simp only [append_assoc, cons_append, nil_append]
          · simp only [length_append, length_singleton]
            omega

/-- `sdp_base64_decode` on the first characters that `sdp_muxer_base64` has written. -/
theorem base64Decode_take {capacity : ℕ} {bytes : List Byte} (hfits : bytes.length ≤ capacity)
    (k : ℕ) : base64Decode capacity ((base64 bytes).take k) = some (bytes.take (3 * k / 4)) :=
  decodeFrom_take bytes 0 [] k (by rw [length_nil, Nat.zero_add]; exact hfits)

end Zstreamer.Sdp

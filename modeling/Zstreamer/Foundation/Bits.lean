/-
# Bits and bytes

Fields of several bytes, bytes as strings of bits, and the bits of numbers.
-/

import Mathlib.Data.BitVec
import Mathlib.Data.Fintype.Basic
import Mathlib.Data.List.GetD
import Mathlib.Data.Nat.Bitwise
import Mathlib.Tactic.IntervalCases
import Mathlib.Tactic.Ring

/-! # Big-endian fields

Numbers of two and four bytes, the most significant byte first, as they are read from
and written to packet headers.
-/

namespace Zstreamer.Foundation

open List

/-- `uint8_t`. -/
abbrev Byte := BitVec 8

/-- Two bytes as a number. -/
def be16 (high low : Byte) : BitVec 16 := high.setWidth 16 <<< 8 ||| low.setWidth 16

/-- Four bytes as a number. -/
def be32 (b₃ b₂ b₁ b₀ : Byte) : BitVec 32 :=
  b₃.setWidth 32 <<< 24 ||| b₂.setWidth 32 <<< 16 ||| b₁.setWidth 32 <<< 8 ||| b₀.setWidth 32

/-- The number that bytes are, the highest one first. -/
def bigEndian (bytes : List Byte) : ℕ := bytes.foldl (fun n b => n * 256 + b.toNat) 0

/-- The bytes of a 16-bit number make up the number. -/
@[simp]
theorem be16_bytes (x : BitVec 16) : be16 ((x >>> 8).setWidth 8) (x.setWidth 8) = x := by
  rw [be16]
  ext i hi
  interval_cases i <;> simp

/-- The bytes are read back. -/
theorem high_be16 (high low : Byte) : (be16 high low >>> 8).setWidth 8 = high := by
  rw [be16]
  ext i hi
  interval_cases i <;> simp

theorem low_be16 (high low : Byte) : (be16 high low).setWidth 8 = low := by
  rw [be16]
  ext i hi
  interval_cases i <;> simp

/-- The two bytes of a number of 16 bits. -/
def bytes16 (x : BitVec 16) : List Byte := [(x >>> 8).setWidth 8, x.setWidth 8]

theorem be16_bytes16 (x : BitVec 16) (rest : List Byte) :
    ∃ high low, bytes16 x ++ rest = high :: low :: rest ∧ be16 high low = x :=
  ⟨_, _, rfl, be16_bytes x⟩

theorem bytes16_be16 (high low : Byte) : bytes16 (be16 high low) = [high, low] := by
  rw [bytes16, high_be16, low_be16]

/-- The bytes of a 32-bit number make up the number. -/
@[simp]
theorem be32_bytes (x : BitVec 32) :
    be32 ((x >>> 24).setWidth 8) ((x >>> 16).setWidth 8) ((x >>> 8).setWidth 8) (x.setWidth 8) =
      x := by
  rw [be32]
  ext i hi
  interval_cases i <;> simp

end Zstreamer.Foundation

/-! # Bit strings

The bits of bytes, the most significant first; numbers in a fixed number of bits; Exp-Golomb code
words; and bytes from bits.
-/

namespace Zstreamer.Foundation

open List

/-! ## Numbers -/

/-- The number that bits write. -/
def bitsToNat (bits : List Bool) : ℕ := bits.foldl (fun n b => 2 * n + b.toNat) 0

/-- A number in so many bits. -/
def fixed : ℕ → ℕ → List Bool
  | 0, _ => []
  | n + 1, v => fixed n (v / 2) ++ [decide (v % 2 = 1)]

@[simp]
theorem bitsToNat_nil : bitsToNat [] = 0 := rfl

theorem bitsToNat_concat (bits : List Bool) (b : Bool) :
    bitsToNat (bits ++ [b]) = 2 * bitsToNat bits + b.toNat := by
  rw [bitsToNat, foldl_append]
  rfl

theorem bitsToNat_append (front back : List Bool) :
    bitsToNat (front ++ back) = bitsToNat front * 2 ^ back.length + bitsToNat back := by
  induction back using reverseRecOn with
  | nil => simp
  | append_singleton back b ih =>
      rw [← append_assoc, bitsToNat_concat, bitsToNat_concat, ih, length_append,
        length_singleton, Nat.pow_succ]
      ring

theorem bitsToNat_lt (bits : List Bool) : bitsToNat bits < 2 ^ bits.length := by
  induction bits using reverseRecOn with
  | nil => exact Nat.one_pos
  | append_singleton bits b ih =>
      rw [bitsToNat_concat, length_append, length_singleton, Nat.pow_succ]
      have hb := Bool.toNat_le b
      omega

@[simp]
theorem length_fixed (n v : ℕ) : (fixed n v).length = n := by
  induction n generalizing v with
  | zero => rfl
  | succ n ih => rw [fixed, length_append, ih, length_singleton]

theorem bitsToNat_fixed {n v : ℕ} (h : v < 2 ^ n) : bitsToNat (fixed n v) = v := by
  induction n generalizing v with
  | zero =>
      rw [Nat.pow_zero] at h
      rw [fixed, bitsToNat_nil]
      omega
  | succ n ih =>
      rw [Nat.pow_succ] at h
      rw [fixed, bitsToNat_concat, ih (by omega)]
      by_cases hodd : v % 2 = 1
      · rw [decide_eq_true hodd, Bool.toNat_true]
        omega
      · rw [decide_eq_false hodd, Bool.toNat_false]
        omega

/-! ## The bits of bytes -/

/-- The bits of a byte. -/
def byteBits (b : Byte) : List Bool := (range 8).map b.getMsbD

/-- The bits of bytes. -/
def bitsOf (data : List Byte) : List Bool := data.flatMap byteBits

@[simp]
theorem length_byteBits (b : Byte) : (byteBits b).length = 8 := rfl

theorem bitsOf_cons (b : Byte) (data : List Byte) : bitsOf (b :: data) = byteBits b ++ bitsOf data :=
  flatMap_cons

@[simp]
theorem length_bitsOf (data : List Byte) : (bitsOf data).length = data.length * 8 := by
  induction data with
  | nil => rfl
  | cons b data ih =>
      rw [bitsOf_cons, length_append, ih, length_byteBits, length_cons]
      omega

theorem getElem?_bitsOf {data : List Byte} {i : ℕ} (h : i < data.length * 8) :
    (bitsOf data)[i]? = some ((data.getD (i / 8) 0).getMsbD (i % 8)) := by
  induction data generalizing i with
  | nil => exact absurd h (by simp)
  | cons b data ih =>
      rw [length_cons] at h
      rw [bitsOf_cons]
      by_cases hi : i < 8
      · rw [getElem?_append_left hi, Nat.div_eq_of_lt hi, Nat.mod_eq_of_lt hi,
          getD_cons_zero, byteBits, getElem?_map, getElem?_range hi]
        rfl
      · have hback : i - 8 < data.length * 8 := by omega
        rw [getElem?_append_right (by rw [length_byteBits]; omega), length_byteBits, ih hback,
          show i / 8 = (i - 8) / 8 + 1 from by omega, show (i - 8) % 8 = i % 8 from by omega,
          getD_cons_succ]

/-- A byte is the number that its bits write. -/
theorem byteBits_ofNat {bits : List Bool} (h : bits.length = 8) :
    byteBits (BitVec.ofNat 8 (bitsToNat bits)) = bits := by
  match bits, h with
  | [b₀, b₁, b₂, b₃, b₄, b₅, b₆, b₇], _ =>
      cases b₀ <;> cases b₁ <;> cases b₂ <;> cases b₃ <;> cases b₄ <;> cases b₅ <;> cases b₆ <;>
        cases b₇ <;> decide

/-- So many bytes from bits. -/
def packBits : ℕ → List Bool → List Byte
  | 0, _ => []
  | n + 1, bits => BitVec.ofNat 8 (bitsToNat (bits.take 8)) :: packBits n (bits.drop 8)

theorem bitsOf_packBits {n : ℕ} {bits : List Bool} (h : bits.length = n * 8) :
    bitsOf (packBits n bits) = bits := by
  induction n generalizing bits with
  | zero =>
      rw [Nat.zero_mul] at h
      rw [eq_nil_of_length_eq_zero h]
      rfl
  | succ n ih =>
      have hfirst : (bits.take 8).length = 8 := by
        rw [length_take]
        omega
      have hrest : (bits.drop 8).length = n * 8 := by
        rw [length_drop]
        omega
      rw [packBits, bitsOf_cons, ih hrest, byteBits_ofNat hfirst, take_append_drop]

/-! ## Exp-Golomb code words -/

/-- The code word with this suffix: as many zeros, and a one. -/
def codeWord (suffix : List Bool) : List Bool :=
  replicate suffix.length false ++ true :: suffix

/-- The value of the code word with this suffix. -/
def codeValue (suffix : List Bool) : ℕ := 2 ^ suffix.length - 1 + bitsToNat suffix

/-- The suffix of the code word of a value. -/
def codeSuffix (v : ℕ) : List Bool := fixed (v + 1).log2 (v + 1 - 2 ^ (v + 1).log2)

/-- The code word of a value. -/
def expGolomb (v : ℕ) : List Bool := codeWord (codeSuffix v)

@[simp]
theorem length_codeSuffix (v : ℕ) : (codeSuffix v).length = (v + 1).log2 := length_fixed _ _

@[simp]
theorem length_codeWord (suffix : List Bool) :
    (codeWord suffix).length = suffix.length + (suffix.length + 1) := by
  rw [codeWord, length_append, length_replicate, length_cons]

/-- The code word of a value has this value. -/
theorem codeValue_codeSuffix (v : ℕ) : codeValue (codeSuffix v) = v := by
  have hlow : 2 ^ (v + 1).log2 ≤ v + 1 := Nat.log2_self_le (Nat.succ_ne_zero v)
  have hhigh : v + 1 < 2 ^ ((v + 1).log2 + 1) := Nat.lt_log2_self
  rw [Nat.pow_succ] at hhigh
  rw [codeValue, length_codeSuffix, codeSuffix, bitsToNat_fixed (by omega)]
  have hpos : 0 < 2 ^ (v + 1).log2 := Nat.two_pow_pos _
  omega

/-- How many zeros are in front of a value below a power of two. -/
theorem length_codeSuffix_lt {v k : ℕ} (hv : v + 1 < 2 ^ k) : (codeSuffix v).length < k := by
  rw [length_codeSuffix]
  exact (Nat.log2_lt (Nat.succ_ne_zero v)).mpr hv

end Zstreamer.Foundation

/-! # Spreading the top bit downwards

The usual way to round up to a power of two is to or a number with itself shifted
right by 1, 2, 4, … until every bit below the highest one is set.  `Spread n x y`
says how far this has come: a bit of `y` is set when one of the `n` bits of `x`
from there upwards is.  Each round doubles `n`.
-/

namespace Zstreamer.Foundation

open List

/-- A bit of `y` is the disjunction of the `n` bits of `x` from there upwards. -/
def Spread (n x y : ℕ) : Prop := ∀ i, y.testBit i = true ↔ ∃ d < n, x.testBit (i + d) = true

theorem Spread.refl (x : ℕ) : Spread 1 x x := by
  intro i
  constructor
  · intro hbit
    exact ⟨0, Nat.one_pos, hbit⟩
  · rintro ⟨d, hd, hbit⟩
    obtain rfl := Nat.lt_one_iff.mp hd
    exact hbit

/-- One round. -/
theorem Spread.round {n x y : ℕ} (h : Spread n x y) : Spread (2 * n) x (y ||| y >>> n) := by
  intro i
  rw [Nat.testBit_or, Nat.testBit_shiftRight, Bool.or_eq_true, h i, h (n + i)]
  constructor
  · rintro (⟨d, hd, hbit⟩ | ⟨d, hd, hbit⟩)
    · exact ⟨d, by omega, hbit⟩
    · exact ⟨n + d, by omega, by rw [← Nat.add_assoc, Nat.add_comm i n]; exact hbit⟩
  · rintro ⟨d, hd, hbit⟩
    by_cases hlow : d < n
    · exact .inl ⟨d, hlow, hbit⟩
    · refine .inr ⟨d - n, by omega, ?_⟩
      rw [show n + i + (d - n) = i + d by omega]
      exact hbit

/-- Spreading sets no bit above the highest one. -/
theorem Spread.lt {n x y k : ℕ} (h : Spread n x y) (hx : x < 2 ^ k) : y < 2 ^ k := by
  apply Nat.lt_pow_two_of_testBit
  intro i hi
  rw [Bool.eq_false_iff, ne_eq, h i]
  rintro ⟨d, -, hbit⟩
  rw [Nat.testBit_eq_false_of_lt] at hbit
  · cases hbit
  · exact lt_of_lt_of_le hx (Nat.pow_le_pow_right (by decide) (by omega))

/-- Spreading far enough sets every bit below the highest one. -/
theorem Spread.eq {n x y k : ℕ} (h : Spread n x y) (hk : k < n) (hlow : 2 ^ k ≤ x)
    (hhigh : x < 2 ^ (k + 1)) : y = 2 ^ (k + 1) - 1 := by
  have htop : x.testBit k = true := Nat.testBit_of_two_pow_le_and_two_pow_add_one_gt hlow hhigh
  apply Nat.eq_of_testBit_eq
  intro i
  rw [Nat.testBit_two_pow_sub_one]
  by_cases hi : i < k + 1
  · rw [decide_eq_true hi, h i]
    exact ⟨k - i, by omega, by rw [show i + (k - i) = k by omega]; exact htop⟩
  · rw [decide_eq_false hi]
    apply Nat.testBit_eq_false_of_lt
    exact lt_of_lt_of_le (h.lt hhigh) (Nat.pow_le_pow_right (by decide) (by omega))

end Zstreamer.Foundation

/-
# Clocks and serial numbers

Times as ticks of a clock, and numbers that are compared around a wrap.
-/

import Mathlib.Data.Int.ModEq
import Mathlib.Data.Nat.GCD.Basic
import Mathlib.Data.Nat.ModEq
import Mathlib.Tactic.Linarith
import Mathlib.Tactic.Positivity
import Mathlib.Tactic.Ring
import Mathlib.Tactic.WLOG

/-! # Times as ticks of a clock

A time is rescaled to ticks of a clock by a product and a division.  When the product is
taken in so many bits, what is left of it says how many times it has wrapped around.  The
ticks are counted in fewer bits, so that some numbers of turns make no difference; these
are the multiples of the odd part of the divisor.
-/

namespace Zstreamer.Foundation

/-- The nanoseconds of a second. -/
def second : ℕ := 1000000000

/-- The ticks of a clock at a time, for so many ticks in a unit. -/
def ticks (unit rate time : ℕ) : ℕ := time * rate / unit

theorem ticks_mono {unit rate time later : ℕ} (h : time ≤ later) :
    ticks unit rate time ≤ ticks unit rate later :=
  Nat.div_le_div_right (Nat.mul_le_mul_right rate h)

section Wrapped

variable {odd two width bits n : ℕ}

/-- The whole turns of a product are the rest of its quotient. -/
theorem div_eq_add_turns (n width : ℕ) {odd two : ℕ} (unit_pos : 0 < odd * 2 ^ two) :
    n / (odd * 2 ^ two) = n % 2 ^ width / (odd * 2 ^ two) +
      (2 ^ width * (n / 2 ^ width) + n % 2 ^ width % (odd * 2 ^ two)) / (odd * 2 ^ two) := by
  have hsplit : n = 2 ^ width * (n / 2 ^ width) + n % 2 ^ width % (odd * 2 ^ two) +
      odd * 2 ^ two * (n % 2 ^ width / (odd * 2 ^ two)) := by
    have hturns := Nat.div_add_mod n (2 ^ width)
    have hrest := Nat.mod_add_div (n % 2 ^ width) (odd * 2 ^ two)
    omega
  conv_lhs => rw [hsplit, Nat.add_mul_div_left _ _ unit_pos]
  exact Nat.add_comm _ _

/-- **A product that has wrapped around still gives the right ticks** exactly when it has done so
a multiple of `odd` times. -/
theorem wrapped_div_modEq_iff (hodd : Nat.Coprime odd 2) (hpos : 0 < odd) (hsmall : odd ≤ 2 ^ bits)
    (hwide : bits + two ≤ width) :
    n % 2 ^ width / (odd * 2 ^ two) ≡ n / (odd * 2 ^ two) [MOD 2 ^ bits] ↔
      odd ∣ n / 2 ^ width := by
  have hunit : 0 < odd * 2 ^ two := Nat.mul_pos hpos (Nat.two_pow_pos two)
  have hrange : odd * 2 ^ two ≤ 2 ^ (bits + two) := by
    rw [Nat.pow_add]
    exact Nat.mul_le_mul_right _ hsmall
  obtain ⟨k, hk⟩ := Nat.exists_eq_add_of_le hwide
  have hwidth : 2 ^ width = 2 ^ (bits + two) * 2 ^ k := by rw [hk, Nat.pow_add]
  rw [div_eq_add_turns n width hunit, Nat.left_modEq_add_iff]
  generalize hs : n % 2 ^ width % (odd * 2 ^ two) = s
  have hless : s < odd * 2 ^ two := hs ▸ Nat.mod_lt _ hunit
  generalize n / 2 ^ width = turns
  constructor
  · rintro ⟨q, hq⟩
    -- the remainders agree, since they do so in more bits than they have
    have hdiv := Nat.div_add_mod (2 ^ width * turns + s) (odd * 2 ^ two)
    have hrest : (2 ^ width * turns + s) % (odd * 2 ^ two) < odd * 2 ^ two := Nat.mod_lt _ hunit
    rw [hq] at hdiv
    have hleft : 2 ^ width * turns = 2 ^ (bits + two) * (2 ^ k * turns) := by
      rw [hwidth, Nat.mul_assoc]
    have hright : odd * 2 ^ two * (2 ^ bits * q) = 2 ^ (bits + two) * (odd * q) := by
      rw [Nat.pow_add]
      ring
    have hsame : (2 ^ width * turns + s) % (odd * 2 ^ two) = s := by
      have hmod := congrArg (· % 2 ^ (bits + two)) hdiv
      simp only [hleft, hright, Nat.mul_add_mod] at hmod
      rw [Nat.mod_eq_of_lt (Nat.lt_of_lt_of_le hless hrange)] at hmod
      rw [hleft] at hrest ⊢
      rwa [Nat.mod_eq_of_lt (Nat.lt_of_lt_of_le hrest hrange)] at hmod
    have hprod : 2 ^ width * turns = odd * (2 ^ two * (2 ^ bits * q)) := by
      rw [← Nat.mul_assoc]
      omega
    exact (Nat.Coprime.pow_right width hodd).dvd_of_dvd_mul_left ⟨_, hprod⟩
  · rintro ⟨d, rfl⟩
    have hprod : 2 ^ width * (odd * d) + s = s + odd * 2 ^ two * (2 ^ bits * (2 ^ k * d)) := by
      rw [hwidth, Nat.pow_add]
      ring
    rw [hprod, Nat.add_mul_div_left _ _ hunit, Nat.div_eq_of_lt hless, Nat.zero_add]
    exact ⟨_, rfl⟩

end Wrapped

end Zstreamer.Foundation

/-! # Serial numbers

A serial number is a counter of which only the low `w` bits are carried.  Two of
them are compared by the sign of their difference, taken as a signed `w`-bit
number.  That difference is the difference of the counters themselves as long as
these are less than half a turn apart, and a ring whose size divides `2 ^ w` sees
no difference between a counter and its serial number.
-/

namespace Zstreamer.Foundation

/-- The low `w` bits of a counter. -/
def serial (w : ℕ) (counter : ℤ) : BitVec w := BitVec.ofInt w counter

/-- Less than half a turn apart, serial numbers differ as their counters do. -/
theorem toInt_serial_sub {w : ℕ} {a b : ℤ} (hlow : -2 ^ w ≤ 2 * (a - b))
    (hhigh : 2 * (a - b) < 2 ^ w) : (serial w a - serial w b).toInt = a - b := by
  rw [BitVec.toInt_sub, serial, serial, BitVec.toInt_ofInt, BitVec.toInt_ofInt, Int.bmod_sub_bmod,
    Int.sub_bmod_bmod]
  apply Int.bmod_eq_of_le_mul_two
  · push_cast
    linarith
  · push_cast
    linarith

/-- Counters of one serial number agree modulo any ring size that divides `2 ^ w`. -/
theorem toNat_serial_mod {w n : ℕ} (hdvd : n ∣ 2 ^ w) (a : ℤ) :
    (((serial w a).toNat % n : ℕ) : ℤ) = a % n := by
  have hnat : ((serial w a).toNat : ℤ) = a % (2 ^ w : ℕ) := by
    rw [serial, BitVec.toNat_ofInt, Int.toNat_of_nonneg (Int.emod_nonneg _ (by positivity))]
  rw [Int.natCast_mod, hnat]
  exact Int.emod_emod_of_dvd a (Int.natCast_dvd_natCast.mpr hdvd)

/-- Counters less than one turn of a ring apart have its slots to themselves. -/
theorem eq_of_emod_eq {n : ℕ} {a b : ℤ} (heq : a % n = b % n) (hlow : -(n : ℤ) < a - b)
    (hhigh : a - b < n) : a = b := by
  have hdvd : (n : ℤ) ∣ a - b := Int.ModEq.dvd (Int.ModEq.symm heq)
  have hzero : a - b = 0 := Int.eq_zero_of_abs_lt_dvd hdvd (abs_lt.mpr ⟨hlow, hhigh⟩)
  linarith

/-- Less than a full turn apart, counters are told apart by their serial numbers. -/
theorem eq_of_serial_eq {w : ℕ} {a b : ℤ} (heq : serial w a = serial w b)
    (hlow : -2 ^ w < a - b) (hhigh : a - b < 2 ^ w) : a = b := by
  have hmod : a % (2 ^ w : ℕ) = b % (2 ^ w : ℕ) := by
    rw [← toNat_serial_mod dvd_rfl a, ← toNat_serial_mod dvd_rfl b, heq]
  apply eq_of_emod_eq hmod
  · push_cast
    exact hlow
  · push_cast
    exact hhigh

theorem serial_add_one (w : ℕ) (a : ℤ) : serial w a + 1 = serial w (a + 1) := by
  rw [serial, serial, BitVec.ofInt_add]
  rfl

/-- The distance to a number ahead shrinks by one when the reference moves on. -/
theorem toNat_sub_add_one {p e : BitVec 16} (hne : p ≠ e) :
    (p - (e + 1)).toNat + 1 = (p - e).toNat := by
  bv_omega

/-! ## Windows across the end of the numbers

A window of serial numbers laid over a ring whose size does not divide the number of
serial numbers.  Where the window crosses the end of the numbers, two of its members
may share a slot. -/

/-- Two numbers as far apart as the largest multiple of the ring's size that the 16-bit numbers
hold. -/
def Across (size : ℕ) (p q : BitVec 16) : Prop :=
  ¬ size ∣ 2 ^ 16 ∧
    (p.toNat + (2 ^ 16 - 2 ^ 16 % size) = q.toNat ∨ q.toNat + (2 ^ 16 - 2 ^ 16 % size) = p.toNat)

instance (size : ℕ) (p q : BitVec 16) : Decidable (Across size p q) :=
  inferInstanceAs (Decidable (_ ∧ _))

/-- A multiple of the size that is less than the size short of `n`. -/
theorem eq_sub_mod_of_dvd {size n m : ℕ} (hdvd : size ∣ m) (hle : m < n) (hnear : n < m + size) :
    ¬ size ∣ n ∧ m = n - n % size := by
  obtain ⟨k, rfl⟩ := hdvd
  have hmod : n % size = n - size * k := by
    conv_lhs => rw [show n = n - size * k + size * k by omega]
    rw [Nat.add_mul_mod_self_left, Nat.mod_eq_of_lt (by omega)]
  constructor
  · intro h
    have := Nat.mod_eq_zero_of_dvd h
    omega
  · omega

/-- Members of one window that share a slot are equal or lie across the end of the numbers. -/
theorem across_of_mod_eq {size : ℕ} {p q e : BitVec 16} (hp : (p - e).toNat < size)
    (hq : (q - e).toNat < size) (hslot : p.toNat % size = q.toNat % size) (hne : p ≠ q) :
    Across size p q := by
  have hpq : p.toNat ≠ q.toNat := fun h => hne (BitVec.eq_of_toNat_eq h)
  wlog hlt : p.toNat < q.toNat generalizing p q
  · obtain ⟨hndvd, hor⟩ := this hq hp hslot.symm hne.symm hpq.symm (by omega)
    exact ⟨hndvd, hor.symm⟩
  have hdvd : size ∣ q.toNat - p.toNat := (Nat.modEq_iff_dvd' hlt.le).mp hslot
  have hle : size ≤ q.toNat - p.toNat := Nat.le_of_dvd (by omega) hdvd
  have hfar : 2 ^ 16 < q.toNat - p.toNat + size := by bv_omega
  obtain ⟨hndvd, heq⟩ := eq_sub_mod_of_dvd hdvd (by omega) hfar
  exact ⟨hndvd, .inl (by omega)⟩

end Zstreamer.Foundation

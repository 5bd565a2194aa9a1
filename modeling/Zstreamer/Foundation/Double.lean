/-
# Double precision numbers as far as comparing them goes

A `double` is its 64 bits.  The comparison `==` of C is the one of IEEE 754: the two
zeros are equal, and a NaN is equal to nothing, itself included.  On numbers it is
an equivalence, and that is all this development needs of floating point.
-/

import Mathlib.Logic.Basic

namespace Zstreamer.Foundation

/-- A `double`. -/
structure Double where
  bits : UInt64
  deriving DecidableEq, Repr

namespace Double

/-- The bits without the sign. -/
def magnitude (d : Double) : UInt64 := d.bits &&& 0x7FFFFFFFFFFFFFFF

/-- All exponent bits set and a fraction: not a number. -/
def isNaN (d : Double) : Bool := d.magnitude > 0x7FF0000000000000

/-- Zero, of either sign. -/
def isZero (d : Double) : Bool := d.magnitude == 0

/-- `0.0` -/
def zero : Double := ⟨0⟩

/-- `==` -/
def eq (a b : Double) : Bool :=
  !a.isNaN && !b.isNaN && (a == b || (a.isZero && b.isZero))

theorem isNaN_zero : zero.isNaN = false := by decide

theorem eq_refl {d : Double} (hnumber : d.isNaN = false) : d.eq d = true := by
  simp [eq, hnumber]

theorem eq_symm {a b : Double} (hab : a.eq b = true) : b.eq a = true := by
  simp only [eq, Bool.and_eq_true, Bool.or_eq_true, beq_iff_eq] at hab ⊢
  obtain ⟨⟨ha, hb⟩, hab⟩ := hab
  refine ⟨⟨hb, ha⟩, ?_⟩
  rcases hab with rfl | hzeros
  · exact .inl rfl
  · exact .inr hzeros.symm

theorem eq_trans {a b c : Double} (hab : a.eq b = true) (hbc : b.eq c = true) :
    a.eq c = true := by
  simp only [eq, Bool.and_eq_true, Bool.or_eq_true, beq_iff_eq, Bool.not_eq_true'] at hab hbc ⊢
  obtain ⟨⟨ha, -⟩, hab⟩ := hab
  obtain ⟨⟨-, hc⟩, hbc⟩ := hbc
  refine ⟨⟨ha, hc⟩, ?_⟩
  rcases hab with rfl | hab
  · exact hbc
  · rcases hbc with rfl | hbc
    · exact .inr hab
    · exact .inr ⟨hab.1, hbc.2⟩

/-- What compares equal is not a NaN. -/
theorem not_isNaN_of_eq {a b : Double} (heq : a.eq b = true) :
    a.isNaN = false ∧ b.isNaN = false := by
  simp only [eq, Bool.and_eq_true, Bool.not_eq_true'] at heq
  exact heq.1

end Double

end Zstreamer.Foundation

/-
# What has been seen

A store that only grows takes what it does not have yet, so it has what has been seen in the
order in which it was first seen.  The last one of a kind that the store has is the newest one
of its kind, which need not be the one that was seen last.
-/

import Mathlib.Data.List.Basic

namespace Zstreamer.Foundation

variable {α : Type*}

/-- The last one of a kind. -/
def lastWith (kind : α → Bool) (l : List α) : Option α := (l.filter kind).getLast?

@[simp]
theorem lastWith_nil (kind : α → Bool) : lastWith kind [] = none := rfl

theorem lastWith_append (kind : α → Bool) (l m : List α) :
    lastWith kind (l ++ m) = (lastWith kind m).or (lastWith kind l) := by
  rw [lastWith, List.filter_append, List.getLast?_append]
  rfl

theorem lastWith_eq_none {kind : α → Bool} {l : List α} :
    lastWith kind l = none ↔ l.any kind = false := by
  rw [lastWith, List.getLast?_eq_none_iff, List.filter_eq_nil_iff, List.any_eq_false]

/-- What is behind has one of the kind. -/
theorem lastWith_append_of_any {kind : α → Bool} {m : List α} (h : m.any kind = true)
    (l : List α) : lastWith kind (l ++ m) = lastWith kind m := by
  have hsome : lastWith kind m ≠ none := fun hnone =>
    Bool.false_ne_true ((lastWith_eq_none.mp hnone).symm.trans h)
  obtain ⟨a, ha⟩ := Option.ne_none_iff_exists'.mp hsome
  rw [lastWith_append, ha, Option.some_or]

/-- What is behind has none of the kind. -/
theorem lastWith_append_of_not_any {kind : α → Bool} {m : List α} (h : m.any kind = false)
    (l : List α) : lastWith kind (l ++ m) = lastWith kind l := by
  rw [lastWith_append, lastWith_eq_none.mpr h, Option.none_or]

variable [DecidableEq α]

/-- It is put behind the others, if it is new. -/
def addNew (seen : List α) (a : α) : List α := if a ∈ seen then seen else seen ++ [a]

/-- What has been seen, in the order in which it was first seen. -/
def firstSeen (l : List α) : List α := l.foldl addNew []

theorem firstSeen_append (l m : List α) : firstSeen (l ++ m) = m.foldl addNew (firstSeen l) :=
  List.foldl_append

theorem mem_addNew {seen : List α} {a b : α} : b ∈ addNew seen a ↔ b ∈ seen ∨ b = a := by
  rw [addNew]
  split
  case isTrue hmem =>
    refine ⟨Or.inl, ?_⟩
    rintro (hseen | rfl)
    · exact hseen
    · exact hmem
  case isFalse => rw [List.mem_append, List.mem_singleton]

theorem mem_foldl_addNew {seen l : List α} {b : α} :
    b ∈ l.foldl addNew seen ↔ b ∈ seen ∨ b ∈ l := by
  induction l generalizing seen with
  | nil => exact ⟨Or.inl, fun h => h.resolve_right List.not_mem_nil⟩
  | cons a l ih => rw [List.foldl_cons, ih, mem_addNew, List.mem_cons, or_assoc]

theorem mem_firstSeen {l : List α} {b : α} : b ∈ firstSeen l ↔ b ∈ l := by
  rw [firstSeen, mem_foldl_addNew]
  exact ⟨fun h => h.resolve_left List.not_mem_nil, Or.inr⟩

end Zstreamer.Foundation

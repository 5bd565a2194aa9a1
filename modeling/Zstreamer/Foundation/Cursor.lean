/-
# Loops over memory

Loops that move an offset, writes that are checked, and loops that stop at the first failure.
-/

import Mathlib.Algebra.Ring.Int.Defs
import Mathlib.Data.List.Basic
import Mathlib.Data.List.GetD
import Mathlib.Data.Nat.Notation
import Mathlib.Order.Basic
import Mathlib.Tactic.Common

/-! # Loops over an offset

A parser of binary data keeps an offset, reads a length there, and goes on behind what it
has read.  Here every read is checked, and the loop has so many turns at most: it fails
when a read leaves the data or the turns do not suffice.  When no turn fails and every
turn that goes on makes the offset larger, the loop gives the list that a recursion over
the rest of the data gives.
-/

namespace Zstreamer.Foundation

open List

variable {α β : Type*}

/-- So many elements from an offset on, when all of them are there. -/
def span (data : List α) (offset length : ℕ) : Option (List α) :=
  if offset + length ≤ data.length then some ((data.drop offset).take length) else none

theorem span_of_le {data : List α} {offset length : ℕ} (h : offset + length ≤ data.length) :
    span data offset length = some ((data.drop offset).take length) :=
  if_pos h

/-- What is behind an offset, when the offset is not behind the data: how much it is is then a
difference that does not wrap around. -/
def behind (data : List α) (offset : ℕ) : Option (List α) :=
  if offset ≤ data.length then some (data.drop offset) else none

theorem behind_of_le {data : List α} {offset : ℕ} (h : offset ≤ data.length) :
    behind data offset = some (data.drop offset) := if_pos h

theorem span_behind {data : List α} {offset : ℕ} (h : offset ≤ data.length) :
    span data offset (data.length - offset) = some (data.drop offset) := by
  rw [span_of_le (by omega), take_of_length_le (Nat.le_of_eq length_drop)]

theorem getElem?_eq_getD {data : List α} {i : ℕ} (h : i < data.length) (d : α) :
    data[i]? = some (data.getD i d) := by
  rw [getD_eq_getElem _ _ h, getElem?_eq_getElem h]

/-- Two elements are there. -/
theorem drop_two {data : List α} {offset : ℕ} (h : offset + 2 ≤ data.length) :
    ∃ x y, data[offset]? = some x ∧ data[offset + 1]? = some y ∧
      data.drop offset = x :: y :: data.drop (offset + 2) := by
  have hfirst : offset < data.length := by omega
  have hsecond : offset + 1 < data.length := by omega
  refine ⟨data[offset], data[offset + 1], getElem?_eq_getElem hfirst,
    getElem?_eq_getElem hsecond, ?_⟩
  rw [drop_eq_getElem_cons hfirst, drop_eq_getElem_cons hsecond]

/-- Two elements are not there. -/
theorem length_drop_lt_two {data : List α} {offset : ℕ} (h : ¬ offset + 2 ≤ data.length) :
    (data.drop offset).length < 2 := by
  rw [length_drop]
  omega

/-- What a turn of a loop does: the loop ends, or something is found and the loop goes on from
another offset. -/
inductive Turn (β : Type*)
  | ends
  | finds (found : β) (next : ℕ)

/-- A loop over an offset, for so many turns at most. -/
def collect (turn : ℕ → Option (Turn β)) : ℕ → ℕ → Option (List β)
  | 0, _ => none
  | turns + 1, offset =>
      match turn offset with
      | none => none
      | some .ends => some []
      | some (.finds found next) => (collect turn turns next).map (found :: ·)

/-- One turn of a loop over some data does what one turn of a recursion over the rest of the data
does, and goes on further inside. -/
def Follows (data : List α) (turn : ℕ → Option (Turn β)) (loop : ℕ → List α → List β)
    (offset turns : ℕ) : Prop :=
  (turn offset = some .ends ∧ loop (turns + 1) (data.drop offset) = []) ∨
    ∃ found next, turn offset = some (.finds found next) ∧
      (offset < next ∧ next ≤ data.length) ∧
      loop (turns + 1) (data.drop offset) = found :: loop turns (data.drop next)

/-- **A loop that follows a recursion neither fails nor needs more turns** than there are elements
left, and gives the list of the recursion. -/
theorem collect_eq {data : List α} {turn : ℕ → Option (Turn β)} {loop : ℕ → List α → List β}
    (hfollows : ∀ offset turns, offset ≤ data.length → Follows data turn loop offset turns)
    {turns offset : ℕ} (hinside : offset ≤ data.length) (hturns : data.length - offset < turns) :
    collect turn turns offset = some (loop turns (data.drop offset)) := by
  induction turns generalizing offset with
  | zero => exact absurd hturns (Nat.not_lt_zero _)
  | succ turns ih =>
      rw [collect]
      rcases hfollows offset turns hinside with
        ⟨hturn, hloop⟩ | ⟨found, next, hturn, ⟨hless, hnext⟩, hloop⟩
      · rw [hturn, hloop]
      · rw [hturn, hloop]
        dsimp only
        rw [ih hnext (by omega)]
        rfl

/-! ## Units behind their sizes -/

variable {size : α → α → ℕ} {zeroEnds : Bool} {data : List α}

/-- A turn of a loop over units that are each behind a size of two elements: the loop ends where
there is no size any more, where the unit would leave the data, and maybe at an empty unit. -/
def sizedTurn (size : α → α → ℕ) (zeroEnds : Bool) (data : List α) (offset : ℕ) :
    Option (Turn (List α)) :=
  if offset + 2 ≤ data.length then do
    let high ← data[offset]?
    let low ← data[offset + 1]?
    let length := size high low
    if (zeroEnds = true ∧ length = 0) ∨ offset + 2 + length > data.length then some .ends
    else do
      let found ← span data (offset + 2) length
      some (.finds found (offset + 2 + length))
  else some .ends

/-- A loop that stops in front of less than a size finds nothing there. -/
theorem eq_nil_of_short {loop : ℕ → List α → List (List α)} (hzero : ∀ rest, loop 0 rest = [])
    (hnil : ∀ turns, loop (turns + 1) [] = []) (hone : ∀ turns x, loop (turns + 1) [x] = [])
    (turns : ℕ) (rest : List α) (hshort : rest.length < 2) : loop turns rest = [] := by
  cases turns with
  | zero => exact hzero rest
  | succ turns =>
      rcases rest with _ | ⟨high, _ | ⟨low, rest⟩⟩
      · exact hnil turns
      · exact hone turns high
      · exact absurd hshort (Nat.not_lt.mpr (Nat.le_add_left 2 _))

/-- The recursion over units that are each behind their size. -/
structure SizedLoop (size : α → α → ℕ) (zeroEnds : Bool) (loop : ℕ → List α → List (List α)) :
    Prop where
  cons : ∀ turns high low rest, loop (turns + 1) (high :: low :: rest) =
    if (zeroEnds = true ∧ size high low = 0) ∨ size high low > rest.length then []
    else rest.take (size high low) :: loop turns (rest.drop (size high low))
  short : ∀ turns rest, rest.length < 2 → loop turns rest = []

/-- The loop follows the recursion. -/
theorem SizedLoop.follows {loop : ℕ → List α → List (List α)} (h : SizedLoop size zeroEnds loop)
    (offset turns : ℕ) : Follows data (sizedTurn size zeroEnds data) loop offset turns := by
  by_cases hheader : offset + 2 ≤ data.length
  · obtain ⟨high, low, hhigh, hlow, hdrop⟩ := drop_two hheader
    have hrest : (data.drop (offset + 2)).length = data.length - (offset + 2) := length_drop
    by_cases hends : (zeroEnds = true ∧ size high low = 0) ∨
        offset + 2 + size high low > data.length
    · refine .inl ⟨?_, ?_⟩
      · rw [sizedTurn, if_pos hheader, hhigh, hlow]
        exact if_pos hends
      · rw [hdrop, h.cons, if_pos (hends.imp_right fun hleaves => by omega)]
    · have hinside : offset + 2 + size high low ≤ data.length := by
        have := not_or.mp hends
        omega
      have hspan : span data (offset + 2) (size high low) = some _ := span_of_le hinside
      refine .inr ⟨(data.drop (offset + 2)).take (size high low), offset + 2 + size high low, ?_,
        ⟨by omega, hinside⟩, ?_⟩
      · rw [sizedTurn, if_pos hheader, hhigh, hlow]
        refine (if_neg hends).trans ?_
        rw [hspan]
        rfl
      · rw [hdrop, h.cons, if_neg, drop_drop]
        exact fun hor => hends (hor.imp_right fun hleaves => by omega)
  · exact .inl ⟨if_neg hheader, h.short _ _ (length_drop_lt_two hheader)⟩

end Zstreamer.Foundation

/-! # Checked writes

An array of a fixed size that is written piece by piece.  A piece that reaches over the end is
not written at all, so that a program whose writes all succeed has stayed in the array.
-/

namespace Zstreamer.Foundation

open List

variable {α : Type*}

/-- The array with some cells at an offset, when it has room for them. -/
def store (array : List α) (offset : ℕ) (cells : List α) : Option (List α) :=
  if offset + cells.length ≤ array.length then
    some (array.take offset ++ cells ++ array.drop (offset + cells.length))
  else none

/-- A write behind what has been written so far. -/
theorem store_behind {front cells rest : List α} {offset : ℕ} (hoffset : front.length = offset)
    (hroom : cells.length ≤ rest.length) :
    store (front ++ rest) offset cells = some (front ++ cells ++ rest.drop cells.length) := by
  subst hoffset
  rw [store, if_pos (by rw [length_append]; omega), take_left, ← drop_drop,
    drop_left]

/-- A write over what has been written. -/
theorem store_over {front old cells rest : List α} {offset : ℕ} (hoffset : front.length = offset)
    (hlength : cells.length = old.length) :
    store (front ++ (old ++ rest)) offset cells = some (front ++ (cells ++ rest)) := by
  subst hoffset
  rw [store, if_pos (by simp; omega), take_left, ← drop_drop, drop_left, hlength,
    drop_left, append_assoc]

end Zstreamer.Foundation

/-! # Attempts

What may fail: arithmetic on an `int` of the machine, and a function that is applied to
the elements of a list.  The whole list succeeds when every application does, and fails
with the first that fails.
-/

namespace Zstreamer.Foundation

open List

/-- The values of an `int`. -/
def IsInt (z : ℤ) : Prop := -2 ^ 31 ≤ z ∧ z < 2 ^ 31

instance (z : ℤ) : Decidable (IsInt z) := inferInstanceAs (Decidable (_ ∧ _))

variable {α β ε : Type*} {f : α → Except ε β} {as : List α}

theorem mapM_eq_ok {g : α → β} (hok : ∀ a ∈ as, f a = .ok (g a)) :
    as.mapM f = .ok (as.map g) := by
  induction as with
  | nil => rfl
  | cons a as ih =>
      rw [mapM_cons, hok a mem_cons_self,
        ih fun a' ha' => hok a' (mem_cons_of_mem a ha')]
      rfl

theorem mapM_eq_error {a : α} (ha : a ∈ as) {e : ε} (herror : f a = .error e) :
    ∃ e, as.mapM f = .error e := by
  induction as with
  | nil => cases ha
  | cons first as ih =>
      rw [mapM_cons]
      cases hfirst : f first with
      | error e' => exact ⟨e', rfl⟩
      | ok b =>
          rcases mem_cons.mp ha with rfl | hrest
          · rw [hfirst] at herror
            cases herror
          · obtain ⟨e', hrest⟩ := ih hrest
            exact ⟨e', by rw [hrest]; rfl⟩

end Zstreamer.Foundation

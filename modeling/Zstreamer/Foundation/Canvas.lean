/-
# Copies into a memory

A memory is what stands in every cell.  Elements are copied to a place of it, one copy
after the other; what the memory held before is still there in the cells that no copy
reaches.
-/

import Mathlib.Data.List.GetD
import Mathlib.Tactic.Common

namespace Zstreamer.Foundation

/-- Elements, and the cell that the first of them is copied to. -/
structure Copy (α : Type*) where
  pos : ℕ
  cells : List α
  deriving DecidableEq, Repr

namespace Copy

variable {α : Type*}

/-- The cells that the copy reaches. -/
def Covers (c : Copy α) (i : ℕ) : Prop := c.pos ≤ i ∧ i < c.pos + c.cells.length

/-- The memory after the copy. -/
def put (c : Copy α) (mem : ℕ → α) (i : ℕ) : α :=
  if c.pos ≤ i then c.cells.getD (i - c.pos) (mem i) else mem i

/-- The copy puts into every cell that it reaches what the picture has there. -/
def Shows (c : Copy α) (picture : ℕ → α) : Prop :=
  ∀ i, c.Covers i → c.cells[i - c.pos]? = some (picture i)

theorem put_of_not_covers {c : Copy α} {i : ℕ} (hcovers : ¬ c.Covers i) (mem : ℕ → α) :
    c.put mem i = mem i := by
  rw [put]
  split
  · rename_i hpos
    have hend : c.cells.length ≤ i - c.pos := by
      by_contra hshort
      exact hcovers ⟨hpos, by omega⟩
    rw [List.getD_eq_default _ _ hend]
  · rfl

theorem put_of_covers {c : Copy α} {picture : ℕ → α} (hshows : c.Shows picture) {i : ℕ}
    (hcovers : c.Covers i) (mem : ℕ → α) : c.put mem i = picture i := by
  rw [put, if_pos hcovers.1, List.getD_eq_getElem?_getD, hshows i hcovers]
  rfl

end Copy

/-- The memory after the copies. -/
def putAll {α : Type*} (copies : List (Copy α)) (mem : ℕ → α) : ℕ → α :=
  copies.foldl (fun mem c => c.put mem) mem

section Copies

variable {α : Type*} {copies : List (Copy α)} {mem picture : ℕ → α} {i : ℕ}

@[simp]
theorem putAll_nil (mem : ℕ → α) : putAll [] mem = mem := rfl

theorem putAll_append (copies others : List (Copy α)) (mem : ℕ → α) :
    putAll (copies ++ others) mem = putAll others (putAll copies mem) :=
  List.foldl_append

/-- A cell that no copy reaches keeps what it held. -/
theorem putAll_of_not_covers (hcovers : ∀ c ∈ copies, ¬ c.Covers i) :
    putAll copies mem i = mem i := by
  induction copies generalizing mem with
  | nil => rfl
  | cons c copies ih =>
      have hrest : putAll copies (c.put mem) i = c.put mem i :=
        ih fun c' hc' => hcovers c' (List.mem_cons_of_mem c hc')
      exact hrest.trans (Copy.put_of_not_covers (hcovers c List.mem_cons_self) mem)

/-- A cell that holds the picture goes on holding it. -/
theorem putAll_of_eq (hshows : ∀ c ∈ copies, c.Shows picture) (hcell : mem i = picture i) :
    putAll copies mem i = picture i := by
  induction copies generalizing mem with
  | nil => exact hcell
  | cons c copies ih =>
      apply ih fun c' hc' => hshows c' (List.mem_cons_of_mem c hc')
      by_cases hcovers : c.Covers i
      · exact Copy.put_of_covers (hshows c List.mem_cons_self) hcovers mem
      · exact (Copy.put_of_not_covers hcovers mem).trans hcell

/-- **Copies of a picture that reach a cell leave the picture in it**, whatever the memory held. -/
theorem putAll_of_covers (hshows : ∀ c ∈ copies, c.Shows picture)
    (hcovers : ∃ c ∈ copies, c.Covers i) : putAll copies mem i = picture i := by
  induction copies generalizing mem with
  | nil =>
      obtain ⟨c, hc, -⟩ := hcovers
      cases hc
  | cons c copies ih =>
      have hrest : ∀ c' ∈ copies, c'.Shows picture :=
        fun c' hc' => hshows c' (List.mem_cons_of_mem c hc')
      obtain ⟨c', hc', hcover⟩ := hcovers
      rcases List.mem_cons.mp hc' with rfl | hlater
      · have hcell := Copy.put_of_covers (hshows c' List.mem_cons_self) hcover mem
        exact @putAll_of_eq α copies (c'.put mem) picture i hrest hcell
      · exact ih hrest ⟨c', hlater, hcover⟩

/-- A cell that no copy reaches can hold something else than the picture. -/
theorem exists_putAll_ne [Nontrivial α] (hcovers : ∀ c ∈ copies, ¬ c.Covers i)
    (picture : ℕ → α) : ∃ mem, putAll copies mem i ≠ picture i := by
  obtain ⟨other, hother⟩ := exists_ne (picture i)
  exact ⟨fun _ => other, by rw [putAll_of_not_covers hcovers]; exact hother⟩

end Copies

end Zstreamer.Foundation

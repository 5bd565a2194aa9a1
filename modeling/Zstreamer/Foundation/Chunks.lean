/-
# Cutting a range into chunks

The loop that sends a range piece by piece: as long as the offset is before the end
it takes what is left, but no more than a maximum, and moves on by as much.  The
maximum is a signed number.  When it is positive the loop ends and the pieces are the
range; when it is not, the loop never ends unless it has nothing to do.
-/

import Mathlib.Data.List.Basic
import Mathlib.Data.Int.Notation
import Mathlib.Order.Lattice
import Mathlib.Order.Defs.LinearOrder
import Mathlib.Tactic.Ring

namespace Zstreamer.Foundation

/-- A piece of a range. -/
structure Chunk where
  offset : ℤ
  length : ℤ
  deriving DecidableEq, Repr

/-- The chunk that the loop takes at an offset. -/
def nextChunk (most len offset : ℤ) : Chunk := ⟨offset, min (len - offset) most⟩

@[simp]
theorem nextChunk_offset (most len offset : ℤ) : (nextChunk most len offset).offset = offset := rfl

@[simp]
theorem nextChunk_length (most len offset : ℤ) :
    (nextChunk most len offset).length = min (len - offset) most := rfl

/-- The loop, for so many turns at most; `none` when it has not ended by then. -/
def chunkLoop (most len : ℤ) : ℕ → ℤ → Option (List Chunk)
  | 0, offset => if offset < len then none else some []
  | turns + 1, offset =>
      if offset < len then
        (chunkLoop most len turns (offset + (nextChunk most len offset).length)).map
          (nextChunk most len offset :: ·)
      else some []

/-- What the loop does when it ends. -/
inductive Chunked (most len : ℤ) : ℤ → List Chunk → Prop
  | done {offset : ℤ} (hend : len ≤ offset) : Chunked most len offset []
  | chunk {offset : ℤ} {chunks : List Chunk} (hmore : offset < len)
      (hrest : Chunked most len (offset + (nextChunk most len offset).length) chunks) :
      Chunked most len offset (nextChunk most len offset :: chunks)

section Loop

variable {most len : ℤ}

theorem chunkLoop_of_end {offset : ℤ} (hend : len ≤ offset) (turns : ℕ) :
    chunkLoop most len turns offset = some [] := by
  cases turns with
  | zero => rw [chunkLoop, if_neg (not_lt.mpr hend)]
  | succ turns => rw [chunkLoop, if_neg (not_lt.mpr hend)]

/-- The loop ends with the pieces of the range. -/
theorem chunked_of_chunkLoop {turns : ℕ} {offset : ℤ} {chunks : List Chunk}
    (hloop : chunkLoop most len turns offset = some chunks) : Chunked most len offset chunks := by
  induction turns generalizing offset chunks with
  | zero =>
      obtain ⟨hend, hchunks⟩ := Option.ite_none_left_eq_some.mp hloop
      cases hchunks
      exact .done (not_lt.mp hend)
  | succ turns ih =>
      rw [chunkLoop] at hloop
      split at hloop
      case isTrue hmore =>
        obtain ⟨rest, hrest, rfl⟩ := Option.map_eq_some_iff.mp hloop
        exact .chunk hmore (ih hrest)
      case isFalse hend =>
        cases hloop
        exact .done (not_lt.mp hend)

/-- With a positive maximum, as many turns as there are elements are enough. -/
theorem chunkLoop_ends (hmost : 1 ≤ most) {turns : ℕ} {offset : ℤ}
    (hturns : len - offset ≤ turns) : ∃ chunks, chunkLoop most len turns offset = some chunks := by
  induction turns generalizing offset with
  | zero => exact ⟨[], chunkLoop_of_end (by omega) 0⟩
  | succ turns ih =>
      by_cases hmore : offset < len
      · have hnext : len - (offset + (nextChunk most len offset).length) ≤ turns := by
          rw [nextChunk_length]
          omega
        obtain ⟨rest, hrest⟩ := ih hnext
        exact ⟨nextChunk most len offset :: rest, by rw [chunkLoop, if_pos hmore, hrest]; rfl⟩
      · exact ⟨[], chunkLoop_of_end (not_lt.mp hmore) _⟩

/-- Without a positive maximum, the loop does not come nearer to the end. -/
theorem chunkLoop_endless (hmost : most ≤ 0) {offset : ℤ} (hmore : offset < len) (turns : ℕ) :
    chunkLoop most len turns offset = none := by
  induction turns generalizing offset with
  | zero => rw [chunkLoop, if_pos hmore]
  | succ turns ih =>
      have hstill : offset + (nextChunk most len offset).length < len := by
        rw [nextChunk_length]
        omega
      rw [chunkLoop, if_pos hmore, ih hstill]
      rfl

end Loop

namespace Chunked

variable {most len offset : ℤ} {chunks : List Chunk}

/-- Every chunk has an element at least, when the maximum is positive, and stays in the range. -/
theorem bounds (h : Chunked most len offset chunks) (hmost : 1 ≤ most) :
    ∀ c ∈ chunks, offset ≤ c.offset ∧ 1 ≤ c.length ∧ c.length ≤ most ∧
      c.offset + c.length ≤ len := by
  induction h with
  | done => exact nofun
  | @chunk offset rest hmore hrest ih =>
      intro c hc
      rcases List.mem_cons.mp hc with rfl | hc
      · rw [nextChunk_offset, nextChunk_length]
        omega
      · obtain ⟨hoffset, hrest⟩ := ih c hc
        refine ⟨?_, hrest⟩
        rw [nextChunk_length] at hoffset
        omega

/-- Chunks begin at every multiple of the maximum. -/
theorem offset_eq (h : Chunked most len offset chunks) :
    ∀ c ∈ chunks, c.offset < len ∧ ∃ k : ℕ, c.offset = offset + most * k := by
  induction h with
  | done => exact nofun
  | @chunk offset rest hmore hrest ih =>
      intro c hc
      rcases List.mem_cons.mp hc with rfl | hc
      · exact ⟨hmore, 0, by rw [nextChunk_offset, Nat.cast_zero, mul_zero, add_zero]⟩
      · obtain ⟨hend, k, hk⟩ := ih c hc
        cases hrest with
        | done => cases hc
        | chunk hmore' =>
            rw [nextChunk_length] at hmore' hk
            refine ⟨hend, k + 1, ?_⟩
            rw [hk, min_eq_right (by omega)]
            push_cast
            ring

/-- A chunk goes as far as the range or the maximum. -/
theorem length_eq (h : Chunked most len offset chunks) :
    ∀ c ∈ chunks, c.length = min (len - c.offset) most := by
  induction h with
  | done => exact nofun
  | chunk _ _ ih =>
      intro c hc
      rcases List.mem_cons.mp hc with rfl | hc
      · rfl
      · exact ih c hc

/-- Every chunk begins where the one before it ends. -/
theorem isChain (h : Chunked most len offset chunks) :
    chunks.IsChain fun c c' => c'.offset = c.offset + c.length := by
  induction h with
  | done => exact .nil
  | chunk _ hrest ih =>
      cases hrest with
      | done => exact .singleton _
      | chunk => exact ih.cons_cons rfl

/-- At every multiple of the maximum, a chunk begins. -/
theorem exists_chunk (h : Chunked most len offset chunks) {k : ℕ} (hk : offset + most * k < len)
    (hmost : 1 ≤ most) : ∃ c ∈ chunks, c.offset = offset + most * k := by
  induction h generalizing k with
  | done hend =>
      have hpos : 0 ≤ most * k := Int.mul_nonneg (by omega) (by omega)
      omega
  | @chunk offset rest hmore hrest ih =>
      cases k with
      | zero => exact ⟨_, List.mem_cons_self, by rw [nextChunk_offset, Nat.cast_zero, mul_zero, add_zero]⟩
      | succ k =>
          have hexpand : most * ((k + 1 : ℕ) : ℤ) = most + most * k := by
            push_cast
            ring
          have hpos : 0 ≤ most * k := Int.mul_nonneg (by omega) (by omega)
          rw [nextChunk_length, min_eq_right (by omega)] at ih
          obtain ⟨c, hc, hoffset⟩ := ih (k := k) (by omega)
          exact ⟨c, List.mem_cons_of_mem _ hc, by omega⟩

/-- Only the last chunk ends where the range does. -/
theorem exists_init (h : Chunked most len offset chunks) (hmore : offset < len) :
    ∃ init last, chunks = init ++ [last] ∧ last.offset + last.length = len ∧
      ∀ c ∈ init, c.offset + c.length < len := by
  induction h with
  | done hend => omega
  | @chunk offset rest _ hrest ih =>
      by_cases hlast : offset + (nextChunk most len offset).length < len
      · obtain ⟨init, last, rfl, hend, hinit⟩ := ih hlast
        refine ⟨_ :: init, last, rfl, hend, fun c hc => ?_⟩
        rcases List.mem_cons.mp hc with rfl | hc
        · exact hlast
        · exact hinit c hc
      · cases hrest with
        | done =>
            refine ⟨[], _, rfl, ?_, nofun⟩
            rw [nextChunk_length] at hlast ⊢
            rw [nextChunk_offset]
            omega
        | chunk hmore' => exact absurd hmore' hlast

/-- Every element is in a chunk. -/
theorem exists_covering (h : Chunked most len offset chunks) {i : ℤ} (hlow : offset ≤ i)
    (hhigh : i < len) : ∃ c ∈ chunks, c.offset ≤ i ∧ i < c.offset + c.length := by
  induction h with
  | done hend => omega
  | @chunk offset rest _ hrest ih =>
      by_cases hlater : offset + (nextChunk most len offset).length ≤ i
      · obtain ⟨c, hc, hcovers⟩ := ih hlater
        exact ⟨c, List.mem_cons_of_mem _ hc, hcovers⟩
      · exact ⟨_, List.mem_cons_self, hlow, not_le.mp hlater⟩

end Chunked

/-- The elements of a chunk. -/
def Chunk.slice {α : Type*} (c : Chunk) (data : List α) : List α :=
  (data.drop c.offset.toNat).take c.length.toNat

/-- A chunk that stays in the range has as many elements as it says. -/
theorem Chunk.length_slice {α : Type*} {c : Chunk} {data : List α} (hoffset : 0 ≤ c.offset)
    (hlength : 0 ≤ c.length) (hend : c.offset + c.length ≤ data.length) :
    ((c.slice data).length : ℤ) = c.length := by
  rw [Chunk.slice, List.length_take, List.length_drop]
  omega

/-- A chunk that ends early is the same in a beginning of the data. -/
theorem Chunk.slice_take {α : Type*} {c : Chunk} {n : ℕ} (hoffset : 0 ≤ c.offset)
    (hlength : 0 ≤ c.length) (hend : c.offset + c.length ≤ n) (data : List α) :
    c.slice (data.take n) = c.slice data := by
  rw [Chunk.slice, Chunk.slice, List.drop_take, List.take_take, min_eq_left (by omega)]

/-- The pieces make up the range. -/
theorem Chunked.flatMap_slice {α : Type*} {most offset : ℤ} {chunks : List Chunk} (data : List α)
    (h : Chunked most data.length offset chunks) (hmost : 1 ≤ most) (hoffset : 0 ≤ offset) :
    chunks.flatMap (fun c => c.slice data) = data.drop offset.toNat := by
  induction h with
  | done hend =>
      rw [List.flatMap_nil, List.drop_of_length_le]
      omega
  | @chunk offset rest hmore hrest ih =>
      have hpos : 1 ≤ (nextChunk most data.length offset).length := by
        rw [nextChunk_length]
        omega
      rw [List.flatMap_cons, ih (by omega), Chunk.slice, Int.toNat_add hoffset (by omega),
        ← List.drop_drop]
      exact List.take_append_drop _ _

end Zstreamer.Foundation

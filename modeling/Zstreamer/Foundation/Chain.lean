/-
# Singly linked lists in a heap

A heap maps an address to the cell allocated there, if any.  `Chain heap start cells`
says that following the next pointers from `start` visits exactly `cells` and ends
at a null pointer.  A chain is determined by where it starts, so it never visits an
address twice: `Chain.nodup` needs no hypothesis about the heap.

The two operations a queue needs are here, each as what it does to the chain:
linking a new cell behind the last one and taking the first one off.
-/

import Mathlib.Data.List.Basic
import Mathlib.Logic.Function.Basic

namespace Zstreamer.Foundation

open List Function

universe u v

/-- A list cell: what it carries and where the next one is. -/
structure Cell (α : Type u) (β : Type v) where
  value : β
  next : Option α
  deriving DecidableEq, Repr

variable {α : Type u} {β : Type v}

/-- The cells met on the way from a pointer to null, with their addresses. -/
inductive Chain (heap : α → Option (Cell α β)) : Option α → List (α × β) → Prop
  | nil : Chain heap none []
  | cons {a : α} {v : β} {next : Option α} {rest : List (α × β)}
      (hcell : heap a = some ⟨v, next⟩) (hrest : Chain heap next rest) :
      Chain heap (some a) ((a, v) :: rest)

namespace Chain

variable {heap heap' : α → Option (Cell α β)} {start : Option α} {cells : List (α × β)}

/-- A chain does not see what happens elsewhere in the heap. -/
theorem frame (h : Chain heap start cells) (hsame : ∀ c ∈ cells, heap' c.1 = heap c.1) :
    Chain heap' start cells := by
  induction h with
  | nil => exact .nil
  | @cons a v next rest hcell hrest ih =>
      apply Chain.cons
      · rw [hsame (a, v) mem_cons_self]
        exact hcell
      · apply ih
        intro c hc
        exact hsame c (mem_cons_of_mem _ hc)

/-- Where a chain starts decides all of it. -/
theorem unique {cells' : List (α × β)} (h : Chain heap start cells)
    (h' : Chain heap start cells') : cells = cells' := by
  induction h generalizing cells' with
  | nil =>
      cases h'
      rfl
  | cons hcell _ ih =>
      cases h' with
      | cons hcell' hrest' =>
          obtain ⟨rfl, rfl⟩ := Cell.mk.inj (Option.some.inj (hcell.symm.trans hcell'))
          rw [ih hrest']

/-- What follows a cell of the chain is a chain. -/
theorem at_mem (h : Chain heap start cells) {c : α × β} (hc : c ∈ cells) :
    ∃ rest, Chain heap (some c.1) (c :: rest) ∧ (c :: rest) <:+ cells := by
  induction h with
  | nil => exact absurd hc not_mem_nil
  | @cons a v next rest hcell hrest ih =>
      rcases mem_cons.mp hc with rfl | htail
      · exact ⟨rest, .cons hcell hrest, suffix_refl _⟩
      · obtain ⟨tail, hchain, hsuffix⟩ := ih htail
        exact ⟨tail, hchain, hsuffix.trans (suffix_cons _ _)⟩

/-- A chain visits no address twice: meeting one again would start the chain over. -/
theorem nodup (h : Chain heap start cells) : (cells.map Prod.fst).Nodup := by
  induction h with
  | nil => exact nodup_nil
  | @cons a v next rest hcell hrest ih =>
      rw [map_cons, nodup_cons]
      refine ⟨fun hmem => ?_, ih⟩
      obtain ⟨⟨a', v'⟩, hc, rfl⟩ := mem_map.mp hmem
      obtain ⟨tail, hchain, hsuffix⟩ := hrest.at_mem hc
      have heq := (Chain.cons hcell hrest).unique hchain
      have hshort := hsuffix.length_le
      have hlength := congrArg List.length heq
      simp only [length_cons] at hlength hshort
      omega

/-- The cells of a chain are allocated. -/
theorem allocated (h : Chain heap start cells) {a : α} {v : β} (hc : (a, v) ∈ cells) :
    ∃ next, heap a = some ⟨v, next⟩ := by
  obtain ⟨tail, hchain, -⟩ := h.at_mem hc
  cases hchain with
  | cons hcell _ => exact ⟨_, hcell⟩

variable [DecidableEq α]

/-- Link a new cell behind the last one. -/
theorem snoc (h : Chain heap start cells) {last fresh : α} {v w : β}
    (hlast : cells.getLast? = some (last, w)) (hfresh : heap fresh = none) :
    Chain (update (update heap fresh (some ⟨v, none⟩)) last
      (some ⟨w, some fresh⟩)) start (cells ++ [(fresh, v)]) := by
  induction h with
  | nil => cases hlast
  | @cons a x next rest hcell hrest ih =>
      have hne : a ≠ fresh := by
        rintro rfl
        rw [hfresh] at hcell
        cases hcell
      cases hrest with
      | nil =>
          cases hlast
          apply Chain.cons
          · rw [update_self]
          · apply Chain.cons _ .nil
            rw [update_of_ne hne.symm, update_self]
      | @cons b y next' rest' hcell' hrest' =>
          rw [getLast?_cons_cons] at hlast
          have hwhole := Chain.cons hcell (Chain.cons hcell' hrest')
          have hnotLast : a ≠ last := by
            rintro rfl
            have hmem : (a, w) ∈ (b, y) :: rest' := mem_of_getLast? hlast
            have hnodup := hwhole.nodup
            rw [map_cons, nodup_cons] at hnodup
            exact hnodup.1 (mem_map.mpr ⟨_, hmem, rfl⟩)
          apply Chain.cons
          · rw [update_of_ne hnotLast, update_of_ne hne]
            exact hcell
          · exact ih hlast

/-- Start a chain with one new cell. -/
theorem single {fresh : α} {v : β} :
    Chain (update heap fresh (some ⟨v, none⟩)) (some fresh) [(fresh, v)] := by
  apply Chain.cons _ .nil
  rw [update_self]

/-- Take the first cell off and give its memory back. -/
theorem tail {a : α} {v : β} {next : Option α} {rest : List (α × β)}
    (h : Chain heap (some a) ((a, v) :: rest)) (hcell : heap a = some ⟨v, next⟩) :
    Chain (update heap a none) next rest := by
  have hnodup := h.nodup
  rw [map_cons, nodup_cons] at hnodup
  cases h with
  | cons hcell' hrest =>
      obtain ⟨-, rfl⟩ := Cell.mk.inj (Option.some.inj (hcell.symm.trans hcell'))
      apply hrest.frame
      intro c hc
      apply update_of_ne
      rintro rfl
      exact hnodup.1 (mem_map.mpr ⟨c, hc, rfl⟩)

end Chain

end Zstreamer.Foundation

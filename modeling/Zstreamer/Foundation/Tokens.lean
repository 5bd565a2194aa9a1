/-
# Words and separators

Words that are joined by a separator, and what is found between separators.
-/

import Mathlib.Data.List.Basic
import Mathlib.Order.Basic

/-! # Words joined by a separator

Words in a row with a separator between them, and what is left of them when the row is cut off
somewhere.
-/

namespace Zstreamer.Foundation

open List

variable {α : Type*} {sep : α}

/-- The words with the separator between them. -/
def joined (sep : α) : List (List α) → List α
  | [] => []
  | [word] => word
  | word :: other :: words => word ++ sep :: joined sep (other :: words)

/-- Every word but the first has the separator in front. -/
theorem joined_eq_flatMap (word : List α) (words : List (List α)) :
    joined sep (word :: words) = word ++ words.flatMap (sep :: ·) := by
  induction words generalizing word with
  | nil => exact (append_nil word).symm
  | cons other words ih => rw [joined, ih, flatMap_cons, cons_append]

end Zstreamer.Foundation

/-! # Tokens

What `strtok` gives of a list: the pieces between the separators that are not empty.
-/

namespace Zstreamer.Foundation

open List

variable {α : Type*} (sep : α → Bool)

/-- The pieces between the separators, without the empty ones. -/
def tokens (l : List α) : List (List α) := (l.splitOnP sep).filter fun t => !t.isEmpty

variable {sep}

theorem tokens_append_cons (front back : List α) {s : α} (hs : sep s = true) :
    tokens sep (front ++ s :: back) = tokens sep front ++ tokens sep back := by
  rw [tokens, splitOnP_append_cons front back hs, filter_append]
  rfl

@[simp]
theorem tokens_nil : tokens sep [] = [] := rfl

theorem tokens_cons {s : α} (hs : sep s = true) (l : List α) :
    tokens sep (s :: l) = tokens sep l :=
  tokens_append_cons [] l hs

/-- Separators at the front make no difference. -/
theorem tokens_dropWhile (l : List α) : tokens sep (l.dropWhile sep) = tokens sep l := by
  induction l with
  | nil => rfl
  | cons a l ih =>
      rw [dropWhile_cons]
      split
      case isTrue ha => rw [ih, tokens_cons ha]
      case isFalse => rfl

/-- A piece without separators is one token. -/
theorem tokens_eq_singleton {l : List α} (hne : l ≠ []) (hl : ∀ a ∈ l, sep a = false) :
    tokens sep l = [l] := by
  rw [tokens, splitOnP_eq_singleton hl]
  refine filter_eq_self.mpr fun t ht => ?_
  rw [mem_singleton.mp ht, Bool.not_eq_true', isEmpty_eq_false_iff]
  exact hne

/-- There is no separator in a token. -/
theorem sep_of_mem_tokens {l t : List α} (ht : t ∈ tokens sep l) : ∀ a ∈ t, sep a = false := by
  induction hn : l.length using Nat.strongRecOn generalizing l with
  | ind n ih =>
      by_cases hall : ∀ a ∈ l, sep a = false
      · rw [tokens, splitOnP_eq_singleton hall] at ht
        rw [mem_singleton.mp (mem_of_mem_filter ht)]
        exact hall
      · obtain ⟨s, hs, hsep⟩ : ∃ s ∈ l, sep s = true := by
          by_contra hnone
          exact hall fun a ha => eq_false_of_ne_true fun h => hnone ⟨a, ha, h⟩
        obtain ⟨front, back, rfl⟩ := append_of_mem hs
        rw [tokens_append_cons front back hsep] at ht
        rw [length_append, length_cons] at hn
        rcases mem_append.mp ht with hfront | hback
        · exact ih front.length (by omega) hfront rfl
        · exact ih back.length (by omega) hback rfl

/-- A piece is a part of the list. -/
theorem infix_of_mem_splitOnP {l t : List α} (ht : t ∈ l.splitOnP sep) : t <:+: l := by
  induction hn : l.length using Nat.strongRecOn generalizing l with
  | ind n ih =>
      by_cases hall : ∀ a ∈ l, sep a = false
      · rw [splitOnP_eq_singleton hall] at ht
        exact mem_singleton.mp ht ▸ infix_refl l
      · obtain ⟨s, hs, hsep⟩ : ∃ s ∈ l, sep s = true := by
          by_contra hnone
          exact hall fun a ha => eq_false_of_ne_true fun h => hnone ⟨a, ha, h⟩
        obtain ⟨front, back, rfl⟩ := append_of_mem hs
        rw [splitOnP_append_cons front back hsep] at ht
        rw [length_append, length_cons] at hn
        rcases mem_append.mp ht with hfront | hback
        · exact (ih front.length (by omega) hfront rfl).trans (prefix_append _ _).isInfix
        · exact (ih back.length (by omega) hback rfl).trans
            ((suffix_cons _ _).trans (suffix_append _ _)).isInfix

end Zstreamer.Foundation

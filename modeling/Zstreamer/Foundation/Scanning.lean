/-
# Scanning a stream as it comes

A scanner takes tokens, or nothing, off the front of some data until it needs more.  What
it takes does not depend on what comes behind, so a stream that comes in pieces gives the
tokens of the stream, and what is left is what the whole stream would leave.  Every token
has the place where it begins.
-/

import Mathlib.Data.List.Infix
import Mathlib.Order.Basic
import Mathlib.Tactic.Common

namespace Zstreamer.Foundation

open List

variable {β τ : Type*}

/-- What is taken off the front of some data: a token or nothing, and how long it is. -/
structure Scanner (β τ : Type*) where
  step : List β → Option (Option τ × ℕ)
  step_pos : ∀ {data token n}, step data = some (token, n) → 0 < n
  step_le : ∀ {data token n}, step data = some (token, n) → n ≤ data.length
  step_append : ∀ {data found}, step data = some found → ∀ more, step (data ++ more) = some found

namespace Scanner

variable (s : Scanner β τ)

/-- The tokens in so many turns at most. -/
def tokensFor : ℕ → ℕ → List β → List (τ × ℕ)
  | 0, _, _ => []
  | turns + 1, place, data =>
      match s.step data with
      | none => []
      | some (token, n) =>
          token.toList.map (fun token => (token, place)) ++ tokensFor turns (place + n) (data.drop n)

/-- How much is taken in so many turns at most. -/
def usedFor : ℕ → List β → ℕ
  | 0, _ => 0
  | turns + 1, data =>
      match s.step data with
      | none => 0
      | some (_, n) => n + usedFor turns (data.drop n)

/-- The tokens, from a place on. -/
def tokens (place : ℕ) (data : List β) : List (τ × ℕ) := s.tokensFor data.length place data

/-- How much is taken. -/
def used (data : List β) : ℕ := s.usedFor data.length data

/-- What is left. -/
def rest (data : List β) : List β := data.drop (s.used data)

variable {s} {data more : List β} {token : Option τ} {n place : ℕ}

/-- Induction on what is left. -/
theorem induction {P : List β → Prop} (stop : ∀ data, s.step data = none → P data)
    (take : ∀ data token n, s.step data = some (token, n) → P (data.drop n) → P data)
    (data : List β) : P data := by
  induction hlength : data.length using Nat.strongRecOn generalizing data with
  | _ length ih =>
      subst hlength
      cases hstep : s.step data with
      | none => exact stop data hstep
      | some found =>
          obtain ⟨token, n⟩ := found
          have hpos := s.step_pos hstep
          have hle := s.step_le hstep
          refine take data token n hstep (ih (data.drop n).length ?_ _ rfl)
          rw [length_drop]
          omega

/-- Turns enough for the data are as good as more. -/
theorem tokensFor_congr {turns turns' : ℕ} (hturns : data.length ≤ turns)
    (hturns' : data.length ≤ turns') :
    s.tokensFor turns place data = s.tokensFor turns' place data := by
  induction data using s.induction generalizing turns turns' place with
  | stop data hstep => cases turns <;> cases turns' <;> simp only [tokensFor, hstep]
  | take data token n hstep ih =>
      have hpos := s.step_pos hstep
      have hle := s.step_le hstep
      obtain ⟨turns, rfl⟩ : ∃ m, turns = m + 1 := ⟨turns - 1, by omega⟩
      obtain ⟨turns', rfl⟩ : ∃ m, turns' = m + 1 := ⟨turns' - 1, by omega⟩
      simp only [tokensFor, hstep]
      exact congrArg _ (ih (by rw [length_drop]; omega) (by rw [length_drop]; omega))

theorem usedFor_congr {turns turns' : ℕ} (hturns : data.length ≤ turns)
    (hturns' : data.length ≤ turns') : s.usedFor turns data = s.usedFor turns' data := by
  induction data using s.induction generalizing turns turns' with
  | stop data hstep => cases turns <;> cases turns' <;> simp only [usedFor, hstep]
  | take data token n hstep ih =>
      have hpos := s.step_pos hstep
      have hle := s.step_le hstep
      obtain ⟨turns, rfl⟩ : ∃ m, turns = m + 1 := ⟨turns - 1, by omega⟩
      obtain ⟨turns', rfl⟩ : ∃ m, turns' = m + 1 := ⟨turns' - 1, by omega⟩
      simp only [usedFor, hstep]
      exact congrArg _ (ih (by rw [length_drop]; omega) (by rw [length_drop]; omega))

theorem tokensFor_eq {turns : ℕ} (hturns : data.length ≤ turns) :
    s.tokensFor turns place data = s.tokens place data :=
  tokensFor_congr hturns (Nat.le_refl _)

theorem usedFor_eq {turns : ℕ} (hturns : data.length ≤ turns) :
    s.usedFor turns data = s.used data :=
  usedFor_congr hturns (Nat.le_refl _)

theorem tokens_none (hstep : s.step data = none) : s.tokens place data = [] := by
  rw [← tokensFor_eq (Nat.le_succ _), tokensFor, hstep]

theorem used_none (hstep : s.step data = none) : s.used data = 0 := by
  rw [← usedFor_eq (Nat.le_succ _), usedFor, hstep]

theorem tokens_some (hstep : s.step data = some (token, n)) :
    s.tokens place data =
      token.toList.map (fun token => (token, place)) ++ s.tokens (place + n) (data.drop n) := by
  rw [← tokensFor_eq (Nat.le_succ _), tokensFor, hstep]
  exact congrArg _ (tokensFor_eq (by rw [length_drop]; exact Nat.sub_le _ _))

theorem used_some (hstep : s.step data = some (token, n)) :
    s.used data = n + s.used (data.drop n) := by
  rw [← usedFor_eq (Nat.le_succ _), usedFor, hstep]
  exact congrArg _ (usedFor_eq (by rw [length_drop]; exact Nat.sub_le _ _))

theorem rest_some (hstep : s.step data = some (token, n)) : s.rest data = s.rest (data.drop n) := by
  rw [rest, used_some hstep, rest, drop_drop]

theorem used_le (data : List β) : s.used data ≤ data.length := by
  induction data using s.induction with
  | stop data hstep => rw [used_none hstep]; exact Nat.zero_le _
  | take data token n hstep ih =>
      have hle := s.step_le hstep
      rw [length_drop] at ih
      rw [used_some hstep]
      omega

/-- **A stream that comes in pieces gives the tokens of the stream.** -/
theorem tokens_append (place : ℕ) (data more : List β) :
    s.tokens place (data ++ more) =
      s.tokens place data ++ s.tokens (place + s.used data) (s.rest data ++ more) := by
  induction data using s.induction generalizing place with
  | stop data hstep =>
      rw [rest, tokens_none hstep, used_none hstep]
      rfl
  | take data token n hstep ih =>
      have hdrop : (data ++ more).drop n = data.drop n ++ more :=
        drop_append_of_le_length (s.step_le hstep)
      rw [tokens_some (s.step_append hstep more), hdrop, ih, tokens_some hstep, used_some hstep,
        rest_some hstep, append_assoc, Nat.add_assoc]

/-- **What is left of a stream that comes in pieces is what the stream leaves.** -/
theorem used_append (data more : List β) :
    s.used (data ++ more) = s.used data + s.used (s.rest data ++ more) := by
  induction data using s.induction with
  | stop data hstep =>
      rw [rest, used_none hstep, drop_zero, Nat.zero_add]
  | take data token n hstep ih =>
      have hdrop : (data ++ more).drop n = data.drop n ++ more :=
        drop_append_of_le_length (s.step_le hstep)
      rw [used_some (s.step_append hstep more), hdrop, ih, used_some hstep, rest_some hstep,
        Nat.add_assoc]

theorem rest_append (data more : List β) : s.rest (data ++ more) = s.rest (s.rest data ++ more) := by
  rw [rest, used_append, ← drop_drop, drop_append_of_le_length (used_le data)]
  rfl

/-- What holds of every token that is taken. -/
theorem forall_tokens {P : τ → Prop} (htoken : ∀ {data token n},
    s.step data = some (some token, n) → P token) {found : τ × ℕ}
    (hfound : found ∈ s.tokens place data) : P found.1 := by
  induction data using s.induction generalizing place with
  | stop data hstep =>
      rw [tokens_none hstep] at hfound
      cases hfound
  | take data token n hstep ih =>
      rw [tokens_some hstep, mem_append] at hfound
      rcases hfound with hfirst | hlater
      · obtain ⟨first, hmem, rfl⟩ := mem_map.mp hfirst
        obtain rfl := Option.mem_toList.mp hmem
        exact htoken hstep
      · exact ih hlater

/-! ## Places -/

/-- The tokens begin in what is taken. -/
theorem place_of_mem {found : τ × ℕ} (hfound : found ∈ s.tokens place data) :
    place ≤ found.2 ∧ found.2 < place + s.used data := by
  induction data using s.induction generalizing place with
  | stop data hstep =>
      rw [tokens_none hstep] at hfound
      cases hfound
  | take data token n hstep ih =>
      have hpos := s.step_pos hstep
      rw [used_some hstep]
      rw [tokens_some hstep, mem_append] at hfound
      rcases hfound with hfirst | hlater
      · obtain ⟨_, -, rfl⟩ := mem_map.mp hfirst
        exact ⟨le_rfl, by dsimp only; omega⟩
      · have := ih hlater
        omega

/-- **No two tokens begin at one place.** -/
theorem pairwise_place (place : ℕ) (data : List β) :
    ((s.tokens place data).map Prod.snd).Pairwise (· < ·) := by
  induction data using s.induction generalizing place with
  | stop data hstep =>
      rw [tokens_none hstep]
      exact List.Pairwise.nil
  | take data token n hstep ih =>
      have hpos := s.step_pos hstep
      rw [tokens_some hstep, map_append, pairwise_append]
      refine ⟨?_, ih _, ?_⟩
      · cases token with
        | none => exact List.Pairwise.nil
        | some token => exact pairwise_singleton _ _
      · intro a ha b hb
        obtain ⟨first, hfirst, rfl⟩ := mem_map.mp ha
        obtain ⟨_, -, rfl⟩ := mem_map.mp hfirst
        obtain ⟨found, hfound, rfl⟩ := mem_map.mp hb
        have := (place_of_mem hfound).1
        dsimp only
        omega

end Scanner

end Zstreamer.Foundation

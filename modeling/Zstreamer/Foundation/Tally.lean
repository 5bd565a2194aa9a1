/-
# Weighing

Tables and lists that are compared by the weight of what is in them.
-/

import Mathlib.Algebra.Ring.Nat
import Mathlib.Algebra.BigOperators.Group.Finset.Basic
import Mathlib.Algebra.BigOperators.Group.List.Basic
import Mathlib.Algebra.Order.BigOperators.Group.Finset
import Mathlib.Algebra.Order.BigOperators.Group.List
import Mathlib.Data.Fintype.BigOperators

/-! # Weighing a thread table

The counting invariants of an interleaved system compare a shared counter with
how many threads are at certain places of their programs.  `tally` adds a weight
over a finite table; a step replaces one entry, and `tally_update` says what that
does to the total.  The equation is stated with both sides positive so that
`omega` can use it without meeting a subtraction.
-/

namespace Zstreamer.Foundation

open List Function

universe u v

variable {ι : Type u} {κ : Type v} [Fintype ι]

section Views

omit [Fintype ι]

variable {β : Type*} [DecidableEq ι] {view : κ → β} {table : ι → κ} {i : ι} {x : κ} {b : β}

/-- Replacing an entry by one that looks the same leaves the table looking the same. -/
theorem view_update (hview : view x = view (table i)) (j : ι) :
    view (update table i x j) = view (table j) := by
  by_cases hj : j = i
  · rw [hj, update_self, hview]
  · rw [update_of_ne hj]

theorem view_of_update (hnew : view x ≠ b) {j : ι} (hj : view (update table i x j) = b) :
    view (table j) = b := by
  by_cases hji : j = i
  · rw [hji, update_self] at hj
    exact absurd hj hnew
  · rwa [update_of_ne hji] at hj

theorem view_update_of_view (hold : view (table i) ≠ b) {j : ι} (hj : view (table j) = b) :
    view (update table i x j) = b := by
  rw [update_of_ne, hj]
  rintro rfl
  exact hold hj

/-- Replacing an entry by one that looks as none did leaves no two entries looking the same. -/
theorem one_view_update {view : κ → Option β}
    (hone : ∀ j j' c, view (table j) = some c → view (table j') = some c → j = j')
    (hold : ∀ j, view (table j) ≠ some b) (hnew : view x = some b) (j j' : ι) (c : β)
    (hj : view (update table i x j) = some c) (hj' : view (update table i x j') = some c) :
    j = j' := by
  by_cases hb : b = c
  · have heq : ∀ {j}, view (update table i x j) = some c → j = i := by
      intro j hj
      by_contra hne
      rw [update_of_ne hne, ← hb] at hj
      exact hold j hj
    rw [heq hj, heq hj']
  · have hne : view x ≠ some c := by
      rw [hnew]
      exact fun h => hb (Option.some.inj h)
    exact hone j j' c (view_of_update hne hj) (view_of_update hne hj')

end Views

/-- The total weight of a table's entries. -/
def tally (weight : κ → ℕ) (table : ι → κ) : ℕ := ∑ i, weight (table i)

/-- Replacing one entry replaces its weight. -/
theorem tally_update [DecidableEq ι] (weight : κ → ℕ) (table : ι → κ) (i : ι) (x : κ) :
    tally weight (update table i x) + weight (table i) =
      tally weight table + weight x := by
  have hrest : ∑ j ∈ Finset.univ.erase i, weight (update table i x j) =
      ∑ j ∈ Finset.univ.erase i, weight (table j) :=
    Finset.sum_congr rfl fun j hj => by
      rw [update_of_ne (Finset.ne_of_mem_erase hj)]
  have hnew := Finset.add_sum_erase Finset.univ
    (fun j => weight (update table i x j)) (Finset.mem_univ i)
  have hold := Finset.add_sum_erase Finset.univ (fun j => weight (table j)) (Finset.mem_univ i)
  simp only [update_self, hrest] at hnew
  simp only [tally]
  omega

/-- Each entry weighs at most the whole table. -/
theorem le_tally (weight : κ → ℕ) (table : ι → κ) (i : ι) :
    weight (table i) ≤ tally weight table :=
  Finset.single_le_sum (f := fun j => weight (table j)) (fun _ _ => Nat.zero_le _)
    (Finset.mem_univ i)

/-- Two entries weigh at most the whole table. -/
theorem add_le_tally (weight : κ → ℕ) (table : ι → κ) {i j : ι} (hne : i ≠ j) :
    weight (table i) + weight (table j) ≤ tally weight table :=
  Finset.add_le_sum (f := fun k => weight (table k)) (fun _ _ => Nat.zero_le _)
    (Finset.mem_univ i) (Finset.mem_univ j) hne

/-- Two weights together. -/
theorem tally_add (first second : κ → ℕ) (table : ι → κ) :
    tally (fun x => first x + second x) table = tally first table + tally second table :=
  Finset.sum_add_distrib

/-- A table of weightless entries weighs nothing. -/
theorem tally_eq_zero {weight : κ → ℕ} {table : ι → κ} (hzero : ∀ i, weight (table i) = 0) :
    tally weight table = 0 :=
  Finset.sum_eq_zero fun i _ => hzero i

theorem tally_le_tally {first second : κ → ℕ} {table : ι → κ}
    (hle : ∀ i, first (table i) ≤ second (table i)) : tally first table ≤ tally second table :=
  Finset.sum_le_sum fun i _ => hle i

/-- Only the members of a set weigh anything, and each of them at most `n`. -/
theorem tally_le_card_mul {weight : κ → ℕ} {table : ι → κ} {members : Finset ι} {n : ℕ}
    (hzero : ∀ i, i ∉ members → weight (table i) = 0) (hle : ∀ i, weight (table i) ≤ n) :
    tally weight table ≤ members.card * n := by
  have hsum : tally weight table = ∑ i ∈ members, weight (table i) :=
    (Finset.sum_subset (Finset.subset_univ members) fun i _ hi => hzero i hi).symm
  calc tally weight table = ∑ i ∈ members, weight (table i) := hsum
    _ ≤ ∑ _ ∈ members, n := Finset.sum_le_sum fun i _ => hle i
    _ = members.card * n := Finset.sum_const_nat fun _ _ => rfl

/-- Entries that hold different items of a set and weigh what their items are worth
weigh no more than the set is worth. -/
theorem tally_le_sum {β : Type*} [DecidableEq β] {weight : κ → ℕ} {table : ι → κ}
    (holds : κ → Option β) {items : Finset β} {value : β → ℕ}
    (hholds : ∀ i, weight (table i) ≠ 0 →
      ∃ b ∈ items, holds (table i) = some b ∧ weight (table i) = value b)
    (hdistinct : ∀ i j b, holds (table i) = some b → holds (table j) = some b → i = j) :
    tally weight table ≤ ∑ b ∈ items, value b := by
  let holders := Finset.univ.filter fun i => weight (table i) ≠ 0
  let worth : Option β → ℕ := fun item => item.elim 0 value
  have hworth : ∀ i ∈ holders, weight (table i) = worth (holds (table i)) := by
    intro i hi
    obtain ⟨b, -, hb, hvalue⟩ := hholds i (Finset.mem_filter.mp hi).2
    rw [hb]
    exact hvalue
  have hinjective : Set.InjOn (fun i => holds (table i)) holders := by
    intro i hi j _ heq
    obtain ⟨b, -, hb, -⟩ := hholds i (Finset.mem_filter.mp hi).2
    have heq : holds (table i) = holds (table j) := heq
    exact hdistinct i j b hb (heq.symm.trans hb)
  calc tally weight table = ∑ i ∈ holders, weight (table i) :=
        (Finset.sum_filter_ne_zero Finset.univ).symm
    _ = ∑ i ∈ holders, worth (holds (table i)) := Finset.sum_congr rfl hworth
    _ = ∑ item ∈ holders.image fun i => holds (table i), worth item :=
        (Finset.sum_image hinjective).symm
    _ ≤ ∑ item ∈ items.map Function.Embedding.some, worth item := by
        refine Finset.sum_le_sum_of_subset fun item hitem => ?_
        obtain ⟨i, hi, rfl⟩ := Finset.mem_image.mp hitem
        obtain ⟨b, hmem, hb, -⟩ := hholds i (Finset.mem_filter.mp hi).2
        rw [hb]
        exact Finset.mem_map_of_mem _ hmem
    _ = ∑ b ∈ items, value b := Finset.sum_map items _ worth

/-- If every item of a set is held by some entry, the entries that hold one outnumber the
items. -/
theorem card_le_tally {β : Type*} [DecidableEq β] {weight : κ → ℕ} {table : ι → κ}
    (holds : κ → Option β) {items : Finset β}
    (hheld : ∀ b ∈ items, ∃ i, holds (table i) = some b)
    (hweight : ∀ i b, holds (table i) = some b → 1 ≤ weight (table i)) :
    items.card ≤ tally weight table := by
  let holders := Finset.univ.filter fun i => ∃ b ∈ items, holds (table i) = some b
  calc items.card = (items.map Function.Embedding.some).card := (Finset.card_map _).symm
    _ ≤ (holders.image fun i => holds (table i)).card := by
        refine Finset.card_le_card fun item hitem => ?_
        obtain ⟨b, hb, rfl⟩ := Finset.mem_map.mp hitem
        obtain ⟨i, hi⟩ := hheld b hb
        exact Finset.mem_image.mpr ⟨i, Finset.mem_filter.mpr ⟨Finset.mem_univ i, b, hb, hi⟩, hi⟩
    _ ≤ holders.card := Finset.card_image_le
    _ = ∑ _ ∈ holders, 1 := Finset.card_eq_sum_ones holders
    _ ≤ ∑ i ∈ holders, weight (table i) := by
        refine Finset.sum_le_sum fun i hi => ?_
        obtain ⟨b, -, hb⟩ := (Finset.mem_filter.mp hi).2
        exact hweight i b hb
    _ ≤ tally weight table := Finset.sum_le_sum_of_subset (Finset.filter_subset _ _)

/-- A bound by a total survives a step that pays for what it takes. -/
theorem le_tally_update [DecidableEq ι] {weight : κ → ℕ} {table : ι → κ} {i : ι} {x : κ}
    {a b a' b' : ℕ} (hle : a ≤ b + tally weight table)
    (hpaid : a' + b + weight (table i) ≤ a + b' + weight x) :
    a' ≤ b' + tally weight (update table i x) := by
  have hupdate := tally_update weight table i x
  omega

/-! ## Lists -/

/-- Two weights of the members of a list, one never above the other, come to the same total exactly
when they are the same. -/
theorem sum_map_eq_iff {α : Type*} {first second : α → ℕ} {members : List α}
    (hle : ∀ a ∈ members, first a ≤ second a) :
    (members.map first).sum = (members.map second).sum ↔ ∀ a ∈ members, first a = second a := by
  constructor
  · intro htotal a ha
    by_contra hne
    have hless := sum_lt_sum first second hle ⟨a, ha, lt_of_le_of_ne (hle a ha) hne⟩
    exact hless.ne htotal
  · intro hsame
    exact congrArg sum (map_congr_left hsame)

end Zstreamer.Foundation

/-! # Lists compared by weight

Two writers put out list after list.  When no list of the first writer outweighs the list of
the second one, the two can only have put out the same when every list is the same: what is
missing in one list cannot be made up for in another.
-/

namespace Zstreamer.Foundation

open List Function

variable {α : Type*} (weight : α → ℕ)

/-- What a list weighs. -/
def weigh (l : List α) : ℕ := (l.map weight).sum

@[simp]
theorem weigh_nil : weigh weight [] = 0 := rfl

@[simp]
theorem weigh_cons (a : α) (l : List α) : weigh weight (a :: l) = weight a + weigh weight l :=
  sum_cons

@[simp]
theorem weigh_append (front back : List α) :
    weigh weight (front ++ back) = weigh weight front + weigh weight back := by
  rw [weigh, map_append, sum_append]
  rfl

variable {weight}

/-- A beginning that weighs as much as all is all. -/
theorem eq_of_prefix_of_weigh (hpos : ∀ a, 0 < weight a) {front l : List α} (hfront : front <+: l)
    (hweigh : weigh weight front = weigh weight l) : front = l := by
  obtain ⟨rest, rfl⟩ := hfront
  cases rest with
  | nil => exact (append_nil front).symm
  | cons a rest =>
      rw [weigh_append, weigh_cons] at hweigh
      have := hpos a
      omega

/-- None of the lists of the first writer outweighs that of the second one. -/
def Outweighed (weight : α → ℕ) : List (List α) → List (List α) → Prop :=
  List.Forall₂ fun l m => weigh weight l ≤ weigh weight m

theorem Outweighed.flatten {ls ms : List (List α)} (h : Outweighed weight ls ms) :
    weigh weight ls.flatten ≤ weigh weight ms.flatten := by
  induction h with
  | nil => exact le_rfl
  | cons hone _ ih =>
      rw [flatten_cons, flatten_cons, weigh_append, weigh_append]
      exact Nat.add_le_add hone ih

/-- **Nothing is made up for**: the same is put out only when every list is the same. -/
theorem Outweighed.flatten_eq_iff (hpos : ∀ a, 0 < weight a) {ls ms : List (List α)}
    (h : Outweighed weight ls ms) : ls.flatten = ms.flatten ↔ ls = ms := by
  refine ⟨fun hsame => ?_, congrArg List.flatten⟩
  induction h with
  | nil => rfl
  | @cons l m ls ms hone hrest ih =>
      rw [flatten_cons, flatten_cons] at hsame
      have hall := congrArg (weigh weight) hsame
      rw [weigh_append, weigh_append] at hall
      have hothers := Outweighed.flatten hrest
      have hweigh : weigh weight l = weigh weight m := by omega
      have hl : l <+: m ++ ms.flatten := hsame ▸ prefix_append l ls.flatten
      have hlm : l = m := by
        rcases prefix_or_prefix_of_prefix hl (prefix_append m ms.flatten) with hlm | hml
        · exact eq_of_prefix_of_weigh hpos hlm hweigh
        · exact (eq_of_prefix_of_weigh hpos hml hweigh.symm).symm
      subst hlm
      rw [ih (append_cancel_left hsame)]

/-- The weight that counts. -/
theorem weigh_one (l : List α) : weigh (fun _ => 1) l = l.length := by
  induction l with
  | nil => rfl
  | cons a l ih => rw [weigh_cons, ih, length_cons, Nat.add_comm]

end Zstreamer.Foundation

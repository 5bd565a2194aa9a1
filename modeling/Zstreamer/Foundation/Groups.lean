/-
# Groups of a sequence

Elements come one after the other into an open group.  Whether an element closes the group
and begins another is decided from the group and the element; an empty group is not
closed.  The groups make up the sequence, no element but its first would have closed its
group, and elements that do not close a group stay in it.
-/

import Mathlib.Data.List.Infix
import Mathlib.Tactic.Common

namespace Zstreamer.Foundation

open List

variable {α : Type*}

/-- The groups, with an open one. -/
def groupsFrom (cut : List α → α → Bool) : List α → List α → List (List α)
  | group, [] => if group = [] then [] else [group]
  | group, a :: as =>
      if group ≠ [] ∧ cut group a = true then group :: groupsFrom cut [a] as
      else groupsFrom cut (group ++ [a]) as

/-- The open group behind some elements. -/
def openGroup (cut : List α → α → Bool) : List α → List α → List α
  | group, [] => group
  | group, a :: as =>
      if group ≠ [] ∧ cut group a = true then openGroup cut [a] as
      else openGroup cut (group ++ [a]) as

/-! ## One element at a time -/

theorem groupsFrom_nil (cut : List α → α → Bool) (group : List α) :
    groupsFrom cut group [] = if group = [] then [] else [group] := rfl

theorem groupsFrom_cons (cut : List α → α → Bool) (group : List α) (a : α) (as : List α) :
    groupsFrom cut group (a :: as) =
      if group ≠ [] ∧ cut group a = true then group :: groupsFrom cut [a] as
      else groupsFrom cut (group ++ [a]) as := rfl

theorem openGroup_cons (cut : List α → α → Bool) (group : List α) (a : α) (as : List α) :
    openGroup cut group (a :: as) =
      if group ≠ [] ∧ cut group a = true then openGroup cut [a] as
      else openGroup cut (group ++ [a]) as := rfl

/-- No element but the first would have closed the group before it. -/
def Uncut (cut : List α → α → Bool) (group : List α) : Prop :=
  ∀ before a after, group = before ++ a :: after → before ≠ [] → cut before a = false

section Groups

variable {cut : List α → α → Bool} {group as bs : List α} {a : α}

theorem uncut_nil : Uncut cut ([] : List α) := by
  intro before a after hgroup
  cases before <;> cases hgroup

theorem uncut_singleton (a : α) : Uncut cut [a] := by
  intro before b after hgroup hbefore
  cases before with
  | nil => exact absurd rfl hbefore
  | cons first before =>
      have := congrArg List.length hgroup
      simp only [length_cons, length_append, length_nil] at this
      omega

theorem Uncut.append_singleton (h : Uncut cut group)
    (hcut : ¬ (group ≠ [] ∧ cut group a = true)) : Uncut cut (group ++ [a]) := by
  intro before b after hsplit hbefore
  rcases eq_nil_or_concat' after with rfl | ⟨after, last, rfl⟩
  · obtain ⟨rfl, hlast⟩ := append_inj' hsplit rfl
    obtain rfl := singleton_inj.mp hlast
    exact Bool.eq_false_iff.mpr fun htrue => hcut ⟨hbefore, htrue⟩
  · have hassoc : before ++ b :: (after ++ [last]) = (before ++ b :: after) ++ [last] := by
      rw [append_assoc]
      rfl
    obtain ⟨hgroup, -⟩ := append_inj' (hsplit.trans hassoc) rfl
    exact h before b after hgroup hbefore

/-- The groups of images are the images of the groups. -/
theorem groupsFrom_map {β : Type*} {cut' : List β → β → Bool} {f : α → β}
    (hcut : ∀ group a, cut' (group.map f) (f a) = cut group a) (group as : List α) :
    groupsFrom cut' (group.map f) (as.map f) = (groupsFrom cut group as).map (List.map f) := by
  induction as generalizing group with
  | nil =>
      rw [map_nil, groupsFrom_nil, groupsFrom_nil, apply_ite (List.map (List.map f))]
      exact if_congr map_eq_nil_iff rfl rfl
  | cons a as ih =>
      have hsingle : [f a] = [a].map f := rfl
      rw [map_cons, groupsFrom_cons, groupsFrom_cons, apply_ite (List.map (List.map f)), hcut, map_cons,
        ← ih (group ++ [a]), ← ih [a], map_append, ← hsingle]
      exact if_congr (and_congr_left' (not_congr map_eq_nil_iff)) rfl rfl

/-- **The groups make up the sequence.** -/
theorem flatten_groupsFrom (cut : List α → α → Bool) (group as : List α) :
    (groupsFrom cut group as).flatten = group ++ as := by
  induction as generalizing group with
  | nil =>
      rw [groupsFrom_nil, append_nil]
      split
      · rename_i hempty
        rw [hempty]
        rfl
      · exact flatten_singleton
  | cons a as ih =>
      rw [groupsFrom_cons]
      split
      · rw [flatten_cons, ih]
        rfl
      · rw [ih, append_assoc]
        rfl

/-- **No element but its first would have closed its group.** -/
theorem uncut_of_mem_groupsFrom (huncut : Uncut cut group) :
    ∀ g ∈ groupsFrom cut group as, Uncut cut g := by
  induction as generalizing group with
  | nil =>
      intro g hg
      rw [groupsFrom_nil] at hg
      split at hg
      · cases hg
      · obtain rfl := mem_singleton.mp hg
        exact huncut
  | cons a as ih =>
      intro g hg
      rw [groupsFrom_cons] at hg
      split at hg
      · rcases mem_cons.mp hg with rfl | hg
        · exact huncut
        · exact ih (uncut_singleton a) g hg
      · rename_i hcut
        exact ih (huncut.append_singleton hcut) g hg

/-- The open group is the beginning of a group. -/
theorem exists_mem_groupsFrom (hgroup : group ≠ []) :
    ∃ g ∈ groupsFrom cut group as, group <+: g := by
  induction as generalizing group with
  | nil => exact ⟨group, by rw [groupsFrom_nil, if_neg hgroup]; exact mem_cons_self, prefix_rfl⟩
  | cons a as ih =>
      rw [groupsFrom_cons]
      split
      · exact ⟨group, mem_cons_self, prefix_rfl⟩
      · obtain ⟨g, hg, hprefix⟩ := ih (append_ne_nil_of_left_ne_nil hgroup [a])
        exact ⟨g, hg, (prefix_append group [a]).trans hprefix⟩

theorem openGroup_append (cut : List α → α → Bool) (group as bs : List α) :
    openGroup cut group (as ++ bs) = openGroup cut (openGroup cut group as) bs := by
  induction as generalizing group with
  | nil => rfl
  | cons a as ih =>
      rw [cons_append, openGroup_cons, openGroup_cons]
      split
      · exact ih [a]
      · exact ih (group ++ [a])

theorem exists_mem_of_openGroup (hopen : openGroup cut group as ≠ []) :
    ∃ g ∈ groupsFrom cut group (as ++ bs), openGroup cut group as <+: g := by
  induction as generalizing group with
  | nil => exact exists_mem_groupsFrom hopen
  | cons a as ih =>
      rw [openGroup_cons] at hopen ⊢
      rw [cons_append, groupsFrom_cons]
      split at hopen
      · rename_i hcut
        rw [if_pos hcut, if_pos hcut]
        obtain ⟨g, hg, hprefix⟩ := ih hopen
        exact ⟨g, mem_cons_of_mem _ hg, hprefix⟩
      · rename_i hcut
        rw [if_neg hcut, if_neg hcut]
        exact ih hopen

/-- An element ends up at the end of the open group. -/
theorem exists_openGroup_singleton (cut : List α → α → Bool) (group : List α) (a : α) :
    ∃ before, openGroup cut group [a] = before ++ [a] := by
  rw [openGroup_cons]
  split
  · exact ⟨[], rfl⟩
  · exact ⟨group, rfl⟩

/-- Elements that do not close the group stay in it. -/
theorem openGroup_of_uncut
    (hcut : ∀ before b after, as = before ++ b :: after → cut (group ++ before) b = false) :
    openGroup cut group as = group ++ as := by
  induction as generalizing group with
  | nil => exact (append_nil group).symm
  | cons a as ih =>
      have hfirst := hcut [] a as rfl
      rw [append_nil] at hfirst
      rw [openGroup_cons, if_neg fun hand => by rw [hfirst] at hand; exact Bool.false_ne_true hand.2, ih]
      · rw [append_assoc]
        rfl
      · intro before b after has
        have hlater := hcut (a :: before) b after (by rw [has]; rfl)
        rw [append_assoc]
        exact hlater

/-- A relation between the elements of a sequence, in their order, by places. -/
theorem pairwise_iff_splits {R : α → α → Prop} :
    as.Pairwise R ↔ ∀ x a mid b y, as = x ++ a :: (mid ++ b :: y) → R a b := by
  induction as with
  | nil =>
      refine ⟨fun _ x a mid b y has => ?_, fun _ => List.Pairwise.nil⟩
      cases x <;> cases has
  | cons first as ih =>
      rw [pairwise_cons, ih]
      constructor
      · intro ⟨hfirst, hrest⟩ x a mid b y has
        cases x with
        | nil =>
            obtain ⟨rfl, rfl⟩ := List.cons.inj has
            exact hfirst b (mem_append_right mid mem_cons_self)
        | cons first' x =>
            obtain ⟨-, rfl⟩ := List.cons.inj has
            exact hrest x a mid b y rfl
      · intro hall
        refine ⟨fun b hb => ?_, fun x a mid b y has => hall (first :: x) a mid b y ?_⟩
        · obtain ⟨mid, y, rfl⟩ := append_of_mem hb
          exact hall [] first mid b y rfl
        · rw [has]
          rfl

/-- An element of one kind closes a group that has an element of another. -/
def closing (opens closes : α → Bool) (group : List α) (a : α) : Bool :=
  group.any opens && closes a

theorem closing_map {β : Type*} (f : α → β) (opens closes : β → Bool) (group : List α) (a : α) :
    closing opens closes (group.map f) (f a) =
      closing (fun a => opens (f a)) (fun a => closes (f a)) group a := by
  rw [closing, closing, any_map]
  rfl

/-- **What the groups keep apart.**  Two elements, the first of the kind that lets groups be closed,
are never in one group when and only when an element behind the first, up to the second, closes
groups. -/
theorem pairwise_groupsFrom_iff {opens closes : α → Bool} {R : α → α → Prop}
    (hR : ∀ a b, R a b → opens a = true) :
    (∀ g ∈ groupsFrom (closing opens closes) [] as,
        g.Pairwise fun a b => ¬ R a b) ↔
      ∀ x a mid b y, as = x ++ a :: (mid ++ b :: y) → R a b → (mid ++ [b]).any closes = true := by
  constructor
  · intro hgroups x a mid b y has hrel
    by_contra hnone
    rw [any_eq_true] at hnone
    have hsplit : as = (x ++ [a]) ++ ((mid ++ [b]) ++ y) := by
      rw [has, append_assoc, append_assoc]
      rfl
    obtain ⟨before, hbefore⟩ := exists_openGroup_singleton
      (closing opens closes)
      (openGroup (closing opens closes) [] x) a
    have hopen : openGroup (closing opens closes) []
        ((x ++ [a]) ++ (mid ++ [b])) = before ++ a :: (mid ++ [b]) := by
      rw [openGroup_append _ [] (x ++ [a]), openGroup_append _ [] x, hbefore, openGroup_of_uncut]
      · rw [append_assoc]
        rfl
      · intro before' c after hc
        rw [closing, Bool.and_eq_false_iff]
        refine .inr (Bool.eq_false_iff.mpr fun hcloses => hnone ⟨c, ?_, hcloses⟩)
        rw [hc]
        exact mem_append_right _ mem_cons_self
    obtain ⟨g, hg, rest, hprefix⟩ := @exists_mem_of_openGroup α
      (closing opens closes) [] ((x ++ [a]) ++ (mid ++ [b])) y (by
      rw [hopen]
      exact append_ne_nil_of_right_ne_nil _ (cons_ne_nil _ _))
    rw [append_assoc, ← hsplit] at hg
    rw [hopen, append_assoc] at hprefix
    refine pairwise_iff_splits.mp (hgroups g hg) before a mid b rest ?_ hrel
    rw [← hprefix, cons_append, append_assoc]
    rfl
  · intro hclosed g hg
    rw [pairwise_iff_splits]
    intro x a mid b y hsplit hrel
    have hflatten := flatten_groupsFrom (closing opens closes) [] as
    obtain ⟨before, after, hgroups⟩ := append_of_mem hg
    rw [hgroups, flatten_append, flatten_cons, hsplit, nil_append] at hflatten
    have hany := hclosed (before.flatten ++ x) a mid b (y ++ after.flatten) (by
      rw [← hflatten]
      simp only [append_assoc, cons_append]) hrel
    obtain ⟨c, hc, hcloses⟩ := any_eq_true.mp hany
    obtain ⟨mid₁, mid₂, hmid⟩ := append_of_mem hc
    have hcut := uncut_of_mem_groupsFrom uncut_nil g hg (x ++ a :: mid₁) c (mid₂ ++ y) (by
      have hassoc : mid ++ b :: y = (mid ++ [b]) ++ y := by
        rw [append_assoc]
        rfl
      rw [hsplit, hassoc, hmid]
      simp only [append_assoc, cons_append]) (by
      exact append_ne_nil_of_right_ne_nil _ (cons_ne_nil _ _))
    rw [closing, Bool.and_eq_false_iff] at hcut
    rcases hcut with hopens | hcloses'
    · have hmem : a ∈ x ++ a :: mid₁ := mem_append_right x mem_cons_self
      exact Bool.eq_false_iff.mp hopens (any_eq_true.mpr ⟨a, hmem, hR a b hrel⟩)
    · exact Bool.eq_false_iff.mp hcloses' hcloses

end Groups

end Zstreamer.Foundation

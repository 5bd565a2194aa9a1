/-
# Searching a graph

Depth-first search, and the ranks of a graph without cycles.
-/

import Mathlib.Data.List.Nodup
import Mathlib.Data.List.Perm.Subperm
import Mathlib.Logic.Relation

/-! # Depth-first search

A search marks a node, searches its children one after the other, and then finishes the
node.  It runs for so many turns at most and fails when they do not suffice; one more than
there are unmarked nodes always does.  What it marks is what can be reached, and on a graph
without cycles every node is finished behind all of its children: the nodes in the order in
which they have been finished, the last one first, are sorted.
-/

namespace Zstreamer.Foundation

variable {α : Type*}

/-- The nodes that are marked, and those that are finished, the last one first. -/
structure Search (α : Type*) where
  visited : List α
  finished : List α
  deriving DecidableEq, Repr

/-- A node leads to another one. -/
def Leads (nodes : List α) (children : α → List α) (x y : α) : Prop :=
  x ∈ nodes ∧ y ∈ children x ∧ y ∈ nodes

/-- No node leads back to itself. -/
def Acyclic (nodes : List α) (children : α → List α) : Prop :=
  ∀ x, ¬ Relation.TransGen (Leads nodes children) x x

variable {nodes : List α} {children : α → List α} {x : α} {s s' : Search α} {roots : List α}

/-! ## What a search does -/

/-- The search from some nodes has finished all it has marked; what it has marked can be reached
from them, and leads to marked nodes only. -/
structure Explores (nodes : List α) (children : α → List α) (roots : List α) (s s' : Search α)
    (out : List α) : Prop where
  finished : s'.finished = out ++ s.finished
  visited : ∀ x, x ∈ s'.visited ↔ x ∈ out ∨ x ∈ s.visited
  nodup : out.Nodup
  fresh : ∀ x ∈ out, x ∈ nodes ∧ x ∉ s.visited
  reached : ∀ x ∈ out, ∃ r ∈ roots, Relation.ReflTransGen (Leads nodes children) r x
  roots : ∀ r ∈ roots, r ∈ nodes → r ∈ s'.visited
  closed : ∀ x ∈ out, ∀ y ∈ children x, y ∈ nodes → y ∈ s'.visited

theorem Explores.nil (s : Search α) : Explores nodes children [] s s [] where
  finished := rfl
  visited _ := by simp
  nodup := List.nodup_nil
  fresh := nofun
  reached := nofun
  roots := nofun
  closed := nofun

/-- A node that is marked already, or is none. -/
theorem Explores.done (hx : ¬ (x ∈ nodes ∧ x ∉ s.visited)) :
    Explores nodes children [x] s s [] where
  finished := rfl
  visited _ := by simp
  nodup := List.nodup_nil
  fresh := nofun
  reached := nofun
  roots r hr hnode := by
    obtain rfl := List.mem_singleton.mp hr
    by_contra hfresh
    exact hx ⟨hnode, hfresh⟩
  closed := nofun

/-- One search after another. -/
theorem Explores.append {s₁ : Search α} {roots₁ out out₁ : List α}
    (h : Explores nodes children roots s s₁ out) (h₁ : Explores nodes children roots₁ s₁ s' out₁) :
    Explores nodes children (roots ++ roots₁) s s' (out₁ ++ out) where
  finished := by rw [h₁.finished, h.finished, List.append_assoc]
  visited y := by rw [h₁.visited, h.visited, List.mem_append, or_assoc]
  nodup := by
    refine List.nodup_append.mpr ⟨h₁.nodup, h.nodup, ?_⟩
    rintro y hy _ hy' rfl
    exact (h₁.fresh y hy).2 ((h.visited y).mpr (.inl hy'))
  fresh y hy := by
    rcases List.mem_append.mp hy with hy | hy
    · exact ⟨(h₁.fresh y hy).1, fun hold => (h₁.fresh y hy).2 ((h.visited y).mpr (.inr hold))⟩
    · exact h.fresh y hy
  reached y hy := by
    rcases List.mem_append.mp hy with hy | hy
    · obtain ⟨r, hr, hreach⟩ := h₁.reached y hy
      exact ⟨r, List.mem_append_right roots hr, hreach⟩
    · obtain ⟨r, hr, hreach⟩ := h.reached y hy
      exact ⟨r, List.mem_append_left roots₁ hr, hreach⟩
  roots r hr hnode := by
    rcases List.mem_append.mp hr with hr | hr
    · exact (h₁.visited r).mpr (.inr (h.roots r hr hnode))
    · exact h₁.roots r hr hnode
  closed y hy z hz hnode := by
    rcases List.mem_append.mp hy with hy | hy
    · exact h₁.closed y hy z hz hnode
    · exact (h₁.visited z).mpr (.inr (h.closed y hy z hz hnode))

/-- A node, its children, and the node again. -/
theorem Explores.node (hx : x ∈ nodes ∧ x ∉ s.visited) {out : List α}
    (h : Explores nodes children (children x) { s with visited := x :: s.visited } s' out) :
    Explores nodes children [x] s { s' with finished := x :: s'.finished } (x :: out) where
  finished := congrArg (x :: ·) h.finished
  visited y := by
    refine (h.visited y).trans ?_
    rw [List.mem_cons, List.mem_cons, or_left_comm, or_assoc]
  nodup := List.nodup_cons.mpr ⟨fun hmem => (h.fresh x hmem).2 List.mem_cons_self, h.nodup⟩
  fresh y hy := by
    rcases List.mem_cons.mp hy with rfl | hy
    · exact hx
    · exact ⟨(h.fresh y hy).1, fun hold => (h.fresh y hy).2 (List.mem_cons_of_mem x hold)⟩
  reached y hy := by
    refine ⟨x, List.mem_cons_self, ?_⟩
    rcases List.mem_cons.mp hy with rfl | hy
    · exact .refl
    · obtain ⟨r, hr, hreach⟩ := h.reached y hy
      by_cases hnode : r ∈ nodes
      · exact hreach.head ⟨hx.1, hr, hnode⟩
      · -- a child that is no node leads nowhere, and is not marked
        rcases hreach.cases_head with rfl | ⟨z, hz, -⟩
        · exact absurd (h.fresh r hy).1 hnode
        · exact absurd hz.1 hnode
  roots r hr _ := by
    rw [List.mem_singleton.mp hr]
    exact (h.visited x).mpr (.inr List.mem_cons_self)
  closed y hy z hz hnode := by
    rcases List.mem_cons.mp hy with rfl | hy
    · exact h.roots z hz hnode
    · exact h.closed y hy z hz hnode

theorem Explores.visited_subset {out : List α} (h : Explores nodes children roots s s' out)
    (hmarked : s.visited ⊆ nodes) : s'.visited ⊆ nodes := by
  intro y hy
  rcases (h.visited y).mp hy with hout | hold
  · exact (h.fresh y hout).1
  · exact hmarked hold

/-- **What is marked from nothing is what can be reached.** -/
theorem visited_iff_reached (hx : x ∈ nodes)
    {out : List α} (h : Explores nodes children (children x) ⟨[x], []⟩ s' out) (y : α) :
    y ∈ s'.visited ↔ Relation.ReflTransGen (Leads nodes children) x y := by
  constructor
  · intro hy
    rcases (h.visited y).mp hy with hout | hold
    · obtain ⟨r, hr, hreach⟩ := h.reached y hout
      rcases hreach.cases_head with rfl | ⟨z, hz, -⟩
      · exact .single ⟨hx, hr, (h.fresh r hout).1⟩
      · exact hreach.head ⟨hx, hr, hz.1⟩
    · rw [List.mem_singleton.mp hold]
  · intro hreach
    induction hreach with
    | refl => exact (h.visited x).mpr (.inr List.mem_cons_self)
    | @tail y z _ hstep ih =>
        rcases (h.visited y).mp ih with hout | hold
        · exact h.closed y hout z hstep.2.1 hstep.2.2
        · rw [List.mem_singleton.mp hold] at hstep
          exact h.roots z hstep.2.1 hstep.2.2

/-- Every node stands before its children. -/
def Ordered (nodes : List α) (children : α → List α) : List α → Prop
  | [] => True
  | x :: rest => (∀ y ∈ children x, y ∈ nodes → y ∈ rest) ∧ Ordered nodes children rest

/-- A child stands behind its parent. -/
theorem Ordered.idxOf_lt [DecidableEq α] {sorted : List α}
    (hordered : Ordered nodes children sorted) (hnodup : sorted.Nodup) {x y : α}
    (hx : x ∈ sorted) (hy : y ∈ children x) (hnode : y ∈ nodes) :
    y ∈ sorted ∧ sorted.idxOf x < sorted.idxOf y := by
  induction sorted with
  | nil => cases hx
  | cons a rest ih =>
      obtain ⟨hfirst, hrest⟩ := hordered
      obtain ⟨hfresh, hnodup⟩ := List.nodup_cons.mp hnodup
      rcases List.mem_cons.mp hx with rfl | hin
      · have hbehind : y ∈ rest := hfirst y hy hnode
        have hne : x ≠ y := fun heq => hfresh (heq ▸ hbehind)
        refine ⟨List.mem_cons_of_mem x hbehind, ?_⟩
        rw [List.idxOf_cons_self, List.idxOf_cons_ne rest hne]
        exact Nat.succ_pos _
      · obtain ⟨hbehind, hless⟩ := ih hrest hnodup hin
        have hx : a ≠ x := fun heq => hfresh (heq ▸ hin)
        have hy : a ≠ y := fun heq => hfresh (heq ▸ hbehind)
        refine ⟨List.mem_cons_of_mem a hbehind, ?_⟩
        rw [List.idxOf_cons_ne rest hx, List.idxOf_cons_ne rest hy]
        exact Nat.succ_lt_succ hless

/-- The marked nodes that are not finished lead to a node, if it is one. -/
def Pending (nodes : List α) (children : α → List α) (s : Search α) (x : α) : Prop :=
  x ∈ nodes → ∀ g ∈ s.visited, g ∉ s.finished →
    Relation.TransGen (Leads nodes children) g x

theorem Explores.pending {out : List α} (h : Explores nodes children roots s s' out) {y : α}
    (hpending : Pending nodes children s y) : Pending nodes children s' y := by
  intro hnode g hg hgray
  rw [h.finished, List.mem_append, not_or] at hgray
  rcases (h.visited g).mp hg with hout | hold
  · exact absurd hout hgray.1
  · exact hpending hnode g hold hgray.2

/-! ## The search -/

variable [DecidableEq α] {turns : ℕ}

/-- The search from a node, for so many turns at most.  A child that is not among the nodes is left
alone. -/
def search (nodes : List α) (children : α → List α) : ℕ → α → Search α → Option (Search α)
  | 0, _, _ => none
  | turns + 1, x, s =>
      if x ∈ nodes ∧ x ∉ s.visited then
        ((children x).foldlM (fun s y => search nodes children turns y s)
          { s with visited := x :: s.visited }).map fun s => { s with finished := x :: s.finished }
      else some s

/-- The search from some nodes, one after the other. -/
def searchAll (nodes : List α) (children : α → List α) (turns : ℕ) (roots : List α)
    (s : Search α) : Option (Search α) :=
  roots.foldlM (fun s x => search nodes children turns x s) s

theorem searchAll_cons : searchAll nodes children turns (x :: roots) s =
    (search nodes children turns x s).bind (searchAll nodes children turns roots) := rfl

theorem searchAll_append {roots₁ : List α} :
    searchAll nodes children turns (roots ++ roots₁) s =
      (searchAll nodes children turns roots s).bind (searchAll nodes children turns roots₁) :=
  List.foldlM_append

theorem search_fresh (hx : x ∈ nodes ∧ x ∉ s.visited) : search nodes children (turns + 1) x s =
    (searchAll nodes children turns (children x) { s with visited := x :: s.visited }).map
      fun s => { s with finished := x :: s.finished } :=
  if_pos hx

theorem search_done (hx : ¬ (x ∈ nodes ∧ x ∉ s.visited)) :
    search nodes children (turns + 1) x s = some s :=
  if_neg hx

theorem explores_searchAll
    (hsearch : ∀ x s s', search nodes children turns x s = some s' →
      ∃ out, Explores nodes children [x] s s' out)
    (hrun : searchAll nodes children turns roots s = some s') :
    ∃ out, Explores nodes children roots s s' out := by
  induction roots generalizing s with
  | nil =>
      obtain rfl := Option.some.inj hrun
      exact ⟨[], .nil s⟩
  | cons x roots ih =>
      rw [searchAll_cons] at hrun
      obtain ⟨s₁, hone, hrest⟩ := Option.bind_eq_some_iff.mp hrun
      obtain ⟨out, hout⟩ := hsearch x s s₁ hone
      obtain ⟨out₁, hout₁⟩ := ih hrest
      exact ⟨out₁ ++ out, hout.append hout₁⟩

/-- **A search that ends** has marked and finished what it should. -/
theorem explores_search (hrun : search nodes children turns x s = some s') :
    ∃ out, Explores nodes children [x] s s' out := by
  induction turns generalizing x s s' with
  | zero => cases hrun
  | succ turns ih =>
      by_cases hx : x ∈ nodes ∧ x ∉ s.visited
      · rw [search_fresh hx] at hrun
        obtain ⟨s₁, hchildren, rfl⟩ := Option.map_eq_some_iff.mp hrun
        obtain ⟨out, hout⟩ := explores_searchAll (fun _ _ _ => ih) hchildren
        exact ⟨x :: out, .node hx hout⟩
      · rw [search_done hx] at hrun
        cases hrun
        exact ⟨[], .done hx⟩

/-! ## A search ends -/

/-- How many nodes are not marked. -/
def unvisited (nodes : List α) (s : Search α) : ℕ := (nodes.filter (· ∉ s.visited)).length

theorem unvisited_le {out : List α} (h : Explores nodes children roots s s' out) :
    unvisited nodes s' ≤ unvisited nodes s := by
  rw [unvisited, unvisited]
  refine (List.monotone_filter_right nodes fun y hy => ?_).length_le
  refine decide_eq_true fun hold => of_decide_eq_true hy ((h.visited y).mpr (.inr hold))

theorem unvisited_lt (hx : x ∈ nodes ∧ x ∉ s.visited) :
    unvisited nodes { s with visited := x :: s.visited } < unvisited nodes s := by
  rw [unvisited, unvisited]
  have hsub : List.Sublist (nodes.filter (· ∉ x :: s.visited)) (nodes.filter (· ∉ s.visited)) :=
    List.monotone_filter_right nodes fun y hy =>
      decide_eq_true fun hold => of_decide_eq_true hy (List.mem_cons_of_mem x hold)
  refine Nat.lt_of_le_of_ne hsub.length_le fun hlength => ?_
  have hmem : x ∈ nodes.filter (· ∉ s.visited) :=
    List.mem_filter.mpr ⟨hx.1, decide_eq_true hx.2⟩
  rw [← hsub.eq_of_length hlength] at hmem
  exact of_decide_eq_true (List.mem_filter.mp hmem).2 List.mem_cons_self

theorem isSome_searchAll
    (hsearch : ∀ x s, unvisited nodes s < turns →
      (search nodes children turns x s).isSome = true)
    (hturns : unvisited nodes s < turns) :
    (searchAll nodes children turns roots s).isSome = true := by
  induction roots generalizing s with
  | nil => rfl
  | cons x roots ih =>
      obtain ⟨s₁, hone⟩ := Option.isSome_iff_exists.mp (hsearch x s hturns)
      obtain ⟨out, hout⟩ := explores_search hone
      rw [searchAll_cons, hone, Option.bind_some]
      exact ih (Nat.lt_of_le_of_lt (unvisited_le hout) hturns)

/-- **A search ends** within as many turns as there are unmarked nodes, and one more. -/
theorem isSome_search (hturns : unvisited nodes s < turns) :
    (search nodes children turns x s).isSome = true := by
  induction turns generalizing x s with
  | zero => exact absurd hturns (Nat.not_lt_zero _)
  | succ turns ih =>
      by_cases hx : x ∈ nodes ∧ x ∉ s.visited
      · have hless := unvisited_lt hx
        rw [search_fresh hx, Option.isSome_map]
        exact isSome_searchAll (fun _ _ => ih) (by omega)
      · rw [search_done hx]
        rfl

/-- One turn for every node suffices when one of them is marked already. -/
theorem unvisited_lt_length (hx : x ∈ nodes) {marked finished : List α} :
    unvisited nodes ⟨x :: marked, finished⟩ < nodes.length := by
  refine Nat.lt_of_le_of_ne (List.length_filter_le _ _) fun hlength => ?_
  have hall := List.length_filter_eq_length_iff.mp hlength x hx
  exact of_decide_eq_true hall List.mem_cons_self

theorem unvisited_le_length (nodes : List α) (s : Search α) : unvisited nodes s ≤ nodes.length :=
  List.length_filter_le _ _

/-! ## Sorting -/

theorem ordered_searchAll
    (hsearch : ∀ x s s', search nodes children turns x s = some s' →
      Pending nodes children s x → Ordered nodes children s.finished →
      Ordered nodes children s'.finished)
    (hrun : searchAll nodes children turns roots s = some s')
    (hpending : ∀ x ∈ roots, Pending nodes children s x)
    (hordered : Ordered nodes children s.finished) : Ordered nodes children s'.finished := by
  induction roots generalizing s with
  | nil =>
      cases hrun
      exact hordered
  | cons x roots ih =>
      rw [searchAll_cons] at hrun
      obtain ⟨s₁, hone, hrest⟩ := Option.bind_eq_some_iff.mp hrun
      obtain ⟨out, hout⟩ := explores_search hone
      exact ih hrest
        (fun y hy => hout.pending (hpending y (List.mem_cons_of_mem x hy)))
        (hsearch x s s₁ hone (hpending x List.mem_cons_self) hordered)

/-- **A search of a graph without cycles sorts it**: a node whose child is marked but not finished
would be on a cycle. -/
theorem ordered_search (hacyclic : Acyclic nodes children)
    (hrun : search nodes children turns x s = some s') (hpending : Pending nodes children s x)
    (hordered : Ordered nodes children s.finished) : Ordered nodes children s'.finished := by
  induction turns generalizing x s s' with
  | zero => cases hrun
  | succ turns ih =>
      by_cases hx : x ∈ nodes ∧ x ∉ s.visited
      · rw [search_fresh hx] at hrun
        obtain ⟨s₁, hchildren, rfl⟩ := Option.map_eq_some_iff.mp hrun
        obtain ⟨out, hout⟩ := explores_searchAll (fun _ _ _ => explores_search) hchildren
        have hstart : ∀ y ∈ children x,
            Pending nodes children { s with visited := x :: s.visited } y := by
          intro y hy hnode g hg hgray
          rcases List.mem_cons.mp hg with rfl | hold
          · exact .single ⟨hx.1, hy, hnode⟩
          · exact (hpending hx.1 g hold hgray).tail ⟨hx.1, hy, hnode⟩
        refine ⟨fun y hy hnode => ?_, ordered_searchAll (fun _ _ _ => ih) hchildren hstart hordered⟩
        by_contra hgray
        exact hacyclic y (hout.pending (hstart y hy) hnode y (hout.roots y hy hnode) hgray)
      · rw [search_done hx] at hrun
        cases hrun
        exact hordered

end Zstreamer.Foundation

/-! # Ranks of a graph without cycles

The rank of a node is the length of the longest walk that ends there.  Ranks that have been
reached by some walk and that grow along every link are these lengths.  Ranks are made to grow
along the links node by node: what has been done from some nodes is not undone by what is done
from others.
-/

namespace Zstreamer.Foundation

open Relation

variable {α : Type*} {nodes : List α} {children : α → List α}

/-- A walk of so many links ends at a node. -/
inductive WalkTo (nodes : List α) (children : α → List α) : ℕ → α → Prop
  | start {x : α} (hx : x ∈ nodes) : WalkTo nodes children 0 x
  | step {n : ℕ} {x y : α} (hwalk : WalkTo nodes children n x) (hlink : Leads nodes children x y) :
      WalkTo nodes children (n + 1) y

/-- The length of the longest walk that ends at a node. -/
def IsRank (nodes : List α) (children : α → List α) (x : α) (n : ℕ) : Prop :=
  WalkTo nodes children n x ∧ ∀ m, WalkTo nodes children m x → m ≤ n

theorem IsRank.unique {x : α} {n m : ℕ} (hn : IsRank nodes children x n)
    (hm : IsRank nodes children x m) : n = m :=
  Nat.le_antisymm (hm.2 n hn.1) (hn.2 m hm.1)

/-- A walk in a part of the graph is a walk. -/
theorem WalkTo.mono {children' : α → List α}
    (hlinks : ∀ x y, Leads nodes children x y → Leads nodes children' x y) {n : ℕ} {x : α}
    (hwalk : WalkTo nodes children n x) : WalkTo nodes children' n x := by
  induction hwalk with
  | start hx => exact .start hx
  | step _ hlink ih => exact .step ih (hlinks _ _ hlink)

theorem WalkTo.exists_nodup (hacyclic : Acyclic nodes children) {n : ℕ} {x : α}
    (hwalk : WalkTo nodes children n x) :
    ∃ passed : List α, passed.length = n + 1 ∧ passed.Nodup ∧ passed ⊆ nodes ∧
      ∀ y ∈ passed, ReflTransGen (Leads nodes children) y x := by
  induction hwalk with
  | @start x hx =>
      refine ⟨[x], rfl, List.nodup_singleton x, List.cons_subset.mpr ⟨hx, List.nil_subset _⟩,
        fun y hy => ?_⟩
      rw [List.mem_singleton.mp hy]
  | @step n x y _ hlink ih =>
      obtain ⟨passed, hlength, hnodup, hsub, hreach⟩ := ih
      refine ⟨y :: passed, congrArg (· + 1) hlength, List.nodup_cons.mpr ⟨fun hmem => ?_, hnodup⟩,
        List.cons_subset.mpr ⟨hlink.2.2, hsub⟩, fun z hz => ?_⟩
      · exact hacyclic y (TransGen.tail' (hreach y hmem) hlink)
      · rcases List.mem_cons.mp hz with rfl | hz
        · exact .refl
        · exact (hreach z hz).tail hlink

/-- **Without a cycle a walk is shorter than there are nodes.** -/
theorem WalkTo.lt_length (hacyclic : Acyclic nodes children) {n : ℕ} {x : α}
    (hwalk : WalkTo nodes children n x) : n < nodes.length := by
  obtain ⟨passed, hlength, hnodup, hsub, -⟩ := hwalk.exists_nodup hacyclic
  have hle := (hnodup.subperm hsub).length_le
  omega

/-- **Every node can be reached from a root**, when all that are none have a node before them. -/
theorem exists_root (hacyclic : Acyclic nodes children) (root : α → Prop)
    (hparent : ∀ x ∈ nodes, ¬ root x → ∃ p, Leads nodes children p x) {x : α} (hx : x ∈ nodes) :
    ∃ r ∈ nodes, root r ∧ ReflTransGen (Leads nodes children) r x := by
  by_contra hunreached
  -- a node that is reached from no root has a walk of any length behind it
  have hwalk : ∀ n x, x ∈ nodes →
      (¬ ∃ r ∈ nodes, root r ∧ ReflTransGen (Leads nodes children) r x) →
      WalkTo nodes children n x := by
    intro n
    induction n with
    | zero => exact fun x hx _ => .start hx
    | succ n ih =>
        intro x hx hnone
        obtain ⟨p, hlink⟩ := hparent x hx fun hroot => hnone ⟨x, hx, hroot, .refl⟩
        refine .step (ih p hlink.1 ?_) hlink
        rintro ⟨r, hr, hroot, hreach⟩
        exact hnone ⟨r, hr, hroot, hreach.tail hlink⟩
  exact Nat.lt_irrefl _ ((hwalk nodes.length x hx hunreached).lt_length hacyclic)

/-- Every node has a walk as long as its rank. -/
def Attained (nodes : List α) (children : α → List α) (rank : α → ℕ) : Prop :=
  ∀ x ∈ nodes, WalkTo nodes children (rank x) x

/-- **Ranks that are attained and grow along every link** are the lengths of the longest walks. -/
theorem isRank_of_grows {rank : α → ℕ} (hattained : Attained nodes children rank)
    (hgrows : ∀ x y, Leads nodes children x y → rank x + 1 ≤ rank y) {x : α} (hx : x ∈ nodes) :
    IsRank nodes children x (rank x) := by
  refine ⟨hattained x hx, fun m hwalk => ?_⟩
  induction hwalk with
  | start => exact Nat.zero_le _
  | @step n x y hwalk hlink ih => exact Nat.le_trans (Nat.succ_le_succ (ih hlink.1)) (hgrows x y hlink)

/-- Ranks have been raised from some nodes on: along every link behind them they grow, and those of
other nodes are what they were. -/
structure Raises (nodes : List α) (children : α → List α) (roots : List α)
    (rank rank' : α → ℕ) : Prop where
  attained : Attained nodes children rank'
  le : ∀ x, rank x ≤ rank' x
  frame : ∀ x, (∀ r ∈ roots, r ∈ nodes → ¬ ReflTransGen (Leads nodes children) r x) →
    rank' x = rank x
  grows : ∀ r ∈ roots, ∀ x y, ReflTransGen (Leads nodes children) r x →
    Leads nodes children x y → rank' x + 1 ≤ rank' y

variable {rank rank₁ rank₂ : α → ℕ} {roots roots₁ : List α}

theorem Raises.nil (hattained : Attained nodes children rank) :
    Raises nodes children [] rank rank where
  attained := hattained
  le _ := Nat.le_refl _
  frame _ _ := rfl
  grows := nofun

/-- Behind a root that is no node there is nothing. -/
theorem Raises.outside (hattained : Attained nodes children rank) {x : α} (hx : x ∉ nodes) :
    Raises nodes children [x] rank rank where
  attained := hattained
  le _ := Nat.le_refl _
  frame _ _ := rfl
  grows r hr y z hreach hlink := by
    obtain rfl := List.mem_singleton.mp hr
    rcases hreach.cases_head with rfl | ⟨w, hw, -⟩
    · exact absurd hlink.1 hx
    · exact absurd hw.1 hx

/-- **Raising from more nodes undoes nothing**: behind them all grows again, and elsewhere only the
far ends of the links have moved, upwards. -/
theorem Raises.append (h : Raises nodes children roots rank rank₁)
    (h₁ : Raises nodes children roots₁ rank₁ rank₂) :
    Raises nodes children (roots ++ roots₁) rank rank₂ where
  attained := h₁.attained
  le x := Nat.le_trans (h.le x) (h₁.le x)
  frame x hx := by
    rw [h₁.frame x fun r hr => hx r (List.mem_append_right roots hr),
      h.frame x fun r hr => hx r (List.mem_append_left roots₁ hr)]
  grows r hr x y hreach hlink := by
    rcases List.mem_append.mp hr with hr | hr
    · by_cases hbehind : ∃ r ∈ roots₁, ReflTransGen (Leads nodes children) r x
      · obtain ⟨r₁, hr₁, hreach₁⟩ := hbehind
        exact h₁.grows r₁ hr₁ x y hreach₁ hlink
      · rw [h₁.frame x fun r₁ hr₁ _ hreach₁ => hbehind ⟨r₁, hr₁, hreach₁⟩]
        exact Nat.le_trans (h.grows r hr x y hreach hlink) (h₁.le y)
    · exact h₁.grows r hr x y hreach hlink

/-- A node, and what its children lead to: none of them leads back. -/
theorem Raises.node (hacyclic : Acyclic nodes children) {x : α} (hx : x ∈ nodes)
    (hle : ∀ y, rank y ≤ rank₁ y) (hframe : ∀ y, y ≠ x → rank₁ y = rank y)
    (h : Raises nodes children (children x) rank₁ rank₂)
    (hchildren : ∀ y ∈ children x, y ∈ nodes → rank₁ x + 1 ≤ rank₂ y) :
    Raises nodes children [x] rank rank₂ where
  attained := h.attained
  le y := Nat.le_trans (hle y) (h.le y)
  frame y hy := by
    have hunreached := hy x List.mem_cons_self hx
    have hne : y ≠ x := fun heq => hunreached (heq ▸ .refl)
    rw [← hframe y hne]
    exact h.frame y fun c hc hnode hreach => hunreached (hreach.head ⟨hx, hc, hnode⟩)
  grows r hr y z hreach hlink := by
    obtain rfl := List.mem_singleton.mp hr
    rcases hreach.cases_head with rfl | ⟨c, hc, hreach⟩
    · have hsame : rank₂ r = rank₁ r :=
        h.frame r fun c hc hnode hreach => hacyclic r (TransGen.head' ⟨hx, hc, hnode⟩ hreach)
      rw [hsame]
      exact hchildren z hlink.2.1 hlink.2.2
    · exact h.grows c hc.2.1 y z hreach hlink

end Zstreamer.Foundation

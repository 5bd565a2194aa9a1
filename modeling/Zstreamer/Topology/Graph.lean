/-
# The graph of a pipeline

A pipeline holds its elements in an array, in the order in which they have been added or
sorted.  `zst_pipeline_add` never asks whether an element is in the array already.  The links
are kept by the pads: an element leads to the parents of the peers of its source pads.
-/

import Mathlib.Data.List.ReduceOption
import Mathlib.Data.Set.Card
import Zstreamer.Foundation.DepthFirst

namespace Zstreamer

open Foundation

/-- The elements of a pipeline and the pads of every element there is.  An element is the number
that stands for its address. -/
structure Topology where
  elements : List ℕ
  /-- The parent of the peer of each source pad; none without a peer, or without a parent. -/
  srcPads : ℕ → List (Option ℕ)
  /-- For each sink pad whether it is linked. -/
  sinkPads : ℕ → List Bool
  /-- An `int` holds the indices, and two more than there are elements. -/
  few : elements.length + 2 ≤ 2 ^ 31

namespace Topology

variable (t : Topology)

/-- The elements an element leads to, in the order of its pads. -/
def children (x : ℕ) : List ℕ := (t.srcPads x).reduceOption

/-- `pipeline_element_index`: the first place in the array. -/
def elementIndex (el : ℕ) : Option ℕ :=
  if el ∈ t.elements then some (t.elements.idxOf el) else none

/-- A link between two elements of the pipeline. -/
abbrev Link (x y : ℕ) : Prop := Leads t.elements t.children x y

/-- The links between the elements of the pipeline form no cycle. -/
abbrev NoCycle : Prop := Acyclic t.elements t.children

variable {t} {x y : ℕ}

theorem elementIndex_of_mem (hx : x ∈ t.elements) :
    t.elementIndex x = some (t.elements.idxOf x) :=
  if_pos hx

theorem elementIndex_of_notMem (hx : x ∉ t.elements) : t.elementIndex x = none := if_neg hx

/-- The flags of two elements are not the same one. -/
theorem idxOf_mem_map {marked : List ℕ} (hmarked : marked ⊆ t.elements) :
    t.elements.idxOf x ∈ marked.map t.elements.idxOf ↔ x ∈ marked := by
  rw [List.mem_map]
  constructor
  · rintro ⟨y, hy, hsame⟩
    rwa [← (List.idxOf_inj (hmarked hy)).mp hsame]
  · exact fun hx => ⟨x, hx, rfl⟩

/-- A loop over the source pads is one over the elements they lead to. -/
theorem foldlM_srcPads {σ : Type} (step : σ → ℕ → Option σ) (s : σ) (x : ℕ) :
    (t.srcPads x).foldlM (fun s pad => match pad with
      | some child => step s child
      | none => some s) s = (t.children x).foldlM step s := by
  rw [children, List.reduceOption, List.foldlM_filterMap]
  refine congrFun (congrFun (congrArg _ ?_) s) _
  funext s pad
  cases pad with
  | none => rfl
  | some child => rfl

end Topology

end Zstreamer

/-! # Counting the elements downstream

`zst_pipeline_count_downstream_elements_of_type` searches the graph from an element with one array
of flags for the whole search.  An element is marked and counted when a pad is found that leads to
it, before its own pads are searched; the element the search starts from is marked beforehand.

`countDownstream_ncard` says that the number is the one of the elements of that type that can be
reached, without the start, whatever the graph looks like.
-/

namespace Zstreamer

open Foundation Relation

/-- A pipeline whose elements have a type. -/
structure TypedTopology extends Topology where
  /-- `el->desc->name`, where there is one. -/
  descName : ℕ → Option String
  /-- `el->ops->name`, where there is one. -/
  opsName : ℕ → Option String

namespace TypedTopology

variable (g : TypedTopology)

/-- `pipeline_element_type_name`. -/
def typeName (el : ℕ) : Option String := (g.descName el).or (g.opsName el)

/-- `pipeline_element_is_type`. -/
def isType (type : String) (el : ℕ) : Bool := g.typeName el == some type

/-- A pad leads to an element: an element of the pipeline that is not marked yet is marked, counted
and searched. -/
def countChild (type : String) (descend : ℕ → List ℕ → Option (ℕ × List ℕ)) (s : ℕ × List ℕ)
    (child : ℕ) : Option (ℕ × List ℕ) :=
  match g.elementIndex child with
  | none => some s
  | some idx =>
      if idx ∈ s.2 then some s
      else
        let count := if g.isType type child then s.1 + 1 else s.1
        (descend child (idx :: s.2)).map fun below => (count + below.1, below.2)

/-- `pipeline_count_downstream_type_dfs`, for so many turns at most: the count, and the places whose
flag is set. -/
def countDownstreamDfs (type : String) : ℕ → ℕ → List ℕ → Option (ℕ × List ℕ)
  | 0, _, _ => none
  | turns + 1, el, visited =>
      (g.srcPads el).foldlM (fun s pad => match pad with
        | some child => g.countChild type (countDownstreamDfs type turns) s child
        | none => some s) (0, visited)

/-- `zst_pipeline_count_downstream_elements_of_type`, where the flags can be allocated. -/
def countDownstream (type : String) (start : ℕ) : Option ℕ :=
  (g.countDownstreamDfs type (g.elements.length + 1) start (g.elementIndex start).toList).map (·.1)

/-- The elements of a type that a search should find. -/
def downstream (type : String) (start : ℕ) : Set ℕ :=
  {y | ReflTransGen g.Link start y ∧ y ≠ start ∧ g.isType type y = true}

variable {g} {type : String} {turns start : ℕ} {σ σ' : Search ℕ}

/-- The search below an element counts what it finishes. -/
def CountsBelow (g : TypedTopology) (type : String) (turns : ℕ) : Prop :=
  ∀ (el : ℕ) (σ σ' : Search ℕ) (out : List ℕ),
    searchAll g.elements g.children turns (g.children el) σ = some σ' → σ.visited ⊆ g.elements →
    σ'.finished = out ++ σ.finished →
    g.countDownstreamDfs type (turns + 1) el (σ.visited.map g.elements.idxOf) =
      some (out.countP (g.isType type), σ'.visited.map g.elements.idxOf)

theorem countChild_search (count : ℕ) {c : ℕ} {found : List ℕ} (hbelow : g.CountsBelow type turns)
    (hrun : search g.elements g.children (turns + 1) c σ = some σ') (hmarked : σ.visited ⊆ g.elements)
    (hfound : σ'.finished = found ++ σ.finished) :
    g.countChild type (g.countDownstreamDfs type (turns + 1))
        (count, σ.visited.map g.elements.idxOf) c =
      some (count + found.countP (g.isType type), σ'.visited.map g.elements.idxOf) := by
  by_cases hfresh : c ∈ g.elements ∧ c ∉ σ.visited
  · rw [search_fresh hfresh] at hrun
    obtain ⟨σ₁, hchildren, rfl⟩ := Option.map_eq_some_iff.mp hrun
    obtain ⟨out, hout⟩ := explores_searchAll (fun _ _ _ => explores_search) hchildren
    obtain rfl : c :: out = found := by
      refine List.append_cancel_right (Eq.trans ?_ hfound)
      exact congrArg (c :: ·) hout.finished.symm
    have hflag : g.elements.idxOf c ∉ σ.visited.map g.elements.idxOf :=
      mt (Topology.idxOf_mem_map hmarked).mp hfresh.2
    have hsub := hbelow c _ _ out hchildren (List.cons_subset.mpr ⟨hfresh.1, hmarked⟩) hout.finished
    rw [List.map_cons] at hsub
    rw [countChild, Topology.elementIndex_of_mem hfresh.1]
    dsimp only
    rw [if_neg hflag, hsub, Option.map_some, List.countP_cons]
    congr 2
    split <;> omega
  · rw [search_done hfresh] at hrun
    cases hrun
    obtain rfl : found = [] := List.self_eq_append_left.mp hfound
    rw [countChild]
    by_cases hc : c ∈ g.elements
    · have hflag : g.elements.idxOf c ∈ σ.visited.map g.elements.idxOf :=
        (Topology.idxOf_mem_map hmarked).mpr (not_not.mp fun hnew => hfresh ⟨hc, hnew⟩)
      rw [Topology.elementIndex_of_mem hc]
      exact if_pos hflag
    · rw [Topology.elementIndex_of_notMem hc]
      rfl

/-- The loop over the children counts what the searches finish. -/
theorem foldlM_countChild (count : ℕ) {below out : List ℕ} (hbelow : g.CountsBelow type turns)
    (hrun : searchAll g.elements g.children (turns + 1) below σ = some σ')
    (hmarked : σ.visited ⊆ g.elements) (hout : σ'.finished = out ++ σ.finished) :
    below.foldlM (g.countChild type (g.countDownstreamDfs type (turns + 1)))
        (count, σ.visited.map g.elements.idxOf) =
      some (count + out.countP (g.isType type), σ'.visited.map g.elements.idxOf) := by
  induction below generalizing σ out count with
  | nil =>
      cases hrun
      obtain rfl : out = [] := List.self_eq_append_left.mp hout
      rfl
  | cons c below ih =>
      rw [searchAll_cons] at hrun
      obtain ⟨σ₁, hone, hrest⟩ := Option.bind_eq_some_iff.mp hrun
      obtain ⟨found, hfound⟩ := explores_search hone
      obtain ⟨out₁, hout₁⟩ := explores_searchAll (fun _ _ _ => explores_search) hrest
      obtain rfl : out = out₁ ++ found := by
        refine List.append_cancel_right (hout.symm.trans ?_)
        rw [hout₁.finished, hfound.finished, List.append_assoc]
      have hfirst := countChild_search count hbelow hone hmarked hfound.finished
      have htail := ih (count + found.countP (g.isType type)) hrest
        (hfound.visited_subset hmarked) hout₁.finished
      rw [List.foldlM_cons, hfirst, List.countP_append, Nat.add_comm (out₁.countP _), ← Nat.add_assoc]
      exact htail

/-- **The recursion counts what the search below an element finishes.** -/
theorem countsBelow (g : TypedTopology) (type : String) (turns : ℕ) : g.CountsBelow type turns := by
  intro el σ σ' out hrun hmarked hout
  refine (Topology.foldlM_srcPads _ _ el).trans ?_
  induction turns generalizing el σ σ' out with
  | zero =>
      cases hchildren : g.children el with
      | nil =>
          rw [hchildren] at hrun
          cases hrun
          obtain rfl : out = [] := List.self_eq_append_left.mp hout
          rfl
      | cons c below =>
          rw [hchildren] at hrun
          cases hrun
  | succ turns ih =>
      have hbelow : g.CountsBelow type turns := fun el σ σ' out hrun hmarked hout =>
        (Topology.foldlM_srcPads _ _ el).trans (ih el σ σ' out hrun hmarked hout)
      have hloop := foldlM_countChild 0 hbelow hrun hmarked hout
      rw [Nat.zero_add] at hloop
      exact hloop

/-- **The count is the number of elements of the type that can be reached**, without the start. -/
theorem countDownstream_eq (hstart : start ∈ g.elements) :
    ∃ found : List ℕ, g.countDownstream type start = some found.length ∧ found.Nodup ∧
      (∀ y, y ∈ found ↔ y ∈ g.downstream type start) := by
  obtain ⟨σ, hrun⟩ := Option.isSome_iff_exists.mp
    (@isSome_searchAll _ g.elements g.children ⟨[start], []⟩ (g.children start) _ _
      (fun _ _ => isSome_search) (unvisited_lt_length hstart))
  obtain ⟨out, hout⟩ := explores_searchAll (fun _ _ _ => explores_search) hrun
  have hreach := visited_iff_reached hstart hout
  refine ⟨out.filter (g.isType type), ?_, hout.nodup.filter _, fun y => ?_⟩
  · rw [countDownstream, Topology.elementIndex_of_mem hstart]
    have hcount := countsBelow g type g.elements.length start _ _ out hrun
      (List.cons_subset.mpr ⟨hstart, List.nil_subset _⟩) hout.finished
    refine (congrArg _ hcount).trans ?_
    rw [Option.map_some, List.countP_eq_length_filter]
  · have hfresh : y ∈ out → y ≠ start := fun hy heq =>
      (hout.fresh y hy).2 (List.mem_singleton.mpr heq)
    have hmem := (hout.visited y).symm.trans (hreach y)
    rw [List.mem_filter, downstream, Set.mem_ofPred_eq, ← hmem, List.mem_singleton]
    tauto

end TypedTopology

end Zstreamer

/-
# Sorting the elements along the links

`pipeline_topological_sort_locked` fills an array from the back: first it searches from the
elements without sink pads, then from whatever is left, and an element is written when all it
leads to has been written.  The flags belong to places of the array of elements, and an element
is looked up in it every time, so an element that has been added twice is written once only, and
as many cells at the front as there are repetitions keep what `malloc` has left in them.

`topologicalSortLocked_iff` says that this is the only way to lose the elements or their order:
`zst_bin_add` refuses an element it has already, `zst_pipeline_add` does not.
-/

import Zstreamer.Core.Dynamic
import Zstreamer.Topology.Graph

namespace Zstreamer

open Foundation List Option

/-- The arrays of the sort: the places whose flag is set, the cells with what has been written to
them, and the place of the last one written. -/
structure SortArrays where
  visited : List ℕ
  temp : List (Option ℕ)
  tempIdx : ℕ
  deriving DecidableEq, Repr

/-- `temp[--(*temp_idx)] = el`; no cell lies before the first one. -/
def SortArrays.put (el : ℕ) (s : SortArrays) : Option SortArrays :=
  match s.tempIdx with
  | 0 => none
  | i + 1 => some { s with temp := s.temp.set i (some el), tempIdx := i }

namespace Topology

variable (t : Topology)

/-- `dfs_sort`, for so many turns at most. -/
def dfsSort : ℕ → ℕ → SortArrays → Option SortArrays
  | 0, _, _ => none
  | turns + 1, el, s =>
      match t.elementIndex el with
      | none => some s
      | some idx =>
          if idx ∈ s.visited then some s
          else
            ((t.srcPads el).foldlM (fun s pad => match pad with
              | some child => dfsSort turns child s
              | none => some s) { s with visited := idx :: s.visited }).bind (·.put el)

/-- The arrays before the sort; `malloc` leaves the cells as they are. -/
def freshArrays : SortArrays :=
  ⟨[], replicate t.elements.length none, t.elements.length⟩

/-- `pipeline_topological_sort_locked`, where the arrays can be allocated: the array of elements
behind it. -/
def topologicalSortLocked : Option (List (Option ℕ)) :=
  if t.elements.length ≤ 1 then some (t.elements.map some)
  else
    let depth := t.elements.length + 1
    ((t.elements.foldlM (fun s el =>
        if (t.sinkPads el).length = 0 then t.dfsSort depth el s else some s) t.freshArrays).bind
      (t.elements.zipIdx.foldlM (fun s place =>
        if place.2 ∉ s.visited then t.dfsSort depth place.1 s else some s))).map (·.temp)

/-- What the sort is for: nothing is lost, and without a cycle every link leads forwards. -/
def SortedAs (cells : List (Option ℕ)) : Prop :=
  cells.Perm (t.elements.map some) ∧
    (t.NoCycle → ∀ x y, t.Link x y → cells.idxOf (some x) < cells.idxOf (some y))

/-- The arrays that stand for a search. -/
def arrays (σ : Search ℕ) : SortArrays where
  visited := σ.visited.map t.elements.idxOf
  temp := replicate (t.elements.length - σ.finished.length) none ++ σ.finished.map some
  tempIdx := t.elements.length - σ.finished.length

variable {t} {turns x : ℕ} {σ σ' : Search ℕ}

/-! ## The arrays follow a search -/

theorem arrays_fresh : t.freshArrays = t.arrays ⟨[], []⟩ := by
  simp [freshArrays, arrays]

theorem put_arrays (hroom : σ.finished.length < t.elements.length) :
    (t.arrays σ).put x = some (t.arrays { σ with finished := x :: σ.finished }) := by
  obtain ⟨k, hk⟩ : ∃ k, t.elements.length - σ.finished.length = k + 1 :=
    ⟨_, (Nat.succ_pred_eq_of_pos (by omega)).symm⟩
  have hless : t.elements.length - (x :: σ.finished).length = k := by
    rw [length_cons]
    omega
  have hcells : (replicate (k + 1) none ++ σ.finished.map some).set k (some x) =
      replicate k none ++ (x :: σ.finished).map some := by
    rw [replicate_succ', append_assoc, set_append_right k _ (by simp)]
    simp
  simp only [SortArrays.put, arrays, hk, hless, hcells]

/-- A loop of the sort follows the search from the elements it runs over. -/
theorem foldlM_arrays {β : Type} {items : List β} (key : β → ℕ)
    (step : SortArrays → β → Option SortArrays)
    (hsearch : ∀ x σ σ', search t.elements t.children turns x σ = some σ' →
      σ.visited ⊆ t.elements → σ'.finished.length ≤ t.elements.length →
      t.dfsSort turns x (t.arrays σ) = some (t.arrays σ'))
    (hstep : ∀ b ∈ items, ∀ σ, σ.visited ⊆ t.elements →
      step (t.arrays σ) b = t.dfsSort turns (key b) (t.arrays σ))
    (hrun : searchAll t.elements t.children turns (items.map key) σ = some σ')
    (hmarked : σ.visited ⊆ t.elements) (hroom : σ'.finished.length ≤ t.elements.length) :
    items.foldlM step (t.arrays σ) = some (t.arrays σ') := by
  induction items generalizing σ with
  | nil =>
      cases hrun
      rfl
  | cons b items ih =>
      rw [map_cons, searchAll_cons] at hrun
      obtain ⟨σ₁, hone, hrest⟩ := bind_eq_some_iff.mp hrun
      obtain ⟨out, hout⟩ := explores_search hone
      obtain ⟨out₁, hout₁⟩ := explores_searchAll (fun _ _ _ => explores_search) hrest
      have hmarked₁ : σ₁.visited ⊆ t.elements := hout.visited_subset hmarked
      have hroom₁ : σ₁.finished.length ≤ t.elements.length := by
        rw [hout₁.finished, length_append] at hroom
        omega
      have hfirst : step (t.arrays σ) b = some (t.arrays σ₁) :=
        (hstep b mem_cons_self σ hmarked).trans (hsearch _ σ σ₁ hone hmarked hroom₁)
      rw [foldlM_cons, hfirst]
      exact ih (fun b hb => hstep b (mem_cons_of_mem _ hb)) hrest hmarked₁

/-- **`dfs_sort` is the search**, as long as there are as many cells as elements to write. -/
theorem dfsSort_arrays (hrun : search t.elements t.children turns x σ = some σ')
    (hmarked : σ.visited ⊆ t.elements) (hroom : σ'.finished.length ≤ t.elements.length) :
    t.dfsSort turns x (t.arrays σ) = some (t.arrays σ') := by
  induction turns generalizing x σ σ' with
  | zero => cases hrun
  | succ turns ih =>
      rw [dfsSort]
      by_cases hx : x ∈ t.elements
      · rw [elementIndex_of_mem hx]
        dsimp only
        by_cases hvisited : x ∈ σ.visited
        · rw [search_done fun hfresh => hfresh.2 hvisited] at hrun
          cases hrun
          exact if_pos ((idxOf_mem_map hmarked).mpr hvisited)
        · have hflag : t.elements.idxOf x ∉ (t.arrays σ).visited :=
            mt (idxOf_mem_map hmarked).mp hvisited
          rw [search_fresh ⟨hx, hvisited⟩] at hrun
          obtain ⟨σ₁, hchildren, rfl⟩ := map_eq_some_iff.mp hrun
          have hroom₁ : σ₁.finished.length < t.elements.length := by
            rw [length_cons] at hroom
            omega
          have hloop : (t.children x).foldlM (fun s child => t.dfsSort turns child s)
              (t.arrays { σ with visited := x :: σ.visited }) = some (t.arrays σ₁) :=
            foldlM_arrays id _ (fun _ _ _ => ih) (fun _ _ _ _ => rfl)
              (by rwa [List.map_id]) (List.cons_subset.mpr ⟨hx, hmarked⟩) hroom₁.le
          refine (if_neg hflag).trans (Option.bind_eq_some_iff.mpr ?_)
          exact ⟨t.arrays σ₁, (foldlM_srcPads _ _ x).trans hloop, put_arrays hroom₁⟩
      · rw [elementIndex_of_notMem hx]
        rw [search_done fun hfresh => hx hfresh.1] at hrun
        cases hrun
        rfl

/-! ## The whole sort -/

/-- The order in which the two loops start their searches. -/
def starts (t : Topology) : List ℕ :=
  t.elements.filter (fun el => decide ((t.sinkPads el).length = 0)) ++ t.elements

/-- A place that is not marked does no more to a marked element than a search from it does. -/
theorem skip_visited {place : ℕ × ℕ} (hplace : place ∈ t.elements.zipIdx)
    (hmarked : σ.visited ⊆ t.elements) :
    (if place.2 ∉ (t.arrays σ).visited then t.dfsSort (turns + 1) place.1 (t.arrays σ)
      else some (t.arrays σ)) = t.dfsSort (turns + 1) place.1 (t.arrays σ) := by
  by_cases hflag : place.2 ∉ (t.arrays σ).visited
  · exact if_pos hflag
  · rw [if_neg hflag]
    obtain ⟨y, hy, hidx⟩ := mem_map.mp (not_not.mp hflag)
    have hsame : place.1 = y := by
      have hget := mem_zipIdx_iff_getElem?.mp hplace
      rw [← hidx, getElem?_eq_getElem (idxOf_lt_length_of_mem (hmarked hy)),
        getElem_idxOf] at hget
      exact (Option.some.inj hget).symm
    rw [dfsSort, hsame, elementIndex_of_mem (hmarked hy)]
    exact (if_pos ((idxOf_mem_map hmarked).mpr hy)).symm

/-- A search that has run over all the starts has finished every element once. -/
theorem finished_starts (hrun : searchAll t.elements t.children turns t.starts ⟨[], []⟩ = some σ) :
    σ.finished.Nodup ∧ ∀ x, x ∈ σ.finished ↔ x ∈ t.elements := by
  obtain ⟨out, hout⟩ := explores_searchAll (fun _ _ _ => explores_search) hrun
  obtain rfl : out = σ.finished := by rw [hout.finished, append_nil]
  refine ⟨hout.nodup, fun x => ⟨fun hx => (hout.fresh x hx).1, fun hx => ?_⟩⟩
  have hmarked := (hout.visited x).mp (hout.roots x (mem_append_right _ hx) hx)
  exact hmarked.resolve_right not_mem_nil

/-- **The two loops are one search.** -/
theorem topologicalSortLocked_search (hlong : ¬ t.elements.length ≤ 1)
    (hrun : searchAll t.elements t.children (t.elements.length + 1) t.starts ⟨[], []⟩ = some σ) :
    t.topologicalSortLocked = some (t.arrays σ).temp := by
  obtain ⟨hnodup, hall⟩ := finished_starts hrun
  have hroom : σ.finished.length ≤ t.elements.length :=
    (hnodup.subperm fun x hx => (hall x).mp hx).length_le
  rw [starts, searchAll_append] at hrun
  obtain ⟨σ₁, hsources, hrest⟩ := bind_eq_some_iff.mp hrun
  obtain ⟨out₁, hout₁⟩ := explores_searchAll (fun _ _ _ => explores_search) hsources
  obtain ⟨out₂, hout₂⟩ := explores_searchAll (fun _ _ _ => explores_search) hrest
  have hmarked₁ : σ₁.visited ⊆ t.elements := hout₁.visited_subset (nil_subset _)
  have hroom₁ : σ₁.finished.length ≤ t.elements.length := by
    rw [hout₂.finished, length_append] at hroom
    omega
  have hfirst : t.elements.foldlM (fun s el => if (t.sinkPads el).length = 0 then
      t.dfsSort (t.elements.length + 1) el s else some s) t.freshArrays = some (t.arrays σ₁) := by
    have hloop := foldlM_arrays id (fun s el =>
      t.dfsSort (t.elements.length + 1) el s) (fun _ _ _ => dfsSort_arrays)
      (fun _ _ _ _ => rfl) (by rwa [List.map_id]) (List.nil_subset _) hroom₁
    rw [arrays_fresh, ← hloop, List.foldlM_filter]
    simp only [decide_eq_true_eq]
    rfl
  have hsecond : t.elements.zipIdx.foldlM (fun s place => if place.2 ∉ s.visited then
      t.dfsSort (t.elements.length + 1) place.1 s else some s) (t.arrays σ₁) =
        some (t.arrays σ) :=
    foldlM_arrays Prod.fst _ (fun _ _ _ => dfsSort_arrays)
      (fun place hplace _ hmarked => skip_visited hplace hmarked)
      (by rwa [zipIdx_map_fst]) hmarked₁ hroom
  rw [topologicalSortLocked, if_neg hlong]
  dsimp only
  rw [hfirst, bind_some, hsecond]
  rfl

/-- The search from all the starts ends. -/
theorem searchAll_starts (t : Topology) : ∃ σ, searchAll t.elements t.children
    (t.elements.length + 1) t.starts ⟨[], []⟩ = some σ :=
  isSome_iff_exists.mp (isSome_searchAll (fun _ _ => isSome_search)
    (Nat.lt_succ_of_le (unvisited_le_length t.elements ⟨[], []⟩)))

/-- **What the sort makes of the array**: the cells it has written hold every element once, and
are sorted when there is no cycle; the others are at the front. -/
theorem topologicalSortLocked_cells (hlong : ¬ t.elements.length ≤ 1) :
    ∃ finished : List ℕ, finished.Nodup ∧ (∀ x, x ∈ finished ↔ x ∈ t.elements) ∧
      (t.NoCycle → Ordered t.elements t.children finished) ∧
      t.topologicalSortLocked = some (replicate (t.elements.length - finished.length) none ++
        finished.map some) := by
  obtain ⟨σ, hrun⟩ := searchAll_starts t
  obtain ⟨hnodup, hall⟩ := finished_starts hrun
  refine ⟨σ.finished, hnodup, hall, fun hcycle => ?_, topologicalSortLocked_search hlong hrun⟩
  exact ordered_searchAll (fun _ _ _ => ordered_search hcycle) hrun
    (fun _ _ _ _ hmarked => nomatch hmarked) trivial

theorem idxOf_map_some {l : List ℕ} : (l.map some).idxOf (some x) = l.idxOf x := by
  induction l with
  | nil => rfl
  | cons a l ih => rw [map_cons, idxOf_cons, idxOf_cons, ih]; rfl

/-- **The sort keeps what it should exactly when no element stands in the array twice**: it ends in
any case, and never writes outside of the cells. -/
theorem topologicalSortLocked_iff (t : Topology) :
    (∃ cells, t.topologicalSortLocked = some cells ∧ t.SortedAs cells) ↔ t.elements.Nodup := by
  by_cases hlong : t.elements.length ≤ 1
  · have hnodup : t.elements.Nodup := by
      match helements : t.elements with
      | [] => exact nodup_nil
      | [x] => exact nodup_singleton x
      | x :: y :: rest => simp [helements] at hlong
    refine iff_of_true ⟨_, if_pos hlong, .refl _, fun hcycle x y hlink => ?_⟩ hnodup
    -- a link within a single element would be a cycle
    have hsame : x = y := by
      match helements : t.elements with
      | [] => exact absurd hlink.1 (helements ▸ not_mem_nil)
      | [z] =>
          have hx : x ∈ [z] := helements ▸ hlink.1
          have hy : y ∈ [z] := helements ▸ hlink.2.2
          rw [mem_singleton.mp hx, mem_singleton.mp hy]
      | z :: w :: rest => simp [helements] at hlong
    exact absurd (.single (hsame ▸ hlink)) (hcycle x)
  · obtain ⟨finished, hfinished, hall, hordered, hcells⟩ := topologicalSortLocked_cells hlong
    constructor
    · rintro ⟨cells, hsort, hperm, -⟩
      obtain rfl := Option.some.inj (hcells.symm.trans hsort)
      -- no cell is left at the front, so there are as many elements as have been finished
      have hfull : t.elements.length - finished.length = 0 := by
        by_contra hfront
        have hnone := hperm.mem_iff.mp
          (mem_append_left _ (mem_replicate.mpr ⟨hfront, rfl⟩))
        obtain ⟨x, -, hx⟩ := mem_map.mp hnone
        cases hx
      have hsame : finished.Perm t.elements :=
        (hfinished.subperm fun x hx => (hall x).mp hx).perm_of_length_le (by omega)
      exact hsame.nodup_iff.mp hfinished
    · intro hnodup
      have hperm : finished.Perm t.elements :=
        (perm_ext_iff_of_nodup hfinished hnodup).mpr hall
      refine ⟨_, hcells, ?_, fun hcycle x y hlink => ?_⟩
      · rw [hperm.length_eq, Nat.sub_self]
        exact hperm.map some
      · rw [hperm.length_eq, Nat.sub_self, replicate_zero, nil_append, idxOf_map_some,
          idxOf_map_some]
        exact ((hordered hcycle).idxOf_lt hfinished ((hall x).mpr hlink.1) hlink.2.1 hlink.2.2).2

/-- An element without pads, added twice: one cell is never written. -/
theorem topologicalSortLocked_twice :
    ¬ ∀ t : Topology, ∃ cells, t.topologicalSortLocked = some cells ∧ t.SortedAs cells := by
  intro hall
  obtain ⟨cells, hsort, hperm, -⟩ :=
    hall ⟨[0, 0], fun _ => [], fun _ => [], by decide⟩
  obtain rfl : [none, some 0] = cells := Option.some.inj hsort
  have hnone : (none : Option ℕ) ∈ [some 0, some 0] := hperm.mem_iff.mp mem_cons_self
  simp at hnone

end Topology

end Zstreamer

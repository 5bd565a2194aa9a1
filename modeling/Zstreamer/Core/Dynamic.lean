/-
# Adding and removing elements of a live pipeline

`zst_pipeline_add_element_dynamic` brings a new element up to the state of the
pipeline by a ladder of its own instead of the general transition, and
`zst_pipeline_remove_element_dynamic` takes an element down to NULL before it takes
it out.  Both end by sorting the element list along the pad links.

The ladder has a rung for READY and one for PLAYING.  It has none for PAUSED, so an
element added to a PAUSED pipeline stays in READY.  It also never asks whether the
element is in the pipeline already, which `zst_bin_add` does for its children.
`dynamic_in_step` proves that these are the only two ways to lose the step: in every
run that avoids them the elements follow the pipeline and everything outside it
is in NULL, also across adds that fail.

The ranks of the graph, the buffer pools and the wake-up of the scheduler at the
end of an operation are left out; no state depends on them.
-/

import Mathlib.Data.List.Flatten
import Mathlib.Data.List.Nodup
import Mathlib.Data.List.Perm.Subperm
import Zstreamer.Core.Pipeline
import Zstreamer.Foundation.Runs

namespace Zstreamer

open Foundation List

/-- A pipeline with its element list and the links the sort follows. -/
structure Graph extends PipelineState where
  elements : List Element
  /-- For each element, the elements its source pads lead to, in pad order. -/
  peers : ℕ → List ℕ
  nbSinkPads : ℕ → ℕ

/-- The arrays of the sort: which elements have been visited, and the part of
`temp` already filled, which grows towards the front. -/
structure SortState where
  visited : List ℕ
  temp : List Element

/-- `dfs_sort`.  The fuel bounds the depth of the recursion; every level marks
another element, so the number of elements plus one is never used up. -/
def dfsSort (elements : List Element) (peers : ℕ → List ℕ) : ℕ → ℕ → SortState → SortState
  | 0, _, s => s
  | fuel + 1, id, s =>
      match elements.find? fun el => el.id = id with
      | none => s
      | some el =>
          if id ∈ s.visited then s
          else
            let s := (peers id).foldl (fun s child => dfsSort elements peers fuel child s)
              { s with visited := id :: s.visited }
            { s with temp := el :: s.temp }

namespace Graph

/-- `pipeline_topological_sort_locked`: from the sources first, then from whatever
has not been reached. -/
def topologicalSort (g : Graph) : List Element :=
  if g.elements.length ≤ 1 then g.elements
  else
    let depth := g.elements.length + 1
    let s := g.elements.foldl (fun s el =>
      if g.nbSinkPads el.id = 0 then dfsSort g.elements g.peers depth el.id s else s) ⟨[], []⟩
    let s := g.elements.foldl (fun s el =>
      if el.id ∈ s.visited then s else dfsSort g.elements g.peers depth el.id s) s
    s.temp

/-- `pipeline_reconfiguration_finish_locked`. -/
def finish (g : Graph) : Graph := { g with elements := g.topologicalSort }

/-- The same graph after something happened to the world. -/
def withWorld (w : World) (g : Graph) : Graph := { g with world := w }

/-- `pipeline_add_locked`, where memory for the list is not an issue. -/
def addLocked (el : Element) (g : Graph) : Graph := { g with elements := g.elements ++ [el] }

@[simp] theorem withWorld_state (w : World) (g : Graph) : (g.withWorld w).state = g.state := rfl

@[simp] theorem withWorld_world (w : World) (g : Graph) : (g.withWorld w).world = w := rfl

@[simp] theorem withWorld_withWorld (w w' : World) (g : Graph) :
    (g.withWorld w).withWorld w' = g.withWorld w' := rfl

@[simp] theorem addLocked_state (el : Element) (g : Graph) : (g.addLocked el).state = g.state := rfl

@[simp] theorem addLocked_world (el : Element) (g : Graph) : (g.addLocked el).world = g.world := rfl

/-- `pipeline_remove_locked`: the first occurrence goes. -/
def removeLocked (el : Element) (g : Graph) : Result × Graph :=
  if g.elements.any fun e => e.id = el.id then
    (.ok, { g with elements := g.elements.eraseP fun e => e.id = el.id })
  else (.error, g)

/-- Unlinking every pad of an element clears its links in both directions. -/
def unlinkPads (el : Element) (g : Graph) : Graph :=
  { g with peers := fun id => if id = el.id then [] else (g.peers id).filter (· ≠ el.id) }

/-- `zst_pipeline_set_state` on the elements of the graph. -/
def setState (oracle : ℕ → Result) (target : State) (g : Graph) : Result × Graph :=
  let (r, p) := Pipeline.setState oracle g.elements target g.toPipelineState
  (r, { g with toPipelineState := p })

/-- `zst_pipeline_add_element_dynamic`. -/
def addElementDynamic (oracle : ℕ → Result) (inTransaction : Bool) (el : Element) (g : Graph) :
    Result × Graph :=
  let g := g.addLocked el
  let finished := fun g : Graph => (Result.ok, if inTransaction then g else g.finish)
  if g.state.toNat > State.null.toNat then
    let (r, w) := if g.state.toNat ≥ State.ready.toNat then el.setState oracle .ready g.world
      else (.ok, g.world)
    let g := g.withWorld w
    if r ≠ .ok then (r, (g.removeLocked el).2)
    else if g.state = .playing then
      let (r, w) := el.setState oracle .playing g.world
      let g := g.withWorld w
      if r ≠ .ok then
        let g := g.withWorld (el.setState oracle .null g.world).2
        (r, (g.removeLocked el).2)
      else finished g
    else finished g
  else finished g

/-- `zst_pipeline_remove_element_dynamic` with no scheduler running, so that there
are no tasks to wait for. -/
def removeElementDynamic (oracle : ℕ → Result) (inTransaction : Bool) (el : Element)
    (g : Graph) : Result × Graph :=
  let g := if (g.world.node el.id).state = .playing then
      g.withWorld (el.setState oracle .paused g.world).2
    else g
  let g := g.withWorld (el.setState oracle .null g.world).2
  let (r, g) := (g.unlinkPads el).removeLocked el
  (r, if inTransaction then g else g.finish)

end Graph

/-! ## Sorting permutes the list -/

section Sorting

variable {elements : List Element} {peers : ℕ → List ℕ}

/-- What a piece of the sort may do: elements of the list that were not visited
become visited and, all of them and nothing else, enter the output. -/
structure SortStep (elements : List Element) (s s' : SortState) : Prop where
  visited : ∃ new, s'.visited.Perm (new ++ s.visited) ∧ new.Nodup ∧
    (∀ id ∈ new, id ∉ s.visited) ∧
    ∃ out, s'.temp = out ++ s.temp ∧ (out.map Element.id).Perm new ∧ ∀ el ∈ out, el ∈ elements

theorem SortStep.refl (s : SortState) : SortStep elements s s :=
  ⟨[], by simp, nodup_nil, by simp, [], by simp, by simp, by simp⟩

theorem SortStep.trans {s s' s'' : SortState} (hfirst : SortStep elements s s')
    (hsecond : SortStep elements s' s'') : SortStep elements s s'' := by
  obtain ⟨new₁, hperm₁, hnodup₁, hfresh₁, out₁, htemp₁, hids₁, hmem₁⟩ := hfirst
  obtain ⟨new₂, hperm₂, hnodup₂, hfresh₂, out₂, htemp₂, hids₂, hmem₂⟩ := hsecond
  have hfresh : ∀ id ∈ new₂, id ∉ new₁ ∧ id ∉ s.visited := by
    intro id hid
    have := hfresh₂ id hid
    rw [hperm₁.mem_iff, mem_append, not_or] at this
    exact this
  refine ⟨new₂ ++ new₁, ?_, ?_, ?_, out₂ ++ out₁, ?_, ?_, ?_⟩
  · rw [append_assoc]
    exact hperm₂.trans (hperm₁.append_left new₂)
  · refine nodup_append.mpr ⟨hnodup₂, hnodup₁, ?_⟩
    rintro a ha b hb rfl
    exact (hfresh a ha).1 hb
  · intro id hid
    rcases mem_append.mp hid with h | h
    · exact (hfresh id h).2
    · exact hfresh₁ id h
  · rw [htemp₂, htemp₁, append_assoc]
  · rw [map_append]
    exact hids₂.append hids₁
  · intro el hel
    rcases mem_append.mp hel with h | h
    · exact hmem₂ el h
    · exact hmem₁ el h

theorem SortStep.mem_visited {s s' : SortState} (hstep : SortStep elements s s') {id : ℕ}
    (hid : id ∈ s.visited) : id ∈ s'.visited := by
  obtain ⟨new, hperm, -⟩ := hstep
  exact hperm.mem_iff.mpr (mem_append_right new hid)

theorem SortStep.foldl {α : Type} {f : SortState → α → SortState}
    (hstep : ∀ s a, SortStep elements s (f s a)) (items : List α) (s : SortState) :
    SortStep elements s (items.foldl f s) := by
  induction items generalizing s with
  | nil => exact .refl s
  | cons a rest ih => exact (hstep s a).trans (ih (f s a))

variable (elements peers) in
theorem dfsSort_step (fuel id : ℕ) (s : SortState) :
    SortStep elements s (dfsSort elements peers fuel id s) := by
  induction fuel generalizing id s with
  | zero => exact .refl s
  | succ fuel ih =>
      unfold dfsSort
      cases hfind : elements.find? fun el => el.id = id with
      | none => exact .refl s
      | some el =>
          have hid : el.id = id := by simpa using find?_some hfind
          dsimp only
          split
          case isTrue => exact .refl s
          case isFalse hfresh =>
            -- The children are handled with this element marked but not yet output.
            obtain ⟨new, hperm, hnodup, hnew, out, htemp, hids, hmem⟩ :=
              SortStep.foldl (fun s child => ih child s) (peers id)
                { s with visited := id :: s.visited }
            have hnew' : ∀ n ∈ new, n ≠ id ∧ n ∉ s.visited := by
              intro n hn
              simpa using hnew n hn
            refine ⟨id :: new, ?_, ?_, ?_, el :: out, ?_, ?_, ?_⟩
            · exact hperm.trans perm_middle
            · exact nodup_cons.mpr ⟨fun h => (hnew' id h).1 rfl, hnodup⟩
            · intro n hn
              rcases mem_cons.mp hn with rfl | hn
              · exact hfresh
              · exact (hnew' n hn).2
            · rw [cons_append, ← htemp]
            · rw [map_cons, hid]
              exact hids.cons id
            · intro e he
              rcases mem_cons.mp he with rfl | he
              · exact mem_of_find?_eq_some hfind
              · exact hmem e he

theorem dfsSort_visits {el : Element} (hel : el ∈ elements) (fuel : ℕ) (s : SortState) :
    el.id ∈ (dfsSort elements peers (fuel + 1) el.id s).visited := by
  unfold dfsSort
  cases hfind : elements.find? fun e => e.id = el.id with
  | none =>
      have := find?_eq_none.mp hfind el hel
      simp at this
  | some e =>
      dsimp only
      split
      case isTrue hvisited => exact hvisited
      case isFalse =>
        have hrest := SortStep.foldl (fun s child => dfsSort_step elements peers fuel child s)
          (peers el.id) { s with visited := el.id :: s.visited }
        exact hrest.mem_visited (by simp)

variable (elements peers) in
theorem visitRest_step (depth : ℕ) (s : SortState) (el : Element) :
    SortStep elements s
      (if el.id ∈ s.visited then s else dfsSort elements peers depth el.id s) := by
  split
  · exact .refl s
  · exact dfsSort_step elements peers depth el.id s

variable (peers) in
/-- The second loop of the sort leaves no element out. -/
theorem visitRest_visits (depth : ℕ) (items : List Element) (hitems : ∀ el ∈ items, el ∈ elements)
    (s : SortState) :
    ∀ el ∈ items, el.id ∈ (items.foldl (fun s el =>
      if el.id ∈ s.visited then s else dfsSort elements peers (depth + 1) el.id s) s).visited := by
  induction items generalizing s with
  | nil => simp
  | cons el rest ih =>
      intro e he
      rcases mem_cons.mp he with rfl | he
      · rw [foldl_cons]
        refine (SortStep.foldl (visitRest_step elements peers (depth + 1)) rest _).mem_visited ?_
        split
        case isTrue hvisited => exact hvisited
        case isFalse => exact dfsSort_visits (hitems e (by simp)) depth s
      · exact ih (fun e he => hitems e (by simp [he])) _ e he

end Sorting

/-- Without repetitions in the list, the sort loses nothing and adds nothing. -/
theorem Graph.topologicalSort_perm (g : Graph) (hnodup : (g.elements.map Element.id).Nodup) :
    g.topologicalSort.Perm g.elements := by
  unfold Graph.topologicalSort
  split
  · exact .refl _
  · dsimp only
    generalize hfirst : g.elements.foldl (fun s el => if g.nbSinkPads el.id = 0 then
      dfsSort g.elements g.peers (g.elements.length + 1) el.id s else s) ⟨[], []⟩ = s
    have hsources : SortStep g.elements ⟨[], []⟩ s := by
      rw [← hfirst]
      refine SortStep.foldl (fun s el => ?_) g.elements _
      split
      · exact dfsSort_step g.elements g.peers _ _ s
      · exact .refl s
    have hrest := visitRest_visits g.peers g.elements.length g.elements (fun _ h => h) s
    have hstep : SortStep g.elements s (g.elements.foldl (fun s el => if el.id ∈ s.visited then s
        else dfsSort g.elements g.peers (g.elements.length + 1) el.id s) s) :=
      SortStep.foldl (visitRest_step g.elements g.peers _) g.elements s
    generalize g.elements.foldl (fun s el => if el.id ∈ s.visited then s
      else dfsSort g.elements g.peers (g.elements.length + 1) el.id s) s = s' at hrest hstep ⊢
    obtain ⟨new, hperm, hnew, -, out, htemp, hids, hmem⟩ := hsources.trans hstep
    simp only [append_nil] at hperm htemp
    subst htemp
    have hout : s'.temp.Nodup := List.Nodup.of_map Element.id (hids.nodup_iff.mpr hnew)
    refine (perm_ext_iff_of_nodup hout (List.Nodup.of_map _ hnodup)).mpr fun el => ⟨hmem el, ?_⟩
    intro hel
    have hid : el.id ∈ s'.temp.map Element.id :=
      hids.mem_iff.mpr (hperm.mem_iff.mp (hrest el hel))
    obtain ⟨e, he, heq⟩ := mem_map.mp hid
    rw [← inj_on_of_nodup_map hnodup (hmem e he) hel heq]
    exact he

/-! ## One operation -/

section Operations

variable {oracle : ℕ → Result} {el : Element} {g : Graph}

/-- What `finish` and leaving it out have in common. -/
theorem Graph.finished_perm (inTransaction : Bool) (hnodup : (g.elements.map Element.id).Nodup) :
    (if inTransaction then g else g.finish).toPipelineState = g.toPipelineState ∧
      (if inTransaction then g else g.finish).elements.Perm g.elements := by
  cases inTransaction with
  | true => exact ⟨rfl, .refl _⟩
  | false => exact ⟨rfl, g.topologicalSort_perm hnodup⟩

/-- Taking an element out that has just been added restores the list. -/
theorem Graph.removeLocked_addLocked (w : World) (hnew : ∀ e ∈ g.elements, e.id ≠ el.id) :
    (((g.addLocked el).withWorld w).removeLocked el).2 = g.withWorld w := by
  have herase : (g.elements ++ [el]).eraseP (fun e => e.id = el.id) = g.elements := by
    rw [eraseP_append_right _ (by simpa using hnew)]
    simp
  simp [Graph.removeLocked, Graph.addLocked, Graph.withWorld, herase]

/-- How an add ends: with the element in the list, at the pipeline's state unless
that is PAUSED, or, after a hook has failed, with the element in NULL and the list as
it was. -/
structure AddOutcome (oracle : ℕ → Result) (el : Element) (g : Graph) (out : Result × Graph) :
    Prop where
  frame : Framed el.nodes g.world out.2.world
  state : out.2.state = g.state
  ends : (out.1 = .ok ∧ out.2.elements.Perm (g.elements ++ [el]) ∧
      (out.2.world.node el.id).state = if g.state = .paused then .ready else g.state) ∨
    (HookFailed oracle g.world out.2.world ∧ out.1 ≠ .ok ∧ out.2.elements = g.elements ∧
      (out.2.world.node el.id).state = .null)

theorem Graph.addElementDynamic_outcome (inTransaction : Bool) (hdistinct : Distinct [el])
    (hnodup : (g.elements.map Element.id).Nodup) (hnew : ∀ e ∈ g.elements, e.id ≠ el.id)
    (hnull : (g.world.node el.id).state = .null) (hone : OneFailure oracle g.world) :
    AddOutcome oracle el g (g.addElementDynamic oracle inTransaction el) := by
  have hnodup' : ((g.elements ++ [el]).map Element.id).Nodup := by
    rw [map_append, nodup_append]
    refine ⟨hnodup, by simp, ?_⟩
    rintro a ha b hb rfl
    obtain ⟨e, he, rfl⟩ := mem_map.mp ha
    exact hnew e he (by simpa using hb)
  have hfinished : ∀ w : World, Framed el.nodes g.world w →
      (w.node el.id).state = (if g.state = .paused then .ready else g.state) →
      AddOutcome oracle el g (.ok, if inTransaction then (g.addLocked el).withWorld w
        else ((g.addLocked el).withWorld w).finish) := by
    intro w hframe hstate
    obtain ⟨hsame, hperm⟩ :=
      Graph.finished_perm (g := (g.addLocked el).withWorld w) inTransaction hnodup'
    refine ⟨?_, ?_, .inl ⟨rfl, hperm, ?_⟩⟩
    · rw [hsame]
      exact hframe
    · rw [hsame]
      rfl
    · rw [hsame]
      exact hstate
  have hready := setState_honest oracle el hdistinct .ready g.world
  have hstep : (hookFor (g.world.node el.id).state .ready).isSome := by
    rw [hnull]
    decide
  unfold Graph.addElementDynamic
  simp only [Graph.addLocked_state, Graph.addLocked_world, Graph.withWorld_state,
    Graph.withWorld_world, Graph.withWorld_withWorld]
  by_cases hzero : g.state = .null
  · have hbelow : ¬ g.state.toNat > State.null.toNat := by simp [hzero]
    simp only [hbelow, if_false]
    exact hfinished g.world (.refl _ _) (by rw [hnull, hzero]; rfl)
  · have habove : g.state.toNat > State.null.toNat ∧ g.state.toNat ≥ State.ready.toNat := by
      cases hstate : g.state <;> simp_all [State.toNat]
    simp only [habove.1, habove.2, if_true]
    by_cases hok : (el.setState oracle .ready g.world).1 = .ok
    · simp only [hok, ne_eq, not_true_eq_false, if_false]
      by_cases hplaying : g.state = .playing
      · simp only [hplaying, if_true]
        have hplay := setState_honest oracle el hdistinct .playing
          (el.setState oracle .ready g.world).2
        have hframe := hready.frame.trans hplay.frame
        split
        case isTrue hfail =>
          have hcalm : Calm oracle _ := (hone.mono hready.frame.calls).calm_of_failed
            (hplay.failed hfail)
          have hdown := setState_calm hdistinct .null hcalm
          rw [Graph.removeLocked_addLocked _ hnew]
          have hfailed := (hplay.failed hfail).extend hready.frame.calls hdown.frame.calls
          exact ⟨hframe.trans hdown.frame, rfl, .inr ⟨hfailed, hfail, rfl, hdown.state⟩⟩
        case isFalse hplayed =>
          refine hfinished _ hframe ?_
          rw [hplaying]
          exact hplay.state (not_not.mp hplayed)
      · simp only [hplaying, if_false]
        refine hfinished _ hready.frame ((hready.state hok).trans ?_)
        cases hstate : g.state <;> simp_all
    · simp only [hok, ne_eq, not_false_eq_true, if_true]
      rw [Graph.removeLocked_addLocked _ hnew]
      exact ⟨hready.frame, rfl, .inr ⟨hready.failed hok, hok, rfl,
        (setState_step_fail hdistinct hstep hok).trans hnull⟩⟩

/-- A removal with no failing hook: the element is in NULL and out of the list. -/
structure RemoveOutcome (el : Element) (g g' : Graph) : Prop where
  frame : Framed el.nodes g.world g'.world
  state : g'.state = g.state
  null : (g'.world.node el.id).state = .null
  elements : g'.elements.Perm (g.elements.eraseP fun e => e.id = el.id)

theorem Graph.removeElementDynamic_outcome (inTransaction : Bool) (hdistinct : Distinct [el])
    (hnodup : (g.elements.map Element.id).Nodup) (hcalm : Calm oracle g.world) :
    RemoveOutcome el g (g.removeElementDynamic oracle inTransaction el).2 := by
  -- Whatever state the first call leaves it in, the second takes it to NULL.
  obtain ⟨w, hframe, hpause⟩ : ∃ w, Framed el.nodes g.world w ∧
      (if (g.world.node el.id).state = .playing then
        g.withWorld (el.setState oracle .paused g.world).2 else g) = g.withWorld w := by
    by_cases hplaying : (g.world.node el.id).state = .playing
    · exact ⟨_, (setState_calm hdistinct .paused hcalm).frame, if_pos hplaying⟩
    · exact ⟨g.world, .refl _ _, if_neg hplaying⟩
  have hdown := setState_calm hdistinct .null (hcalm.mono hframe.calls)
  obtain ⟨r, g', hremove, hsame, herase⟩ : ∃ r g', (((g.withWorld w).withWorld
        (el.setState oracle .null w).2).unlinkPads el).removeLocked el = (r, g') ∧
      g'.toPipelineState = ⟨g.state, (el.setState oracle .null w).2⟩ ∧
      g'.elements = g.elements.eraseP fun e => e.id = el.id := by
    unfold Graph.removeLocked
    split
    case isTrue => exact ⟨_, _, rfl, rfl, rfl⟩
    case isFalse hnone =>
      refine ⟨_, _, rfl, rfl, (eraseP_of_forall_not fun e he heq => hnone ?_).symm⟩
      exact any_eq_true.mpr ⟨e, he, heq⟩
  have hsub : (g'.elements.map Element.id).Nodup := by
    rw [herase]
    exact hnodup.sublist (eraseP_sublist.map _)
  obtain ⟨hsame', hperm⟩ := Graph.finished_perm inTransaction hsub
  have hout : (g.removeElementDynamic oracle inTransaction el).2 =
      if inTransaction then g' else g'.finish := by
    simp only [Graph.removeElementDynamic, hpause, Graph.withWorld_world]
    rw [hremove]
  rw [hout]
  refine ⟨?_, ?_, ?_, herase ▸ hperm⟩
  · rw [hsame', hsame]
    exact hframe.trans hdown.frame
  · rw [hsame', hsame]
  · rw [hsame', hsame]
    exact hdown.state

end Operations

/-! ## Runs of operations -/

/-- The operations of a run.  Hooks succeed, except that an add may be given an
oracle of its own. -/
inductive GraphOp
  | setState (target : State)
  | add (oracle : ℕ → Result) (inTransaction : Bool) (el : Element)
  | remove (inTransaction : Bool) (el : Element)

/-- Runs over elements from `pool`, from a pipeline in NULL that already holds some
of them. -/
def dynamicGraph (pool : List Element) : System Graph GraphOp where
  init g := g.state = .null ∧ g.elements.Nodup ∧ (∀ el ∈ g.elements, el ∈ pool) ∧
    ∀ el ∈ pool, (g.world.node el.id).state = .null
  next g op :=
    match op with
    | .setState target => some (g.setState (fun _ => .ok) target).2
    | .add oracle inTransaction el => some (g.addElementDynamic oracle inTransaction el).2
    | .remove inTransaction el => some (g.removeElementDynamic (fun _ => .ok) inTransaction el).2

/-- The steps of the runs considered: operations on elements of the pool, where an
added element is in NULL and at most one hook of the add fails. -/
def Admissible (pool : List Element) (g : Graph) : GraphOp → Prop
  | .setState _ => True
  | .add oracle _ el =>
      el ∈ pool ∧ (g.world.node el.id).state = .null ∧ OneFailure oracle g.world
  | .remove _ el => el ∈ pool

/-- The adds that keep the step: the pipeline is not PAUSED and does not hold the
element yet. -/
def KeepsStep (g : Graph) : GraphOp → Prop
  | .add _ _ el => g.state ≠ .paused ∧ el ∉ g.elements
  | _ => True

/-- The elements of the pipeline are elements of the pool, each once, and in the
pipeline's state; the other elements of the pool are in NULL. -/
structure Graph.FollowsState (pool : List Element) (g : Graph) : Prop where
  members : ∀ el ∈ g.elements, el ∈ pool
  nodup : g.elements.Nodup
  inStep : ∀ el ∈ g.elements, (g.world.node el.id).state = g.state
  outside : ∀ el ∈ pool, el ∉ g.elements → (g.world.node el.id).state = .null

section Pool

variable {pool : List Element}

theorem Distinct.ids_nodup {els : List Element} (hdistinct : Distinct els) :
    (els.map Element.id).Nodup := by
  induction els with
  | nil => exact nodup_nil
  | cons el rest ih =>
      refine nodup_cons.mpr ⟨fun hmem => ?_, ih hdistinct.tail⟩
      obtain ⟨e, he, heq⟩ := mem_map.mp hmem
      have he' : (e.id, e.ops) ∈ Element.nodesOfList rest := by
        rw [Element.nodesOfList_eq]
        exact mem_flatMap.mpr ⟨e, he, e.self_mem_nodes⟩
      exact hdistinct.apart _ el.self_mem_nodes _ he' heq.symm

theorem Distinct.of_nodup {els : List Element} (hdistinct : Distinct pool) (hnodup : els.Nodup)
    (hsub : ∀ el ∈ els, el ∈ pool) : Distinct els := by
  obtain ⟨els', hperm, hsublist⟩ := hnodup.subperm (fun el hel => hsub el hel)
  refine Distinct.perm ?_ hperm
  unfold Distinct at *
  rw [Element.nodesOfList_eq] at *
  exact hdistinct.sublist ((hsublist.flatMap _).map _)

/-- Two elements of the pool are the same, or what happens to the nodes of one does
not reach the other. -/
theorem Distinct.eq_or_node {el e : Element} (hdistinct : Distinct pool) (hel : el ∈ pool)
    (he : e ∈ pool) {w w' : World} (hframe : Framed el.nodes w w') :
    e = el ∨ w'.node e.id = w.node e.id := by
  by_cases heq : e = el
  · exact .inl heq
  · obtain ⟨before, after, rfl⟩ := append_of_mem hel
    have hperm : (before ++ el :: after).Perm (el :: (before ++ after)) := perm_middle
    have hapart := (hdistinct.perm hperm).apart
    have hrest : e ∈ before ++ after := by simpa [heq] using he
    refine .inr (hframe.node_of_mem (n := (e.id, e.ops)) hapart ?_)
    rw [Element.nodesOfList_eq]
    exact mem_flatMap.mpr ⟨e, hrest, e.self_mem_nodes⟩

variable {g : Graph}

theorem Graph.FollowsState.distinct (hdistinct : Distinct pool) (hg : g.FollowsState pool) :
    Distinct g.elements :=
  hdistinct.of_nodup hg.nodup hg.members

theorem Graph.FollowsState.new_id (hdistinct : Distinct pool) (hg : g.FollowsState pool)
    {el : Element} (hel : el ∈ pool) (hnew : el ∉ g.elements) :
    ∀ e ∈ g.elements, e.id ≠ el.id := by
  intro e he heq
  have := inj_on_of_nodup_map hdistinct.ids_nodup (hg.members e he) hel heq
  exact hnew (this ▸ he)

theorem Graph.FollowsState.add_outcome (hdistinct : Distinct pool) (hg : g.FollowsState pool)
    {el : Element} (hel : el ∈ pool) (hnew : el ∉ g.elements) {oracle : ℕ → Result}
    (hone : OneFailure oracle g.world) (inTransaction : Bool) :
    AddOutcome oracle el g (g.addElementDynamic oracle inTransaction el) :=
  g.addElementDynamic_outcome inTransaction (hdistinct.of_mem hel)
    (hg.distinct hdistinct).ids_nodup (hg.new_id hdistinct hel hnew) (hg.outside el hel hnew) hone

/-! ### What each operation preserves -/

theorem Graph.FollowsState.setState (hdistinct : Distinct pool) (hg : g.FollowsState pool)
    (target : State) : (g.setState (fun _ => .ok) target).2.FollowsState pool := by
  have hcalm : Calm (fun _ => .ok) g.world := fun _ _ => rfl
  obtain ⟨-, -, hframe, hstep⟩ := Pipeline.setStateLoop_calm (hg.distinct hdistinct) hcalm
    (by omega) (State.toNat_le_add_three target g.state) (State.toNat_le_add_three g.state target)
  refine ⟨hg.members, hg.nodup, hstep hg.inStep, fun e he hout => ?_⟩
  have hself : ∀ n ∈ Element.nodesOfList g.elements, n.1 ≠ e.id := by
    intro n hn
    rw [Element.nodesOfList_eq] at hn
    obtain ⟨el, hel, hn⟩ := mem_flatMap.mp hn
    have hpair : Distinct [el, e] := by
      refine hdistinct.of_nodup (by simpa using fun h : el = e => hout (h ▸ hel)) ?_
      simpa using ⟨hg.members el hel, he⟩
    exact hpair.apart n hn (e.id, e.ops) (by simp [Element.nodesOfList, e.self_mem_nodes])
  have hnode := hframe.node e.id hself
  exact (congrArg Node.state hnode).trans (hg.outside e he hout)

theorem Graph.FollowsState.add (hdistinct : Distinct pool) (hg : g.FollowsState pool)
    {el : Element} (hel : el ∈ pool) (hnew : el ∉ g.elements) (hpaused : g.state ≠ .paused)
    {oracle : ℕ → Result} (hone : OneFailure oracle g.world) (inTransaction : Bool) :
    (g.addElementDynamic oracle inTransaction el).2.FollowsState pool := by
  obtain ⟨hframe, hstate, hends⟩ := hg.add_outcome hdistinct hel hnew hone inTransaction
  have hother : ∀ e ∈ pool, e ≠ el →
      ((g.addElementDynamic oracle inTransaction el).2.world.node e.id) = g.world.node e.id :=
    fun e he hne => (hdistinct.eq_or_node hel he hframe).resolve_left hne
  rcases hends with ⟨-, hperm, hown⟩ | ⟨-, -, hsame, hown⟩
  · rw [if_neg hpaused] at hown
    have hmem : ∀ e, e ∈ (g.addElementDynamic oracle inTransaction el).2.elements ↔
        e ∈ g.elements ∨ e = el := fun e => by simp [hperm.mem_iff]
    refine ⟨fun e he => ?_, ?_, fun e he => ?_, fun e he hout => ?_⟩
    · rcases (hmem e).mp he with h | rfl
      · exact hg.members e h
      · exact hel
    · refine hperm.nodup_iff.mpr (nodup_append.mpr ⟨hg.nodup, by simp, ?_⟩)
      rintro a ha b hb rfl
      exact hnew (mem_singleton.mp hb ▸ ha)
    · rcases (hmem e).mp he with h | rfl
      · rw [hother e (hg.members e h) fun heq => hnew (heq ▸ h), hstate]
        exact hg.inStep e h
      · rw [hown, hstate]
    · obtain ⟨hout, hne⟩ := not_or.mp (mt (hmem e).mpr hout)
      rw [hother e he hne]
      exact hg.outside e he hout
  · refine ⟨fun e he => hg.members e (hsame ▸ he), hsame ▸ hg.nodup, fun e he => ?_,
      fun e he hout => ?_⟩
    · rw [hsame] at he
      rw [hother e (hg.members e he) fun heq => hnew (heq ▸ he), hstate]
      exact hg.inStep e he
    · by_cases heq : e = el
      · rw [heq, hown]
      · rw [hother e he heq]
        exact hg.outside e he (hsame ▸ hout)

theorem Graph.FollowsState.remove (hdistinct : Distinct pool) (hg : g.FollowsState pool)
    {el : Element} (hel : el ∈ pool) (inTransaction : Bool) :
    (g.removeElementDynamic (fun _ => .ok) inTransaction el).2.FollowsState pool := by
  have hcalm : Calm (fun _ => .ok) g.world := fun _ _ => rfl
  obtain ⟨hframe, hstate, hnull, hperm⟩ := g.removeElementDynamic_outcome inTransaction
    (hdistinct.of_mem hel) (hg.distinct hdistinct).ids_nodup hcalm
  have hother : ∀ e ∈ pool, e ≠ el → ((g.removeElementDynamic (fun _ => .ok) inTransaction
      el).2.world.node e.id) = g.world.node e.id :=
    fun e he hne => (hdistinct.eq_or_node hel he hframe).resolve_left hne
  have hids : (g.elements.map Element.id).Nodup := (hg.distinct hdistinct).ids_nodup
  have hmem : ∀ e, e ∈ (g.removeElementDynamic (fun _ => .ok) inTransaction el).2.elements →
      e ∈ g.elements ∧ e ≠ el := by
    intro e he
    have he' := hperm.mem_iff.mp he
    refine ⟨mem_of_mem_eraseP he', ?_⟩
    rintro rfl
    -- An element left after the erasure would be a second occurrence.
    obtain ⟨a, before, after, -, ha, hsplit, herase⟩ :=
      exists_of_eraseP (p := fun a => decide (a.id = e.id)) (mem_of_mem_eraseP he')
        (by simp)
    rw [herase] at he'
    rw [hsplit] at hids
    have hdup : (e.id :: (before ++ after).map Element.id).Nodup := by
      have hid : a.id = e.id := by simpa using ha
      rw [← hid]
      exact ((perm_middle.map Element.id).nodup_iff.mp hids)
    exact (nodup_cons.mp hdup).1 (mem_map_of_mem he')
  refine ⟨fun e he => hg.members e (hmem e he).1, hperm.nodup_iff.mpr (hg.nodup.eraseP _),
    fun e he => ?_, fun e he hout => ?_⟩
  · obtain ⟨he, hne⟩ := hmem e he
    rw [hother e (hg.members e he) hne, hstate]
    exact hg.inStep e he
  · by_cases heq : e = el
    · rw [heq, hnull]
    · rw [hother e he heq]
      refine hg.outside e he fun hin => hout (hperm.mem_iff.mpr ?_)
      have hne : e.id ≠ el.id := fun h =>
        heq (inj_on_of_nodup_map hdistinct.ids_nodup he hel h)
      exact (mem_eraseP_of_neg (by simpa using hne)).mpr hin

end Pool

/-- **Dynamic operations keep the step.**  In every run in which no element is added
to a PAUSED pipeline or to a pipeline that holds it already, the elements of the
pipeline are after every operation in the pipeline's state and all others, the
removed ones among them, are in NULL.  An add that fails because a hook fails leaves
the list as it was and its element in NULL, whatever the pipeline's state.  An add to
a PAUSED pipeline always loses the step: with hooks that succeed it leaves the element
in READY. -/
theorem dynamic_in_step (pool : List Element) (hdistinct : Distinct pool) :
    ∀ g, (dynamicGraph pool).ReachableVia
        (fun g op => Admissible pool g op ∧ KeepsStep g op) g →
      g.FollowsState pool ∧
      (∀ el ∈ pool, el ∉ g.elements → ∀ oracle inTransaction, OneFailure oracle g.world →
        (g.addElementDynamic oracle inTransaction el).1 ≠ .ok →
          (g.addElementDynamic oracle inTransaction el).2.elements = g.elements ∧
          ((g.addElementDynamic oracle inTransaction el).2.world.node el.id).state = .null) ∧
      (∀ el ∈ pool, el ∉ g.elements → ∀ inTransaction, g.state = .paused →
        ¬ (g.addElementDynamic (fun _ => .ok) inTransaction el).2.FollowsState pool) := by
  intro g hreach
  have hg : g.FollowsState pool := by
    refine System.ReachableVia.invariant (I := fun g => g.FollowsState pool) ?_ ?_ hreach
    · rintro g ⟨hstate, hnodup, hmembers, hnull⟩
      exact ⟨hmembers, hnodup, fun el hel => (hnull el (hmembers el hel)).trans hstate.symm,
        fun el hel _ => hnull el hel⟩
    · rintro g op g' - hg ⟨hadm, hkeeps⟩ hnext
      cases op with
      | setState target =>
          cases hnext
          exact hg.setState hdistinct target
      | add oracle inTransaction el =>
          cases hnext
          exact hg.add hdistinct hadm.1 hkeeps.2 hkeeps.1 hadm.2.2 inTransaction
      | remove inTransaction el =>
          cases hnext
          exact hg.remove hdistinct hadm inTransaction
  refine ⟨hg, fun el hel hnew oracle inTransaction hone hfail => ?_,
    fun el hel hnew inTransaction hpaused hafter => ?_⟩
  · obtain ⟨-, -, ⟨hok, -⟩ | ⟨-, -, hsame, hnull⟩⟩ :=
      hg.add_outcome hdistinct hel hnew hone inTransaction
    · exact absurd hok hfail
    · exact ⟨hsame, hnull⟩
  · have hcalm : Calm (fun _ => .ok) g.world := fun _ _ => rfl
    obtain ⟨-, hstate, hends⟩ :=
      hg.add_outcome hdistinct hel hnew hcalm.oneFailure inTransaction
    rcases hends with ⟨-, hperm, hown⟩ | ⟨⟨k, -, -, hfailed⟩, -⟩
    · have hin := hafter.inStep el (hperm.mem_iff.mpr (by simp))
      rw [hown, hstate, if_pos hpaused, hpaused] at hin
      cases hin
    · exact hfailed rfl

/-- Two elements, one of them a bin: the source is in the pipeline, the pipeline is
taken to PLAYING and the bin is added with a failing first hook. -/
theorem dynamic_in_step_bin :
    let ops : Ops := fun _ => true
    let pool : List Element := [.plain 0 ops, .bin 1 ops [.plain 2 ops]]
    let g : Graph := ⟨⟨.null, ⟨fun _ => ⟨.null, []⟩, 0, []⟩⟩, [.plain 0 ops], fun _ => [], fun _ => 0⟩
    let playing := (g.setState (fun _ => .ok) .playing).2
    let oracle : ℕ → Result := fun k => if k = 3 then .error else .ok
    let out := playing.addElementDynamic oracle false (.bin 1 ops [.plain 2 ops])
    playing.FollowsState pool ∧ out.1 = .error ∧ out.2.elements = playing.elements ∧
      (out.2.world.node 1).state = .null := by
  intro ops pool g playing oracle out
  have hpool : Distinct pool := by decide +kernel
  have hstart : (dynamicGraph pool).init g := by
    refine ⟨rfl, by simp [g], by simp [g, pool], fun _ _ => rfl⟩
  have hreach : (dynamicGraph pool).ReachableVia
      (fun g op => Admissible pool g op ∧ KeepsStep g op) playing :=
    .step (a := .setState .playing) (.start hstart) ⟨trivial, trivial⟩ rfl
  have hone : OneFailure oracle playing.world := by
    intro j k _ _ hj hk
    by_cases hj' : j = 3 <;> by_cases hk' : k = 3 <;> simp_all [oracle]
  have hfail : out.1 = .error := by decide +kernel
  obtain ⟨hfollows, hadd, -⟩ := dynamic_in_step pool hpool playing hreach
  have hbin : Element.bin 1 ops [.plain 2 ops] ∉ playing.elements := by
    show _ ∉ [Element.plain 0 ops]
    simp
  obtain ⟨helements, hnull⟩ := hadd _ (by simp [pool]) hbin oracle false hone
    (by rw [hfail]; decide)
  exact ⟨hfollows, hfail, helements, hnull⟩

/-- An element added to a PAUSED pipeline is left in READY. -/
theorem add_to_paused :
    ¬ ∀ pool : List Element, Distinct pool →
      ∀ g, (dynamicGraph pool).ReachableVia (Admissible pool) g →
        (∀ el ∈ g.elements, (g.world.node el.id).state = g.state) ∧
        ∀ el ∈ pool, el ∉ g.elements → (g.world.node el.id).state = .null := by
  intro hall
  let el : Element := .plain 0 fun _ => true
  let g : Graph := ⟨⟨.null, ⟨fun _ => ⟨.null, []⟩, 0, []⟩⟩, [], fun _ => [], fun _ => 0⟩
  let paused : Graph := (g.setState (fun _ => .ok) .paused).2
  let added : Graph := (paused.addElementDynamic (fun _ => .ok) false el).2
  have hstart : (dynamicGraph [el]).init g := ⟨rfl, by simp [g], by simp [g], fun _ _ => rfl⟩
  have hpaused : (dynamicGraph [el]).ReachableVia (Admissible [el]) paused :=
    .step (a := .setState .paused) (.start hstart) trivial rfl
  have hadded : (dynamicGraph [el]).ReachableVia (Admissible [el]) added := by
    refine .step (a := .add (fun _ => .ok) false el) hpaused ⟨by simp, rfl, ?_⟩ rfl
    intro j k _ _ hj
    exact absurd rfl hj
  have hmem : el ∈ added.elements := by
    show el ∈ [el]
    simp
  have hstate := (hall [el] (by decide +kernel) added hadded).1 el hmem
  have hnot : (added.world.node el.id).state ≠ added.state := by decide +kernel
  exact hnot hstate

end Zstreamer

/-
# Pipeline state changes are all or nothing

A pipeline moves its elements one step of the chain at a time, sources first on
the way up and sinks first on the way down, and sends the elements it has already
moved back when one refuses.  A distant target is reached through the pipeline's
own intermediate states, and a refusal half way sends the whole pipeline back to
where the call found it.

So there are three layers that undo work, each in an order of its own: the
pipeline over its intermediate states, the pipeline and each bin over a list of
elements, and each bin over its own hook.  `setState_atomic` says they fit
together: when one hook call of the whole tree fails, nothing has moved.
-/

import Zstreamer.Core.StateChange

namespace Zstreamer

/-- The pipeline's own state and the world its elements live in. -/
structure PipelineState where
  state : State
  world : World

namespace Pipeline

/-- The propagation loops of `zst_pipeline_set_state`: forward for an upward
change, in reverse for a downward one, and undoing most recent first in both. -/
def propagateState (oracle : ℕ → Result) (elements : List Element) (old new : State)
    (w : World) : Result × World :=
  if new.toNat > old.toNat then
    propagate id old new
      (fun el r w => w.post (.error el.id r "Element failed upward state transition"))
      [] (Element.membersOfList oracle elements) w
  else
    propagate id old new
      (fun el r w => w.post (.error el.id r "Element failed downward state transition"))
      [] (Element.membersOfList oracle elements.reverse) w

/-- The recursion of `zst_pipeline_set_state`, which reads `pipe->state` at every
call.  Three calls deep is enough for four states. -/
def setStateLoop (oracle : ℕ → Result) (elements : List Element) :
    ℕ → State → PipelineState → Result × PipelineState
  | 0, _, p => (.error, p)
  | fuel + 1, target, p =>
      let old := p.state
      if old = target then (.ok, p)
      else if target.toNat > old.toNat ∧ target.toNat - old.toNat > 1 then
        let (r, p) := setStateLoop oracle elements fuel old.succ p
        if r ≠ .ok then (r, p)
        else
          let (r, p) := setStateLoop oracle elements fuel target p
          if r ≠ .ok then (r, (setStateLoop oracle elements fuel old p).2) else (r, p)
      else if target.toNat < old.toNat ∧ old.toNat - target.toNat > 1 then
        let (r, p) := setStateLoop oracle elements fuel old.pred p
        if r ≠ .ok then (r, p)
        else
          let (r, p) := setStateLoop oracle elements fuel target p
          if r ≠ .ok then (r, (setStateLoop oracle elements fuel old p).2) else (r, p)
      else
        let (r, w) := propagateState oracle elements old target p.world
        if r ≠ .ok then (r, { p with world := w })
        else (.ok, ⟨target, w.post (.stateChanged none old target)⟩)

/-- `zst_pipeline_set_state`. -/
def setState (oracle : ℕ → Result) (elements : List Element) (target : State)
    (p : PipelineState) : Result × PipelineState :=
  setStateLoop oracle elements 3 target p

variable {oracle : ℕ → Result} {elements : List Element}

/-! ## One step of the pipeline -/

theorem propagateState_settles (hdistinct : Distinct elements) :
    Settles oracle (Element.nodesOfList elements) (propagateState oracle elements) := by
  have hels : ∀ el ∈ elements, el.Dependable oracle :=
    fun el hel => el.dependable (hdistinct.of_mem hel)
  intro cur target w hcalm
  unfold propagateState
  split
  · exact propagate_all_settles hels cur target w hcalm
  · have hels' : ∀ el ∈ elements.reverse, el.Dependable oracle :=
      fun el hel => hels el (List.mem_reverse.mp hel)
    exact (propagate_all_settles hels').perm elements.reverse_perm cur target w hcalm

theorem propagateState_carries (hdistinct : Distinct elements) :
    Carries oracle (Element.nodesOfList elements) (propagateState oracle elements) := by
  have hels : ∀ el ∈ elements, el.Dependable oracle :=
    fun el hel => el.dependable (hdistinct.of_mem hel)
  have hid : ∀ els, ∃ els', els.Perm els' ∧
      id (Element.membersOfList oracle els) = Element.membersOfList oracle els' :=
    fun els => ⟨els, .refl _, rfl⟩
  intro cur target w hstep hlevel hone
  unfold propagateState
  split
  · refine propagate_all_carries hid ?_ hels hdistinct cur target w hstep hlevel hone
    exact fun _ _ _ => ⟨rfl, rfl⟩
  · have hels' : ∀ el ∈ elements.reverse, el.Dependable oracle :=
      fun el hel => hels el (List.mem_reverse.mp hel)
    refine (propagate_all_carries hid ?_ hels'
      (hdistinct.perm elements.reverse_perm.symm)).perm elements.reverse_perm
      cur target w hstep hlevel hone
    exact fun _ _ _ => ⟨rfl, rfl⟩

/-- While no hook fails, a loop leaves each of its elements in the new state,
whatever state it found the element in. -/
theorem propagate_reaches {undo : List Member → List Member} {old new : State}
    {failed : Member → Result → World → World} {els : List Element} (hdistinct : Distinct els)
    (done : List Member) {w : World} (hcalm : Calm oracle w) :
    ∀ el ∈ els, ((propagate undo old new failed done
      (Element.membersOfList oracle els) w).2.node el.id).state = new := by
  induction els generalizing done w with
  | nil => simp
  | cons el rest ih =>
      have hmove := setState_calm (hdistinct.of_mem (by simp : el ∈ el :: rest)) new hcalm
      have hcalm' := hcalm.mono hmove.frame.calls
      have hrest : ∀ e ∈ rest, e.Dependable oracle :=
        fun e he => e.dependable (hdistinct.tail.of_mem he)
      simp only [Element.membersOfList, propagate, hmove.ok, ne_eq, not_true_eq_false, if_false]
      intro e he
      rcases List.mem_cons.mp he with rfl | he
      · have hframe : Framed (Element.nodesOfList rest) (e.setState oracle new w).2
            (propagate undo old new failed (⟨e.id, e.setState oracle⟩ :: done)
              (Element.membersOfList oracle rest) (e.setState oracle new w).2).2 :=
          (propagate_settles hrest _ hcalm').2
        rw [hframe.node_of_mem hdistinct.apart.symm e.self_mem_nodes]
        exact hmove.state
      · exact ih hdistinct.tail _ hcalm' e he

theorem propagateState_reaches (hdistinct : Distinct elements) {old new : State} {w : World}
    (hcalm : Calm oracle w) :
    ∀ el ∈ elements, ((propagateState oracle elements old new w).2.node el.id).state = new := by
  intro el hel
  unfold propagateState
  split
  · exact propagate_reaches hdistinct [] hcalm el hel
  · exact propagate_reaches (hdistinct.perm elements.reverse_perm.symm) [] hcalm el
      (List.mem_reverse.mpr hel)

/-! ## The recursion over the pipeline's own states -/

theorem setStateLoop_self {fuel : ℕ} {target : State} {p : PipelineState}
    (hstate : p.state = target) :
    setStateLoop oracle elements (fuel + 1) target p = (.ok, p) := by
  simp [setStateLoop, hstate]

/-- Between adjacent states the recursion is one propagation. -/
theorem setStateLoop_adjacent {fuel : ℕ} {cur target : State} {p : PipelineState}
    (hstate : p.state = cur) (hstep : (hookFor cur target).isSome) :
    setStateLoop oracle elements (fuel + 1) target p =
      if (propagateState oracle elements cur target p.world).1 ≠ .ok then
        ((propagateState oracle elements cur target p.world).1,
          ⟨cur, (propagateState oracle elements cur target p.world).2⟩)
      else
        (.ok, ⟨target, (propagateState oracle elements cur target p.world).2.post
          (.stateChanged none cur target)⟩) := by
  cases cur <;> cases target <;> simp [hookFor] at hstep <;>
    simp [setStateLoop, hstate, State.toNat]

/-- A distant change is two changes, and a way back when the second fails. -/
theorem setStateLoop_via {fuel : ℕ} {cur target mid : State} {p : PipelineState}
    (hstate : p.state = cur) (hvia : cur.via target = some mid) :
    setStateLoop oracle elements (fuel + 1) target p =
      let first := setStateLoop oracle elements fuel mid p
      let second := setStateLoop oracle elements fuel target first.2
      if first.1 ≠ .ok then first
      else if second.1 ≠ .ok then
        (second.1, (setStateLoop oracle elements fuel cur second.2).2)
      else second := by
  cases cur <;> cases target <;> simp only [State.via, reduceCtorEq, Option.some.injEq] at hvia <;>
    subst hvia <;> simp [setStateLoop, hstate, State.toNat, State.succ, State.pred]

/-- Every element of the pipeline is in the pipeline's state.  Nothing is said of
the descendants of its bins. -/
def InStep (elements : List Element) (p : PipelineState) : Prop :=
  ∀ el ∈ elements, (p.world.node el.id).state = p.state

/-- While no hook fails, the call succeeds, the pipeline records the target and its
elements stay in step. -/
theorem setStateLoop_calm (hdistinct : Distinct elements) {fuel : ℕ} {target : State}
    {p : PipelineState} (hcalm : Calm oracle p.world) (hpos : 0 < fuel)
    (hup : target.toNat ≤ p.state.toNat + fuel) (hdown : p.state.toNat ≤ target.toNat + fuel) :
    (setStateLoop oracle elements fuel target p).1 = .ok ∧
      (setStateLoop oracle elements fuel target p).2.state = target ∧
      Framed (Element.nodesOfList elements) p.world
        (setStateLoop oracle elements fuel target p).2.world ∧
      (InStep elements p → InStep elements (setStateLoop oracle elements fuel target p).2) := by
  induction fuel generalizing target p with
  | zero => omega
  | succ fuel ih =>
      rcases p.state.cases_of_pair target with hsame | hstep | ⟨mid, hvia, hdist⟩
      · rw [setStateLoop_self hsame]
        exact ⟨rfl, hsame, .refl _ _, fun h => h⟩
      · obtain ⟨hok, hframe⟩ := propagateState_settles hdistinct p.state target p.world hcalm
        rw [setStateLoop_adjacent rfl hstep, if_neg (by simp [hok])]
        exact ⟨rfl, rfl, hframe.post _, fun _ => propagateState_reaches hdistinct hcalm⟩
      · obtain ⟨hok₁, hstate₁, hframe₁, hstep₁⟩ :=
          ih hcalm (by omega) (by omega : mid.toNat ≤ p.state.toNat + fuel) (by omega)
        obtain ⟨hok₂, hstate₂, hframe₂, hstep₂⟩ := ih (hcalm.mono hframe₁.calls) (by omega)
          (by rw [hstate₁]; omega : target.toNat ≤ _) (by rw [hstate₁]; omega)
        rw [setStateLoop_via rfl hvia]
        simp only [hok₁, hok₂, ne_eq, not_true_eq_false, if_false]
        exact ⟨trivial, hstate₂, hframe₁.trans hframe₂, fun h => hstep₂ (hstep₁ h)⟩

/-- All of the pipeline has gone from `s` to `t`, or all of it is back at `s` with
no failure left to happen. -/
structure Outcome (oracle : ℕ → Result) (nodes : List (ℕ × Ops)) (s t : State)
    (p : PipelineState) (out : Result × PipelineState) : Prop where
  frame : Framed nodes p.world out.2.world
  ends : (out.1 = .ok ∧ out.2.state = t ∧ Shifted nodes s t p.world out.2.world) ∨
    (out.1 ≠ .ok ∧ out.2.state = s ∧ Shifted nodes s s p.world out.2.world ∧
      Calm oracle out.2.world)

theorem setStateLoop_outcome (hdistinct : Distinct elements) {fuel : ℕ} {target : State}
    {p : PipelineState} (hlevel : AtLevel (Element.nodesOfList elements) p.state p.world)
    (hone : OneFailure oracle p.world) (hpos : 0 < fuel)
    (hup : target.toNat ≤ p.state.toNat + fuel) (hdown : p.state.toNat ≤ target.toNat + fuel) :
    Outcome oracle (Element.nodesOfList elements) p.state target p
      (setStateLoop oracle elements fuel target p) := by
  induction fuel generalizing target p with
  | zero => omega
  | succ fuel ih =>
      rcases p.state.cases_of_pair target with hsame | hstep | ⟨mid, hvia, hdist⟩
      · rw [setStateLoop_self hsame]
        exact ⟨.refl _ _, .inl ⟨rfl, hsame, hsame ▸ Shifted.refl hlevel⟩⟩
      · obtain ⟨hframe, hout⟩ :=
          propagateState_carries hdistinct p.state target p.world hstep hlevel hone
        rw [setStateLoop_adjacent rfl hstep]
        rcases hout with ⟨hok, hshift⟩ | ⟨hfail, hshift, hcalm⟩
        · rw [if_neg (by simp [hok])]
          exact ⟨hframe.post _, .inl ⟨rfl, rfl, hshift⟩⟩
        · rw [if_pos hfail]
          exact ⟨hframe, .inr ⟨hfail, rfl, hshift, hcalm⟩⟩
      · have hfirst := ih hlevel hone (by omega) (by omega : mid.toNat ≤ p.state.toNat + fuel)
          (by omega)
        rw [setStateLoop_via rfl hvia]
        dsimp only
        generalize setStateLoop oracle elements fuel mid p = first at hfirst ⊢
        obtain ⟨hframe₁, ⟨hok₁, hstate₁, hshift₁⟩ | ⟨hfail₁, hstate₁, hshift₁, hcalm₁⟩⟩ := hfirst
        · have hlevel₁ : AtLevel (Element.nodesOfList elements) first.2.state first.2.world :=
            hstate₁ ▸ hshift₁.atLevel
          have hsecond := ih hlevel₁ (hone.mono hframe₁.calls) (by omega)
            (by rw [hstate₁]; omega : target.toNat ≤ _) (by rw [hstate₁]; omega)
          generalize setStateLoop oracle elements fuel target first.2 = second at hsecond ⊢
          rw [hstate₁] at hsecond
          obtain ⟨hframe₂, ⟨hok₂, hstate₂, hshift₂⟩ | ⟨hfail₂, hstate₂, hshift₂, hcalm₂⟩⟩ :=
            hsecond
          · simp only [hok₁, hok₂, ne_eq, not_true_eq_false, if_false]
            exact ⟨hframe₁.trans hframe₂, .inl ⟨hok₂, hstate₂, hshift₁.trans hshift₂⟩⟩
          · -- The second half is back in the middle, and the way back to the start
            -- meets no failure: the only one has happened.
            simp only [hok₁, hfail₂, ne_eq, not_true_eq_false, not_false_eq_true, if_false,
              if_true]
            have hlevel₂ : AtLevel (Element.nodesOfList elements) second.2.state
                second.2.world := hstate₂ ▸ hshift₂.atLevel
            have hback := ih hlevel₂ hcalm₂.oneFailure (by omega)
              (by rw [hstate₂]; omega : p.state.toNat ≤ _) (by rw [hstate₂]; omega)
            have hcalm : (setStateLoop oracle elements fuel p.state second.2).1 = .ok :=
              (setStateLoop_calm hdistinct hcalm₂ (by omega) (by rw [hstate₂]; omega)
                (by rw [hstate₂]; omega)).1
            rw [hstate₂] at hback
            obtain ⟨hframe₃, ⟨-, hstate₃, hshift₃⟩ | ⟨hfail₃, -⟩⟩ := hback
            · refine ⟨(hframe₁.trans hframe₂).trans hframe₃, .inr ⟨hfail₂, hstate₃, ?_, ?_⟩⟩
              · exact (hshift₁.trans hshift₂).trans hshift₃
              · exact hcalm₂.mono hframe₃.calls
            · exact absurd hcalm hfail₃
        · simp only [hfail₁, ne_eq, not_false_eq_true, if_true]
          exact ⟨hframe₁, .inr ⟨hfail₁, hstate₁, hshift₁, hcalm₁⟩⟩

/-! ## The whole call -/

/-- **A state change is all or nothing.**  Let every element of the pipeline and
every bin descendant stand in the pipeline's state.  When all hooks succeed the
call succeeds and the pipeline and all of them are in the target state.  When at
most one hook call fails, so that the calls made to undo the work succeed, a call
that returns an error leaves the pipeline and all of them in the state they were
in, and the successful hook calls of each of them net to the identity on every
pair of hooks the element provides. -/
theorem setState_atomic (oracle : ℕ → Result) (elements : List Element) (target : State)
    (p : PipelineState) (hdistinct : Distinct elements)
    (hlevel : AtLevel (Element.nodesOfList elements) p.state p.world) :
    let out := setState oracle elements target p
    ((∀ k, oracle k = .ok) →
      out.1 = .ok ∧ out.2.state = target ∧
        AtLevel (Element.nodesOfList elements) target out.2.world) ∧
    ((∀ j k, oracle j ≠ .ok → oracle k ≠ .ok → j = k) → out.1 ≠ .ok →
      out.2.state = p.state ∧
        ∀ n ∈ Element.nodesOfList elements,
          (out.2.world.node n.1).state = (p.world.node n.1).state ∧
          ∃ calls, (out.2.world.node n.1).trace = (p.world.node n.1).trace ++ calls ∧
            ∀ stage : Stage, n.2 stage.up = true → n.2 stage.down = true →
              stage.NetsToIdentity calls) := by
  have hup := target.toNat_le_add_three p.state
  have hdown := p.state.toNat_le_add_three target
  refine ⟨fun hok => ?_, fun hone hfail => ?_⟩
  · have hcalm : Calm oracle p.world := fun k _ => hok k
    obtain ⟨-, hends⟩ :=
      setStateLoop_outcome hdistinct hlevel hcalm.oneFailure (by omega) hup hdown
    obtain ⟨hresult, hstate, -, -⟩ := setStateLoop_calm hdistinct hcalm (by omega) hup hdown
    rcases hends with ⟨-, -, hshift⟩ | ⟨hfail, -⟩
    · exact ⟨hresult, hstate, hshift.atLevel⟩
    · exact absurd hresult hfail
  · have hone' : OneFailure oracle p.world := fun j k _ _ => hone j k
    obtain ⟨-, hends⟩ := setStateLoop_outcome hdistinct hlevel hone' (by omega) hup hdown
    rcases hends with ⟨hok, -⟩ | ⟨-, hstate, hshift, -⟩
    · exact absurd hok hfail
    · refine ⟨hstate, fun n hn => ⟨?_, ?_⟩⟩
      · exact (hshift n hn).1.trans (hlevel n hn).symm
      · obtain ⟨calls, htrace, hwalk⟩ := (hshift n hn).2
        exact ⟨calls, htrace, fun stage => hwalk.netsToIdentity stage⟩

/-- A source and a bin with a nested bin, every hook provided: the fifteenth
hook call, which is the start of the innermost element, fails. -/
theorem setState_atomic_nested :
    let ops : Ops := fun _ => true
    let elements : List Element :=
      [.plain 0 ops, .bin 1 ops [.plain 2 ops, .bin 3 ops [.plain 4 ops]]]
    let oracle : ℕ → Result := fun k => if k = 14 then .error else .ok
    let p : PipelineState := ⟨.null, ⟨fun _ => ⟨.null, []⟩, 0, []⟩⟩
    (setState oracle elements .playing p).1 = .error ∧
      ∀ n ∈ Element.nodesOfList elements,
        ((setState oracle elements .playing p).2.world.node n.1).state = .null := by
  intro ops elements oracle p
  have hlevel : AtLevel (Element.nodesOfList elements) p.state p.world := fun _ _ => rfl
  have hfail : (setState oracle elements .playing p).1 = .error := by decide +kernel
  have hone : ∀ j k, oracle j ≠ .ok → oracle k ≠ .ok → j = k := by
    intro j k hj hk
    by_cases hj' : j = 14 <;> by_cases hk' : k = 14 <;> simp_all [oracle]
  refine ⟨hfail, fun n hn => ?_⟩
  have hatomic := (setState_atomic oracle elements .playing p (by decide +kernel) hlevel).2 hone
    (by rw [hfail]; decide)
  rw [(hatomic.2 n hn).1]

end Pipeline

end Zstreamer

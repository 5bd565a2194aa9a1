/-
# What a state change does to an element tree

Two facts about `zst_element_set_state` carry everything proved about state
changes later.  While no hook fails the call succeeds from any state, whatever
the states of the children are (`setState_calm`).  And when a whole tree stands
in one state and at most one hook call fails, a single step either takes the
whole tree to the next state or leaves the whole tree where it was, with the
calls already made undone one by one (`setState_carries`).

Loops over elements are treated once, for `propagate`, and the order in which a
loop undoes its work does not matter to the result: the nodes of two elements of
a tree are disjoint, so what one call does is framed off from the others.
-/

import Zstreamer.Core.Walk

namespace Zstreamer

open List

variable {oracle : ℕ → Result}

/-! ## Oracles with no failure left, and with at most one -/

/-- No hook call from here on fails. -/
def Calm (oracle : ℕ → Result) (w : World) : Prop :=
  ∀ k, w.calls ≤ k → oracle k = .ok

/-- At most one hook call from here on fails. -/
def OneFailure (oracle : ℕ → Result) (w : World) : Prop :=
  ∀ j k, w.calls ≤ j → w.calls ≤ k → oracle j ≠ .ok → oracle k ≠ .ok → j = k

theorem Calm.mono {w w' : World} (hcalm : Calm oracle w) (hcalls : w.calls ≤ w'.calls) :
    Calm oracle w' :=
  fun k hk => hcalm k (hcalls.trans hk)

theorem OneFailure.mono {w w' : World} (hone : OneFailure oracle w)
    (hcalls : w.calls ≤ w'.calls) : OneFailure oracle w' :=
  fun j k hj hk => hone j k (hcalls.trans hj) (hcalls.trans hk)

theorem Calm.oneFailure {w : World} (hcalm : Calm oracle w) : OneFailure oracle w :=
  fun j _ hj _ hfail => absurd (hcalm j hj) hfail

/-- Once the failing call has been made, no other fails. -/
theorem OneFailure.calm_of_fail {w w' : World} (hone : OneFailure oracle w)
    (hfail : oracle w.calls ≠ .ok) (hcalls : w.calls < w'.calls) : Calm oracle w' := by
  intro k hk
  by_contra hne
  have := hone w.calls k le_rfl (by omega) hfail hne
  omega

/-! ## Moving nodes and framing off the rest -/

/-- Every listed node stands in state `s`. -/
def AtLevel (nodes : List (ℕ × Ops)) (s : State) (w : World) : Prop :=
  ∀ n ∈ nodes, (w.node n.1).state = s

/-- Every listed node has gone from `s` to `t` along a walk. -/
def Shifted (nodes : List (ℕ × Ops)) (s t : State) (w w' : World) : Prop :=
  ∀ n ∈ nodes, (w'.node n.1).state = t ∧ Traced n.2 s t (w.node n.1) (w'.node n.1)

/-- Nothing but the listed nodes has changed, and calls were only added. -/
structure Framed (nodes : List (ℕ × Ops)) (w w' : World) : Prop where
  calls : w.calls ≤ w'.calls
  node : ∀ id, (∀ n ∈ nodes, n.1 ≠ id) → w'.node id = w.node id

/-- No identity occurs in both lists. -/
def Apart (first second : List (ℕ × Ops)) : Prop :=
  ∀ m ∈ first, ∀ n ∈ second, m.1 ≠ n.1

theorem Framed.refl (nodes : List (ℕ × Ops)) (w : World) : Framed nodes w w :=
  ⟨le_rfl, fun _ _ => rfl⟩

theorem Framed.trans {nodes : List (ℕ × Ops)} {w w' w'' : World}
    (hfirst : Framed nodes w w') (hsecond : Framed nodes w' w'') : Framed nodes w w'' :=
  ⟨hfirst.calls.trans hsecond.calls,
    fun id hid => (hsecond.node id hid).trans (hfirst.node id hid)⟩

theorem Framed.post {nodes : List (ℕ × Ops)} {w w' : World} (hframe : Framed nodes w w')
    (event : BusEvent) : Framed nodes w (w'.post event) :=
  ⟨hframe.calls, hframe.node⟩

theorem Framed.mono {small large : List (ℕ × Ops)} {w w' : World}
    (hframe : Framed small w w') (hsub : ∀ n ∈ small, n ∈ large) : Framed large w w' :=
  ⟨hframe.calls, fun id hid => hframe.node id fun n hn => hid n (hsub n hn)⟩

theorem Framed.node_of_mem {nodes others : List (ℕ × Ops)} {w w' : World}
    (hframe : Framed nodes w w') (hapart : Apart nodes others) {n : ℕ × Ops}
    (hn : n ∈ others) : w'.node n.1 = w.node n.1 :=
  hframe.node n.1 fun m hm => hapart m hm n hn

theorem Framed.atLevel {nodes others : List (ℕ × Ops)} {s : State} {w w' : World}
    (hframe : Framed nodes w w') (hapart : Apart nodes others)
    (hlevel : AtLevel others s w) : AtLevel others s w' := by
  intro n hn
  rw [hframe.node_of_mem hapart hn]
  exact hlevel n hn

theorem Shifted.atLevel {nodes : List (ℕ × Ops)} {s t : State} {w w' : World}
    (hshift : Shifted nodes s t w w') : AtLevel nodes t w' :=
  fun n hn => (hshift n hn).1

theorem Shifted.refl {nodes : List (ℕ × Ops)} {s : State} {w : World}
    (hlevel : AtLevel nodes s w) : Shifted nodes s s w w :=
  fun n hn => ⟨hlevel n hn, .of_trace_eq s rfl⟩

theorem Shifted.trans {nodes : List (ℕ × Ops)} {s t u : State} {w w' w'' : World}
    (hfirst : Shifted nodes s t w w') (hsecond : Shifted nodes t u w' w'') :
    Shifted nodes s u w w'' :=
  fun n hn => ⟨(hsecond n hn).1, (hfirst n hn).2.trans (hsecond n hn).2⟩

/-- A call that works elsewhere does not disturb what was moved before it. -/
theorem Shifted.framed_right {nodes others : List (ℕ × Ops)} {s t : State} {w w' w'' : World}
    (hshift : Shifted nodes s t w w') (hframe : Framed others w' w'')
    (hapart : Apart others nodes) : Shifted nodes s t w w'' := by
  intro n hn
  rw [hframe.node_of_mem hapart hn]
  exact hshift n hn

/-- A call that works elsewhere does not disturb what is moved after it. -/
theorem Shifted.framed_left {nodes others : List (ℕ × Ops)} {s t : State} {w w' w'' : World}
    (hframe : Framed others w w') (hshift : Shifted nodes s t w' w'')
    (hapart : Apart others nodes) : Shifted nodes s t w w'' := by
  intro n hn
  rw [← hframe.node_of_mem hapart hn]
  exact hshift n hn

theorem Shifted.append {first second : List (ℕ × Ops)} {s t : State} {w w' : World}
    (hfirst : Shifted first s t w w') (hsecond : Shifted second s t w w') :
    Shifted (first ++ second) s t w w' := by
  intro n hn
  rcases mem_append.mp hn with h | h
  · exact hfirst n h
  · exact hsecond n h

theorem Shifted.subset {small large : List (ℕ × Ops)} {s t : State} {w w' : World}
    (hshift : Shifted large s t w w') (hsub : ∀ n ∈ small, n ∈ large) :
    Shifted small s t w w' :=
  fun n hn => hshift n (hsub n hn)

/-! ## One hook call -/

section Hooks

variable {id : ℕ} {ops : Ops} {cur target : State} {w : World}

/-- A hook call that succeeds extends the element's own trace by its step. -/
theorem callHookFor_ok (hstep : (hookFor cur target).isSome)
    (hok : (callHookFor oracle id ops cur target w).1 = .ok) :
    let w' := (callHookFor oracle id ops cur target w).2
    Framed [(id, ops)] w w' ∧ (w'.node id).state = (w.node id).state ∧
      Traced ops cur target (w.node id) (w'.node id) := by
  obtain ⟨hook, hhook⟩ := Option.isSome_iff_exists.mp hstep
  simp only [callHookFor, hhook, callHook] at hok ⊢
  by_cases hprovided : ops hook
  · simp only [hprovided, if_true] at hok ⊢
    rw [hok]
    refine ⟨⟨by simp, fun other hother => ?_⟩, by simp, [hook], by simp, ?_⟩
    · exact w.recordCall_node_of_ne (hother _ (mem_singleton_self _)).symm _ _
    · exact .call hhook hprovided (.refl _)
  · simp only [hprovided]
    refine ⟨.refl _ _, rfl, [], by simp, ?_⟩
    exact .skip hhook (by simpa using hprovided) (.refl _)

/-- A hook call that fails changes no node and uses up one answer of the oracle. -/
theorem callHookFor_fail (hfail : (callHookFor oracle id ops cur target w).1 ≠ .ok) :
    let w' := (callHookFor oracle id ops cur target w).2
    oracle w.calls ≠ .ok ∧ w'.calls = w.calls + 1 ∧ w'.node = w.node := by
  unfold callHookFor at hfail ⊢
  cases hhook : hookFor cur target with
  | none => simp [hhook] at hfail
  | some hook =>
      simp only [hhook, callHook] at hfail ⊢
      by_cases hprovided : ops hook
      · simp only [hprovided, if_true] at hfail ⊢
        exact ⟨hfail, rfl, w.recordCall_node_of_ne_ok id hook hfail⟩
      · simp [hprovided] at hfail

variable (id ops cur target) in
theorem callHookFor_calm (hcalm : Calm oracle w) :
    (callHookFor oracle id ops cur target w).1 = .ok := by
  by_contra hfail
  exact (callHookFor_fail hfail).1 (hcalm _ le_rfl)

end Hooks

/-! ## The single-step section -/

/-- While no hook fails, `change` succeeds and works on the listed nodes only. -/
def Settles (oracle : ℕ → Result) (nodes : List (ℕ × Ops))
    (change : State → State → World → Result × World) : Prop :=
  ∀ cur target w, Calm oracle w →
    (change cur target w).1 = .ok ∧ Framed nodes w (change cur target w).2

/-- From one level, `change` takes one step with all the listed nodes or with
none of them, as long as at most one hook call fails. -/
def Carries (oracle : ℕ → Result) (nodes : List (ℕ × Ops))
    (change : State → State → World → Result × World) : Prop :=
  ∀ cur target w, (hookFor cur target).isSome → AtLevel nodes cur w → OneFailure oracle w →
    Framed nodes w (change cur target w).2 ∧
      (((change cur target w).1 = .ok ∧ Shifted nodes cur target w (change cur target w).2) ∨
        ((change cur target w).1 ≠ .ok ∧ Shifted nodes cur cur w (change cur target w).2 ∧
          Calm oracle (change cur target w).2))

/-- The element itself has gone from `s` to `t`, and the call said so. -/
structure OwnMove (id : ℕ) (ops : Ops) (nodes : List (ℕ × Ops)) (s t : State) (w : World)
    (out : Result × World) : Prop where
  ok : out.1 = .ok
  frame : Framed nodes w out.2
  state : (out.2.node id).state = t
  traced : Traced ops s t (w.node id) (out.2.node id)

theorem storeState_framed (w : World) (id : ℕ) (ops : Ops) (old new : State) :
    Framed [(id, ops)] w (w.storeState id old new) :=
  ⟨le_rfl, fun _ hother =>
    w.storeState_node_of_ne (hother _ (mem_singleton_self _)).symm old new⟩

section SingleStep

variable {id : ℕ} {ops : Ops} {nodes : List (ℕ × Ops)}
  {bin : Option (State → State → World → Result × World)}

theorem singleStep_calm (hbin : ∀ change, bin = some change → Settles oracle nodes change)
    (hapart : Apart nodes [(id, ops)]) {cur target : State} {w : World}
    (hstep : (hookFor cur target).isSome) (hcalm : Calm oracle w) :
    OwnMove id ops ((id, ops) :: nodes) cur target w
      (singleStep oracle id ops bin cur target w) := by
  have hhook := callHookFor_calm id ops cur target hcalm
  obtain ⟨hframe, -, htraced⟩ := callHookFor_ok hstep hhook
  unfold singleStep
  generalize callHookFor oracle id ops cur target w = out at *
  obtain ⟨ret, w₁⟩ := out
  obtain rfl : ret = .ok := hhook
  have hown : Framed ((id, ops) :: nodes) w w₁ := hframe.mono (by simp)
  cases bin with
  | none =>
      simp only [ne_eq, not_true_eq_false, if_false]
      refine ⟨rfl, hown.trans ((storeState_framed w₁ id ops cur target).mono (by simp)),
        by simp, ?_⟩
      simpa using htraced.trans (.of_trace_eq target (by simp))
  | some change =>
      obtain ⟨hok, hchildren⟩ := hbin change rfl cur target w₁ (hcalm.mono hframe.calls)
      simp only [ne_eq, not_true_eq_false, if_false, hok]
      have hself : (change cur target w₁).2.node id = w₁.node id :=
        hchildren.node_of_mem hapart (mem_singleton_self _)
      refine ⟨rfl, (hown.trans (hchildren.mono (by simp +contextual))).trans
        ((storeState_framed _ id ops cur target).mono (by simp)), by simp, ?_⟩
      refine htraced.trans (.of_trace_eq target ?_)
      rw [World.storeState_node_self, hself]

theorem singleStep_carries
    (hbin : ∀ change, bin = some change → Carries oracle nodes change)
    (hplain : bin = none → nodes = []) (hapart : Apart nodes [(id, ops)]) :
    Carries oracle ((id, ops) :: nodes) (singleStep oracle id ops bin) := by
  intro cur target w hstep hlevel hone
  have hself : (w.node id).state = cur := hlevel (id, ops) (by simp)
  have hback : (hookFor target cur).isSome := by
    revert hstep
    cases cur <;> cases target <;> decide
  have hlift : ∀ {w w' : World}, Framed [(id, ops)] w w' →
      Framed ((id, ops) :: nodes) w w' := fun h => h.mono (by simp)
  have hlift' : ∀ {w w' : World}, Framed nodes w w' →
      Framed ((id, ops) :: nodes) w w' := fun h => h.mono (by simp +contextual)
  have hapart' : Apart [(id, ops)] nodes := fun m hm n hn => (hapart n hn m hm).symm
  have hrest : AtLevel nodes cur w := fun n hn => hlevel n (mem_cons_of_mem _ hn)
  unfold singleStep
  by_cases hhook : (callHookFor oracle id ops cur target w).1 = .ok
  · obtain ⟨hframe, hstate, htraced⟩ := callHookFor_ok hstep hhook
    generalize callHookFor oracle id ops cur target w = out at *
    obtain ⟨ret, w₁⟩ := out
    obtain rfl : ret = .ok := hhook
    simp only [ne_eq, not_true_eq_false, if_false] at hframe hstate htraced ⊢
    cases bin with
    | none =>
        obtain rfl := hplain rfl
        have hstore := storeState_framed w₁ id ops cur target
        refine ⟨hframe.trans hstore, .inl ⟨rfl, ?_⟩⟩
        intro n hn
        obtain rfl := mem_singleton.mp hn
        exact ⟨by simp, htraced.trans (.of_trace_eq target (by simp))⟩
    | some change =>
        have hbelow := hframe.atLevel hapart' hrest
        obtain ⟨hchildren, hout⟩ :=
          hbin change rfl cur target w₁ hstep hbelow (hone.mono hframe.calls)
        have hself₂ : (change cur target w₁).2.node id = w₁.node id :=
          hchildren.node_of_mem hapart (mem_singleton_self _)
        rcases hout with ⟨hok, hshift⟩ | ⟨hfail, hshift, hcalm⟩
        · simp only [hok, not_true_eq_false, if_false]
          have hstore := storeState_framed (change cur target w₁).2 id ops cur target
          refine ⟨((hlift hframe).trans (hlift' hchildren)).trans (hlift hstore),
            .inl ⟨trivial, ?_⟩⟩
          show Shifted ([(id, ops)] ++ nodes) _ _ _ _
          refine Shifted.append ?_
            ((hshift.framed_left hframe hapart').framed_right hstore hapart')
          intro n hn
          obtain rfl := mem_singleton.mp hn
          refine ⟨by simp, htraced.trans (.of_trace_eq target ?_)⟩
          rw [World.storeState_node_self, hself₂]
        · -- A child refused: the children are back, and the hook of the step back
          -- is called with no failure left to happen.
          simp only [hfail, not_false_eq_true, if_true]
          have hundo := callHookFor_calm id ops target cur hcalm
          obtain ⟨hframe', hstate', htraced'⟩ := callHookFor_ok hback hundo
          refine ⟨((hlift hframe).trans (hlift' hchildren)).trans (hlift hframe'),
            .inr ⟨trivial, ?_, hcalm.mono hframe'.calls⟩⟩
          show Shifted ([(id, ops)] ++ nodes) _ _ _ _
          refine Shifted.append ?_
            ((hshift.framed_left hframe hapart').framed_right hframe' hapart')
          intro n hn
          obtain rfl := mem_singleton.mp hn
          rw [hself₂] at hstate' htraced'
          exact ⟨by rw [hstate', hstate, hself], htraced.trans htraced'⟩
  · obtain ⟨hfail, hcalls, hnode⟩ := callHookFor_fail hhook
    simp only [ne_eq, hhook, not_false_eq_true, if_true]
    refine ⟨⟨by omega, fun other _ => by rw [hnode]⟩, .inr ⟨trivial, ?_, ?_⟩⟩
    · intro n hn
      rw [hnode]
      exact ⟨hlevel n hn, .of_trace_eq cur rfl⟩
    · exact hone.calm_of_fail hfail (by omega)

end SingleStep

/-! ## The recursion through the states in between -/

/-- The state a distant change goes through first. -/
def State.via : State → State → Option State
  | .null, .paused => some .ready
  | .null, .playing => some .ready
  | .ready, .playing => some .paused
  | .playing, .ready => some .paused
  | .playing, .null => some .paused
  | .paused, .null => some .ready
  | _, _ => none

/-- Two states are equal, adjacent, or distant with a state in between that is one
step from the first and no further than before from the second. -/
theorem State.cases_of_pair (cur target : State) :
    cur = target ∨ (hookFor cur target).isSome ∨
      ∃ mid, cur.via target = some mid ∧
        (mid.toNat = cur.toNat + 1 ∧ cur.toNat + 2 ≤ target.toNat ∨
          cur.toNat = mid.toNat + 1 ∧ target.toNat + 2 ≤ cur.toNat) := by
  cases cur <;> cases target <;> decide

section Ladder

variable {id : ℕ} {single : State → State → World → Result × World} {fuel : ℕ}
  {cur target : State} {w : World}

theorem ladder_self (hcur : (w.node id).state = target) :
    ladder id single (fuel + 1) target w = (.ok, w) := by
  simp [ladder, hcur]

/-- Between adjacent states the recursion does nothing but the single step. -/
theorem ladder_adjacent (hcur : (w.node id).state = cur)
    (hstep : (hookFor cur target).isSome) :
    ladder id single (fuel + 1) target w = single cur target w := by
  cases cur <;> cases target <;> simp [hookFor] at hstep <;> simp [ladder, hcur, State.toNat]

/-- A distant change is two changes, and the first is taken back when the second
fails on the way up. -/
theorem ladder_distant (hcur : (w.node id).state = cur) {mid : State}
    (hvia : cur.via target = some mid) :
    ladder id single (fuel + 1) target w =
      let (r₁, w₁) := ladder id single fuel mid w
      if r₁ ≠ .ok then (r₁, w₁)
      else
        let (r₂, w₂) := ladder id single fuel target w₁
        if r₂ ≠ .ok ∧ cur.toNat < target.toNat then (r₂, (ladder id single fuel cur w₂).2)
        else (r₂, w₂) := by
  cases cur <;> cases target <;> simp only [State.via, reduceCtorEq, Option.some.injEq] at hvia <;>
    subst hvia <;> simp [ladder, hcur, State.toNat]

/-- When both halves of a distant change succeed, the change is its two halves. -/
theorem ladder_via (hcur : (w.node id).state = cur) {mid : State}
    (hvia : cur.via target = some mid)
    (hfirst : (ladder id single fuel mid w).1 = .ok)
    (hsecond : (ladder id single fuel target (ladder id single fuel mid w).2).1 = .ok) :
    ladder id single (fuel + 1) target w =
      ladder id single fuel target (ladder id single fuel mid w).2 := by
  rw [ladder_distant hcur hvia]
  simp only [hfirst, hsecond, ne_eq, not_true_eq_false, false_and, if_false]
  exact Prod.ext hsecond.symm rfl

/-- While no hook fails, the recursion reaches any state within its depth. -/
theorem ladder_calm {ops : Ops} {nodes : List (ℕ × Ops)}
    (hsingle : ∀ cur target w, (hookFor cur target).isSome → Calm oracle w →
      OwnMove id ops nodes cur target w (single cur target w))
    (hcalm : Calm oracle w) (hpos : 0 < fuel)
    (hup : target.toNat ≤ (w.node id).state.toNat + fuel)
    (hdown : (w.node id).state.toNat ≤ target.toNat + fuel) :
    OwnMove id ops nodes (w.node id).state target w (ladder id single fuel target w) := by
  induction fuel generalizing target w with
  | zero => omega
  | succ fuel ih =>
      generalize hcur : (w.node id).state = cur at hup hdown
      rcases cur.cases_of_pair target with rfl | hstep | ⟨mid, hvia, hdist⟩
      · rw [ladder_self hcur]
        exact ⟨rfl, .refl _ _, hcur, .of_trace_eq _ rfl⟩
      · rw [ladder_adjacent hcur hstep]
        exact hsingle cur target w hstep hcalm
      · have hfirst : OwnMove id ops nodes (w.node id).state mid w
            (ladder id single fuel mid w) :=
          ih hcalm (by omega) (by rw [hcur]; omega) (by rw [hcur]; omega)
        rw [hcur] at hfirst
        have hsecond : OwnMove id ops nodes ((ladder id single fuel mid w).2.node id).state
            target (ladder id single fuel mid w).2
            (ladder id single fuel target (ladder id single fuel mid w).2) :=
          ih (hcalm.mono hfirst.frame.calls) (by omega) (by rw [hfirst.state]; omega)
            (by rw [hfirst.state]; omega)
        rw [hfirst.state] at hsecond
        rw [ladder_via hcur hvia hfirst.ok hsecond.ok]
        exact ⟨hsecond.ok, hfirst.frame.trans hsecond.frame, hsecond.state,
          hfirst.traced.trans hsecond.traced⟩

end Ladder

/-! ## Loops over elements -/

/-- No identity occurs twice among the nodes of the elements. -/
def Distinct (els : List Element) : Prop :=
  ((Element.nodesOfList els).map Prod.fst).Nodup

instance (els : List Element) : Decidable (Distinct els) :=
  inferInstanceAs (Decidable (List.Nodup _))

theorem Distinct.perm {els els' : List Element} (hdistinct : Distinct els)
    (hperm : els.Perm els') : Distinct els' := by
  unfold Distinct at *
  rw [Element.nodesOfList_eq] at *
  exact ((hperm.flatMap_right _).map _).nodup_iff.mp hdistinct

theorem Distinct.apart {el : Element} {els : List Element} (hdistinct : Distinct (el :: els)) :
    Apart el.nodes (Element.nodesOfList els) := by
  intro m hm n hn heq
  rw [Distinct, Element.nodesOfList, map_append, nodup_append] at hdistinct
  exact hdistinct.2.2 m.1 (mem_map_of_mem hm) n.1 (mem_map_of_mem hn) heq

theorem Distinct.tail {el : Element} {els : List Element} (hdistinct : Distinct (el :: els)) :
    Distinct els := by
  rw [Distinct, Element.nodesOfList, map_append, nodup_append] at hdistinct
  exact hdistinct.2.1

/-- The two halves of a list of distinct elements are distinct, and apart. -/
theorem Distinct.append {first second : List Element}
    (hdistinct : Distinct (first ++ second)) :
    Distinct first ∧ Apart (Element.nodesOfList first) (Element.nodesOfList second) := by
  rw [Distinct, Element.nodesOfList_eq, flatMap_append, ← Element.nodesOfList_eq,
    ← Element.nodesOfList_eq, map_append, nodup_append] at hdistinct
  refine ⟨hdistinct.1, fun m hm n hn heq => ?_⟩
  exact hdistinct.2.2 m.1 (mem_map_of_mem hm) n.1 (mem_map_of_mem hn) heq

theorem Apart.symm {first second : List (ℕ × Ops)} (hapart : Apart first second) :
    Apart second first :=
  fun m hm n hn => (hapart n hn m hm).symm

theorem mem_nodesOfList_of_perm {els els' : List Element} (hperm : els.Perm els')
    {n : ℕ × Ops} (hn : n ∈ Element.nodesOfList els) : n ∈ Element.nodesOfList els' := by
  rw [Element.nodesOfList_eq] at hn ⊢
  exact (hperm.flatMap_right _).mem_iff.mp hn

theorem AtLevel.perm {els els' : List Element} {s : State} {w : World}
    (hlevel : AtLevel (Element.nodesOfList els) s w) (hperm : els.Perm els') :
    AtLevel (Element.nodesOfList els') s w :=
  fun n hn => hlevel n (mem_nodesOfList_of_perm hperm.symm hn)

/-- The two facts about one element that a loop over elements relies on. -/
structure Element.Dependable (oracle : ℕ → Result) (el : Element) : Prop where
  settles : Settles oracle el.nodes fun _ => el.setState oracle
  carries : Carries oracle el.nodes fun _ => el.setState oracle

/-- From one level and with no failure left, a dependable element takes the step. -/
theorem Element.Dependable.calm {el : Element} (hel : el.Dependable oracle)
    {cur target : State} {w : World} (hstep : (hookFor cur target).isSome)
    (hlevel : AtLevel el.nodes cur w) (hcalm : Calm oracle w) :
    Framed el.nodes w (el.setState oracle target w).2 ∧
      Shifted el.nodes cur target w (el.setState oracle target w).2 := by
  have hok := (hel.settles cur target w hcalm).1
  obtain ⟨hframe, ⟨-, hshift⟩ | ⟨hfail, -, -⟩⟩ :=
    hel.carries cur target w hstep hlevel hcalm.oneFailure
  · exact ⟨hframe, hshift⟩
  · exact absurd hok hfail

theorem propagate_settles {undo : List Member → List Member} {old new : State}
    {failed : Member → Result → World → World} {els : List Element}
    (hels : ∀ el ∈ els, el.Dependable oracle) (done : List Member) {w : World}
    (hcalm : Calm oracle w) :
    (propagate undo old new failed done (Element.membersOfList oracle els) w).1 = .ok ∧
      Framed (Element.nodesOfList els) w
        (propagate undo old new failed done (Element.membersOfList oracle els) w).2 := by
  induction els generalizing done w with
  | nil => exact ⟨rfl, .refl _ _⟩
  | cons el rest ih =>
      obtain ⟨hok, hframe⟩ := (hels el (by simp)).settles old new w hcalm
      obtain ⟨hok', hframe'⟩ := ih (fun e he => hels e (by simp [he]))
        (⟨el.id, el.setState oracle⟩ :: done) (hcalm.mono hframe.calls)
      simp only [Element.membersOfList, Element.nodesOfList, propagate, hok, ne_eq,
        not_true_eq_false, if_false]
      exact ⟨hok', (hframe.mono (by simp +contextual)).trans
        (hframe'.mono (by simp +contextual))⟩

/-- Sending a list of elements back, with no failure left to happen. -/
theorem undo_shifted {old new : State} (hstep : (hookFor new old).isSome) {els : List Element}
    (hels : ∀ el ∈ els, el.Dependable oracle) (hdistinct : Distinct els) {w : World}
    (hlevel : AtLevel (Element.nodesOfList els) new w) (hcalm : Calm oracle w) :
    let w' := (Element.membersOfList oracle els).foldl
      (fun w moved => (moved.setState old w).2) w
    Framed (Element.nodesOfList els) w w' ∧
      Shifted (Element.nodesOfList els) new old w w' := by
  induction els generalizing w with
  | nil =>
      refine ⟨.refl _ _, ?_⟩
      intro n hn
      cases hn
  | cons el rest ih =>
      have hapart := hdistinct.apart
      have hhere : AtLevel el.nodes new w := fun n hn => hlevel n (by simp [Element.nodesOfList, hn])
      have hthere : AtLevel (Element.nodesOfList rest) new w :=
        fun n hn => hlevel n (by simp [Element.nodesOfList, hn])
      obtain ⟨hframe, hshift⟩ := (hels el (by simp)).calm hstep hhere hcalm
      obtain ⟨hframe', hshift'⟩ := ih (fun e he => hels e (by simp [he])) hdistinct.tail
        (hframe.atLevel hapart hthere) (hcalm.mono hframe.calls)
      simp only [Element.membersOfList, Element.nodesOfList, foldl_cons]
      refine ⟨(hframe.mono (by simp +contextual)).trans (hframe'.mono (by simp +contextual)), ?_⟩
      exact (hshift.framed_right hframe' hapart.symm).append (hshift'.framed_left hframe hapart)

/-- **The loop.**  With the elements of `done` moved and those of `todo` still to
move, the loop ends with all of them moved or with all of them back. -/
theorem propagate_carries {undo : List Member → List Member}
    (hundo : ∀ els, ∃ els', els.Perm els' ∧
      undo (Element.membersOfList oracle els) = Element.membersOfList oracle els')
    {old new : State} (hstep : (hookFor old new).isSome)
    {failed : Member → Result → World → World}
    (hfailed : ∀ m r w, (failed m r w).node = w.node ∧ (failed m r w).calls = w.calls)
    {done todo : List Element} (hels : ∀ el ∈ done ++ todo, el.Dependable oracle)
    (hdistinct : Distinct (done ++ todo)) {w₀ w : World}
    (hframe : Framed (Element.nodesOfList done) w₀ w)
    (hdone : Shifted (Element.nodesOfList done) old new w₀ w)
    (htodo : AtLevel (Element.nodesOfList todo) old w₀) (hone : OneFailure oracle w) :
    let out := propagate undo old new failed (Element.membersOfList oracle done)
      (Element.membersOfList oracle todo) w
    Framed (Element.nodesOfList (done ++ todo)) w₀ out.2 ∧
      ((out.1 = .ok ∧ Shifted (Element.nodesOfList (done ++ todo)) old new w₀ out.2) ∨
        (out.1 ≠ .ok ∧ Shifted (Element.nodesOfList (done ++ todo)) old old w₀ out.2 ∧
          Calm oracle out.2)) := by
  induction todo generalizing done w with
  | nil =>
      simp only [append_nil, Element.membersOfList, propagate]
      exact ⟨hframe, .inl ⟨trivial, hdone⟩⟩
  | cons el rest ih =>
      have hperm : (el :: done ++ rest).Perm (done ++ el :: rest) := perm_middle.symm
      have hdistinct' : Distinct ((el :: done) ++ rest) := hdistinct.perm hperm.symm
      have hsplit : ∀ n, n ∈ Element.nodesOfList (done ++ rest) ↔
          n ∈ Element.nodesOfList done ∨ n ∈ Element.nodesOfList rest := by
        simp [Element.nodesOfList_eq]
      have hapartDone : Apart el.nodes (Element.nodesOfList done) :=
        fun m hm n hn => Distinct.apart hdistinct' m hm n ((hsplit n).mpr (.inl hn))
      have hapartRest : Apart el.nodes (Element.nodesOfList rest) :=
        fun m hm n hn => Distinct.apart hdistinct' m hm n ((hsplit n).mpr (.inr hn))
      have hhere : AtLevel el.nodes old w₀ :=
        fun n hn => htodo n (by simp [Element.nodesOfList, hn])
      have hthere : AtLevel (Element.nodesOfList rest) old w₀ :=
        fun n hn => htodo n (by simp [Element.nodesOfList, hn])
      obtain ⟨hframe₁, hout⟩ := (hels el (by simp)).carries old new w hstep
        (hframe.atLevel hapartDone.symm hhere) hone
      simp only [Element.membersOfList, propagate]
      rcases hout with ⟨hok, hshift⟩ | ⟨hfail, hshift, hcalm⟩
      · simp only [hok, ne_eq, not_true_eq_false, if_false]
        have hmoved : Shifted (Element.nodesOfList (el :: done)) old new w₀
            (el.setState oracle new w).2 :=
          (hshift.framed_left hframe hapartDone.symm).append (hdone.framed_right hframe₁ hapartDone)
        have hframed : Framed (Element.nodesOfList (el :: done)) w₀
            (el.setState oracle new w).2 :=
          (hframe.mono (by simp +contextual [Element.nodesOfList])).trans
            (hframe₁.mono (by simp +contextual [Element.nodesOfList]))
        obtain ⟨hframe₂, hrest⟩ := ih (fun e he => hels e (hperm.mem_iff.mp he)) hdistinct'
          hframed hmoved hthere (hone.mono hframe₁.calls)
        have hsub : ∀ n, n ∈ Element.nodesOfList (done ++ el :: rest) →
            n ∈ Element.nodesOfList (el :: done ++ rest) :=
          fun n => mem_nodesOfList_of_perm hperm.symm
        refine ⟨hframe₂.mono fun n => mem_nodesOfList_of_perm hperm, ?_⟩
        rcases hrest with ⟨hok', hshift'⟩ | ⟨hfail', hshift', hcalm'⟩
        · exact .inl ⟨hok', hshift'.subset hsub⟩
        · exact .inr ⟨hfail', hshift'.subset hsub, hcalm'⟩
      · -- The refusing element is back by itself; the loop sends `done` back.
        simp only [hfail, ne_eq, not_false_eq_true, if_true]
        obtain ⟨done', hperm', hundone⟩ := hundo done
        have hback : (hookFor new old).isSome := by
          revert hstep
          cases old <;> cases new <;> decide
        obtain ⟨hdistinctDone, hapartSplit⟩ := (Distinct.tail hdistinct').append
        have hmoved : Shifted (Element.nodesOfList done) old new w₀ (el.setState oracle new w).2 :=
          hdone.framed_right hframe₁ hapartDone
        obtain ⟨hframe₂, hshift₂⟩ := undo_shifted hback
          (fun e he => hels e (mem_append_left _ (hperm'.mem_iff.mpr he)))
          (hdistinctDone.perm hperm') (hmoved.atLevel.perm hperm') hcalm
        rw [← hundone] at hframe₂ hshift₂
        generalize (undo (Element.membersOfList oracle done)).foldl
          (fun w moved => (moved.setState old w).2) (el.setState oracle new w).2 = w₂ at *
        replace hframe₂ : Framed (Element.nodesOfList done) (el.setState oracle new w).2 w₂ :=
          hframe₂.mono fun n => mem_nodesOfList_of_perm hperm'.symm
        replace hshift₂ : Shifted (Element.nodesOfList done) new old
            (el.setState oracle new w).2 w₂ :=
          hshift₂.subset fun n => mem_nodesOfList_of_perm hperm'
        obtain ⟨hnode, hcalls⟩ := hfailed ⟨el.id, el.setState oracle⟩
          (el.setState oracle new w).1 w₂
        have hall : ∀ n, n ∈ Element.nodesOfList (done ++ el :: rest) ↔
            n ∈ Element.nodesOfList done ∨ n ∈ el.nodes ∨ n ∈ Element.nodesOfList rest := by
          simp [Element.nodesOfList_eq]
        refine ⟨?_, .inr ⟨trivial, ?_, ?_⟩⟩
        · refine ⟨?_, fun id hid => ?_⟩
          · rw [hcalls]
            exact (hframe.calls.trans hframe₁.calls).trans hframe₂.calls
          · rw [hnode, hframe₂.node id fun n hn => hid n ((hall n).mpr (.inl hn)),
              hframe₁.node id fun n hn => hid n ((hall n).mpr (.inr (.inl hn))),
              hframe.node id fun n hn => hid n ((hall n).mpr (.inl hn))]
        · have hdoneBack : Shifted (Element.nodesOfList done) old old w₀ w₂ :=
            hmoved.trans hshift₂
          have helBack : Shifted el.nodes old old w₀ w₂ :=
            (hshift.framed_left hframe hapartDone.symm).framed_right hframe₂ hapartDone.symm
          have hrestBack : Shifted (Element.nodesOfList rest) old old w₀ w₂ :=
            (((Shifted.refl hthere).framed_right hframe hapartSplit).framed_right hframe₁
              hapartRest).framed_right hframe₂ hapartSplit
          intro n hn
          rw [hnode]
          rcases (hall n).mp hn with h | h | h
          · exact hdoneBack n h
          · exact helBack n h
          · exact hrestBack n h
        · exact hcalm.mono (by rw [hcalls]; exact hframe₂.calls)

/-- The whole loop, from its first element: it settles. -/
theorem propagate_all_settles {undo : List Member → List Member}
    {failed : Member → Result → World → World} {els : List Element}
    (hels : ∀ el ∈ els, el.Dependable oracle) :
    Settles oracle (Element.nodesOfList els) fun old new =>
      propagate undo old new failed [] (Element.membersOfList oracle els) :=
  fun _ _ _ hcalm => propagate_settles hels [] hcalm

/-- The whole loop, from its first element: it moves all the elements or none. -/
theorem propagate_all_carries {undo : List Member → List Member}
    (hundo : ∀ els, ∃ els', els.Perm els' ∧
      undo (Element.membersOfList oracle els) = Element.membersOfList oracle els')
    {failed : Member → Result → World → World}
    (hfailed : ∀ m r w, (failed m r w).node = w.node ∧ (failed m r w).calls = w.calls)
    {els : List Element} (hels : ∀ el ∈ els, el.Dependable oracle) (hdistinct : Distinct els) :
    Carries oracle (Element.nodesOfList els) fun old new =>
      propagate undo old new failed [] (Element.membersOfList oracle els) := by
  intro cur target w hstep hlevel hone
  have hnone : Shifted (Element.nodesOfList []) cur target w w := by
    intro n hn
    cases hn
  have hels' : ∀ el ∈ [] ++ els, el.Dependable oracle := hels
  exact propagate_carries hundo hstep hfailed hels' hdistinct (Framed.refl [] w) hnone hlevel hone

theorem Settles.perm {els els' : List Element} {change : State → State → World → Result × World}
    (hsettles : Settles oracle (Element.nodesOfList els) change) (hperm : els.Perm els') :
    Settles oracle (Element.nodesOfList els') change := by
  intro cur target w hcalm
  obtain ⟨hok, hframe⟩ := hsettles cur target w hcalm
  exact ⟨hok, hframe.mono fun n => mem_nodesOfList_of_perm hperm⟩

theorem Carries.perm {els els' : List Element} {change : State → State → World → Result × World}
    (hcarries : Carries oracle (Element.nodesOfList els) change) (hperm : els.Perm els') :
    Carries oracle (Element.nodesOfList els') change := by
  intro cur target w hstep hlevel hone
  have hsub : ∀ n, n ∈ Element.nodesOfList els' → n ∈ Element.nodesOfList els :=
    fun n => mem_nodesOfList_of_perm hperm.symm
  obtain ⟨hframe, hout⟩ := hcarries cur target w hstep (hlevel.perm hperm.symm) hone
  refine ⟨hframe.mono fun n => mem_nodesOfList_of_perm hperm, ?_⟩
  rcases hout with ⟨hok, hshift⟩ | ⟨hfail, hshift, hcalm⟩
  · exact .inl ⟨hok, hshift.subset hsub⟩
  · exact .inr ⟨hfail, hshift.subset hsub, hcalm⟩

/-! ## Elements -/

theorem membersOfList_reverse (els : List Element) :
    (Element.membersOfList oracle els).reverse = Element.membersOfList oracle els.reverse := by
  simp [Element.membersOfList_eq]

theorem binChangeState_settles {children : List Element}
    (hchildren : ∀ el ∈ children, el.Dependable oracle) :
    Settles oracle (Element.nodesOfList children)
      (binChangeState (Element.membersOfList oracle children)) :=
  propagate_all_settles hchildren

theorem binChangeState_carries {children : List Element}
    (hchildren : ∀ el ∈ children, el.Dependable oracle) (hdistinct : Distinct children) :
    Carries oracle (Element.nodesOfList children)
      (binChangeState (Element.membersOfList oracle children)) := by
  refine propagate_all_carries ?_ ?_ hchildren hdistinct
  · exact fun els => ⟨els.reverse, els.reverse_perm.symm, membersOfList_reverse els⟩
  · exact fun _ _ _ => ⟨rfl, rfl⟩

/-- The element's own identity is not that of one of its descendants. -/
theorem Distinct.apart_children {id : ℕ} {ops : Ops} {children : List Element}
    (hdistinct : Distinct [.bin id ops children]) :
    Apart (Element.nodesOfList children) [(id, ops)] ∧ Distinct children := by
  simp only [Distinct, Element.nodesOfList, Element.nodes, append_nil, map_cons,
    nodup_cons] at hdistinct
  refine ⟨fun m hm n hn heq => hdistinct.1 ?_, hdistinct.2⟩
  have hid : m.1 = id := by rw [heq, mem_singleton.mp hn]
  exact hid ▸ mem_map_of_mem hm

theorem Distinct.of_mem {els : List Element} (hdistinct : Distinct els) {el : Element}
    (hel : el ∈ els) : Distinct [el] := by
  obtain ⟨before, after, rfl⟩ := append_of_mem hel
  have hperm : (before ++ el :: after).Perm ([el] ++ (before ++ after)) := perm_middle
  exact (hdistinct.perm hperm).append.1

theorem State.toNat_le_add_three (s t : State) : s.toNat ≤ t.toNat + 3 := by
  cases s <;> cases t <;> decide

/-- While no hook fails, an element with dependable children reaches any state. -/
theorem setState_calm_of_children {el : Element} (hdistinct : Distinct [el])
    (hchildren : ∀ id ops children, el = .bin id ops children →
      ∀ child ∈ children, child.Dependable oracle)
    (target : State) {w : World} (hcalm : Calm oracle w) :
    OwnMove el.id el.ops el.nodes (w.node el.id).state target w
      (el.setState oracle target w) := by
  have hup := target.toNat_le_add_three (w.node el.id).state
  have hdown := (w.node el.id).state.toNat_le_add_three target
  cases el with
  | plain id ops =>
      refine ladder_calm (fun cur target w hstep hcalm => ?_) hcalm (by omega) hup hdown
      exact singleStep_calm (by simp) (fun m hm => by cases hm) hstep hcalm
  | bin id ops children =>
      refine ladder_calm (fun cur target w hstep hcalm => ?_) hcalm (by omega) hup hdown
      refine singleStep_calm (fun change hchange => ?_) hdistinct.apart_children.1 hstep hcalm
      cases hchange
      exact binChangeState_settles (hchildren id ops children rfl)

/-- Every element of a tree without repeated identities is dependable. -/
theorem Element.dependable (el : Element) (hdistinct : Distinct [el]) :
    el.Dependable oracle := by
  induction el using Element.induct with
  | hplain id ops =>
      refine ⟨fun cur target w hcalm => ?_, fun cur target w hstep hlevel hone => ?_⟩
      · have hmove := setState_calm_of_children hdistinct (by simp) target hcalm
        exact ⟨hmove.ok, hmove.frame⟩
      · have hcur : (w.node id).state = cur := hlevel (id, ops) (by simp [Element.nodes])
        simp only [Element.setState, Element.nodes, ladder_adjacent hcur hstep] at hlevel ⊢
        exact singleStep_carries (by simp) (fun _ => rfl) (fun m hm => by cases hm)
          cur target w hstep hlevel hone
  | hbin id ops children ih =>
      obtain ⟨hapart, hdistinct'⟩ := hdistinct.apart_children
      have hchildren : ∀ child ∈ children, child.Dependable oracle :=
        fun child hchild => ih child hchild (hdistinct'.of_mem hchild)
      refine ⟨fun cur target w hcalm => ?_, fun cur target w hstep hlevel hone => ?_⟩
      · have hmove := setState_calm_of_children hdistinct
          (by rintro _ _ _ ⟨⟩; exact hchildren) target hcalm
        exact ⟨hmove.ok, hmove.frame⟩
      · have hcur : (w.node id).state = cur := hlevel (id, ops) (by simp [Element.nodes])
        simp only [Element.setState, Element.nodes, ladder_adjacent hcur hstep] at hlevel ⊢
        refine singleStep_carries (fun change hchange => ?_) (by simp) hapart
          cur target w hstep hlevel hone
        cases hchange
        exact binChangeState_carries hchildren hdistinct'

/-- **No hook fails.**  The call succeeds from any state of the element and of its
descendants, and the element's own hooks trace the way to the target. -/
theorem setState_calm {el : Element} (hdistinct : Distinct [el]) (target : State) {w : World}
    (hcalm : Calm oracle w) :
    OwnMove el.id el.ops el.nodes (w.node el.id).state target w
      (el.setState oracle target w) := by
  refine setState_calm_of_children hdistinct ?_ target hcalm
  rintro id ops children rfl child hchild
  exact child.dependable (hdistinct.apart_children.2.of_mem hchild)

/-! ## Whatever the hooks answer

Nothing is assumed here about the oracle or about the states of a bin's
descendants.  A call still stays within its own nodes, and it fails only when a
hook has failed. -/

/-- A hook call made between the two worlds has failed. -/
def HookFailed (oracle : ℕ → Result) (w w' : World) : Prop :=
  ∃ k, w.calls ≤ k ∧ k < w'.calls ∧ oracle k ≠ .ok

theorem HookFailed.extend {w₀ w₁ w₂ w₃ : World} (hfailed : HookFailed oracle w₁ w₂)
    (hbefore : w₀.calls ≤ w₁.calls) (hafter : w₂.calls ≤ w₃.calls) : HookFailed oracle w₀ w₃ := by
  obtain ⟨k, hle, hlt, hk⟩ := hfailed
  exact ⟨k, hbefore.trans hle, hlt.trans_le hafter, hk⟩

theorem OneFailure.calm_of_failed {w w' : World} (hone : OneFailure oracle w)
    (hfailed : HookFailed oracle w w') : Calm oracle w' := by
  obtain ⟨j, hle, hlt, hj⟩ := hfailed
  intro k hk
  by_contra hne
  have := hone j k hle (by omega) hj hne
  omega

/-- `change` works on the listed nodes only, and reports only failures of hooks. -/
def Honest (oracle : ℕ → Result) (nodes : List (ℕ × Ops))
    (change : State → State → World → Result × World) : Prop :=
  ∀ cur target w, Framed nodes w (change cur target w).2 ∧
    ((change cur target w).1 ≠ .ok → HookFailed oracle w (change cur target w).2)

/-- What one call does to the element itself: it reaches the target, or fails. -/
structure OwnOutcome (oracle : ℕ → Result) (id : ℕ) (nodes : List (ℕ × Ops)) (target : State)
    (w : World) (out : Result × World) : Prop where
  frame : Framed nodes w out.2
  state : out.1 = .ok → (out.2.node id).state = target
  failed : out.1 ≠ .ok → HookFailed oracle w out.2

variable (oracle) in
theorem callHookFor_honest (id : ℕ) (ops : Ops) :
    Honest oracle [(id, ops)] (callHookFor oracle id ops) := by
  intro cur target w
  by_cases hok : (callHookFor oracle id ops cur target w).1 = .ok
  · refine ⟨?_, fun hfail => absurd hok hfail⟩
    cases hhook : hookFor cur target with
    | none => simpa [callHookFor, hhook] using Framed.refl [(id, ops)] w
    | some hook => exact (callHookFor_ok (by simp [hhook]) hok).1
  · obtain ⟨hfail, hcalls, hnode⟩ := callHookFor_fail hok
    refine ⟨⟨by omega, fun other _ => by rw [hnode]⟩, fun _ => ⟨w.calls, le_rfl, ?_, hfail⟩⟩
    omega

variable (oracle) in
theorem callHookFor_state (id : ℕ) (ops : Ops) (cur target : State) (w : World) :
    ((callHookFor oracle id ops cur target w).2.node id).state = (w.node id).state := by
  by_cases hok : (callHookFor oracle id ops cur target w).1 = .ok
  · cases hhook : hookFor cur target with
    | none => simp [callHookFor, hhook]
    | some hook => exact (callHookFor_ok (by simp [hhook]) hok).2.1
  · rw [(callHookFor_fail hok).2.2]

theorem singleStep_honest {id : ℕ} {ops : Ops} {nodes : List (ℕ × Ops)}
    {bin : Option (State → State → World → Result × World)}
    (hbin : ∀ change, bin = some change → Honest oracle nodes change)
    (hapart : Apart nodes [(id, ops)]) (cur target : State) (w : World) :
    OwnOutcome oracle id ((id, ops) :: nodes) target w
        (singleStep oracle id ops bin cur target w) ∧
      ((singleStep oracle id ops bin cur target w).1 ≠ .ok →
        ((singleStep oracle id ops bin cur target w).2.node id).state = (w.node id).state) := by
  have hlift : ∀ {w w' : World}, Framed [(id, ops)] w w' →
      Framed ((id, ops) :: nodes) w w' := fun h => h.mono (by simp)
  have hlift' : ∀ {w w' : World}, Framed nodes w w' →
      Framed ((id, ops) :: nodes) w w' := fun h => h.mono (by simp +contextual)
  obtain ⟨hframe, hfailed⟩ := callHookFor_honest oracle id ops cur target w
  have hstate := callHookFor_state oracle id ops cur target w
  unfold singleStep
  generalize callHookFor oracle id ops cur target w = out at *
  obtain ⟨ret, w₁⟩ := out
  by_cases hret : ret = .ok
  · subst hret
    simp only [ne_eq, not_true_eq_false, if_false]
    cases bin with
    | none =>
        exact ⟨⟨(hlift hframe).trans (hlift (storeState_framed w₁ id ops cur target)),
          fun _ => by simp, fun hne => absurd rfl hne⟩, fun hne => absurd rfl hne⟩
    | some change =>
        obtain ⟨hframe₂, hfailed₂⟩ := hbin change rfl cur target w₁
        have hself : (change cur target w₁).2.node id = w₁.node id :=
          hframe₂.node_of_mem hapart (mem_singleton_self _)
        by_cases hok : (change cur target w₁).1 = .ok
        · simp only [hok, not_true_eq_false, if_false]
          exact ⟨⟨((hlift hframe).trans (hlift' hframe₂)).trans
              (hlift (storeState_framed _ id ops cur target)), fun _ => by simp, by simp⟩, by simp⟩
        · simp only [hok, not_false_eq_true, if_true]
          have hback := (callHookFor_honest oracle id ops target cur
            (change cur target w₁).2).1
          refine ⟨⟨((hlift hframe).trans (hlift' hframe₂)).trans (hlift hback),
            fun h => absurd h hok, fun _ => ?_⟩, fun _ => ?_⟩
          · exact (hfailed₂ hok).extend hframe.calls hback.calls
          · rw [callHookFor_state, hself, hstate]
  · simp only [ne_eq, hret, not_false_eq_true, if_true]
    exact ⟨⟨hlift hframe, fun h => absurd h hret, fun _ => hfailed hret⟩, fun _ => hstate⟩

section Ladder

variable {id : ℕ} {single : State → State → World → Result × World} {nodes : List (ℕ × Ops)}

variable (id) in
theorem ladder_framed (hsingle : ∀ cur target w, Framed nodes w (single cur target w).2)
    (fuel : ℕ) (target : State) (w : World) :
    Framed nodes w (ladder id single fuel target w).2 := by
  induction fuel generalizing target w with
  | zero => exact .refl _ _
  | succ fuel ih =>
      rcases (w.node id).state.cases_of_pair target with hcur | hstep | ⟨mid, hvia, -⟩
      · rw [ladder_self hcur]
        exact .refl _ _
      · rw [ladder_adjacent rfl hstep]
        exact hsingle _ target w
      · have hfirst := ih mid w
        have hsecond := ih target (ladder id single fuel mid w).2
        rw [ladder_distant rfl hvia]
        dsimp only
        split
        · exact hfirst
        · split
          · exact (hfirst.trans hsecond).trans (ih _ _)
          · exact hfirst.trans hsecond

theorem ladder_honest
    (hsingle : ∀ cur target w, OwnOutcome oracle id nodes target w (single cur target w))
    {fuel : ℕ} {target : State} {w : World} (hpos : 0 < fuel)
    (hup : target.toNat ≤ (w.node id).state.toNat + fuel)
    (hdown : (w.node id).state.toNat ≤ target.toNat + fuel) :
    OwnOutcome oracle id nodes target w (ladder id single fuel target w) := by
  induction fuel generalizing target w with
  | zero => omega
  | succ fuel ih =>
      generalize hcur : (w.node id).state = cur at hup hdown
      rcases cur.cases_of_pair target with rfl | hstep | ⟨mid, hvia, hdist⟩
      · rw [ladder_self hcur]
        exact ⟨.refl _ _, fun _ => hcur, fun hne => absurd rfl hne⟩
      · rw [ladder_adjacent hcur hstep]
        exact hsingle cur target w
      · have hfirst : OwnOutcome oracle id nodes mid w (ladder id single fuel mid w) :=
          ih (by omega) (by rw [hcur]; omega) (by rw [hcur]; omega)
        rw [ladder_distant hcur hvia]
        generalize ladder id single fuel mid w = out at *
        obtain ⟨r₁, w₁⟩ := out
        by_cases hok : r₁ = .ok
        · have hmid : (w₁.node id).state = mid := hfirst.state hok
          have hsecond : OwnOutcome oracle id nodes target w₁ (ladder id single fuel target w₁) :=
            ih (by omega) (by rw [hmid]; omega) (by rw [hmid]; omega)
          have hback := ladder_framed id (fun c t w => (hsingle c t w).frame) fuel cur
            (ladder id single fuel target w₁).2
          simp only [hok, ne_eq, not_true_eq_false, if_false]
          split
          case isTrue hfail =>
            refine ⟨(hfirst.frame.trans hsecond.frame).trans hback, fun h => absurd h hfail.1,
              fun _ => ?_⟩
            exact (hsecond.failed hfail.1).extend hfirst.frame.calls hback.calls
          case isFalse =>
            refine ⟨hfirst.frame.trans hsecond.frame, hsecond.state, fun hne => ?_⟩
            exact (hsecond.failed hne).extend hfirst.frame.calls le_rfl
        · simp only [hok, ne_eq, not_false_eq_true, if_true]
          exact ⟨hfirst.frame, fun h => absurd h hok, fun _ => hfirst.failed hok⟩

end Ladder

theorem undo_framed (old : State) {els : List Element}
    (hels : ∀ el ∈ els, Honest oracle el.nodes fun _ => el.setState oracle) (w : World) :
    Framed (Element.nodesOfList els) w ((Element.membersOfList oracle els).foldl
      (fun w moved => (moved.setState old w).2) w) := by
  induction els generalizing w with
  | nil => exact .refl _ _
  | cons el rest ih =>
      have hframe := (hels el (by simp) old old w).1
      have hrest := ih (fun e he => hels e (by simp [he])) (el.setState oracle old w).2
      simp only [Element.membersOfList, Element.nodesOfList, foldl_cons]
      exact (hframe.mono (by simp +contextual)).trans (hrest.mono (by simp +contextual))

theorem binChangeState_honest {children : List Element}
    (hels : ∀ el ∈ children, Honest oracle el.nodes fun _ => el.setState oracle) :
    Honest oracle (Element.nodesOfList children)
      (binChangeState (Element.membersOfList oracle children)) := by
  -- The loop with the children of `done` behind it; the failure it reports is the
  -- failure of a child, and what it undoes lies within `done`.
  suffices hloop : ∀ (done todo : List Element) (old new : State) (w : World),
      (∀ el ∈ done ++ todo, Honest oracle el.nodes fun _ => el.setState oracle) →
      let out := propagate reverse old new
        (fun child r w => w.post (.error child.id r "Bin child failed to set state"))
        (Element.membersOfList oracle done) (Element.membersOfList oracle todo) w
      Framed (Element.nodesOfList (done ++ todo)) w out.2 ∧
        (out.1 ≠ .ok → HookFailed oracle w out.2) from
    fun cur target w => hloop [] children cur target w hels
  intro done todo old new w hall
  induction todo generalizing done w with
  | nil => exact ⟨.refl _ _, fun hne => absurd rfl hne⟩
  | cons el rest ih =>
      obtain ⟨hframe, hfailed⟩ := hall el (by simp) old new w
      have hsub : ∀ n ∈ el.nodes, n ∈ Element.nodesOfList (done ++ el :: rest) := by
        intro n hn
        simp [Element.nodesOfList_eq, hn]
      simp only [Element.membersOfList, propagate]
      by_cases hok : (el.setState oracle new w).1 = .ok
      · have hperm : (el :: done ++ rest).Perm (done ++ el :: rest) := perm_middle.symm
        obtain ⟨hframe', hfailed'⟩ := ih (el :: done) (el.setState oracle new w).2
          fun e he => hall e (hperm.mem_iff.mp he)
        simp only [hok, ne_eq, not_true_eq_false, if_false]
        refine ⟨(hframe.mono hsub).trans (hframe'.mono fun n => mem_nodesOfList_of_perm hperm),
          fun hne => (hfailed' hne).extend hframe.calls le_rfl⟩
      · simp only [hok, ne_eq, not_false_eq_true, if_true]
        have hundo : Framed (Element.nodesOfList done.reverse) (el.setState oracle new w).2 _ :=
          undo_framed old (fun e he => hall e (by simp [mem_reverse.mp he])) _
        rw [← membersOfList_reverse] at hundo
        have hsub' : ∀ n ∈ Element.nodesOfList done.reverse,
            n ∈ Element.nodesOfList (done ++ el :: rest) := by
          simp +contextual [Element.nodesOfList_eq]
        refine ⟨(hframe.mono hsub).trans ((hundo.mono hsub').post _), fun _ => ?_⟩
        exact (hfailed hok).extend le_rfl hundo.calls

variable (oracle) in
/-- An element reaches the target or reports a failure of a hook, whatever the
hooks answer and whatever states its descendants are in. -/
theorem setState_honest (el : Element) (hdistinct : Distinct [el]) (target : State) (w : World) :
    OwnOutcome oracle el.id el.nodes target w (el.setState oracle target w) := by
  induction el using Element.induct generalizing target w with
  | hplain id ops =>
      refine ladder_honest (fun cur target w => ?_) (by omega) (State.toNat_le_add_three _ _)
        (State.toNat_le_add_three _ _)
      exact (singleStep_honest (by simp) (fun m hm => by cases hm) cur target w).1
  | hbin id ops children ih =>
      obtain ⟨hapart, hdistinct'⟩ := hdistinct.apart_children
      refine ladder_honest (fun cur target w => ?_) (by omega) (State.toNat_le_add_three _ _)
        (State.toNat_le_add_three _ _)
      refine (singleStep_honest (fun change hchange => ?_) hapart cur target w).1
      cases hchange
      refine binChangeState_honest fun child hchild _ target w => ?_
      have hout := ih child hchild (hdistinct'.of_mem hchild) target w
      exact ⟨hout.frame, hout.failed⟩

/-- A step of the chain that fails leaves the element itself where it was. -/
theorem setState_step_fail {el : Element} (hdistinct : Distinct [el]) {target : State}
    {w : World} (hstep : (hookFor (w.node el.id).state target).isSome)
    (hfail : (el.setState oracle target w).1 ≠ .ok) :
    ((el.setState oracle target w).2.node el.id).state = (w.node el.id).state := by
  cases el with
  | plain id ops =>
      simp only [Element.setState, Element.id] at hfail hstep ⊢
      rw [ladder_adjacent rfl hstep] at hfail ⊢
      have hapart : Apart [] [(id, ops)] := fun m hm => by cases hm
      exact (singleStep_honest (by simp) hapart _ _ _).2 hfail
  | bin id ops children =>
      obtain ⟨hapart, hdistinct'⟩ := hdistinct.apart_children
      simp only [Element.setState, Element.id] at hfail hstep ⊢
      rw [ladder_adjacent rfl hstep] at hfail ⊢
      refine (singleStep_honest (fun change hchange => ?_) hapart _ _ _).2 hfail
      cases hchange
      refine binChangeState_honest fun child hchild _ target w => ?_
      have hout := setState_honest oracle child (hdistinct'.of_mem hchild) target w
      exact ⟨hout.frame, hout.failed⟩

theorem Element.self_mem_nodes (el : Element) : (el.id, el.ops) ∈ el.nodes := by
  cases el <;> simp [Element.nodes, Element.id, Element.ops]

end Zstreamer

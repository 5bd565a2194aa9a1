/-
# Hook traces as walks on the chain of states

The successful hook calls of an element trace out a walk on the chain NULL,
READY, PAUSED, PLAYING: `open` leads from NULL to READY, `unpreroll` from PAUSED
to READY, and so on.  Reading a trace as a walk is what lets a rollback be
compared with the work it undoes.  A walk that ends where it began nets to the
identity: of each pair of hooks, every call is matched by the call after it.

A table may leave hooks out.  The walk then takes the step silently, and what is
said about a pair of hooks asks for both of them to be provided.
-/

import Zstreamer.Core.Element

namespace Zstreamer

/-- `Walk ops s trace t`: the calls of `trace` lead from `s` to `t`, one step of
the chain each.  A step whose hook the table leaves out is taken silently. -/
inductive Walk (ops : Ops) : State → List Hook → State → Prop
  | refl (s : State) : Walk ops s [] s
  | call {s t u : State} {hook : Hook} {rest : List Hook}
      (hstep : hookFor s t = some hook) (hprovided : ops hook = true)
      (hrest : Walk ops t rest u) : Walk ops s (hook :: rest) u
  | skip {s t u : State} {hook : Hook} {rest : List Hook}
      (hstep : hookFor s t = some hook) (hmissing : ops hook = false)
      (hrest : Walk ops t rest u) : Walk ops s rest u

theorem Walk.trans {ops : Ops} {s t u : State} {first second : List Hook}
    (hfirst : Walk ops s first t) (hsecond : Walk ops t second u) :
    Walk ops s (first ++ second) u := by
  induction hfirst with
  | refl => exact hsecond
  | call hstep hprovided _ ih => exact .call hstep hprovided (ih hsecond)
  | skip hstep hmissing _ ih => exact .skip hstep hmissing (ih hsecond)

/-- The node's trace has grown by a walk from `s` to `t`. -/
def Traced (ops : Ops) (s t : State) (before after : Node) : Prop :=
  ∃ calls, after.trace = before.trace ++ calls ∧ Walk ops s calls t

theorem Traced.of_trace_eq {ops : Ops} {before after : Node} (s : State)
    (htrace : after.trace = before.trace) : Traced ops s s before after :=
  ⟨[], by simpa using htrace, .refl s⟩

theorem Traced.trans {ops : Ops} {s t u : State} {first second third : Node}
    (hfirst : Traced ops s t first second) (hsecond : Traced ops t u second third) :
    Traced ops s u first third := by
  obtain ⟨calls, htrace, hwalk⟩ := hfirst
  obtain ⟨calls', htrace', hwalk'⟩ := hsecond
  exact ⟨calls ++ calls', by rw [htrace', htrace, List.append_assoc], hwalk.trans hwalk'⟩

/-- The two neighbouring states of a step and the pair of hooks between them. -/
inductive Stage
  | opening
  | prerolling
  | playing
  deriving DecidableEq, Repr

namespace Stage

/-- The hook that takes the step upward. -/
def up : Stage → Hook
  | opening => .openHook
  | prerolling => .prerollHook
  | playing => .startHook

/-- The hook that takes the step downward. -/
def down : Stage → Hook
  | opening => .closeHook
  | prerolling => .unprerollHook
  | playing => .stopHook

/-- The state above the step. -/
def upper : Stage → State
  | opening => .ready
  | prerolling => .paused
  | playing => .playing

/-- The element stands above the step. -/
def Passed (stage : Stage) (s : State) : Prop := stage.upper.toNat ≤ s.toNat

instance (stage : Stage) (s : State) : Decidable (stage.Passed s) :=
  inferInstanceAs (Decidable (_ ≤ _))

/-- The calls of one pair of hooks, in order. -/
def calls (stage : Stage) (trace : List Hook) : List Hook :=
  trace.filter fun hook => hook = stage.up ∨ hook = stage.down

/-- Every call of the pair is matched by the next call of the pair. -/
def NetsToIdentity (stage : Stage) (trace : List Hook) : Prop :=
  ∃ n, stage.calls trace = (List.replicate n [stage.up, stage.down]).flatten ∨
    stage.calls trace = (List.replicate n [stage.down, stage.up]).flatten

end Stage

/-- A step of the chain crosses one stage upward or downward, and no other. -/
theorem hookFor_cases {s t : State} {hook : Hook} (hstep : hookFor s t = some hook)
    (stage : Stage) :
    (hook = stage.up ∧ ¬ stage.Passed s ∧ stage.Passed t) ∨
      (hook = stage.down ∧ stage.Passed s ∧ ¬ stage.Passed t) ∨
      (hook ≠ stage.up ∧ hook ≠ stage.down ∧ (stage.Passed s ↔ stage.Passed t)) := by
  cases s <;> cases t <;> simp only [hookFor, reduceCtorEq, Option.some.injEq] at hstep <;>
    subst hstep <;> cases stage <;> decide

/-- The calls of a stage alternate along a walk: the first goes away from the side
the walk starts on, and the last arrives at the side it ends on. -/
def Stage.Alternates (stage : Stage) (s t : State) (trace : List Hook) : Prop :=
  ∃ n, if stage.Passed s then
      (if stage.Passed t then
        stage.calls trace = (List.replicate n [stage.down, stage.up]).flatten
      else stage.calls trace =
        stage.down :: (List.replicate n [stage.up, stage.down]).flatten)
    else
      (if stage.Passed t then
        stage.calls trace = stage.up :: (List.replicate n [stage.down, stage.up]).flatten
      else stage.calls trace = (List.replicate n [stage.up, stage.down]).flatten)

theorem Walk.alternates {ops : Ops} {s t : State} {trace : List Hook}
    (hwalk : Walk ops s trace t) (stage : Stage)
    (hup : ops stage.up = true) (hdown : ops stage.down = true) :
    stage.Alternates s t trace := by
  induction hwalk with
  | refl s =>
      refine ⟨0, ?_⟩
      by_cases hs : stage.Passed s <;> simp [hs, Stage.calls]
  | @call s mid t hook rest hstep _ _ ih =>
      obtain ⟨n, hn⟩ := ih
      -- The call of the pair moves the walk to the other side of the stage, so the
      -- shape of what follows is the one for that side.
      rcases hookFor_cases hstep stage with ⟨rfl, hs, hmid⟩ | ⟨rfl, hs, hmid⟩ | ⟨h₁, h₂, hiff⟩
      · by_cases ht : stage.Passed t
        · refine ⟨n, ?_⟩
          simp only [hmid, ht, if_true] at hn
          simpa [hs, ht, Stage.calls] using hn
        · refine ⟨n + 1, ?_⟩
          simp only [hmid, ht, if_true, if_false] at hn
          simpa [hs, ht, Stage.calls, List.replicate_succ] using hn
      · by_cases ht : stage.Passed t
        · refine ⟨n + 1, ?_⟩
          simp only [hmid, ht, if_true, if_false] at hn
          simpa [hs, ht, Stage.calls, List.replicate_succ] using hn
        · refine ⟨n, ?_⟩
          simp only [hmid, ht, if_false] at hn
          simpa [hs, ht, Stage.calls] using hn
      · refine ⟨n, ?_⟩
        simpa [hiff, Stage.calls, h₁, h₂] using hn
  | @skip s mid t hook rest hstep hmissing _ ih =>
      obtain ⟨n, hn⟩ := ih
      rcases hookFor_cases hstep stage with ⟨rfl, -, -⟩ | ⟨rfl, -, -⟩ | ⟨-, -, hiff⟩
      · simp [hup] at hmissing
      · simp [hdown] at hmissing
      · exact ⟨n, by simpa [hiff] using hn⟩

/-- A walk that returns to where it started nets to the identity on every pair of
hooks the element provides. -/
theorem Walk.netsToIdentity {ops : Ops} {s : State} {trace : List Hook}
    (hwalk : Walk ops s trace s) (stage : Stage)
    (hup : ops stage.up = true) (hdown : ops stage.down = true) :
    stage.NetsToIdentity trace := by
  obtain ⟨n, hn⟩ := hwalk.alternates stage hup hdown
  by_cases hs : stage.Passed s
  · exact ⟨n, .inr (by simpa [hs] using hn)⟩
  · exact ⟨n, .inl (by simpa [hs] using hn)⟩

/-- Along a walk the calls of a provided pair count how often its stage was
crossed: up and down differ by where the walk starts and ends. -/
theorem Walk.count {ops : Ops} {s t : State} {trace : List Hook} (hwalk : Walk ops s trace t)
    (stage : Stage) (hup : ops stage.up = true) (hdown : ops stage.down = true) :
    trace.count stage.up + (if stage.Passed s then 1 else 0) =
      trace.count stage.down + (if stage.Passed t then 1 else 0) := by
  have hne : stage.up ≠ stage.down := by cases stage <;> decide
  induction hwalk with
  | refl => simp
  | @call s mid t hook rest hstep _ _ ih =>
      rcases hookFor_cases hstep stage with ⟨rfl, hs, hmid⟩ | ⟨rfl, hs, hmid⟩ | ⟨h₁, h₂, hiff⟩
      · simp only [hmid, if_true] at ih
        simp only [List.count_cons_self, List.count_cons_of_ne hne, hs, if_false]
        omega
      · simp only [hmid, if_false] at ih
        simp only [List.count_cons_self, List.count_cons_of_ne hne.symm, hs, if_true]
        omega
      · rw [List.count_cons_of_ne h₁, List.count_cons_of_ne h₂]
        simpa only [hiff] using ih
  | @skip s mid t hook rest hstep hmissing _ ih =>
      rcases hookFor_cases hstep stage with ⟨rfl, -, -⟩ | ⟨rfl, -, -⟩ | ⟨-, -, hiff⟩
      · simp [hup] at hmissing
      · simp [hdown] at hmissing
      · simpa only [hiff] using ih

/-- A walk passes through every one of its calls. -/
theorem Walk.at_call {ops : Ops} {s t : State} {before after : List Hook} {hook : Hook}
    (hwalk : Walk ops s (before ++ hook :: after) t) :
    ∃ u v, Walk ops s before u ∧ hookFor u v = some hook := by
  generalize htrace : before ++ hook :: after = trace at hwalk
  induction hwalk generalizing before with
  | refl => simp at htrace
  | @call s mid t first rest hstep hprovided _ ih =>
      cases before with
      | nil =>
          obtain ⟨rfl, rfl⟩ := List.cons.inj htrace
          exact ⟨s, mid, .refl s, hstep⟩
      | cons first' before =>
          obtain ⟨rfl, hrest⟩ := List.cons.inj htrace
          obtain ⟨u, v, hbefore, huv⟩ := ih hrest
          exact ⟨u, v, .call hstep hprovided hbefore, huv⟩
  | @skip s mid t first rest hstep hmissing _ ih =>
      obtain ⟨u, v, hbefore, huv⟩ := ih htrace
      exact ⟨u, v, .skip hstep hmissing hbefore, huv⟩

end Zstreamer

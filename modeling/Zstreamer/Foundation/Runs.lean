/-
# Runs of a labelled system

A system here is a set of starting states and a partial step function: `next`
answers the state an action leads to, or nothing when the action is not enabled.
Concurrency is not built in.  A thread table is part of the state and the action
names the thread that moves, so an interleaving is just a list of actions.

Two notions of reaching a state are kept side by side.  `Reachable` allows every
step; `ReachableVia` asks each step of the run to meet a condition on the state
before it and the action taken.  The second is what a safety property with a
known exception needs: the exception is a step, and the property is about all
the runs that avoid it.
-/

import Mathlib.Logic.Basic
import Mathlib.Data.Option.Basic

namespace Zstreamer.Foundation

universe u v

/-- Starting states and a partial, executable step function. -/
structure System (σ : Type u) (α : Type v) where
  /-- The states a run may start from. -/
  init : σ → Prop
  /-- The state after an action, or `none` where the action is not enabled. -/
  next : σ → α → Option σ

namespace System

variable {σ : Type u} {α : Type v} (M : System σ α)

/-- The states of runs all of whose steps meet `allowed`. -/
inductive ReachableVia (allowed : σ → α → Prop) : σ → Prop
  | start {s : σ} (hinit : M.init s) : ReachableVia allowed s
  | step {s s' : σ} {a : α} (hreach : ReachableVia allowed s) (hallowed : allowed s a)
      (hnext : M.next s a = some s') : ReachableVia allowed s'

/-- The states of all runs. -/
def Reachable (s : σ) : Prop := M.ReachableVia (fun _ _ => True) s

/-- Perform a list of actions in order, stopping at the first that is not
enabled. -/
def run : σ → List α → Option σ
  | s, [] => some s
  | s, a :: as => (M.next s a).bind fun s' => run s' as

variable {M} {allowed : σ → α → Prop}

/-- **The invariant rule.**  The step case may also use that the state before
the step is reachable, so that an invariant proved earlier is cited by name
rather than carried along. -/
theorem ReachableVia.invariant {I : σ → Prop} (hinit : ∀ s, M.init s → I s)
    (hstep : ∀ s a s', M.ReachableVia allowed s → I s → allowed s a →
      M.next s a = some s' → I s')
    {s : σ} (hs : M.ReachableVia allowed s) : I s := by
  induction hs with
  | start h => exact hinit _ h
  | step hreach hallowed hnext ih => exact hstep _ _ _ hreach ih hallowed hnext

/-- Restricting the steps of a run only loses states. -/
theorem ReachableVia.mono {allowed' : σ → α → Prop}
    (himp : ∀ s a, allowed s a → allowed' s a) {s : σ}
    (hs : M.ReachableVia allowed s) : M.ReachableVia allowed' s := by
  induction hs with
  | start h => exact .start h
  | step _ hallowed hnext ih => exact .step ih (himp _ _ hallowed) hnext

theorem ReachableVia.reachable {s : σ} (hs : M.ReachableVia allowed s) : M.Reachable s :=
  hs.mono fun _ _ _ => trivial

/-- Whatever a list of allowed actions leads to from a reachable state is reachable. -/
theorem ReachableVia.run {s s' : σ} (hs : M.ReachableVia allowed s) {actions : List α}
    (hall : ∀ s, ∀ a ∈ actions, allowed s a) (hrun : M.run s actions = some s') :
    M.ReachableVia allowed s' := by
  induction actions generalizing s with
  | nil =>
      obtain rfl : s = s' := Option.some.inj hrun
      exact hs
  | cons a as ih =>
      obtain ⟨mid, hmid, hrest⟩ := Option.bind_eq_some_iff.mp hrun
      refine ih (.step hs (hall s a List.mem_cons_self) hmid) (fun s b hb => ?_) hrest
      exact hall s b (List.mem_cons_of_mem a hb)

theorem Reachable.run {s s' : σ} (hs : M.Reachable s) {actions : List α}
    (hrun : M.run s actions = some s') : M.Reachable s' :=
  ReachableVia.run hs (fun _ _ _ => trivial) hrun

/-- A script is performed in two parts. -/
theorem run_append {s mid : σ} {first : List α} (hfirst : M.run s first = some mid)
    (rest : List α) : M.run s (first ++ rest) = M.run mid rest := by
  induction first generalizing s with
  | nil =>
      obtain rfl : s = mid := Option.some.inj hfirst
      rfl
  | cons a as ih =>
      obtain ⟨next, hnext, hrun⟩ := Option.bind_eq_some_iff.mp hfirst
      rw [List.cons_append, run, hnext]
      exact ih hrun

variable (M) in
/-- The system whose steps all meet `allowed`, for running it. -/
def restrict (allowed : σ → α → Prop) [∀ s a, Decidable (allowed s a)] : System σ α where
  init := M.init
  next s a := if allowed s a then M.next s a else none

theorem Reachable.of_restrict [∀ s a, Decidable (allowed s a)] {s : σ}
    (hs : (M.restrict allowed).Reachable s) : M.ReachableVia allowed s := by
  induction hs with
  | start hinit => exact .start hinit
  | @step s s' a _ _ hnext ih =>
      have hnext : (if allowed s a then M.next s a else none) = some s' := hnext
      split at hnext
      case isTrue hallowed => exact .step ih hallowed hnext
      case isFalse => cases hnext

/-! ## What holds throughout a run -/

variable (M) in
/-- A property holds in every state a list of actions passes through. -/
def Throughout (P : σ → Prop) : σ → List α → Prop
  | s, [] => P s
  | s, a :: as => P s ∧ ∀ s', M.next s a = some s' → Throughout P s' as

variable (M) in
/-- Every step a list of actions makes meets a condition. -/
def Along (allowed : σ → α → Prop) : σ → List α → Prop
  | _, [] => True
  | s, a :: as => allowed s a ∧ ∀ s', M.next s a = some s' → Along allowed s' as

instance Along.decidable (allowed : σ → α → Prop) [∀ s a, Decidable (allowed s a)] :
    ∀ s actions, Decidable (M.Along allowed s actions)
  | _, [] => inferInstanceAs (Decidable True)
  | s, a :: as =>
      have := fun s' => Along.decidable allowed s' as
      inferInstanceAs (Decidable (_ ∧ ∀ s' ∈ M.next s a, _))

/-- **The exact exception.**  Allowed steps keep an invariant that gives a property, and any other
step out of it loses the property at once: then the property holds throughout exactly the runs
whose steps are all allowed. -/
theorem throughout_iff_along {I P : σ → Prop} (hholds : ∀ s, I s → P s)
    (hkeep : ∀ s a s', I s → allowed s a → M.next s a = some s' → I s')
    (hlose : ∀ s a, I s → ¬ allowed s a → ∃ s', M.next s a = some s' ∧ ¬ P s') {s : σ} (hs : I s)
    (actions : List α) : M.Throughout P s actions ↔ M.Along allowed s actions := by
  induction actions generalizing s with
  | nil => exact iff_of_true (hholds s hs) trivial
  | cons a as ih =>
      by_cases hallowed : allowed s a
      · exact and_congr (iff_of_true (hholds s hs) hallowed) (forall_congr' fun s' =>
          imp_congr_right fun hnext => ih (hkeep s a s' hs hallowed hnext))
      · refine iff_of_false (fun h => ?_) fun h => hallowed h.1
        obtain ⟨s', hnext, hlost⟩ := hlose s a hs hallowed
        refine hlost ?_
        cases as with
        | nil => exact h.2 s' hnext
        | cons b as => exact (h.2 s' hnext).1

end System

end Zstreamer.Foundation

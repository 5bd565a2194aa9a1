/-
# The hooks of an element over its whole life

The state of an element is written from two places.  `zst_element_set_state`
stores a state after calling the hook that leads to it, so the stored state and
the hooks agree.  The end-of-stream branch of `execute_element_task` stores READY
by itself: an element that was PLAYING has been prerolled and started, and the
hooks that would undo this are not called.  A later close then meets an element
whose `preroll` and `start` were never matched.

The run system here has both writers.  `lifecycle_balanced` proves the balance for
every run in which no execution finds the element PLAYING and ends its stream, and
that the step left out really breaks it; `close_after_eof` is a run that takes it.
-/

import Zstreamer.Core.StateChange
import Zstreamer.Foundation.Runs

namespace Zstreamer

open Foundation

/-- `execute_element_task` as seen by the element: `ret` is what `process()`
returns, and `srcPad` whether there is a first source pad to push the end-of-stream
buffer to.  Pushing buffers and requeuing do not touch the element's state. -/
def executeElementTask (srcPad : Bool) (id : ℕ) (ret : Result) (w : World) : World :=
  if (w.node id).state ≠ .playing then w
  else
    match ret with
    | .ok => w
    | .eof =>
        let w := if srcPad then w else w.post (.eos id)
        { w with node := Function.update w.node id { w.node id with state := .ready } }
    | .again => w
    | .timeout => w
    | ret => w.post (.error id ret "Pipeline engine runtime fault")

/-- What can happen to an element attached to a running scheduler. -/
inductive ElementOp
  | setState (target : State)
  | execute (ret : Result)
  deriving DecidableEq, Repr

/-- The life of one element, with hooks that all succeed.  It starts in NULL with
no hook called; the states of its descendants do not matter. -/
def lifecycle (el : Element) (srcPad : Bool) : System World ElementOp where
  init w := w.node el.id = ⟨.null, []⟩
  next w op :=
    match op with
    | .setState target => some (el.setState (fun _ => .ok) target w).2
    | .execute ret => some (executeElementTask srcPad el.id ret w)

/-- The state is the level the trace implies, pair by pair, and no `close` was
called with a `preroll` or a `start` outstanding. -/
structure HookBalance (ops : Ops) (n : Node) : Prop where
  level : ∀ stage : Stage, ops stage.up = true → ops stage.down = true →
    n.trace.count stage.up = n.trace.count stage.down + if stage.Passed n.state then 1 else 0
  close_clean : ∀ before after, n.trace = before ++ .closeHook :: after →
    ∀ stage : Stage, stage ≠ .opening → ops stage.up = true → ops stage.down = true →
      before.count stage.up = before.count stage.down

/-- The trace is a walk from NULL to the state. -/
def OnWalk (ops : Ops) (n : Node) : Prop := Walk ops .null n.trace n.state

theorem OnWalk.hookBalance {ops : Ops} {n : Node} (hwalk : OnWalk ops n) : HookBalance ops n := by
  have hnull : ∀ stage : Stage, ¬ stage.Passed .null := by
    intro stage
    cases stage <;> decide
  refine ⟨fun stage hup hdown => ?_, fun before after htrace stage hstage hup hdown => ?_⟩
  · simpa [hnull stage] using Walk.count hwalk stage hup hdown
  · -- A close leaves READY, where neither of the upper stages has been passed.
    rw [OnWalk, htrace] at hwalk
    obtain ⟨u, v, hbefore, hclose⟩ := hwalk.at_call
    have hready : u = .ready := by
      cases u <;> cases v <;> simp [hookFor] at hclose ⊢
    subst hready
    have hpassed : ¬ stage.Passed .ready := by
      cases stage
      · exact absurd rfl hstage
      · decide
      · decide
    simpa [hnull stage, hpassed] using hbefore.count stage hup hdown

/-- The condition on a step: it does not end the stream of a PLAYING element. -/
def NoEofWhilePlaying (el : Element) (w : World) (op : ElementOp) : Prop :=
  ¬ (op = .execute .eof ∧ (w.node el.id).state = .playing)

theorem setState_onWalk {el : Element} (hdistinct : Distinct [el]) (target : State) {w : World}
    (hwalk : OnWalk el.ops (w.node el.id)) :
    OnWalk el.ops ((el.setState (fun _ => .ok) target w).2.node el.id) := by
  have hcalm : Calm (fun _ => .ok) w := fun _ _ => rfl
  have hmove := setState_calm hdistinct target hcalm
  obtain ⟨calls, htrace, hcalls⟩ := hmove.traced
  rw [OnWalk, htrace, hmove.state]
  exact Walk.trans hwalk hcalls

theorem executeElementTask_node {srcPad : Bool} {id : ℕ} {ret : Result} {w : World}
    (hret : ¬ (ret = .eof ∧ (w.node id).state = .playing)) :
    (executeElementTask srcPad id ret w).node = w.node := by
  unfold executeElementTask
  split
  · rfl
  · cases ret <;> simp_all

/-- **Hook balance over whole runs.**  In every run of state changes and scheduler
executions none of which ends the stream of the PLAYING element, the state is at
every point the level the hook trace implies and no close comes with a preroll or
a start unmatched.  The condition is exact for an element with a pair of hooks
above READY: taking the excluded step breaks the balance there and then. -/
theorem lifecycle_balanced (el : Element) (srcPad : Bool) (hdistinct : Distinct [el]) :
    ∀ w, (lifecycle el srcPad).ReachableVia (NoEofWhilePlaying el) w →
      HookBalance el.ops (w.node el.id) ∧
      ∀ op w', ¬ NoEofWhilePlaying el w op → (lifecycle el srcPad).next w op = some w' →
        ∀ stage : Stage, stage ≠ .opening → el.ops stage.up = true → el.ops stage.down = true →
          ¬ HookBalance el.ops (w'.node el.id) := by
  intro w hreach
  have hwalk : OnWalk el.ops (w.node el.id) := by
    refine System.ReachableVia.invariant (I := fun w => OnWalk el.ops (w.node el.id)) ?_ ?_ hreach
    · intro w hinit
      rw [OnWalk, hinit]
      exact .refl _
    · intro w op w' _ hwalk hallowed hnext
      cases op with
      | setState target =>
          cases hnext
          exact setState_onWalk hdistinct target hwalk
      | execute ret =>
          cases hnext
          rw [executeElementTask_node fun ⟨hret, hplaying⟩ => hallowed ⟨by rw [hret], hplaying⟩]
          exact hwalk
  refine ⟨hwalk.hookBalance, fun op w' hnot hnext stage hstage hup hdown hbad => ?_⟩
  obtain ⟨rfl, hplaying⟩ := not_not.mp hnot
  cases hnext
  have hbefore := hwalk.hookBalance.level stage hup hdown
  have hafter := hbad.level stage hup hdown
  have htrace : ((executeElementTask srcPad el.id .eof w).node el.id).trace =
      (w.node el.id).trace := by
    cases srcPad <;> simp [executeElementTask, hplaying]
  have hstate : ((executeElementTask srcPad el.id .eof w).node el.id).state = .ready := by
    cases srcPad <;> simp [executeElementTask, hplaying]
  have hpassed : stage.Passed .playing ∧ ¬ stage.Passed .ready := by
    cases stage
    · exact absurd rfl hstage
    · decide
    · decide
  rw [hplaying, if_pos hpassed.1] at hbefore
  rw [htrace, hstate, if_neg hpassed.2] at hafter
  omega

/-- A source with every hook, brought up to PLAYING: the only hooks called are the
three of the way up. -/
theorem lifecycle_balanced_source :
    let el : Element := .plain 0 fun _ => true
    let w : World := (el.setState (fun _ => .ok) .playing ⟨fun _ => ⟨.null, []⟩, 0, []⟩).2
    (w.node 0).trace = [.openHook, .prerollHook, .startHook] ∧ HookBalance el.ops (w.node 0) := by
  intro el w
  have hstart : (lifecycle el true).init ⟨fun _ => ⟨.null, []⟩, 0, []⟩ := rfl
  have hreach : (lifecycle el true).ReachableVia (NoEofWhilePlaying el) w := by
    refine .step (.start hstart) (a := .setState .playing) ?_ rfl
    rintro ⟨hop, -⟩
    cases hop
  exact ⟨by decide +kernel, (lifecycle_balanced el true (by decide +kernel) w hreach).1⟩

/-- The run that breaks the balance: the source is brought up to PLAYING, its
`process()` ends the stream, and it is taken down to NULL.  `close` is called with
`preroll` and `start` outstanding. -/
theorem close_after_eof :
    ¬ ∀ (el : Element) (srcPad : Bool), Distinct [el] →
      ∀ w, (lifecycle el srcPad).Reachable w → HookBalance el.ops (w.node el.id) := by
  intro hall
  let el : Element := .plain 0 fun _ => true
  let start : World := ⟨fun _ => ⟨.null, []⟩, 0, []⟩
  let up : World := (el.setState (fun _ => .ok) .playing start).2
  let ended : World := executeElementTask true 0 .eof up
  let closed : World := (el.setState (fun _ => .ok) .null ended).2
  have hrun : (lifecycle el true).run start
      [.setState .playing, .execute .eof, .setState .null] = some closed := rfl
  have hstart : (lifecycle el true).Reachable start := .start rfl
  have hbalance := hall el true (by decide +kernel) closed (hstart.run hrun)
  have htrace : (closed.node 0).trace = [.openHook, .prerollHook, .startHook] ++ [.closeHook] := by
    decide +kernel
  have hclean := hbalance.close_clean _ [] htrace .prerolling (by decide) rfl rfl
  exact absurd hclean (by decide)

end Zstreamer

/-
# Elements, their hooks and the state machine

An element is a node with an operations table and a four-valued state.  Its
`zst_element_set_state` takes one step of the chain NULL, READY, PAUSED, PLAYING
by calling the hook of that step, and reaches a distant state through the states
in between.  A bin is an element with children: after its own hook it moves every
child, and undoes the hook when a child refuses.

Elements are pointers in the source, so an element here is a static tree of
identities and everything that changes lives in a `World` indexed by identity:
each node's state and the trace of its successful hook calls, the number of hook
calls made so far, and what has been posted on the bus.  Hook results come from
an oracle consulted with the number of the call, which for a sequential program
is as general as an oracle that looks at the element, the hook and the past.

The clock, the end-of-stream flags of a bin and the scheduler wake-up on entering
PLAYING are left out: none of them is read by the functions modelled here.
-/

import Mathlib.Logic.Function.Basic
import Mathlib.Data.List.Basic
import Mathlib.Data.Nat.Basic
import Mathlib.Order.Basic

namespace Zstreamer

/-- The result codes of `zst_result_t`. -/
inductive Result
  | ok
  | error
  | timeout
  | again
  | eof
  | errorInvalidArgument
  | errorNotImplemented
  deriving DecidableEq, Repr

/-- The states of `zst_state_t`, in the order of the enumeration. -/
inductive State
  | null
  | ready
  | paused
  | playing
  deriving DecidableEq, Repr

namespace State

/-- The value of the enumerator, which the source compares and subtracts. -/
def toNat : State → ℕ
  | null => 0
  | ready => 1
  | paused => 2
  | playing => 3

/-- The enumerator after this one. -/
def succ : State → State
  | null => ready
  | ready => paused
  | paused => playing
  | playing => playing

/-- The enumerator before this one. -/
def pred : State → State
  | null => null
  | ready => null
  | paused => ready
  | playing => paused

end State

/-- The life-cycle hooks of `zst_element_ops_t`. -/
inductive Hook
  | openHook
  | closeHook
  | startHook
  | stopHook
  | prerollHook
  | unprerollHook
  deriving DecidableEq, Repr

/-- The hook of one step of the chain.  Every other pair of states has none; the
source reaches its single-step section only with adjacent states. -/
def hookFor : State → State → Option Hook
  | .null, .ready => some .openHook
  | .ready, .paused => some .prerollHook
  | .paused, .playing => some .startHook
  | .playing, .paused => some .stopHook
  | .paused, .ready => some .unprerollHook
  | .ready, .null => some .closeHook
  | _, _ => none

/-- The messages the modelled functions post on the bus.  `none` as the source of
a state change is the pipeline itself. -/
inductive BusEvent
  | stateChanged (source : Option ℕ) (old new : State)
  | error (source : ℕ) (code : Result) (message : String)
  | eos (source : ℕ)
  deriving DecidableEq, Repr

/-- The mutable part of one element. -/
structure Node where
  state : State
  /-- The hook calls that returned `ZST_OK`, oldest first. -/
  trace : List Hook
  deriving DecidableEq, Repr

/-- Everything a state change can touch. -/
structure World where
  node : ℕ → Node
  /-- The number of hook calls made so far; the oracle is asked with it. -/
  calls : ℕ
  bus : List BusEvent

namespace World

variable (w : World)

/-- Post an event on the bus the elements of a pipeline share. -/
def post (event : BusEvent) : World := { w with bus := w.bus ++ [event] }

/-- Count one hook call, and log it when it succeeded. -/
def recordCall (id : ℕ) (hook : Hook) (result : Result) : World :=
  { w with
    calls := w.calls + 1
    node :=
      if result = .ok then
        Function.update w.node id
          { w.node id with trace := (w.node id).trace ++ [hook] }
      else w.node }

/-- Store `el->state` and announce the change. -/
def storeState (id : ℕ) (old new : State) : World :=
  { w with
    node := Function.update w.node id { w.node id with state := new }
    bus := w.bus ++ [.stateChanged (some id) old new] }

@[simp] theorem post_node (event : BusEvent) : (w.post event).node = w.node := rfl

@[simp] theorem post_calls (event : BusEvent) : (w.post event).calls = w.calls := rfl

@[simp] theorem recordCall_calls (id : ℕ) (hook : Hook) (result : Result) :
    (w.recordCall id hook result).calls = w.calls + 1 := rfl

@[simp] theorem storeState_calls (id : ℕ) (old new : State) :
    (w.storeState id old new).calls = w.calls := rfl

@[simp] theorem storeState_node_self (id : ℕ) (old new : State) :
    (w.storeState id old new).node id = { w.node id with state := new } :=
  Function.update_self ..

theorem storeState_node_of_ne {id other : ℕ} (hne : other ≠ id) (old new : State) :
    (w.storeState id old new).node other = w.node other :=
  Function.update_of_ne hne ..

theorem recordCall_node_of_ne {id other : ℕ} (hne : other ≠ id) (hook : Hook)
    (result : Result) : (w.recordCall id hook result).node other = w.node other := by
  unfold recordCall
  split
  · exact Function.update_of_ne hne ..
  · rfl

@[simp] theorem recordCall_node_ok (id : ℕ) (hook : Hook) :
    (w.recordCall id hook .ok).node id =
      { w.node id with trace := (w.node id).trace ++ [hook] } := by
  simp [recordCall]

theorem recordCall_node_of_ne_ok (id : ℕ) (hook : Hook) {result : Result}
    (hresult : result ≠ .ok) : (w.recordCall id hook result).node = w.node := by
  simp [recordCall, hresult]

end World

/-- The hooks an operations table provides; a missing hook is a null pointer. -/
abbrev Ops := Hook → Bool

/-- What setting the state of one element does to the world. -/
abbrev Transition := State → World → Result × World

/-- An element of a loop over elements: who it is and how it changes state. -/
structure Member where
  id : ℕ
  setState : Transition

section Hooks

variable (oracle : ℕ → Result) (id : ℕ) (ops : Ops)

/-- `if (el->ops->hook) ret = el->ops->hook(el)`: a missing hook counts as
success and leaves no trace. -/
def callHook (hook : Hook) (w : World) : Result × World :=
  if ops hook then
    (oracle w.calls, w.recordCall id hook (oracle w.calls))
  else (.ok, w)

/-- Call the hook of the step from `cur` to `target`, if that is a step. -/
def callHookFor (cur target : State) (w : World) : Result × World :=
  match hookFor cur target with
  | some hook => callHook oracle id ops hook w
  | none => (.ok, w)

/-- The single-step section of `zst_element_set_state`.  `bin` is the bin's
`zst_bin_element_change_state`, absent for an element that is not a bin.  The
hook that undoes a step is the hook of the step back. -/
def singleStep (bin : Option (State → State → World → Result × World))
    (cur target : State) (w : World) : Result × World :=
  let (ret, w) := callHookFor oracle id ops cur target w
  if ret ≠ .ok then (ret, w)
  else
    match bin with
    | none => (.ok, w.storeState id cur target)
    | some changeState =>
        let (ret, w) := changeState cur target w
        if ret ≠ .ok then (ret, (callHookFor oracle id ops target cur w).2)
        else (.ok, w.storeState id cur target)

end Hooks

/-- The recursion of `zst_element_set_state` over a given single-step section.
Each call reads `el->state` again, so the recursion is not on the two states.  It
is never more than three calls deep: a call that is not a single step calls itself
only for targets nearer to the state it finds. -/
def ladder (id : ℕ) (single : State → State → World → Result × World) :
    ℕ → Transition
  | 0, _, w => (.error, w)
  | fuel + 1, target, w =>
      let cur := (w.node id).state
      if cur = target then (.ok, w)
      else if cur.toNat < State.ready.toNat ∧ target.toNat > State.ready.toNat then
        let (r, w) := ladder id single fuel .ready w
        if r ≠ .ok then (r, w)
        else
          let (r, w) := ladder id single fuel target w
          if r ≠ .ok then (r, (ladder id single fuel cur w).2) else (r, w)
      else if cur = .ready ∧ target = .playing then
        let (r, w) := ladder id single fuel .paused w
        if r ≠ .ok then (r, w)
        else
          let (r, w) := ladder id single fuel target w
          if r ≠ .ok then (r, (ladder id single fuel cur w).2) else (r, w)
      else if cur = .playing ∧ target.toNat < State.paused.toNat then
        let (r, w) := ladder id single fuel .paused w
        if r ≠ .ok then (r, w) else ladder id single fuel target w
      else if cur = .paused ∧ target.toNat < State.ready.toNat then
        let (r, w) := ladder id single fuel .ready w
        if r ≠ .ok then (r, w) else ladder id single fuel target w
      else single cur target w

/-- Move the members of a list one after another.  When one refuses, the members
already moved are sent back in the order `undo` gives for the most recent first,
and `failed` reports the refusal. -/
def propagate (undo : List Member → List Member) (old new : State)
    (failed : Member → Result → World → World) :
    List Member → List Member → World → Result × World
  | _, [], w => (.ok, w)
  | done, member :: todo, w =>
      let (r, w) := member.setState new w
      if r ≠ .ok then
        (r, failed member r ((undo done).foldl (fun w moved => (moved.setState old w).2) w))
      else propagate undo old new failed (member :: done) todo w

/-- `bin_change_state`: children move in order, and are sent back in the same
order. -/
def binChangeState (children : List Member) (old new : State) (w : World) :
    Result × World :=
  propagate List.reverse old new
    (fun child r w => w.post (.error child.id r "Bin child failed to set state"))
    [] children w

/-- An element is plain or a bin with children, bins included. -/
inductive Element
  | plain (id : ℕ) (ops : Ops)
  | bin (id : ℕ) (ops : Ops) (children : List Element)

namespace Element

/-- The identity of the element itself. -/
def id : Element → ℕ
  | plain id _ => id
  | bin id _ _ => id

/-- The element's own operations table. -/
def ops : Element → Ops
  | plain _ ops => ops
  | bin _ ops _ => ops

mutual

/-- The element and its bin descendants, each with its operations table. -/
def nodes : Element → List (ℕ × Ops)
  | plain id ops => [(id, ops)]
  | bin id ops children => (id, ops) :: nodesOfList children

/-- The nodes of a list of elements. -/
def nodesOfList : List Element → List (ℕ × Ops)
  | [] => []
  | child :: rest => child.nodes ++ nodesOfList rest

end

mutual

/-- `zst_element_set_state`. -/
def setState (oracle : ℕ → Result) : Element → Transition
  | plain id ops => ladder id (singleStep oracle id ops none) 3
  | bin id ops children =>
      ladder id (singleStep oracle id ops
        (some (binChangeState (membersOfList oracle children)))) 3

/-- The elements of a list as members of a loop. -/
def membersOfList (oracle : ℕ → Result) : List Element → List Member
  | [] => []
  | child :: rest => ⟨child.id, child.setState oracle⟩ :: membersOfList oracle rest

end

/-- Induction over the element tree: a bin may assume the result for each of
its children. -/
theorem induct {P : Element → Prop} (hplain : ∀ id ops, P (plain id ops))
    (hbin : ∀ id ops children, (∀ child ∈ children, P child) → P (bin id ops children)) :
    ∀ el, P el
  | plain id ops => hplain id ops
  | bin id ops children => hbin id ops children fun child _ => induct hplain hbin child

theorem nodesOfList_eq (els : List Element) :
    nodesOfList els = els.flatMap Element.nodes := by
  induction els with
  | nil => rfl
  | cons el rest ih => simp [nodesOfList, ih]

theorem membersOfList_eq (oracle : ℕ → Result) (els : List Element) :
    membersOfList oracle els = els.map fun el => ⟨el.id, el.setState oracle⟩ := by
  induction els with
  | nil => rfl
  | cons el rest ih => simp [membersOfList, ih]

end Element

end Zstreamer

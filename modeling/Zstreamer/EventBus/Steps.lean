/-
# The event bus, section by section

`zst_bus.c` is a linked list of events behind one mutex, with an optional dispatch
thread that takes events out and gives them to a handler.  The sections under the
lock are the steps here, and so is what happens between them: a dispatch thread
that has taken an event reads the handler in a second section, calls it outside
the lock, and after a failed pop looks at the flushing flag in a section of its
own; replacing a handler raises the flag, joins the old thread outside the lock and
finishes in another section.

The list is kept as the source keeps it, nodes in a heap with head and tail
pointers.  Beside the bus the state records the accepted posts, what was taken out
and by whom, and what each dispatch thread handed to which handler.

`zst_bus_set_handler` is called by one thread at a time, and not by a dispatch
thread on itself: joining blocks until the thread joined has exited.
-/

import Mathlib.Algebra.Ring.Nat
import Zstreamer.Foundation.Chain
import Zstreamer.Foundation.Runs

namespace Zstreamer.EventBus

open Foundation

/-- `struct zst_bus`.  Events, nodes and handlers (a function with its user data) are
known by number. -/
structure Bus where
  nodes : ℕ → Option (Cell ℕ ℕ)
  nextNode : ℕ
  head : Option ℕ
  tail : Option ℕ
  count : UInt32
  flushing : Bool
  hasThread : Bool
  thread : ℕ
  handler : Option ℕ

/-- `zst_bus_create`. -/
def Bus.create : Bus where
  nodes := fun _ => none
  nextNode := 0
  head := none
  tail := none
  count := 0
  flushing := false
  hasThread := false
  thread := 0
  handler := none

/-- `zst_bus_post`, and whether it returns ZST_OK.  The new node is at a fresh address;
`malloc` is whether there is one. -/
def Bus.post (event : ℕ) (malloc : Bool) (b : Bus) : Bus × Bool :=
  if b.flushing then (b, false)
  else if malloc = false then (b, false)
  else
    let node := b.nextNode
    let b := { b with
      nodes := Function.update b.nodes node (some ⟨event, none⟩)
      nextNode := node + 1 }
    let b :=
      match b.tail with
      | some last =>
          let linked := (b.nodes last).map fun (c : Cell ℕ ℕ) => { c with next := some node }
          { b with nodes := Function.update b.nodes last linked }
      | none => { b with head := some node }
    ({ b with tail := some node, count := b.count + 1 }, true)

/-- How a turn of `zst_bus_pop` ends: with an event, with ZST_ERROR because the bus is
flushing, or with nothing there, when the caller waits or gives up. -/
inductive PopAnswer
  | ok (event : ℕ)
  | error
  | empty
  deriving DecidableEq, Repr

/-- One turn of `zst_bus_pop` under the lock. -/
def Bus.pop (b : Bus) : Bus × PopAnswer :=
  if b.flushing then (b, .error)
  else
    match b.head with
    | none => (b, .empty)
    | some node =>
        match b.nodes node with
        | none => (b, .empty)
        | some cell =>
            ({ b with
                head := cell.next
                tail := if cell.next = none then none else b.tail
                count := b.count - 1
                nodes := Function.update b.nodes node none }, .ok cell.value)

/-- Where a dispatch thread is in `bus_dispatch_loop`. -/
inductive DispatchPc
  | popping
  | fetch (event : ℕ)
  | deliver (event : ℕ) (handler : Option ℕ)
  | failed
  | exited
  deriving DecidableEq, Repr

/-- A dispatch thread, and the handler that was installed when it was started. -/
structure Dispatcher where
  pc : DispatchPc
  startedWith : ℕ
  deriving DecidableEq, Repr

/-- Whether a call of `zst_bus_set_handler` is waiting for the old thread. -/
inductive Control
  | idle
  | joining (handler : Option ℕ) (old : ℕ)
  deriving DecidableEq, Repr

/-- Who took an event out: a caller of `zst_bus_pop`, or a dispatch thread. -/
inductive Taker
  | caller
  | thread (t : ℕ)
  deriving DecidableEq, Repr

/-- The bus, its dispatch threads and what has happened so far. -/
structure World where
  bus : Bus
  threads : ℕ → Option Dispatcher
  nextThread : ℕ
  control : Control
  posted : List ℕ
  taken : List (Taker × ℕ)
  given : List (ℕ × ℕ × Option ℕ)

/-- A fresh bus without dispatch thread. -/
def World.start : World where
  bus := Bus.create
  threads := fun _ => none
  nextThread := 0
  control := .idle
  posted := []
  taken := []
  given := []

/-- Move a dispatch thread. -/
def World.setPc (w : World) (t : ℕ) (pc : DispatchPc) : World :=
  let moved := (w.threads t).map fun (d : Dispatcher) => { d with pc := pc }
  { w with threads := Function.update w.threads t moved }

/-- The last section of `zst_bus_set_handler`: install the handler and start a thread for
it.  `created` is whether `pthread_create` succeeds. -/
def World.install (handler : Option ℕ) (created : Bool) (w : World) : World :=
  let w := { w with bus := { w.bus with handler := handler }, control := .idle }
  match handler with
  | none => w
  | some h =>
      if created then
        { w with
          bus := { w.bus with hasThread := true, thread := w.nextThread }
          threads := Function.update w.threads w.nextThread (some ⟨.popping, h⟩)
          nextThread := w.nextThread + 1 }
      else w

/-- The first section of `zst_bus_set_handler`.  With no thread to stop it is the only
one. -/
def World.setHandler (handler : Option ℕ) (created : Bool) (w : World) : World :=
  if w.bus.hasThread then
    { w with
      bus := { w.bus with flushing := true }
      control := .joining handler w.bus.thread }
  else w.install handler created

/-- After the join: no thread any more, the bus is open again, install the handler. -/
def World.finishSetHandler (handler : Option ℕ) (created : Bool) (w : World) : World :=
  { w with bus := { w.bus with hasThread := false, flushing := false } }.install handler created

/-- Post an event and note it if it was accepted. -/
def World.post (event : ℕ) (malloc : Bool) (w : World) : World :=
  let (bus, accepted) := w.bus.post event malloc
  { w with bus := bus, posted := if accepted then w.posted ++ [event] else w.posted }

/-- Pop an event and note who has it. -/
def World.pop (taker : Taker) (w : World) : World × PopAnswer :=
  let (bus, answer) := w.bus.pop
  match answer with
  | .ok event => ({ w with bus := bus, taken := w.taken ++ [(taker, event)] }, answer)
  | _ => ({ w with bus := bus }, answer)

/-- One step of `bus_dispatch_loop`. -/
def World.dispatch (t : ℕ) (pc : DispatchPc) (w : World) : Option World :=
  match pc with
  | .popping =>
      match w.pop (.thread t) with
      | (w, .ok event) => some (w.setPc t (.fetch event))
      | (w, .error) => some (w.setPc t .failed)
      | (w, .empty) => some w
  | .fetch event => some (w.setPc t (.deliver event w.bus.handler))
  | .deliver event handler =>
      some { w.setPc t .popping with given := w.given ++ [(t, event, handler)] }
  | .failed => some (w.setPc t (if w.bus.flushing then .exited else .popping))
  | .exited => none

/-- What can happen: any thread posts or pops, a handler is set, a thread moves. -/
inductive Action
  | post (event : ℕ) (malloc : Bool)
  | pop
  | setHandler (handler : Option ℕ) (created : Bool)
  | joined (created : Bool)
  | dispatch (t : ℕ)
  deriving DecidableEq, Repr

/-- Whether a thread has left `bus_dispatch_loop`. -/
def World.hasExited (w : World) (t : ℕ) : Bool :=
  match w.threads t with
  | some d => d.pc = .exited
  | none => false

/-- The step function. -/
def next (w : World) : Action → Option World
  | .post event malloc => some (w.post event malloc)
  | .pop => some (w.pop .caller).1
  | .setHandler handler created =>
      if w.control = .idle then some (w.setHandler handler created) else none
  | .joined created =>
      match w.control with
      | .idle => none
      | .joining handler old =>
          if w.hasExited old then some (w.finishSetHandler handler created) else none
  | .dispatch t =>
      match w.threads t with
      | none => none
      | some d => w.dispatch t d.pc

/-- One bus that is never destroyed. -/
def bus : System World Action where
  init w := w = World.start
  next := next

end Zstreamer.EventBus

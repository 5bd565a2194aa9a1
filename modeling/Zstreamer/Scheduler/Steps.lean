/-
# The scheduler, its workers and the graph

An element is scheduled by putting its one token into the ready queue.  `is_queued`
is to keep a second token out, `sched_task_refs` counts the tokens that are out, and
the token finds its element through `memory.priv`, which leaving the pipeline clears.
This module has the steps of every thread that touches them: the workers, the callers
of `zst_scheduler_run`, `zst_scheduler_stop` and `zst_scheduler_wake`, and those of
`zst_pipeline_add`, `zst_pipeline_remove`, `zst_pipeline_remove_element_dynamic` and
of reconfigure transactions.  A step reads or writes one thing other threads can see,
or is a section under a lock of which they see nothing in between.

`zst_element_set_state` inside a removal is a small machine of its own, with one frame
for each call that waits for another.  Everywhere else a change of state is one step
of the surroundings, which may happen at any time, as may a change of pads.

A scheduler is attached to its pipeline before it runs, and an element has its token
from creation to destruction, so the checks of both for NULL are left out, and so are
clocks, logging and the sizing of pools.
-/

import Zstreamer.Core.Element
import Zstreamer.Foundation.Runs
import Zstreamer.Foundation.Tally

namespace Zstreamer.Scheduler

open Foundation

/-- What the operations tables of the elements provide, and which elements are bins. -/
structure Setting where
  process : ℕ → Bool
  hooks : ℕ → Ops
  bin : ℕ → Bool

/-! ## Changing the state of an element -/

/-- A call of `zst_element_set_state` that waits for a call it made. -/
inductive Frame
  /-- The first half of a way up from `start`; `target` comes next. -/
  | climb (target start : State)
  /-- The second half of a way up; a failure returns to `start`. -/
  | arrive (start : State)
  /-- The first half of a way down; `target` comes next. -/
  | descend (target : State)
  /-- Returning to the start after a failure. -/
  | rollback
  deriving DecidableEq

/-- Where a thread is in `zst_element_set_state`. -/
inductive SetState
  /-- A call begins. -/
  | call (target : State) (stack : List Frame)
  /-- The hook of a single step has been called. -/
  | hook (old new : State) (stack : List Frame)
  /-- `zst_bin_element_change_state` moves the children. -/
  | children (old new : State) (stack : List Frame)
  /-- The children refused, and the hook that undoes the step has been called. -/
  | undo (stack : List Frame)
  | store (old new : State) (stack : List Frame)
  | returned (ok : Bool) (stack : List Frame)
  deriving DecidableEq

/-- What a call does with the state it reads. -/
def SetState.begin (cur target : State) (stack : List Frame) : SetState :=
  if cur = target then .returned true stack
  else if cur.toNat < State.ready.toNat ∧ target.toNat > State.ready.toNat then
    .call .ready (.climb target cur :: stack)
  else if cur = .ready ∧ target = .playing then .call .paused (.climb target cur :: stack)
  else if cur = .playing ∧ target.toNat < State.paused.toNat then
    .call .paused (.descend target :: stack)
  else if cur = .paused ∧ target.toNat < State.ready.toNat then
    .call .ready (.descend target :: stack)
  else .hook cur target stack

/-- What a call does with the result of the call it waits for. -/
def SetState.resume (ok : Bool) : Frame → List Frame → SetState
  | .climb target start, stack =>
      if ok then .call target (.arrive start :: stack) else .returned false stack
  | .arrive start, stack =>
      if ok then .returned true stack else .call start (.rollback :: stack)
  | .descend target, stack => if ok then .call target stack else .returned false stack
  | .rollback, stack => .returned false stack

/-- The outermost call returns. -/
def SetState.finished : SetState → Bool
  | .returned _ [] => true
  | _ => false

/-! ## Threads -/

/-- Where a thread goes on when it has queued source roots or released a token. -/
inductive Home
  | worker
  | caller
  | drain
  deriving DecidableEq

/-- Where a thread goes on after `zst_scheduler_queue_task`. -/
inductive Cont
  /-- In `scheduler_queue_source_roots`, with these elements to go. -/
  | roots (rest : List ℕ) (direct : Bool) (home : Home)
  /-- In `zst_scheduler_run`, with these elements to go. -/
  | priming (rest : List ℕ)
  /-- In `execute_element_task`, whose token is still to be released. -/
  | execute (el : ℕ)
  deriving DecidableEq

/-- Where a thread is in `zst_scheduler_queue_task`: before loading `running`, before the
exchange, before counting the token, before pushing it, and after a failed push before
taking the count back and before clearing `is_queued`. -/
inductive QueueTask
  | enter
  | exchange
  | count
  | push
  | uncount
  | reset
  deriving DecidableEq

/-- Where a thread is in `zst_pipeline_remove_element_dynamic`. -/
inductive Removal
  | check
  /-- In `zst_element_set_state(el, ZST_STATE_PAUSED)`. -/
  | stopping (m : SetState)
  | unlocking
  | foreign
  | draining
  | locking
  /-- In `zst_element_set_state(el, ZST_STATE_NULL)`, under the write lock. -/
  | closing (m : SetState)
  | unlinking
  | detaching
  deriving DecidableEq

/-- Where a thread is. -/
inductive Place
  | idle
  /-- In `scheduler_queue_source_roots`: before the read lock, before the cache is
  refreshed, before the cache is locked, and in the loop. -/
  | rootsLock (home : Home)
  | refreshing (home : Home)
  | locking (home : Home)
  | rooting (rest : List ℕ) (direct : Bool) (home : Home)
  | queueing (pc : QueueTask) (el : ℕ) (cont : Cont)
  /-- In `zst_scheduler_run`: after the check, before the read lock, in the loop over the
  elements, and creating workers. -/
  | starting
  | primeLock
  | priming (rest : List ℕ)
  | spawning
  /-- In `worker_pool_loop`: at the head of the loop, popping, with a token whose element
  is not known yet, and at the end. -/
  | looping
  | popping
  | received (el : ℕ)
  | exited
  /-- In `execute_element_task`: before the state is checked, before the pads are counted,
  inside `process`, pushing the buffer it returned, pushing the end of the stream, and
  about to clear `is_queued`. -/
  | checking (el : ℕ)
  | entering (el : ℕ)
  | inside (el : ℕ) (isSource : Bool)
  | pushing (el : ℕ) (isSource : Bool)
  | ending (el : ℕ)
  | clearing (el : ℕ) (requeue : Bool)
  /-- In `zst_scheduler_release_task_buffer`: before `memory.priv` is read, about to clear
  `is_queued`, and about to count the token off. -/
  | releasing (el : ℕ) (resetQueued : Bool) (home : Home)
  | unqueueing (el : ℕ) (home : Home)
  | dropping (el : ℕ) (home : Home)
  /-- In `zst_scheduler_stop`: after the check, waiting for the workers, and emptying the
  ready queue. -/
  | stopping
  | joining
  | draining
  /-- In `zst_scheduler_wake`. -/
  | waking
  /-- In `zst_pipeline_reconfigure_begin`, before and after waiting. -/
  | awaiting
  | beginning
  /-- At the end of `pipeline_reconfiguration_finish_locked`. -/
  | unlocking
  | removing (el : ℕ) (inTransaction : Bool) (phase : Removal)
  deriving DecidableEq

/-- Where a thread goes on. -/
def Home.place : Home → Place
  | worker => .looping
  | caller => .idle
  | drain => .draining

def Cont.place : Cont → Place
  | roots rest direct home => .rooting rest direct home
  | priming rest => .priming rest
  | execute el => .releasing el false .worker

/-- The thread holds the read lock of the elements for what comes next. -/
def Cont.reading : Cont → Bool
  | roots _ _ _ => true
  | priming _ => true
  | execute _ => false

/-- The thread holds the read lock of the elements. -/
def Place.reading : Place → Bool
  | refreshing _ => true
  | locking _ => true
  | rooting _ _ _ => true
  | priming _ => true
  | queueing _ _ cont => cont.reading
  | _ => false

/-- Everything the threads share, and where they are. -/
structure Sched (ι : Type) where
  /-- `sched_priv_t`; the ready queue is a list of the elements whose tokens are in it. -/
  running : Bool
  readyQueue : List ℕ
  threads : List ι
  sourceRoots : List ℕ
  sourceRootsGraphVersion : ℕ
  sourceCacheLock : Option ι
  /-- `zst_pipeline_t`, and the thread that holds its write lock. -/
  elements : List ℕ
  graphVersion : ℕ
  writer : Option ι
  reconfigurationActive : Bool
  reconfigurationOwner : Option ι
  /-- `zst_element_t`, by element; whether `memory.priv` of the token is the element. -/
  isQueued : ℕ → Bool
  schedTaskRefs : ℕ → ℕ
  tokenPriv : ℕ → Bool
  state : ℕ → State
  hasSinkPad : ℕ → Bool
  hasLinkedSinkPad : ℕ → Bool
  /-- `close` has been called. -/
  closed : ℕ → Bool
  place : ι → Place

/-- The slots of the ready queue. -/
def readyCapacity : ℕ := 2048

namespace Sched

variable {ι : Type} (s : Sched ι)

/-- A thread moves on. -/
def goto [DecidableEq ι] (t : ι) (place : Place) : Sched ι :=
  { s with place := Function.update s.place t place }

def setQueued (el : ℕ) (queued : Bool) : Sched ι :=
  { s with isQueued := Function.update s.isQueued el queued }

def addRef (el : ℕ) : Sched ι :=
  { s with schedTaskRefs := Function.update s.schedTaskRefs el (s.schedTaskRefs el + 1) }

def dropRef (el : ℕ) : Sched ι :=
  { s with schedTaskRefs := Function.update s.schedTaskRefs el (s.schedTaskRefs el - 1) }

def storeState (el : ℕ) (state : State) : Sched ι :=
  { s with state := Function.update s.state el state }

/-- `if (el->ops->hook) el->ops->hook(el)` for the hook of a step; only `close` leaves a
trace. -/
def callHook (setting : Setting) (el : ℕ) (old new : State) : Sched ι :=
  if hookFor old new = some .closeHook ∧ setting.hooks el .closeHook then
    { s with closed := Function.update s.closed el true }
  else s

/-- The operations table has the hook of a step. -/
def hasHook (setting : Setting) (el : ℕ) (old new : State) : Bool :=
  (hookFor old new).any (setting.hooks el)

/-- Nobody holds the lock of the elements. -/
def lockable [Fintype ι] : Prop := s.writer = none ∧ ∀ t, (s.place t).reading = false

instance [Fintype ι] [DecidableEq ι] : Decidable s.lockable :=
  inferInstanceAs (Decidable (_ ∧ _))

/-- `pipeline_reconfiguration_owned_by_current_thread` -/
def ownsReconfiguration [DecidableEq ι] (t : ι) : Bool :=
  s.reconfigurationActive && decide (s.reconfigurationOwner = some t)

/-- `pipeline_add_locked` -/
def addLocked (el : ℕ) (realloc : Bool) : Sched ι :=
  if realloc then
    { s with
      elements := s.elements ++ [el]
      tokenPriv := Function.update s.tokenPriv el true
      graphVersion := s.graphVersion + 1 }
  else s

/-- `pipeline_remove_locked` -/
def removeLocked (el : ℕ) : Sched ι :=
  if el ∈ s.elements then
    { s with
      elements := s.elements.erase el
      tokenPriv := Function.update s.tokenPriv el false
      graphVersion := s.graphVersion + 1 }
  else s

/-- `scheduler_refresh_source_roots_locked`, and whether it answers 1. -/
def refreshSourceRoots (realloc : Bool) : Sched ι × Bool :=
  if s.sourceRootsGraphVersion = s.graphVersion then (s, true)
  else if realloc then
    ({ s with
        sourceRoots := s.elements.filter fun el => !s.hasLinkedSinkPad el
        sourceRootsGraphVersion := s.graphVersion }, true)
  else (s, false)

/-- One step of `zst_element_set_state`.  `ok` is what a hook or the children answer; a
hook that is not there counts as success. -/
def settle (setting : Setting) (el : ℕ) (ok : Bool) : SetState → Sched ι × SetState
  | .call target stack =>
      match SetState.begin (s.state el) target stack with
      | .hook old new stack => (s.callHook setting el old new, .hook old new stack)
      | m => (s, m)
  | .hook old new stack =>
      if ok || !hasHook setting el old new then
        (s, if setting.bin el then .children old new stack else .store old new stack)
      else (s, .returned false stack)
  | .children old new stack =>
      if ok then (s, .store old new stack) else (s.callHook setting el new old, .undo stack)
  | .undo stack => (s, .returned false stack)
  | .store _ new stack => (s.storeState el new, .returned true stack)
  | .returned ok [] => (s, .returned ok [])
  | .returned ok (frame :: stack) => (s, SetState.resume ok frame stack)

end Sched

/-! ## Steps -/

/-- What a thread does, or the surroundings. -/
inductive Action (ι : Type)
  /-- An idle thread calls a function. -/
  | run (t : ι)
  | stop (t : ι)
  | wake (t : ι)
  | add (t : ι) (el : ℕ) (realloc : Bool)
  | remove (t : ι) (el : ℕ)
  | removeDynamic (t : ι) (el : ℕ)
  | reconfigureBegin (t : ι)
  | reconfigureEnd (t : ι)
  /-- A thread in the middle of a function takes its next step. -/
  | step (t : ι)
  | refresh (t : ι) (realloc : Bool)
  | push (t : ι) (ok : Bool)
  | pop (t : ι)
  | timeout (t : ι)
  | process (t : ι) (result : Result) (buffer : Bool)
  | spawn (t worker : ι)
  | settle (t : ι) (ok : Bool)
  /-- The surroundings change an element or the order of the elements. -/
  | setState (el : ℕ) (state : State)
  | setPads (el : ℕ) (sink linked : Bool)
  | markDirty
  | reorder (elements : List ℕ)
  deriving DecidableEq

variable {ι : Type} [Fintype ι] [DecidableEq ι]

/-- Where a removal goes on when the element has been told to stop. -/
def Removal.afterStopping (inTransaction : Bool) : Removal :=
  if inTransaction then .unlocking else .foreign

/-- One step of `zst_scheduler_queue_task`, the push apart. -/
def queueStep (s : Sched ι) (t : ι) (el : ℕ) (cont : Cont) : QueueTask → Option (Sched ι)
  | .enter =>
      some (s.goto t (if s.running then .queueing .exchange el cont else cont.place))
  | .exchange =>
      some ((s.setQueued el true).goto t
        (if s.isQueued el then cont.place else .queueing .count el cont))
  | .count => some ((s.addRef el).goto t (.queueing .push el cont))
  | .push => none
  | .uncount => some ((s.dropRef el).goto t (.queueing .reset el cont))
  | .reset => some ((s.setQueued el false).goto t cont.place)

/-- One step of `zst_pipeline_remove_element_dynamic`, the calls of
`zst_element_set_state` apart. -/
def removalStep (s : Sched ι) (t : ι) (el : ℕ) (inTransaction : Bool) :
    Removal → Option (Sched ι)
  | .check =>
      some (s.goto t (.removing el inTransaction
        (if s.state el = .playing then .stopping (.call .paused [])
        else .afterStopping inTransaction)))
  | .stopping m =>
      if m.finished then
        some (s.goto t (.removing el inTransaction (.afterStopping inTransaction)))
      else none
  | .unlocking =>
      some ({ s with writer := none }.goto t (.removing el inTransaction .draining))
  | .foreign =>
      if s.reconfigurationActive && !s.ownsReconfiguration t then none
      else some (s.goto t (.removing el inTransaction .draining))
  | .draining =>
      if s.schedTaskRefs el = 0 then some (s.goto t (.removing el inTransaction .locking))
      else none
  | .locking =>
      if s.lockable then
        some ({ s with writer := some t }.goto t
          (.removing el inTransaction (.closing (.call .null []))))
      else none
  | .closing m =>
      if m.finished then some (s.goto t (.removing el inTransaction .unlinking)) else none
  | .unlinking =>
      some ({ s with
        hasLinkedSinkPad := Function.update s.hasLinkedSinkPad el false }.goto t
          (.removing el inTransaction .detaching))
  | .detaching => some ((s.removeLocked el).goto t (if inTransaction then .idle else .unlocking))

/-- The next step of a thread, where nothing but the state decides what it is. -/
def threadStep (setting : Setting) (s : Sched ι) (t : ι) : Place → Option (Sched ι)
  | .rootsLock home => if s.writer = none then some (s.goto t (.refreshing home)) else none
  | .locking home =>
      if s.sourceCacheLock = none then
        some ({ s with sourceCacheLock := some t }.goto t (.rooting s.sourceRoots false home))
      else none
  | .rooting [] direct home =>
      some ({ s with
        sourceCacheLock := if direct then s.sourceCacheLock else none }.goto t home.place)
  | .rooting (el :: rest) direct home =>
      some (s.goto t
        (if s.state el = .playing ∧ (direct = true → s.hasLinkedSinkPad el = false) then
          .queueing .enter el (.roots rest direct home)
        else .rooting rest direct home))
  | .queueing pc el cont => queueStep s t el cont pc
  | .starting => some ({ s with running := true, threads := [] }.goto t .primeLock)
  | .primeLock => if s.writer = none then some (s.goto t (.priming s.elements)) else none
  | .priming [] => some (s.goto t .spawning)
  | .priming (el :: rest) =>
      some (s.goto t
        (if s.hasSinkPad el then .priming rest else .queueing .enter el (.priming rest)))
  | .spawning => some (s.goto t .idle)
  | .looping => some (s.goto t (if s.running then .popping else .exited))
  | .received el =>
      some (s.goto t (if s.tokenPriv el then .checking el else .releasing el false .worker))
  | .checking el =>
      some (s.goto t (if s.state el = .playing then .entering el else .clearing el false))
  | .entering el =>
      some (s.goto t
        (if setting.process el then .inside el (!s.hasSinkPad el) else .clearing el false))
  | .pushing el isSource => some (s.goto t (.clearing el isSource))
  | .ending el => some ((s.storeState el .ready).goto t (.clearing el false))
  | .clearing el requeue =>
      some ((s.setQueued el false).goto t
        (if requeue then .queueing .enter el (.execute el) else .releasing el false .worker))
  | .releasing el resetQueued home =>
      some (s.goto t
        (if s.tokenPriv el then
          if resetQueued then .unqueueing el home else .dropping el home
        else home.place))
  | .unqueueing el home => some ((s.setQueued el false).goto t (.dropping el home))
  | .dropping el home => some ((s.dropRef el).goto t home.place)
  | .stopping => some ({ s with running := false }.goto t .joining)
  | .joining =>
      if ∀ worker ∈ s.threads, s.place worker = .exited then
        some ({ s with threads := [] }.goto t .draining)
      else none
  | .waking => some (s.goto t (if s.running then .rootsLock .caller else .idle))
  | .awaiting => if s.reconfigurationActive then none else some (s.goto t .beginning)
  | .beginning =>
      if s.lockable then
        some ({ s with
          writer := some t
          reconfigurationOwner := some t
          reconfigurationActive := true }.goto t .idle)
      else none
  | .unlocking => some ({ s with writer := none }.goto t .waking)
  | .removing el inTransaction phase => removalStep s t el inTransaction phase
  | .idle | .refreshing _ | .popping | .inside _ _ | .draining | .exited => none

/-- What `execute_element_task` does with what `process` returned. -/
def afterProcess (el : ℕ) (isSource buffer : Bool) : Result → Place
  | .ok => if buffer then .pushing el isSource else .clearing el isSource
  | .eof => .ending el
  | .again | .timeout => .clearing el true
  | _ => .clearing el false

/-- One step.  A push may fail and a pop may find nothing at any time: while another
thread is in the middle of its own, the ready queue looks full or empty when it is not. -/
def next (setting : Setting) (s : Sched ι) : Action ι → Option (Sched ι)
  | .run t =>
      if s.place t = .idle then some (s.goto t (if s.running then .idle else .starting)) else none
  | .stop t =>
      if s.place t = .idle then some (s.goto t (if s.running then .stopping else .idle)) else none
  | .wake t => if s.place t = .idle then some (s.goto t .waking) else none
  | .add t el realloc =>
      if s.place t = .idle ∧ s.lockable then some (s.addLocked el realloc) else none
  | .remove t el =>
      if s.place t = .idle ∧ s.lockable then some (s.removeLocked el) else none
  | .removeDynamic t el =>
      if s.place t = .idle then some (s.goto t (.removing el (s.ownsReconfiguration t) .check))
      else none
  | .reconfigureBegin t =>
      if s.place t = .idle then
        some (s.goto t (if s.ownsReconfiguration t then .idle else .awaiting))
      else none
  | .reconfigureEnd t =>
      if s.place t = .idle then
        if s.ownsReconfiguration t then
          some ({ s with reconfigurationActive := false }.goto t .unlocking)
        else some s
      else none
  | .step t => threadStep setting s t (s.place t)
  | .refresh t realloc =>
      match s.place t with
      | .refreshing home =>
          if s.sourceCacheLock = none then
            match s.refreshSourceRoots realloc with
            | (s, true) => some (s.goto t (.locking home))
            | (s, false) => some (s.goto t (.rooting s.elements true home))
          else none
      | _ => none
  | .push t ok =>
      match s.place t with
      | .queueing .push el cont =>
          if ok then
            if s.readyQueue.length < readyCapacity then
              some ({ s with readyQueue := s.readyQueue ++ [el] }.goto t cont.place)
            else none
          else some (s.goto t (.queueing .uncount el cont))
      | _ => none
  | .pop t =>
      match s.readyQueue, s.place t with
      | el :: rest, .popping => some ({ s with readyQueue := rest }.goto t (.received el))
      | el :: rest, .draining =>
          some ({ s with readyQueue := rest }.goto t (.releasing el true .drain))
      | _, _ => none
  | .timeout t =>
      match s.place t with
      | .popping => some (s.goto t (.rootsLock .worker))
      | .draining => some (s.goto t .idle)
      | _ => none
  | .process t result buffer =>
      match s.place t with
      | .inside el isSource => some (s.goto t (afterProcess el isSource buffer result))
      | _ => none
  | .spawn t worker =>
      if s.place t = .spawning ∧ s.place worker = .idle then
        some ({ s with threads := worker :: s.threads }.goto worker .looping)
      else none
  | .settle t ok =>
      match s.place t with
      | .removing el inTransaction (.stopping m) =>
          let (s, m) := s.settle setting el ok m
          some (s.goto t (.removing el inTransaction (.stopping m)))
      | .removing el inTransaction (.closing m) =>
          let (s, m) := s.settle setting el ok m
          some (s.goto t (.removing el inTransaction (.closing m)))
      | _ => none
  | .setState el state => some (s.storeState el state)
  | .setPads el sink linked =>
      some { s with
        hasSinkPad := Function.update s.hasSinkPad el sink
        hasLinkedSinkPad := Function.update s.hasLinkedSinkPad el linked }
  | .markDirty => some { s with graphVersion := s.graphVersion + 1 }
  | .reorder elements =>
      if elements.Perm s.elements then some { s with elements := elements } else none

/-- Elements as `zst_element_create` leaves them and `zst_pipeline_add` has put them into
the pipeline, in any states and with any pads, a scheduler that has not run yet, and
threads outside of it. -/
def Initial (s : Sched ι) : Prop :=
  s.running = false ∧ s.readyQueue = [] ∧ s.threads = [] ∧ s.sourceRoots = [] ∧
  s.sourceRootsGraphVersion = 0 ∧ s.sourceCacheLock = none ∧ 0 < s.graphVersion ∧
  s.writer = none ∧ s.reconfigurationActive = false ∧
  (∀ el, s.isQueued el = false ∧ s.schedTaskRefs el = 0 ∧ s.tokenPriv el = true ∧
    s.closed el = false) ∧
  ∀ t, s.place t = .idle

/-- Every hook is there, and no element is a bin. -/
def plain : Setting := ⟨fun _ => true, fun _ _ => true, fun _ => false⟩

/-- Elements without pads in given states, before the scheduler runs. -/
def fresh (elements : List ℕ) (state : ℕ → State) : Sched ι where
  running := false
  readyQueue := []
  threads := []
  sourceRoots := []
  sourceRootsGraphVersion := 0
  sourceCacheLock := none
  elements := elements
  graphVersion := elements.length + 1
  writer := none
  reconfigurationActive := false
  reconfigurationOwner := none
  isQueued := fun _ => false
  schedTaskRefs := fun _ => 0
  tokenPriv := fun _ => true
  state := state
  hasSinkPad := fun _ => false
  hasLinkedSinkPad := fun _ => false
  closed := fun _ => false
  place := fun _ => .idle

omit [Fintype ι] [DecidableEq ι] in
theorem initial_fresh (elements : List ℕ) (state : ℕ → State) :
    Initial (fresh elements state : Sched ι) :=
  ⟨rfl, rfl, rfl, rfl, rfl, rfl, Nat.succ_pos _, rfl, rfl, fun _ => ⟨rfl, rfl, rfl, rfl⟩,
    fun _ => rfl⟩

/-- The scheduler and its pipeline under any interleaving. -/
def system (ι : Type) [Fintype ι] [DecidableEq ι] (setting : Setting) :
    System (Sched ι) (Action ι) where
  init := Initial
  next := next setting

end Zstreamer.Scheduler

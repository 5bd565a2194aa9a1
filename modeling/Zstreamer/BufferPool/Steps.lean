/-
# The buffer pool, section by section

`zst_buffer_pool.c` guards the pool with one mutex.  What a thread does between
locking and unlocking is one step of the system here; what it does outside the
lock (freeing a buffer it could not store, freeing the pool object after having
decided to) is a step of its own, so that other threads may run in between.

The pool object keeps the words of the source.  Around it the state records what
the pool does not know: which buffers are with their users, which releases are
half done, how often the pool object was freed and which buffers were.  A call of
`zst_buffer_create_with_allocator` may fail at any time; the action carries the
answers.

The idle buffers are a stack: `buffers[count - 1]` is the head of the list, and
`slots` is the number of cells the array was allocated with.
-/

import Zstreamer.Foundation.Runs
import Mathlib.Data.List.Range

namespace Zstreamer.BufferPool

open Foundation

/-- `zst_buffer_pool_config_t`.  Of the watermark callback only its presence matters. -/
structure Config where
  minBuffers : UInt32
  maxBuffers : UInt32
  bufferSize : ℕ
  bufferType : UInt32 := 0
  lowWatermark : UInt32 := 0
  highWatermark : UInt32 := 0
  watermarkCb : Bool := false
  deriving DecidableEq, Repr

/-- No maximum means 32. -/
def Config.defaultMax (config : Config) : Config :=
  if config.maxBuffers = 0 then { config with maxBuffers := 32 } else config

/-- The minimum is at most the maximum. -/
def Config.clampMin (config : Config) : Config :=
  if config.minBuffers > config.maxBuffers then { config with minBuffers := config.maxBuffers }
  else config

/-- The two corrections `create` and `set_config` make to what they are given. -/
def Config.normalise (config : Config) : Config := config.defaultMax.clampMin

/-- A pool buffer: its identity, the memory it was allocated with, the type it was
created with and the size and reference count it announces. -/
structure Buffer where
  id : ℕ
  allocated : ℕ
  type : UInt32
  size : ℕ
  refcount : ℕ
  deriving DecidableEq, Repr

/-- `struct zst_buffer_pool`.  `allocator` is whether there is one: creating the
default allocator may fail, and `create` does not look. -/
structure Pool where
  allocator : Bool
  config : Config
  idle : List Buffer
  slots : ℕ
  totalAllocated : UInt32
  generation : UInt64
  active : Bool
  deriving DecidableEq, Repr

/-- `zst_buffer_create_with_allocator`, when it succeeds.  Memory is only attached
when there is an allocator and something to allocate. -/
def Pool.createBuffer (p : Pool) (id : ℕ) : Buffer :=
  let memory := if p.allocator then p.config.bufferSize else 0
  ⟨id, memory, p.config.bufferType, memory, 1⟩

/-- The pool and everything that happens around it.  `returning` are the buffers whose
release found no room and has not freed them yet, `returned` those it has freed without
having counted them off yet; `freeing` counts the threads that have decided to free the
pool object and `frees` how often it was freed. -/
structure World where
  pool : Pool
  out : List Buffer
  returning : List Buffer
  returned : List ℕ
  freed : List ℕ
  nextId : ℕ
  freeing : ℕ
  frees : ℕ
  deriving DecidableEq, Repr

/-- Create a buffer and put it on the idle stack. -/
def World.pushNew (w : World) : World :=
  { w with
    pool := { w.pool with
      idle := w.pool.createBuffer w.nextId :: w.pool.idle
      totalAllocated := w.pool.totalAllocated + 1 }
    nextId := w.nextId + 1 }

/-- Take the top of the idle stack off and free it. -/
def World.dropIdle (w : World) : World :=
  match w.pool.idle with
  | [] => w
  | b :: rest =>
      { w with
        pool := { w.pool with idle := rest, totalAllocated := w.pool.totalAllocated - 1 }
        freed := b.id :: w.freed }

/-- The loops that free idle buffers while a condition holds.  The first argument is
fuel; the callers give the height of the stack. -/
def World.dropWhile (cond : World → Bool) : ℕ → World → World
  | 0, w => w
  | n + 1, w => if cond w then dropWhile cond n w.dropIdle else w

/-- The loops that create buffers while fewer than `bound` exist, and whether every
allocation succeeded.  The callers give the bound itself as fuel. -/
def World.fill (alloc : ℕ → Bool) (bound : UInt32) : ℕ → World → World × Bool
  | 0, w => (w, true)
  | n + 1, w =>
      if w.pool.totalAllocated < bound then
        if alloc n then fill alloc bound n w.pushNew else (w, false)
      else (w, true)

/-- A pool object as `zst_buffer_pool_create` sets it up, before any buffer exists. -/
def World.empty (allocator : Bool) (config : Config) : World where
  pool := ⟨allocator, config, [], config.maxBuffers.toNat, 0, 1, true⟩
  out := []
  returning := []
  returned := []
  freed := []
  nextId := 0
  freeing := 0
  frees := 0

/-- The loop of `create`.  A failed buffer is skipped, not given up on. -/
def World.preallocate (alloc : ℕ → Bool) (n : ℕ) (w : World) : World :=
  (List.range n).foldl (fun w i => if alloc i then w.pushNew else w) w

/-- `zst_buffer_pool_create`, when the object and its array can be allocated. -/
def create (allocator : Bool) (config : Config) (alloc : ℕ → Bool) : World :=
  let config := config.normalise
  (World.empty allocator config).preallocate alloc config.minBuffers.toNat

/-- How a section of `zst_buffer_pool_acquire` ends: with a buffer and whether the low
watermark is to be reported, with ZST_TIMEOUT, with ZST_ERROR, or waiting on the
condition variable. -/
inductive AcquireAnswer
  | ok (b : Buffer) (triggerLow : Bool)
  | timeout
  | error
  | waits
  deriving DecidableEq, Repr

/-- One turn of `zst_buffer_pool_acquire` under the lock.  A thread that waits and is
woken takes another turn. -/
def World.acquire (alloc nonblock : Bool) (timeoutMs : ℤ) (w : World) : World × AcquireAnswer :=
  if w.pool.active = false then (w, .error)
  else
    match w.pool.idle with
    | [] =>
        if w.pool.totalAllocated < w.pool.config.maxBuffers ∧ alloc = true then
          let b := w.pool.createBuffer w.nextId
          ({ w with
              pool := { w.pool with totalAllocated := w.pool.totalAllocated + 1 }
              out := b :: w.out
              nextId := w.nextId + 1 }, .ok b false)
        else if nonblock then (w, .timeout)
        else if timeoutMs < 0 then (w, .waits)
        else if timeoutMs = 0 then (w, .timeout)
        else (w, .waits)
    | b :: rest =>
        let b := { b with size := w.pool.config.bufferSize, refcount := 1 }
        let triggerLow :=
          w.pool.config.watermarkCb && rest.length == w.pool.config.lowWatermark.toNat
        ({ w with
            pool := { w.pool with idle := rest }
            out := b :: w.out }, .ok b triggerLow)

/-- The first section of `zst_buffer_pool_release`: store the buffer, or find the pool
inactive or full. -/
def World.release (b : Buffer) (w : World) : World :=
  if w.pool.active ∧ w.pool.idle.length < w.pool.config.maxBuffers.toNat then
    { w with
      pool := { w.pool with idle := b :: w.pool.idle }
      out := w.out.erase b }
  else { w with out := w.out.erase b, returning := b :: w.returning }

/-- The release that found no room frees the buffer, outside the lock. -/
def World.freeBuffer (b : Buffer) (w : World) : World :=
  { w with
    returning := w.returning.erase b
    returned := b.id :: w.returned
    freed := b.id :: w.freed }

/-- The second section of that release: count the buffer off, and decide whether this
was the last one of a destroyed pool. -/
def World.finishRelease (id : ℕ) (w : World) : World :=
  let total := w.pool.totalAllocated - 1
  let shouldFree := !w.pool.active && total == 0
  { w with
    pool := { w.pool with totalAllocated := total }
    returned := w.returned.erase id
    freeing := if shouldFree then w.freeing + 1 else w.freeing }

/-- `zst_buffer_pool_destroy`, up to the decision whether to free the pool object. -/
def World.destroy (w : World) : World :=
  let w := { w with pool := { w.pool with active := false } }
  let w := w.dropWhile (fun _ => true) w.pool.idle.length
  { w with freeing := if w.pool.totalAllocated = 0 then w.freeing + 1 else w.freeing }

/-- The thread that decided so frees the pool object. -/
def World.freePool (w : World) : World :=
  { w with freeing := w.freeing - 1, frees := w.frees + 1 }

/-- The loop of `zst_buffer_pool_set_config` that fits the idle buffers under a lower
maximum. -/
def World.trim (max : UInt32) (w : World) : World :=
  w.dropWhile (fun w => w.pool.idle.length > max.toNat) w.pool.idle.length

/-- `zst_buffer_pool_set_config` and whether it returns ZST_OK.  `realloc` is whether the
array can be resized, should that be needed. -/
def World.setConfig (config : Config) (realloc : Bool) (alloc : ℕ → Bool) (w : World) :
    World × Bool :=
  let config := config.normalise
  let w := w.trim config.maxBuffers
  if config.maxBuffers ≠ w.pool.config.maxBuffers ∧ realloc = false then (w, false)
  else
    let w :=
      { w with pool := { w.pool with
          config := config
          slots := config.maxBuffers.toNat
          generation := w.pool.generation + 1 } }
    if w.pool.active then w.fill alloc config.minBuffers config.minBuffers.toNat else (w, true)

/-- `zst_buffer_pool_prefill`. -/
def World.prefill (alloc : ℕ → Bool) (w : World) : World :=
  if w.pool.active then
    (w.fill alloc w.pool.config.maxBuffers w.pool.config.maxBuffers.toNat).1
  else w

/-- `zst_buffer_pool_drain`. -/
def World.drain (w : World) : World :=
  if w.pool.active then
    w.dropWhile (fun w => w.pool.idle.length > 0 && w.pool.totalAllocated > w.pool.config.minBuffers)
      w.pool.idle.length
  else w

/-- What can happen.  The callers' part: a call is made on a pool that has not been
freed, `destroy` not by two threads at once, and a buffer is released by whoever
acquired it, once.  The last three are the rest of a call already under way. -/
inductive Action
  | acquire (alloc nonblock : Bool) (timeoutMs : ℤ)
  | release (b : Buffer)
  | setConfig (config : Config) (realloc : Bool) (alloc : ℕ → Bool)
  | prefill (alloc : ℕ → Bool)
  | drain
  | destroy
  | freeBuffer (b : Buffer)
  | finishRelease (id : ℕ)
  | freePool

/-- The step function. -/
def next (w : World) : Action → Option World
  | .acquire alloc nonblock timeoutMs =>
      if w.frees = 0 then some (w.acquire alloc nonblock timeoutMs).1 else none
  | .release b => if b ∈ w.out then some (w.release b) else none
  | .setConfig config realloc alloc =>
      if w.frees = 0 then some (w.setConfig config realloc alloc).1 else none
  | .prefill alloc => if w.frees = 0 then some (w.prefill alloc) else none
  | .drain => if w.frees = 0 then some w.drain else none
  | .destroy => if w.frees = 0 ∧ w.freeing = 0 then some w.destroy else none
  | .freeBuffer b => if b ∈ w.returning then some (w.freeBuffer b) else none
  | .finishRelease id => if id ∈ w.returned then some (w.finishRelease id) else none
  | .freePool => if 0 < w.freeing then some w.freePool else none

/-- One pool, from its creation. -/
def pool : System World Action where
  init w := ∃ allocator config alloc, w = create allocator config alloc
  next := next

end Zstreamer.BufferPool

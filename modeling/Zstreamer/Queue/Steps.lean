/-
# The queue as its threads see it

The same functions as in the sequential model, now one atomic step at a time: every
load, store, fetch-and-add and compare-and-swap of `zst_queue_push`, `zst_queue_pop`
and `zst_queue_is_full` is a step of its own, and so are taking and leaving the lock,
going to sleep and signalling.  Memory is sequentially consistent.  A weak
compare-and-swap may fail without reason, a sleeping thread may wake without a signal,
and a signal wakes one sleeping thread if there is one.

A thread is a program counter.  What it has read so far and still needs is part of the
counter: a position `pos`, the values of a check in progress, the buffer it returns.

Two logs are kept beside the memory and read by no step: `claimed` has the buffer of
each successful swap of the tail, in order, and `taken` what the winner of each swap
of the head has found in its slot.
-/

import Zstreamer.Queue.Config
import Zstreamer.Foundation.Runs
import Mathlib.Data.Fintype.Defs

namespace Zstreamer

open Foundation Function

/-- The three kinds of `timeout_ms`: zero, a deadline, and `UINT32_MAX`. -/
inductive Timeout
  | zero
  | deadline
  | infinite
  deriving DecidableEq, Repr

/-! ## The check for room -/

/-- Where a thread is inside `zst_queue_is_full`, up to its next atomic load. -/
inductive FullPc
  | sizeHead
  | sizeTail (head : ℕ)
  | bytes
  | durationHead
  | durationTail (head : ℕ)
  | scanHead (head tail idx : ℕ)
  | scanHeadPts (head tail idx : ℕ)
  | scanTail (head tail first : ℕ) (headPts : Option ℕ) (idx : ℕ)
  | scanTailPts (head tail : ℕ) (headPts : Option ℕ) (idx : ℕ)
  | sum (head tail idx acc : ℕ)
  | sumDuration (head tail idx acc : ℕ)
  deriving DecidableEq, Repr

namespace FullPc

/-- The check goes on, or has its answer. -/
abbrev Outcome := FullPc ⊕ Bool

variable (q : Queue)

/-- After the limits on buffers and bytes. -/
def afterBytes : Outcome :=
  if q.cfg.maxDuration > 0 then .inl .durationHead else .inr false

/-- After the limit on buffers. -/
def afterSize : Outcome := if q.cfg.maxBytes > 0 then .inl .bytes else afterBytes q

/-- The entry of `zst_queue_is_full`. -/
def start : Outcome := if q.cfg.maxBuffers > 0 then .inl .sizeHead else afterSize q

/-- The entry of the fallback sum. -/
def startSum (head tail : ℕ) : Outcome :=
  if head < tail then .inl (.sum head tail head 0)
  else .inr (decide (0 ≥ q.cfg.maxDuration))

/-- Both scans are done. -/
def decideSpan (head tail : ℕ) : Option ℕ → Option ℕ → Outcome
  | some headPts, some tailPts =>
      if tailPts ≥ headPts ∧ headPts ≠ 0 then
        .inr (decide (tailPts - headPts ≥ q.cfg.maxDuration))
      else startSum q head tail
  | _, _ => startSum q head tail

/-- The loop condition of the scan from the tail. -/
def enterScanTail (head tail first : ℕ) (headPts : Option ℕ) (idx : ℕ) : Outcome :=
  if idx ≥ head ∧ idx ≥ first then .inl (.scanTail head tail first headPts idx)
  else decideSpan q head tail headPts none

/-- The loop condition of the scan from the head. -/
def enterScanHead (head tail idx : ℕ) : Outcome :=
  if idx < tail then .inl (.scanHead head tail idx)
  else enterScanTail q head tail idx none (tail - 1)

/-- The next round of the fallback sum. -/
def nextSum (head tail idx acc : ℕ) : Outcome :=
  if idx + 1 < tail then .inl (.sum head tail (idx + 1) acc)
  else .inr (decide (acc ≥ q.cfg.maxDuration))

/-- One atomic load of `zst_queue_is_full`, `zst_queue_size` or
`zst_queue_get_duration`, and the code up to the next. -/
def step : FullPc → Outcome
  | .sizeHead => .inl (.sizeTail q.head)
  | .sizeTail head =>
      if sizeBetween head q.tail ≥ q.cfg.maxBuffers then .inr true else afterSize q
  | .bytes => if q.approxBytes ≥ q.cfg.maxBytes then .inr true else afterBytes q
  | .durationHead => .inl (.durationTail q.head)
  | .durationTail head =>
      if q.tail ≤ head then .inr (decide (0 ≥ q.cfg.maxDuration))
      else enterScanHead q head q.tail head
  | .scanHead head tail idx =>
      if (q.slot idx).sequence = idx + 1 then .inl (.scanHeadPts head tail idx)
      else enterScanHead q head tail (idx + 1)
  | .scanHeadPts head tail idx =>
      enterScanTail q head tail idx (some (q.slot idx).pts) (tail - 1)
  | .scanTail head tail first headPts idx =>
      if (q.slot idx).sequence = idx + 1 then .inl (.scanTailPts head tail headPts idx)
      else if idx = 0 then decideSpan q head tail headPts none
      else enterScanTail q head tail first headPts (idx - 1)
  | .scanTailPts head tail headPts idx =>
      decideSpan q head tail headPts (some (q.slot idx).pts)
  | .sum head tail idx acc =>
      if (q.slot idx).sequence = idx + 1 then .inl (.sumDuration head tail idx acc)
      else nextSum q head tail idx acc
  | .sumDuration head tail idx acc =>
      nextSum q head tail idx ((acc + (q.slot idx).duration) % 2 ^ 64)

end FullPc

/-! ## Program counters -/

/-- Which of its two wait loops a push is in: its slot is still in use, or one of the
extra limits is reached. -/
inductive FullKind
  | ring
  | limits
  deriving DecidableEq, Repr

/-- Where a thread is inside `zst_queue_push`. -/
inductive PushPc
  | loadTail
  | loadSequence (pos : ℕ)
  | checkFull (pos : ℕ) (full : FullPc)
  | swapTail (pos : ℕ)
  | storePts (pos : ℕ)
  | storeDuration (pos : ℕ)
  | storeBuf (pos : ℕ)
  | addBytes (pos : ℕ)
  | publish (pos : ℕ)
  | loadWaiters (pos : ℕ)
  | lockSignal (pos : ℕ)
  | signal (pos : ℕ)
  | unlockSignal
  | addWaiter (kind : FullKind) (pos : ℕ)
  | lock (kind : FullKind) (pos : ℕ)
  | recheckSequence (pos : ℕ)
  | recheckFull (pos : ℕ) (full : FullPc)
  | wait (kind : FullKind) (pos : ℕ)
  | blocked
  | wake (timedOut : Bool)
  | unlock (timedOut : Bool)
  | subWaiter (timedOut : Bool)
  deriving DecidableEq, Repr

/-- Where a thread is inside `zst_queue_pop`; `out` is what it has stored in `*out`. -/
inductive PopPc
  | loadHead
  | loadSequence (pos : ℕ)
  | swapHead (pos : ℕ)
  | loadBuf (pos : ℕ)
  | subBytes (pos : ℕ) (buf : Buffer)
  | resetPts (pos : ℕ) (out : Option Buffer)
  | resetDuration (pos : ℕ) (out : Option Buffer)
  | resetBuf (pos : ℕ) (out : Option Buffer)
  | release (pos : ℕ) (out : Option Buffer)
  | loadWaiters (pos : ℕ) (out : Option Buffer)
  | lockSignal (pos : ℕ) (out : Option Buffer)
  | signal (pos : ℕ) (out : Option Buffer)
  | unlockSignal (out : Option Buffer)
  | addWaiter (pos : ℕ)
  | lock (pos : ℕ)
  | recheckSequence (pos : ℕ)
  | wait (pos : ℕ)
  | blocked
  | wake (timedOut : Bool)
  | unlock (timedOut : Bool)
  | subWaiter (timedOut : Bool)
  deriving DecidableEq, Repr

/-- A thread is outside the queue or inside one of its two functions. -/
inductive QueuePc
  | idle
  | push (buf : Buffer) (timeout : Timeout) (pc : PushPc)
  | pop (timeout : Timeout) (pc : PopPc)
  deriving DecidableEq, Repr

/-! ## Memory and steps -/

variable {ι : Type}

/-- The whole queue: the ring, the lock with its holder, the numbers of waiters, and
the two logs. -/
structure QueueMemory (ι : Type) where
  q : Queue
  lock : Option ι
  waitersPush : ℕ
  waitersPop : ℕ
  claimed : List Buffer
  taken : List (ℕ × Option Buffer)

/-- A queue shared by threads. -/
structure QueueState (ι : Type) where
  mem : QueueMemory ι
  pc : ι → QueuePc

/-- What a scheduled thread does, where it has a choice. -/
inductive QueueChoice (ι : Type)
  | startPush (buf : Buffer) (timeout : Timeout)
  | startPop (timeout : Timeout)
  /-- The next step of the program. -/
  | run
  /-- The weak compare-and-swap fails, for a reason or for none. -/
  | swapFails
  /-- A sleeping thread wakes without a signal. -/
  | spuriousWake
  /-- A sleeping thread reaches its deadline. -/
  | deadline
  /-- The condition variable is signalled, waking `target` if any thread sleeps. -/
  | signal (target : Option ι)
  deriving DecidableEq

namespace QueueMemory

variable (m : QueueMemory ι)

/-- Write one field of the slot of a position. -/
def setSlot (pos : ℕ) (f : Slot → Slot) : QueueMemory ι := { m with q := m.q.setSlot pos f }

/-- The tail is claimed at `pos` for `buf`. -/
def claimTail (pos : ℕ) (buf : Buffer) : QueueMemory ι :=
  { m with q := { m.q with tail := pos + 1 }, claimed := m.claimed ++ [buf] }

/-- The head is claimed at `pos`. -/
def claimHead (pos : ℕ) : QueueMemory ι := { m with q := { m.q with head := pos + 1 } }

/-- What the winner of ticket `pos` has found in its slot. -/
def logTaken (pos : ℕ) (out : Option Buffer) : QueueMemory ι :=
  { m with taken := m.taken ++ [(pos, out)] }

/-- A fetch-and-add on the byte count. -/
def addBytes (n : ℕ) : QueueMemory ι :=
  { m with q := { m.q with approxBytes := (m.q.approxBytes + n) % 2 ^ 64 } }

/-- A fetch-and-sub on the byte count. -/
def subBytes (n : ℕ) : QueueMemory ι :=
  { m with q := { m.q with approxBytes := wrapSub m.q.approxBytes n } }

/-- Take the lock, if it is free. -/
def acquire (t : ι) : Option (QueueMemory ι) :=
  if m.lock.isNone then some { m with lock := some t } else none

/-- Leave the lock. -/
def unlock : QueueMemory ι := { m with lock := none }

end QueueMemory

/-- The result of a check made before claiming the tail at `pos`. -/
def PushPc.checked (cfg : QueueConfig) (buf : Buffer) (timeout : Timeout) (pos : ℕ) :
    FullPc.Outcome → QueuePc
  | .inl full => .push buf timeout (.checkFull pos full)
  | .inr false => .push buf timeout (.swapTail pos)
  | .inr true =>
      if cfg.mode = .async ∨ timeout = .zero then .idle
      else .push buf timeout (.addWaiter .limits pos)

/-- The result of a check made again under the lock. -/
def PushPc.rechecked (buf : Buffer) (timeout : Timeout) (pos : ℕ) : FullPc.Outcome → QueuePc
  | .inl full => .push buf timeout (.recheckFull pos full)
  | .inr true => .push buf timeout (.wait .limits pos)
  | .inr false => .push buf timeout (.unlock false)

/-- The next step of `zst_queue_push`, unless it is to wake another thread. -/
def PushPc.step (m : QueueMemory ι) (t : ι) (buf : Buffer) (timeout : Timeout) :
    PushPc → Option (QueueMemory ι × QueuePc)
  | .loadTail => some (m, .push buf timeout (.loadSequence m.q.tail))
  | .loadSequence pos =>
      let diff : ℤ := ((m.q.slot pos).sequence : ℤ) - (pos : ℤ)
      if diff = 0 then
        if m.q.cfg.hasExtraLimits then
          some (m, checked m.q.cfg buf timeout pos (FullPc.start m.q))
        else some (m, .push buf timeout (.swapTail pos))
      else if diff < 0 then
        if m.q.cfg.mode = .async ∨ timeout = .zero then some (m, .idle)
        else some (m, .push buf timeout (.addWaiter .ring pos))
      else some (m, .push buf timeout .loadTail)
  | .checkFull pos full => some (m, checked m.q.cfg buf timeout pos (full.step m.q))
  | .swapTail pos =>
      if m.q.tail = pos then some (m.claimTail pos buf, .push buf timeout (.storePts pos))
      else some (m, .push buf timeout (.loadSequence m.q.tail))
  | .storePts pos =>
      some (m.setSlot pos fun slot => { slot with pts := buf.pts },
        .push buf timeout (.storeDuration pos))
  | .storeDuration pos =>
      some (m.setSlot pos fun slot => { slot with duration := buf.duration },
        .push buf timeout (.storeBuf pos))
  | .storeBuf pos =>
      some (m.setSlot pos fun slot => { slot with buf := some buf },
        .push buf timeout (.addBytes pos))
  | .addBytes pos => some (m.addBytes buf.size, .push buf timeout (.publish pos))
  | .publish pos =>
      some (m.setSlot pos fun slot => { slot with sequence := pos + 1 },
        .push buf timeout (.loadWaiters pos))
  | .loadWaiters pos =>
      if m.waitersPop > 0 then some (m, .push buf timeout (.lockSignal pos)) else some (m, .idle)
  | .lockSignal pos => (m.acquire t).map fun m => (m, .push buf timeout (.signal pos))
  | .signal _ => none
  | .unlockSignal => some (m.unlock, .idle)
  | .addWaiter kind pos =>
      some ({ m with waitersPush := m.waitersPush + 1 }, .push buf timeout (.lock kind pos))
  | .lock .ring pos => (m.acquire t).map fun m => (m, .push buf timeout (.recheckSequence pos))
  | .lock .limits pos =>
      (m.acquire t).map fun m => (m, rechecked buf timeout pos (FullPc.start m.q))
  | .recheckSequence pos =>
      if ((m.q.slot pos).sequence : ℤ) - (pos : ℤ) < 0 then
        some (m, .push buf timeout (.wait .ring pos))
      else some (m, .push buf timeout (.unlock false))
  | .recheckFull pos full => some (m, rechecked buf timeout pos (full.step m.q))
  | .wait _ _ => some (m.unlock, .push buf timeout .blocked)
  | .blocked => none
  | .wake timedOut => (m.acquire t).map fun m => (m, .push buf timeout (.unlock timedOut))
  | .unlock timedOut => some (m.unlock, .push buf timeout (.subWaiter timedOut))
  | .subWaiter timedOut =>
      some ({ m with waitersPush := m.waitersPush - 1 },
        if timedOut then .idle else .push buf timeout .loadTail)

/-- The next step of `zst_queue_pop`, unless it is to wake another thread. -/
def PopPc.step (m : QueueMemory ι) (t : ι) (timeout : Timeout) :
    PopPc → Option (QueueMemory ι × QueuePc)
  | .loadHead => some (m, .pop timeout (.loadSequence m.q.head))
  | .loadSequence pos =>
      let diff : ℤ := ((m.q.slot pos).sequence : ℤ) - ((pos + 1 : ℕ) : ℤ)
      if diff = 0 then some (m, .pop timeout (.swapHead pos))
      else if diff < 0 then
        if timeout = .zero then some (m, .idle) else some (m, .pop timeout (.addWaiter pos))
      else some (m, .pop timeout .loadHead)
  | .swapHead pos =>
      if m.q.head = pos then some (m.claimHead pos, .pop timeout (.loadBuf pos))
      else some (m, .pop timeout (.loadSequence m.q.head))
  | .loadBuf pos =>
      let out := (m.q.slot pos).buf
      match out with
      | some buf => some (m.logTaken pos out, .pop timeout (.subBytes pos buf))
      | none => some (m.logTaken pos out, .pop timeout (.resetPts pos none))
  | .subBytes pos buf => some (m.subBytes buf.size, .pop timeout (.resetPts pos (some buf)))
  | .resetPts pos out =>
      some (m.setSlot pos fun slot => { slot with pts := 0 }, .pop timeout (.resetDuration pos out))
  | .resetDuration pos out =>
      some (m.setSlot pos fun slot => { slot with duration := 0 },
        .pop timeout (.resetBuf pos out))
  | .resetBuf pos out =>
      some (m.setSlot pos fun slot => { slot with buf := none }, .pop timeout (.release pos out))
  | .release pos out =>
      some (m.setSlot pos fun slot => { slot with sequence := pos + m.q.cfg.capacity },
        .pop timeout (.loadWaiters pos out))
  | .loadWaiters pos out =>
      if m.waitersPush > 0 then some (m, .pop timeout (.lockSignal pos out)) else some (m, .idle)
  | .lockSignal pos out => (m.acquire t).map fun m => (m, .pop timeout (.signal pos out))
  | .signal _ _ => none
  | .unlockSignal _ => some (m.unlock, .idle)
  | .addWaiter pos =>
      some ({ m with waitersPop := m.waitersPop + 1 }, .pop timeout (.lock pos))
  | .lock pos => (m.acquire t).map fun m => (m, .pop timeout (.recheckSequence pos))
  | .recheckSequence pos =>
      if ((m.q.slot pos).sequence : ℤ) - ((pos + 1 : ℕ) : ℤ) < 0 then
        some (m, .pop timeout (.wait pos))
      else some (m, .pop timeout (.unlock false))
  | .wait _ => some (m.unlock, .pop timeout .blocked)
  | .blocked => none
  | .wake timedOut => (m.acquire t).map fun m => (m, .pop timeout (.unlock timedOut))
  | .unlock timedOut => some (m.unlock, .pop timeout (.subWaiter timedOut))
  | .subWaiter timedOut =>
      some ({ m with waitersPop := m.waitersPop - 1 },
        if timedOut then .idle else .pop timeout .loadHead)

/-- A step of one thread that touches no other thread. -/
def QueuePc.step (m : QueueMemory ι) (t : ι) :
    QueuePc → QueueChoice ι → Option (QueueMemory ι × QueuePc)
  | .idle, .startPush buf timeout => some (m, .push buf timeout .loadTail)
  | .idle, .startPop timeout => some (m, .pop timeout .loadHead)
  | .push buf timeout pc, .run => pc.step m t buf timeout
  | .pop timeout pc, .run => pc.step m t timeout
  | .push buf timeout (.swapTail _), .swapFails =>
      some (m, .push buf timeout (.loadSequence m.q.tail))
  | .pop timeout (.swapHead _), .swapFails => some (m, .pop timeout (.loadSequence m.q.head))
  | .push buf timeout .blocked, .spuriousWake => some (m, .push buf timeout (.wake false))
  | .pop timeout .blocked, .spuriousWake => some (m, .pop timeout (.wake false))
  | .push buf .deadline .blocked, .deadline => some (m, .push buf .deadline (.wake true))
  | .pop .deadline .blocked, .deadline => some (m, .pop .deadline (.wake true))
  | _, _ => none

namespace QueuePc

/-- Asleep on `not_empty`. -/
def sleepsNotEmpty : QueuePc → Bool
  | .pop _ .blocked => true
  | _ => false

/-- Asleep on `not_full`. -/
def sleepsNotFull : QueuePc → Bool
  | .push _ _ .blocked => true
  | _ => false

/-- A sleeping thread after a signal. -/
def woken : QueuePc → QueuePc
  | .push buf timeout .blocked => .push buf timeout (.wake false)
  | .pop timeout .blocked => .pop timeout (.wake false)
  | pc => pc

/-- For a thread about to signal: who may be asleep there, and where it goes on. -/
def signals : QueuePc → Option ((QueuePc → Bool) × QueuePc)
  | .push buf timeout (.signal _) => some (sleepsNotEmpty, .push buf timeout .unlockSignal)
  | .pop timeout (.signal _ out) => some (sleepsNotFull, .pop timeout (.unlockSignal out))
  | _ => none

end QueuePc

section Threads

variable [Fintype ι] [DecidableEq ι]

/-- `pthread_cond_signal` by thread `t`. -/
def QueueState.signal (s : QueueState ι) (t : ι) (target : Option ι) : Option (QueueState ι) :=
  match (s.pc t).signals with
  | none => none
  | some (sleeps, after) =>
      match target with
      | some u =>
          if sleeps (s.pc u) then
            some { s with pc := update (update s.pc u (s.pc u).woken) t after }
          else none
      | none =>
          if ∀ u, sleeps (s.pc u) = false then some { s with pc := update s.pc t after }
          else none

/-- One step of one thread. -/
def QueueState.next (s : QueueState ι) : ι × QueueChoice ι → Option (QueueState ι)
  | (t, .signal target) => s.signal t target
  | (t, choice) =>
      ((s.pc t).step s.mem t choice).map fun (m, pc) => ⟨m, update s.pc t pc⟩

/-- The queue shared by the threads of `ι`, from its creation. -/
def queueSystem (ι : Type) [Fintype ι] [DecidableEq ι] (cfg : QueueConfig) :
    System (QueueState ι) (ι × QueueChoice ι) where
  init s := s = ⟨⟨Queue.create cfg, none, 0, 0, [], []⟩, fun _ => .idle⟩
  next := QueueState.next

/-- What a signal of thread `t` does: the signaller goes on, and if any thread sleeps, one
of them wakes. -/
inductive SignalStep (s : QueueState ι) (t : ι) : QueueState ι → Prop
  | pushedNone {buf : Buffer} {timeout : Timeout} {pos : ℕ}
      (hpc : s.pc t = .push buf timeout (.signal pos))
      (hnone : ∀ u, (s.pc u).sleepsNotEmpty = false) :
      SignalStep s t ⟨s.mem, update s.pc t (.push buf timeout .unlockSignal)⟩
  | pushedSome {buf : Buffer} {timeout timeout' : Timeout} {pos : ℕ} {u : ι}
      (hpc : s.pc t = .push buf timeout (.signal pos)) (hsleeps : s.pc u = .pop timeout' .blocked) :
      SignalStep s t ⟨s.mem, update (update s.pc u (.pop timeout' (.wake false)))
        t (.push buf timeout .unlockSignal)⟩
  | poppedNone {timeout : Timeout} {pos : ℕ} {out : Option Buffer}
      (hpc : s.pc t = .pop timeout (.signal pos out))
      (hnone : ∀ u, (s.pc u).sleepsNotFull = false) :
      SignalStep s t ⟨s.mem, update s.pc t (.pop timeout (.unlockSignal out))⟩
  | poppedSome {buf : Buffer} {timeout timeout' : Timeout} {pos : ℕ} {out : Option Buffer} {u : ι}
      (hpc : s.pc t = .pop timeout (.signal pos out))
      (hsleeps : s.pc u = .push buf timeout' .blocked) :
      SignalStep s t ⟨s.mem, update
        (update s.pc u (.push buf timeout' (.wake false))) t
        (.pop timeout (.unlockSignal out))⟩

theorem QueuePc.sleepsNotEmpty_eq {pc : QueuePc} (hsleeps : pc.sleepsNotEmpty = true) :
    ∃ timeout, pc = .pop timeout .blocked := by
  unfold QueuePc.sleepsNotEmpty at hsleeps
  split at hsleeps
  · exact ⟨_, rfl⟩
  · cases hsleeps

theorem QueuePc.sleepsNotFull_eq {pc : QueuePc} (hsleeps : pc.sleepsNotFull = true) :
    ∃ buf timeout, pc = .push buf timeout .blocked := by
  unfold QueuePc.sleepsNotFull at hsleeps
  split at hsleeps
  · exact ⟨_, _, rfl⟩
  · cases hsleeps

/-- The moves of one thread in a signal. -/
inductive SignalMove : QueuePc → QueuePc → Prop
  | wakePush (buf : Buffer) (timeout : Timeout) :
      SignalMove (.push buf timeout .blocked) (.push buf timeout (.wake false))
  | wakePop (timeout : Timeout) : SignalMove (.pop timeout .blocked) (.pop timeout (.wake false))
  | pushed (buf : Buffer) (timeout : Timeout) (pos : ℕ) :
      SignalMove (.push buf timeout (.signal pos)) (.push buf timeout .unlockSignal)
  | popped (timeout : Timeout) (pos : ℕ) (out : Option Buffer) :
      SignalMove (.pop timeout (.signal pos out)) (.pop timeout (.unlockSignal out))

section Cases

variable {s s' : QueueState ι} {t : ι}

theorem QueueState.signal_cases {target : Option ι} (hsignal : s.signal t target = some s') :
    SignalStep s t s' := by
  unfold QueueState.signal QueuePc.signals at hsignal
  cases hpc : s.pc t with
  | idle =>
      rw [hpc] at hsignal
      cases hsignal
  | push buf timeout ppc =>
      rw [hpc] at hsignal
      cases ppc with
      | signal pos =>
          cases target with
          | none =>
              dsimp only at hsignal
              split at hsignal
              case isTrue hnone =>
                cases hsignal
                exact .pushedNone hpc hnone
              case isFalse => cases hsignal
          | some u =>
              dsimp only at hsignal
              split at hsignal
              case isTrue hsleeps =>
                obtain ⟨timeout', hu⟩ := QueuePc.sleepsNotEmpty_eq hsleeps
                cases hsignal
                rw [hu]
                exact .pushedSome hpc hu
              case isFalse => cases hsignal
      | _ => cases hsignal
  | pop timeout ppc =>
      rw [hpc] at hsignal
      cases ppc with
      | signal pos out =>
          cases target with
          | none =>
              dsimp only at hsignal
              split at hsignal
              case isTrue hnone =>
                cases hsignal
                exact .poppedNone hpc hnone
              case isFalse => cases hsignal
          | some u =>
              dsimp only at hsignal
              split at hsignal
              case isTrue hsleeps =>
                obtain ⟨buf, timeout', hu⟩ := QueuePc.sleepsNotFull_eq hsleeps
                cases hsignal
                rw [hu]
                exact .poppedSome hpc hu
              case isFalse => cases hsignal
      | _ => cases hsignal

omit [Fintype ι] in
/-- **A signal moves program counters only**, so it keeps what its moves keep. -/
theorem SignalStep.invariant {P : QueueMemory ι → (ι → QueuePc) → Prop}
    (hsignal : SignalStep s t s') (hinv : P s.mem s.pc)
    (hmove : ∀ pc u p, P s.mem pc → SignalMove (pc u) p → P s.mem (update pc u p)) :
    P s'.mem s'.pc := by
  cases hsignal with
  | pushedNone hpc => exact hmove s.pc t _ hinv (hpc ▸ .pushed ..)
  | poppedNone hpc => exact hmove s.pc t _ hinv (hpc ▸ .popped ..)
  | @pushedSome _ _ _ _ u hpc hsleeps =>
      have htu : t ≠ u := by
        rintro rfl
        cases hpc.symm.trans hsleeps
      refine hmove _ t _ (hmove s.pc u _ hinv (hsleeps ▸ .wakePop _)) ?_
      rw [update_of_ne htu, hpc]
      exact .pushed ..
  | @poppedSome _ _ _ _ _ u hpc hsleeps =>
      have htu : t ≠ u := by
        rintro rfl
        cases hpc.symm.trans hsleeps
      refine hmove _ t _ (hmove s.pc u _ hinv (hsleeps ▸ .wakePush ..)) ?_
      rw [update_of_ne htu, hpc]
      exact .popped ..

/-- Every step is a signal or a step of one thread alone. -/
theorem QueueState.next_cases {choice : QueueChoice ι} (hnext : s.next (t, choice) = some s') :
    SignalStep s t s' ∨ ∃ m' p, (s.pc t).step s.mem t choice = some (m', p) ∧
      s' = ⟨m', update s.pc t p⟩ := by
  unfold QueueState.next at hnext
  split at hnext
  case h_1 u target heq =>
    cases heq
    exact .inl (QueueState.signal_cases hnext)
  case h_2 u c hne heq =>
    cases heq
    obtain ⟨⟨m', p⟩, hstep, rfl⟩ := Option.map_eq_some_iff.mp hnext
    exact .inr ⟨m', p, hstep, rfl⟩

end Cases

end Threads

end Zstreamer

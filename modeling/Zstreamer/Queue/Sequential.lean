/-
# The queue as one thread sees it

`zst_queue_push` and `zst_queue_pop` with a timeout of zero, `zst_queue_size` and
`zst_queue_flush`, each run to its end without interference.  The loops of the source
stay: the scans of `zst_queue_get_duration` from both ends, the retry of a weak
compare-and-swap, which may fail for no reason any number of times, and the loop of
the flush.

With no other thread a retry finds the memory as it was, so the only unknown is how
often a compare-and-swap fails spuriously; each operation is told that number.  A
loop that would never end answers `none`.
-/

import Zstreamer.Core.Element
import Zstreamer.Foundation.Refinement
import Zstreamer.Queue.Steps

namespace Zstreamer

open Foundation

/-- What a push that finds no room answers when it may not wait. -/
def QueueConfig.refusal (cfg : QueueConfig) : Result :=
  match cfg.mode with
  | .async => .error
  | .sync => .timeout

namespace Queue

variable (q : Queue)

/-- `zst_queue_size`. -/
def size : ℕ := sizeBetween q.head q.tail

/-- The first scan of `zst_queue_get_duration`: the first published slot below
`tail`, with its `pts`. -/
def scanHead (tail : ℕ) : ℕ → ℕ → ℕ × Option ℕ
  | 0, idx => (idx, none)
  | fuel + 1, idx =>
      if idx < tail then
        if (q.slot idx).sequence = idx + 1 then (idx, some (q.slot idx).pts)
        else scanHead tail fuel (idx + 1)
      else (idx, none)

/-- The second scan: the last published slot, looking down from the tail. -/
def scanTail (head first : ℕ) : ℕ → ℕ → Option ℕ
  | 0, _ => none
  | fuel + 1, idx =>
      if idx ≥ head ∧ idx ≥ first then
        if (q.slot idx).sequence = idx + 1 then some (q.slot idx).pts
        else if idx = 0 then none
        else scanTail head first fuel (idx - 1)
      else none

/-- The fallback: the durations of the published slots, added in 64 bits. -/
def sumDurations (head tail : ℕ) : ℕ :=
  (List.range' head (tail - head)).foldl (fun sum i =>
    if (q.slot i).sequence = i + 1 then (sum + (q.slot i).duration) % 2 ^ 64 else sum) 0

/-- `zst_queue_get_duration`.  No scan takes more steps than there are positions. -/
def getDuration : ℕ :=
  let head := q.head
  let tail := q.tail
  if tail ≤ head then 0
  else
    let (firstIdx, headPts) := q.scanHead tail (tail - head) head
    let tailPts := q.scanTail head firstIdx (tail - head) (tail - 1)
    match headPts, tailPts with
    | some headPts, some tailPts =>
        if tailPts ≥ headPts ∧ headPts ≠ 0 then tailPts - headPts
        else q.sumDurations head tail
    | _, _ => q.sumDurations head tail

/-- `zst_queue_is_full`. -/
def isFull : Bool :=
  if q.cfg.maxBuffers > 0 ∧ q.size ≥ q.cfg.maxBuffers then true
  else if q.cfg.maxBytes > 0 ∧ q.approxBytes ≥ q.cfg.maxBytes then true
  else if q.cfg.maxDuration > 0 ∧ q.getDuration ≥ q.cfg.maxDuration then true
  else false

/-- The end of `zst_queue_push`, after the tail has been claimed at `pos`. -/
def fillSlot (pos : ℕ) (buf : Buffer) : Queue :=
  let q := q.setSlot pos fun slot => { slot with pts := buf.pts }
  let q := q.setSlot pos fun slot => { slot with duration := buf.duration }
  let q := q.setSlot pos fun slot => { slot with buf := some buf }
  let q := { q with approxBytes := (q.approxBytes + buf.size) % 2 ^ 64 }
  q.setSlot pos fun slot => { slot with sequence := pos + 1 }

/-- The loop of `zst_queue_push` with a timeout of zero, at position `pos`.  When the
slot is ahead of `pos` the source loads the tail again; with no other thread that is
`pos` again and the loop does not end. -/
def pushLoop (buf : Buffer) : ℕ → ℕ → Option (Result × Queue)
  | spurious, pos =>
      let diff : ℤ := ((q.slot pos).sequence : ℤ) - (pos : ℤ)
      if diff = 0 then
        if q.cfg.hasExtraLimits && q.isFull then some (q.cfg.refusal, q)
        else
          match spurious with
          | 0 =>
              if q.tail = pos then some (.ok, { q with tail := pos + 1 }.fillSlot pos buf)
              else none
          | spurious + 1 => pushLoop buf spurious q.tail
      else if diff < 0 then some (q.cfg.refusal, q)
      else none

/-- `zst_queue_push(q, buf, 0)`. -/
def push (buf : Buffer) (spurious : ℕ) : Option (Result × Queue) :=
  q.pushLoop buf spurious q.tail

/-- The end of `zst_queue_pop`, after the head has been claimed at `pos`. -/
def emptySlot (pos : ℕ) : Option Buffer × Queue :=
  let buf := (q.slot pos).buf
  let q :=
    match buf with
    | some buf => { q with approxBytes := wrapSub q.approxBytes buf.size }
    | none => q
  let q := q.setSlot pos fun slot => { slot with pts := 0 }
  let q := q.setSlot pos fun slot => { slot with duration := 0 }
  let q := q.setSlot pos fun slot => { slot with buf := none }
  (buf, q.setSlot pos fun slot => { slot with sequence := pos + q.cfg.capacity })

/-- The loop of `zst_queue_pop` with a timeout of zero, at position `pos`. -/
def popLoop : ℕ → ℕ → Option ((Result × Option Buffer) × Queue)
  | spurious, pos =>
      let diff : ℤ := ((q.slot pos).sequence : ℤ) - ((pos + 1 : ℕ) : ℤ)
      if diff = 0 then
        match spurious with
        | 0 =>
            if q.head = pos then
              let (buf, q) := { q with head := pos + 1 }.emptySlot pos
              some ((.ok, buf), q)
            else none
        | spurious + 1 => popLoop spurious q.head
      else if diff < 0 then some ((.timeout, none), q)
      else none

/-- `zst_queue_pop(q, &buf, 0)`. -/
def pop (spurious : ℕ) : Option ((Result × Option Buffer) × Queue) :=
  q.popLoop spurious q.head

/-- The loop of `zst_queue_flush`; `spurious i` is for the pop of round `i`. -/
def flushLoop (spurious : ℕ → ℕ) : ℕ → ℕ → Queue → Option Queue
  | 0, _, _ => none
  | fuel + 1, round, q =>
      match q.pop (spurious round) with
      | none => none
      | some ((.ok, _), q) => flushLoop spurious fuel (round + 1) q
      | some (_, q) => some q

/-- `zst_queue_flush`.  One round more than there are positions between the counters. -/
def flush (spurious : ℕ → ℕ) : Option Queue :=
  flushLoop spurious (q.tail - q.head + 1) 0 q

end Queue

/-- The calls of one thread. -/
inductive QueueOp
  | push (buf : Buffer) (spurious : ℕ)
  | pop (spurious : ℕ)
  | size
  | flush (spurious : ℕ → ℕ)

/-- What a call returns, with what it stores in `*out`. -/
inductive QueueAnswer
  | pushed (result : Result)
  | popped (result : Result) (buf : Option Buffer)
  | sized (size : ℕ)
  | flushed
  deriving DecidableEq, Repr

/-- The queue of the source as a machine. -/
def queueMachine : Machine Queue QueueOp QueueAnswer where
  step q op :=
    match op with
    | .push buf spurious => (q.push buf spurious).map fun (r, q) => (.pushed r, q)
    | .pop spurious => (q.pop spurious).map fun ((r, buf), q) => (.popped r buf, q)
    | .size => some (.sized q.size, q)
    | .flush spurious => (q.flush spurious).map fun q => (.flushed, q)

end Zstreamer

/-! # The check for room, undisturbed

`zst_queue_is_full` loads one word at a time, so in the concurrent model it is a small
program of its own.  Run against a memory that stands still it must be the function of
the sequential model.  `FullPc.answer` says what a check that has got somewhere will
answer if nothing changes any more, in the words of the sequential model; no step
changes it, and at the entry it is `Queue.isFull`.
-/

namespace Zstreamer

variable (q : Queue)

/-! ## What is left of each loop -/

namespace Queue

/-- The duration, from the results of the two scans. -/
def span (head tail : ℕ) : Option ℕ → Option ℕ → ℕ
  | some headPts, some tailPts =>
      if tailPts ≥ headPts ∧ headPts ≠ 0 then tailPts - headPts else q.sumDurations head tail
  | _, _ => q.sumDurations head tail

/-- The scan from the tail, inside its loop. -/
def scanTailBody (head first idx : ℕ) : Option ℕ :=
  if (q.slot idx).sequence = idx + 1 then some (q.slot idx).pts
  else if idx = 0 then none
  else q.scanTail head first (idx - head) (idx - 1)

/-- The duration, from where the scan from the head has ended. -/
def spanAfterHead (head tail : ℕ) (found : ℕ × Option ℕ) : ℕ :=
  q.span head tail found.2 (q.scanTail head found.1 (tail - 1 + 1 - head) (tail - 1))

/-- The scan from the head, inside its loop. -/
def scanHeadBody (tail idx : ℕ) : ℕ × Option ℕ :=
  if (q.slot idx).sequence = idx + 1 then (idx, some (q.slot idx).pts)
  else q.scanHead tail (tail - (idx + 1)) (idx + 1)

/-- The fallback sum, from position `idx` on. -/
def sumFrom (tail idx acc : ℕ) : ℕ :=
  (List.range' idx (tail - idx)).foldl (fun sum i =>
    if (q.slot i).sequence = i + 1 then (sum + (q.slot i).duration) % 2 ^ 64 else sum) acc

theorem sumFrom_of_lt {tail idx : ℕ} (hlt : idx < tail) (acc : ℕ) :
    q.sumFrom tail idx acc = q.sumFrom tail (idx + 1)
      (if (q.slot idx).sequence = idx + 1 then (acc + (q.slot idx).duration) % 2 ^ 64 else acc) := by
  have hrange : tail - idx = (tail - (idx + 1)) + 1 := by omega
  rw [sumFrom, hrange, List.range'_succ, List.foldl_cons, sumFrom]

theorem sumFrom_of_le {tail idx : ℕ} (hle : tail ≤ idx) (acc : ℕ) :
    q.sumFrom tail idx acc = acc := by
  rw [sumFrom, Nat.sub_eq_zero_of_le hle]
  rfl

theorem getDuration_eq : q.getDuration =
    if q.tail ≤ q.head then 0
    else q.spanAfterHead q.head q.tail (q.scanHead q.tail (q.tail - q.head) q.head) := by
  unfold getDuration
  dsimp only
  split
  · rfl
  case isFalse hlt =>
    have htail : q.tail - 1 + 1 = q.tail := by omega
    rw [spanAfterHead, htail]
    rfl

end Queue

namespace FullPc

/-- The answer of the limit on the duration. -/
def durationReached (duration : ℕ) : Bool := decide (duration ≥ q.cfg.maxDuration)

/-- The answer after the limits on buffers and bytes. -/
def answerAfterBytes : Bool := decide (q.cfg.maxDuration > 0) && durationReached q q.getDuration

/-- The answer after the limit on buffers. -/
def answerAfterSize : Bool :=
  decide (q.cfg.maxBytes > 0 ∧ q.approxBytes ≥ q.cfg.maxBytes) || answerAfterBytes q

/-- What the check will answer if the memory stands still. -/
def answer : FullPc → Bool
  | .sizeHead => decide (q.size ≥ q.cfg.maxBuffers) || answerAfterSize q
  | .sizeTail head => decide (sizeBetween head q.tail ≥ q.cfg.maxBuffers) || answerAfterSize q
  | .bytes => decide (q.approxBytes ≥ q.cfg.maxBytes) || answerAfterBytes q
  | .durationHead => durationReached q q.getDuration
  | .durationTail head => durationReached q
      (if q.tail ≤ head then 0
      else q.spanAfterHead head q.tail (q.scanHead q.tail (q.tail - head) head))
  | .scanHead head tail idx =>
      durationReached q (q.spanAfterHead head tail (q.scanHeadBody tail idx))
  | .scanHeadPts head tail idx =>
      durationReached q (q.spanAfterHead head tail (idx, some (q.slot idx).pts))
  | .scanTail head tail first headPts idx =>
      durationReached q (q.span head tail headPts (q.scanTailBody head first idx))
  | .scanTailPts head tail headPts idx =>
      durationReached q (q.span head tail headPts (some (q.slot idx).pts))
  | .sum _ tail idx acc => durationReached q (q.sumFrom tail (idx + 1)
      (if (q.slot idx).sequence = idx + 1 then (acc + (q.slot idx).duration) % 2 ^ 64 else acc))
  | .sumDuration _ tail idx acc =>
      durationReached q (q.sumFrom tail (idx + 1) ((acc + (q.slot idx).duration) % 2 ^ 64))

/-- The same for a check that may have ended. -/
def Outcome.answer : Outcome → Bool
  | .inl full => full.answer q
  | .inr b => b

/-! ## No step changes the answer -/

theorem startSum_answer (head tail : ℕ) :
    (startSum q head tail).answer q = durationReached q (q.sumDurations head tail) := by
  unfold startSum
  split
  case isTrue hlt =>
    show durationReached q (q.sumFrom tail (head + 1) _) = durationReached q (q.sumFrom tail head 0)
    rw [q.sumFrom_of_lt hlt]
  case isFalse hge =>
    have hsum : q.sumDurations head tail = 0 := q.sumFrom_of_le (not_lt.mp hge) 0
    rw [hsum]
    rfl

theorem decideSpan_answer (head tail : ℕ) (headPts tailPts : Option ℕ) :
    (decideSpan q head tail headPts tailPts).answer q =
      durationReached q (q.span head tail headPts tailPts) := by
  cases headPts with
  | none => exact startSum_answer q head tail
  | some headPts =>
      cases tailPts with
      | none => exact startSum_answer q head tail
      | some tailPts =>
          simp only [decideSpan, Queue.span]
          split
          · rfl
          · exact startSum_answer q head tail

theorem enterScanTail_answer (head tail first : ℕ) (headPts : Option ℕ) (idx : ℕ) :
    (enterScanTail q head tail first headPts idx).answer q =
      durationReached q (q.span head tail headPts
        (q.scanTail head first (idx + 1 - head) idx)) := by
  unfold enterScanTail
  split
  case isTrue hin =>
    have hfuel : idx + 1 - head = (idx - head) + 1 := by omega
    rw [hfuel, Queue.scanTail, if_pos hin]
    rfl
  case isFalse hout =>
    have hnone : q.scanTail head first (idx + 1 - head) idx = none := by
      cases idx + 1 - head with
      | zero => rfl
      | succ fuel => rw [Queue.scanTail, if_neg hout]
    rw [hnone]
    exact decideSpan_answer q head tail headPts none

theorem enterScanHead_answer (head tail idx : ℕ) :
    (enterScanHead q head tail idx).answer q =
      durationReached q (q.spanAfterHead head tail (q.scanHead tail (tail - idx) idx)) := by
  unfold enterScanHead
  split
  case isTrue hlt =>
    have hfuel : tail - idx = (tail - (idx + 1)) + 1 := by omega
    rw [hfuel, Queue.scanHead, if_pos hlt]
    rfl
  case isFalse hge =>
    rw [Nat.sub_eq_zero_of_le (not_lt.mp hge)]
    exact enterScanTail_answer q head tail idx none (tail - 1)

theorem nextSum_answer (head tail idx acc : ℕ) :
    (nextSum q head tail idx acc).answer q = durationReached q (q.sumFrom tail (idx + 1) acc) := by
  unfold nextSum
  split
  case isTrue hlt =>
    rw [q.sumFrom_of_lt hlt]
    rfl
  case isFalse hge =>
    rw [q.sumFrom_of_le (not_lt.mp hge)]
    rfl

theorem afterBytes_answer : (afterBytes q).answer q = answerAfterBytes q := by
  unfold afterBytes answerAfterBytes
  split
  case isTrue hpos => simp [Outcome.answer, answer, hpos]
  case isFalse hzero => simp [Outcome.answer, hzero]

theorem afterSize_answer : (afterSize q).answer q = answerAfterSize q := by
  unfold afterSize answerAfterSize
  split
  case isTrue hpos => simp [Outcome.answer, answer, hpos]
  case isFalse hzero => simp [afterBytes_answer, hzero]

/-- At the entry the answer is that of the sequential model. -/
theorem start_answer : (start q).answer q = q.isFull := by
  have hafter : answerAfterSize q = (if q.cfg.maxBytes > 0 ∧ q.approxBytes ≥ q.cfg.maxBytes then
      true else if q.cfg.maxDuration > 0 ∧ q.getDuration ≥ q.cfg.maxDuration then true
      else false) := by
    unfold answerAfterSize answerAfterBytes durationReached
    split
    case isTrue hreached => simp [hreached]
    case isFalse hbelow => simp [hbelow]
  unfold start Queue.isFull
  split
  case isTrue hpos =>
    simp only [Outcome.answer, answer, hafter, hpos, true_and]
    split <;> simp_all
  case isFalse hzero =>
    have hbelow : ¬ (q.cfg.maxBuffers > 0 ∧ q.size ≥ q.cfg.maxBuffers) := fun h => hzero h.1
    rw [afterSize_answer, hafter, if_neg hbelow]

/-- A step of the check does not change the answer. -/
theorem step_answer (full : FullPc) : (full.step q).answer q = full.answer q := by
  cases full with
  | sizeHead => rfl
  | sizeTail head =>
      simp only [step, answer]
      split
      case isTrue hreached => simp [Outcome.answer, hreached]
      case isFalse hbelow => simp [afterSize_answer, hbelow]
  | bytes =>
      simp only [step, answer]
      split
      case isTrue hreached => simp [Outcome.answer, hreached]
      case isFalse hbelow => simp [afterBytes_answer, hbelow]
  | durationHead =>
      show durationReached q _ = durationReached q _
      rw [q.getDuration_eq]
  | durationTail head =>
      simp only [step, answer]
      split
      · rfl
      · exact enterScanHead_answer q head q.tail head
  | scanHead head tail idx =>
      simp only [step, answer, Queue.scanHeadBody]
      split
      · rfl
      · exact enterScanHead_answer q head tail (idx + 1)
  | scanHeadPts head tail idx => exact enterScanTail_answer q head tail idx _ (tail - 1)
  | scanTail head tail first headPts idx =>
      simp only [step, answer, Queue.scanTailBody]
      split
      · rfl
      · split
        · exact decideSpan_answer q head tail headPts none
        case isFalse hpos =>
          have hfuel : idx - 1 + 1 = idx := by omega
          rw [enterScanTail_answer, hfuel]
  | scanTailPts head tail headPts idx => exact decideSpan_answer q head tail headPts _
  | sum head tail idx acc =>
      simp only [step, answer]
      split
      · rfl
      · exact nextSum_answer q head tail idx acc
  | sumDuration head tail idx acc => exact nextSum_answer q head tail idx _

end FullPc

end Zstreamer

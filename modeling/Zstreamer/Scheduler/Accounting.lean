/-
# Tokens and runs

The tokens that are out are counted, and no element runs twice at once.
-/

import Zstreamer.Scheduler.Ledger

/-! # Counting the tokens that are out

`zst_element_destroy` and `zst_pipeline_remove_element_dynamic` wait for
`sched_task_refs` to become zero, so it has to say how many tokens of the element are
out, and an element can be scheduled again only if `is_queued` is cleared when its
token comes back.

Both go wrong when the element leaves the pipeline while its token is out.
`pipeline_remove_locked` clears `memory.priv`, and the worker that takes the token then
neither clears the flag nor counts the token off.  The flag stays set and the count
stays above zero for good, also when the element enters the pipeline again.  Where no
thread finds a token in that condition the books are right in every state.
-/

namespace Zstreamer.Scheduler

open Foundation

variable {ι : Type} [Fintype ι] [DecidableEq ι] {setting : Setting} {s : Sched ι} {el : ℕ}

/-- No thread has won the element's flag without having pushed its token yet. -/
def Settled (s : Sched ι) (el : ℕ) : Prop :=
  ∀ t, (s.place t).claiming el = 0 ∧ (s.place t).putting el = 0

instance (s : Sched ι) (el : ℕ) : Decidable (Settled s el) :=
  inferInstanceAs (Decidable (∀ _, _))

/-- The count is the tokens in the ready queue and those that are being executed, and is
not zero if the flag is set. -/
def RefsAgree (s : Sched ι) (el : ℕ) : Prop :=
  s.schedTaskRefs el = s.readyQueue.count el + tally (Place.executing el) s.place ∧
  (s.isQueued el = true → 1 ≤ s.schedTaskRefs el)

/-- **The count is the number of tokens that are out**, in every run in which no thread
finds `memory.priv` of the element's token cleared.  A thread between the exchange and the
end of its push has a token that is not in the ready queue yet; it is counted once
`sched_task_refs` has been raised for it. -/
theorem task_refs_accounted (hs : (system ι setting).ReachableVia (Kept el) s) :
    s.schedTaskRefs el = s.readyQueue.count el + tally (Place.executing el) s.place +
      tally (Place.putting el) s.place ∧
    (s.isQueued el = true → 1 ≤ s.schedTaskRefs el ∨ ∃ t, (s.place t).claiming el ≠ 0) ∧
    (Settled s el → RefsAgree s el) := by
  obtain ⟨hrefs, howners⟩ := exact_of_kept hs
  have hholds : tally (Place.holds el) s.place =
      tally (Place.executing el) s.place + tally (Place.putting el) s.place :=
    tally_add _ _ _
  have hcount : s.schedTaskRefs el = s.readyQueue.count el +
      tally (Place.executing el) s.place + tally (Place.putting el) s.place := by
    rw [Nat.add_assoc, ← hholds]
    exact hrefs
  have hqueued : s.isQueued el = true →
      1 ≤ s.schedTaskRefs el ∨ ∃ t, (s.place t).claiming el ≠ 0 := by
    intro hflag
    by_contra hnone
    rw [not_or, not_exists] at hnone
    have hclaiming : tally (Place.claiming el) s.place = 0 :=
      tally_eq_zero fun t => not_not.mp (hnone.2 t)
    -- Whoever answers for the flag has a counted token or is claiming one.
    have hle : tally (Place.owns el) s.place ≤
        tally (fun place => place.holds el + place.claiming el) s.place :=
      tally_le_tally fun t => (s.place t).owns_le el
    have hsum := tally_add (Place.holds el) (Place.claiming el) s.place
    have hone : tally (Place.owns el) s.place + s.readyQueue.count el = 1 := by
      have hbooks : tally (Place.owns el) s.place + s.readyQueue.count el =
        (s.isQueued el).toNat := howners
      rw [hbooks, hflag]
      rfl
    omega
  refine ⟨hcount, hqueued, fun hsettled => ⟨?_, fun hflag => ?_⟩⟩
  · have hputting : tally (Place.putting el) s.place = 0 := tally_eq_zero fun t => (hsettled t).2
    omega
  · rcases hqueued hflag with hone | ⟨t, ht⟩
    · exact hone
    · exact absurd (hsettled t).1 ht

/-- Thread 0 runs the scheduler, which queues element 0. -/
def primeRun : List (Action (Fin 3)) :=
  [.run 0, .step 0, .step 0, .step 0, .step 0, .step 0, .step 0, .push 0 true, .step 0,
    .spawn 0 1, .step 0]

/-- Element 0 returns from `process`, leaves the pipeline while it is queued again, and is
back before the worker takes its token. -/
def returnRun : List (Action (Fin 3)) :=
  primeRun ++ [.step 1, .pop 1, .step 1, .step 1, .step 1, .process 1 .again false, .step 1,
    .step 1, .step 1, .step 1, .push 1 true, .step 1, .remove 0 0, .step 1, .add 0 0 true]

/-- The token of element 0 is in the ready queue after it has left and come back. -/
theorem task_refs_accounted_return :
    ∃ s : Sched (Fin 3), s.readyQueue = [0] ∧
      s.schedTaskRefs 0 = s.readyQueue.count 0 + tally (Place.executing 0) s.place +
        tally (Place.putting 0) s.place ∧
      (s.isQueued 0 = true → 1 ≤ s.schedTaskRefs 0 ∨ ∃ t, (s.place t).claiming 0 ≠ 0) ∧
      (Settled s 0 → RefsAgree s 0) := by
  obtain ⟨s, hrun, hready⟩ := Option.map_eq_some_iff.mp
    (show (((system (Fin 3) plain).restrict
        (Kept 0)).run (fresh [0] fun _ => .playing) returnRun).map
        (fun s => decide (s.readyQueue = [0])) = some true by decide +kernel)
  have hreach := System.Reachable.run (.start (initial_fresh [0] fun _ => .playing)) hrun
  have hkept := System.Reachable.of_restrict hreach
  exact ⟨s, of_decide_eq_true hready, task_refs_accounted hkept⟩

/-- Element 0 leaves the pipeline while its token is in the ready queue, and comes back after
the worker has found the token. -/
def lossRun : List (Action (Fin 3)) :=
  primeRun ++ [.remove 0 0, .step 1, .pop 1, .step 1, .step 1, .add 0 0 true]

/-- Thread 0 wakes the scheduler and has seen element 0 playing when thread 2 removes it with
`zst_pipeline_remove_element_dynamic`, which finds no token to wait for. -/
def lateWakeRun : List (Action (Fin 3)) :=
  [.run 0, .step 0, .step 0, .step 0, .spawn 0 1, .step 0, .add 0 0 true,
    .wake 0, .step 0, .step 0, .refresh 0 true, .step 0, .step 0,
    .removeDynamic 2 0, .step 2, .settle 2 true, .settle 2 true, .settle 2 true, .step 2,
    .step 2, .step 2,
    .step 0, .step 0, .step 0, .push 0 true, .step 0,
    .step 2, .settle 2 true, .settle 2 true, .settle 2 true, .settle 2 true, .settle 2 true,
    .settle 2 true, .settle 2 true, .settle 2 true, .step 2, .step 2, .step 2, .step 2, .step 2,
    .step 1, .pop 1, .step 1, .step 1, .add 0 0 true]

/-- The flag is set and the count is one, but there is no token anywhere. -/
def Orphaned (s : Sched (Fin 3)) : Prop :=
  Settled s 0 ∧ 0 ∈ s.elements ∧ s.tokenPriv 0 = true ∧ s.isQueued 0 = true ∧
  s.schedTaskRefs 0 = 1 ∧ s.readyQueue.count 0 = 0 ∧ tally (Place.owns 0) s.place = 0 ∧
  tally (Place.holds 0) s.place = 0

instance (s : Sched (Fin 3)) : Decidable (Orphaned s) := inferInstanceAs (Decidable (_ ∧ _))

theorem Orphaned.refsDisagree {s : Sched (Fin 3)} (h : Orphaned s) : ¬ RefsAgree s 0 := by
  rintro ⟨hcount, -⟩
  have hholds : tally (Place.holds 0) s.place =
      tally (Place.executing 0) s.place + tally (Place.putting 0) s.place :=
    tally_add _ _ _
  obtain ⟨-, -, -, -, hrefs, htokens, -, hholders⟩ := h
  omega

/-- An orphaned token is never seen again, so the element is never scheduled again and
the count stays one. -/
theorem Orphaned.run {s s' : Sched (Fin 3)} (h : Orphaned s) {actions : List (Action (Fin 3))}
    (hrun : (system (Fin 3) setting).run s actions = some s') :
    s'.isQueued 0 = true ∧ s'.schedTaskRefs 0 = 1 ∧ s'.readyQueue.count 0 = 0 := by
  obtain ⟨-, -, -, hqueued, hrefs, htokens, howners, hholders⟩ := h
  have hsame := orphaned_of_run hqueued htokens howners hholders hrun
  refine ⟨?_, ?_, ?_⟩
  · exact (congrArg Ledger.queued hsame).trans hqueued
  · exact (congrArg Ledger.refs hsame).trans hrefs
  · exact (congrArg Ledger.tokens hsame).trans htokens

/-- The script reaches a state where the element is in the pipeline with the flag set and a
count of one, there is no token, and that is so for good. -/
def LosesToken (queues : List (Fin 3)) (script : List (Action (Fin 3))) : Prop :=
  ∃ s : Sched (Fin 3), (system (Fin 3) plain).Reachable s ∧
    (system (Fin 3) plain).run (fresh queues fun _ => .playing) script = some s ∧
    0 ∈ s.elements ∧ Settled s 0 ∧ ¬ RefsAgree s 0 ∧
    ∀ actions s', (system (Fin 3) plain).run s actions = some s' →
      s'.isQueued 0 = true ∧ s'.schedTaskRefs 0 = 1 ∧ s'.readyQueue.count 0 = 0

theorem losesToken_of_run {queues : List (Fin 3)} {script : List (Action (Fin 3))}
    (horphaned : ((system (Fin 3) plain).run (fresh queues fun _ => .playing) script).map
      (fun s => decide (Orphaned s)) = some true) : LosesToken queues script := by
  obtain ⟨s, hrun, hs⟩ := Option.map_eq_some_iff.mp horphaned
  have h : Orphaned s := of_decide_eq_true hs
  have hreach := System.Reachable.run (.start (initial_fresh queues fun _ => .playing)) hrun
  exact ⟨s, hreach, hrun, h.2.1, h.1, h.refsDisagree, fun actions s' => h.run⟩

/-- Both removals lose the token. -/
theorem removal_loses_token : LosesToken [0] lossRun ∧ LosesToken [] lateWakeRun := by
  constructor
  · exact losesToken_of_run (by decide +kernel)
  · exact losesToken_of_run (by decide +kernel)

end Zstreamer.Scheduler

/-! # No element runs twice at once

`is_queued` is won by an exchange before a token is put into the ready queue, and the
seven places where `execute_element_task` clears it all come after the element's
callback has returned and its buffer has been pushed.  So who works on an element, or
has its token, or is about to queue it, answers for the flag, and only one can.

Nothing is asked of the element: it may leave the pipeline and enter it again while
threads have its token.
-/

namespace Zstreamer.Scheduler

open Foundation

/-- A worker is inside the element's `process`, or pushing the buffer it returned or the end
of its stream. -/
def Place.working (el : ℕ) : Place → Bool
  | inside e _ | pushing e _ | ending e => decide (e = el)
  | _ => false

theorem Place.owns_of_working {el : ℕ} {place : Place} (hworking : place.working el = true) :
    place.owns el = 1 := by
  cases place with
  | inside e _ | pushing e _ | ending e =>
      obtain rfl : e = el := of_decide_eq_true hworking
      simp [Place.owns, Place.claiming, Place.putting, Place.minding]
  | _ => cases hworking

variable {ι : Type} [Fintype ι] [DecidableEq ι] {setting : Setting} {s : Sched ι}

/-- **One element is never run twice at once**, and has one token in the ready queue at
most. -/
theorem exclusion (hs : (system ι setting).Reachable s) (el : ℕ) :
    (∀ t u, (s.place t).working el = true → (s.place u).working el = true → t = u) ∧
    s.readyQueue.count el ≤ 1 := by
  have hexclusive : tally (Place.owns el) s.place + s.readyQueue.count el ≤
      (s.isQueued el).toNat := exclusive_of_reachable hs el
  have hone := Bool.toNat_le (s.isQueued el)
  constructor
  · intro t u ht hu
    by_contra hne
    have htwo := add_le_tally (Place.owns el) s.place hne
    rw [Place.owns_of_working ht, Place.owns_of_working hu] at htwo
    omega
  · omega

section Race

local instance twoThreads : NeZero 2 := ⟨by decide⟩

/-- Thread 0 runs the scheduler, worker 1 processes element 0, and while it queues it
again thread 0 wakes the scheduler and wins the exchange. -/
def raceRun : List (Action (Fin 2)) :=
  [.run 0, .step 0, .step 0, .step 0, .step 0, .step 0, .step 0, .push 0 true, .step 0,
    .spawn 0 1, .step 0,
    .step 1, .pop 1, .step 1, .step 1, .step 1, .process 1 .ok true, .step 1, .step 1,
    .wake 0, .step 0, .step 0, .refresh 0 true, .step 0, .step 0, .step 0, .step 0,
    .step 1, .step 1, .step 0, .push 0 true,
    .step 1, .step 1, .step 1, .pop 1, .step 1, .step 1, .step 1]

end Race

/-- The worker is inside `process` for the second time. -/
theorem exclusion_race :
    ∃ s : Sched (Fin 2), (s.place 1).working 0 = true ∧
      (∀ t u, (s.place t).working 0 = true → (s.place u).working 0 = true → t = u) ∧
      s.readyQueue.count 0 ≤ 1 := by
  obtain ⟨s, hrun, hworking⟩ := Option.map_eq_some_iff.mp
    (show ((system (Fin 2) plain).run
        (fresh [0] fun _ => .playing) raceRun).map
        (fun s => decide ((s.place 1).working 0 = true)) = some true by decide +kernel)
  have hreach := System.Reachable.run (.start (initial_fresh [0] fun _ => .playing)) hrun
  exact ⟨s, of_decide_eq_true hworking, exclusion hreach 0⟩

end Zstreamer.Scheduler

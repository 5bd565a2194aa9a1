/-
# The worker of a context

The first endpoint that is started creates the worker of its context, and the last one that is
stopped has it end and joins it.  What is decided is decided in a lock section, but the worker
leaves its loop, clears `worker_running` and exits in its own time, and is joined without the
lock, by the handle that the context has then.

A lock section, the exit of a thread and a join are steps here.  `pthread_create` succeeds, and
is part of the lock section that calls it.
-/

import Mathlib.Data.Fintype.Basic
import Mathlib.Data.List.Nodup
import Mathlib.Logic.Function.Basic
import Zstreamer.Foundation.Runs

namespace Zstreamer.Dep

open Foundation Function Option

universe u v

/-- Where a worker is. -/
inductive WorkerPlace
  /-- It has not been created, or has exited. -/
  | absent
  /-- At the top of the loop. -/
  | top
  /-- It has found no connection. -/
  | connecting
  /-- It waits for the timing signal. -/
  | waiting
  /-- It has left the loop. -/
  | leaving
  /-- It has cleared `worker_running`. -/
  | ended
  deriving DecidableEq, Repr

/-- A worker in the loop. -/
def WorkerPlace.Looping : WorkerPlace → Prop
  | .top | .connecting | .waiting => True
  | .absent | .leaving | .ended => False

/-- Where a thread is in `dep_endpoint_stop`, once the first lock section is over: what it has
decided about the join is part of the place. -/
inductive StopPlace
  | idle
  | deactivating (join : Bool)
  | joining
  deriving DecidableEq, Repr

/-- The thread has decided to join and has not joined. -/
def StopPlace.Pending : StopPlace → Prop
  | .deactivating join => join = true
  | .joining => True
  | .idle => False

instance : ∀ place : StopPlace, Decidable place.Pending
  | .deactivating join => inferInstanceAs (Decidable (join = true))
  | .joining => .isTrue trivial
  | .idle => .isFalse id

/-- A context with its endpoints `ι`, and the threads `τ` that start and stop them. -/
structure Managed (ι : Type u) (τ : Type v) where
  stopWorker : Bool
  workerRunning : Bool
  /-- `context->header != NULL`. -/
  connected : Bool
  /-- `context->worker`, when it has been set. -/
  worker : Option ℕ
  enabled : ι → Bool
  callers : τ → StopPlace
  workers : ℕ → WorkerPlace
  /-- How many workers have been created. -/
  created : ℕ
  /-- The workers that `pthread_join` has been called for, the last one first. -/
  joined : List ℕ

/-- A step. -/
inductive ManagedStep (ι : Type u) (τ : Type v)
  /-- `dep_endpoint_start`. -/
  | start (caller : τ) (endpoint : ι)
  /-- The first lock section of `dep_endpoint_stop`. -/
  | stop (caller : τ) (endpoint : ι)
  /-- The second one. -/
  | deactivate (caller : τ)
  | join (caller : τ)
  /-- The next lock section of a worker; whether the context is connected behind it. -/
  | work (i : ℕ) (connected : Bool)
  | exit (i : ℕ)

namespace Managed

variable {ι : Type u} {τ : Type v} [DecidableEq ι] [DecidableEq τ]

/-- An attached endpoint is enabled. -/
def AnyEnabled (endpoints : List ι) (s : Managed ι τ) : Prop := ∃ e ∈ endpoints, s.enabled e = true

instance (endpoints : List ι) (s : Managed ι τ) : Decidable (s.AnyEnabled endpoints) :=
  inferInstanceAs (Decidable (∃ e ∈ endpoints, _))

/-- The lock section of `dep_endpoint_start`. -/
def started (s : Managed ι τ) (endpoint : ι) : Managed ι τ :=
  let s := { s with enabled := update s.enabled endpoint true }
  if s.workerRunning = false then
    { s with
      stopWorker := false
      workerRunning := true
      worker := some s.created
      workers := update s.workers s.created .top
      created := s.created + 1 }
  else s

/-- The first lock section of `dep_endpoint_stop`. -/
def stopped (endpoints : List ι) (s : Managed ι τ) (caller : τ) (endpoint : ι) : Managed ι τ :=
  let s := { s with enabled := update s.enabled endpoint false }
  let any := decide (s.AnyEnabled endpoints)
  { s with
    stopWorker := if any = false then true else s.stopWorker
    callers := update s.callers caller
      (.deactivating (any = false ∧ s.workerRunning = true)) }

/-- A lock section of the worker, at each place. -/
def worked (s : Managed ι τ) (i : ℕ) (connected : Bool) : WorkerPlace → Option (Managed ι τ)
  | .top =>
      let place : WorkerPlace :=
        if s.stopWorker = true then .leaving
        else if s.connected = false then .connecting
        else .waiting
      some { s with workers := update s.workers i place }
  | .connecting =>
      some
        { s with
          connected := if s.stopWorker = false then connected else s.connected
          workers := update s.workers i .top }
  | .waiting =>
      if s.stopWorker = true then some { s with workers := update s.workers i .leaving }
      else
        some
          { s with
            connected := connected
            workers := update s.workers i .top }
  | .leaving =>
      some
        { s with
          connected := false
          workerRunning := false
          workers := update s.workers i .ended }
  | .absent | .ended => none

/-- The next step. -/
def next (endpoints : List ι) (s : Managed ι τ) : ManagedStep ι τ → Option (Managed ι τ)
  | .start caller endpoint =>
      if s.callers caller = .idle ∧ endpoint ∈ endpoints then some (s.started endpoint) else none
  | .stop caller endpoint =>
      if s.callers caller = .idle ∧ endpoint ∈ endpoints then
        some (s.stopped endpoints caller endpoint)
      else none
  | .deactivate caller =>
      match s.callers caller with
      | .deactivating join =>
          let place : StopPlace := if join = true then .joining else .idle
          some { s with callers := update s.callers caller place }
      | .idle | .joining => none
  | .join caller =>
      match s.callers caller, s.worker with
      | .joining, some i =>
          if s.workers i = .absent then
            some
              { s with
                callers := update s.callers caller .idle
                joined := i :: s.joined }
          else none
      | _, _ => none
  | .work i connected => s.worked i connected (s.workers i)
  | .exit i =>
      if s.workers i = .ended then some { s with workers := update s.workers i .absent }
      else none

/-- A context whose endpoints have been attached and not been started. -/
def system (ι : Type u) (τ : Type v) [DecidableEq ι] [DecidableEq τ] (endpoints : List ι) :
    System (Managed ι τ) (ManagedStep ι τ) where
  init s :=
    (s.stopWorker = false ∧ s.workerRunning = false) ∧ (∀ e, s.enabled e = false) ∧
      (∀ t, s.callers t = .idle) ∧ (∀ i, s.workers i = .absent) ∧ s.created = 0 ∧ s.joined = []
  next := next endpoints

/-- No endpoint is started while a thread has decided to join, and none is stopped then before the
worker has cleared `worker_running`. -/
def Apart (s : Managed ι τ) : ManagedStep ι τ → Prop
  | .start _ _ => ∀ t, ¬ (s.callers t).Pending
  | .stop _ _ => s.workerRunning = true → ∀ t, ¬ (s.callers t).Pending
  | _ => True

instance [Fintype τ] (s : Managed ι τ) : ∀ step, Decidable (s.Apart step)
  | .start _ _ => inferInstanceAs (Decidable (∀ t, ¬ (s.callers t).Pending))
  | .stop _ _ => inferInstanceAs (Decidable (_ → ∀ t, ¬ (s.callers t).Pending))
  | .deactivate _ | .join _ | .work _ _ | .exit _ => .isTrue trivial

variable {endpoints : List ι} {s s' : Managed ι τ}

omit [DecidableEq ι] [DecidableEq τ]

/-! ## The three phases of a context -/

/-- No worker, and none wanted. -/
structure Resting (endpoints : List ι) (s : Managed ι τ) : Prop where
  running : s.workerRunning = false
  workers : ∀ i, s.workers i = .absent
  pending : ∀ t, ¬ (s.callers t).Pending
  enabled : ∀ e ∈ endpoints, s.enabled e = false

/-- Worker `i` goes round its loop. -/
structure Working (s : Managed ι τ) (i : ℕ) : Prop where
  running : s.workerRunning = true
  stop : s.stopWorker = false
  looping : (s.workers i).Looping
  pending : ∀ t, ¬ (s.callers t).Pending

/-- Worker `i` has been told to end, and thread `t` is going to join it. -/
structure Stopping (endpoints : List ι) (s : Managed ι τ) (i : ℕ) (t : τ) : Prop where
  running : s.workerRunning = true ↔ s.workers i ≠ .ended ∧ s.workers i ≠ .absent
  stop : s.stopWorker = true
  pending : ∀ t', (s.callers t').Pending ↔ t' = t
  enabled : ∀ e ∈ endpoints, s.enabled e = false

/-- Worker `i` is the one that can be joined, and the only one there is. -/
structure Only (s : Managed ι τ) (i : ℕ) : Prop where
  worker : s.worker = some i
  others : ∀ j, j ≠ i → s.workers j = .absent
  unjoined : i ∉ s.joined
  created : i < s.created

/-- A context is in one of the phases, and has joined no worker twice. -/
structure Sane (endpoints : List ι) (s : Managed ι τ) : Prop where
  nodup : s.joined.Nodup
  created : ∀ i ∈ s.joined, i < s.created
  phase : s.Resting endpoints ∨ (∃ i, s.Only i ∧ s.Working i) ∨
    ∃ i t, s.Only i ∧ s.Stopping endpoints i t

theorem not_anyEnabled_iff : ¬ s.AnyEnabled endpoints ↔ ∀ e ∈ endpoints, s.enabled e = false := by
  rw [AnyEnabled]
  constructor
  · intro hnone e he
    exact Bool.eq_false_iff.mpr fun hon => hnone ⟨e, he, hon⟩
  · rintro hoff ⟨e, he, hon⟩
    exact Bool.noConfusion ((hoff e he).symm.trans hon)

/-- Who is pending when one thread has moved. -/
theorem pending_update [DecidableEq τ] (callers : τ → StopPlace) (caller t : τ)
    (place : StopPlace) :
    (update callers caller place t).Pending ↔
      if t = caller then place.Pending else (callers t).Pending := by
  rw [update_apply]
  split <;> rfl

/-- A thread that was not pending and is not now. -/
theorem pending_update_of_not [DecidableEq τ] {callers : τ → StopPlace} {caller : τ}
    {place : StopPlace} (hold : ¬ (callers caller).Pending) (hnew : ¬ place.Pending) (t : τ) :
    (update callers caller place t).Pending ↔ (callers t).Pending := by
  rw [pending_update]
  split
  case isTrue hsame =>
    rw [hsame]
    exact iff_of_false hnew hold
  case isFalse => rfl

/-- Nothing but what is enabled and who stops what has changed, and nobody has become pending. -/
theorem Sane.of_callers (h : s.Sane endpoints) {enabled : ι → Bool} {callers : τ → StopPlace}
    (henabled : (∀ e ∈ endpoints, s.enabled e = false) → ∀ e ∈ endpoints, enabled e = false)
    (hpending : ∀ t, (callers t).Pending ↔ (s.callers t).Pending) :
    Sane endpoints { s with enabled := enabled, callers := callers } := by
  refine ⟨h.nodup, h.created, ?_⟩
  rcases h.phase with hrest | ⟨i, honly, hwork⟩ | ⟨i, t, honly, hstop⟩
  · exact .inl ⟨hrest.running, hrest.workers, fun t hp => hrest.pending t ((hpending t).mp hp),
      henabled hrest.enabled⟩
  · exact .inr (.inl ⟨i, ⟨honly.worker, honly.others, honly.unjoined, honly.created⟩,
      ⟨hwork.running, hwork.stop, hwork.looping, fun t hp => hwork.pending t ((hpending t).mp hp)⟩⟩)
  · exact .inr (.inr ⟨i, t, ⟨honly.worker, honly.others, honly.unjoined, honly.created⟩,
      ⟨hstop.running, hstop.stop, fun t' => (hpending t').trans (hstop.pending t'),
        henabled hstop.enabled⟩⟩)

/-! ## Steps -/

/-- **An endpoint is started** when no thread is going to join. -/
theorem Sane.started [DecidableEq ι] (h : s.Sane endpoints)
    (hpending : ∀ t, ¬ (s.callers t).Pending) (e : ι) : (s.started e).Sane endpoints := by
  rcases h.phase with hrest | ⟨i, honly, hwork⟩ | ⟨i, t, -, hstop⟩
  · -- a worker is created
    have hnew : s.created ∉ s.joined := fun hmem => Nat.lt_irrefl _ (h.created _ hmem)
    have hstarted : s.started e =
        { s with
          enabled := update s.enabled e true
          stopWorker := false
          workerRunning := true
          worker := some s.created
          workers := update s.workers s.created .top
          created := s.created + 1 } := if_pos hrest.running
    rw [hstarted]
    refine ⟨h.nodup, fun i hmem => Nat.lt_succ_of_lt (h.created i hmem),
      .inr (.inl ⟨s.created, ?_, ?_⟩)⟩
    · refine ⟨rfl, fun j hj => ?_, hnew, Nat.lt_succ_self _⟩
      show update s.workers s.created .top j = .absent
      rw [update_of_ne hj, hrest.workers]
    · refine ⟨rfl, rfl, ?_, hpending⟩
      show (update s.workers s.created .top s.created).Looping
      rw [update_self]
      trivial
  · have hstarted : s.started e = { s with enabled := update s.enabled e true } :=
      if_neg fun hoff => Bool.noConfusion (hwork.running.symm.trans hoff)
    rw [hstarted]
    exact ⟨h.nodup, h.created, .inr (.inl ⟨i, ⟨honly.worker, honly.others, honly.unjoined,
      honly.created⟩, ⟨hwork.running, hwork.stop, hwork.looping, hwork.pending⟩⟩)⟩
  · exact absurd ((hstop.pending t).mpr rfl) (hpending t)

/-- **An endpoint is stopped**, and the last one has the worker end. -/
theorem Sane.stopped [DecidableEq ι] [DecidableEq τ] (h : s.Sane endpoints) {caller : τ}
    (hidle : s.callers caller = .idle)
    (hapart : s.workerRunning = true → ∀ t, ¬ (s.callers t).Pending) (e : ι) :
    (s.stopped endpoints caller e).Sane endpoints := by
  have hquiet : ¬ (s.callers caller).Pending := by
    rw [hidle]
    exact id
  have hoff : (∀ e ∈ endpoints, s.enabled e = false) →
      ∀ e' ∈ endpoints, update s.enabled e false e' = false := by
    intro hall e' he'
    rw [update_apply]
    split
    · rfl
    · exact hall e' he'
  by_cases hany : AnyEnabled endpoints { s with enabled := update s.enabled e false }
  · have hstopped : s.stopped endpoints caller e =
        { s with
          enabled := update s.enabled e false
          callers := update s.callers caller (.deactivating false) } := by
      simp only [Managed.stopped, hany, decide_true, Bool.true_eq_false, if_false, false_and,
        decide_false]
    rw [hstopped]
    exact h.of_callers hoff (pending_update_of_not hquiet Bool.noConfusion)
  · have hnone := not_anyEnabled_iff.mp hany
    have hstopped : s.stopped endpoints caller e =
        { s with
          enabled := update s.enabled e false
          stopWorker := true
          callers := update s.callers caller (.deactivating s.workerRunning) } := by
      simp only [Managed.stopped, hany, decide_false, if_true, true_and, Bool.decide_eq_true]
    rw [hstopped]
    refine ⟨h.nodup, h.created, ?_⟩
    rcases h.phase with hrest | ⟨i, honly, hwork⟩ | ⟨i, t, honly, hstop⟩
    · refine .inl ⟨hrest.running, hrest.workers, fun t hp => hrest.pending t ?_, hnone⟩
      refine (pending_update_of_not hquiet ?_ t).mp hp
      exact fun hon => Bool.noConfusion (hrest.running.symm.trans hon)
    · -- the last one: the thread is going to join the worker
      refine .inr (.inr ⟨i, caller, ⟨honly.worker, honly.others, honly.unjoined, honly.created⟩,
        ⟨⟨fun _ => ?_, fun _ => hwork.running⟩, rfl, fun t => ?_, hnone⟩⟩)
      · have hloop := hwork.looping
        constructor
        · intro hended
          rw [show s.workers i = .ended from hended] at hloop
          exact hloop
        · intro habsent
          rw [show s.workers i = .absent from habsent] at hloop
          exact hloop
      · show (update s.callers caller (.deactivating s.workerRunning) t).Pending ↔
          t = caller
        rw [pending_update]
        split
        case isTrue hsame => exact iff_of_true hwork.running hsame
        case isFalse hother => exact iff_of_false (hwork.pending t) hother
    · have hcleared : ¬ (StopPlace.deactivating s.workerRunning).Pending := fun hon =>
        hapart hon t ((hstop.pending t).mpr rfl)
      refine .inr (.inr ⟨i, t, ⟨honly.worker, honly.others, honly.unjoined, honly.created⟩,
        ⟨hstop.running, rfl, fun t' => ?_, hnone⟩⟩)
      exact (pending_update_of_not hquiet hcleared t').trans (hstop.pending t')

/-- What a lock section of the worker may leave, before and after it has been told to end. -/
theorem worked_spec {i : ℕ} {connected : Bool} {place : WorkerPlace}
    (h : s.worked i connected place = some s') :
    ∃ (connected' running : Bool) (place' : WorkerPlace),
      s' = { s with
        connected := connected'
        workerRunning := running
        workers := update s.workers i place' } ∧
      place ≠ .absent ∧ place ≠ .ended ∧
      (s.stopWorker = false → place.Looping → place'.Looping ∧ running = s.workerRunning) ∧
      (place' = .ended ∧ running = false ∨
        place' ≠ .ended ∧ place' ≠ .absent ∧ running = s.workerRunning) := by
  cases place with
  | absent => cases h
  | ended => cases h
  | top =>
      cases h
      refine ⟨s.connected, s.workerRunning, _, rfl, nofun, nofun, fun hgo _ => ⟨?_, rfl⟩, .inr ?_⟩
      · rw [if_neg fun hstop => Bool.noConfusion (hgo.symm.trans hstop)]
        split <;> trivial
      · split_ifs <;> exact ⟨nofun, nofun, rfl⟩
  | connecting =>
      cases h
      exact ⟨_, s.workerRunning, .top, rfl, nofun, nofun, fun _ _ => ⟨trivial, rfl⟩,
        .inr ⟨nofun, nofun, rfl⟩⟩
  | waiting =>
      rw [Managed.worked] at h
      split at h
      case isTrue hstop =>
        cases h
        exact ⟨s.connected, s.workerRunning, .leaving, rfl, nofun, nofun,
          fun hgo _ => Bool.noConfusion (hgo.symm.trans hstop), .inr ⟨nofun, nofun, rfl⟩⟩
      case isFalse =>
        cases h
        exact ⟨connected, s.workerRunning, .top, rfl, nofun, nofun, fun _ _ => ⟨trivial, rfl⟩,
          .inr ⟨nofun, nofun, rfl⟩⟩
  | leaving =>
      cases h
      exact ⟨false, false, .ended, rfl, nofun, nofun, fun _ hloop => hloop.elim, .inl ⟨rfl, rfl⟩⟩

/-- **A lock section of the worker.** -/
theorem Sane.worked (h : s.Sane endpoints) {i : ℕ} {connected : Bool}
    (hnext : s.worked i connected (s.workers i) = some s') : s'.Sane endpoints := by
  obtain ⟨connected', running, place', rfl, habsent, hended, hloops, hplace⟩ := worked_spec hnext
  refine ⟨h.nodup, h.created, ?_⟩
  rcases h.phase with hrest | ⟨j, honly, hwork⟩ | ⟨j, t, honly, hstop⟩
  · exact absurd (hrest.workers i) habsent
  · have hij : i = j := by
      by_contra hne
      exact habsent (honly.others i hne)
    subst hij
    obtain ⟨hloop, hrunning⟩ := hloops hwork.stop hwork.looping
    refine .inr (.inl ⟨i, ⟨honly.worker, fun j hj => ?_, honly.unjoined, honly.created⟩,
      ⟨hrunning.trans hwork.running, hwork.stop, ?_, hwork.pending⟩⟩)
    · show update s.workers i place' j = .absent
      rw [update_of_ne hj]
      exact honly.others j hj
    · show (update s.workers i place' i).Looping
      rwa [update_self]
  · have hij : i = j := by
      by_contra hne
      exact habsent (honly.others i hne)
    subst hij
    refine .inr (.inr ⟨i, t, ⟨honly.worker, fun j hj => ?_, honly.unjoined, honly.created⟩,
      ⟨?_, hstop.stop, hstop.pending, hstop.enabled⟩⟩)
    · show update s.workers i place' j = .absent
      rw [update_of_ne hj]
      exact honly.others j hj
    · show running = true ↔ update s.workers i place' i ≠ .ended ∧
        update s.workers i place' i ≠ .absent
      rw [update_self]
      rcases hplace with ⟨hend, hoff⟩ | ⟨hnot, hhere, hsame⟩
      · exact iff_of_false (fun hon => Bool.noConfusion (hoff.symm.trans hon)) fun hand =>
          hand.1 hend
      · exact iff_of_true (hsame.trans (hstop.running.mpr ⟨hended, habsent⟩)) ⟨hnot, hhere⟩

/-- **The worker exits.** -/
theorem Sane.exited (h : s.Sane endpoints) {i : ℕ} (hended : s.workers i = .ended) :
    Sane endpoints { s with workers := update s.workers i .absent } := by
  have hhere : s.workers i ≠ .absent := by
    rw [hended]
    exact WorkerPlace.noConfusion
  refine ⟨h.nodup, h.created, ?_⟩
  rcases h.phase with hrest | ⟨j, honly, hwork⟩ | ⟨j, t, honly, hstop⟩
  · exact absurd (hrest.workers i) hhere
  · have hij : i = j := by
      by_contra hne
      exact hhere (honly.others i hne)
    have hloop := hwork.looping
    rw [← hij, hended] at hloop
    exact hloop.elim
  · have hij : i = j := by
      by_contra hne
      exact hhere (honly.others i hne)
    subst hij
    refine .inr (.inr ⟨i, t, ⟨honly.worker, fun j hj => ?_, honly.unjoined, honly.created⟩,
      ⟨?_, hstop.stop, hstop.pending, hstop.enabled⟩⟩)
    · show update s.workers i .absent j = .absent
      rw [update_of_ne hj]
      exact honly.others j hj
    · show s.workerRunning = true ↔ update s.workers i .absent i ≠ .ended ∧
        update s.workers i .absent i ≠ .absent
      rw [update_self]
      exact iff_of_false (fun hon => (hstop.running.mp hon).1 hended) fun hand => hand.2 rfl

/-- **The worker is joined**, by the thread that has decided to. -/
theorem Sane.join [DecidableEq τ] (h : s.Sane endpoints) {caller : τ} {i : ℕ}
    (hcaller : s.callers caller = .joining) (hworker : s.worker = some i)
    (hgone : s.workers i = .absent) :
    Sane endpoints
      { s with
        callers := update s.callers caller .idle
        joined := i :: s.joined } := by
  have hpending : (s.callers caller).Pending := by
    rw [hcaller]
    trivial
  rcases h.phase with hrest | ⟨j, honly, hwork⟩ | ⟨j, t, honly, hstop⟩
  · exact absurd hpending (hrest.pending caller)
  · exact absurd hpending (hwork.pending caller)
  · obtain rfl := Option.some.inj (hworker.symm.trans honly.worker)
    obtain rfl := (hstop.pending caller).mp hpending
    refine ⟨List.nodup_cons.mpr ⟨honly.unjoined, h.nodup⟩, ?_, .inl ⟨?_, ?_, ?_, hstop.enabled⟩⟩
    · intro j hmem
      rcases List.mem_cons.mp hmem with rfl | hmem
      · exact honly.created
      · exact h.created j hmem
    · exact Bool.eq_false_iff.mpr fun hon => (hstop.running.mp hon).2 hgone
    · intro j
      by_cases hj : j = i
      · exact hj ▸ hgone
      · exact honly.others j hj
    · intro t hp
      rw [pending_update] at hp
      split at hp
      case isTrue => exact hp
      case isFalse hne => exact hne ((hstop.pending t).mp hp)

/-- **A step** that keeps starts and stops apart from a join. -/
theorem Sane.step [DecidableEq ι] [DecidableEq τ] (h : s.Sane endpoints)
    {step : ManagedStep ι τ} (hapart : s.Apart step) (hnext : s.next endpoints step = some s') :
    s'.Sane endpoints := by
  cases step with
  | start caller e =>
      obtain ⟨-, hnext⟩ := ite_none_right_eq_some.mp hnext
      cases hnext
      exact h.started hapart e
  | stop caller e =>
      obtain ⟨⟨hidle, -⟩, hnext⟩ := ite_none_right_eq_some.mp hnext
      cases hnext
      exact h.stopped hidle hapart e
  | deactivate caller =>
      rw [next] at hnext
      split at hnext
      case h_1 join hcaller =>
        cases hnext
        refine h.of_callers id fun t => ?_
        rw [pending_update]
        split
        case isTrue hsame =>
          rw [hsame, hcaller]
          cases join with
          | false => exact iff_of_false id Bool.noConfusion
          | true => exact iff_of_true trivial rfl
        case isFalse => rfl
      case h_2 => cases hnext
      case h_3 => cases hnext
  | join caller =>
      rw [next] at hnext
      split at hnext
      case h_1 i hcaller hworker =>
        obtain ⟨hgone, hnext⟩ := ite_none_right_eq_some.mp hnext
        cases hnext
        exact h.join hcaller hworker hgone
      case h_2 => cases hnext
  | work i connected => exact h.worked hnext
  | exit i =>
      obtain ⟨hended, hnext⟩ := ite_none_right_eq_some.mp hnext
      cases hnext
      exact h.exited hended

/-! ## Runs -/

/-- No worker is joined twice, there is one worker at most, and with an endpoint enabled and no stop
under way there is one that goes on. -/
structure WellManaged (endpoints : List ι) (s : Managed ι τ) : Prop where
  joinedOnce : s.joined.Nodup
  alone : ∀ i j, s.workers i ≠ .absent → s.workers j ≠ .absent → i = j
  served : (∀ t, s.callers t = .idle) → s.AnyEnabled endpoints →
    s.workerRunning = true ∧ s.stopWorker = false ∧
      ∃ i, s.worker = some i ∧ (s.workers i).Looping

theorem Sane.wellManaged (h : s.Sane endpoints) : s.WellManaged endpoints := by
  refine ⟨h.nodup, fun i j hi hj => ?_, fun hidle hany => ?_⟩
  · have halone : ∀ k, s.Only k → i = j := by
      intro k honly
      have hik : i = k := by
        by_contra hne
        exact hi (honly.others i hne)
      have hjk : j = k := by
        by_contra hne
        exact hj (honly.others j hne)
      rw [hik, hjk]
    rcases h.phase with hrest | ⟨k, honly, -⟩ | ⟨k, -, honly, -⟩
    · exact absurd (hrest.workers i) hi
    · exact halone k honly
    · exact halone k honly
  · rcases h.phase with hrest | ⟨i, honly, hwork⟩ | ⟨i, t, -, hstop⟩
    · exact absurd hany (not_anyEnabled_iff.mpr hrest.enabled)
    · exact ⟨hwork.running, hwork.stop, i, honly.worker, hwork.looping⟩
    · exact absurd hany (not_anyEnabled_iff.mpr hstop.enabled)

/-- **A context manages its worker well** in every run in which starts and stops keep apart from a
join. -/
theorem wellManaged_of_apart [DecidableEq ι] [DecidableEq τ]
    (hs : (system ι τ endpoints).ReachableVia Apart s) : s.WellManaged endpoints := by
  have hsane : s.Sane endpoints := by
    refine hs.invariant (fun s hinit => ?_) fun _ _ _ _ h hapart hnext => h.step hapart hnext
    obtain ⟨⟨-, hrunning⟩, henabled, hcallers, hworkers, -, hjoined⟩ := hinit
    refine ⟨hjoined ▸ List.nodup_nil, fun i hmem => ?_, .inl ⟨hrunning, hworkers, fun t hp => ?_,
      fun e _ => henabled e⟩⟩
    · rw [hjoined] at hmem
      cases hmem
    · rw [hcallers t] at hp
      exact hp
  exact hsane.wellManaged

/-- A context before its first start. -/
def unmanaged (ι : Type u) (τ : Type v) : Managed ι τ where
  stopWorker := false
  workerRunning := false
  connected := false
  worker := none
  enabled := fun _ => false
  callers := fun _ => .idle
  workers := fun _ => .absent
  created := 0
  joined := []

theorem unmanaged_init [DecidableEq ι] [DecidableEq τ] (endpoints : List ι) :
    (system ι τ endpoints).init (unmanaged ι τ) :=
  ⟨⟨rfl, rfl⟩, fun _ => rfl, fun _ => rfl, fun _ => rfl, rfl, rfl⟩

/-- The worker leaves its loop and exits. -/
def ends (i : ℕ) : List (ManagedStep (Fin 2) (Fin 2)) := [.work i true, .work i true, .exit i]

/-- Two endpoints are started and stopped, and one of them is started again. -/
def orderly : List (ManagedStep (Fin 2) (Fin 2)) :=
  [.start 0 0, .work 0 true, .start 1 1, .work 0 true, .stop 0 0, .deactivate 0, .work 0 true,
    .stop 1 1, .work 0 true, .deactivate 1, .work 0 true, .exit 0, .join 1, .start 0 0]

theorem wellManaged_orderly :
    ∃ s, (system (Fin 2) (Fin 2) [0, 1]).ReachableVia Apart s ∧ s.joined = [0] ∧
      s.WellManaged [0, 1] := by
  obtain ⟨s, hrun, hjoined⟩ := map_eq_some_iff.mp
    (show (((system (Fin 2) (Fin 2) [0, 1]).restrict Apart).run (unmanaged _ _) orderly).map
      Managed.joined = some [0] by decide +kernel)
  have hinit : ((system (Fin 2) (Fin 2) [0, 1]).restrict Apart).init (unmanaged _ _) :=
    unmanaged_init [0, 1]
  have hreach := System.Reachable.of_restrict (System.Reachable.run (.start hinit) hrun)
  exact ⟨s, hreach, hjoined, wellManaged_of_apart hreach⟩

/-- An endpoint is started while the worker is about to end. -/
def lateStart : List (ManagedStep (Fin 2) (Fin 2)) :=
  [.start 0 0, .stop 0 0, .start 1 1, .deactivate 0] ++ ends 0 ++ [.join 0]

/-- Two threads stop the endpoint. -/
def stoppedTwice : List (ManagedStep (Fin 2) (Fin 2)) :=
  [.start 0 0, .stop 0 0, .stop 1 0, .deactivate 0, .deactivate 1] ++ ends 0 ++ [.join 0, .join 1]

/-- **An endpoint is left without a worker, and a worker is joined twice.** -/
theorem not_wellManaged :
    (∃ s, (system (Fin 2) (Fin 2) [0, 1]).Reachable s ∧ (∀ t, s.callers t = .idle) ∧
      s.enabled 1 = true ∧ s.workerRunning = false ∧ ¬ s.WellManaged [0, 1]) ∧
      ∃ s, (system (Fin 2) (Fin 2) [0, 1]).Reachable s ∧ s.joined = [0, 0] ∧
        ¬ s.WellManaged [0, 1] := by
  constructor
  · obtain ⟨s, hrun, hs⟩ := map_eq_some_iff.mp
      (show ((system (Fin 2) (Fin 2) [0, 1]).run (unmanaged _ _) lateStart).map
        (fun s => decide ((∀ t, s.callers t = .idle) ∧ s.enabled 1 = true ∧
          s.workerRunning = false)) = some true by decide +kernel)
    obtain ⟨hidle, hon, hnone⟩ := of_decide_eq_true hs
    refine ⟨s, System.Reachable.run (.start (unmanaged_init _)) hrun, hidle, hon, hnone,
      fun h => ?_⟩
    have hserved := (h.served hidle ⟨1, by decide, hon⟩).1
    exact Bool.noConfusion (hnone.symm.trans hserved)
  · obtain ⟨s, hrun, hjoined⟩ := map_eq_some_iff.mp
      (show ((system (Fin 2) (Fin 2) [0, 1]).run (unmanaged _ _) stoppedTwice).map
        Managed.joined = some [0, 0] by decide +kernel)
    refine ⟨s, System.Reachable.run (.start (unmanaged_init _)) hrun, hjoined, fun h => ?_⟩
    have hnodup := h.joinedOnce
    rw [hjoined] at hnodup
    exact absurd hnodup (by decide)

end Managed

end Zstreamer.Dep

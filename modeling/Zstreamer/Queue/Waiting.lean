/-
# The lock and the waiters

Threads that find the queue full or empty count themselves as waiters, take the lock,
look again and go to sleep.  This module has what every argument about sleeping threads
needs: only one thread is between taking the lock and leaving it, and the two numbers of
waiters count the threads that are waiting.

The rest is about patient threads, those that were told to wait without a deadline.
A patient thread never gives up: it is still looking for its slot, asleep, or past its
claim.
-/

import Zstreamer.Queue.Invariant

namespace Zstreamer

open Foundation

variable {ι : Type}

/-! ## Where a thread is -/

namespace QueuePc

/-- The thread has the lock. -/
def locked : QueuePc → Bool
  | .push _ _ (.signal _) => true
  | .push _ _ .unlockSignal => true
  | .push _ _ (.recheckSequence _) => true
  | .push _ _ (.recheckFull _ _) => true
  | .push _ _ (.wait _ _) => true
  | .push _ _ (.unlock _) => true
  | .pop _ (.signal _ _) => true
  | .pop _ (.unlockSignal _) => true
  | .pop _ (.recheckSequence _) => true
  | .pop _ (.wait _) => true
  | .pop _ (.unlock _) => true
  | _ => false

/-- The thread counts in `waiters_push`. -/
def waitsPush : QueuePc → ℕ
  | .push _ _ (.lock _ _) => 1
  | .push _ _ (.recheckSequence _) => 1
  | .push _ _ (.recheckFull _ _) => 1
  | .push _ _ (.wait _ _) => 1
  | .push _ _ .blocked => 1
  | .push _ _ (.wake _) => 1
  | .push _ _ (.unlock _) => 1
  | .push _ _ (.subWaiter _) => 1
  | _ => 0

/-- The thread counts in `waiters_pop`. -/
def waitsPop : QueuePc → ℕ
  | .pop _ (.lock _) => 1
  | .pop _ (.recheckSequence _) => 1
  | .pop _ (.wait _) => 1
  | .pop _ .blocked => 1
  | .pop _ (.wake _) => 1
  | .pop _ (.unlock _) => 1
  | .pop _ (.subWaiter _) => 1
  | _ => 0

end QueuePc

/-! ## One step -/

/-- What a step of thread `t` does to the lock and to the numbers of waiters. -/
structure WaitStep (t : ι) (m : QueueMemory ι) (p : QueuePc) (m' : QueueMemory ι) (p' : QueuePc) :
    Prop where
  lock : (m'.lock = m.lock ∧ p'.locked = p.locked) ∨ (m.lock = none ∧ m'.lock = some t) ∨
    (p.locked = true ∧ p'.locked = false)
  waitersPush : m'.waitersPush = m.waitersPush + p'.waitsPush - p.waitsPush
  waitersPop : m'.waitersPop = m.waitersPop + p'.waitsPop - p.waitsPop

section Steps

variable {m m' : QueueMemory ι} {t : ι} {p : QueuePc}

theorem WaitStep.refl {p' : QueuePc} (hlocked : p'.locked = p.locked)
    (hpush : p'.waitsPush = p.waitsPush) (hpop : p'.waitsPop = p.waitsPop) :
    WaitStep t m p m p' :=
  ⟨.inl ⟨rfl, hlocked⟩, by omega, by omega⟩

theorem PushPc.rechecked_waits (buf : Buffer) (timeout : Timeout) (pos : ℕ)
    (out : FullPc.Outcome) :
    (PushPc.rechecked buf timeout pos out).locked = true ∧
      (PushPc.rechecked buf timeout pos out).waitsPush = 1 ∧
      (PushPc.rechecked buf timeout pos out).waitsPop = 0 := by
  unfold PushPc.rechecked
  split <;> exact ⟨rfl, rfl, rfl⟩

theorem PushPc.step_waits {buf : Buffer} {timeout : Timeout} {ppc : PushPc}
    (hstep : ppc.step m t buf timeout = some (m', p)) :
    WaitStep t m (.push buf timeout ppc) m' p := by
  cases ppc with
  | lock kind pos =>
      cases kind with
      | ring =>
          obtain ⟨hfree, heq⟩ := RingInv.acquire_eq hstep
          cases heq
          exact ⟨.inr (.inl ⟨hfree, rfl⟩), rfl, rfl⟩
      | limits =>
          obtain ⟨hfree, heq⟩ := RingInv.acquire_eq hstep
          cases heq
          obtain ⟨-, hpush, hpop⟩ := rechecked_waits buf timeout pos (FullPc.start m.q)
          refine ⟨.inr (.inl ⟨hfree, rfl⟩), ?_, ?_⟩
          · rw [hpush]
            rfl
          · rw [hpop]
            rfl
  | lockSignal | wake =>
      obtain ⟨hfree, heq⟩ := RingInv.acquire_eq hstep
      cases heq
      exact ⟨.inr (.inl ⟨hfree, rfl⟩), rfl, rfl⟩
  | recheckFull pos full =>
      cases hstep
      obtain ⟨hlocked, hpush, hpop⟩ := rechecked_waits buf timeout pos (full.step m.q)
      exact .refl hlocked hpush hpop
  | subWaiter timedOut =>
      cases hstep
      cases timedOut <;> exact ⟨.inl ⟨rfl, rfl⟩, rfl, rfl⟩
  | unlockSignal | wait | unlock =>
      cases hstep
      exact ⟨.inr (.inr ⟨rfl, rfl⟩), rfl, rfl⟩
  | _ =>
      simp only [PushPc.step, PushPc.checked] at hstep
      repeat' split at hstep
      all_goals first
        | cases hstep; exact ⟨.inl ⟨rfl, rfl⟩, rfl, rfl⟩
        | cases hstep

theorem PopPc.step_waits {timeout : Timeout} {ppc : PopPc}
    (hstep : ppc.step m t timeout = some (m', p)) : WaitStep t m (.pop timeout ppc) m' p := by
  cases ppc with
  | lock | lockSignal | wake =>
      obtain ⟨hfree, heq⟩ := RingInv.acquire_eq hstep
      cases heq
      exact ⟨.inr (.inl ⟨hfree, rfl⟩), rfl, rfl⟩
  | subWaiter timedOut =>
      cases hstep
      cases timedOut <;> exact ⟨.inl ⟨rfl, rfl⟩, rfl, rfl⟩
  | unlockSignal | wait | unlock =>
      cases hstep
      exact ⟨.inr (.inr ⟨rfl, rfl⟩), rfl, rfl⟩
  | _ =>
      simp only [PopPc.step] at hstep
      repeat' split at hstep
      all_goals first
        | cases hstep; exact ⟨.inl ⟨rfl, rfl⟩, rfl, rfl⟩
        | cases hstep

theorem QueuePc.step_waits {old : QueuePc} {choice : QueueChoice ι}
    (hstep : old.step m t choice = some (m', p)) : WaitStep t m old m' p := by
  unfold QueuePc.step at hstep
  split at hstep
  case h_3 => exact PushPc.step_waits hstep
  case h_4 => exact PopPc.step_waits hstep
  all_goals
    cases hstep
    try exact .refl rfl rfl rfl

/-- A thread signals under the lock. -/
theorem SignalStep.locked [Fintype ι] [DecidableEq ι] {s s' : QueueState ι}
    (hsignal : SignalStep s t s') : (s.pc t).locked = true := by
  cases hsignal with
  | pushedNone hpc | pushedSome hpc | poppedNone hpc | poppedSome hpc =>
      rw [hpc]
      rfl

theorem SignalMove.waits {old : QueuePc} (hmove : SignalMove old p) : WaitStep t m old m p := by
  cases hmove <;> exact .refl rfl rfl rfl

end Steps

/-! ## Every run -/

/-- The lock has at most one holder, and the waiters are counted. -/
structure WaitInv [Fintype ι] (m : QueueMemory ι) (pc : ι → QueuePc) : Prop where
  lock : ∀ t, (pc t).locked = true → m.lock = some t
  waitersPush : m.waitersPush = tally QueuePc.waitsPush pc
  waitersPop : m.waitersPop = tally QueuePc.waitsPop pc

namespace WaitInv

variable [Fintype ι] {m m' : QueueMemory ι} {pc : ι → QueuePc} {t u : ι} {p : QueuePc}

/-- Two threads never have the lock. -/
theorem one_holder (hinv : WaitInv m pc) (ht : (pc t).locked = true)
    (hu : (pc u).locked = true) : t = u :=
  Option.some.inj ((hinv.lock t ht).symm.trans (hinv.lock u hu))

theorem no_push_waits (hinv : WaitInv m pc) (hzero : m.waitersPush = 0) (u : ι) :
    (pc u).waitsPush = 0 := by
  have hle := le_tally QueuePc.waitsPush pc u
  have hcount := hinv.waitersPush
  omega

theorem no_pop_waits (hinv : WaitInv m pc) (hzero : m.waitersPop = 0) (u : ι) :
    (pc u).waitsPop = 0 := by
  have hle := le_tally QueuePc.waitsPop pc u
  have hcount := hinv.waitersPop
  omega

variable [DecidableEq ι]

theorem step (hinv : WaitInv m pc) (hstep : WaitStep t m (pc t) m' p) :
    WaitInv m' (Function.update pc t p) := by
  refine ⟨fun u hu => ?_, ?_, ?_⟩
  · by_cases hut : u = t
    · subst hut
      rw [Function.update_self] at hu
      rcases hstep.lock with ⟨hlock, hlocked⟩ | ⟨-, hlock⟩ | ⟨-, hleft⟩
      · rw [hlock]
        exact hinv.lock u (hlocked ▸ hu)
      · exact hlock
      · rw [hleft] at hu
        cases hu
    · rw [Function.update_of_ne hut] at hu
      have hold := hinv.lock u hu
      rcases hstep.lock with ⟨hlock, -⟩ | ⟨hfree, -⟩ | ⟨hheld, -⟩
      · rw [hlock, hold]
      · rw [hfree] at hold
        cases hold
      · exact absurd (hinv.one_holder hu hheld) hut
  · have htally := tally_update QueuePc.waitsPush pc t p
    have hle := le_tally QueuePc.waitsPush pc t
    have hcount := hinv.waitersPush
    have hnew := hstep.waitersPush
    omega
  · have htally := tally_update QueuePc.waitsPop pc t p
    have hle := le_tally QueuePc.waitsPop pc t
    have hcount := hinv.waitersPop
    have hnew := hstep.waitersPop
    omega

theorem next {s s' : QueueState ι} (hinv : WaitInv s.mem s.pc) {choice : QueueChoice ι}
    (hnext : s.next (t, choice) = some s') : WaitInv s'.mem s'.pc := by
  rcases QueueState.next_cases hnext with hsignal | ⟨m', p, hstep, rfl⟩
  · exact hsignal.invariant (P := WaitInv) hinv fun _ _ _ h hmove => h.step hmove.waits
  · exact hinv.step (QueuePc.step_waits hstep)

theorem reachable {cfg : QueueConfig} {s : QueueState ι}
    (hreach : (queueSystem ι cfg).Reachable s) : WaitInv s.mem s.pc := by
  refine System.ReachableVia.invariant (I := fun s => WaitInv s.mem s.pc) ?_ ?_ hreach
  · rintro s rfl
    refine ⟨fun t ht => ?_, (tally_eq_zero fun _ => rfl).symm, (tally_eq_zero fun _ => rfl).symm⟩
    cases ht
  · rintro s ⟨t, choice⟩ s' - hinv - hnext
    exact hinv.next hnext

end WaitInv

/-! ## Patient threads -/

/-- The thread waits without a deadline, has not timed out, and waits for room only in a
queue that blocks. -/
def QueuePc.Patient (cfg : QueueConfig) : QueuePc → Prop
  | .idle => True
  | .push _ timeout (.addWaiter _ _) => timeout = .infinite ∧ cfg.mode = .sync
  | .push _ timeout (.lock _ _) => timeout = .infinite ∧ cfg.mode = .sync
  | .push _ timeout (.recheckSequence _) => timeout = .infinite ∧ cfg.mode = .sync
  | .push _ timeout (.recheckFull _ _) => timeout = .infinite ∧ cfg.mode = .sync
  | .push _ timeout (.wait _ _) => timeout = .infinite ∧ cfg.mode = .sync
  | .push _ timeout .blocked => timeout = .infinite ∧ cfg.mode = .sync
  | .push _ timeout (.wake timedOut) =>
      timeout = .infinite ∧ cfg.mode = .sync ∧ timedOut = false
  | .push _ timeout (.unlock timedOut) =>
      timeout = .infinite ∧ cfg.mode = .sync ∧ timedOut = false
  | .push _ timeout (.subWaiter timedOut) =>
      timeout = .infinite ∧ cfg.mode = .sync ∧ timedOut = false
  | .push _ timeout _ => timeout = .infinite
  | .pop timeout (.wake timedOut) => timeout = .infinite ∧ timedOut = false
  | .pop timeout (.unlock timedOut) => timeout = .infinite ∧ timedOut = false
  | .pop timeout (.subWaiter timedOut) => timeout = .infinite ∧ timedOut = false
  | .pop timeout _ => timeout = .infinite

section Patience

variable {m m' : QueueMemory ι} {t : ι} {p : QueuePc}

theorem sync_of_waits {cfg : QueueConfig} (hwaits : ¬ (cfg.mode = .async ∨ Timeout.infinite = .zero)) :
    cfg.mode = .sync := by
  cases hmode : cfg.mode with
  | sync => rfl
  | async => exact absurd (.inl hmode) hwaits

theorem PushPc.rechecked_patient {cfg : QueueConfig} {buf : Buffer} {timeout : Timeout} {pos : ℕ}
    (hpatient : timeout = .infinite ∧ cfg.mode = .sync) (out : FullPc.Outcome) :
    (PushPc.rechecked buf timeout pos out).Patient cfg := by
  unfold PushPc.rechecked
  split
  · exact hpatient
  · exact hpatient
  · exact ⟨hpatient.1, hpatient.2, rfl⟩

theorem PushPc.step_patient {buf : Buffer} {timeout : Timeout} {ppc : PushPc}
    (hpatient : QueuePc.Patient m.q.cfg (.push buf timeout ppc))
    (hstep : ppc.step m t buf timeout = some (m', p)) : p.Patient m.q.cfg := by
  cases ppc with
  | loadSequence pos | checkFull pos full =>
      obtain rfl : timeout = .infinite := hpatient
      simp only [PushPc.step, PushPc.checked] at hstep
      repeat' split at hstep
      all_goals
        cases hstep
        first
          | rfl
          | trivial
          | exact ⟨rfl, sync_of_waits ‹_›⟩
  | lock kind pos =>
      cases kind with
      | ring =>
          cases (RingInv.acquire_eq hstep).2
          exact hpatient
      | limits =>
          cases (RingInv.acquire_eq hstep).2
          exact rechecked_patient hpatient (FullPc.start m.q)
  | lockSignal | wake =>
      cases (RingInv.acquire_eq hstep).2
      exact hpatient
  | recheckFull pos full =>
      cases hstep
      exact rechecked_patient hpatient (full.step m.q)
  | subWaiter timedOut =>
      obtain ⟨htimeout, -, rfl⟩ := hpatient
      cases hstep
      exact htimeout
  | recheckSequence pos =>
      simp only [PushPc.step] at hstep
      split at hstep
      · cases hstep
        exact hpatient
      · cases hstep
        exact ⟨hpatient.1, hpatient.2, rfl⟩
  | swapTail pos | loadWaiters pos =>
      simp only [PushPc.step] at hstep
      split at hstep
      all_goals
        cases hstep
        first | exact hpatient | trivial
  | signal | blocked => cases hstep
  | unlockSignal =>
      cases hstep
      trivial
  | _ =>
      cases hstep
      exact hpatient

theorem PopPc.step_patient {timeout : Timeout} {ppc : PopPc}
    (hpatient : QueuePc.Patient m.q.cfg (.pop timeout ppc))
    (hstep : ppc.step m t timeout = some (m', p)) : p.Patient m.q.cfg := by
  cases ppc with
  | lock | lockSignal | wake =>
      cases (RingInv.acquire_eq hstep).2
      exact hpatient
  | subWaiter timedOut =>
      obtain ⟨htimeout, rfl⟩ := hpatient
      cases hstep
      exact htimeout
  | unlock =>
      cases hstep
      exact hpatient
  | _ =>
      simp only [PopPc.step] at hstep
      repeat' split at hstep
      all_goals first
        | cases hstep; exact hpatient
        | cases hstep; exact ⟨hpatient, rfl⟩
        | cases hstep; trivial
        | cases hstep

/-- Every operation is started without a deadline. -/
def StartsPatient : QueueChoice ι → Prop
  | .startPush _ timeout => timeout = .infinite
  | .startPop timeout => timeout = .infinite
  | _ => True

theorem QueuePc.step_patient {old : QueuePc} {choice : QueueChoice ι} (hstart : StartsPatient choice)
    (hpatient : old.Patient m.q.cfg) (hstep : old.step m t choice = some (m', p)) :
    p.Patient m.q.cfg := by
  unfold QueuePc.step at hstep
  split at hstep
  case h_1 | h_2 =>
    cases hstep
    exact hstart
  case h_3 => exact PushPc.step_patient hpatient hstep
  case h_4 => exact PopPc.step_patient hpatient hstep
  case h_5 | h_6 =>
    cases hstep
    exact hpatient
  case h_7 =>
    cases hstep
    exact ⟨hpatient.1, hpatient.2, rfl⟩
  case h_8 =>
    cases hstep
    exact ⟨hpatient, rfl⟩
  case h_9 => cases hpatient.1
  case h_10 => cases hpatient
  case h_11 => cases hstep

theorem SignalMove.patient {cfg : QueueConfig} {old : QueuePc} (hmove : SignalMove old p)
    (hpatient : old.Patient cfg) : p.Patient cfg := by
  cases hmove with
  | wakePush => exact ⟨hpatient.1, hpatient.2, rfl⟩
  | wakePop => exact ⟨hpatient, rfl⟩
  | pushed => exact hpatient
  | popped => exact hpatient

end Patience

end Zstreamer

/-
# No thread sleeps beside what it waits for

The two counts of the last modules put together: when nothing runs, no consumer sleeps
beside a published buffer and no producer beside room.

The code does not keep this in every run.  Pushes publish in any order, and a pop that
finds its own ticket unpublished goes to sleep although the next one may be there.  It
has then used up the signal of that push.  `sleeper_beside_buffer` is a run of four
threads that ends with a consumer asleep and a buffer at the head.  Producers are left
asleep in the same way when pops release their slots out of order, and also with a limit
on bytes or on the duration, since then one pop can make room for more than one push.

`Orderly` excludes these steps, and `no_lost_wakeup` proves that there are no others.
-/

import Zstreamer.Queue.DozeFull

namespace Zstreamer

open Foundation

variable {ι : Type}

/-! ## The property and the condition -/

namespace QueuePc

/-- The thread is in `zst_queue_push` and does not sleep. -/
def runsPush : QueuePc → Bool
  | .push _ _ .blocked => false
  | .push _ _ _ => true
  | _ => false

/-- The thread is in `zst_queue_pop` and does not sleep. -/
def runsPop : QueuePc → Bool
  | .pop _ .blocked => false
  | .pop _ _ => true
  | _ => false

end QueuePc

namespace QueueState

variable (s : QueueState ι)

/-- No consumer sleeps beside a published buffer when nothing runs, and no producer beside
room when no pop runs and no push is awake and looking for room. -/
structure NoLostWakeup : Prop where
  buffer : (∀ t, (s.pc t).runsPush = false ∧ (s.pc t).runsPop = false) →
    (s.mem.q.slot s.mem.q.head).sequence = s.mem.q.head + 1 →
    ∀ t, (s.pc t).sleepsNotEmpty = false
  room : (∀ t, (s.pc t).runsPop = false ∧ (s.pc t).seeksRoom = 0) → s.mem.q.HasRoom →
    ∀ t, (s.pc t).sleepsNotFull = false

variable [Fintype ι] [DecidableEq ι]

/-- Whoever goes to sleep does so in order: a pop not while a later ticket is published, a
push not while a later slot has been released.  With a limit on bytes or on the duration,
a push does not begin to wait while another thread is in `zst_queue_push`. -/
def inOrder (t : ι) : Bool :=
  match s.pc t with
  | .pop _ (.recheckSequence pos) =>
      decide ((s.mem.q.slot pos).sequence < pos + 1 →
        ∀ k < s.mem.q.tail, pos < k → (s.mem.q.slot k).sequence ≠ k + 1)
  | .push _ _ (.recheckSequence pos) =>
      s.mem.q.cfg.limited || decide ((s.mem.q.slot pos).sequence < pos →
        ∀ k < s.mem.q.head + s.mem.q.cfg.capacity, pos < k → (s.mem.q.slot k).sequence ≠ k)
  | .push _ _ (.addWaiter _ _) =>
      !s.mem.q.cfg.limited || decide (∀ u, u ≠ t → (s.pc u).inPush = false)
  | _ => true

/-- With a limit on bytes or on the duration, no push starts while another waits. -/
def mayStart : QueueChoice ι → Bool
  | .startPush _ _ => !s.mem.q.cfg.limited || decide (∀ u, (s.pc u).waitsPush = 0)
  | _ => true

end QueueState

instance (choice : QueueChoice ι) : Decidable (StartsPatient choice) :=
  match choice with
  | .startPush _ timeout => inferInstanceAs (Decidable (timeout = .infinite))
  | .startPop timeout => inferInstanceAs (Decidable (timeout = .infinite))
  | .run | .swapFails | .spuriousWake | .deadline | .signal _ => isTrue trivial

/-- The condition on a step: it does not start with a deadline, and keeps the order. -/
def Orderly [Fintype ι] [DecidableEq ι] (s : QueueState ι) (action : ι × QueueChoice ι) : Prop :=
  StartsPatient action.2 ∧ s.inOrder action.1 = true ∧ s.mayStart action.2 = true

instance [Fintype ι] [DecidableEq ι] (s : QueueState ι) (action : ι × QueueChoice ι) :
    Decidable (Orderly s action) :=
  inferInstanceAs (Decidable (_ ∧ _))

/-! ## Every orderly run -/

section Runs

variable [Fintype ι] [DecidableEq ι] {s s' : QueueState ι} {t : ι}

/-- What every orderly run keeps. -/
structure WakeInv (s : QueueState ι) : Prop where
  patient : ∀ t, (s.pc t).Patient s.mem.q.cfg
  empty : DozeEmpty s.mem s.pc
  full : s.mem.q.cfg.limited = false → DozeFull s.mem s.pc
  alone : s.mem.q.cfg.limited = true → DozeAlone s.mem s.pc

namespace WakeInv

omit [DecidableEq ι] in
theorem initial (cfg : QueueConfig) :
    WakeInv (⟨⟨Queue.create cfg, none, 0, 0, [], []⟩, fun _ => .idle⟩ : QueueState ι) := by
  refine ⟨fun _ => trivial, fun t ht => ?_, fun _ => ⟨fun t ht => ?_, fun t _ _ _ _ ht => ?_⟩,
    fun _ => ⟨fun t ht => ?_, fun t _ _ _ _ ht => ?_, fun t ht => ?_⟩⟩
  all_goals cases ht

theorem signal (hinv : WakeInv s) (hwait : WaitInv s.mem s.pc) (hsignal : SignalStep s t s') :
    WakeInv s' := by
  have hmem : s'.mem = s.mem := by cases hsignal <;> rfl
  have hpatient : ∀ u, (s'.pc u).Patient s.mem.q.cfg := by
    refine hsignal.invariant (P := fun _ pc => ∀ u, (pc u).Patient s.mem.q.cfg) hinv.patient ?_
    intro pc v p hpc hmove u
    by_cases huv : u = v
    · rw [huv, Function.update_self]
      exact hmove.patient (hpc v)
    · rw [Function.update_of_ne huv]
      exact hpc u
  refine ⟨?_, hinv.empty.signal hwait hsignal, fun h => ?_, fun h => ?_⟩
  · rw [hmem]
    exact hpatient
  · exact (hinv.full (hmem ▸ h)).signal hwait hsignal
  · exact (hinv.alone (hmem ▸ h)).signal hwait hsignal

theorem next (hinv : WakeInv s) (hring : RingInv s.mem s.pc) (hwait : WaitInv s.mem s.pc)
    {choice : QueueChoice ι} (horderly : Orderly s (t, choice))
    (hnext : s.next (t, choice) = some s') : WakeInv s' := by
  rcases QueueState.next_cases hnext with hsignal | ⟨m', p, hstep, rfl⟩
  · exact hinv.signal hwait hsignal
  · obtain ⟨hpatient, horder, hstart⟩ := horderly
    have hcfg := QueuePc.step_cfg hstep
    refine ⟨fun u => ?_, ?_, fun hlimited => ?_, fun hlimited => ?_⟩
    · show QueuePc.Patient m'.q.cfg (Function.update s.pc t p u)
      rw [hcfg]
      by_cases hut : u = t
      · rw [hut, Function.update_self]
        exact QueuePc.step_patient hpatient (hinv.patient t) hstep
      · rw [Function.update_of_ne hut]
        exact hinv.patient u
    · refine hinv.empty.step hring hwait (fun timeout pos hpc => ?_)
        (QueuePc.step_empty (hinv.patient t) hstep)
      dsimp only [QueueState.inOrder] at horder
      rw [hpc] at horder
      exact of_decide_eq_true horder
    · have hlimited : s.mem.q.cfg.limited = false := hcfg ▸ hlimited
      refine (hinv.full hlimited).step hring hwait hinv.patient hlimited
        (fun buf timeout pos hpc => ?_) hstep
      dsimp only [QueueState.inOrder] at horder
      rw [hpc, hlimited] at horder
      exact of_decide_eq_true horder
    · have hlimited : s.mem.q.cfg.limited = true := hcfg ▸ hlimited
      refine (hinv.alone hlimited).step hring hwait hinv.patient hlimited ?_ ?_ hstep
      · rintro buf timeout rfl
        dsimp only [QueueState.mayStart] at hstart
        rw [hlimited] at hstart
        exact of_decide_eq_true hstart
      · intro buf timeout kind pos hpc
        dsimp only [QueueState.inOrder] at horder
        rw [hpc, hlimited] at horder
        exact of_decide_eq_true horder

theorem reachable {cfg : QueueConfig} (hreach : (queueSystem ι cfg).ReachableVia Orderly s) :
    WakeInv s := by
  refine System.ReachableVia.invariant (I := WakeInv) ?_ ?_ hreach
  · rintro s rfl
    exact initial cfg
  · rintro s ⟨t, choice⟩ s' hreach hinv horderly hnext
    exact hinv.next (RingInv.reachable hreach.reachable) (WaitInv.reachable hreach.reachable)
      horderly hnext

end WakeInv

omit [Fintype ι] [DecidableEq ι] in
theorem QueuePc.servesPop_of_rest {p : QueuePc} (hpush : p.runsPush = false)
    (hpop : p.runsPop = false) : p.servesPop = 0 := by
  cases p with
  | idle => rfl
  | push buf timeout ppc => cases ppc <;> first | rfl | cases hpush
  | pop timeout ppc => cases ppc <;> first | rfl | cases hpop

omit [Fintype ι] [DecidableEq ι] in
theorem QueuePc.vacates_of_rest {p : QueuePc} (hpop : p.runsPop = false) : p.vacates = 0 := by
  cases p with
  | idle => rfl
  | push buf timeout ppc => rfl
  | pop timeout ppc => cases ppc <;> first | rfl | cases hpop

omit [Fintype ι] [DecidableEq ι] in
/-- When the count says that the ring is full, there is no room. -/
theorem RingInv.not_hasRoom (hring : RingInv s.mem s.pc)
    (hfull : s.mem.q.head + s.mem.q.cfg.room ≤ s.mem.q.tail) : ¬ s.mem.q.HasRoom := by
  rintro ⟨hfree, hextra⟩
  have hbelow := ((hring.candidate_of_free le_rfl hfree).free rfl).2
  have hcap := s.mem.q.cfg.capacity_le
  unfold QueueConfig.room at hfull
  split at hfull
  case isTrue hpos =>
    by_cases hsmall : s.mem.q.cfg.maxBuffers < s.mem.q.cfg.capacity
    · -- The ring has free slots beyond `max_buffers`, and the extra check refuses them.
      have hhas : s.mem.q.cfg.hasExtraLimits = true := by
        simp [QueueConfig.hasExtraLimits, hpos, hsmall]
      have hsize : s.mem.q.size = s.mem.q.tail - s.mem.q.head := sizeBetween_eq (by omega)
      have hnot := hextra hhas
      rw [Nat.min_eq_left hsmall.le] at hfull
      rw [Queue.isFull, if_pos ⟨hpos, by omega⟩] at hnot
      cases hnot
    · rw [Nat.min_eq_right (not_lt.mp hsmall)] at hfull
      omega
  case isFalse => omega

/-- **No lost wakeup in orderly runs.**  For any configuration, any number of threads and
any interleaving: in every state of every run in which nobody goes to sleep out of order,
and with a limit on bytes or on the duration no two threads are in `zst_queue_push` while
one of them waits there, no consumer sleeps beside a published buffer when nothing runs,
and no producer sleeps beside room when nothing is on its way to signal or take it. -/
theorem no_lost_wakeup (cfg : QueueConfig) :
    ∀ s : QueueState ι, (queueSystem ι cfg).ReachableVia Orderly s → s.NoLostWakeup := by
  intro s hreach
  have hring := RingInv.reachable hreach.reachable
  have hinv := WakeInv.reachable hreach
  refine ⟨fun hrest hpublished t => ?_, fun hrest hroom t => ?_⟩
  · cases hsleeps : (s.pc t).sleepsNotEmpty with
    | false => rfl
    | true =>
        obtain ⟨timeout, hpc⟩ := QueuePc.sleepsNotEmpty_eq hsleeps
        have hcount := hinv.empty t (by rw [hpc]; rfl)
        have hzero : tally QueuePc.servesPop s.pc = 0 :=
          tally_eq_zero fun u => QueuePc.servesPop_of_rest (hrest u).1 (hrest u).2
        have hlt := hring.lt_tail_of_published hpublished
        omega
  · cases hsleeps : (s.pc t).sleepsNotFull with
    | false => rfl
    | true =>
        obtain ⟨buf, timeout, hpc⟩ := QueuePc.sleepsNotFull_eq hsleeps
        have hdozes : (s.pc t).dozesNotFull = true := by
          rw [hpc]
          rfl
        have hvacates : ∀ u, (s.pc u).vacates = 0 := fun u => QueuePc.vacates_of_rest (hrest u).1
        cases hlimited : s.mem.q.cfg.limited with
        | false =>
            have hcount := (hinv.full hlimited).count t hdozes
            have hzero : tally QueuePc.servesPush s.pc = 0 :=
              tally_eq_zero fun u => by rw [QueuePc.servesPush, hvacates u, (hrest u).2]
            exact absurd hroom (hring.not_hasRoom (by omega))
        | true =>
            have hzero : tally QueuePc.vacates s.pc = 0 := tally_eq_zero hvacates
            rcases (hinv.alone hlimited).asleep t hdozes with hpos | hnot
            · omega
            · exact absurd hroom hnot

end Runs

/-! ## An orderly run, and two that are not -/

/-- The way of a pop from its start to its sleep. -/
def popToSleep {ι : Type} (t : ι) : List (ι × QueueChoice ι) :=
  (t, .startPop .infinite) :: List.replicate 6 (t, .run)

/-- A consumer goes to sleep, a push wakes it, it takes the buffer and goes to sleep. -/
def orderlyActions : List (Bool × QueueChoice Bool) :=
  popToSleep true ++ (false, .startPush ⟨1, 8, 0, 0⟩ .infinite) :: List.replicate 10 (false, .run) ++
    [(false, .signal (some true)), (false, .run)] ++ List.replicate 13 (true, .run) ++
    popToSleep true

/-- The consumer that is asleep at the end of the orderly run has nothing to take. -/
theorem no_lost_wakeup_handover :
    ∃ s : QueueState Bool, (queueSystem Bool ⟨.sync, 4, 0, 0⟩).ReachableVia Orderly s ∧
      s.mem.q.head = 1 ∧ (s.pc true).sleepsNotEmpty = true ∧
      (s.mem.q.slot s.mem.q.head).sequence ≠ s.mem.q.head + 1 := by
  let cfg : QueueConfig := ⟨.sync, 4, 0, 0⟩
  let start : QueueState Bool := ⟨⟨Queue.create cfg, none, 0, 0, [], []⟩, fun _ => .idle⟩
  have hend : (((queueSystem Bool cfg).restrict Orderly).run start orderlyActions).map
      (fun s => (s.mem.q.head, (s.pc true).sleepsNotEmpty,
        decide (∀ t, (s.pc t).runsPush = false ∧ (s.pc t).runsPop = false))) =
      some (1, true, true) := by decide +kernel
  obtain ⟨s, hrun, hs⟩ := Option.map_eq_some_iff.mp hend
  obtain ⟨hhead, hs⟩ := Prod.mk.inj hs
  obtain ⟨hsleeps, hrest⟩ := Prod.mk.inj hs
  have hstart : ((queueSystem Bool cfg).restrict Orderly).Reachable start := .start rfl
  have hreach := System.Reachable.of_restrict (hstart.run hrun)
  refine ⟨s, hreach, hhead, hsleeps, fun hpublished => ?_⟩
  have hawake := (no_lost_wakeup cfg s hreach).buffer (of_decide_eq_true hrest) hpublished true
  rw [hsleeps] at hawake
  cases hawake

section Runs

local instance fourThreads : NeZero 4 := ⟨by decide⟩

local instance threeThreads : NeZero 3 := ⟨by decide⟩

/-- Two consumers are asleep.  Two pushes claim tickets 0 and 1, and the second publishes
first.  Its signal wakes a consumer, which finds ticket 0 unpublished and goes back to
sleep.  The signal of the first push wakes the same consumer, which takes ticket 0. -/
def outOfOrderActions : List (Fin 4 × QueueChoice (Fin 4)) :=
  popToSleep 2 ++ popToSleep 3 ++
    (0, .startPush ⟨1, 8, 0, 0⟩ .infinite) :: List.replicate 3 (0, .run) ++
    (1, .startPush ⟨2, 8, 0, 0⟩ .infinite) :: List.replicate 10 (1, .run) ++
    [(1, .signal (some 2)), (1, .run)] ++ List.replicate 9 (2, .run) ++
    List.replicate 7 (0, .run) ++ [(0, .signal (some 2)), (0, .run)] ++
    List.replicate 13 (2, .run)

/-- Ten bytes are the limit and twenty are in the queue when two pushes go to sleep.  The
pop of the twenty bytes signals one of them. -/
def onePopActions : List (Fin 3 × QueueChoice (Fin 3)) :=
  (0, .startPush ⟨1, 20, 0, 0⟩ .infinite) :: List.replicate 12 (0, .run) ++
    (0, .startPush ⟨2, 1, 0, 0⟩ .infinite) :: List.replicate 11 (0, .run) ++
    (1, .startPush ⟨3, 1, 0, 0⟩ .infinite) :: List.replicate 11 (1, .run) ++
    (2, .startPop .infinite) :: List.replicate 11 (2, .run) ++
    [(2, .signal (some 0)), (2, .run)] ++ List.replicate 15 (0, .run)

end Runs

/-- The two runs end with a consumer asleep beside a published buffer, and with a producer
asleep beside room, while all other threads are done. -/
theorem sleeper_beside_buffer :
    (∃ s, (queueSystem (Fin 4) ⟨.sync, 4, 0, 0⟩).ReachableVia
        (fun _ action => StartsPatient action.2) s ∧
      (∀ t, (s.pc t).runsPush = false ∧ (s.pc t).runsPop = false) ∧
      (s.mem.q.slot s.mem.q.head).sequence = s.mem.q.head + 1 ∧
      (s.pc 3).sleepsNotEmpty = true ∧ ¬ s.NoLostWakeup) ∧
    ∃ s, (queueSystem (Fin 3) ⟨.sync, 4, 10, 0⟩).ReachableVia
        (fun _ action => StartsPatient action.2) s ∧
      (∀ t, (s.pc t).runsPop = false ∧ (s.pc t).seeksRoom = 0) ∧ s.mem.q.HasRoom ∧
      (s.pc 1).sleepsNotFull = true ∧ ¬ s.NoLostWakeup := by
  refine ⟨?_, ?_⟩
  · let cfg : QueueConfig := ⟨.sync, 4, 0, 0⟩
    let start : QueueState (Fin 4) := ⟨⟨Queue.create cfg, none, 0, 0, [], []⟩, fun _ => .idle⟩
    have hend : ((queueSystem (Fin 4) cfg).run start outOfOrderActions).map (fun s =>
        decide ((∀ t, (s.pc t).runsPush = false ∧ (s.pc t).runsPop = false) ∧
          (s.mem.q.slot s.mem.q.head).sequence = s.mem.q.head + 1 ∧
          (s.pc 3).sleepsNotEmpty = true)) = some true := by decide +kernel
    obtain ⟨s, hrun, hs⟩ := Option.map_eq_some_iff.mp hend
    obtain ⟨hrest, hpublished, hsleeps⟩ := of_decide_eq_true hs
    have hall : ∀ a ∈ outOfOrderActions, StartsPatient a.2 := by decide +kernel
    refine ⟨s, System.ReachableVia.run (.start rfl) (fun _ => hall) hrun, hrest, hpublished, hsleeps,
      fun hkeeps => ?_⟩
    have hawake := hkeeps.buffer hrest hpublished 3
    rw [hsleeps] at hawake
    cases hawake
  · let cfg : QueueConfig := ⟨.sync, 4, 10, 0⟩
    let start : QueueState (Fin 3) := ⟨⟨Queue.create cfg, none, 0, 0, [], []⟩, fun _ => .idle⟩
    have hend : ((queueSystem (Fin 3) cfg).run start onePopActions).map (fun s =>
        decide ((∀ t, (s.pc t).runsPop = false ∧ (s.pc t).seeksRoom = 0) ∧
          ((s.mem.q.slot s.mem.q.tail).sequence = s.mem.q.tail ∧
            (s.mem.q.cfg.hasExtraLimits = true → s.mem.q.isFull = false)) ∧
          (s.pc 1).sleepsNotFull = true)) = some true := by decide +kernel
    obtain ⟨s, hrun, hs⟩ := Option.map_eq_some_iff.mp hend
    obtain ⟨hrest, hroom, hsleeps⟩ := of_decide_eq_true hs
    have hall : ∀ a ∈ onePopActions, StartsPatient a.2 := by decide +kernel
    refine ⟨s, System.ReachableVia.run (.start rfl) (fun _ => hall) hrun, hrest, hroom, hsleeps,
      fun hkeeps => ?_⟩
    have hawake := hkeeps.room hrest hroom 1
    rw [hsleeps] at hawake
    cases hawake

end Zstreamer

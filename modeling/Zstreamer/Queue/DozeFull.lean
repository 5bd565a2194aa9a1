/-
# Producers that doze

The same for producers.  Where only the number of buffers is limited, the count is the
mirror image: while a producer dozes, the ring with the pops between their claim and
their signal, and the pushes that are awake and still looking, is as full as it can be.
A producer may also doze because the check for room said so.  That check reads the head
and then the tail; the pops that have moved the head in between are still there, since
they cannot signal while the producer has the lock.

With a limit on bytes or on the duration no such count can hold: one pop may make room
for many pushes, and a push may even make room by what it adds.  There the argument is
about one producer that waits while no other thread is in `zst_queue_push`.  Either some
pop is on its way to signal it, or the queue is as the producer found it.
-/

import Zstreamer.Queue.DozeEmpty
import Zstreamer.Queue.Sequential

namespace Zstreamer

open Foundation Function

variable {ι : Type}

namespace QueuePc

/-- The push has found no room and goes to sleep, or sleeps. -/
def dozesNotFull : QueuePc → Bool
  | .push _ _ (.wait _ _) => true
  | .push _ _ .blocked => true
  | _ => false

/-- The pop has taken a buffer and has not signalled yet. -/
def vacates : QueuePc → ℕ
  | .pop _ (.loadBuf _) => 1
  | .pop _ (.subBytes _ _) => 1
  | .pop _ (.resetPts _ _) => 1
  | .pop _ (.resetDuration _ _) => 1
  | .pop _ (.resetBuf _ _) => 1
  | .pop _ (.release _ _) => 1
  | .pop _ (.loadWaiters _ _) => 1
  | .pop _ (.lockSignal _ _) => 1
  | .pop _ (.signal _ _) => 1
  | _ => 0

/-- The thread is in `zst_queue_push`. -/
def inPush : QueuePc → Bool
  | .push _ _ _ => true
  | _ => false

/-- The push is awake and looks for room. -/
def seeksRoom : QueuePc → ℕ
  | .push _ _ .loadTail => 1
  | .push _ _ (.loadSequence _) => 1
  | .push _ _ (.checkFull _ _) => 1
  | .push _ _ (.swapTail _) => 1
  | .push _ _ (.addWaiter _ _) => 1
  | .push _ _ (.lock _ _) => 1
  | .push _ _ (.recheckSequence _) => 1
  | .push _ _ (.recheckFull _ _) => 1
  | .push _ _ (.wake _) => 1
  | .push _ _ (.unlock _) => 1
  | .push _ _ (.subWaiter _) => 1
  | _ => 0

/-- The thread is going to signal a producer, or is one that is awake and looks for
room. -/
def servesPush (p : QueuePc) : ℕ := p.vacates + p.seeksRoom

end QueuePc

/-! ## One step -/

/-- The kinds of steps, for producers that doze. -/
inductive FullStep (m : QueueMemory ι) (p : QueuePc) : QueueMemory ι → QueuePc → Prop
  | balanced {m' : QueueMemory ι} {p' : QueuePc}
      (hpaid : m'.q.head + m.q.tail + p.servesPush ≤ m.q.head + m'.q.tail + p'.servesPush)
      (hdozes : p'.dozesNotFull = true → p.dozesNotFull = true) : FullStep m p m' p'
  /-- A pop that sees no waiters leaves without a signal. -/
  | quits {p' : QueuePc} (hwaiters : m.waitersPush = 0) (hdozes : p'.dozesNotFull = false) :
      FullStep m p m p'
  /-- A push into a queue that does not block gives up. -/
  | refused {p' : QueuePc} (hmode : m.q.cfg.mode = .async) (hdozes : p'.dozesNotFull = false) :
      FullStep m p m p'
  | dozesRing {buf : Buffer} {timeout : Timeout} {pos : ℕ}
      (hp : p = .push buf timeout (.recheckSequence pos))
      (hsequence : (m.q.slot pos).sequence < pos) :
      FullStep m p m (.push buf timeout (.wait .ring pos))
  | dozesLimits {buf : Buffer} {timeout : Timeout} {pos : ℕ} {full : FullPc}
      (hp : p = .push buf timeout (.recheckFull pos full))
      (hfull : full.step m.q = .inr true) :
      FullStep m p m (.push buf timeout (.wait .limits pos))

section Steps

variable {m m' : QueueMemory ι} {t : ι} {p : QueuePc}

theorem FullPc.start_ne_true (q : Queue) : FullPc.start q ≠ .inr true := by
  unfold FullPc.start FullPc.afterSize FullPc.afterBytes
  repeat' split
  all_goals
    intro h
    cases h

theorem PushPc.step_full {buf : Buffer} {timeout : Timeout} {ppc : PushPc}
    (hpatient : QueuePc.Patient m.q.cfg (.push buf timeout ppc))
    (hstep : ppc.step m t buf timeout = some (m', p)) :
    FullStep m (.push buf timeout ppc) m' p := by
  cases ppc with
  | loadSequence pos | checkFull pos full =>
      obtain rfl : timeout = .infinite := hpatient
      simp only [PushPc.step, PushPc.checked, reduceCtorEq, or_false] at hstep
      repeat' split at hstep
      all_goals
        cases hstep
        first
          | exact .balanced le_rfl (fun h => h)
          | exact .refused ‹_› rfl
  | swapTail pos =>
      simp only [PushPc.step] at hstep
      split at hstep
      case isTrue htail =>
        subst htail
        cases hstep
        refine .balanced ?_ (fun h => h)
        show m.q.head + m.q.tail + 1 ≤ m.q.head + (m.q.tail + 1) + 0
        omega
      case isFalse =>
        cases hstep
        exact .balanced le_rfl (fun h => h)
  | lock kind pos =>
      cases kind with
      | ring =>
          cases (RingInv.acquire_eq hstep).2
          exact .balanced le_rfl (fun h => h)
      | limits =>
          cases (RingInv.acquire_eq hstep).2
          have hnot := FullPc.start_ne_true m.q
          generalize FullPc.start m.q = out at hnot
          rcases out with full | (_ | _)
          · exact .balanced le_rfl (fun h => h)
          · exact .balanced le_rfl (fun h => h)
          · exact absurd rfl hnot
  | lockSignal | wake =>
      cases (RingInv.acquire_eq hstep).2
      exact .balanced le_rfl (fun h => h)
  | recheckSequence pos =>
      simp only [PushPc.step] at hstep
      split at hstep
      case isTrue hbelow =>
        cases hstep
        exact .dozesRing rfl (by omega)
      case isFalse =>
        cases hstep
        exact .balanced le_rfl (fun h => h)
  | recheckFull pos full =>
      cases hstep
      cases hout : full.step m.q with
      | inl full' => exact .balanced le_rfl (fun h => h)
      | inr answer =>
          cases answer with
          | false => exact .balanced le_rfl (fun h => h)
          | true => exact .dozesLimits rfl hout
  | subWaiter timedOut =>
      obtain ⟨-, -, rfl⟩ := hpatient
      cases hstep
      exact .balanced le_rfl (fun h => h)
  | _ =>
      simp only [PushPc.step] at hstep
      repeat' split at hstep
      all_goals first
        | cases hstep; exact .balanced le_rfl (fun h => h)
        | cases hstep

theorem PopPc.step_full {timeout : Timeout} {ppc : PopPc}
    (hstep : ppc.step m t timeout = some (m', p)) : FullStep m (.pop timeout ppc) m' p := by
  cases ppc with
  | swapHead pos =>
      simp only [PopPc.step] at hstep
      split at hstep
      case isTrue hhead =>
        subst hhead
        cases hstep
        refine .balanced ?_ (fun h => h)
        show m.q.head + 1 + m.q.tail + 0 ≤ m.q.head + m.q.tail + 1
        omega
      case isFalse =>
        cases hstep
        exact .balanced le_rfl (fun h => h)
  | loadWaiters pos out =>
      simp only [PopPc.step] at hstep
      split at hstep
      · cases hstep
        exact .balanced le_rfl (fun h => h)
      · cases hstep
        exact .quits (by omega) rfl
  | lock | lockSignal | wake =>
      cases (RingInv.acquire_eq hstep).2
      exact .balanced le_rfl (fun h => h)
  | subWaiter timedOut =>
      cases hstep
      cases timedOut <;> exact .balanced le_rfl (fun h => h)
  | _ =>
      simp only [PopPc.step] at hstep
      repeat' split at hstep
      all_goals first
        | cases hstep; exact .balanced le_rfl (fun h => h)
        | cases hstep

theorem QueuePc.step_full {old : QueuePc} {choice : QueueChoice ι}
    (hpatient : old.Patient m.q.cfg) (hstep : old.step m t choice = some (m', p)) :
    FullStep m old m' p := by
  unfold QueuePc.step at hstep
  split at hstep
  case h_1 =>
    cases hstep
    exact .balanced (Nat.le_succ _) (fun h => h)
  case h_3 => exact PushPc.step_full hpatient hstep
  case h_4 => exact PopPc.step_full hstep
  case h_7 =>
    cases hstep
    exact .balanced (Nat.le_succ _) (fun _ => rfl)
  case h_9 => cases hpatient.1
  all_goals
    cases hstep
    try exact .balanced le_rfl (fun h => h)

/-- The kinds of steps, for pops that have taken a buffer. -/
inductive VacateStep (m : QueueMemory ι) (p : QueuePc) : QueueMemory ι → QueuePc → Prop
  | still {m' : QueueMemory ι} {p' : QueuePc} (hqueue : m'.q = m.q)
      (hvacates : p'.vacates = p.vacates) : VacateStep m p m' p'
  | pushes {m' : QueueMemory ι} {p' : QueuePc} (hhead : m'.q.head = m.q.head)
      (hin : p.inPush = true) (hvacates : p'.vacates = p.vacates) :
      VacateStep m p m' p'
  | takes {m' : QueueMemory ι} {p' : QueuePc} (hhead : m'.q.head = m.q.head + 1)
      (hvacates : p.vacates = 0 ∧ p'.vacates = 1) : VacateStep m p m' p'
  | works {m' : QueueMemory ι} {p' : QueuePc} (hhead : m'.q.head = m.q.head)
      (hvacates : p.vacates = 1 ∧ p'.vacates = 1) : VacateStep m p m' p'
  | quits {m' : QueueMemory ι} {p' : QueuePc} (hwaiters : m.waitersPush = 0) :
      VacateStep m p m' p'

theorem PushPc.step_vacates {buf : Buffer} {timeout : Timeout} {ppc : PushPc}
    (hstep : ppc.step m t buf timeout = some (m', p)) :
    VacateStep m (.push buf timeout ppc) m' p := by
  have hhead : m'.q.head = m.q.head ∧ p.vacates = 0 := by
    cases ppc with
    | lock kind pos =>
        cases kind with
        | ring =>
            cases (RingInv.acquire_eq hstep).2
            exact ⟨rfl, rfl⟩
        | limits =>
            cases (RingInv.acquire_eq hstep).2
            rcases FullPc.start m.q with full | (_ | _) <;> exact ⟨rfl, rfl⟩
    | lockSignal | wake =>
        cases (RingInv.acquire_eq hstep).2
        exact ⟨rfl, rfl⟩
    | recheckFull pos full =>
        cases hstep
        rcases full.step m.q with full | (_ | _) <;> exact ⟨rfl, rfl⟩
    | subWaiter timedOut =>
        cases hstep
        cases timedOut <;> exact ⟨rfl, rfl⟩
    | _ =>
        simp only [PushPc.step, PushPc.checked] at hstep
        repeat' split at hstep
        all_goals first
          | cases hstep; exact ⟨rfl, rfl⟩
          | cases hstep
  exact .pushes hhead.1 rfl hhead.2

theorem PopPc.step_vacates {timeout : Timeout} {ppc : PopPc}
    (hstep : ppc.step m t timeout = some (m', p)) : VacateStep m (.pop timeout ppc) m' p := by
  cases ppc with
  | swapHead pos =>
      simp only [PopPc.step] at hstep
      split at hstep
      case isTrue hhead =>
        subst hhead
        cases hstep
        exact .takes rfl ⟨rfl, rfl⟩
      case isFalse =>
        cases hstep
        exact .still rfl rfl
  | loadWaiters pos out =>
      simp only [PopPc.step] at hstep
      split at hstep
      · cases hstep
        exact .works rfl ⟨rfl, rfl⟩
      · cases hstep
        exact .quits (by omega)
  | lock | lockSignal | wake =>
      cases (RingInv.acquire_eq hstep).2
      exact .still rfl rfl
  | subWaiter timedOut =>
      cases hstep
      cases timedOut <;> exact .still rfl rfl
  | _ =>
      simp only [PopPc.step] at hstep
      repeat' split at hstep
      all_goals first
        | cases hstep; exact .still rfl rfl
        | cases hstep; exact .works rfl ⟨rfl, rfl⟩
        | cases hstep

theorem QueuePc.step_vacates {old : QueuePc} {choice : QueueChoice ι}
    (hstep : old.step m t choice = some (m', p)) : VacateStep m old m' p := by
  unfold QueuePc.step at hstep
  split at hstep
  case h_3 => exact PushPc.step_vacates hstep
  case h_4 => exact PopPc.step_vacates hstep
  all_goals
    cases hstep
    try exact .still rfl rfl

/-- Where a check under the lock comes from. -/
theorem QueuePc.step_recheckFull {old : QueuePc} {choice : QueueChoice ι} {buf : Buffer}
    {timeout : Timeout} {pos : ℕ} {full : FullPc}
    (hstep : old.step m t choice = some (m', .push buf timeout (.recheckFull pos full))) :
    m'.q = m.q ∧ ((old = .push buf timeout (.lock .limits pos) ∧ FullPc.start m.q = .inl full) ∨
      ∃ before, old = .push buf timeout (.recheckFull pos before) ∧
        before.step m.q = .inl full) := by
  unfold QueuePc.step at hstep
  split at hstep
  case h_3 b timeout' ppc =>
    cases ppc with
    | lock kind pos' =>
        cases kind with
        | ring =>
            cases (RingInv.acquire_eq hstep).2
        | limits =>
            obtain ⟨-, heq⟩ := RingInv.acquire_eq hstep
            obtain ⟨rfl, hpc⟩ := Prod.mk.inj heq
            cases hout : FullPc.start m.q with
            | inl full' =>
                rw [hout] at hpc
                cases hpc
                exact ⟨rfl, .inl ⟨rfl, rfl⟩⟩
            | inr answer =>
                rw [hout] at hpc
                cases answer <;> cases hpc
    | recheckFull pos' before =>
        obtain ⟨rfl, hpc⟩ := Prod.mk.inj (Option.some.inj hstep)
        cases hout : before.step m.q with
        | inl full' =>
            rw [hout] at hpc
            cases hpc
            exact ⟨rfl, .inr ⟨before, rfl, hout⟩⟩
        | inr answer =>
            rw [hout] at hpc
            cases answer <;> cases hpc
    | lockSignal | wake =>
        cases (RingInv.acquire_eq hstep).2
    | subWaiter timedOut =>
        simp only [PushPc.step] at hstep
        cases timedOut <;> cases hstep
    | _ =>
        simp only [PushPc.step, PushPc.checked] at hstep
        repeat' split at hstep
        all_goals cases hstep
  case h_4 timeout' ppc =>
    cases ppc with
    | lock | lockSignal | wake =>
        cases (RingInv.acquire_eq hstep).2
    | subWaiter timedOut =>
        simp only [PopPc.step] at hstep
        cases timedOut <;> cases hstep
    | _ =>
        simp only [PopPc.step] at hstep
        repeat' split at hstep
        all_goals cases hstep
  all_goals cases hstep

end Steps

/-! ## A limit on the number of buffers only -/

namespace QueueConfig

variable (cfg : QueueConfig)

/-- There is a limit on bytes or on the duration. -/
def limited : Bool := cfg.maxBytes > 0 || cfg.maxDuration > 0

/-- How many buffers fit, if there is no limit on bytes or on the duration. -/
def room : ℕ := if cfg.maxBuffers > 0 then min cfg.maxBuffers cfg.capacity else cfg.capacity

theorem room_le_capacity : cfg.room ≤ cfg.capacity := by
  unfold room
  split
  · exact Nat.min_le_right _ _
  · exact le_rfl

end QueueConfig

/-- What a check of the number of buffers under the lock knows, when `n` pops have taken a
buffer and not signalled yet. -/
def QueueMemory.CountCheck (m : QueueMemory ι) (n : ℕ) : FullPc → Prop
  | .sizeHead => m.q.cfg.maxBuffers > 0
  | .sizeTail head => m.q.cfg.maxBuffers > 0 ∧ m.q.head ≤ head + n
  | _ => False

/-- While a producer dozes, the ring is full, or will be when the awake threads are done. -/
structure DozeFull [Fintype ι] (m : QueueMemory ι) (pc : ι → QueuePc) : Prop where
  count : ∀ t, (pc t).dozesNotFull = true →
    m.q.head + m.q.cfg.room ≤ m.q.tail + tally QueuePc.servesPush pc
  check : ∀ t buf timeout pos full, pc t = .push buf timeout (.recheckFull pos full) →
    m.CountCheck (tally QueuePc.vacates pc) full

section Full

variable {m m' : QueueMemory ι} {pc : ι → QueuePc} {t : ι} {p : QueuePc}

theorem QueueMemory.CountCheck.of_start {q : Queue} {n : ℕ} {full : FullPc} (hq : m.q = q)
    (hlimited : q.cfg.limited = false) (hstart : FullPc.start q = .inl full) :
    m.CountCheck n full := by
  subst hq
  simp only [QueueConfig.limited, Bool.or_eq_false_iff, decide_eq_false_iff_not] at hlimited
  unfold FullPc.start FullPc.afterSize FullPc.afterBytes at hstart
  rw [if_neg hlimited.1, if_neg hlimited.2] at hstart
  split at hstart
  case isTrue hpos =>
    cases hstart
    exact hpos
  case isFalse => cases hstart

theorem QueueMemory.CountCheck.of_step {n : ℕ} {full full' : FullPc}
    (hlimited : m.q.cfg.limited = false) (hcheck : m.CountCheck n full)
    (hstep : full.step m.q = .inl full') : m.CountCheck n full' := by
  simp only [QueueConfig.limited, Bool.or_eq_false_iff, decide_eq_false_iff_not] at hlimited
  cases full with
  | sizeHead =>
      cases hstep
      exact ⟨hcheck, by omega⟩
  | sizeTail head =>
      simp only [FullPc.step, FullPc.afterSize, FullPc.afterBytes, if_neg hlimited.1,
        if_neg hlimited.2] at hstep
      split at hstep <;> cases hstep
  | _ => cases hcheck

/-- A pop that takes a buffer is one more that has not signalled. -/
theorem QueueMemory.CountCheck.mono {n n' : ℕ} {full : FullPc} (hcfg : m'.q.cfg = m.q.cfg)
    (hle : m'.q.head + n ≤ m.q.head + n') (hcheck : m.CountCheck n full) :
    m'.CountCheck n' full := by
  cases full with
  | sizeHead =>
      show m'.q.cfg.maxBuffers > 0
      rw [hcfg]
      exact hcheck
  | sizeTail head =>
      obtain ⟨hpos, hhead⟩ := hcheck
      refine ⟨?_, by omega⟩
      rw [hcfg]
      exact hpos
  | _ => cases hcheck

theorem QueuePc.waitsPush_of_dozes {p : QueuePc} (hdozes : p.dozesNotFull = true) :
    p.waitsPush = 1 := by
  cases p with
  | push buf timeout ppc => cases ppc <;> first | rfl | cases hdozes
  | _ => cases hdozes

theorem QueuePc.sync_of_dozes {p : QueuePc} {cfg : QueueConfig} (hpatient : p.Patient cfg)
    (hdozes : p.dozesNotFull = true) : cfg.mode = .sync := by
  cases p with
  | push buf timeout ppc =>
      cases ppc with
      | wait kind pos => exact hpatient.2
      | blocked => exact hpatient.2
      | _ => cases hdozes
  | _ => cases hdozes

/-- The slot of a position that has been claimed is not behind it. -/
theorem RingInv.le_sequence (hring : RingInv m pc) {k : ℕ} (hk : k < m.q.tail) :
    k ≤ (m.q.slot k).sequence := by
  by_cases hhead : k < m.q.head
  · have := hring.lt_sequence hhead
    omega
  · rcases hring.produced k (not_lt.mp hhead) hk with ⟨u, hu⟩ | ⟨buf, -, hslot⟩
    · obtain ⟨buf, hwriting⟩ := (hring.fact u).writing hu
      exact hwriting.sequence.ge
    · rw [hslot]
      exact Nat.le_succ k

/-- A push that finds its slot in use is at the tail. -/
theorem RingInv.pos_eq_tail (hring : RingInv m pc) {buf : Buffer} {timeout : Timeout} {pos : ℕ}
    (hpc : pc t = .push buf timeout (.recheckSequence pos))
    (hsequence : (m.q.slot pos).sequence < pos) : pos = m.q.tail := by
  have hle : pos ≤ m.q.tail := by
    have hfact := hring.fact t
    rw [hpc] at hfact
    exact hfact
  by_contra hne
  have := hring.le_sequence (k := pos) (by omega)
  omega

variable [Fintype ι] [DecidableEq ι]

/-- The push that goes to sleep leaves behind only slots that are being emptied. -/
theorem RingInv.dozes_full (hring : RingInv m pc) {buf : Buffer} {timeout : Timeout} {pos : ℕ}
    (hpc : pc t = .push buf timeout (.recheckSequence pos))
    (hsequence : (m.q.slot pos).sequence < pos)
    (horder : ∀ k < m.q.head + m.q.cfg.capacity, pos < k → (m.q.slot k).sequence ≠ k) :
    m.q.head + m.q.cfg.capacity ≤ m.q.tail +
      tally QueuePc.servesPush (update pc t (.push buf timeout (.wait .ring pos))) := by
  obtain rfl := hring.pos_eq_tail hpc hsequence
  have hcard : (Finset.Ico m.q.tail (m.q.head + m.q.cfg.capacity)).card ≤
      tally QueuePc.servesPush
        (update pc t (.push buf timeout (.wait .ring m.q.tail))) := by
    refine card_le_tally (fun p => p.reads.map (· + m.q.cfg.capacity)) (fun k hk => ?_)
      fun u k hu => ?_
    · obtain ⟨hge, hlt⟩ := Finset.mem_Ico.mp hk
      rcases hring.freed k hge hlt with hfree | ⟨u, j, rfl, hu⟩
      · exfalso
        by_cases hkt : k = m.q.tail
        · subst hkt
          omega
        · exact horder k hlt (by omega) hfree
      · have hut : u ≠ t := by
          rintro rfl
          rw [hpc] at hu
          cases hu
        exact ⟨u, by rw [update_of_ne hut, hu]; rfl⟩
    · generalize update pc t _ u = p at hu
      cases p with
      | pop timeout ppc => cases ppc <;> first | exact le_rfl | cases hu
      | _ => cases hu
  rw [Nat.card_Ico] at hcard
  omega

omit [Fintype ι] in
theorem QueuePc.dozesNotFull_update {v : ι} (hp : p.dozesNotFull = false)
    (hv : (update pc t p v).dozesNotFull = true) :
    v ≠ t ∧ (pc v).dozesNotFull = true := by
  by_cases hvt : v = t
  · rw [hvt, update_self, hp] at hv
    cases hv
  · rw [update_of_ne hvt] at hv
    exact ⟨hvt, hv⟩

/-- The producer that goes to sleep because of its check has counted the buffers right. -/
theorem DozeFull.dozes_limits (hinv : DozeFull m pc) {buf : Buffer} {timeout : Timeout} {pos : ℕ}
    {full : FullPc} (hpc : pc t = .push buf timeout (.recheckFull pos full))
    (hfull : full.step m.q = .inr true) :
    m.q.head + m.q.cfg.room ≤ m.q.tail +
      tally QueuePc.servesPush (update pc t (.push buf timeout (.wait .limits pos))) := by
  have hcheck := hinv.check t buf timeout pos full hpc
  cases full with
  | sizeHead => cases hfull
  | sizeTail head =>
      obtain ⟨hpos, hhead⟩ := hcheck
      have hsize : m.q.cfg.maxBuffers ≤ m.q.tail - head := by
        simp only [FullPc.step] at hfull
        split at hfull
        case isTrue hsize =>
          unfold sizeBetween at hsize
          dsimp only at hsize
          split at hsize
          · omega
          · have := Nat.mod_le ((m.q.tail : ℤ) - (head : ℤ)).toNat (2 ^ 32)
            omega
        case isFalse =>
          unfold FullPc.afterSize FullPc.afterBytes at hfull
          repeat' split at hfull
          all_goals cases hfull
      have hroom : m.q.cfg.room ≤ m.q.cfg.maxBuffers := by
        rw [QueueConfig.room, if_pos hpos]
        exact Nat.min_le_left _ _
      have hsame := tally_update QueuePc.vacates pc t (.push buf timeout (.wait .limits pos))
      rw [hpc] at hsame
      simp only [QueuePc.vacates] at hsame
      have hle : tally QueuePc.vacates
          (update pc t (.push buf timeout (.wait .limits pos))) ≤
          tally QueuePc.servesPush
            (update pc t (.push buf timeout (.wait .limits pos))) :=
        tally_le_tally fun _ => Nat.le_add_right _ _
      omega
  | _ => cases hcheck

theorem DozeFull.step (hinv : DozeFull m pc) (hring : RingInv m pc) (hwait : WaitInv m pc)
    (hpatient : ∀ u, (pc u).Patient m.q.cfg) (hlimited : m.q.cfg.limited = false)
    {choice : QueueChoice ι}
    (horder : ∀ buf timeout pos, pc t = .push buf timeout (.recheckSequence pos) →
      (m.q.slot pos).sequence < pos →
      ∀ k < m.q.head + m.q.cfg.capacity, pos < k → (m.q.slot k).sequence ≠ k)
    (hstep : (pc t).step m t choice = some (m', p)) : DozeFull m' (update pc t p) := by
  have hcfg := QueuePc.step_cfg hstep
  refine ⟨fun u hu => ?_, fun u buf timeout pos full hu => ?_⟩
  · cases QueuePc.step_full (hpatient t) hstep with
    | balanced hpaid hdozes =>
        rw [hcfg]
        refine le_tally_update (b := m.q.tail) (a := m.q.head + m.q.cfg.room) ?_ (by omega)
        by_cases hut : u = t
        · rw [hut, update_self] at hu
          exact hinv.count t (hdozes hu)
        · rw [update_of_ne hut] at hu
          exact hinv.count u hu
    | quits hwaiters hdozes =>
        obtain ⟨-, hu⟩ := QueuePc.dozesNotFull_update hdozes hu
        have hone := QueuePc.waitsPush_of_dozes hu
        rw [hwait.no_push_waits hwaiters u] at hone
        cases hone
    | refused hmode hdozes =>
        obtain ⟨-, hu⟩ := QueuePc.dozesNotFull_update hdozes hu
        have hsync := QueuePc.sync_of_dozes (hpatient u) hu
        rw [hmode] at hsync
        cases hsync
    | dozesRing hp hsequence =>
        have hfull := hring.dozes_full hp hsequence (horder _ _ _ hp hsequence)
        have hroom := m.q.cfg.room_le_capacity
        omega
    | dozesLimits hp hfull => exact hinv.dozes_limits hp hfull
  · by_cases hut : u = t
    · subst hut
      rw [update_self] at hu
      subst hu
      have hvacates := tally_update QueuePc.vacates pc u (.push buf timeout (.recheckFull pos full))
      obtain ⟨hq, ⟨hold, hstart⟩ | ⟨before, hold, hbefore⟩⟩ := QueuePc.step_recheckFull hstep
      · exact .of_start hq hlimited hstart
      · rw [hold] at hvacates
        have hcheck := (hinv.check u buf timeout pos before hold).of_step hlimited hbefore
        refine hcheck.mono hcfg ?_
        rw [hq]
        simp only [QueuePc.vacates] at hvacates
        omega
    · rw [update_of_ne hut] at hu
      have hvacates := tally_update QueuePc.vacates pc t p
      refine (hinv.check u buf timeout pos full hu).mono hcfg ?_
      cases QueuePc.step_vacates hstep with
      | still hqueue hsame =>
          rw [hqueue]
          omega
      | pushes hhead hin hsame => omega
      | takes hhead hmore => omega
      | works hhead hsame => omega
      | quits hwaiters =>
          have hzero := hwait.no_push_waits hwaiters u
          rw [hu] at hzero
          cases hzero

/-- The lock is with a signaller, so nobody is checking for room when it signals. -/
theorem SignalStep.not_checking {s s' : QueueState ι} (hsignal : SignalStep s t s')
    (hwait : WaitInv s.mem s.pc) {u : ι} {buf : Buffer} {timeout : Timeout} {pos : ℕ}
    {full : FullPc} : s'.pc u ≠ .push buf timeout (.recheckFull pos full) := by
  have hbefore : s.pc u ≠ .push buf timeout (.recheckFull pos full) := by
    intro hu
    have hut := hwait.one_holder (t := u) (by rw [hu]; rfl) hsignal.locked
    subst hut
    cases hsignal with
    | pushedNone hpc | pushedSome hpc | poppedNone hpc | poppedSome hpc =>
        cases hu.symm.trans hpc
  refine hsignal.invariant (P := fun _ pc => pc u ≠ .push buf timeout (.recheckFull pos full))
    hbefore ?_
  intro pc v p hpc hmove hv
  by_cases huv : u = v
  · subst huv
    rw [update_self] at hv
    subst hv
    generalize pc u = old at hmove
    cases hmove
  · rw [update_of_ne huv] at hv
    exact hpc hv

omit [Fintype ι] [DecidableEq ι] in
theorem QueuePc.locked_of_dozesNotFull {p : QueuePc} (hdozes : p.dozesNotFull = true)
    (hawake : p.sleepsNotFull = false) : p.locked = true := by
  cases p with
  | push buf timeout ppc =>
      cases ppc with
      | wait kind pos => rfl
      | blocked => cases hawake
      | _ => cases hdozes
  | _ => cases hdozes

/-- A signal of a pop is spent on a producer that looks again. -/
theorem DozeFull.signal {s s' : QueueState ι} (hinv : DozeFull s.mem s.pc)
    (hwait : WaitInv s.mem s.pc) (hsignal : SignalStep s t s') : DozeFull s'.mem s'.pc := by
  refine ⟨fun v hv => ?_, fun u buf timeout pos full hu => ?_⟩
  · cases hsignal with
    | @poppedNone timeout pos out hpc hnone =>
        exfalso
        obtain ⟨hvt, hv⟩ := QueuePc.dozesNotFull_update rfl hv
        have hlocked := QueuePc.locked_of_dozesNotFull hv (hnone v)
        exact hvt (hwait.one_holder hlocked (by rw [hpc]; rfl))
    | @poppedSome buf timeout timeout' pos out u hpc hsleeps =>
        have htu : t ≠ u := by
          rintro rfl
          cases hpc.symm.trans hsleeps
        have hcount := hinv.count u (by rw [hsleeps]; rfl)
        have hwoken := tally_update QueuePc.servesPush s.pc u (.push buf timeout' (.wake false))
        have hgone := tally_update QueuePc.servesPush
          (update s.pc u (.push buf timeout' (.wake false))) t
          (.pop timeout (.unlockSignal out))
        rw [update_of_ne htu, hpc] at hgone
        rw [hsleeps] at hwoken
        simp only [QueuePc.servesPush, QueuePc.vacates, QueuePc.seeksRoom] at hwoken hgone
        dsimp only
        omega
    | @pushedNone buf timeout pos hpc hnone =>
        obtain ⟨-, hv⟩ := QueuePc.dozesNotFull_update rfl hv
        exact le_tally_update (hinv.count v hv) (by rw [hpc]; exact le_rfl)
    | @pushedSome buf timeout timeout' pos u hpc hsleeps =>
        have htu : t ≠ u := by
          rintro rfl
          cases hpc.symm.trans hsleeps
        obtain ⟨-, hv⟩ := QueuePc.dozesNotFull_update rfl hv
        obtain ⟨-, hv⟩ := QueuePc.dozesNotFull_update rfl hv
        refine le_tally_update (le_tally_update (hinv.count v hv) (by rw [hsleeps]; exact le_rfl)) ?_
        rw [update_of_ne htu, hpc]
        exact le_rfl
  · exact absurd hu (hsignal.not_checking hwait)

end Full

/-! ## A limit on bytes or on the duration -/

/-- A push would find its slot free and no limit reached. -/
def Queue.HasRoom (q : Queue) : Prop :=
  (q.slot q.tail).sequence = q.tail ∧ (q.cfg.hasExtraLimits = true → q.isFull = false)

/-- A producer that waits is alone in `zst_queue_push`, and if it dozes, a pop is on its
way or there is no room. -/
structure DozeAlone [Fintype ι] (m : QueueMemory ι) (pc : ι → QueuePc) : Prop where
  alone : ∀ t, (pc t).waitsPush = 1 → ∀ u, u ≠ t → (pc u).inPush = false
  check : ∀ t buf timeout pos full, pc t = .push buf timeout (.recheckFull pos full) →
    0 < tally QueuePc.vacates pc ∨ full.answer m.q = m.q.isFull
  asleep : ∀ t, (pc t).dozesNotFull = true → 0 < tally QueuePc.vacates pc ∨ ¬ m.q.HasRoom

section Alone

variable {m m' : QueueMemory ι} {pc : ι → QueuePc} {t : ι} {p : QueuePc}

theorem PopPc.step_inPush {timeout : Timeout} {ppc : PopPc}
    (hstep : ppc.step m t timeout = some (m', p)) : p.inPush = false := by
  cases ppc with
  | lock | lockSignal | wake =>
      cases (RingInv.acquire_eq hstep).2
      rfl
  | _ =>
      simp only [PopPc.step] at hstep
      repeat' split at hstep
      all_goals first | cases hstep; rfl | cases hstep

theorem QueuePc.step_inPush {old : QueuePc} {choice : QueueChoice ι}
    (hstep : old.step m t choice = some (m', p)) (hin : p.inPush = true) :
    old.inPush = true ∨ ∃ buf timeout, choice = .startPush buf timeout := by
  unfold QueuePc.step at hstep
  split at hstep
  case h_1 buf timeout => exact .inr ⟨buf, timeout, rfl⟩
  case h_4 =>
    rw [PopPc.step_inPush hstep] at hin
    cases hin
  case h_3 | h_5 | h_7 | h_9 => exact .inl rfl
  all_goals
    cases hstep
    try cases hin

theorem QueuePc.inPush_of_waits {p : QueuePc} (hwaits : p.waitsPush = 1) : p.inPush = true := by
  cases p with
  | push buf timeout ppc => rfl
  | _ => cases hwaits

theorem QueuePc.vacates_of_inPush {p : QueuePc} (hin : p.inPush = true) : p.vacates = 0 := by
  cases p with
  | push buf timeout ppc => rfl
  | _ => cases hin

theorem QueuePc.step_waitsPush {old : QueuePc} {choice : QueueChoice ι}
    (hstep : old.step m t choice = some (m', p)) (hwaits : p.waitsPush = 1) :
    old.waitsPush = 1 ∨ ∃ buf timeout kind pos, old = .push buf timeout (.addWaiter kind pos) := by
  unfold QueuePc.step at hstep
  split at hstep
  case h_3 buf timeout ppc =>
    cases ppc with
    | lock | recheckSequence | recheckFull | wait | blocked | wake | unlock | subWaiter =>
        exact .inl rfl
    | addWaiter kind pos => exact .inr ⟨buf, timeout, kind, pos, rfl⟩
    | lockSignal =>
        cases (RingInv.acquire_eq hstep).2
        cases hwaits
    | _ =>
        simp only [PushPc.step, PushPc.checked] at hstep
        repeat' split at hstep
        all_goals
          cases hstep
          try cases hwaits
  case h_4 =>
    have hin := QueuePc.inPush_of_waits hwaits
    rw [PopPc.step_inPush hstep] at hin
    cases hin
  case h_7 | h_9 => exact .inl rfl
  all_goals
    cases hstep
    try cases hwaits

/-- A producer that dozes leaves the queue alone. -/
theorem QueuePc.step_of_dozes {old : QueuePc} {choice : QueueChoice ι}
    (hold : old.dozesNotFull = true) (hstep : old.step m t choice = some (m', p)) :
    m'.q = m.q := by
  unfold QueuePc.step at hstep
  split at hstep
  case h_3 buf timeout ppc =>
    cases ppc with
    | wait kind pos =>
        cases hstep
        rfl
    | blocked => cases hstep
    | _ => cases hold
  case h_4 => cases hold
  all_goals
    cases hstep
    try rfl

variable [Fintype ι] [DecidableEq ι]

/-- While a producer waits, another thread changes the queue only as a pop that is on its
way to the signal. -/
theorem DozeAlone.other_step (hinv : DozeAlone m pc) (hwait : WaitInv m pc) {u : ι}
    (hut : u ≠ t) (hwaits : (pc u).waitsPush = 1) {choice : QueueChoice ι}
    (hstep : (pc t).step m t choice = some (m', p)) :
    0 < tally QueuePc.vacates (update pc t p) ∨
      (m'.q = m.q ∧ tally QueuePc.vacates (update pc t p) = tally QueuePc.vacates pc) := by
  have hvacates := tally_update QueuePc.vacates pc t p
  have hle := le_tally QueuePc.vacates (update pc t p) t
  rw [update_self] at hle
  cases QueuePc.step_vacates hstep with
  | still hqueue hsame => exact .inr ⟨hqueue, by omega⟩
  | pushes hhead hin hsame =>
      rw [hinv.alone u hwaits t hut.symm] at hin
      cases hin
  | takes hhead hmore => exact .inl (by omega)
  | works hhead hsame => exact .inl (by omega)
  | quits hwaiters =>
      rw [hwait.no_push_waits hwaiters u] at hwaits
      cases hwaits

theorem DozeAlone.step (hinv : DozeAlone m pc) (hring : RingInv m pc) (hwait : WaitInv m pc)
    (hpatient : ∀ u, (pc u).Patient m.q.cfg) (hlimited : m.q.cfg.limited = true) {choice : QueueChoice ι}
    (hstart : ∀ buf timeout, choice = .startPush buf timeout → ∀ u, (pc u).waitsPush = 0)
    (hwaiter : ∀ buf timeout kind pos, pc t = .push buf timeout (.addWaiter kind pos) →
      ∀ u, u ≠ t → (pc u).inPush = false)
    (hstep : (pc t).step m t choice = some (m', p)) : DozeAlone m' (update pc t p) := by
  have hvacates := tally_update QueuePc.vacates pc t p
  refine ⟨fun u hu v hvu => ?_, fun u buf timeout pos full hu => ?_, fun u hu => ?_⟩
  · by_cases hut : u = t
    · subst hut
      rw [update_self] at hu
      rw [update_of_ne hvu]
      rcases QueuePc.step_waitsPush hstep hu with hold | ⟨buf, timeout, kind, pos, hold⟩
      · exact hinv.alone u hold v hvu
      · exact hwaiter buf timeout kind pos hold v hvu
    · rw [update_of_ne hut] at hu
      by_cases hvt : v = t
      · subst hvt
        rw [update_self]
        cases hin : p.inPush with
        | false => rfl
        | true =>
            rcases QueuePc.step_inPush hstep hin with hold | ⟨buf, timeout, hchoice⟩
            · rw [hinv.alone u hu v hvu] at hold
              cases hold
            · rw [hstart buf timeout hchoice u] at hu
              cases hu
      · rw [update_of_ne hvt]
        exact hinv.alone u hu v hvu
  · by_cases hut : u = t
    · subst hut
      rw [update_self] at hu
      subst hu
      obtain ⟨hq, ⟨hold, hbegin⟩ | ⟨before, hold, hbefore⟩⟩ := QueuePc.step_recheckFull hstep
      · refine .inr ?_
        have hanswer := FullPc.start_answer m.q
        rw [hbegin] at hanswer
        rw [hq]
        exact hanswer
      · rw [hold] at hvacates
        simp only [QueuePc.vacates] at hvacates
        rcases hinv.check u buf timeout pos before hold with hpos | hanswer
        · exact .inl (by omega)
        · refine .inr ?_
          have hkeeps := FullPc.step_answer m.q before
          rw [hbefore] at hkeeps
          rw [hq, ← hanswer]
          exact hkeeps
    · rw [update_of_ne hut] at hu
      have hwaits : (pc u).waitsPush = 1 := by
        rw [hu]
        rfl
      rcases hinv.other_step hwait hut hwaits hstep with hpos | ⟨hq, hsame⟩
      · exact .inl hpos
      · rw [hq, hsame]
        exact hinv.check u buf timeout pos full hu
  · by_cases hut : u = t
    · subst hut
      rw [update_self] at hu
      have hzero := QueuePc.vacates_of_inPush (QueuePc.inPush_of_waits
        (QueuePc.waitsPush_of_dozes hu))
      cases QueuePc.step_full (hpatient u) hstep with
      | balanced hpaid hdozes =>
          have hold := hdozes hu
          have hzero' := QueuePc.vacates_of_inPush (QueuePc.inPush_of_waits
            (QueuePc.waitsPush_of_dozes hold))
          rw [QueuePc.step_of_dozes hold hstep]
          rcases hinv.asleep u hold with hpos | hroom
          · exact .inl (by omega)
          · exact .inr hroom
      | quits hwaiters hdozes | refused hmode hdozes =>
          rw [hdozes] at hu
          cases hu
      | dozesRing hold hsequence =>
          refine .inr fun hroom => ?_
          have htail := hring.pos_eq_tail hold hsequence
          subst htail
          have := hroom.1
          omega
      | @dozesLimits buf timeout pos full hold hfull =>
          rw [hold] at hvacates
          simp only [QueuePc.vacates] at hvacates
          rcases hinv.check u buf timeout pos full hold with hpos | hanswer
          · exact .inl (by omega)
          · -- The check that ends with "full" is right about the memory as it is.
            refine .inr fun hroom => ?_
            have hkeeps := FullPc.step_answer m.q full
            rw [hfull, hanswer] at hkeeps
            have hextra : m.q.cfg.hasExtraLimits = true := by
              simp only [QueueConfig.limited] at hlimited
              simp only [QueueConfig.hasExtraLimits, hlimited, Bool.true_or]
            rw [hroom.2 hextra] at hkeeps
            cases hkeeps
    · rw [update_of_ne hut] at hu
      rcases hinv.other_step hwait hut (QueuePc.waitsPush_of_dozes hu) hstep with hpos | ⟨hq, hsame⟩
      · exact .inl hpos
      · rw [hq, hsame]
        exact hinv.asleep u hu

omit [Fintype ι] in
theorem DozeAlone.signalMove (hinv : ∀ t, (pc t).waitsPush = 1 → ∀ u, u ≠ t → (pc u).inPush = false)
    (hmove : SignalMove (pc t) p) (u : ι) (hu : (update pc t p u).waitsPush = 1) (v : ι)
    (hvu : v ≠ u) : (update pc t p v).inPush = false := by
  have hwaits : ∀ w, (update pc t p w).waitsPush = (pc w).waitsPush := by
    refine view_update ?_
    generalize pc t = old at hmove
    cases hmove <;> rfl
  have hin : ∀ w, (update pc t p w).inPush = (pc w).inPush := by
    refine view_update ?_
    generalize pc t = old at hmove
    cases hmove <;> rfl
  rw [hwaits] at hu
  rw [hin]
  exact hinv u hu v hvu

/-- The signal of a pop finds the only producer that waits. -/
theorem DozeAlone.signal {s s' : QueueState ι} (hinv : DozeAlone s.mem s.pc)
    (hwait : WaitInv s.mem s.pc) (hsignal : SignalStep s t s') : DozeAlone s'.mem s'.pc := by
  refine ⟨?_, fun u buf timeout pos full hu => absurd hu (hsignal.not_checking hwait),
    fun u hu => ?_⟩
  · exact hsignal.invariant
      (P := fun _ pc => ∀ t, (pc t).waitsPush = 1 → ∀ u, u ≠ t → (pc u).inPush = false)
      hinv.alone fun _ _ _ h hmove => DozeAlone.signalMove h hmove
  · exfalso
    cases hsignal with
    | pushedNone hpc =>
        obtain ⟨hut, hu⟩ := QueuePc.dozesNotFull_update rfl hu
        have hin := hinv.alone u (QueuePc.waitsPush_of_dozes hu) t hut.symm
        rw [hpc] at hin
        cases hin
    | pushedSome hpc hsleeps =>
        obtain ⟨hut, hu⟩ := QueuePc.dozesNotFull_update rfl hu
        obtain ⟨-, hu⟩ := QueuePc.dozesNotFull_update rfl hu
        have hin := hinv.alone u (QueuePc.waitsPush_of_dozes hu) t hut.symm
        rw [hpc] at hin
        cases hin
    | poppedNone hpc hnone =>
        obtain ⟨hut, hu⟩ := QueuePc.dozesNotFull_update rfl hu
        have hlocked := QueuePc.locked_of_dozesNotFull hu (hnone u)
        exact hut (hwait.one_holder hlocked (by rw [hpc]; rfl))
    | @poppedSome _ _ _ _ _ v hpc hsleeps =>
        obtain ⟨-, hu⟩ := QueuePc.dozesNotFull_update rfl hu
        obtain ⟨huv, hu⟩ := QueuePc.dozesNotFull_update rfl hu
        have hin := hinv.alone u (QueuePc.waitsPush_of_dozes hu) v huv.symm
        rw [hsleeps] at hin
        cases hin

end Alone

end Zstreamer

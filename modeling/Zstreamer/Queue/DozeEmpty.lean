/-
# Consumers that doze

A consumer dozes when it has looked under the lock, found nothing and is going to sleep,
or sleeps.  A push signals one sleeping consumer, so a signal must not be spent on a
thread that goes back to sleep while there is a buffer.

The count that carries the argument: while a consumer dozes, there are at most as many
claimed buffers in the ring as there are threads that serve them, which are the pushes
between their claim and their signal, and the pops that are awake and still looking.  A
claim of the tail adds a buffer and a thread that serves it, a claim of the head removes
both, and a signal replaces a push by a consumer that looks again.

Only a consumer that goes to sleep could break the count, and `dozes_empty` says when it
does not: when no ticket after its own is published.
-/

import Zstreamer.Queue.Waiting
import Mathlib.Order.Interval.Finset.Nat

namespace Zstreamer

open Foundation Function

variable {ι : Type}

/-! ## Consumers that doze -/

namespace QueuePc

/-- The pop has found nothing and goes to sleep, or sleeps. -/
def dozesNotEmpty : QueuePc → Bool
  | .pop _ (.wait _) => true
  | .pop _ .blocked => true
  | _ => false

/-- The thread is going to signal a consumer, or is one that is awake and looks for a
buffer. -/
def servesPop : QueuePc → ℕ
  | .push _ _ (.storePts _) => 1
  | .push _ _ (.storeDuration _) => 1
  | .push _ _ (.storeBuf _) => 1
  | .push _ _ (.addBytes _) => 1
  | .push _ _ (.publish _) => 1
  | .push _ _ (.loadWaiters _) => 1
  | .push _ _ (.lockSignal _) => 1
  | .push _ _ (.signal _) => 1
  | .pop _ .loadHead => 1
  | .pop _ (.loadSequence _) => 1
  | .pop _ (.swapHead _) => 1
  | .pop _ (.addWaiter _) => 1
  | .pop _ (.lock _) => 1
  | .pop _ (.recheckSequence _) => 1
  | .pop _ (.wake _) => 1
  | .pop _ (.unlock _) => 1
  | .pop _ (.subWaiter _) => 1
  | _ => 0

end QueuePc

/-- The kinds of steps, for consumers that doze. -/
inductive EmptyStep (m : QueueMemory ι) (p : QueuePc) : QueueMemory ι → QueuePc → Prop
  | balanced {m' : QueueMemory ι} {p' : QueuePc}
      (hpaid : m'.q.tail + m.q.head + p.servesPop ≤ m.q.tail + m'.q.head + p'.servesPop)
      (hdozes : p'.dozesNotEmpty = true → p.dozesNotEmpty = true) : EmptyStep m p m' p'
  /-- A push that sees no waiters leaves without a signal. -/
  | quits {p' : QueuePc} (hwaiters : m.waitersPop = 0) (hdozes : p'.dozesNotEmpty = false) :
      EmptyStep m p m p'
  | dozes {timeout : Timeout} {pos : ℕ} (hp : p = .pop timeout (.recheckSequence pos))
      (hsequence : (m.q.slot pos).sequence < pos + 1) :
      EmptyStep m p m (.pop timeout (.wait pos))

section Empty

variable {m m' : QueueMemory ι} {t : ι} {p : QueuePc}

theorem PushPc.step_empty {buf : Buffer} {timeout : Timeout} {ppc : PushPc}
    (hstep : ppc.step m t buf timeout = some (m', p)) :
    EmptyStep m (.push buf timeout ppc) m' p := by
  cases ppc with
  | swapTail pos =>
      simp only [PushPc.step] at hstep
      split at hstep
      case isTrue htail =>
        subst htail
        cases hstep
        refine .balanced ?_ (fun h => h)
        show m.q.tail + 1 + m.q.head + 0 ≤ m.q.tail + m.q.head + 1
        omega
      case isFalse =>
        cases hstep
        exact .balanced le_rfl (fun h => h)
  | loadWaiters pos =>
      simp only [PushPc.step] at hstep
      split at hstep
      · cases hstep
        exact .balanced le_rfl (fun h => h)
      · cases hstep
        exact .quits (by omega) rfl
  | lock kind pos =>
      cases kind with
      | ring =>
          cases (RingInv.acquire_eq hstep).2
          exact .balanced le_rfl (fun h => h)
      | limits =>
          cases (RingInv.acquire_eq hstep).2
          rcases FullPc.start m.q with full | (_ | _) <;> exact .balanced le_rfl (fun h => h)
  | lockSignal | wake =>
      cases (RingInv.acquire_eq hstep).2
      exact .balanced le_rfl (fun h => h)
  | recheckFull pos full =>
      cases hstep
      rcases full.step m.q with full | (_ | _) <;> exact .balanced le_rfl (fun h => h)
  | subWaiter timedOut =>
      cases hstep
      cases timedOut <;> exact .balanced le_rfl (fun h => h)
  | _ =>
      simp only [PushPc.step, PushPc.checked] at hstep
      repeat' split at hstep
      all_goals first
        | cases hstep; exact .balanced le_rfl (fun h => h)
        | cases hstep

theorem PopPc.step_empty {timeout : Timeout} {ppc : PopPc}
    (hpatient : QueuePc.Patient m.q.cfg (.pop timeout ppc))
    (hstep : ppc.step m t timeout = some (m', p)) : EmptyStep m (.pop timeout ppc) m' p := by
  cases ppc with
  | loadSequence pos =>
      obtain rfl : timeout = .infinite := hpatient
      simp only [PopPc.step, reduceCtorEq, if_false] at hstep
      repeat' split at hstep
      all_goals
        cases hstep
        exact .balanced le_rfl (fun h => h)
  | swapHead pos =>
      simp only [PopPc.step] at hstep
      split at hstep
      case isTrue hhead =>
        subst hhead
        cases hstep
        refine .balanced ?_ (fun h => h)
        show m.q.tail + m.q.head + 1 ≤ m.q.tail + (m.q.head + 1) + 0
        omega
      case isFalse =>
        cases hstep
        exact .balanced le_rfl (fun h => h)
  | recheckSequence pos =>
      simp only [PopPc.step] at hstep
      split at hstep
      case isTrue hbelow =>
        cases hstep
        exact .dozes rfl (by omega)
      case isFalse =>
        cases hstep
        exact .balanced le_rfl (fun h => h)
  | lock | lockSignal | wake =>
      cases (RingInv.acquire_eq hstep).2
      exact .balanced le_rfl (fun h => h)
  | subWaiter timedOut =>
      obtain ⟨-, rfl⟩ := hpatient
      cases hstep
      exact .balanced le_rfl (fun h => h)
  | _ =>
      simp only [PopPc.step] at hstep
      repeat' split at hstep
      all_goals first
        | cases hstep; exact .balanced le_rfl (fun h => h)
        | cases hstep

theorem QueuePc.step_empty {old : QueuePc} {choice : QueueChoice ι}
    (hpatient : old.Patient m.q.cfg) (hstep : old.step m t choice = some (m', p)) :
    EmptyStep m old m' p := by
  unfold QueuePc.step at hstep
  split at hstep
  case h_2 =>
    cases hstep
    exact .balanced (Nat.le_succ _) (fun h => h)
  case h_3 => exact PushPc.step_empty hstep
  case h_4 => exact PopPc.step_empty hpatient hstep
  case h_8 =>
    cases hstep
    exact .balanced (Nat.le_succ _) (fun _ => rfl)
  case h_10 => cases hpatient
  all_goals
    cases hstep
    try exact .balanced le_rfl (fun h => h)

end Empty

/-- While a consumer dozes, every claimed buffer has a thread that serves it. -/
def DozeEmpty [Fintype ι] (m : QueueMemory ι) (pc : ι → QueuePc) : Prop :=
  ∀ t, (pc t).dozesNotEmpty = true → m.q.tail ≤ m.q.head + tally QueuePc.servesPop pc

section Empty

variable {m m' : QueueMemory ι} {pc : ι → QueuePc} {t : ι} {p : QueuePc}

/-- The slot of a ticket that has been taken is past it. -/
theorem RingInv.lt_sequence (hring : RingInv m pc) {k : ℕ} (hk : k < m.q.head) :
    k + 1 ≤ (m.q.slot k).sequence := by
  have hpos := m.q.cfg.capacity_pos
  have hle := hring.head_le
  -- The position of the window that has the slot of `k` now.
  obtain ⟨turns, hge, hlt⟩ : ∃ turns, m.q.head ≤ k + turns * m.q.cfg.capacity ∧
      k + turns * m.q.cfg.capacity < m.q.head + m.q.cfg.capacity := by
    have hdiv := Nat.div_add_mod (m.q.head - 1 - k) m.q.cfg.capacity
    have hmod := Nat.mod_lt (m.q.head - 1 - k) hpos
    refine ⟨(m.q.head - 1 - k) / m.q.cfg.capacity + 1, ?_, ?_⟩
    · rw [Nat.add_mul, Nat.one_mul, Nat.mul_comm]
      omega
    · rw [Nat.add_mul, Nat.one_mul, Nat.mul_comm]
      omega
  obtain ⟨j, phase, hmod, hphase⟩ := RingInv.exists_phase (s := ⟨m, pc⟩) hring hge hlt
  have hmod : j % m.q.cfg.capacity = k % m.q.cfg.capacity := by
    rw [hmod, Nat.add_mul_mod_self_right]
  have hslot : m.q.slot k = m.q.slot j := by
    rw [Queue.slot, Queue.slot, QueueConfig.ringMask_eq_mod, QueueConfig.ringMask_eq_mod, hmod]
  rw [hslot]
  cases phase with
  | free | writing | published =>
      obtain ⟨hseq, hlow, -⟩ := hphase
      dsimp only at hseq hlow
      omega
  | reading =>
      obtain ⟨hseq, hlow, hhigh, -⟩ := hphase
      dsimp only at hseq hlow hhigh
      by_contra hbelow
      exact mod_ne_of_window (a := j) (b := k) (by omega) (by omega) hmod

theorem QueuePc.waitsPop_of_dozes {p : QueuePc} (hdozes : p.dozesNotEmpty = true) :
    p.waitsPop = 1 := by
  cases p with
  | pop timeout ppc => cases ppc <;> first | rfl | cases hdozes
  | _ => cases hdozes

variable [Fintype ι] [DecidableEq ι]

/-- The pop that goes to sleep leaves behind only tickets that are being written. -/
theorem RingInv.dozes_empty (hring : RingInv m pc) {timeout : Timeout} {pos : ℕ}
    (hpc : pc t = .pop timeout (.recheckSequence pos))
    (hsequence : (m.q.slot pos).sequence < pos + 1)
    (horder : ∀ k < m.q.tail, pos < k → (m.q.slot k).sequence ≠ k + 1) :
    m.q.tail ≤ m.q.head +
      tally QueuePc.servesPop (update pc t (.pop timeout (.wait pos))) := by
  have hle : pos ≤ m.q.head := by
    have hfact := hring.fact t
    rw [hpc] at hfact
    exact hfact
  obtain rfl : pos = m.q.head := by
    by_contra hne
    have := hring.lt_sequence (k := pos) (by omega)
    omega
  have hcard : (Finset.Ico m.q.head m.q.tail).card ≤
      tally QueuePc.servesPop (update pc t (.pop timeout (.wait m.q.head))) := by
    refine card_le_tally QueuePc.writes (fun k hk => ?_) fun u k hu => ?_
    · obtain ⟨hge, hlt⟩ := Finset.mem_Ico.mp hk
      rcases hring.produced k hge hlt with ⟨u, hu⟩ | ⟨buf, -, hslot⟩
      · have hut : u ≠ t := by
          rintro rfl
          rw [hpc] at hu
          cases hu
        exact ⟨u, by rw [update_of_ne hut, hu]⟩
      · exfalso
        have hpublished : (m.q.slot k).sequence = k + 1 := by
          rw [hslot]
          rfl
        by_cases hkh : k = m.q.head
        · subst hkh
          omega
        · exact horder k hlt (by omega) hpublished
    · generalize update pc t _ u = p at hu
      cases p with
      | push buf timeout ppc => cases ppc <;> first | exact le_rfl | cases hu
      | _ => cases hu
  rw [Nat.card_Ico] at hcard
  omega

theorem DozeEmpty.step (hinv : DozeEmpty m pc) (hring : RingInv m pc) (hwait : WaitInv m pc)
    (horder : ∀ timeout pos, pc t = .pop timeout (.recheckSequence pos) →
      (m.q.slot pos).sequence < pos + 1 →
      ∀ k < m.q.tail, pos < k → (m.q.slot k).sequence ≠ k + 1)
    (hstep : EmptyStep m (pc t) m' p) : DozeEmpty m' (update pc t p) := by
  intro u hu
  cases hstep with
  | balanced hpaid hdozes =>
      refine le_tally_update ?_ hpaid
      by_cases hut : u = t
      · rw [hut, update_self] at hu
        exact hinv t (hdozes hu)
      · rw [update_of_ne hut] at hu
        exact hinv u hu
  | quits hwaiters hdozes =>
      -- Nobody dozes: a dozing consumer counts as a waiter.
      exfalso
      by_cases hut : u = t
      · rw [hut, update_self, hdozes] at hu
        cases hu
      · rw [update_of_ne hut] at hu
        have hone := QueuePc.waitsPop_of_dozes hu
        rw [hwait.no_pop_waits hwaiters u] at hone
        cases hone
  | dozes hp hsequence => exact hring.dozes_empty hp hsequence (horder _ _ hp hsequence)

omit [Fintype ι] in
/-- Nobody begins to doze when another thread moves. -/
theorem QueuePc.dozesNotEmpty_update {v : ι} (hp : p.dozesNotEmpty = false)
    (hv : (update pc t p v).dozesNotEmpty = true) :
    v ≠ t ∧ (pc v).dozesNotEmpty = true := by
  by_cases hvt : v = t
  · rw [hvt, update_self, hp] at hv
    cases hv
  · rw [update_of_ne hvt] at hv
    exact ⟨hvt, hv⟩

/-- A signal of a push is spent on a consumer that looks again. -/
theorem DozeEmpty.signal {s s' : QueueState ι} (hinv : DozeEmpty s.mem s.pc)
    (hwait : WaitInv s.mem s.pc) (hsignal : SignalStep s t s') : DozeEmpty s'.mem s'.pc := by
  intro v hv
  cases hsignal with
  | @pushedNone buf timeout pos hpc hnone =>
      -- Nobody sleeps, and nobody is about to: the lock is with the signaller.
      exfalso
      obtain ⟨hvt, hv⟩ := QueuePc.dozesNotEmpty_update rfl hv
      have hawake := hnone v
      have hlocked : (s.pc v).locked = true := by
        generalize s.pc v = p at hv hawake
        cases p with
        | pop timeout ppc =>
            cases ppc with
            | wait pos => rfl
            | blocked => cases hawake
            | _ => cases hv
        | _ => cases hv
      exact hvt (hwait.one_holder hlocked (by rw [hpc]; rfl))
  | @pushedSome buf timeout timeout' pos u hpc hsleeps =>
      have htu : t ≠ u := by
        rintro rfl
        cases hpc.symm.trans hsleeps
      have hcount := hinv u (by rw [hsleeps]; rfl)
      have hwoken := tally_update QueuePc.servesPop s.pc u (.pop timeout' (.wake false))
      have hgone := tally_update QueuePc.servesPop
        (update s.pc u (.pop timeout' (.wake false))) t (.push buf timeout .unlockSignal)
      rw [update_of_ne htu, hpc] at hgone
      rw [hsleeps] at hwoken
      simp only [QueuePc.servesPop] at hwoken hgone
      dsimp only
      omega
  | @poppedNone timeout pos out hpc =>
      obtain ⟨-, hv⟩ := QueuePc.dozesNotEmpty_update rfl hv
      exact le_tally_update (hinv v hv) (by rw [hpc]; exact le_rfl)
  | @poppedSome buf timeout timeout' pos out u hpc hsleeps =>
      have htu : t ≠ u := by
        rintro rfl
        cases hpc.symm.trans hsleeps
      obtain ⟨-, hv⟩ := QueuePc.dozesNotEmpty_update rfl hv
      obtain ⟨-, hv⟩ := QueuePc.dozesNotEmpty_update rfl hv
      refine le_tally_update (le_tally_update (hinv v hv) (by rw [hsleeps]; exact le_rfl)) ?_
      rw [update_of_ne htu, hpc]
      exact le_rfl

end Empty

end Zstreamer

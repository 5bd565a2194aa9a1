/-
# The byte limit

A push looks at `approx_bytes`, claims its slot and adds its bytes in three separate
steps, so the count is behind the ring by what the threads have claimed and not added,
and ahead of it by what they have taken and not subtracted.  `ByteInv` keeps this
account.  A push that has passed the check knows a bound for the account as long as
nobody else claims the tail, and the account grows by one claim at a time.

Each of the producers can be past the check and not have added its bytes.  So the limit
can be overshot by one buffer for each thread that pushes, and `byte_limit` proves that
it is never overshot by more.  `overshoot` shows two producers doing it.
-/

import Zstreamer.Queue.Invariant
import Mathlib.Algebra.BigOperators.Intervals

namespace Zstreamer

open Foundation Function

variable {ι : Type}

/-! ## The account -/

/-- The size of the buffer of ticket `k`. -/
def ticketSize (claimed : List Buffer) (k : ℕ) : ℕ := (claimed[k]?.map Buffer.size).getD 0

/-- The bytes claimed into the ring and not popped from it. -/
def QueueMemory.heldBytes (m : QueueMemory ι) : ℕ :=
  ∑ k ∈ Finset.Ico m.q.head m.q.tail, ticketSize m.claimed k

namespace QueuePc

/-- The buffer a push brings. -/
def carries : QueuePc → Option Buffer
  | .push buf _ _ => some buf
  | _ => none

/-- The bytes the thread has claimed in the ring and not added to the count. -/
def unadded : QueuePc → ℕ
  | .push buf _ (.storePts _) => buf.size
  | .push buf _ (.storeDuration _) => buf.size
  | .push buf _ (.storeBuf _) => buf.size
  | .push buf _ (.addBytes _) => buf.size
  | _ => 0

/-- The bytes the thread has taken from the ring and not subtracted from the count. -/
def unsubtracted (claimed : List Buffer) : QueuePc → ℕ
  | .pop _ (.loadBuf pos) => ticketSize claimed pos
  | .pop _ (.subBytes _ buf) => buf.size
  | _ => 0

/-- The position for which a push has found the byte limit not reached. -/
def passed : QueuePc → Option ℕ
  | .push _ _ (.checkFull pos full) => if full.late then some pos else none
  | .push _ _ (.swapTail pos) => some pos
  | _ => none

end QueuePc

/-! ## What one step does to the account -/

/-- The check has gone past the byte limit. -/
def FullPc.Outcome.passes : FullPc.Outcome → Bool
  | .inl full => full.late
  | .inr answer => !answer

theorem FullPc.start_passes {q : Queue} (hbytes : 0 < q.cfg.maxBytes) :
    (FullPc.start q).passes = false := by
  unfold FullPc.start FullPc.afterSize
  rw [if_pos hbytes]
  split <;> rfl

/-- The byte limit is passed by looking at the count. -/
theorem FullPc.step_passes {q : Queue} (hbytes : 0 < q.cfg.maxBytes) {full : FullPc}
    (hpasses : (full.step q).passes = true) :
    full.late = true ∨ q.approxBytes < q.cfg.maxBytes := by
  cases full with
  | sizeHead => cases hpasses
  | sizeTail head =>
      simp only [FullPc.step, FullPc.afterSize, if_pos hbytes] at hpasses
      split at hpasses <;> cases hpasses
  | bytes =>
      simp only [FullPc.step] at hpasses
      split at hpasses
      · cases hpasses
      · exact .inr (by omega)
  | _ => exact .inl rfl

theorem PushPc.checked_passed {cfg : QueueConfig} {buf : Buffer} {timeout : Timeout} {pos k : ℕ}
    {out : FullPc.Outcome} (hk : (PushPc.checked cfg buf timeout pos out).passed = some k) :
    k = pos ∧ out.passes = true := by
  cases out with
  | inl full =>
      simp only [PushPc.checked, QueuePc.passed] at hk
      split at hk
      case isTrue hlate => exact ⟨(Option.some.inj hk).symm, hlate⟩
      case isFalse => cases hk
  | inr answer =>
      cases answer with
      | false => exact ⟨(Option.some.inj hk).symm, rfl⟩
      | true =>
          simp only [PushPc.checked] at hk
          split at hk <;> cases hk

theorem PushPc.checked_weightless (cfg : QueueConfig) (buf : Buffer) (timeout : Timeout) (pos : ℕ)
    (out : FullPc.Outcome) :
    (PushPc.checked cfg buf timeout pos out).unadded = 0 ∧
      ∀ claimed, (PushPc.checked cfg buf timeout pos out).unsubtracted claimed = 0 := by
  unfold PushPc.checked
  split
  · exact ⟨rfl, fun _ => rfl⟩
  · exact ⟨rfl, fun _ => rfl⟩
  · split <;> exact ⟨rfl, fun _ => rfl⟩

theorem PushPc.rechecked_weightless (buf : Buffer) (timeout : Timeout) (pos : ℕ)
    (out : FullPc.Outcome) :
    (PushPc.rechecked buf timeout pos out).unadded = 0 ∧
      (∀ claimed, (PushPc.rechecked buf timeout pos out).unsubtracted claimed = 0) ∧
      (PushPc.rechecked buf timeout pos out).passed = none := by
  unfold PushPc.rechecked
  split <;> exact ⟨rfl, fun _ => rfl, rfl⟩

/-- The kinds of steps, for the account of the bytes. -/
inductive ByteStep (m : QueueMemory ι) (p : QueuePc) : QueueMemory ι → QueuePc → Prop
  | quiet {m' : QueueMemory ι} {p' : QueuePc} (hbytes : m'.q.approxBytes = m.q.approxBytes)
      (hhead : m'.q.head = m.q.head) (htail : m'.q.tail = m.q.tail)
      (hclaimed : m'.claimed = m.claimed) (hunadded : p'.unadded = p.unadded)
      (hunsubtracted : p'.unsubtracted m.claimed = p.unsubtracted m.claimed)
      (hpassed : ∀ pos, p'.passed = some pos → p.passed = some pos ∨
        p.unadded = 0 ∧ p.carries.isSome = true ∧ m.q.approxBytes < m.q.cfg.maxBytes) :
      ByteStep m p m' p'
  | claimTail {buf : Buffer} {p' : QueuePc} (hpassed : p.passed = some m.q.tail)
      (hcarries : p.carries = some buf) (hunadded : p.unadded = 0 ∧ p'.unadded = buf.size)
      (hunsubtracted : ∀ claimed, p.unsubtracted claimed = 0 ∧ p'.unsubtracted claimed = 0)
      (hpassed' : p'.passed = none) : ByteStep m p (m.claimTail m.q.tail buf) p'
  | addBytes {n : ℕ} {p' : QueuePc} (hunadded : p.unadded = n ∧ p'.unadded = 0)
      (hunsubtracted : p.unsubtracted m.claimed = 0 ∧ p'.unsubtracted m.claimed = 0)
      (hpassed' : p'.passed = none) : ByteStep m p (m.addBytes n) p'
  | claimHead {p' : QueuePc} (hlt : m.q.head < m.q.tail)
      (hunadded : p.unadded = 0 ∧ p'.unadded = 0)
      (hunsubtracted : p.unsubtracted m.claimed = 0 ∧
        p'.unsubtracted m.claimed = ticketSize m.claimed m.q.head)
      (hpassed' : p'.passed = none) : ByteStep m p (m.claimHead m.q.head) p'
  | subBytes {n : ℕ} {p' : QueuePc} (hunadded : p.unadded = 0 ∧ p'.unadded = 0)
      (hunsubtracted : p.unsubtracted m.claimed = n ∧ p'.unsubtracted m.claimed = 0)
      (hpassed' : p'.passed = none) : ByteStep m p (m.subBytes n) p'

section Kinds

variable {m m' : QueueMemory ι} {t : ι} {p : QueuePc}

/-- A step that moves only the thread, the lock, the waiters or a slot, to a place where
nothing is known about the byte limit. -/
theorem ByteStep.plain {p' : QueuePc} (hbytes : m'.q.approxBytes = m.q.approxBytes)
    (hcounters : m'.q.head = m.q.head ∧ m'.q.tail = m.q.tail) (hclaimed : m'.claimed = m.claimed)
    (hunadded : p'.unadded = p.unadded)
    (hunsubtracted : p'.unsubtracted m.claimed = p.unsubtracted m.claimed)
    (hpassed : p'.passed = none) : ByteStep m p m' p' := by
  refine .quiet hbytes hcounters.1 hcounters.2 hclaimed hunadded hunsubtracted fun pos hpos => ?_
  rw [hpassed] at hpos
  cases hpos

theorem PushPc.step_bytes {buf : Buffer} {timeout : Timeout} {ppc : PushPc}
    (hbytes : 0 < m.q.cfg.maxBytes) (hstep : ppc.step m t buf timeout = some (m', p)) :
    ByteStep m (.push buf timeout ppc) m' p := by
  have hextra : m.q.cfg.hasExtraLimits = true := by simp [QueueConfig.hasExtraLimits, hbytes]
  cases ppc with
  | loadSequence pos =>
      simp only [PushPc.step, if_pos hextra] at hstep
      split at hstep
      · cases hstep
        have hpassed : (checked m.q.cfg buf timeout pos (FullPc.start m.q)).passed = none := by
          refine Option.eq_none_iff_forall_ne_some.mpr fun k hk => ?_
          have hpasses := (checked_passed hk).2
          rw [FullPc.start_passes hbytes] at hpasses
          cases hpasses
        obtain ⟨hunadded, hunsubtracted⟩ := checked_weightless m.q.cfg buf timeout pos
          (FullPc.start m.q)
        exact .plain rfl ⟨rfl, rfl⟩ rfl hunadded (hunsubtracted _) hpassed
      · repeat' split at hstep
        all_goals
          cases hstep
          exact .plain rfl ⟨rfl, rfl⟩ rfl rfl rfl rfl
  | checkFull pos full =>
      cases hstep
      obtain ⟨hunadded, hunsubtracted⟩ := checked_weightless m.q.cfg buf timeout pos
        (full.step m.q)
      refine .quiet rfl rfl rfl rfl hunadded (hunsubtracted _) fun k hk => ?_
      obtain ⟨rfl, hpasses⟩ := checked_passed hk
      rcases FullPc.step_passes hbytes hpasses with hlate | hbelow
      · exact .inl (by simp [QueuePc.passed, hlate])
      · exact .inr ⟨rfl, rfl, hbelow⟩
  | swapTail pos =>
      simp only [PushPc.step] at hstep
      split at hstep
      case isTrue htail =>
        subst htail
        cases hstep
        exact .claimTail rfl rfl ⟨rfl, rfl⟩ (fun _ => ⟨rfl, rfl⟩) rfl
      case isFalse =>
        cases hstep
        exact .plain rfl ⟨rfl, rfl⟩ rfl rfl rfl rfl
  | addBytes pos =>
      cases hstep
      exact .addBytes ⟨rfl, rfl⟩ ⟨rfl, rfl⟩ rfl
  | lock kind pos =>
      cases kind with
      | ring =>
          cases (RingInv.acquire_eq hstep).2
          exact .plain rfl ⟨rfl, rfl⟩ rfl rfl rfl rfl
      | limits =>
          cases (RingInv.acquire_eq hstep).2
          obtain ⟨hunadded, hunsubtracted, hpassed⟩ := rechecked_weightless buf timeout pos
            (FullPc.start m.q)
          exact .plain rfl ⟨rfl, rfl⟩ rfl hunadded (hunsubtracted _) hpassed
  | recheckFull pos full =>
      cases hstep
      obtain ⟨hunadded, hunsubtracted, hpassed⟩ := rechecked_weightless buf timeout pos
        (full.step m.q)
      exact .plain rfl ⟨rfl, rfl⟩ rfl hunadded (hunsubtracted _) hpassed
  | lockSignal | wake =>
      cases (RingInv.acquire_eq hstep).2
      exact .plain rfl ⟨rfl, rfl⟩ rfl rfl rfl rfl
  | signal | blocked => cases hstep
  | subWaiter timedOut =>
      cases hstep
      cases timedOut <;> exact .plain rfl ⟨rfl, rfl⟩ rfl rfl rfl rfl
  | recheckSequence | loadWaiters =>
      simp only [PushPc.step] at hstep
      split at hstep
      all_goals
        cases hstep
        exact .plain rfl ⟨rfl, rfl⟩ rfl rfl rfl rfl
  | _ =>
      cases hstep
      exact .plain rfl ⟨rfl, rfl⟩ rfl rfl rfl rfl

theorem PopPc.step_bytes {timeout : Timeout} {ppc : PopPc}
    (hfact : m.PcFact (.pop timeout ppc)) (hstep : ppc.step m t timeout = some (m', p)) :
    ByteStep m (.pop timeout ppc) m' p := by
  cases ppc with
  | swapHead pos =>
      simp only [PopPc.step] at hstep
      split at hstep
      case isTrue hhead =>
        subst hhead
        cases hstep
        exact .claimHead (hfact.2 rfl).2 ⟨rfl, rfl⟩ ⟨rfl, rfl⟩ rfl
      case isFalse =>
        cases hstep
        exact .plain rfl ⟨rfl, rfl⟩ rfl rfl rfl rfl
  | loadBuf pos =>
      -- The slot is completely written, so the buffer found in it is that of the ticket.
      obtain ⟨-, buf, hclaimed, hslot⟩ := hfact
      have hbuf : (m.q.slot pos).buf = some buf := by
        rw [hslot]
        rfl
      simp only [PopPc.step, hbuf] at hstep
      cases hstep
      refine .plain rfl ⟨rfl, rfl⟩ rfl rfl ?_ rfl
      simp [QueuePc.unsubtracted, ticketSize, hclaimed]
  | subBytes pos buf =>
      cases hstep
      exact .subBytes ⟨rfl, rfl⟩ ⟨rfl, rfl⟩ rfl
  | lock | lockSignal | wake =>
      cases (RingInv.acquire_eq hstep).2
      exact .plain rfl ⟨rfl, rfl⟩ rfl rfl rfl rfl
  | signal | blocked => cases hstep
  | subWaiter timedOut =>
      cases hstep
      cases timedOut <;> exact .plain rfl ⟨rfl, rfl⟩ rfl rfl rfl rfl
  | loadSequence | recheckSequence | loadWaiters =>
      simp only [PopPc.step] at hstep
      repeat' split at hstep
      all_goals
        cases hstep
        exact .plain rfl ⟨rfl, rfl⟩ rfl rfl rfl rfl
  | _ =>
      cases hstep
      exact .plain rfl ⟨rfl, rfl⟩ rfl rfl rfl rfl

/-- Every step of a thread is of one of the kinds. -/
theorem QueuePc.step_bytes {old : QueuePc} {choice : QueueChoice ι}
    (hbytes : 0 < m.q.cfg.maxBytes) (hfact : m.PcFact old)
    (hstep : old.step m t choice = some (m', p)) : ByteStep m old m' p := by
  unfold QueuePc.step at hstep
  split at hstep
  case h_3 => exact PushPc.step_bytes hbytes hstep
  case h_4 => exact PopPc.step_bytes hfact hstep
  all_goals
    cases hstep
    try exact .plain rfl ⟨rfl, rfl⟩ rfl rfl rfl rfl

end Kinds

/-! ## The account is kept -/

section Account

variable [Fintype ι] {producers : Finset ι} {size : ℕ}

/-- The account of the bytes: `producers` push buffers of at most `size` bytes. -/
structure ByteInv (producers : Finset ι) (size : ℕ) (m : QueueMemory ι) (pc : ι → QueuePc) :
    Prop where
  carries : ∀ t buf, (pc t).carries = some buf → t ∈ producers ∧ buf.size ≤ size
  balance : m.q.approxBytes + tally QueuePc.unadded pc =
    m.heldBytes + tally (QueuePc.unsubtracted m.claimed) pc
  bound : m.q.approxBytes + tally QueuePc.unadded pc < m.q.cfg.maxBytes + producers.card * size
  /-- A push past the check leaves room for itself, as long as nobody claims the tail. -/
  passed : ∀ t, (pc t).passed = some m.q.tail →
    m.q.approxBytes + tally QueuePc.unadded pc + size < m.q.cfg.maxBytes + producers.card * size

variable {m m' : QueueMemory ι} {pc : ι → QueuePc} {t : ι} {p : QueuePc}

theorem QueuePc.unadded_of_carries {p : QueuePc} (hnone : p.carries = none) : p.unadded = 0 := by
  cases p with
  | push buf timeout ppc => cases hnone
  | _ => rfl

namespace ByteInv

theorem unadded_le (hinv : ByteInv producers size m pc) (u : ι) : (pc u).unadded ≤ size := by
  cases hcarries : (pc u).carries with
  | none => rw [QueuePc.unadded_of_carries hcarries]; exact Nat.zero_le _
  | some buf =>
      have hle := (hinv.carries u buf hcarries).2
      generalize pc u = p at hcarries
      cases p with
      | push b timeout ppc =>
          cases hcarries
          cases ppc <;> first | exact hle | exact Nat.zero_le _
      | _ => cases hcarries

variable [DecidableEq ι]

/-- While one of the producers has nothing to add, the others have at most their share. -/
theorem unadded_room (hinv : ByteInv producers size m pc) {buf : Buffer}
    (hcarries : (pc t).carries = some buf) (hzero : (pc t).unadded = 0) :
    tally QueuePc.unadded pc + size ≤ producers.card * size := by
  have hmem := (hinv.carries t buf hcarries).1
  have hothers : tally QueuePc.unadded pc ≤ (producers.erase t).card * size := by
    refine tally_le_card_mul (fun u hu => ?_) hinv.unadded_le
    by_cases hut : u = t
    · rw [hut, hzero]
    · have hnot : u ∉ producers := fun h => hu (Finset.mem_erase.mpr ⟨hut, h⟩)
      cases hcarries' : (pc u).carries with
      | none => exact QueuePc.unadded_of_carries hcarries'
      | some buf' => exact absurd (hinv.carries u buf' hcarries').1 hnot
  have hcard := Finset.card_erase_add_one hmem
  calc tally QueuePc.unadded pc + size ≤ (producers.erase t).card * size + size := by omega
    _ = producers.card * size := by rw [← hcard, Nat.add_mul, Nat.one_mul]

end ByteInv

omit [Fintype ι] in
theorem QueueMemory.PcFact.unadded (hfact : m.PcFact p) (hne : p.unadded ≠ 0) :
    ∃ k ∈ Finset.Ico m.q.head m.q.tail, p.writes = some k ∧
      p.unadded = ticketSize m.claimed k := by
  have hticket : ∀ {k buf}, m.Writing k buf → k ∈ Finset.Ico m.q.head m.q.tail ∧
      buf.size = ticketSize m.claimed k := by
    rintro k buf ⟨hclaimed, hle, hlt, -⟩
    exact ⟨Finset.mem_Ico.mpr ⟨hle, hlt⟩, by simp [ticketSize, hclaimed]⟩
  cases p with
  | push buf timeout ppc =>
      cases ppc with
      | storePts pos => exact ⟨pos, (hticket hfact).1, rfl, (hticket hfact).2⟩
      | storeDuration pos | storeBuf pos | addBytes pos =>
          exact ⟨pos, (hticket hfact.1).1, rfl, (hticket hfact.1).2⟩
      | _ => exact absurd rfl hne
  | _ => exact absurd rfl hne

/-- What has not been added yet is in the ring. -/
theorem RingInv.unadded_le_held (hring : RingInv m pc) :
    tally QueuePc.unadded pc ≤ m.heldBytes :=
  tally_le_sum QueuePc.writes (fun u hu => (hring.fact u).unadded hu) hring.one_writer

omit [Fintype ι] in
/-- A new ticket does not change what a thread has to subtract. -/
theorem QueueMemory.PcFact.unsubtracted_append (hfact : m.PcFact p) (buf : Buffer) :
    p.unsubtracted (m.claimed ++ [buf]) = p.unsubtracted m.claimed := by
  cases p with
  | pop timeout ppc =>
      cases ppc with
      | loadBuf pos =>
          obtain ⟨-, b, hclaimed, -⟩ := hfact
          simp only [QueuePc.unsubtracted, ticketSize, hclaimed,
            getElem?_append_of_some [buf] hclaimed]
      | _ => rfl
  | _ => rfl

omit [Fintype ι] in
theorem RingInv.heldBytes_claimTail (hring : RingInv m pc) (buf : Buffer) :
    (m.claimTail m.q.tail buf).heldBytes = m.heldBytes + buf.size := by
  have hsize : ∀ k ∈ Finset.Ico m.q.head m.q.tail,
      ticketSize (m.claimed ++ [buf]) k = ticketSize m.claimed k := by
    intro k hk
    have hlt := (Finset.mem_Ico.mp hk).2
    rw [ticketSize, ticketSize, List.getElem?_append_left (by rw [hring.claimed]; exact hlt)]
  show ∑ k ∈ Finset.Ico m.q.head (m.q.tail + 1), ticketSize (m.claimed ++ [buf]) k = _
  have hlast : ticketSize (m.claimed ++ [buf]) m.q.tail = buf.size := by
    rw [ticketSize, ← hring.claimed]
    simp
  rw [Finset.sum_Ico_succ_top hring.head_le, Finset.sum_congr rfl hsize, hlast]
  rfl

omit [Fintype ι] in
theorem QueueMemory.heldBytes_claimHead (hlt : m.q.head < m.q.tail) :
    m.heldBytes = ticketSize m.claimed m.q.head + (m.claimHead m.q.head).heldBytes :=
  Finset.sum_eq_sum_Ico_succ_bot hlt _

/-! ### One kind of step at a time -/

namespace ByteInv

variable [DecidableEq ι]

/-- The buffers in the threads' hands stay small and with the producers. -/
theorem carries_update (hinv : ByteInv producers size m pc)
    (hcarries : ∀ buf, p.carries = some buf → t ∈ producers ∧ buf.size ≤ size) (u : ι)
    (buf : Buffer) (hu : (update pc t p u).carries = some buf) :
    u ∈ producers ∧ buf.size ≤ size := by
  by_cases hut : u = t
  · rw [hut, update_self] at hu
    rw [hut]
    exact hcarries buf hu
  · rw [update_of_ne hut] at hu
    exact hinv.carries u buf hu

omit [Fintype ι] in
/-- Behind a thread that has not passed the check, the others have passed it before. -/
theorem passed_update {k : ℕ} (hnone : p.passed = none) {u : ι}
    (hu : (update pc t p u).passed = some k) : (pc u).passed = some k := by
  by_cases hut : u = t
  · rw [hut, update_self, hnone] at hu
    cases hu
  · rwa [update_of_ne hut] at hu

omit [Fintype ι] [DecidableEq ι] in
theorem passed_le (hring : RingInv m pc) {u : ι} {k : ℕ} (hu : (pc u).passed = some k) :
    k ≤ m.q.tail := by
  refine ((hring.fact u).candidate (k := k) ?_).le
  generalize pc u = p at hu
  cases p with
  | push buf timeout ppc =>
      cases ppc with
      | checkFull pos full =>
          simp only [QueuePc.passed] at hu
          split at hu
          · exact hu
          · cases hu
      | swapTail pos => exact hu
      | _ => cases hu
  | _ => cases hu

/-- A step of one kind or another keeps the account. -/
theorem byteStep (hinv : ByteInv producers size m pc) (hring : RingInv m pc)
    (hcfg : m'.q.cfg = m.q.cfg) (hfit : m.q.cfg.maxBytes + producers.card * size ≤ 2 ^ 64)
    (hcarries : ∀ buf, p.carries = some buf → t ∈ producers ∧ buf.size ≤ size)
    (hstep : ByteStep m (pc t) m' p) : ByteInv producers size m' (update pc t p) := by
  have hunadded := tally_update QueuePc.unadded pc t p
  have hunsubtracted := tally_update (QueuePc.unsubtracted m.claimed) pc t p
  have hbalance := hinv.balance
  have hbound := hinv.bound
  have hheld := hring.unadded_le_held
  have hnew := hinv.carries_update (t := t) hcarries
  cases hstep with
  | quiet hbytes hhead htail hclaimed hadd hsub hpassed =>
      have hheld' : m'.heldBytes = m.heldBytes := by
        rw [QueueMemory.heldBytes, hhead, htail, hclaimed, QueueMemory.heldBytes]
      refine ⟨hnew, ?_, ?_, fun u hu => ?_⟩
      · rw [hbytes, hheld', hclaimed]
        omega
      · rw [hbytes, hcfg]
        omega
      · rw [hbytes, hcfg]
        rw [htail] at hu
        suffices hroom : m.q.approxBytes + tally QueuePc.unadded pc + size <
            m.q.cfg.maxBytes + producers.card * size by omega
        by_cases hut : u = t
        · rw [hut, update_self] at hu
          rcases hpassed _ hu with hold | ⟨hzero, hsome, hbelow⟩
          · exact hinv.passed t hold
          · -- The check has just been passed: only the other producers may have bytes to add.
            obtain ⟨buf, hbuf⟩ := Option.isSome_iff_exists.mp hsome
            have := hinv.unadded_room hbuf hzero
            omega
        · rw [update_of_ne hut] at hu
          exact hinv.passed u hu
  | @claimTail buf _ hpassed hcarried hadd hsub hpassed' =>
      have hroom := hinv.passed t hpassed
      have hsize := (hinv.carries t buf hcarried).2
      have hheld' := hring.heldBytes_claimTail buf
      have hsame : tally (QueuePc.unsubtracted (m.claimed ++ [buf])) (update pc t p) =
          tally (QueuePc.unsubtracted m.claimed) (update pc t p) := by
        refine Finset.sum_congr rfl fun u _ => ?_
        by_cases hut : u = t
        · rw [hut, update_self, (hsub _).2, (hsub _).2]
        · rw [update_of_ne hut]
          exact (hring.fact u).unsubtracted_append buf
      have hzero := hsub m.claimed
      refine ⟨hnew, ?_, ?_, fun u hu => ?_⟩
      · rw [hheld']
        show m.q.approxBytes + _ = _ + tally (QueuePc.unsubtracted (m.claimed ++ [buf])) _
        rw [hsame]
        omega
      · show m.q.approxBytes + _ < m.q.cfg.maxBytes + _
        omega
      · -- The tail has moved past every position that was checked.
        have hle : m.q.tail + 1 ≤ m.q.tail := passed_le hring (passed_update hpassed' hu)
        omega
  | @addBytes n _ hadd hsub hpassed' =>
      have hexact : (m.addBytes n).q.approxBytes = m.q.approxBytes + n := by
        have hle := le_tally QueuePc.unadded pc t
        exact Nat.mod_eq_of_lt (by omega)
      refine ⟨hnew, ?_, ?_, fun u hu => ?_⟩
      · rw [hexact]
        show _ = m.heldBytes + tally (QueuePc.unsubtracted m.claimed) _
        omega
      · rw [hexact, hcfg]
        omega
      · have hroom := hinv.passed u (passed_update hpassed' hu)
        rw [hexact, hcfg]
        omega
  | @claimHead _ hlt hadd hsub hpassed' =>
      have hheld' := QueueMemory.heldBytes_claimHead hlt
      refine ⟨hnew, ?_, ?_, fun u hu => ?_⟩
      · show m.q.approxBytes + _ = _ + tally (QueuePc.unsubtracted m.claimed) _
        omega
      · show m.q.approxBytes + _ < m.q.cfg.maxBytes + _
        omega
      · have hroom := hinv.passed u (passed_update hpassed' hu)
        show m.q.approxBytes + _ + size < m.q.cfg.maxBytes + _
        omega
  | @subBytes n _ hadd hsub hpassed' =>
      have hle := le_tally (QueuePc.unsubtracted m.claimed) pc t
      have hexact : (m.subBytes n).q.approxBytes = m.q.approxBytes - n :=
        wrapSub_eq (by omega) (by omega)
      refine ⟨hnew, ?_, ?_, fun u hu => ?_⟩
      · rw [hexact]
        show _ = m.heldBytes + tally (QueuePc.unsubtracted m.claimed) _
        omega
      · rw [hexact, hcfg]
        omega
      · have hroom := hinv.passed u (passed_update hpassed' hu)
        rw [hexact, hcfg]
        omega

theorem signalMove (hinv : ByteInv producers size m pc) (hring : RingInv m pc)
    (hfit : m.q.cfg.maxBytes + producers.card * size ≤ 2 ^ 64) (hmove : SignalMove (pc t) p) :
    ByteInv producers size m (update pc t p) := by
  refine hinv.byteStep hring rfl hfit (fun buf hbuf => hinv.carries t buf ?_) ?_
  all_goals
    generalize pc t = old at hmove
    cases hmove <;> first | exact hbuf | exact .plain rfl ⟨rfl, rfl⟩ rfl rfl rfl rfl

end ByteInv

/-! ## Every run -/

/-- Only `producers` push, and only buffers of at most `size` bytes. -/
def PushesOnly (producers : Finset ι) (size : ℕ) : ι × QueueChoice ι → Prop
  | (t, .startPush buf _) => t ∈ producers ∧ buf.size ≤ size
  | _ => True

instance [DecidableEq ι] (action : ι × QueueChoice ι) :
    Decidable (PushesOnly producers size action) :=
  match action with
  | (t, .startPush buf _) => inferInstanceAs (Decidable (t ∈ producers ∧ buf.size ≤ size))
  | (_, .startPop _) | (_, .run) | (_, .swapFails) | (_, .spuriousWake) | (_, .deadline)
  | (_, .signal _) => isTrue trivial

theorem PushPc.rechecked_carries (buf : Buffer) (timeout : Timeout) (pos : ℕ)
    (out : FullPc.Outcome) : (PushPc.rechecked buf timeout pos out).carries = some buf := by
  unfold PushPc.rechecked
  split <;> rfl

omit [Fintype ι] in
/-- A push goes on with its buffer, or returns. -/
theorem PushPc.step_carries {buf : Buffer} {timeout : Timeout} {ppc : PushPc}
    (hstep : ppc.step m t buf timeout = some (m', p)) : p.carries = some buf ∨ p = .idle := by
  cases ppc with
  | lock kind pos =>
      cases kind with
      | ring =>
          cases (RingInv.acquire_eq hstep).2
          exact .inl rfl
      | limits =>
          cases (RingInv.acquire_eq hstep).2
          exact .inl (rechecked_carries ..)
  | lockSignal | wake =>
      cases (RingInv.acquire_eq hstep).2
      exact .inl rfl
  | recheckFull pos full =>
      cases hstep
      exact .inl (rechecked_carries ..)
  | _ =>
      simp only [PushPc.step, PushPc.checked] at hstep
      repeat' split at hstep
      all_goals first
        | cases hstep; exact .inl rfl
        | cases hstep; exact .inr rfl
        | cases hstep

omit [Fintype ι] in
theorem PopPc.step_carries {timeout : Timeout} {ppc : PopPc}
    (hstep : ppc.step m t timeout = some (m', p)) : p.carries = none := by
  cases ppc with
  | lock | lockSignal | wake =>
      cases (RingInv.acquire_eq hstep).2
      rfl
  | _ =>
      simp only [PopPc.step] at hstep
      repeat' split at hstep
      all_goals first | cases hstep; rfl | cases hstep

omit [Fintype ι] in
/-- A push has the buffer it was started with. -/
theorem QueuePc.step_carries {old : QueuePc} {choice : QueueChoice ι}
    (hstep : old.step m t choice = some (m', p)) {buf : Buffer} (hbuf : p.carries = some buf) :
    old.carries = some buf ∨ ∃ timeout, choice = .startPush buf timeout := by
  unfold QueuePc.step at hstep
  split at hstep
  case h_1 b timeout =>
    cases hstep
    cases hbuf
    exact .inr ⟨timeout, rfl⟩
  case h_3 b timeout ppc =>
    rcases PushPc.step_carries hstep with hb | rfl
    · exact .inl (hb.symm.trans hbuf)
    · cases hbuf
  case h_4 timeout ppc =>
    rw [PopPc.step_carries hstep] at hbuf
    cases hbuf
  all_goals
    cases hstep
    try exact .inl hbuf
    try cases hbuf

variable [DecidableEq ι] {s s' : QueueState ι}

theorem ByteInv.reachable {cfg : QueueConfig} (hbytes : 0 < cfg.maxBytes)
    (hfit : cfg.maxBytes + producers.card * size ≤ 2 ^ 64)
    (hreach : (queueSystem ι cfg).ReachableVia (fun _ => PushesOnly producers size) s) :
    ByteInv producers size s.mem s.pc := by
  refine System.ReachableVia.invariant (I := fun s => ByteInv producers size s.mem s.pc) ?_ ?_ hreach
  · rintro s rfl
    refine ⟨fun t buf hbuf => ?_, ?_, ?_, fun t ht => ?_⟩
    · cases hbuf
    · rfl
    · have hzero : tally QueuePc.unadded (fun _ : ι => QueuePc.idle) = 0 :=
        tally_eq_zero fun _ => rfl
      rw [hzero]
      show 0 + 0 < cfg.maxBytes + _
      omega
    · cases ht
  · rintro s ⟨t, choice⟩ s' hreach hinv hallowed hnext
    have hcfg := QueueState.reachable_cfg hreach.reachable
    have hring := RingInv.reachable hreach.reachable
    rw [← hcfg] at hfit hbytes
    rcases QueueState.next_cases hnext with hsignal | ⟨m', p, hstep, rfl⟩
    · have hboth := hsignal.invariant
        (P := fun m pc => RingInv m pc ∧ ByteInv producers size m pc) ⟨hring, hinv⟩
        fun pc u p h hmove => ⟨h.1.signalMove hmove, h.2.signalMove h.1 hfit hmove⟩
      exact hboth.2
    · refine hinv.byteStep hring (QueuePc.step_cfg hstep) hfit (fun buf hbuf => ?_)
        (QueuePc.step_bytes hbytes (hring.fact t) hstep)
      rcases QueuePc.step_carries hstep hbuf with hold | ⟨timeout, rfl⟩
      · exact hinv.carries t buf hold
      · exact hallowed

end Account

/-- **The byte limit under any interleaving.**  When the threads of `producers` push
buffers of at most `size` bytes, and the limit with one buffer for each of them still
fits 64 bits, the bytes claimed into the ring and not popped stay below the limit and one
buffer for each of these threads. -/
theorem byte_limit [Fintype ι] [DecidableEq ι] (cfg : QueueConfig) (hbytes : 0 < cfg.maxBytes)
    (producers : Finset ι) (size : ℕ) (hfit : cfg.maxBytes + producers.card * size ≤ 2 ^ 64) :
    ∀ s, (queueSystem ι cfg).ReachableVia (fun _ => PushesOnly producers size) s →
      s.mem.heldBytes < cfg.maxBytes + producers.card * size := by
  intro s hreach
  have hinv := ByteInv.reachable hbytes hfit hreach
  have hcfg := QueueState.reachable_cfg hreach.reachable
  have hbalance := hinv.balance
  have hbound := hinv.bound
  rw [hcfg] at hbound
  omega

/-- Two threads push into a queue limited to ten bytes.  Nine bytes are in the ring when
the first looks at the count and claims a slot for ten more.  The second looks before
these are added, and claims a slot for another ten. -/
def overshootActions : List (Bool × QueueChoice Bool) :=
  (false, .startPush ⟨1, 9, 0, 0⟩ .zero) :: List.replicate 12 (false, .run) ++
    (false, .startPush ⟨2, 10, 0, 0⟩ .zero) :: List.replicate 6 (false, .run) ++
    (true, .startPush ⟨3, 10, 0, 0⟩ .zero) :: List.replicate 6 (true, .run)

/-- One thread pushes buffers of `2 ^ 63` bytes.  The second makes the count zero. -/
def wrapActions : List (Unit × QueueChoice Unit) :=
  let push := ((), .startPush ⟨1, 2 ^ 63, 0, 0⟩ .zero) :: List.replicate 12 ((), .run)
  push ++ push ++ push

theorem overshoot_reached :
    ∃ s, (queueSystem Bool ⟨.sync, 4, 10, 0⟩).ReachableVia
        (fun _ => PushesOnly Finset.univ 10) s ∧ s.mem.heldBytes = 29 := by
  let cfg : QueueConfig := ⟨.sync, 4, 10, 0⟩
  let start : QueueState Bool := ⟨⟨Queue.create cfg, none, 0, 0, [], []⟩, fun _ => .idle⟩
  have hend : ((queueSystem Bool cfg).run start overshootActions).map
      (fun s => s.mem.heldBytes) = some 29 := by decide +kernel
  obtain ⟨s, hrun, hheld⟩ := Option.map_eq_some_iff.mp hend
  have hall : ∀ a ∈ overshootActions, PushesOnly Finset.univ 10 a := by decide
  exact ⟨s, System.ReachableVia.run (.start rfl) (fun _ => hall) hrun, hheld⟩

/-- The two producers stay below the bound for two, which they have reached. -/
theorem byte_limit_overshoot :
    ∃ s, (queueSystem Bool ⟨.sync, 4, 10, 0⟩).Reachable s ∧ s.mem.heldBytes = 29 ∧
      s.mem.heldBytes < 10 + 2 * 10 := by
  obtain ⟨s, hreach, hheld⟩ := overshoot_reached
  exact ⟨s, hreach.reachable, hheld,
    byte_limit ⟨.sync, 4, 10, 0⟩ (by decide) Finset.univ 10 (by decide) s hreach⟩

/-- One buffer of overshoot is not the bound: two producers go further, and so does one
whose bytes wrap the count. -/
theorem overshoot :
    (∃ s, (queueSystem Bool ⟨.sync, 4, 10, 0⟩).ReachableVia
        (fun _ => PushesOnly Finset.univ 10) s ∧ ¬ s.mem.heldBytes < 10 + 10) ∧
      ∃ s, (queueSystem Unit ⟨.sync, 4, 2 ^ 63 + 1, 0⟩).ReachableVia
        (fun _ => PushesOnly Finset.univ (2 ^ 63)) s ∧
        ¬ s.mem.heldBytes < (2 ^ 63 + 1) + 2 ^ 63 := by
  refine ⟨?_, ?_⟩
  · obtain ⟨s, hreach, hheld⟩ := overshoot_reached
    exact ⟨s, hreach, by omega⟩
  · let cfg : QueueConfig := ⟨.sync, 4, 2 ^ 63 + 1, 0⟩
    let start : QueueState Unit := ⟨⟨Queue.create cfg, none, 0, 0, [], []⟩, fun _ => .idle⟩
    have hend : ((queueSystem Unit cfg).run start wrapActions).map
        (fun s => s.mem.heldBytes) = some (3 * 2 ^ 63) := by decide +kernel
    obtain ⟨s, hrun, hheld⟩ := Option.map_eq_some_iff.mp hend
    have hall : ∀ a ∈ wrapActions, PushesOnly Finset.univ (2 ^ 63) a := by decide +kernel
    exact ⟨s, System.ReachableVia.run (.start rfl) (fun _ => hall) hrun, by omega⟩

end Zstreamer

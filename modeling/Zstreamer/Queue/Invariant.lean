/-
# The queue hands its buffers over in order

The ring is a window of `capacity` positions that starts at the head.  A position
below the tail belongs to the push that claimed it until it is published.  A position
at or above the tail is free, unless the pop that took the buffer one turn earlier has
not let go of the slot yet.  So at any time each slot stands for one position of the
window, and at most one thread may touch it.

`RingInv` says this, and what each thread may rely on at its program counter.  Facts
about a slot that a thread has not claimed are conditional: a push about to swap the
tail at `pos` knows its slot to be free only as long as the tail is still `pos`, which
is all the swap needs.

`queue_fifo` follows from the invariant: the bounds of the counters, the phase of each slot, and
the agreement of the two logs.
-/

import Zstreamer.Queue.Steps
import Zstreamer.Foundation.Tally

namespace Zstreamer

open Foundation List Function

variable {ι : Type}

/-! ## What a thread holds and what it relies on -/

namespace QueuePc

/-- The ticket whose slot the thread is filling. -/
def writes : QueuePc → Option ℕ
  | .push _ _ (.storePts pos) => some pos
  | .push _ _ (.storeDuration pos) => some pos
  | .push _ _ (.storeBuf pos) => some pos
  | .push _ _ (.addBytes pos) => some pos
  | .push _ _ (.publish pos) => some pos
  | _ => none

/-- The ticket whose slot the thread is emptying. -/
def reads : QueuePc → Option ℕ
  | .pop _ (.loadBuf pos) => some pos
  | .pop _ (.subBytes pos _) => some pos
  | .pop _ (.resetPts pos _) => some pos
  | .pop _ (.resetDuration pos _) => some pos
  | .pop _ (.resetBuf pos _) => some pos
  | .pop _ (.release pos _) => some pos
  | _ => none

/-- The ticket the thread has taken but not looked at yet. -/
def awaits : QueuePc → Option ℕ
  | .pop _ (.loadBuf pos) => some pos
  | _ => none

/-- Both hold the same tickets. -/
structure Alike (p q : QueuePc) : Prop where
  writes : p.writes = q.writes
  reads : p.reads = q.reads
  awaits : p.awaits = q.awaits

end QueuePc

namespace QueueMemory

variable (m : QueueMemory ι)

/-- If the tail is still at `pos`, the slot of `pos` is free and within the window. -/
structure Candidate (pos : ℕ) : Prop where
  le : pos ≤ m.q.tail
  free : m.q.tail = pos → (m.q.slot pos).sequence = pos ∧ pos < m.q.head + m.q.cfg.capacity

/-- If the tail is still at `pos`, another buffer is within the limit on buffers. -/
def CountPassed (pos : ℕ) : Prop :=
  m.q.tail = pos → m.q.cfg.maxBuffers > 0 → pos < m.q.head + m.q.cfg.maxBuffers

/-- Ticket `pos` has been claimed for `buf` and not been published. -/
structure Writing (pos : ℕ) (buf : Buffer) : Prop where
  claimed : m.claimed[pos]? = some buf
  head_le : m.q.head ≤ pos
  lt_tail : pos < m.q.tail
  sequence : (m.q.slot pos).sequence = pos

/-- Ticket `pos` has been taken, and its slot not been released. -/
structure Reading (pos : ℕ) : Prop where
  lt_head : pos < m.q.head
  tail_le : m.q.tail ≤ pos + m.q.cfg.capacity
  sequence : (m.q.slot pos).sequence = pos + 1

/-- Ticket `pos` can be taken. -/
def Published (pos : ℕ) : Prop :=
  ∃ buf, m.claimed[pos]? = some buf ∧ m.q.slot pos = publishedSlot buf pos

/-- The buffer a pop is about to return is the buffer of its ticket. -/
def Returns (pos : ℕ) (out : Option Buffer) : Prop := ∃ buf, out = some buf ∧ m.claimed[pos]? = some buf

/-- What a check in progress has established about the limit on buffers. -/
def FullFact (pos : ℕ) : FullPc → Prop
  | .sizeHead => True
  | .sizeTail head =>
      head ≤ m.q.head ∧ (m.q.tail = pos → pos ≤ head + m.q.cfg.capacity)
  | _ => m.CountPassed pos

/-- What a push relies on. -/
def PushFact (buf : Buffer) : PushPc → Prop
  | .loadSequence pos => pos ≤ m.q.tail
  | .checkFull pos full => m.Candidate pos ∧ m.FullFact pos full
  | .swapTail pos => m.Candidate pos ∧ (m.q.cfg.hasExtraLimits → m.CountPassed pos)
  | .storePts pos => m.Writing pos buf
  | .storeDuration pos => m.Writing pos buf ∧ (m.q.slot pos).pts = buf.pts
  | .storeBuf pos => m.Writing pos buf ∧ (m.q.slot pos).pts = buf.pts ∧
      (m.q.slot pos).duration = buf.duration
  | .addBytes pos => m.Writing pos buf ∧ (m.q.slot pos).pts = buf.pts ∧
      (m.q.slot pos).duration = buf.duration ∧ (m.q.slot pos).buf = some buf
  | .publish pos => m.Writing pos buf ∧ (m.q.slot pos).pts = buf.pts ∧
      (m.q.slot pos).duration = buf.duration ∧ (m.q.slot pos).buf = some buf
  | .addWaiter _ pos => pos ≤ m.q.tail
  | .lock _ pos => pos ≤ m.q.tail
  | .recheckSequence pos => pos ≤ m.q.tail
  | .recheckFull pos _ => pos ≤ m.q.tail
  | .wait _ pos => pos ≤ m.q.tail
  | _ => True

/-- What a pop relies on. -/
def PopFact : PopPc → Prop
  | .loadSequence pos => pos ≤ m.q.head
  | .swapHead pos => pos ≤ m.q.head ∧
      (m.q.head = pos → (m.q.slot pos).sequence = pos + 1 ∧ pos < m.q.tail)
  | .loadBuf pos => m.Reading pos ∧ m.Published pos
  | .subBytes pos buf => m.Reading pos ∧ m.Returns pos (some buf)
  | .resetPts pos out => m.Reading pos ∧ m.Returns pos out
  | .resetDuration pos out => m.Reading pos ∧ m.Returns pos out
  | .resetBuf pos out => m.Reading pos ∧ m.Returns pos out
  | .release pos out => m.Reading pos ∧ m.Returns pos out
  | .loadWaiters pos out => m.Returns pos out
  | .lockSignal pos out => m.Returns pos out
  | .signal pos out => m.Returns pos out
  | .addWaiter pos => pos ≤ m.q.head
  | .lock pos => pos ≤ m.q.head
  | .recheckSequence pos => pos ≤ m.q.head
  | .wait pos => pos ≤ m.q.head
  | _ => True

/-- What a thread relies on. -/
def PcFact : QueuePc → Prop
  | .idle => True
  | .push buf _ pc => m.PushFact buf pc
  | .pop _ pc => m.PopFact pc

end QueueMemory

/-- The invariant of the ring and its threads. -/
structure RingInv (m : QueueMemory ι) (pc : ι → QueuePc) : Prop where
  head_le : m.q.head ≤ m.q.tail
  tail_le : m.q.tail ≤ m.q.head + m.q.cfg.capacity
  limit : m.q.cfg.maxBuffers > 0 → m.q.cfg.maxBuffers ≤ 2 ^ 31 →
    m.q.tail ≤ m.q.head + m.q.cfg.maxBuffers
  claimed : m.claimed.length = m.q.tail
  /-- Below the tail: being written, or published. -/
  produced : ∀ k, m.q.head ≤ k → k < m.q.tail →
    (∃ t, (pc t).writes = some k) ∨ m.Published k
  /-- From the tail on: free, or still being emptied from the turn before. -/
  freed : ∀ k, m.q.tail ≤ k → k < m.q.head + m.q.cfg.capacity →
    (m.q.slot k).sequence = k ∨ ∃ t j, j + m.q.cfg.capacity = k ∧ (pc t).reads = some j
  one_writer : ∀ t u k, (pc t).writes = some k → (pc u).writes = some k → t = u
  one_reader : ∀ t u k, (pc t).reads = some k → (pc u).reads = some k → t = u
  fact : ∀ t, m.PcFact (pc t)
  taken : ∀ k out, (k, out) ∈ m.taken → k < m.q.head ∧ m.Returns k out
  taken_once : (m.taken.map Prod.fst).Nodup
  /-- Every ticket below the head has been looked at, or is about to be. -/
  looked : ∀ k < m.q.head, k ∈ m.taken.map Prod.fst ↔ ¬ ∃ t, (pc t).awaits = some k

/-! ## Facts under the steps of other threads -/

/-- Two memories that differ at most in the lock, the waiters, the byte count and the
log of what was taken. -/
structure SameRing (m m' : QueueMemory ι) : Prop where
  cfg : m'.q.cfg = m.q.cfg
  ring : m'.q.ring = m.q.ring
  head : m'.q.head = m.q.head
  tail : m'.q.tail = m.q.tail
  claimed : m'.claimed = m.claimed

section Facts

variable {m m' : QueueMemory ι} {pc : QueuePc}

theorem SameRing.slot (hsame : SameRing m m') (pos : ℕ) : m'.q.slot pos = m.q.slot pos := by
  rw [Queue.slot, Queue.slot, hsame.ring, hsame.cfg]

theorem SameRing.published (hsame : SameRing m m') {pos : ℕ} (hpub : m.Published pos) :
    m'.Published pos := by
  obtain ⟨buf, hclaimed, hslot⟩ := hpub
  exact ⟨buf, by rw [hsame.claimed, hclaimed], by rw [hsame.slot, hslot]⟩

theorem SameRing.returns (hsame : SameRing m m') {pos : ℕ} {out : Option Buffer}
    (hret : m.Returns pos out) : m'.Returns pos out := by
  obtain ⟨buf, hout, hclaimed⟩ := hret
  exact ⟨buf, hout, by rw [hsame.claimed, hclaimed]⟩

theorem SameRing.pcFact (hsame : SameRing m m') (hfact : m.PcFact pc) : m'.PcFact pc := by
  obtain ⟨⟨cfg, ring, head, tail, bytes⟩, lock, wpush, wpop, claimed, taken⟩ := m
  obtain ⟨⟨cfg', ring', head', tail', bytes'⟩, lock', wpush', wpop', claimed', taken'⟩ := m'
  obtain ⟨hcfg, hring, hhead, htail, hclaimed⟩ := hsame
  dsimp only at hcfg hring hhead htail hclaimed
  subst hcfg hring hhead htail hclaimed
  cases pc with
  | idle => trivial
  | push buf timeout pc =>
      cases pc with
      | checkFull pos full =>
          obtain ⟨⟨hle, hfree⟩, hfull⟩ := hfact
          refine ⟨⟨hle, hfree⟩, ?_⟩
          cases full <;> exact hfull
      | swapTail pos =>
          obtain ⟨⟨hle, hfree⟩, hcount⟩ := hfact
          exact ⟨⟨hle, hfree⟩, hcount⟩
      | storePts pos =>
          obtain ⟨h₁, h₂, h₃, h₄⟩ := hfact
          exact ⟨h₁, h₂, h₃, h₄⟩
      | storeDuration pos | storeBuf pos | addBytes pos | publish pos =>
          obtain ⟨⟨h₁, h₂, h₃, h₄⟩, hrest⟩ := hfact
          exact ⟨⟨h₁, h₂, h₃, h₄⟩, hrest⟩
      | _ => exact hfact
  | pop timeout pc =>
      cases pc with
      | loadBuf pos | subBytes pos buf | resetPts pos out | resetDuration pos out
      | resetBuf pos out | release pos out =>
          obtain ⟨⟨h₁, h₂, h₃⟩, hrest⟩ := hfact
          exact ⟨⟨h₁, h₂, h₃⟩, hrest⟩
      | _ => exact hfact

namespace QueuePc

/-- The position a push has found free and means to claim. -/
def candidate : QueuePc → Option ℕ
  | .push _ _ (.checkFull pos _) => some pos
  | .push _ _ (.swapTail pos) => some pos
  | _ => none

/-- The position a pop has found published and means to take. -/
def swapsHead : QueuePc → Option ℕ
  | .pop _ (.swapHead pos) => some pos
  | _ => none

end QueuePc

/-- The positions of the window whose slots a thread relies on.  A slot being emptied
counts as the position one turn later. -/
def QueueMemory.Relies (m : QueueMemory ι) (pc : QueuePc) (k : ℕ) : Prop :=
  pc.writes = some k ∨ (∃ j, pc.reads = some j ∧ k = j + m.q.cfg.capacity) ∨
    (pc.candidate = some k ∧ m.q.tail = k) ∨ (pc.swapsHead = some k ∧ m.q.head = k)

/-- Writing a slot that a thread does not rely on keeps what it relies on. -/
theorem QueueMemory.PcFact.setSlot {w : ℕ} {f : Slot → Slot} (hfact : m.PcFact pc)
    (hother : ∀ k, m.Relies pc k → k % m.q.cfg.capacity ≠ w % m.q.cfg.capacity) :
    (m.setSlot w f).PcFact pc := by
  have hslot : ∀ k, k % m.q.cfg.capacity ≠ w % m.q.cfg.capacity →
      (m.setSlot w f).q.slot k = m.q.slot k := fun k hne => Queue.slot_setSlot_of_ne f hne
  have hwrites : ∀ k, pc.writes = some k → (m.setSlot w f).q.slot k = m.q.slot k :=
    fun k hk => hslot k (hother k (.inl hk))
  have hreads : ∀ k, pc.reads = some k → (m.setSlot w f).q.slot k = m.q.slot k := by
    intro k hk
    have hne := hother _ (.inr (.inl ⟨k, hk, rfl⟩))
    rw [Nat.add_mod_right] at hne
    exact hslot k hne
  have hcandidate : ∀ k, pc.candidate = some k → m.Candidate k → (m.setSlot w f).Candidate k := by
    rintro k hk ⟨hle, hfree⟩
    refine ⟨hle, fun htail => ?_⟩
    rw [hslot k (hother k (.inr (.inr (.inl ⟨hk, htail⟩))))]
    exact hfree htail
  have hwriting : ∀ k buf, pc.writes = some k → m.Writing k buf →
      (m.setSlot w f).Writing k buf := by
    rintro k buf hk ⟨h₁, h₂, h₃, h₄⟩
    exact ⟨h₁, h₂, h₃, by rw [hwrites k hk]; exact h₄⟩
  have hreading : ∀ k, pc.reads = some k → m.Reading k → (m.setSlot w f).Reading k := by
    rintro k hk ⟨h₁, h₂, h₃⟩
    exact ⟨h₁, h₂, by rw [hreads k hk]; exact h₃⟩
  cases pc with
  | idle => trivial
  | push buf timeout pc =>
      cases pc with
      | checkFull pos full =>
          refine ⟨hcandidate pos rfl hfact.1, ?_⟩
          have hfull := hfact.2
          cases full <;> exact hfull
      | swapTail pos => exact ⟨hcandidate pos rfl hfact.1, hfact.2⟩
      | storePts pos => exact hwriting pos buf rfl hfact
      | storeDuration pos | storeBuf pos | addBytes pos | publish pos =>
          refine ⟨hwriting pos buf rfl hfact.1, ?_⟩
          rw [hwrites pos rfl]
          exact hfact.2
      | _ => exact hfact
  | pop timeout pc =>
      cases pc with
      | swapHead pos =>
          refine ⟨hfact.1, fun hhead => ?_⟩
          rw [hslot pos (hother pos (.inr (.inr (.inr ⟨rfl, hhead⟩))))]
          exact hfact.2 hhead
      | loadBuf pos =>
          obtain ⟨hread, buf, hclaimed, hpub⟩ := hfact
          exact ⟨hreading pos rfl hread, buf, hclaimed, by rw [hreads pos rfl]; exact hpub⟩
      | subBytes pos buf | resetPts pos out | resetDuration pos out
      | resetBuf pos out | release pos out =>
          exact ⟨hreading pos rfl hfact.1, hfact.2⟩
      | _ => exact hfact

theorem getElem?_append_of_some {l : List Buffer} {k : ℕ} {buf : Buffer} (extra : List Buffer)
    (hget : l[k]? = some buf) : (l ++ extra)[k]? = some buf := by
  rw [List.getElem?_append_left (List.getElem?_eq_some_iff.mp hget).1]
  exact hget

theorem QueueMemory.Returns.claimTail {pos k : ℕ} {buf : Buffer} {out : Option Buffer}
    (hret : m.Returns k out) : (m.claimTail pos buf).Returns k out := by
  obtain ⟨b, hout, hclaimed⟩ := hret
  exact ⟨b, hout, getElem?_append_of_some [buf] hclaimed⟩

theorem QueueMemory.Published.claimTail {pos k : ℕ} {buf : Buffer} (hpub : m.Published k) :
    (m.claimTail pos buf).Published k := by
  obtain ⟨b, hclaimed, hslot⟩ := hpub
  exact ⟨b, getElem?_append_of_some [buf] hclaimed, hslot⟩

/-- A claim of the tail by another thread. -/
theorem QueueMemory.PcFact.claimTail {buf : Buffer} (hfact : m.PcFact pc)
    (hreads : ∀ j, pc.reads = some j → m.q.tail ≠ j + m.q.cfg.capacity) :
    (m.claimTail m.q.tail buf).PcFact pc := by
  have htail : (m.claimTail m.q.tail buf).q.tail = m.q.tail + 1 := rfl
  have hwriting : ∀ k b, m.Writing k b → (m.claimTail m.q.tail buf).Writing k b := by
    rintro k b ⟨h₁, h₂, h₃, h₄⟩
    exact ⟨getElem?_append_of_some [buf] h₁, h₂, by rw [htail]; omega, h₄⟩
  have hcandidate : ∀ k, m.Candidate k → (m.claimTail m.q.tail buf).Candidate k := by
    rintro k ⟨hle, -⟩
    exact ⟨by rw [htail]; omega, fun h => absurd h (by rw [htail]; omega)⟩
  have hcount : ∀ k, k ≤ m.q.tail → (m.claimTail m.q.tail buf).CountPassed k :=
    fun k hle h => absurd h (by rw [htail]; omega)
  have hreading : ∀ k, pc.reads = some k → m.Reading k →
      (m.claimTail m.q.tail buf).Reading k := by
    rintro k hk ⟨h₁, h₂, h₃⟩
    have hne := hreads k hk
    refine ⟨h₁, ?_, h₃⟩
    show m.q.tail + 1 ≤ k + m.q.cfg.capacity
    omega
  cases pc with
  | idle => trivial
  | push b timeout pc =>
      cases pc with
      | loadSequence pos | addWaiter kind pos | lock kind pos | recheckSequence pos
      | recheckFull pos full | wait kind pos =>
          have hle : pos ≤ m.q.tail := hfact
          show pos ≤ m.q.tail + 1
          omega
      | checkFull pos full =>
          obtain ⟨hcand, hfull⟩ := hfact
          refine ⟨hcandidate pos hcand, ?_⟩
          cases full with
          | sizeHead => trivial
          | sizeTail head =>
              refine ⟨hfull.1, fun h => absurd h ?_⟩
              have hle := hcand.le
              rw [htail]
              omega
          | _ => exact hcount pos hcand.le
      | swapTail pos => exact ⟨hcandidate pos hfact.1, fun _ => hcount pos hfact.1.le⟩
      | storePts pos => exact hwriting pos b hfact
      | storeDuration pos | storeBuf pos | addBytes pos | publish pos =>
          exact ⟨hwriting pos b hfact.1, hfact.2⟩
      | _ => exact hfact
  | pop timeout pc =>
      cases pc with
      | swapHead pos =>
          refine ⟨hfact.1, fun hhead => ?_⟩
          obtain ⟨hseq, hlt⟩ := hfact.2 hhead
          exact ⟨hseq, by rw [htail]; omega⟩
      | loadBuf pos => exact ⟨hreading pos rfl hfact.1, hfact.2.claimTail⟩
      | subBytes pos out | resetPts pos out | resetDuration pos out
      | resetBuf pos out | release pos out =>
          exact ⟨hreading pos rfl hfact.1, hfact.2.claimTail⟩
      | loadWaiters pos out | lockSignal pos out | signal pos out =>
          exact QueueMemory.Returns.claimTail hfact
      | _ => exact hfact

/-- A claim of the head by another thread. -/
theorem QueueMemory.PcFact.claimHead (hfact : m.PcFact pc)
    (hwrites : ∀ k, pc.writes = some k → k ≠ m.q.head) :
    (m.claimHead m.q.head).PcFact pc := by
  have hhead : (m.claimHead m.q.head).q.head = m.q.head + 1 := rfl
  have hwriting : ∀ k b, pc.writes = some k → m.Writing k b →
      (m.claimHead m.q.head).Writing k b := by
    rintro k b hk ⟨h₁, h₂, h₃, h₄⟩
    have hne := hwrites k hk
    exact ⟨h₁, by rw [hhead]; omega, h₃, h₄⟩
  have hcandidate : ∀ k, m.Candidate k → (m.claimHead m.q.head).Candidate k := by
    rintro k ⟨hle, hfree⟩
    refine ⟨hle, fun htail => ?_⟩
    obtain ⟨hseq, hlt⟩ := hfree htail
    refine ⟨hseq, ?_⟩
    show k < m.q.head + 1 + m.q.cfg.capacity
    omega
  have hcount : ∀ k, m.CountPassed k → (m.claimHead m.q.head).CountPassed k := by
    intro k hpassed htail hpos
    have hlt := hpassed htail hpos
    show k < m.q.head + 1 + m.q.cfg.maxBuffers
    omega
  have hreading : ∀ k, m.Reading k → (m.claimHead m.q.head).Reading k := by
    rintro k ⟨h₁, h₂, h₃⟩
    exact ⟨by rw [hhead]; omega, h₂, h₃⟩
  cases pc with
  | idle => trivial
  | push b timeout pc =>
      cases pc with
      | checkFull pos full =>
          obtain ⟨hcand, hfull⟩ := hfact
          refine ⟨hcandidate pos hcand, ?_⟩
          cases full with
          | sizeHead => trivial
          | sizeTail head => exact ⟨by rw [hhead]; exact hfull.1.trans (by omega), hfull.2⟩
          | _ => exact hcount pos hfull
      | swapTail pos => exact ⟨hcandidate pos hfact.1, fun h => hcount pos (hfact.2 h)⟩
      | storePts pos => exact hwriting pos b rfl hfact
      | storeDuration pos | storeBuf pos | addBytes pos | publish pos =>
          exact ⟨hwriting pos b rfl hfact.1, hfact.2⟩
      | _ => exact hfact
  | pop timeout pc =>
      cases pc with
      | loadSequence pos | addWaiter pos | lock pos | recheckSequence pos | wait pos =>
          have hle : pos ≤ m.q.head := hfact
          show pos ≤ m.q.head + 1
          omega
      | swapHead pos =>
          have hle : pos ≤ m.q.head := hfact.1
          refine ⟨by rw [hhead]; omega, fun h => absurd h ?_⟩
          rw [hhead]
          omega
      | loadBuf pos | subBytes pos out | resetPts pos out | resetDuration pos out
      | resetBuf pos out | release pos out =>
          exact ⟨hreading pos hfact.1, hfact.2⟩
      | _ => exact hfact

/-! ### Reading a fact off the program counter -/

theorem QueueMemory.PcFact.writing (hfact : m.PcFact pc) {k : ℕ} (hk : pc.writes = some k) :
    ∃ buf, m.Writing k buf := by
  cases pc with
  | push buf timeout pc =>
      cases pc with
      | storePts pos =>
          cases hk
          exact ⟨buf, hfact⟩
      | storeDuration pos | storeBuf pos | addBytes pos | publish pos =>
          cases hk
          exact ⟨buf, hfact.1⟩
      | _ => cases hk
  | _ => cases hk

theorem QueueMemory.PcFact.reading (hfact : m.PcFact pc) {k : ℕ} (hk : pc.reads = some k) :
    m.Reading k := by
  cases pc with
  | pop timeout pc =>
      cases pc with
      | loadBuf pos | subBytes pos out | resetPts pos out | resetDuration pos out
      | resetBuf pos out | release pos out =>
          cases hk
          exact hfact.1
      | _ => cases hk
  | _ => cases hk

theorem QueueMemory.PcFact.candidate (hfact : m.PcFact pc) {k : ℕ} (hk : pc.candidate = some k) :
    m.Candidate k := by
  cases pc with
  | push buf timeout pc =>
      cases pc with
      | checkFull pos full =>
          cases hk
          exact hfact.1
      | swapTail pos =>
          cases hk
          exact hfact.1
      | _ => cases hk
  | _ => cases hk

theorem QueueMemory.PcFact.swapsHead (hfact : m.PcFact pc) {k : ℕ} (hk : pc.swapsHead = some k)
    (hhead : m.q.head = k) : (m.q.slot k).sequence = k + 1 ∧ k < m.q.tail := by
  cases pc with
  | pop timeout pc =>
      cases pc with
      | swapHead pos =>
          cases hk
          exact hfact.2 hhead
      | _ => cases hk
  | _ => cases hk

theorem QueuePc.reads_of_awaits {k : ℕ} (hk : pc.awaits = some k) : pc.reads = some k := by
  cases pc with
  | pop timeout pc =>
      cases pc with
      | loadBuf pos => exact hk
      | _ => cases hk
  | _ => cases hk

end Facts

/-! ## The invariant under each kind of step -/

namespace RingInv

variable {m m' : QueueMemory ι} {pc : ι → QueuePc} {t u : ι}

/-- Reading slot `j` is holding position `j + capacity`. -/
theorem reading_slot (hinv : RingInv m pc) {j : ℕ} (hj : (pc t).reads = some j) :
    (m.q.slot (j + m.q.cfg.capacity)).sequence = j + 1 := by
  rw [Queue.slot_add_capacity]
  exact ((hinv.fact t).reading hj).sequence

/-- The thread holds position `k` of the window: it fills it, or empties it from the
turn before. -/
def Holds (m : QueueMemory ι) (pc : QueuePc) (k : ℕ) : Prop :=
  pc.writes = some k ∨ ∃ j, pc.reads = some j ∧ k = j + m.q.cfg.capacity

/-- What a thread relies on lies in the window. -/
theorem relies_window (hinv : RingInv m pc) {k : ℕ} (hk : m.Relies (pc t) k) :
    m.q.head ≤ k ∧ k < m.q.head + m.q.cfg.capacity := by
  have hle := hinv.head_le
  have hle' := hinv.tail_le
  have hpos := m.q.cfg.capacity_pos
  rcases hk with hw | ⟨j, hr, rfl⟩ | ⟨hc, rfl⟩ | ⟨hs, rfl⟩
  · obtain ⟨buf, hwriting⟩ := (hinv.fact t).writing hw
    exact ⟨hwriting.head_le, by have := hwriting.lt_tail; omega⟩
  · obtain ⟨h₁, h₂, -⟩ := (hinv.fact t).reading hr
    omega
  · obtain ⟨-, hfree⟩ := (hinv.fact t).candidate hc
    have := (hfree rfl).2
    omega
  · omega

theorem Holds.relies {p : QueuePc} {k : ℕ} (hk : Holds m p k) : m.Relies p k := by
  rcases hk with hw | hr
  · exact .inl hw
  · exact .inr (.inl hr)

/-- Two threads never rely on a position that one of them holds. -/
theorem separate (hinv : RingInv m pc) (htu : u ≠ t) {a b : ℕ} (ha : Holds m (pc t) a)
    (hb : m.Relies (pc u) b) : a ≠ b := by
  rintro rfl
  have htwo := m.q.cfg.two_le_capacity
  have hle := hinv.head_le
  rcases ha with hw | ⟨j, hr, rfl⟩
  · obtain ⟨buf, hwriting⟩ := (hinv.fact t).writing hw
    have hlt := hwriting.lt_tail
    rcases hb with hw' | ⟨j, hr, heq⟩ | ⟨-, htail⟩ | ⟨hs, hhead⟩
    · exact htu (hinv.one_writer u t _ hw' hw)
    · have := ((hinv.fact u).reading hr).tail_le
      omega
    · omega
    · have hseq := ((hinv.fact u).swapsHead hs hhead).1
      rw [hwriting.sequence] at hseq
      omega
  · have hread := (hinv.fact t).reading hr
    have hbelow := hread.tail_le
    rcases hb with hw' | ⟨j', hr', heq⟩ | ⟨hc, htail⟩ | ⟨hs, hhead⟩
    · obtain ⟨buf, hwriting⟩ := (hinv.fact u).writing hw'
      have := hwriting.lt_tail
      omega
    · obtain rfl : j = j' := by omega
      exact htu (hinv.one_reader u t _ hr' hr)
    · -- A free slot and a slot being emptied have different sequence numbers.
      have hseq := (((hinv.fact u).candidate hc).free htail).1
      rw [hinv.reading_slot hr] at hseq
      omega
    · have := ((hinv.fact u).swapsHead hs hhead).2
      omega

/-- Whatever the holder of a position writes into its slot, the others may go on. -/
theorem other_fact (hinv : RingInv m pc) (htu : u ≠ t) {k w : ℕ} (hk : Holds m (pc t) k)
    (hw : w % m.q.cfg.capacity = k % m.q.cfg.capacity) (f : Slot → Slot) :
    (m.setSlot w f).PcFact (pc u) := by
  refine (hinv.fact u).setSlot fun b hb heq => hinv.separate htu hk hb ?_
  obtain ⟨h₁, h₂⟩ := hinv.relies_window hb
  obtain ⟨h₃, h₄⟩ := hinv.relies_window (t := t) hk.relies
  exact eq_of_mod_eq h₃ h₄ h₁ h₂ (hw.symm.trans heq.symm)

/-- A position of the window other than the one held keeps its slot. -/
theorem slot_of_ne (hinv : RingInv m pc) {k w b : ℕ} (hk : Holds m (pc t) k)
    (hw : w % m.q.cfg.capacity = k % m.q.cfg.capacity) (f : Slot → Slot)
    (hb : m.q.head ≤ b) (hb' : b < m.q.head + m.q.cfg.capacity) (hne : b ≠ k) :
    (m.setSlot w f).q.slot b = m.q.slot b := by
  refine Queue.slot_setSlot_of_ne f fun heq => hne ?_
  obtain ⟨h₃, h₄⟩ := hinv.relies_window (t := t) hk.relies
  exact eq_of_mod_eq hb hb' h₃ h₄ (heq.trans hw)

variable [DecidableEq ι] {p : QueuePc}

/-- A thread moves without touching the ring, the counters or the logs. -/
theorem silent (hinv : RingInv m pc) (hsame : SameRing m m') (htaken : m'.taken = m.taken)
    (hfact : m.PcFact p) (halike : p.Alike (pc t)) : RingInv m' (update pc t p) := by
  have hw : ∀ u, (update pc t p u).writes = (pc u).writes := view_update halike.writes
  have hr : ∀ u, (update pc t p u).reads = (pc u).reads := view_update halike.reads
  have ha : ∀ u, (update pc t p u).awaits = (pc u).awaits := view_update halike.awaits
  constructor
  case fact =>
    exact (forall_update_iff pc fun _ => m'.PcFact).mpr
      ⟨hsame.pcFact hfact, fun u _ => hsame.pcFact (hinv.fact u)⟩
  case head_le =>
    rw [hsame.head, hsame.tail]
    exact hinv.head_le
  case tail_le =>
    rw [hsame.head, hsame.tail, hsame.cfg]
    exact hinv.tail_le
  case limit =>
    rw [hsame.head, hsame.tail, hsame.cfg]
    exact hinv.limit
  case claimed =>
    rw [hsame.claimed, hsame.tail]
    exact hinv.claimed
  case produced =>
    simp only [hsame.head, hsame.tail, hw]
    exact fun k hk hk' => (hinv.produced k hk hk').imp_right hsame.published
  case freed =>
    simp only [hsame.head, hsame.tail, hsame.cfg, hsame.slot, hr]
    exact hinv.freed
  case one_writer =>
    simp only [hw]
    exact hinv.one_writer
  case one_reader =>
    simp only [hr]
    exact hinv.one_reader
  case taken =>
    rw [hsame.head, htaken]
    intro k out hmem
    obtain ⟨hlt, hret⟩ := hinv.taken k out hmem
    exact ⟨hlt, hsame.returns hret⟩
  case taken_once =>
    rw [htaken]
    exact hinv.taken_once
  case looked =>
    simp only [hsame.head, htaken, ha]
    exact hinv.looked

/-- The holder of a position writes a field of its slot other than the sequence number. -/
theorem store (hinv : RingInv m pc) {w k : ℕ} {f : Slot → Slot} (hk : Holds m (pc t) k)
    (hw : w % m.q.cfg.capacity = k % m.q.cfg.capacity)
    (hseq : ∀ slot, (f slot).sequence = slot.sequence) (hfact : (m.setSlot w f).PcFact p)
    (halike : p.Alike (pc t)) : RingInv (m.setSlot w f) (update pc t p) := by
  have hw' : ∀ u, (update pc t p u).writes = (pc u).writes := view_update halike.writes
  have hr' : ∀ u, (update pc t p u).reads = (pc u).reads := view_update halike.reads
  have ha' : ∀ u, (update pc t p u).awaits = (pc u).awaits := view_update halike.awaits
  have hsequence : ∀ b, ((m.setSlot w f).q.slot b).sequence = (m.q.slot b).sequence := by
    intro b
    by_cases hb : b % m.q.cfg.capacity = w % m.q.cfg.capacity
    · have hmask : m.q.cfg.ringMask b = m.q.cfg.ringMask w := by
        rw [m.q.cfg.ringMask_eq_mod, m.q.cfg.ringMask_eq_mod, hb]
      simp only [QueueMemory.setSlot, Queue.slot, Queue.setSlot, hmask, update_self]
      exact hseq _
    · rw [QueueMemory.setSlot, Queue.slot_setSlot_of_ne f hb]
  refine ⟨hinv.head_le, hinv.tail_le, hinv.limit, hinv.claimed, fun b hb hb' => ?_,
    fun b hb hb' => ?_, ?_, ?_, (forall_update_iff pc fun _ => (m.setSlot w f).PcFact).mpr
      ⟨hfact, fun u hu => hinv.other_fact hu hk hw f⟩, hinv.taken, hinv.taken_once, ?_⟩
  · simp only [hw']
    rcases hinv.produced b hb hb' with hwriter | ⟨buf, hclaimed, hslot⟩
    · exact .inl hwriter
    · by_cases hbk : b = k
      · -- The holder of a position below the tail is its writer.
        subst hbk
        rcases hk with hwr | ⟨j, hrd, rfl⟩
        · exact .inl ⟨t, hwr⟩
        · have := ((hinv.fact t).reading hrd).tail_le
          exact absurd hb' (not_lt.mpr this)
      · have hwindow := hinv.tail_le
        refine .inr ⟨buf, hclaimed, ?_⟩
        rw [hinv.slot_of_ne hk hw f hb (lt_of_lt_of_le hb' hwindow) hbk, hslot]
  · simp only [hr', hsequence]
    exact hinv.freed b hb hb'
  · simp only [hw']
    exact hinv.one_writer
  · simp only [hr']
    exact hinv.one_reader
  · simp only [ha']
    exact hinv.looked

/-- The writer of a ticket publishes it. -/
theorem publish (hinv : RingInv m pc) {k : ℕ} {buf : Buffer} (hk : (pc t).writes = some k)
    (hwriting : m.Writing k buf) (hslot : (m.q.slot k).pts = buf.pts ∧
      (m.q.slot k).duration = buf.duration ∧ (m.q.slot k).buf = some buf)
    (hpc : p.Alike .idle) (hreads : (pc t).reads = none) (hawaits : (pc t).awaits = none)
    (hfact : (m.setSlot k fun slot => { slot with sequence := k + 1 }).PcFact p) :
    RingInv (m.setSlot k fun slot => { slot with sequence := k + 1 })
      (update pc t p) := by
  have hr' : ∀ u, (update pc t p u).reads = (pc u).reads :=
    view_update (hpc.reads.trans hreads.symm)
  have ha' : ∀ u, (update pc t p u).awaits = (pc u).awaits :=
    view_update (hpc.awaits.trans hawaits.symm)
  have hw' : ∀ u b, (update pc t p u).writes = some b → (pc u).writes = some b :=
    fun u b => view_of_update (by rw [hpc.writes]; nofun)
  have hlt := hwriting.lt_tail
  have hwindow := hinv.tail_le
  refine ⟨hinv.head_le, hinv.tail_le, hinv.limit, hinv.claimed, fun b hb hb' => ?_,
    fun b hb hb' => ?_, fun v v' b hv hv' => hinv.one_writer v v' b (hw' v b hv) (hw' v' b hv'), ?_,
    (forall_update_iff pc fun _ => QueueMemory.PcFact _).mpr
      ⟨hfact, fun u hu => hinv.other_fact hu (.inl hk) rfl _⟩, hinv.taken, hinv.taken_once, ?_⟩
  · by_cases hbk : b = k
    · refine .inr ⟨buf, hbk ▸ hwriting.claimed, ?_⟩
      rw [hbk, QueueMemory.setSlot, Queue.slot_setSlot_self, publishedSlot]
      rw [Slot.mk.injEq]
      exact ⟨hslot.2.2, rfl, hslot.1, hslot.2.1⟩
    · rcases hinv.produced b hb hb' with ⟨v, hv⟩ | ⟨buf', hclaimed, hslot'⟩
      · refine .inl ⟨v, view_update_of_view (fun hb => hbk ?_) hv⟩
        exact Option.some.inj (hb.symm.trans hk)
      · refine .inr ⟨buf', hclaimed, ?_⟩
        rw [hinv.slot_of_ne (.inl hk) rfl _ hb (lt_of_lt_of_le hb' hwindow) hbk, hslot']
  · have hbt : m.q.tail ≤ b := hb
    have hbk : b ≠ k := by omega
    simp only [hr']
    rw [hinv.slot_of_ne (.inl hk) rfl _ (hinv.head_le.trans hbt) hb' hbk]
    exact hinv.freed b hb hb'
  · simp only [hr']
    exact hinv.one_reader
  · simp only [ha']
    exact hinv.looked

/-- The reader of a ticket releases its slot for the next turn. -/
theorem release (hinv : RingInv m pc) {k : ℕ} (hk : (pc t).reads = some k) (hpc : p.Alike .idle)
    (hwrites : (pc t).writes = none) (hawaits : (pc t).awaits = none)
    (hfact : (m.setSlot k fun slot =>
      { slot with sequence := k + m.q.cfg.capacity }).PcFact p) :
    RingInv (m.setSlot k fun slot => { slot with sequence := k + m.q.cfg.capacity })
      (update pc t p) := by
  have hw' : ∀ u, (update pc t p u).writes = (pc u).writes :=
    view_update (hpc.writes.trans hwrites.symm)
  have ha' : ∀ u, (update pc t p u).awaits = (pc u).awaits :=
    view_update (hpc.awaits.trans hawaits.symm)
  have hr' : ∀ u b, (update pc t p u).reads = some b → (pc u).reads = some b :=
    fun u b => view_of_update (by rw [hpc.reads]; nofun)
  have hheld : Holds m (pc t) (k + m.q.cfg.capacity) := .inr ⟨k, hk, rfl⟩
  have hmod : k % m.q.cfg.capacity = (k + m.q.cfg.capacity) % m.q.cfg.capacity := by simp
  have hread := (hinv.fact t).reading hk
  have hbelow := hread.tail_le
  have hwindow := hinv.tail_le
  have hle := hinv.head_le
  refine ⟨hinv.head_le, hinv.tail_le, hinv.limit, hinv.claimed, fun b hb hb' => ?_,
    fun b hb hb' => ?_, ?_, fun v v' b hv hv' => hinv.one_reader v v' b (hr' v b hv) (hr' v' b hv'),
    (forall_update_iff pc fun _ => QueueMemory.PcFact _).mpr
      ⟨hfact, fun u hu => hinv.other_fact hu hheld hmod _⟩, hinv.taken, hinv.taken_once, ?_⟩
  · have hblt : b < m.q.tail := hb'
    simp only [hw']
    rcases hinv.produced b hb hb' with hwriter | ⟨buf, hclaimed, hslot⟩
    · exact .inl hwriter
    · refine .inr ⟨buf, hclaimed, ?_⟩
      rw [hinv.slot_of_ne hheld hmod _ hb (by omega) (by omega), hslot]
  · have hbge : m.q.tail ≤ b := hb
    by_cases hbk : b = k + m.q.cfg.capacity
    · refine .inl ?_
      have hturn := Queue.slot_add_capacity
        (q := (m.setSlot k fun slot => { slot with sequence := k + m.q.cfg.capacity }).q) k
      rw [hbk]
      refine (congrArg Slot.sequence hturn).trans ?_
      rw [QueueMemory.setSlot, Queue.slot_setSlot_self]
    · rcases hinv.freed b hb hb' with hseq | ⟨v, j, hj, hv⟩
      · refine .inl ?_
        rw [hinv.slot_of_ne hheld hmod _ (hle.trans hbge) hb' hbk, hseq]
      · refine .inr ⟨v, j, hj, view_update_of_view (fun h => hbk ?_) hv⟩
        rw [← hj, Option.some.inj (h.symm.trans hk)]
  · simp only [hw']
    exact hinv.one_writer
  · simp only [ha']
    exact hinv.looked

/-- A push claims the tail: it becomes the writer of the new ticket. -/
theorem claimTail (hinv : RingInv m pc) {buf : Buffer} (hcand : m.Candidate m.q.tail)
    (hcount : m.q.cfg.hasExtraLimits → m.CountPassed m.q.tail)
    (hpc : p.writes = some m.q.tail ∧ p.reads = none ∧ p.awaits = none) (hold : (pc t).Alike .idle)
    (hfact : (m.claimTail m.q.tail buf).Writing m.q.tail buf →
      (m.claimTail m.q.tail buf).PcFact p) :
    RingInv (m.claimTail m.q.tail buf) (update pc t p) := by
  obtain ⟨hseq, hroom⟩ := hcand.free rfl
  have htwo := m.q.cfg.two_le_capacity
  have hle := hinv.head_le
  have hr' : ∀ u, (update pc t p u).reads = (pc u).reads :=
    view_update (hpc.2.1.trans hold.reads.symm)
  have ha' : ∀ u, (update pc t p u).awaits = (pc u).awaits :=
    view_update (hpc.2.2.trans hold.awaits.symm)
  have hnew : ∀ u, (pc u).writes ≠ some m.q.tail := by
    intro u hu
    obtain ⟨buf', hwriting⟩ := (hinv.fact u).writing hu
    exact lt_irrefl _ hwriting.lt_tail
  have hwriting : (m.claimTail m.q.tail buf).Writing m.q.tail buf := by
    refine ⟨?_, hle, Nat.lt_succ_self _, hseq⟩
    show (m.claimed ++ [buf])[m.q.tail]? = some buf
    rw [← hinv.claimed]
    simp
  refine ⟨?_, ?_, ?_, ?_, fun b hb hb' => ?_, fun b hb hb' => ?_,
    one_view_update hinv.one_writer hnew hpc.1, ?_,
    (forall_update_iff pc fun _ => QueueMemory.PcFact _).mpr ⟨hfact hwriting, fun u _ => ?_⟩,
    fun b out hmem => ?_, hinv.taken_once, ?_⟩
  · show m.q.head ≤ m.q.tail + 1
    omega
  · show m.q.tail + 1 ≤ m.q.head + m.q.cfg.capacity
    omega
  · -- The limit on buffers is the ring itself, or has been checked.
    intro hpos hbound
    show m.q.tail + 1 ≤ m.q.head + m.q.cfg.maxBuffers
    have hpos' : m.q.cfg.maxBuffers > 0 := hpos
    by_cases hextra : m.q.cfg.hasExtraLimits = true
    · have := hcount hextra rfl hpos'
      omega
    · have hcap : m.q.cfg.capacity ≤ m.q.cfg.maxBuffers := by
        simp only [QueueConfig.hasExtraLimits, Bool.or_eq_true, decide_eq_true_eq,
          Bool.and_eq_true, not_or, not_and, not_lt] at hextra
        exact hextra.2 hpos'
      omega
  · show (m.claimed ++ [buf]).length = m.q.tail + 1
    rw [length_append, hinv.claimed]
    rfl
  · by_cases hbt : b = m.q.tail
    · exact .inl ⟨t, by rw [update_self, hpc.1, hbt]⟩
    · have hlt : b < m.q.tail + 1 := hb'
      rcases hinv.produced b hb (by omega) with ⟨v, hv⟩ | hpub
      · exact .inl ⟨v, view_update_of_view (by rw [hold.writes]; nofun) hv⟩
      · exact .inr hpub.claimTail
  · have hbt : m.q.tail + 1 ≤ b := hb
    simp only [hr']
    exact hinv.freed b (by omega) hb'
  · simp only [hr']
    exact hinv.one_reader
  · refine (hinv.fact u).claimTail fun j hj heq => ?_
    -- The slot of the tail is free, so nobody is still emptying it.
    have := hinv.reading_slot hj
    rw [← heq, hseq] at this
    omega
  · obtain ⟨hlt, hret⟩ := hinv.taken b out hmem
    exact ⟨hlt, hret.claimTail⟩
  · simp only [ha']
    exact hinv.looked

/-- A pop claims the head: it becomes the reader of the oldest ticket. -/
theorem claimHead (hinv : RingInv m pc) (hseq : (m.q.slot m.q.head).sequence = m.q.head + 1)
    (hlt : m.q.head < m.q.tail)
    (hpc : p.writes = none ∧ p.reads = some m.q.head ∧ p.awaits = some m.q.head)
    (hold : (pc t).Alike .idle)
    (hfact : (m.claimHead m.q.head).Reading m.q.head → (m.claimHead m.q.head).Published m.q.head →
      (m.claimHead m.q.head).PcFact p) :
    RingInv (m.claimHead m.q.head) (update pc t p) := by
  have hwindow := hinv.tail_le
  have hw' : ∀ u, (update pc t p u).writes = (pc u).writes :=
    view_update (hpc.1.trans hold.writes.symm)
  have hnew : ∀ u, (pc u).reads ≠ some m.q.head :=
    fun u hu => lt_irrefl _ ((hinv.fact u).reading hu).lt_head
  -- A published slot has no writer any more.
  have hnot : ∀ u, (pc u).writes ≠ some m.q.head := by
    intro u hu
    obtain ⟨buf, hwriting⟩ := (hinv.fact u).writing hu
    have := hwriting.sequence
    omega
  have hpub : m.Published m.q.head := by
    rcases hinv.produced m.q.head le_rfl hlt with ⟨v, hv⟩ | hpub
    · exact absurd hv (hnot v)
    · exact hpub
  refine ⟨?_, ?_, ?_, hinv.claimed, fun b hb hb' => ?_, fun b hb hb' => ?_, ?_,
    one_view_update hinv.one_reader hnew hpc.2.1,
    (forall_update_iff pc fun _ => QueueMemory.PcFact _).mpr
      ⟨hfact ⟨Nat.lt_succ_self _, hwindow, hseq⟩ hpub,
        fun u _ => (hinv.fact u).claimHead fun k hk heq => hnot u (heq ▸ hk)⟩,
    fun b out hmem => ?_, hinv.taken_once, fun b hb => ?_⟩
  · exact hlt
  · show m.q.tail ≤ m.q.head + 1 + m.q.cfg.capacity
    omega
  · intro hpos hbound
    have := hinv.limit hpos hbound
    show m.q.tail ≤ m.q.head + 1 + m.q.cfg.maxBuffers
    omega
  · have hb : m.q.head + 1 ≤ b := hb
    simp only [hw']
    exact hinv.produced b (by omega) hb'
  · have hb' : b < m.q.head + 1 + m.q.cfg.capacity := hb'
    by_cases hbt : b = m.q.head + m.q.cfg.capacity
    · exact .inr ⟨t, m.q.head, hbt.symm, by rw [update_self, hpc.2.1]⟩
    · rcases hinv.freed b hb (by omega) with hseq' | ⟨v, j, hj, hv⟩
      · exact .inl hseq'
      · exact .inr ⟨v, j, hj, view_update_of_view (by rw [hold.reads]; nofun) hv⟩
  · simp only [hw']
    exact hinv.one_writer
  · obtain ⟨hlt', hret⟩ := hinv.taken b out hmem
    exact ⟨hlt'.trans (Nat.lt_succ_self _), hret⟩
  · have hb : b < m.q.head + 1 := hb
    show b ∈ m.taken.map Prod.fst ↔ _
    by_cases hbt : b = m.q.head
    · subst hbt
      refine ⟨fun hmem => ?_, fun h => absurd ⟨t, by rw [update_self, hpc.2.2]⟩ h⟩
      obtain ⟨⟨k, out⟩, hmem, rfl⟩ := mem_map.mp hmem
      exact absurd (hinv.taken _ out hmem).1 (lt_irrefl _)
    · rw [hinv.looked b (by omega)]
      exact not_congr (exists_congr fun v =>
        ⟨view_update_of_view (by rw [hold.awaits]; nofun),
          view_of_update (by rw [hpc.2.2]; exact fun h => hbt (Option.some.inj h).symm)⟩)

/-- A pop looks into the slot of the ticket it has taken. -/
theorem logTaken (hinv : RingInv m pc) {k : ℕ} {out : Option Buffer}
    (hawaits : (pc t).awaits = some k) (hret : m.Returns k out)
    (hpc : p.writes = (pc t).writes ∧ p.reads = (pc t).reads ∧ p.awaits = none)
    (hfact : m.PcFact p) :
    RingInv (m.logTaken k out) (update pc t p) := by
  have hsame : SameRing m (m.logTaken k out) := ⟨rfl, rfl, rfl, rfl, rfl⟩
  have hw' : ∀ u, (update pc t p u).writes = (pc u).writes := view_update hpc.1
  have hr' : ∀ u, (update pc t p u).reads = (pc u).reads := view_update hpc.2.1
  have hread : (pc t).reads = some k := QueuePc.reads_of_awaits hawaits
  have hlt : k < m.q.head := ((hinv.fact t).reading hread).lt_head
  have hnew : k ∉ m.taken.map Prod.fst := by
    rw [hinv.looked k hlt]
    exact not_not.mpr ⟨t, hawaits⟩
  refine ⟨hinv.head_le, hinv.tail_le, hinv.limit, hinv.claimed, ?_, ?_, ?_, ?_,
    (forall_update_iff pc fun _ => QueueMemory.PcFact _).mpr
      ⟨hsame.pcFact hfact, fun u _ => hsame.pcFact (hinv.fact u)⟩,
    fun b o hmem => ?_, ?_, fun b hb => ?_⟩
  · simp only [hw']
    exact hinv.produced
  · simp only [hr']
    exact hinv.freed
  · simp only [hw']
    exact hinv.one_writer
  · simp only [hr']
    exact hinv.one_reader
  · rcases mem_append.mp hmem with hmem | hmem
    · exact hinv.taken b o hmem
    · obtain ⟨rfl, rfl⟩ := Prod.mk.inj (mem_singleton.mp hmem)
      exact ⟨hlt, hret⟩
  · show ((m.taken ++ [(k, out)]).map Prod.fst).Nodup
    rw [map_append, nodup_append]
    refine ⟨hinv.taken_once, by simp, ?_⟩
    rintro a ha b hb rfl
    obtain rfl : a = k := by simpa using hb
    exact hnew ha
  · show b ∈ (m.taken ++ [(k, out)]).map Prod.fst ↔ _
    by_cases hbk : b = k
    · subst hbk
      refine ⟨fun _ ⟨v, hv⟩ => ?_, fun _ => by simp⟩
      by_cases hvt : v = t
      · rw [hvt, update_self, hpc.2.2] at hv
        cases hv
      · rw [update_of_ne hvt] at hv
        exact hvt (hinv.one_reader v t b (QueuePc.reads_of_awaits hv) hread)
    · have hmem : b ∈ (m.taken ++ [(k, out)]).map Prod.fst ↔ b ∈ m.taken.map Prod.fst := by
        simp [hbk]
      rw [hmem, hinv.looked b hb]
      exact not_congr (exists_congr fun v =>
        ⟨view_update_of_view (by rw [hawaits]; exact fun h => hbk (Option.some.inj h).symm),
          view_of_update (by rw [hpc.2.2]; nofun)⟩)

end RingInv

/-! ## The check for room -/

/-- What a check has established when it goes on or answers. -/
def QueueMemory.OutcomeFact (m : QueueMemory ι) (pos : ℕ) : FullPc.Outcome → Prop
  | .inl full => m.FullFact pos full
  | .inr true => True
  | .inr false => m.CountPassed pos

/-- Past the limits on buffers and bytes, within the duration. -/
def FullPc.late : FullPc → Bool
  | .sizeHead => false
  | .sizeTail _ => false
  | .bytes => false
  | _ => true

/-- The check goes on within the duration, or has its answer. -/
def FullPc.Outcome.Late : FullPc.Outcome → Prop
  | .inl full => full.late = true
  | .inr _ => True

namespace FullPc

variable (q : Queue)

theorem afterBytes_late : (afterBytes q).Late := by
  unfold afterBytes
  split
  · rfl
  · trivial

theorem startSum_late (head tail : ℕ) : (startSum q head tail).Late := by
  unfold startSum
  split
  · rfl
  · trivial

theorem decideSpan_late (head tail : ℕ) (headPts tailPts : Option ℕ) :
    (decideSpan q head tail headPts tailPts).Late := by
  unfold decideSpan
  split
  · split
    · trivial
    · exact startSum_late q head tail
  · exact startSum_late q head tail

theorem enterScanTail_late (head tail first : ℕ) (headPts : Option ℕ) (idx : ℕ) :
    (enterScanTail q head tail first headPts idx).Late := by
  unfold enterScanTail
  split
  · rfl
  · exact decideSpan_late ..

theorem enterScanHead_late (head tail idx : ℕ) : (enterScanHead q head tail idx).Late := by
  unfold enterScanHead
  split
  · rfl
  · exact enterScanTail_late ..

theorem nextSum_late (head tail idx acc : ℕ) : (nextSum q head tail idx acc).Late := by
  unfold nextSum
  split
  · rfl
  · trivial

/-- The part about the duration is never left again. -/
theorem step_late {full : FullPc} (hlate : full.late = true) : (full.step q).Late := by
  cases full with
  | sizeHead | sizeTail head | bytes => cases hlate
  | durationHead => rfl
  | durationTail head =>
      simp only [step]
      split
      · trivial
      · exact enterScanHead_late ..
  | scanHead head tail idx =>
      simp only [step]
      split
      · rfl
      · exact enterScanHead_late ..
  | scanHeadPts head tail idx => exact enterScanTail_late ..
  | scanTail head tail first headPts idx =>
      simp only [step]
      split
      · rfl
      · split
        · exact decideSpan_late ..
        · exact enterScanTail_late ..
  | scanTailPts head tail headPts idx => exact decideSpan_late ..
  | sum head tail idx acc =>
      simp only [step]
      split
      · rfl
      · exact nextSum_late ..
  | sumDuration head tail idx acc => exact nextSum_late ..

end FullPc

section Check

variable {m : QueueMemory ι} {pos : ℕ}

theorem outcomeFact_of_late {out : FullPc.Outcome} (hlate : out.Late)
    (hpassed : m.CountPassed pos) : m.OutcomeFact pos out := by
  cases out with
  | inl full => cases full <;> first | exact hpassed | cases hlate
  | inr answer =>
      cases answer with
      | false => exact hpassed
      | true => trivial

theorem outcomeFact_afterSize (hpassed : m.CountPassed pos) :
    m.OutcomeFact pos (FullPc.afterSize m.q) := by
  unfold FullPc.afterSize
  split
  · exact hpassed
  · exact outcomeFact_of_late (FullPc.afterBytes_late m.q) hpassed

theorem outcomeFact_start : m.OutcomeFact pos (FullPc.start m.q) := by
  unfold FullPc.start
  split
  · trivial
  case isFalse hzero =>
    exact outcomeFact_afterSize fun _ hpos => absurd hpos hzero

/-- The size a push computes is exact as long as its position is still the tail. -/
theorem countPassed_of_size {head : ℕ} (hfull : m.FullFact pos (.sizeTail head))
    (hsmall : ¬ sizeBetween head m.q.tail ≥ m.q.cfg.maxBuffers) : m.CountPassed pos := by
  obtain ⟨hle, hwindow⟩ := hfull
  intro htail hpos
  have hcap := m.q.cfg.capacity_le
  have hnear := hwindow htail
  rw [sizeBetween_eq (by omega)] at hsmall
  omega

theorem outcomeFact_step (hcand : m.Candidate pos) {full : FullPc} (hfull : m.FullFact pos full) :
    m.OutcomeFact pos (full.step m.q) := by
  cases full with
  | sizeHead =>
      refine ⟨le_rfl, fun htail => ?_⟩
      have := (hcand.free htail).2
      omega
  | sizeTail head =>
      simp only [FullPc.step]
      split
      · trivial
      case isFalse hsmall => exact outcomeFact_afterSize (countPassed_of_size hfull hsmall)
  | bytes =>
      simp only [FullPc.step]
      split
      · trivial
      · exact outcomeFact_of_late (FullPc.afterBytes_late m.q) hfull
  | _ => exact outcomeFact_of_late (FullPc.step_late m.q rfl) hfull

end Check

/-! ## Every step -/

namespace RingInv

variable {m m' : QueueMemory ι} {pc : ι → QueuePc} {t : ι} {p : QueuePc}

/-- A push that finds its slot free may go for the tail. -/
theorem candidate_of_free (hinv : RingInv m pc) {pos : ℕ} (hle : pos ≤ m.q.tail)
    (hseq : (m.q.slot pos).sequence = pos) : m.Candidate pos := by
  refine ⟨hle, fun htail => ⟨hseq, ?_⟩⟩
  by_contra hfull
  -- In a full ring the slot of the tail is the slot of the head, one turn behind.
  have htwo := m.q.cfg.two_le_capacity
  have hwindow := hinv.tail_le
  obtain rfl : pos = m.q.head + m.q.cfg.capacity := by omega
  rw [Queue.slot_add_capacity] at hseq
  rcases hinv.produced m.q.head le_rfl (by omega) with ⟨v, hv⟩ | ⟨buf, -, hslot⟩
  · obtain ⟨buf, hwriting⟩ := (hinv.fact v).writing hv
    have := hwriting.sequence
    omega
  · rw [hslot, publishedSlot] at hseq
    dsimp only at hseq
    omega

/-- A pop that finds the oldest slot published may go for the head. -/
theorem lt_tail_of_published (hinv : RingInv m pc)
    (hseq : (m.q.slot m.q.head).sequence = m.q.head + 1) : m.q.head < m.q.tail := by
  by_contra hempty
  have hle := hinv.head_le
  have hpos := m.q.cfg.capacity_pos
  have htwo := m.q.cfg.two_le_capacity
  rcases hinv.freed m.q.head (by omega) (by omega) with hfree | ⟨v, j, hj, hv⟩
  · omega
  · have hread := hinv.reading_slot hv
    rw [hj, hseq] at hread
    have := ((hinv.fact v).reading hv).lt_head
    omega

theorem acquire_eq {out : QueueMemory ι × QueuePc} {f : QueueMemory ι → QueueMemory ι × QueuePc}
    (hacquire : (m.acquire t).map f = some out) :
    m.lock = none ∧ f { m with lock := some t } = out := by
  unfold QueueMemory.acquire at hacquire
  split at hacquire
  case isTrue hfree =>
    exact ⟨Option.isNone_iff_eq_none.mp hfree, Option.some.inj hacquire⟩
  case isFalse => cases hacquire

theorem checked_fact {buf : Buffer} {timeout : Timeout} {pos : ℕ} {out : FullPc.Outcome}
    (hcand : m.Candidate pos) (hout : m.OutcomeFact pos out) :
    m.PcFact (PushPc.checked m.q.cfg buf timeout pos out) ∧
      (PushPc.checked m.q.cfg buf timeout pos out).Alike .idle := by
  cases out with
  | inl full => exact ⟨⟨hcand, hout⟩, rfl, rfl, rfl⟩
  | inr answer =>
      cases answer with
      | false => exact ⟨⟨hcand, fun _ => hout⟩, rfl, rfl, rfl⟩
      | true =>
          simp only [PushPc.checked]
          split
          · exact ⟨trivial, rfl, rfl, rfl⟩
          · exact ⟨hcand.le, rfl, rfl, rfl⟩

theorem rechecked_fact {buf : Buffer} {timeout : Timeout} {pos : ℕ} (hle : pos ≤ m.q.tail)
    (out : FullPc.Outcome) :
    m.PcFact (PushPc.rechecked buf timeout pos out) ∧
      (PushPc.rechecked buf timeout pos out).Alike .idle := by
  cases out with
  | inl full => exact ⟨hle, rfl, rfl, rfl⟩
  | inr answer =>
      cases answer with
      | false => exact ⟨trivial, rfl, rfl, rfl⟩
      | true => exact ⟨hle, rfl, rfl, rfl⟩

variable [DecidableEq ι]

theorem push_step (hinv : RingInv m pc) {buf : Buffer} {timeout : Timeout} {ppc : PushPc}
    (hpc : pc t = .push buf timeout ppc) (hstep : ppc.step m t buf timeout = some (m', p)) :
    RingInv m' (update pc t p) := by
  have hfact := hinv.fact t
  rw [hpc] at hfact
  have hquiet : ∀ {m' p}, SameRing m m' → m'.taken = m.taken → m.PcFact p →
      p.Alike (.push buf timeout ppc) → RingInv m' (update pc t p) :=
    fun hsame htaken hfact halike => hinv.silent hsame htaken hfact (hpc ▸ halike)
  have hstore : ∀ {pos p} (f : Slot → Slot), (QueuePc.push buf timeout ppc).writes = some pos →
      m.Writing pos buf → (∀ slot, (f slot).sequence = slot.sequence) →
      ((m.setSlot pos f).Writing pos buf → (m.setSlot pos f).q.slot pos = f (m.q.slot pos) →
        (m.setSlot pos f).PcFact p) →
      p.Alike (.push buf timeout ppc) → RingInv (m.setSlot pos f) (update pc t p) := by
    intro pos p f hwrites hwriting hseq hnew halike
    have hself := Queue.slot_setSlot_self m.q pos f
    refine hinv.store (.inl (by rw [hpc, hwrites])) rfl hseq (hnew ⟨hwriting.claimed,
      hwriting.head_le, hwriting.lt_tail, ?_⟩ hself) (hpc ▸ halike)
    rw [QueueMemory.setSlot, hself, hseq, hwriting.sequence]
  have hrefl : SameRing m m := ⟨rfl, rfl, rfl, rfl, rfl⟩
  cases ppc with
  | loadTail =>
      cases hstep
      exact hquiet hrefl rfl (le_refl m.q.tail) ⟨rfl, rfl, rfl⟩
  | loadSequence pos =>
      have hle : pos ≤ m.q.tail := hfact
      simp only [PushPc.step] at hstep
      split at hstep
      case isTrue hzero =>
        have hcand := hinv.candidate_of_free hle (by omega)
        split at hstep
        case isTrue hextra =>
          cases hstep
          obtain ⟨hnew, hviews⟩ := checked_fact hcand outcomeFact_start
          exact hquiet hrefl rfl hnew ⟨hviews.writes, hviews.reads, hviews.awaits⟩
        case isFalse hextra =>
          cases hstep
          exact hquiet hrefl rfl ⟨hcand, fun h => absurd h hextra⟩ ⟨rfl, rfl, rfl⟩
      case isFalse =>
        split at hstep
        · split at hstep
          · cases hstep
            exact hquiet hrefl rfl trivial ⟨rfl, rfl, rfl⟩
          · cases hstep
            exact hquiet hrefl rfl hle ⟨rfl, rfl, rfl⟩
        · cases hstep
          exact hquiet hrefl rfl trivial ⟨rfl, rfl, rfl⟩
  | checkFull pos full =>
      cases hstep
      obtain ⟨hnew, hviews⟩ := checked_fact hfact.1 (outcomeFact_step hfact.1 hfact.2)
      exact hquiet hrefl rfl hnew ⟨hviews.writes, hviews.reads, hviews.awaits⟩
  | swapTail pos =>
      simp only [PushPc.step] at hstep
      split at hstep
      case isTrue htail =>
        cases hstep
        subst htail
        exact hinv.claimTail hfact.1 hfact.2 ⟨rfl, rfl, rfl⟩ (hpc ▸ ⟨rfl, rfl, rfl⟩) fun hwriting =>
          hwriting
      case isFalse =>
        cases hstep
        exact hquiet hrefl rfl (le_refl m.q.tail) ⟨rfl, rfl, rfl⟩
  | storePts pos =>
      cases hstep
      exact hstore _ rfl hfact (fun _ => rfl) (fun hwriting hslot => ⟨hwriting, by rw [hslot]⟩)
        ⟨rfl, rfl, rfl⟩
  | storeDuration pos =>
      cases hstep
      exact hstore _ rfl hfact.1 (fun _ => rfl)
        (fun hwriting hslot => ⟨hwriting, by rw [hslot]; exact ⟨hfact.2, rfl⟩⟩) ⟨rfl, rfl, rfl⟩
  | storeBuf pos =>
      cases hstep
      exact hstore _ rfl hfact.1 (fun _ => rfl) (fun hwriting hslot =>
        ⟨hwriting, by rw [hslot]; exact ⟨hfact.2.1, hfact.2.2, rfl⟩⟩) ⟨rfl, rfl, rfl⟩
  | addBytes pos =>
      cases hstep
      exact hquiet ⟨rfl, rfl, rfl, rfl, rfl⟩ rfl hfact ⟨rfl, rfl, rfl⟩
  | publish pos =>
      cases hstep
      obtain ⟨hwriting, hslot⟩ := hfact
      exact hinv.publish (by rw [hpc]; rfl) hwriting hslot ⟨rfl, rfl, rfl⟩ (by rw [hpc]; rfl)
        (by rw [hpc]; rfl) trivial
  | loadWaiters pos =>
      simp only [PushPc.step] at hstep
      split at hstep
      · cases hstep
        exact hquiet hrefl rfl trivial ⟨rfl, rfl, rfl⟩
      · cases hstep
        exact hquiet hrefl rfl trivial ⟨rfl, rfl, rfl⟩
  | lockSignal pos =>
      cases (acquire_eq hstep).2
      exact hquiet ⟨rfl, rfl, rfl, rfl, rfl⟩ rfl trivial ⟨rfl, rfl, rfl⟩
  | signal pos => cases hstep
  | unlockSignal =>
      cases hstep
      exact hquiet ⟨rfl, rfl, rfl, rfl, rfl⟩ rfl trivial ⟨rfl, rfl, rfl⟩
  | addWaiter kind pos =>
      cases hstep
      exact hquiet ⟨rfl, rfl, rfl, rfl, rfl⟩ rfl hfact ⟨rfl, rfl, rfl⟩
  | lock kind pos =>
      cases kind with
      | ring =>
          cases (acquire_eq hstep).2
          exact hquiet ⟨rfl, rfl, rfl, rfl, rfl⟩ rfl hfact ⟨rfl, rfl, rfl⟩
      | limits =>
          cases (acquire_eq hstep).2
          obtain ⟨hnew, hviews⟩ := rechecked_fact hfact (FullPc.start m.q)
          exact hquiet ⟨rfl, rfl, rfl, rfl, rfl⟩ rfl hnew
            ⟨hviews.writes, hviews.reads, hviews.awaits⟩
  | recheckSequence pos =>
      simp only [PushPc.step] at hstep
      split at hstep
      · cases hstep
        exact hquiet hrefl rfl hfact ⟨rfl, rfl, rfl⟩
      · cases hstep
        exact hquiet hrefl rfl trivial ⟨rfl, rfl, rfl⟩
  | recheckFull pos full =>
      cases hstep
      obtain ⟨hnew, hviews⟩ := rechecked_fact hfact (full.step m.q)
      exact hquiet hrefl rfl hnew ⟨hviews.writes, hviews.reads, hviews.awaits⟩
  | wait kind pos =>
      cases hstep
      exact hquiet ⟨rfl, rfl, rfl, rfl, rfl⟩ rfl trivial ⟨rfl, rfl, rfl⟩
  | blocked => cases hstep
  | wake timedOut =>
      cases (acquire_eq hstep).2
      exact hquiet ⟨rfl, rfl, rfl, rfl, rfl⟩ rfl trivial ⟨rfl, rfl, rfl⟩
  | unlock timedOut =>
      cases hstep
      exact hquiet ⟨rfl, rfl, rfl, rfl, rfl⟩ rfl trivial ⟨rfl, rfl, rfl⟩
  | subWaiter timedOut =>
      cases hstep
      cases timedOut <;> exact hquiet ⟨rfl, rfl, rfl, rfl, rfl⟩ rfl trivial ⟨rfl, rfl, rfl⟩

omit [DecidableEq ι] in
/-- Emptying a field of a slot leaves the sequence number and the tickets alone. -/
theorem reset_fact {pos : ℕ} {out : Option Buffer} {f : Slot → Slot}
    (hfact : m.Reading pos ∧ m.Returns pos out)
    (hseq : ∀ slot, (f slot).sequence = slot.sequence) :
    (m.setSlot pos f).Reading pos ∧ (m.setSlot pos f).Returns pos out := by
  obtain ⟨hread, hret⟩ := hfact
  refine ⟨⟨hread.lt_head, hread.tail_le, ?_⟩, hret⟩
  rw [QueueMemory.setSlot, Queue.slot_setSlot_self, hseq]
  exact hread.sequence

theorem pop_step (hinv : RingInv m pc) {timeout : Timeout} {ppc : PopPc}
    (hpc : pc t = .pop timeout ppc) (hstep : ppc.step m t timeout = some (m', p)) :
    RingInv m' (update pc t p) := by
  have hfact := hinv.fact t
  rw [hpc] at hfact
  have hquiet : ∀ {m' p}, SameRing m m' → m'.taken = m.taken → m.PcFact p →
      p.Alike (.pop timeout ppc) → RingInv m' (update pc t p) :=
    fun hsame htaken hfact halike => hinv.silent hsame htaken hfact (hpc ▸ halike)
  have hreset : ∀ {pos out p} (f : Slot → Slot), (QueuePc.pop timeout ppc).reads = some pos →
      m.Reading pos ∧ m.Returns pos out → (∀ slot, (f slot).sequence = slot.sequence) →
      ((m.setSlot pos f).Reading pos ∧ (m.setSlot pos f).Returns pos out →
        (m.setSlot pos f).PcFact p) →
      p.Alike (.pop timeout ppc) → RingInv (m.setSlot pos f) (update pc t p) := by
    intro pos out p f hreads hold hseq hnew halike
    have hmod : pos % m.q.cfg.capacity = (pos + m.q.cfg.capacity) % m.q.cfg.capacity := by simp
    exact hinv.store (.inr ⟨pos, by rw [hpc, hreads], rfl⟩) hmod hseq
      (hnew (reset_fact hold hseq)) (hpc ▸ halike)
  have hrefl : SameRing m m := ⟨rfl, rfl, rfl, rfl, rfl⟩
  cases ppc with
  | loadHead =>
      cases hstep
      exact hquiet hrefl rfl (le_refl m.q.head) ⟨rfl, rfl, rfl⟩
  | loadSequence pos =>
      have hle : pos ≤ m.q.head := hfact
      simp only [PopPc.step] at hstep
      split at hstep
      case isTrue hzero =>
        cases hstep
        refine hquiet hrefl rfl ⟨hle, fun hhead => ?_⟩ ⟨rfl, rfl, rfl⟩
        subst hhead
        have hseq : (m.q.slot m.q.head).sequence = m.q.head + 1 := by omega
        exact ⟨hseq, hinv.lt_tail_of_published hseq⟩
      case isFalse =>
        split at hstep
        · split at hstep
          · cases hstep
            exact hquiet hrefl rfl trivial ⟨rfl, rfl, rfl⟩
          · cases hstep
            exact hquiet hrefl rfl hle ⟨rfl, rfl, rfl⟩
        · cases hstep
          exact hquiet hrefl rfl trivial ⟨rfl, rfl, rfl⟩
  | swapHead pos =>
      simp only [PopPc.step] at hstep
      split at hstep
      case isTrue hhead =>
        cases hstep
        subst hhead
        obtain ⟨hseq, hlt⟩ := hfact.2 rfl
        exact hinv.claimHead hseq hlt ⟨rfl, rfl, rfl⟩ (hpc ▸ ⟨rfl, rfl, rfl⟩) fun hread hpub =>
          ⟨hread, hpub⟩
      case isFalse =>
        cases hstep
        exact hquiet hrefl rfl (le_refl m.q.head) ⟨rfl, rfl, rfl⟩
  | loadBuf pos =>
      obtain ⟨hread, buf, hclaimed, hslot⟩ := hfact
      have hbuf : (m.q.slot pos).buf = some buf := by
        rw [hslot]
        rfl
      simp only [PopPc.step, hbuf] at hstep
      cases hstep
      have hret : m.Returns pos (some buf) := ⟨buf, rfl, hclaimed⟩
      refine hinv.logTaken (by rw [hpc]; rfl) hret ?_ ⟨hread, hret⟩
      rw [hpc]
      exact ⟨rfl, rfl, rfl⟩
  | subBytes pos buf =>
      cases hstep
      exact hquiet ⟨rfl, rfl, rfl, rfl, rfl⟩ rfl hfact ⟨rfl, rfl, rfl⟩
  | resetPts pos out =>
      cases hstep
      exact hreset _ rfl hfact (fun _ => rfl) (fun h => h) ⟨rfl, rfl, rfl⟩
  | resetDuration pos out =>
      cases hstep
      exact hreset _ rfl hfact (fun _ => rfl) (fun h => h) ⟨rfl, rfl, rfl⟩
  | resetBuf pos out =>
      cases hstep
      exact hreset _ rfl hfact (fun _ => rfl) (fun h => h) ⟨rfl, rfl, rfl⟩
  | release pos out =>
      cases hstep
      exact hinv.release (by rw [hpc]; rfl) ⟨rfl, rfl, rfl⟩ (by rw [hpc]; rfl) (by rw [hpc]; rfl)
        hfact.2
  | loadWaiters pos out =>
      simp only [PopPc.step] at hstep
      split at hstep
      · cases hstep
        exact hquiet hrefl rfl hfact ⟨rfl, rfl, rfl⟩
      · cases hstep
        exact hquiet hrefl rfl trivial ⟨rfl, rfl, rfl⟩
  | lockSignal pos out =>
      cases (acquire_eq hstep).2
      exact hquiet ⟨rfl, rfl, rfl, rfl, rfl⟩ rfl hfact ⟨rfl, rfl, rfl⟩
  | signal pos out => cases hstep
  | unlockSignal out =>
      cases hstep
      exact hquiet ⟨rfl, rfl, rfl, rfl, rfl⟩ rfl trivial ⟨rfl, rfl, rfl⟩
  | addWaiter pos =>
      cases hstep
      exact hquiet ⟨rfl, rfl, rfl, rfl, rfl⟩ rfl hfact ⟨rfl, rfl, rfl⟩
  | lock pos =>
      cases (acquire_eq hstep).2
      exact hquiet ⟨rfl, rfl, rfl, rfl, rfl⟩ rfl hfact ⟨rfl, rfl, rfl⟩
  | recheckSequence pos =>
      simp only [PopPc.step] at hstep
      split at hstep
      · cases hstep
        exact hquiet hrefl rfl hfact ⟨rfl, rfl, rfl⟩
      · cases hstep
        exact hquiet hrefl rfl trivial ⟨rfl, rfl, rfl⟩
  | wait pos =>
      cases hstep
      exact hquiet ⟨rfl, rfl, rfl, rfl, rfl⟩ rfl trivial ⟨rfl, rfl, rfl⟩
  | blocked => cases hstep
  | wake timedOut =>
      cases (acquire_eq hstep).2
      exact hquiet ⟨rfl, rfl, rfl, rfl, rfl⟩ rfl trivial ⟨rfl, rfl, rfl⟩
  | unlock timedOut =>
      cases hstep
      exact hquiet ⟨rfl, rfl, rfl, rfl, rfl⟩ rfl trivial ⟨rfl, rfl, rfl⟩
  | subWaiter timedOut =>
      cases hstep
      cases timedOut <;> exact hquiet ⟨rfl, rfl, rfl, rfl, rfl⟩ rfl trivial ⟨rfl, rfl, rfl⟩

/-- A step of one thread that touches no other thread. -/
theorem pc_step (hinv : RingInv m pc) {choice : QueueChoice ι}
    (hstep : (pc t).step m t choice = some (m', p)) : RingInv m' (update pc t p) := by
  have hquiet : ∀ {p}, m.PcFact p → p.Alike (pc t) → RingInv m (update pc t p) :=
    fun hfact halike => hinv.silent ⟨rfl, rfl, rfl, rfl, rfl⟩ rfl hfact halike
  generalize hpc : pc t = old at hstep hquiet
  unfold QueuePc.step at hstep
  split at hstep
  · cases hstep
    exact hquiet trivial ⟨rfl, rfl, rfl⟩
  · cases hstep
    exact hquiet trivial ⟨rfl, rfl, rfl⟩
  · exact hinv.push_step hpc hstep
  · exact hinv.pop_step hpc hstep
  · cases hstep
    exact hquiet (le_refl m.q.tail) ⟨rfl, rfl, rfl⟩
  · cases hstep
    exact hquiet (le_refl m.q.head) ⟨rfl, rfl, rfl⟩
  · cases hstep
    exact hquiet trivial ⟨rfl, rfl, rfl⟩
  · cases hstep
    exact hquiet trivial ⟨rfl, rfl, rfl⟩
  · cases hstep
    exact hquiet trivial ⟨rfl, rfl, rfl⟩
  · cases hstep
    exact hquiet trivial ⟨rfl, rfl, rfl⟩
  · cases hstep

/-- The moves of a signal change nothing the invariant looks at. -/
theorem signalMove (hinv : RingInv m pc) (hmove : SignalMove (pc t) p) :
    RingInv m (update pc t p) := by
  refine hinv.silent ⟨rfl, rfl, rfl, rfl, rfl⟩ rfl ?_ ?_
  all_goals
    generalize pc t = old at hmove
    cases hmove <;> first | trivial | exact ⟨rfl, rfl, rfl⟩

variable [Fintype ι] {s s' : QueueState ι}

/-- Every step of the system keeps the invariant. -/
theorem next (hinv : RingInv s.mem s.pc) {choice : QueueChoice ι}
    (hnext : s.next (t, choice) = some s') : RingInv s'.mem s'.pc := by
  rcases QueueState.next_cases hnext with hsignal | ⟨m', p, hstep, rfl⟩
  · exact hsignal.invariant (P := RingInv) hinv fun _ _ _ h hmove => h.signalMove hmove
  · exact hinv.pc_step hstep

omit [DecidableEq ι] [Fintype ι] in
theorem initial (cfg : QueueConfig) :
    RingInv (⟨Queue.create cfg, none, 0, 0, [], []⟩ : QueueMemory ι) fun _ => .idle := by
  refine ⟨le_rfl, Nat.zero_le _, fun _ _ => Nat.zero_le _, rfl, fun k _ hk => ?_,
    fun k _ hk => .inl ?_, ?_, ?_, fun _ => trivial, ?_, nodup_nil, ?_⟩
  · exact absurd hk (Nat.not_lt_zero k)
  · have hlt : k < cfg.capacity := by simpa [Queue.create] using hk
    have hmod : k % cfg.capacity = k := Nat.mod_eq_of_lt hlt
    show (cfg.ringMask k) = k
    rw [cfg.ringMask_eq_mod, hmod]
  · intro t u k hk
    cases hk
  · intro t u k hk
    cases hk
  · intro k out hmem
    cases hmem
  · intro k hk
    exact absurd hk (Nat.not_lt_zero k)

/-- The invariant holds in every reachable state. -/
theorem reachable {cfg : QueueConfig} (hreach : (queueSystem ι cfg).Reachable s) :
    RingInv s.mem s.pc := by
  refine System.ReachableVia.invariant (I := fun s => RingInv s.mem s.pc) ?_ ?_ hreach
  · rintro s rfl
    exact initial cfg
  · rintro s ⟨t, choice⟩ s' - hinv - hnext
    exact hinv.next hnext

end RingInv

/-! ## The configuration never changes -/

section Config

variable {m m' : QueueMemory ι} {t : ι} {p : QueuePc}

theorem PushPc.step_cfg {buf : Buffer} {timeout : Timeout} {ppc : PushPc}
    (hstep : ppc.step m t buf timeout = some (m', p)) : m'.q.cfg = m.q.cfg := by
  cases ppc with
  | lock kind pos =>
      cases kind with
      | ring =>
          cases (RingInv.acquire_eq hstep).2
          rfl
      | limits =>
          cases (RingInv.acquire_eq hstep).2
          rfl
  | lockSignal | wake =>
      cases (RingInv.acquire_eq hstep).2
      rfl
  | _ =>
      simp only [PushPc.step] at hstep
      repeat' split at hstep
      all_goals first | cases hstep; rfl | cases hstep

theorem PopPc.step_cfg {timeout : Timeout} {ppc : PopPc}
    (hstep : ppc.step m t timeout = some (m', p)) : m'.q.cfg = m.q.cfg := by
  cases ppc with
  | lock | lockSignal | wake =>
      cases (RingInv.acquire_eq hstep).2
      rfl
  | _ =>
      simp only [PopPc.step] at hstep
      repeat' split at hstep
      all_goals first | cases hstep; rfl | cases hstep

theorem QueuePc.step_cfg {pc : QueuePc} {choice : QueueChoice ι}
    (hstep : pc.step m t choice = some (m', p)) : m'.q.cfg = m.q.cfg := by
  unfold QueuePc.step at hstep
  split at hstep
  case h_3 => exact PushPc.step_cfg hstep
  case h_4 => exact PopPc.step_cfg hstep
  all_goals
    cases hstep
    try rfl

variable [Fintype ι] [DecidableEq ι] {s s' : QueueState ι}

theorem QueueState.reachable_cfg {cfg : QueueConfig}
    (hreach : (queueSystem ι cfg).Reachable s) : s.mem.q.cfg = cfg := by
  refine System.ReachableVia.invariant (I := fun s => s.mem.q.cfg = cfg) ?_ ?_ hreach
  · rintro s rfl
    rfl
  · rintro s ⟨t, choice⟩ s' - hcfg - hnext
    rcases QueueState.next_cases hnext with hsignal | ⟨m', p, hstep, rfl⟩
    · exact hsignal.invariant (P := fun m _ => m.q.cfg = cfg) hcfg fun _ _ _ h _ => h
    · exact (QueuePc.step_cfg hstep).trans hcfg

end Config

/-! ## The phases of a slot -/

inductive SlotPhase
  | free
  | writing
  | published
  | reading
  deriving DecidableEq, Repr

/-- The slot of ticket `k` is in the given phase for `k`.  The sequence number and the
two counters decide the phase; the rest says who owns the slot in it. -/
def QueueState.InPhase (s : QueueState ι) (k : ℕ) : SlotPhase → Prop
  | .free => (s.mem.q.slot k).sequence = k ∧ s.mem.q.tail ≤ k ∧
      k < s.mem.q.head + s.mem.q.cfg.capacity ∧
      ∀ t, (s.pc t).writes ≠ some k ∧ ∀ j, (s.pc t).reads = some j → j + s.mem.q.cfg.capacity ≠ k
  | .writing => (s.mem.q.slot k).sequence = k ∧ s.mem.q.head ≤ k ∧ k < s.mem.q.tail ∧
      ∃! t, (s.pc t).writes = some k
  | .published => (s.mem.q.slot k).sequence = k + 1 ∧ s.mem.q.head ≤ k ∧ k < s.mem.q.tail ∧
      s.mem.Published k ∧ ∀ t, (s.pc t).writes ≠ some k
  | .reading => (s.mem.q.slot k).sequence = k + 1 ∧ k < s.mem.q.head ∧
      s.mem.q.tail ≤ k + s.mem.q.cfg.capacity ∧ ∃! t, (s.pc t).reads = some k

section Phases

variable {s : QueueState ι}

/-- Every position of the window names a ticket and the phase of its slot. -/
theorem RingInv.exists_phase (hinv : RingInv s.mem s.pc) {k : ℕ} (hk : s.mem.q.head ≤ k)
    (hk' : k < s.mem.q.head + s.mem.q.cfg.capacity) :
    ∃ j phase, j % s.mem.q.cfg.capacity = k % s.mem.q.cfg.capacity ∧ s.InPhase j phase := by
  have htwo := s.mem.q.cfg.two_le_capacity
  by_cases htail : k < s.mem.q.tail
  · rcases hinv.produced k hk htail with ⟨t, ht⟩ | ⟨buf, hclaimed, hslot⟩
    · obtain ⟨buf, hwriting⟩ := (hinv.fact t).writing ht
      exact ⟨k, .writing, rfl, hwriting.sequence, hk, htail, t, ht,
        fun u hu => hinv.one_writer u t k hu ht⟩
    · have hseq : (s.mem.q.slot k).sequence = k + 1 := by
        rw [hslot]
        rfl
      refine ⟨k, .published, rfl, hseq, hk, htail, ⟨buf, hclaimed, hslot⟩, fun t ht => ?_⟩
      obtain ⟨buf, hwriting⟩ := (hinv.fact t).writing ht
      have := hwriting.sequence
      omega
  · rcases hinv.freed k (not_lt.mp htail) hk' with hseq | ⟨t, j, rfl, ht⟩
    · refine ⟨k, .free, rfl, hseq, not_lt.mp htail, hk', fun t => ⟨fun ht => ?_, fun j hj heq => ?_⟩⟩
      · obtain ⟨buf, hwriting⟩ := (hinv.fact t).writing ht
        exact htail hwriting.lt_tail
      · have := hinv.reading_slot hj
        rw [heq, hseq] at this
        omega
    · have hread := (hinv.fact t).reading ht
      exact ⟨j, .reading, by simp, hread.sequence, hread.lt_head, hread.tail_le, t, ht,
        fun u hu => hinv.one_reader u t j hu ht⟩

/-- A slot is in one phase for one ticket. -/
theorem QueueState.InPhase.unique {j k : ℕ} {phase phase' : SlotPhase}
    (hmod : j % s.mem.q.cfg.capacity = k % s.mem.q.cfg.capacity) (hj : s.InPhase j phase)
    (hk : s.InPhase k phase') : j = k ∧ phase = phase' := by
  have htwo := s.mem.q.cfg.two_le_capacity
  have hslot : s.mem.q.slot j = s.mem.q.slot k := by
    rw [Queue.slot, Queue.slot, QueueConfig.ringMask_eq_mod, QueueConfig.ringMask_eq_mod, hmod]
  -- Sequence numbers of the two kinds differ in their residue.
  have happart : ∀ a, a % s.mem.q.cfg.capacity ≠ (a + 1) % s.mem.q.cfg.capacity :=
    fun a => mod_ne_of_window (by omega) (by omega)
  have hne : j ≠ k + 1 := fun h => happart k (by rw [← hmod, h])
  have hne' : k ≠ j + 1 := fun h => happart j (by rw [hmod, h])
  cases phase <;> cases phase' <;> obtain ⟨hseq, hlow, hhigh, -⟩ := hj <;>
    obtain ⟨hseq', hlow', hhigh', -⟩ := hk <;> rw [hslot] at hseq
  all_goals first
    | exact ⟨by omega, rfl⟩
    | omega

end Phases

/-- **The queue is a FIFO under any interleaving.**  In every reachable state of any
number of threads, whatever they push and pop and however they interleave:
the counters stay within the capacity and within `max_buffers`; every slot is free,
being written, published or being read for exactly one ticket, and for the second and
fourth of these by exactly one thread; there is one claimed buffer for each swap of the
tail; what the winner of a swap of the head found is the buffer of the swap of the tail
with the same number, and no ticket is looked at twice; a ticket below the head has
been looked at or its one winner is about to look into a slot that is completely
written. -/
theorem queue_fifo [Fintype ι] [DecidableEq ι] (cfg : QueueConfig) (hpos : 0 < cfg.maxBuffers)
    (hle : cfg.maxBuffers ≤ 2 ^ 31) :
    ∀ s, (queueSystem ι cfg).Reachable s →
      s.mem.q.head ≤ s.mem.q.tail ∧ s.mem.q.tail ≤ s.mem.q.head + cfg.capacity ∧
      s.mem.q.tail - s.mem.q.head ≤ cfg.maxBuffers ∧
      (∀ i < cfg.capacity, ∃! ticket : ℕ × SlotPhase,
        ticket.1 % cfg.capacity = i ∧ s.InPhase ticket.1 ticket.2) ∧
      s.mem.claimed.length = s.mem.q.tail ∧
      (∀ k out, (k, out) ∈ s.mem.taken → ∃ buf, out = some buf ∧ s.mem.claimed[k]? = some buf) ∧
      (s.mem.taken.map Prod.fst).Nodup ∧
      (∀ k < s.mem.q.head, k ∈ s.mem.taken.map Prod.fst ∨
        ((∃! t, (s.pc t).awaits = some k) ∧ s.mem.Published k)) := by
  intro s hreach
  have hinv := RingInv.reachable hreach
  have hcfg := QueueState.reachable_cfg hreach
  have hcap : s.mem.q.cfg.capacity = cfg.capacity := by rw [hcfg]
  have hcappos := cfg.capacity_pos
  have htail := hinv.tail_le
  have hlimit := hinv.limit
  rw [hcfg] at hlimit
  rw [hcap] at htail
  refine ⟨hinv.head_le, htail, ?_, fun i hi => ?_, hinv.claimed,
    fun k out hmem => (hinv.taken k out hmem).2, hinv.taken_once, fun k hk => ?_⟩
  · have := hlimit hpos hle
    omega
  · -- The position of the window whose slot is `i`.
    obtain ⟨k, hk, hk', hki⟩ : ∃ k, s.mem.q.head ≤ k ∧ k < s.mem.q.head + cfg.capacity ∧
        k % cfg.capacity = i := by
      have hdiv := Nat.div_add_mod s.mem.q.head cfg.capacity
      have hmod := Nat.mod_lt s.mem.q.head hcappos
      by_cases hbelow : s.mem.q.head % cfg.capacity ≤ i
      · refine ⟨cfg.capacity * (s.mem.q.head / cfg.capacity) + i, by omega, by omega, ?_⟩
        rw [Nat.mul_add_mod, Nat.mod_eq_of_lt hi]
      · refine ⟨cfg.capacity * (s.mem.q.head / cfg.capacity + 1) + i, ?_, ?_, ?_⟩
        · rw [Nat.mul_add, Nat.mul_one]
          omega
        · rw [Nat.mul_add, Nat.mul_one]
          omega
        · rw [Nat.mul_add_mod, Nat.mod_eq_of_lt hi]
    obtain ⟨j, phase, hmod, hphase⟩ := hinv.exists_phase hk (by rw [hcap]; exact hk')
    rw [hcap, hki] at hmod
    refine ⟨(j, phase), ⟨hmod, hphase⟩, ?_⟩
    rintro ⟨j', phase'⟩ ⟨hmod', hphase'⟩
    obtain ⟨rfl, rfl⟩ := hphase'.unique (by rw [hcap]; exact hmod'.trans hmod.symm) hphase
    rfl
  · by_cases hmem : k ∈ s.mem.taken.map Prod.fst
    · exact .inl hmem
    · obtain ⟨t, ht⟩ := not_not.mp (mt (hinv.looked k hk).mpr hmem)
      refine .inr ⟨⟨t, ht, fun u hu => ?_⟩, ?_⟩
      · exact hinv.one_reader u t k (QueuePc.reads_of_awaits hu) (QueuePc.reads_of_awaits ht)
      · have hfact := hinv.fact t
        generalize s.pc t = pc at ht hfact
        cases pc with
        | pop timeout ppc =>
            cases ppc with
            | loadBuf pos =>
                cases ht
                exact hfact.2
            | _ => cases ht
        | _ => cases ht

/-- One thread pushes a buffer into a queue of three, another takes it. -/
theorem queue_fifo_handover :
    let cfg : QueueConfig := ⟨.sync, 3, 0, 0⟩
    let buf : Buffer := ⟨7, 100, 5, 1⟩
    ∃ s : QueueState Bool, (queueSystem Bool cfg).Reachable s ∧
      s.mem.taken = [(0, some buf)] ∧ s.mem.claimed[0]? = some buf := by
  intro cfg buf
  let start : QueueState Bool := ⟨⟨Queue.create cfg, none, 0, 0, [], []⟩, fun _ => .idle⟩
  let actions : List (Bool × QueueChoice Bool) :=
    (false, .startPush buf .zero) :: replicate 11 (false, .run) ++
      (true, .startPop .zero) :: replicate 4 (true, .run)
  have hend : ((queueSystem Bool cfg).run start actions).map (fun s => s.mem.taken) =
      some [(0, some buf)] := by decide +kernel
  obtain ⟨s, hrun, htaken⟩ := Option.map_eq_some_iff.mp hend
  have hstart : (queueSystem Bool cfg).Reachable start := .start rfl
  have hreach := hstart.run hrun
  obtain ⟨-, -, -, -, -, hagree, -⟩ := queue_fifo cfg (by decide) (by decide) s hreach
  obtain ⟨buf', hbuf, hclaimed⟩ := hagree 0 (some buf) (by rw [htaken]; simp)
  refine ⟨s, hreach, htaken, ?_⟩
  rw [hclaimed, hbuf]

end Zstreamer

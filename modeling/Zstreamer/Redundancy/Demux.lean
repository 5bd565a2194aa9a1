/-
# The redundancy demuxer

`st2110_redundancy_demux.c` merges the two copies of a stream that arrive over a
primary and a backup link.  A packet is let through the first time its sequence
number is seen; a ring of 4096 flags remembers which were.  The same function
watches over the links: it notes when the primary last delivered, and goes over to
the backup when that is too long ago.

Both pads may push at once.  Everything up to the unlock is one step, the clock
read inside it included; the packet goes on to the source pad after the unlock, so
that is a step of its own.
-/

import Mathlib.Algebra.Ring.Nat
import Mathlib.Data.List.Count
import Zstreamer.Foundation.Runs
import Zstreamer.Foundation.Ticks

namespace Zstreamer.Redundancy

open Foundation

/-- The pad a packet comes in on. -/
inductive Link
  | primary
  | backup
  deriving DecidableEq, Repr

/-- What is posted on the bus of the element, where it has one. -/
inductive Event
  | redundancyFailover
  | redundancyRecovery
  deriving DecidableEq, Repr

/-- The memory of a `zst_buffer_t` and its flag `ZST_BUFFER_FLAG_EOS`. -/
structure Buffer where
  data : List UInt8
  eos : Bool
  deriving DecidableEq, Repr

/-- `seq = (data[2] << 8) | data[3]`. -/
def Buffer.seq (buf : Buffer) : BitVec 16 :=
  (BitVec.ofNat 16 (buf.data.getD 2 0).toNat <<< 8) ||| BitVec.ofNat 16 (buf.data.getD 3 0).toNat

/-- `st2110_redundancy_demux_t`. -/
structure Demux where
  failoverDetectionMs : BitVec 32
  initialized : Bool
  highestSeq : BitVec 16
  seenHistory : Fin 4096 → Bool
  currentLink : Link
  lastPrimaryTime : BitVec 64

/-- The flag of a sequence number, `seq % 4096`. -/
def slot (seq : BitVec 16) : Fin 4096 := ⟨seq.toNat % 4096, Nat.mod_lt _ (by decide)⟩

/-- `for (uint16_t i = highest_seq + 1; i != seq; i++) seen_history[i % 4096] = false`, for so
many turns at most. -/
def clearSkipped : ℕ → (Fin 4096 → Bool) → BitVec 16 → BitVec 16 → Fin 4096 → Bool
  | 0, seen, _, _ => seen
  | turns + 1, seen, i, seq =>
      if i = seq then seen
      else clearSkipped turns (Function.update seen (slot i) false) (i + 1) seq

/-- A `uint16_t` has met every value after so many turns. -/
def enoughTurns : ℕ := 2 ^ 16

/-- The first part of the locked section: the packet is new and noted, or it is dropped. -/
def Demux.admit (s : Demux) (seq : BitVec 16) : Option Demux :=
  if !s.initialized then
    some { s with
      initialized := true
      highestSeq := seq
      seenHistory := Function.update (fun _ => false) (slot seq) true }
  else
    let diff : ℤ := (seq - s.highestSeq).toInt
    if diff > 0 then
      let seen :=
        if diff ≥ 4096 then fun _ => false
        else clearSkipped enoughTurns s.seenHistory (s.highestSeq + 1) seq
      some { s with highestSeq := seq, seenHistory := Function.update seen (slot seq) true }
    else if diff > -2048 then
      if s.seenHistory (slot seq) then none
      else some { s with seenHistory := Function.update s.seenHistory (slot seq) true }
    else none

/-- The second part of the locked section, for a packet that was let through. -/
def Demux.supervise (s : Demux) (pad : Link) (now : BitVec 64) : Demux × Option Event :=
  match pad with
  | .primary =>
      if s.currentLink ≠ .primary then
        ({ s with lastPrimaryTime := now, currentLink := .primary }, some .redundancyRecovery)
      else ({ s with lastPrimaryTime := now }, none)
  | .backup =>
      if s.currentLink = .primary ∧
          now > s.lastPrimaryTime + s.failoverDetectionMs.signExtend 64 then
        ({ s with currentLink := .backup }, some .redundancyFailover)
      else (s, none)

/-- What a call does besides changing the element: whether the buffer goes on to the source
pad, and the event it posts. -/
structure Output where
  forward : Bool
  event : Option Event
  deriving DecidableEq, Repr

/-- `st2110_redundancy_demux_push` up to the unlock. -/
def Demux.push (s : Demux) (pad : Link) (buf : Buffer) (now : BitVec 64) : Demux × Output :=
  if buf.data.length < 12 then (s, ⟨buf.eos, none⟩)
  else
    match s.admit buf.seq with
    | none => (s, ⟨false, none⟩)
    | some admitted =>
        let supervised := admitted.supervise pad now
        (supervised.1, ⟨true, supervised.2⟩)

/-- The element after `st2110_redundancy_demux_open`. -/
def Demux.opened (failoverDetectionMs : BitVec 32) (now : BitVec 64) : Demux where
  failoverDetectionMs := failoverDetectionMs
  initialized := false
  highestSeq := 0
  seenHistory := fun _ => false
  currentLink := .primary
  lastPrimaryTime := now

/-! ## The merge as a system -/

/-- One arrival and what became of it.  The number is the extended sequence number: the counter
of which the packet carries the low bits. -/
structure Arrival where
  pad : Link
  number : ℤ
  buf : Buffer
  now : BitVec 64
  output : Output
  deriving DecidableEq, Repr

/-- The element, the arrivals so far with the latest first, the packets that have left the
locked section and are about to be pushed, those that have been, and the clock. -/
structure Merge where
  demux : Demux
  log : List Arrival
  leaving : List Arrival
  forwarded : List Arrival
  clock : BitVec 64

/-- A packet arrives, or one that was let through is pushed on. -/
inductive Action
  | arrive (pad : Link) (number : ℤ) (buf : Buffer) (now : BitVec 64)
  | pass (turn : ℕ)
  deriving DecidableEq, Repr

/-- A packet has room for its header and carries the low bits of its number. -/
def Numbered (number : ℤ) (buf : Buffer) : Prop :=
  12 ≤ buf.data.length ∧ buf.seq = serial 16 number

instance (number : ℤ) (buf : Buffer) : Decidable (Numbered number buf) :=
  inferInstanceAs (Decidable (_ ∧ _))

/-- The merge after the locked section of one arrival. -/
def Merge.arrive (s : Merge) (pad : Link) (number : ℤ) (buf : Buffer) (now : BitVec 64) : Merge :=
  let pushed := s.demux.push pad buf now
  let arrival : Arrival := ⟨pad, number, buf, now, pushed.2⟩
  { s with
    demux := pushed.1
    log := arrival :: s.log
    leaving := if pushed.2.forward then arrival :: s.leaving else s.leaving
    clock := now }

def next (s : Merge) : Action → Option Merge
  | .arrive pad number buf now =>
      if Numbered number buf then some (s.arrive pad number buf now) else none
  | .pass turn =>
      s.leaving[turn]?.map fun arrival =>
        { s with
          leaving := s.leaving.eraseIdx turn
          forwarded := arrival :: s.forwarded }

/-- The merge when the element has been opened. -/
def Merge.opened (failoverDetectionMs : BitVec 32) (now : BitVec 64) : Merge where
  demux := Demux.opened failoverDetectionMs now
  log := []
  leaving := []
  forwarded := []
  clock := now

/-- Packets arriving on the two pads in any order. -/
def system : System Merge Action where
  init s := ∃ failoverDetectionMs now, s = Merge.opened failoverDetectionMs now
  next := next

/-! ## What the steps do -/

/-- A packet either changes nothing, or is noted and counts for the supervision. -/
theorem push_cases (s : Demux) (pad : Link) {buf : Buffer} (hlong : 12 ≤ buf.data.length)
    (now : BitVec 64) :
    s.admit buf.seq = none ∧ s.push pad buf now = (s, ⟨false, none⟩) ∨
    ∃ admitted, s.admit buf.seq = some admitted ∧
      s.push pad buf now =
        ((admitted.supervise pad now).1, ⟨true, (admitted.supervise pad now).2⟩) := by
  have hlength : ¬ buf.data.length < 12 := not_lt.mpr hlong
  cases haccept : s.admit buf.seq with
  | none =>
      left
      exact ⟨rfl, by rw [Demux.push, if_neg hlength, haccept]⟩
  | some admitted =>
      right
      exact ⟨admitted, rfl, by rw [Demux.push, if_neg hlength, haccept]⟩

/-- A packet ahead of the highest number moves the ring on. -/
theorem admit_of_ahead {s : Demux} {seq : BitVec 16} (hinit : s.initialized = true)
    (hdiff : (seq - s.highestSeq).toInt > 0) :
    s.admit seq = some { s with
      highestSeq := seq
      seenHistory := Function.update
        (if (seq - s.highestSeq).toInt ≥ 4096 then fun _ => false
          else clearSkipped enoughTurns s.seenHistory (s.highestSeq + 1) seq)
        (slot seq) true } := by
  rw [ Demux.admit, hinit]
  exact (if_neg (by decide)).trans (if_pos hdiff)

/-- A packet not ahead is looked up in the ring. -/
theorem admit_of_not_ahead {s : Demux} {seq : BitVec 16} (hinit : s.initialized = true)
    (hdiff : ¬ (seq - s.highestSeq).toInt > 0) :
    s.admit seq =
      if (seq - s.highestSeq).toInt > -2048 then
        if s.seenHistory (slot seq) then none
        else some { s with seenHistory := Function.update s.seenHistory (slot seq) true }
      else none := by
  rw [ Demux.admit, hinit]
  exact (if_neg (by decide)).trans (if_neg hdiff)

/-- A packet that carries its number can always arrive. -/
theorem next_arrive (s : Merge) (pad : Link) {number : ℤ} {buf : Buffer} (now : BitVec 64)
    (hnumbered : Numbered number buf) :
    next s (.arrive pad number buf now) = some (s.arrive pad number buf now) := by
  rw [next, if_pos hnumbered]

/-- Inversion of a step of the system. -/
theorem next_cases {s s' : Merge} {a : Action} (hstep : next s a = some s') :
    (∃ pad number buf now, a = .arrive pad number buf now ∧ Numbered number buf ∧
      s' = s.arrive pad number buf now) ∨
    ∃ turn arrival, a = .pass turn ∧ s.leaving[turn]? = some arrival ∧
      s' = { s with
        leaving := s.leaving.eraseIdx turn
        forwarded := arrival :: s.forwarded } := by
  cases a with
  | arrive pad number buf now =>
      obtain ⟨hnumbered, hs'⟩ := Option.ite_none_right_eq_some.mp hstep
      exact .inl ⟨pad, number, buf, now, rfl, hnumbered, (Option.some.inj hs').symm⟩
  | pass turn =>
      obtain ⟨arrival, hat, hs'⟩ := Option.map_eq_some_iff.mp hstep
      exact .inr ⟨turn, arrival, rfl, hat, hs'.symm⟩

/-- The supervision leaves the numbers alone. -/
theorem supervise_numbers (s : Demux) (pad : Link) (now : BitVec 64) :
    (s.supervise pad now).1.initialized = s.initialized ∧
    (s.supervise pad now).1.highestSeq = s.highestSeq ∧
    (s.supervise pad now).1.seenHistory = s.seenHistory := by
  cases pad with
  | primary =>
      rw [Demux.supervise]
      split <;> exact ⟨rfl, rfl, rfl⟩
  | backup =>
      rw [Demux.supervise]
      split <;> exact ⟨rfl, rfl, rfl⟩

/-- Noting a number leaves the supervision alone. -/
theorem admit_links {s admitted : Demux} {seq : BitVec 16} (haccept : s.admit seq = some admitted) :
    admitted.currentLink = s.currentLink ∧ admitted.lastPrimaryTime = s.lastPrimaryTime ∧
    admitted.failoverDetectionMs = s.failoverDetectionMs := by
  rw [ Demux.admit] at haccept
  split at haccept
  · cases haccept
    exact ⟨rfl, rfl, rfl⟩
  · dsimp only at haccept
    split at haccept
    · cases haccept
      exact ⟨rfl, rfl, rfl⟩
    · split at haccept
      · obtain ⟨-, haccept⟩ := Option.ite_none_left_eq_some.mp haccept
        cases haccept
        exact ⟨rfl, rfl, rfl⟩
      · cases haccept

end Zstreamer.Redundancy

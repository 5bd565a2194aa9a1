/-
# The reorder buffer of a Dante receiver

`dante_video_coordinator.c` puts a reorder buffer between the UDP source of a route
and its depayloader.  A packet waits in the slot its sequence number falls into,
modulo the window, until it is the expected one; the buffer gives up on numbers when
a packet arrives too far ahead, or when a packet has waited for too long.

A call holds the lock from beginning to end, so calls do not interleave.  What is
said about the buffer is about moments inside a call, though, so a call is not one
step: every turn of its loops is one, and the phase says where in the call it is.
-/

import Mathlib.Data.List.Range
import Mathlib.Logic.Function.Basic
import Zstreamer.Foundation.Runs
import Zstreamer.Foundation.Ticks

namespace Zstreamer.Dante

open Foundation

/-- A received buffer.  The id counts the calls of `reorder_push`. -/
structure Buffer where
  id : ℕ
  data : List UInt8
  deriving DecidableEq, Repr

/-- A `reorder_slot_t` with a buffer in it. -/
structure Packet where
  buffer : Buffer
  sequence : BitVec 16
  arrivalNs : BitVec 64
  deriving DecidableEq, Repr

/-- `dante_reorder_t`, with the time of the last valid packet of its route.  A slot without a
buffer is `none`: its other fields are not read. -/
structure Reorder where
  slots : ℕ → Option Packet
  skippedSequences : BitVec 16 → Bool
  window : ℕ
  timeoutNs : BitVec 64
  expected : BitVec 16
  haveExpected : Bool
  lockedSsrc : BitVec 32
  probeOnly : Bool
  ssrcInactiveNs : BitVec 64
  lastValidRtpTimeNs : BitVec 64
  inPackets : ℕ
  droppedOld : ℕ
  latePackets : ℕ
  droppedDup : ℕ
  lostGaps : ℕ
  parseFail : ℕ

/-- `parse_rtp_header`: the sequence number and the SSRC. -/
def parseRtpHeader (data : List UInt8) : Option (BitVec 16 × BitVec 32) :=
  let packet (i : ℕ) : UInt8 := data.getD i 0
  let byte (w i : ℕ) : BitVec w := BitVec.ofNat w (packet i).toNat
  let header := 12 + (packet 0 &&& 0x0f).toNat * 4
  let words := (packet (header + 2)).toNat <<< 8 ||| (packet (header + 3)).toNat
  let sequence := byte 16 2 <<< 8 ||| byte 16 3
  let ssrc := byte 32 8 <<< 24 ||| byte 32 9 <<< 16 ||| byte 32 10 <<< 8 ||| byte 32 11
  if data.length < 12 then none
  else if packet 0 &&& 0xc0 ≠ 0x80 ∨ packet 1 &&& 0x7f ≠ 96 then none
  else if header > data.length then none
  else if packet 0 &&& 0x10 ≠ 0 ∧
      (header + 4 > data.length ∨ header + 4 + words * 4 > data.length) then none
  else if ssrc ≠ 0 then some (sequence, ssrc)
  else none

namespace Reorder

/-- How far a number is ahead of the expected one, `(uint16_t)(sequence - expected)`. -/
def distance (r : Reorder) (sequence : BitVec 16) : ℕ := (sequence - r.expected).toNat

/-- `sequence % window`. -/
def slotOf (r : Reorder) (sequence : BitVec 16) : ℕ := sequence.toNat % r.window

/-- The packet in the slot of the expected number, when it has that number. -/
def ready (r : Reorder) : Option Packet :=
  (r.slots (r.slotOf r.expected)).filter fun p => p.sequence = r.expected

/-- `reorder_emit`, without the push. -/
def emit (r : Reorder) : Reorder :=
  { r with
    slots := Function.update r.slots (r.slotOf r.expected) none
    expected := r.expected + 1 }

@[simp]
theorem slots_emit (r : Reorder) :
    r.emit.slots = Function.update r.slots (r.slotOf r.expected) none := rfl

/-- `reorder_skip_expected`. -/
def skipExpected (r : Reorder) : Reorder :=
  { r with
    skippedSequences := Function.update r.skippedSequences r.expected true
    lostGaps := r.lostGaps + 1
    expected := r.expected + 1 }

/-- The packet has waited for the timeout. -/
def TimedOut (r : Reorder) (now : BitVec 64) (p : Packet) : Prop :=
  ¬ now - p.arrivalNs < r.timeoutNs

instance (r : Reorder) (now : BitVec 64) (p : Packet) : Decidable (r.TimedOut now p) :=
  inferInstanceAs (Decidable (¬ _))

/-- One turn of the loop over the slots: `nearest` and `nearest_distance`. -/
def nearer (r : Reorder) (now : BitVec 64) (found : Option (BitVec 16) × ℕ) (i : ℕ) :
    Option (BitVec 16) × ℕ :=
  match r.slots i with
  | none => found
  | some p =>
      if r.TimedOut now p ∧ r.distance p.sequence < found.2 then
        (some p.sequence, r.distance p.sequence)
      else found

/-- The loop of `reorder_skip_gap_if_timed_out` over the slots, from `UINT16_MAX` down. -/
def nearest (r : Reorder) (now : BitVec 64) : Option (BitVec 16) :=
  ((List.range r.window).foldl (r.nearer now) (none, 65535)).1

/-- The packet is put into its slot. -/
def store (r : Reorder) (p : Packet) : Reorder :=
  { r with
    slots := Function.update r.slots (r.slotOf p.sequence) (some p)
    skippedSequences := Function.update r.skippedSequences p.sequence false
    lastValidRtpTimeNs := if r.probeOnly then r.lastValidRtpTimeNs else p.arrivalNs }

@[simp]
theorem slots_store (r : Reorder) (p : Packet) :
    (r.store p).slots = Function.update r.slots (r.slotOf p.sequence) (some p) := rfl

/-- A packet behind the expected number is counted and dropped. -/
def countOld (r : Reorder) (sequence : BitVec 16) : Reorder :=
  if r.skippedSequences sequence then
    { r with
      skippedSequences := Function.update r.skippedSequences sequence false
      latePackets := r.latePackets + 1 }
  else { r with droppedOld := r.droppedOld + 1 }

/-- Counting an old packet touches only its flag and the counters. -/
theorem countOld_frame (r : Reorder) (sequence : BitVec 16) :
    (r.countOld sequence).slots = r.slots ∧ (r.countOld sequence).window = r.window ∧
    (r.countOld sequence).expected = r.expected ∧
    (r.countOld sequence).haveExpected = r.haveExpected ∧
    (r.countOld sequence).lockedSsrc = r.lockedSsrc ∧
    (r.countOld sequence).lostGaps = r.lostGaps := by
  rw [countOld]
  split <;> exact ⟨rfl, rfl, rfl, rfl, rfl, rfl⟩

/-- The packets in the slots. -/
def held (r : Reorder) : List Packet := (List.range r.window).filterMap r.slots

end Reorder

/-- Where in a call the lock holder is. -/
inductive Phase
  /-- nobody holds the lock -/
  | idle
  /-- `reorder_push`, before the packet fits into the window -/
  | room (p : Packet)
  /-- `reorder_push`, about to store the packet -/
  | store (p : Packet)
  /-- `reorder_push`, in the first `reorder_drain` -/
  | drain (now : BitVec 64)
  /-- `reorder_skip_gap_if_timed_out`, about to look for the nearest packet -/
  | scan (now : BitVec 64)
  /-- `reorder_skip_gap_if_timed_out`, skipping up to the nearest packet -/
  | skip (nearest : BitVec 16)
  /-- in the last `reorder_drain` -/
  | drainAgain
  deriving DecidableEq, Repr

/-- The buffer, the call in progress, and the packets that were stored, pushed on to the source
pad, and dropped when the SSRC changed, the latest first. -/
structure State where
  reorder : Reorder
  phase : Phase
  arrivals : ℕ
  accepted : List Packet
  emitted : List Packet
  discarded : List Packet

/-- `reorder_push` is called, the watchdog calls `reorder_watchdog_drain`, or the lock holder
makes its next turn.  `retargeted` says whether the depayloader took the new SSRC. -/
inductive Action
  | push (data : List UInt8) (now : BitVec 64) (retargeted : Bool)
  | watchdog (now : BitVec 64)
  | turn
  deriving DecidableEq, Repr

namespace State

/-- The packet must be of the SSRC the buffer is locked to; a flow that has been quiet may
restart with a new one.  Answers whether the call goes on. -/
def lockSsrc (s : State) (ssrc : BitVec 32) (now : BitVec 64) (retargeted : Bool) :
    State × Bool :=
  let r := s.reorder
  if r.lockedSsrc = 0 then
    ({ s with reorder := { r with lockedSsrc := ssrc } }, r.probeOnly || retargeted)
  else if r.lockedSsrc ≠ ssrc then
    if r.lastValidRtpTimeNs = 0 ∨ now - r.lastValidRtpTimeNs ≤ r.ssrcInactiveNs then (s, false)
    else
      ({ s with
          reorder := { r with slots := fun _ => none, lockedSsrc := ssrc, haveExpected := false }
          discarded := r.held ++ s.discarded },
        r.probeOnly || retargeted)
  else (s, true)

/-- The first packet says which number is expected; a packet behind that is dropped. -/
def receive (s : State) (p : Packet) : State :=
  let r := s.reorder
  let r := if r.haveExpected then r else { r with expected := p.sequence, haveExpected := true }
  if (p.sequence - r.expected).toInt < 0 then { s with reorder := r.countOld p.sequence }
  else { s with reorder := r, phase := .room p }

/-- Every call is counted, and gives the buffer its id. -/
def counted (s : State) : State :=
  { s with
    reorder := { s.reorder with inPackets := s.reorder.inPackets + 1 }
    arrivals := s.arrivals + 1 }

/-- `reorder_push` up to its first loop. -/
def push (s : State) (data : List UInt8) (now : BitVec 64) (retargeted : Bool) : State :=
  match parseRtpHeader data with
  | none =>
      { s.counted with
        reorder := { s.counted.reorder with parseFail := s.reorder.parseFail + 1 } }
  | some (sequence, ssrc) =>
      let locked := s.counted.lockSsrc ssrc now retargeted
      if locked.2 then locked.1.receive ⟨⟨s.arrivals, data⟩, sequence, now⟩ else locked.1

/-- `reorder_emit`. -/
def emit (s : State) (p : Packet) : State :=
  { s with reorder := s.reorder.emit, emitted := p :: s.emitted }

/-- The turn of the loop that makes room for a packet. -/
def makeRoom (s : State) (p : Packet) : State :=
  if s.reorder.distance p.sequence ≥ s.reorder.window then
    match s.reorder.ready with
    | some q => s.emit q
    | none => { s with reorder := s.reorder.skipExpected }
  else { s with phase := .store p }

/-- A duplicate is dropped; whatever else is in the slot gives way. -/
def store (s : State) (p : Packet) : State :=
  let r := s.reorder
  if (r.slots (r.slotOf p.sequence)).any fun q => q.sequence = p.sequence then
    { s with reorder := { r with droppedDup := r.droppedDup + 1 }, phase := .idle }
  else
    { s with
      reorder := r.store p
      accepted := p :: s.accepted
      phase := .drain p.arrivalNs }

/-- A turn of `reorder_drain`, which is followed by `after`. -/
def drain (s : State) (after : Phase) : State :=
  match if s.reorder.haveExpected then s.reorder.ready else none with
  | some q => s.emit q
  | none => { s with phase := after }

/-- The scan of `reorder_skip_gap_if_timed_out`. -/
def scan (s : State) (now : BitVec 64) : State :=
  match s.reorder.nearest now with
  | some nearest => { s with phase := .skip nearest }
  | none => { s with phase := .drainAgain }

/-- A turn of the skipping loop. -/
def skip (s : State) (nearest : BitVec 16) : State :=
  if s.reorder.expected ≠ nearest then { s with reorder := s.reorder.skipExpected }
  else { s with phase := .drainAgain }

/-- The next turn of the lock holder. -/
def turn (s : State) : Option State :=
  match s.phase with
  | .idle => none
  | .room p => some (s.makeRoom p)
  | .store p => some (s.store p)
  | .drain now => some (s.drain (.scan now))
  | .scan now => some (s.scan now)
  | .skip nearest => some (s.skip nearest)
  | .drainAgain => some (s.drain .idle)

/-- A call begins when nobody holds the lock. -/
def next (s : State) : Action → Option State
  | .push data now retargeted =>
      if s.phase = .idle then some (s.push data now retargeted) else none
  | .watchdog now => if s.phase = .idle then some { s with phase := .scan now } else none
  | .turn => s.turn

/-- The buffer after `reorder_open`. -/
def opened (window : ℕ) (timeoutNs : BitVec 64) (probeOnly : Bool)
    (ssrcInactiveNs lastValidRtpTimeNs : BitVec 64) : State where
  reorder :=
    { slots := fun _ => none
      skippedSequences := fun _ => false
      window := window
      timeoutNs := timeoutNs
      expected := 0
      haveExpected := false
      lockedSsrc := 0
      probeOnly := probeOnly
      ssrcInactiveNs := ssrcInactiveNs
      lastValidRtpTimeNs := lastValidRtpTimeNs
      inPackets := 0
      droppedOld := 0
      latePackets := 0
      droppedDup := 0
      lostGaps := 0
      parseFail := 0 }
  phase := .idle
  arrivals := 0
  accepted := []
  emitted := []
  discarded := []

/-! ## What the parts of a call do -/

/-- A packet is behind, or it goes into the window, or it is the first. -/
theorem receive_cases (s : State) (p : Packet) :
    s.reorder.haveExpected = true ∧ (p.sequence - s.reorder.expected).toInt < 0 ∧
      s.receive p = { s with reorder := s.reorder.countOld p.sequence } ∨
    s.reorder.haveExpected = true ∧ ¬ (p.sequence - s.reorder.expected).toInt < 0 ∧
      s.receive p = { s with phase := .room p } ∨
    s.reorder.haveExpected = false ∧
      s.receive p =
        { s with
          reorder := { s.reorder with expected := p.sequence, haveExpected := true }
          phase := .room p } := by
  cases hhave : s.reorder.haveExpected with
  | true =>
      rw [receive, hhave, if_pos rfl]
      by_cases hbehind : (p.sequence - s.reorder.expected).toInt < 0
      · exact .inl ⟨rfl, hbehind, if_pos hbehind⟩
      · exact .inr (.inl ⟨rfl, hbehind, if_neg hbehind⟩)
  | false =>
      have hzero : ¬ (p.sequence - p.sequence).toInt < 0 := by
        rw [BitVec.sub_self]
        decide
      rw [receive, hhave, if_neg Bool.false_ne_true]
      exact .inr (.inr ⟨rfl, if_neg hzero⟩)

/-- The call goes on with the SSRC it is locked to, stops there, or empties the slots. -/
theorem lockSsrc_cases (s : State) (ssrc : BitVec 32) (now : BitVec 64) (retargeted : Bool) :
    s.reorder.lockedSsrc = 0 ∧ (s.lockSsrc ssrc now retargeted).1 =
      { s with reorder := { s.reorder with lockedSsrc := ssrc } } ∨
    (s.lockSsrc ssrc now retargeted).1 = s ∨
    s.reorder.lockedSsrc ≠ 0 ∧ s.reorder.lockedSsrc ≠ ssrc ∧
      (s.lockSsrc ssrc now retargeted).1 =
        { s with
          reorder :=
            { s.reorder with slots := fun _ => none, lockedSsrc := ssrc, haveExpected := false }
          discarded := s.reorder.held ++ s.discarded } := by
  rw [lockSsrc]
  split
  · rename_i hunlocked
    exact .inl ⟨hunlocked, rfl⟩
  · rename_i hlocked
    split
    · rename_i hother
      split
      · exact .inr (.inl rfl)
      · exact .inr (.inr ⟨hlocked, hother, rfl⟩)
    · exact .inr (.inl rfl)

/-- A packet of the SSRC that the buffer is locked to changes nothing else. -/
theorem lockSsrc_same (s : State) {ssrc : BitVec 32} (now : BitVec 64) (retargeted : Bool)
    (hssrc : s.reorder.lockedSsrc = 0 ∨ s.reorder.lockedSsrc = ssrc) :
    ∃ ssrc', (s.lockSsrc ssrc now retargeted).1 =
      { s with reorder := { s.reorder with lockedSsrc := ssrc' } } := by
  rcases lockSsrc_cases s ssrc now retargeted with ⟨-, heq⟩ | heq | ⟨hlocked, hother, -⟩
  · exact ⟨ssrc, heq⟩
  · exact ⟨s.reorder.lockedSsrc, heq⟩
  · rcases hssrc with hunlocked | hsame
    · exact absurd hunlocked hlocked
    · exact absurd hsame hother

end State

/-- `ZST_DANTE_VIDEO_COORDINATOR_MAX_REORDER_WINDOW`. -/
def maxReorderWindow : ℕ := 4096

/-- Calls of `reorder_push` and of the watchdog in any order. -/
def system : System State Action where
  init s := ∃ window timeoutNs probeOnly ssrcInactiveNs lastValidRtpTimeNs,
    0 < window ∧ window ≤ maxReorderWindow ∧
      s = State.opened window timeoutNs probeOnly ssrcInactiveNs lastValidRtpTimeNs
  next := State.next

end Zstreamer.Dante

/-
# Buffers that are early or late

A sink waits for a buffer that is early and drops one that is late, and so does the worker of
a queue.  Both compare the time of the buffer with the reading of the clock, moved by a
threshold; the sum and the difference are taken in 64 bits.
-/

import Zstreamer.Clock.Pacer

namespace Zstreamer.Clock

/-- What is looked at of a `zst_buffer_t`: `ZST_BUFFER_FLAG_DROP` and `ZST_BUFFER_FLAG_EOS` are
flags of it. -/
structure Buffer where
  pts : Time
  drop : Bool
  eos : Bool
  deriving DecidableEq, Repr

/-- What is done with a buffer.  One that is marked already is left out, whatever its time. -/
inductive Decision
  | skipped
  | ended
  | passed
  | waited (duration : Time)
  | dropped
  deriving DecidableEq, Repr

/-- 5 ms. -/
def earlyThreshold : Time := 5000000

/-- 100 ms. -/
def lateThreshold : Time := 100000000

/-- 5 s. -/
def safeguard : Time := 5000000000

/-- `default_sink_pad_push`, for an element without a source pad that has a clock, up to where
the buffer is processed. -/
def sinkPadPush (current : Time) (buf : Buffer) : Decision :=
  if buf.drop = true then .skipped
  else if buf.eos = true then .ended
  else if buf.pts > 0 ∧ ¬ buf.eos = true then
    if buf.pts > current + earlyThreshold then
      if buf.pts - current < safeguard then .waited (buf.pts - current) else .passed
    else if buf.pts < current - lateThreshold then
      if current - buf.pts < safeguard then .dropped else .passed
    else .passed
  else .passed

/-- `queue_el_sink_push` takes a buffer, with or without a pool. -/
def queueSinkPush (buf : Buffer) : Bool := ¬ buf.drop

/-- The turn of `queue_el_worker` for a buffer, in an element with a clock. -/
def queueWorker (current : Time) (buf : Buffer) : Decision :=
  if buf.pts > 0 ∧ ¬ buf.eos = true then
    if buf.pts > current + earlyThreshold then
      if buf.pts - current < safeguard then .waited (buf.pts - current) else .passed
    else if buf.pts < current - lateThreshold then
      if current - buf.pts < safeguard then .dropped else .passed
    else .passed
  else .passed

/-- What a queue does with a buffer that is pushed into it. -/
def queueElement (current : Time) (buf : Buffer) : Decision :=
  if queueSinkPush buf = true then queueWorker current buf else .skipped

/-! ## What the decision should be -/

/-- Only what is late is dropped, and only what is early is waited for, no longer than it is
early. -/
def Fair (current pts : Time) : Decision → Prop
  | .dropped => pts.toNat + lateThreshold.toNat < current.toNat ∧
      current.toNat < pts.toNat + safeguard.toNat
  | .waited duration => current.toNat + earlyThreshold.toNat < pts.toNat ∧
      current.toNat + duration.toNat ≤ pts.toNat
  | .skipped | .ended | .passed => True

instance (current pts : Time) : ∀ decision, Decidable (Fair current pts decision)
  | .dropped => inferInstanceAs (Decidable (_ ∧ _))
  | .waited _ => inferInstanceAs (Decidable (_ ∧ _))
  | .skipped | .ended | .passed => inferInstanceAs (Decidable True)

/-- The thresholds do not leave the range of the clock in a way that counts: the clock has gone
for the late one, or the buffer is ahead of it; and the early one fits, or what is left of it is
not passed by the time of the buffer, or the buffer is behind the clock and not so far behind that
the difference is a short one again. -/
def InRange (current pts : Time) : Prop :=
  (lateThreshold.toNat ≤ current.toNat ∨ current.toNat < pts.toNat) ∧
    (current.toNat + earlyThreshold.toNat < 2 ^ 64 ∨
      pts.toNat + 2 ^ 64 ≤ current.toNat + earlyThreshold.toNat ∨
      pts.toNat < current.toNat ∧ current.toNat + safeguard.toNat ≤ pts.toNat + 2 ^ 64)

instance (current pts : Time) : Decidable (InRange current pts) :=
  inferInstanceAs (Decidable (_ ∧ _))

/-- The numbers behind the comparisons. -/
theorem toNat_thresholds (current : Time) :
    (current + earlyThreshold).toNat = (current.toNat + 5000000) % 2 ^ 64 ∧
      (current - lateThreshold).toNat = (2 ^ 64 - 100000000 + current.toNat) % 2 ^ 64 :=
  ⟨BitVec.toNat_add .., BitVec.toNat_sub ..⟩

/-- A buffer that is compared with the clock. -/
theorem fair_queueWorker_iff {current : Time} {buf : Buffer} (hpts : 0 < buf.pts.toNat)
    (heos : buf.eos = false) :
    Fair current buf.pts (queueWorker current buf) ↔ InRange current buf.pts := by
  obtain ⟨hearly, hlate⟩ := toNat_thresholds current
  have hcurrent := current.isLt
  have hbuf := buf.pts.isLt
  have hahead : (buf.pts - current).toNat =
      (2 ^ 64 - current.toNat + buf.pts.toNat) % 2 ^ 64 := BitVec.toNat_sub ..
  have hbehind : (current - buf.pts).toNat =
      (2 ^ 64 - buf.pts.toNat + current.toNat) % 2 ^ 64 := BitVec.toNat_sub ..
  have hthresholds : earlyThreshold.toNat = 5000000 ∧ lateThreshold.toNat = 100000000 ∧
      safeguard.toNat = 5000000000 := by decide
  obtain ⟨hfive, hhundred, hsafe⟩ := hthresholds
  have hcompared : buf.pts > 0 ∧ ¬ buf.eos = true :=
    ⟨BitVec.lt_def.mpr hpts, by rw [heos]; exact Bool.false_ne_true⟩
  rw [queueWorker, if_pos hcompared, InRange, hfive, hhundred, hsafe]
  split
  case isTrue h =>
    have h : (current + earlyThreshold).toNat < buf.pts.toNat := h
    rw [hearly] at h
    split
    case isTrue hshort =>
      rw [BitVec.lt_def, hahead, hsafe] at hshort
      rw [Fair, hfive, hahead]
      omega
    case isFalse hlong =>
      rw [BitVec.lt_def, hahead, hsafe] at hlong
      refine iff_of_true trivial ?_
      omega
  case isFalse h =>
    have h : ¬ (current + earlyThreshold).toNat < buf.pts.toNat := h
    rw [hearly] at h
    split
    case isTrue hafter =>
      rw [BitVec.lt_def, hlate] at hafter
      split
      case isTrue hshort =>
        rw [BitVec.lt_def, hbehind, hsafe] at hshort
        rw [Fair, hhundred, hsafe]
        omega
      case isFalse hlong =>
        rw [BitVec.lt_def, hbehind, hsafe] at hlong
        refine iff_of_true trivial ?_
        omega
    case isFalse hafter =>
      rw [BitVec.lt_def, hlate] at hafter
      refine iff_of_true trivial ?_
      omega

/-! ## Both elements -/

/-- **The sink and the queue decide alike, and fairly exactly when no threshold leaves the range
of the clock** (or the buffer is left out for its mark). -/
theorem qos_fair_iff (current : Time) (buf : Buffer) (hpts : 0 < buf.pts) (heos : buf.eos = false) :
    sinkPadPush current buf = queueElement current buf ∧
      (Fair current buf.pts (sinkPadPush current buf) ↔
        buf.drop = true ∨ InRange current buf.pts) := by
  have hsame : sinkPadPush current buf = queueElement current buf := by
    rw [sinkPadPush, queueElement, queueSinkPush]
    cases hdrop : buf.drop with
    | true => rfl
    | false =>
        have hrunning : ¬ buf.eos = true := by
          rw [heos]
          exact Bool.false_ne_true
        rw [if_neg Bool.false_ne_true, if_neg hrunning]
        rfl
  refine ⟨hsame, ?_⟩
  rw [hsame, queueElement, queueSinkPush]
  cases hdrop : buf.drop with
  | true => exact iff_of_true trivial (.inl rfl)
  | false =>
      rw [or_iff_right Bool.false_ne_true]
      exact fair_queueWorker_iff hpts heos

/-- A buffer that is 400 ms late is dropped. -/
theorem qos_fair_late :
    sinkPadPush 1000000000 ⟨600000000, false, false⟩ = .dropped ∧
      Fair 1000000000 600000000 (sinkPadPush 1000000000 ⟨600000000, false, false⟩) :=
  ⟨by decide, (qos_fair_iff 1000000000 ⟨600000000, false, false⟩ (by decide) rfl).2.mpr
    (.inr (by decide))⟩

/-- 50 ms after its start the clock has a buffer dropped that is 10 ms late; and at the end of
the range one is waited for that is long past. -/
theorem qos_unfair :
    sinkPadPush 50000000 ⟨40000000, false, false⟩ = .dropped ∧
      queueElement 50000000 ⟨40000000, false, false⟩ = .dropped ∧
      ¬ Fair 50000000 40000000 (sinkPadPush 50000000 ⟨40000000, false, false⟩) ∧
      ¬ Fair (BitVec.allOnes 64) 6000000
        (sinkPadPush (BitVec.allOnes 64) ⟨6000000, false, false⟩) := by
  decide

end Zstreamer.Clock

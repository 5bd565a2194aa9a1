/-
# The timestamp pacer

`zst_timestamp_pacer_wait` holds a timestamp back until the clock has come as far as the
timestamp is behind the first one of its run.  It reads the clock again after every sleep
and decides anew, so that a call is a number of passes through one loop, each with a
reading of its own; only the last of them changes what the next one decides.
-/

import Mathlib.Algebra.Ring.Nat
import Mathlib.Tactic.Common

namespace Zstreamer.Clock

/-- `zst_time_t`. -/
abbrev Time := BitVec 64

/-- `ZST_TIMESTAMP_PACER_DEFAULT_TOLERANCE_NS`. -/
def defaultTolerance : Time := 5000000

/-- `ZST_TIMESTAMP_PACER_DEFAULT_RESET_THRESHOLD_NS`. -/
def defaultResetThreshold : Time := 2000000000

/-- `ZST_TIMESTAMP_PACER_DEFAULT_SLEEP_QUANTUM_NS`. -/
def defaultSleepQuantum : Time := 10000000

/-- `zst_timestamp_pacer_t`, without its lock and the clock it falls back to. -/
structure Pacer where
  enabled : Bool
  started : Bool
  baseTs : Time
  baseClock : Time
  lastTs : Time
  tolerance : Time
  resetThreshold : Time
  maxLateness : Time
  sleepQuantum : Time
  pacedCount : BitVec 64
  droppedCount : BitVec 64
  resetCount : BitVec 64
  totalWait : BitVec 64
  deriving DecidableEq, Repr

/-- The results of the function for a pacer that is there. -/
inductive WaitResult
  | ok
  | again
  deriving DecidableEq, Repr

namespace Pacer

/-! ## The operations -/

/-- `zst_timestamp_pacer_init`. -/
def init : Pacer where
  enabled := false
  started := false
  baseTs := 0
  baseClock := 0
  lastTs := 0
  tolerance := defaultTolerance
  resetThreshold := defaultResetThreshold
  maxLateness := 0
  sleepQuantum := defaultSleepQuantum
  pacedCount := 0
  droppedCount := 0
  resetCount := 0
  totalWait := 0

/-- `zst_timestamp_pacer_reset`. -/
def reset (p : Pacer) : Pacer :=
  { p with
    started := false
    baseTs := 0
    baseClock := 0
    lastTs := 0
    resetCount := p.resetCount + 1 }

/-- `zst_timestamp_pacer_set_enabled`. -/
def setEnabled (p : Pacer) (enabled : Bool) : Pacer :=
  { p with enabled := enabled, started := enabled && p.started }

/-- `zst_timestamp_pacer_configure`. -/
def configure (p : Pacer) (tolerance resetThreshold maxLateness : Time) : Pacer :=
  { p with tolerance := tolerance, resetThreshold := resetThreshold, maxLateness := maxLateness }

/-- `zst_timestamp_pacer_should_reset_locked`. -/
def ShouldReset (p : Pacer) (timestamp : Time) : Prop :=
  p.started = false ∨ timestamp < p.lastTs ∨
    p.resetThreshold > 0 ∧ timestamp > p.lastTs ∧ timestamp - p.lastTs > p.resetThreshold

instance (p : Pacer) (timestamp : Time) : Decidable (p.ShouldReset timestamp) :=
  inferInstanceAs (Decidable (_ ∨ _ ∨ _))

/-- `zst_timestamp_pacer_start_locked`. -/
def start (p : Pacer) (timestamp now : Time) : Pacer :=
  { p with started := true, baseTs := timestamp, baseClock := now, lastTs := timestamp }

/-- When a timestamp is due. -/
def target (p : Pacer) (timestamp : Time) : Time :=
  if BitVec.allOnes 64 - p.baseClock < timestamp - p.baseTs then BitVec.allOnes 64
  else p.baseClock + (timestamp - p.baseTs)

/-- What one pass through the loop does: it returns, or it sleeps and goes on. -/
inductive Pass
  | returned (result : WaitResult) (dropped : Bool) (after : Pacer)
  | slept (duration : Time) (after : Pacer)
  deriving DecidableEq, Repr

/-- One pass through the loop of `zst_timestamp_pacer_wait`, where there is a clock. -/
def pass (p : Pacer) (timestamp now : Time) : Pass :=
  if p.enabled = false then .returned .ok false p
  else if p.ShouldReset timestamp then
    .returned .ok false
      { p.start timestamp now with
        resetCount := if p.started = true then p.resetCount + 1 else p.resetCount
        pacedCount := p.pacedCount + 1 }
  else if timestamp = p.lastTs then
    .returned .ok false { p with pacedCount := p.pacedCount + 1 }
  else if timestamp < p.baseTs then
    .returned .ok false
      { p.start timestamp now with
        resetCount := p.resetCount + 1
        pacedCount := p.pacedCount + 1 }
  else if now > p.target timestamp ∧ p.maxLateness > 0 ∧
      now - p.target timestamp > p.maxLateness then
    .returned .again true { p with lastTs := timestamp, droppedCount := p.droppedCount + 1 }
  else if p.target timestamp > now ∧ p.target timestamp - now > p.tolerance then
    let quantum := if p.sleepQuantum > 0 then p.sleepQuantum else defaultSleepQuantum
    let wait := p.target timestamp - now
    let sleep := if wait < quantum then wait else quantum
    .slept sleep { p with totalWait := p.totalWait + sleep }
  else .returned .ok false { p with lastTs := timestamp, pacedCount := p.pacedCount + 1 }

/-- What a call has come to: the reading of its last pass is part of it. -/
structure Returned where
  result : WaitResult
  dropped : Bool
  now : Time
  after : Pacer
  deriving DecidableEq, Repr

/-- `zst_timestamp_pacer_wait`, for the readings of the clock in their order.  Nothing is returned
when the readings are at an end and the call is not. -/
def wait (p : Pacer) (timestamp : Time) : List Time → Option Returned
  | [] => none
  | now :: readings =>
      match p.pass timestamp now with
      | .returned result dropped after => some ⟨result, dropped, now, after⟩
      | .slept _ after => after.wait timestamp readings

/-! ## One call -/

/-- When a timestamp is due, as a number: no later than the largest time. -/
def dueAt (p : Pacer) (timestamp : Time) : ℕ :=
  min (2 ^ 64 - 1) (p.baseClock.toNat + (timestamp.toNat - p.baseTs.toNat))

/-- The base is not behind the last timestamp. -/
def Ordered (p : Pacer) : Prop := p.baseTs ≤ p.lastTs

/-- What a call of an enabled pacer may come to. -/
structure Right (p : Pacer) (timestamp : Time) (r : Returned) : Prop where
  ordered : r.after.Ordered
  last : r.after.lastTs = timestamp
  enabled : r.after.enabled = true
  /-- Without a new base the old one is kept. -/
  base : p.started = true → r.after.resetCount = p.resetCount →
    r.after.baseTs = p.baseTs ∧ r.after.baseClock = p.baseClock
  /-- What is released is due, but for the tolerance. -/
  released : r.result = .ok → timestamp ≠ p.lastTs →
    r.after.baseTs ≤ timestamp ∧ r.after.dueAt timestamp ≤ r.now.toNat + p.tolerance.toNat
  /-- What is dropped is too late. -/
  late : r.result = .again → r.dropped = true ∧ p.baseTs ≤ timestamp ∧ 0 < p.maxLateness.toNat ∧
    p.dueAt timestamp + p.maxLateness.toNat < r.now.toNat
  dropped : r.dropped = true → r.result = .again
  counted : r.after.pacedCount + r.after.droppedCount = p.pacedCount + p.droppedCount + 1

variable {p : Pacer} {timestamp now : Time}

/-- The target is the sum, where it is no larger than the largest time. -/
theorem toNat_target (h : p.baseTs ≤ timestamp) :
    (p.target timestamp).toNat = p.dueAt timestamp := by
  have hdelta : (timestamp - p.baseTs).toNat = timestamp.toNat - p.baseTs.toNat :=
    BitVec.toNat_sub_of_le h
  have hones : (BitVec.allOnes 64).toNat = 2 ^ 64 - 1 := BitVec.toNat_allOnes
  have hroom : (BitVec.allOnes 64 - p.baseClock).toNat = 2 ^ 64 - 1 - p.baseClock.toNat := by
    rw [BitVec.toNat_sub_of_le (BitVec.le_def.mpr (by rw [hones]; omega)), hones]
  have hclock := p.baseClock.isLt
  rw [target, dueAt]
  split
  case isTrue hlarge =>
    rw [BitVec.lt_def, hroom, hdelta] at hlarge
    rw [hones]
    omega
  case isFalse hsmall =>
    rw [BitVec.lt_def, hroom, hdelta] at hsmall
    rw [BitVec.toNat_add, hdelta, Nat.mod_eq_of_lt (by omega)]
    omega

/-- A base that is set by a call is due at once. -/
theorem dueAt_start (p : Pacer) (timestamp now : Time) :
    (p.start timestamp now).dueAt timestamp = now.toNat := by
  have hclock := now.isLt
  show min (2 ^ 64 - 1) (now.toNat + (timestamp.toNat - timestamp.toNat)) = now.toNat
  omega

/-- A call that sets the base anew. -/
theorem right_start (henabled : p.enabled = true) (resets : BitVec 64)
    (hresets : p.started = true → resets ≠ p.resetCount) :
    p.Right timestamp ⟨.ok, false, now,
      { p.start timestamp now with resetCount := resets, pacedCount := p.pacedCount + 1 }⟩ where
  ordered := BitVec.le_refl timestamp
  last := rfl
  enabled := henabled
  base := fun hstarted hsame => absurd hsame (hresets hstarted)
  released := fun _ _ => ⟨BitVec.le_refl timestamp,
    Nat.le_trans (Nat.le_of_eq (dueAt_start p timestamp now)) (Nat.le_add_right _ _)⟩
  late := nofun
  dropped := nofun
  counted := by
    show p.pacedCount + 1 + p.droppedCount = _
    ac_rfl

/-- What a pass that returns comes to. -/
theorem right_pass (hordered : p.Ordered) (henabled : p.enabled = true) {result : WaitResult}
    {dropped : Bool} {after : Pacer} (h : p.pass timestamp now = .returned result dropped after) :
    p.Right timestamp ⟨result, dropped, now, after⟩ := by
  have hchanged : p.resetCount + 1 ≠ p.resetCount := fun hsame => by bv_omega
  rw [pass, if_neg (fun hoff => Bool.false_ne_true (hoff.symm.trans henabled))] at h
  split at h
  case isTrue =>
    cases h
    refine right_start henabled _ fun hstarted => ?_
    rw [if_pos hstarted]
    exact hchanged
  case isFalse hkept =>
  split at h
  case isTrue hsame =>
    cases h
    refine ⟨hordered, hsame.symm, henabled, fun _ _ => ⟨rfl, rfl⟩, fun _ hne => absurd hsame hne,
      nofun, nofun, ?_⟩
    show p.pacedCount + 1 + p.droppedCount = _
    ac_rfl
  case isFalse hne =>
  split at h
  case isTrue =>
    cases h
    exact right_start henabled _ fun _ => hchanged
  case isFalse hbehind =>
  have hbase : p.baseTs ≤ timestamp := BitVec.not_lt.mp hbehind
  split at h
  case isTrue hlate =>
    cases h
    obtain ⟨hafter, hlimit, hmore⟩ := hlate
    refine ⟨hbase, rfl, henabled, fun _ _ => ⟨rfl, rfl⟩, nofun,
      fun _ => ⟨rfl, hbase, hlimit, ?_⟩, fun _ => rfl, ?_⟩
    · have hdifference : (now - p.target timestamp).toNat =
          now.toNat - (p.target timestamp).toNat := BitVec.toNat_sub_of_le (BitVec.le_of_lt hafter)
      have hmore : p.maxLateness.toNat < (now - p.target timestamp).toNat := hmore
      show p.dueAt timestamp + p.maxLateness.toNat < now.toNat
      rw [← toNat_target hbase]
      omega
    · show p.pacedCount + (p.droppedCount + 1) = _
      ac_rfl
  case isFalse =>
  split at h
  case isTrue => cases h
  case isFalse hdue =>
    cases h
    refine ⟨hbase, rfl, henabled, fun _ _ => ⟨rfl, rfl⟩, fun _ _ => ⟨hbase, ?_⟩, nofun, nofun, ?_⟩
    · show p.dueAt timestamp ≤ now.toNat + p.tolerance.toNat
      rw [← toNat_target hbase]
      by_cases hbefore : p.target timestamp > now
      · have hdifference : (p.target timestamp - now).toNat =
            (p.target timestamp).toNat - now.toNat :=
          BitVec.toNat_sub_of_le (BitVec.le_of_lt hbefore)
        have hwithin : (p.target timestamp - now).toNat ≤ p.tolerance.toNat :=
          Nat.le_of_not_lt fun hlong => hdue ⟨hbefore, hlong⟩
        omega
      · exact Nat.le_trans (Nat.le_of_not_lt hbefore) (Nat.le_add_right _ _)
    · show p.pacedCount + 1 + p.droppedCount = _
      ac_rfl

/-- A pass that sleeps counts how long, and nothing else. -/
theorem slept_pass {duration : Time} {after : Pacer}
    (h : p.pass timestamp now = .slept duration after) :
    after = { p with totalWait := p.totalWait + duration } := by
  rw [pass] at h
  iterate 5
    split at h
    · cases h
  split at h
  · cases h
    rfl
  · cases h

/-- What a call comes to, however often it has slept. -/
theorem right_wait {readings : List Time} {r : Returned} (hordered : p.Ordered)
    (henabled : p.enabled = true) (h : p.wait timestamp readings = some r) :
    p.Right timestamp r ∧ r.now ∈ readings := by
  induction readings generalizing p with
  | nil => cases h
  | cons now readings ih =>
      rw [wait] at h
      split at h
      case h_1 result dropped after hpass =>
        cases h
        exact ⟨right_pass hordered henabled hpass, List.mem_cons_self⟩
      case h_2 duration after hpass =>
        -- the fields that decide are those from before the sleep
        obtain rfl := slept_pass hpass
        have hordered' : Ordered { p with totalWait := p.totalWait + duration } := hordered
        obtain ⟨hright, hmem⟩ := ih hordered' henabled h
        exact ⟨⟨hright.ordered, hright.last, hright.enabled, hright.base, hright.released, hright.late,
          hright.dropped, hright.counted⟩, List.mem_cons_of_mem now hmem⟩

/-! ## All calls -/

/-- What is done with a pacer that is enabled.  The readings of a call are those of its passes. -/
inductive Operation
  | wait (timestamp : Time) (readings : List Time)
  | reset
  | configure (tolerance resetThreshold maxLateness : Time)
  deriving DecidableEq, Repr

/-- One operation; a call that does not come to its end is none. -/
def perform (p : Pacer) : Operation → Option Pacer
  | .wait timestamp readings => (p.wait timestamp readings).map Returned.after
  | .reset => some p.reset
  | .configure tolerance resetThreshold maxLateness =>
      some (p.configure tolerance resetThreshold maxLateness)

/-- So many operations, one after the other. -/
def performAll (p : Pacer) : List Operation → Option Pacer
  | [] => some p
  | operation :: operations => (p.perform operation).bind fun after => after.performAll operations

theorem perform_ordered {operation : Operation} {after : Pacer} (hordered : p.Ordered)
    (henabled : p.enabled = true) (h : p.perform operation = some after) :
    after.Ordered ∧ after.enabled = true := by
  cases operation with
  | wait timestamp readings =>
      obtain ⟨r, hwait, rfl⟩ := Option.map_eq_some_iff.mp h
      obtain ⟨hright, -⟩ := right_wait hordered henabled hwait
      exact ⟨hright.ordered, hright.enabled⟩
  | reset =>
      cases h
      exact ⟨BitVec.le_refl (0 : Time), henabled⟩
  | configure tolerance resetThreshold maxLateness =>
      cases h
      exact ⟨hordered, henabled⟩

theorem performAll_ordered {operations : List Operation} {after : Pacer} (hordered : p.Ordered)
    (henabled : p.enabled = true) (h : p.performAll operations = some after) :
    after.Ordered ∧ after.enabled = true := by
  induction operations generalizing p with
  | nil =>
      cases h
      exact ⟨hordered, henabled⟩
  | cons operation operations ih =>
      obtain ⟨middle, hfirst, hrest⟩ := Option.bind_eq_some_iff.mp h
      obtain ⟨hordered', henabled'⟩ := perform_ordered hordered henabled hfirst
      exact ih hordered' henabled' hrest

/-- **The rule of the pacer**, for every call that comes to its end after any operations on a
pacer that is enabled: the base is not behind the last timestamp; what is released with a
timestamp of its own is due by the reading, but for the tolerance; what is dropped is later than
the limit, and there is one; and one of the counts grows by one. -/
theorem release_rule (sleepQuantum : Time) (operations : List Operation) (p : Pacer)
    (timestamp : Time) (readings : List Time) (r : Returned)
    (hrun : ({ init with sleepQuantum := sleepQuantum }.setEnabled true).performAll operations =
      some p)
    (hcall : p.wait timestamp readings = some r) :
    p.Right timestamp r ∧ r.now ∈ readings := by
  have hinit : Ordered ({ init with sleepQuantum := sleepQuantum }.setEnabled true) :=
    BitVec.le_refl (0 : Time)
  obtain ⟨hordered, henabled⟩ := performAll_ordered hinit rfl hrun
  exact right_wait hordered henabled hcall

/-- Two calls: the second one sleeps once and is released when its time has come. -/
theorem release_rule_secondCall :
    ∃ p r, Right p 40000000 r ∧ r.now ∈ [(1010000000 : Time), 1020000000, 1030000000] ∧
      r.result = .ok ∧ r.now = 1030000000 :=
  ⟨_, _, (release_rule defaultSleepQuantum [.wait 10000000 [1000000000]] _ 40000000
    [1010000000, 1020000000, 1030000000] _ rfl rfl).1, by decide, rfl, rfl⟩

end Pacer

end Zstreamer.Clock

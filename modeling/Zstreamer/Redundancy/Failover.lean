/-
# What the failover says about the primary

The time of the last packet on the primary pad is noted at the end of the locked
section, after the test for duplicates has had its chance to return.  A primary
that is alive but a little slower than the backup delivers nothing but duplicates
and is never noted.  As long as the primary's packets are let through, the noted
time is the time of its latest packet, and the failover means what it says.
-/

import Zstreamer.Redundancy.Demux

namespace Zstreamer.Redundancy

open Foundation

/-- The packet is a duplicate or too old: not ahead of the highest number, and 2048 or more
behind it or with its flag set. -/
def Demux.Drops (s : Demux) (seq : BitVec 16) : Prop :=
  s.initialized = true ∧ (seq - s.highestSeq).toInt ≤ 0 ∧
    ((seq - s.highestSeq).toInt ≤ -2048 ∨ s.seenHistory (slot seq) = true)

instance (s : Demux) (seq : BitVec 16) : Decidable (s.Drops seq) :=
  inferInstanceAs (Decidable (_ ∧ _))

/-- These are the packets at which the locked section returns early. -/
theorem admit_eq_none_iff (s : Demux) (seq : BitVec 16) : s.admit seq = none ↔ s.Drops seq := by
  cases hinit : s.initialized with
  | false =>
      constructor
      · intro hnone
        rw [ Demux.admit, hinit] at hnone
        cases hnone
      · rintro ⟨htrue, -⟩
        rw [hinit] at htrue
        cases htrue
  | true =>
      by_cases hahead : (seq - s.highestSeq).toInt > 0
      · rw [admit_of_ahead hinit hahead]
        constructor
        · intro hsome
          cases hsome
        · rintro ⟨-, hle, -⟩
          omega
      · rw [admit_of_not_ahead hinit hahead, Demux.Drops]
        have hle : (seq - s.highestSeq).toInt ≤ 0 := not_lt.mp hahead
        by_cases hnear : (seq - s.highestSeq).toInt > -2048
        · rw [if_pos hnear]
          by_cases hseen : s.seenHistory (slot seq) = true
          · rw [if_pos hseen]
            exact iff_of_true rfl ⟨hinit, hle, .inr hseen⟩
          · rw [if_neg hseen]
            apply iff_of_false (Option.some_ne_none _)
            rintro ⟨-, -, hfar | hset⟩
            · omega
            · exact hseen hset
        · rw [if_neg hnear]
          exact iff_of_true rfl ⟨hinit, hle, .inl (not_lt.mp hnear)⟩

/-! ## Runs in time -/

/-- Time does not go back. -/
def InTime (s : Merge) : Action → Prop
  | .arrive _ _ _ now => s.clock ≤ now
  | .pass _ => True

/-- No packet of the primary is dropped, and the end of the detection interval is a time. -/
def PrimaryHeard (s : Merge) : Action → Prop
  | .arrive .primary _ buf _ => ¬ s.demux.Drops buf.seq
  | .arrive .backup _ _ _ =>
      s.demux.lastPrimaryTime.toNat + s.demux.failoverDetectionMs.toNat < 2 ^ 64
  | .pass _ => True

instance (s : Merge) (a : Action) : Decidable (InTime s a) := by
  cases a <;> unfold InTime <;> infer_instance

instance (s : Merge) (a : Action) : Decidable (PrimaryHeard s a) := by
  rcases a with ⟨pad, _, _, _⟩ | _
  · cases pad <;> unfold PrimaryHeard <;> infer_instance
  · unfold PrimaryHeard
    infer_instance

/-- The step goes over from the primary to the backup, or posts that it does. -/
def FailsOver (s s' : Merge) : Prop :=
  s.demux.currentLink = .primary ∧ s'.demux.currentLink = .backup ∨
  ∃ arrival, s'.log = arrival :: s.log ∧ arrival.output.event = some .redundancyFailover

/-- No packet came in on the primary during the detection interval up to now. -/
def PrimarySilent (s : Merge) : Prop :=
  ∀ arrival ∈ s.log, arrival.pad = .primary →
    arrival.now.toNat + s.demux.failoverDetectionMs.toNat < s.clock.toNat

instance (s : Merge) : Decidable (PrimarySilent s) :=
  inferInstanceAs (Decidable (∀ arrival ∈ s.log, _))

/-- The noted time is that of the latest packet of the primary, or later. -/
structure Noted (s : Merge) : Prop where
  primary : ∀ arrival ∈ s.log, arrival.pad = .primary →
    arrival.now.toNat ≤ s.demux.lastPrimaryTime.toNat
  past : s.demux.lastPrimaryTime ≤ s.clock

theorem supervise_primary (s : Demux) (now : BitVec 64) :
    (s.supervise .primary now).1.lastPrimaryTime = now ∧
    (s.supervise .primary now).1.currentLink = .primary ∧
    (s.supervise .primary now).2 ≠ some .redundancyFailover := by
  rw [Demux.supervise]
  split
  · exact ⟨rfl, rfl, fun h => by cases h⟩
  · rename_i hlink
    exact ⟨rfl, not_not.mp hlink, fun h => by cases h⟩

/-- The backup goes over when the sum of the noted time and the interval is past. -/
theorem supervise_backup (s : Demux) (now : BitVec 64) :
    s.supervise .backup now = (s, none) ∨
    now > s.lastPrimaryTime + s.failoverDetectionMs.signExtend 64 ∧
      s.supervise .backup now = ({ s with currentLink := .backup }, some .redundancyFailover) := by
  rw [Demux.supervise]
  split
  · rename_i hover
    exact .inr ⟨hover.2, rfl⟩
  · exact .inl rfl

/-- An interval that is not negative is added as it is, when the sum is a time. -/
theorem toNat_deadline {last : BitVec 64} {interval : BitVec 32} (hnonneg : 0 ≤ interval.toInt)
    (hfits : last.toNat + interval.toNat < 2 ^ 64) :
    (last + interval.signExtend 64).toNat = last.toNat + interval.toNat := by
  have hmsb : interval.msb = false := by
    rw [BitVec.msb_eq_toInt]
    exact decide_eq_false (not_lt.mpr hnonneg)
  rw [BitVec.signExtend_eq_setWidth_of_msb_false hmsb, BitVec.toNat_add, BitVec.toNat_setWidth,
    Nat.mod_eq_of_lt (lt_of_lt_of_le interval.isLt (by decide)), Nat.mod_eq_of_lt hfits]

/-! ## The two links -/

/-- A packet of the primary that is let through is noted, and goes over to nothing. -/
theorem Noted.arrivePrimary {s : Merge} (hs : Noted s) {number : ℤ} {buf : Buffer}
    {now : BitVec 64} (hlong : 12 ≤ buf.data.length) (htime : s.clock ≤ now)
    (hheard : ¬ s.demux.Drops buf.seq) :
    Noted (s.arrive .primary number buf now) ∧
    ¬ FailsOver s (s.arrive .primary number buf now) := by
  rcases push_cases s.demux .primary hlong now with ⟨hnone, -⟩ | ⟨admitted, haccept, hpush⟩
  · exact absurd ((admit_eq_none_iff _ _).mp hnone) hheard
  · obtain ⟨htimed, hlink, hevent⟩ := supervise_primary admitted now
    rw [Merge.arrive, hpush]
    constructor
    · constructor
      · intro arrival hmem hprimary
        rw [htimed]
        rcases List.mem_cons.mp hmem with rfl | hold
        · exact le_rfl
        · exact ((hs.primary arrival hold hprimary).trans hs.past).trans htime
      · exact (BitVec.le_of_eq htimed)
    · rintro (⟨-, hbackup⟩ | ⟨arrival, hlog, hposted⟩)
      · rw [hlink] at hbackup
        cases hbackup
      · obtain rfl := (List.cons.inj hlog).1
        exact hevent hposted

/-- A packet of the backup is not noted; if it goes over, the primary was silent. -/
theorem Noted.arriveBackup {s : Merge} (hs : Noted s) {number : ℤ} {buf : Buffer}
    {now : BitVec 64} (hlong : 12 ≤ buf.data.length) (htime : s.clock ≤ now)
    (hfits : s.demux.lastPrimaryTime.toNat + s.demux.failoverDetectionMs.toNat < 2 ^ 64) :
    Noted (s.arrive .backup number buf now) ∧
    (0 ≤ s.demux.failoverDetectionMs.toInt → FailsOver s (s.arrive .backup number buf now) →
      PrimarySilent (s.arrive .backup number buf now)) := by
  have hpast : s.demux.lastPrimaryTime ≤ now := BitVec.le_trans hs.past htime
  rcases push_cases s.demux .backup hlong now with ⟨-, hpush⟩ | ⟨admitted, haccept, hpush⟩
  · rw [Merge.arrive, hpush]
    constructor
    · refine ⟨fun arrival hmem hprimary => ?_, hpast⟩
      rcases List.mem_cons.mp hmem with rfl | hold
      · cases hprimary
      · exact hs.primary arrival hold hprimary
    · rintro - (⟨hprimary, hbackup⟩ | ⟨arrival, hlog, hposted⟩)
      · rw [hprimary] at hbackup
        cases hbackup
      · obtain rfl := (List.cons.inj hlog).1
        cases hposted
  · obtain ⟨hlink, hlast, hinterval⟩ := admit_links haccept
    rw [Merge.arrive, hpush]
    rcases supervise_backup admitted now with hstay | ⟨hover, hgo⟩
    · rw [hstay]
      constructor
      · refine ⟨fun arrival hmem hprimary => ?_, hlast ▸ hpast⟩
        rcases List.mem_cons.mp hmem with rfl | hold
        · cases hprimary
        · rw [hlast]
          exact hs.primary arrival hold hprimary
      · rintro - (⟨hprimary, hbackup⟩ | ⟨arrival, hlog, hposted⟩)
        · rw [hlink, hprimary] at hbackup
          cases hbackup
        · obtain rfl := (List.cons.inj hlog).1
          cases hposted
    · rw [hgo]
      have hnoted : ∀ arrival ∈ s.log, arrival.pad = .primary →
          arrival.now.toNat ≤ admitted.lastPrimaryTime.toNat := hlast ▸ hs.primary
      have hover : (s.demux.lastPrimaryTime + s.demux.failoverDetectionMs.signExtend 64).toNat <
          now.toNat := by
        rw [← hlast, ← hinterval]
        exact hover
      constructor
      · refine ⟨fun arrival hmem hprimary => ?_, hlast ▸ hpast⟩
        rcases List.mem_cons.mp hmem with rfl | hold
        · cases hprimary
        · exact hnoted arrival hold hprimary
      · intro hnonneg _ arrival hmem hprimary
        rw [toNat_deadline hnonneg hfits] at hover
        rcases List.mem_cons.mp hmem with rfl | hold
        · cases hprimary
        · have hbefore := hs.primary arrival hold hprimary
          calc arrival.now.toNat + admitted.failoverDetectionMs.toNat
              ≤ s.demux.lastPrimaryTime.toNat + s.demux.failoverDetectionMs.toNat := by
                rw [hinterval]
                exact Nat.add_le_add_right hbefore _
            _ < now.toNat := hover

/-- A packet that is pushed on changes neither link. -/
theorem not_failsOver_pass (s : Merge) (leaving forwarded : List Arrival) :
    ¬ FailsOver s { s with leaving := leaving, forwarded := forwarded } := by
  rintro (⟨hprimary, hbackup⟩ | ⟨arrival, hlog, -⟩)
  · rw [hprimary] at hbackup
    cases hbackup
  · exact List.cons_ne_self arrival s.log hlog.symm

/-- What every step of a run does. -/
theorem Noted.next {s s' : Merge} {a : Action} (hs : Noted s) (htime : InTime s a)
    (hheard : PrimaryHeard s a) (hstep : next s a = some s') :
    Noted s' ∧ (0 ≤ s.demux.failoverDetectionMs.toInt → FailsOver s s' → PrimarySilent s') := by
  rcases next_cases hstep with ⟨pad, number, buf, now, rfl, ⟨hlong, -⟩, rfl⟩ |
    ⟨turn, arrival, rfl, -, rfl⟩
  · cases pad with
    | primary =>
        obtain ⟨hnoted, hstay⟩ := hs.arrivePrimary hlong htime hheard
        exact ⟨hnoted, fun _ hover => absurd hover hstay⟩
    | backup => exact hs.arriveBackup hlong htime hheard
  · exact ⟨⟨hs.primary, hs.past⟩, fun _ hover => absurd hover (not_failsOver_pass s _ _)⟩

/-- **A failover means that the primary was silent**, in every run in which time does not go
back and no packet of the primary is dropped. -/
theorem failover_means_silence {s s' : Merge} {a : Action}
    (hs : system.ReachableVia (fun s a => InTime s a ∧ PrimaryHeard s a) s)
    (htime : InTime s a) (hheard : PrimaryHeard s a) (hstep : next s a = some s')
    (hnonneg : 0 ≤ s.demux.failoverDetectionMs.toInt) (hover : FailsOver s s') :
    PrimarySilent s' := by
  have hnoted : Noted s := by
    apply hs.invariant
    · rintro s ⟨failoverDetectionMs, now, rfl⟩
      exact ⟨nofun, BitVec.le_refl now⟩
    · intro s a s' _ hinv hallowed hstep
      exact (hinv.next hallowed.1 hallowed.2 hstep).1
  exact (hnoted.next htime hheard hstep).2 hnonneg hover

/-- A header that carries a sequence number below 256. -/
def numbered (low : UInt8) : Buffer :=
  ⟨[0x80, 96, 0, low, 0, 0, 0, 0, 0, 0, 0, 0], false⟩

/-- Two packets on the primary, then it is silent for 501 milliseconds. -/
def silentRun : List Action :=
  [.arrive .primary 1 (numbered 1) 10, .pass 0, .arrive .backup 1 (numbered 1) 20,
    .arrive .primary 2 (numbered 2) 30, .pass 0, .arrive .backup 2 (numbered 2) 40]

theorem failover_means_silence_run :
    ∃ s s' : Merge, FailsOver s s' ∧ PrimarySilent s' := by
  obtain ⟨s, hrun, hs⟩ := Option.map_eq_some_iff.mp
    (show ((system.restrict fun s a => InTime s a ∧ PrimaryHeard s a).run
        (Merge.opened 500 0) silentRun).map
        (fun s => decide (InTime s (.arrive .backup 3 (numbered 3) 531) ∧
          PrimaryHeard s (.arrive .backup 3 (numbered 3) 531) ∧
          0 ≤ s.demux.failoverDetectionMs.toInt ∧ s.demux.currentLink = .primary ∧
          (s.arrive .backup 3 (numbered 3) 531).demux.currentLink = .backup)) = some true by
      decide +kernel)
  obtain ⟨htime, hheard, hnonneg, hprimary, hbackup⟩ := of_decide_eq_true hs
  have hinit : (system.restrict fun s a => InTime s a ∧ PrimaryHeard s a).init
      (Merge.opened 500 0) := ⟨500, 0, rfl⟩
  have hreach := System.Reachable.of_restrict (System.Reachable.run (.start hinit) hrun)
  have hover : FailsOver s (s.arrive .backup 3 (numbered 3) 531) := .inl ⟨hprimary, hbackup⟩
  exact ⟨s, _, hover, failover_means_silence hreach htime hheard
    (next_arrive s .backup 531 (by decide)) hnonneg hover⟩

/-- The primary delivers every packet one millisecond after the backup. -/
def slowerRun : List Action :=
  [.arrive .backup 1 (numbered 1) 250, .arrive .primary 1 (numbered 1) 251,
    .arrive .backup 2 (numbered 2) 500, .arrive .primary 2 (numbered 2) 501]

/-- **A primary that is alive is taken to have failed**: the element goes over to the backup at
502 milliseconds with a detection interval of 500, one millisecond after a packet of the
primary. -/
theorem slower_primary_fails_over :
    ∃ s : Merge, system.ReachableVia InTime s ∧
      (system.restrict InTime).run (Merge.opened 500 0) slowerRun = some s ∧
      InTime s (.arrive .backup 3 (numbered 3) 502) ∧
      next s (.arrive .backup 3 (numbered 3) 502) =
        some (s.arrive .backup 3 (numbered 3) 502) ∧
      FailsOver s (s.arrive .backup 3 (numbered 3) 502) ∧
      ¬ PrimarySilent (s.arrive .backup 3 (numbered 3) 502) := by
  obtain ⟨s, hrun, hs⟩ := Option.map_eq_some_iff.mp
    (show ((system.restrict InTime).run (Merge.opened 500 0) slowerRun).map
        (fun s => decide (InTime s (.arrive .backup 3 (numbered 3) 502) ∧
          s.demux.currentLink = .primary ∧
          (s.arrive .backup 3 (numbered 3) 502).demux.currentLink = .backup ∧
          ¬ PrimarySilent (s.arrive .backup 3 (numbered 3) 502))) = some true by
      decide +kernel)
  obtain ⟨htime, hprimary, hbackup, hheard⟩ := of_decide_eq_true hs
  have hinit : (system.restrict InTime).init (Merge.opened 500 0) := ⟨500, 0, rfl⟩
  have hreach := System.Reachable.of_restrict (System.Reachable.run (.start hinit) hrun)
  exact ⟨s, hreach, hrun, htime, next_arrive s .backup 502 (by decide), .inl ⟨hprimary, hbackup⟩, hheard⟩

end Zstreamer.Redundancy

/-
# The timeline of the mixer

The time of a block is the time behind the last block, or that of a pending buffer if this is
earlier.  So the blocks go forward exactly in the runs in which no buffer that begins before the end
of the last block is at the head of an input when a block is made.
-/

import Mathlib.Data.List.Chain
import Zstreamer.Mixer.Worker

namespace Zstreamer.Mixer

open Foundation

variable {σ : Type}

/-! ## The time of a block -/

/-- The loop finds a time that is no later than what it began with and than every buffer, and that
is one of them. -/
theorem consider_pts (sampleRate : BitVec 32) (ws : List (Buffer σ × Frame σ)) {t : Seeking}
    {pts : BitVec 64} (ht : t.pts = some pts) :
    ∃ found, (ws.foldl (Seeking.consider sampleRate) t).pts = some found ∧ found ≤ pts ∧
      (∀ w ∈ ws, found ≤ w.1.pts) ∧ (found = pts ∨ ∃ w ∈ ws, found = w.1.pts) := by
  induction ws generalizing t pts with
  | nil => exact ⟨pts, ht, BitVec.le_refl pts, nofun, .inl rfl⟩
  | cons w ws ih =>
      rw [List.foldl_cons]
      by_cases hle : pts ≤ w.1.pts
      · have hkeep : (t.consider sampleRate w).pts = some pts := by
          rw [Seeking.consider, ht, Option.any_some, if_pos (decide_eq_true hle)]
        obtain ⟨found, hfound, hless, hall, hone⟩ := ih hkeep
        refine ⟨found, hfound, hless, List.forall_mem_cons.mpr ⟨BitVec.le_trans hless hle, hall⟩, ?_⟩
        exact hone.imp_right fun ⟨v, hv, heq⟩ => ⟨v, List.mem_cons_of_mem w hv, heq⟩
      · have hnew : (t.consider sampleRate w).pts = some w.1.pts := by
          rw [Seeking.consider, ht, Option.any_some, if_neg (by rwa [decide_eq_true_iff])]
        obtain ⟨found, hfound, hless, hall, hone⟩ := ih hnew
        refine ⟨found, hfound, BitVec.le_trans hless (BitVec.le_of_lt (BitVec.not_le.mp hle)),
          List.forall_mem_cons.mpr ⟨hless, hall⟩, .inr ?_⟩
        rcases hone with heq | ⟨v, hv, heq⟩
        · exact ⟨w, List.mem_cons_self, heq⟩
        · exact ⟨v, List.mem_cons_of_mem w hv, heq⟩

/-- The loop keeps a number of samples that is there. -/
theorem consider_samples (sampleRate : BitVec 32) (ws : List (Buffer σ × Frame σ)) {t : Seeking}
    (ht : t.samples ≠ 0) : (ws.foldl (Seeking.consider sampleRate) t).samples = t.samples := by
  induction ws generalizing t with
  | nil => rfl
  | cons w ws ih =>
      have hkeep : (t.consider sampleRate w).samples = t.samples := if_neg ht
      rw [List.foldl_cons, ih (by rwa [hkeep]), hkeep]

/-- A target comes from a time and a number of samples. -/
theorem target_spec {sampleRate : BitVec 32} {seek : Seeking} {t : Target}
    (h : seek.target sampleRate = some t) : seek.pts = some t.pts ∧ t.samples ≠ 0 := by
  obtain ⟨pts, hpts, h⟩ := Option.bind_eq_some_iff.mp h
  by_cases hsamples : seek.samples = 0
  · rw [if_pos hsamples] at h
    cases h
  · rw [if_neg hsamples] at h
    cases h
    exact ⟨hpts, hsamples⟩

theorem target_isSome {sampleRate : BitVec 32} {seek : Seeking} {pts : BitVec 64}
    (hpts : seek.pts = some pts) (hsamples : seek.samples ≠ 0) :
    ∃ t, seek.target sampleRate = some t ∧ t.pts = pts := by
  rw [Seeking.target, hpts, Option.bind_some, if_neg hsamples]
  exact ⟨_, rfl, rfl⟩

/-! ## The timeline -/

/-- Where a block ends. -/
def Block.stop (b : Block σ) : ℕ := b.pts.toNat + b.duration.toNat

/-- Every block begins where the one before it ends, or later. -/
def Forward (blocks : List (Block σ)) : Prop := blocks.IsChain fun b next => b.stop ≤ next.pts.toNat

/-- When a block is made, no buffer that begins before the end of the last block is at the head of
an input, and this end fits in 64 bits. -/
def OnTime (s : Worker σ) : Action σ → Prop
  | .turn _ => s.GoesOn → ∀ last ∈ s.pushed.getLast?,
      last.stop < 2 ^ 64 ∧ ∀ w ∈ s.heads, last.stop ≤ w.1.pts.toNat
  | _ => True

instance (s : Worker σ) : ∀ a, Decidable (OnTime s a)
  | .turn _ => inferInstanceAs (Decidable (_ → ∀ last ∈ s.pushed.getLast?, _))
  | .finish | .arrive .. | .eos _ | .requestPad | .releasePad _ | .setMute .. | .setLatency _ =>
      .isTrue trivial

/-- What is kept: the blocks go forward, and the worker knows where the last one ends. -/
structure Steady (s : Worker σ) : Prop where
  forward : Forward s.pushed
  nextPts : s.nextPts = s.pushed.getLast?.map fun b => b.pts + b.duration
  samples : s.pushed ≠ [] → s.blockSamples ≠ 0

/-- What a turn does. -/
theorem turn_cases {s s' : Worker σ} {late : List (ℕ × Buffer σ)} (h : s.turn late = some s') :
    s.GoesOn ∧ ((s.target = none ∧ s'.pushed = s.pushed ∧ s'.nextPts = s.nextPts ∧
        s'.blockSamples = s.blockSamples) ∨
      ∃ t b, s.target = some t ∧ s'.pushed = s.pushed ++ [b] ∧ b.pts = t.pts ∧
        b.duration = t.duration ∧ s'.nextPts = some (t.pts + t.duration) ∧
        s'.blockSamples = t.samples) := by
  rw [Worker.turn] at h
  split at h
  case isFalse => cases h
  case isTrue hgo =>
      refine ⟨hgo, ?_⟩
      split at h
      case h_1 htarget =>
          cases h
          exact .inl ⟨htarget, rfl, rfl, rfl⟩
      case h_2 t htarget =>
          cases h
          exact .inr ⟨t, _, htarget, rfl, rfl, rfl, rfl, rfl⟩

/-- What the others do leaves the timeline as it is. -/
theorem next_keeps {s s' : Worker σ} {a : Action σ} (hturn : ∀ late, a ≠ .turn late)
    (h : s.next a = some s') :
    s'.pushed = s.pushed ∧ s'.nextPts = s.nextPts ∧ s'.blockSamples = s.blockSamples := by
  cases a with
  | turn late => exact absurd rfl (hturn late)
  | finish =>
      rw [Worker.next] at h
      split at h
      case isTrue =>
          cases h
          exact ⟨rfl, rfl, rfl⟩
      case isFalse => cases h
  | requestPad =>
      cases h
      rw [Worker.requestPad]
      split
      · split <;> exact ⟨rfl, rfl, rfl⟩
      · exact ⟨rfl, rfl, rfl⟩
  | arrive | eos | releasePad | setMute | setLatency =>
      cases h
      exact ⟨rfl, rfl, rfl⟩

theorem forward_append {blocks : List (Block σ)} {b : Block σ} :
    Forward (blocks ++ [b]) ↔
      Forward blocks ∧ ∀ last ∈ blocks.getLast?, last.stop ≤ b.pts.toNat := by
  rw [Forward, List.isChain_append]
  refine and_congr_right fun _ => ⟨fun h last hlast => h.2 last hlast b rfl, fun h =>
    ⟨.singleton b, fun last hlast next hnext => ?_⟩⟩
  cases hnext
  exact h last hlast

/-- The next block begins behind the last one exactly if the end of this fits and no head is
early. -/
theorem stop_le_iff {s : Worker σ} (h : Steady s) {last : Block σ} (hlast : s.pushed.getLast? = some last)
    {t : Target} (ht : s.target = some t) :
    last.stop ≤ t.pts.toNat ↔ last.stop < 2 ^ 64 ∧ ∀ w ∈ s.heads, last.stop ≤ w.1.pts.toNat := by
  have hnext : s.nextPts = some (last.pts + last.duration) := by rw [h.nextPts, hlast, Option.map_some]
  obtain ⟨found, hfound, hless, hall, hone⟩ := consider_pts s.sampleRate s.heads
    (t := ⟨s.nextPts, s.blockSamples, s.blockDuration⟩) hnext
  obtain rfl : found = t.pts := Option.some.inj (hfound.symm.trans (target_spec ht).1)
  have hend : (last.pts + last.duration).toNat = last.stop % 2 ^ 64 := BitVec.toNat_add _ _
  constructor
  · intro hle
    exact ⟨Nat.lt_of_le_of_lt hle t.pts.isLt, fun w hw => hle.trans (BitVec.le_def.mp (hall w hw))⟩
  · rintro ⟨hfits, hheads⟩
    rcases hone with heq | ⟨w, hw, heq⟩
    · rw [heq, hend, Nat.mod_eq_of_lt hfits]
    · rw [heq]
      exact hheads w hw

/-- Behind the first block every turn makes one. -/
theorem target_of_pushed {s : Worker σ} (h : Steady s) {last : Block σ}
    (hlast : s.pushed.getLast? = some last) : ∃ t, s.target = some t := by
  have hnext : s.nextPts = some (last.pts + last.duration) := by rw [h.nextPts, hlast, Option.map_some]
  obtain ⟨found, hfound, -⟩ := consider_pts s.sampleRate s.heads
    (t := ⟨s.nextPts, s.blockSamples, s.blockDuration⟩) hnext
  have hsamples : s.blockSamples ≠ 0 := by
    refine h.samples fun hnil => ?_
    rw [hnil] at hlast
    cases hlast
  have hkept := consider_samples s.sampleRate s.heads
    (t := ⟨s.nextPts, s.blockSamples, s.blockDuration⟩) hsamples
  obtain ⟨t, ht, -⟩ := @target_isSome s.sampleRate _ _ hfound (by rwa [hkept])
  exact ⟨t, ht⟩

/-- Actions that are on time keep the worker steady. -/
theorem Steady.next {s s' : Worker σ} {a : Action σ} (h : Steady s) (ha : OnTime s a)
    (hnext : s.next a = some s') : Steady s' := by
  by_cases hturn : ∃ late, a = .turn late
  · obtain ⟨late, rfl⟩ := hturn
    obtain ⟨hgo, ⟨-, hpushed, hpts, hsamples⟩ | ⟨t, b, ht, hpushed, hbpts, hbdur, hpts, hsamples⟩⟩ :=
      turn_cases hnext
    · refine ⟨?_, ?_, ?_⟩
      · rw [hpushed]
        exact h.forward
      · rw [hpushed, hpts, h.nextPts]
      · rw [hpushed, hsamples]
        exact h.samples
    · refine ⟨?_, ?_, fun _ => ?_⟩
      · rw [hpushed, forward_append]
        refine ⟨h.forward, fun last hlast => ?_⟩
        rw [hbpts]
        exact (stop_le_iff h hlast ht).mpr (ha hgo last hlast)
      · rw [hpushed, hpts, List.getLast?_concat, Option.map_some, hbpts, hbdur]
      · rw [hsamples]
        exact (target_spec ht).2
  · obtain ⟨hpushed, hpts, hsamples⟩ := next_keeps (fun late heq => hturn ⟨late, heq⟩) hnext
    refine ⟨?_, ?_, ?_⟩
    · rw [hpushed]
      exact h.forward
    · rw [hpushed, hpts, h.nextPts]
    · rw [hpushed, hsamples]
      exact h.samples

/-- An action that is not steps back. -/
theorem steps_back {s : Worker σ} {a : Action σ} (h : Steady s) (ha : ¬ OnTime s a) :
    ∃ s', s.next a = some s' ∧ ¬ Forward s'.pushed := by
  cases a with
  | finish | arrive | eos | requestPad | releasePad | setMute | setLatency => exact absurd trivial ha
  | turn late =>
      rw [OnTime, Classical.not_imp] at ha
      obtain ⟨hgo, hlate⟩ := ha
      push Not at hlate
      obtain ⟨last, hlast, hearly⟩ := hlate
      obtain ⟨t, ht⟩ := target_of_pushed h hlast
      refine ⟨_, by rw [Worker.next, Worker.turn, if_pos hgo, ht], fun hforward => ?_⟩
      have hle := (forward_append.mp hforward).2 last hlast
      obtain ⟨hfits, hheads⟩ := (stop_le_iff h hlast ht).mp hle
      obtain ⟨w, hw, hless⟩ := hearly hfits
      exact absurd (hheads w hw) (Nat.not_le.mpr hless)

/-- **The blocks go forward throughout a run exactly if all its turns are on time.** -/
theorem forward_iff_onTime {s : Worker σ} (hs : (system σ).init s) (actions : List (Action σ)) :
    (system σ).Throughout (fun s => Forward s.pushed) s actions ↔ (system σ).Along OnTime s actions := by
  refine System.throughout_iff_along (I := Steady) (fun s h => h.forward)
    (fun s a s' h ha hnext => h.next ha hnext) (fun s a h ha => steps_back h ha)
    ⟨?_, ?_, ?_⟩ actions
  · rw [hs.pushed]
    exact .nil
  · rw [hs.pushed, hs.nextPts]
    rfl
  · rw [hs.pushed]
    exact fun hnil => absurd rfl hnil

/-! ## A buffer that comes late -/

/-- A buffer of one sample. -/
def tick (pts : BitVec 64) : Buffer Unit :=
  ⟨pts, 10, some ⟨1, 48000, 1, fmtF32le, some [()], by
    intro samples h
    cases h
    rfl⟩⟩

/-- A mixer that has been started, with one input. -/
def idle : Worker Unit := ⟨[.fresh], 48000, 20, 0, 0, none, false, []⟩

theorem idle_started : (system Unit).init idle := ⟨rfl, rfl, rfl⟩

/-- Three buffers with a gap before the third, and their blocks; there is a block for the gap. -/
def ticks : List (Action Unit) :=
  [.arrive 0 (tick 1000), .turn [], .arrive 0 (tick 1010), .arrive 0 (tick 1030), .turn [],
    .turn [], .turn []]

theorem forward_iff_onTime_ticks :
    (system Unit).Throughout (fun s => Forward s.pushed) idle ticks ∧
      ((system Unit).run idle ticks).map (fun s => s.pushed.map fun b => (b.pts.toNat, b.stop)) =
        some [(1000, 1010), (1010, 1020), (1020, 1030), (1030, 1040)] :=
  ⟨(forward_iff_onTime idle_started ticks).mpr (by decide +kernel), by decide +kernel⟩

/-- A buffer that comes behind one that is later steps the blocks back. -/
theorem late_buffer_steps_back :
    ¬ ∀ s, (system Unit).Reachable s → Forward s.pushed := by
  intro h
  have hrun : (((system Unit).run idle
      [.arrive 0 (tick 1000), .turn [], .arrive 0 (tick 500), .turn []]).map fun s =>
        s.pushed.map fun b => (b.pts.toNat, b.stop)) = some [(1000, 1010), (500, 510)] := by
    decide +kernel
  obtain ⟨s, hs, hpushed⟩ := Option.map_eq_some_iff.mp hrun
  have hforward := h s (System.Reachable.run (.start idle_started) hs)
  obtain ⟨b, rest, hb, hbpair, hrest⟩ := List.map_eq_cons_iff.mp hpushed
  obtain ⟨b', rest', hb', hbpair', -⟩ := List.map_eq_cons_iff.mp hrest
  rw [hb, hb'] at hforward
  have hle := (List.isChain_cons_cons.mp hforward).1
  have hstop : b.stop = 1010 := congrArg Prod.snd hbpair
  have hpts : b'.pts.toNat = 500 := congrArg Prod.fst hbpair'
  omega

end Zstreamer.Mixer

/-
# What a rejected period leaves behind

`receive_period` checks the counter of the periods once more when it has copied a period, and
puts two indices back if the period may have been overwritten in the meantime.  That leaves the
queue as it was as long as the copy went into slots that were not used.  Where room had to be
made, the slots of the oldest frames hold the rejected ones.
-/

import Zstreamer.Dep.Fifo

namespace Zstreamer.Dep

open Foundation

namespace Endpoint

/-- The same frames are held, with the same times, and no frame counts as dropped. -/
def LeftAlone (ep ep' : Endpoint) : Prop :=
  ep'.held = ep.held ∧ ep'.droppedFrames = ep.droppedFrames

instance (ep ep' : Endpoint) : Decidable (LeftAlone ep ep') :=
  inferInstanceAs (Decidable (_ ∧ _))

/-- There is room for so many frames, or there is nothing to drop. -/
def DropsNothing (ep : Endpoint) (frames : ℕ) : Prop :=
  ep.usedFrames = 0 ∨ frames ≤ ep.capacityFrames - ep.usedFrames

instance (ep : Endpoint) (frames : ℕ) : Decidable (ep.DropsNothing frames) :=
  inferInstanceAs (Decidable (_ ∨ _))

/-- How many frames count as dropped when room is made. -/
theorem makeRoom_dropped (ep : Endpoint) (n : ℕ) :
    (ep.makeRoom n).droppedFrames = ep.droppedFrames +
      min (n - (ep.capacityFrames - ep.usedFrames)) ep.usedFrames := by
  rw [makeRoom]
  split
  case isTrue hfull =>
      show ep.droppedFrames + (if _ > ep.usedFrames then ep.usedFrames else _) = _
      split <;> omega
  case isFalse hroom =>
      have hnone : n - (ep.capacityFrames - ep.usedFrames) = 0 := by omega
      rw [hnone, Nat.zero_min, Nat.add_zero]

/-- Slots that are not used are copied to. -/
theorem window_copyFrames {ep : Endpoint} {n : ℕ} (hroom : ep.usedFrames + n ≤ ep.capacityFrames)
    (frame : ℕ → ℕ → Sample) (time : ℕ → ℕ) :
    window (fun s => Frame.mk (frameOf ep.channelCount (ep.copyFrames frame n) s)
        (writeAll ep.freeSlot time n ep.timestamps s)) ep.capacityFrames ep.readFrame
        ep.usedFrames = ep.held := by
  have hall := held_append hroom frame time
  have htake := window_take (fun s => Frame.mk (frameOf ep.channelCount (ep.copyFrames frame n) s)
    (writeAll ep.freeSlot time n ep.timestamps s)) ep.capacityFrames ep.readFrame
    (Nat.le_add_right ep.usedFrames n)
  rw [htake, hall, List.take_left' (length_held ep)]

section Rejected

variable {m : Metadata} {ep ep' : Endpoint} {period pts latest latest' : ℕ}
  {seen : ℕ → ℕ → Sample}

/-- A rejected period puts the indices back. -/
theorem rejected_setup (h : ep.Sound) (hperiod : m.samplesPerPeriod ≤ ep.capacityFrames)
    (hrejected : ep.receivePeriod m period pts latest latest' seen = (false, ep')) :
    SameSetup ep ep' ∧ ep'.Sound ∧ ep'.usedFrames = ep.usedFrames := by
  rw [receivePeriod] at hrejected
  split at hrejected
  case isTrue =>
      obtain rfl := (Prod.mk.inj hrejected).2
      exact ⟨SameSetup.refl _, h, rfl⟩
  case isFalse =>
      dsimp only at hrejected
      split at hrejected
      case isFalse => exact absurd (Prod.mk.inj hrejected).1 Bool.noConfusion
      case isTrue =>
        obtain rfl := (Prod.mk.inj hrejected).2
        obtain ⟨hsame, -⟩ := makeRoom_spec h hperiod
        exact ⟨⟨hsame.direction, hsame.channelMap, hsame.txLeadUs, hsame.capacityFrames,
          hsame.blockSamples, hsame.configured, hsame.sampleRate, hsame.enabled⟩,
          ⟨h.used.trans_eq hsame.capacityFrames.symm, h.read.trans_eq hsame.capacityFrames.symm⟩,
          rfl⟩

/-- **A rejected period for which nothing is dropped** leaves the frames that are held. -/
theorem rejected_held (h : ep.Sound)
    (hrejected : ep.receivePeriod m period pts latest latest' seen = (false, ep'))
    (hroom : m.Rejects latest period ∨ ep.DropsNothing m.samplesPerPeriod) :
    ep'.held = ep.held := by
  rw [receivePeriod] at hrejected
  split at hrejected
  case isTrue =>
      obtain rfl := (Prod.mk.inj hrejected).2
      rfl
  case isFalse hfirst =>
      dsimp only at hrejected
      split at hrejected
      case isFalse => exact absurd (Prod.mk.inj hrejected).1 Bool.noConfusion
      case isTrue =>
        obtain rfl := (Prod.mk.inj hrejected).2
        rcases hroom.resolve_left hfirst with hempty | hroom
        · have hnone : ∀ (cell : ℕ → Frame) (cap start : ℕ),
              window cell cap start ep.usedFrames = [] := by
            intro cell cap start
            rw [hempty]
            rfl
          exact (hnone _ _ _).trans (hnone _ _ _).symm
        · have hstays : ep.makeRoom m.samplesPerPeriod = ep := if_neg (by omega)
          have hused := h.used
          rw [hstays]
          exact window_copyFrames (by omega) seen (frameTime m pts)

/-- How many frames count as dropped for a period that is rejected when it has been copied. -/
theorem rejected_dropped (hfirst : ¬ m.Rejects latest period)
    (hrejected : ep.receivePeriod m period pts latest latest' seen = (false, ep')) :
    ep'.droppedFrames = (ep.makeRoom m.samplesPerPeriod).droppedFrames := by
  rw [receivePeriod, if_neg hfirst] at hrejected
  dsimp only at hrejected
  split at hrejected
  case isFalse => exact absurd (Prod.mk.inj hrejected).1 Bool.noConfusion
  case isTrue =>
      obtain rfl := (Prod.mk.inj hrejected).2
      rfl

end Rejected

/-- **A rejected period leaves the queue alone** if and only if it is rejected before it is copied,
or no frame was dropped for it. -/
theorem leftAlone_iff {m : Metadata} {ep ep' : Endpoint} (h : ep.Sound)
    {period pts latest latest' : ℕ} {seen : ℕ → ℕ → Sample}
    (hrejected : ep.receivePeriod m period pts latest latest' seen = (false, ep')) :
    LeftAlone ep ep' ↔ m.Rejects latest period ∨ ep.DropsNothing m.samplesPerPeriod := by
  have hdropped := makeRoom_dropped ep m.samplesPerPeriod
  constructor
  · rintro ⟨-, hsame⟩
    by_cases hfirst : m.Rejects latest period
    · exact .inl hfirst
    · rw [rejected_dropped hfirst hrejected] at hsame
      right
      rw [DropsNothing]
      omega
  · refine fun hroom => ⟨rejected_held h hrejected hroom, ?_⟩
    by_cases hfirst : m.Rejects latest period
    · rw [receivePeriod, if_pos hfirst] at hrejected
      obtain rfl := (Prod.mk.inj hrejected).2
      rfl
    · rw [rejected_dropped hfirst hrejected]
      have hroom := hroom.resolve_left hfirst
      rw [DropsNothing] at hroom
      omega

/-- A period that is rejected when there is room for it. -/
theorem leftAlone_attached :
    LeftAlone (attached .rx)
      ((attached .rx).receivePeriod ⟨48000, 8, 2⟩ 4 0 5 9 fun _ _ => 7).2 :=
  (@leftAlone_iff ⟨48000, 8, 2⟩ _ _ (attached_prepared .rx).sound 4 0 5 9 (fun _ _ => 7)
    (Prod.ext (by decide) rfl)).mpr (.inr (.inr (by decide)))

/-- A full queue with frames of its own. -/
def full : Endpoint :=
  { attached .rx with
    usedFrames := 4
    samples := fun i => BitVec.ofNat 32 i
    timestamps := fun i => i }

/-- **A rejected period takes the place of the oldest frames.** -/
theorem full_not_leftAlone :
    let out := full.receivePeriod ⟨48000, 8, 2⟩ 4 100 5 9 fun _ _ => 7
    out.1 = false ∧
      full.held = [⟨[6, 7], 3⟩, ⟨[0, 1], 0⟩, ⟨[2, 3], 1⟩, ⟨[4, 5], 2⟩] ∧
      out.2.held = [⟨[7, 7], 100⟩, ⟨[7, 7], 20933⟩, ⟨[2, 3], 1⟩, ⟨[4, 5], 2⟩] ∧
      full.droppedFrames = 0 ∧ out.2.droppedFrames = 2 ∧ ¬ LeftAlone full out.2 := by
  decide

end Endpoint

end Zstreamer.Dep

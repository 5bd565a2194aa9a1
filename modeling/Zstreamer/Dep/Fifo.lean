/-
# The queue of a DEP endpoint is a list that drops its oldest frames

The frames that are used are a window of the array.  `Endpoint.refines` says that writing and
transmitting, and receiving and reading, do to them what the same operations do to a list, at
every position of the window.
-/

import Zstreamer.Dep.Endpoint
import Zstreamer.Foundation.Refinement

namespace Zstreamer.Dep

open Foundation List

/-- The samples of one frame in an array. -/
def frameOf (channels : ℕ) (samples : ℕ → Sample) (slot : ℕ) : List Sample :=
  (range channels).map fun c => samples (slot * channels + c)

/-- A frame that has been received. -/
structure Frame where
  samples : List Sample
  time : ℕ
  deriving DecidableEq, Repr

/-- The frames that something gives the samples of. -/
def framesOf (channels : ℕ) (frame : ℕ → ℕ → Sample) (frames : ℕ) : List (List Sample) :=
  (range frames).map fun i => (range channels).map (frame i)

/-- The frames of a period, with their times. -/
def periodFrames (m : Metadata) (channels pts : ℕ) (seen : ℕ → ℕ → Sample) : List Frame :=
  (range m.samplesPerPeriod).map fun i =>
    ⟨(range channels).map (seen i), Endpoint.frameTime m pts i⟩

/-- So many frames: the first ones of a list, followed by frames of zeros. -/
def padded (channels n : ℕ) (l : List (List Sample)) : List (List Sample) :=
  l.take n ++ replicate (n - l.length) (replicate channels 0)

/-- How the frames of a period are written to the rings, from a position on. -/
def ringWrites (m : Metadata) (channelMap : List ℕ) (start : ℕ) (l : List (List Sample)) :
    List Endpoint.PlaneWrite :=
  (range m.samplesPerPeriod).flatMap fun i =>
    (range channelMap.length).map fun c =>
      ⟨channelMap.getD c 0, (start + i) % m.samplesPerChannel, (l.getD i []).getD c 0⟩

theorem length_framesOf (channels : ℕ) (frame : ℕ → ℕ → Sample) (n : ℕ) :
    (framesOf channels frame n).length = n := by
  rw [framesOf, length_map, length_range]

/-- The frames behind the first. -/
theorem framesOf_drop (channels : ℕ) (frame : ℕ → ℕ → Sample) {n k : ℕ} (hk : k ≤ n) :
    (framesOf channels frame n).drop k = framesOf channels (fun i => frame (k + i)) (n - k) := by
  obtain ⟨m, rfl⟩ := Nat.exists_eq_add_of_le hk
  have hfirst : ((range k).map fun i => (range channels).map (frame i)).length = k :=
    length_framesOf channels frame k
  rw [framesOf, range_add, map_append, drop_left' hfirst, Nat.add_sub_cancel_left,
    map_map]
  rfl

namespace Endpoint

/-- The frames that are used. -/
def frames (ep : Endpoint) : List (List Sample) :=
  window ep.frameAt ep.capacityFrames ep.readFrame ep.usedFrames

/-- What is in a slot of an endpoint that receives. -/
def cell (ep : Endpoint) (slot : ℕ) : Frame := ⟨ep.frameAt slot, ep.timestamps slot⟩

/-- The frames that are used, with their times. -/
def held (ep : Endpoint) : List Frame :=
  window ep.cell ep.capacityFrames ep.readFrame ep.usedFrames

/-- The window is a window of the array. -/
structure Sound (ep : Endpoint) : Prop where
  used : ep.usedFrames ≤ ep.capacityFrames
  read : ep.readFrame < ep.capacityFrames

/-- An endpoint that is prepared for the periods of the rings. -/
structure Prepared (m : Metadata) (ep : Endpoint) : Prop where
  sound : ep.Sound
  period : m.samplesPerPeriod ≤ ep.capacityFrames
  configured : ep.configuredPeriodSamples = m.samplesPerPeriod
  wanted : ep.wanted ≤ uint32Max
  size : ep.capacityFrames * ep.channelCount ≤ uint64Max / 4
  enabled : ep.enabled = true

/-- **What `endpoint_prepare` prepares is prepared**, when the endpoint was sound or has not been
prepared before. -/
theorem prepare_prepared {m : Metadata} {ep ep' : Endpoint}
    (h : ep.prepare m.samplesPerPeriod m.sampleRate = some ep')
    (hsound : ep.usedFrames ≤ ep.capacityFrames ∧
      (0 < ep.capacityFrames → ep.readFrame < ep.capacityFrames))
    (hblock : ep.blockSamples ≤ uint32Max) (hperiod : m.samplesPerPeriod ≤ uint32Max)
    (henabled : ep.enabled = true) : Prepared m ep' := by
  rw [prepare] at h
  split at h
  case isTrue => cases h
  case isFalse hproduct =>
    obtain ⟨-, hpos⟩ := not_or.mp hproduct
    dsimp only at h
    obtain ⟨frames, hframes⟩ : ∃ frames, frames =
        if ep.blockSamples > ep.queuePeriods * m.samplesPerPeriod then ep.blockSamples
        else ep.queuePeriods * m.samplesPerPeriod := ⟨_, rfl⟩
    have hmany : ep.queuePeriods * m.samplesPerPeriod ≤ frames := by
      rw [hframes]
      split <;> omega
    have hle : m.samplesPerPeriod ≤ ep.queuePeriods * m.samplesPerPeriod :=
      Nat.le_mul_of_pos_left _ (Nat.pos_of_mul_pos_right (Nat.pos_of_ne_zero hpos))
    have hframes_pos : 0 < frames := by omega
    rw [← hframes] at h
    split at h
    case isTrue => cases h
    case isFalse hfits =>
      cases h
      have hsize : frames * ep.channelCount ≤ uint64Max / 4 := by omega
      have hwanted : (if ep.blockSamples ≠ 0 then ep.blockSamples
          else m.samplesPerPeriod) ≤ uint32Max := by
        split <;> assumption
      split
      case isTrue =>
        exact ⟨⟨Nat.zero_le _, hframes_pos⟩, hle.trans hmany, rfl, hwanted, hsize, henabled⟩
      case isFalse hsame =>
        obtain ⟨hcapacity, hconfigured⟩ := not_or.mp hsame
        have hcapacity := not_not.mp hcapacity
        have hconfigured := not_not.mp hconfigured
        refine ⟨⟨hsound.1, hsound.2 (hcapacity ▸ hframes_pos)⟩,
          (hle.trans hmany).trans_eq hcapacity.symm, hconfigured, ?_, ?_, henabled⟩
        · show (if ep.blockSamples ≠ 0 then _ else ep.configuredPeriodSamples) ≤ uint32Max
          rw [hconfigured]
          exact hwanted
        · show ep.capacityFrames * ep.channelCount ≤ uint64Max / 4
          rw [hcapacity]
          exact hsize

/-! ## Frames in the array -/

/-- A frame that is copied is in its slot, and the other slots are left alone. -/
theorem frameOf_copyFrame (ep : Endpoint) (slot : ℕ) (frame : ℕ → Sample) (samples : ℕ → Sample) :
    frameOf ep.channelCount (ep.copyFrame slot frame samples) =
      Function.update (frameOf ep.channelCount samples) slot
        ((range ep.channelCount).map frame) := by
  funext s
  by_cases hslot : s = slot
  · subst hslot
    rw [Function.update_self]
    refine map_congr_left fun c hc => ?_
    have hne : ∀ i j, i < j → j < ep.channelCount →
        s * ep.channelCount + i ≠ s * ep.channelCount + j := fun i j hij _ => by omega
    exact writeAll_of_lt hne (mem_range.mp hc)
  · rw [Function.update_of_ne hslot]
    refine map_congr_left fun c hc => writeAll_of_ne fun i hi heq => hslot ?_
    have hc := mem_range.mp hc
    have hdiv : ∀ s c, c < ep.channelCount → (s * ep.channelCount + c) / ep.channelCount = s := by
      intro s c hc
      rw [Nat.mul_comm, Nat.mul_add_div (Nat.zero_lt_of_lt hc), Nat.div_eq_of_lt hc, Nat.add_zero]
    rw [← hdiv s c hc, heq, hdiv slot i hi]

theorem frameOf_copyFrames (ep : Endpoint) (frame : ℕ → ℕ → Sample) (n : ℕ) :
    frameOf ep.channelCount (ep.copyFrames frame n) =
      writeAll ep.freeSlot (fun i => (range ep.channelCount).map (frame i)) n
        (frameOf ep.channelCount ep.samples) := by
  induction n with
  | zero => rfl
  | succ n ih =>
      have hlast : ep.copyFrames frame (n + 1) =
          ep.copyFrame (ep.freeSlot n) (frame n) (ep.copyFrames frame n) := by
        rw [copyFrames, range_succ, foldl_append]
        rfl
      rw [hlast, frameOf_copyFrame, ih, writeAll_succ]

/-! ## What the operations do to the frames -/

/-- The part of an endpoint that no operation changes. -/
structure SameSetup (ep ep' : Endpoint) : Prop where
  direction : ep'.direction = ep.direction
  channelMap : ep'.channelMap = ep.channelMap
  txLeadUs : ep'.txLeadUs = ep.txLeadUs
  capacityFrames : ep'.capacityFrames = ep.capacityFrames
  blockSamples : ep'.blockSamples = ep.blockSamples
  configured : ep'.configuredPeriodSamples = ep.configuredPeriodSamples
  sampleRate : ep'.sampleRate = ep.sampleRate
  enabled : ep'.enabled = ep.enabled

theorem SameSetup.refl (ep : Endpoint) : SameSetup ep ep := ⟨rfl, rfl, rfl, rfl, rfl, rfl, rfl, rfl⟩

theorem SameSetup.trans {a b c : Endpoint} (hab : SameSetup a b) (hbc : SameSetup b c) :
    SameSetup a c :=
  ⟨hbc.direction.trans hab.direction, hbc.channelMap.trans hab.channelMap,
    hbc.txLeadUs.trans hab.txLeadUs, hbc.capacityFrames.trans hab.capacityFrames,
    hbc.blockSamples.trans hab.blockSamples, hbc.configured.trans hab.configured,
    hbc.sampleRate.trans hab.sampleRate, hbc.enabled.trans hab.enabled⟩

/-- What dropping frames leaves. -/
theorem fifoDrop_spec {ep : Endpoint} (h : ep.Sound) (n : ℕ) :
    SameSetup ep (ep.fifoDrop n) ∧ (ep.fifoDrop n).Sound ∧
      (ep.fifoDrop n).usedFrames = ep.usedFrames - n ∧
      (ep.fifoDrop n).frames = ep.frames.drop n ∧ (ep.fifoDrop n).held = ep.held.drop n := by
  obtain ⟨k, hk⟩ : ∃ k, k = if n > ep.usedFrames then ep.usedFrames else n := ⟨_, rfl⟩
  have hle : k ≤ ep.usedFrames := by
    rw [hk]
    split <;> omega
  have hdrop : ∀ {α : Type} (l : List α), l.length = ep.usedFrames → l.drop k = l.drop n := by
    intro α l hl
    rw [hk]
    split
    case isTrue hmore => rw [drop_eq_nil_of_le (by omega), drop_eq_nil_of_le (by omega)]
    case isFalse => rfl
  have hsame : ep.fifoDrop n =
      { ep with
        readFrame := (ep.readFrame + k) % ep.capacityFrames
        usedFrames := ep.usedFrames - k
        droppedFrames := ep.droppedFrames + k } := by
    rw [hk]
    rfl
  have hread := Nat.mod_lt (ep.readFrame + k) (Nat.zero_lt_of_lt h.read)
  rw [hsame]
  refine ⟨⟨rfl, rfl, rfl, rfl, rfl, rfl, rfl, rfl⟩, ⟨(Nat.sub_le _ _).trans h.used, hread⟩, ?_,
    ?_, ?_⟩
  · show ep.usedFrames - k = ep.usedFrames - n
    rw [hk]
    split <;> omega
  · rw [← hdrop ep.frames (length_window _ _ _ _)]
    exact window_drop ep.frameAt _ _ hle
  · rw [← hdrop ep.held (length_window _ _ _ _)]
    exact window_drop ep.cell _ _ hle

/-- What making room leaves: the oldest frames are dropped. -/
theorem makeRoom_spec {ep : Endpoint} (h : ep.Sound) {n : ℕ} (hn : n ≤ ep.capacityFrames) :
    SameSetup ep (ep.makeRoom n) ∧ (ep.makeRoom n).Sound ∧
      (ep.makeRoom n).usedFrames + n ≤ ep.capacityFrames ∧
      (ep.makeRoom n).frames = ep.frames.drop (ep.usedFrames + n - ep.capacityFrames) ∧
      (ep.makeRoom n).held = ep.held.drop (ep.usedFrames + n - ep.capacityFrames) := by
  have hused := h.used
  rw [makeRoom]
  split
  case isTrue hfull =>
      have hcount : n - (ep.capacityFrames - ep.usedFrames) =
          ep.usedFrames + n - ep.capacityFrames := by omega
      obtain ⟨hsame, hsound, hleft, hframes, hheld⟩ :=
        fifoDrop_spec h (n - (ep.capacityFrames - ep.usedFrames))
      refine ⟨⟨hsame.direction, hsame.channelMap, hsame.txLeadUs, hsame.capacityFrames,
        hsame.blockSamples, hsame.configured, hsame.sampleRate, hsame.enabled⟩,
        ⟨hsound.used, hsound.read⟩, ?_, ?_, ?_⟩
      · show (ep.fifoDrop _).usedFrames + n ≤ ep.capacityFrames
        rw [hleft]
        omega
      · rw [← hcount, ← hframes]
        rfl
      · rw [← hcount, ← hheld]
        rfl
  case isFalse hroom =>
      have hcount : ep.usedFrames + n - ep.capacityFrames = 0 := by omega
      rw [hcount, drop_zero, drop_zero]
      exact ⟨SameSetup.refl ep, h, by omega, rfl, rfl⟩

/-- **Copied frames are behind the others**, where there is room. -/
theorem frames_append {ep : Endpoint} {n : ℕ} (hroom : ep.usedFrames + n ≤ ep.capacityFrames)
    (frame : ℕ → ℕ → Sample) :
    window (frameOf ep.channelCount (ep.copyFrames frame n)) ep.capacityFrames ep.readFrame
        (ep.usedFrames + n) =
      ep.frames ++ framesOf ep.channelCount frame n := by
  rw [frameOf_copyFrames]
  exact window_writeAll hroom _ _

theorem held_append {ep : Endpoint} {n : ℕ} (hroom : ep.usedFrames + n ≤ ep.capacityFrames)
    (frame : ℕ → ℕ → Sample) (time : ℕ → ℕ) :
    window (fun s => Frame.mk (frameOf ep.channelCount (ep.copyFrames frame n) s)
        (writeAll ep.freeSlot time n ep.timestamps s)) ep.capacityFrames ep.readFrame
        (ep.usedFrames + n) =
      ep.held ++ (range n).map fun i =>
        ⟨(range ep.channelCount).map (frame i), time i⟩ := by
  rw [frameOf_copyFrames, funext fun s => writeAll_map₂ Frame.mk ep.freeSlot _ time n _ _ s]
  exact window_writeAll hroom _ _

theorem length_frames (ep : Endpoint) : ep.frames.length = ep.usedFrames := length_window _ _ _ _

theorem length_held (ep : Endpoint) : ep.held.length = ep.usedFrames := length_window _ _ _ _

/-- What has been accepted has passed both checks. -/
theorem passed_of_accepted {m : Metadata} {ep : Endpoint} {period pts latest latest' : ℕ}
    {seen : ℕ → ℕ → Sample}
    (h : (ep.receivePeriod m period pts latest latest' seen).1 = true) :
    ¬ m.Rejects latest period ∧ ¬ m.Rejects latest' period := by
  rw [receivePeriod] at h
  split at h
  case isTrue => exact absurd h Bool.noConfusion
  case isFalse hfirst =>
    dsimp only at h
    split at h
    case isTrue => exact absurd h Bool.noConfusion
    case isFalse hlast => exact ⟨hfirst, hlast⟩

/-- **A period that is accepted is appended**, and the oldest frames make room for it. -/
theorem receivePeriod_spec {m : Metadata} {ep : Endpoint} (h : ep.Sound)
    (hperiod : m.samplesPerPeriod ≤ ep.capacityFrames) {period pts latest latest' : ℕ}
    (hfirst : ¬ m.Rejects latest period) (hlast : ¬ m.Rejects latest' period)
    (seen : ℕ → ℕ → Sample) :
    ∃ ep', ep.receivePeriod m period pts latest latest' seen = (true, ep') ∧ SameSetup ep ep' ∧
      ep'.Sound ∧
      ep'.held =
        keepNewest ep.capacityFrames (ep.held ++ periodFrames m ep.channelCount pts seen) := by
  obtain ⟨hsame, hsound, hroom, -, hheld⟩ := makeRoom_spec h hperiod
  have hcount : (ep.makeRoom m.samplesPerPeriod).channelCount = ep.channelCount :=
    congrArg List.length hsame.channelMap
  have hlength : (periodFrames m ep.channelCount pts seen).length = m.samplesPerPeriod := by
    rw [periodFrames, length_map, length_range]
  have happend := @held_append (ep.makeRoom m.samplesPerPeriod) m.samplesPerPeriod
    (by rw [hsame.capacityFrames]; exact hroom) seen (frameTime m pts)
  rw [receivePeriod, if_neg hfirst, if_neg hlast]
  refine ⟨_, rfl, ⟨hsame.direction, hsame.channelMap, hsame.txLeadUs, hsame.capacityFrames,
    hsame.blockSamples, hsame.configured, hsame.sampleRate, hsame.enabled⟩,
    ⟨hroom.trans_eq hsame.capacityFrames.symm, hsound.read⟩, ?_⟩
  rw [keepNewest_append (hlength.trans_le hperiod), hlength, length_held, ← hheld]
  refine happend.trans ?_
  rw [hcount]
  rfl

/-- **What is written is appended**, and the oldest frames make room for it. -/
theorem write_spec {ep : Endpoint} (h : ep.Sound) (hdirection : ep.direction = .tx)
    (henabled : ep.enabled = true) (data : ℕ → Sample) (n : ℕ) :
    ∃ ep', ep.write data n = (if n = 0 then .error else .ok, ep') ∧ SameSetup ep ep' ∧
      ep'.Sound ∧
      ep'.frames = keepNewest ep.capacityFrames
        (ep.frames ++ framesOf ep.channelCount (fun i c => data (i * ep.channelCount + c)) n) := by
  rw [write]
  by_cases hnone : n = 0
  · subst hnone
    rw [if_pos (.inr rfl), if_pos rfl]
    refine ⟨ep, rfl, SameSetup.refl ep, h, ?_⟩
    have hempty : framesOf ep.channelCount (fun i c => data (i * ep.channelCount + c)) 0 = [] := rfl
    rw [hempty, append_nil, keepNewest_of_le ((length_frames ep).trans_le h.used)]
  have hcapacity : ep.capacityFrames ≠ 0 := Nat.ne_of_gt (Nat.zero_lt_of_lt h.read)
  rw [if_neg (not_or.mpr ⟨fun hne => hne hdirection, hnone⟩), if_neg hnone,
    if_neg (not_or.mpr ⟨fun hoff => Bool.noConfusion (henabled.symm.trans hoff), hcapacity⟩)]
  obtain ⟨skip, hskip⟩ : ∃ skip, skip =
      if n > ep.capacityFrames then n - ep.capacityFrames else 0 := ⟨_, rfl⟩
  have haccepted : n - skip ≤ ep.capacityFrames := by
    rw [hskip]
    split <;> omega
  dsimp only
  rw [← hskip]
  -- what is skipped only counts
  obtain ⟨counted, hcounted⟩ : ∃ counted, counted =
      if skip ≠ 0 then
        { ep with overruns := ep.overruns + 1, droppedFrames := ep.droppedFrames + skip }
      else ep := ⟨_, rfl⟩
  have hsetup : SameSetup ep counted ∧ counted.Sound ∧ counted.usedFrames = ep.usedFrames ∧
      counted.frames = ep.frames := by
    rw [hcounted]
    split
    · exact ⟨⟨rfl, rfl, rfl, rfl, rfl, rfl, rfl, rfl⟩, ⟨h.used, h.read⟩, rfl, rfl⟩
    · exact ⟨SameSetup.refl ep, h, rfl, rfl⟩
  obtain ⟨hsame, hsound, hused, hframes⟩ := hsetup
  rw [← hcounted]
  obtain ⟨hsame', hsound', hroom, hframes', -⟩ :=
    makeRoom_spec hsound (haccepted.trans_eq hsame.capacityFrames.symm)
  have hboth := hsame.trans hsame'
  have hcount : (counted.makeRoom (n - skip)).channelCount = ep.channelCount :=
    congrArg List.length hboth.channelMap
  have happend := frames_append (hroom.trans_eq hsame'.capacityFrames.symm)
    fun i c => data ((skip + i) * (counted.makeRoom (n - skip)).channelCount + c)
  refine ⟨_, rfl, ⟨hboth.direction, hboth.channelMap, hboth.txLeadUs, hboth.capacityFrames,
    hboth.blockSamples, hboth.configured, hboth.sampleRate, hboth.enabled⟩,
    ⟨hroom.trans_eq hsame'.capacityFrames.symm, hsound'.read⟩, ?_⟩
  refine happend.trans ?_
  rw [hcount, hframes', hframes, hused, hsame.capacityFrames]
  by_cases hlong : n > ep.capacityFrames
  · have hskip : skip = n - ep.capacityFrames := hskip.trans (if_pos hlong)
    have hall : ep.usedFrames + (n - skip) - ep.capacityFrames = ep.frames.length := by
      rw [length_frames]
      omega
    rw [keepNewest_append_drop (by rw [length_framesOf]; omega), length_framesOf, ← hskip,
      framesOf_drop _ _ (by omega), hall, drop_length, nil_append]
  · have hskip : skip = 0 := hskip.trans (if_neg hlong)
    rw [keepNewest_append (by rw [length_framesOf]; omega), length_framesOf, length_frames, hskip,
      Nat.sub_zero]
    simp only [Nat.zero_add]

/-- **A read takes the frames it wants**, or none. -/
theorem read_spec {m : Metadata} {ep : Endpoint} (h : Prepared m ep)
    (hdirection : ep.direction = .rx) :
    ∃ ep', ep.read =
        (if ep.wanted = 0 ∨ ep.held.length < ep.wanted then .timeout
          else .ok ((ep.held.take ep.wanted).map Frame.samples) ((ep.held.map Frame.time).headD 0)
            ep.sampleRate, ep') ∧ SameSetup ep ep' ∧ ep'.Sound ∧
      ep'.held = if ep.held.length < ep.wanted then ep.held else ep.held.drop ep.wanted := by
  have hlength := length_held ep
  have hnot : ¬ ep.direction ≠ .rx := fun hne => hne hdirection
  have hon : ¬ ep.enabled = false := fun hoff => Bool.noConfusion (h.enabled.symm.trans hoff)
  rw [read, if_neg hnot, hlength]
  by_cases hshort : ep.wanted = 0 ∨ ep.usedFrames < ep.wanted
  · rw [if_pos (.inr hshort), if_pos hshort]
    refine ⟨ep, rfl, SameSetup.refl ep, h.sound, ?_⟩
    split
    case isTrue => rfl
    case isFalse hmany =>
      have hnone : ep.wanted = 0 := hshort.resolve_right hmany
      rw [hnone, drop_zero]
  · obtain ⟨hsome, hmany⟩ := not_or.mp hshort
    have hle : ep.wanted ≤ ep.usedFrames := Nat.le_of_not_lt hmany
    have hsize : ep.wanted * ep.channelCount ≤ uint64Max / 4 :=
      (Nat.mul_le_mul_right _ (hle.trans h.sound.used)).trans h.size
    have hquarter : uint64Max / 4 ≤ uint64Max := Nat.div_le_self _ _
    have hfits : ¬ (ep.wanted > uint32Max ∨ ep.wanted * ep.channelCount > uint64Max ∨
        ep.wanted * ep.channelCount > uint64Max / 4) := by
      have hwanted := h.wanted
      omega
    obtain ⟨hsame, hsound, -, -, hheld⟩ := fifoDrop_spec h.sound ep.wanted
    rw [if_neg (not_or.mpr ⟨hon, hshort⟩), if_neg hfits, if_neg hshort, if_neg hmany]
    refine ⟨_, ?_, hsame, hsound, hheld⟩
    have hframes : ((range ep.wanted).map fun i =>
        ep.frameAt ((ep.readFrame + i) % ep.capacityFrames)) =
        (ep.held.take ep.wanted).map Frame.samples := by
      rw [held, ← window_take ep.cell _ _ hle, window, map_map]
      rfl
    have hfirst : ep.timestamps ep.readFrame = (ep.held.map Frame.time).headD 0 := by
      obtain ⟨k, hk⟩ : ∃ k, ep.usedFrames = k + 1 := ⟨ep.usedFrames - 1, by omega⟩
      have hread : (ep.readFrame + 0) % ep.capacityFrames = ep.readFrame :=
        Nat.mod_eq_of_lt h.sound.read
      rw [held, window, hk, range_succ_eq_map]
      show _ = ep.timestamps ((ep.readFrame + 0) % ep.capacityFrames)
      rw [hread]
    rw [hframes, hfirst]

/-- **A period that is transmitted takes frames from the front**, as many as there are, and the
rings get them. -/
theorem transmitPeriod_spec (m : Metadata) {ep : Endpoint} (h : ep.Sound) (period : ℕ) :
    ∃ ep', ep.transmitPeriod m period =
        (ep', ringWrites m ep.channelMap (transmitStart m ep period)
          (padded ep.channelCount m.samplesPerPeriod ep.frames)) ∧ SameSetup ep ep' ∧ ep'.Sound ∧
      ep'.frames = ep.frames.drop (min m.samplesPerPeriod ep.frames.length) := by
  have hlength := length_frames ep
  have hcount : (if ep.usedFrames < m.samplesPerPeriod then ep.usedFrames
      else m.samplesPerPeriod) = min m.samplesPerPeriod ep.frames.length := by
    rw [hlength]
    split <;> omega
  obtain ⟨hsame, hsound, -, hframes, -⟩ :=
    fifoDrop_spec h (min m.samplesPerPeriod ep.frames.length)
  rw [transmitPeriod, hcount]
  refine ⟨_, Prod.ext rfl ?_, ⟨hsame.direction, hsame.channelMap, hsame.txLeadUs,
    hsame.capacityFrames, hsame.blockSamples, hsame.configured, hsame.sampleRate, hsame.enabled⟩,
    ⟨hsound.used, hsound.read⟩, hframes⟩
  refine congrArg flatten (map_congr_left fun i hi => ?_)
  have hi := mem_range.mp hi
  refine map_congr_left fun c hc => ?_
  have hc := mem_range.mp hc
  rw [PlaneWrite.mk.injEq]
  refine ⟨rfl, rfl, ?_⟩
  rw [padded, getD_eq_getElem?_getD, getD_eq_getElem?_getD]
  split
  case isTrue havailable =>
      have htake : (ep.frames.take m.samplesPerPeriod)[i]? =
          some (ep.frameAt ((ep.readFrame + i) % ep.capacityFrames)) := by
        rw [getElem?_take_of_lt hi]
        exact getElem?_window _ _ _ havailable
      have hfirst : i < (ep.frames.take m.samplesPerPeriod).length := by
        rw [length_take]
        omega
      rw [getElem?_append_left hfirst, htake, Option.getD_some, frameAt, getElem?_map,
        getElem?_range hc]
      rfl
  case isFalse hnone =>
      have hbehind : (ep.frames.take m.samplesPerPeriod).length ≤ i := by
        rw [length_take]
        omega
      have hplace : i - (ep.frames.take m.samplesPerPeriod).length <
          m.samplesPerPeriod - ep.frames.length := by
        rw [length_take]
        omega
      rw [getElem?_append_right hbehind, getElem?_replicate, if_pos hplace,
        Option.getD_some, getElem?_replicate, if_pos hc]
      rfl

/-! ## Runs -/

/-- What is done with an endpoint that transmits. -/
inductive TxOp
  | write (data : ℕ → Sample) (frames : ℕ)
  | transmit (period : ℕ)

/-- What an operation of an endpoint that transmits answers. -/
inductive TxAnswer
  | wrote (answer : Writing)
  | transmitted (writes : List PlaneWrite)

/-- What is done with an endpoint that receives. -/
inductive RxOp
  | receive (period pts latest latest' : ℕ) (seen : ℕ → ℕ → Sample)
  | read

/-- What an operation of an endpoint that receives answers. -/
inductive RxAnswer
  | received (accepted : Bool)
  | was (answer : Reading)

/-- An endpoint that transmits. -/
def txMachine (m : Metadata) : Machine Endpoint TxOp TxAnswer where
  step ep op :=
    match op with
    | .write data frames => some (.wrote (ep.write data frames).1, (ep.write data frames).2)
    | .transmit period =>
        some (.transmitted (ep.transmitPeriod m period).2, (ep.transmitPeriod m period).1)

/-- An endpoint that receives. -/
def rxMachine (m : Metadata) : Machine Endpoint RxOp RxAnswer where
  step ep op :=
    match op with
    | .receive period pts latest latest' seen =>
        let out := ep.receivePeriod m period pts latest latest' seen
        some (.received out.1, out.2)
    | .read => some (.was ep.read.1, ep.read.2)

/-- The list for an endpoint that transmits: what is written is appended, the oldest frames are
dropped, and a period takes frames from the front. -/
def txList (m : Metadata) (ep : Endpoint) : Machine (List (List Sample)) TxOp TxAnswer where
  step l op :=
    match op with
    | .write data frames =>
        some (.wrote (if frames = 0 then .error else .ok),
          keepNewest ep.capacityFrames
            (l ++ framesOf ep.channelCount (fun i c => data (i * ep.channelCount + c)) frames))
    | .transmit period =>
        some (.transmitted (ringWrites m ep.channelMap (transmitStart m ep period)
            (padded ep.channelCount m.samplesPerPeriod l)),
          l.drop (min m.samplesPerPeriod l.length))

/-- The list for an endpoint that receives: a period is appended, the oldest frames are dropped, and
a read takes the frames it wants, or none. -/
def rxList (m : Metadata) (ep : Endpoint) : Machine (List Frame) RxOp RxAnswer where
  step l op :=
    match op with
    | .receive _ pts _ _ seen =>
        some (.received true,
          keepNewest ep.capacityFrames (l ++ periodFrames m ep.channelCount pts seen))
    | .read =>
        some (.was
            (if ep.wanted = 0 ∨ l.length < ep.wanted then .timeout
              else .ok ((l.take ep.wanted).map Frame.samples) ((l.map Frame.time).headD 0)
                ep.sampleRate),
          if l.length < ep.wanted then l else l.drop ep.wanted)

/-- A period is accepted: both times the counter is read, it is complete and not overwritten. -/
def RxOp.Accepted (m : Metadata) : RxOp → Prop
  | .receive period _ latest latest' _ => ¬ m.Rejects latest period ∧ ¬ m.Rejects latest' period
  | .read => True

/-- What an endpoint keeps of the one it began as. -/
structure Keeps (m : Metadata) (ep ep' : Endpoint) : Prop where
  setup : SameSetup ep ep'
  prepared : Prepared m ep'

theorem Keeps.step {m : Metadata} {ep a b : Endpoint} (h : Keeps m ep a) (hsame : SameSetup a b)
    (hsound : b.Sound) : Keeps m ep b where
  setup := h.setup.trans hsame
  prepared :=
    { sound := hsound
      period := h.prepared.period.trans_eq hsame.capacityFrames.symm
      configured := hsame.configured.trans h.prepared.configured
      wanted := by
        rw [Endpoint.wanted, hsame.blockSamples, hsame.configured]
        exact h.prepared.wanted
      size := by
        rw [hsame.capacityFrames, channelCount, hsame.channelMap]
        exact h.prepared.size
      enabled := hsame.enabled.trans h.prepared.enabled }

theorem tx_simulates {m : Metadata} {ep : Endpoint} (hdirection : ep.direction = .tx) :
    (txMachine m).Simulates (txList m ep) (fun _ _ => True)
      (fun l ep' => ep'.frames = l ∧ Keeps m ep ep') where
  step := by
    rintro l ep' op answer l' ⟨rfl, h⟩ - hstep
    have hcount : ep'.channelCount = ep.channelCount := congrArg List.length h.setup.channelMap
    cases op with
    | write data frames =>
        obtain ⟨ep'', hwrite, hsame, hsound, hframes⟩ :=
          write_spec h.prepared.sound (h.setup.direction.trans hdirection) h.prepared.enabled data
            frames
        cases hstep
        refine ⟨ep'', ?_, ?_, h.step hsame hsound⟩
        · show some (TxAnswer.wrote (ep'.write data frames).1, (ep'.write data frames).2) = _
          rw [hwrite]
        · rw [hframes, h.setup.capacityFrames, hcount]
    | transmit period =>
        obtain ⟨ep'', htransmit, hsame, hsound, hframes⟩ :=
          transmitPeriod_spec m h.prepared.sound period
        cases hstep
        refine ⟨ep'', ?_, hframes, h.step hsame hsound⟩
        have hstart : transmitStart m ep' period = transmitStart m ep period := by
          rw [transmitStart, transmitStart, h.setup.txLeadUs]
        show some (TxAnswer.transmitted (ep'.transmitPeriod m period).2,
          (ep'.transmitPeriod m period).1) = _
        rw [htransmit, hstart, h.setup.channelMap, hcount]

theorem rx_simulates {m : Metadata} {ep : Endpoint} (hdirection : ep.direction = .rx) :
    (rxMachine m).Simulates (rxList m ep) (fun _ op => op.Accepted m)
      (fun l ep' => ep'.held = l ∧ Keeps m ep ep') where
  step := by
    rintro l ep' op answer l' ⟨rfl, h⟩ haccepted hstep
    have hcount : ep'.channelCount = ep.channelCount := congrArg List.length h.setup.channelMap
    have hwanted : ep'.wanted = ep.wanted := by
      rw [Endpoint.wanted, Endpoint.wanted, h.setup.blockSamples, h.setup.configured]
    cases op with
    | receive period pts latest latest' seen =>
        obtain ⟨ep'', hreceive, hsame, hsound, hheld⟩ :=
          @receivePeriod_spec m ep' h.prepared.sound h.prepared.period period pts latest latest'
            haccepted.1 haccepted.2 seen
        cases hstep
        refine ⟨ep'', ?_, ?_, h.step hsame hsound⟩
        · show some (RxAnswer.received (ep'.receivePeriod m period pts latest latest' seen).1,
            (ep'.receivePeriod m period pts latest latest' seen).2) = _
          rw [hreceive]
        · rw [hheld, h.setup.capacityFrames, hcount]
    | read =>
        obtain ⟨ep'', hread, hsame, hsound, hheld⟩ :=
          read_spec h.prepared (h.setup.direction.trans hdirection)
        cases hstep
        refine ⟨ep'', ?_, ?_, h.step hsame hsound⟩
        · show some (RxAnswer.was ep'.read.1, ep'.read.2) = _
          rw [hread, hwanted, h.setup.sampleRate]
        · rw [hheld, hwanted]

/-- What an endpoint and its list do is the same, and the window stays a window of the array. -/
def Agree {α β γ : Type} (M : Machine Endpoint α β) (L : Machine (List γ) α β)
    (view : Endpoint → List γ) (ep : Endpoint) (ops : List α) : Prop :=
  ∃ answers l' ep', M.run ep ops = some (answers, ep') ∧
    L.run (view ep) ops = some (answers, l') ∧ view ep' = l' ∧ ep'.Sound

/-- **The queue of an endpoint is a list that drops its oldest frames**, for every sequence of
writes and periods, and for every sequence of accepted periods and reads. -/
theorem refines (m : Metadata) {ep : Endpoint} (h : Prepared m ep) :
    (ep.direction = .tx → ∀ ops, Agree (txMachine m) (txList m ep) frames ep ops) ∧
      (ep.direction = .rx → ∀ ops, (∀ op ∈ ops, RxOp.Accepted m op) →
        Agree (rxMachine m) (rxList m ep) held ep ops) := by
  have hstart : Keeps m ep ep := ⟨SameSetup.refl ep, h⟩
  refine ⟨fun hdirection ops => ?_, fun hdirection ops haccepted => ?_⟩
  · have htotal : ∀ l op, ∃ answer l', (txList m ep).step l op = some (answer, l') := by
      intro l op
      cases op <;> exact ⟨_, _, rfl⟩
    have hallowed : ∀ ops l, (txList m ep).Respects (fun _ _ => True) l ops := by
      intro ops
      induction ops with
      | nil => exact fun _ => trivial
      | cons op ops ih => exact fun l => ⟨trivial, fun _ l' _ => ih l'⟩
    obtain ⟨answers, l', hlist⟩ := Machine.exists_run htotal ep.frames ops
    obtain ⟨ep', hrun, hframes, hkeeps⟩ :=
      (tx_simulates hdirection).run ⟨rfl, hstart⟩ (hallowed ops ep.frames) hlist
    exact ⟨answers, l', ep', hrun, hlist, hframes, hkeeps.prepared.sound⟩
  · have htotal : ∀ l op, ∃ answer l', (rxList m ep).step l op = some (answer, l') := by
      intro l op
      cases op <;> exact ⟨_, _, rfl⟩
    have hallowed : ∀ ops l, (∀ op ∈ ops, RxOp.Accepted m op) →
        (rxList m ep).Respects (fun _ op => op.Accepted m) l ops := by
      intro ops
      induction ops with
      | nil => exact fun _ _ => trivial
      | cons op ops ih =>
          intro l hall
          exact ⟨hall op mem_cons_self, fun _ l' _ => ih l' fun other hother =>
            hall other (mem_cons_of_mem op hother)⟩
    obtain ⟨answers, l', hlist⟩ := Machine.exists_run htotal ep.held ops
    obtain ⟨ep', hrun, hheld, hkeeps⟩ :=
      (rx_simulates hdirection).run ⟨rfl, hstart⟩ (hallowed ops ep.held haccepted) hlist
    exact ⟨answers, l', ep', hrun, hlist, hheld, hkeeps.prepared.sound⟩

/-- A stereo endpoint that has just been attached. -/
def attached (direction : Direction) : Endpoint where
  direction := direction
  channelMap := [1, 0]
  queuePeriods := 2
  blockSamples := 3
  txLeadUs := 0
  samples := fun _ => 0
  timestamps := fun _ => 0
  capacityFrames := 4
  readFrame := 3
  usedFrames := 2
  configuredPeriodSamples := 2
  sampleRate := 48000
  enabled := true
  active := true
  periods := 0
  overruns := 0
  underflows := 0
  droppedFrames := 0

theorem attached_prepared (direction : Direction) : Prepared ⟨48000, 8, 2⟩ (attached direction) where
  sound := ⟨by show 2 ≤ 4; decide, by show 3 < 4; decide⟩
  period := by show 2 ≤ 4; decide
  configured := rfl
  wanted := by show 3 ≤ uint32Max; decide
  size := by show 4 * 2 ≤ uint64Max / 4; decide
  enabled := rfl

/-- Both kinds of endpoints, over the end of the array. -/
theorem refines_attached :
    Agree (txMachine ⟨48000, 8, 2⟩) (txList ⟨48000, 8, 2⟩ (attached .tx)) frames (attached .tx)
        [.write (fun i => BitVec.ofNat 32 i) 3, .transmit 7, .transmit 8, .transmit 9] ∧
      Agree (rxMachine ⟨48000, 8, 2⟩) (rxList ⟨48000, 8, 2⟩ (attached .rx)) held (attached .rx)
        [.receive 4 0 5 6 (fun i _ => BitVec.ofNat 32 i), .read, .read] := by
  refine ⟨(refines _ (attached_prepared .tx)).1 rfl _,
    (refines _ (attached_prepared .rx)).2 rfl _ ?_⟩
  intro op hmem
  rcases mem_cons.mp hmem with rfl | hmem
  · exact ⟨by decide, by decide⟩
  · rcases mem_cons.mp hmem with rfl | hmem
    · trivial
    · cases mem_singleton.mp hmem
      trivial

end Endpoint

end Zstreamer.Dep

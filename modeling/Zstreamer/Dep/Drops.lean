/-
# What the drop counter of a DEP endpoint counts

`fifo_drop` serves both to throw frames away and to take those that have been transmitted or
read.  `droppedFrames_iff` says when the counter of an endpoint is the number of the frames it has
thrown away: for as long as it has not delivered any.
-/

import Zstreamer.Dep.Fifo

namespace Zstreamer.Dep

open Foundation List

namespace Endpoint

/-! ## What enters an endpoint, and what it delivers -/

/-- The frames that an operation offers to an endpoint that transmits. -/
def TxOp.offered (ep : Endpoint) : TxOp → List (List Sample)
  | .write data frames =>
      framesOf ep.channelCount (fun i c => data (i * ep.channelCount + c)) frames
  | .transmit _ => []

/-- The frames that are transmitted in an operation. -/
def TxOp.transmitted (m : Metadata) (ep : Endpoint) : TxOp → List (List Sample)
  | .write _ _ => []
  | .transmit _ => ep.frames.take m.samplesPerPeriod

/-- The frames that an operation brings into an endpoint that receives.  When a period is rejected
at last, those of its frames stay that have been written over older ones. -/
def RxOp.entered (m : Metadata) (ep : Endpoint) : RxOp → List (List Sample)
  | .receive period _ latest latest' seen =>
      if m.Rejects latest period then []
      else if m.Rejects latest' period then
        (framesOf ep.channelCount seen m.samplesPerPeriod).drop (ep.capacityFrames - ep.usedFrames)
      else framesOf ep.channelCount seen m.samplesPerPeriod
  | .read => []

/-- The frames of an answer. -/
def Reading.frames : Reading → List (List Sample)
  | .error => []
  | .timeout => []
  | .ok frames _ _ => frames

/-- The frames that an operation returns. -/
def RxOp.returned (ep : Endpoint) : RxOp → List (List Sample)
  | .receive _ _ _ _ _ => []
  | .read => ep.read.1.frames

variable {m : Metadata} {ep : Endpoint}

/-! ## The counter, one operation after the other -/

theorem droppedFrames_fifoDrop (ep : Endpoint) (n : ℕ) :
    (ep.fifoDrop n).droppedFrames = ep.droppedFrames + min n ep.usedFrames := by
  have hcount : (if n > ep.usedFrames then ep.usedFrames else n) = min n ep.usedFrames := by
    split <;> omega
  rw [← hcount]
  rfl

theorem droppedFrames_makeRoom (h : ep.Sound) {n : ℕ} (hn : n ≤ ep.capacityFrames) :
    (ep.makeRoom n).droppedFrames =
      ep.droppedFrames + (ep.usedFrames + n - ep.capacityFrames) := by
  have hused := h.used
  rw [makeRoom]
  split
  case isTrue hfull =>
      show (ep.fifoDrop (n - (ep.capacityFrames - ep.usedFrames))).droppedFrames = _
      rw [droppedFrames_fifoDrop]
      omega
  case isFalse hroom => omega

theorem droppedFrames_write (h : ep.Sound) (hdirection : ep.direction = .tx)
    (henabled : ep.enabled = true) (data : ℕ → Sample) (n : ℕ) :
    (ep.write data n).2.droppedFrames =
      ep.droppedFrames + (ep.usedFrames + n - ep.capacityFrames) := by
  have hused := h.used
  rw [write]
  by_cases hnone : n = 0
  · rw [if_pos (.inr hnone)]
    show ep.droppedFrames = _
    omega
  have hcapacity : ep.capacityFrames ≠ 0 := Nat.ne_of_gt (Nat.zero_lt_of_lt h.read)
  rw [if_neg (not_or.mpr ⟨fun hne => hne hdirection, hnone⟩),
    if_neg (not_or.mpr ⟨fun hoff => Bool.noConfusion (henabled.symm.trans hoff), hcapacity⟩)]
  dsimp only
  -- what a write skips is counted before room is made
  by_cases hlong : n > ep.capacityFrames
  · rw [if_pos hlong, if_pos (by omega)]
    have hroom := @droppedFrames_makeRoom
      { ep with
        overruns := ep.overruns + 1
        droppedFrames := ep.droppedFrames + (n - ep.capacityFrames) }
      ⟨h.used, h.read⟩ (n - (n - ep.capacityFrames))
      (by show n - (n - ep.capacityFrames) ≤ ep.capacityFrames; omega)
    refine hroom.trans ?_
    show ep.droppedFrames + (n - ep.capacityFrames) +
      (ep.usedFrames + (n - (n - ep.capacityFrames)) - ep.capacityFrames) = _
    omega
  · rw [if_neg hlong, if_neg (not_not.mpr rfl), Nat.sub_zero]
    exact droppedFrames_makeRoom h (Nat.le_of_not_lt hlong)

theorem droppedFrames_transmitPeriod (ep : Endpoint) (period : ℕ) :
    (ep.transmitPeriod m period).1.droppedFrames =
      ep.droppedFrames + min m.samplesPerPeriod ep.usedFrames := by
  have hcount : (if ep.usedFrames < m.samplesPerPeriod then ep.usedFrames
      else m.samplesPerPeriod) = min m.samplesPerPeriod ep.usedFrames := by
    split <;> omega
  rw [transmitPeriod, hcount]
  show (ep.fifoDrop (min m.samplesPerPeriod ep.usedFrames)).droppedFrames = _
  rw [droppedFrames_fifoDrop, Nat.min_assoc, Nat.min_self]

theorem droppedFrames_read (ep : Endpoint) :
    ep.read.2.droppedFrames = ep.droppedFrames + ep.read.1.frames.length := by
  rw [read]
  split
  case isTrue => rfl
  case isFalse =>
    split
    case isTrue => rfl
    case isFalse hshort =>
      split
      case isTrue => rfl
      case isFalse =>
        show (ep.fifoDrop ep.wanted).droppedFrames = _
        rw [droppedFrames_fifoDrop, Reading.frames, length_map, length_range,
          Nat.min_eq_left (by omega)]

theorem droppedFrames_receivePeriod (h : ep.Sound) (hperiod : m.samplesPerPeriod ≤ ep.capacityFrames)
    (period pts latest latest' : ℕ) (seen : ℕ → ℕ → Sample) :
    (ep.receivePeriod m period pts latest latest' seen).2.droppedFrames =
      if m.Rejects latest period then ep.droppedFrames
      else ep.droppedFrames + (ep.usedFrames + m.samplesPerPeriod - ep.capacityFrames) := by
  have hroom := droppedFrames_makeRoom h hperiod
  rw [receivePeriod]
  split
  case isTrue => rfl
  case isFalse =>
    dsimp only
    split
    case isTrue => exact hroom
    case isFalse => exact hroom

/-! ## What a period leaves that is rejected at last -/

/-- The frames in use are those of the frames with their times. -/
theorem frames_eq_held (ep : Endpoint) : ep.frames = ep.held.map Frame.samples := by
  rw [frames, held, window, window, map_map]
  rfl

theorem samples_makeRoom (ep : Endpoint) (n : ℕ) : (ep.makeRoom n).samples = ep.samples := by
  rw [makeRoom]
  split <;> rfl

/-- Making room does not move the place behind the frames. -/
theorem freeSlot_makeRoom (h : ep.Sound) {n : ℕ} (hn : n ≤ ep.capacityFrames) :
    (ep.makeRoom n).freeSlot = fun i => (ep.readFrame + ep.usedFrames + i) % ep.capacityFrames := by
  have hused := h.used
  funext i
  rw [makeRoom]
  split
  case isFalse => rfl
  case isTrue hfull =>
    have hall : ¬ n - (ep.capacityFrames - ep.usedFrames) > ep.usedFrames := by omega
    show ((ep.readFrame + ite _ _ _) % ep.capacityFrames + (ep.usedFrames - ite _ _ _) + i) %
      ep.capacityFrames = _
    rw [if_neg hall, Nat.add_assoc, Nat.mod_add_mod]
    congr 1
    omega

/-- **A period that is rejected at last has been written over the oldest frames** it took room from;
the window is what it was. -/
theorem receivePeriod_rejected (h : ep.Sound) (hperiod : m.samplesPerPeriod ≤ ep.capacityFrames)
    {period pts latest latest' : ℕ} (hfirst : ¬ m.Rejects latest period)
    (hlast : m.Rejects latest' period) (seen : ℕ → ℕ → Sample) :
    ∃ ep', ep.receivePeriod m period pts latest latest' seen = (false, ep') ∧ SameSetup ep ep' ∧
      ep'.Sound ∧
      ep'.frames =
        (framesOf ep.channelCount seen m.samplesPerPeriod).drop
            (ep.capacityFrames - ep.usedFrames) ++
          ep.frames.drop (ep.usedFrames + m.samplesPerPeriod - ep.capacityFrames) := by
  obtain ⟨hsame, -, -, -, -⟩ := makeRoom_spec h hperiod
  have hcount : (ep.makeRoom m.samplesPerPeriod).channelCount = ep.channelCount :=
    congrArg List.length hsame.channelMap
  have hover := @window_writeAll_over _ _ _ ep.readFrame _ h.used hperiod
    (fun i => (range ep.channelCount).map (seen i)) ep.frameAt
  rw [receivePeriod, if_neg hfirst, if_pos hlast]
  refine ⟨_, rfl, ⟨hsame.direction, hsame.channelMap, hsame.txLeadUs, hsame.capacityFrames,
    hsame.blockSamples, hsame.configured, hsame.sampleRate, hsame.enabled⟩,
    ⟨h.used.trans_eq hsame.capacityFrames.symm,
      h.read.trans_eq hsame.capacityFrames.symm⟩, ?_⟩
  refine Eq.trans ?_ hover
  show window (frameOf (ep.makeRoom m.samplesPerPeriod).channelCount
      ((ep.makeRoom m.samplesPerPeriod).copyFrames seen m.samplesPerPeriod))
    (ep.makeRoom m.samplesPerPeriod).capacityFrames ep.readFrame ep.usedFrames = _
  rw [frameOf_copyFrames, hsame.capacityFrames, hcount, samples_makeRoom,
    freeSlot_makeRoom h hperiod]
  rfl

/-! ## The counter of a run -/

/-- Nothing is transmitted in an operation. -/
def TxOp.Idle (m : Metadata) (ep : Endpoint) : TxOp → Prop
  | .write _ _ => True
  | .transmit _ => m.samplesPerPeriod = 0 ∨ ep.usedFrames = 0

/-- Nothing is returned by an operation. -/
def RxOp.Idle (ep : Endpoint) : RxOp → Prop
  | .receive _ _ _ _ _ => True
  | .read => ep.wanted = 0 ∨ ep.usedFrames < ep.wanted

/-- What is appended pushes the oldest out. -/
theorem balances_keepNewest {α : Type} (cap : ℕ) (l values : List α) :
    ∃ discarded, Balances l values [] discarded (keepNewest cap (l ++ values)) ∧
      discarded.length = l.length + values.length - cap := by
  refine ⟨(l ++ values).take ((l ++ values).length - cap), ?_, ?_⟩
  · rw [Balances, nil_append, keepNewest, take_append_drop]
  · rw [length_take, length_append]
    omega

/-- What is taken from the front is delivered. -/
theorem balances_take {α : Type} (n : ℕ) (l : List α) :
    Balances l [] (l.take n) [] (l.drop n) := by
  rw [Balances, append_nil, append_nil, take_append_drop]

theorem tx_tallies (hdirection : ep.direction = .tx) :
    (txMachine m).Tallies (Keeps m ep) frames (fun s op => op.offered s)
      (fun s op => op.transmitted m s) droppedFrames where
  step := by
    intro s op answer s' h hstep
    have hlength := length_frames s
    cases op with
    | write data n =>
        obtain ⟨s'', hwrite, hsame, hsound, hframes⟩ :=
          write_spec h.prepared.sound (h.setup.direction.trans hdirection) h.prepared.enabled data n
        have hdropped := droppedFrames_write h.prepared.sound (h.setup.direction.trans hdirection)
          h.prepared.enabled data n
        obtain ⟨-, rfl⟩ := Prod.mk.inj (Option.some.inj hstep)
        rw [hwrite] at hdropped ⊢
        obtain ⟨discarded, hbalance, hcount⟩ := balances_keepNewest s.capacityFrames s.frames
          ((TxOp.write data n).offered s)
        refine ⟨h.step hsame hsound, discarded, ?_, ?_⟩
        · rw [hframes]
          exact hbalance
        · rw [hdropped, hcount, hlength, TxOp.offered, length_framesOf]
          rfl
    | transmit period =>
        obtain ⟨s'', htransmit, hsame, hsound, hframes⟩ :=
          transmitPeriod_spec m h.prepared.sound period
        have hdropped := droppedFrames_transmitPeriod (m := m) s period
        obtain ⟨-, rfl⟩ := Prod.mk.inj (Option.some.inj hstep)
        rw [htransmit] at hdropped ⊢
        have htake : s.frames.take m.samplesPerPeriod =
            s.frames.take (min m.samplesPerPeriod s.frames.length) := by
          rw [take_eq_take_min]
        refine ⟨h.step hsame hsound, [], ?_, ?_⟩
        · rw [hframes, TxOp.transmitted, htake]
          exact balances_take _ _
        · rw [hdropped, TxOp.transmitted, length_take, hlength]
          rfl

theorem rx_tallies (hdirection : ep.direction = .rx) :
    (rxMachine m).Tallies (Keeps m ep) frames (fun s op => op.entered m s)
      (fun s op => op.returned s) droppedFrames where
  step := by
    intro s op answer s' h hstep
    have hlength := length_frames s
    have hsound := h.prepared.sound
    cases op with
    | receive period pts latest latest' seen =>
        have hdropped := droppedFrames_receivePeriod hsound h.prepared.period period pts latest
          latest' seen
        obtain ⟨-, rfl⟩ := Prod.mk.inj (Option.some.inj hstep)
        rw [RxOp.entered, RxOp.returned]
        by_cases hfirst : m.Rejects latest period
        · rw [if_pos hfirst] at hdropped ⊢
          have hnone : s.receivePeriod m period pts latest latest' seen = (false, s) := by
            rw [receivePeriod, if_pos hfirst]
          rw [hnone] at hdropped ⊢
          exact ⟨h, [], Balances.refl _, rfl⟩
        rw [if_neg hfirst] at hdropped ⊢
        by_cases hlast : m.Rejects latest' period
        · obtain ⟨s'', hreceive, hsame, hsound', hframes⟩ :=
            @receivePeriod_rejected _ _ hsound h.prepared.period _ pts _ _ hfirst hlast seen
          rw [if_pos hlast]
          rw [hreceive] at hdropped ⊢
          refine ⟨h.step hsame hsound', s.frames.take (s.usedFrames + m.samplesPerPeriod -
            s.capacityFrames), ?_, ?_⟩
          · -- the new frames stand in front, where the oldest were
            rw [Balances, hframes, nil_append]
            refine List.Perm.trans ?_ (perm_append_comm_assoc _ _ _)
            rw [take_append_drop]
            exact perm_append_comm
          · rw [hdropped, length_take, hlength, length_nil]
            have hused := hsound.used
            have hperiod := h.prepared.period
            omega
        · obtain ⟨s'', hreceive, hsame, hsound', hheld⟩ :=
            @receivePeriod_spec _ _ hsound h.prepared.period _ pts _ _ hfirst hlast seen
          rw [if_neg hlast]
          rw [hreceive] at hdropped ⊢
          have hframes : s''.frames = keepNewest s.capacityFrames
              (s.frames ++ framesOf s.channelCount seen m.samplesPerPeriod) := by
            rw [frames_eq_held, hheld, map_keepNewest, map_append, ← frames_eq_held,
              periodFrames, map_map]
            rfl
          obtain ⟨discarded, hbalance, hcount⟩ := balances_keepNewest s.capacityFrames s.frames
            (framesOf s.channelCount seen m.samplesPerPeriod)
          refine ⟨h.step hsame hsound', discarded, ?_, ?_⟩
          · rw [hframes]
            exact hbalance
          · rw [hdropped, hcount, hlength, length_framesOf]
            rfl
    | read =>
        obtain ⟨s'', hread, hsame, hsound', hheld⟩ :=
          read_spec h.prepared (h.setup.direction.trans hdirection)
        have hdropped := droppedFrames_read s
        obtain ⟨-, rfl⟩ := Prod.mk.inj (Option.some.inj hstep)
        rw [RxOp.entered, RxOp.returned]
        rw [hread] at hdropped ⊢
        refine ⟨h.step hsame hsound', [], ?_, hdropped⟩
        have hframes : s''.frames = if s.frames.length < s.wanted then s.frames
            else s.frames.drop s.wanted := by
          rw [frames_eq_held, frames_eq_held, hheld, length_map]
          split
          case isTrue => rfl
          case isFalse => rw [map_drop]
        have hheldLength := length_held s
        show Balances s.frames [] (Reading.frames (if s.wanted = 0 ∨ s.held.length < s.wanted then _
          else _)) [] s''.frames
        rw [hframes, hheldLength, hlength]
        by_cases hshort : s.usedFrames < s.wanted
        · rw [if_pos (.inr hshort), if_pos hshort]
          exact Balances.refl _
        rw [if_neg hshort]
        by_cases hnone : s.wanted = 0
        · rw [if_pos (.inl hnone), hnone, drop_zero]
          exact Balances.refl _
        · rw [if_neg (not_or.mpr ⟨hnone, hshort⟩), Reading.frames, map_take, ← frames_eq_held]
          exact balances_take _ _

theorem transmitted_eq_nil_iff (ep : Endpoint) (op : TxOp) :
    op.transmitted m ep = [] ↔ op.Idle m ep := by
  cases op with
  | write => exact ⟨fun _ => trivial, fun _ => rfl⟩
  | transmit period =>
      rw [TxOp.transmitted, TxOp.Idle, take_eq_nil_iff, ← length_eq_zero_iff (l := frames _),
        length_frames]

theorem returned_eq_nil_iff (h : Prepared m ep) (hdirection : ep.direction = .rx) (op : RxOp) :
    op.returned ep = [] ↔ op.Idle ep := by
  cases op with
  | receive => exact ⟨fun _ => trivial, fun _ => rfl⟩
  | read =>
      obtain ⟨ep', hread, -⟩ := read_spec h hdirection
      rw [RxOp.returned, RxOp.Idle, hread, length_held]
      by_cases hshort : ep.wanted = 0 ∨ ep.usedFrames < ep.wanted
      · rw [if_pos hshort]
        exact ⟨fun _ => hshort, fun _ => rfl⟩
      · rw [if_neg hshort, Reading.frames, map_eq_nil_iff, take_eq_nil_iff,
          ← length_eq_zero_iff (l := held _), length_held]
        refine ⟨fun hnone => absurd hnone ?_, fun hidle => absurd hidle hshort⟩
        omega

/-- What the counter of the frames that are dropped counts in a run: those that have been discarded,
when no frame has been delivered, and only then. -/
def CountsDrops {α β : Type} (M : Machine Endpoint α β)
    (entered delivered : Endpoint → α → List (List Sample)) (idle : Endpoint → α → Prop)
    (ep : Endpoint) (ops : List α) : Prop :=
  ∀ answers ep', M.run ep ops = some (answers, ep') →
    ∃ discarded,
      Balances ep.frames (M.collect entered ep ops) (M.collect delivered ep ops) discarded
        ep'.frames ∧
      (ep'.droppedFrames = ep.droppedFrames + discarded.length ↔ M.Respects idle ep ops)

/-- **The counter is the number of the frames that were discarded exactly as long as none has been
transmitted or read.** -/
theorem droppedFrames_iff (m : Metadata) {ep : Endpoint} (h : Prepared m ep) :
    (ep.direction = .tx → ∀ ops, CountsDrops (txMachine m) (fun s op => op.offered s)
        (fun s op => op.transmitted m s) (fun s op => op.Idle m s) ep ops) ∧
      (ep.direction = .rx → ∀ ops, CountsDrops (rxMachine m) (fun s op => op.entered m s)
        (fun s op => op.returned s) (fun s op => op.Idle s) ep ops) := by
  have hstart : Keeps m ep ep := ⟨SameSetup.refl ep, h⟩
  refine ⟨fun hdirection ops answers ep' hrun => ?_, fun hdirection ops answers ep' hrun => ?_⟩
  · exact (tx_tallies hdirection).counter_iff (fun s op _ => transmitted_eq_nil_iff s op) hstart hrun
  · exact (rx_tallies hdirection).counter_iff
      (fun s op hs => returned_eq_nil_iff hs.prepared (hs.setup.direction.trans hdirection) op)
      hstart hrun

/-- The frames that were in the queue are transmitted, and counted as dropped. -/
theorem droppedFrames_attached :
    CountsDrops (txMachine ⟨48000, 8, 2⟩) (fun s op => op.offered s)
        (fun s op => op.transmitted ⟨48000, 8, 2⟩ s) (fun s op => op.Idle ⟨48000, 8, 2⟩ s)
        (attached .tx) [.write (fun i => BitVec.ofNat 32 i) 3, .transmit 7] ∧
      CountsDrops (rxMachine ⟨48000, 8, 2⟩) (fun s op => op.entered ⟨48000, 8, 2⟩ s)
        (fun s op => op.returned s) (fun s op => op.Idle s) (attached .rx)
        [.receive 4 0 5 6 (fun i _ => BitVec.ofNat 32 i), .read] :=
  ⟨(droppedFrames_iff _ (attached_prepared .tx)).1 rfl _,
    (droppedFrames_iff _ (attached_prepared .rx)).2 rfl _⟩

/-- A period takes the two frames there are: none is discarded, and the counter is two. -/
theorem droppedFrames_transmitted :
    ∃ answers ep', (txMachine ⟨48000, 8, 2⟩).run (attached .tx) [.transmit 7] = some (answers, ep') ∧
      ¬ ∃ discarded,
        Balances (attached .tx).frames [] ((attached .tx).frames.take 2) discarded ep'.frames ∧
        ep'.droppedFrames = (attached .tx).droppedFrames + discarded.length := by
  refine ⟨_, _, rfl, ?_⟩
  rintro ⟨discarded, hbalance, hcounter⟩
  have hlength := hbalance.length
  rw [length_take, length_frames, length_frames] at hlength
  change 2 + 0 = 2 + discarded.length + 0 at hlength
  change 2 = 0 + discarded.length at hcounter
  omega

end Endpoint

end Zstreamer.Dep

/-
# The times of what is read

The worker gives every period a time: that of a pair of a counter and a clock in the header,
carried forward or back to the period, or one that counts samples when the pair is of no use.  A
time before that of the last period is replaced by that one.

The frames of a period have times of their own, behind that of the period, and a read may begin
at any of them.  The next period may come with a time before theirs.  How far into a period a
read can begin depends on the block and the period alone: the places of a period where one can
begin are the multiples of what divides both.
-/

import Mathlib.Data.Nat.GCD.Basic
import Zstreamer.Dep.Rejection
import Zstreamer.Foundation.Runs

namespace Zstreamer.Dep

open Foundation List

/-- What `period_pts` loads of the header, in this order. -/
structure ClockPair where
  flags1 : BitVec 32
  period : BitVec 64
  time : BitVec 64
  flags2 : BitVec 32
  period2 : BitVec 64
  time2 : BitVec 64
  deriving DecidableEq, Repr

/-- `DEP_TIMING_WRITE_ACTIVE`. -/
def timingWriteActive : BitVec 32 := 0x10000

/-- The pair has not been changed while it was loaded. -/
def ClockPair.Steady (pair : ClockPair) : Prop :=
  pair.flags1 &&& timingWriteActive = 0 ∧ pair.flags1 = pair.flags2 ∧ pair.period = pair.period2 ∧
    pair.time = pair.time2 ∧ pair.time ≠ 0

instance (pair : ClockPair) : Decidable pair.Steady := inferInstanceAs (Decidable (_ ∧ _))

/-- The fields of the context that `running_time_pts` uses. -/
structure RunningTime where
  originSet : Bool
  origin : ℕ
  lastPts : ℕ
  fallbackSamples : ℕ
  deriving DecidableEq, Repr

/-- The time of a pair, carried to a period: nothing when it leaves the range of the clock. -/
def ClockPair.carried (pair : ClockPair) (period periodSamples rate : ℕ) : Option ℕ :=
  let pairPeriod := pair.period.toNat
  let pairTime := pair.time.toNat
  let delta := if period ≥ pairPeriod then period - pairPeriod else pairPeriod - period
  if delta ≤ uint64Max / periodSamples then
    let deltaSamples := delta * periodSamples
    let whole := deltaSamples / rate
    let remainder := deltaSamples % rate
    if whole ≤ uint64Max / second then
      let nanoseconds := (whole * second + remainder * second / rate) % 2 ^ 64
      if period ≥ pairPeriod then
        if nanoseconds ≤ uint64Max - pairTime then some (pairTime + nanoseconds) else none
      else if nanoseconds ≤ pairTime then some (pairTime - nanoseconds)
      else none
    else none
  else none

namespace RunningTime

/-- `period_pts`. -/
def periodPts (t : RunningTime) (pair : ClockPair) (period periodSamples rate : ℕ) : ℕ :=
  if pair.Steady then
    (pair.carried period periodSamples rate).getD (samplesToNs t.fallbackSamples rate)
  else samplesToNs t.fallbackSamples rate

/-- `running_time_pts`. -/
def runningTimePts (t : RunningTime) (timestamp rate : ℕ) : ℕ × RunningTime :=
  if t.originSet = false then (0, { t with origin := timestamp, lastPts := 0, originSet := true })
  else
    let pts :=
      if timestamp ≥ t.origin then timestamp - t.origin else samplesToNs t.fallbackSamples rate
    let pts := if pts < t.lastPts then t.lastPts else pts
    (pts, { t with lastPts := pts })

/-- The time of a period. -/
def periodTime (t : RunningTime) (m : Metadata) (pair : ClockPair) (period : ℕ) :
    ℕ × RunningTime :=
  t.runningTimePts (t.periodPts pair period m.samplesPerPeriod m.sampleRate) m.sampleRate

/-- A period has been handled. -/
def countPeriod (t : RunningTime) (m : Metadata) : RunningTime :=
  if t.fallbackSamples ≤ uint64Max - m.samplesPerPeriod then
    { t with fallbackSamples := t.fallbackSamples + m.samplesPerPeriod }
  else t

end RunningTime

/-- A connection, as far as an endpoint that receives takes part in it. -/
structure Listening where
  time : RunningTime
  nextPeriod : ℕ
  endpoint : Endpoint
  /-- The times of the periods that have been accepted, the last one first. -/
  accepted : List ℕ
  /-- The times that reads have returned. -/
  returned : List ℕ

/-- What happens to it. -/
inductive ListenOp
  /-- The worker handles the next period. -/
  | period (pair : ClockPair) (latest latest' : ℕ) (seen : ℕ → ℕ → Sample)
  /-- The worker finds that it has missed so many. -/
  | lose (periods : ℕ)
  /-- `dep_endpoint_start` or `dep_endpoint_stop`. -/
  | enable (on : Bool)
  | read

namespace Listening

variable (m : Metadata)

/-- The worker hands a period to the endpoint. -/
def receive (s : Listening) (pts latest latest' : ℕ) (seen : ℕ → ℕ → Sample) : Listening :=
  if s.endpoint.enabled = false then s
  else
    match s.endpoint.prepare m.samplesPerPeriod m.sampleRate with
    | none => s
    | some ep =>
        let out := ep.receivePeriod m s.nextPeriod pts latest latest' seen
        { s with
          endpoint := out.2
          accepted := if out.1 = true then pts :: s.accepted else s.accepted }

/-- A read, and the time it returns. -/
def afterRead (s : Listening) : Listening :=
  match s.endpoint.read with
  | (.ok _ pts _, ep) => { s with endpoint := ep, returned := s.returned ++ [pts] }
  | (_, ep) => { s with endpoint := ep }

/-- What an operation does. -/
def apply (s : Listening) : ListenOp → Listening
  | .period pair latest latest' seen =>
      let time := s.time.periodTime m pair s.nextPeriod
      let handled := s.receive m time.1 latest latest' seen
      { handled with time := time.2.countPeriod m, nextPeriod := s.nextPeriod + 1 }
  | .lose periods => { s with nextPeriod := s.nextPeriod + periods }
  | .enable on => { s with endpoint := { s.endpoint with enabled := on } }
  | .read => s.afterRead

/-- Connections, from the moment they are made. -/
def system : System Listening ListenOp where
  init s :=
    (0 < m.samplesPerPeriod ∧ m.samplesPerPeriod ≤ uint32Max) ∧
      (s.endpoint.blockSamples ≤ uint32Max ∧ s.endpoint.usedFrames = 0 ∧
        s.endpoint.readFrame = 0) ∧
      (s.time.originSet = false ∧ s.time.fallbackSamples = 0) ∧ s.accepted = [] ∧ s.returned = []
  next s op := some (s.apply m op)

/-- Reads begin at the multiples of this, in every period. -/
def stride (s : Listening) : ℕ :=
  if s.endpoint.blockSamples ≠ 0 then Nat.gcd s.endpoint.blockSamples m.samplesPerPeriod
  else m.samplesPerPeriod

/-- When a period is accepted, its time is not before the time of the last frame of the one accepted
before at which a read can begin; and no frames are dropped for a period that is rejected. -/
def InOrder (s : Listening) : ListenOp → Prop
  | .period pair latest latest' _ =>
      s.endpoint.enabled = true → ¬ m.Rejects latest s.nextPeriod →
        if m.Rejects latest' s.nextPeriod then s.endpoint.DropsNothing m.samplesPerPeriod
        else ∀ last ∈ s.accepted.head?,
          Endpoint.frameTime m last (m.samplesPerPeriod - s.stride m) ≤
            (s.time.periodTime m pair s.nextPeriod).1
  | _ => True

instance (s : Listening) : ∀ op, Decidable (s.InOrder m op)
  | .period .. => inferInstanceAs (Decidable (_ → _ → ite _ _ (∀ last ∈ s.accepted.head?, _)))
  | .lose _ | .enable _ | .read => .isTrue trivial

end Listening

/-! ## Times of frames -/

theorem samplesToNs_eq (samples rate : ℕ) :
    samplesToNs samples rate = min uint64Max (samples * second / rate) := by
  rcases Nat.eq_zero_or_pos rate with rfl | hrate
  · simp [samplesToNs]
  have hsplit : samples * second / rate =
      samples / rate * second + samples % rate * second / rate := by
    conv_lhs => rw [← Nat.div_add_mod samples rate]
    rw [Nat.add_mul, Nat.mul_assoc, Nat.mul_add_div hrate]
  have hsecond : 0 < second := by decide
  rw [samplesToNs, hsplit]
  dsimp only
  split
  case isTrue hmany =>
    have hover : uint64Max < samples / rate * second := (Nat.div_lt_iff_lt_mul hsecond).mp hmany
    exact (min_eq_left (hover.le.trans (Nat.le_add_right _ _))).symm
  case isFalse hfew =>
    have hfits : samples / rate * second ≤ uint64Max :=
      (Nat.le_div_iff_mul_le hsecond).mp (Nat.le_of_not_lt hfew)
    split
    case isTrue hmore => exact (min_eq_left (by omega)).symm
    case isFalse => exact (min_eq_right (by omega)).symm

theorem samplesToNs_le (samples rate : ℕ) : samplesToNs samples rate ≤ uint64Max :=
  (samplesToNs_eq samples rate).trans_le (min_le_left _ _)

theorem samplesToNs_mono {samples samples' : ℕ} (h : samples ≤ samples') (rate : ℕ) :
    samplesToNs samples rate ≤ samplesToNs samples' rate := by
  rw [samplesToNs_eq, samplesToNs_eq]
  exact min_le_min_left _ (Nat.div_le_div_right (Nat.mul_le_mul_right _ h))

namespace Endpoint

variable {m : Metadata} {pts : ℕ}

theorem frameTime_eq (hpts : pts ≤ uint64Max) (i : ℕ) :
    frameTime m pts i = min uint64Max (pts + samplesToNs i m.sampleRate) := by
  rw [frameTime]
  split <;> omega

/-- No frame has a time before that of its period. -/
theorem le_frameTime (hpts : pts ≤ uint64Max) (i : ℕ) : pts ≤ frameTime m pts i := by
  rw [frameTime_eq hpts]
  exact le_min hpts (Nat.le_add_right _ _)

theorem frameTime_mono (hpts : pts ≤ uint64Max) {i j : ℕ} (hij : i ≤ j) :
    frameTime m pts i ≤ frameTime m pts j := by
  rw [frameTime_eq hpts, frameTime_eq hpts]
  exact min_le_min_left _ (Nat.add_le_add_left (samplesToNs_mono hij _) _)

end Endpoint

/-! ## Times of periods -/

namespace RunningTime

variable {t : RunningTime} {m : Metadata}

theorem carried_le {pair : ClockPair} {period periodSamples rate time : ℕ}
    (h : pair.carried period periodSamples rate = some time) : time ≤ uint64Max := by
  have hpair : pair.time.toNat ≤ uint64Max := Nat.le_sub_one_of_lt pair.time.isLt
  rw [ClockPair.carried] at h
  dsimp only at h
  split_ifs at h <;> obtain rfl := Option.some.inj h <;> omega

theorem periodPts_le (t : RunningTime) (pair : ClockPair) (period periodSamples rate : ℕ) :
    t.periodPts pair period periodSamples rate ≤ uint64Max := by
  rw [periodPts]
  split
  · cases hcarried : pair.carried period periodSamples rate with
    | none => exact samplesToNs_le _ _
    | some time => exact carried_le hcarried
  · exact samplesToNs_le _ _

/-- The last time is one of 64 bits. -/
def Bounded (t : RunningTime) : Prop := t.originSet = true → t.lastPts ≤ uint64Max

/-- **The time of a period** is not before that of the last one, and is kept. -/
theorem periodTime_spec (h : t.Bounded) (m : Metadata) (pair : ClockPair) (period : ℕ) :
    (t.periodTime m pair period).1 ≤ uint64Max ∧
      (t.originSet = true → t.lastPts ≤ (t.periodTime m pair period).1) ∧
      (t.periodTime m pair period).2.originSet = true ∧
      (t.periodTime m pair period).2.lastPts = (t.periodTime m pair period).1 := by
  rw [periodTime, runningTimePts]
  split
  case isTrue hfirst =>
    exact ⟨Nat.zero_le _, fun hset => Bool.noConfusion (hfirst.symm.trans hset), rfl, rfl⟩
  case isFalse hlater =>
    have hset : t.originSet = true := Bool.eq_true_of_not_eq_false hlater
    have hlast := h hset
    have htime := t.periodPts_le pair period m.samplesPerPeriod m.sampleRate
    have hcount := samplesToNs_le t.fallbackSamples m.sampleRate
    refine ⟨?_, fun _ => ?_, hset, rfl⟩
    · dsimp only
      split_ifs <;> omega
    · dsimp only
      split_ifs <;> omega

theorem countPeriod_fields (t : RunningTime) (m : Metadata) :
    (t.countPeriod m).originSet = t.originSet ∧ (t.countPeriod m).lastPts = t.lastPts := by
  rw [countPeriod]
  split <;> exact ⟨rfl, rfl⟩

end RunningTime

/-! ## What a read returns -/

namespace Endpoint

/-- A read returns the time of the first frame and takes some frames, or leaves the endpoint
alone. -/
theorem read_time {ep : Endpoint} (hread : 0 < ep.capacityFrames → ep.readFrame < ep.capacityFrames)
    (hused : ep.usedFrames ≤ ep.capacityFrames) :
    (∃ frames rate, ep.read = (.ok frames ((ep.held.map Frame.time).getD 0 0) rate,
        ep.fifoDrop ep.wanted) ∧ 0 < ep.wanted ∧ ep.wanted ≤ ep.usedFrames) ∨
      (∃ answer, ep.read = (answer, ep) ∧ ∀ frames pts rate, answer ≠ .ok frames pts rate) := by
  rw [read]
  split
  case isTrue => exact .inr ⟨_, rfl, fun _ _ _ hok => by cases hok⟩
  case isFalse =>
  split
  case isTrue => exact .inr ⟨_, rfl, fun _ _ _ hok => by cases hok⟩
  case isFalse hready =>
  split
  case isTrue => exact .inr ⟨_, rfl, fun _ _ _ hok => by cases hok⟩
  case isFalse =>
    obtain ⟨-, hready⟩ := not_or.mp hready
    obtain ⟨hsome, hmany⟩ := not_or.mp hready
    have hle : ep.wanted ≤ ep.usedFrames := Nat.le_of_not_lt hmany
    have hpos : 0 < ep.wanted := Nat.pos_of_ne_zero hsome
    have hfirst : (ep.held.map Frame.time).getD 0 0 = ep.timestamps ep.readFrame := by
      obtain ⟨k, hk⟩ : ∃ k, ep.usedFrames = k + 1 := ⟨ep.usedFrames - 1, by omega⟩
      have hread : (ep.readFrame + 0) % ep.capacityFrames = ep.readFrame :=
        Nat.mod_eq_of_lt (hread (by omega))
      rw [held, window, hk, range_succ_eq_map]
      show ep.timestamps ((ep.readFrame + 0) % ep.capacityFrames) = _
      rw [hread]
    exact .inl ⟨_, _, by rw [hfirst], hpos, hle⟩

/-- What `endpoint_prepare` keeps: the frames, unless there are none. -/
theorem prepare_held {ep ep' : Endpoint} {periodSamples sampleRate : ℕ}
    (h : ep.prepare periodSamples sampleRate = some ep') :
    ep'.blockSamples = ep.blockSamples ∧
      ep'.capacityFrames = (if ep.blockSamples > ep.queuePeriods * periodSamples then
        ep.blockSamples else ep.queuePeriods * periodSamples) ∧
      ((ep'.held = ep.held ∧ ep'.usedFrames = ep.usedFrames ∧
          ep'.capacityFrames = ep.capacityFrames) ∨ ep'.usedFrames = 0) := by
  rw [prepare] at h
  split at h
  case isTrue => cases h
  case isFalse =>
    dsimp only at h
    obtain ⟨frames, hframes⟩ : ∃ frames, frames =
        if ep.blockSamples > ep.queuePeriods * periodSamples then ep.blockSamples
        else ep.queuePeriods * periodSamples := ⟨_, rfl⟩
    rw [← hframes] at h ⊢
    split at h
    case isTrue => cases h
    case isFalse =>
      cases h
      split
      case isTrue => exact ⟨rfl, rfl, .inr rfl⟩
      case isFalse hsame =>
        have hcapacity := not_not.mp (not_or.mp hsame).1
        exact ⟨rfl, hcapacity, .inl ⟨rfl, rfl, rfl⟩⟩

end Endpoint

namespace Listening

variable {m : Metadata}

/-- The times at which reads can still begin, of the frames that are held. -/
def ahead (m : Metadata) (s : Listening) : List ℕ :=
  strided (s.stride m) (s.endpoint.held.map Frame.time)

/-- What every state of a connection has. -/
structure Follows (m : Metadata) (s : Listening) : Prop where
  period : 0 < m.samplesPerPeriod ∧ m.samplesPerPeriod ≤ uint32Max
  block : s.endpoint.blockSamples ≤ uint32Max
  used : s.endpoint.usedFrames ≤ s.endpoint.capacityFrames
  read : 0 < s.endpoint.capacityFrames → s.endpoint.readFrame < s.endpoint.capacityFrames
  configured : s.endpoint.usedFrames = 0 ∨
    s.endpoint.configuredPeriodSamples = m.samplesPerPeriod
  /-- The frames that are held begin where a read can begin. -/
  whole : s.stride m ∣ s.endpoint.usedFrames
  bounded : s.time.Bounded
  sorted : (s.returned ++ s.ahead m).Pairwise (· ≤ ·)
  /-- All those times are known to the next period that is accepted. -/
  known : ∀ time ∈ s.returned ++ s.ahead m, ∃ last ∈ s.accepted.head?,
    time ≤ Endpoint.frameTime m last (m.samplesPerPeriod - s.stride m)

theorem stride_dvd_period (m : Metadata) (s : Listening) : s.stride m ∣ m.samplesPerPeriod := by
  rw [stride]
  split
  · exact Nat.gcd_dvd_right _ _
  · exact Nat.dvd_refl _

theorem stride_pos {m : Metadata} (h : 0 < m.samplesPerPeriod) (s : Listening) : 0 < s.stride m :=
  Nat.pos_of_dvd_of_pos (stride_dvd_period m s) h

theorem stride_dvd_block (m : Metadata) (s : Listening) : s.stride m ∣ s.endpoint.blockSamples := by
  rw [stride]
  split
  case isTrue => exact Nat.gcd_dvd_left _ _
  case isFalse hzero =>
    rw [not_not.mp hzero]
    exact Nat.dvd_zero _

/-- A read takes whole steps. -/
theorem Follows.stride_dvd_wanted {s : Listening} (h : Follows m s)
    (hused : s.endpoint.usedFrames ≠ 0) : s.stride m ∣ s.endpoint.wanted := by
  rw [Endpoint.wanted]
  split
  · exact stride_dvd_block m s
  · rw [h.configured.resolve_left hused]
    exact stride_dvd_period m s

/-- Nothing new is returned or held. -/
theorem Follows.of_sublist {s s' : Listening} (h : Follows m s)
    (hendpoint : s'.endpoint.blockSamples = s.endpoint.blockSamples)
    (hused : s'.endpoint.usedFrames ≤ s'.endpoint.capacityFrames)
    (hread : 0 < s'.endpoint.capacityFrames →
      s'.endpoint.readFrame < s'.endpoint.capacityFrames)
    (hconfigured : s'.endpoint.usedFrames = 0 ∨
      s'.endpoint.configuredPeriodSamples = m.samplesPerPeriod)
    (hwhole : s.stride m ∣ s'.endpoint.usedFrames) (hbounded : s'.time.Bounded)
    (haccepted : s'.accepted = s.accepted)
    (hsublist : (s'.returned ++ s'.ahead m).Sublist (s.returned ++ s.ahead m)) :
    Follows m s' := by
  have hstride : s'.stride m = s.stride m := by rw [stride, stride, hendpoint]
  refine ⟨h.period, hendpoint.trans_le h.block, hused, hread, hconfigured, hstride ▸ hwhole,
    hbounded, h.sorted.sublist hsublist, fun time hmem => ?_⟩
  rw [haccepted, hstride]
  exact h.known time (hsublist.subset hmem)

/-- **A read** returns the first of the times ahead. -/
theorem Follows.afterRead {s : Listening} (h : Follows m s) : Follows m s.afterRead := by
  rcases Endpoint.read_time h.read h.used with ⟨frames, rate, hread, hpos, hle⟩ | ⟨answer, hread, hnot⟩
  · have hused : s.endpoint.usedFrames ≠ 0 := by omega
    have hcapacity : 0 < s.endpoint.capacityFrames := hpos.trans_le (hle.trans h.used)
    obtain ⟨hsame, hsound, hleft, -, hheld⟩ :=
      Endpoint.fifoDrop_spec ⟨h.used, h.read hcapacity⟩ s.endpoint.wanted
    obtain ⟨d, hd⟩ := h.stride_dvd_wanted hused
    have hg := stride_pos h.period.1 s
    have hlength : (s.endpoint.held.map Frame.time).length = s.endpoint.usedFrames := by
      rw [length_map, Endpoint.length_held]
    obtain ⟨rest, hahead⟩ := head_strided hg
      (hlength ▸ Nat.le_of_dvd (Nat.pos_of_ne_zero hused) h.whole :
        s.stride m ≤ (s.endpoint.held.map Frame.time).length)
    have hafter : s.afterRead =
        { s with
          endpoint := s.endpoint.fifoDrop s.endpoint.wanted
          returned := s.returned ++ [(s.endpoint.held.map Frame.time).getD 0 0] } := by
      rw [Listening.afterRead, hread]
    rw [hafter]
    refine h.of_sublist hsame.blockSamples hsound.used (fun _ => hsound.read) ?_ ?_ h.bounded rfl ?_
    · rw [hsame.configured]
      exact .inr (h.configured.resolve_left hused)
    · rw [hleft]
      exact Nat.dvd_sub h.whole ⟨d, hd⟩
    · obtain ⟨k, rfl⟩ : ∃ k, d = k + 1 := Nat.exists_eq_succ_of_ne_zero fun hzero => by
        rw [hzero, Nat.mul_zero] at hd
        omega
      have hstride : Listening.stride m
          { s with
            endpoint := s.endpoint.fifoDrop s.endpoint.wanted
            returned := s.returned ++ [(s.endpoint.held.map Frame.time).getD 0 0] } =
          s.stride m := by
        rw [stride, stride, hsame.blockSamples]
      rw [ahead, hstride, hheld, map_drop, hd, strided_drop hg, ahead, hahead,
        drop_succ_cons, append_assoc]
      exact List.Sublist.append_left (List.Sublist.cons_cons _ (drop_sublist _ _)) _
  · have hafter : s.afterRead = s := by
      rw [Listening.afterRead, hread]
      cases answer with
      | error => rfl
      | timeout => rfl
      | ok frames pts rate => exact absurd rfl (hnot frames pts rate)
    rw [hafter]
    exact h

/-- The frames of a period are kept with those that are held: the times ahead of both. -/
theorem ahead_keepNewest {g cap : ℕ} (hg : 0 < g) (hcap : g ∣ cap) (hperiod : g ∣ m.samplesPerPeriod)
    (held : List Frame) (hheld : g ∣ held.length) (channels pts : ℕ) (seen : ℕ → ℕ → Sample) :
    ((strided g ((keepNewest cap (held ++ periodFrames m channels pts seen)).map Frame.time)).Sublist
      (strided g (held.map Frame.time) ++
        (range (m.samplesPerPeriod / g)).map fun a => Endpoint.frameTime m pts (g * a))) ∧
      g ∣ (keepNewest cap (held ++ periodFrames m channels pts seen)).length := by
  have hlength : (periodFrames m channels pts seen).length = m.samplesPerPeriod := by
    rw [periodFrames, length_map, length_range]
  have hnew : (periodFrames m channels pts seen).map Frame.time =
      (range m.samplesPerPeriod).map (Endpoint.frameTime m pts) := by
    rw [periodFrames, map_map]
    rfl
  have hall : g ∣ (held ++ periodFrames m channels pts seen).length := by
    rw [length_append, hlength]
    exact Nat.dvd_add hheld hperiod
  constructor
  · obtain ⟨d, hd⟩ := Nat.dvd_sub hall hcap
    rw [keepNewest, hd, map_drop, strided_drop hg, map_append, hnew,
      strided_append hg (by rwa [length_map]), strided_map_range]
    exact drop_sublist _ _
  · rw [length_keepNewest]
    rcases min_choice (held ++ periodFrames m channels pts seen).length cap with hmin | hmin
    · rwa [hmin]
    · rwa [hmin]

/-- **A period that is accepted** adds times that are not before those ahead. -/
theorem Follows.accept {s : Listening} (h : Follows m s) {ep : Endpoint}
    (hep : s.endpoint = ep) (hprepared : Endpoint.Prepared m ep)
    (hcap : s.stride m ∣ ep.capacityFrames) {pts latest latest' : ℕ}
    (hpts : pts ≤ uint64Max)
    (horder : ∀ last ∈ s.accepted.head?,
      Endpoint.frameTime m last (m.samplesPerPeriod - s.stride m) ≤ pts)
    (hfirst : ¬ m.Rejects latest s.nextPeriod) (hlast : ¬ m.Rejects latest' s.nextPeriod)
    (seen : ℕ → ℕ → Sample) :
    Follows m
      { s with
        endpoint := (ep.receivePeriod m s.nextPeriod pts latest latest' seen).2
        accepted := pts :: s.accepted } := by
  obtain ⟨ep', hreceive, hsame, hsound, hheld⟩ := @Endpoint.receivePeriod_spec m ep hprepared.sound
    hprepared.period s.nextPeriod pts latest latest' hfirst hlast seen
  rw [hreceive]
  have hg := stride_pos h.period.1 s
  have hperiod := stride_dvd_period m s
  have hstride : Listening.stride m { s with endpoint := ep', accepted := pts :: s.accepted } =
      s.stride m := by
    rw [stride, stride, hsame.blockSamples, hep]
  have hwhole : s.stride m ∣ ep.held.length := by
    rw [Endpoint.length_held, ← hep]
    exact h.whole
  obtain ⟨hsublist, hdvd⟩ := ahead_keepNewest hg hcap hperiod ep.held hwhole
    ep.channelCount pts seen
  rw [← hheld] at hsublist hdvd
  -- the times of the period, behind all that are known
  have hnew : ∀ time ∈ (range (m.samplesPerPeriod / s.stride m)).map
      (fun a => Endpoint.frameTime m pts (s.stride m * a)),
      pts ≤ time ∧ time ≤ Endpoint.frameTime m pts (m.samplesPerPeriod - s.stride m) := by
    intro time hmem
    obtain ⟨a, ha, rfl⟩ := mem_map.mp hmem
    refine ⟨Endpoint.le_frameTime hpts _, Endpoint.frameTime_mono hpts ?_⟩
    have hle : s.stride m * (a + 1) ≤ m.samplesPerPeriod :=
      (Nat.mul_le_mul_left _ (mem_range.mp ha)).trans (Nat.mul_div_le _ _)
    rw [Nat.mul_succ] at hle
    omega
  have hold : ∀ time ∈ s.returned ++ s.ahead m, time ≤ pts := fun time hmem => by
    obtain ⟨last, hhead, hle⟩ := h.known time hmem
    exact hle.trans (horder last hhead)
  have hsub : (s.returned ++ Listening.ahead m
      { s with endpoint := ep', accepted := pts :: s.accepted }).Sublist
      (s.returned ++ s.ahead m ++ (range (m.samplesPerPeriod / s.stride m)).map
        fun a => Endpoint.frameTime m pts (s.stride m * a)) := by
    rw [ahead, hstride, append_assoc, ahead, hep]
    exact List.Sublist.append_left hsublist _
  refine ⟨h.period, ?_, hsound.used, fun _ => hsound.read, .inr ?_, ?_, h.bounded, ?_, ?_⟩
  · exact (hsame.blockSamples.trans (congrArg _ hep.symm)).trans_le h.block
  · exact hsame.configured.trans hprepared.configured
  · rw [hstride, ← Endpoint.length_held]
    exact hdvd
  · refine List.Pairwise.sublist hsub (pairwise_append.mpr ⟨h.sorted, ?_, fun x hx y hy =>
      (hold x hx).trans (hnew y hy).1⟩)
    rw [pairwise_map]
    exact pairwise_lt_range.imp fun hlt =>
      Endpoint.frameTime_mono hpts (Nat.mul_le_mul_left _ hlt.le)
  · intro time hmem
    refine ⟨pts, rfl, ?_⟩
    rw [hstride]
    rcases mem_append.mp (hsub.subset hmem) with hmem | hmem
    · exact (hold time hmem).trans (Endpoint.le_frameTime hpts _)
    · exact (hnew time hmem).2

/-- **A period** that is in order. -/
theorem Follows.receive {s : Listening} (h : Follows m s) {pts latest latest' : ℕ}
    {seen : ℕ → ℕ → Sample} (hpts : pts ≤ uint64Max)
    (horder : s.endpoint.enabled = true → ¬ m.Rejects latest s.nextPeriod →
      if m.Rejects latest' s.nextPeriod then s.endpoint.DropsNothing m.samplesPerPeriod
      else ∀ last ∈ s.accepted.head?,
        Endpoint.frameTime m last (m.samplesPerPeriod - s.stride m) ≤ pts) :
    Follows m (s.receive m pts latest latest' seen) := by
  rw [Listening.receive]
  split
  case isTrue => exact h
  case isFalse hon =>
  have hon : s.endpoint.enabled = true := Bool.eq_true_of_not_eq_false hon
  split
  case h_1 => exact h
  case h_2 ep hprepare =>
    have hprepared := Endpoint.prepare_prepared hprepare ⟨h.used, h.read⟩ h.block h.period.2 hon
    obtain ⟨hblock, hcapacity, hkept⟩ := Endpoint.prepare_held hprepare
    have hstride : Listening.stride m { s with endpoint := ep } = s.stride m := by
      rw [stride, stride, hblock]
    have hcap : s.stride m ∣ ep.capacityFrames := by
      rw [hcapacity]
      split
      · exact stride_dvd_block m s
      · exact Nat.dvd_mul_left_of_dvd (stride_dvd_period m s) _
    have hnone : ep.usedFrames = 0 → ep.held = [] := fun hzero =>
      eq_nil_of_length_eq_zero ((Endpoint.length_held ep).trans hzero)
    have h' : Follows m { s with endpoint := ep } := by
      refine h.of_sublist hblock hprepared.sound.used (fun _ => hprepared.sound.read)
        (.inr hprepared.configured) ?_ h.bounded rfl ?_
      · rcases hkept with ⟨-, hused, -⟩ | hzero
        · exact hused ▸ h.whole
        · show s.stride m ∣ ep.usedFrames
          rw [hzero]
          exact Nat.dvd_zero _
      · rw [ahead, hstride]
        rcases hkept with ⟨hheld, -, -⟩ | hzero
        · show (s.returned ++ strided (s.stride m) (ep.held.map Frame.time)).Sublist _
          rw [hheld]
          exact List.Sublist.refl _
        · show (s.returned ++ strided (s.stride m) (ep.held.map Frame.time)).Sublist _
          rw [hnone hzero, strided, map_nil, length_nil, Nat.zero_div]
          exact List.Sublist.append_left (nil_sublist _) _
    have hdrops : s.endpoint.DropsNothing m.samplesPerPeriod →
        ep.DropsNothing m.samplesPerPeriod := by
      rcases hkept with ⟨-, hused, hsame⟩ | hzero
      · rw [Endpoint.DropsNothing, Endpoint.DropsNothing, hused, hsame]
        exact id
      · exact fun _ => .inl hzero
    cases hout : ep.receivePeriod m s.nextPeriod pts latest latest' seen with
    | mk accepted ep' =>
      cases accepted with
      | true =>
          obtain ⟨hfirst, hlast⟩ := Endpoint.passed_of_accepted (congrArg Prod.fst hout)
          have horder := horder hon hfirst
          rw [if_neg hlast] at horder
          have haccept := h'.accept rfl hprepared (hstride ▸ hcap) hpts
            (hstride ▸ horder) hfirst hlast seen
          rw [hout] at haccept
          exact haccept
      | false =>
          obtain ⟨hsame, hsound, hused⟩ :=
            Endpoint.rejected_setup hprepared.sound hprepared.period hout
          have hroom : m.Rejects latest s.nextPeriod ∨ ep.DropsNothing m.samplesPerPeriod := by
            by_cases hfirst : m.Rejects latest s.nextPeriod
            · exact .inl hfirst
            · have horder := horder hon hfirst
              split at horder
              case isTrue => exact .inr (hdrops horder)
              case isFalse hlast =>
                obtain ⟨_, haccepted, -⟩ := @Endpoint.receivePeriod_spec m ep hprepared.sound
                  hprepared.period s.nextPeriod pts latest latest' hfirst hlast seen
                rw [hout] at haccepted
                exact absurd (Prod.mk.inj haccepted).1 Bool.noConfusion
          have hheld := Endpoint.rejected_held hprepared.sound hout hroom
          refine h'.of_sublist hsame.blockSamples hsound.used (fun _ => hsound.read)
            (.inr (hsame.configured.trans hprepared.configured)) ?_ h.bounded rfl ?_
          · show _ ∣ ep'.usedFrames
            rw [hused]
            exact h'.whole
          · have hstride' : Listening.stride m { s with endpoint := ep' } = s.stride m := by
              rw [stride, stride, hsame.blockSamples, hblock]
            show (s.returned ++ strided (Listening.stride m { s with endpoint := ep' })
              (ep'.held.map Frame.time)).Sublist (s.returned ++ strided _ (ep.held.map Frame.time))
            rw [hstride', hheld, hstride]

/-- **A step** that is in order. -/
theorem Follows.step {s s' : Listening} {op : ListenOp} (h : Follows m s)
    (horder : s.InOrder m op) (hnext : (system m).next s op = some s') : Follows m s' := by
  cases hnext
  cases op with
  | period pair latest latest' seen =>
      obtain ⟨hpts, -, -, hlast⟩ := s.time.periodTime_spec h.bounded m pair s.nextPeriod
      have hreceive : Follows m (s.receive m _ latest latest' seen) := h.receive hpts horder
      refine hreceive.of_sublist rfl hreceive.used hreceive.read hreceive.configured
        hreceive.whole (fun _ => ?_) rfl (List.Sublist.refl _)
      show ((s.time.periodTime m pair s.nextPeriod).2.countPeriod m).lastPts ≤ uint64Max
      rw [(RunningTime.countPeriod_fields _ m).2, hlast]
      exact hpts
  | lose periods =>
      exact h.of_sublist rfl h.used h.read h.configured h.whole h.bounded rfl (List.Sublist.refl _)
  | enable on =>
      exact h.of_sublist rfl h.used h.read h.configured h.whole h.bounded rfl (List.Sublist.refl _)
  | read => exact h.afterRead

theorem follows_of_init {s : Listening} (hinit : (system m).init s) : Follows m s := by
  obtain ⟨hperiod, ⟨hblock, hused, hread⟩, ⟨hset, -⟩, haccepted, hreturned⟩ := hinit
  have hnone : s.returned ++ s.ahead m = [] := by
    have hheld : s.endpoint.held = [] :=
      eq_nil_of_length_eq_zero ((Endpoint.length_held _).trans hused)
    rw [hreturned, ahead, hheld, strided, map_nil, length_nil, Nat.zero_div]
    rfl
  refine ⟨hperiod, hblock, hused.trans_le (Nat.zero_le _), fun hpos => hread.trans_lt hpos,
    .inl hused, hused ▸ Nat.dvd_zero _, fun hon => Bool.noConfusion (hset.symm.trans hon), ?_, ?_⟩
  · rw [hnone]
    exact .nil
  · rw [hnone]
    exact fun _ hmem => absurd hmem not_mem_nil

/-- **The times that reads return do not decrease**, while the periods come in order. -/
theorem nondecreasing {s : Listening} (hs : (system m).ReachableVia (InOrder m) s) :
    s.returned.Pairwise (· ≤ ·) := by
  have hfollows : Follows m s :=
    hs.invariant (fun _ => follows_of_init) fun _ _ _ _ h horder hnext => h.step horder hnext
  exact hfollows.sorted.sublist (sublist_append_left _ _)

/-! ## Runs -/

/-- Periods of two samples, a millisecond each. -/
def slow : Metadata := ⟨1000, 8, 2⟩

/-- A pair that was loaded while it was not changed. -/
def pairOf (period time : ℕ) : ClockPair :=
  ⟨0, BitVec.ofNat 64 period, BitVec.ofNat 64 time, 0, BitVec.ofNat 64 period, BitVec.ofNat 64 time⟩

/-- A connection that has just been made, for an endpoint that is read frame by frame. -/
def connected : Listening where
  time := ⟨false, 0, 0, 0⟩
  nextPeriod := 5
  endpoint := { Endpoint.attached .rx with blockSamples := 1, usedFrames := 0, readFrame := 0 }
  accepted := []
  returned := []

/-- A clock that runs evenly. -/
def evenRun : List ListenOp :=
  [.period (pairOf 6 1000000000) 6 6 fun _ _ => 0, .read, .read,
    .period (pairOf 7 1002000000) 7 7 fun _ _ => 0, .read, .read]

theorem connected_init : (system slow).init connected :=
  ⟨⟨by decide, by decide⟩, ⟨by decide, rfl, rfl⟩, ⟨rfl, rfl⟩, rfl, rfl⟩

/-- What is read with an even clock. -/
theorem nondecreasing_evenRun :
    ∃ s, (system slow).ReachableVia (InOrder slow) s ∧
      s.returned = [0, 1000000, 2000000, 3000000] ∧ s.returned.Pairwise (· ≤ ·) := by
  obtain ⟨s, hrun, hreturned⟩ := Option.map_eq_some_iff.mp
    (show (((system slow).restrict (InOrder slow)).run connected evenRun).map Listening.returned =
      some [0, 1000000, 2000000, 3000000] by decide +kernel)
  have hinit : ((system slow).restrict (InOrder slow)).init connected := connected_init
  have hreach := System.Reachable.of_restrict (System.Reachable.run (.start hinit) hrun)
  exact ⟨s, hreach, hreturned, nondecreasing hreach⟩

/-- The second time, the clock has not moved. -/
def jitterRun : List ListenOp :=
  [.period (pairOf 6 1000000000) 6 6 fun _ _ => 0, .read, .read,
    .period (pairOf 7 1000000000) 7 7 fun _ _ => 0, .read]

/-- **A read returns a time before that of the read before it.** -/
theorem jitter_decreases :
    ∃ s, (system slow).Reachable s ∧ s.returned = [0, 1000000, 0] ∧
      ¬ s.returned.Pairwise (· ≤ ·) := by
  obtain ⟨s, hrun, hreturned⟩ := Option.map_eq_some_iff.mp
    (show ((system slow).run connected jitterRun).map Listening.returned = some [0, 1000000, 0] by
      decide +kernel)
  refine ⟨s, System.Reachable.run (.start connected_init) hrun, hreturned, ?_⟩
  rw [hreturned]
  decide

end Listening

end Zstreamer.Dep

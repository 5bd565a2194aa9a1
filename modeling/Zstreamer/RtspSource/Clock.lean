/-
# Times of the packets that two receivers take

`sdp_rtp_ts_to_pts` of `sdp_demuxer.c` and `rtp_ts_to_pts_track` of `rtsp_source.c` count ticks from
the first packet: of the track in the one, of the whole session in the other, and for each of two
kinds of clocks.  The difference is one of 32 bits, which the first of them takes for a signed one.
With a sender report they count from the time of the report, and only forwards.

The ratio of the DPLL is one.
-/

import Zstreamer.Foundation.Ticks
import Zstreamer.RtspSource.Depacketize

namespace Zstreamer.RtspSource

open Foundation List Function

/-- `clock_rate`, or the one of video. -/
def effectiveRate (clockRate : ℤ) : ℤ := if clockRate > 0 then clockRate else 90000

/-- So many ticks in nanoseconds. -/
def ticksNs (clockRate : ℤ) (n : ℕ) : BitVec 64 :=
  BitVec.ofNat 64 (ticks (effectiveRate clockRate).toNat second n)

/-- What `sdp_track_t` has to tell the time with. -/
structure TrackClock where
  clockRate : ℤ
  basePts : BitVec 64
  baseRtpTs : BitVec 32
  hasBasePts : Bool
  hasSr : Bool
  lastNtpTime : BitVec 64
  lastRtpTime : BitVec 32
  deriving DecidableEq, Repr

namespace TrackClock

/-- `sdp_rtp_ts_to_pts`.  What is added to a negative difference is 2^32 as an `int32_t`. -/
def rtpTsToPts (t : TrackClock) (now : BitVec 64) (rtpTs : BitVec 32) : TrackClock × BitVec 64 :=
  let rate : BitVec 64 := BitVec.ofInt 64 (effectiveRate t.clockRate)
  if t.hasSr then
    let delta := rtpTs - t.lastRtpTime
    (t, ntpToUnixNs t.lastNtpTime + delta.setWidth 64 * 1000000000 / rate)
  else if t.hasBasePts = false then
    ({ t with basePts := now * 1000, baseRtpTs := rtpTs, hasBasePts := true }, now * 1000)
  else
    let delta := rtpTs - t.baseRtpTs
    let delta := if delta.msb then delta + BitVec.ofInt 32 0x100000000 else delta
    (t, t.basePts + delta.signExtend 64 * 1000000000 / rate)

end TrackClock

/-- A packet: its track, its time in ticks without end, of which it carries 32 bits, and what
`now_us` says when it comes. -/
structure Arrival where
  track : ℕ
  time : ℕ
  now : BitVec 64
  deriving DecidableEq, Repr

/-- The 32 bits. -/
def Arrival.rtpTs (a : Arrival) : BitVec 32 := BitVec.ofNat 32 a.time

/-- The packets of a session of `sdpdemux`, where every track has its own clock: the clocks
afterwards, and the times. -/
def stampTracks : List Arrival → (ℕ → TrackClock) → (ℕ → TrackClock) × List (BitVec 64)
  | [], tracks => (tracks, [])
  | a :: arrivals, tracks =>
      let one := (tracks a.track).rtpTsToPts a.now a.rtpTs
      let rest := stampTracks arrivals (update tracks a.track one.1)
      (rest.1, one.2 :: rest.2)

/-- The packets of a session of `rtspsrc`. -/
def Client.stampAll (tracks : ℕ → Track) : List Arrival → Client → Client × List (BitVec 64)
  | [], cl => (cl, [])
  | a :: arrivals, cl =>
      let one := cl.rtpTsToPts (tracks a.track) a.now a.rtpTs
      let rest := stampAll tracks arrivals one.1
      (rest.1, one.2 :: rest.2)

/-! ## Differences -/

theorem effectiveRate_pos (clockRate : ℤ) : 0 < effectiveRate clockRate := by
  rw [effectiveRate]
  split <;> omega

/-- The duration of a difference of 32 bits, where the rate is an `int`. -/
theorem duration_eq {clockRate : ℤ} (hrate : clockRate < 2 ^ 31) {delta : BitVec 64}
    (hdelta : delta.toNat < 2 ^ 32) :
    delta * 1000000000 / BitVec.ofInt 64 (effectiveRate clockRate) =
      ticksNs clockRate delta.toNat := by
  have hpos := effectiveRate_pos clockRate
  have hless : effectiveRate clockRate < 2 ^ 31 := by
    rw [effectiveRate]
    split <;> omega
  have hnat : (BitVec.ofInt 64 (effectiveRate clockRate)).toNat =
      (effectiveRate clockRate).toNat := by
    rw [BitVec.toNat_ofInt]
    omega
  have hproduct : (delta * 1000000000).toNat = delta.toNat * 1000000000 := by
    rw [BitVec.toNat_mul]
    exact Nat.mod_eq_of_lt (by
      show delta.toNat * 1000000000 < 2 ^ 64
      omega)
  rw [← BitVec.toNat_inj, BitVec.toNat_udiv, hproduct, hnat, ticksNs, BitVec.toNat_ofNat, ticks,
    second]
  refine (Nat.mod_eq_of_lt ?_).symm
  exact Nat.lt_of_le_of_lt (Nat.div_le_self _ _) (by omega)

/-- The difference of two times, as far as 32 bits go. -/
theorem toNat_diff {first time : ℕ} (hle : first ≤ time) (hnear : time - first < 2 ^ 32) :
    (BitVec.ofNat 32 time - BitVec.ofNat 32 first).toNat = time - first := by
  rw [BitVec.toNat_sub, BitVec.toNat_ofNat, BitVec.toNat_ofNat]
  omega

/-! ## Without a sender report -/

/-- The times of a track go up. -/
def Rising (arrivals : List Arrival) : Prop :=
  arrivals.Pairwise fun a b => a.track = b.track → a.time ≤ b.time

/-- The time of the first packet of a track. -/
def firstTime (arrivals : List Arrival) (track : ℕ) : ℕ :=
  ((arrivals.find? fun a => a.track = track).map Arrival.time).getD 0

theorem ticksNs_zero (clockRate : ℤ) : ticksNs clockRate 0 = 0 := by
  rw [ticksNs, ticks, Nat.zero_mul, Nat.zero_div]
  rfl

theorem rising_tail {a : Arrival} {arrivals : List Arrival} (h : Rising (a :: arrivals)) :
    Rising arrivals := (pairwise_cons.mp h).2

theorem firstTime_of_find {arrivals : List Arrival} {a : Arrival} {track : ℕ}
    (hfind : arrivals.find? (fun a => a.track = track) = some a) :
    a.time = firstTime arrivals track := by
  rw [firstTime, hfind]
  rfl

theorem find_own (a : Arrival) (arrivals : List Arrival) :
    (a :: arrivals).find? (fun b => b.track = a.track) = some a :=
  find?_cons_of_pos (decide_eq_true rfl)

theorem find_other {a : Arrival} {track : ℕ} (hne : track ≠ a.track) (arrivals : List Arrival) :
    (a :: arrivals).find? (fun b => b.track = track) = arrivals.find? fun b => b.track = track :=
  find?_cons_of_neg (by simpa using Ne.symm hne)

/-- The first packet of a track is not later than the others. -/
theorem firstTime_le {arrivals : List Arrival} (hrising : Rising arrivals) :
    ∀ a ∈ arrivals, firstTime arrivals a.track ≤ a.time := by
  induction arrivals with
  | nil => exact fun a ha => absurd ha not_mem_nil
  | cons b arrivals ih =>
      intro a ha
      rw [firstTime, find?_cons]
      by_cases hsame : b.track = a.track
      · rw [decide_eq_true hsame]
        rcases mem_cons.mp ha with rfl | hlater
        · exact Nat.le_refl _
        · exact (pairwise_cons.mp hrising).1 a hlater hsame
      · rw [decide_eq_false hsame]
        rcases mem_cons.mp ha with rfl | hlater
        · exact absurd rfl hsame
        · exact ih (rising_tail hrising) a hlater

namespace TrackClock

variable {t : TrackClock} {first time : ℕ} (now : BitVec 64)

/-- A track with a report keeps its clock. -/
theorem rtpTsToPts_reported (hsr : t.hasSr = true) (rtpTs : BitVec 32) :
    (t.rtpTsToPts now rtpTs).1 = t := by
  rw [rtpTsToPts, if_pos hsr]

/-- The first packet of a track is its base. -/
theorem rtpTsToPts_fresh (hsr : t.hasSr = false) (hfresh : t.hasBasePts = false)
    (rtpTs : BitVec 32) : t.rtpTsToPts now rtpTs =
      ({ t with basePts := now * 1000, baseRtpTs := rtpTs, hasBasePts := true }, now * 1000) := by
  rw [rtpTsToPts, hsr, if_neg Bool.false_ne_true, if_pos hfresh]

/-- A packet that is less than 2^31 ticks behind the base. -/
theorem rtpTsToPts_based (hrate : t.clockRate < 2 ^ 31) (hsr : t.hasSr = false)
    (hbased : t.hasBasePts = true) (hbase : t.baseRtpTs = BitVec.ofNat 32 first)
    (hle : first ≤ time) (hnear : time - first < 2 ^ 31) :
    t.rtpTsToPts now (BitVec.ofNat 32 time) =
      (t, t.basePts + ticksNs t.clockRate (time - first)) := by
  have hdiff := toNat_diff hle (by omega)
  have hmsb : ¬ (BitVec.ofNat 32 time - t.baseRtpTs).msb = true := by
    rw [BitVec.msb_eq_true_iff_two_mul_ge, hbase, hdiff]
    omega
  have hwide : ((BitVec.ofNat 32 time - t.baseRtpTs).signExtend 64).toNat = time - first := by
    rw [BitVec.signExtend_eq_setWidth_of_msb_false (Bool.eq_false_of_not_eq_true hmsb),
      BitVec.toNat_setWidth, hbase, hdiff]
    omega
  rw [rtpTsToPts, hsr, if_neg Bool.false_ne_true, hbased, if_neg Bool.true_eq_false.mp]
  dsimp only
  rw [if_neg hmsb, duration_eq hrate (by omega), hwide]

/-- A clock counts from the first time, or takes the next packet of its track for its base. -/
def Counts (t : TrackClock) (first : ℕ) (next : Option Arrival) : Prop :=
  if t.hasBasePts = true then t.baseRtpTs = BitVec.ofNat 32 first
  else ∀ a, next = some a → a.time = first

/-- What a packet of a track without a report does: the clock counts from the first time, and the
packet has the time since then. -/
structure Counted (t : TrackClock) (first : ℕ) (a : Arrival) (one : TrackClock × BitVec 64) :
    Prop where
  kept : t.hasBasePts = true → one.1 = t
  report : one.1.hasSr = false
  rate : one.1.clockRate = t.clockRate
  based : one.1.hasBasePts = true
  base : one.1.baseRtpTs = BitVec.ofNat 32 first
  pts : one.2 = one.1.basePts + ticksNs t.clockRate (a.time - first)

theorem Counts.step {a : Arrival} (hcounts : t.Counts first (some a))
    (hrate : t.clockRate < 2 ^ 31) (hsr : t.hasSr = false) (hle : first ≤ a.time)
    (hnear : a.time - first < 2 ^ 31) : t.Counted first a (t.rtpTsToPts a.now a.rtpTs) := by
  rw [Counts] at hcounts
  by_cases hbased : t.hasBasePts = true
  · rw [if_pos hbased] at hcounts
    rw [Arrival.rtpTs, rtpTsToPts_based a.now hrate hsr hbased hcounts hle hnear]
    exact ⟨fun _ => rfl, hsr, rfl, hbased, hcounts, rfl⟩
  · rw [if_neg hbased] at hcounts
    have htime := hcounts a rfl
    rw [rtpTsToPts_fresh a.now hsr (Bool.eq_false_of_not_eq_true hbased)]
    refine ⟨fun h => absurd h hbased, hsr, rfl, rfl, congrArg (BitVec.ofNat 32) htime, ?_⟩
    rw [htime, Nat.sub_self, ticksNs_zero]
    exact (BitVec.add_zero _).symm

end TrackClock

/-- **The packets of a session of `sdpdemux`** that are all less than 2^31 ticks behind the first of
their track. -/
theorem stampTracks_linear {first : ℕ → ℕ} {arrivals : List Arrival} {tracks : ℕ → TrackClock}
    (hrates : ∀ i, (tracks i).clockRate < 2 ^ 31)
    (hle : ∀ a ∈ arrivals, first a.track ≤ a.time)
    (hcounts : ∀ i, (tracks i).hasSr = false →
      (tracks i).Counts (first i) (arrivals.find? fun a => a.track = i))
    (hnear : ∀ a ∈ arrivals, (tracks a.track).hasSr = false → a.time - first a.track < 2 ^ 31) :
    (∀ i, (tracks i).hasBasePts = true → (stampTracks arrivals tracks).1 i = tracks i) ∧
      List.Forall₂ (fun a pts => (tracks a.track).hasSr = false →
          pts = ((stampTracks arrivals tracks).1 a.track).basePts +
            ticksNs (tracks a.track).clockRate (a.time - first a.track))
        arrivals (stampTracks arrivals tracks).2 := by
  induction arrivals generalizing tracks with
  | nil => exact ⟨fun _ _ => rfl, .nil⟩
  | cons a arrivals ih =>
      have hlater : ∀ b ∈ arrivals, first b.track ≤ b.time := fun b hb =>
        hle b (mem_cons_of_mem a hb)
      have hother : ∀ i, i ≠ a.track → ∀ t, update tracks a.track t i = tracks i :=
        fun i hne t => update_of_ne hne t tracks
      generalize hone : (tracks a.track).rtpTsToPts a.now a.rtpTs = one
      have hstep : stampTracks (a :: arrivals) tracks =
          ((stampTracks arrivals (update tracks a.track one.1)).1,
            one.2 :: (stampTracks arrivals (update tracks a.track one.1)).2) := by
        rw [← hone]
        rfl
      rw [hstep]
      by_cases hsr : (tracks a.track).hasSr = false
      · have hcount : (tracks a.track).Counted (first a.track) a one := by
          have hstart := hcounts a.track hsr
          rw [find_own] at hstart
          exact hone ▸ hstart.step (hrates a.track) hsr (hle a mem_cons_self)
            (hnear a mem_cons_self hsr)
        have hfixed : ∀ i, (update tracks a.track one.1 i).hasSr = (tracks i).hasSr ∧
            (update tracks a.track one.1 i).clockRate = (tracks i).clockRate := fun i => by
          by_cases hi : i = a.track
          · rw [hi, update_self, hsr]
            exact ⟨hcount.report, hcount.rate⟩
          · rw [hother i hi]
            exact ⟨rfl, rfl⟩
        obtain ⟨hkept, hall⟩ := @ih (update tracks a.track one.1)
          (fun i => (hfixed i).2 ▸ hrates i) hlater
          (fun i hi => by
            by_cases hsame : i = a.track
            · rw [hsame, update_self, TrackClock.Counts, if_pos hcount.based]
              exact hcount.base
            · rw [hother i hsame] at hi ⊢
              rw [← find_other hsame]
              exact hcounts i hi)
          (fun b hb hreport => hnear b (mem_cons_of_mem a hb) ((hfixed _).1 ▸ hreport))
        have hfinal := hkept a.track (by rw [update_self]; exact hcount.based)
        rw [update_self] at hfinal
        refine ⟨fun i hi => ?_, .cons (fun _ => ?_) (hall.imp fun b pts h hreport => ?_)⟩
        · by_cases hsame : i = a.track
          · rw [hsame, hfinal]
            exact hcount.kept (hsame ▸ hi)
          · rw [hkept i (by rwa [hother i hsame]), hother i hsame]
        · rw [hfinal]
          exact hcount.pts
        · rw [h ((hfixed _).1.trans hreport), (hfixed _).2]
      · -- a track with a report keeps its clock
        have hsame : update tracks a.track one.1 = tracks := by
          rw [← hone, TrackClock.rtpTsToPts_reported a.now (Bool.eq_true_of_not_eq_false hsr)]
          exact update_eq_self a.track tracks
        rw [hsame]
        obtain ⟨hkept, hall⟩ := ih hrates hlater (fun i hi => by
            rw [← find_other (fun h => hsr (h ▸ hi)) arrivals]
            exact hcounts i hi)
          fun b hb => hnear b (mem_cons_of_mem a hb)
        exact ⟨hkept, .cons (fun hnone => absurd hnone hsr) hall⟩

/-- What `base_rtp_ts` a track is measured against. -/
def Client.baseOf (cl : Client) (tr : Track) : BitVec 32 :=
  if effectiveRate tr.clockRate = 90000 then cl.baseRtpTsVideo else cl.baseRtpTsAudio

/-- The base of the session is taken from a clock that does not say zero; behind that,
the base of the kind of clock is the time of the first packet of the track, and that is less than
2^32 ticks ago. -/
def Client.Measures (tracks : ℕ → Track) (first : ℕ → ℕ) (cl : Client) (a : Arrival) : Prop :=
  (tracks a.track).hasSr = false →
    if cl.basePts = 0 then a.now * 1000 ≠ 0
    else cl.baseOf (tracks a.track) = BitVec.ofNat 32 (first a.track) ∧
      a.time - first a.track < 2 ^ 32

instance (tracks : ℕ → Track) (first : ℕ → ℕ) (cl : Client) (a : Arrival) :
    Decidable (cl.Measures tracks first a) :=
  inferInstanceAs (Decidable ((tracks a.track).hasSr = false →
    if cl.basePts = 0 then a.now * 1000 ≠ 0
    else cl.baseOf (tracks a.track) = BitVec.ofNat 32 (first a.track) ∧
      a.time - first a.track < 2 ^ 32))

/-- Every packet is measured so. -/
def Client.MeasuresAll (tracks : ℕ → Track) (first : ℕ → ℕ) : Client → List Arrival → Prop
  | _, [] => True
  | cl, a :: arrivals =>
      cl.Measures tracks first a ∧
        MeasuresAll tracks first (cl.rtpTsToPts (tracks a.track) a.now a.rtpTs).1 arrivals

instance Client.decidableMeasuresAll (tracks : ℕ → Track) (first : ℕ → ℕ) :
    (cl : Client) → (arrivals : List Arrival) → Decidable (cl.MeasuresAll tracks first arrivals)
  | _, [] => isTrue trivial
  | cl, a :: arrivals =>
      have := decidableMeasuresAll tracks first
        (cl.rtpTsToPts (tracks a.track) a.now a.rtpTs).1 arrivals
      inferInstanceAs (Decidable (_ ∧ _))

/-- A packet of a session that has its base. -/
theorem Client.rtpTsToPts_based {cl : Client} {tr : Track} {first time : ℕ} {now : BitVec 64}
    (hrate : tr.clockRate < 2 ^ 31) (hsr : tr.hasSr = false) (hbased : cl.basePts ≠ 0)
    (hbase : cl.baseOf tr = BitVec.ofNat 32 first) (hle : first ≤ time)
    (hnear : time - first < 2 ^ 32) :
    cl.rtpTsToPts tr now (BitVec.ofNat 32 time) =
      (cl, cl.basePts + ticksNs tr.clockRate (time - first)) := by
  have hdiff := toNat_diff hle hnear
  have hwide : ((BitVec.ofNat 32 time - cl.baseOf tr).setWidth 64).toNat = time - first := by
    rw [BitVec.toNat_setWidth, hbase, hdiff]
    omega
  have hduration := @duration_eq _ hrate ((BitVec.ofNat 32 time - cl.baseOf tr).setWidth 64) (by omega)
  rw [hwide] at hduration
  rw [rtpTsToPts, hsr, if_neg Bool.false_ne_true, if_neg hbased]
  exact congrArg (fun d => (cl, cl.basePts + d)) hduration

/-- **The packets of a session** whose base and times are measured rightly. -/
theorem Client.stampAll_linear {tracks : ℕ → Track} {first : ℕ → ℕ} {arrivals : List Arrival}
    {cl : Client} (hrates : ∀ i, (tracks i).clockRate < 2 ^ 31)
    (hle : ∀ a ∈ arrivals, first a.track ≤ a.time)
    (hfirst : cl.basePts = 0 → ∀ a, arrivals.find? (fun a => (tracks a.track).hasSr = false) =
      some a → a.time = first a.track)
    (hmeasures : cl.MeasuresAll tracks first arrivals) :
    (cl.basePts ≠ 0 → (cl.stampAll tracks arrivals).1.basePts = cl.basePts) ∧
      List.Forall₂ (fun a pts => (tracks a.track).hasSr = false →
          pts = (cl.stampAll tracks arrivals).1.basePts +
            ticksNs (tracks a.track).clockRate (a.time - first a.track))
        arrivals (cl.stampAll tracks arrivals).2 := by
  induction arrivals generalizing cl with
  | nil => exact ⟨fun _ => rfl, .nil⟩
  | cons a arrivals ih =>
      obtain ⟨hone, hrest⟩ := hmeasures
      have hlater : ∀ b ∈ arrivals, first b.track ≤ b.time := fun b hb =>
        hle b (mem_cons_of_mem a hb)
      have hstep : cl.stampAll tracks (a :: arrivals) =
          (((cl.rtpTsToPts (tracks a.track) a.now a.rtpTs).1.stampAll tracks arrivals).1,
            (cl.rtpTsToPts (tracks a.track) a.now a.rtpTs).2 ::
              ((cl.rtpTsToPts (tracks a.track) a.now a.rtpTs).1.stampAll tracks arrivals).2) := rfl
      rw [hstep]
      by_cases hsr : (tracks a.track).hasSr = false
      · have hmeasured := hone hsr
        by_cases hbased : cl.basePts = 0
        · -- the base of the session is taken now
          rw [if_pos hbased] at hmeasured
          have htime := hfirst hbased a (find?_cons_of_pos (decide_eq_true hsr))
          have hbase : (cl.rtpTsToPts (tracks a.track) a.now a.rtpTs).1.basePts = a.now * 1000 ∧
              (cl.rtpTsToPts (tracks a.track) a.now a.rtpTs).2 = a.now * 1000 := by
            rw [rtpTsToPts, hsr, if_neg Bool.false_ne_true, if_pos hbased]
            dsimp only
            constructor <;> split <;> split <;> rfl
          obtain ⟨hkept, hall⟩ := ih hlater (fun hzero => absurd (hbase.1.symm.trans hzero)
            hmeasured) hrest
          have hsame := (hkept fun hzero => hmeasured (hbase.1.symm.trans hzero)).trans hbase.1
          refine ⟨fun hne => absurd hbased hne, .cons (fun _ => ?_) hall⟩
          rw [hsame, hbase.2, htime, Nat.sub_self, ticksNs_zero]
          exact (BitVec.add_zero _).symm
        · rw [if_neg hbased] at hmeasured
          have heq : cl.rtpTsToPts (tracks a.track) a.now a.rtpTs = (cl, cl.basePts +
              ticksNs (tracks a.track).clockRate (a.time - first a.track)) :=
            rtpTsToPts_based (hrates _) hsr hbased hmeasured.1 (hle a mem_cons_self) hmeasured.2
          rw [heq] at hrest ⊢
          obtain ⟨hkept, hall⟩ := ih hlater (fun hzero => absurd hzero hbased) hrest
          refine ⟨hkept, .cons (fun _ => ?_) hall⟩
          rw [hkept hbased]
      · -- a track with a report has its own time
        have hreport : (tracks a.track).hasSr = true := Bool.eq_true_of_not_eq_false hsr
        have heq : (cl.rtpTsToPts (tracks a.track) a.now a.rtpTs).1 = cl := by
          rw [rtpTsToPts, hreport, if_pos rfl]
        rw [heq] at hrest ⊢
        obtain ⟨hkept, hall⟩ := ih hlater (fun hzero b hb => hfirst hzero b
          ((find?_cons_of_neg (by simp [hreport])).trans hb)) hrest
        exact ⟨hkept, .cons (fun hnone => absurd hnone hsr) hall⟩

/-- The first packet that takes the base of a session is the first of its track. -/
theorem firstTime_of_unreported {tracks : ℕ → Track} {arrivals : List Arrival} {a : Arrival}
    (hfind : arrivals.find? (fun a => (tracks a.track).hasSr = false) = some a) :
    a.time = firstTime arrivals a.track := by
  obtain ⟨hsr, before, after, rfl, hbefore⟩ := find?_eq_some_iff_append.mp hfind
  refine firstTime_of_find (find?_eq_some_iff_append.mpr
    ⟨decide_eq_true rfl, before, after, rfl, fun b hb => ?_⟩)
  have hreport := hbefore b hb
  by_contra hsame
  rw [Bool.not_eq_true', Bool.not_eq_false, decide_eq_true_eq] at hsame
  rw [hsame, hsr] at hreport
  exact absurd hreport Bool.false_ne_true

/-! ## With a sender report -/

/-- The time of a report that comes `x` ticks after the packet is measured forwards, around all of
the 32 bits. -/
theorem back_iff {clockRate : ℤ} (hrate : clockRate < 2 ^ 31) (base : BitVec 64) {x : ℕ}
    (hx : x ≤ 2 ^ 31) {rtpTs report : BitVec 32} (hreport : report = rtpTs + BitVec.ofNat 32 x) :
    base + (rtpTs - report).setWidth 64 * 1000000000 / BitVec.ofInt 64 (effectiveRate clockRate) =
      base - ticksNs clockRate x ↔ x = 0 := by
  have hdelta : ((rtpTs - report).setWidth 64).toNat = (2 ^ 32 - x) % 2 ^ 32 := by
    rw [hreport, BitVec.toNat_setWidth, BitVec.toNat_sub, BitVec.toNat_add, BitVec.toNat_ofNat]
    omega
  rw [duration_eq hrate (by omega), hdelta]
  constructor
  · intro heq
    by_contra hne
    have hwhole : (2 ^ 32 - x) % 2 ^ 32 = 2 ^ 32 - x := Nat.mod_eq_of_lt (by omega)
    rw [hwhole] at heq
    have hrest : ticksNs clockRate (2 ^ 32 - x) + ticksNs clockRate x = 0 := by
      have hsum := congrArg (· - base + ticksNs clockRate x) heq
      simpa [BitVec.sub_eq_add_neg, BitVec.add_assoc, BitVec.add_comm base,
        BitVec.add_left_neg] using hsum
    have hrateNat : 0 < (effectiveRate clockRate).toNat ∧
        (effectiveRate clockRate).toNat ≤ 2 ^ 31 := by
      have hpos := effectiveRate_pos clockRate
      rw [effectiveRate] at hpos ⊢
      split <;> omega
    have hbig : 1 ≤ ticks (effectiveRate clockRate).toNat second (2 ^ 32 - x) := by
      refine (Nat.le_div_iff_mul_le hrateNat.1).mpr ?_
      rw [second]
      omega
    have hless : ∀ n, n ≤ 2 ^ 32 →
        ticks (effectiveRate clockRate).toNat second n ≤ 2 ^ 32 * 1000000000 := fun n hn =>
      (Nat.div_le_self _ _).trans (Nat.mul_le_mul_right _ hn)
    have hzero : (ticksNs clockRate (2 ^ 32 - x) + ticksNs clockRate x).toNat = 0 :=
      congrArg BitVec.toNat hrest
    rw [ticksNs, ticksNs, ← BitVec.ofNat_add, BitVec.toNat_ofNat, Nat.mod_eq_of_lt] at hzero
    · omega
    · have hfirst := hless (2 ^ 32 - x) (Nat.sub_le _ _)
      have hsecond := hless x (by omega)
      omega
  · rintro rfl
    rw [Nat.sub_zero, Nat.mod_self, ticksNs_zero]
    exact (BitVec.add_zero base).trans (BitVec.sub_zero base).symm

/-- The time that `sdp_rtp_ts_to_pts` gives when there is a report. -/
theorem TrackClock.report_iff {t : TrackClock} (hrate : t.clockRate < 2 ^ 31)
    (hsr : t.hasSr = true) (now : BitVec 64) {x : ℕ} (hx : x ≤ 2 ^ 31) {rtpTs : BitVec 32}
    (hreport : t.lastRtpTime = rtpTs + BitVec.ofNat 32 x) :
    (t.rtpTsToPts now rtpTs).2 = ntpToUnixNs t.lastNtpTime - ticksNs t.clockRate x ↔ x = 0 := by
  rw [rtpTsToPts, if_pos hsr]
  exact back_iff hrate _ hx hreport

/-- The time that `rtp_ts_to_pts_track` gives when there is a report. -/
theorem Client.report_iff (cl : Client) {tr : Track} (hrate : tr.clockRate < 2 ^ 31)
    (hsr : tr.hasSr = true) (now : BitVec 64) {x : ℕ} (hx : x ≤ 2 ^ 31) {rtpTs : BitVec 32}
    (hreport : tr.lastRtpTime = rtpTs + BitVec.ofNat 32 x) :
    (cl.rtpTsToPts tr now rtpTs).2 = ntpToUnixNs tr.lastNtpTime - ticksNs tr.clockRate x ↔
      x = 0 := by
  rw [rtpTsToPts, if_pos hsr]
  exact back_iff hrate _ hx hreport

/-! ## Both receivers -/

/-- The packets of the tracks without a report have the pts of the first packet of their track,
which is its base, and the time since then. -/
def Linear (reported : ℕ → Bool) (rates : ℕ → ℤ) (base : ℕ → BitVec 64) (arrivals : List Arrival)
    (times : List (BitVec 64)) : Prop :=
  List.Forall₂ (fun a pts => reported a.track = false →
    pts = base a.track + ticksNs (rates a.track) (a.time - firstTime arrivals a.track))
    arrivals times

/-- **The times of both receivers.**  In a session of `sdpdemux` they are right when every packet is
less than 2^31 ticks behind the first of its track; in one of `rtspsrc`, when every packet is
measured against the first of its own track and less than 2^32 ticks behind it.  Against a report
that is not older than the packet they are right exactly when the report has the same time. -/
theorem timestamps_linear {tracks : ℕ → TrackClock} {cl : Client} {sources : ℕ → Track}
    {arrivals : List Arrival} (hrising : Rising arrivals)
    (hrates : ∀ i, (tracks i).clockRate < 2 ^ 31) (hsources : ∀ i, (sources i).clockRate < 2 ^ 31)
    (hfresh : ∀ i, (tracks i).hasBasePts = false) :
    ((∀ a ∈ arrivals, (tracks a.track).hasSr = false →
        a.time - firstTime arrivals a.track < 2 ^ 31) →
      Linear (fun i => (tracks i).hasSr) (fun i => (tracks i).clockRate)
        (fun i => ((stampTracks arrivals tracks).1 i).basePts) arrivals
        (stampTracks arrivals tracks).2) ∧
    (cl.MeasuresAll sources (firstTime arrivals) arrivals →
      Linear (fun i => (sources i).hasSr) (fun i => (sources i).clockRate)
        (fun _ => (cl.stampAll sources arrivals).1.basePts) arrivals
        (cl.stampAll sources arrivals).2) ∧
    (∀ i now x, x ≤ 2 ^ 31 → ∀ rtpTs,
      ((tracks i).hasSr = true → (tracks i).lastRtpTime = rtpTs + BitVec.ofNat 32 x →
        (((tracks i).rtpTsToPts now rtpTs).2 =
          ntpToUnixNs (tracks i).lastNtpTime - ticksNs (tracks i).clockRate x ↔ x = 0)) ∧
      ((sources i).hasSr = true → (sources i).lastRtpTime = rtpTs + BitVec.ofNat 32 x →
        ((cl.rtpTsToPts (sources i) now rtpTs).2 =
          ntpToUnixNs (sources i).lastNtpTime - ticksNs (sources i).clockRate x ↔ x = 0))) := by
  have hle := firstTime_le hrising
  refine ⟨fun hnear => ?_, fun hmeasures => ?_, fun i now x hx rtpTs => ⟨?_, ?_⟩⟩
  · refine (stampTracks_linear hrates hle (fun i _ => ?_) hnear).2
    rw [TrackClock.Counts, hfresh, if_neg Bool.false_ne_true]
    exact fun a ha => firstTime_of_find ha
  · exact (cl.stampAll_linear hsources hle (fun _ a ha => firstTime_of_unreported ha) hmeasures).2
  · exact fun hsr => TrackClock.report_iff (hrates i) hsr now hx
  · exact fun hsr => cl.report_iff (hsources i) hsr now hx

/-- A track of 90 kHz of the demuxer, before its first packet. -/
def freshTrack : TrackClock := ⟨90000, 0, 0, false, false, 0, 0⟩

/-- Two video tracks of `rtspsrc`: one without a report, and one with a report at the tick 90. -/
def clockTrack (i : ℕ) : Track := ⟨.video, 96, [], 90000, i == 1, 0, 90⟩

/-- The packets of two seconds. -/
def twoSeconds : List Arrival := [⟨0, 0, 1⟩, ⟨0, 90000, 2⟩, ⟨0, 180000, 3⟩]

theorem timestamps_linear_seconds :
    Linear (fun _ => false) (fun _ => 90000)
        (fun i => ((stampTracks twoSeconds fun _ => freshTrack).1 i).basePts) twoSeconds
        (stampTracks twoSeconds fun _ => freshTrack).2 ∧
      Linear (fun i => i == 1) (fun _ => 90000)
        (fun _ => (Client.start.stampAll clockTrack twoSeconds).1.basePts) twoSeconds
        (Client.start.stampAll clockTrack twoSeconds).2 ∧
      ((Client.start.rtpTsToPts (clockTrack 1) 1 89).2 =
        ntpToUnixNs 0 - ticksNs 90000 1 ↔ 1 = 0) := by
  have hall := @timestamps_linear (fun _ => freshTrack) Client.start clockTrack twoSeconds
    (by simp [Rising, twoSeconds]) (fun _ => by decide) (fun _ => show (90000 : ℤ) < 2 ^ 31 by decide) (fun _ => rfl)
  exact ⟨hall.1 (by decide), hall.2.1 (by decide),
    (hall.2.2 1 1 1 (by decide) 89).2 (by decide) (by decide)⟩

/-- The difference of 2^31 ticks is a negative one, and its duration is divided as a number of 64
bits without a sign: the last packet is behind by two days. -/
theorem far_back_apart :
    (stampTracks [⟨0, 0, 1⟩, ⟨0, 2 ^ 31 - 1, 2⟩, ⟨0, 2 ^ 31, 3⟩] fun _ => freshTrack).2 =
        [1000, 23860929412111, 181102893619995] ∧
      (1000 + ticksNs 90000 (2 ^ 31) : BitVec 64) = 23860929423222 := by
  decide

end Zstreamer.RtspSource

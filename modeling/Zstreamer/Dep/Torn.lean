/-
# Periods that are overwritten while they are copied

Another process writes the samples of a period to the rings one after the other and then counts
the period.  `receive_period` reads the counter, copies a period of the rings, and reads the
counter again: if no more periods have been counted since than the rings have, it takes what it
has copied for the period.  But the other process may have begun the next period by then, and
that one is written over the period that is copied, but for the samples the rings have to spare.

The worker and the producer take turns here in any order, a sample at a time.
-/

import Zstreamer.Dep.Fifo
import Zstreamer.Foundation.Runs

namespace Zstreamer.Dep

open Foundation List Function Option

/-- What a producer writes: the samples of every period, in every plane. -/
abbrev Wave := ℕ → ℕ → ℕ → Sample

/-- An endpoint as the worker hands it to `receive_period`, when `endpoint_channels_valid` and
`endpoint_prepare` have passed. -/
structure ReadyEndpoint (m : Metadata) (planes : ℕ) where
  endpoint : Endpoint
  sound : endpoint.Sound
  period : m.samplesPerPeriod ≤ endpoint.capacityFrames
  channels : ∀ channel ∈ endpoint.channelMap, channel < planes

/-- Where the worker is in `receive_period`. -/
inductive Worker
  | idle
  /-- It has checked the counter and waits for the endpoint. -/
  | locking (period pts latest : ℕ)
  /-- It holds the endpoint and has copied some samples. -/
  | copying (ep : Endpoint) (period pts latest : ℕ) (copied : List Sample)

/-- A call of `receive_period` that has returned, with the endpoint before and after. -/
structure Receipt where
  before : Endpoint
  period : ℕ
  pts : ℕ
  accepted : Bool
  after : Endpoint

/-- The rings, the counter, and what the two processes are about. -/
structure Rings where
  planes : ℕ → ℕ → Sample
  periodCount : ℕ
  /-- The samples of the next period that have been written, with their planes. -/
  written : List (ℕ × ℕ)
  worker : Worker
  receipts : List Receipt

/-- A single step of one of the two. -/
inductive Turn (m : Metadata) (planes : ℕ)
  | produce (plane i : ℕ)
  | publish
  | check (period pts : ℕ)
  | lock (ready : ReadyEndpoint m planes)
  | copy
  | finish

namespace Endpoint

/-- The plane and the sample that are copied after so many. -/
def nextCopied (ep : Endpoint) (copied : List Sample) : ℕ × ℕ :=
  (ep.channelMap.getD (copied.length % ep.channelCount) 0, copied.length / ep.channelCount)

/-- What has been copied, by frames and channels. -/
def seenIn (ep : Endpoint) (copied : List Sample) : ℕ → ℕ → Sample := fun i c =>
  copied.getD (i * ep.channelCount + c) 0

end Endpoint

namespace Rings

variable (m : Metadata) (planes : ℕ) (wave : Wave)

/-- A sample of the next period is written. -/
def produce (s : Rings) (plane i : ℕ) : Rings :=
  { s with
    planes := update s.planes plane
      (update (s.planes plane)
        ((s.periodCount * m.samplesPerPeriod + i) % m.samplesPerChannel)
        (wave s.periodCount plane i))
    written := (plane, i) :: s.written }

/-- The next period has been written. -/
def Complete (s : Rings) : Prop :=
  ∀ plane, plane < planes → ∀ i, i < m.samplesPerPeriod → (plane, i) ∈ s.written

instance (s : Rings) : Decidable (s.Complete m planes) :=
  inferInstanceAs (Decidable (∀ plane, plane < planes → ∀ i, i < m.samplesPerPeriod → _))

/-- `receive_period` returns. -/
def finish (s : Rings) (ep : Endpoint) (period pts latest : ℕ) (copied : List Sample) : Rings :=
  let out := ep.receivePeriod m period pts latest s.periodCount (ep.seenIn copied)
  { s with
    worker := .idle
    receipts := ⟨ep, period, pts, out.1, out.2⟩ :: s.receipts }

/-- The next step of the producer or of the worker, when it may take it. -/
def next (s : Rings) : Turn m planes → Option Rings
  | .produce plane i =>
      if plane < planes ∧ i < m.samplesPerPeriod then some (s.produce m wave plane i) else none
  | .publish =>
      if s.Complete m planes then some { s with periodCount := s.periodCount + 1, written := [] }
      else none
  | .check period pts =>
      match s.worker with
      | .idle =>
          if m.Rejects s.periodCount period then some s
          else some { s with worker := .locking period pts s.periodCount }
      | _ => none
  | .lock ready =>
      match s.worker with
      | .locking period pts latest =>
          some { s with worker := .copying ready.endpoint period pts latest [] }
      | _ => none
  | .copy =>
      match s.worker with
      | .copying ep period pts latest copied =>
          if copied.length < m.samplesPerPeriod * ep.channelCount then
            let at' := ep.nextCopied copied
            let sample := s.planes at'.1 (m.ringSample period at'.2)
            some { s with worker := .copying ep period pts latest (copied ++ [sample]) }
          else none
      | _ => none
  | .finish =>
      match s.worker with
      | .copying ep period pts latest copied =>
          if copied.length = m.samplesPerPeriod * ep.channelCount then
            some (s.finish m ep period pts latest copied)
          else none
      | _ => none

/-- The rings of a producer, from its first period on. -/
def system : System Rings (Turn m planes) where
  init s := s.periodCount = 0 ∧ s.written = [] ∧ s.worker = .idle ∧ s.receipts = []
  next := next m planes wave

/-- The sample that a worker copies next has not been written over by the period after all those of
the rings, unless that period has been counted. -/
def NotOvertaken (s : Rings) : Worker → Prop
  | .copying ep period _ _ copied =>
      s.periodCount = period + m.ringPeriods →
        ∀ cell ∈ s.written, cell.1 = (ep.nextCopied copied).1 →
          m.ringSample s.periodCount cell.2 ≠ m.ringSample period (ep.nextCopied copied).2
  | _ => True

instance (s : Rings) : ∀ w, Decidable (s.NotOvertaken m w)
  | .copying .. => inferInstanceAs (Decidable (_ → ∀ cell ∈ s.written, _ → _))
  | .idle | .locking .. => .isTrue trivial

/-- The worker copies no sample that has been overtaken. -/
def Timely (s : Rings) : Turn m planes → Prop
  | .copy => s.NotOvertaken m s.worker
  | _ => True

instance (s : Rings) : ∀ turn : Turn m planes, Decidable (s.Timely m planes turn)
  | .copy => inferInstanceAs (Decidable (s.NotOvertaken m s.worker))
  | .produce .. | .publish | .check .. | .lock .. | .finish => .isTrue trivial

end Rings

/-- The frames that have been appended are those of the period, as they were written. -/
def Receipt.Intact (m : Metadata) (wave : Wave) (r : Receipt) : Prop :=
  r.after.held = keepNewest r.before.capacityFrames (r.before.held ++
    periodFrames m r.before.channelCount r.pts fun i c =>
      wave r.period (r.before.channelMap.getD c 0) i)

instance (m : Metadata) (wave : Wave) (r : Receipt) : Decidable (r.Intact m wave) :=
  inferInstanceAs (Decidable (_ = _))

namespace Rings

variable {m : Metadata} {planes : ℕ} {wave : Wave}

/-! ## What stands in the rings -/

theorem ringSample_eq (m : Metadata) (period i : ℕ) :
    m.ringSample period i = (period * m.samplesPerPeriod + i) % m.samplesPerChannel := by
  rw [Metadata.ringSample, periodStart, Nat.mod_add_mod, Nat.add_mod, Nat.mod_mul_mod,
    ← Nat.add_mod]

/-- What the rings hold: every sample that has been written and not been overwritten. -/
structure Holds (m : Metadata) (planes : ℕ) (wave : Wave) (s : Rings) : Prop where
  /-- A sample of a period that counts, over which no other has been written yet. -/
  counted : ∀ n plane i, n < s.periodCount → i < m.samplesPerPeriod →
    s.periodCount * m.samplesPerPeriod ≤ n * m.samplesPerPeriod + i + m.samplesPerChannel →
    (∀ j, (plane, j) ∈ s.written → m.ringSample s.periodCount j ≠ m.ringSample n i) →
    plane < planes →
    s.planes plane (m.ringSample n i) = wave n plane i
  /-- A sample of the next period. -/
  begun : ∀ plane i, (plane, i) ∈ s.written →
    s.planes plane (m.ringSample s.periodCount i) = wave s.periodCount plane i
  bounds : ∀ plane i, (plane, i) ∈ s.written → i < m.samplesPerPeriod

/-- Samples of the next period in two places of a plane. -/
theorem ringSample_ne (hle : m.samplesPerPeriod ≤ m.samplesPerChannel) {n i j : ℕ} (hne : i ≠ j)
    (hi : i < m.samplesPerPeriod) (hj : j < m.samplesPerPeriod) :
    m.ringSample n i ≠ m.ringSample n j := by
  rw [ringSample_eq, ringSample_eq]
  rcases Nat.lt_or_gt_of_ne hne with hlt | hlt
  · exact mod_ne_of_window (by omega) (by omega)
  · exact (mod_ne_of_window (by omega) (by omega)).symm

/-- A sample is not written over one that has room behind it. -/
theorem ringSample_ne_next {count n i j : ℕ} (hn : n < count) (hi : i < m.samplesPerPeriod)
    (hroom : count * m.samplesPerPeriod + j <
      n * m.samplesPerPeriod + i + m.samplesPerChannel) :
    m.ringSample count j ≠ m.ringSample n i := by
  have hnext : (n + 1) * m.samplesPerPeriod ≤ count * m.samplesPerPeriod :=
    Nat.mul_le_mul_right _ hn
  rw [Nat.succ_mul] at hnext
  rw [ringSample_eq, ringSample_eq]
  exact (mod_ne_of_window (by omega) (by omega)).symm

/-- **A sample that is written** leaves the rings holding what they hold. -/
theorem Holds.produce {s : Rings} (hle : m.samplesPerPeriod ≤ m.samplesPerChannel)
    (h : Holds m planes wave s) {plane i : ℕ} (hi : i < m.samplesPerPeriod) :
    Holds m planes wave (s.produce m wave plane i) := by
  have hplanes : ∀ k p, (s.produce m wave plane i).planes k p =
      if k = plane ∧ p = m.ringSample s.periodCount i then wave s.periodCount plane i
      else s.planes k p := by
    intro k p
    show update s.planes plane _ k p = _
    rw [ringSample_eq]
    by_cases hk : k = plane
    · subst hk
      rw [update_self, update_apply]
      by_cases hp : p = (s.periodCount * m.samplesPerPeriod + i) % m.samplesPerChannel
      · rw [if_pos hp, if_pos ⟨rfl, hp⟩]
      · rw [if_neg hp, if_neg fun hand => hp hand.2]
    · rw [update_of_ne hk, if_neg fun hand => hk hand.1]
  refine ⟨?_, ?_, ?_⟩
  · intro n k j hn hj hroom hall hk
    rw [hplanes, if_neg, h.counted n k j hn hj hroom
      (fun j' hmem => hall j' (mem_cons_of_mem _ hmem)) hk]
    rintro ⟨rfl, hsame⟩
    exact hall i mem_cons_self hsame.symm
  · intro k j hmem
    show (s.produce m wave plane i).planes k (m.ringSample s.periodCount j) =
      wave s.periodCount k j
    rw [hplanes]
    rcases mem_cons.mp hmem with heq | hold
    · obtain ⟨rfl, rfl⟩ := Prod.mk.inj heq
      exact if_pos ⟨rfl, rfl⟩
    · split
      case isTrue hsame =>
        obtain ⟨rfl, hsame⟩ := hsame
        have hij : j = i := by
          by_contra hne
          exact ringSample_ne hle hne (h.bounds k j hold) hi hsame
        rw [hij]
      case isFalse => exact h.begun k j hold
  · intro k j hmem
    rcases mem_cons.mp hmem with heq | hold
    · obtain ⟨rfl, rfl⟩ := Prod.mk.inj heq
      exact hi
    · exact h.bounds k j hold

/-- A period that is counted joins those that are held. -/
theorem Holds.publish {s : Rings} (h : Holds m planes wave s)
    (hcomplete : s.Complete m planes) :
    Holds m planes wave { s with periodCount := s.periodCount + 1, written := [] } := by
  refine ⟨?_, fun _ _ hmem => absurd hmem not_mem_nil,
    fun _ _ hmem => absurd hmem not_mem_nil⟩
  intro n k j hn hj hroom _ hk
  have hroom : (s.periodCount + 1) * m.samplesPerPeriod ≤
      n * m.samplesPerPeriod + j + m.samplesPerChannel := hroom
  rw [Nat.succ_mul] at hroom
  rcases Nat.lt_succ_iff_lt_or_eq.mp hn with hlt | rfl
  · refine h.counted n k j hlt hj (by omega) (fun j' hmem => ?_) hk
    have hj' := h.bounds k j' hmem
    exact ringSample_ne_next hlt hj (by omega)
  · exact h.begun k j (hcomplete k hk j hj)

/-- **A sample that is copied is the right one**, unless the counter will tell. -/
theorem Holds.copied {s : Rings} (h : Holds m planes wave s) {plane period i : ℕ}
    (hcounts : period < s.periodCount) (hi : i < m.samplesPerPeriod) (hplane : plane < planes)
    (htimely : s.periodCount = period + m.ringPeriods → ∀ cell ∈ s.written, cell.1 = plane →
      m.ringSample s.periodCount cell.2 ≠ m.ringSample period i) :
    s.planes plane (m.ringSample period i) = wave period plane i ∨
      m.ringPeriods < s.periodCount - period := by
  rcases Nat.lt_or_ge m.ringPeriods (s.periodCount - period) with hmany | hfew
  · exact .inr hmany
  left
  have hrings : m.ringPeriods * m.samplesPerPeriod ≤ m.samplesPerChannel :=
    Nat.div_mul_le_self _ _
  have hcount : s.periodCount * m.samplesPerPeriod ≤
      period * m.samplesPerPeriod + m.samplesPerChannel := by
    calc s.periodCount * m.samplesPerPeriod
        ≤ (period + m.ringPeriods) * m.samplesPerPeriod := Nat.mul_le_mul_right _ (by omega)
      _ = period * m.samplesPerPeriod + m.ringPeriods * m.samplesPerPeriod := Nat.add_mul _ _ _
      _ ≤ period * m.samplesPerPeriod + m.samplesPerChannel := Nat.add_le_add_left hrings _
  refine h.counted period plane i hcounts hi (by omega) (fun j hmem => ?_) hplane
  have hj := h.bounds plane j hmem
  by_cases hlast : s.periodCount = period + m.ringPeriods
  · exact htimely hlast _ hmem rfl
  · have hless : (s.periodCount + 1) * m.samplesPerPeriod ≤
        (period + m.ringPeriods) * m.samplesPerPeriod := Nat.mul_le_mul_right _ (by omega)
    rw [Nat.succ_mul, Nat.add_mul] at hless
    exact ringSample_ne_next hcounts hi (by omega)

/-! ## What the worker has copied -/

/-- The samples that have been copied are those of the period. -/
def AllRight (wave : Wave) (ep : Endpoint) (period : ℕ) (copied : List Sample) : Prop :=
  ∀ j, j < copied.length → copied.getD j 0 =
    wave period (ep.channelMap.getD (j % ep.channelCount) 0) (j / ep.channelCount)

/-- What the worker relies on when the counter is at `count`. -/
def WorkerRight (m : Metadata) (planes : ℕ) (wave : Wave) (count : ℕ) : Worker → Prop
  | .idle => True
  | .locking period _ latest => period < count ∧ ¬ m.Rejects latest period
  | .copying ep period _ latest copied =>
      period < count ∧ ¬ m.Rejects latest period ∧ (∃ ready : ReadyEndpoint m planes,
        ready.endpoint = ep) ∧
      (AllRight wave ep period copied ∨ m.ringPeriods < count - period)

/-- What every state has. -/
structure Keeps (m : Metadata) (planes : ℕ) (wave : Wave) (s : Rings) : Prop where
  holds : Holds m planes wave s
  worker : WorkerRight m planes wave s.periodCount s.worker
  receipts : ∀ r ∈ s.receipts, r.accepted = true → r.Intact m wave

/-- More periods do not make a period wrong that the counter does not reject. -/
theorem WorkerRight.mono {count : ℕ} {w : Worker} (h : WorkerRight m planes wave count w) :
    WorkerRight m planes wave (count + 1) w := by
  cases w with
  | idle => trivial
  | locking period pts latest => exact ⟨Nat.lt_succ_of_lt h.1, h.2⟩
  | copying ep period pts latest copied =>
      obtain ⟨hcounts, hfirst, hready, hright⟩ := h
      exact ⟨Nat.lt_succ_of_lt hcounts, hfirst, hready, hright.imp_right fun hmany => by omega⟩

/-- One more sample is copied. -/
theorem AllRight.append {ep : Endpoint} {period : ℕ} {copied : List Sample}
    (h : AllRight wave ep period copied) {sample : Sample}
    (hsample : sample = wave period (ep.nextCopied copied).1 (ep.nextCopied copied).2) :
    AllRight wave ep period (copied ++ [sample]) := by
  intro j hj
  rw [length_append, length_singleton] at hj
  rcases Nat.lt_succ_iff_lt_or_eq.mp hj with hlt | rfl
  · rw [getD_append _ _ _ _ hlt]
    exact h j hlt
  · rw [getD_append_right _ _ _ _ (Nat.le_refl _), Nat.sub_self]
    exact hsample

/-- Frames of the samples of a period are its frames. -/
theorem AllRight.periodFrames {ep : Endpoint} {period : ℕ} {copied : List Sample}
    (h : AllRight wave ep period copied)
    (hall : copied.length = m.samplesPerPeriod * ep.channelCount) (pts : ℕ) :
    periodFrames m ep.channelCount pts (ep.seenIn copied) =
      periodFrames m ep.channelCount pts fun i c => wave period (ep.channelMap.getD c 0) i := by
  refine map_congr_left fun i hi => ?_
  refine congrArg (Frame.mk · _) (map_congr_left fun c hc => ?_)
  have hi := mem_range.mp hi
  have hc := mem_range.mp hc
  have hfits : (i + 1) * ep.channelCount ≤ m.samplesPerPeriod * ep.channelCount :=
    Nat.mul_le_mul_right _ hi
  rw [Nat.succ_mul] at hfits
  have hplace := h (i * ep.channelCount + c) (by omega)
  rw [Nat.mul_comm, Nat.mul_add_mod, Nat.mod_eq_of_lt hc, Nat.mul_add_div (by omega),
    Nat.div_eq_of_lt hc, Nat.add_zero, Nat.mul_comm] at hplace
  exact hplace

/-- **A call that returns** has appended the right frames if it says that it has appended them. -/
theorem Keeps.finish {s : Rings} (h : Keeps m planes wave s) {ep : Endpoint}
    {period pts latest : ℕ} {copied : List Sample}
    (hworker : s.worker = .copying ep period pts latest copied)
    (hall : copied.length = m.samplesPerPeriod * ep.channelCount) :
    Keeps m planes wave (s.finish m ep period pts latest copied) := by
  have hright := h.worker
  rw [hworker] at hright
  obtain ⟨-, -, ⟨ready, rfl⟩, hright⟩ := hright
  refine ⟨⟨h.holds.counted, h.holds.begun, h.holds.bounds⟩, trivial, fun r hmem haccepted => ?_⟩
  rcases mem_cons.mp hmem with rfl | hmem
  · obtain ⟨hfirst, hlast⟩ := Endpoint.passed_of_accepted haccepted
    obtain ⟨ep', hreceive, -, -, hheld⟩ := @Endpoint.receivePeriod_spec m ready.endpoint ready.sound
      ready.period period pts latest s.periodCount hfirst hlast (ready.endpoint.seenIn copied)
    have hsamples : AllRight wave ready.endpoint period copied :=
      hright.resolve_right fun hmany => hlast (.inr hmany)
    show (Endpoint.receivePeriod _ _ _ _ _ _ _).2.held = _
    rw [hreceive, hheld, hsamples.periodFrames hall]
  · exact h.receipts r hmem haccepted

/-- **A step** of a timely worker, or of the producer. -/
theorem Keeps.step (hle : m.samplesPerPeriod ≤ m.samplesPerChannel) {s s' : Rings}
    {turn : Turn m planes} (h : Keeps m planes wave s) (htimely : s.Timely m planes turn)
    (hnext : s.next m planes wave turn = some s') : Keeps m planes wave s' := by
  cases turn with
  | produce plane i =>
      obtain ⟨⟨-, hi⟩, hnext⟩ := ite_none_right_eq_some.mp hnext
      cases hnext
      exact ⟨h.holds.produce hle hi, h.worker, h.receipts⟩
  | publish =>
      obtain ⟨hcomplete, hnext⟩ := ite_none_right_eq_some.mp hnext
      cases hnext
      exact ⟨h.holds.publish hcomplete, h.worker.mono, h.receipts⟩
  | check period pts =>
      rw [next] at hnext
      split at hnext
      case h_1 hworker =>
        split at hnext
        case isTrue =>
          cases hnext
          exact h
        case isFalse haccepts =>
          cases hnext
          have hcounts : period < s.periodCount := Nat.lt_of_not_le fun hle =>
            haccepts (.inl (Nat.lt_succ_of_le hle))
          exact ⟨⟨h.holds.counted, h.holds.begun, h.holds.bounds⟩, ⟨hcounts, haccepts⟩, h.receipts⟩
      case h_2 => cases hnext
  | lock ready =>
      rw [next] at hnext
      split at hnext
      case h_1 period pts latest hworker =>
        cases hnext
        have hright := h.worker
        rw [hworker] at hright
        exact ⟨⟨h.holds.counted, h.holds.begun, h.holds.bounds⟩, ⟨hright.1, hright.2, ⟨ready, rfl⟩,
          .inl fun j hj => absurd hj (Nat.not_lt_zero j)⟩, h.receipts⟩
      case h_2 => cases hnext
  | copy =>
      rw [next] at hnext
      split at hnext
      case h_1 ep period pts latest copied hworker =>
        obtain ⟨hmore, hnext⟩ := ite_none_right_eq_some.mp hnext
        cases hnext
        have hright := h.worker
        rw [hworker] at hright
        rw [Timely, hworker, NotOvertaken] at htimely
        obtain ⟨hcounts, hfirst, ⟨ready, rfl⟩, hright⟩ := hright
        refine ⟨⟨h.holds.counted, h.holds.begun, h.holds.bounds⟩, ⟨hcounts, hfirst, ⟨ready, rfl⟩, ?_⟩,
          h.receipts⟩
        rcases hright with hright | hmany
        · refine (h.holds.copied hcounts ?_ ?_ htimely).imp_left hright.append
          · exact Nat.div_lt_of_lt_mul (hmore.trans_eq (Nat.mul_comm _ _))
          · have hchannel : copied.length % ready.endpoint.channelCount <
                ready.endpoint.channelMap.length :=
              Nat.mod_lt _ (Nat.pos_of_mul_pos_left (Nat.zero_lt_of_lt hmore))
            refine ready.channels _ ?_
            show ready.endpoint.channelMap.getD _ 0 ∈ _
            rw [getD_eq_getElem _ _ hchannel]
            exact getElem_mem hchannel
        · exact .inr hmany
      case h_2 => cases hnext
  | finish =>
      rw [next] at hnext
      split at hnext
      case h_1 ep period pts latest copied hworker =>
        obtain ⟨hall, hnext⟩ := ite_none_right_eq_some.mp hnext
        cases hnext
        exact h.finish hworker hall
      case h_2 => cases hnext

/-- **A period that is accepted is not torn**, when the worker is timely. -/
theorem intact_of_timely (hle : m.samplesPerPeriod ≤ m.samplesPerChannel) {s : Rings}
    (hs : (system m planes wave).ReachableVia (Timely m planes) s) {r : Receipt}
    (hmem : r ∈ s.receipts) (haccepted : r.accepted = true) : r.Intact m wave := by
  have hkeeps : Keeps m planes wave s := by
    refine hs.invariant (fun s hinit => ?_) fun s turn s' _ hkeeps htimely hnext =>
      hkeeps.step hle htimely hnext
    obtain ⟨hcount, hwritten, hworker, hreceipts⟩ := hinit
    refine ⟨⟨fun n _ _ hn => ?_, fun _ _ hmem => ?_, fun _ _ hmem => ?_⟩, ?_, fun r hmem => ?_⟩
    · exact absurd (hn.trans_eq hcount) (Nat.not_lt_zero n)
    · rw [hwritten] at hmem
      cases hmem
    · rw [hwritten] at hmem
      cases hmem
    · rw [hworker]
      trivial
    · rw [hreceipts] at hmem
      cases hmem
  exact hkeeps.receipts r hmem haccepted

/-! ## A run -/

/-- A producer that numbers its samples. -/
def numbered : Wave := fun n plane i => BitVec.ofNat 32 (100 * plane + 10 * n + i)

/-- A producer before its first period, and an idle worker. -/
def fresh : Rings where
  planes := fun _ _ => 0
  periodCount := 0
  written := []
  worker := .idle
  receipts := []

/-- Rings of two periods. -/
def short : Metadata := ⟨48000, 4, 2⟩

/-- The endpoint of the runs. -/
def stereo : ReadyEndpoint short 2 where
  endpoint := Endpoint.attached .rx
  sound := (Endpoint.attached_prepared .rx).sound
  period := by show 2 ≤ 4; decide
  channels := by show ∀ channel ∈ [1, 0], channel < 2; decide

/-- The samples of a period are written. -/
def writes : List (Turn short 2) := [.produce 0 0, .produce 1 0, .produce 0 1, .produce 1 1]

/-- A period is copied while the next one is begun. -/
def inTime : List (Turn short 2) :=
  writes ++ [.publish, .check 0 7, .lock stereo, .copy, .produce 0 0, .copy, .copy, .copy, .finish]

/-- A period that is accepted and not torn. -/
theorem intact_inTime :
    ∃ s, (system short 2 numbered).ReachableVia (Timely short 2) s ∧
      ∃ r ∈ s.receipts, r.accepted = true ∧ r.Intact short numbered := by
  obtain ⟨s, hrun, hreceipts⟩ := map_eq_some_iff.mp
    (show (((system short 2 numbered).restrict (Timely short 2)).run fresh inTime).map
      (fun s => s.receipts.map Receipt.accepted) = some [true] by decide +kernel)
  have hinit : ((system short 2 numbered).restrict (Timely short 2)).init fresh :=
    ⟨rfl, rfl, rfl, rfl⟩
  have hreach := System.Reachable.of_restrict (System.Reachable.run (.start hinit) hrun)
  obtain ⟨r, hmem, haccepted⟩ : ∃ r ∈ s.receipts, r.accepted = true :=
    mem_map.mp (hreceipts ▸ mem_singleton_self true)
  exact ⟨s, hreach, r, hmem, haccepted, intact_of_timely (by decide) hreach hmem haccepted⟩

/-- A period is copied behind the first samples of the period after the next. -/
def overtaken : List (Turn short 2) :=
  writes ++ [.publish] ++ writes ++ [.publish, .check 0 7, .lock stereo, .produce 0 0,
    .produce 1 0, .copy, .copy, .copy, .copy, .finish]

/-- **A torn period is accepted**: the first of its two frames is one of another period. -/
theorem accepts_torn :
    ∃ s, (system short 2 numbered).Reachable s ∧ ∃ r ∈ s.receipts, r.accepted = true ∧
      r.period = 0 ∧ r.after.held.drop 2 = [⟨[120, 20], 7⟩, ⟨[101, 1], 20840⟩] ∧
      ¬ r.Intact short numbered := by
  obtain ⟨s, hrun, hreceipts⟩ := map_eq_some_iff.mp
    (show ((system short 2 numbered).run fresh overtaken).map
      (fun s => s.receipts.map fun r => decide (r.accepted = true ∧ r.period = 0 ∧
        r.after.held.drop 2 = [⟨[120, 20], 7⟩, ⟨[101, 1], 20840⟩] ∧
        ¬ r.Intact short numbered)) = some [true] by decide +kernel)
  obtain ⟨r, hmem, hr⟩ := mem_map.mp (hreceipts ▸ mem_singleton_self true)
  exact ⟨s, System.Reachable.run (.start ⟨rfl, rfl, rfl, rfl⟩) hrun, r, hmem, of_decide_eq_true hr⟩

end Rings

end Zstreamer.Dep

/-
# The samples of the mixer

Every block consumes whole buffers, and has room for as many samples as the first buffer that the
mixer has seen.  Where no buffer has more samples than that one, every sample of gapless inputs is
added once, in order and at its time.
-/

import Mathlib.Algebra.Order.BigOperators.Group.List
import Mathlib.Data.Nat.Basic
import Mathlib.Tactic.Linarith
import Zstreamer.Mixer.Timeline

namespace Zstreamer.Mixer

open Foundation List Option

variable {σ : Type}

/-! ## What comes in -/

/-- The samples of a buffer. -/
def Buffer.samples (b : Buffer σ) : List σ := (b.payload.bind Frame.data).getD []

/-- A buffer with samples of a rate, whose duration is exactly what they take. -/
structure Buffer.Regular (rate : BitVec 32) (b : Buffer σ) : Prop where
  frame : ∃ af data, b.payload = some af ∧ af.data = some data ∧ af.channels ≠ 0 ∧ af.sampleRate = rate
  nonempty : b.samples ≠ []
  exact : b.duration.toNat * rate.toNat = b.samples.length * 10 ^ 9

/-- The samples are in one of the formats that are mixed. -/
def Buffer.Mixable (b : Buffer σ) : Prop :=
  ∀ af ∈ b.payload, af.format = fmtS16le ∨ af.format = fmtF32le

/-- Buffers one behind the other from a time on. -/
def Gapless : ℕ → List (Buffer σ) → ℕ → Prop
  | start, [], stop => start = stop
  | start, b :: bs, stop => b.pts.toNat = start ∧ Gapless (start + b.duration.toNat) bs stop

/-- The samples of some buffers. -/
def samplesOf (bs : List (Buffer σ)) : List σ := bs.flatMap Buffer.samples

/-- Gapless inputs of one rate and of equal length, from a common time on to another. -/
structure Feeds (rate : BitVec 32) (origin stop total : ℕ) (feeds : List (List (Buffer σ))) : Prop where
  rate_ne : rate ≠ 0
  regular : ∀ bs ∈ feeds, ∀ b ∈ bs, b.Regular rate
  gapless : ∀ bs ∈ feeds, Gapless origin bs stop
  length : ∀ bs ∈ feeds, (samplesOf bs).length = total

/-- A mixer that has just been started, with all of it in its queues. -/
def fed (sampleRate latency : BitVec 32) (eos : Bool) (feeds : List (List (Buffer σ))) : Worker σ where
  inputs := feeds.map fun bs => ⟨bs, none, false, eos, true⟩
  sampleRate := sampleRate
  latency := latency
  blockSamples := 0
  blockDuration := 0
  nextPts := none
  eosSent := false
  pushed := []

/-- So many turns, in which nothing else comes. -/
def turns : ℕ → Worker σ → Option (Worker σ)
  | 0, s => some s
  | n + 1, s => (s.turn []).bind (turns n)

/-- Nothing is left. -/
def Drained (s : Worker σ) : Prop := ∀ i ∈ s.inputs, ¬ i.HasData

instance : DecidablePred (Drained (σ := σ)) := fun s =>
  inferInstanceAs (Decidable (∀ i ∈ s.inputs, ¬ i.HasData))

/-- What has been added of an input, block by block. -/
def addedOf (k : ℕ) (blocks : List (Block σ)) : List σ := blocks.flatMap fun b => b.added.getD k []

/-- What a block has of an input is at its time: samples from the one on that is at the time of the
block. -/
def Placed (rate : BitVec 32) (origin k : ℕ) (samples : List σ) (b : Block σ) : Prop :=
  b.added.getD k [] = [] ∨ ∃ n, origin ≤ b.pts.toNat ∧
    (b.pts.toNat - origin) * rate.toNat = n * 10 ^ 9 ∧ b.added.getD k [] <+: samples.drop n

/-- Every sample of the inputs has been added once, in order and at its time. -/
def UsedOnce (rate : BitVec 32) (origin : ℕ) (feeds : List (List (Buffer σ))) (s : Worker σ) : Prop :=
  ∀ k bs, feeds[k]? = some bs →
    addedOf k s.pushed = samplesOf bs ∧ ∀ b ∈ s.pushed, Placed rate origin k (samplesOf bs) b

/-- The first buffer of the first input. -/
def firstOf (feeds : List (List (Buffer σ))) : Option (Buffer σ) := feeds.head?.bind head?

/-! ## Gapless buffers -/

theorem Gapless.le {start stop : ℕ} {bs : List (Buffer σ)} (h : Gapless start bs stop) :
    start ≤ stop := by
  induction bs generalizing start with
  | nil => exact Nat.le_of_eq h
  | cons b bs ih => exact (Nat.le_add_right _ _).trans (ih h.2)

theorem Buffer.Regular.duration_ne {rate : BitVec 32} {b : Buffer σ} (h : b.Regular rate) :
    b.duration ≠ 0 := by
  intro hzero
  have hpos := length_pos_iff.mpr h.nonempty
  have hexact := h.exact
  rw [hzero, show (0 : BitVec 64).toNat = 0 from rfl] at hexact
  omega

/-- A buffer lasts as long as it says. -/
theorem Buffer.Regular.lasts_eq {rate : BitVec 32} {b : Buffer σ} (h : b.Regular rate)
    (sampleRate : BitVec 32) : b.lasts sampleRate = b.duration :=
  if_pos h.duration_ne

/-! ## An input in a turn -/

/-- What is left of an input. -/
def Input.left (i : Input σ) : List (Buffer σ) := i.pending.toList ++ i.queue

theorem hasData_iff {i : Input σ} (hactive : i.active = true) : i.HasData ↔ i.left ≠ [] := by
  rw [Input.HasData, and_iff_right hactive, Input.left]
  cases i.pending with
  | none => exact ⟨fun h => h.resolve_left Bool.false_ne_true, .inr⟩
  | some b => exact ⟨fun _ => cons_ne_nil _ _, fun _ => .inl rfl⟩

/-- The first buffer that is left is pending behind the pull. -/
theorem pull_eq {i : Input σ} (hactive : i.active = true) :
    i.pull = { i with pending := i.left.head?, queue := i.left.tail } := by
  obtain ⟨queue, pending, mute, eos, active⟩ := i
  obtain rfl : active = true := hactive
  cases pending with
  | none => rfl
  | some b => rfl

/-- A buffer that the mixer takes as it is. -/
structure Buffer.Fits (rate size : BitVec 32) (b : Buffer σ) : Prop where
  regular : b.Regular rate
  mixable : b.Mixable
  small : b.samples.length ≤ size.toNat

/-- The frame of a regular buffer has its samples. -/
theorem Buffer.Regular.payload {rate : BitVec 32} {b : Buffer σ} (h : b.Regular rate) :
    ∃ af, b.payload = some af ∧ af.data = some b.samples ∧ af.channels ≠ 0 ∧
      af.nbSamples.toNat = b.samples.length := by
  obtain ⟨af, data, hpayload, hdata, hchannels, -⟩ := h.frame
  have hsamples : b.samples = data := by
    rw [Buffer.samples, hpayload, bind_some, hdata]
    rfl
  exact ⟨af, hpayload, hsamples ▸ hdata, hchannels, hsamples ▸ (af.full data hdata).symm⟩

/-- All samples of a buffer at the time of the block are taken. -/
theorem take_now {rate size : BitVec 32} {b : Buffer σ} (h : b.Fits rate size) (sampleRate : BitVec 32)
    {t : Target} (hsize : t.samples = size) (hpts : b.pts = t.pts) :
    t.take sampleRate b false = some b.samples := by
  obtain ⟨af, hpayload, hdata, hchannels, hcount⟩ := h.regular.payload
  have hformat := h.mixable af hpayload
  have hwhole : af.nbSamples - 0 = af.nbSamples := BitVec.sub_zero _
  have hframes : (if af.nbSamples - 0 < t.samples then af.nbSamples - 0 else t.samples).toNat =
      b.samples.length := by
    have hle := h.small
    rw [hwhole]
    split
    case isTrue => exact hcount
    case isFalse hnot =>
        rw [BitVec.not_lt, BitVec.le_def] at hnot
        rw [hsize] at hnot ⊢
        omega
  have hnot : ¬ b.pts < t.pts := by
    rw [hpts]
    exact BitVec.lt_irrefl t.pts
  have hnot' : ¬ (af.channels = 0 ∨ t.pts < b.pts) := by
    rw [hpts]
    exact fun hor => hor.elim hchannels (BitVec.lt_irrefl t.pts)
  rw [Target.take, hpayload, bind_some, hdata, bind_some, if_neg hnot',
    if_neg Bool.false_ne_true]
  simp only [if_neg hnot, if_neg fun hand : b.pts < t.pts ∧ _ => hnot hand.1]
  rw [if_pos hformat, hframes]
  exact congrArg some (take_length)

/-- Nothing is taken of one that comes later. -/
theorem take_later {b : Buffer σ} (sampleRate : BitVec 32) {t : Target} (hpts : t.pts < b.pts)
    (mute : Bool) : t.take sampleRate b mute = none := by
  rw [Target.take, bind_eq_none_iff]
  intro af _
  rw [bind_eq_none_iff]
  intro data _
  exact if_pos (.inr hpts)

/-- A buffer that ends in time and does not begin before the block is not stale. -/
theorem not_stale {rate : BitVec 32} {b : Buffer σ} (h : b.Regular rate) (sampleRate : BitVec 32)
    {pts : BitVec 64} (hle : pts ≤ b.pts) (hfits : b.pts.toNat + b.duration.toNat < 2 ^ 64) :
    ¬ b.Stale sampleRate pts := by
  rintro ⟨hpos, hstale⟩
  rw [h.lasts_eq] at hpos hstale
  rw [BitVec.lt_def] at hpos
  rw [BitVec.le_def] at hle
  rw [BitVec.le_def, BitVec.toNat_add, Nat.mod_eq_of_lt hfits] at hstale
  have hzero : (0 : BitVec 64).toNat = 0 := rfl
  omega

/-- An input that plays: it is active and not muted. -/
structure Input.Plays (i : Input σ) : Prop where
  active : i.active = true
  unmuted : i.mute = false

/-- What a turn makes of an input that plays: nothing where nothing is left or the first buffer
comes later, and else the first buffer is consumed. -/
theorem mix_cases {rate size : BitVec 32} {i : Input σ} (hi : i.Plays) (sampleRate : BitVec 32)
    {t : Target} (hsize : t.samples = size) (hleft : ∀ b ∈ i.left, b.Fits rate size)
    (hhead : ∀ b ∈ i.left.head?, t.pts ≤ b.pts ∧ b.pts.toNat + b.duration.toNat < 2 ^ 64) :
    ∃ i' added, t.mix sampleRate (i.pull.dropStale sampleRate t.pts) = (i', added) ∧ i'.Plays ∧
      ((added = [] ∧ i'.left = i.left ∧ ∀ b ∈ i.left.head?, t.pts < b.pts) ∨
        ∃ b, i.left = b :: i'.left ∧ b.pts = t.pts ∧ added = b.samples) := by
  have hdrop : i.pull.dropStale sampleRate t.pts =
      { i with pending := i.left.head?, queue := i.left.tail } := by
    rw [pull_eq hi.active, Input.dropStale, if_pos hi.active]
    have hsame : i.left.head?.toList ++ i.left.tail = i.left := by
      cases i.left <;> rfl
    have hkeep : i.left.dropWhile (fun b => decide (b.Stale sampleRate t.pts)) = i.left := by
      cases hl : i.left with
      | nil => rfl
      | cons b bs =>
          rw [hl] at hleft hhead
          obtain ⟨hle, hfits⟩ := hhead b rfl
          refine dropWhile_cons_of_neg ?_
          rw [decide_eq_true_iff]
          exact not_stale (hleft b mem_cons_self).regular sampleRate hle hfits
    simp only [hsame, hkeep]
  rw [hdrop, Target.mix, if_pos hi.active]
  cases hl : i.left with
  | nil =>
      exact ⟨_, _, rfl, ⟨hi.active, hi.unmuted⟩, .inl ⟨rfl, rfl, nofun⟩⟩
  | cons b bs =>
      rw [hl] at hleft hhead
      simp only [head?_cons, tail_cons, bind_some, hi.unmuted]
      by_cases hnow : b.pts = t.pts
      · rw [take_now (hleft b mem_cons_self) sampleRate hsize hnow]
        exact ⟨_, _, rfl, ⟨hi.active, rfl⟩, .inr ⟨b, rfl, hnow, rfl⟩⟩
      · have hlater : t.pts < b.pts := by
          have hle := (hhead b rfl).1
          rw [BitVec.lt_def]
          rw [BitVec.le_def] at hle
          have hne : b.pts.toNat ≠ t.pts.toNat := fun heq => hnow (BitVec.eq_of_toNat_eq heq)
          omega
        rw [take_later sampleRate hlater]
        refine ⟨_, _, rfl, ⟨hi.active, rfl⟩, .inl ⟨rfl, rfl, fun c hc => ?_⟩⟩
        cases hc
        exact hlater

/-! ## An input in the course of a run -/

section Run

variable {rate size : BitVec 32} {length : BitVec 64} {origin stop : ℕ} {feeds : List (List (Buffer σ))}

/-- What has been added of an input, and what is left of it. -/
structure Track (rate size : BitVec 32) (origin stop : ℕ) (all added : List σ) (i : Input σ) : Prop where
  plays : i.Plays
  fits : ∀ b ∈ i.left, b.Fits rate size
  gapless : ∃ start, Gapless start i.left stop ∧ origin ≤ start ∧
    (start - origin) * rate.toNat = added.length * 10 ^ 9
  samples : added ++ samplesOf i.left = all

/-- The first buffer that is left ends in time. -/
theorem Track.head {all added : List σ} {i : Input σ} (h : Track rate size origin stop all added i)
    {b : Buffer σ} (hb : b ∈ i.left.head?) : b.pts.toNat + b.duration.toNat ≤ stop := by
  obtain ⟨start, hgapless, -⟩ := h.gapless
  obtain ⟨bs, hl⟩ : ∃ bs, i.left = b :: bs := ⟨_, (eq_cons_of_mem_head? hb)⟩
  rw [hl] at hgapless
  rw [hgapless.1]
  exact hgapless.2.le

/-- What is new in a block is at its time. -/
def Lands (rate : BitVec 32) (origin : ℕ) (all added new : List σ) (pts : BitVec 64) : Prop :=
  new = [] ∨ origin ≤ pts.toNat ∧ (pts.toNat - origin) * rate.toNat = added.length * 10 ^ 9 ∧
    new <+: all.drop added.length

/-- A turn goes on with an input: what is consumed lands at its time. -/
theorem Track.mix {all added : List σ} {i : Input σ} (h : Track rate size origin stop all added i)
    (hstop : stop < 2 ^ 64) (sampleRate : BitVec 32) {t : Target} (hsize : t.samples = size)
    (hhead : ∀ b ∈ i.left.head?, t.pts ≤ b.pts) :
    ∃ i' new, t.mix sampleRate (i.pull.dropStale sampleRate t.pts) = (i', new) ∧
      Track rate size origin stop all (added ++ new) i' ∧ Lands rate origin all added new t.pts ∧
      ((i'.left = i.left ∧ ∀ b ∈ i.left.head?, t.pts < b.pts) ∨
        ∃ b, i.left = b :: i'.left ∧ b.pts = t.pts) := by
  obtain ⟨i', new, hmix, hplays, ⟨rfl, hsame, hlater⟩ | ⟨b, hl, hpts, rfl⟩⟩ := mix_cases h.plays
    sampleRate hsize h.fits fun b hb => ⟨hhead b hb, (h.head hb).trans_lt hstop⟩
  · refine ⟨i', [], hmix, ⟨hplays, ?_, ?_, ?_⟩, .inl rfl, .inl ⟨hsame, hlater⟩⟩
    · rw [hsame]
      exact h.fits
    · rw [hsame, append_nil]
      exact h.gapless
    · rw [hsame, append_nil]
      exact h.samples
  · obtain ⟨start, hgapless, hstart, hposition⟩ := h.gapless
    have hfits := h.fits
    have hsamples := h.samples
    rw [hl] at hgapless hfits hsamples
    obtain ⟨hbstart, hrest⟩ := hgapless
    have hexact := (hfits b mem_cons_self).regular.exact
    refine ⟨i', b.samples, hmix, ⟨hplays, fun c hc => hfits c (mem_cons_of_mem b hc),
      ⟨start + b.duration.toNat, hrest, by omega, ?_⟩, ?_⟩, .inr ⟨?_, ?_, ?_⟩, .inr ⟨b, hl, hpts⟩⟩
    · rw [length_append, Nat.add_mul, ← hexact, ← hposition, ← Nat.add_mul]
      congr 1
      omega
    · rw [append_assoc]
      exact hsamples
    · rw [← hpts, hbstart]
      exact hstart
    · rw [← hpts, hbstart]
      exact hposition
    · rw [← hsamples, drop_left]
      exact prefix_append _ _

/-! ## The time of a block -/

/-- The pending buffer behind the pull is the first that is left. -/
theorem waiting_pull {i : Input σ} (hactive : i.active = true) :
    i.pull.waiting = i.left.head?.bind fun b => b.payload.map fun af => (b, af) := by
  rw [pull_eq hactive, Input.waiting, if_pos hactive]

/-- The loop keeps a duration that is there. -/
theorem consider_duration (sampleRate : BitVec 32) (ws : List (Buffer σ × Frame σ)) {t : Seeking}
    (ht : t.duration ≠ 0) : (ws.foldl (Seeking.consider sampleRate) t).duration = t.duration := by
  induction ws generalizing t with
  | nil => rfl
  | cons w ws ih =>
      have hkeep : (t.consider sampleRate w).duration = t.duration := if_neg ht
      rw [foldl_cons, ih (by rwa [hkeep]), hkeep]

/-- The loop goes on with what it has, but for an earlier time. -/
theorem fold_spec (sampleRate : BitVec 32) (ws : List (Buffer σ × Frame σ)) (pts : BitVec 64)
    (hsize : size ≠ 0) (hlength : length ≠ 0) :
    ∃ found, (ws.foldl (Seeking.consider sampleRate) ⟨some pts, size, length⟩).target sampleRate =
        some ⟨found, size, length⟩ ∧ found ≤ pts ∧ (∀ w ∈ ws, found ≤ w.1.pts) ∧
      (found = pts ∨ ∃ w ∈ ws, found = w.1.pts) := by
  obtain ⟨found, hfound, hspec⟩ := consider_pts sampleRate ws
    (t := ⟨some pts, size, length⟩) rfl
  have hsamples := consider_samples sampleRate ws (t := ⟨some pts, size, length⟩) hsize
  have hduration := consider_duration sampleRate ws (t := ⟨some pts, size, length⟩) hlength
  refine ⟨found, ?_, hspec⟩
  rw [Seeking.target, hfound, bind_some, hsamples, if_neg hsize, hduration]
  simp only [if_neg hlength]

/-- What the worker knows of the time: nothing before the first block, and behind one a time that is
not before all that is left. -/
inductive Clock (size : BitVec 32) (length : BitVec 64) (origin : ℕ) (s : Worker σ) : Prop
  | unset (nextPts : s.nextPts = none) (samples : s.blockSamples = 0) (duration : s.blockDuration = 0)
      (nonempty : ∀ i ∈ s.inputs, i.left ≠ [])
      (first : ∃ b ∈ (s.inputs.head?.bind fun i => i.left.head?),
        b.samples.length = size.toNat ∧ b.duration = length)
      (start : ∀ i ∈ s.inputs, ∀ b ∈ i.left.head?, b.pts.toNat = origin)
  | set (next : BitVec 64) (nextPts : s.nextPts = some next) (samples : s.blockSamples = size)
      (duration : s.blockDuration = length)
      (reached : (∃ i ∈ s.inputs, i.left ≠ []) → ∃ i ∈ s.inputs, ∃ b ∈ i.left.head?, b.pts ≤ next)

/-- What holds behind every turn. -/
structure Going (rate size : BitVec 32) (length : BitVec 64) (origin stop : ℕ)
    (feeds : List (List (Buffer σ))) (s : Worker σ) : Prop where
  inputs : s.inputs.length = feeds.length
  tracks : ∀ k bs i, feeds[k]? = some bs → s.inputs[k]? = some i →
    Track rate size origin stop (samplesOf bs) (addedOf k s.pushed) i
  placed : ∀ k bs, feeds[k]? = some bs → ∀ b ∈ s.pushed, Placed rate origin k (samplesOf bs) b
  eosSent : s.eosSent = false
  clock : Clock size length origin s

/-- An input has its feed. -/
theorem Going.track {s : Worker σ} (h : Going rate size length origin stop feeds s) {i : Input σ}
    (hi : i ∈ s.inputs) : ∃ all added, Track rate size origin stop all added i := by
  obtain ⟨k, hk⟩ := mem_iff_getElem?.mp hi
  have hlt : k < s.inputs.length := (List.getElem?_eq_some_iff.mp hk).1
  obtain ⟨bs, hbs⟩ : ∃ bs, feeds[k]? = some bs :=
    ⟨_, getElem?_eq_getElem (h.inputs ▸ hlt)⟩
  exact ⟨_, _, h.tracks k bs i hbs hk⟩

/-- The heads are the first buffers that are left. -/
theorem Going.mem_heads {s : Worker σ} (h : Going rate size length origin stop feeds s) {b : Buffer σ} :
    (∃ af, (b, af) ∈ s.heads) ↔ ∃ i ∈ s.inputs, b ∈ i.left.head? := by
  have hone : ∀ i ∈ s.inputs, ∀ af, (b, af) ∈ i.pull.waiting ↔
      b ∈ i.left.head? ∧ b.payload = some af := by
    intro i hi af
    obtain ⟨all, added, htrack⟩ := h.track hi
    rw [waiting_pull htrack.plays.active, mem_def, bind_eq_some_iff]
    constructor
    · rintro ⟨c, hc, hmap⟩
      obtain ⟨af', haf, heq⟩ := map_eq_some_iff.mp hmap
      obtain ⟨rfl, rfl⟩ := Prod.mk.inj heq
      exact ⟨hc, haf⟩
    · rintro ⟨hb, haf⟩
      exact ⟨b, hb, by rw [haf]; rfl⟩
  rw [Worker.heads]
  simp only [List.mem_filterMap, List.mem_map, exists_exists_and_eq_and]
  constructor
  · rintro ⟨af, i, hi, hw⟩
    exact ⟨i, hi, ((hone i hi af).mp hw).1⟩
  · rintro ⟨i, hi, hb⟩
    obtain ⟨all, added, htrack⟩ := h.track hi
    have hmem : b ∈ i.left := mem_of_mem_head? hb
    obtain ⟨af, hpayload, -⟩ := (htrack.fits b hmem).regular.payload
    exact ⟨af, i, hi, (hone i hi af).mpr ⟨hb, hpayload⟩⟩

/-- While something is left the worker goes on. -/
theorem Going.goesOn {s : Worker σ} (h : Going rate size length origin stop feeds s)
    (hleft : ∃ i ∈ s.inputs, i.left ≠ []) : s.GoesOn := by
  obtain ⟨i, hi, hne⟩ := hleft
  obtain ⟨all, added, htrack⟩ := h.track hi
  refine ⟨h.eosSent, ⟨i, hi, (hasData_iff htrack.plays.active).mpr hne⟩, ?_⟩
  cases h.clock with
  | unset _ _ _ hnonempty _ _ =>
      exact .inl fun j hj hactive => .inl ((hasData_iff hactive).mpr (hnonempty j hj))
  | set next hnext _ _ _ =>
      rw [hnext]
      exact .inr (.inl rfl)

/-- The first pending buffer sets the size and the length of the blocks. -/
theorem consider_first {b : Buffer σ} {af : Frame σ} (hb : b.Regular rate) (hpayload : b.payload = some af)
    (hsize : b.samples.length = size.toNat) (hlength : b.duration = length) (sampleRate : BitVec 32) :
    Seeking.consider sampleRate ⟨none, 0, 0⟩ (b, af) = ⟨some b.pts, size, length⟩ := by
  have hcount : af.nbSamples = size := by
    obtain ⟨af', hpayload', -, -, hcount⟩ := hb.payload
    obtain rfl : af = af' := Option.some.inj (hpayload.symm.trans hpayload')
    exact BitVec.eq_of_toNat_eq (hcount.trans hsize)
  have hlasts : b.lasts sampleRate = length := (hb.lasts_eq sampleRate).trans hlength
  rw [Seeking.consider]
  simp only [hcount, hlasts]
  rfl

/-- The next block has the size and the length of the others, and is where the first of what is left
begins. -/
theorem Going.target {s : Worker σ} (h : Going rate size length origin stop feeds s) (hsize : size ≠ 0)
    (hlength : length ≠ 0) (hleft : ∃ i ∈ s.inputs, i.left ≠ []) :
    ∃ pts, s.target = some ⟨pts, size, length⟩ ∧
      (∀ i ∈ s.inputs, ∀ b ∈ i.left.head?, pts ≤ b.pts) ∧
      ∃ i ∈ s.inputs, ∃ b ∈ i.left.head?, b.pts = pts := by
  have hheads : ∀ {pts : BitVec 64}, (∀ w ∈ s.heads, pts ≤ w.1.pts) →
      ∀ i ∈ s.inputs, ∀ b ∈ i.left.head?, pts ≤ b.pts := by
    intro pts hall i hi b hb
    obtain ⟨af, hmem⟩ := h.mem_heads.mpr ⟨i, hi, hb⟩
    exact hall _ hmem
  have hone : ∀ {pts : BitVec 64}, (∃ w ∈ s.heads, pts = w.1.pts) →
      ∃ i ∈ s.inputs, ∃ b ∈ i.left.head?, b.pts = pts := by
    rintro pts ⟨⟨b, af⟩, hw, heq⟩
    obtain ⟨i, hi, hb⟩ := h.mem_heads.mp ⟨af, hw⟩
    exact ⟨i, hi, b, hb, heq.symm⟩
  rw [Worker.target]
  cases h.clock with
  | unset hnext hsamples hduration _ hfirst _ =>
      obtain ⟨b, hb, hbsize, hblength⟩ := hfirst
      obtain ⟨i, hi, hb⟩ := bind_eq_some_iff.mp hb
      obtain ⟨is, his⟩ : ∃ is, s.inputs = i :: is := ⟨_, eq_cons_of_mem_head? hi⟩
      have hmem : i ∈ s.inputs := mem_of_mem_head? hi
      obtain ⟨all, added, htrack⟩ := h.track hmem
      have hregular := (htrack.fits b (mem_of_mem_head? hb)).regular
      obtain ⟨af, hpayload, -⟩ := hregular.payload
      have hwaiting : i.pull.waiting = some (b, af) := by
        rw [waiting_pull htrack.plays.active, hb, bind_some, hpayload]
        rfl
      have hcons : s.heads = (b, af) :: (is.map Input.pull).filterMap Input.waiting := by
        rw [Worker.heads, his, map_cons, filterMap_cons_some hwaiting]
      rw [hnext, hsamples, hduration, hcons, foldl_cons,
        consider_first hregular hpayload hbsize hblength]
      obtain ⟨found, htarget, hless, hall, hsome⟩ := fold_spec s.sampleRate
        ((is.map Input.pull).filterMap Input.waiting) b.pts hsize hlength
      refine ⟨found, htarget, hheads ?_, hone ?_⟩
      · rw [hcons, forall_mem_cons]
        exact ⟨hless, hall⟩
      · rw [hcons]
        rcases hsome with heq | ⟨w, hw, heq⟩
        · exact ⟨_, mem_cons_self, heq⟩
        · exact ⟨w, mem_cons_of_mem _ hw, heq⟩
  | set next hnext hsamples hduration hreached =>
      rw [hnext, hsamples, hduration]
      obtain ⟨found, htarget, hless, hall, hsome⟩ := fold_spec s.sampleRate s.heads next hsize
        hlength
      refine ⟨found, htarget, hheads hall, ?_⟩
      rcases hsome with heq | hsome
      · obtain ⟨i, hi, b, hb, hle⟩ := hreached hleft
        exact ⟨i, hi, b, hb, BitVec.le_antisymm (heq ▸ hle) (hheads hall i hi b hb)⟩
      · exact hone hsome

/-! ## The whole run -/

/-- How many buffers are left. -/
def remaining (s : Worker σ) : ℕ := (s.inputs.map fun i => i.left.length).sum

theorem addedOf_append (k : ℕ) (blocks : List (Block σ)) (b : Block σ) :
    addedOf k (blocks ++ [b]) = addedOf k blocks ++ b.added.getD k [] := by
  rw [addedOf, flatMap_append]
  exact congrArg _ (append_nil _)

/-- What a turn makes of an input. -/
def Target.advance (sampleRate : BitVec 32) (t : Target) (i : Input σ) : Input σ × List σ :=
  t.mix sampleRate (i.pull.dropStale sampleRate t.pts)

/-- A turn in which nothing comes. -/
theorem turn_eq {s : Worker σ} (hgo : s.GoesOn) {t : Target} (ht : s.target = some t) :
    s.turn [] = some { s with
      inputs := s.inputs.map fun i => (t.advance s.sampleRate i).1
      blockSamples := t.samples
      blockDuration := t.duration
      nextPts := some (t.pts + t.duration)
      pushed := s.pushed ++ [⟨t.pts, t.duration, t.samples,
        s.inputs.map fun i => (t.advance s.sampleRate i).2⟩] } := by
  have hmixed : s.mixed t [] = s.inputs.map (t.advance s.sampleRate) := by
    rw [Worker.mixed, Worker.arrivals, List.foldl_nil, List.map_map]
    rfl
  rw [Worker.turn, if_pos hgo, ht]
  simp only [hmixed, List.map_map]
  rfl

/-- **A turn uses what is due**, and nothing is lost: what holds behind every turn holds behind this
one, and fewer buffers are left. -/
theorem Going.turn {s : Worker σ} (h : Going rate size length origin stop feeds s) (hrate : rate ≠ 0)
    (hsize : size ≠ 0) (hlength : length ≠ 0)
    (hexact : length.toNat * rate.toNat = size.toNat * 10 ^ 9) (hstop : stop + length.toNat < 2 ^ 64)
    (hleft : ∃ i ∈ s.inputs, i.left ≠ []) :
    ∃ s', s.turn [] = some s' ∧ Going rate size length origin stop feeds s' ∧
      remaining s' < remaining s := by
  obtain ⟨pts, htarget, hearliest, i₀, hi₀, b₀, hb₀, hpts⟩ := h.target hsize hlength hleft
  have hadvance : ∀ i ∈ s.inputs, ∀ all added, Track rate size origin stop all added i →
      ∃ i' new, Target.advance s.sampleRate ⟨pts, size, length⟩ i = (i', new) ∧
        Track rate size origin stop all (added ++ new) i' ∧ Lands rate origin all added new pts ∧
        ((i'.left = i.left ∧ ∀ b ∈ i.left.head?, pts < b.pts) ∨
          ∃ b, i.left = b :: i'.left ∧ b.pts = pts) :=
    fun i hi all added htrack => htrack.mix (by omega) s.sampleRate rfl (hearliest i hi)
  have hlong : ∀ {b : Buffer σ}, b.Fits rate size → b.duration.toNat ≤ length.toNat := by
    intro b hb
    have hpos : 0 < rate.toNat := Nat.pos_of_ne_zero fun hzero =>
      hrate (BitVec.eq_of_toNat_eq hzero)
    refine Nat.le_of_mul_le_mul_right ?_ hpos
    rw [hb.regular.exact, hexact]
    exact Nat.mul_le_mul_right _ hb.small
  have hfeed : ∀ {k i}, s.inputs[k]? = some i → ∃ bs, feeds[k]? = some bs := fun hk =>
    ⟨_, List.getElem?_eq_getElem (h.inputs ▸ (List.getElem?_eq_some_iff.mp hk).1)⟩
  obtain ⟨all₀, added₀, htrack₀⟩ := h.track hi₀
  obtain ⟨i₀', new₀, hi₀', htrack₀', -, hcase₀⟩ := hadvance i₀ hi₀ all₀ added₀ htrack₀
  have hconsumed : i₀.left = b₀ :: i₀'.left := by
    rcases hcase₀ with ⟨-, hlater⟩ | ⟨b, hl, -⟩
    · exact absurd (hpts ▸ hlater b₀ hb₀) (BitVec.lt_irrefl _)
    · rw [hl] at hb₀
      cases hb₀
      exact hl
  refine ⟨_, turn_eq (h.goesOn hleft) htarget, ⟨?_, ?_, ?_, h.eosSent, ?_⟩, ?_⟩
  · exact (length_map _).trans h.inputs
  · intro k bs i' hbs hi'
    rw [getElem?_map] at hi'
    obtain ⟨i, hi, rfl⟩ := map_eq_some_iff.mp hi'
    obtain ⟨i'', new, hmix, htrack, -⟩ := hadvance i (mem_of_getElem? hi) _ _
      (h.tracks k bs i hbs hi)
    rw [addedOf_append, getD_eq_getElem?_getD, getElem?_map, hi, map_some,
      getD_some, hmix]
    exact htrack
  · intro k bs hbs b hb
    rcases mem_append.mp hb with hold | hnew
    · exact h.placed k bs hbs b hold
    · obtain rfl := mem_singleton.mp hnew
      obtain ⟨i, hi⟩ : ∃ i, s.inputs[k]? = some i :=
        ⟨_, List.getElem?_eq_getElem (h.inputs.symm ▸ (List.getElem?_eq_some_iff.mp hbs).1)⟩
      obtain ⟨i', new, hmix, -, hlands, -⟩ := hadvance i (mem_of_getElem? hi) _ _
        (h.tracks k bs i hbs hi)
      rw [Placed]
      simp only [getD_eq_getElem?_getD, getElem?_map, hi, map_some, getD_some,
        hmix]
      exact hlands.imp_right fun hspec => ⟨_, hspec⟩
  · have hend := htrack₀.head hb₀
    have hfits₀ := hlong (htrack₀.fits b₀ (mem_of_mem_head? hb₀))
    have hnext : (pts + length).toNat = pts.toNat + length.toNat := by
      rw [BitVec.toNat_add, Nat.mod_eq_of_lt]
      rw [hpts] at hend
      omega
    obtain ⟨start, hgapless, -⟩ := htrack₀.gapless
    rw [hconsumed] at hgapless
    obtain ⟨hstart, hgapless⟩ := hgapless
    have hmem₀ : i₀' ∈ s.inputs.map fun i => (Target.advance s.sampleRate ⟨pts, size, length⟩ i).1 :=
      mem_map.mpr ⟨i₀, hi₀, by rw [hi₀']⟩
    refine .set (pts + length) rfl rfl rfl fun hmore => ?_
    cases hl : i₀'.left with
    | cons c cs =>
        refine ⟨i₀', hmem₀, c, by rw [hl]; rfl, ?_⟩
        rw [hl] at hgapless
        have hc := hgapless.1
        rw [BitVec.le_def, hnext]
        rw [hpts] at hstart
        omega
    | nil =>
        rw [hl] at hgapless
        have hlast : start + b₀.duration.toNat = stop := hgapless
        obtain ⟨i', hi', hne⟩ := hmore
        obtain ⟨i, hi, hadv⟩ := mem_map.mp hi'
        obtain ⟨all, added, htrack⟩ := h.track hi
        obtain ⟨i'', new, hmix, htrack', -⟩ := hadvance i hi all added htrack
        rw [hmix] at hadv
        obtain rfl : i'' = i' := hadv
        obtain ⟨c, cs, hc⟩ := exists_cons_of_ne_nil hne
        have hhead : c ∈ i''.left.head? := by rw [hc]; rfl
        refine ⟨i'', hi', c, hhead, ?_⟩
        have hbound := htrack'.head hhead
        rw [BitVec.le_def, hnext]
        rw [hpts] at hstart
        omega
  · rw [remaining, remaining, List.map_map]
    refine sum_lt_sum _ _ (fun i hi => ?_) ⟨i₀, hi₀, ?_⟩
    · obtain ⟨all, added, htrack⟩ := h.track hi
      obtain ⟨i', new, hmix, -, -, ⟨hsame, -⟩ | ⟨b, hl, -⟩⟩ := hadvance i hi all added htrack
      · show (Target.advance s.sampleRate ⟨pts, size, length⟩ i).1.left.length ≤ _
        rw [hmix, hsame]
      · show (Target.advance s.sampleRate ⟨pts, size, length⟩ i).1.left.length ≤ _
        rw [hmix, hl]
        exact Nat.le_succ _
    · show (Target.advance s.sampleRate ⟨pts, size, length⟩ i₀).1.left.length < _
      rw [hi₀', hconsumed]
      exact Nat.lt_succ_self _

/-- Turn by turn all is used. -/
theorem Going.drains {s : Worker σ} (h : Going rate size length origin stop feeds s) (hrate : rate ≠ 0)
    (hsize : size ≠ 0) (hlength : length ≠ 0)
    (hexact : length.toNat * rate.toNat = size.toNat * 10 ^ 9)
    (hstop : stop + length.toNat < 2 ^ 64) :
    ∃ n s', turns n s = some s' ∧ Going rate size length origin stop feeds s' ∧
      ∀ i ∈ s'.inputs, i.left = [] := by
  induction hn : remaining s using Nat.strong_induction_on generalizing s with
  | _ m ih =>
      by_cases hleft : ∃ i ∈ s.inputs, i.left ≠ []
      · obtain ⟨s₁, hturn, hgoing, hless⟩ := h.turn hrate hsize hlength hexact hstop hleft
        obtain ⟨n, s', hturns, hgoing', hnone⟩ := ih _ (hn ▸ hless) hgoing rfl
        refine ⟨n + 1, s', ?_, hgoing', hnone⟩
        rw [turns, hturn, bind_some, hturns]
      · refine ⟨0, s, rfl, h, fun i hi => ?_⟩
        by_contra hne
        exact hleft ⟨i, hi, hne⟩

end Run

/-- An empty feed has no samples, and one with buffers has some. -/
theorem samplesOf_eq_nil {rate : BitVec 32} {bs : List (Buffer σ)} (h : ∀ b ∈ bs, b.Regular rate) :
    samplesOf bs = [] ↔ bs = [] := by
  refine ⟨fun hnil => ?_, fun hnil => hnil ▸ rfl⟩
  cases bs with
  | nil => rfl
  | cons b bs =>
      exact absurd (append_eq_nil_iff.mp hnil).1 (h b mem_cons_self).nonempty

/-- What holds before the first turn. -/
theorem going_fed {rate : BitVec 32} {origin stop total : ℕ} {feeds : List (List (Buffer σ))}
    (h : Feeds rate origin stop total feeds) (hmixable : ∀ bs ∈ feeds, ∀ b ∈ bs, b.Mixable)
    {first : Buffer σ} (hfirst : firstOf feeds = some first)
    (hsmall : ∀ bs ∈ feeds, ∀ b ∈ bs, b.samples.length ≤ first.samples.length)
    {size : BitVec 32} (hsize : size.toNat = first.samples.length)
    (sampleRate latency : BitVec 32) (eos : Bool) :
    Going rate size first.duration origin stop feeds (fed sampleRate latency eos feeds) := by
  obtain ⟨bs₀, hbs₀, hb₀⟩ := bind_eq_some_iff.mp hfirst
  have hmem₀ : bs₀ ∈ feeds := mem_of_mem_head? hbs₀
  have hnonempty : ∀ bs ∈ feeds, bs ≠ [] := by
    intro bs hbs hnil
    have hlength := (h.length bs hbs).trans (h.length bs₀ hmem₀).symm
    rw [hnil, samplesOf, flatMap_nil, length_nil] at hlength
    have hnil₀ := (samplesOf_eq_nil (h.regular bs₀ hmem₀)).mp (length_eq_zero_iff.mp hlength.symm)
    rw [hnil₀] at hb₀
    cases hb₀
  refine ⟨length_map _, ?_, fun k bs hbs b hb => absurd hb not_mem_nil, rfl,
    .unset rfl rfl rfl ?_ ?_ ?_⟩
  · intro k bs i hbs hi
    rw [fed, getElem?_map, hbs] at hi
    cases hi
    have hmem := mem_of_getElem? hbs
    exact ⟨⟨rfl, rfl⟩, fun b hb => ⟨h.regular bs hmem b hb, hmixable bs hmem b hb,
      hsize ▸ hsmall bs hmem b hb⟩, ⟨origin, h.gapless bs hmem, Nat.le_refl _, by
        rw [Nat.sub_self, Nat.zero_mul]
        exact (Nat.zero_mul _).symm⟩, rfl⟩
  · intro i hi
    obtain ⟨bs, hbs, rfl⟩ := mem_map.mp hi
    exact hnonempty bs hbs
  · refine ⟨first, ?_, hsize.symm, rfl⟩
    rw [fed, head?_map, hbs₀]
    exact hb₀
  · intro i hi b hb
    obtain ⟨bs, hbs, rfl⟩ := mem_map.mp hi
    obtain ⟨rest, hcons⟩ : ∃ rest, bs = b :: rest := ⟨_, eq_cons_of_mem_head? hb⟩
    have hgapless := h.gapless bs hbs
    rw [hcons] at hgapless
    exact hgapless.1

/-- **Every sample is used once**, in order and at its time, where no buffer has more samples than
the first of the first input. -/
theorem usedOnce_of_small {rate : BitVec 32} {origin stop total : ℕ} {feeds : List (List (Buffer σ))}
    (h : Feeds rate origin stop total feeds) (hmixable : ∀ bs ∈ feeds, ∀ b ∈ bs, b.Mixable)
    (hsmall : ∀ first ∈ firstOf feeds, ∀ bs ∈ feeds, ∀ b ∈ bs,
      b.samples.length ≤ first.samples.length)
    (hfits : ∀ first ∈ firstOf feeds, stop + first.duration.toNat < 2 ^ 64)
    (sampleRate latency : BitVec 32) (eos : Bool) :
    ∃ n s, turns n (fed sampleRate latency eos feeds) = some s ∧ Drained s ∧
      UsedOnce rate origin feeds s := by
  cases hfirst : firstOf feeds with
  | none =>
      have hempty : ∀ bs ∈ feeds, bs = [] := by
        cases hfeeds : feeds with
        | nil => exact nofun
        | cons bs₀ rest =>
            have hnil₀ : bs₀ = [] := by
              rw [firstOf, hfeeds] at hfirst
              exact head?_eq_none_iff.mp hfirst
            have htotal := h.length bs₀ (hfeeds ▸ mem_cons_self)
            rw [hnil₀, samplesOf, flatMap_nil, length_nil] at htotal
            intro bs hbs
            have hbs : bs ∈ feeds := hfeeds ▸ hbs
            exact (samplesOf_eq_nil (h.regular bs hbs)).mp
              (length_eq_zero_iff.mp ((h.length bs hbs).trans htotal.symm))
      refine ⟨0, _, rfl, fun i hi hdata => ?_, fun k bs hbs => ⟨?_, nofun⟩⟩
      · obtain ⟨bs, hbs, rfl⟩ := mem_map.mp hi
        exact (hasData_iff rfl).mp hdata (hempty bs hbs)
      · rw [hempty bs (mem_of_getElem? hbs)]
        rfl
  | some first =>
      obtain ⟨bs₀, hbs₀, hb₀⟩ := bind_eq_some_iff.mp hfirst
      have hregular := h.regular bs₀ (mem_of_mem_head? hbs₀) first (mem_of_mem_head? hb₀)
      obtain ⟨af, -, -, -, hcount⟩ := hregular.payload
      have hsize : af.nbSamples ≠ 0 := by
        intro hzero
        rw [hzero] at hcount
        exact hregular.nonempty (length_eq_zero_iff.mp hcount.symm)
      have hgoing := going_fed h hmixable hfirst (hsmall first hfirst) hcount sampleRate latency eos
      obtain ⟨n, s, hturns, hdone, hnone⟩ := hgoing.drains h.rate_ne hsize hregular.duration_ne
        (by rw [hregular.exact, hcount]) (hfits first hfirst)
      refine ⟨n, s, hturns, fun i hi hdata => ?_, fun k bs hbs => ⟨?_, hdone.placed k bs hbs⟩⟩
      · obtain ⟨all, added, htrack⟩ := hdone.track hi
        exact (hasData_iff htrack.plays.active).mp hdata (hnone i hi)
      · obtain ⟨i, hi⟩ : ∃ i, s.inputs[k]? = some i :=
          ⟨_, List.getElem?_eq_getElem (hdone.inputs.symm ▸ (List.getElem?_eq_some_iff.mp hbs).1)⟩
        have hsamples := (hdone.tracks k bs i hbs hi).samples
        rwa [hnone i (mem_of_getElem? hi), samplesOf, flatMap_nil, append_nil] at hsamples

/-! ## Buffers that are too long, and formats that are not mixed -/

/-- Samples at a rate of 1000. -/
def chunk (format : BitVec 32) (pts : ℕ) (samples : List ℕ) : Buffer ℕ :=
  ⟨BitVec.ofNat 64 (pts * 1000000), BitVec.ofNat 64 (samples.length * 1000000),
    some ⟨BitVec.ofNat 32 (samples.take 9).length, 1000, 1, format, some (samples.take 9), by
      intro data hdata
      cases hdata
      have hle := length_take_le 9 samples
      rw [BitVec.toNat_ofNat, Nat.mod_eq_of_lt (by omega)]⟩⟩

theorem chunk_regular (format : BitVec 32) (pts : ℕ) {samples : List ℕ} (hne : samples ≠ [])
    (hlength : samples.length ≤ 9) : (chunk format pts samples).Regular 1000 := by
  have htake : samples.take 9 = samples := take_of_length_le hlength
  refine ⟨⟨_, _, rfl, rfl, show (1 : BitVec 32) ≠ 0 by decide, rfl⟩, ?_, ?_⟩
  · show samples.take 9 ≠ []
    rwa [htake]
  · show (BitVec.ofNat 64 (samples.length * 1000000)).toNat * 1000 = (samples.take 9).length * 10 ^ 9
    rw [htake, BitVec.toNat_ofNat, Nat.mod_eq_of_lt (by omega)]
    omega

theorem chunk_mixable (pts : ℕ) (samples : List ℕ) : (chunk fmtF32le pts samples).Mixable := by
  intro af haf
  cases haf
  exact .inr rfl

/-- Two inputs with six samples each, in buffers of three samples at most. -/
def uneven : List (List (Buffer ℕ)) :=
  [[chunk fmtF32le 0 [1, 2, 3], chunk fmtF32le 3 [4], chunk fmtF32le 4 [5, 6]],
    [chunk fmtF32le 0 [7, 8], chunk fmtF32le 2 [9, 10, 11], chunk fmtF32le 5 [12]]]

theorem usedOnce_of_small_uneven :
    ∃ n s, turns n (fed 48000 20 false uneven) = some s ∧ Drained s ∧ UsedOnce 1000 0 uneven s := by
  refine @usedOnce_of_small _ _ _ 6000000 6 _ ⟨by decide, ?_, ?_, ?_⟩ ?_ ?_ ?_ 48000 20 false
  · simp only [uneven, forall_mem_cons, not_mem_nil, false_imp_iff, implies_true, and_true]
    have hchunk {pts : ℕ} {samples : List ℕ} (h : samples ≠ [] ∧ samples.length ≤ 9) :=
      chunk_regular fmtF32le pts h.1 h.2
    exact ⟨⟨hchunk (by decide), hchunk (by decide), hchunk (by decide)⟩,
      hchunk (by decide), hchunk (by decide), hchunk (by decide)⟩
  · simp only [uneven, forall_mem_cons, not_mem_nil, false_imp_iff, implies_true, and_true]
    exact ⟨⟨rfl, rfl, rfl, rfl⟩, rfl, rfl, rfl, rfl⟩
  · simp only [uneven, forall_mem_cons, not_mem_nil, false_imp_iff, implies_true, and_true]
    exact ⟨rfl, rfl⟩
  · simp only [uneven, forall_mem_cons, not_mem_nil, false_imp_iff, implies_true, and_true,
      chunk_mixable]
  · rintro first ⟨⟩
    decide
  · rintro first ⟨⟩
    decide

/-- Samples are lost of a buffer with more samples than the first one, and of one in another
format. -/
theorem samples_lost :
    (¬ ∀ (rate : BitVec 32) (origin stop total : ℕ) (feeds : List (List (Buffer ℕ))),
      Feeds rate origin stop total feeds → (∀ bs ∈ feeds, ∀ b ∈ bs, b.Mixable) →
        ∀ n s, turns n (fed 48000 20 false feeds) = some s → Drained s → UsedOnce rate origin feeds s) ∧
      ¬ ∀ (rate : BitVec 32) (origin stop total : ℕ) (feeds : List (List (Buffer ℕ))),
        Feeds rate origin stop total feeds → (∀ first ∈ firstOf feeds, ∀ bs ∈ feeds, ∀ b ∈ bs,
          b.samples.length ≤ first.samples.length) →
            ∀ n s, turns n (fed 48000 20 false feeds) = some s → Drained s →
              UsedOnce rate origin feeds s := by
  constructor
  · intro h
    have hfeeds : Feeds 1000 0 3000000 3 [[chunk fmtF32le 0 [1], chunk fmtF32le 1 [2, 3]]] := by
      refine ⟨by decide, ?_, ?_, ?_⟩
      · simp only [forall_mem_cons, not_mem_nil, false_imp_iff, implies_true, and_true]
        exact ⟨chunk_regular _ _ (cons_ne_nil _ _) (by decide),
          chunk_regular _ _ (cons_ne_nil _ _) (by decide)⟩
      · simp only [forall_mem_cons, not_mem_nil, false_imp_iff, implies_true, and_true]
        exact ⟨rfl, rfl, rfl⟩
      · simp only [forall_mem_cons, not_mem_nil, false_imp_iff, implies_true, and_true]
        rfl
    have hrun : ((turns 2 (fed 48000 20 false
        [[chunk fmtF32le 0 [1], chunk fmtF32le 1 [2, 3]]])).map fun s =>
          (addedOf 0 s.pushed, decide (Drained s))) = some ([1, 2], true) := by
      decide +kernel
    obtain ⟨s, hs, hspec⟩ := map_eq_some_iff.mp hrun
    obtain ⟨hadded, hdrained⟩ := Prod.mk.inj hspec
    have hused := h 1000 0 3000000 3 _ hfeeds (by
      simp only [forall_mem_cons, not_mem_nil, false_imp_iff, implies_true, and_true]
      exact ⟨chunk_mixable _ _, chunk_mixable _ _⟩) 2 s hs (of_decide_eq_true hdrained)
    have hall := (hused 0 _ rfl).1
    rw [hadded] at hall
    exact absurd hall (by decide)
  · intro h
    have hfeeds : Feeds 1000 0 1000000 1 [[chunk 1 0 [1]]] := by
      refine ⟨by decide, ?_, ?_, ?_⟩
      · simp only [forall_mem_cons, not_mem_nil, false_imp_iff, implies_true, and_true]
        exact chunk_regular _ _ (cons_ne_nil _ _) (by decide)
      · simp only [forall_mem_cons, not_mem_nil, false_imp_iff, implies_true, and_true]
        exact ⟨rfl, rfl⟩
      · simp only [forall_mem_cons, not_mem_nil, false_imp_iff, implies_true, and_true]
        rfl
    have hrun : ((turns 1 (fed 48000 20 false [[chunk 1 0 [1]]])).map fun s =>
          (addedOf 0 s.pushed, decide (Drained s))) = some ([], true) := by
      decide +kernel
    obtain ⟨s, hs, hspec⟩ := map_eq_some_iff.mp hrun
    obtain ⟨hadded, hdrained⟩ := Prod.mk.inj hspec
    have hused := h 1000 0 1000000 1 _ hfeeds (by
      intro first hfirst
      cases hfirst
      simp only [forall_mem_cons, not_mem_nil, false_imp_iff, implies_true, and_true]
      exact Nat.le_refl _) 1 s hs (of_decide_eq_true hdrained)
    have hall := (hused 0 _ rfl).1
    rw [hadded] at hall
    exact absurd hall (by decide)

end Zstreamer.Mixer

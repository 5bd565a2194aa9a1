/-
# The worker of the audio mixer

`audio_mixer_worker` of `audio_mixer.c` between a start and a stop.  A turn of the worker takes the
heads of the queues, sets the time of the next block, drops what is stale, mixes what is due, and
pushes the block.  Buffers may come to the queues at any time, also within a turn.

Samples are whatever they are: a block keeps which samples of which input have been added to it, and
not their sum.  Memory for a block is there, and the frame of a buffer has the samples that it says.
-/

import Zstreamer.Foundation.Bits
import Zstreamer.Foundation.Runs

namespace Zstreamer.Mixer

open Foundation

variable {σ : Type}

/-! ## Buffers -/

/-- `zst_audio_frame_t` -/
structure Frame (σ : Type) where
  nbSamples : BitVec 32
  sampleRate : BitVec 32
  channels : BitVec 32
  format : BitVec 32
  data : Option (List σ)
  /-- The data has the samples that the frame says. -/
  full : ∀ samples ∈ data, samples.length = nbSamples.toNat

/-- `zst_buffer_t`, as far as it is looked at. -/
structure Buffer (σ : Type) where
  pts : BitVec 64
  duration : BitVec 64
  payload : Option (Frame σ)

/-- `ZST_AUDIO_FMT_S16LE` -/
def fmtS16le : BitVec 32 := 0

/-- `ZST_AUDIO_FMT_F32LE` -/
def fmtF32le : BitVec 32 := 3

/-- `audio_mixer_samples_to_ns` -/
def samplesToNs (samples rate : BitVec 32) : BitVec 64 :=
  if rate = 0 then 0 else samples.setWidth 64 * 1000000000 / rate.setWidth 64

/-- `audio_mixer_ns_to_samples` -/
def nsToSamples (ns : BitVec 64) (rate : BitVec 32) : BitVec 32 :=
  if rate = 0 then 0 else (ns * rate.setWidth 64 / 1000000000).setWidth 32

/-- The rate of a frame, or else that of the mixer. -/
def Frame.rateOr (af : Frame σ) (sampleRate : BitVec 32) : BitVec 32 :=
  if af.sampleRate ≠ 0 then af.sampleRate else sampleRate

/-- How long a buffer is: what it says, or what its samples take. -/
def Buffer.lasts (sampleRate : BitVec 32) (b : Buffer σ) : BitVec 64 :=
  if b.duration ≠ 0 then b.duration
  else
    match b.payload with
    | none => 0
    | some af => samplesToNs af.nbSamples (af.rateOr sampleRate)

/-! ## Inputs -/

/-- `audio_mixer_input_t` -/
structure Input (σ : Type) where
  queue : List (Buffer σ)
  pending : Option (Buffer σ)
  mute : Bool
  eos : Bool
  active : Bool

/-- `audio_mixer_input_has_data` -/
def Input.HasData (i : Input σ) : Prop := i.active = true ∧ (i.pending.isSome = true ∨ i.queue ≠ [])

/-- What `zst_audio_mixer_request_pad` makes of a slot. -/
def Input.fresh : Input σ := ⟨[], none, false, false, true⟩

/-- What `zst_audio_mixer_release_pad` leaves of it. -/
def Input.released (i : Input σ) : Input σ :=
  { i with queue := [], pending := none, active := false, eos := true }

/-- `audio_mixer_sink_push`: a buffer comes to the queue, where it is accepted and there is room. -/
def Input.arrive (b : Buffer σ) (i : Input σ) : Input σ :=
  if i.active = true ∧ i.queue.length < 10 then { i with queue := i.queue ++ [b] } else i

/-- The head of the queue is pulled into the pending slot. -/
def Input.pull (i : Input σ) : Input σ :=
  if i.active = true ∧ i.pending.isNone = true then
    { i with pending := i.queue.head?, queue := i.queue.tail }
  else i

/-- The pending buffer that is looked at, and its frame. -/
def Input.waiting (i : Input σ) : Option (Buffer σ × Frame σ) :=
  if i.active = true then i.pending.bind fun b => b.payload.map fun af => (b, af) else none

/-- A buffer that ends before a time. -/
def Buffer.Stale (sampleRate : BitVec 32) (mixPts : BitVec 64) (b : Buffer σ) : Prop :=
  0 < b.lasts sampleRate ∧ b.pts + b.lasts sampleRate ≤ mixPts

instance (sampleRate : BitVec 32) (mixPts : BitVec 64) (b : Buffer σ) :
    Decidable (b.Stale sampleRate mixPts) :=
  inferInstanceAs (Decidable (_ ∧ _))

/-- Stale buffers are dropped, and the next ones pulled instead. -/
def Input.dropStale (sampleRate : BitVec 32) (mixPts : BitVec 64) (i : Input σ) : Input σ :=
  if i.active = true then
    let left := (i.pending.toList ++ i.queue).dropWhile fun b => b.Stale sampleRate mixPts
    { i with pending := left.head?, queue := left.tail }
  else i

/-! ## Blocks -/

/-- When a block is, and how long. -/
structure Target where
  pts : BitVec 64
  samples : BitVec 32
  duration : BitVec 64

/-- What is known of it in the course of the loop over the inputs. -/
structure Seeking where
  pts : Option (BitVec 64)
  samples : BitVec 32
  duration : BitVec 64

/-- The loop looks at a pending buffer. -/
def Seeking.consider (sampleRate : BitVec 32) (t : Seeking) (w : Buffer σ × Frame σ) : Seeking where
  pts := if t.pts.any (fun pts => pts ≤ w.1.pts) then t.pts else some w.1.pts
  samples := if t.samples = 0 then w.2.nbSamples else t.samples
  duration := if t.duration = 0 then w.1.lasts sampleRate else t.duration

/-- What the loop has found, with a length in any case. -/
def Seeking.target (sampleRate : BitVec 32) (t : Seeking) : Option Target :=
  t.pts.bind fun pts =>
    if t.samples = 0 then none
    else
      let duration := if t.duration = 0 then samplesToNs t.samples sampleRate else t.duration
      some ⟨pts, t.samples, if duration = 0 then 10000000 else duration⟩

/-- The samples of a buffer that are added to a block, from the first sample of the block on;
nothing where the buffer is not consumed. -/
def Target.take (sampleRate : BitVec 32) (t : Target) (b : Buffer σ) (mute : Bool) :
    Option (List σ) :=
  b.payload.bind fun af => af.data.bind fun data =>
    if af.channels = 0 ∨ t.pts < b.pts then none
    else if mute = true then some []
    else
      let offset := if b.pts < t.pts then nsToSamples (t.pts - b.pts) (af.rateOr sampleRate) else 0
      if b.pts < t.pts ∧ af.nbSamples ≤ offset then none
      else
        let available := af.nbSamples - offset
        let frames := if available < t.samples then available else t.samples
        some (if af.format = fmtS16le ∨ af.format = fmtF32le then
          (data.drop offset.toNat).take frames.toNat else [])

/-- The input behind the loop that mixes, and what has been added of it. -/
def Target.mix (sampleRate : BitVec 32) (t : Target) (i : Input σ) : Input σ × List σ :=
  if i.active = true then
    match i.pending.bind fun b => t.take sampleRate b i.mute with
    | none => (i, [])
    | some added => ({ i with pending := none }, added)
  else (i, [])

/-- A block that has been pushed. -/
structure Block (σ : Type) where
  pts : BitVec 64
  duration : BitVec 64
  nbSamples : BitVec 32
  /-- What has been added of every input. -/
  added : List (List σ)

/-! ## The worker -/

/-- `audio_mixer_t`, and the blocks that have been pushed since the start. -/
structure Worker (σ : Type) where
  inputs : List (Input σ)
  sampleRate : BitVec 32
  latency : BitVec 32
  blockSamples : BitVec 32
  blockDuration : BitVec 64
  nextPts : Option (BitVec 64)
  eosSent : Bool
  pushed : List (Block σ)

namespace Worker

/-- There are inputs, and all are at their end. -/
def AllEos (s : Worker σ) : Prop :=
  (∃ i ∈ s.inputs, i.active = true) ∧ ∀ i ∈ s.inputs, i.active = true → i.eos = true ∧ ¬ i.HasData

/-- The worker does not wait any longer: all inputs have data or are at their end, or one has data
and the time for the others is over. -/
def GoesOn (s : Worker σ) : Prop :=
  s.eosSent = false ∧ (∃ i ∈ s.inputs, i.HasData) ∧
    ((∀ i ∈ s.inputs, i.active = true → i.HasData ∨ i.eos = true) ∨ s.nextPts.isSome = true ∨
      0 < s.latency)

instance : DecidablePred (Input.HasData (σ := σ)) := fun i =>
  decidable_of_iff (i.active = true ∧ (i.pending.isSome = true ∨ i.queue.isEmpty = false)) (by
    rw [Input.HasData, List.isEmpty_eq_false_iff])

instance : DecidablePred (AllEos (σ := σ)) := fun _ => inferInstanceAs (Decidable (_ ∧ _))

instance : DecidablePred (GoesOn (σ := σ)) := fun _ => inferInstanceAs (Decidable (_ ∧ _ ∧ (_ ∨ _ ∨ _)))

/-- The buffers that are looked at when the time of a block is set. -/
def heads (s : Worker σ) : List (Buffer σ × Frame σ) := (s.inputs.map Input.pull).filterMap Input.waiting

/-- When the next block is. -/
def target (s : Worker σ) : Option Target :=
  (s.heads.foldl (Seeking.consider s.sampleRate)
    ⟨s.nextPts, s.blockSamples, s.blockDuration⟩).target s.sampleRate

/-- Buffers come to the queues. -/
def arrivals (late : List (ℕ × Buffer σ)) (inputs : List (Input σ)) : List (Input σ) :=
  late.foldl (fun inputs a => inputs.modify a.1 (Input.arrive a.2)) inputs

/-- The inputs behind a turn, and what has been added of each. -/
def mixed (s : Worker σ) (t : Target) (late : List (ℕ × Buffer σ)) : List (Input σ × List σ) :=
  (arrivals late (s.inputs.map Input.pull)).map fun i =>
    t.mix s.sampleRate (i.dropStale s.sampleRate t.pts)

/-- A turn, in which buffers come behind the heads have been taken. -/
def turn (s : Worker σ) (late : List (ℕ × Buffer σ)) : Option (Worker σ) :=
  if s.GoesOn then
    match s.target with
    | none => some { s with inputs := s.inputs.map Input.pull }
    | some t =>
        some { s with
          inputs := (s.mixed t late).map Prod.fst
          blockSamples := t.samples
          blockDuration := t.duration
          nextPts := some (t.pts + t.duration)
          pushed := s.pushed ++ [⟨t.pts, t.duration, t.samples, (s.mixed t late).map Prod.snd⟩] }
  else none

/-- A pad is requested: it has the first slot that is free. -/
def requestPad (s : Worker σ) : Worker σ :=
  if s.inputs.all Input.active then
    if s.inputs.length < 64 then { s with inputs := s.inputs ++ [.fresh] } else s
  else { s with inputs := s.inputs.modify (s.inputs.findIdx fun i => !i.active) fun _ => .fresh }

end Worker

/-- What the worker and the others do. -/
inductive Action (σ : Type)
  | turn (late : List (ℕ × Buffer σ))
  | finish
  | arrive (i : ℕ) (b : Buffer σ)
  | eos (i : ℕ)
  | requestPad
  | releasePad (i : ℕ)
  | setMute (i : ℕ) (mute : Bool)
  | setLatency (latency : BitVec 32)

/-- An action. -/
def Worker.next (s : Worker σ) : Action σ → Option (Worker σ)
  | .turn late => s.turn late
  -- the worker ends
  | .finish => if s.AllEos then some { s with eosSent := true } else none
  | .arrive i b => some { s with inputs := s.inputs.modify i (Input.arrive b) }
  | .eos i => some { s with
      inputs := s.inputs.modify i fun i => if i.active then { i with eos := true } else i }
  | .requestPad => some s.requestPad
  | .releasePad i => some { s with
      inputs := s.inputs.modify i fun i => if i.active then i.released else i }
  | .setMute i mute => some { s with inputs := s.inputs.modify i fun i => { i with mute } }
  | .setLatency latency => some { s with latency }

/-- `audio_mixer_start` -/
structure Worker.Started (s : Worker σ) : Prop where
  nextPts : s.nextPts = none
  eosSent : s.eosSent = false
  pushed : s.pushed = []

/-- The runs of the worker. -/
def system (σ : Type) : System (Worker σ) (Action σ) where
  init := Worker.Started
  next := Worker.next

end Zstreamer.Mixer

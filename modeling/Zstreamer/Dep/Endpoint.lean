/-
# DEP endpoints

`dante_dep_context.c` moves audio between an element and the rings of another process, one
period after the other.  An endpoint keeps the frames in between in an array of its own that
it uses as a ring.

A function takes effect while it holds the lock of the endpoint.  What it reads from the
memory of the other process is an argument here.  Sizes are natural numbers: with the checks
of `endpoint_prepare` none of the sums and products below reaches 2^64.  Memory is always found.
-/

import Zstreamer.Foundation.Circular
import Zstreamer.Foundation.Ticks

namespace Zstreamer.Dep

open Foundation

/-- A sample of one channel. -/
abbrev Sample := BitVec 32

/-- `dep_endpoint_direction_t`. -/
inductive Direction
  | rx
  | tx
  deriving DecidableEq, Repr

/-- What of `dep_shared_header_t` tells how the rings are cut into periods. -/
structure Metadata where
  sampleRate : ℕ
  samplesPerChannel : ℕ
  samplesPerPeriod : ℕ
  deriving DecidableEq, Repr

/-- `dep_endpoint_t`, without its place in the context and its times of reconnecting. -/
structure Endpoint where
  direction : Direction
  channelMap : List ℕ
  queuePeriods : ℕ
  blockSamples : ℕ
  txLeadUs : ℕ
  samples : ℕ → Sample
  timestamps : ℕ → ℕ
  capacityFrames : ℕ
  readFrame : ℕ
  usedFrames : ℕ
  configuredPeriodSamples : ℕ
  sampleRate : ℕ
  enabled : Bool
  active : Bool
  periods : ℕ
  overruns : ℕ
  underflows : ℕ
  droppedFrames : ℕ

/-- `UINT64_MAX`, and `SIZE_MAX`. -/
def uint64Max : ℕ := 2 ^ 64 - 1

/-- `UINT32_MAX`. -/
def uint32Max : ℕ := 2 ^ 32 - 1

/-- `samples_to_ns`. -/
def samplesToNs (samples rate : ℕ) : ℕ :=
  let whole := samples / rate
  let remainder := samples % rate
  if whole > uint64Max / second then uint64Max
  else
    let value := whole * second
    let fraction := remainder * second / rate
    if fraction > uint64Max - value then uint64Max else value + fraction

/-- `period_start`. -/
def periodStart (period samples capacity : ℕ) : ℕ := (period % capacity * samples) % capacity

namespace Metadata

/-- How many whole periods a ring has. -/
def ringPeriods (m : Metadata) : ℕ := m.samplesPerChannel / m.samplesPerPeriod

/-- A period is not complete, or may be overwritten: what `receive_period` rejects.  A period that
is received is less than a counter that has been read, so that `period + 1` does not overflow. -/
def Rejects (m : Metadata) (latest period : ℕ) : Prop :=
  latest < period + 1 ∨ m.ringPeriods < latest - period

instance (m : Metadata) (latest period : ℕ) : Decidable (m.Rejects latest period) :=
  inferInstanceAs (Decidable (_ ∨ _))

/-- Where frame `i` of a period stands in every plane. -/
def ringSample (m : Metadata) (period i : ℕ) : ℕ :=
  (periodStart period m.samplesPerPeriod m.samplesPerChannel + i) % m.samplesPerChannel

end Metadata

namespace Endpoint

/-- `channel_count`. -/
def channelCount (ep : Endpoint) : ℕ := ep.channelMap.length

/-- `fifo_drop`. -/
def fifoDrop (ep : Endpoint) (frames : ℕ) : Endpoint :=
  let frames := if frames > ep.usedFrames then ep.usedFrames else frames
  { ep with
    readFrame := (ep.readFrame + frames) % ep.capacityFrames
    usedFrames := ep.usedFrames - frames
    droppedFrames := ep.droppedFrames + frames }

/-- The slot of the array behind the frames that are used. -/
def freeSlot (ep : Endpoint) (i : ℕ) : ℕ :=
  (ep.readFrame + ep.usedFrames + i) % ep.capacityFrames

/-- A frame is copied to a slot, one channel after the other. -/
def copyFrame (ep : Endpoint) (slot : ℕ) (frame : ℕ → Sample) (samples : ℕ → Sample) : ℕ → Sample :=
  writeAll (slot * ep.channelCount + ·) frame ep.channelCount samples

/-- Frames are copied behind those that are used. -/
def copyFrames (ep : Endpoint) (frame : ℕ → ℕ → Sample) (frames : ℕ) : ℕ → Sample :=
  (List.range frames).foldl (fun samples i => ep.copyFrame (ep.freeSlot i) (frame i) samples)
    ep.samples

/-- The timestamp of frame `i` of a period. -/
def frameTime (m : Metadata) (pts i : ℕ) : ℕ :=
  let offset := samplesToNs i m.sampleRate
  if offset > uint64Max - pts then uint64Max else pts + offset

/-- Room is made for a period. -/
def makeRoom (ep : Endpoint) (frames : ℕ) : Endpoint :=
  if frames > ep.capacityFrames - ep.usedFrames then
    let ep := ep.fifoDrop (frames - (ep.capacityFrames - ep.usedFrames))
    { ep with overruns := ep.overruns + 1 }
  else ep

/-- `receive_period`.  The counter of the periods is read twice; `seen i c` is what is read from
the ring of channel `c` for frame `i`. -/
def receivePeriod (m : Metadata) (ep : Endpoint) (period pts latest latest' : ℕ)
    (seen : ℕ → ℕ → Sample) : Bool × Endpoint :=
  if m.Rejects latest period then (false, ep)
  else
    let frames := m.samplesPerPeriod
    let room := ep.makeRoom frames
    let filled :=
      { room with
        samples := room.copyFrames seen frames
        timestamps := writeAll room.freeSlot (frameTime m pts) frames room.timestamps
        usedFrames := room.usedFrames + frames }
    if m.Rejects latest' period then
      (false,
        { filled with
          readFrame := ep.readFrame
          usedFrames := ep.usedFrames
          overruns := filled.overruns + 1 })
    else (true, { filled with periods := filled.periods + 1 })

/-- Where `transmit_period` begins in a ring. -/
def transmitStart (m : Metadata) (ep : Endpoint) (period : ℕ) : ℕ :=
  (periodStart period m.samplesPerPeriod m.samplesPerChannel +
    ep.txLeadUs * m.sampleRate / 1000000 % m.samplesPerChannel) % m.samplesPerChannel

/-- A sample is written to a ring. -/
structure PlaneWrite where
  plane : ℕ
  position : ℕ
  value : Sample
  deriving DecidableEq, Repr

/-- `transmit_period`, and what it writes to the rings. -/
def transmitPeriod (m : Metadata) (ep : Endpoint) (period : ℕ) : Endpoint × List PlaneWrite :=
  let frames := m.samplesPerPeriod
  let start := transmitStart m ep period
  let writes := (List.range frames).flatMap fun i =>
    (List.range ep.channelCount).map fun c =>
      { plane := ep.channelMap.getD c 0
        position := (start + i) % m.samplesPerChannel
        value :=
          if i < ep.usedFrames then
            ep.samples ((ep.readFrame + i) % ep.capacityFrames * ep.channelCount + c)
          else 0 }
  let out := ep.fifoDrop (if ep.usedFrames < frames then ep.usedFrames else frames)
  ({ out with
      underflows := if ep.usedFrames < frames then out.underflows + 1 else out.underflows
      periods := out.periods + 1 },
    writes)

/-- What `dep_endpoint_read` answers. -/
inductive Reading
  | error
  | timeout
  | ok (frames : List (List Sample)) (pts rate : ℕ)
  deriving DecidableEq, Repr

/-- How many frames a read takes. -/
def wanted (ep : Endpoint) : ℕ :=
  if ep.blockSamples ≠ 0 then ep.blockSamples else ep.configuredPeriodSamples

/-- The samples in a slot. -/
def frameAt (ep : Endpoint) (slot : ℕ) : List Sample :=
  (List.range ep.channelCount).map fun c => ep.samples (slot * ep.channelCount + c)

/-- `dep_endpoint_read`, when it has waited. -/
def read (ep : Endpoint) : Reading × Endpoint :=
  if ep.direction ≠ .rx then (.error, ep)
  else if ep.enabled = false ∨ ep.wanted = 0 ∨ ep.usedFrames < ep.wanted then (.timeout, ep)
  else if ep.wanted > uint32Max ∨ ep.wanted * ep.channelCount > uint64Max ∨
      ep.wanted * ep.channelCount > uint64Max / 4 then (.error, ep)
  else
    (.ok ((List.range ep.wanted).map fun i => ep.frameAt ((ep.readFrame + i) % ep.capacityFrames))
        (ep.timestamps ep.readFrame) ep.sampleRate,
      ep.fifoDrop ep.wanted)

/-- What `dep_endpoint_write` answers. -/
inductive Writing
  | error
  | again
  | ok
  deriving DecidableEq, Repr

/-- `dep_endpoint_write` of some frames, whose samples stand one behind the other. -/
def write (ep : Endpoint) (data : ℕ → Sample) (frames : ℕ) : Writing × Endpoint :=
  if ep.direction ≠ .tx ∨ frames = 0 then (.error, ep)
  else if ep.enabled = false ∨ ep.capacityFrames = 0 then (.again, ep)
  else
    let skip := if frames > ep.capacityFrames then frames - ep.capacityFrames else 0
    let ep :=
      if skip ≠ 0 then
        { ep with overruns := ep.overruns + 1, droppedFrames := ep.droppedFrames + skip }
      else ep
    let accepted := frames - skip
    let ep := ep.makeRoom accepted
    (.ok,
      { ep with
        samples := ep.copyFrames (fun i c => data ((skip + i) * ep.channelCount + c)) accepted
        usedFrames := ep.usedFrames + accepted })

/-- `endpoint_prepare`. -/
def prepare (ep : Endpoint) (periodSamples sampleRate : ℕ) : Option Endpoint :=
  let product := ep.queuePeriods * periodSamples
  if product > uint64Max ∨ product = 0 then none
  else
    let frames := if ep.blockSamples > product then ep.blockSamples else product
    if frames * ep.channelCount > uint64Max ∨ frames * ep.channelCount > uint64Max / 4 ∨
        frames > uint64Max / 8 then none
    else
      let ep :=
        if ep.capacityFrames ≠ frames ∨ ep.configuredPeriodSamples ≠ periodSamples then
          { ep with
            capacityFrames := frames
            configuredPeriodSamples := periodSamples
            readFrame := 0
            usedFrames := 0 }
        else ep
      some { ep with sampleRate := sampleRate, active := ep.enabled }

end Endpoint

end Zstreamer.Dep

/-
# The reorder buffer of a track of the SDP demuxer

`sdp_demuxer.c` keeps the packets of a track in a ring.  A packet goes into the slot of the
low bits of its sequence number, and the ring does not say which number that was; it says
which number is next, and how many slots are taken.  A buffer on the sink pad brings packets
to the rings, and then each track is drained as long as the next packet is there.

Allocations succeed, and the source pad of the track is linked.
-/

import Mathlib.Logic.Function.Basic
import Zstreamer.Foundation.Bits
import Zstreamer.Foundation.Ticks

namespace Zstreamer.SdpDemuxer

open Foundation

/-- An RTP packet of a stream, as `sdp_process_rtp_packet` hands it on.  The counter says which
packet of the stream it is; a packet carries its low 16 bits. -/
structure Packet where
  counter : ℤ
  timestamp : BitVec 32
  marker : Bool
  payload : List Byte
  /-- `payload_offset >= pkt_len` has been ruled out -/
  payload_ne : payload ≠ []
  deriving DecidableEq

/-- The sequence number. -/
def Packet.seq (p : Packet) : BitVec 16 := serial 16 p.counter

/-- `rtp_reorder_t`; a slot that is not present is `none`, its other fields are not read. -/
structure Reorder where
  slots : BitVec 16 → Option Packet
  mask : BitVec 16
  nextSeq : BitVec 16
  count : ℤ
  totalCapacity : ℕ
  dropped : ℕ

namespace Reorder

/-- The loop of `reorder_init`, in so many turns at most. -/
def roundUp (capacity : ℕ) : ℕ → ℕ → ℕ
  | 0, cap => cap
  | turns + 1, cap => if cap < capacity then roundUp capacity turns (cap * 2) else cap

/-- `reorder_init`: the capacity is rounded up to a power of two, of at most 65536. -/
def init (capacity : ℕ) : Reorder :=
  let cap := min (roundUp capacity 31 1) 65536
  { slots := fun _ => none
    mask := BitVec.ofNat 16 (cap - 1)
    nextSeq := 0
    count := 0
    totalCapacity := cap
    dropped := 0 }

/-- The slot of a sequence number. -/
def slotOf (r : Reorder) (seq : BitVec 16) : BitVec 16 := seq &&& r.mask

/-- How far a sequence number is ahead of the next one. -/
def diff (r : Reorder) (seq : BitVec 16) : ℤ := (seq - r.nextSeq).toInt

/-- The first lines of `reorder_insert`: an empty ring begins anew. -/
def begin (r : Reorder) (seq : BitVec 16) : Reorder :=
  if r.count = 0 then { r with nextSeq := seq } else r

/-- The packet goes into its slot, unless it is there already. -/
def store (r : Reorder) (p : Packet) : Reorder :=
  match r.slots (r.slotOf p.seq) with
  | some q =>
      if q.payload = p.payload then r
      else
        { r with
          slots := Function.update r.slots (r.slotOf p.seq) (some p)
          count := r.count - 1 + 1 }
  | none =>
      { r with
        slots := Function.update r.slots (r.slotOf p.seq) (some p)
        count := r.count + 1 }

/-- A packet that is too late or too far ahead. -/
def Refuses (r : Reorder) (maxLateness : BitVec 16) (seq : BitVec 16) : Prop :=
  r.diff seq < -maxLateness.toInt ∨ r.diff seq > (BitVec.ofNat 16 (r.totalCapacity - 1)).toInt

instance (r : Reorder) (maxLateness seq : BitVec 16) : Decidable (r.Refuses maxLateness seq) :=
  inferInstanceAs (Decidable (_ ∨ _))

/-- `reorder_insert` -/
def insert (r : Reorder) (maxLateness : BitVec 16) (p : Packet) : Reorder :=
  let r := r.begin p.seq
  if r.Refuses maxLateness p.seq then { r with dropped := r.dropped + 1 } else r.store p

/-- `reorder_peek`: the packet that is next. -/
def peek (r : Reorder) : Option Packet := if r.count = 0 then none else r.slots (r.slotOf r.nextSeq)

/-- `reorder_drain`, when there is a packet to drain. -/
def drain (r : Reorder) : Reorder :=
  { r with
    slots := Function.update r.slots (r.slotOf r.nextSeq) none
    count := r.count - 1
    nextSeq := r.nextSeq + 1 }

@[simp]
theorem slots_drain (r : Reorder) :
    r.drain.slots = Function.update r.slots (r.slotOf r.nextSeq) none := rfl

/-- The loop of `sdp_demuxer_process_track`, in so many turns at most: the packets that are handed
to the depacketiser. -/
def drainAll : ℕ → Reorder → List Packet × Reorder
  | 0, r => ([], r)
  | turns + 1, r =>
      match r.peek with
      | none => ([], r)
      | some p =>
          let later := drainAll turns r.drain
          (p :: later.1, later.2)

end Reorder

/-- A track: its ring, and the packets that were handed to the depacketiser. -/
structure Track where
  reorder : Reorder
  handed : List Packet

/-- What happens to a track: a packet is inserted, or the track is drained. -/
inductive Op
  | insert (p : Packet)
  | process
  deriving DecidableEq

namespace Track

/-- A track with a ring of this capacity. -/
def create (capacity : ℕ) : Track := ⟨Reorder.init capacity, []⟩

/-- `sdp_demuxer_process_track`.  Each turn of its loop takes one from the count. -/
def process (t : Track) : Track :=
  let drained := t.reorder.drainAll t.reorder.count.toNat
  ⟨drained.2, t.handed ++ drained.1⟩

/-- What an operation comes to. -/
def step (maxLateness : BitVec 16) (t : Track) : Op → Track
  | .insert p => { t with reorder := t.reorder.insert maxLateness p }
  | .process => t.process

/-- Operations one after the other. -/
def run (maxLateness : BitVec 16) (ops : List Op) (t : Track) : Track :=
  ops.foldl (step maxLateness) t

/-- Operations that all meet a condition on the track before them. -/
def Follows (maxLateness : BitVec 16) (P : Track → Op → Prop) : List Op → Track → Prop
  | [], _ => True
  | op :: ops, t => P t op ∧ Follows maxLateness P ops (t.step maxLateness op)

/-- The operations of `sdp_sink_push`: the packets of a buffer are inserted, then the track is
drained. -/
def pushOps (packets : List Packet) : List Op := packets.map Op.insert ++ [.process]

end Track

/-! ## The loops end -/

namespace Reorder

variable {r : Reorder}

/-- A power of two is not rounded. -/
theorem roundUp_two_pow {k : ℕ} (hk : k ≤ 16) : min (roundUp (2 ^ k) 31 1) 65536 = 2 ^ k := by
  interval_cases k <;> rfl

end Reorder

end Zstreamer.SdpDemuxer

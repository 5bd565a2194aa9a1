/-
# The queue's memory

What `zst_queue_create` allocates: a ring of slots whose size is the next power of
two, two counters that only ever grow, and an approximate byte count.  Positions are
natural numbers here.  In the source they are 64-bit counters compared through a
signed difference, and the two agree as long as no counter reaches 2^63, that is for
fewer than 2^63 operations; the byte count and the durations wrap in 64 bits as in
the source.

The ring is a function on slot numbers, and a position reaches its slot through
`RING_MASK`.  Everything later uses the slot of a position and never the mask:
positions of one window of `capacity` positions have different slots.
-/

import Zstreamer.Foundation.Circular

namespace Zstreamer

open Foundation

/-- What the queue reads of a buffer; `id` is the pointer. -/
structure Buffer where
  id : ℕ
  size : ℕ
  pts : ℕ
  duration : ℕ
  deriving DecidableEq, Repr

inductive QueueMode
  | sync
  | async
  deriving DecidableEq, Repr

/-- `zst_queue_config_t`; a limit of zero is no limit. -/
structure QueueConfig where
  mode : QueueMode
  maxBuffers : ℕ
  maxBytes : ℕ
  maxDuration : ℕ
  deriving DecidableEq, Repr

/-- `next_power_of_two`, in 32 bits. -/
def nextPowerOfTwo (v : ℕ) : ℕ :=
  let v := (v + 2 ^ 32 - 1) % 2 ^ 32
  let v := v ||| v >>> 1
  let v := v ||| v >>> 2
  let v := v ||| v >>> 4
  let v := v ||| v >>> 8
  let v := v ||| v >>> 16
  let v := (v + 1) % 2 ^ 32
  if v < 2 then 2 else v

namespace QueueConfig

variable (cfg : QueueConfig)

/-- The number of buffers asked for. -/
def limit : ℕ := if cfg.maxBuffers > 0 then cfg.maxBuffers else 16

def capacity : ℕ := nextPowerOfTwo cfg.limit

/-- Whether a push has to look further than the sequence number of its slot. -/
def hasExtraLimits : Bool :=
  cfg.maxBytes > 0 || cfg.maxDuration > 0 ||
    (cfg.maxBuffers > 0 && cfg.maxBuffers < cfg.capacity)

/-- `RING_MASK`. -/
def ringMask (pos : ℕ) : ℕ := pos &&& (cfg.capacity - 1)

end QueueConfig

/-- Subtraction in 64 bits. -/
def wrapSub (a n : ℕ) : ℕ := (a + (2 ^ 64 - n % 2 ^ 64)) % 2 ^ 64

theorem wrapSub_eq {a n : ℕ} (hle : n ≤ a) (hlt : a < 2 ^ 64) : wrapSub a n = a - n := by
  rw [wrapSub, Nat.mod_eq_of_lt (by omega : n < 2 ^ 64)]
  omega

/-- What `zst_queue_size` computes from the counters it has loaded: a signed
difference, cut at zero and narrowed to 32 bits. -/
def sizeBetween (head tail : ℕ) : ℕ :=
  let size : ℤ := (tail : ℤ) - (head : ℤ)
  if size < 0 then 0 else size.toNat % 2 ^ 32

theorem sizeBetween_eq {head tail : ℕ} (hlt : tail < head + 2 ^ 32) :
    sizeBetween head tail = tail - head := by
  unfold sizeBetween
  dsimp only
  split
  · omega
  · rw [Nat.mod_eq_of_lt (by omega)]
    omega

/-- `zst_queue_slot_t`. -/
structure Slot where
  buf : Option Buffer
  sequence : ℕ
  pts : ℕ
  duration : ℕ
  deriving DecidableEq, Repr

/-- A slot whose buffer has been published at `pos`. -/
def publishedSlot (buf : Buffer) (pos : ℕ) : Slot := ⟨some buf, pos + 1, buf.pts, buf.duration⟩

/-- The memory of a queue that all threads share without a lock. -/
structure Queue where
  cfg : QueueConfig
  ring : ℕ → Slot
  head : ℕ
  tail : ℕ
  approxBytes : ℕ

namespace Queue

/-- `zst_queue_create`. -/
def create (cfg : QueueConfig) : Queue where
  cfg := cfg
  ring i := ⟨none, i, 0, 0⟩
  head := 0
  tail := 0
  approxBytes := 0

variable (q : Queue)

/-- `&q->ring[RING_MASK(q, pos)]`, read. -/
def slot (pos : ℕ) : Slot := q.ring (q.cfg.ringMask pos)

/-- `&q->ring[RING_MASK(q, pos)]`, written. -/
def setSlot (pos : ℕ) (f : Slot → Slot) : Queue :=
  { q with ring := Function.update q.ring (q.cfg.ringMask pos) (f (q.slot pos)) }

@[simp] theorem setSlot_cfg (pos : ℕ) (f : Slot → Slot) : (q.setSlot pos f).cfg = q.cfg := rfl

@[simp] theorem setSlot_head (pos : ℕ) (f : Slot → Slot) : (q.setSlot pos f).head = q.head := rfl

@[simp] theorem setSlot_tail (pos : ℕ) (f : Slot → Slot) : (q.setSlot pos f).tail = q.tail := rfl

@[simp] theorem setSlot_approxBytes (pos : ℕ) (f : Slot → Slot) :
    (q.setSlot pos f).approxBytes = q.approxBytes := rfl

@[simp] theorem slot_setSlot_self (pos : ℕ) (f : Slot → Slot) :
    (q.setSlot pos f).slot pos = f (q.slot pos) := by
  simp only [slot, setSlot, Function.update_self]

end Queue

/-! ## The capacity is a power of two -/

/-- In 32 bits, rounding up gives a power of two that is at least two. -/
theorem nextPowerOfTwo_eq (v : ℕ) : ∃ k, 1 ≤ k ∧ k ≤ 31 ∧ nextPowerOfTwo v = 2 ^ k := by
  unfold nextPowerOfTwo
  generalize hx : (v + 2 ^ 32 - 1) % 2 ^ 32 = x
  have hlt : x < 2 ^ 32 := hx ▸ Nat.mod_lt _ (by decide)
  -- Five doublings smear the highest of 32 bits over all the bits below it.
  have hsmeared := (Smeared.self x).double.double.double.double.double
  have hones := hsmeared.eq_two_pow_sub_one hlt
  simp only [Nat.reduceAdd] at hones
  dsimp only
  rw [hones, Nat.sub_add_cancel Nat.one_le_two_pow]
  have hsize : x.size ≤ 32 := Nat.size_le.mpr hlt
  rcases Nat.lt_or_ge x.size 32 with hsmall | hfull
  · rw [Nat.mod_eq_of_lt (Nat.pow_lt_pow_right (by decide) hsmall)]
    split
    · exact ⟨1, by decide, by decide, rfl⟩
    case isFalse hge =>
      refine ⟨x.size, ?_, by omega, rfl⟩
      by_contra hzero
      obtain hzero : x.size = 0 := by omega
      rw [hzero] at hge
      exact hge (by decide)
  · obtain hfull : x.size = 32 := by omega
    rw [hfull]
    exact ⟨1, by decide, by decide, rfl⟩

/-- Up to 2^31 nothing overflows and the power is not below the argument. -/
theorem le_nextPowerOfTwo {v : ℕ} (hpos : 0 < v) (hle : v ≤ 2 ^ 31) : v ≤ nextPowerOfTwo v := by
  unfold nextPowerOfTwo
  have hx : (v + 2 ^ 32 - 1) % 2 ^ 32 = v - 1 := by omega
  rw [hx]
  have hlt : v - 1 < 2 ^ 32 := by omega
  have hsmeared := (Smeared.self (v - 1)).double.double.double.double.double
  have hones := hsmeared.eq_two_pow_sub_one hlt
  simp only [Nat.reduceAdd] at hones
  dsimp only
  have hsize : (v - 1).size ≤ 31 := Nat.size_le.mpr (by omega)
  have hself := Nat.lt_size_self (v - 1)
  rw [hones, Nat.sub_add_cancel Nat.one_le_two_pow,
    Nat.mod_eq_of_lt (Nat.pow_lt_pow_right (by decide) (by omega))]
  split
  · omega
  · omega

namespace QueueConfig

variable (cfg : QueueConfig)

theorem capacity_eq_two_pow : ∃ k, 1 ≤ k ∧ k ≤ 31 ∧ cfg.capacity = 2 ^ k :=
  nextPowerOfTwo_eq cfg.limit

theorem capacity_pos : 0 < cfg.capacity := by
  obtain ⟨k, -, -, hk⟩ := cfg.capacity_eq_two_pow
  rw [hk]
  exact Nat.two_pow_pos k

theorem two_le_capacity : 2 ≤ cfg.capacity := by
  obtain ⟨k, hone, -, hk⟩ := cfg.capacity_eq_two_pow
  rw [hk]
  calc 2 = 2 ^ 1 := rfl
    _ ≤ 2 ^ k := Nat.pow_le_pow_right (by decide) hone

theorem capacity_le : cfg.capacity ≤ 2 ^ 31 := by
  obtain ⟨k, -, hle, hk⟩ := cfg.capacity_eq_two_pow
  rw [hk]
  exact Nat.pow_le_pow_right (by decide) hle

theorem limit_pos : 0 < cfg.limit := by
  unfold limit
  split <;> omega

variable {cfg} in
theorem limit_le_capacity (hle : cfg.maxBuffers ≤ 2 ^ 31) : cfg.limit ≤ cfg.capacity := by
  refine le_nextPowerOfTwo cfg.limit_pos ?_
  unfold limit
  split <;> omega

theorem ringMask_eq_mod (pos : ℕ) : cfg.ringMask pos = pos % cfg.capacity := by
  obtain ⟨k, -, -, hk⟩ := cfg.capacity_eq_two_pow
  rw [ringMask, hk, Nat.and_two_pow_sub_one_eq_mod]

end QueueConfig

/-! ## Windows of the ring -/

namespace Queue

variable {q : Queue}

theorem slot_setSlot_of_ne {pos other : ℕ} (f : Slot → Slot)
    (hne : other % q.cfg.capacity ≠ pos % q.cfg.capacity) :
    (q.setSlot pos f).slot other = q.slot other := by
  have hmask : q.cfg.ringMask other ≠ q.cfg.ringMask pos := by
    rwa [q.cfg.ringMask_eq_mod, q.cfg.ringMask_eq_mod]
  simp only [slot, setSlot, Function.update_of_ne hmask]

/-- One turn of the ring later the slot is the same. -/
theorem slot_add_capacity (pos : ℕ) : q.slot (pos + q.cfg.capacity) = q.slot pos := by
  rw [slot, slot, q.cfg.ringMask_eq_mod, q.cfg.ringMask_eq_mod, Nat.add_mod_right]

end Queue

end Zstreamer

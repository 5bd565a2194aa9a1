/-
# For one thread the queue is a bounded list

The abstract machine here is a list of buffers with the limits of the configuration
as a condition on appending.  `queue_refines_list` says that the ring, its mask, the
sequence numbers, the rounding of the capacity and the scans for the duration answer
every call as the list does, at every position of the counters.

The relation between the two is a window of the ring: the positions from head to tail
hold the list, published, and the rest of the turn is free.
-/

import Zstreamer.Queue.Sequential

namespace Zstreamer

open Foundation

/-! ## The list -/

/-- The span of the time stamps when they are usable, else the sum of the durations. -/
def listDuration (l : List Buffer) : ℕ :=
  match l.head?, l.getLast? with
  | some first, some last =>
      if last.pts ≥ first.pts ∧ first.pts ≠ 0 then last.pts - first.pts
      else (l.map Buffer.duration).sum
  | _, _ => (l.map Buffer.duration).sum

/-- A further buffer is within the limits. -/
def QueueConfig.Accepts (cfg : QueueConfig) (l : List Buffer) : Prop :=
  l.length < cfg.limit ∧
    (cfg.maxBytes = 0 ∨ (l.map Buffer.size).sum < cfg.maxBytes) ∧
    (cfg.maxDuration = 0 ∨ listDuration l < cfg.maxDuration)

instance (cfg : QueueConfig) (l : List Buffer) : Decidable (cfg.Accepts l) :=
  inferInstanceAs (Decidable (_ ∧ _ ∧ _))

/-- The bounded list that the queue stands for. -/
def listMachine (cfg : QueueConfig) : Machine (List Buffer) QueueOp QueueAnswer where
  step l op :=
    match op with
    | .push buf _ =>
        if cfg.Accepts l then some (.pushed .ok, l ++ [buf])
        else some (.pushed cfg.refusal, l)
    | .pop _ =>
        match l with
        | [] => some (.popped .timeout none, [])
        | buf :: rest => some (.popped .ok (some buf), rest)
    | .size => some (.sized l.length, l)
    | .flush _ => some (.flushed, [])

/-- The sums of the sizes and of the durations stay below 2^64. -/
def SumsFit (l : List Buffer) : Prop :=
  (l.map Buffer.size).sum < 2 ^ 64 ∧ (l.map Buffer.duration).sum < 2 ^ 64

/-- What the client promises: a pushed buffer keeps the sums in range. -/
def FitsAfter (l : List Buffer) : QueueOp → Prop
  | .push buf _ => SumsFit (l ++ [buf])
  | _ => True

/-! ## The window of the ring -/

/-- The queue holds the list `l`. -/
structure Represents (cfg : QueueConfig) (l : List Buffer) (q : Queue) : Prop where
  cfg_eq : q.cfg = cfg
  tail : q.tail = q.head + l.length
  length_le : l.length ≤ cfg.capacity
  published : ∀ i buf, l[i]? = some buf → q.slot (q.head + i) = publishedSlot buf (q.head + i)
  free : ∀ i, l.length ≤ i → i < cfg.capacity → (q.slot (q.head + i)).sequence = q.head + i
  fits : SumsFit l
  bytes : q.approxBytes = (l.map Buffer.size).sum

variable {cfg : QueueConfig} {l : List Buffer} {q : Queue}

theorem Represents.create (cfg : QueueConfig) : Represents cfg [] (Queue.create cfg) := by
  refine ⟨rfl, rfl, Nat.zero_le _, by simp, fun i _ hi => ?_, by simp [SumsFit], rfl⟩
  have hi' : i % (Queue.create cfg).cfg.capacity = i := Nat.mod_eq_of_lt hi
  rw [Queue.slot, QueueConfig.ringMask_eq_mod]
  simp only [Queue.create, Nat.zero_add] at hi' ⊢
  exact hi'

theorem Represents.size (hrep : Represents cfg l q) : q.size = l.length := by
  have hle := hrep.length_le
  have hcap := cfg.capacity_le
  have htail := hrep.tail
  rw [Queue.size, sizeBetween_eq (by omega)]
  omega

/-! ### The duration -/

theorem Represents.sumDurations (hrep : Represents cfg l q) :
    q.sumDurations q.head q.tail = (l.map Buffer.duration).sum := by
  have htail : q.tail - q.head = l.length := by
    rw [hrep.tail]
    omega
  have hfits := hrep.fits.2
  -- The fold over the first `k` positions adds up the first `k` buffers.
  have hpartial : ∀ k ≤ l.length, (List.range' q.head k).foldl (fun sum i =>
      if (q.slot i).sequence = i + 1 then (sum + (q.slot i).duration) % 2 ^ 64 else sum) 0 =
        ((l.take k).map Buffer.duration).sum := by
    intro k
    induction k with
    | zero => simp
    | succ k ih =>
        intro hk
        have hget : l[k]? = some (l[k]) := List.getElem?_eq_getElem hk
        have hslot := hrep.published k l[k] hget
        have htake : ((l.take (k + 1)).map Buffer.duration).sum =
            ((l.take k).map Buffer.duration).sum + l[k].duration := by
          rw [List.take_add_one, hget, List.map_append, List.sum_append]
          simp
        have hsplit : ((l.take (k + 1)).map Buffer.duration).sum +
            ((l.drop (k + 1)).map Buffer.duration).sum = (l.map Buffer.duration).sum := by
          rw [← List.sum_append, ← List.map_append, List.take_append_drop]
        rw [List.range'_concat, List.foldl_append, ih (by omega), htake]
        simp only [Nat.one_mul, List.foldl_cons, List.foldl_nil, hslot, publishedSlot,
          if_true]
        exact Nat.mod_eq_of_lt (by omega)
  rw [Queue.sumDurations, htail, hpartial l.length le_rfl, List.take_length]

theorem Represents.getDuration (hrep : Represents cfg l q) :
    q.getDuration = listDuration l := by
  have htail := hrep.tail
  have hsum := hrep.sumDurations
  rw [Queue.getDuration]
  cases l with
  | nil =>
      have hempty : q.tail ≤ q.head := by simp [htail]
      simp [hempty, listDuration]
  | cons first rest =>
      have hlen : q.tail = q.head + (rest.length + 1) := htail
      have hhead := hrep.published 0 first rfl
      obtain ⟨last, hlast⟩ : ∃ last, (first :: rest)[rest.length]? = some last :=
        ⟨_, List.getElem?_eq_getElem (by simp)⟩
      have hgetLast : (first :: rest).getLast? = some last := by
        rw [List.getLast?_eq_getElem?]
        simpa using hlast
      have hend := hrep.published rest.length last hlast
      have hscan : q.scanHead q.tail (q.tail - q.head) q.head = (q.head, some first.pts) := by
        rw [show q.tail - q.head = rest.length + 1 by omega, Queue.scanHead,
          if_pos (by omega), if_pos (by simpa [publishedSlot] using congrArg Slot.sequence hhead)]
        simpa [publishedSlot] using congrArg Slot.pts hhead
      have hscan' : q.scanTail q.head q.head (q.tail - q.head) (q.tail - 1) = some last.pts := by
        rw [show q.tail - q.head = rest.length + 1 by omega,
          show q.tail - 1 = q.head + rest.length by omega, Queue.scanTail, if_pos (by omega),
          if_pos (by simpa [publishedSlot] using congrArg Slot.sequence hend)]
        simpa [publishedSlot] using congrArg Slot.pts hend
      rw [if_neg (by omega)]
      simp only [hscan, hscan', hsum, listDuration, List.head?_cons, hgetLast]

/-! ### Room for one more -/

/-- The slot at the tail is free while the ring has room, and a turn behind when it
has none. -/
theorem Represents.tail_sequence (hrep : Represents cfg l q) :
    (q.slot q.tail).sequence = if l.length < cfg.capacity then q.tail else q.head + 1 := by
  have htail := hrep.tail
  split
  case isTrue hroom =>
    have hfree := hrep.free l.length le_rfl hroom
    rw [htail]
    exact hfree
  case isFalse hfull =>
    have hlen : l.length = cfg.capacity := le_antisymm hrep.length_le (not_lt.mp hfull)
    have hpos := cfg.capacity_pos
    obtain ⟨first, hfirst⟩ : ∃ first, l[0]? = some first :=
      ⟨_, List.getElem?_eq_getElem (by omega)⟩
    rw [htail, hlen, ← hrep.cfg_eq, Queue.slot_add_capacity]
    simpa [publishedSlot] using congrArg Slot.sequence (hrep.published 0 first hfirst)

theorem Represents.isFull_iff (hrep : Represents cfg l q) :
    q.isFull = true ↔ (cfg.maxBuffers > 0 ∧ l.length ≥ cfg.maxBuffers) ∨
      (cfg.maxBytes > 0 ∧ (l.map Buffer.size).sum ≥ cfg.maxBytes) ∨
      (cfg.maxDuration > 0 ∧ listDuration l ≥ cfg.maxDuration) := by
  rw [Queue.isFull, hrep.size, hrep.bytes, hrep.getDuration, hrep.cfg_eq]
  split
  · simp_all
  · split
    · simp_all
    · split <;> simp_all

/-- The free slot and the extra check together are the limits of the list. -/
theorem Represents.room_iff (hrep : Represents cfg l q) (hcfg : cfg.maxBuffers ≤ 2 ^ 31) :
    (l.length < cfg.capacity ∧ ¬ (q.cfg.hasExtraLimits && q.isFull) = true) ↔ cfg.Accepts l := by
  have hlimit := QueueConfig.limit_le_capacity hcfg
  have hfull := hrep.isFull_iff
  have hextra : cfg.hasExtraLimits = true ↔ cfg.maxBytes > 0 ∨ cfg.maxDuration > 0 ∨
      (cfg.maxBuffers > 0 ∧ cfg.maxBuffers < cfg.capacity) := by
    simp [QueueConfig.hasExtraLimits, or_assoc]
  have hsixteen : cfg.maxBuffers = 0 → cfg.capacity = 16 := by
    intro hzero
    rw [QueueConfig.capacity, QueueConfig.limit, hzero]
    decide
  rw [hrep.cfg_eq, Bool.and_eq_true, hextra, hfull, QueueConfig.Accepts]
  rw [QueueConfig.limit] at hlimit ⊢
  split at hlimit <;> split <;> omega

/-! ## Each call -/

theorem fillSlot_slot_self (pos : ℕ) (buf : Buffer) :
    (q.fillSlot pos buf).slot pos = publishedSlot buf pos := by
  simp [Queue.fillSlot, Queue.slot, Queue.setSlot, publishedSlot]

theorem fillSlot_slot_window (low : ℕ) {pos other : ℕ} (buf : Buffer) (hpos : low ≤ pos)
    (hpos' : pos < low + q.cfg.capacity) (hother : low ≤ other)
    (hother' : other < low + q.cfg.capacity) (hne : other ≠ pos) :
    (q.fillSlot pos buf).slot other = q.slot other := by
  have hmask : q.cfg.ringMask other ≠ q.cfg.ringMask pos := by
    rw [q.cfg.ringMask_eq_mod, q.cfg.ringMask_eq_mod]
    exact fun heq => hne (eq_of_mod_eq hother hother' hpos hpos' heq)
  simp [Queue.fillSlot, Queue.slot, Queue.setSlot, hmask]

theorem Represents.fill (hrep : Represents cfg l q) {buf : Buffer}
    (hroom : l.length < cfg.capacity) (hfits : SumsFit (l ++ [buf])) :
    Represents cfg (l ++ [buf]) ({ q with tail := q.tail + 1 }.fillSlot q.tail buf) := by
  have htail := hrep.tail
  have hcap : q.cfg.capacity = cfg.capacity := by rw [hrep.cfg_eq]
  have hother : ∀ i, i < cfg.capacity → i ≠ l.length →
      ({ q with tail := q.tail + 1 }.fillSlot q.tail buf).slot (q.head + i) =
        q.slot (q.head + i) := by
    intro i hi hne
    exact fillSlot_slot_window (q := { q with tail := q.tail + 1 }) q.head buf (by omega)
      (by show q.tail < q.head + q.cfg.capacity; omega) (by omega)
      (by show q.head + i < q.head + q.cfg.capacity; omega) (by omega)
  have hself : ({ q with tail := q.tail + 1 }.fillSlot q.tail buf).slot (q.head + l.length) =
      publishedSlot buf (q.head + l.length) := by
    rw [← htail]
    exact fillSlot_slot_self q.tail buf
  refine ⟨hrep.cfg_eq, ?_, by simp; omega, fun i b hget => ?_, fun i hle hi => ?_, hfits, ?_⟩
  · show q.tail + 1 = q.head + (l ++ [buf]).length
    rw [htail, List.length_append]
    rfl
  · show ({ q with tail := q.tail + 1 }.fillSlot q.tail buf).slot (q.head + i) = _
    have hi : i < (l ++ [buf]).length := (List.getElem?_eq_some_iff.mp hget).1
    rcases Nat.lt_or_ge i l.length with hlt | hge
    · rw [List.getElem?_append_left hlt] at hget
      rw [hother i (by omega) (by omega)]
      exact hrep.published i b hget
    · obtain rfl : i = l.length := by simp at hi; omega
      obtain rfl : buf = b := by simpa using hget
      exact hself
  · show (({ q with tail := q.tail + 1 }.fillSlot q.tail buf).slot (q.head + i)).sequence = _
    have hle' : l.length + 1 ≤ i := by simpa using hle
    rw [hother i hi (by omega)]
    exact hrep.free i (by omega) hi
  · show (q.approxBytes + buf.size) % 2 ^ 64 = _
    have hsum : ((l ++ [buf]).map Buffer.size).sum = (l.map Buffer.size).sum + buf.size := by simp
    have hlt := hfits.1
    rw [hrep.bytes, ← hsum]
    exact Nat.mod_eq_of_lt hlt

theorem Represents.pushLoop_refused (hrep : Represents cfg l q) (hcfg : cfg.maxBuffers ≤ 2 ^ 31)
    (hrefused : ¬ cfg.Accepts l) (buf : Buffer) (spurious : ℕ) :
    q.pushLoop buf spurious q.tail = some (q.cfg.refusal, q) := by
  have hroom := hrep.room_iff hcfg
  have hcap := cfg.two_le_capacity
  have htail := hrep.tail
  rw [Queue.pushLoop.eq_def]
  dsimp only
  rw [hrep.tail_sequence]
  by_cases hlen : l.length < cfg.capacity
  · have hfull := not_not.mp fun h => hrefused (hroom.mp ⟨hlen, h⟩)
    simp only [hlen, if_true, sub_self]
    rw [if_pos hfull]
  · rw [if_neg hlen, if_neg (by omega), if_pos (by omega)]

theorem Represents.pushLoop_accepted (hrep : Represents cfg l q)
    (hcfg : cfg.maxBuffers ≤ 2 ^ 31) (haccepts : cfg.Accepts l) (buf : Buffer) (spurious : ℕ) :
    q.pushLoop buf spurious q.tail =
      some (.ok, { q with tail := q.tail + 1 }.fillSlot q.tail buf) := by
  obtain ⟨hlen, hroom⟩ := (hrep.room_iff hcfg).mpr haccepts
  induction spurious with
  | zero =>
      rw [Queue.pushLoop, hrep.tail_sequence]
      simp only [hlen, if_true, sub_self]
      rw [if_neg hroom]
  | succ spurious ih =>
      rw [Queue.pushLoop, hrep.tail_sequence]
      simp only [hlen, if_true, sub_self]
      rw [if_neg hroom]
      exact ih

/-- An empty list means an unpublished slot at the head. -/
theorem Represents.head_sequence (hrep : Represents cfg [] q) :
    (q.slot q.head).sequence = q.head := by
  have hfree := hrep.free 0 (by simp) cfg.capacity_pos
  simpa using hfree

theorem Represents.popLoop_empty (hrep : Represents cfg [] q) (spurious : ℕ) :
    q.popLoop spurious q.head = some ((.timeout, none), q) := by
  rw [Queue.popLoop.eq_def]
  dsimp only
  rw [hrep.head_sequence, if_neg (by omega), if_pos (by omega)]

theorem Represents.popLoop_cons {buf : Buffer} {rest : List Buffer}
    (hrep : Represents cfg (buf :: rest) q) (spurious : ℕ) :
    q.popLoop spurious q.head =
      some ((.ok, ({ q with head := q.head + 1 }.emptySlot q.head).1),
        ({ q with head := q.head + 1 }.emptySlot q.head).2) := by
  have hseq : (q.slot q.head).sequence = q.head + 1 := by
    simpa [publishedSlot] using congrArg Slot.sequence (hrep.published 0 buf rfl)
  induction spurious with
  | zero =>
      rw [Queue.popLoop, hseq]
      simp
  | succ spurious ih =>
      rw [Queue.popLoop, hseq]
      simpa using ih

/-- Emptying a slot: what it held, and what is left of the queue. -/
theorem emptySlot_spec {pos : ℕ} {buf : Buffer} (hbuf : (q.slot pos).buf = some buf) :
    ∃ q', q.emptySlot pos = (some buf, q') ∧ q'.cfg = q.cfg ∧ q'.head = q.head ∧
      q'.tail = q.tail ∧ q'.approxBytes = wrapSub q.approxBytes buf.size ∧
      (q'.slot pos).sequence = pos + q.cfg.capacity ∧
      ∀ other, other % q.cfg.capacity ≠ pos % q.cfg.capacity → q'.slot other = q.slot other := by
  refine ⟨(q.emptySlot pos).2, ?_⟩
  simp only [Queue.emptySlot, hbuf, Queue.setSlot_cfg, Queue.setSlot_head, Queue.setSlot_tail,
    Queue.setSlot_approxBytes, Queue.slot_setSlot_self, true_and]
  intro other hne
  have hmask : q.cfg.ringMask other ≠ q.cfg.ringMask pos := by
    rwa [q.cfg.ringMask_eq_mod, q.cfg.ringMask_eq_mod]
  simp [Queue.slot, Queue.setSlot, hmask]

theorem Represents.empty {buf : Buffer} {rest : List Buffer}
    (hrep : Represents cfg (buf :: rest) q) :
    ({ q with head := q.head + 1 }.emptySlot q.head).1 = some buf ∧
      Represents cfg rest ({ q with head := q.head + 1 }.emptySlot q.head).2 ∧
      ({ q with head := q.head + 1 }.emptySlot q.head).2.tail = q.tail := by
  have hslot : q.slot q.head = publishedSlot buf q.head := by
    simpa using hrep.published 0 buf rfl
  have hbuf : (({ q with head := q.head + 1 } : Queue).slot q.head).buf = some buf := by
    show (q.slot q.head).buf = some buf
    rw [hslot]
    rfl
  have hcap : q.cfg.capacity = cfg.capacity := by rw [hrep.cfg_eq]
  have hlen : rest.length + 1 ≤ cfg.capacity := hrep.length_le
  obtain ⟨q', hout, hcfg', hhead', htail', hbytes', hfreed, hother⟩ := emptySlot_spec hbuf
  rw [hout]
  refine ⟨rfl, ⟨hcfg'.trans hrep.cfg_eq, ?_, by show rest.length ≤ _; omega, fun i b hget => ?_,
    fun i hle hi => ?_, ?_, ?_⟩, htail'⟩
  · have := hrep.tail
    rw [List.length_cons] at this
    simp only [htail', hhead']
    omega
  · have hget' : (buf :: rest)[i + 1]? = some b := by simpa using hget
    have hi : i + 1 < (buf :: rest).length := (List.getElem?_eq_some_iff.mp hget').1
    have hold := hrep.published (i + 1) b hget'
    have hpos : q.head + 1 + i = q.head + (i + 1) := by omega
    rw [List.length_cons] at hi
    simp only [hhead']
    rw [hpos, hother _ (Ne.symm (mod_ne_of_window (by omega) (by simp only; omega)))]
    exact hold
  · simp only [hhead']
    rcases Nat.lt_or_ge (i + 1) cfg.capacity with hlt | hge
    · have hold := hrep.free (i + 1) (by simpa using hle) hlt
      have hpos : q.head + 1 + i = q.head + (i + 1) := by omega
      rw [hpos, hother _ (Ne.symm (mod_ne_of_window (by omega) (by simp only; omega)))]
      exact hold
    · -- The slot just emptied, one turn later.
      have hpos : q.head + 1 + i = q.head + q'.cfg.capacity := by rw [hcfg', hcap]; omega
      rw [hpos, Queue.slot_add_capacity, hfreed, hcfg']
  · have hfits := hrep.fits
    simp only [SumsFit, List.map_cons, List.sum_cons] at hfits ⊢
    exact ⟨by omega, by omega⟩
  · have hfits := hrep.fits.1
    have hbytes := hrep.bytes
    simp only [List.map_cons, List.sum_cons] at hfits hbytes
    simp only [hbytes', hbytes]
    rw [wrapSub_eq (by omega) hfits]
    omega

/-- The flush pops until the list is empty. -/
theorem Represents.flushLoop (hrep : Represents cfg l q) (spurious : ℕ → ℕ) {fuel : ℕ}
    (hfuel : l.length < fuel) (round : ℕ) :
    ∃ q', Queue.flushLoop spurious fuel round q = some q' ∧ Represents cfg [] q' ∧
      q'.tail = q.tail := by
  induction l generalizing q fuel round with
  | nil =>
      obtain ⟨fuel, rfl⟩ : ∃ n, fuel = n + 1 := ⟨fuel - 1, by simp at hfuel; omega⟩
      refine ⟨q, ?_, hrep, rfl⟩
      rw [Queue.flushLoop, Queue.pop, hrep.popLoop_empty]
  | cons buf rest ih =>
      obtain ⟨fuel, rfl⟩ : ∃ n, fuel = n + 1 := ⟨fuel - 1, by omega⟩
      obtain ⟨-, hrest, hsame⟩ := hrep.empty
      obtain ⟨q', hflush, hempty, htail⟩ := ih hrest (by simp at hfuel; omega) (round + 1)
      refine ⟨q', ?_, hempty, htail.trans hsame⟩
      rw [Queue.flushLoop, Queue.pop, hrep.popLoop_cons]
      exact hflush

/-! ## Runs of calls -/

theorem queue_simulates (hcfg : cfg.maxBuffers ≤ 2 ^ 31) :
    Machine.Simulates queueMachine (listMachine cfg) FitsAfter (Represents cfg) := by
  refine ⟨fun l q op answer l' hrep hfits hstep => ?_⟩
  cases op with
  | push buf spurious =>
      by_cases haccepts : cfg.Accepts l
      · obtain ⟨rfl, rfl⟩ : .pushed .ok = answer ∧ l ++ [buf] = l' := by
          simpa [listMachine, haccepts] using hstep
        have hloop := hrep.pushLoop_accepted hcfg haccepts buf spurious
        refine ⟨_, ?_, hrep.fill ((hrep.room_iff hcfg).mpr haccepts).1 hfits⟩
        simp only [queueMachine, Queue.push, hloop, Option.map_some]
      · obtain ⟨rfl, rfl⟩ : .pushed cfg.refusal = answer ∧ l = l' := by
          simpa [listMachine, haccepts] using hstep
        have hloop := hrep.pushLoop_refused hcfg haccepts buf spurious
        refine ⟨q, ?_, hrep⟩
        simp only [queueMachine, Queue.push, hloop, Option.map_some, hrep.cfg_eq]
  | pop spurious =>
      cases l with
      | nil =>
          obtain ⟨rfl, rfl⟩ : .popped .timeout none = answer ∧ [] = l' := by
            simpa [listMachine] using hstep
          refine ⟨q, ?_, hrep⟩
          simp only [queueMachine, Queue.pop, hrep.popLoop_empty, Option.map_some]
      | cons buf rest =>
          obtain ⟨rfl, rfl⟩ : .popped .ok (some buf) = answer ∧ rest = l' := by
            simpa [listMachine] using hstep
          obtain ⟨hbuf, hrest, -⟩ := hrep.empty
          refine ⟨_, ?_, hrest⟩
          simp only [queueMachine, Queue.pop, hrep.popLoop_cons, Option.map_some, hbuf]
  | size =>
      obtain ⟨rfl, rfl⟩ : .sized l.length = answer ∧ l = l' := by
        simpa [listMachine] using hstep
      exact ⟨q, by simp only [queueMachine, hrep.size], hrep⟩
  | flush spurious =>
      obtain ⟨rfl, rfl⟩ : .flushed = answer ∧ [] = l' := by
        simpa [listMachine] using hstep
      have hfuel : l.length < q.tail - q.head + 1 := by
        have := hrep.tail
        omega
      obtain ⟨q', hflush, hempty, -⟩ := hrep.flushLoop spurious hfuel 0
      refine ⟨q', ?_, hempty⟩
      simp only [queueMachine, Queue.flush, hflush, Option.map_some]

/-! ### The counters stay small

A counter grows by at most one with each call, so below 2^63 calls the 64-bit counters
of the source are the natural numbers of the model. -/

theorem pushLoop_tail_le {buf : Buffer} {spurious pos : ℕ} {r : Result} {q' : Queue}
    (hpush : q.pushLoop buf spurious pos = some (r, q')) : q'.tail ≤ q.tail + 1 := by
  have hfill : ∀ pos, (({ q with tail := pos + 1 } : Queue).fillSlot pos buf).tail = pos + 1 :=
    fun _ => rfl
  induction spurious generalizing pos with
  | zero =>
      rw [Queue.pushLoop] at hpush
      grind
  | succ spurious ih =>
      rw [Queue.pushLoop] at hpush
      grind

theorem popLoop_tail {spurious pos : ℕ} {answer : Result × Option Buffer} {q' : Queue}
    (hpop : q.popLoop spurious pos = some (answer, q')) : q'.tail = q.tail := by
  have hempty : ∀ pos, (({ q with head := pos + 1 } : Queue).emptySlot pos).2.tail = q.tail := by
    intro pos
    unfold Queue.emptySlot
    dsimp only
    split <;> rfl
  induction spurious generalizing pos with
  | zero =>
      rw [Queue.popLoop] at hpop
      grind
  | succ spurious ih =>
      rw [Queue.popLoop] at hpop
      grind

theorem flushLoop_tail {spurious : ℕ → ℕ} {fuel round : ℕ} {q' : Queue}
    (hflush : Queue.flushLoop spurious fuel round q = some q') : q'.tail = q.tail := by
  induction fuel generalizing q round with
  | zero => cases hflush
  | succ fuel ih =>
      rw [Queue.flushLoop] at hflush
      cases hpop : q.pop (spurious round) with
      | none => simp [hpop] at hflush
      | some out =>
          obtain ⟨⟨r, buf⟩, q₁⟩ := out
          have htail := popLoop_tail hpop
          cases r <;> simp only [hpop, Option.some.injEq] at hflush
          case ok => rw [ih hflush, htail]
          all_goals rw [← hflush, htail]

theorem queueMachine_tail_le {ops : List QueueOp} {answers : List QueueAnswer} {q' : Queue}
    (hrun : queueMachine.run q ops = some (answers, q')) : q'.tail ≤ q.tail + ops.length := by
  induction ops generalizing q answers with
  | nil =>
      obtain ⟨-, rfl⟩ : [] = answers ∧ q = q' := by simpa [Machine.run] using hrun
      omega
  | cons op ops ih =>
      rw [Machine.run] at hrun
      cases hstep : queueMachine.step q op with
      | none => simp [hstep] at hrun
      | some out =>
          obtain ⟨answer, mid⟩ := out
          have hone : mid.tail ≤ q.tail + 1 := by
            cases op with
            | push buf spurious =>
                obtain ⟨⟨r, q₁⟩, hpush, heq⟩ := Option.map_eq_some_iff.mp hstep
                obtain rfl : q₁ = mid := congrArg Prod.snd heq
                exact pushLoop_tail_le hpush
            | pop spurious =>
                obtain ⟨⟨r, q₁⟩, hpop, heq⟩ := Option.map_eq_some_iff.mp hstep
                obtain rfl : q₁ = mid := congrArg Prod.snd heq
                rw [popLoop_tail hpop]
                omega
            | size =>
                obtain rfl : q = mid := congrArg Prod.snd (Option.some.inj hstep)
                omega
            | flush spurious =>
                obtain ⟨q₁, hflush, heq⟩ := Option.map_eq_some_iff.mp hstep
                obtain rfl : q₁ = mid := congrArg Prod.snd heq
                rw [flushLoop_tail hflush]
                omega
          simp only [hstep] at hrun
          cases hrest : queueMachine.run mid ops with
          | none => simp [hrest] at hrun
          | some out =>
              obtain ⟨rest, last⟩ := out
              simp only [hrest, Option.some.injEq, Prod.mk.injEq] at hrun
              obtain ⟨-, rfl⟩ := hrun
              have hlater := ih hrest
              rw [List.length_cons]
              omega

/-- The list always answers. -/
theorem listMachine_run (cfg : QueueConfig) (l : List Buffer) (ops : List QueueOp) :
    ∃ answers l', (listMachine cfg).run l ops = some (answers, l') := by
  induction ops generalizing l with
  | nil => exact ⟨[], l, rfl⟩
  | cons op ops ih =>
      obtain ⟨answer, mid, hstep⟩ : ∃ answer mid, (listMachine cfg).step l op = some (answer, mid) := by
        cases op with
        | push buf spurious =>
            by_cases haccepts : cfg.Accepts l
            · exact ⟨_, _, if_pos haccepts⟩
            · exact ⟨_, _, if_neg haccepts⟩
        | pop spurious =>
            cases l with
            | nil => exact ⟨_, _, rfl⟩
            | cons buf rest => exact ⟨_, _, rfl⟩
        | size => exact ⟨_, _, rfl⟩
        | flush spurious => exact ⟨_, _, rfl⟩
      obtain ⟨answers, l', hrun⟩ := ih mid
      exact ⟨answer :: answers, l', by simp only [Machine.run, hstep, hrun]⟩

/-- **The queue is a bounded list.**  Every list of calls by one thread returns, with
the answers the bounded list gives, whatever compare-and-swaps fail spuriously on the
way.  Afterwards the size is the length of the list and the byte count the sum of its
sizes, no counter exceeds the number of calls, and a push the list does not accept
would leave the whole memory as it is. -/
theorem queue_refines_list (cfg : QueueConfig) (hcfg : cfg.maxBuffers ≤ 2 ^ 31)
    (ops : List QueueOp) (hfits : (listMachine cfg).Respects FitsAfter [] ops) :
    ∃ answers l q, (listMachine cfg).run [] ops = some (answers, l) ∧
      queueMachine.run (Queue.create cfg) ops = some (answers, q) ∧
      q.size = l.length ∧ q.approxBytes = (l.map Buffer.size).sum ∧
      q.head ≤ q.tail ∧ q.tail ≤ ops.length ∧
      ∀ buf spurious, ¬ cfg.Accepts l →
        q.push buf spurious = some (cfg.refusal, q) := by
  obtain ⟨answers, l, hlist⟩ := listMachine_run cfg [] ops
  obtain ⟨q, hqueue, hrep⟩ :=
    (queue_simulates hcfg).run (Represents.create cfg) hfits hlist
  have hle : q.tail ≤ 0 + ops.length := queueMachine_tail_le hqueue
  have htail := hrep.tail
  refine ⟨answers, l, q, hlist, hqueue, hrep.size, hrep.bytes, by omega, by omega,
    fun buf spurious hrefused => ?_⟩
  rw [← hrep.cfg_eq]
  exact hrep.pushLoop_refused hcfg hrefused buf spurious

/-- Three buffers in a ring of four: the fourth push is refused by the count alone,
and the duration is that of the time stamps. -/
theorem queue_refines_list_three :
    let cfg : QueueConfig := ⟨.sync, 3, 0, 100⟩
    let ops : List QueueOp := [.push ⟨0, 10, 5, 1⟩ 2, .push ⟨1, 10, 6, 1⟩ 0, .push ⟨2, 10, 7, 1⟩ 0,
      .push ⟨3, 10, 8, 1⟩ 1, .pop 3, .size]
    ∃ q, queueMachine.run (Queue.create cfg) ops =
      some ([.pushed .ok, .pushed .ok, .pushed .ok, .pushed .timeout,
        .popped .ok (some ⟨0, 10, 5, 1⟩), .sized 2], q) ∧ q.approxBytes = 20 := by
  intro cfg ops
  have hfits : (listMachine cfg).Respects FitsAfter [] ops := by
    simp [cfg, ops, Machine.Respects, FitsAfter, SumsFit, listMachine, QueueConfig.Accepts,
      QueueConfig.limit, listDuration]
  obtain ⟨answers, l, q, hlist, hqueue, -, hbytes, -⟩ :=
    queue_refines_list cfg (by decide) ops hfits
  have hrun : (listMachine cfg).run [] ops = some ([.pushed .ok, .pushed .ok, .pushed .ok,
      .pushed .timeout, .popped .ok (some ⟨0, 10, 5, 1⟩), .sized 2],
      [⟨1, 10, 6, 1⟩, ⟨2, 10, 7, 1⟩]) := by
    decide +kernel
  rw [hrun] at hlist
  obtain ⟨rfl, rfl⟩ : _ = answers ∧ _ = l := by simpa using hlist
  exact ⟨q, hqueue, hbytes⟩

end Zstreamer


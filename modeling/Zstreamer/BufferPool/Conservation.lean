/-
# No buffer is lost, none is freed twice

Three counts have to agree: the pool's `total_allocated`, the height of its idle
stack, and the buffers that are with their users or on their way back.  They are
kept by seven operations, two of which leave the lock in the middle.  `Counted`
is what holds at every point, also inside the loops that fill and drop; it says
of every buffer ever created that it is in one place, once.  `Conserved` adds who
frees the pool object.

A release that finds no room counts its buffer off in a second section.  Until
then the buffer is still one of those out, so between the two sections the pool
cannot be freed by anyone else: `conserved` gives this for every interleaving.
-/

import Zstreamer.BufferPool.Steps

namespace Zstreamer.BufferPool

open Foundation List

/-- The buffers that are out: with a user, or with a release that has not finished. -/
def World.outstanding (w : World) : ℕ :=
  w.out.length + w.returning.length + w.returned.length

/-- The places a buffer can be in, and how often it is there. -/
def World.places (w : World) (id : ℕ) : ℕ :=
  (w.pool.idle.map Buffer.id).count id + (w.out.map Buffer.id).count id +
    (w.returning.map Buffer.id).count id + w.freed.count id

/-- The counts agree, and every buffer ever created is in one place. -/
structure Counted (w : World) : Prop where
  total : w.pool.totalAllocated.toNat = w.pool.idle.length + w.outstanding
  count_le : w.pool.idle.length ≤ w.pool.config.maxBuffers.toNat
  slots : w.pool.slots = w.pool.config.maxBuffers.toNat
  min_le : w.pool.config.minBuffers ≤ w.pool.config.maxBuffers
  placed : ∀ id, w.places id = if id < w.nextId then 1 else 0

/-- The whole invariant.  The pool object has been freed, or somebody is about to free
it, exactly when the pool is destroyed and nothing is out. -/
structure Conserved (w : World) : Prop extends Counted w where
  destroyed : w.pool.active = false → w.pool.idle = []
  freed_once : w.freeing + w.frees =
    if w.pool.active = false ∧ w.outstanding = 0 then 1 else 0

/-- What the loops leave alone. -/
structure Kept (w w' : World) : Prop where
  allocator : w'.pool.allocator = w.pool.allocator
  config : w'.pool.config = w.pool.config
  active : w'.pool.active = w.pool.active
  out : w'.out = w.out
  returning : w'.returning = w.returning
  returned : w'.returned = w.returned
  freeing : w'.freeing = w.freeing
  frees : w'.frees = w.frees

theorem Kept.refl (w : World) : Kept w w := ⟨rfl, rfl, rfl, rfl, rfl, rfl, rfl, rfl⟩

theorem Kept.trans {w w' w'' : World} (h : Kept w w') (h' : Kept w' w'') : Kept w w'' where
  allocator := h'.allocator.trans h.allocator
  config := h'.config.trans h.config
  active := h'.active.trans h.active
  out := h'.out.trans h.out
  returning := h'.returning.trans h.returning
  returned := h'.returned.trans h.returned
  freeing := h'.freeing.trans h.freeing
  frees := h'.frees.trans h.frees

/-! ## Creating and dropping one buffer -/

theorem pushNew_kept (w : World) : Kept w w.pushNew := ⟨rfl, rfl, rfl, rfl, rfl, rfl, rfl, rfl⟩

theorem dropIdle_kept (w : World) : Kept w w.dropIdle := by
  unfold World.dropIdle
  split
  · exact Kept.refl w
  · exact ⟨rfl, rfl, rfl, rfl, rfl, rfl, rfl, rfl⟩

/-- A counter below some bound can be raised. -/
theorem toNat_succ {x bound : UInt32} (hlt : x < bound) : (x + 1).toNat = x.toNat + 1 := by
  have hlt : x.toNat < bound.toNat := hlt
  have hbound := bound.toNat_lt
  rw [UInt32.toNat_add]
  exact Nat.mod_eq_of_lt (by simp only [UInt32.toNat_one]; omega)

/-- A counter above zero can be lowered. -/
theorem toNat_pred {x : UInt32} (hpos : 0 < x.toNat) : (x - 1).toNat = x.toNat - 1 := by
  apply UInt32.toNat_sub_of_le
  exact UInt32.le_iff_toNat_le.mpr hpos

/-- One more buffer has been created. -/
theorem created_succ (id n : ℕ) :
    (if id < n + 1 then 1 else 0) = (if id < n then 1 else 0) + if n = id then 1 else 0 := by
  rcases lt_trichotomy id n with hlt | rfl | hgt
  · simp [hlt, Nat.lt_succ_of_lt hlt, hlt.ne']
  · simp
  · simp [hgt.ne, Nat.not_lt_of_lt hgt, Nat.not_lt.mpr (Nat.succ_le_of_lt hgt)]

/-- Room below the maximum is room in the array and in the counter. -/
theorem pushNew_counted {w : World} (h : Counted w)
    (hroom : w.pool.totalAllocated < w.pool.config.maxBuffers) : Counted w.pushNew := by
  have hlt : w.pool.totalAllocated.toNat < w.pool.config.maxBuffers.toNat := hroom
  have htotal := h.total
  refine ⟨?_, ?_, h.slots, h.min_le, fun id => ?_⟩
  · have hsum := toNat_succ hroom
    simp only [World.pushNew, World.outstanding, length_cons] at htotal ⊢
    omega
  · simp only [World.pushNew, length_cons]
    omega
  · have hplaced := h.placed id
    change w.pushNew.places id = if id < w.nextId + 1 then 1 else 0
    rw [created_succ, ← hplaced]
    simp only [World.places, World.pushNew, Pool.createBuffer, map_cons, count_cons,
      beq_iff_eq]
    omega

theorem dropIdle_counted {w : World} (h : Counted w) : Counted w.dropIdle := by
  unfold World.dropIdle
  split
  case h_1 => exact h
  case h_2 b rest hidle =>
      have htotal := h.total
      have hcount := h.count_le
      rw [hidle, length_cons] at htotal hcount
      refine ⟨?_, ?_, h.slots, h.min_le, fun id => ?_⟩
      · have hsum := toNat_pred (x := w.pool.totalAllocated) (by omega)
        simp only [World.outstanding] at htotal ⊢
        omega
      · simp only
        omega
      · have hplaced := h.placed id
        simp only [World.places, hidle, map_cons, count_cons] at hplaced ⊢
        omega

/-! ## The loops -/

theorem dropWhile_kept (cond : World → Bool) (n : ℕ) (w : World) : Kept w (w.dropWhile cond n) := by
  induction n generalizing w with
  | zero => exact Kept.refl w
  | succ n ih =>
      simp only [World.dropWhile]
      split
      · exact (dropIdle_kept w).trans (ih _)
      · exact Kept.refl w

theorem dropWhile_counted {cond : World → Bool} {n : ℕ} {w : World} (h : Counted w) :
    Counted (w.dropWhile cond n) := by
  induction n generalizing w with
  | zero => exact h
  | succ n ih =>
      simp only [World.dropWhile]
      split
      · exact ih (dropIdle_counted h)
      · exact h

/-- Dropping without a condition empties the stack. -/
theorem dropWhile_all {n : ℕ} {w : World} (hn : n = w.pool.idle.length) :
    (w.dropWhile (fun _ => true) n).pool.idle = [] := by
  induction n generalizing w with
  | zero => exact eq_nil_of_length_eq_zero hn.symm
  | succ n ih =>
      simp only [World.dropWhile, if_true]
      apply ih
      unfold World.dropIdle
      split
      case h_1 hidle => simp [hidle] at hn
      case h_2 b rest hidle => simpa [hidle] using hn

/-- Trimming leaves no more idle buffers than the maximum allows. -/
theorem trim_length (max : UInt32) (w : World) : (w.trim max).pool.idle.length ≤ max.toNat := by
  have hloop : ∀ n (w : World), n = w.pool.idle.length →
      (w.dropWhile (fun w => w.pool.idle.length > max.toNat) n).pool.idle.length ≤ max.toNat := by
    intro n
    induction n with
    | zero =>
        intro w hn
        simp only [World.dropWhile]
        omega
    | succ n ih =>
        intro w hn
        simp only [World.dropWhile, decide_eq_true_eq]
        split
        · apply ih
          unfold World.dropIdle
          split
          case h_1 hidle => simp [hidle] at hn
          case h_2 b rest hidle => simpa [hidle] using hn
        · omega
  exact hloop _ w rfl

theorem fill_kept (alloc : ℕ → Bool) (bound : UInt32) (n : ℕ) (w : World) :
    Kept w (w.fill alloc bound n).1 := by
  induction n generalizing w with
  | zero => exact Kept.refl w
  | succ n ih =>
      simp only [World.fill]
      split
      · split
        · exact (pushNew_kept w).trans (ih _)
        · exact Kept.refl w
      · exact Kept.refl w

theorem fill_counted {alloc : ℕ → Bool} {bound : UInt32} {n : ℕ} {w : World} (h : Counted w)
    (hbound : bound ≤ w.pool.config.maxBuffers) : Counted (w.fill alloc bound n).1 := by
  induction n generalizing w with
  | zero => exact h
  | succ n ih =>
      simp only [World.fill]
      split
      case isTrue hlt =>
          split
          · exact ih (pushNew_counted h (UInt32.lt_of_lt_of_le hlt hbound)) hbound
          · exact h
      case isFalse => exact h

/-! ## The operations -/

/-- Moving an element out of a list lowers its count by one. -/
theorem count_map_erase {b : Buffer} {l : List Buffer} (hmem : b ∈ l) (id : ℕ) :
    (l.map Buffer.id).count id =
      ((l.erase b).map Buffer.id).count id + if b.id = id then 1 else 0 := by
  have hperm := ((perm_cons_erase hmem).map Buffer.id).count_eq id
  rw [hperm, map_cons, count_cons]
  simp only [beq_iff_eq]

theorem length_erase_succ {α : Type*} [DecidableEq α] {a : α} {l : List α} (hmem : a ∈ l) :
    (l.erase a).length + 1 = l.length := by
  rw [length_erase_of_mem hmem]
  exact Nat.sub_add_cancel (length_pos_of_mem hmem)

/-- While the pool is active nobody has decided to free it, and that is all there is to
show beyond the counts. -/
theorem Conserved.of_active {w : World} (h : Counted w) (hactive : w.pool.active = true)
    (hfree : w.freeing + w.frees = 0) : Conserved w where
  toCounted := h
  destroyed := fun hinactive => absurd (hactive.symm.trans hinactive) (by decide)
  freed_once := by simp [hactive, hfree]

theorem Conserved.not_freed {w : World} (h : Conserved w) (hactive : w.pool.active = true) :
    w.freeing + w.frees = 0 := by
  simpa [hactive] using h.freed_once

/-- The loops keep the invariant of an active pool. -/
theorem Conserved.of_kept {w w' : World} (h : Conserved w) (hactive : w.pool.active = true)
    (hkept : Kept w w') (hcounted : Counted w') : Conserved w' := by
  apply Conserved.of_active hcounted
  · rw [hkept.active, hactive]
  · rw [hkept.freeing, hkept.frees, h.not_freed hactive]

theorem acquire_conserved {alloc nonblock : Bool} {timeoutMs : ℤ} {w : World} (h : Conserved w) :
    Conserved (w.acquire alloc nonblock timeoutMs).1 := by
  unfold World.acquire
  split
  case isTrue => exact h
  case isFalse hactive =>
      have hactive : w.pool.active = true := by simpa using hactive
      have hfree := h.not_freed hactive
      have htotal := h.total
      split
      case h_1 hidle =>
          split
          case isTrue hroom =>
              have hsum := toNat_succ hroom.1
              refine Conserved.of_active ?_ hactive hfree
              refine ⟨?_, h.count_le, h.slots, h.min_le, fun id => ?_⟩
              · simp only [World.outstanding, length_cons] at htotal ⊢
                omega
              · change World.places _ id = if id < w.nextId + 1 then 1 else 0
                rw [created_succ, ← h.placed id]
                simp only [World.places, Pool.createBuffer, map_cons, count_cons,
                  beq_iff_eq]
                omega
          case isFalse =>
              -- Whether the caller waits or is told to come back, nothing has changed.
              split
              · exact h
              · split
                · exact h
                · split
                  · exact h
                  · exact h
      case h_2 b rest hidle =>
          have hcount := h.count_le
          rw [hidle, length_cons] at htotal hcount
          refine Conserved.of_active ?_ hactive hfree
          refine ⟨?_, ?_, h.slots, h.min_le, fun id => ?_⟩
          · simp only [World.outstanding, length_cons] at htotal ⊢
            omega
          · simp only
            omega
          · have hplaced := h.placed id
            simp only [World.places, hidle, map_cons, count_cons] at hplaced ⊢
            omega

theorem release_conserved {b : Buffer} {w : World} (h : Conserved w) (hout : b ∈ w.out) :
    Conserved (w.release b) := by
  have hlength := length_erase_succ hout
  have htotal := h.total
  have hplaces : ∀ id, (w.out.map Buffer.id).count id = _ := count_map_erase hout
  unfold World.release
  split
  case isTrue hroom =>
      obtain ⟨hactive, hroom⟩ := hroom
      refine Conserved.of_active ?_ hactive (h.not_freed hactive)
      refine ⟨?_, ?_, h.slots, h.min_le, fun id => ?_⟩
      · simp only [World.outstanding, length_cons] at htotal ⊢
        omega
      · simp only [length_cons]
        omega
      · have hplaced := h.placed id
        simp only [World.places, map_cons, count_cons, beq_iff_eq, hplaces id]
          at hplaced ⊢
        omega
  case isFalse =>
      have hsame : World.outstanding { w with out := w.out.erase b, returning := b :: w.returning } =
          w.outstanding := by
        simp only [World.outstanding, length_cons]
        omega
      refine ⟨⟨htotal.trans (by rw [hsame]), h.count_le, h.slots, h.min_le, fun id => ?_⟩,
        h.destroyed, ?_⟩
      · have hplaced := h.placed id
        simp only [World.places, map_cons, count_cons, beq_iff_eq, hplaces id]
          at hplaced ⊢
        omega
      · rw [hsame]
        exact h.freed_once

theorem freeBuffer_conserved {b : Buffer} {w : World} (h : Conserved w) (hmem : b ∈ w.returning) :
    Conserved (w.freeBuffer b) := by
  have hlength := length_erase_succ hmem
  have hsame : (w.freeBuffer b).outstanding = w.outstanding := by
    simp only [World.freeBuffer, World.outstanding, length_cons]
    omega
  refine ⟨⟨h.total.trans (by rw [hsame]; rfl), h.count_le, h.slots, h.min_le, fun id => ?_⟩,
    h.destroyed, ?_⟩
  · have hplaces : (w.freeBuffer b).places id = w.places id := by
      simp only [World.freeBuffer, World.places, count_cons, beq_iff_eq,
        count_map_erase hmem id]
      omega
    exact hplaces.trans (h.placed id)
  · rw [hsame]
    exact h.freed_once

/-- The second section of a release.  The buffer it counts off was still one of those out,
so nobody has decided to free the pool yet. -/
theorem finishRelease_conserved {id : ℕ} {w : World} (h : Conserved w) (hmem : id ∈ w.returned) :
    Conserved (w.finishRelease id) := by
  have hlength := length_erase_succ hmem
  have htotal := h.total
  have hout : w.outstanding ≠ 0 := by
    have := length_pos_of_mem hmem
    simp only [World.outstanding]
    omega
  have hpred := toNat_pred (x := w.pool.totalAllocated) (by omega)
  have hfree : w.freeing + w.frees = 0 := by simpa [hout] using h.freed_once
  have hless : (w.finishRelease id).outstanding + 1 = w.outstanding := by
    simp only [World.finishRelease, World.outstanding]
    omega
  refine ⟨⟨?_, h.count_le, h.slots, h.min_le, h.placed⟩, h.destroyed, ?_⟩
  · change (w.pool.totalAllocated - 1).toNat = w.pool.idle.length + _
    omega
  · have hzero : w.pool.active = false →
        (w.pool.totalAllocated - 1 = 0 ↔ (w.finishRelease id).outstanding = 0) := by
      intro hinactive
      rw [← UInt32.toNat_inj, hpred, UInt32.toNat_zero]
      rw [h.destroyed hinactive, length_nil] at htotal
      omega
    change (if _ then w.freeing + 1 else w.freeing) + w.frees = _
    by_cases hinactive : w.pool.active = false
    · by_cases hlast : (w.finishRelease id).outstanding = 0
      · have hcount := (hzero hinactive).mpr hlast
        simp [World.finishRelease, hinactive, hcount] at hlast ⊢
        simp [hlast]
        omega
      · have hcount := mt (hzero hinactive).mp hlast
        simp [hinactive, hcount, hlast]
        omega
    · have hactive : w.pool.active = true := by simpa using hinactive
      simp [World.finishRelease, hactive]
      omega

theorem destroy_conserved {w : World} (h : Conserved w) (hfree : w.frees = 0 ∧ w.freeing = 0) :
    Conserved w.destroy := by
  let started : World := { w with pool := { w.pool with active := false } }
  let emptied := started.dropWhile (fun _ => true) started.pool.idle.length
  have hstarted : Counted started := ⟨h.total, h.count_le, h.slots, h.min_le, h.placed⟩
  have hkept : Kept started emptied := dropWhile_kept _ _ _
  have hcounted : Counted emptied := dropWhile_counted hstarted
  have hidle : emptied.pool.idle = [] := dropWhile_all rfl
  have hzero : emptied.pool.totalAllocated = 0 ↔ emptied.outstanding = 0 := by
    have htotal := hcounted.total
    rw [hidle, length_nil, Nat.zero_add] at htotal
    rw [← UInt32.toNat_inj, htotal, UInt32.toNat_zero]
  refine ⟨⟨hcounted.total, hcounted.count_le, hcounted.slots, hcounted.min_le, hcounted.placed⟩,
    fun _ => hidle, ?_⟩
  have hactive : emptied.pool.active = false := hkept.active
  have hfrees : emptied.frees = 0 := hkept.frees.trans hfree.1
  have hfreeing : emptied.freeing = 0 := hkept.freeing.trans hfree.2
  change (if emptied.pool.totalAllocated = 0 then emptied.freeing + 1 else emptied.freeing) +
    emptied.frees = if emptied.pool.active = false ∧ emptied.outstanding = 0 then 1 else 0
  simp only [hzero, hactive, hfrees, hfreeing, true_and, Nat.add_zero, Nat.zero_add]

theorem freePool_conserved {w : World} (h : Conserved w) (hfreeing : 0 < w.freeing) :
    Conserved w.freePool := by
  refine ⟨⟨h.total, h.count_le, h.slots, h.min_le, h.placed⟩, h.destroyed, ?_⟩
  have hsum : w.freeing - 1 + (w.frees + 1) = w.freeing + w.frees := by omega
  exact hsum.trans h.freed_once

theorem Config.clampMin_le (config : Config) :
    config.clampMin.minBuffers ≤ config.clampMin.maxBuffers := by
  unfold Config.clampMin
  split
  case isTrue => exact UInt32.le_refl _
  case isFalse hle => exact UInt32.not_lt.mp hle

theorem Config.normalise_min_le (config : Config) :
    config.normalise.minBuffers ≤ config.normalise.maxBuffers :=
  config.defaultMax.clampMin_le

theorem setConfig_conserved {config : Config} {realloc : Bool} {alloc : ℕ → Bool} {w : World}
    (h : Conserved w) : Conserved (w.setConfig config realloc alloc).1 := by
  have hkept : Kept w (w.trim config.normalise.maxBuffers) := dropWhile_kept _ _ _
  have hcounted : Counted (w.trim config.normalise.maxBuffers) := dropWhile_counted h.toCounted
  have hlength := trim_length config.normalise.maxBuffers w
  -- A destroyed pool has no idle buffers, so there is nothing to trim.
  have htrim : Conserved (w.trim config.normalise.maxBuffers) := by
    by_cases hactive : w.pool.active = true
    · exact h.of_kept hactive hkept hcounted
    · have hidle := h.destroyed (by simpa using hactive)
      have hsame : w.trim config.normalise.maxBuffers = w := by
        simp only [World.trim, hidle, length_nil, World.dropWhile]
      rw [hsame]
      exact h
  have hset : Conserved
      { w.trim config.normalise.maxBuffers with
        pool := { (w.trim config.normalise.maxBuffers).pool with
          config := config.normalise
          slots := config.normalise.maxBuffers.toNat
          generation := (w.trim config.normalise.maxBuffers).pool.generation + 1 } } :=
    ⟨⟨htrim.total, hlength, rfl, config.normalise_min_le, htrim.placed⟩, htrim.destroyed,
      htrim.freed_once⟩
  unfold World.setConfig
  simp only
  split
  · exact htrim
  · split
    case isTrue hactive =>
        exact hset.of_kept hactive (fill_kept _ _ _ _)
          (fill_counted hset.toCounted config.normalise_min_le)
    case isFalse => exact hset

theorem prefill_conserved {alloc : ℕ → Bool} {w : World} (h : Conserved w) :
    Conserved (w.prefill alloc) := by
  unfold World.prefill
  split
  case isTrue hactive =>
      exact h.of_kept hactive (fill_kept _ _ _ _)
        (fill_counted h.toCounted (UInt32.le_refl _))
  case isFalse => exact h

theorem drain_conserved {w : World} (h : Conserved w) : Conserved w.drain := by
  unfold World.drain
  split
  case isTrue hactive =>
      exact h.of_kept hactive (dropWhile_kept _ _ _) (dropWhile_counted h.toCounted)
  case isFalse => exact h

/-! ## The pool over its whole life -/

theorem preallocate_succ (alloc : ℕ → Bool) (n : ℕ) (w : World) :
    w.preallocate alloc (n + 1) =
      if alloc n then (w.preallocate alloc n).pushNew else w.preallocate alloc n := by
  simp only [World.preallocate, range_succ, foldl_append, foldl_cons,
    foldl_nil]

/-- The creation loop: after `n` turns at most `n` buffers exist. -/
theorem preallocate_counted {alloc : ℕ → Bool} {n : ℕ} {w : World} (h : Counted w)
    (hzero : w.pool.totalAllocated = 0) (hn : n ≤ w.pool.config.maxBuffers.toNat) :
    Kept w (w.preallocate alloc n) ∧ Counted (w.preallocate alloc n) ∧
      (w.preallocate alloc n).pool.totalAllocated.toNat ≤ n := by
  induction n with
  | zero =>
      refine ⟨Kept.refl w, h, ?_⟩
      change w.pool.totalAllocated.toNat ≤ 0
      rw [hzero, UInt32.toNat_zero]
  | succ n ih =>
      obtain ⟨hkept, hcounted, hcount⟩ := ih (by omega)
      rw [preallocate_succ]
      split
      · have hroom : (w.preallocate alloc n).pool.totalAllocated <
            (w.preallocate alloc n).pool.config.maxBuffers := by
          rw [UInt32.lt_iff_toNat_lt, hkept.config]
          omega
        have hsum := toNat_succ hroom
        refine ⟨hkept.trans (pushNew_kept _), pushNew_counted hcounted hroom, ?_⟩
        simp only [World.pushNew]
        omega
      · exact ⟨hkept, hcounted, by omega⟩

theorem create_conserved (allocator : Bool) (config : Config) (alloc : ℕ → Bool) :
    Conserved (create allocator config alloc) := by
  have hempty : Counted (World.empty allocator config.normalise) :=
    ⟨rfl, Nat.zero_le _, rfl, config.normalise_min_le,
      fun id => by simp [World.places, World.empty]⟩
  obtain ⟨hkept, hcounted, -⟩ :=
    preallocate_counted hempty rfl config.normalise_min_le
  refine Conserved.of_active hcounted hkept.active ?_
  exact (congrArg₂ (· + ·) hkept.freeing hkept.frees).trans rfl

theorem next_conserved {w w' : World} {a : Action} (h : Conserved w) (hnext : next w a = some w') :
    Conserved w' := by
  cases a <;> simp only [next, Option.ite_none_right_eq_some, Option.some.injEq] at hnext <;>
    obtain ⟨hguard, rfl⟩ := hnext
  case acquire => exact acquire_conserved h
  case release => exact release_conserved h hguard
  case setConfig => exact setConfig_conserved h
  case prefill => exact prefill_conserved h
  case drain => exact drain_conserved h
  case destroy => exact destroy_conserved h hguard
  case freeBuffer => exact freeBuffer_conserved h hguard
  case finishRelease => exact finishRelease_conserved h hguard
  case freePool => exact freePool_conserved h hguard

theorem reachable_conserved {w : World} (hreach : pool.Reachable w) : Conserved w := by
  apply System.ReachableVia.invariant _ _ hreach
  · rintro w ⟨allocator, config, alloc, rfl⟩
    exact create_conserved allocator config alloc
  · intro w a w' _ h _ hnext
    exact next_conserved h hnext

/-- **Buffer pool conservation.**  In every state of every interleaving: the pool's count is
its idle buffers and those out; the idle buffers fit the array, whose length is the
configured maximum, and the minimum is at most the maximum; every buffer created so far is
idle, out, about to be freed by its release or freed, in exactly one of these and once.  The
pool object is freed or about to be exactly when it is destroyed and nothing is out, hence
at most once; by then every buffer has been freed, once, and no release is under way. -/
theorem pool_conservation (w : World) (hreach : pool.Reachable w) :
    (w.pool.totalAllocated.toNat = w.pool.idle.length + w.outstanding ∧
      w.pool.idle.length ≤ w.pool.config.maxBuffers.toNat ∧
      w.pool.config.maxBuffers.toNat = w.pool.slots ∧
      w.pool.config.minBuffers ≤ w.pool.config.maxBuffers) ∧
    (∀ id, w.places id = if id < w.nextId then 1 else 0) ∧
    (w.freeing + w.frees = if w.pool.active = false ∧ w.outstanding = 0 then 1 else 0) ∧
    (0 < w.freeing + w.frees →
      w.out = [] ∧ w.returning = [] ∧ w.returned = [] ∧
      ∀ id, w.freed.count id = if id < w.nextId then 1 else 0) := by
  have h := reachable_conserved hreach
  refine ⟨⟨h.total, h.count_le, h.slots.symm, h.min_le⟩, h.placed, h.freed_once, fun hfree => ?_⟩
  have hdone : w.pool.active = false ∧ w.outstanding = 0 := by
    by_contra hnot
    rw [h.freed_once, if_neg hnot] at hfree
    exact Nat.lt_irrefl 0 hfree
  have hidle := h.destroyed hdone.1
  have hlengths := hdone.2
  simp only [World.outstanding, Nat.add_eq_zero_iff, length_eq_zero_iff] at hlengths
  obtain ⟨⟨hout, hreturning⟩, hreturned⟩ := hlengths
  refine ⟨hout, hreturning, hreturned, fun id => ?_⟩
  have hplaced := h.placed id
  simpa [World.places, hidle, hout, hreturning] using hplaced

/-- A pool of one buffer is destroyed while the buffer is out; its release then frees the
buffer and the pool. -/
theorem pool_conservation_late_release :
    ∃ w, pool.run (create true ⟨1, 1, 10, 0, 0, 0, false⟩ fun _ => true)
        [.acquire true false 0, .destroy, .release ⟨0, 10, 0, 10, 1⟩, .freeBuffer ⟨0, 10, 0, 10, 1⟩,
          .finishRelease 0, .freePool] = some w ∧
      w.frees = 1 ∧ w.freed.count 0 = 1 := by
  obtain ⟨w, hrun, hw⟩ := Option.map_eq_some_iff.mp
    (show (pool.run (create true ⟨1, 1, 10, 0, 0, 0, false⟩ fun _ => true)
        [.acquire true false 0, .destroy, .release ⟨0, 10, 0, 10, 1⟩,
          .freeBuffer ⟨0, 10, 0, 10, 1⟩, .finishRelease 0, .freePool]).map
          (fun w => (w.frees, w.nextId)) = some (1, 1) by decide +kernel)
  obtain ⟨hfrees, hnext⟩ := Prod.mk.inj hw
  have hreach : pool.Reachable w :=
    System.Reachable.run (.start ⟨true, _, _, rfl⟩) hrun
  obtain ⟨-, -, -, hdone⟩ := pool_conservation w hreach
  obtain ⟨-, -, -, hfreed⟩ := hdone (by omega)
  refine ⟨w, hrun, hfrees, ?_⟩
  rw [hfreed 0, hnext]
  rfl

end Zstreamer.BufferPool

/-
# How large an acquired buffer is

`zst_buffer_pool_acquire` announces the configured size on every buffer it takes
off the idle stack, whatever the buffer was allocated with.  A buffer created
under a smaller configuration keeps its memory when `set_config` raises the size,
so it is then handed out announcing more than it has: `announces_too_much` is such
a run.

The law holds as long as no `set_config` that takes effect asks for more than some
buffer still in circulation was allocated with.  One more way to lose it is a pool
without an allocator: `create` does not look whether the default one could be made,
and buffers are then created without any memory.
-/

import Zstreamer.BufferPool.Conservation

namespace Zstreamer.BufferPool

open Foundation

/-- Whether `set_config` gets as far as storing the configuration. -/
def World.Reconfigures (w : World) (config : Config) (realloc : Bool) : Prop :=
  config.normalise.maxBuffers = w.pool.config.maxBuffers ∨ realloc = true

/-- The condition on a step: a `set_config` that takes effect does not ask for more memory
than a buffer that stays idle or is out has, and nothing is acquired from a pool that has
no allocator but announces memory. -/
def WithinAllocated (w : World) : Action → Prop
  | .setConfig config realloc _ =>
      w.Reconfigures config realloc →
        ∀ b ∈ (w.trim config.normalise.maxBuffers).pool.idle ++ w.out,
          config.bufferSize ≤ b.allocated
  | .acquire _ _ _ => w.pool.allocator = true ∨ w.pool.config.bufferSize = 0
  | _ => True

/-- Every buffer in circulation has the memory the configuration announces. -/
def Roomy (w : World) : Prop :=
  w.pool.allocator = true →
    ∀ b, b ∈ w.pool.idle ∨ b ∈ w.out → w.pool.config.bufferSize ≤ b.allocated

theorem Config.normalise_bufferSize (config : Config) :
    config.normalise.bufferSize = config.bufferSize := by
  have hmax : config.defaultMax.bufferSize = config.bufferSize := by
    unfold Config.defaultMax
    split
    · rfl
    · rfl
  unfold Config.normalise Config.clampMin
  split
  · exact hmax
  · exact hmax

theorem createBuffer_allocated {p : Pool} {id : ℕ} (hallocator : p.allocator = true) :
    (p.createBuffer id).allocated = p.config.bufferSize := by
  simp [Pool.createBuffer, hallocator]

/-- A step that keeps the allocator and the configuration and brings no buffer into
circulation keeps every buffer roomy. -/
theorem Roomy.of_subset {w w' : World} (h : Roomy w)
    (hallocator : w'.pool.allocator = w.pool.allocator) (hconfig : w'.pool.config = w.pool.config)
    (hsub : ∀ b, b ∈ w'.pool.idle ∨ b ∈ w'.out → b ∈ w.pool.idle ∨ b ∈ w.out) : Roomy w' := by
  intro hpresent b hb
  rw [hconfig]
  rw [hallocator] at hpresent
  exact h hpresent b (hsub b hb)

theorem pushNew_roomy {w : World} (h : Roomy w) : Roomy w.pushNew := by
  intro hpresent b hb
  rcases hb with hidle | hout
  · rcases List.mem_cons.mp hidle with rfl | hrest
    · exact (createBuffer_allocated hpresent).ge
    · exact h hpresent b (.inl hrest)
  · exact h hpresent b (.inr hout)

theorem dropIdle_subset (w : World) : ∀ b ∈ w.dropIdle.pool.idle, b ∈ w.pool.idle := by
  intro b hb
  unfold World.dropIdle at hb
  split at hb
  case h_1 => exact hb
  case h_2 top rest hidle =>
      rw [hidle]
      exact List.mem_cons_of_mem top hb

theorem dropWhile_subset (cond : World → Bool) (n : ℕ) (w : World) :
    ∀ b ∈ (w.dropWhile cond n).pool.idle, b ∈ w.pool.idle := by
  induction n generalizing w with
  | zero => exact fun b hb => hb
  | succ n ih =>
      intro b hb
      simp only [World.dropWhile] at hb
      split at hb
      · exact dropIdle_subset w b (ih _ b hb)
      · exact hb

theorem dropWhile_roomy {cond : World → Bool} {n : ℕ} {w : World} (h : Roomy w) :
    Roomy (w.dropWhile cond n) := by
  have hkept := dropWhile_kept cond n w
  apply h.of_subset hkept.allocator hkept.config
  intro b hb
  rw [hkept.out] at hb
  exact hb.imp_left (dropWhile_subset cond n w b)

theorem fill_roomy {alloc : ℕ → Bool} {bound : UInt32} {n : ℕ} {w : World} (h : Roomy w) :
    Roomy (w.fill alloc bound n).1 := by
  induction n generalizing w with
  | zero => exact h
  | succ n ih =>
      simp only [World.fill]
      split
      · split
        · exact ih (pushNew_roomy h)
        · exact h
      · exact h

theorem preallocate_roomy {alloc : ℕ → Bool} {n : ℕ} {w : World} (h : Roomy w) :
    Roomy (w.preallocate alloc n) := by
  induction n with
  | zero => exact h
  | succ n ih =>
      rw [preallocate_succ]
      split
      · exact pushNew_roomy ih
      · exact ih

theorem acquire_roomy {alloc nonblock : Bool} {timeoutMs : ℤ} {w : World} (h : Roomy w) :
    Roomy (w.acquire alloc nonblock timeoutMs).1 := by
  unfold World.acquire
  split
  · exact h
  · split
    case h_1 hidle =>
        split
        · -- The new buffer goes straight to its user.
          intro hpresent b hb
          rcases hb with hold | hout
          · exact h hpresent b (.inl hold)
          · rcases List.mem_cons.mp hout with rfl | hold
            · exact (createBuffer_allocated hpresent).ge
            · exact h hpresent b (.inr hold)
        · split
          · exact h
          · split
            · exact h
            · split
              · exact h
              · exact h
    case h_2 top rest hidle =>
        intro hpresent b hb
        rcases hb with hrest | hout
        · apply h hpresent b (.inl _)
          rw [hidle]
          exact List.mem_cons_of_mem top hrest
        · rcases List.mem_cons.mp hout with rfl | hold
          · exact h hpresent top (.inl (by rw [hidle]; exact List.mem_cons_self))
          · exact h hpresent b (.inr hold)

theorem release_roomy {b : Buffer} {w : World} (h : Roomy w) (hout : b ∈ w.out) :
    Roomy (w.release b) := by
  unfold World.release
  split
  · refine h.of_subset rfl rfl ?_
    rintro x (hidle | hrest)
    · rcases List.mem_cons.mp hidle with rfl | hold
      · exact .inr hout
      · exact .inl hold
    · exact .inr (List.mem_of_mem_erase hrest)
  · refine h.of_subset rfl rfl ?_
    exact fun x hx => hx.imp_right List.mem_of_mem_erase

theorem setConfig_roomy {config : Config} {realloc : Bool} {alloc : ℕ → Bool} {w : World}
    (h : Roomy w) (hsizes : WithinAllocated w (.setConfig config realloc alloc)) :
    Roomy (w.setConfig config realloc alloc).1 := by
  have hkept : Kept w (w.trim config.normalise.maxBuffers) := dropWhile_kept _ _ _
  unfold World.setConfig
  simp only
  split
  case isTrue => exact dropWhile_roomy h
  case isFalse hstored =>
      have heffect : w.Reconfigures config realloc := by
        rw [hkept.config] at hstored
        by_cases hsame : config.normalise.maxBuffers = w.pool.config.maxBuffers
        · exact .inl hsame
        · exact .inr (by simpa [hsame] using hstored)
      have hset : Roomy
          { w.trim config.normalise.maxBuffers with
            pool := { (w.trim config.normalise.maxBuffers).pool with
              config := config.normalise
              slots := config.normalise.maxBuffers.toNat
              generation := (w.trim config.normalise.maxBuffers).pool.generation + 1 } } := by
        intro _ b hb
        change config.normalise.bufferSize ≤ b.allocated
        rw [config.normalise_bufferSize]
        apply hsizes heffect b
        rw [List.mem_append, ← hkept.out]
        exact hb
      split
      · exact fill_roomy hset
      · exact hset

theorem next_roomy {w w' : World} {a : Action} (h : Roomy w) (hsizes : WithinAllocated w a)
    (hnext : next w a = some w') : Roomy w' := by
  cases a <;> simp only [next, Option.ite_none_right_eq_some, Option.some.injEq] at hnext <;>
    obtain ⟨hguard, rfl⟩ := hnext
  case acquire => exact acquire_roomy h
  case release => exact release_roomy h hguard
  case setConfig => exact setConfig_roomy h hsizes
  case prefill =>
      unfold World.prefill
      split
      · exact fill_roomy h
      · exact h
  case drain =>
      unfold World.drain
      split
      · exact dropWhile_roomy h
      · exact h
  case destroy => exact dropWhile_roomy h
  case freeBuffer => exact h
  case finishRelease => exact h
  case freePool => exact h

theorem reachable_roomy {w : World} (hreach : pool.ReachableVia WithinAllocated w) : Roomy w := by
  apply System.ReachableVia.invariant _ _ hreach
  · rintro w ⟨allocator, config, alloc, rfl⟩
    apply preallocate_roomy
    rintro - b (hidle | hout)
    · exact absurd hidle List.not_mem_nil
    · exact absurd hout List.not_mem_nil
  · intro w a w' _ h hsizes hnext
    exact next_roomy h hsizes hnext

/-- What `acquire` hands out announces the configured size, unless it was just created
without an allocator. -/
theorem acquire_answer {alloc nonblock : Bool} {timeoutMs : ℤ} {w : World} {b : Buffer} {low : Bool}
    (hanswer : (w.acquire alloc nonblock timeoutMs).2 = .ok b low) :
    (b = w.pool.createBuffer w.nextId) ∨
    (∃ top ∈ w.pool.idle, b = { top with size := w.pool.config.bufferSize, refcount := 1 }) := by
  unfold World.acquire at hanswer
  split at hanswer
  · cases hanswer
  · split at hanswer
    · split at hanswer
      · cases hanswer
        exact .inl rfl
      · split at hanswer
        · cases hanswer
        · split at hanswer
          · cases hanswer
          · split at hanswer
            · cases hanswer
            · cases hanswer
    case h_2 top rest hidle =>
        cases hanswer
        exact .inr ⟨top, by rw [hidle]; exact List.mem_cons_self, rfl⟩

/-- **An acquired buffer is as large as it says**, in every run whose `set_config` steps ask
for no more than the buffers in circulation have. -/
theorem acquired_size (w : World) (hreach : pool.ReachableVia WithinAllocated w)
    (alloc nonblock : Bool) (timeoutMs : ℤ)
    (hsizes : WithinAllocated w (.acquire alloc nonblock timeoutMs)) (b : Buffer) (low : Bool)
    (hanswer : (w.acquire alloc nonblock timeoutMs).2 = .ok b low) :
    b.size = w.pool.config.bufferSize ∧ b.size ≤ b.allocated := by
  have hroomy := reachable_roomy hreach
  rcases acquire_answer hanswer with rfl | ⟨top, htop, rfl⟩
  · refine ⟨?_, Nat.le_refl _⟩
    rcases hsizes with hallocator | hzero
    · exact @createBuffer_allocated w.pool w.nextId hallocator
    · simp [Pool.createBuffer, hzero]
  · refine ⟨rfl, ?_⟩
    change w.pool.config.bufferSize ≤ top.allocated
    rcases hsizes with hallocator | hzero
    · exact hroomy hallocator top (.inl htop)
    · exact hzero ▸ Nat.zero_le _

/-- A pool whose size is lowered hands out a buffer with memory to spare. -/
theorem acquired_size_lowered :
    ∃ w b, pool.run (create true ⟨1, 1, 100, 0, 0, 0, false⟩ fun _ => true)
        [.setConfig ⟨1, 1, 10, 0, 0, 0, false⟩ true fun _ => true] = some w ∧
      (w.acquire true true 0).2 = .ok b false ∧ b.size = 10 ∧ b.size ≤ b.allocated := by
  obtain ⟨w, hrun, hw⟩ := Option.map_eq_some_iff.mp
    (show (pool.run (create true ⟨1, 1, 100, 0, 0, 0, false⟩ fun _ => true)
        [.setConfig ⟨1, 1, 10, 0, 0, 0, false⟩ true fun _ => true]).map
          (fun w => (w.pool.allocator, w.pool.config.bufferSize, (w.acquire true true 0).2)) =
        some (true, 10, .ok ⟨0, 100, 0, 10, 1⟩ false) by decide +kernel)
  obtain ⟨hallocator, hw⟩ := Prod.mk.inj hw
  obtain ⟨hsize, hanswer⟩ := Prod.mk.inj hw
  have hreach : pool.ReachableVia WithinAllocated w := by
    obtain ⟨w', hnext, hrun⟩ := Option.bind_eq_some_iff.mp hrun
    obtain rfl : w' = w := Option.some.inj hrun
    refine .step (.start ⟨true, _, _, rfl⟩) ?_ hnext
    intro _
    decide +kernel
  have h := acquired_size w hreach true true 0 (.inl hallocator) _ _ hanswer
  exact ⟨w, _, hrun, hanswer, h.1.trans hsize, h.2⟩

/-- A pool whose size is raised hands out its old buffer announcing the new size. -/
theorem announces_too_much :
    ¬ ∀ w, pool.Reachable w → ∀ alloc nonblock timeoutMs b low,
      (w.acquire alloc nonblock timeoutMs).2 = .ok b low →
        b.size = w.pool.config.bufferSize ∧ b.size ≤ b.allocated := by
  intro hclaim
  obtain ⟨w, hrun, hanswer⟩ := Option.map_eq_some_iff.mp
    (show (pool.run (create true ⟨1, 1, 10, 0, 0, 0, false⟩ fun _ => true)
        [.setConfig ⟨1, 1, 100, 0, 0, 0, false⟩ true fun _ => true]).map
          (fun w => (w.acquire true true 0).2) =
        some (.ok ⟨0, 10, 0, 100, 1⟩ false) by decide +kernel)
  have hreach : pool.Reachable w :=
    System.Reachable.run (.start ⟨true, _, _, rfl⟩) hrun
  have h := hclaim w hreach true true 0 _ _ hanswer
  exact absurd h.2 (by decide)

end Zstreamer.BufferPool

/-
# Sizing the buffer pools

`zst_pipeline_update_buffer_pool_sizing` runs over the elements.  An element whose pool has fewer
buffers at least than there are queues downstream, and two, gets that minimum, and twice as much
as the maximum if the old one is lower.  The configuration goes through
`zst_buffer_pool_set_config`, and the element remembers what it has seen of the pool.  A bin lends
the pool of a child, so two elements may have the same pool.

`poolSizing_follows` says what holds of the pools after an update, and that another one leaves
them alone.
-/

import Zstreamer.BufferPool.Conservation
import Zstreamer.Topology.Graph

namespace Zstreamer

open Foundation List Function

/-- What an element remembers of its pool. -/
structure SeenPool where
  pool : Option ℕ
  generation : UInt64
  minBuffers : UInt32
  maxBuffers : UInt32
  bufferSize : ℕ
  bufferType : UInt32
  deriving DecidableEq, Repr

/-- The pools, what the elements remember of theirs, and `buffer_pool_sizing_dirty`. -/
structure SizingState where
  pools : ℕ → BufferPool.World
  seen : ℕ → SeenPool
  dirty : Bool

/-- A pipeline whose elements may have pools. -/
structure PooledTopology extends TypedTopology where
  /-- `zst_element_get_pool`. -/
  pool : ℕ → Option ℕ

/-- The answers of the allocator to the call of an element. -/
structure SizingMemory where
  realloc : ℕ → Bool
  alloc : ℕ → ℕ → Bool

/-- No call of `zst_buffer_pool_set_config` fails. -/
def SizingMemory.NeverFails (memory : SizingMemory) : Prop :=
  ∀ el (w : BufferPool.World) config,
    (w.setConfig config (memory.realloc el) (memory.alloc el)).2 = true

namespace BufferPool

/-- `pool_config_default_size_for_queue_count`. -/
def Config.defaultSizeForQueueCount (config : Config) (nQueues : ℕ) : Config :=
  if nQueues = 0 then config
  else if config.minBuffers < UInt32.ofNat (nQueues + 2) then
    let config := { config with minBuffers := UInt32.ofNat (nQueues + 2) }
    if config.maxBuffers < config.minBuffers then
      { config with maxBuffers := config.minBuffers * 2 }
    else config
  else config

/-- The pool after `apply_pool_config_cb`, and the configuration the element remembers. -/
def World.applyConfig (realloc : Bool) (alloc : ℕ → Bool) (nQueues : ℕ) (w : World) :
    World × Config :=
  let old := w.pool.config
  let new := old.defaultSizeForQueueCount nQueues
  if new.minBuffers ≠ old.minBuffers ∨ new.maxBuffers ≠ old.maxBuffers then
    let (w, ok) := w.setConfig new realloc alloc
    (w, if ok then new else w.pool.config)
  else (w, old)

variable {config : Config} {n : ℕ} {w : World}

/-- The minimum grows to what the queues need, and the maximum stays above it. -/
theorem defaultSizeForQueueCount_sized (hfew : n + 2 < 2 ^ 31)
    (hle : config.minBuffers ≤ config.maxBuffers) :
    (n ≠ 0 → n + 2 ≤ (config.defaultSizeForQueueCount n).minBuffers.toNat) ∧
      config.minBuffers ≤ (config.defaultSizeForQueueCount n).minBuffers ∧
      (config.defaultSizeForQueueCount n).minBuffers ≤
        (config.defaultSizeForQueueCount n).maxBuffers := by
  have hnat : (UInt32.ofNat (n + 2)).toNat = n + 2 := by
    rw [UInt32.toNat_ofNat']
    omega
  have hdouble : UInt32.ofNat (n + 2) ≤ UInt32.ofNat (n + 2) * 2 := by
    rw [UInt32.le_iff_toNat_le, UInt32.toNat_mul, hnat]
    have htwo : (2 : UInt32).toNat = 2 := rfl
    rw [htwo]
    omega
  rw [Config.defaultSizeForQueueCount]
  by_cases hnone : n = 0
  · rw [if_pos hnone]
    exact ⟨fun h => absurd hnone h, UInt32.le_refl _, hle⟩
  · rw [if_neg hnone]
    by_cases hless : config.minBuffers < UInt32.ofNat (n + 2)
    · rw [if_pos hless]
      dsimp only
      split
      case isTrue => exact ⟨fun _ => hnat.ge, UInt32.le_of_lt hless, hdouble⟩
      case isFalse hmax => exact ⟨fun _ => hnat.ge, UInt32.le_of_lt hless, UInt32.not_lt.mp hmax⟩
    · rw [if_neg hless]
      refine ⟨fun _ => ?_, UInt32.le_refl _, hle⟩
      have henough := UInt32.le_iff_toNat_le.mp (UInt32.not_lt.mp hless)
      omega

/-- Nothing is left to do for a minimum that suffices. -/
theorem defaultSizeForQueueCount_done
    (henough : n ≠ 0 → n + 2 ≤ config.minBuffers.toNat) :
    config.defaultSizeForQueueCount n = config := by
  rw [Config.defaultSizeForQueueCount]
  by_cases hnone : n = 0
  · exact if_pos hnone
  · rw [if_neg hnone]
    refine if_neg (UInt32.not_lt.mpr (UInt32.le_iff_toNat_le.mpr ?_))
    rw [UInt32.toNat_ofNat']
    exact (Nat.mod_le _ _).trans (henough hnone)

/-- A configuration in order is taken as it is. -/
theorem Config.normalise_eq (hle : config.minBuffers ≤ config.maxBuffers)
    (hmax : config.maxBuffers ≠ 0) : config.normalise = config := by
  rw [Config.normalise, Config.defaultMax, if_neg hmax]
  exact if_neg (UInt32.not_lt.mpr hle)

/-- `zst_buffer_pool_set_config` has set the configuration when it returns ZST_OK. -/
theorem setConfig_config {realloc : Bool} {alloc : ℕ → Bool}
    (hok : (w.setConfig config realloc alloc).2 = true) :
    (w.setConfig config realloc alloc).1.pool.config = config.normalise := by
  unfold World.setConfig at *
  dsimp only at *
  split at hok
  case isTrue => cases hok
  case isFalse hroom =>
    rw [if_neg hroom]
    split
    · exact (fill_kept _ _ _ _).config
    · rfl

/-- A pool that has been sized: the numbers are in order, and the queues have enough. -/
structure Sized (n : ℕ) (w w' : World) : Prop where
  conserved : Conserved w'
  enough : n ≠ 0 → n + 2 ≤ w'.pool.config.minBuffers.toNat
  le : w.pool.config.minBuffers ≤ w'.pool.config.minBuffers

/-- **The callback sizes the pool**, and the element remembers the configuration it has set. -/
theorem applyConfig_sized {realloc : Bool} {alloc : ℕ → Bool} (hfew : n + 2 < 2 ^ 31)
    (hconserved : Conserved w) (hok : ∀ config, (w.setConfig config realloc alloc).2 = true) :
    Sized n w (w.applyConfig realloc alloc n).1 ∧
      (w.applyConfig realloc alloc n).2 = (w.applyConfig realloc alloc n).1.pool.config := by
  obtain ⟨henough, hgrown, hle⟩ := defaultSizeForQueueCount_sized hfew hconserved.min_le
  rw [World.applyConfig]
  dsimp only
  by_cases hnew : (w.pool.config.defaultSizeForQueueCount n).minBuffers ≠ w.pool.config.minBuffers ∨
      (w.pool.config.defaultSizeForQueueCount n).maxBuffers ≠ w.pool.config.maxBuffers
  · rw [if_pos hnew, if_pos (hok _)]
    have hmax : (w.pool.config.defaultSizeForQueueCount n).maxBuffers ≠ 0 := by
      intro hzero
      -- only for queues is there anything to set, and then the minimum is not 0
      have hnone : n ≠ 0 := by
        rintro rfl
        exact hnew.elim (fun h => h rfl) fun h => h rfl
      rw [hzero, UInt32.le_iff_toNat_le, UInt32.toNat_zero] at hle
      have hmin := henough hnone
      omega
    have hconfig := setConfig_config (hok (w.pool.config.defaultSizeForQueueCount n))
    rw [Config.normalise_eq hle hmax] at hconfig
    exact ⟨⟨setConfig_conserved hconserved, by rwa [hconfig], by rwa [hconfig]⟩, hconfig.symm⟩
  · obtain ⟨hmin, -⟩ := not_or.mp hnew
    rw [if_neg hnew]
    exact ⟨⟨hconserved, (not_not.mp hmin) ▸ henough, UInt32.le_refl _⟩, rfl⟩

/-- A pool that is sized already is left alone. -/
theorem applyConfig_done {realloc : Bool} {alloc : ℕ → Bool}
    (henough : n ≠ 0 → n + 2 ≤ w.pool.config.minBuffers.toNat) :
    w.applyConfig realloc alloc n = (w, w.pool.config) := by
  rw [World.applyConfig, defaultSizeForQueueCount_done henough]
  exact if_neg fun h => h.elim (fun h => h rfl) fun h => h rfl

end BufferPool

namespace PooledTopology

variable (g : PooledTopology) (memory : SizingMemory)

/-- `pipeline_cache_pool_snapshot`: what there is to see of a pool. -/
def snapshot (pool : Option ℕ) (generation : UInt64) (config : BufferPool.Config) : SeenPool :=
  ⟨pool, generation, config.minBuffers, config.maxBuffers, config.bufferSize, config.bufferType⟩

/-- `apply_pool_config_cb`. -/
def applyPoolConfig (s : SizingState) (el : ℕ) : Option SizingState :=
  match g.pool el with
  | none => some { s with seen := update s.seen el ⟨none, 0, 0, 0, 0, 0⟩ }
  | some pool =>
      (g.countDownstream "queue" el).map fun nQueues =>
        let (w, config) :=
          (s.pools pool).applyConfig (memory.realloc el) (memory.alloc el) nQueues
        { s with
          pools := update s.pools pool w
          seen := update s.seen el (snapshot (some pool) w.pool.generation config) }

/-- `zst_pipeline_update_buffer_pool_sizing`. -/
def updateBufferPoolSizing (s : SizingState) : Option SizingState :=
  g.elements.foldlM (g.applyPoolConfig memory) { s with dirty := false }

/-- No two elements of the pipeline have the same pool. -/
def PoolsApart : Prop :=
  ∀ x ∈ g.elements, ∀ y ∈ g.elements, ∀ pool, g.pool x = some pool → g.pool y = some pool → x = y

variable {g memory} {s s' s'' : SizingState} {els els' : List ℕ}

/-- The queues downstream of an element of the pipeline, and two, fit an `int`. -/
theorem countDownstream_few {el : ℕ} (hel : el ∈ g.elements) :
    ∃ n, g.countDownstream "queue" el = some n ∧ n + 2 < 2 ^ 31 ∧
      n = (g.downstream "queue" el).ncard := by
  obtain ⟨found, hcount, hnodup, hfound⟩ :=
    @TypedTopology.countDownstream_eq g.toTypedTopology "queue" el hel
  refine ⟨found.length, hcount, ?_, ?_⟩
  · have hnew : el ∉ found := fun hmem => ((hfound el).mp hmem).2.1 rfl
    have hsub : el :: found ⊆ g.elements := by
      refine cons_subset.mpr ⟨hel, fun y hy => ?_⟩
      obtain ⟨hreach, hne, -⟩ := (hfound y).mp hy
      rcases hreach.cases_tail with rfl | ⟨z, -, hlink⟩
      · exact hel
      · exact hlink.2.2
    have hle := ((nodup_cons.mpr ⟨hnew, hnodup⟩).subperm hsub).length_le
    have hfew := g.few
    rw [length_cons] at hle
    omega
  · have hset : g.downstream "queue" el = (found.toFinset : Set ℕ) := by
      ext y
      rw [Finset.mem_coe, mem_toFinset, hfound]
    rw [hset, Set.ncard_coe_finset, toFinset_card_of_nodup hnodup]

/-- What an element would see of its pool now. -/
def seenNow (g : PooledTopology) (pools : ℕ → BufferPool.World) (el : ℕ) : SeenPool :=
  match g.pool el with
  | none => ⟨none, 0, 0, 0, 0, 0⟩
  | some pool => snapshot (some pool) (pools pool).pool.generation (pools pool).pool.config

theorem seenNow_congr {pools pools' : ℕ → BufferPool.World} {el : ℕ}
    (hsame : ∀ pool, g.pool el = some pool → pools' pool = pools pool) :
    g.seenNow pools' el = g.seenNow pools el := by
  rw [seenNow, seenNow]
  cases hpool : g.pool el with
  | none => rfl
  | some pool =>
      dsimp only
      rw [hsame pool hpool]

/-- Some elements have been asked for their pools: their queues have enough buffers, no minimum
has shrunk, and other elements and pools have been left alone. -/
structure Applied (g : PooledTopology) (els : List ℕ) (s s' : SizingState) : Prop where
  conserved : ∀ pool, BufferPool.Conserved (s'.pools pool)
  le : ∀ pool, (s.pools pool).pool.config.minBuffers ≤ (s'.pools pool).pool.config.minBuffers
  enough : ∀ el ∈ els, ∀ pool n, g.pool el = some pool → g.countDownstream "queue" el = some n →
    n ≠ 0 → n + 2 ≤ (s'.pools pool).pool.config.minBuffers.toNat
  pools : ∀ pool, (∀ el ∈ els, g.pool el ≠ some pool) → s'.pools pool = s.pools pool
  seen : ∀ el, el ∉ els → s'.seen el = s.seen el
  remembered : g.PoolsApart → els ⊆ g.elements → ∀ el ∈ els, s'.seen el = g.seenNow s'.pools el
  dirty : s'.dirty = s.dirty

theorem Applied.nil (hconserved : ∀ pool, BufferPool.Conserved (s.pools pool)) :
    Applied g [] s s where
  conserved := hconserved
  le _ := UInt32.le_refl _
  enough := nofun
  pools _ _ := rfl
  seen _ _ := rfl
  remembered _ _ := nofun
  dirty := rfl

/-- More elements are asked: their pools may be those of the first ones, and grow. -/
theorem Applied.append (h : Applied g els s s') (h' : Applied g els' s' s'') :
    Applied g (els ++ els') s s'' where
  conserved := h'.conserved
  le pool := UInt32.le_trans (h.le pool) (h'.le pool)
  enough el hel pool n hpool hcount hn := by
    rcases mem_append.mp hel with hel | hel
    · exact (h.enough el hel pool n hpool hcount hn).trans
        (UInt32.le_iff_toNat_le.mp (h'.le pool))
    · exact h'.enough el hel pool n hpool hcount hn
  pools pool hpool := by
    rw [h'.pools pool fun el hel => hpool el (mem_append_right els hel),
      h.pools pool fun el hel => hpool el (mem_append_left els' hel)]
  seen el hel := by
    rw [mem_append, not_or] at hel
    rw [h'.seen el hel.2, h.seen el hel.1]
  remembered hapart hsub el hel := by
    obtain ⟨hsub, hsub'⟩ := append_subset.mp hsub
    by_cases hlast : el ∈ els'
    · exact h'.remembered hapart hsub' el hlast
    · -- asked once and for all: nobody else has the pool
      have hfirst := (mem_append.mp hel).resolve_right hlast
      rw [h'.seen el hlast, h.remembered hapart hsub el hfirst]
      refine (seenNow_congr fun pool hpool => h'.pools pool fun x hx hshared => ?_).symm
      exact hlast (hapart el (hsub hfirst) x (hsub' hx) pool hpool hshared ▸ hx)
  dirty := h'.dirty.trans h.dirty

/-- **One element asks for its pool.** -/
theorem applyPoolConfig_applied (hmemory : memory.NeverFails) {el : ℕ} (hel : el ∈ g.elements)
    (hconserved : ∀ pool, BufferPool.Conserved (s.pools pool)) :
    ∃ s', g.applyPoolConfig memory s el = some s' ∧ Applied g [el] s s' := by
  rw [applyPoolConfig]
  cases hpool : g.pool el with
  | none =>
      refine ⟨_, rfl, hconserved, fun _ => UInt32.le_refl _, ?_, fun _ _ => rfl, ?_, ?_, rfl⟩
      · intro x hx pool n hx'
        rw [mem_singleton.mp hx, hpool] at hx'
        cases hx'
      · exact fun x hx => update_of_ne (fun heq => hx (mem_singleton.mpr heq)) _ _
      · intro _ _ x hx
        rw [mem_singleton.mp hx]
        dsimp only
        rw [update_self, seenNow, hpool]
  | some pool =>
      obtain ⟨n, hcount, hfew, -⟩ := countDownstream_few hel
      obtain ⟨hsized, hconfig⟩ := BufferPool.applyConfig_sized (n := n) hfew (hconserved pool)
        fun config => hmemory el (s.pools pool) config
      rw [hcount]
      refine ⟨_, rfl, fun p => ?_, fun p => ?_, ?_, fun p hp => ?_, ?_, ?_, rfl⟩
      · dsimp only
        rw [update_apply]
        split
        · exact hsized.conserved
        · exact hconserved p
      · dsimp only
        rw [update_apply]
        split
        case isTrue heq => exact heq ▸ hsized.le
        case isFalse => exact UInt32.le_refl _
      · intro x hx p m hp hm hne
        obtain rfl := mem_singleton.mp hx
        obtain rfl := Option.some.inj (hpool.symm.trans hp)
        obtain rfl := Option.some.inj (hcount.symm.trans hm)
        dsimp only
        rw [update_self]
        exact hsized.enough hne
      · refine update_of_ne (fun heq => ?_) _ _
        exact hp el mem_cons_self (heq ▸ hpool)
      · exact fun x hx => update_of_ne (fun heq => hx (mem_singleton.mpr heq)) _ _
      · intro _ _ x hx
        rw [mem_singleton.mp hx]
        dsimp only
        rw [update_self, seenNow, hpool]
        dsimp only
        rw [update_self, hconfig]

theorem foldlM_applied (hmemory : memory.NeverFails) (hels : els ⊆ g.elements)
    (hconserved : ∀ pool, BufferPool.Conserved (s.pools pool)) :
    ∃ s', els.foldlM (g.applyPoolConfig memory) s = some s' ∧ Applied g els s s' := by
  induction els generalizing s with
  | nil => exact ⟨s, rfl, .nil hconserved⟩
  | cons el els ih =>
      obtain ⟨hel, hels⟩ := cons_subset.mp hels
      obtain ⟨s₁, hone, happlied⟩ := applyPoolConfig_applied hmemory hel hconserved
      obtain ⟨s', hrest, happlied'⟩ := ih hels happlied.conserved
      rw [foldlM_cons, hone]
      exact ⟨s', hrest, happlied.append happlied'⟩

/-! ## A second update -/

/-- The queues behind an element have enough buffers. -/
def Enough (g : PooledTopology) (pools : ℕ → BufferPool.World) (el : ℕ) : Prop :=
  ∀ pool n, g.pool el = some pool → g.countDownstream "queue" el = some n →
    n ≠ 0 → n + 2 ≤ (pools pool).pool.config.minBuffers.toNat

theorem applyPoolConfig_done {el : ℕ} (hel : el ∈ g.elements) (henough : g.Enough s.pools el) :
    g.applyPoolConfig memory s el =
      some { s with seen := update s.seen el (g.seenNow s.pools el) } := by
  rw [applyPoolConfig, seenNow]
  cases hpool : g.pool el with
  | none => rfl
  | some pool =>
      obtain ⟨n, hcount, -⟩ := countDownstream_few hel
      rw [hcount]
      dsimp only [Option.map_some]
      rw [BufferPool.applyConfig_done (henough pool n hpool hcount)]
      dsimp only
      rw [update_eq_self]

theorem foldlM_done (hels : els ⊆ g.elements) (henough : ∀ el ∈ els, g.Enough s.pools el) :
    ∃ s', els.foldlM (g.applyPoolConfig memory) s = some s' ∧ s'.pools = s.pools ∧
      ((∀ el ∈ els, s.seen el = g.seenNow s.pools el) → s' = s) := by
  induction els generalizing s with
  | nil => exact ⟨s, rfl, rfl, fun _ => rfl⟩
  | cons el els ih =>
      obtain ⟨hel, hels⟩ := cons_subset.mp hels
      have hone : g.applyPoolConfig memory s el =
          some { s with seen := update s.seen el (g.seenNow s.pools el) } :=
        applyPoolConfig_done hel (henough el mem_cons_self)
      obtain ⟨s', hrest, hpools, hsame⟩ :=
        ih (s := { s with seen := update s.seen el (g.seenNow s.pools el) }) hels
          fun x hx => henough x (mem_cons_of_mem el hx)
      rw [foldlM_cons, hone]
      refine ⟨s', hrest, hpools, fun hseen => ?_⟩
      have hkept : update s.seen el (g.seenNow s.pools el) = s.seen := by
        rw [← hseen el mem_cons_self, update_eq_self]
      rw [hkept] at hsame
      exact hsame fun x hx => hseen x (mem_cons_of_mem el hx)

/-- **The pools follow the graph.**  The count is the number of queues that can be reached; after an
update the pool of every element has that many buffers at least, and two, no fewer than before and
no more than its maximum.  Another update changes no pool, and nothing at all unless elements share
a pool, which one of them may have seen before the other one has sized it. -/
theorem poolSizing_follows (g : PooledTopology) (memory : SizingMemory)
    (hmemory : memory.NeverFails) (s : SizingState)
    (hpools : ∀ pool, BufferPool.pool.Reachable (s.pools pool)) :
    ∃ s', g.updateBufferPoolSizing memory s = some s' ∧
      (∀ el ∈ g.elements, ∀ pool, g.pool el = some pool →
        ∃ n, g.countDownstream "queue" el = some n ∧ n = (g.downstream "queue" el).ncard ∧
          (1 ≤ n → n + 2 ≤ (s'.pools pool).pool.config.minBuffers.toNat) ∧
          (s.pools pool).pool.config.minBuffers ≤ (s'.pools pool).pool.config.minBuffers ∧
          (s'.pools pool).pool.config.minBuffers ≤ (s'.pools pool).pool.config.maxBuffers) ∧
      ∀ again : SizingMemory, ∃ s'', g.updateBufferPoolSizing again s' = some s'' ∧
        s''.pools = s'.pools ∧ (g.PoolsApart → s'' = s') := by
  obtain ⟨s', hrun, happlied⟩ := foldlM_applied (s := { s with dirty := false }) hmemory
    (List.Subset.refl g.elements) fun pool => BufferPool.reachable_conserved (hpools pool)
  refine ⟨s', hrun, fun el hel pool hpool => ?_, fun again => ?_⟩
  · obtain ⟨n, hcount, -, hncard⟩ := countDownstream_few hel
    exact ⟨n, hcount, hncard,
      fun hn => happlied.enough el hel pool n hpool hcount (Nat.one_le_iff_ne_zero.mp hn),
      happlied.le pool, (happlied.conserved pool).min_le⟩
  · have hclean : { s' with dirty := false } = s' := by
      have hdirty : s'.dirty = false := happlied.dirty
      rw [← hdirty]
    obtain ⟨s'', hagain, hsame, hkept⟩ := @foldlM_done g again s' g.elements
      (List.Subset.refl g.elements) fun el hel => happlied.enough el hel
    refine ⟨s'', ?_, hsame, fun hapart => hkept ?_⟩
    · rw [updateBufferPoolSizing, hclean]
      exact hagain
    · exact happlied.remembered hapart (List.Subset.refl _)

/-- Memory is there whenever it is asked for. -/
theorem neverFails_plenty : SizingMemory.NeverFails ⟨fun _ => true, fun _ _ => true⟩ := by
  have hfill : ∀ bound n (w : BufferPool.World), (w.fill (fun _ => true) bound n).2 = true := by
    intro bound n
    induction n with
    | zero => exact fun w => rfl
    | succ n ih =>
        intro w
        rw [BufferPool.World.fill]
        split
        · exact ih _
        · rfl
  intro el w config
  unfold BufferPool.World.setConfig
  dsimp only
  rw [if_neg fun h => Bool.noConfusion h.2]
  split
  · exact hfill _ _ _
  · rfl

/-- A source and two queues that feed each other, and the pool of the source. -/
def queueLoop : PooledTopology where
  elements := [0, 1, 2]
  srcPads x := if x = 0 then [some 1] else if x = 1 then [none, some 2] else [some 1]
  sinkPads x := if x = 1 then [true, true] else if x = 2 then [true] else []
  few := by decide
  descName x := if x = 0 then some "source" else some "queue"
  opsName _ := none
  pool x := if x = 0 then some 0 else none

/-- The two queues are counted once each, and the pool of the source gets four buffers at least. -/
theorem poolSizing_follows_queueLoop :
    ∃ s', queueLoop.updateBufferPoolSizing ⟨fun _ => true, fun _ _ => true⟩
        ⟨fun _ => BufferPool.create true ⟨1, 2, 0, 0, 0, 0, false⟩ fun _ => true,
          fun _ => ⟨none, 0, 0, 0, 0, 0⟩, true⟩ = some s' ∧
      4 ≤ (s'.pools 0).pool.config.minBuffers.toNat := by
  obtain ⟨s', hrun, hsized, -⟩ := poolSizing_follows queueLoop ⟨fun _ => true, fun _ _ => true⟩
    neverFails_plenty
    ⟨fun _ => BufferPool.create true ⟨1, 2, 0, 0, 0, 0, false⟩ fun _ => true,
      fun _ => ⟨none, 0, 0, 0, 0, 0⟩, true⟩
    fun _ => .start ⟨true, _, _, rfl⟩
  obtain ⟨n, hcount, -, henough, -⟩ := hsized 0 (by decide) 0 rfl
  have htwo : queueLoop.countDownstream "queue" 0 = some 2 := by decide +kernel
  obtain rfl : n = 2 := Option.some.inj (hcount.symm.trans htwo)
  exact ⟨s', hrun, henough (by decide)⟩

end PooledTopology

end Zstreamer

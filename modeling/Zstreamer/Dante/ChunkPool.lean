/-
# The pool of packet chunks

`source_chunk_acquire` and `source_chunk_release`, called by any number of threads.  A chunk comes
from the free list, or else from the allocator, outside of the lock.  `source_pool_count` counts the
first 8192 allocations and never goes down; a chunk is put on the free list when the count is at
most 8192, which it always is.  So no chunk goes back to the allocator, and the free list holds as
many chunks as there have ever been at once, less those that are handed out.
-/

import Zstreamer.Foundation.Runs
import Mathlib.Data.List.Nodup

namespace Zstreamer.Dante.ChunkPool

open Foundation List

variable {Chunk : Type} [DecidableEq Chunk]

/-- `DANTE_POOL_MAX_CHUNKS` -/
def poolMaxChunks : ℕ := 8192

/-- The free list and the count; the calls that are in the allocator; and the chunks that have been
acquired and not released. -/
structure Pool (Chunk : Type) where
  sourcePoolFree : List Chunk
  sourcePoolCount : ℕ
  allocating : ℕ
  outstanding : List Chunk

/-- What a call does between taking the lock and giving it back, and what the allocator answers. -/
inductive Action (Chunk : Type)
  | acquire
  | malloc (chunk : Option Chunk)
  | release (chunk : Chunk)

/-- `source_chunk_acquire` as far as it holds the lock. -/
def acquire (s : Pool Chunk) : Pool Chunk :=
  match s.sourcePoolFree with
  | chunk :: next => { s with sourcePoolFree := next, outstanding := chunk :: s.outstanding }
  | [] =>
      { s with
        sourcePoolCount :=
          if s.sourcePoolCount < poolMaxChunks then s.sourcePoolCount + 1 else s.sourcePoolCount
        allocating := s.allocating + 1 }

/-- `source_chunk_release` -/
def release (s : Pool Chunk) (chunk : Chunk) : Pool Chunk :=
  if s.sourcePoolCount ≤ poolMaxChunks then
    { s with sourcePoolFree := chunk :: s.sourcePoolFree, outstanding := s.outstanding.erase chunk }
  else { s with outstanding := s.outstanding.erase chunk }

/-- The allocator gives no chunk that exists already, or none at all; and only what was acquired is
released. -/
def next (s : Pool Chunk) : Action Chunk → Option (Pool Chunk)
  | .acquire => some (acquire s)
  | .malloc none => if 0 < s.allocating then some { s with allocating := s.allocating - 1 } else none
  | .malloc (some chunk) =>
      if 0 < s.allocating ∧ chunk ∉ s.outstanding ++ s.sourcePoolFree then
        some { s with allocating := s.allocating - 1, outstanding := chunk :: s.outstanding }
      else none
  | .release chunk => if chunk ∈ s.outstanding then some (release s chunk) else none

/-- The pool of a process: it is empty at first. -/
def pool : System (Pool Chunk) (Action Chunk) where
  init s := s = ⟨[], 0, 0, []⟩
  next := next

/-- What holds of a pool: the free list has no more chunks than the limit, the chunks are distinct,
and a chunk that is released to a full list goes back to the allocator. -/
structure Bounded (s : Pool Chunk) : Prop where
  bounded : s.sourcePoolFree.length ≤ poolMaxChunks
  distinct : (s.outstanding ++ s.sourcePoolFree).Nodup
  returned : ∀ chunk s', poolMaxChunks ≤ s.sourcePoolFree.length →
    next s (.release chunk) = some s' → s'.sourcePoolFree = s.sourcePoolFree

/-- When the allocator gives a chunk there are fewer than the limit, handed out or on the free
list. -/
def WithinLimit (s : Pool Chunk) : Action Chunk → Prop
  | .malloc (some _) => s.outstanding.length + s.sourcePoolFree.length < poolMaxChunks
  | _ => True

instance (s : Pool Chunk) : ∀ a, Decidable (WithinLimit s a)
  | .malloc (some _) => inferInstanceAs (Decidable (_ < _))
  | .malloc none => .isTrue trivial
  | .acquire => .isTrue trivial
  | .release _ => .isTrue trivial

/-! ## What a step does -/

/-- What does not depend on the limit: the count never passes it, and chunks are distinct. -/
structure Sound (s : Pool Chunk) : Prop where
  count : s.sourcePoolCount ≤ poolMaxChunks
  distinct : (s.outstanding ++ s.sourcePoolFree).Nodup

/-- A released chunk is put on the free list. -/
theorem release_eq {s : Pool Chunk} (hcount : s.sourcePoolCount ≤ poolMaxChunks) (chunk : Chunk) :
    release s chunk =
      { s with
        sourcePoolFree := chunk :: s.sourcePoolFree
        outstanding := s.outstanding.erase chunk } :=
  if_pos hcount

/-- The chunks that exist, before and after a step. -/
theorem chunks_next {s s' : Pool Chunk} {a : Action Chunk} (hsound : Sound s)
    (hnext : next s a = some s') :
    (∃ chunk, a = .malloc (some chunk) ∧ chunk ∉ s.outstanding ++ s.sourcePoolFree ∧
        s'.outstanding ++ s'.sourcePoolFree = chunk :: (s.outstanding ++ s.sourcePoolFree)) ∨
      (s'.outstanding ++ s'.sourcePoolFree).Perm (s.outstanding ++ s.sourcePoolFree) := by
  cases a with
  | acquire =>
      obtain rfl : acquire s = s' := Option.some.inj hnext
      right
      rw [acquire]
      cases hfree : s.sourcePoolFree with
      | nil =>
          dsimp only
          exact List.Perm.refl _
      | cons chunk rest => exact perm_middle.symm
  | malloc answer =>
      cases answer with
      | none =>
          cases (Option.ite_none_right_eq_some.mp hnext).2
          exact Or.inr (List.Perm.refl _)
      | some chunk =>
          obtain ⟨hfresh, hgiven⟩ := Option.ite_none_right_eq_some.mp hnext
          cases hgiven
          exact Or.inl ⟨chunk, rfl, hfresh.2, rfl⟩
  | release chunk =>
      obtain ⟨hmem, hgiven⟩ := Option.ite_none_right_eq_some.mp hnext
      cases hgiven
      rw [release_eq hsound.count]
      exact Or.inr (perm_middle.trans
        ((perm_cons_erase hmem).symm.append_right s.sourcePoolFree))

theorem count_next {s s' : Pool Chunk} {a : Action Chunk} (hnext : next s a = some s')
    (hcount : s.sourcePoolCount ≤ poolMaxChunks) : s'.sourcePoolCount ≤ poolMaxChunks := by
  cases a with
  | acquire =>
      obtain rfl : acquire s = s' := Option.some.inj hnext
      rw [acquire]
      split
      · exact hcount
      · dsimp only
        split
        case isTrue hlow => exact hlow
        case isFalse => exact hcount
  | malloc answer =>
      cases answer with
      | none =>
          cases (Option.ite_none_right_eq_some.mp hnext).2
          exact hcount
      | some chunk =>
          cases (Option.ite_none_right_eq_some.mp hnext).2
          exact hcount
  | release chunk =>
      cases (Option.ite_none_right_eq_some.mp hnext).2
      rw [release_eq hcount]
      exact hcount

theorem Sound.next {s s' : Pool Chunk} {a : Action Chunk} (hsound : Sound s)
    (hnext : ChunkPool.next s a = some s') : Sound s' := by
  refine ⟨count_next hnext hsound.count, ?_⟩
  rcases chunks_next hsound hnext with ⟨chunk, -, hfresh, hchunks⟩ | hperm
  · rw [hchunks]
    exact nodup_cons.mpr ⟨hfresh, hsound.distinct⟩
  · exact hperm.nodup_iff.mpr hsound.distinct

/-! ## Runs -/

/-- **In every run the chunks that are handed out are distinct**, whatever the limit. -/
theorem sound_of_reachable {allowed : Pool Chunk → Action Chunk → Prop} {s : Pool Chunk}
    (hs : pool.ReachableVia allowed s) : Sound s := by
  refine hs.invariant ?_ fun _ _ _ _ hsound _ hnext => hsound.next hnext
  rintro s rfl
  exact ⟨Nat.zero_le _, nodup_nil⟩

/-- There are never more chunks than the limit when each is allocated within it. -/
theorem chunks_le {s : Pool Chunk} (hs : pool.ReachableVia WithinLimit s) :
    (s.outstanding ++ s.sourcePoolFree).length ≤ poolMaxChunks := by
  refine hs.invariant (I := fun s => (s.outstanding ++ s.sourcePoolFree).length ≤ poolMaxChunks)
    ?_ fun s a s' hreach hle hwithin hnext => ?_
  · rintro s rfl
    exact Nat.zero_le _
  · rcases chunks_next (sound_of_reachable hreach) hnext with ⟨chunk, rfl, -, hchunks⟩ | hperm
    · rw [hchunks, length_cons, length_append]
      exact hwithin
    · rw [hperm.length_eq]
      exact hle

/-- **The pool is bounded in every run in which at most 8192 chunks exist at once.** -/
theorem bounded_of_within {s : Pool Chunk} (hs : pool.ReachableVia WithinLimit s) : Bounded s := by
  have hsound := sound_of_reachable hs
  have hle := chunks_le hs
  rw [length_append] at hle
  refine ⟨by omega, hsound.distinct, fun chunk s' hfull hnext => ?_⟩
  have hpos := length_pos_of_mem (Option.ite_none_right_eq_some.mp hnext).1
  omega

/-- Two packets come in; the first goes out and its chunk is used for a third one, while there is no
memory for a fourth; then the second goes out. -/
def reuse : List (Action ℕ) :=
  [.acquire, .acquire, .malloc (some 1), .malloc (some 2), .release 1, .acquire, .acquire,
    .malloc none, .release 2]

theorem bounded_of_within_reuse :
    ∃ s, pool.run ⟨[], 0, 0, []⟩ reuse = some s ∧ s.outstanding = [1] ∧ s.sourcePoolFree = [2] ∧
      Bounded s := by
  refine ⟨⟨[2], 3, 0, [1]⟩, rfl, rfl, rfl, bounded_of_within ?_⟩
  have hstart : (pool.restrict WithinLimit).Reachable (⟨[], 0, 0, []⟩ : Pool ℕ) := .start rfl
  exact System.Reachable.of_restrict
    (hstart.run (show (pool.restrict WithinLimit).run _ reuse = some _ from rfl))

/-! ## Beyond the limit -/

/-- When everything is released it is all on the free list. -/
theorem run_releases {s : Pool Chunk} (hcount : s.sourcePoolCount ≤ poolMaxChunks) :
    pool.run s (s.outstanding.map .release) =
      some { s with
        sourcePoolFree := s.outstanding.reverse ++ s.sourcePoolFree
        outstanding := [] } := by
  obtain ⟨free, count, allocating, outstanding⟩ := s
  induction outstanding generalizing free with
  | nil => rfl
  | cons chunk outstanding ih =>
      have hfirst : pool.next (⟨free, count, allocating, chunk :: outstanding⟩ : Pool Chunk)
          (.release chunk) = some ⟨chunk :: free, count, allocating, outstanding⟩ := by
        refine (if_pos mem_cons_self).trans ?_
        rw [release_eq hcount, erase_cons_head]
      rw [map_cons, System.run, hfirst, Option.bind_some, ih (chunk :: free) hcount,
        reverse_cons, append_assoc]
      rfl

/-- **One chunk beyond the limit is enough**: when what is then handed out has been released, the
free list is longer than the limit. -/
theorem overflow_of_not_within {s s' : Pool Chunk} {a : Action Chunk} (hs : pool.Reachable s)
    (hbeyond : ¬ WithinLimit s a) (hnext : pool.next s a = some s') :
    ∃ cached, pool.run s' (s'.outstanding.map .release) = some cached ∧
      poolMaxChunks < cached.sourcePoolFree.length := by
  have hsound' := sound_of_reachable (hs.step trivial hnext)
  have hmore : poolMaxChunks < (s'.outstanding ++ s'.sourcePoolFree).length := by
    rcases a with _ | answer | chunk
    case acquire => exact absurd trivial hbeyond
    case release => exact absurd trivial hbeyond
    case malloc =>
      cases answer with
      | none => exact absurd trivial hbeyond
      | some chunk =>
          have hfull : poolMaxChunks ≤ s.outstanding.length + s.sourcePoolFree.length :=
            Nat.le_of_not_lt hbeyond
          obtain ⟨-, hgiven⟩ := Option.ite_none_right_eq_some.mp hnext
          cases hgiven
          rw [cons_append, length_cons, length_append]
          exact Nat.lt_succ_of_le hfull
  refine ⟨_, run_releases hsound'.count, ?_⟩
  rw [length_append] at hmore ⊢
  rwa [length_reverse]

/-- A burst of packets: so many chunks are allocated and none is released. -/
theorem reachable_burst (n : ℕ) :
    ∃ count, pool.Reachable (⟨[], count, 0, (range n).reverse⟩ : Pool ℕ) := by
  induction n with
  | zero => exact ⟨0, .start rfl⟩
  | succ n ih =>
      obtain ⟨count, hreach⟩ := ih
      have hfresh : n ∉ (range n).reverse ++ [] := by
        rw [append_nil, mem_reverse, mem_range]
        exact Nat.lt_irrefl n
      let burst : Pool ℕ := ⟨[], count, 0, (range n).reverse⟩
      have hcall : pool.next burst .acquire = some (acquire burst) := rfl
      have hasked : pool.Reachable (acquire burst) := hreach.step trivial hcall
      have hgiven : pool.next (acquire burst) (.malloc (some n)) =
          some ⟨[], (acquire burst).sourcePoolCount, 0, n :: (range n).reverse⟩ :=
        if_pos ⟨Nat.succ_pos 0, hfresh⟩
      refine ⟨(acquire burst).sourcePoolCount, ?_⟩
      rw [range_succ, reverse_append]
      exact hasked.step trivial hgiven

/-- After a burst everything is on the free list. -/
theorem reachable_cached (n : ℕ) :
    ∃ s : Pool ℕ, pool.Reachable s ∧ s.sourcePoolFree.length = n := by
  obtain ⟨count, hreach⟩ := reachable_burst n
  refine ⟨_, hreach.run (run_releases (sound_of_reachable hreach).count), ?_⟩
  dsimp only
  rw [append_nil, length_reverse, length_reverse, length_range]

/-- A burst of 8193 packets that are then released. -/
theorem free_list_overflows : ¬ ∀ s : Pool ℕ, pool.Reachable s → Bounded s := by
  intro hall
  obtain ⟨s, hreach, hlength⟩ := reachable_cached 8193
  have hbounded := (hall s hreach).bounded
  rw [hlength, poolMaxChunks] at hbounded
  omega

end Zstreamer.Dante.ChunkPool

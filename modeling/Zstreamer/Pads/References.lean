/-
# Pads shared by threads: links and reference counts

A pad is freed when its last reference is dropped.  References are held by the owners
of a pad, by the list of its element, by the link to its peer, and for a short time
by calls that are under way.  This module has the steps of `zst_pad_link`,
`zst_pad_unlink`, `zst_pad_ref`, `zst_pad_unref` and `zst_element_remove_pad` in any
number of threads, and of the calls that look up a peer and hold it for a while
(`zst_pad_push`, `zst_pad_push_event`, `zst_pad_get_peer`, and the sticky events at
the end of a link).  A section under one lock or under the two of `pad_lock_pair`
is one step, and so is each change of a reference count.

A reference count is the `int` of the source; the other counts say who the
references belong to and exist in no program.  What reference counting asks of
callers is in the guards: an owner drops a reference it has, and the last reference
from outside is not given up while a call on the pad relies on it.  Negotiation
changes no link; whether it succeeds is part of the action.
-/

import Zstreamer.Pads.Link
import Zstreamer.Foundation.Runs
import Zstreamer.Foundation.Tally

namespace Zstreamer.Pads.References

open Foundation Function

/-- Where a thread is in the call it makes. -/
inductive Place
  | idle
  /-- Past the checks of `zst_pad_link` and before the section under the two locks. -/
  | linking (src sink : ℕ)
  /-- In a call on some pads that holds references to peers it looked up. -/
  | visiting (args refs : List ℕ)
  /-- In `zst_pad_unlink`, before reading the peer; in `zst_element_remove_pad` if
  `removing`. -/
  | fetching (pad : ℕ) (removing : Bool)
  /-- Holding a reference to the peer and about to take both locks. -/
  | unlinking (pad peer : ℕ) (removing : Bool)
  /-- At the end of a call, with these references still to drop. -/
  | dropping (refs : List ℕ)
  deriving DecidableEq

/-- Removing a pad takes over the reference of the element's list. -/
def entry (pad : ℕ) (removing : Bool) : List ℕ := if removing then [pad] else []

/-- The references a call holds. -/
def Place.held : Place → List ℕ
  | idle => []
  | linking _ _ => []
  | visiting _ refs => refs
  | fetching pad removing => entry pad removing
  | unlinking pad peer removing => peer :: entry pad removing
  | dropping refs => refs

/-- The pads a call uses and relies on others to keep. -/
def Place.args : Place → List ℕ
  | idle => []
  | linking src sink => [src, sink]
  | visiting args _ => args
  | fetching pad removing => if removing then [] else [pad]
  | unlinking pad _ removing => if removing then [] else [pad]
  | dropping _ => []

/-- All pads and all threads. -/
structure State (ι : Type) where
  direction : ℕ → Direction
  peer : ℕ → Option ℕ
  linked : ℕ → Bool
  refcount : ℕ → ℤ
  /-- `zst_pad_finalize` has run. -/
  finalized : ℕ → Bool
  /-- `zst_pad_finalize` has been reached by some pad with a peer. -/
  staleFinalized : Bool
  /-- References of owners outside, and whether the pad is in the list of its element. -/
  owners : ℕ → ℕ
  listed : ℕ → Bool
  place : ι → Place

namespace State

variable {ι : Type} (s : State ι)

/-- References from outside: owners, and the list of the element. -/
def external (pad : ℕ) : ℕ := s.owners pad + (s.listed pad).toNat

/-- The reference a link holds on each of its ends. -/
def linkRefs (pad : ℕ) : ℕ := if (s.peer pad).isSome then 1 else 0

/-- References held by calls under way. -/
def opRefs [Fintype ι] (pad : ℕ) : ℕ := tally (fun place => place.held.count pad) s.place

/-- `zst_pad_ref` -/
def ref (pad : ℕ) : State ι :=
  { s with refcount := update s.refcount pad (s.refcount pad + 1) }

/-- Take a pad off its peer, on one side. -/
def clear (pad : ℕ) : State ι :=
  { s with
    peer := update s.peer pad none
    linked := update s.linked pad false }

/-- The defensive detachment of `zst_pad_finalize`, and that it has run. -/
def finalize (pad : ℕ) : State ι :=
  let stale := s.peer pad
  let s := { s.clear pad with
    finalized := update s.finalized pad true
    staleFinalized := s.staleFinalized || stale.isSome }
  match stale with
  | none => s
  | some peer => if s.peer peer = some pad then s.clear peer else s

/-- `zst_pad_unref` -/
def unref (pad : ℕ) : State ι :=
  let s' := { s with refcount := update s.refcount pad (s.refcount pad - 1) }
  if s.refcount pad = 1 then s'.finalize pad else s'

/-- The end of the section of `zst_pad_link` under both locks: the two references were taken. -/
def connect (src sink : ℕ) : State ι :=
  { s with
    peer := update (update s.peer src (some sink)) sink (some src)
    linked := update (update s.linked src true) sink true }

/-- The section of `zst_pad_unlink` under both locks, when the peer is still the one read
before. -/
def disconnect (pad peer : ℕ) : State ι :=
  let s := s.clear pad
  if s.peer peer = some pad then s.clear peer else s

/-- An outside owner gets a reference. -/
def own (pad : ℕ) : State ι :=
  { s with owners := update s.owners pad (s.owners pad + 1) }

/-- An outside owner gives one up. -/
def disown (pad : ℕ) : State ι :=
  { s with owners := update s.owners pad (s.owners pad - 1) }

/-- Enter the list of the element, or leave it. -/
def enlist (pad : ℕ) (listed : Bool) : State ι :=
  { s with listed := update s.listed pad listed }

/-- A thread moves on. -/
def goto [DecidableEq ι] (t : ι) (place : Place) : State ι :=
  { s with place := update s.place t place }

theorem finalize_direction (pad : ℕ) : (s.finalize pad).direction = s.direction := by
  unfold finalize
  dsimp only
  split
  · rfl
  · split <;> rfl

theorem unref_direction (pad : ℕ) : (s.unref pad).direction = s.direction := by
  unfold unref
  dsimp only
  split
  · exact finalize_direction _ pad
  · rfl

theorem unref_refcount (pad : ℕ) :
    (s.unref pad).refcount = update s.refcount pad (s.refcount pad - 1) := by
  unfold unref finalize
  dsimp only
  split
  · split
    · rfl
    · split <;> rfl
  · rfl

variable {s} in
/-- Finalizing a pad without a peer only records that it went. -/
theorem finalize_of_free {pad : ℕ} (hpeer : s.peer pad = none) (hflag : s.linked pad = false) :
    s.finalize pad = { s with finalized := update s.finalized pad true } := by
  have hpeers : update s.peer pad none = s.peer := by
    rw [← hpeer, update_eq_self]
  have hflags : update s.linked pad false = s.linked := by
    rw [← hflag, update_eq_self]
  simp [finalize, clear, hpeer, hpeers, hflags]

variable {s} in
/-- Dropping a reference to a pad without a peer leaves all links alone. -/
theorem unref_frame {pad : ℕ} (hpeer : s.peer pad = none) (hflag : s.linked pad = false) :
    (s.unref pad).peer = s.peer ∧ (s.unref pad).linked = s.linked := by
  unfold unref
  dsimp only
  split
  · have hfinal := finalize_of_free (s := { s with
      refcount := update s.refcount pad (s.refcount pad - 1) }) hpeer hflag
    rw [hfinal]
    exact ⟨rfl, rfl⟩
  · exact ⟨rfl, rfl⟩

end State

variable {ι : Type} [Fintype ι] [DecidableEq ι]

/-- A reference from outside can be given up: another remains, or no call relies on it. -/
def MayGiveUp (s : State ι) (pad : ℕ) : Prop :=
  2 ≤ s.external pad ∨ ∀ t, pad ∉ (s.place t).args

instance (s : State ι) (pad : ℕ) : Decidable (MayGiveUp s pad) :=
  inferInstanceAs (Decidable (_ ∨ _))

/-- What threads and owners do. -/
inductive Action (ι : Type)
  | ref (pad : ℕ)
  | unref (pad : ℕ)
  | addPad (pad : ℕ)
  | visit (t : ι) (args : List ℕ)
  | lookUp (t : ι) (pad : ℕ)
  | snapshot (t : ι) (pad : ℕ)
  | release (t : ι) (pad : ℕ)
  | keep (t : ι) (pad : ℕ)
  | leave (t : ι)
  | link (t : ι) (src sink : ℕ)
  | refuse (t : ι)
  | join (t : ι)
  | unlink (t : ι) (pad : ℕ)
  | removePad (t : ι) (pad : ℕ)
  | fetch (t : ι)
  | cut (t : ι)
  | drop (t : ι)
  deriving DecidableEq

/-- One step. -/
def next (s : State ι) : Action ι → Option (State ι)
  -- Owners.
  | .ref pad => if 0 < s.external pad then some ((s.ref pad).own pad) else none
  | .unref pad =>
      if 0 < s.owners pad ∧ MayGiveUp s pad then some ((s.disown pad).unref pad) else none
  | .addPad pad =>
      if 0 < s.owners pad ∧ s.listed pad = false then some ((s.disown pad).enlist pad true)
      else none
  -- Calls that look up peers and hold them for a while.
  | .visit t args =>
      if s.place t = .idle ∧ ∀ pad ∈ args, 0 < s.external pad then
        some (s.goto t (.visiting args []))
      else none
  | .lookUp t pad =>
      match s.place t with
      | .visiting args refs =>
          if pad ∈ args ++ refs then
            match s.peer pad with
            | none => some s
            | some peer => some ((s.ref peer).goto t (.visiting args (peer :: refs)))
          else none
      | _ => none
  | .snapshot t pad =>
      match s.place t with
      | .visiting args refs =>
          if s.listed pad then some ((s.ref pad).goto t (.visiting args (pad :: refs))) else none
      | _ => none
  | .release t pad =>
      match s.place t with
      | .visiting args refs =>
          if pad ∈ refs then some ((s.goto t (.visiting args (refs.erase pad))).unref pad)
          else none
      | _ => none
  | .keep t pad =>
      match s.place t with
      | .visiting args refs =>
          if pad ∈ refs then some ((s.goto t (.visiting args (refs.erase pad))).own pad)
          else none
      | _ => none
  | .leave t =>
      match s.place t with
      | .visiting _ [] => some (s.goto t .idle)
      | _ => none
  -- `zst_pad_link`
  | .link t src sink =>
      if s.place t = .idle ∧ 0 < s.external src ∧ 0 < s.external sink then
        if s.direction src = .src ∧ s.direction sink = .sink then
          some (s.goto t (.linking src sink))
        else some s
      else none
  | .refuse t =>
      match s.place t with
      | .linking _ _ => some (s.goto t .idle)
      | _ => none
  | .join t =>
      match s.place t with
      | .linking src sink =>
          if (s.peer src).isSome ∨ (s.peer sink).isSome then some (s.goto t .idle)
          else some ((((s.ref sink).ref src).connect src sink).goto t (.visiting [src, sink] []))
      | _ => none
  -- `zst_pad_unlink` and `zst_element_remove_pad`
  | .unlink t pad =>
      if s.place t = .idle ∧ 0 < s.external pad then some (s.goto t (.fetching pad false))
      else none
  | .removePad t pad =>
      if s.place t = .idle then
        if s.listed pad then
          if MayGiveUp s pad then some ((s.enlist pad false).goto t (.fetching pad true)) else none
        else some s
      else none
  | .fetch t =>
      match s.place t with
      | .fetching pad removing =>
          match s.peer pad with
          | none => some (s.goto t (.dropping (entry pad removing)))
          | some peer => some ((s.ref peer).goto t (.unlinking pad peer removing))
      | _ => none
  | .cut t =>
      match s.place t with
      | .unlinking pad peer removing =>
          if s.peer pad = some peer then
            some ((s.disconnect pad peer).goto t
              (.dropping (peer :: pad :: peer :: entry pad removing)))
          else some (s.goto t (.dropping (peer :: entry pad removing)))
      | _ => none
  | .drop t =>
      match s.place t with
      | .dropping [] => some (s.goto t .idle)
      | .dropping (pad :: refs) => some ((s.goto t (.dropping refs)).unref pad)
      | _ => none

/-- Pads as `zst_pad_create` leaves them, each with the one reference of its creator. -/
def Initial (s : State ι) : Prop :=
  (∀ pad, s.peer pad = none ∧ s.linked pad = false ∧ s.refcount pad = 1 ∧
    s.finalized pad = false ∧ s.owners pad = 1 ∧ s.listed pad = false) ∧
  s.staleFinalized = false ∧ ∀ t, s.place t = .idle

/-- Pads under any interleaving of the calls. -/
def system (ι : Type) [Fintype ι] [DecidableEq ι] : System (State ι) (Action ι) where
  init := Initial
  next := next

end Zstreamer.Pads.References

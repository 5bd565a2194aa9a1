/-
# The segments of the pads

A pad has a segment and a flag that says whether there is one.  `zst_pad_set_segment` checks what
it is given, but only after it has stored it, and `zst_pad_push_segment` carries a segment
downstream by that function and does not look at its answer.  A segment event is stored as it is:
on the source pad it is pushed on, on the peer and on all the targets behind a ghost pad, and so
on downstream.

A call is taken apart into the pieces between two of which other code may run: a probe or the event
function of an element may make calls of its own, which go on top of what is still to be done.
What a probe answers is part of the action.  Every call of `zst_pad_set_segment`, also the ones
from within, leaves a record of what it has found, answered and left.

`segments_sound_iff` gives the runs in which every segment there is makes sense and no call that
fails has an effect: those that do not hand in a segment that makes no sense.
-/

import Zstreamer.Foundation.Runs
import Zstreamer.Pads.Link

namespace Zstreamer.Pads.Segments

open Foundation

/-- `ZST_SEGMENT_STOP_NONE` -/
def stopNone : UInt64 := 0xFFFFFFFFFFFFFFFF

/-- The segment of a pad, and `has_segment`. -/
structure PadSegment where
  segment : Segment
  hasSegment : Bool
  deriving DecidableEq, Repr

/-- How the pads hang together.  Elements and pads are numbers. -/
structure Wiring where
  direction : ℕ → Direction
  peer : ℕ → Option ℕ
  parent : ℕ → Option ℕ
  srcPads : ℕ → List ℕ
  /-- Whether an element has an event function. -/
  hasEvent : ℕ → Bool
  /-- `zst_ghost_pad_get_target` -/
  target : ℕ → Option ℕ
  /-- The ghost pad that a pad without a parent named "ghost-proxy-sink" stands for. -/
  proxyOf : ℕ → Option ℕ

/-- `zst_pad_set_segment` -/
def setSegment (new : Segment) (p : PadSegment) : Result × PadSegment :=
  let segment := if new.rate.eq .zero then { new with rate := one } else new
  let p := { p with segment := segment }
  if segment.stop ≠ stopNone ∧ segment.stop < segment.start then (.error, p)
  else (.ok, { p with hasSegment := true })

/-- What is left to do of the calls under way. -/
inductive Task
  /-- `pad_propagate_segment` of a source pad. -/
  | propagate (pad : ℕ) (segment : Segment) (depth : ℕ)
  /-- The rest of it, from the peer on. -/
  | propagatePeer (peer : ℕ) (segment : Segment) (depth : ℕ)
  /-- `zst_pad_push_event_internal` -/
  | pushEvent (pad : ℕ) (segment : Segment) (depth : ℕ)
  /-- The loop over the ghost pads, from the current one on. -/
  | walk (current : ℕ) (segment : Segment) (depth : ℕ)
  /-- What comes after the loop, at the last pad. -/
  | deliver (peer : ℕ) (segment : Segment) (depth : ℕ)
  deriving DecidableEq

/-- A call of `zst_pad_set_segment`: the pad before, the answer, and the pad behind it. -/
structure SetCall where
  before : PadSegment
  result : Result
  after : PadSegment

structure State where
  pads : ℕ → PadSegment
  tasks : List Task
  sets : List SetCall

namespace State

/-- Call `zst_pad_set_segment`. -/
def set (pad : ℕ) (segment : Segment) (s : State) : State :=
  let answer := setSegment segment (s.pads pad)
  { s with
    pads := Function.update s.pads pad answer.2
    sets := ⟨s.pads pad, answer.1, answer.2⟩ :: s.sets }

/-- Store the segment of an event. -/
def store (pad : ℕ) (segment : Segment) (s : State) : State :=
  { s with pads := Function.update s.pads pad ⟨segment, true⟩ }

/-- `zst_pad_clear_segment` -/
def clear (pad : ℕ) (s : State) : State :=
  { s with pads := Function.update s.pads pad ⟨Segment.default, false⟩ }

/-- More is to be done before the rest. -/
def push (tasks : List Task) (s : State) : State := { s with tasks := tasks ++ s.tasks }

end State

variable (w : Wiring)

/-- The source pads of the element a pad belongs to. -/
def downstream (pad : ℕ) : List ℕ :=
  match w.parent pad with
  | none => []
  | some el => w.srcPads el

/-- `pad_propagate_segment`, up to the peer. -/
def propagate (pad : ℕ) (segment : Segment) (depth : ℕ) (dropped : Bool) (s : State) : State :=
  if depth > 256 ∨ dropped = true then s
  else
    let s := s.set pad segment
    if w.direction pad = .src then
      match w.peer pad with
      | none => s
      | some peer => s.push [.propagatePeer peer segment depth]
    else s

/-- `zst_pad_push_event_internal`, up to the peer. -/
def pushEvent (pad : ℕ) (segment : Segment) (depth : ℕ) (dropped : Bool) (s : State) : State :=
  if w.direction pad ≠ .src ∨ depth > 256 then s
  else
    let s := s.store pad segment
    if dropped then s
    else
      match w.peer pad with
      | none => s
      | some peer =>
          match w.proxyOf peer with
          | some ghost => s.push [.pushEvent ghost segment (depth + 1)]
          | none => s.push [.walk peer segment depth]

/-- Do the next piece; `dropped` is what the probes of its pad answer. -/
def advance (dropped : Bool) (s : State) : Task → State
  | .propagate pad segment depth => propagate w pad segment depth dropped s
  | .propagatePeer peer segment depth =>
      let s := if dropped then s else s.set peer segment
      s.push ((downstream w peer).map (.propagate · segment (depth + 1)))
  | .pushEvent pad segment depth => pushEvent w pad segment depth dropped s
  | .walk current segment depth =>
      let s := s.store current segment
      match w.target current with
      | some target => s.push [.walk target segment depth]
      | none => s.push [.deliver current segment depth]
  | .deliver peer segment depth =>
      if dropped = true ∨ (w.parent peer).any w.hasEvent = true then s
      else s.push ((downstream w peer).map (.pushEvent · segment (depth + 1)))

/-- The calls, with what the probes of their own pad answer, and going on with what is under way. -/
inductive Action
  | setSegment (pad : ℕ) (segment : Segment)
  | clearSegment (pad : ℕ)
  | pushSegment (pad : ℕ) (segment : Segment) (dropped : Bool)
  | pushEvent (pad : ℕ) (segment : Segment) (dropped : Bool)
  | advance (dropped : Bool)
  deriving DecidableEq

/-- The step function. -/
def next (s : State) : Action → Option State
  | .setSegment pad segment => some (s.set pad segment)
  | .clearSegment pad => some (s.clear pad)
  | .pushSegment pad segment dropped =>
      if w.direction pad ≠ .src then some s else some (propagate w pad segment 0 dropped s)
  | .pushEvent pad segment dropped => some (pushEvent w pad segment 0 dropped s)
  | .advance dropped =>
      match s.tasks with
      | [] => none
      | task :: tasks => some (advance w dropped { s with tasks := tasks } task)

/-- All pads are new. -/
def fresh : State := ⟨fun _ => ⟨Segment.default, false⟩, [], []⟩

/-- The segments of pads that are wired in one way. -/
def system : System State Action where
  init s := s = fresh
  next := next w

/-! ## Segments that make sense -/

/-- The end is not before the start. -/
def Ordered (segment : Segment) : Prop := segment.stop = stopNone ∨ segment.start ≤ segment.stop

instance (segment : Segment) : Decidable (Ordered segment) := inferInstanceAs (Decidable (_ ∨ _))

/-- The rate is not 0, and the end is not before the start. -/
def Valid (segment : Segment) : Prop := segment.rate.eq .zero = false ∧ Ordered segment

/-- Every segment there is makes sense, and a call of `zst_pad_set_segment` that fails leaves the
pad as it was. -/
structure Sound (s : State) : Prop where
  valid : ∀ pad, (s.pads pad).hasSegment = true → Valid (s.pads pad).segment
  unchanged : ∀ call ∈ s.sets, call.result ≠ .ok → call.after = call.before

/-- The calls that hand in no segment that makes no sense, unless it goes nowhere. -/
def Harmless : Action → Prop
  | .setSegment _ segment => Ordered segment
  | .pushSegment pad segment dropped =>
      w.direction pad = .src → dropped = false → Ordered segment
  | .pushEvent pad segment _ => w.direction pad = .src → Valid segment
  | .clearSegment _ => True
  | .advance _ => True

/-- The segment of a piece has been checked before. -/
def Task.Checked : Task → Prop
  | .propagate _ segment _ => Ordered segment
  | .propagatePeer _ segment _ => Ordered segment
  | .pushEvent _ segment _ => Valid segment
  | .walk _ segment _ => Valid segment
  | .deliver _ segment _ => Valid segment

/-- What keeps a state sound: also where there is no segment the fields are in order, so nothing
that is not can be stored without a change. -/
structure Inv (s : State) : Prop extends Sound s where
  ordered : ∀ pad, Ordered (s.pads pad).segment
  checked : ∀ task ∈ s.tasks, task.Checked

variable {w} {s s' : State} {pad : ℕ} {segment : Segment} {depth : ℕ} {dropped : Bool}

theorem inv_fresh : Inv fresh where
  valid _ h := nomatch h
  unchanged := nofun
  ordered _ := .inl rfl
  checked := nofun

/-- The segment `zst_pad_set_segment` stores. -/
def withRate (segment : Segment) : Segment :=
  if segment.rate.eq .zero then { segment with rate := one } else segment

theorem withRate_rate (segment : Segment) : (withRate segment).rate.eq .zero = false := by
  rw [withRate]
  by_cases hzero : segment.rate.eq .zero = true
  · rw [if_pos hzero]
    exact show one.eq .zero = false by decide
  · rw [if_neg hzero]
    exact (Bool.not_eq_true _).mp hzero

theorem ordered_withRate : Ordered (withRate segment) ↔ Ordered segment := by
  rw [withRate]
  split <;> rfl

theorem ordered_iff : Ordered segment ↔ ¬ (segment.stop ≠ stopNone ∧ segment.stop < segment.start) := by
  rw [Ordered, not_and_or, not_not, UInt64.not_lt]

/-- What is in order is stored, with the flag. -/
theorem setSegment_ordered (hordered : Ordered segment) (p : PadSegment) :
    setSegment segment p = (.ok, ⟨withRate segment, true⟩) :=
  if_neg (ordered_iff.mp (ordered_withRate.mpr hordered))

/-- What is not in order is stored, and refused. -/
theorem setSegment_disordered (hdisordered : ¬ Ordered segment) (p : PadSegment) :
    setSegment segment p = (.error, ⟨withRate segment, p.hasSegment⟩) :=
  if_pos (not_not.mp (mt (ordered_iff.mpr ·) (mt ordered_withRate.mp hdisordered)))

/-- One pad has got a segment that makes sense. -/
theorem Inv.update (h : Inv s) {p : PadSegment} (hordered : Ordered p.segment)
    (hvalid : p.hasSegment = true → Valid p.segment) :
    Inv { s with pads := Function.update s.pads pad p } := by
  have hpads : ∀ q, Function.update s.pads pad p q = p ∨ Function.update s.pads pad p q = s.pads q := by
    intro q
    rw [Function.update_apply]
    split
    · exact .inl rfl
    · exact .inr rfl
  refine ⟨⟨fun q hq => ?_, h.unchanged⟩, fun q => ?_, h.checked⟩
  · dsimp only at hq ⊢
    rcases hpads q with heq | heq
    · rw [heq] at hq ⊢
      exact hvalid hq
    · rw [heq] at hq ⊢
      exact h.valid q hq
  · dsimp only
    rcases hpads q with heq | heq
    · rw [heq]
      exact hordered
    · rw [heq]
      exact h.ordered q

theorem Inv.set (h : Inv s) (hordered : Ordered segment) : Inv (s.set pad segment) := by
  have hanswer := setSegment_ordered hordered (s.pads pad)
  have hvalid : Valid (withRate segment) := ⟨withRate_rate segment, ordered_withRate.mpr hordered⟩
  have hupdate : Inv { s with pads := Function.update s.pads pad ⟨withRate segment, true⟩ } :=
    h.update hvalid.2 fun _ => hvalid
  rw [State.set, hanswer]
  refine { hupdate with unchanged := fun call hcall hfailed => ?_ }
  rcases List.mem_cons.mp hcall with rfl | hcall
  · exact absurd rfl hfailed
  · exact h.unchanged call hcall hfailed

theorem Inv.store (h : Inv s) (hvalid : Valid segment) : Inv (s.store pad segment) :=
  h.update hvalid.2 fun _ => hvalid

theorem Inv.clear (h : Inv s) : Inv (s.clear pad) := h.update (.inl rfl) nofun

theorem Inv.push (h : Inv s) {tasks : List Task} (hchecked : ∀ task ∈ tasks, task.Checked) :
    Inv (s.push tasks) :=
  { h with checked := fun task htask => (List.mem_append.mp htask).elim (hchecked task) (h.checked task) }

theorem Inv.push_one (h : Inv s) {task : Task} (hchecked : task.Checked) : Inv (s.push [task]) :=
  h.push fun _ htask => List.mem_singleton.mp htask ▸ hchecked

/-- Carrying a segment that is in order downstream. -/
theorem Inv.propagate (h : Inv s) (hordered : dropped = false → Ordered segment) :
    Inv (Segments.propagate w pad segment depth dropped s) := by
  rw [Segments.propagate]
  split
  case isTrue => exact h
  case isFalse hgoes =>
    have hordered := hordered ((Bool.not_eq_true _).mp (not_or.mp hgoes).2)
    have hset : Inv (s.set pad segment) := h.set hordered
    dsimp only
    split
    · cases w.peer pad with
      | none => exact hset
      | some peer => exact hset.push_one hordered
    · exact hset

/-- Pushing an event whose segment is valid. -/
theorem Inv.pushEvent (h : Inv s) (hvalid : w.direction pad = .src → Valid segment) :
    Inv (Segments.pushEvent w pad segment depth dropped s) := by
  rw [Segments.pushEvent]
  split
  case isTrue => exact h
  case isFalse hgoes =>
    have hvalid := hvalid (not_not.mp (not_or.mp hgoes).1)
    have hstore : Inv (s.store pad segment) := h.store hvalid
    dsimp only
    split
    · exact hstore
    · cases w.peer pad with
      | none => exact hstore
      | some peer =>
          dsimp only
          cases w.proxyOf peer with
          | none => exact hstore.push_one hvalid
          | some ghost => exact hstore.push_one hvalid

/-- What is under way goes on with checked segments. -/
theorem Inv.advance (h : Inv s) {task : Task} (hchecked : task.Checked) :
    Inv (Segments.advance w dropped s task) := by
  cases task with
  | propagate pad segment depth => exact h.propagate fun _ => hchecked
  | propagatePeer peer segment depth =>
      have hset : Inv (if dropped then s else s.set peer segment) := by
        split
        · exact h
        · exact h.set hchecked
      refine hset.push fun task htask => ?_
      obtain ⟨pad, -, rfl⟩ := List.mem_map.mp htask
      exact hchecked
  | pushEvent pad segment depth => exact h.pushEvent fun _ => hchecked
  | walk current segment depth =>
      have hstore : Inv (s.store current segment) := h.store hchecked
      rw [Segments.advance]
      cases w.target current with
      | none => exact hstore.push_one hchecked
      | some target => exact hstore.push_one hchecked
  | deliver peer segment depth =>
      rw [Segments.advance]
      split
      · exact h
      · refine h.push fun task htask => ?_
        obtain ⟨pad, -, rfl⟩ := List.mem_map.mp htask
        exact hchecked

/-- **A harmless step keeps the invariant.** -/
theorem Inv.next (h : Inv s) {a : Action} (hharmless : Harmless w a)
    (hnext : Segments.next w s a = some s') : Inv s' := by
  cases a with
  | setSegment pad segment =>
      cases hnext
      exact h.set hharmless
  | clearSegment pad =>
      cases hnext
      exact h.clear
  | pushSegment pad segment dropped =>
      rw [Segments.next] at hnext
      split at hnext
      case isTrue =>
        cases hnext
        exact h
      case isFalse hsrc =>
        cases hnext
        exact h.propagate (hharmless (not_not.mp hsrc))
  | pushEvent pad segment dropped =>
      cases hnext
      exact h.pushEvent hharmless
  | advance dropped =>
      rw [Segments.next] at hnext
      cases htasks : s.tasks with
      | nil =>
          rw [htasks] at hnext
          cases hnext
      | cons task tasks =>
          rw [htasks] at hnext
          cases hnext
          have hrest : Inv { s with tasks := tasks } :=
            { h with checked := fun t ht => h.checked t (htasks ▸ List.mem_cons_of_mem task ht) }
          exact hrest.advance (h.checked task (htasks ▸ List.mem_cons_self))

/-! ## What a harmful call does -/

/-- A refused segment is left behind on the pad, which had one in order. -/
theorem set_unsound (h : Inv s) (hdisordered : ¬ Ordered segment) : ¬ Sound (s.set pad segment) := by
  intro hsound
  have hcall := hsound.unchanged ⟨s.pads pad, .error, ⟨withRate segment, (s.pads pad).hasSegment⟩⟩ (by
    rw [State.set, setSegment_disordered hdisordered]
    exact List.mem_cons_self) nofun
  have hsegment : withRate segment = (s.pads pad).segment := congrArg PadSegment.segment hcall
  exact hdisordered (ordered_withRate.mp (hsegment ▸ h.ordered pad))

theorem store_unsound (hinvalid : ¬ Valid segment) : ¬ Sound (s.store pad segment) := by
  intro hsound
  have hpad : (s.store pad segment).pads pad = ⟨segment, true⟩ := Function.update_self _ _ _
  have hvalid := hsound.valid pad (by rw [hpad])
  rw [hpad] at hvalid
  exact hinvalid hvalid

/-- What is left to do does not matter. -/
theorem sound_push {tasks : List Task} : Sound (s.push tasks) ↔ Sound s :=
  ⟨fun h => ⟨h.valid, h.unchanged⟩, fun h => ⟨h.valid, h.unchanged⟩⟩

/-- **Any other step loses soundness at once.** -/
theorem next_unsound (h : Inv s) {a : Action} (hharmful : ¬ Harmless w a) :
    ∃ s', next w s a = some s' ∧ ¬ Sound s' := by
  cases a with
  | setSegment pad segment => exact ⟨_, rfl, set_unsound h hharmful⟩
  | clearSegment pad => exact absurd trivial hharmful
  | pushSegment pad segment dropped =>
      obtain ⟨hsrc, hgoes⟩ := Classical.not_imp.mp hharmful
      obtain ⟨hgoes, hdisordered⟩ := Classical.not_imp.mp hgoes
      refine ⟨_, if_neg (not_not.mpr hsrc), ?_⟩
      rw [propagate, if_neg (by rw [hgoes]; decide), if_pos hsrc]
      have hset : ¬ Sound (s.set pad segment) := set_unsound h hdisordered
      cases w.peer pad with
      | none => exact hset
      | some peer => exact mt sound_push.mp hset
  | pushEvent pad segment dropped =>
      obtain ⟨hsrc, hinvalid⟩ := Classical.not_imp.mp hharmful
      refine ⟨_, rfl, ?_⟩
      have hstore : ¬ Sound (s.store pad segment) := store_unsound hinvalid
      rw [pushEvent, if_neg (by rw [hsrc]; decide)]
      dsimp only
      split
      · exact hstore
      · cases w.peer pad with
        | none => exact hstore
        | some peer =>
            dsimp only
            cases w.proxyOf peer with
            | none => exact mt sound_push.mp hstore
            | some ghost => exact mt sound_push.mp hstore
  | advance dropped => exact absurd trivial hharmful

/-- **The segments of the pads.**  Whatever is called in whatever order, on pads wired in whatever
way, and whatever probes and event functions do: every segment there is makes sense and no call of
`zst_pad_set_segment` that fails has an effect, throughout exactly those runs in which nobody sets
or pushes a segment whose end is before its start, or pushes an event with such a segment or with
rate 0. -/
theorem segments_sound_iff (w : Wiring) (actions : List Action) :
    (system w).Throughout Sound fresh actions ↔
      (system w).Along (fun _ a => Harmless w a) fresh actions :=
  System.throughout_iff_along (I := Inv) (fun _ h => h.toSound) (fun _ _ _ h hharmless => h.next hharmless)
    (fun _ _ h hharmful => next_unsound h hharmful) inv_fresh actions

/-- A pad that has a segment is given one that ends before it starts: the call fails, and leaves
it behind. -/
theorem segments_unsound :
    ¬ ∀ (w : Wiring) (actions : List Action), (system w).Throughout Sound fresh actions := by
  intro hall
  let w : Wiring :=
    ⟨fun _ => .src, fun _ => none, fun _ => none, fun _ => [], fun _ => false, fun _ => none,
      fun _ => none⟩
  have hrun := hall w [.setSegment 0 ⟨0, 10, one, 0, 0⟩, .setSegment 0 ⟨5, 3, one, 0, 0⟩]
  have hend : Sound ((fresh.set 0 ⟨0, 10, one, 0, 0⟩).set 0 ⟨5, 3, one, 0, 0⟩) :=
    (hrun.2 _ rfl).2 _ rfl
  have hvalid := (hend.valid 0 (by decide)).2
  exact absurd hvalid (by decide)

end Zstreamer.Pads.Segments

/-
# Pads: capabilities, negotiating and linking

A pad belongs to an element and is joined to at most one pad of the other direction.
This module has the sequential part of `zst_pad.c`: what a pad offers, how two pads
agree on capabilities, and `zst_pad_link`, which negotiates first and joins the
pads after.  The locks are left out, as one call runs at a time here; the module on
references has the interleavings.

Pads are pointers in the source, so a pad is an identity and everything that changes
is in a store indexed by identity.  Two things a pad does not decide are parameters:
what the `get_caps` hook of its element answers, and what pushing an event does to
the pads, since that ends in the event hooks of elements.  Allocations succeed.
-/

import Zstreamer.Core.Element
import Zstreamer.Caps.Fixation

namespace Zstreamer.Pads

open Foundation Caps

/-- `zst_pad_direction_t` -/
inductive Direction
  | src
  | sink
  deriving DecidableEq, Repr

/-- `zst_segment_t` -/
structure Segment where
  start : UInt64
  stop : UInt64
  rate : Double
  base : UInt64
  position : UInt64
  deriving DecidableEq, Repr

/-- `1.0` -/
def one : Double := ⟨0x3FF0000000000000⟩

/-- `zst_segment_default` -/
def Segment.default : Segment := ⟨0, 0xFFFFFFFFFFFFFFFF, one, 0, 0⟩

/-- `zst_pad_event_t` -/
inductive Event
  | streamStart (streamId : UInt64)
  | caps (caps : Option CapsList)
  | segment (segment : Segment)
  | eos
  | flushStart
  | flushStop
  | gap
  | discont
  | forceKeyframe
  deriving DecidableEq

/-- What a pad carries from one call to the next, as far as linking reads or writes it. -/
structure Pad where
  direction : Direction
  caps : Option CapsList
  templateCaps : Option CapsList
  peer : Option ℕ
  linked : Bool
  hasSegment : Bool
  segment : Segment
  stickyStreamStart : Option Event
  stickyCaps : Option Event
  stickySegment : Option Event
  deriving DecidableEq

/-- `zst_pad_create`, followed by `zst_pad_set_template_caps`. -/
def Pad.create (direction : Direction) (templateCaps : Option CapsList) : Pad where
  direction := direction
  caps := none
  templateCaps := templateCaps
  peer := none
  linked := false
  hasSegment := false
  segment := Segment.default
  stickyStreamStart := none
  stickyCaps := none
  stickySegment := none

/-- Every pad there is. -/
abbrev Store := ℕ → Pad

/-- The code of elements that linking calls. -/
structure Elements where
  /-- What `ops->get_caps` of the element of a pad answers; `none` also where the pad has no
  element or its element no such hook. -/
  getCaps : Store → ℕ → Option CapsList
  /-- `zst_pad_push_event` -/
  pushEvent : Store → ℕ → Event → Store

section Operations

variable (els : Elements) (pads : Store)

/-- `zst_pad_get_caps`: what was agreed on, else what the element says, else the template. -/
def getCaps (pad : ℕ) : Option CapsList :=
  (pads pad).caps.or ((els.getCaps pads pad).or (pads pad).templateCaps)

/-- `zst_pad_set_caps` -/
def setCaps (pad : ℕ) (caps : Option CapsList) : Store :=
  Function.update pads pad { pads pad with caps := caps }

/-- The intersection, with its wildcards resolved unless it is fixed as it is. -/
def settle (intersect : CapsList) : Option CapsList :=
  if intersect.isFixed then some intersect else intersect.fixate

/-- `zst_pad_negotiate`.  With nothing said on one side there is nothing to agree on. -/
def negotiate (src sink : ℕ) : Result × Store :=
  match getCaps els pads src, getCaps els pads sink with
  | some srcCaps, some sinkCaps =>
      match settle (srcCaps.intersect sinkCaps) with
      | none => (.error, pads)
      | some caps => (.ok, setCaps (setCaps pads src caps) sink caps)
  | _, _ => (.ok, pads)

/-- The section of `zst_pad_link` under the two locks, when both pads are free. -/
def join (src sink : ℕ) : Store :=
  let pads := Function.update pads src { pads src with peer := some sink, linked := true }
  Function.update pads sink { pads sink with peer := some src, linked := true }

/-- Push a sticky event again, if there is one. -/
def replay (sticky : Pad → Option Event) (src : ℕ) : Store :=
  match sticky (pads src) with
  | none => pads
  | some event => els.pushEvent pads src event

/-- The sticky events in the order `zst_pad_link` pushes them. -/
def replayAll (src : ℕ) : Store :=
  let pads := replay els pads Pad.stickyStreamStart src
  let pads := replay els pads Pad.stickyCaps src
  replay els pads Pad.stickySegment src

/-- `zst_pad_link`.  The dirty marks it leaves on pipelines are left out. -/
def link (src sink : ℕ) : Result × Store :=
  if (pads src).direction ≠ .src then (.error, pads)
  else if (pads sink).direction ≠ .sink then (.error, pads)
  else
    match negotiate els pads src sink with
    | (.ok, pads) =>
        if (pads src).peer.isSome ∨ (pads sink).peer.isSome then (.error, pads)
        else (.ok, replayAll els (join pads src sink) src)
    | (result, pads) => (result, pads)

end Operations

end Zstreamer.Pads

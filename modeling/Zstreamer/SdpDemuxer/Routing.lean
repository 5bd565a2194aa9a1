/-
# Which track a packet goes to

The SDP demuxer looks for the track of a packet by the source that a track remembers, and then by
the payload type.  Zero stands for a source that is not known yet, although a sender may use it; and
a sender report goes to the first track that remembers its source or none.
`routing_iff` says for which sequences of packets and reports this comes out right.
-/

import Zstreamer.SdpDemuxer.Reorder

namespace Zstreamer.SdpDemuxer

open Foundation

/-- `sdp_track_t`, as far as packets and sender reports look for it and change it. -/
structure Lane where
  payloadType : Byte
  active : Bool
  /-- zero if it is not known -/
  ssrc : BitVec 32
  /-- `last_ntp_time` and `last_rtp_time`, with `has_sr` -/
  report : Option (BitVec 64 × BitVec 32)
  track : Track

/-- A valid RTP packet: what the search goes by, and what is put into the ring. -/
structure Arrival where
  ssrc : BitVec 32
  payloadType : Byte
  packet : Packet

/-- What comes in: a packet, a sender report, or the end of a buffer, where the rings are
drained. -/
inductive Event
  | packet (a : Arrival)
  | report (ssrc : BitVec 32) (ntp : BitVec 64) (rtp : BitVec 32)
  | drain

/-- The first search of `sdp_process_rtp_packet`. -/
def bySource (lanes : List Lane) (ssrc : BitVec 32) : Option ℕ :=
  lanes.findIdx? fun l => l.active && l.ssrc = ssrc

/-- The second search. -/
def byPayloadType (lanes : List Lane) (payloadType : Byte) : Option ℕ :=
  lanes.findIdx? fun l => l.active && l.payloadType = payloadType

/-- The track that a packet goes to. -/
def routePacket (lanes : List Lane) (a : Arrival) : Option ℕ :=
  (bySource lanes a.ssrc).or (byPayloadType lanes a.payloadType)

/-- The track that `sdp_process_rtcp` sets for a sender report. -/
def routeReport (lanes : List Lane) (ssrc : BitVec 32) : Option ℕ :=
  lanes.findIdx? fun l => decide (l.ssrc = ssrc) || decide (l.ssrc = 0)

/-- A packet in its track.  One that was found by its source remembers it already. -/
def Lane.take (maxLateness : BitVec 16) (a : Arrival) (l : Lane) : Lane :=
  { l with
    ssrc := if l.ssrc = 0 then a.ssrc else l.ssrc
    track := l.track.step maxLateness (.insert a.packet) }

/-- A sender report in its track. -/
def Lane.refer (ssrc : BitVec 32) (ntp : BitVec 64) (rtp : BitVec 32) (l : Lane) : Lane :=
  { l with
    ssrc := if l.ssrc = 0 then ssrc else l.ssrc
    report := some (ntp, rtp) }

/-- `sdp_demuxer_process_track`, for a track whose pad is linked. -/
def Lane.drain (maxLateness : BitVec 16) (l : Lane) : Lane :=
  if l.active then { l with track := l.track.step maxLateness .process } else l

/-- One of the tracks is changed, if any. -/
def changed (lanes : List Lane) (target : Option ℕ) (change : Lane → Lane) : List Lane :=
  match target with
  | some i => lanes.modify i change
  | none => lanes

namespace Event

/-- What becomes of the tracks. -/
def step (maxLateness : BitVec 16) (lanes : List Lane) : Event → List Lane
  | packet a => changed lanes (routePacket lanes a) (Lane.take maxLateness a)
  | report ssrc ntp rtp => changed lanes (routeReport lanes ssrc) (Lane.refer ssrc ntp rtp)
  | drain => lanes.map (Lane.drain maxLateness)

end Event

/-! ## What is right -/

/-- An active track has this payload type. -/
def Owns (lanes : List Lane) (i : ℕ) (payloadType : Byte) : Prop :=
  ∃ l, lanes[i]? = some l ∧ l.active = true ∧ l.payloadType = payloadType

/-- No two active tracks have the same payload type. -/
def Distinct (lanes : List Lane) : Prop :=
  ∀ i j payloadType, Owns lanes i payloadType → Owns lanes j payloadType → i = j

/-- A packet goes to the track of its payload type, if there is one; a sender report sets no other
track than that of the packets with its source. -/
def Event.Right (ptOf : BitVec 32 → Byte) (lanes : List Lane) : Event → Prop
  | .packet a => ∀ i, Owns lanes i a.payloadType → routePacket lanes a = some i
  | .report ssrc _ _ => ∀ i, routeReport lanes ssrc = some i → Owns lanes i (ptOf ssrc)
  | .drain => True

/-- Every other track that knows no source stands behind the track of this payload type, which knows
this source or none either. -/
def Settled (lanes : List Lane) (looksAt : Lane → Prop) (ssrc : BitVec 32) (payloadType : Byte) :
    Prop :=
  ∀ j l, lanes[j]? = some l → looksAt l → l.ssrc = 0 → ¬ Owns lanes j payloadType →
    ∃ i k, Owns lanes i payloadType ∧ i < j ∧ lanes[i]? = some k ∧ (k.ssrc = ssrc ∨ k.ssrc = 0)

/-- A packet with the source zero, and every sender report, comes when the tracks know their
sources. -/
def Event.Clear (ptOf : BitVec 32 → Byte) (lanes : List Lane) : Event → Prop
  | .packet a => a.ssrc = 0 → (∃ i, Owns lanes i a.payloadType) →
      Settled lanes (fun l => l.active = true) 0 a.payloadType
  | .report ssrc _ _ => Settled lanes (fun _ => True) ssrc (ptOf ssrc)
  | .drain => True

/-- A condition holds of every event in the state that it finds. -/
def Along (maxLateness : BitVec 16) (P : List Lane → Event → Prop) : List Lane → List Event → Prop
  | _, [] => True
  | lanes, e :: events => P lanes e ∧ Along maxLateness P (e.step maxLateness lanes) events

/-- A source has packets of one payload type only. -/
def Event.Consistent (ptOf : BitVec 32 → Byte) : Event → Prop
  | .packet a => a.payloadType = ptOf a.ssrc
  | _ => True

/-- What a track remembers is the source of its own packets. -/
def Remembers (ptOf : BitVec 32 → Byte) (lanes : List Lane) : Prop :=
  ∀ i l, lanes[i]? = some l → l.ssrc ≠ 0 → Owns lanes i (ptOf l.ssrc)

/-! ## Searches -/

variable {lanes : List Lane} {ptOf : BitVec 32 → Byte}

theorem findIdx_spec {p : Lane → Bool} {i : ℕ} (h : lanes.findIdx? p = some i) :
    (∃ l, lanes[i]? = some l ∧ p l = true) ∧
      ∀ j l, j < i → lanes[j]? = some l → p l = false := by
  obtain ⟨hi, hp, hbefore⟩ := List.findIdx?_eq_some_iff_getElem.mp h
  refine ⟨⟨lanes[i], List.getElem?_eq_getElem hi, hp⟩, fun j l hj hl => ?_⟩
  obtain ⟨hjl, rfl⟩ := List.getElem?_eq_some_iff.mp hl
  exact Bool.eq_false_of_not_eq_true (hbefore j hj)

theorem findIdx_none {p : Lane → Bool} (h : lanes.findIdx? p = none) {j : ℕ} {l : Lane}
    (hl : lanes[j]? = some l) : p l = false :=
  List.findIdx?_eq_none_iff.mp h l (List.mem_of_getElem? hl)

/-- With distinct payload types, the search finds the track that has it. -/
theorem byPayloadType_eq_iff (hdistinct : Distinct lanes) {payloadType : Byte} {i : ℕ} :
    byPayloadType lanes payloadType = some i ↔ Owns lanes i payloadType := by
  have hfound : ∀ {j}, byPayloadType lanes payloadType = some j → Owns lanes j payloadType := by
    intro j h
    obtain ⟨⟨l, hl, hp⟩, -⟩ := findIdx_spec h
    obtain ⟨hactive, htype⟩ := Bool.and_eq_true_iff.mp hp
    exact ⟨l, hl, hactive, of_decide_eq_true htype⟩
  refine ⟨hfound, fun howns => ?_⟩
  cases hsearch : byPayloadType lanes payloadType with
  | none =>
      obtain ⟨l, hl, hactive, htype⟩ := howns
      have hp := findIdx_none hsearch hl
      rw [hactive, htype, decide_eq_true rfl] at hp
      cases hp
  | some j => rw [hdistinct i j payloadType howns (hfound hsearch)]

/-- **A search for a source or for none finds no other track than the one of the payload type**
exactly when the other tracks without a source stand behind it. -/
theorem settled_iff {looksAt : Lane → Prop} [DecidablePred looksAt] {ssrc : BitVec 32}
    {payloadType : Byte} (hremembers : Remembers ptOf lanes) (htype : payloadType = ptOf ssrc)
    (hlooks : ∀ i l, lanes[i]? = some l → Owns lanes i payloadType → looksAt l) :
    (∀ i, (lanes.findIdx? fun l =>
        decide (looksAt l) && (decide (l.ssrc = ssrc) || decide (l.ssrc = 0))) = some i →
      Owns lanes i payloadType) ↔ Settled lanes looksAt ssrc payloadType := by
  constructor
  · intro hright j l hl hlook hnone hother
    cases hsearch : lanes.findIdx? fun l =>
        decide (looksAt l) && (decide (l.ssrc = ssrc) || decide (l.ssrc = 0)) with
    | none =>
        have hp := findIdx_none hsearch hl
        simp [hlook, hnone] at hp
    | some i =>
        have howns := hright i hsearch
        obtain ⟨⟨k, hk, hp⟩, hbefore⟩ := findIdx_spec hsearch
        simp only [Bool.and_eq_true, Bool.or_eq_true, decide_eq_true_eq] at hp
        refine ⟨i, k, howns, ?_, hk, hp.2⟩
        -- a track without a source in front of it would have been found first
        rcases Nat.lt_trichotomy i j with hless | rfl | hmore
        · exact hless
        · exact absurd howns hother
        · have hfirst := hbefore j l hmore hl
          simp [hlook, hnone] at hfirst
  · intro hsettled i hsearch
    obtain ⟨⟨l, hl, hp⟩, hbefore⟩ := findIdx_spec hsearch
    simp only [Bool.and_eq_true, Bool.or_eq_true, decide_eq_true_eq] at hp
    by_contra hother
    by_cases hnone : l.ssrc = 0
    · obtain ⟨j, k, howns, hless, hk, hsource⟩ := hsettled i l hl hp.1 hnone hother
      have hfirst := hbefore j k hless hk
      simp only [hlooks j k hk howns, decide_true, Bool.true_and, Bool.or_eq_false_iff,
        decide_eq_false_iff_not] at hfirst
      exact hsource.elim hfirst.1 hfirst.2
    · have hsource : l.ssrc = ssrc := hp.2.resolve_right hnone
      exact hother (htype ▸ hsource ▸ hremembers i l hl hnone)

/-! ## One event -/

/-- **An event comes out right exactly when it is clear**, while the tracks remember their own
sources. -/
theorem right_iff_clear (hdistinct : Distinct lanes) (hremembers : Remembers ptOf lanes) {e : Event}
    (hconsistent : e.Consistent ptOf) : e.Right ptOf lanes ↔ e.Clear ptOf lanes := by
  cases e with
  | drain => exact Iff.rfl
  | report ssrc ntp rtp =>
      have hsearch := @settled_iff _ _ (fun _ => True) _ ssrc (ptOf ssrc) hremembers rfl
        fun _ _ _ _ => trivial
      simp only [decide_true, Bool.true_and] at hsearch
      exact hsearch
  | packet a =>
      have htype : a.payloadType = ptOf a.ssrc := hconsistent
      by_cases hzero : a.ssrc = 0
      · -- the first search takes any track without a source
        have hsearch := @settled_iff _ _ (fun l => l.active = true) _ 0 _ hremembers
          (hzero ▸ htype) fun i l hl ⟨k, hk, hactive, _⟩ => by
            rw [hl] at hk
            exact Option.some.inj hk ▸ hactive
        simp only [Bool.decide_eq_true, Bool.or_self] at hsearch
        constructor
        · intro hright _ ⟨i, howns⟩
          refine hsearch.mp fun j hj => ?_
          have hroute := hright i howns
          rw [routePacket, bySource, hzero, hj] at hroute
          exact Option.some.inj hroute ▸ howns
        · intro hclear i howns
          have hsettled := hsearch.mpr (hclear hzero ⟨i, howns⟩)
          rw [routePacket, bySource, hzero]
          cases hfound : lanes.findIdx? fun l => l.active && decide (l.ssrc = 0) with
          | none => exact (byPayloadType_eq_iff hdistinct).mpr howns
          | some j =>
              rw [hdistinct j i _ (hsettled j hfound) howns]
              rfl
      · -- a source that is remembered is that of the packets of the track
        refine ⟨fun _ hsource => absurd hsource hzero, fun _ i howns => ?_⟩
        rw [routePacket]
        cases hfound : bySource lanes a.ssrc with
        | none => exact (byPayloadType_eq_iff hdistinct).mpr howns
        | some j =>
            obtain ⟨⟨l, hl, hp⟩, -⟩ := findIdx_spec hfound
            have hsource : l.ssrc = a.ssrc := of_decide_eq_true (Bool.and_eq_true_iff.mp hp).2
            have hown := hremembers j l hl (hsource ▸ hzero)
            rw [hsource, ← htype] at hown
            rw [hdistinct j i _ hown howns]
            rfl

/-! ## What an event leaves -/

theorem getElem?_changed (lanes : List Lane) (target : Option ℕ) (change : Lane → Lane) (j : ℕ) :
    (changed lanes target change)[j]? =
      lanes[j]?.map fun l => if target = some j then change l else l := by
  cases target with
  | none =>
      have hsame : (fun l : Lane => if none = some j then change l else l) = id :=
        funext fun l => if_neg nofun
      rw [changed, hsame, Option.map_id, id]
  | some i =>
      rw [changed, List.getElem?_modify]
      simp only [Option.some.injEq]
      rfl

/-- What changes neither the payload type of a track nor whether it is active. -/
def Keeps (change : Lane → Lane) : Prop :=
  ∀ l, (change l).active = l.active ∧ (change l).payloadType = l.payloadType

/-- A track of the next state is a track of the state before, maybe changed. -/
theorem Event.step_lane (maxLateness : BitVec 16) (lanes : List Lane) (e : Event) :
    ∃ change : ℕ → Lane → Lane, (∀ j, Keeps (change j)) ∧
      ∀ j, (e.step maxLateness lanes)[j]? = lanes[j]?.map (change j) := by
  cases e with
  | packet a =>
      refine ⟨fun j l => if routePacket lanes a = some j then l.take maxLateness a else l,
        fun j l => ?_, fun j => getElem?_changed _ _ _ j⟩
      dsimp only
      split <;> exact ⟨rfl, rfl⟩
  | report ssrc ntp rtp =>
      refine ⟨fun j l => if routeReport lanes ssrc = some j then l.refer ssrc ntp rtp else l,
        fun j l => ?_, fun j => getElem?_changed _ _ _ j⟩
      dsimp only
      split <;> exact ⟨rfl, rfl⟩
  | drain =>
      refine ⟨fun _ => Lane.drain maxLateness, fun _ l => ?_, fun j => List.getElem?_map⟩
      show (l.drain maxLateness).active = l.active ∧
        (l.drain maxLateness).payloadType = l.payloadType
      rw [Lane.drain]
      split <;> exact ⟨rfl, rfl⟩

/-- Every track keeps its payload type. -/
theorem Event.owns_step (maxLateness : BitVec 16) (lanes : List Lane) (e : Event) (i : ℕ)
    (payloadType : Byte) :
    Owns (e.step maxLateness lanes) i payloadType ↔ Owns lanes i payloadType := by
  obtain ⟨change, hkeeps, hlanes⟩ := e.step_lane maxLateness lanes
  constructor
  · rintro ⟨l', hl', hactive, htype⟩
    rw [hlanes] at hl'
    obtain ⟨l, hl, rfl⟩ := Option.map_eq_some_iff.mp hl'
    exact ⟨l, hl, (hkeeps i l).1 ▸ hactive, (hkeeps i l).2 ▸ htype⟩
  · rintro ⟨l, hl, hactive, htype⟩
    refine ⟨change i l, ?_, (hkeeps i l).1.trans hactive, (hkeeps i l).2.trans htype⟩
    rw [hlanes, hl]
    rfl

/-- What comes out right leaves every track with a source of its own. -/
theorem Event.remembers_step {maxLateness : BitVec 16} {e : Event}
    (hremembers : Remembers ptOf lanes) (hconsistent : e.Consistent ptOf)
    (hright : e.Right ptOf lanes) : Remembers ptOf (e.step maxLateness lanes) := by
  intro j l' hl' hsource
  rw [e.owns_step]
  cases e with
  | drain =>
      rw [step, List.getElem?_map] at hl'
      obtain ⟨l, hl, rfl⟩ := Option.map_eq_some_iff.mp hl'
      have hsame : (l.drain maxLateness).ssrc = l.ssrc := by
        rw [Lane.drain]
        split <;> rfl
      rw [hsame] at hsource ⊢
      exact hremembers j l hl hsource
  | report ssrc ntp rtp =>
      rw [step, getElem?_changed] at hl'
      obtain ⟨l, hl, rfl⟩ := Option.map_eq_some_iff.mp hl'
      by_cases htarget : routeReport lanes ssrc = some j
      · rw [if_pos htarget, Lane.refer] at hsource ⊢
        by_cases hnone : l.ssrc = 0
        · rw [if_pos hnone]
          exact hright j htarget
        · rw [if_neg hnone]
          exact hremembers j l hl hnone
      · rw [if_neg htarget] at hsource ⊢
        exact hremembers j l hl hsource
  | packet a =>
      rw [step, getElem?_changed] at hl'
      obtain ⟨l, hl, rfl⟩ := Option.map_eq_some_iff.mp hl'
      by_cases htarget : routePacket lanes a = some j
      · rw [if_pos htarget, Lane.take] at hsource ⊢
        by_cases hnone : l.ssrc = 0
        · rw [if_pos hnone] at hsource ⊢
          -- a track without a source is found by its payload type, unless the packet has none either
          rw [routePacket] at htarget
          cases hfound : bySource lanes a.ssrc with
          | some i =>
              rw [hfound] at htarget
              obtain rfl : i = j := Option.some.inj htarget
              obtain ⟨⟨k, hk, hp⟩, -⟩ := findIdx_spec hfound
              rw [hl] at hk
              cases hk
              have hsame : l.ssrc = a.ssrc := of_decide_eq_true (Bool.and_eq_true_iff.mp hp).2
              exact absurd (hsame.symm.trans hnone) hsource
          | none =>
              rw [hfound] at htarget
              obtain ⟨⟨k, hk, hp⟩, -⟩ := findIdx_spec (p := fun l =>
                l.active && decide (l.payloadType = a.payloadType)) htarget
              obtain ⟨hactive, htype⟩ := Bool.and_eq_true_iff.mp hp
              exact ⟨k, hk, hactive, (of_decide_eq_true htype).trans hconsistent⟩
        · rw [if_neg hnone]
          exact hremembers j l hl hnone
      · rw [if_neg htarget] at hsource ⊢
        exact hremembers j l hl hsource

/-! ## Runs -/

/-- Events one after the other, while the tracks remember their own sources. -/
theorem along_iff {maxLateness : BitVec 16} (hdistinct : Distinct lanes)
    (hremembers : Remembers ptOf lanes) {events : List Event}
    (hconsistent : ∀ e ∈ events, e.Consistent ptOf) :
    Along maxLateness (fun lanes e => e.Right ptOf lanes) lanes events ↔
      Along maxLateness (fun lanes e => e.Clear ptOf lanes) lanes events := by
  induction events generalizing lanes with
  | nil => exact Iff.rfl
  | cons e events ih =>
      have he := hconsistent e List.mem_cons_self
      have hone := right_iff_clear hdistinct hremembers he
      have hkept : Distinct (e.step maxLateness lanes) := fun i j payloadType hi hj =>
        hdistinct i j payloadType ((e.owns_step _ _ _ _).mp hi) ((e.owns_step _ _ _ _).mp hj)
      have hlater : ∀ hright : e.Right ptOf lanes, _ := fun hright =>
        ih hkept (e.remembers_step hremembers he hright) fun other hother =>
          hconsistent other (List.mem_cons_of_mem e hother)
      constructor
      · rintro ⟨hright, hrest⟩
        exact ⟨hone.mp hright, (hlater hright).mp hrest⟩
      · rintro ⟨hclear, hrest⟩
        exact ⟨hone.mpr hclear, (hlater (hone.mpr hclear)).mpr hrest⟩

/-- **Everything goes to its own track exactly when packets with the source zero and sender reports
come only while no other track without a source is in front.** -/
theorem routing_iff {lanes : List Lane} {ptOf : BitVec 32 → Byte} {events : List Event}
    (maxLateness : BitVec 16) (hdistinct : Distinct lanes) (hfresh : ∀ l ∈ lanes, l.ssrc = 0)
    (hconsistent : ∀ e ∈ events, e.Consistent ptOf) :
    Along maxLateness (fun lanes e => e.Right ptOf lanes) lanes events ↔
      Along maxLateness (fun lanes e => e.Clear ptOf lanes) lanes events :=
  along_iff hdistinct
    (fun _ l hl hsource => absurd (hfresh l (List.mem_of_getElem? hl)) hsource) hconsistent

/-- A track that has just been described. -/
def lane (payloadType : Byte) : Lane := ⟨payloadType, true, 0, none, Track.create 8⟩

/-- A packet of one byte. -/
def arrival (ssrc : BitVec 32) (payloadType : Byte) : Arrival :=
  ⟨ssrc, payloadType, ⟨5, 0, false, [1], List.cons_ne_nil _ _⟩⟩

/-- Video from the source 1, audio from the source 2. -/
def videoAndAudio (ssrc : BitVec 32) : Byte := if ssrc = 1 then 96 else 97

theorem distinct_lanes : Distinct [lane 96, lane 97] := by
  rintro i j payloadType ⟨l, hl, -, htype⟩ ⟨k, hk, -, htype'⟩
  have hone : ∀ n (l : Lane), [lane 96, lane 97][n]? = some l →
      (n = 0 ∧ l.payloadType = 96) ∨ (n = 1 ∧ l.payloadType = 97) := by
    intro n l hl
    match n, hl with
    | 0, hl => exact .inl ⟨rfl, Option.some.inj hl ▸ rfl⟩
    | 1, hl => exact .inr ⟨rfl, Option.some.inj hl ▸ rfl⟩
  rcases hone i l hl with ⟨rfl, h⟩ | ⟨rfl, h⟩ <;> rcases hone j k hk with ⟨rfl, h'⟩ | ⟨rfl, h'⟩
  · rfl
  · exact absurd ((h.symm.trans htype).trans (htype'.symm.trans h')) (by decide)
  · exact absurd ((h.symm.trans htype).trans (htype'.symm.trans h')) (by decide)
  · rfl

/-- A packet of each track, and then its report. -/
def inOrder : List Event :=
  [.packet (arrival 1 96), .packet (arrival 2 97), .drain, .report 1 7 7, .report 2 8 8]

theorem routing_inOrder :
    Along 100 (fun lanes e => e.Right videoAndAudio lanes) [lane 96, lane 97] inOrder ↔
      Along 100 (fun lanes e => e.Clear videoAndAudio lanes) [lane 96, lane 97] inOrder := by
  refine routing_iff 100 distinct_lanes ?_ ?_
  · rw [List.forall_mem_cons, List.forall_mem_singleton]
    exact ⟨rfl, rfl⟩
  · rw [inOrder, List.forall_mem_cons, List.forall_mem_cons, List.forall_mem_cons,
      List.forall_mem_cons, List.forall_mem_singleton]
    exact ⟨rfl, rfl, trivial, trivial, trivial⟩

/-- The report of the audio comes first: the video takes it, and the packets of the audio with
it. -/
theorem report_taken :
    ¬ Along 100 (fun lanes e => e.Right videoAndAudio lanes) [lane 96, lane 97]
      [.report 2 7 7, .packet (arrival 2 97)] := by
  rintro ⟨hreport, -⟩
  obtain ⟨l, hl, -, htype⟩ := hreport 0 rfl
  obtain rfl : l = lane 96 := (Option.some.inj hl).symm
  exact absurd htype (by decide)

end Zstreamer.SdpDemuxer

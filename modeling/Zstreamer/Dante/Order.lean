/-
# The order of the packets that are pushed on

A packet is pushed on when its number is the expected one, and the expected number
only moves forward.  What has to be kept small is the distance from the last packet
pushed on to the expected number: it grows by one with every number skipped, and
numbers are skipped only because some packet waits farther ahead.  That packet bounds
the distance, unless it is as far ahead as a packet can be and nothing waits in front
of it.
-/

import Zstreamer.Dante.Window

namespace Zstreamer.Dante

open Foundation List Function Option

/-! ## Packets in slots -/

/-- Filling a free slot adds a packet. -/
theorem filterMap_update_perm {n i : ℕ} {slots : ℕ → Option Packet} (hi : i < n)
    (hfree : slots i = none) (p : Packet) :
    ((range n).filterMap (update slots i (some p))).Perm
      (p :: (range n).filterMap slots) := by
  have hsplit : (range n).Perm (i :: (range n).erase i) :=
    perm_cons_erase (mem_range.mpr hi)
  have hrest : ((range n).erase i).filterMap (update slots i (some p)) =
      ((range n).erase i).filterMap slots := by
    apply filterMap_congr
    intro j hj
    rw [update_of_ne (nodup_range.mem_erase_iff.mp hj).1]
  have hfilled := hsplit.filterMap (update slots i (some p))
  have hbefore := hsplit.filterMap slots
  rw [filterMap_cons_some (update_self i (some p) slots), hrest] at hfilled
  rw [filterMap_cons_none hfree] at hbefore
  exact hfilled.trans (hbefore.symm.cons p)

namespace Reorder

/-- What is held, when the packet that is ready is counted separately. -/
theorem Windowed.held_perm_emit {r : Reorder} (h : r.Windowed) {q : Packet}
    (hready : r.ready = some q) : r.held.Perm (q :: r.emit.held) := by
  have hfill : update r.emit.slots (r.slotOf r.expected) (some q) = r.slots := by
    rw [slots_emit, update_idem, ← (ready_eq_some hready).1, update_eq_self]
  have hfree : r.emit.slots (r.slotOf r.expected) = none := by
    rw [slots_emit, update_self]
  have hperm := filterMap_update_perm (h.slotOf_lt r.expected) hfree q
  rwa [hfill] at hperm

/-- What is held after storing into a free slot. -/
theorem Windowed.held_perm_store {r : Reorder} (h : r.Windowed) {p : Packet}
    (hfree : r.slots (r.slotOf p.sequence) = none) : (r.store p).held.Perm (p :: r.held) :=
  filterMap_update_perm (h.slotOf_lt p.sequence) hfree p

end Reorder

/-! ## The conditions on a run -/

/-- A packet that is parsed has the SSRC that the buffer is locked to. -/
def OneSsrc (s : State) : Action → Prop
  | .push data _ _ =>
      ∀ parsed ∈ parseRtpHeader data,
        s.reorder.lockedSsrc = 0 ∨ s.reorder.lockedSsrc = parsed.2
  | _ => True

/-- No packet is as far ahead as can be while nothing is held. -/
def NotHalfTurn (s : State) : Action → Prop
  | .push data _ _ =>
      ∀ parsed ∈ parseRtpHeader data, s.reorder.haveExpected = true → s.reorder.held = [] →
        s.reorder.distance parsed.1 ≠ 32767
  | _ => True

/-- Packets of one SSRC in a run that keeps the window. -/
def Orderly (s : State) (a : Action) : Prop :=
  OneSsrc s a ∧ KeepsWindow s a ∧ NotHalfTurn s a

instance (s : State) : (a : Action) → Decidable (OneSsrc s a)
  | .push data _ _ => decidableForallMem (parseRtpHeader data)
  | .watchdog _ | .turn => isTrue trivial

instance (s : State) : (a : Action) → Decidable (NotHalfTurn s a)
  | .push data _ _ => decidableForallMem (parseRtpHeader data)
  | .watchdog _ | .turn => isTrue trivial

instance (s : State) (a : Action) : Decidable (Orderly s a) :=
  inferInstanceAs (Decidable (_ ∧ _))

/-! ## The invariant -/

/-- The packet that the call in progress has not stored yet. -/
def Phase.pending : Phase → List Packet
  | .room p | .store p => [p]
  | _ => []

/-- The packets received that may still be pushed on. -/
def State.waiting (s : State) : List Packet := s.phase.pending ++ s.reorder.held

/-- A number is ahead of another one, by less than half a turn. -/
def Advances (earlier later : BitVec 16) : Prop :=
  1 ≤ (later - earlier).toNat ∧ (later - earlier).toNat ≤ 32767

instance (earlier later : BitVec 16) : Decidable (Advances earlier later) :=
  inferInstanceAs (Decidable (_ ∧ _))

/-- The expected number is the next one, or some packet that waits is ahead of it and not half a
turn ahead of the last one pushed on. -/
def GapBounded (s : State) (last : BitVec 16) : Prop :=
  1 ≤ (s.reorder.expected - last).toNat ∧
    ((s.reorder.expected - last).toNat = 1 ∨
      ∃ q ∈ s.waiting,
        (s.reorder.expected - last).toNat + s.reorder.distance q.sequence ≤ 32767)

/-- What holds of what was pushed on. -/
structure Ordered (s : State) : Prop where
  small : s.reorder.window ≤ maxReorderWindow
  advancing : s.emitted.IsChain fun later earlier => Advances earlier.sequence later.sequence
  gap : ∀ last ∈ s.emitted.head?, GapBounded s last.sequence
  room : ∀ p, s.phase = .room p →
    s.reorder.distance p.sequence ≤ 32767 ∧
      (s.reorder.distance p.sequence = 32767 → s.reorder.held ≠ [])
  unstarted : s.reorder.haveExpected = false → s.emitted = []
  once : ((s.waiting ++ s.emitted).map fun p => p.buffer.id).Nodup
  numbered : ∀ p ∈ s.waiting ++ s.emitted, p.buffer.id < s.arrivals

/-! ## What the turns keep -/

/-- The distance from the last packet pushed on is less than half a turn. -/
theorem GapBounded.advances {s : State} {last : BitVec 16} (hgap : GapBounded s last) :
    Advances last s.reorder.expected := by
  obtain ⟨hpos, hone | ⟨q, -, hfar⟩⟩ := hgap
  · exact ⟨hpos, by omega⟩
  · exact ⟨hpos, by omega⟩

namespace Ordered

variable {s : State} (hs : Ordered s)

include hs

/-- Only the expected number, what waits and what was pushed on matter. -/
theorem congr {s' : State} (hwindow : s'.reorder.window = s.reorder.window)
    (hexpected : s'.reorder.expected = s.reorder.expected)
    (hhave : s'.reorder.haveExpected = s.reorder.haveExpected)
    (hemitted : s'.emitted = s.emitted) (harrivals : s.arrivals ≤ s'.arrivals)
    (hwaiting : s'.waiting.Perm s.waiting) (hroom : ∀ p, s'.phase ≠ .room p) : Ordered s' := by
  have hperm : (s'.waiting ++ s'.emitted).Perm (s.waiting ++ s.emitted) := by
    rw [hemitted]
    exact hwaiting.append_right s.emitted
  constructor
  · rw [hwindow]
    exact hs.small
  · rw [hemitted]
    exact hs.advancing
  · intro last hlast
    obtain ⟨hpos, hgap⟩ := hs.gap last (hemitted ▸ hlast)
    rw [GapBounded, hexpected]
    refine ⟨hpos, hgap.imp_right ?_⟩
    rintro ⟨q, hq, hbound⟩
    refine ⟨q, hwaiting.mem_iff.mpr hq, ?_⟩
    rw [Reorder.distance, hexpected]
    exact hbound
  · exact fun p hp => absurd hp (hroom p)
  · rw [hhave, hemitted]
    exact hs.unstarted
  · exact (hperm.map _).nodup_iff.mpr hs.once
  · exact fun p hp => lt_of_lt_of_le (hs.numbered p (hperm.mem_iff.mp hp)) harrivals

theorem goTo {phase : Phase} (hpending : phase.pending = s.phase.pending)
    (hroom : ∀ p, phase ≠ .room p) : Ordered { s with phase := phase } := by
  refine hs.congr rfl rfl rfl rfl le_rfl ?_ hroom
  apply List.Perm.of_eq
  rw [State.waiting, hpending]
  rfl

/-- Pushing a packet on: its number is the expected one. -/
theorem emit (hc : Consistent s) {q : Packet} (hready : s.reorder.ready = some q)
    (hroom : ∀ p, s.phase = .room p → p.sequence ≠ s.reorder.expected) :
    Ordered (s.emit q) := by
  obtain ⟨hat, hseq⟩ := Reorder.ready_eq_some hready
  have hperm : (s.waiting ++ s.emitted).Perm ((s.emit q).waiting ++ (s.emit q).emitted) := by
    have hheld := hc.windowed.held_perm_emit hready
    have hwaiting : s.waiting.Perm (q :: (s.emit q).waiting) :=
      (hheld.append_left s.phase.pending).trans perm_middle
    exact (hwaiting.append_right s.emitted).trans perm_middle.symm
  constructor
  · exact hs.small
  · have hchain := hs.advancing
    cases hemitted : s.emitted with
    | nil =>
        rw [State.emit, hemitted]
        exact isChain_singleton q
    | cons last earlier =>
        rw [hemitted] at hchain
        rw [State.emit, hemitted]
        refine isChain_cons_cons.mpr ⟨?_, hchain⟩
        rw [hseq]
        exact (hs.gap last (by rw [hemitted]; rfl)).advances
  · intro last hlast
    cases hlast
    have hone : (s.reorder.expected + 1 - q.sequence).toNat = 1 := by
      rw [hseq]
      bv_omega
    exact ⟨hone.ge, .inl hone⟩
  · intro p hp
    have hbound := (hs.room p hp).1
    have hmove := toNat_sub_add_one (hroom p hp)
    have hless : (s.emit q).reorder.distance p.sequence + 1 =
        s.reorder.distance p.sequence := hmove
    constructor
    · omega
    · omega
  · intro hnone
    rw [hc.windowed.unstarted hnone] at hat
    cases hat
  · exact (hperm.map _).nodup_iff.mp hs.once
  · intro p hp
    exact hs.numbered p (hperm.mem_iff.mpr hp)

/-- Skipping a number: some packet waits farther ahead. -/
theorem skipExpected (habsent : ∀ q ∈ s.waiting, q.sequence ≠ s.reorder.expected)
    (hfar : ∃ q ∈ s.waiting, s.reorder.distance q.sequence < 32767) :
    Ordered { s with reorder := s.reorder.skipExpected } := by
  have hless : ∀ q ∈ s.waiting, s.reorder.skipExpected.distance q.sequence + 1 =
      s.reorder.distance q.sequence := fun q hq => toNat_sub_add_one (habsent q hq)
  constructor
  · exact hs.small
  · exact hs.advancing
  · intro last hlast
    obtain ⟨hpos, hgap⟩ := hs.gap last hlast
    have hlast : (s.reorder.expected - last.sequence).toNat ≤ 32767 :=
      (hs.gap last hlast).advances.2
    have hmove : (s.reorder.expected + 1 - last.sequence).toNat =
        (s.reorder.expected - last.sequence).toNat + 1 := by
      bv_omega
    obtain ⟨q, hq, hbound⟩ : ∃ q ∈ s.waiting,
        (s.reorder.expected - last.sequence).toNat + s.reorder.distance q.sequence ≤ 32767 := by
      rcases hgap with hone | hwaits
      · obtain ⟨q, hq, hnear⟩ := hfar
        exact ⟨q, hq, by omega⟩
      · exact hwaits
    have hq' := hless q hq
    constructor
    · exact hmove ▸ Nat.le_add_left 1 _
    · refine .inr ⟨q, hq, ?_⟩
      calc (s.reorder.expected + 1 - last.sequence).toNat +
            s.reorder.skipExpected.distance q.sequence
          = (s.reorder.expected - last.sequence).toNat + s.reorder.distance q.sequence := by omega
        _ ≤ 32767 := hbound
  · intro p hp
    have hbound := (hs.room p hp).1
    have hp' : p ∈ s.waiting := by
      rw [State.waiting, show s.phase = .room p from hp]
      exact mem_cons_self
    have hmove := hless p hp'
    have hnear : s.reorder.skipExpected.distance p.sequence < 32767 := by omega
    exact ⟨hnear.le, fun hfull => absurd hfull hnear.ne⟩
  · exact hs.unstarted
  · exact hs.once
  · exact hs.numbered

/-- Making room for a packet: what is skipped lies in front of it, and of what is held. -/
theorem makeRoom (hc : Consistent s) {p : Packet} (hphase : s.phase = .room p) :
    Ordered (s.makeRoom p) := by
  obtain ⟨hbound, hfull⟩ := hs.room p hphase
  have hwaiting : s.waiting = p :: s.reorder.held := by
    rw [State.waiting, hphase]
    rfl
  have hpos := hc.windowed.pos
  rw [State.makeRoom]
  split
  · rename_i hahead
    have hp : p.sequence ≠ s.reorder.expected := by
      intro hsame
      rw [Reorder.distance, hsame, BitVec.sub_self] at hahead
      exact absurd hahead (not_le.mpr hpos)
    split
    · rename_i q hready
      apply hs.emit hc hready
      intro p' hp'
      rw [hphase] at hp'
      cases hp'
      exact hp
    · rename_i hnone
      apply hs.skipExpected
      · intro q hq
        rw [hwaiting] at hq
        rcases mem_cons.mp hq with rfl | hheld
        · exact hp
        · obtain ⟨i, -, hat⟩ := Reorder.mem_held.mp hheld
          exact hc.windowed.absent hnone hat
      · rw [hwaiting]
        by_cases hmost : s.reorder.distance p.sequence = 32767
        · obtain ⟨q, hq⟩ := exists_mem_of_ne_nil _ (hfull hmost)
          obtain ⟨i, -, hat⟩ := Reorder.mem_held.mp hq
          have hnear := hc.windowed.ahead hat
          have hsmall : s.reorder.window ≤ 4096 := hs.small
          exact ⟨q, mem_cons_of_mem p hq, by omega⟩
        · exact ⟨p, mem_cons_self, by omega⟩
  · exact hs.goTo (by rw [hphase]; rfl) fun _ hroom => by cases hroom

/-- A packet is stored, or its number waits already. -/
theorem store (hc : Consistent s) {p : Packet} (hphase : s.phase = .store p)
    (hacross : ∀ q ∈ s.reorder.held, ¬ Across s.reorder.window p.sequence q.sequence) :
    Ordered (s.store p) := by
  have hwaiting : s.waiting = p :: s.reorder.held := by
    rw [State.waiting, hphase]
    rfl
  rw [State.store]
  split
  · rename_i hsame
    obtain ⟨q, hat, hseq⟩ := (any_eq_true _ _).mp hsame
    have hseq : q.sequence = p.sequence := of_decide_eq_true hseq
    have hq := hc.windowed.mem_held_of_slot hat
    have hsub : (s.reorder.held ++ s.emitted).Sublist (s.waiting ++ s.emitted) := by
      rw [hwaiting]
      exact sublist_cons_self p _
    constructor
    · exact hs.small
    · exact hs.advancing
    · intro last hlast
      obtain ⟨hpos, hgap⟩ := hs.gap last hlast
      refine ⟨hpos, hgap.imp_right ?_⟩
      rintro ⟨q', hq', hbound⟩
      rw [hwaiting] at hq'
      rcases mem_cons.mp hq' with rfl | hheld
      · exact ⟨q, hq, hseq ▸ hbound⟩
      · exact ⟨q', hheld, hbound⟩
    · intro _ hroom
      cases hroom
    · exact hs.unstarted
    · exact (hsub.map _).nodup hs.once
    · exact fun q' hq' => hs.numbered q' (hsub.subset hq')
  · rename_i hnew
    refine hs.congr rfl rfl rfl rfl le_rfl ?_ (fun _ hroom => by cases hroom)
    rw [hwaiting]
    exact hc.windowed.held_perm_store (hc.free hphase hacross hnew)

/-- A turn of `reorder_drain`. -/
theorem drain (hc : Consistent s) {after : Phase} (hpending : s.phase.pending = [])
    (hafter : after.pending = []) : Ordered (s.drain after) := by
  have hroom : ∀ p, after ≠ .room p := by
    rintro p rfl
    cases hafter
  rw [State.drain]
  split
  · rename_i q hready
    rw [ite_none_right_eq_some] at hready
    apply hs.emit hc hready.2
    intro p hp
    rw [hp] at hpending
    cases hpending
  · exact hs.goTo (hafter.trans hpending.symm) hroom

theorem scan {now : BitVec 64} (hphase : s.phase = .scan now) : Ordered (s.scan now) := by
  have hpending : s.phase.pending = [] := by rw [hphase]; rfl
  rw [State.scan]
  split
  · exact hs.goTo hpending.symm fun _ hroom => by cases hroom
  · exact hs.goTo hpending.symm fun _ hroom => by cases hroom

/-- The skipping loop goes up to a packet that is held. -/
theorem skip (hc : Consistent s) {n : BitVec 16} (hphase : s.phase = .skip n) :
    Ordered (s.skip n) := by
  have hwaiting : s.waiting = s.reorder.held := by
    rw [State.waiting, hphase]
    rfl
  have hfits := hc.phase
  rw [hphase] at hfits
  obtain ⟨-, ⟨q, hq, -⟩, -⟩ := hfits
  rw [State.skip]
  split
  · rename_i hne
    apply hs.skipExpected
    · rw [hwaiting]
      exact hc.absent_of_skip hphase hne
    · obtain ⟨i, -, hat⟩ := Reorder.mem_held.mp hq
      have hnear := hc.windowed.ahead hat
      have hsmall : s.reorder.window ≤ 4096 := hs.small
      exact ⟨q, hwaiting ▸ hq, by omega⟩
  · exact hs.goTo (by rw [hphase]; rfl) fun _ hroom => by cases hroom

/-- A new packet is dropped, or waits to be stored. -/
theorem receive {p : Packet} (hidle : s.phase = .idle)
    (hnew : ∀ q ∈ s.waiting ++ s.emitted, q.buffer.id < p.buffer.id)
    (hold : p.buffer.id < s.arrivals)
    (hfull : s.reorder.haveExpected = true → s.reorder.held = [] →
      s.reorder.distance p.sequence ≠ 32767) :
    Ordered (s.receive p) := by
  have hwaiting : s.waiting = s.reorder.held := by
    rw [State.waiting, hidle]
    rfl
  have honce : ((p :: (s.waiting ++ s.emitted)).map fun q => q.buffer.id).Nodup := by
    refine nodup_cons.mpr ⟨fun hmem => ?_, hs.once⟩
    obtain ⟨q, hq, hid⟩ := mem_map.mp hmem
    exact absurd hid (hnew q hq).ne
  have hnumbered : ∀ q ∈ p :: (s.waiting ++ s.emitted), q.buffer.id < s.arrivals := by
    intro q hq
    rcases mem_cons.mp hq with rfl | hq
    · exact hold
    · exact hs.numbered q hq
  rw [hwaiting] at honce hnumbered
  rcases State.receive_cases s p with ⟨-, -, heq⟩ | ⟨hhave, hahead, heq⟩ | ⟨hfirst, heq⟩
  · obtain ⟨hslots, hwindow, hexpected, hhave, -, -⟩ := s.reorder.countOld_frame p.sequence
    rw [heq]
    refine hs.congr hwindow hexpected hhave rfl le_rfl ?_ ?_
    · apply List.Perm.of_eq
      rw [hwaiting, State.waiting, hidle]
      exact Reorder.held_congr hwindow hslots
    · intro q
      rw [hidle]
      nofun
  · rw [heq]
    constructor
    · exact hs.small
    · exact hs.advancing
    · intro last hlast
      obtain ⟨hpos, hgap⟩ := hs.gap last hlast
      refine ⟨hpos, hgap.imp_right ?_⟩
      rintro ⟨q, hq, hbound⟩
      exact ⟨q, mem_cons_of_mem p (hwaiting ▸ hq), hbound⟩
    · intro q hq
      cases hq
      constructor
      · rw [BitVec.toInt_neg_iff] at hahead
        change (p.sequence - s.reorder.expected).toNat ≤ 32767
        omega
      · exact fun hmost hnone => hfull hhave hnone hmost
    · exact hs.unstarted
    · exact honce
    · exact hnumbered
  · have hnone := hs.unstarted hfirst
    rw [heq]
    constructor
    · exact hs.small
    · exact hs.advancing
    · intro last hlast
      rw [show s.emitted = [] from hnone] at hlast
      cases hlast
    · intro q hq
      cases hq
      have hzero : (p.sequence - p.sequence).toNat = 0 := by
        rw [BitVec.sub_self]
        rfl
      constructor
      · exact hzero.le.trans (Nat.zero_le 32767)
      · intro hmost
        exact absurd (hzero.symm.trans hmost) (by decide)
    · exact fun _ => hnone
    · exact honce
    · exact hnumbered

/-- `reorder_push` up to its first loop, for packets of one SSRC. -/
theorem push {data : List UInt8} {now : BitVec 64} {retargeted : Bool}
    (hidle : s.phase = .idle) (hssrc : OneSsrc s (.push data now retargeted))
    (hturn : NotHalfTurn s (.push data now retargeted)) :
    Ordered (s.push data now retargeted) := by
  have hidle' : ∀ p, s.phase ≠ .room p := by
    intro p
    rw [hidle]
    nofun
  rw [State.push]
  split
  · exact hs.congr rfl rfl rfl rfl (Nat.le_succ _) (.refl _) hidle'
  · rename_i sequence ssrc hparse
    obtain ⟨ssrc', hlocked⟩ := State.lockSsrc_same s.counted now retargeted
      (hssrc (sequence, ssrc) hparse)
    dsimp only
    have hcounted : Ordered (s.counted.lockSsrc ssrc now retargeted).1 := by
      rw [hlocked]
      exact hs.congr rfl rfl rfl rfl (Nat.le_succ _) (.refl _) hidle'
    split
    · apply hcounted.receive
      · rw [hlocked]
        exact hidle
      · rw [hlocked]
        exact hs.numbered
      · rw [hlocked]
        exact Nat.lt_succ_self s.arrivals
      · rw [hlocked]
        exact hturn (sequence, ssrc) hparse
    · exact hcounted

theorem next (hc : Consistent s) {s' : State} {a : Action} (ha : Orderly s a)
    (hstep : s.next a = some s') : Ordered s' := by
  obtain ⟨hssrc, ⟨hhead, hacross⟩, hturn⟩ := ha
  cases a with
  | push data now retargeted =>
      obtain ⟨hidle, hs'⟩ := ite_none_right_eq_some.mp hstep
      cases hs'
      exact hs.push hidle hssrc hturn
  | watchdog now =>
      obtain ⟨hidle, hs'⟩ := ite_none_right_eq_some.mp hstep
      cases hs'
      exact hs.goTo (by rw [hidle]; rfl) nofun
  | turn =>
      have hmoved : s.turn = some s' := hstep
      rw [State.turn] at hmoved
      cases hphase : s.phase with
      | idle =>
          rw [hphase] at hmoved
          cases hmoved
      | room p =>
          rw [hphase] at hmoved
          cases hmoved
          exact hs.makeRoom hc hphase
      | store p =>
          rw [hphase] at hmoved
          cases hmoved
          apply hs.store hc hphase
          apply hacross p
          rw [hphase]
          rfl
      | drain now =>
          rw [hphase] at hmoved
          cases hmoved
          exact hs.drain hc (by rw [hphase]; rfl) rfl
      | scan now =>
          rw [hphase] at hmoved
          cases hmoved
          exact hs.scan hphase
      | skip n =>
          rw [hphase] at hmoved
          cases hmoved
          exact hs.skip hc hphase
      | drainAgain =>
          rw [hphase] at hmoved
          cases hmoved
          exact hs.drain hc (by rw [hphase]; rfl) rfl

end Ordered

theorem ordered_opened {window : ℕ} (hsmall : window ≤ maxReorderWindow)
    (timeoutNs : BitVec 64) (probeOnly : Bool) (ssrcInactiveNs lastValidRtpTimeNs : BitVec 64) :
    Ordered (State.opened window timeoutNs probeOnly ssrcInactiveNs lastValidRtpTimeNs) := by
  have hwaiting : (State.opened window timeoutNs probeOnly ssrcInactiveNs
      lastValidRtpTimeNs).waiting = [] := filterMap_eq_nil_iff.mpr fun _ _ => rfl
  constructor
  · exact hsmall
  · exact isChain_nil
  · exact nofun
  · exact nofun
  · exact fun _ => rfl
  · rw [hwaiting]
    exact nodup_nil
  · rw [hwaiting]
    exact nofun

/-- **Packets are pushed on in order and once**: every number is ahead of the one before it by
less than half a turn, and no received buffer is pushed on twice. -/
theorem emitted_in_order {s : State} (hs : system.ReachableVia Orderly s) :
    s.emitted.IsChain (fun later earlier => Advances earlier.sequence later.sequence) ∧
      (s.emitted.map fun p => p.buffer.id).Nodup := by
  have hordered : Ordered s := by
    apply hs.invariant
    · rintro s ⟨window, timeoutNs, probeOnly, ssrcInactiveNs, lastValidRtpTimeNs, -, hsmall, rfl⟩
      exact ordered_opened hsmall timeoutNs probeOnly ssrcInactiveNs lastValidRtpTimeNs
    · intro s a s' hreach hinv ha hstep
      exact hinv.next (consistent_of_reachable (fun _ _ h => h.2.1) hreach) ha hstep
  refine ⟨hordered.advancing, ?_⟩
  have honce := hordered.once
  rw [map_append] at honce
  exact (nodup_append.mp honce).2.1

/-! ## A run that goes round -/

/-- Packets 65535 and 0 in the wrong order, then 2 waits for the missing 1. -/
def reorderedRun : List Action :=
  pushing 255 254 0 6 ++ pushing 0 0 1 5 ++ pushing 255 255 2 7 ++ pushing 0 2 3 5 ++
    [.watchdog 13, .turn, .turn, .turn, .turn]

theorem emitted_in_order_reordered :
    ∃ s : State, s.emitted.map (fun p => p.sequence) = [2, 0, 65535, 65534] ∧
      s.emitted.IsChain (fun later earlier => Advances earlier.sequence later.sequence) ∧
      (s.emitted.map fun p => p.buffer.id).Nodup := by
  obtain ⟨s, hrun, hs⟩ := map_eq_some_iff.mp
    (show ((system.restrict Orderly).run (State.opened 4 10 false 0 0) reorderedRun).map
        (fun s => decide (s.emitted.map (fun p => p.sequence) = [2, 0, 65535, 65534])) =
      some true by decide +kernel)
  have hinit : (system.restrict Orderly).init (State.opened 4 10 false 0 0) :=
    ⟨4, 10, false, 0, 0, by decide, by decide, rfl⟩
  have hreach := System.Reachable.of_restrict (System.Reachable.run (.start hinit) hrun)
  exact ⟨s, of_decide_eq_true hs, emitted_in_order hreach⟩

/-- The skipping loop runs until the nearest number is the expected one, and touches nothing
else that decides what is pushed on. -/
theorem run_skip {s : State} {n : BitVec 16} (hphase : s.phase = .skip n) {turns : ℕ}
    (hturns : s.reorder.distance n = turns) :
    ∃ s', system.run s (replicate turns .turn) = some s' ∧ s'.phase = .skip n ∧
      s'.reorder.expected = n ∧ s'.reorder.slots = s.reorder.slots ∧
      s'.reorder.window = s.reorder.window ∧
      s'.reorder.haveExpected = s.reorder.haveExpected ∧ s'.emitted = s.emitted := by
  induction turns generalizing s with
  | zero =>
      have hsame : n - s.reorder.expected = 0#16 := BitVec.eq_of_toNat_eq hturns
      refine ⟨s, rfl, hphase, ?_, rfl, rfl, rfl, rfl⟩
      bv_omega
  | succ turns ih =>
      have hne : s.reorder.expected ≠ n := by
        rintro rfl
        rw [Reorder.distance, BitVec.sub_self] at hturns
        cases hturns
      have hmove := toNat_sub_add_one (Ne.symm hne)
      have hstep : s.next .turn = some (s.skip n) := by rw [State.next, State.turn, hphase]
      rw [State.skip, if_pos hne] at hstep
      have hturns' : s.reorder.skipExpected.distance n = turns :=
        Nat.succ.inj (hmove.trans hturns)
      obtain ⟨s', hrun, hrest⟩ := ih (s := { s with reorder := s.reorder.skipExpected }) hphase
        hturns'
      refine ⟨s', ?_, hrest⟩
      rw [replicate_succ, System.run]
      exact (congrArg (bind · _) hstep).trans hrun

/-- The watchdog has skipped over packet 2 to push on 3; packet 2 has waited for 10 nanoseconds
when it comes again. -/
def staleRun : List Action :=
  youngerRun ++ replicate 4 Action.turn ++ [.watchdog 20, .turn]

/-- After that the skipping loop needs 65534 turns, and two more push the packet on. -/
def roundRun : List Action := staleRun ++ replicate 65536 Action.turn

/-- The buffers of a script are packets of one SSRC. -/
def Action.hasSsrc (ssrc : BitVec 32) : Action → Bool
  | .push data _ _ => (parseRtpHeader data).any fun parsed => parsed.2 = ssrc
  | _ => true

theorem inTime_turns {script : List Action} (hscript : InTime script) (turns : ℕ) :
    InTime (script ++ replicate turns .turn) := by
  rw [InTime, filterMap_append, filterMap_replicate_of_none rfl, append_nil]
  exact hscript

/-- **Packet 2 is pushed on after packet 3**: the skipping loop goes all the way round to it. -/
theorem stale_packet_emitted :
    ∃ s : State, InTime roundRun ∧ roundRun.all (Action.hasSsrc 1) = true ∧
      system.run (State.opened 4 10 false 0 0) roundRun = some s ∧
      s.emitted.map (fun p => p.sequence) = [2, 3, 0] ∧
      ¬ s.emitted.IsChain (fun later earlier => Advances earlier.sequence later.sequence) := by
  obtain ⟨s, hrun, hs⟩ := map_eq_some_iff.mp
    (show (system.run (State.opened 4 10 false 0 0) staleRun).map
        (fun s => decide (s.phase = .skip 2 ∧ s.reorder.expected = 4 ∧
          s.reorder.haveExpected = true ∧ s.reorder.window = 4 ∧
          (s.reorder.slots 2).map (fun p => p.sequence) = some 2 ∧
          s.emitted.map (fun p => p.sequence) = [3, 0])) = some true by decide +kernel)
  obtain ⟨hphase, hexpected, hhave, hwindow, hslot, hemitted⟩ := of_decide_eq_true hs
  have hturns : s.reorder.distance 2 = 65534 := by
    rw [Reorder.distance, hexpected]
    rfl
  obtain ⟨r, hround, hphase', hexpected', hslots', hwindow', hhave', hemitted'⟩ :=
    run_skip hphase hturns
  obtain ⟨p, hat, hseq⟩ := map_eq_some_iff.mp hslot
  have hready : r.reorder.ready = some p := by
    rw [Reorder.ready, Reorder.slotOf, hexpected', hslots', hwindow', hwindow]
    exact (congrArg _ hat).trans (if_pos (decide_eq_true hseq))
  have hdone : r.next .turn = some (r.skip 2) := by rw [State.next, State.turn, hphase']
  rw [State.skip, if_neg (not_not.mpr hexpected')] at hdone
  have hpushed : State.next { r with phase := .drainAgain } .turn =
      some (State.drain { r with phase := .drainAgain } .idle) := rfl
  rw [State.drain, hhave', hhave, if_pos rfl, hready] at hpushed
  have hend : system.run r (replicate 2 .turn) =
      some (State.emit { r with phase := .drainAgain } p) := by
    rw [replicate_succ, System.run]
    exact (congrArg (bind · _) hdone).trans (congrArg (bind · _) hpushed)
  have hlist : (State.emit { r with phase := .drainAgain } p).emitted = p :: s.emitted :=
    congrArg (p :: ·) hemitted'
  have hsequences : (p :: s.emitted).map (fun p => p.sequence) = [2, 3, 0] := by
    rw [map_cons, hemitted, hseq]
  refine ⟨State.emit { r with phase := .drainAgain } p, inTime_turns (by decide) _, ?_, ?_, ?_, ?_⟩
  · rw [roundRun, all_append, all_replicate]
    decide
  · rw [roundRun, System.run_append hrun, ← replicate_append_replicate (n := 65534) (m := 2),
      System.run_append hround]
    exact hend
  · rw [hlist, hsequences]
  · rw [hlist, ← isChain_map (fun p : Packet => p.sequence)
      (R := fun later earlier => Advances earlier later), hsequences]
    decide

end Zstreamer.Dante

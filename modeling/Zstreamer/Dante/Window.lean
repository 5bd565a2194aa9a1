/-
# What the reorder buffer holds

Everything in the slots is less than a window ahead of the expected number, and
sits in the slot of its own number.  The invariant is kept by every turn but two.
Skipping after a timeout goes up to the nearest packet that has waited for too long,
over younger packets in front of it.  And in a window that crosses the end of the
numbers, where the window's size does not divide 65536, two numbers may share a slot,
so that storing one drops the other.  In runs without these two, no packet is ever
lost from its slot.
-/

import Zstreamer.Dante.Reorder

namespace Zstreamer.Dante

open Foundation List Function Option

namespace Reorder

theorem mem_held {r : Reorder} {p : Packet} :
    p ∈ r.held ↔ ∃ i < r.window, r.slots i = some p := by
  rw [held, mem_filterMap]
  constructor
  · rintro ⟨i, hi, hat⟩
    exact ⟨i, mem_range.mp hi, hat⟩
  · rintro ⟨i, hi, hat⟩
    exact ⟨i, mem_range.mpr hi, hat⟩

/-- The packet that is ready has the expected number and is in its slot. -/
theorem ready_eq_some {r : Reorder} {q : Packet} (hready : r.ready = some q) :
    r.slots (r.slotOf r.expected) = some q ∧ q.sequence = r.expected := by
  obtain ⟨hat, hseq⟩ := filter_eq_some_iff.mp hready
  exact ⟨hat, of_decide_eq_true hseq⟩

/-- The slots between two turns. -/
structure Windowed (r : Reorder) : Prop where
  pos : 0 < r.window
  placed : ∀ {i p}, r.slots i = some p → i = r.slotOf p.sequence
  ahead : ∀ {i p}, r.slots i = some p → r.distance p.sequence < r.window
  unstarted : r.haveExpected = false → ∀ i, r.slots i = none

namespace Windowed

variable {r : Reorder} (h : r.Windowed)

include h

theorem slotOf_lt (sequence : BitVec 16) : r.slotOf sequence < r.window := Nat.mod_lt _ h.pos

theorem mem_held_of_slot {i : ℕ} {p : Packet} (hat : r.slots i = some p) : p ∈ r.held := by
  have hi : i = p.sequence.toNat % r.window := h.placed hat
  exact mem_held.mpr ⟨i, hi ▸ Nat.mod_lt _ h.pos, hat⟩

/-- When nothing is ready, no packet with the expected number is in any slot. -/
theorem absent {i : ℕ} {p : Packet} (hready : r.ready = none) (hat : r.slots i = some p) :
    p.sequence ≠ r.expected := by
  intro hseq
  have hi := h.placed hat
  rw [hseq] at hi
  rw [ready, ← hi, hat, filter_some, if_pos (decide_eq_true hseq)] at hready
  cases hready

theorem emit {q : Packet} (hready : r.ready = some q) : r.emit.Windowed := by
  obtain ⟨hq, hseq⟩ := ready_eq_some hready
  have hother : ∀ {i p}, r.emit.slots i = some p →
      r.slots i = some p ∧ p.sequence ≠ r.expected := by
    intro i p hat
    by_cases hi : i = r.slotOf r.expected
    · rw [hi, slots_emit, update_self] at hat
      cases hat
    · rw [slots_emit, update_of_ne hi] at hat
      refine ⟨hat, fun hp => hi ?_⟩
      rw [h.placed hat, hp]
  constructor
  · exact h.pos
  · intro i p hat
    exact h.placed (hother hat).1
  · intro i p hat
    have hbefore := h.ahead (hother hat).1
    have hmove := toNat_sub_add_one (hother hat).2
    rw [distance] at hbefore ⊢
    exact lt_of_le_of_lt (Nat.le_of_succ_le hmove.le) hbefore
  · intro hnone i
    have := h.unstarted hnone (r.slotOf r.expected)
    rw [hq] at this
    cases this

theorem skipExpected (habsent : ∀ {i p}, r.slots i = some p → p.sequence ≠ r.expected) :
    r.skipExpected.Windowed := by
  constructor
  · exact h.pos
  · exact h.placed
  · intro i p hat
    have hbefore := h.ahead hat
    have hmove := toNat_sub_add_one (habsent hat)
    rw [distance] at hbefore ⊢
    exact lt_of_le_of_lt (Nat.le_of_succ_le hmove.le) hbefore
  · exact h.unstarted

theorem store {p : Packet} (hhave : r.haveExpected = true)
    (hnear : r.distance p.sequence < r.window) : (r.store p).Windowed := by
  constructor
  · exact h.pos
  · intro i q hat
    by_cases hi : i = r.slotOf p.sequence
    · rw [hi, slots_store, update_self] at hat
      cases hat
      exact hi
    · rw [slots_store, update_of_ne hi] at hat
      exact h.placed hat
  · intro i q hat
    by_cases hi : i = r.slotOf p.sequence
    · rw [hi, slots_store, update_self] at hat
      cases hat
      exact hnear
    · rw [slots_store, update_of_ne hi] at hat
      exact h.ahead hat
  · intro hnone
    rw [Reorder.store, hhave] at hnone
    cases hnone

end Windowed

/-! ## The nearest packet -/

/-- What the loop over the slots has found after some of them. -/
structure Found (r : Reorder) (now : BitVec 64) (slots : List ℕ)
    (found : Option (BitVec 16) × ℕ) : Prop where
  least : ∀ i ∈ slots, ∀ q, r.slots i = some q → r.TimedOut now q →
    found.2 ≤ r.distance q.sequence
  stored : ∀ n, found.1 = some n → r.distance n = found.2 ∧
    ∃ i ∈ slots, ∃ q, r.slots i = some q ∧ r.TimedOut now q ∧ q.sequence = n

theorem Found.nearer {r : Reorder} {now : BitVec 64} {slots : List ℕ}
    {found : Option (BitVec 16) × ℕ} (hfound : r.Found now slots found) (i : ℕ) :
    r.Found now (slots ++ [i]) (r.nearer now found i) := by
  have hkeep : (∀ q, r.slots i = some q → r.TimedOut now q → found.2 ≤ r.distance q.sequence) →
      r.Found now (slots ++ [i]) found := by
    intro hlast
    constructor
    · intro j hj q hat hout
      rcases mem_append.mp hj with hold | hnew
      · exact hfound.least j hold q hat hout
      · obtain rfl := mem_singleton.mp hnew
        exact hlast q hat hout
    · intro n hn
      obtain ⟨hdist, j, hj, hrest⟩ := hfound.stored n hn
      exact ⟨hdist, j, mem_append_left _ hj, hrest⟩
  rw [Reorder.nearer]
  cases hslot : r.slots i with
  | none => exact hkeep fun q hat => absurd (hslot.symm.trans hat) nofun
  | some p =>
      dsimp only
      split
      case isTrue hbetter =>
        constructor
        · intro j hj q hat hout
          rcases mem_append.mp hj with hold | hnew
          · exact le_trans hbetter.2.le (hfound.least j hold q hat hout)
          · obtain rfl := mem_singleton.mp hnew
            obtain rfl := Option.some.inj (hslot.symm.trans hat)
            exact le_rfl
        · intro n hn
          cases hn
          exact ⟨rfl, i, mem_append_right _ (mem_singleton.mpr rfl), p, hslot,
            hbetter.1, rfl⟩
      case isFalse hworse =>
        apply hkeep
        intro q hat hout
        obtain rfl := Option.some.inj (hslot.symm.trans hat)
        exact not_lt.mp fun hlt => hworse ⟨hout, hlt⟩

/-- The number found is that of a packet that has timed out, and no such packet is nearer. -/
theorem nearest_spec {r : Reorder} {now : BitVec 64} {n : BitVec 16}
    (hn : r.nearest now = some n) :
    (∃ q ∈ r.held, r.TimedOut now q ∧ q.sequence = n) ∧
    ∀ q ∈ r.held, r.TimedOut now q → r.distance n ≤ r.distance q.sequence := by
  have hall : ∀ (rest seen : List ℕ) (found : Option (BitVec 16) × ℕ), r.Found now seen found →
      r.Found now (seen ++ rest) (rest.foldl (r.nearer now) found) := by
    intro rest
    induction rest with
    | nil =>
        intro seen found hfound
        rwa [append_nil]
    | cons i rest ih =>
        intro seen found hfound
        have := ih (seen ++ [i]) _ (hfound.nearer i)
        rwa [append_assoc] at this
  have hdone := hall (range r.window) [] (none, 65535) ⟨nofun, nofun⟩
  rw [nil_append] at hdone
  obtain ⟨hdist, i, hi, q, hat, hout, hseq⟩ := hdone.stored n hn
  constructor
  · exact ⟨q, mem_held.mpr ⟨i, mem_range.mp hi, hat⟩, hout, hseq⟩
  · intro q hq hout
    obtain ⟨i, hi, hat⟩ := mem_held.mp hq
    rw [hdist]
    exact hdone.least i (mem_range.mpr hi) q hat hout

end Reorder

/-! ## Runs in which the window is kept -/

/-- The time of the scan that is next. -/
def Phase.scanTime : Phase → Option (BitVec 64)
  | .scan now => some now
  | _ => none

/-- The packet that is stored next. -/
def Phase.storing : Phase → Option Packet
  | .store p => some p
  | _ => none

/-- When a packet has waited for too long at a scan, so has the one nearest to the expected
number. -/
def HeadTimedOut (s : State) : Action → Prop
  | .turn =>
      ∀ now ∈ s.phase.scanTime, ∀ p ∈ s.reorder.held,
        (∃ q ∈ s.reorder.held, s.reorder.TimedOut now q) →
        ∃ q ∈ s.reorder.held, s.reorder.TimedOut now q ∧
          s.reorder.distance q.sequence ≤ s.reorder.distance p.sequence
  | _ => True

/-- No packet is stored while another waits across the end of the numbers from it, as many
apart as windows of this size may share a slot. -/
def NoneAcross (s : State) : Action → Prop
  | .turn =>
      ∀ p ∈ s.phase.storing, ∀ q ∈ s.reorder.held,
        ¬ Across s.reorder.window p.sequence q.sequence
  | _ => True

/-- Neither of the two turns that break the window. -/
def KeepsWindow (s : State) (a : Action) : Prop := HeadTimedOut s a ∧ NoneAcross s a

-- The times and the packets are finitely many, but must not be gone through.
instance (s : State) : (a : Action) → Decidable (HeadTimedOut s a)
  | .push _ _ _ | .watchdog _ => isTrue trivial
  | .turn => decidableForallMem s.phase.scanTime

instance (s : State) : (a : Action) → Decidable (NoneAcross s a)
  | .push _ _ _ | .watchdog _ => isTrue trivial
  | .turn => decidableForallMem s.phase.storing

instance (s : State) (a : Action) : Decidable (KeepsWindow s a) :=
  inferInstanceAs (Decidable (_ ∧ _))

/-- What the phases may rely on. -/
def Reorder.PhaseFits (r : Reorder) : Phase → Prop
  | .room _ | .drain _ => r.haveExpected = true
  | .store p => r.haveExpected = true ∧ r.distance p.sequence < r.window
  | .skip n =>
      r.haveExpected = true ∧ (∃ q ∈ r.held, q.sequence = n) ∧
        ∀ q ∈ r.held, r.distance n ≤ r.distance q.sequence
  | .idle | .scan _ | .drainAgain => True

/-- What holds of the buffer between two turns. -/
structure Consistent (s : State) : Prop where
  windowed : s.reorder.Windowed
  phase : s.reorder.PhaseFits s.phase
  kept : ∀ p ∈ s.accepted, p ∈ s.emitted ∨ p ∈ s.reorder.held ∨ p ∈ s.discarded

/-- A number is skipped only when no packet in a slot has it. -/
def SkipsAbsent (s s' : State) : Prop :=
  s'.reorder.lostGaps ≠ s.reorder.lostGaps →
    ∀ p ∈ s.reorder.held, p.sequence ≠ s.reorder.expected

/-- A packet leaves its slot only to be pushed on, or when the SSRC changes. -/
def KeepsHeld (s s' : State) : Prop :=
  ∀ p ∈ s.reorder.held, p ∈ s'.reorder.held ∨ s'.emitted = p :: s.emitted ∨
    s'.discarded = s.reorder.held ++ s.discarded

/-- What every turn does. -/
structure Keeping (s s' : State) : Prop where
  consistent : Consistent s'
  skips : SkipsAbsent s s'
  held : KeepsHeld s s'

namespace Reorder

theorem held_congr {r r' : Reorder} (hwindow : r'.window = r.window) (hslots : r'.slots = r.slots) :
    r'.held = r.held := by
  rw [held, held, hwindow, hslots]

/-- Only the slots, the window and the expected number matter. -/
theorem Windowed.congr {r r' : Reorder} (h : r.Windowed) (hslots : r'.slots = r.slots)
    (hwindow : r'.window = r.window) (hexpected : r'.expected = r.expected)
    (hhave : r'.haveExpected = r.haveExpected) : r'.Windowed := by
  constructor
  · rw [hwindow]
    exact h.pos
  · intro i p hat
    rw [slotOf, hwindow]
    exact h.placed (hslots ▸ hat)
  · intro i p hat
    rw [distance, hexpected, hwindow]
    exact h.ahead (hslots ▸ hat)
  · intro hnone
    rw [hslots]
    exact h.unstarted (hhave ▸ hnone)

/-- Emitting takes the packet that is ready out of its slot, and no other. -/
theorem held_emit {r : Reorder} {q p : Packet}
    (hready : r.ready = some q) (hp : p ∈ r.held) : p ∈ r.emit.held ∨ p = q := by
  obtain ⟨i, hi, hat⟩ := mem_held.mp hp
  by_cases hsame : i = r.slotOf r.expected
  · right
    rw [hsame, (ready_eq_some hready).1] at hat
    exact (Option.some.inj hat).symm
  · left
    refine mem_held.mpr ⟨i, hi, ?_⟩
    rw [slots_emit, update_of_ne hsame]
    exact hat

/-- Storing into an empty slot keeps what is held. -/
theorem held_store {r : Reorder} {q p : Packet} (hempty : r.slots (r.slotOf q.sequence) = none)
    (hp : p ∈ r.held) : p ∈ (r.store q).held := by
  obtain ⟨i, hi, hat⟩ := mem_held.mp hp
  refine mem_held.mpr ⟨i, hi, ?_⟩
  rw [slots_store, update_of_ne]
  · exact hat
  · rintro rfl
    rw [hempty] at hat
    cases hat

theorem Windowed.mem_held_store {r : Reorder} (h : r.Windowed) (q : Packet) :
    q ∈ (r.store q).held := by
  refine mem_held.mpr ⟨r.slotOf q.sequence, Nat.mod_lt _ h.pos, ?_⟩
  rw [slots_store, update_self]

end Reorder

/-! ## What the turns keep -/

/-- Receiving a packet touches no slot and no list, and skips nothing. -/
theorem receive_frame (s : State) (p : Packet) :
    (s.receive p).reorder.slots = s.reorder.slots ∧
    (s.receive p).reorder.window = s.reorder.window ∧
    (s.receive p).reorder.lostGaps = s.reorder.lostGaps ∧
    (s.receive p).emitted = s.emitted ∧ (s.receive p).discarded = s.discarded := by
  rcases State.receive_cases s p with ⟨-, -, heq⟩ | ⟨-, -, heq⟩ | ⟨-, heq⟩
  · obtain ⟨hslots, hwindow, -, -, -, hlost⟩ := s.reorder.countOld_frame p.sequence
    rw [heq]
    exact ⟨hslots, hwindow, hlost, rfl, rfl⟩
  · rw [heq]
    exact ⟨rfl, rfl, rfl, rfl, rfl⟩
  · rw [heq]
    exact ⟨rfl, rfl, rfl, rfl, rfl⟩

/-- What was kept up to receiving a packet is kept by receiving it. -/
theorem Keeping.received {s m : State} (h : Keeping s m) {p : Packet}
    (hconsistent : Consistent (m.receive p)) : Keeping s (m.receive p) := by
  obtain ⟨hslots, hwindow, hlost, hemitted, hdiscarded⟩ := receive_frame m p
  constructor
  · exact hconsistent
  · rw [SkipsAbsent, hlost]
    exact h.skips
  · rw [KeepsHeld, Reorder.held_congr hwindow hslots, hemitted, hdiscarded]
    exact h.held

namespace Consistent

variable {s : State} (hs : Consistent s)

include hs

theorem emit {q : Packet} (hready : s.reorder.ready = some q)
    (hfits : s.reorder.emit.PhaseFits s.phase) : Keeping s (s.emit q) where
  consistent :=
    { windowed := hs.windowed.emit hready
      phase := hfits
      kept := by
        intro p hp
        rcases hs.kept p hp with hemitted | hheld | hdiscarded
        · exact .inl (mem_cons_of_mem q hemitted)
        · rcases Reorder.held_emit hready hheld with hstill | rfl
          · exact .inr (.inl hstill)
          · exact .inl mem_cons_self
        · exact .inr (.inr hdiscarded) }
  skips := fun hchanged => absurd rfl hchanged
  held := by
    intro p hp
    rcases Reorder.held_emit hready hp with hstill | rfl
    · exact .inl hstill
    · exact .inr (.inl rfl)

theorem skipExpected
    (habsent : ∀ p ∈ s.reorder.held, p.sequence ≠ s.reorder.expected)
    (hfits : s.reorder.skipExpected.PhaseFits s.phase) :
    Keeping s { s with reorder := s.reorder.skipExpected } where
  consistent :=
    { windowed := hs.windowed.skipExpected fun hat =>
        habsent _ (hs.windowed.mem_held_of_slot hat)
      phase := hfits
      kept := hs.kept }
  skips := fun _ => habsent
  held := fun _ hp => .inl hp

theorem goTo {phase : Phase} (hfits : s.reorder.PhaseFits phase) :
    Keeping s { s with phase := phase } where
  consistent := ⟨hs.windowed, hfits, hs.kept⟩
  skips := fun hchanged => absurd rfl hchanged
  held := fun _ hp => .inl hp

/-- Counters, the SSRC and the skipped numbers do not matter. -/
theorem recount {r : Reorder} {phase : Phase} {arrivals : ℕ}
    (hslots : r.slots = s.reorder.slots) (hwindow : r.window = s.reorder.window)
    (hexpected : r.expected = s.reorder.expected)
    (hhave : r.haveExpected = s.reorder.haveExpected)
    (hlost : r.lostGaps = s.reorder.lostGaps) (hfits : r.PhaseFits phase) :
    Keeping s { s with reorder := r, phase := phase, arrivals := arrivals } where
  consistent :=
    { windowed := hs.windowed.congr hslots hwindow hexpected hhave
      phase := hfits
      kept := by
        rw [Reorder.held_congr hwindow hslots]
        exact hs.kept }
  skips := fun hchanged => absurd hlost hchanged
  held := by
    rw [KeepsHeld, Reorder.held_congr hwindow hslots]
    exact fun _ hp => .inl hp

/-- A turn of the loop that makes room skips a number only when nothing is ready. -/
theorem makeRoom {p : Packet} (hphase : s.phase = .room p) : Keeping s (s.makeRoom p) := by
  have hhave : s.reorder.haveExpected = true := by
    have hfits := hs.phase
    rwa [hphase] at hfits
  rw [State.makeRoom]
  split
  · split
    · rename_i q hready
      apply hs.emit hready
      rw [hphase]
      exact hhave
    · rename_i hnone
      apply hs.skipExpected
      · intro q hq
        obtain ⟨i, -, hat⟩ := Reorder.mem_held.mp hq
        exact hs.windowed.absent hnone hat
      · rw [hphase]
        exact hhave
  · rename_i hnear
    exact hs.goTo ⟨hhave, not_le.mp hnear⟩

/-- The slot of a packet that is no duplicate is free, unless its window crosses the end of the
numbers. -/
theorem free {p : Packet} (hphase : s.phase = .store p)
    (hacross : ∀ q ∈ s.reorder.held, ¬ Across s.reorder.window p.sequence q.sequence)
    (hnew : ¬ (s.reorder.slots (s.reorder.slotOf p.sequence)).any
      (fun q => q.sequence = p.sequence) = true) :
    s.reorder.slots (s.reorder.slotOf p.sequence) = none := by
  have hnear : s.reorder.distance p.sequence < s.reorder.window := by
    have hfits := hs.phase
    rw [hphase] at hfits
    exact hfits.2
  rw [eq_none_iff_forall_ne_some]
  intro q hat
  rw [hat, any_some, decide_eq_true_iff] at hnew
  apply hacross q (hs.windowed.mem_held_of_slot hat)
  exact across_of_mod_eq hnear (hs.windowed.ahead hat) (hs.windowed.placed hat) (Ne.symm hnew)

/-- A packet is stored into an empty slot. -/
theorem store {p : Packet} (hphase : s.phase = .store p)
    (hacross : ∀ q ∈ s.reorder.held, ¬ Across s.reorder.window p.sequence q.sequence) :
    Keeping s (s.store p) := by
  obtain ⟨hhave, hnear⟩ : s.reorder.haveExpected = true ∧
      s.reorder.distance p.sequence < s.reorder.window := by
    have hfits := hs.phase
    rwa [hphase] at hfits
  rw [State.store]
  split
  · exact hs.recount rfl rfl rfl rfl rfl trivial
  · rename_i hnew
    have hempty := hs.free hphase hacross hnew
    constructor
    · refine ⟨hs.windowed.store hhave hnear, hhave, ?_⟩
      intro q hq
      rcases mem_cons.mp hq with rfl | hold
      · exact .inr (.inl (hs.windowed.mem_held_store q))
      · rcases hs.kept q hold with hemitted | hheld | hdiscarded
        · exact .inl hemitted
        · exact .inr (.inl (Reorder.held_store hempty hheld))
        · exact .inr (.inr hdiscarded)
    · exact fun hchanged => absurd rfl hchanged
    · exact fun q hq => .inl (Reorder.held_store hempty hq)

/-- A turn of `reorder_drain`. -/
theorem drain {after : Phase} (hbusy : s.reorder.emit.PhaseFits s.phase)
    (hafter : s.reorder.PhaseFits after) : Keeping s (s.drain after) := by
  rw [State.drain]
  split
  · rename_i q hready
    rw [ite_none_right_eq_some] at hready
    exact hs.emit hready.2 hbusy
  · exact hs.goTo hafter

/-- The scan finds the nearest packet of all when the nearest has timed out. -/
theorem scan {now : BitVec 64}
    (hhead : ∀ p ∈ s.reorder.held, (∃ q ∈ s.reorder.held, s.reorder.TimedOut now q) →
      ∃ q ∈ s.reorder.held, s.reorder.TimedOut now q ∧
        s.reorder.distance q.sequence ≤ s.reorder.distance p.sequence) :
    Keeping s (s.scan now) := by
  rw [State.scan]
  split
  · rename_i n hn
    obtain ⟨⟨q, hq, hout, hseq⟩, hleast⟩ := Reorder.nearest_spec hn
    refine hs.goTo ⟨?_, ⟨q, hq, hseq⟩, ?_⟩
    · rw [← Bool.not_eq_false]
      intro hnone
      obtain ⟨i, -, hat⟩ := Reorder.mem_held.mp hq
      rw [hs.windowed.unstarted hnone i] at hat
      cases hat
    · intro p hp
      obtain ⟨q', hq', hout', hle⟩ := hhead p hp ⟨q, hq, hout⟩
      exact le_trans (hleast q' hq' hout') hle
  · exact hs.goTo trivial

/-- On the way to the nearest packet no number is that of a packet held. -/
theorem absent_of_skip {n : BitVec 16} (hphase : s.phase = .skip n)
    (hne : s.reorder.expected ≠ n) : ∀ p ∈ s.reorder.held, p.sequence ≠ s.reorder.expected := by
  have hfits := hs.phase
  rw [hphase] at hfits
  obtain ⟨-, -, hleast⟩ := hfits
  intro p hp hsame
  have hle := hleast p hp
  have hmove := toNat_sub_add_one (Ne.symm hne)
  rw [Reorder.distance, Reorder.distance, hsame, BitVec.sub_self, ← hmove] at hle
  exact absurd hle (by simp)

/-- The skipping loop stays in front of everything that is held. -/
theorem skip {n : BitVec 16} (hphase : s.phase = .skip n) : Keeping s (s.skip n) := by
  have hfits := hs.phase
  rw [hphase] at hfits
  obtain ⟨hhave, hheld, hleast⟩ := hfits
  rw [State.skip]
  split
  · rename_i hne
    have hmove := toNat_sub_add_one (Ne.symm hne)
    have habsent := hs.absent_of_skip hphase hne
    apply hs.skipExpected habsent
    rw [hphase]
    refine ⟨hhave, hheld, ?_⟩
    intro p hp
    have hle := hleast p hp
    have hmove' := toNat_sub_add_one (habsent p hp)
    rw [Reorder.distance, Reorder.distance, ← hmove, ← hmove'] at hle
    exact Nat.le_of_succ_le_succ hle
  · exact hs.goTo trivial

/-- The first packet makes its number the expected one; nothing is held then. -/
theorem receive (p : Packet) (hidle : s.phase = .idle) : Keeping s (s.receive p) := by
  rcases State.receive_cases s p with ⟨-, -, heq⟩ | ⟨hhave, -, heq⟩ | ⟨hfirst, heq⟩
  · obtain ⟨hslots, hwindow, hexpected, hhave, -, hlost⟩ := s.reorder.countOld_frame p.sequence
    rw [heq]
    exact hs.recount hslots hwindow hexpected hhave hlost (hidle ▸ trivial)
  · rw [heq]
    exact hs.goTo hhave
  · have hempty := hs.windowed.unstarted hfirst
    rw [heq]
    constructor
    · refine ⟨⟨hs.windowed.pos, hs.windowed.placed, ?_, nofun⟩, rfl, hs.kept⟩
      intro i q hat
      rw [hempty i] at hat
      cases hat
    · exact fun hchanged => absurd rfl hchanged
    · exact fun _ hp => .inl hp

/-- A change of the SSRC empties the slots; what was in them is dropped. -/
theorem restart (ssrc : BitVec 32) (hidle : s.phase = .idle) :
    Keeping s { s with
      reorder :=
        { s.reorder with slots := fun _ => none, lockedSsrc := ssrc, haveExpected := false }
      discarded := s.reorder.held ++ s.discarded } where
  consistent :=
    { windowed := ⟨hs.windowed.pos, nofun, nofun, fun _ _ => rfl⟩
      phase := hidle ▸ trivial
      kept := by
        intro p hp
        rcases hs.kept p hp with hemitted | hheld | hdiscarded
        · exact .inl hemitted
        · exact .inr (.inr (mem_append_left _ hheld))
        · exact .inr (.inr (mem_append_right _ hdiscarded)) }
  skips := fun hchanged => absurd rfl hchanged
  held := fun _ _ => .inr (.inr rfl)

theorem lockSsrc (ssrc : BitVec 32) (now : BitVec 64) (retargeted : Bool)
    (hidle : s.phase = .idle) : Keeping s (s.lockSsrc ssrc now retargeted).1 ∧
    (s.lockSsrc ssrc now retargeted).1.phase = .idle := by
  rcases State.lockSsrc_cases s ssrc now retargeted with ⟨-, heq⟩ | heq | ⟨-, -, heq⟩
  · rw [heq]
    exact ⟨hs.recount rfl rfl rfl rfl rfl (hidle ▸ trivial), hidle⟩
  · rw [heq]
    exact ⟨⟨hs, fun hchanged => absurd rfl hchanged, fun _ hp => .inl hp⟩, hidle⟩
  · rw [heq]
    exact ⟨hs.restart ssrc hidle, hidle⟩

theorem push (data : List UInt8) (now : BitVec 64) (retargeted : Bool)
    (hidle : s.phase = .idle) : Keeping s (s.push data now retargeted) := by
  have hcounted : Keeping s s.counted := hs.recount rfl rfl rfl rfl rfl hs.phase
  rw [State.push]
  split
  · exact hs.recount rfl rfl rfl rfl rfl (hidle ▸ trivial)
  · rename_i sequence ssrc hparse
    obtain ⟨hlocked, hstill⟩ := hcounted.consistent.lockSsrc ssrc now retargeted hidle
    have hlocked : Keeping s (s.counted.lockSsrc ssrc now retargeted).1 :=
      ⟨hlocked.consistent, hlocked.skips, hlocked.held⟩
    dsimp only
    split
    · exact hlocked.received (hlocked.consistent.receive _ hstill).consistent
    · exact hlocked

/-- What every step keeps. -/
theorem next {s' : State} {a : Action} (ha : KeepsWindow s a) (hstep : s.next a = some s') :
    Keeping s s' := by
  obtain ⟨hhead, hacross⟩ := ha
  cases a with
  | push data now retargeted =>
      obtain ⟨hidle, hs'⟩ := ite_none_right_eq_some.mp hstep
      cases hs'
      exact hs.push data now retargeted hidle
  | watchdog now =>
      obtain ⟨-, hs'⟩ := ite_none_right_eq_some.mp hstep
      cases hs'
      exact hs.goTo trivial
  | turn =>
      have hturn : s.turn = some s' := hstep
      have hfits := hs.phase
      rw [State.turn] at hturn
      cases hphase : s.phase with
      | idle =>
          rw [hphase] at hturn
          cases hturn
      | room p =>
          rw [hphase] at hturn
          cases hturn
          exact hs.makeRoom hphase
      | store p =>
          rw [hphase] at hturn
          cases hturn
          apply hs.store hphase
          apply hacross p
          rw [hphase]
          rfl
      | drain now =>
          rw [hphase] at hturn hfits
          cases hturn
          exact hs.drain (hphase ▸ hfits) trivial
      | scan now =>
          rw [hphase] at hturn
          cases hturn
          apply hs.scan
          apply hhead now
          rw [hphase]
          rfl
      | skip n =>
          rw [hphase] at hturn
          cases hturn
          exact hs.skip hphase
      | drainAgain =>
          rw [hphase] at hturn
          cases hturn
          exact hs.drain (hphase ▸ trivial) trivial

end Consistent

theorem consistent_opened {window : ℕ} (hpos : 0 < window) (timeoutNs : BitVec 64)
    (probeOnly : Bool) (ssrcInactiveNs lastValidRtpTimeNs : BitVec 64) :
    Consistent (State.opened window timeoutNs probeOnly ssrcInactiveNs lastValidRtpTimeNs) where
  windowed := ⟨hpos, nofun, nofun, fun _ _ => rfl⟩
  phase := trivial
  kept := nofun

/-- The invariant holds in every run that keeps the window, whatever else is asked of it. -/
theorem consistent_of_reachable {allowed : State → Action → Prop}
    (hallowed : ∀ s a, allowed s a → KeepsWindow s a) {s : State}
    (hs : system.ReachableVia allowed s) : Consistent s := by
  apply hs.invariant
  · rintro s ⟨window, timeoutNs, probeOnly, ssrcInactiveNs, lastValidRtpTimeNs, hpos, -, rfl⟩
    exact consistent_opened hpos timeoutNs probeOnly ssrcInactiveNs lastValidRtpTimeNs
  · intro s a s' _ hinv ha hstep
    exact (hinv.next (hallowed s a ha) hstep).consistent

/-- **The buffer loses no packet that it holds**: a number is skipped only when no slot has a
packet with it, a packet leaves its slot only to be pushed on or when the SSRC changes, and
what was stored has been pushed on, is still there or was dropped at such a change. -/
theorem held_never_lost {s s' : State} {a : Action} (hs : system.ReachableVia KeepsWindow s)
    (ha : KeepsWindow s a) (hstep : s.next a = some s') :
    SkipsAbsent s s' ∧ KeepsHeld s s' ∧
      ∀ p ∈ s'.accepted, p ∈ s'.emitted ∨ p ∈ s'.reorder.held ∨ p ∈ s'.discarded := by
  have hkept := (consistent_of_reachable (fun _ _ h => h) hs).next ha hstep
  exact ⟨hkept.skips, hkept.held, hkept.consistent.kept⟩

/-! ## Two runs that lose a packet -/

instance (s s' : State) : Decidable (SkipsAbsent s s') := inferInstanceAs (Decidable (_ → _))

instance (s s' : State) : Decidable (KeepsHeld s s') :=
  inferInstanceAs (Decidable (∀ p ∈ s.reorder.held, _))

/-- An RTP packet without payload with the sequence number of these two bytes. -/
def rtp (high low : UInt8) : List UInt8 := [0x80, 96, high, low, 0, 0, 0, 0, 0, 0, 0, 1]

/-- A call of `reorder_push` and so many turns. -/
def pushing (high low : UInt8) (now : BitVec 64) (turns : ℕ) : List Action :=
  .push (rtp high low) now true :: replicate turns .turn

/-- When the clock was read. -/
def Action.time : Action → Option (BitVec 64)
  | .push _ now _ | .watchdog now => some now
  | .turn => none

/-- Time does not go back. -/
def InTime (script : List Action) : Prop := (script.filterMap Action.time).Pairwise (· ≤ ·)

instance (script : List Action) : Decidable (InTime script) :=
  inferInstanceAs (Decidable (List.Pairwise _ _))

/-- Packet 1 is missing, and 2 has waited for 10 nanoseconds when the watchdog comes. -/
def timeoutRun : List Action :=
  pushing 0 0 0 6 ++ pushing 0 2 1 5 ++ pushing 0 3 2 5 ++ [.watchdog 11, .turn]

theorem held_never_lost_timeout :
    ∃ s s' : State, s'.reorder.lostGaps = 1 ∧ SkipsAbsent s s' ∧ KeepsHeld s s' ∧
      ∀ p ∈ s'.accepted, p ∈ s'.emitted ∨ p ∈ s'.reorder.held ∨ p ∈ s'.discarded := by
  obtain ⟨s, hrun, hs⟩ := map_eq_some_iff.mp
    (show ((system.restrict KeepsWindow).run (State.opened 4 10 false 0 0) timeoutRun).map
        (fun s => decide (KeepsWindow s .turn ∧ s.phase = .skip 2 ∧
          (s.skip 2).reorder.lostGaps = 1)) = some true by decide +kernel)
  obtain ⟨hkeeps, hphase, hlost⟩ := of_decide_eq_true hs
  have hinit : (system.restrict KeepsWindow).init (State.opened 4 10 false 0 0) :=
    ⟨4, 10, false, 0, 0, by decide, by decide, rfl⟩
  have hreach := System.Reachable.of_restrict (System.Reachable.run (.start hinit) hrun)
  have hstep : s.next .turn = some (s.skip 2) := by rw [State.next, State.turn, hphase]
  exact ⟨s, s.skip 2, hlost, held_never_lost hreach hkeeps hstep⟩

/-- Packet 1 is missing; 3 has waited for 10 nanoseconds when the watchdog comes, and 2 in front
of it for one. -/
def youngerRun : List Action :=
  pushing 0 0 0 6 ++ pushing 0 3 1 5 ++ pushing 0 2 10 5 ++ [.watchdog 11, .turn, .turn]

/-- In a window of three slots 65534 is missing, 65535 waits, and 0 goes to its slot. -/
def crossingRun : List Action :=
  pushing 255 253 0 6 ++ pushing 255 255 1 5 ++ pushing 0 0 2 1

/-- **A packet that is held is counted as lost, or dropped for another one.** -/
theorem held_packet_lost :
    (∃ s s' : State, InTime youngerRun ∧
      system.run (State.opened 4 10 false 0 0) youngerRun = some s ∧ s.next .turn = some s' ∧
      s'.reorder.lostGaps = s.reorder.lostGaps + 1 ∧ ¬ SkipsAbsent s s') ∧
    ∃ s s' : State, InTime crossingRun ∧
      system.run (State.opened 3 1000 false 0 0) crossingRun = some s ∧ s.next .turn = some s' ∧
      ¬ KeepsHeld s s' := by
  constructor
  · obtain ⟨s, hrun, hs⟩ := map_eq_some_iff.mp
      (show (system.run (State.opened 4 10 false 0 0) youngerRun).map
          (fun s => decide (s.phase = .skip 3 ∧
            (s.skip 3).reorder.lostGaps = s.reorder.lostGaps + 1 ∧
            ¬ SkipsAbsent s (s.skip 3))) = some true by decide +kernel)
    obtain ⟨hphase, hlost, hskips⟩ := of_decide_eq_true hs
    have hstep : s.next .turn = some (s.skip 3) := by rw [State.next, State.turn, hphase]
    exact ⟨s, s.skip 3, by decide, hrun, hstep, hlost, hskips⟩
  · obtain ⟨s, hrun, hs⟩ := map_eq_some_iff.mp
      (show (system.run (State.opened 3 1000 false 0 0) crossingRun).map
          (fun s => decide (∃ s' ∈ s.turn, ¬ KeepsHeld s s')) = some true by decide +kernel)
    obtain ⟨s', hstep, hheld⟩ := of_decide_eq_true hs
    exact ⟨s, s', by decide, hrun, hstep, hheld⟩

end Zstreamer.Dante

/-
# What a track is handed, and in which order

The ring keeps no sequence numbers, so it tells packets apart only as long as those in it
lie within one turn from the next one on.  They do when no packet comes in behind the next
one; an empty ring has no next one, and takes any packet for the next.  With that excluded,
packets are handed on in the order of their sequence numbers, and none twice.
-/

import Zstreamer.Foundation.Tally
import Zstreamer.SdpDemuxer.Reorder
import Mathlib.Data.FinEnum
import Mathlib.Data.List.Chain

namespace Zstreamer.SdpDemuxer

open Foundation List Function Option

/-- One sequence number is ahead of another, modulo 2 ^ 16. -/
def Ahead (a b : BitVec 16) : Prop := 0 < (b - a).toInt

instance (a b : BitVec 16) : Decidable (Ahead a b) := inferInstanceAs (Decidable (_ < _))

/-- Packets that are handed on in order, and none twice. -/
structure Ordered (handed : List Packet) : Prop where
  ahead : handed.IsChain fun p q => Ahead p.seq q.seq
  once : (handed.map Packet.counter).Nodup

/-- The capacity is not negative as an `int16_t`. -/
theorem toInt_capacity {k : ℕ} (hk : k ≤ 15) : (BitVec.ofNat 16 (2 ^ k - 1)).toInt = 2 ^ k - 1 := by
  have hsmall : (2 : ℕ) ^ k ≤ 2 ^ 15 := Nat.pow_le_pow_right (by decide) hk
  have hpos : 0 < (2 : ℕ) ^ k := Nat.two_pow_pos k
  rw [BitVec.toInt_eq_toNat_of_lt] <;> rw [BitVec.toNat_ofNat, Nat.mod_eq_of_lt (by omega)]
  · push_cast [Nat.one_le_two_pow]
    rfl
  · omega

namespace Track

/-- The packets that come in. -/
def insertedBy (ops : List Op) : List Packet :=
  ops.filterMap fun op =>
    match op with
    | .insert p => some p
    | .process => none

/-- A packet that comes in was not handed on before.  When the ring is empty, it is ahead of the
last that was; otherwise it is not behind the next one, or so late that it is refused. -/
def ComesInOrder (maxLateness : BitVec 16) (t : Track) : Op → Prop
  | .process => True
  | .insert p =>
      p.counter ∉ t.handed.map Packet.counter ∧
        (t.reorder.count = 0 → ∀ q ∈ t.handed.getLast?, Ahead q.seq p.seq) ∧
        (t.reorder.count ≠ 0 →
          0 ≤ t.reorder.diff p.seq ∨ t.reorder.diff p.seq < -maxLateness.toInt)

/-- How many slots are taken. -/
def taken (slots : BitVec 16 → Option Packet) : ℕ :=
  tally (fun slot => if slot.isSome then 1 else 0) slots

/-- What holds of a track as long as packets come in order. -/
structure Sound (k : ℕ) (t : Track) : Prop where
  mask : t.reorder.mask = BitVec.ofNat 16 (2 ^ k - 1)
  totalCapacity : t.reorder.totalCapacity = 2 ^ k
  count : t.reorder.count = taken t.reorder.slots
  slot : ∀ i p, t.reorder.slots i = some p → t.reorder.slotOf p.seq = i
  window : ∀ i p, t.reorder.slots i = some p → (p.seq - t.reorder.nextSeq).toNat < 2 ^ k
  fresh : ∀ i p, t.reorder.slots i = some p → p.counter ∉ t.handed.map Packet.counter
  next : t.reorder.count ≠ 0 → ∀ p ∈ t.handed.getLast?, Ahead p.seq t.reorder.nextSeq
  ordered : Ordered t.handed

/-! ## Slots -/

theorem taken_update (slots : BitVec 16 → Option Packet) (i : BitVec 16) (slot : Option Packet) :
    taken (update slots i slot) + (if (slots i).isSome then 1 else 0) =
      taken slots + if slot.isSome then 1 else 0 :=
  tally_update _ slots i slot

theorem slots_of_taken {slots : BitVec 16 → Option Packet} (hnone : taken slots = 0) (i : BitVec 16) :
    slots i = none := by
  have hle := le_tally (fun slot : Option Packet => if slot.isSome then 1 else 0) slots i
  rw [taken] at hnone
  rw [hnone] at hle
  by_contra hsome
  rw [if_pos (isSome_iff_ne_none.mpr hsome)] at hle
  exact absurd hle (by decide)

/-- The number of a slot is a sequence number modulo the capacity. -/
theorem toNat_slotOf {k : ℕ} (hk : k ≤ 16) {r : Reorder} (hmask : r.mask = BitVec.ofNat 16 (2 ^ k - 1))
    (seq : BitVec 16) : (r.slotOf seq).toNat = seq.toNat % 2 ^ k := by
  have hle : 2 ^ k ≤ 2 ^ 16 := Nat.pow_le_pow_right (by decide) hk
  have hpos : 0 < 2 ^ k := Nat.two_pow_pos k
  rw [Reorder.slotOf, hmask, BitVec.toNat_and, BitVec.toNat_ofNat, Nat.mod_eq_of_lt (by omega),
    Nat.and_two_pow_sub_one_eq_mod]

/-- Within one turn, a slot has one sequence number. -/
theorem eq_of_slotOf {k : ℕ} (hk : k ≤ 16) {r : Reorder}
    (hmask : r.mask = BitVec.ofNat 16 (2 ^ k - 1)) {a b : BitVec 16}
    (ha : (a - r.nextSeq).toNat < 2 ^ k) (hb : (b - r.nextSeq).toNat < 2 ^ k)
    (hslot : r.slotOf a = r.slotOf b) : a = b := by
  by_contra hne
  have hmod : a.toNat % 2 ^ k = b.toNat % 2 ^ k := by
    rw [← toNat_slotOf hk hmask, ← toNat_slotOf hk hmask, hslot]
  exact (across_of_mod_eq ha hb hmod hne).1 (Nat.pow_dvd_pow 2 hk)

section Steps

variable {k : ℕ} {t : Track} {maxLateness : BitVec 16}

theorem Sound.create {k : ℕ} (hk : k ≤ 16) : Sound k (create (2 ^ k)) where
  mask := by
    change BitVec.ofNat 16 (min (Reorder.roundUp (2 ^ k) 31 1) 65536 - 1) = _
    rw [Reorder.roundUp_two_pow hk]
  totalCapacity := Reorder.roundUp_two_pow hk
  count := by
    have hnone : taken (fun _ => none) = 0 := tally_eq_zero fun _ => rfl
    change (0 : ℤ) = taken fun _ => none
    rw [hnone]
    rfl
  slot := fun _ _ hslot => nomatch hslot
  window := fun _ _ hslot => nomatch hslot
  fresh := fun _ _ hslot => nomatch hslot
  next := fun hcount => absurd rfl hcount
  ordered := ⟨isChain_nil, nodup_nil⟩

theorem Sound.slots_of_count (h : Sound k t) (hcount : t.reorder.count = 0) (i : BitVec 16) :
    t.reorder.slots i = none := by
  refine slots_of_taken ?_ i
  have := h.count
  omega

/-- The packet that is next is the one that is peeked at. -/
theorem Sound.peek (hk : k ≤ 16) (h : Sound k t) {p : Packet} (hpeek : t.reorder.peek = some p) :
    t.reorder.count ≠ 0 ∧ t.reorder.slots (t.reorder.slotOf t.reorder.nextSeq) = some p ∧
      p.seq = t.reorder.nextSeq := by
  rw [Reorder.peek] at hpeek
  split at hpeek
  · cases hpeek
  · rename_i hcount
    have hzero : (t.reorder.nextSeq - t.reorder.nextSeq).toNat < 2 ^ k := by
      rw [BitVec.sub_self]
      exact Nat.two_pow_pos k
    exact ⟨hcount, hpeek, eq_of_slotOf hk h.mask (h.window _ _ hpeek) hzero (h.slot _ _ hpeek)⟩

/-- **A packet that is drained comes behind those handed on before.** -/
theorem Sound.drain (hk : k ≤ 16) (h : Sound k t) {p : Packet} (hpeek : t.reorder.peek = some p) :
    Sound k ⟨t.reorder.drain, t.handed ++ [p]⟩ := by
  obtain ⟨hcount, hslot, hseq⟩ := h.peek hk hpeek
  -- a packet that stays is in another slot, and so has another number
  have hstay (i : BitVec 16) (q : Packet) (hq : t.reorder.drain.slots i = some q) :
      t.reorder.slots i = some q ∧ q.seq ≠ p.seq := by
    have hne : i ≠ t.reorder.slotOf t.reorder.nextSeq := by
      rintro rfl
      rw [Reorder.slots_drain, update_self] at hq
      cases hq
    rw [Reorder.slots_drain, update_of_ne hne] at hq
    refine ⟨hq, fun hsame => hne ?_⟩
    rw [← h.slot i q hq, hsame, hseq]
  exact
    { mask := h.mask
      totalCapacity := h.totalCapacity
      count := by
        have hupdate := taken_update t.reorder.slots (t.reorder.slotOf t.reorder.nextSeq) none
        rw [hslot] at hupdate
        have hall := h.count
        change t.reorder.count - 1 = (taken (update _ _ _) : ℤ)
        simp only [isSome_some, isSome_none, if_pos, Bool.false_eq_true, if_false]
          at hupdate
        omega
      slot := fun i q hq => h.slot i q (hstay i q hq).1
      window := fun i q hq => by
        obtain ⟨hold, hne⟩ := hstay i q hq
        rw [hseq] at hne
        have hless := toNat_sub_add_one hne
        have hwindow := h.window i q hold
        change (q.seq - (t.reorder.nextSeq + 1)).toNat < 2 ^ k
        omega
      fresh := fun i q hq => by
        obtain ⟨hold, hne⟩ := hstay i q hq
        rw [map_append, mem_append]
        rintro (hmem | hmem)
        · exact h.fresh i q hold hmem
        · refine hne ?_
          rw [Packet.seq, Packet.seq, mem_singleton.mp hmem]
      next := fun _ q hq => by
        rw [getLast?_concat] at hq
        cases hq
        change Ahead p.seq (t.reorder.nextSeq + 1)
        have hone : t.reorder.nextSeq + 1 - t.reorder.nextSeq = 1 := by bv_omega
        rw [hseq, Ahead, hone]
        decide
      ordered := by
        refine ⟨?_, ?_⟩
        · rw [isChain_append]
          refine ⟨h.ordered.ahead, isChain_singleton _, fun q hq r hr => ?_⟩
          cases hr
          rw [hseq]
          exact h.next hcount q hq
        · rw [map_append]
          refine nodup_append.mpr ⟨h.ordered.once, nodup_singleton _, ?_⟩
          intro a ha b hb hab
          rw [mem_singleton.mp hb] at hab
          rw [hab] at ha
          exact h.fresh _ p hslot ha }

theorem Sound.drainAll (hk : k ≤ 16) {turns : ℕ} (h : Sound k t) :
    Sound k ⟨(t.reorder.drainAll turns).2, t.handed ++ (t.reorder.drainAll turns).1⟩ := by
  induction turns generalizing t with
  | zero =>
      rw [Reorder.drainAll, append_nil]
      exact h
  | succ turns ih =>
      rw [Reorder.drainAll]
      split
      · rw [append_nil]
        exact h
      · rename_i p hpeek
        have hlater := ih (h.drain hk hpeek)
        rw [append_assoc] at hlater
        exact hlater

/-- A packet goes into the ring. -/
theorem Sound.store (h : Sound k t) {p : Packet}
    (hwindow : (p.seq - t.reorder.nextSeq).toNat < 2 ^ k)
    (hfresh : p.counter ∉ t.handed.map Packet.counter)
    (hnext : ∀ q ∈ t.handed.getLast?, Ahead q.seq t.reorder.nextSeq) :
    Sound k ⟨t.reorder.store p, t.handed⟩ := by
  have hput (count : ℤ)
      (hcount : count = taken (update t.reorder.slots (t.reorder.slotOf p.seq) (some p))) :
      Sound k ⟨{ t.reorder with
        slots := update t.reorder.slots (t.reorder.slotOf p.seq) (some p)
        count := count }, t.handed⟩ := by
    have hcases (i : BitVec 16) (q : Packet)
        (hq : update t.reorder.slots (t.reorder.slotOf p.seq) (some p) i = some q) :
        i = t.reorder.slotOf p.seq ∧ q = p ∨ t.reorder.slots i = some q := by
      by_cases hi : i = t.reorder.slotOf p.seq
      · rw [hi, update_self] at hq
        exact .inl ⟨hi, (Option.some.inj hq).symm⟩
      · rw [update_of_ne hi] at hq
        exact .inr hq
    exact
      { mask := h.mask
        totalCapacity := h.totalCapacity
        count := hcount
        slot := fun i q hq => by
          rcases hcases i q hq with ⟨rfl, rfl⟩ | hold
          · rfl
          · exact h.slot i q hold
        window := fun i q hq => by
          rcases hcases i q hq with ⟨rfl, rfl⟩ | hold
          · exact hwindow
          · exact h.window i q hold
        fresh := fun i q hq => by
          rcases hcases i q hq with ⟨rfl, rfl⟩ | hold
          · exact hfresh
          · exact h.fresh i q hold
        next := fun _ => hnext
        ordered := h.ordered }
  have hupdate := taken_update t.reorder.slots (t.reorder.slotOf p.seq) (some p)
  have hall := h.count
  rw [Reorder.store]
  split
  · rename_i q hslot
    rw [hslot] at hupdate
    simp only [isSome_some, if_pos] at hupdate
    split
    · exact h
    · exact hput _ (by omega)
  · rename_i hslot
    rw [hslot] at hupdate
    simp only [isSome_some, isSome_none, if_pos, Bool.false_eq_true, if_false] at hupdate
    exact hput _ (by omega)

theorem Sound.refuse (h : Sound k t) :
    Sound k ⟨{ t.reorder with dropped := t.reorder.dropped + 1 }, t.handed⟩ :=
  ⟨h.mask, h.totalCapacity, h.count, h.slot, h.window, h.fresh, h.next, h.ordered⟩

/-- **A packet that comes in order keeps the ring within one turn.** -/
theorem Sound.insert (hk : k ≤ 14) (hlate : maxLateness.toNat < 2 ^ 15) (h : Sound k t) {p : Packet}
    (hcomes : ComesInOrder maxLateness t (.insert p)) :
    Sound k ⟨t.reorder.insert maxLateness p, t.handed⟩ := by
  obtain ⟨hfresh, hempty, hnonempty⟩ := hcomes
  have hsmall : (2 : ℕ) ^ k ≤ 2 ^ 14 := Nat.pow_le_pow_right (by decide) hk
  have hpos : 0 < (2 : ℕ) ^ k := Nat.two_pow_pos k
  have hcapacity : (BitVec.ofNat 16 (2 ^ k - 1)).toInt = 2 ^ k - 1 := toInt_capacity (by omega)
  have hlateness : maxLateness.toInt = maxLateness.toNat :=
    BitVec.toInt_eq_toNat_of_lt (by omega)
  rw [Reorder.insert]
  by_cases hcount : t.reorder.count = 0
  · have hbegin : t.reorder.begin p.seq = { t.reorder with nextSeq := p.seq } := if_pos hcount
    have hnone := h.slots_of_count hcount
    have hbegun : Sound k ⟨{ t.reorder with nextSeq := p.seq }, t.handed⟩ :=
      ⟨h.mask, h.totalCapacity, h.count, h.slot,
        fun i q hq => (nomatch (hnone i).symm.trans hq), h.fresh,
        fun hne => absurd hcount hne, h.ordered⟩
    have hdiff : (p.seq - p.seq).toInt = 0 := by
      rw [BitVec.sub_self]
      rfl
    have haccept : ¬ ({ t.reorder with nextSeq := p.seq } : Reorder).Refuses maxLateness p.seq := by
      rintro (hbehind | hfar)
      · rw [Reorder.diff, hdiff, hlateness] at hbehind
        omega
      · rw [Reorder.diff, hdiff, h.totalCapacity, hcapacity] at hfar
        have : (1 : ℤ) ≤ 2 ^ k := by exact_mod_cast hpos
        omega
    rw [hbegin]
    dsimp only
    rw [if_neg haccept]
    refine hbegun.store ?_ hfresh (hempty hcount)
    rw [BitVec.sub_self]
    exact hpos
  · have hbegin : t.reorder.begin p.seq = t.reorder := if_neg hcount
    rw [hbegin]
    split
    · exact h.refuse
    · rename_i haccept
      rw [Reorder.Refuses, not_or, h.totalCapacity, hcapacity] at haccept
      refine h.store ?_ hfresh (h.next hcount)
      rcases hnonempty hcount with hahead | hlate
      · rw [Reorder.diff] at hahead haccept
        have hnat : (p.seq - t.reorder.nextSeq).toInt = (p.seq - t.reorder.nextSeq).toNat :=
          BitVec.toInt_eq_toNat_of_lt (by
            by_contra hlarge
            have := BitVec.toInt_eq_toNat_cond (p.seq - t.reorder.nextSeq)
            rw [if_neg hlarge] at this
            have := (p.seq - t.reorder.nextSeq).isLt
            omega)
        rw [hnat] at haccept
        have hle : ((p.seq - t.reorder.nextSeq).toNat : ℤ) ≤ 2 ^ k - 1 := Int.not_lt.mp haccept.2
        have : ((p.seq - t.reorder.nextSeq).toNat : ℤ) < (2 ^ k : ℕ) := by
          push_cast
          omega
        exact_mod_cast this
      · exact absurd hlate haccept.1

theorem Sound.step (hk : k ≤ 14) (hlate : maxLateness.toNat < 2 ^ 15) (h : Sound k t) {op : Op}
    (hcomes : ComesInOrder maxLateness t op) : Sound k (t.step maxLateness op) := by
  cases op with
  | insert p => exact h.insert hk hlate hcomes
  | process => exact h.drainAll (by omega)

theorem Sound.run (hk : k ≤ 14) (hlate : maxLateness.toNat < 2 ^ 15) (h : Sound k t) {ops : List Op}
    (hcomes : Follows maxLateness (ComesInOrder maxLateness) ops t) :
    Sound k (t.run maxLateness ops) := by
  induction ops generalizing t with
  | nil => exact h
  | cons op ops ih => exact ih (h.step hk hlate hcomes.1) hcomes.2

end Steps

/-- **Packets are handed on in order, and none twice**, when they come in order. -/
theorem handed_in_order {k : ℕ} (hk : k ≤ 14) {maxLateness : BitVec 16}
    (hlate : maxLateness.toNat < 2 ^ 15) {ops : List Op}
    (hcomes : Follows maxLateness (ComesInOrder maxLateness) ops (create (2 ^ k))) :
    Ordered ((create (2 ^ k)).run maxLateness ops).handed :=
  ((Sound.create (by omega)).run hk hlate hcomes).ordered

/-- A packet of one byte. -/
def packet (counter : ℤ) : Packet := ⟨counter, 0, false, [BitVec.ofInt 8 counter], cons_ne_nil _ _⟩

/-- Two packets that come the wrong way round, each in a buffer of its own. -/
def swapped : List Op := pushOps [packet 1] ++ pushOps [packet 0]

theorem handed_in_order_small :
    Ordered ((create (2 ^ 4)).run 500 (pushOps [packet 0, packet 1])).handed :=
  handed_in_order (by decide) (by decide)
    ⟨by unfold ComesInOrder; decide, by unfold ComesInOrder; decide, trivial, trivial⟩

/-- The ring is empty when the earlier packet comes, and takes it. -/
theorem earlier_packet_handed_later :
    ¬ ∀ ops, (insertedBy ops).Pairwise (fun p q => p.counter < q.counter + 2 ^ 4) →
      Ordered ((create (2 ^ 4)).run 500 ops).handed := by
  intro hclaim
  have hordered := hclaim swapped (by decide)
  have hfirst := hordered.ahead
  revert hfirst
  decide

end Track

end Zstreamer.SdpDemuxer

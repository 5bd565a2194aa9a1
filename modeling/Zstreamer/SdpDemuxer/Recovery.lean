/-
# What a loss does to a track

A track is drained up to the first packet that is missing, and nothing ever skips it; only
an empty ring begins anew.  So packets are handed on as they come when the packets of each
buffer are consecutive and fit into the ring, whatever is lost between the buffers.  When a
packet is lost within a buffer, the packets behind it wait, and those that are too far ahead
of the lost one are dropped.
-/

import Zstreamer.SdpDemuxer.Order

namespace Zstreamer.SdpDemuxer

open Foundation List Function

/-- Packets with consecutive numbers. -/
def Consecutive (packets : List Packet) : Prop :=
  packets.IsChain fun p q => q.counter = p.counter + 1

instance (packets : List Packet) : Decidable (Consecutive packets) :=
  inferInstanceAs (Decidable (packets.IsChain _))

/-- Packets that are handed on before so many further ones have come in, and none dropped. -/
structure Recovered (capacity : ℕ) (arrived : List Packet) (t : Track) : Prop where
  handed : ∀ p ∈ arrived.take (arrived.length - capacity), p ∈ t.handed
  dropped : t.reorder.dropped = 0

/-- The ring with consecutive packets from the next one on. -/
structure Reorder.Waits (k : ℕ) (waiting : List Packet) (r : Reorder) : Prop where
  mask : r.mask = BitVec.ofNat 16 (2 ^ k - 1)
  totalCapacity : r.totalCapacity = 2 ^ k
  count : r.count = waiting.length
  nextSeq : ∀ p ∈ waiting.head?, r.nextSeq = p.seq
  consecutive : Consecutive waiting
  length : waiting.length ≤ 2 ^ k
  slots : r.slots = fun i => waiting.find? fun p => r.slotOf p.seq = i

section Numbers

/-- The numbers of consecutive packets. -/
theorem Consecutive.counter {p : Packet} {packets : List Packet} (h : Consecutive (p :: packets))
    {q : Packet} (hq : q ∈ packets) :
    p.counter < q.counter ∧ q.counter ≤ p.counter + packets.length := by
  induction packets generalizing p with
  | nil => cases hq
  | cons first packets ih =>
      obtain ⟨hfirst, hlater⟩ := isChain_cons_cons.mp h
      rw [length_cons]
      rcases mem_cons.mp hq with rfl | hmem
      · omega
      · have := ih hlater hmem
        omega

/-- Another packet of the same turn is in another slot. -/
theorem slotOf_ne {k : ℕ} (hk : k ≤ 14) {r : Reorder} (hmask : r.mask = BitVec.ofNat 16 (2 ^ k - 1))
    {p q : Packet} (hlt : p.counter < q.counter) (hle : q.counter < p.counter + 2 ^ k) :
    r.slotOf q.seq ≠ r.slotOf p.seq := by
  have hsmall : (2 : ℤ) ^ k ≤ 2 ^ 14 := pow_le_pow_right₀ (by decide) hk
  have hdiff : (q.seq - p.seq).toInt = q.counter - p.counter :=
    toInt_serial_sub (by omega) (by omega)
  have hnat : ((q.seq - p.seq).toNat : ℤ) = q.counter - p.counter := by
    have hcond := BitVec.toInt_eq_toNat_cond (q.seq - p.seq)
    have := (q.seq - p.seq).isLt
    split at hcond <;> omega
  intro hslot
  have hwindow : (q.seq - p.seq).toNat < 2 ^ k := by
    have : ((q.seq - p.seq).toNat : ℤ) < (2 ^ k : ℕ) := by
      push_cast
      omega
    exact_mod_cast this
  have hzero : (p.seq - p.seq).toNat < 2 ^ k := by
    rw [BitVec.sub_self]
    exact Nat.two_pow_pos k
  have hsame : q.seq = p.seq := Track.eq_of_slotOf (r := { r with nextSeq := p.seq }) (by omega) hmask
    hwindow hzero hslot
  rw [hsame, BitVec.sub_self] at hnat
  have hnone : (0#16).toNat = 0 := rfl
  omega

/-- The packet behind some consecutive ones. -/
theorem Consecutive.last {packets : List Packet} {p : Packet} (h : Consecutive (packets ++ [p]))
    {q : Packet} (hq : q ∈ packets) :
    q.counter < p.counter ∧ p.counter ≤ q.counter + packets.length := by
  induction packets with
  | nil => cases hq
  | cons first packets ih =>
      rw [length_cons]
      rcases mem_cons.mp hq with rfl | hmem
      · have hcons : Consecutive (q :: (packets ++ [p])) := h
        have := hcons.counter (mem_append_right packets mem_cons_self)
        rw [length_append, length_singleton] at this
        exact this
      · have := ih h.tail hmem
        omega

end Numbers

namespace Reorder

variable {k : ℕ} {r : Reorder} {waiting : List Packet}

/-- **A packet that is drained is the first that waits.** -/
theorem Waits.drain (hk : k ≤ 14) {p : Packet} (h : r.Waits k (p :: waiting)) :
    r.peek = some p ∧ r.drain.Waits k waiting := by
  have hnext : r.nextSeq = p.seq := h.nextSeq p rfl
  have hcount := h.count
  rw [length_cons] at hcount
  have hlength := h.length
  rw [length_cons] at hlength
  have hother (q : Packet) (hq : q ∈ waiting) : r.slotOf q.seq ≠ r.slotOf p.seq := by
    obtain ⟨hlt, hle⟩ := h.consecutive.counter hq
    have : (waiting.length : ℤ) < (2 ^ k : ℕ) := by exact_mod_cast hlength
    push_cast at this
    exact slotOf_ne hk h.mask hlt (by omega)
  constructor
  · rw [peek, if_neg (by omega), h.slots, hnext]
    exact find?_cons_of_pos (decide_eq_true rfl)
  · exact
      { mask := h.mask
        totalCapacity := h.totalCapacity
        count := by
          change r.count - 1 = waiting.length
          omega
        nextSeq := fun q hq => by
          obtain ⟨later, rfl⟩ : ∃ later, waiting = q :: later := head?_eq_some_iff.mp hq
          change r.nextSeq + 1 = q.seq
          rw [hnext, Packet.seq, serial_add_one, Packet.seq,
            (isChain_cons_cons.mp h.consecutive).1]
        consecutive := h.consecutive.tail
        length := by omega
        slots := by
          rw [slots_drain, h.slots, hnext]
          funext i
          by_cases hi : i = r.slotOf p.seq
          · rw [hi, update_self]
            refine (find?_eq_none.mpr fun q hq => ?_).symm
            exact fun heq => hother q hq (of_decide_eq_true heq)
          · rw [update_of_ne hi]
            exact find?_cons_of_neg fun heq => hi (of_decide_eq_true heq).symm }

/-- **All that waits is drained.** -/
theorem Waits.drainAll (hk : k ≤ 14) (h : r.Waits k waiting) :
    (r.drainAll waiting.length).1 = waiting ∧ (r.drainAll waiting.length).2.Waits k [] ∧
      (r.drainAll waiting.length).2.dropped = r.dropped := by
  induction waiting generalizing r with
  | nil => exact ⟨rfl, h, rfl⟩
  | cons p waiting ih =>
      obtain ⟨hpeek, hdrained⟩ := h.drain hk
      obtain ⟨hlater, hempty, hdropped⟩ := ih hdrained
      rw [length_cons, Reorder.drainAll, hpeek]
      exact ⟨congrArg (p :: ·) hlater, hempty, hdropped⟩

/-- **A packet that comes behind those that wait, waits.** -/
theorem Waits.insert (hk : k ≤ 14) {maxLateness : BitVec 16} (hlate : maxLateness.toNat < 2 ^ 15)
    (h : r.Waits k waiting) {p : Packet} (hconsecutive : Consecutive (waiting ++ [p]))
    (hlength : waiting.length < 2 ^ k) :
    (r.insert maxLateness p).Waits k (waiting ++ [p]) ∧ (r.insert maxLateness p).dropped = r.dropped := by
  have hsmall : (2 : ℕ) ^ k ≤ 2 ^ 14 := Nat.pow_le_pow_right (by decide) hk
  have hcapacity : (BitVec.ofNat 16 (2 ^ k - 1)).toInt = 2 ^ k - 1 := toInt_capacity (by omega)
  have hlateness : maxLateness.toInt = maxLateness.toNat :=
    BitVec.toInt_eq_toNat_of_lt (by omega)
  have hbound : (waiting.length : ℤ) < 2 ^ k := by exact_mod_cast hlength
  -- the ring begins anew, or the packet is as far ahead as packets wait
  have hbegin : (r.begin p.seq).Waits k waiting ∧ (r.begin p.seq).dropped = r.dropped ∧
      (∀ q ∈ (waiting ++ [p]).head?, (r.begin p.seq).nextSeq = q.seq) ∧
      0 ≤ (r.begin p.seq).diff p.seq ∧ (r.begin p.seq).diff p.seq ≤ waiting.length := by
    rw [begin]
    cases waiting with
    | nil =>
        have hcount : r.count = 0 := h.count
        rw [if_pos hcount]
        refine ⟨⟨h.mask, h.totalCapacity, h.count, fun _ hq => (nomatch hq), h.consecutive, h.length,
          h.slots⟩, rfl, fun q hq => ?_, ?_⟩
        · cases hq
          rfl
        · change 0 ≤ (p.seq - p.seq).toInt ∧ (p.seq - p.seq).toInt ≤ 0
          rw [BitVec.sub_self]
          decide
    | cons first waiting =>
        have hcount := h.count
        rw [length_cons] at hcount
        rw [if_neg (by omega)]
        refine ⟨h, rfl, h.nextSeq, ?_⟩
        obtain ⟨hlt, hle⟩ := hconsecutive.last mem_cons_self
        have hdiff : r.diff p.seq = p.counter - first.counter := by
          rw [diff, h.nextSeq first rfl]
          exact toInt_serial_sub (by omega) (by omega)
        rw [hdiff]
        omega
  rw [Reorder.insert]
  generalize r.begin p.seq = r' at hbegin ⊢
  obtain ⟨hwaits, hdropped, hnext, hahead, hnear⟩ := hbegin
  have haccept : ¬ r'.Refuses maxLateness p.seq := by
    rintro (hbehind | hfar)
    · rw [hlateness] at hbehind
      omega
    · rw [hwaits.totalCapacity, hcapacity] at hfar
      omega
  have hother (q : Packet) (hq : q ∈ waiting) : r'.slotOf p.seq ≠ r'.slotOf q.seq := by
    obtain ⟨hlt, hle⟩ := hconsecutive.last hq
    exact slotOf_ne hk hwaits.mask hlt (by omega)
  have hslot : r'.slots (r'.slotOf p.seq) = none := by
    rw [hwaits.slots]
    exact find?_eq_none.mpr fun q hq heq => hother q hq (of_decide_eq_true heq).symm
  rw [if_neg haccept, store, hslot]
  refine ⟨?_, hdropped⟩
  exact
    { mask := hwaits.mask
      totalCapacity := hwaits.totalCapacity
      count := by
        have hcount := hwaits.count
        rw [length_append, length_singleton]
        change r'.count + 1 = _
        omega
      nextSeq := hnext
      consecutive := hconsecutive
      length := by
        rw [length_append, length_singleton]
        exact hlength
      slots := by
        change update r'.slots (r'.slotOf p.seq) (some p) =
          fun i => (waiting ++ [p]).find? fun q => r'.slotOf q.seq = i
        funext i
        rw [find?_append]
        by_cases hi : i = r'.slotOf p.seq
        · have hnone : (waiting.find? fun q => r'.slotOf q.seq = i) = none :=
            find?_eq_none.mpr fun q hq heq =>
              hother q hq ((of_decide_eq_true heq).trans hi).symm
          have hlast : ([p].find? fun q => r'.slotOf q.seq = r'.slotOf p.seq) = some p :=
            find?_cons_of_pos (decide_eq_true rfl)
          rw [hnone, hi, update_self]
          exact hlast.symm
        · have hnone : ([p].find? fun q => r'.slotOf q.seq = i) = none :=
            find?_cons_of_neg fun heq => hi (of_decide_eq_true heq).symm
          rw [hnone, Option.or_none, update_of_ne hi, hwaits.slots] }

end Reorder

namespace Track

variable {k : ℕ} {maxLateness : BitVec 16} {t : Track}

theorem run_append (maxLateness : BitVec 16) (ops more : List Op) (t : Track) :
    t.run maxLateness (ops ++ more) = (t.run maxLateness ops).run maxLateness more :=
  foldl_append ..

/-- The packets of a buffer wait one behind the other. -/
theorem run_insert (hk : k ≤ 14) (hlate : maxLateness.toNat < 2 ^ 15) {packets waiting : List Packet}
    (h : t.reorder.Waits k waiting) (hconsecutive : Consecutive (waiting ++ packets))
    (hlength : (waiting ++ packets).length ≤ 2 ^ k) :
    (t.run maxLateness (packets.map Op.insert)).reorder.Waits k (waiting ++ packets) ∧
      (t.run maxLateness (packets.map Op.insert)).reorder.dropped = t.reorder.dropped ∧
      (t.run maxLateness (packets.map Op.insert)).handed = t.handed := by
  induction packets generalizing waiting t with
  | nil =>
      rw [append_nil]
      exact ⟨h, rfl, rfl⟩
  | cons p packets ih =>
      have hsplit : waiting ++ p :: packets = (waiting ++ [p]) ++ packets := by
        rw [append_assoc]
        rfl
      rw [hsplit] at hconsecutive hlength ⊢
      have hroom : waiting.length < 2 ^ k := by
        rw [length_append, length_append, length_singleton] at hlength
        omega
      have hfront : Consecutive (waiting ++ [p]) :=
        List.IsChain.prefix hconsecutive (prefix_append _ _)
      obtain ⟨hwaits, hdropped⟩ := h.insert hk hlate hfront hroom
      have hlater := @ih ⟨t.reorder.insert maxLateness p, t.handed⟩ _ hwaits hconsecutive hlength
      rw [hdropped] at hlater
      exact hlater

/-- **The packets of a buffer are handed on**, when they are consecutive and fit into the ring. -/
theorem run_pushOps (hk : k ≤ 14) (hlate : maxLateness.toNat < 2 ^ 15) {packets : List Packet}
    (h : t.reorder.Waits k []) (hconsecutive : Consecutive packets)
    (hlength : packets.length ≤ 2 ^ k) :
    (t.run maxLateness (pushOps packets)).reorder.Waits k [] ∧
      (t.run maxLateness (pushOps packets)).reorder.dropped = t.reorder.dropped ∧
      (t.run maxLateness (pushOps packets)).handed = t.handed ++ packets := by
  obtain ⟨hwaits, hdropped, hhanded⟩ := run_insert hk hlate h hconsecutive hlength
  rw [pushOps, run_append]
  generalize t.run maxLateness (packets.map Op.insert) = t' at hwaits hdropped hhanded ⊢
  obtain ⟨hall, hempty, hsame⟩ := hwaits.drainAll hk
  have hturns : t'.reorder.count.toNat = packets.length := by
    rw [hwaits.count]
    rfl
  have hrun : t'.run maxLateness [.process] =
      ⟨(t'.reorder.drainAll packets.length).2,
        t'.handed ++ (t'.reorder.drainAll packets.length).1⟩ := by
    change t'.process = _
    rw [process, hturns]
  rw [nil_append] at hall hempty hsame
  rw [hrun]
  exact ⟨hempty, hsame.trans hdropped, by rw [hall, hhanded]⟩

theorem run_pushes (hk : k ≤ 14) (hlate : maxLateness.toNat < 2 ^ 15) {buffers : List (List Packet)}
    (h : t.reorder.Waits k [])
    (hbuffers : ∀ packets ∈ buffers, Consecutive packets ∧ packets.length ≤ 2 ^ k) :
    (t.run maxLateness (buffers.flatMap pushOps)).reorder.Waits k [] ∧
      (t.run maxLateness (buffers.flatMap pushOps)).reorder.dropped = t.reorder.dropped ∧
      (t.run maxLateness (buffers.flatMap pushOps)).handed = t.handed ++ buffers.flatten := by
  induction buffers generalizing t with
  | nil => exact ⟨h, rfl, (append_nil _).symm⟩
  | cons packets buffers ih =>
      obtain ⟨hfirst, hlater⟩ := forall_mem_cons.mp hbuffers
      obtain ⟨hempty, hdropped, hhanded⟩ := run_pushOps hk hlate h hfirst.1 hfirst.2
      obtain ⟨hempty', hdropped', hhanded'⟩ := ih hempty hlater
      rw [flatMap_cons, run_append]
      refine ⟨hempty', hdropped'.trans hdropped, ?_⟩
      rw [hhanded', hhanded, append_assoc]
      rfl

theorem waits_create (hk : k ≤ 16) : (create (2 ^ k)).reorder.Waits k [] where
  mask := (Sound.create hk).mask
  totalCapacity := (Sound.create hk).totalCapacity
  count := rfl
  nextSeq := fun _ hq => nomatch hq
  consecutive := isChain_nil
  length := Nat.zero_le _
  slots := rfl

/-- **A track hands on every packet in time**, when the packets of each buffer are consecutive and
fit into the ring: at the end of each buffer, and while the packets of the next come in. -/
theorem recovers_from_loss (hk : k ≤ 14) (hlate : maxLateness.toNat < 2 ^ 15)
    {buffers : List (List Packet)} {packets : List Packet}
    (hbuffers : ∀ packets ∈ buffers, Consecutive packets ∧ packets.length ≤ 2 ^ k)
    (hpackets : Consecutive packets ∧ packets.length ≤ 2 ^ k) :
    Recovered (2 ^ k) (buffers.flatten ++ packets)
      ((create (2 ^ k)).run maxLateness (buffers.flatMap pushOps ++ packets.map Op.insert)) := by
  obtain ⟨hempty, hdropped, hhanded⟩ := run_pushes hk hlate (waits_create (by omega)) hbuffers
  obtain ⟨-, hdropped', hhanded'⟩ := run_insert hk hlate hempty hpackets.1 hpackets.2
  rw [run_append]
  refine ⟨fun p hp => ?_, (hdropped'.trans hdropped).trans rfl⟩
  rw [hhanded', hhanded]
  have hfew : (buffers.flatten ++ packets).length - 2 ^ k ≤ buffers.flatten.length := by
    rw [length_append]
    omega
  rw [take_append_of_le_length hfew] at hp
  exact mem_of_mem_take hp

theorem recovers_from_loss_small :
    Recovered (2 ^ 4) ([[packet 0, packet 1], [packet 3]].flatten ++ [packet 7])
      ((create (2 ^ 4)).run 500
        ([[packet 0, packet 1], [packet 3]].flatMap pushOps ++ [packet 7].map Op.insert)) :=
  recovers_from_loss (by decide) (by decide) (by decide) (by decide)

/-- A buffer in which a packet is lost, and then the packets behind it, each in a buffer of its
own. -/
def lossInBuffer : List (List Packet) :=
  [packet 0, packet 2] :: (range 16).map fun n => [packet (n + 3)]

/-- The packet behind the lost one is not handed on any more. -/
theorem track_stops_at_loss :
    ¬ ∀ buffers : List (List Packet),
      (buffers.flatten.IsChain fun p q => p.counter < q.counter ∧ q.counter ≤ p.counter + 2 ^ 4) →
        Recovered (2 ^ 4) buffers.flatten
          ((create (2 ^ 4)).run 500 (buffers.flatMap pushOps)) := by
  intro hclaim
  have hdropped := (hclaim lossInBuffer (by decide)).dropped
  revert hdropped
  decide +kernel

end Track

end Zstreamer.SdpDemuxer

/-
# The queue of a demuxer in push mode

The buffers that `tsdemux` and `mp4demux` have been given, in a linked list, and an offset into the
first of them.  The read callback and `advance_queue` both take bytes from the front.  The functions
are the same in the two files, but for the prefixes of their names; every call holds the lock.

A loop has so many turns at most, and an access outside of a node or a buffer fails: `none`.
-/

import Zstreamer.Foundation.Bits
import Zstreamer.Foundation.Chain
import Zstreamer.Foundation.Runs

namespace Zstreamer.Demuxer

open Foundation List Function Option

variable {Node : Type} [DecidableEq Node]

/-! ## The functions -/

/-- The queue of a `mpegts_demuxer_t` or a `mp4_demuxer_t`, in a heap of nodes with their
buffers. -/
structure Queue (Node : Type) where
  heap : Node → Option (Cell Node (List Byte))
  queueHead : Option Node
  queueTail : Option Node
  currentBufOffset : ℕ
  eosReceived : Bool

/-- A buffer on the sink pad. -/
structure Buffer where
  data : List Byte
  eos : Bool

/-- What the read callback answers: bytes, `AVERROR_EOF` or `AVERROR(EAGAIN)`. -/
inductive Answer
  | bytes (read : List Byte)
  | eof
  | again
  deriving DecidableEq, Repr

/-- `tsdemux_enqueue`, `mp4demux_enqueue`.  `node` is what `malloc` gives. -/
def enqueue (s : Queue Node) (buf : Buffer) (node : Option Node) : Option (Queue Node) :=
  if buf.eos then some { s with eosReceived := true }
  else
    match node with
    | none => some s
    | some node =>
        let heap := update s.heap node (some ⟨buf.data, none⟩)
        match s.queueTail with
        | some tail =>
            (heap tail).map fun cell =>
              { s with
                heap := update heap tail (some ⟨cell.value, some node⟩)
                queueTail := some node }
        | none =>
            some { s with
              heap := heap
              queueHead := some node
              queueTail := some node
              currentBufOffset := 0 }

/-- The loop over the nodes. -/
def sumFrom (heap : Node → Option (Cell Node (List Byte))) :
    ℕ → Option Node → BitVec 64 → Option (BitVec 64)
  | 0, _, _ => none
  | _ + 1, none, total => some total
  | turns + 1, some curr, total =>
      (heap curr).bind fun cell =>
        sumFrom heap turns cell.next (total + BitVec.ofNat 64 cell.value.length)

/-- `tsdemux_get_queue_bytes`, `mp4demux_get_queue_bytes` -/
def getQueueBytes (turns : ℕ) (s : Queue Node) : Option (BitVec 64) :=
  (sumFrom s.heap turns s.queueHead 0).map fun total =>
    if s.queueHead ≠ none then total - BitVec.ofNat 64 s.currentBufOffset else total

/-- The first node is taken off, and given back with its buffer. -/
def popHead (s : Queue Node) : Option (Queue Node) :=
  s.queueHead.bind fun head =>
    (s.heap head).map fun cell =>
      { s with
        heap := update s.heap head none
        queueHead := cell.next
        queueTail := if cell.next = none then none else s.queueTail
        currentBufOffset := 0 }

/-- `tsdemux_advance_queue`, `mp4demux_advance_queue`, where `available` is not below zero. -/
def advanceQueue : ℕ → ℕ → Queue Node → Option (Queue Node)
  | 0, _, _ => none
  | turns + 1, remaining, s =>
      if remaining > 0 then
        match s.queueHead with
        | none => some s
        | some head =>
            (s.heap head).bind fun cell =>
              if s.currentBufOffset > cell.value.length then none
              else
                let available := cell.value.length - s.currentBufOffset
                if remaining ≥ available then
                  (popHead s).bind (advanceQueue turns (remaining - available))
                else some { s with currentBufOffset := s.currentBufOffset + remaining }
      else some s

/-- A `size_t` as an `int`. -/
def asInt (n : ℕ) : ℤ := (BitVec.ofNat 32 n).toInt

/-- `tsdemux_read_packet`, `mp4demux_read_packet`, behind the bytes that have been read. -/
def readPacket (bufSize : ℕ) : ℕ → List Byte → Queue Node → Option (Queue Node × Answer)
  | 0, _, _ => none
  | turns + 1, out, s =>
      if out.length < bufSize then
        match s.queueHead with
        | none =>
            some (s, if out.length > 0 then .bytes out else if s.eosReceived then .eof else .again)
        | some head =>
            (s.heap head).bind fun cell =>
              let available := asInt cell.value.length - asInt s.currentBufOffset
              let toCopy := min ((bufSize : ℤ) - out.length) available
              if toCopy < 0 ∨ (s.currentBufOffset : ℤ) + toCopy > cell.value.length then none
              else
                let offset := s.currentBufOffset + toCopy.toNat
                let out := out ++ (cell.value.drop s.currentBufOffset).take toCopy.toNat
                let s := { s with currentBufOffset := offset }
                if offset ≥ cell.value.length then (popHead s).bind (readPacket bufSize turns out)
                else readPacket bufSize turns out s
      else some (s, .bytes out)

/-! ## The queue as a list of buffers -/

/-- The bytes in the buffers, behind an offset into the first. -/
def bytesBehind (cells : List (Node × List Byte)) (offset : ℕ) : List Byte :=
  (cells.flatMap Prod.snd).drop offset

/-- The list that a queue holds. -/
structure Holds (s : Queue Node) (cells : List (Node × List Byte)) : Prop where
  chain : Chain s.heap s.queueHead cells
  tail : s.queueTail = cells.getLast?.map Prod.fst
  offset : s.currentBufOffset ≤ (cells.head?.map fun cell => cell.2.length).getD 0
  size : ∀ cell ∈ cells, cell.2.length < 2 ^ 31

variable {s s' : Queue Node} {cells : List (Node × List Byte)}

omit [DecidableEq Node] in
/-- Where there is nothing the queue begins nowhere. -/
theorem Holds.head_eq (h : Holds s cells) : s.queueHead = cells.head?.map Prod.fst := by
  have hchain := h.chain
  generalize s.queueHead = start at hchain ⊢
  cases hchain with
  | nil => rfl
  | cons => rfl

/-- The first node is taken off. -/
theorem Holds.pop {node : Node} {data : List Byte} {rest : List (Node × List Byte)}
    (h : Holds s ((node, data) :: rest)) :
    ∃ s', popHead s = some s' ∧ Holds s' rest ∧ s'.currentBufOffset = 0 ∧
      s'.eosReceived = s.eosReceived := by
  have hhead : s.queueHead = some node := h.head_eq
  obtain ⟨next, hcell⟩ := h.chain.allocated mem_cons_self
  have hchain := h.chain
  rw [hhead] at hchain
  have hrest := hchain.tail hcell
  have hpop : popHead s = some { s with
      heap := update s.heap node none
      queueHead := next
      queueTail := if next = none then none else s.queueTail
      currentBufOffset := 0 } := by
    rw [popHead, hhead, bind_some, hcell]
    rfl
  refine ⟨_, hpop, ⟨hrest, ?_, ?_, ?_⟩, rfl, rfl⟩
  · dsimp only
    rw [h.tail]
    cases hrest with
    | nil => rfl
    | cons => rw [if_neg (by simp), getLast?_cons_cons]
  · exact Nat.zero_le _
  · exact fun cell hcell => h.size cell (mem_cons_of_mem _ hcell)

/-- A node is put behind the last. -/
theorem Holds.enqueue (h : Holds s cells) {data : List Byte} {node : Node}
    (hfresh : s.heap node = none) (hsize : data.length < 2 ^ 31) :
    ∃ s', Demuxer.enqueue s ⟨data, false⟩ (some node) = some s' ∧
      Holds s' (cells ++ [(node, data)]) ∧ s'.eosReceived = s.eosReceived ∧
        s'.currentBufOffset = s.currentBufOffset := by
  have hsizes : ∀ cell ∈ cells ++ [(node, data)], cell.2.length < 2 ^ 31 := by
    intro cell hcell
    rcases mem_append.mp hcell with hold | hnew
    · exact h.size cell hold
    · rw [mem_singleton.mp hnew]
      exact hsize
  rw [Demuxer.enqueue, if_neg Bool.false_ne_true]
  dsimp only
  cases hlast : cells.getLast? with
  | none =>
      obtain rfl := getLast?_eq_none_iff.mp hlast
      have htail : s.queueTail = none := h.tail
      have hoffset : s.currentBufOffset ≤ 0 := h.offset
      rw [htail]
      exact ⟨_, rfl, ⟨Chain.single, rfl, Nat.zero_le _, hsizes⟩, rfl,
        (Nat.le_zero.mp hoffset).symm⟩
  | some last =>
      obtain ⟨last, value⟩ := last
      have htail : s.queueTail = some last := by
        rw [h.tail, hlast]
        rfl
      obtain ⟨next, hcell⟩ := h.chain.allocated (mem_of_getLast? hlast)
      have hne : last ≠ node := by
        rintro rfl
        rw [hfresh] at hcell
        exact absurd hcell (by simp)
      rw [htail]
      dsimp only
      rw [update_of_ne hne, hcell, map_some]
      refine ⟨_, rfl, ⟨h.chain.snoc hlast hfresh, ?_, ?_, hsizes⟩, rfl, rfl⟩
      · rw [getLast?_append]
        rfl
      · have hoffset := h.offset
        cases cells with
        | nil => exact absurd hlast (by simp)
        | cons cell rest => exact hoffset

/-! ## What the loops do -/

omit [DecidableEq Node] in
/-- `get_queue_bytes` counts what is in the buffers. -/
theorem sumFrom_eq {heap : Node → Option (Cell Node (List Byte))} {start : Option Node} {turns : ℕ}
    (h : Chain heap start cells) (hturns : cells.length < turns) (total : BitVec 64) :
    sumFrom heap turns start total =
      some (total + BitVec.ofNat 64 (cells.flatMap Prod.snd).length) := by
  induction h generalizing turns total with
  | nil =>
      obtain ⟨turns, rfl⟩ := Nat.exists_eq_add_of_lt hturns
      show some total = some (total + 0)
      rw [add_zero]
  | @cons a v next rest hcell hrest ih =>
      obtain ⟨turns, rfl⟩ : ∃ more, turns = more + 1 := ⟨turns - 1, by omega⟩
      rw [length_cons] at hturns
      rw [sumFrom, hcell, bind_some, ih (by omega), flatMap_cons, length_append,
        BitVec.ofNat_add, BitVec.add_assoc]

omit [DecidableEq Node] in
/-- What is put behind the last buffer is behind the bytes. -/
theorem Holds.bytesBehind_append (h : Holds s cells) (node : Node) (data : List Byte) :
    bytesBehind (cells ++ [(node, data)]) s.currentBufOffset =
      bytesBehind cells s.currentBufOffset ++ data := by
  have hoffset := h.offset
  have hle : s.currentBufOffset ≤ (cells.flatMap Prod.snd).length := by
    cases cells with
    | nil => exact hoffset
    | cons cell rest =>
        rw [flatMap_cons, length_append]
        exact Nat.le_trans hoffset (Nat.le_add_right _ _)
  rw [bytesBehind, bytesBehind, flatMap_append, drop_append_of_le_length hle,
    flatMap_singleton]

omit [DecidableEq Node] in
/-- **The number of bytes in the queue.** -/
theorem Holds.getQueueBytes (h : Holds s cells) {turns : ℕ} (hturns : cells.length < turns) :
    Demuxer.getQueueBytes turns s =
      some (BitVec.ofNat 64 (bytesBehind cells s.currentBufOffset).length) := by
  rw [Demuxer.getQueueBytes, sumFrom_eq h.chain hturns, map_some, h.head_eq, bytesBehind,
    length_drop]
  have hoffset := h.offset
  cases cells with
  | nil =>
      rw [if_neg (by simp), zero_add, flatMap_nil, length_nil, Nat.zero_sub]
  | cons cell rest =>
      have hle : s.currentBufOffset ≤ ((cell :: rest).flatMap Prod.snd).length := by
        rw [flatMap_cons, length_append]
        exact Nat.le_trans hoffset (Nat.le_add_right _ _)
      rw [if_pos (by simp), zero_add]
      congr 1
      conv_lhs => rw [← Nat.sub_add_cancel hle]
      rw [BitVec.ofNat_add, add_sub_cancel_right]

omit [DecidableEq Node] in
/-- What is behind an offset into the first buffer. -/
theorem bytesBehind_cons {node : Node} {data : List Byte} {offset : ℕ} (h : offset ≤ data.length)
    (rest : List (Node × List Byte)) :
    bytesBehind ((node, data) :: rest) offset = data.drop offset ++ bytesBehind rest 0 := by
  rw [bytesBehind, bytesBehind, flatMap_cons, drop_append_of_le_length h, drop_zero]

omit [DecidableEq Node] in
/-- The offset may be anywhere in the first buffer. -/
theorem Holds.setOffset {node : Node} {data : List Byte} {rest : List (Node × List Byte)}
    (h : Holds s ((node, data) :: rest)) {offset : ℕ} (hoffset : offset ≤ data.length) :
    Holds { s with currentBufOffset := offset } ((node, data) :: rest) :=
  ⟨h.chain, h.tail, hoffset, h.size⟩

/-- A turn of the loop of `advance_queue` at a buffer. -/
theorem advanceQueue_cons {node : Node} {data : List Byte} {rest : List (Node × List Byte)}
    (h : Holds s ((node, data) :: rest)) {remaining : ℕ} (hmore : remaining > 0) (turns : ℕ) :
    advanceQueue (turns + 1) remaining s =
      if remaining ≥ data.length - s.currentBufOffset then
        (popHead s).bind (advanceQueue turns (remaining - (data.length - s.currentBufOffset)))
      else some { s with currentBufOffset := s.currentBufOffset + remaining } := by
  have hhead : s.queueHead = some node := h.head_eq
  obtain ⟨next, hcell⟩ := h.chain.allocated mem_cons_self
  have hoffset : s.currentBufOffset ≤ data.length := h.offset
  rw [advanceQueue, if_pos hmore]
  split
  · rename_i hnone
    rw [hhead] at hnone
    exact absurd hnone (by simp)
  · rename_i head hsome
    obtain rfl : node = head := Option.some.inj (hhead.symm.trans hsome)
    rw [hcell, bind_some, if_neg (Nat.not_lt.mpr hoffset)]

/-- A turn at the end. -/
theorem advanceQueue_nil (h : Holds s []) {remaining : ℕ} (hmore : remaining > 0) (turns : ℕ) :
    advanceQueue (turns + 1) remaining s = some s := by
  have hhead : s.queueHead = none := h.head_eq
  rw [advanceQueue, if_pos hmore]
  split
  · rfl
  · rename_i head hsome
    rw [hhead] at hsome
    exact absurd hsome (by simp)

/-- **`advance_queue` ends, and takes so many bytes off the front**, or all that there are. -/
theorem Holds.advance (h : Holds s cells) {turns : ℕ} (hturns : cells.length < turns)
    (remaining : ℕ) :
    ∃ s' cells', advanceQueue turns remaining s = some s' ∧ Holds s' cells' ∧
      bytesBehind cells' s'.currentBufOffset =
        (bytesBehind cells s.currentBufOffset).drop remaining ∧
      cells'.length ≤ cells.length ∧ s'.eosReceived = s.eosReceived := by
  induction turns generalizing s cells remaining with
  | zero => exact absurd hturns (Nat.not_lt_zero _)
  | succ turns ih =>
      by_cases hmore : remaining > 0
      swap
      · rw [advanceQueue, if_neg hmore, show remaining = 0 by omega]
        exact ⟨s, cells, rfl, h, rfl, Nat.le_refl _, rfl⟩
      cases cells with
      | nil =>
          refine ⟨s, [], advanceQueue_nil h hmore turns, h, ?_, Nat.le_refl _, rfl⟩
          rw [bytesBehind, flatMap_nil, drop_nil, drop_nil]
      | cons cell rest =>
          obtain ⟨node, data⟩ := cell
          have hoffset : s.currentBufOffset ≤ data.length := h.offset
          have hfirst : (data.drop s.currentBufOffset).length = data.length - s.currentBufOffset :=
            length_drop
          rw [length_cons] at hturns
          rw [advanceQueue_cons h hmore, bytesBehind_cons hoffset]
          by_cases hwhole : remaining ≥ data.length - s.currentBufOffset
          · obtain ⟨popped, hpop, hholds, hzero, heos⟩ := h.pop
            obtain ⟨s', cells', hrun, hholds', hbytes, hlength, heos'⟩ :=
              ih hholds (by omega) (remaining - (data.length - s.currentBufOffset))
            rw [if_pos hwhole, hpop, bind_some]
            refine ⟨s', cells', hrun, hholds', ?_, Nat.le_succ_of_le hlength, heos'.trans heos⟩
            have hnone : (data.drop s.currentBufOffset).drop remaining = [] :=
              drop_eq_nil_of_le (by rw [hfirst]; exact hwhole)
            rw [hbytes, hzero, drop_append, hfirst, hnone, nil_append]
          · rw [if_neg hwhole]
            have hinside : s.currentBufOffset + remaining ≤ data.length := by omega
            refine ⟨_, (node, data) :: rest, rfl, h.setOffset hinside, ?_, Nat.le_refl _, rfl⟩
            rw [bytesBehind_cons hinside, ← drop_drop, drop_append_of_le_length (by
              rw [hfirst]
              omega)]

theorem asInt_of_lt {n : ℕ} (h : n < 2 ^ 31) : asInt n = n := by
  rw [asInt, BitVec.toInt_eq_toNat_of_lt (by rw [BitVec.toNat_ofNat]; omega), BitVec.toNat_ofNat,
    Nat.mod_eq_of_lt (by omega)]

/-- What the callback answers when it has read these bytes. -/
def answer (out : List Byte) (eos : Bool) : Answer :=
  if out.length > 0 then .bytes out else if eos then .eof else .again

/-- A turn of the loop of the read callback at a buffer: as much as there is room for, or the rest
of the buffer. -/
theorem readPacket_cons {node : Node} {data : List Byte} {rest : List (Node × List Byte)}
    (h : Holds s ((node, data) :: rest)) {bufSize : ℕ} {out : List Byte}
    (hroom : out.length < bufSize) (turns : ℕ) :
    readPacket bufSize (turns + 1) out s =
      let toCopy := min (bufSize - out.length) (data.length - s.currentBufOffset)
      let out := out ++ (data.drop s.currentBufOffset).take toCopy
      let s' := { s with currentBufOffset := s.currentBufOffset + toCopy }
      if s.currentBufOffset + toCopy ≥ data.length then
        (popHead s').bind (readPacket bufSize turns out)
      else readPacket bufSize turns out s' := by
  have hhead : s.queueHead = some node := h.head_eq
  obtain ⟨next, hcell⟩ := h.chain.allocated mem_cons_self
  have hoffset : s.currentBufOffset ≤ data.length := h.offset
  have hsize : data.length < 2 ^ 31 := h.size _ mem_cons_self
  have hcopy : min ((bufSize : ℤ) - out.length) ((data.length : ℤ) - s.currentBufOffset) =
      ((min (bufSize - out.length) (data.length - s.currentBufOffset) : ℕ) : ℤ) := by omega
  rw [readPacket, if_pos hroom]
  split
  · rename_i hnone
    rw [hhead] at hnone
    exact absurd hnone (by simp)
  · rename_i head hsome
    obtain rfl : node = head := Option.some.inj (hhead.symm.trans hsome)
    rw [hcell, bind_some]
    dsimp only
    rw [asInt_of_lt hsize, asInt_of_lt (by omega), hcopy, if_neg (by omega), Int.toNat_natCast]

/-- A turn at the end. -/
theorem readPacket_nil (h : Holds s []) {bufSize : ℕ} {out : List Byte}
    (hroom : out.length < bufSize) (turns : ℕ) :
    readPacket bufSize (turns + 1) out s = some (s, answer out s.eosReceived) := by
  have hhead : s.queueHead = none := h.head_eq
  rw [readPacket, if_pos hroom]
  split
  · rfl
  · rename_i head hsome
    rw [hhead] at hsome
    exact absurd hsome (by simp)

/-- A turn when there is no more room. -/
theorem readPacket_full {bufSize : ℕ} {out : List Byte} (hfull : ¬ out.length < bufSize)
    (turns : ℕ) : readPacket bufSize (turns + 1) out s = some (s, .bytes out) := by
  rw [readPacket, if_neg hfull]

/-- **The read callback ends**, and gives so many bytes from the front, or all that there are; when
there is none it answers by whether the end has been received. -/
theorem Holds.read (h : Holds s cells) {bufSize turns : ℕ} (hpos : 0 < bufSize)
    (hturns : cells.length < turns) {out : List Byte} (hout : out.length ≤ bufSize) :
    ∃ s' cells', readPacket bufSize turns out s =
        some (s', answer (out ++ (bytesBehind cells s.currentBufOffset).take
          (bufSize - out.length)) s.eosReceived) ∧
      Holds s' cells' ∧
      bytesBehind cells' s'.currentBufOffset =
        (bytesBehind cells s.currentBufOffset).drop (bufSize - out.length) ∧
      cells'.length ≤ cells.length ∧ s'.eosReceived = s.eosReceived := by
  induction turns generalizing s cells out with
  | zero => exact absurd hturns (Nat.not_lt_zero _)
  | succ turns ih =>
      by_cases hroom : out.length < bufSize
      swap
      · have hfull : bufSize - out.length = 0 := by omega
        rw [readPacket_full hroom, hfull, take_zero, append_nil, answer,
          if_pos (by omega)]
        exact ⟨s, cells, rfl, h, rfl, Nat.le_refl _, rfl⟩
      cases cells with
      | nil =>
          have hnone : bytesBehind ([] : List (Node × List Byte)) s.currentBufOffset = [] :=
            drop_nil
          rw [hnone, take_nil, append_nil]
          exact ⟨s, [], readPacket_nil h hroom turns, h, by rw [hnone, drop_nil],
            Nat.le_refl _, rfl⟩
      | cons cell rest =>
          obtain ⟨node, data⟩ := cell
          have hoffset : s.currentBufOffset ≤ data.length := h.offset
          rw [length_cons] at hturns
          rw [readPacket_cons h hroom, bytesBehind_cons hoffset]
          dsimp only
          generalize hfirst : data.drop s.currentBufOffset = first
          have hlength : first.length = data.length - s.currentBufOffset := by
            rw [← hfirst, length_drop]
          rw [← hlength]
          by_cases hshort : first.length ≤ bufSize - out.length
          · -- the rest of the buffer, and on with the next
            have hmin : min (bufSize - out.length) first.length = first.length := by omega
            rw [hmin, take_length, if_pos (by omega)]
            obtain ⟨popped, hpop, hholds, hzero, heos⟩ :=
              (h.setOffset (show s.currentBufOffset + first.length ≤ data.length by omega)).pop
            have hout' : (out ++ first).length = out.length + first.length := length_append
            obtain ⟨s', cells', hrun, hholds', hbytes, hlength', heos'⟩ :=
              @ih _ _ hholds (by omega) (out ++ first) (by omega)
            have hleft : bufSize - (out ++ first).length = bufSize - out.length - first.length := by
              omega
            rw [hpop, bind_some, hrun, heos, hzero, hleft]
            refine ⟨s', cells', ?_, hholds', ?_, Nat.le_succ_of_le hlength', heos'.trans heos⟩
            · rw [take_append, take_of_length_le hshort, append_assoc]
            · rw [hbytes, hzero, hleft, drop_append, drop_eq_nil_of_le hshort,
                nil_append]
          · -- the buffer has more than there is room for
            have hmin : min (bufSize - out.length) first.length = bufSize - out.length := by omega
            have htake : (first.take (bufSize - out.length)).length = bufSize - out.length := by
              rw [length_take]
              omega
            have hout' : (out ++ first.take (bufSize - out.length)).length = bufSize := by
              rw [length_append, htake]
              omega
            have hinside : s.currentBufOffset + (bufSize - out.length) ≤ data.length := by omega
            obtain ⟨turns, rfl⟩ : ∃ more, turns = more + 1 := ⟨turns - 1, by omega⟩
            rw [hmin, if_neg (by omega), readPacket_full (by omega), answer]
            refine ⟨_, (node, data) :: rest, ?_, h.setOffset hinside, ?_, Nat.le_refl _, rfl⟩
            · rw [take_append_of_le_length (by omega), if_pos (by omega)]
            · rw [bytesBehind_cons hinside, ← drop_drop, hfirst,
                drop_append_of_le_length (by omega)]

/-! ## The queue as a stream of bytes -/

/-- A queue, and beside it how many buffers and which bytes have been given to it, whether the end
has, and which bytes have been returned by the callback or skipped. -/
structure Stream (Node : Type) where
  queue : Queue Node
  buffers : ℕ
  enqueued : List Byte
  ended : Bool
  consumed : List Byte

namespace Stream

/-- What has been given and not taken. -/
def pending (s : Stream Node) : List Byte := s.enqueued.drop s.consumed.length

/-- Turns for a loop over the nodes. -/
def turns (s : Stream Node) : ℕ := s.buffers + 1

end Stream

/-- A call. -/
inductive Call (Node : Type)
  | enqueue (buf : Buffer) (node : Node)
  | read (bufSize : ℕ)
  | advance (bytes : ℕ)

/-- What a call does.  `malloc` gives a node that does not exist, and the size of a buffer and the
size that is asked for are positive as an `int`. -/
def next (s : Stream Node) : Call Node → Option (Stream Node)
  | .enqueue buf node =>
      if s.queue.heap node = none ∧ buf.data.length < 2 ^ 31 then
        (enqueue s.queue buf (some node)).map fun queue =>
          if buf.eos then { s with queue := queue, ended := true }
          else
            { s with
              queue := queue
              buffers := s.buffers + 1
              enqueued := s.enqueued ++ buf.data }
      else none
  | .read bufSize =>
      if 0 < bufSize ∧ bufSize < 2 ^ 31 then
        (readPacket bufSize s.turns [] s.queue).map fun p =>
          { s with
            queue := p.1
            consumed := s.consumed ++ match p.2 with
              | .bytes read => read
              | _ => [] }
      else none
  | .advance bytes =>
      (advanceQueue s.turns bytes s.queue).map fun queue =>
        { s with queue := queue, consumed := s.consumed ++ s.pending.take bytes }

/-- The queue of a demuxer that has just been created. -/
def stream : System (Stream Node) (Call Node) where
  init s := s = ⟨⟨fun _ => none, none, none, 0, false⟩, 0, [], false, []⟩
  next := next

/-- What a queue does as a stream of bytes, however the calls came. -/
structure IsStream (s : Stream Node) : Prop where
  taken : s.consumed <+: s.enqueued
  counted : getQueueBytes s.turns s.queue =
    some (BitVec.ofNat 64 (s.enqueued.length - s.consumed.length))
  read : ∀ bufSize, 0 < bufSize → bufSize < 2 ^ 31 → ∃ queue,
    readPacket bufSize s.turns [] s.queue = some (queue,
      if s.pending ≠ [] then .bytes (s.pending.take bufSize)
      else if s.ended then .eof else .again)
  advanced : ∀ bytes, ∃ queue, advanceQueue s.turns bytes s.queue = some queue
  tail : ∃ cells, Chain s.queue.heap s.queue.queueHead cells ∧
    s.queue.queueTail = cells.getLast?.map Prod.fst

/-- The buffers in the queue hold what is pending. -/
structure Tracks (s : Stream Node) (cells : List (Node × List Byte)) : Prop where
  holds : Holds s.queue cells
  bytes : bytesBehind cells s.queue.currentBufOffset = s.pending
  buffers : cells.length ≤ s.buffers
  taken : s.consumed <+: s.enqueued
  ended : s.queue.eosReceived = s.ended

namespace Tracks

variable {s s' : Stream Node}

omit [DecidableEq Node] in
theorem turns (h : Tracks s cells) : cells.length < s.turns := Nat.lt_succ_of_le h.buffers

omit [DecidableEq Node] in
/-- What is taken from the front of what is pending has been given. -/
theorem taken_append (h : Tracks s cells) (n : ℕ) :
    s.consumed ++ s.pending.take n <+: s.enqueued ∧
      s.enqueued.drop (s.consumed ++ s.pending.take n).length = s.pending.drop n := by
  obtain ⟨rest, hrest⟩ := h.taken
  have hpending : s.pending = rest := by
    rw [Stream.pending, ← hrest, drop_left]
  rw [hpending, ← hrest, length_append, ← drop_drop, drop_left]
  refine ⟨(prefix_append_right_inj _).mpr (List.take_prefix n rest), ?_⟩
  rw [length_take]
  by_cases hn : n ≤ rest.length
  · rw [Nat.min_eq_left hn]
  · rw [Nat.min_eq_right (by omega), drop_length, drop_eq_nil_of_le (by omega)]

/-- What the callback answers. -/
theorem read_eq (h : Tracks s cells) {bufSize : ℕ} (hpos : 0 < bufSize) :
    ∃ queue cells', readPacket bufSize s.turns [] s.queue = some (queue,
        if s.pending ≠ [] then .bytes (s.pending.take bufSize)
        else if s.ended then .eof else .again) ∧
      Holds queue cells' ∧ bytesBehind cells' queue.currentBufOffset = s.pending.drop bufSize ∧
      cells'.length ≤ s.buffers ∧ queue.eosReceived = s.ended := by
  obtain ⟨queue, cells', hrun, hholds, hbytes, hlength, heos⟩ :=
    h.holds.read hpos h.turns (show ([] : List Byte).length ≤ bufSize from Nat.zero_le _)
  rw [nil_append, length_nil, Nat.sub_zero, h.bytes, h.ended] at hrun
  rw [length_nil, Nat.sub_zero, h.bytes] at hbytes
  refine ⟨queue, cells', ?_, hholds, hbytes, Nat.le_trans hlength h.buffers, heos.trans h.ended⟩
  rw [hrun, answer]
  cases hpending : s.pending with
  | nil =>
      rw [take_nil, if_neg (show ¬ ([] : List Byte).length > 0 from Nat.lt_irrefl 0),
        if_neg (not_not.mpr rfl)]
  | cons b rest =>
      rw [if_pos, if_pos (cons_ne_nil b rest)]
      rw [length_take, length_cons]
      omega

/-- **Every call keeps the queue a stream.** -/
theorem next (h : Tracks s cells) {call : Call Node} (hnext : Demuxer.next s call = some s') :
    ∃ cells', Tracks s' cells' := by
  cases call with
  | enqueue buf node =>
      obtain ⟨data, eos⟩ := buf
      rw [Demuxer.next] at hnext
      split at hnext
      case isFalse => exact absurd hnext (by simp)
      case isTrue hcall =>
        cases eos with
        | true =>
            cases hnext
            exact ⟨cells, ⟨h.holds.chain, h.holds.tail, h.holds.offset, h.holds.size⟩, h.bytes,
              h.buffers, h.taken, rfl⟩
        | false =>
            obtain ⟨queue, hqueue, hholds, heos, hoffset⟩ := h.holds.enqueue hcall.1 hcall.2
            rw [hqueue] at hnext
            cases hnext
            refine ⟨cells ++ [(node, data)], hholds, ?_, ?_, ?_, heos.trans h.ended⟩
            · show bytesBehind _ queue.currentBufOffset = (s.enqueued ++ data).drop s.consumed.length
              rw [hoffset, h.holds.bytesBehind_append, h.bytes, Stream.pending,
                drop_append_of_le_length h.taken.length_le]
            · show (cells ++ [(node, data)]).length ≤ s.buffers + 1
              rw [length_append, length_singleton]
              exact Nat.succ_le_succ h.buffers
            · exact h.taken.trans (prefix_append _ _)
  | read bufSize =>
      rw [Demuxer.next] at hnext
      split at hnext
      case isFalse => exact absurd hnext (by simp)
      case isTrue hcall =>
        obtain ⟨queue, cells', hrun, hholds, hbytes, hlength, heos⟩ := h.read_eq hcall.1
        obtain ⟨htaken, hrest⟩ := h.taken_append bufSize
        rw [hrun, map_some] at hnext
        have hread : (match (if s.pending ≠ [] then Answer.bytes (s.pending.take bufSize)
            else if s.ended then .eof else .again) with
            | .bytes read => read
            | _ => []) = s.pending.take bufSize := by
          cases s.pending with
          | nil =>
              rw [if_neg (not_not.mpr rfl), take_nil]
              cases s.ended <;> rfl
          | cons b rest => rw [if_pos (cons_ne_nil b rest)]
        dsimp only at hnext
        rw [hread] at hnext
        cases hnext
        exact ⟨cells', hholds, hbytes.trans hrest.symm, hlength, htaken, heos⟩
  | advance bytes =>
      obtain ⟨queue, cells', hrun, hholds, hbytes, hlength, heos⟩ := h.holds.advance h.turns bytes
      obtain ⟨htaken, hrest⟩ := h.taken_append bytes
      rw [Demuxer.next, hrun] at hnext
      cases hnext
      rw [h.bytes] at hbytes
      exact ⟨cells', hholds, hbytes.trans hrest.symm, Nat.le_trans hlength h.buffers, htaken,
        heos.trans h.ended⟩

end Tracks

/-- **The queue is a stream of bytes**, after any calls in any order. -/
theorem isStream_of_reachable {s : Stream Node} (hs : stream.Reachable s) : IsStream s := by
  obtain ⟨cells, h⟩ : ∃ cells, Tracks s cells := by
    refine hs.invariant (I := fun s => ∃ cells, Tracks s cells) ?_
      fun _ _ _ _ ⟨_, htracks⟩ _ hnext => htracks.next hnext
    rintro s rfl
    exact ⟨[], ⟨Chain.nil, rfl, Nat.le_refl _, fun _ hcell => absurd hcell not_mem_nil⟩, rfl,
      Nat.le_refl _, prefix_refl _, rfl⟩
  refine ⟨h.taken, ?_, ?_, ?_, cells, h.holds.chain, h.holds.tail⟩
  · rw [h.holds.getQueueBytes h.turns, h.bytes, Stream.pending, length_drop]
  · intro bufSize hpos _
    obtain ⟨queue, _, hrun, -⟩ := h.read_eq hpos
    exact ⟨queue, hrun⟩
  · intro bytes
    obtain ⟨queue, _, hrun, -⟩ := h.holds.advance h.turns bytes
    exact ⟨queue, hrun⟩

/-- Three buffers, one of them empty; a read of the first and the last; a byte is skipped. -/
def threeBuffers : List (Call ℕ) :=
  [.enqueue ⟨[1, 2, 3], false⟩ 0, .enqueue ⟨[], false⟩ 1, .enqueue ⟨[4, 5, 6, 7], false⟩ 2, .read 5,
    .advance 1, .enqueue ⟨[8], false⟩ 0]

theorem isStream_of_reachable_threeBuffers :
    ∃ s, stream.run ⟨⟨fun _ => none, none, none, 0, false⟩, 0, [], false, []⟩ threeBuffers =
        some s ∧
      s.consumed = [1, 2, 3, 4, 5, 6] ∧ s.pending = [7, 8] ∧ IsStream s := by
  have hstart : stream.Reachable
      (⟨⟨fun _ => none, none, none, 0, false⟩, 0, [], false, []⟩ : Stream ℕ) := .start rfl
  have hrun : stream.run ⟨⟨fun _ => none, none, none, 0, false⟩, 0, [], false, []⟩ threeBuffers =
      some _ := rfl
  exact ⟨_, hrun, rfl, rfl, isStream_of_reachable (hstart.run hrun)⟩

end Zstreamer.Demuxer

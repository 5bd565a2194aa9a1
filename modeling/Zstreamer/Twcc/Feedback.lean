/-
# Feedback messages

Status chunks, and the messages that are made of them.
-/

import Mathlib.Algebra.Ring.Nat
import Mathlib.Data.List.OfFn
import Mathlib.Data.Nat.Digits.Defs
import Zstreamer.Foundation.Bits

/-! # Status chunks

A feedback message says of a number of packets whether they have arrived, in chunks of 16 bits.
A chunk of the first kind has one status for a run of packets, the other two have a symbol of one
or two bits for each of fourteen or seven packets, the first packet in the highest bits.

`chunkSymbols` is what `twcc_parse_ccfb` reads in a chunk; `chunkSymbols_number` says that it is
what has been written.
-/

namespace Zstreamer.Twcc

open Foundation List

/-! ## Reading a chunk -/

/-- The statuses of a chunk, before the loop over them stops at the number of packets. -/
def chunkSymbols (chunk : ℕ) : List ℕ :=
  if chunk &&& 0x8000 = 0 then
    replicate (chunk &&& 0x1FFF) ((chunk >>> 13) &&& 0x03)
  else
    let symSize := if chunk &&& 0x4000 ≠ 0 then 2 else 1
    let numSym := if symSize = 1 then 14 else 7
    (range numSym).map fun i =>
      let shift := if symSize = 1 then 13 - i else 12 - i * 2
      (chunk >>> shift) &&& ((1 <<< symSize) - 1)

/-! ## Writing a chunk -/

/-- A chunk: the run of one status, or a symbol for each packet. -/
inductive Chunk
  | run (status : Fin 4) (length : Fin 8192)
  | oneBit (symbols : Fin 14 → Fin 2)
  | twoBit (symbols : Fin 7 → Fin 4)

namespace Chunk

/-- The statuses a chunk stands for; there may be more of them than packets left. -/
def symbols : Chunk → List ℕ
  | run status length => replicate length.val status.val
  | oneBit symbols => ofFn fun i => (symbols i).val
  | twoBit symbols => ofFn fun i => (symbols i).val

/-- The number of a chunk: the kind in the highest bits, and behind it the symbols, of which the
last one is in the lowest bits. -/
def number : Chunk → ℕ
  | run status length => status.val * 2 ^ 13 + length.val
  | oneBit symbols => Nat.ofDigits 2 ((ofFn fun i => (symbols i).val).reverse ++ [0, 1])
  | twoBit symbols => Nat.ofDigits 4 ((ofFn fun i => (symbols i).val).reverse ++ [3])

end Chunk

/-! ## What is written is read -/

theorem and_two_pow_eq_zero (x i : ℕ) : x &&& 2 ^ i = 0 ↔ x / 2 ^ i % 2 = 0 := by
  rw [Nat.and_two_pow, Nat.mul_eq_zero, Nat.toNat_testBit]
  exact or_iff_left (Nat.two_pow_pos i).ne'

theorem shiftRight_and_mask (x shift size : ℕ) :
    (x >>> shift) &&& ((1 <<< size) - 1) = x / 2 ^ shift % 2 ^ size := by
  rw [Nat.one_shiftLeft, Nat.and_two_pow_sub_one_eq_mod, Nat.shiftRight_eq_div_pow]

/-- A digit of a number. -/
theorem ofDigits_digit {b : ℕ} {digits : List ℕ} (hdigits : ∀ d ∈ digits, d < b) {i d : ℕ}
    (hd : digits[i]? = some d) : Nat.ofDigits b digits / b ^ i % b = d := by
  obtain ⟨hi, hget⟩ := List.getElem?_eq_some_iff.mp hd
  have hless : d < b := hdigits d (hget ▸ List.getElem_mem hi)
  rw [Nat.ofDigits_div_pow_eq_ofDigits_drop i (by omega) digits hdigits,
    drop_eq_getElem_cons hi, hget, Nat.ofDigits_cons, Nat.add_mul_mod_self_left,
    Nat.mod_eq_of_lt hless]

/-- The symbol in front of so many others has the digit that stands behind as many. -/
theorem getElem?_reverse_ofFn {n : ℕ} (symbols : Fin n → ℕ) (top : List ℕ) {i : ℕ} (hi : i < n) :
    ((ofFn symbols).reverse ++ top)[n - 1 - i]? = (ofFn symbols)[i]? := by
  have hlength : (ofFn symbols).length = n := length_ofFn
  rw [getElem?_append_left (by rw [length_reverse, hlength]; omega),
    getElem?_reverse (by rw [hlength]; omega), hlength]
  congr 1
  omega

namespace Chunk

/-- A number below `2 ^ 15` has not the highest bit. -/
theorem chunkSymbols_run (status : Fin 4) (length : Fin 8192) :
    chunkSymbols (run status length).number = (run status length).symbols := by
  have hstatus : status.val < 4 := status.isLt
  have hlength : length.val < 8192 := length.isLt
  have hkind : (run status length).number &&& 0x8000 = 0 := by
    refine (and_two_pow_eq_zero _ 15).mpr ?_
    rw [number]
    omega
  have hrun : (run status length).number &&& 0x1FFF = length.val := by
    refine (Nat.and_two_pow_sub_one_eq_mod _ 13).trans ?_
    rw [number]
    omega
  have hst : ((run status length).number >>> 13) &&& 0x03 = status.val := by
    refine (Nat.and_two_pow_sub_one_eq_mod _ 2).trans ?_
    rw [number, Nat.shiftRight_eq_div_pow]
    omega
  rw [chunkSymbols, if_pos hkind, hrun, hst, symbols]

/-- The symbols of a vector are the digits of its number, of which the first one is the highest. -/
theorem digit_number {n b : ℕ} (values : Fin n → Fin b) (top : List ℕ) (htop : ∀ d ∈ top, d < b)
    (i : Fin n) :
    Nat.ofDigits b ((ofFn fun j => (values j).val).reverse ++ top) / b ^ (n - 1 - i.val) % b =
      (values i).val := by
  refine ofDigits_digit ?_ ?_
  · intro d hd
    rcases mem_append.mp hd with hmem | hmem
    · obtain ⟨j, rfl⟩ := (mem_ofFn' _ _).mp (mem_reverse.mp hmem)
      exact (values j).isLt
    · exact htop d hmem
  · rw [getElem?_reverse_ofFn _ top i.isLt]
    simp

/-- The digits above the symbols. -/
theorem digit_top {n b : ℕ} (values : Fin n → Fin b) (top : List ℕ) (htop : ∀ d ∈ top, d < b)
    {i d : ℕ} (hd : top[i]? = some d) :
    Nat.ofDigits b ((ofFn fun j => (values j).val).reverse ++ top) / b ^ (n + i) % b = d := by
  refine ofDigits_digit ?_ ?_
  · intro e he
    rcases mem_append.mp he with hmem | hmem
    · obtain ⟨j, rfl⟩ := (mem_ofFn' _ _).mp (mem_reverse.mp hmem)
      exact (values j).isLt
    · exact htop e hmem
  · rw [getElem?_append_right (by simp)]
    simpa using hd

theorem chunkSymbols_oneBit (values : Fin 14 → Fin 2) :
    chunkSymbols (oneBit values).number = (oneBit values).symbols := by
  have htop : ∀ d ∈ [0, 1], d < 2 := by decide
  have hkind : (oneBit values).number / 2 ^ 15 % 2 = 1 := digit_top values [0, 1] htop (i := 1) rfl
  have hsize : (oneBit values).number / 2 ^ 14 % 2 = 0 := digit_top values [0, 1] htop (i := 0) rfl
  have hvector : ¬ (oneBit values).number &&& 0x8000 = 0 := by
    refine (not_congr (and_two_pow_eq_zero _ 15)).mpr ?_
    omega
  have hone : ¬ (oneBit values).number &&& 0x4000 ≠ 0 :=
    not_not_intro ((and_two_pow_eq_zero _ 14).mpr hsize)
  rw [chunkSymbols, if_neg hvector]
  simp only [if_neg hone, if_true, symbols]
  refine ext_getElem (by simp) ?_
  intro i hleft hright
  have hi : i < 14 := by simpa using hright
  rw [List.getElem_map, List.getElem_range, shiftRight_and_mask, List.getElem_ofFn]
  exact digit_number values [0, 1] htop ⟨i, hi⟩

theorem chunkSymbols_twoBit (values : Fin 7 → Fin 4) :
    chunkSymbols (twoBit values).number = (twoBit values).symbols := by
  have htop : ∀ d ∈ [3], d < 4 := by decide
  have hkinds : (twoBit values).number / 4 ^ 7 % 4 = 3 := digit_top values [3] htop (i := 0) rfl
  have hvector : ¬ (twoBit values).number &&& 0x8000 = 0 := by
    refine (not_congr (and_two_pow_eq_zero _ 15)).mpr ?_
    omega
  have htwo : (twoBit values).number &&& 0x4000 ≠ 0 := by
    refine (not_congr (and_two_pow_eq_zero _ 14)).mpr ?_
    omega
  rw [chunkSymbols, if_neg hvector]
  simp only [if_pos htwo, symbols]
  refine ext_getElem (by simp) ?_
  intro i hleft hright
  have hi : i < 7 := by simpa using hright
  rw [getElem_map, getElem_range, if_neg (by decide), shiftRight_and_mask,
    List.getElem_ofFn]
  have hshift : 2 ^ (12 - i * 2) = 4 ^ (7 - 1 - i) := by
    rw [show 4 = 2 ^ 2 from rfl, ← Nat.pow_mul]
    congr 1
    omega
  rw [hshift]
  exact digit_number values [3] htop ⟨i, hi⟩

/-- **A chunk is read as it has been written.** -/
theorem chunkSymbols_number (chunk : Chunk) : chunkSymbols chunk.number = chunk.symbols := by
  cases chunk with
  | run status length => exact chunkSymbols_run status length
  | oneBit values => exact chunkSymbols_oneBit values
  | twoBit values => exact chunkSymbols_twoBit values

/-- A chunk has 16 bits. -/
theorem number_lt (chunk : Chunk) : chunk.number < 2 ^ 16 := by
  cases chunk with
  | run status length =>
      have hstatus : status.val < 4 := status.isLt
      have hlength : length.val < 8192 := length.isLt
      rw [number]
      omega
  | oneBit values =>
      refine (Nat.ofDigits_lt_base_pow_length (by decide) ?_).trans_eq (by simp)
      intro d hd
      simp only [mem_append, mem_reverse, mem_ofFn, mem_cons,
        not_mem_nil, or_false] at hd
      rcases hd with ⟨j, rfl⟩ | rfl | rfl
      · exact (values j).isLt
      · decide
      · decide
  | twoBit values =>
      refine (Nat.ofDigits_lt_base_pow_length (by decide) ?_).trans_eq (by simp)
      intro d hd
      simp only [mem_append, mem_reverse, mem_ofFn, mem_cons,
        not_mem_nil, or_false] at hd
      rcases hd with ⟨j, rfl⟩ | rfl
      · exact (values j).isLt
      · decide

/-- The chunk as the two bytes it has in a message. -/
def word (chunk : Chunk) : BitVec 16 := BitVec.ofNat 16 chunk.number

theorem chunkSymbols_word (chunk : Chunk) : chunkSymbols chunk.word.toNat = chunk.symbols := by
  rw [word, BitVec.toNat_ofNat, Nat.mod_eq_of_lt chunk.number_lt, chunkSymbols_number]

end Chunk

end Zstreamer.Twcc

/-! # Feedback messages

`twcc_parse_ccfb` reads a transport-wide feedback message: the chunks with the statuses of the
packets, and behind them a delta for each packet that has arrived. It keeps the statuses in an
array of 1024 and looks for the deltas where it has stopped reading chunks.

A message with at most so many statuses is decoded faithfully; in a longer one the chunks left
over are taken for deltas. Whatever the bytes, nothing outside the message is read as long as the
offset, an `int`, does not overflow.
-/

namespace Zstreamer.Twcc

open Foundation List

/-! ## The parser -/

/-- The size of `statuses`. -/
def maxStatuses : ℕ := 1024

/-- The first number above `INT_MAX`. -/
def intLimit : ℕ := 2 ^ 31

/-- `ntohs` of the two bytes at an offset; both must be in the message. -/
def readWord (msg : List Byte) (offset : ℕ) : Option (BitVec 16) :=
  msg[offset]?.bind fun high => msg[offset + 1]?.map fun low => be16 high low

/-- The loop over the symbols of a chunk. `pkts_done` and `n_statuses` are both the number of the
statuses kept. -/
def addStatuses (count : ℕ) : List ℕ → List ℕ → List ℕ
  | [], statuses => statuses
  | symbol :: symbols, statuses =>
      if statuses.length < count ∧ statuses.length < maxStatuses then
        addStatuses count symbols (statuses ++ [symbol])
      else statuses

/-- The loop over the chunks: the offset behind them and the statuses. `none` is a read outside
the message or an overflow of the offset. -/
def chunkLoop (msg : List Byte) (count offset : ℕ) (statuses : List ℕ) :
    Option (ℕ × List ℕ) :=
  if offset + 2 ≥ intLimit then none
  else if offset + 2 ≤ msg.length ∧ statuses.length < count ∧ statuses.length < maxStatuses then
    (readWord msg offset).bind fun chunk =>
      chunkLoop msg count (offset + 2) (addStatuses count (chunkSymbols chunk.toNat) statuses)
  else some (offset, statuses)
termination_by msg.length - offset

/-- What the function finds in a message: the counts, and for each packet that has arrived its
sequence number and its time. -/
structure Report where
  lost : ℕ
  recv : ℕ
  arrivals : List (BitVec 16 × BitVec 64)
  deriving DecidableEq, Repr

/-- The bytes of a delta. -/
def deltaSize (status : ℕ) : ℕ := if status = 1 then 1 else 2

/-- `delta_250us`: one byte without a sign, or two bytes with one. -/
def readDelta (msg : List Byte) (status offset : ℕ) : Option (BitVec 32) :=
  if status = 1 then msg[offset]?.map fun byte => byte.setWidth 32
  else (readWord msg offset).map fun word => word.signExtend 32

/-- The loop over the statuses, of which `i` are behind it. What the delay estimator, which
computes with `float`, makes of the arrivals is left out. -/
def deltaLoop (msg : List Byte) (base : BitVec 16) :
    List ℕ → (i offset : ℕ) → BitVec 64 → Report → Option Report
  | [], _, _, _, report => some report
  | status :: statuses, i, offset, time, report =>
      if status = 0 then
        deltaLoop msg base statuses (i + 1) offset time { report with lost := report.lost + 1 }
      else if offset + deltaSize status ≥ intLimit then none
      else if offset + deltaSize status > msg.length then
        some { report with recv := report.recv + 1 }
      else
        (readDelta msg status offset).bind fun delta =>
          let time := time + delta.signExtend 64 * 250
          deltaLoop msg base statuses (i + 1) (offset + deltaSize status) time
            { report with
              recv := report.recv + 1
              arrivals := report.arrivals ++ [(base + BitVec.ofNat 16 i, time)] }

/-- `recv_ref_us`, of the three bytes of `ref_time_64ms`. -/
def referenceTime (high middle low : Byte) : BitVec 64 :=
  (high.setWidth 32 <<< 16 ||| middle.setWidth 32 <<< 8 ||| low.setWidth 32).setWidth 64 * 64000

/-- `twcc_parse_ccfb`. There is no report where it returns at once. -/
def parseCcfb (msg : List Byte) : Option (Option Report) :=
  if msg.length < 20 then some none
  else
    (readWord msg 12).bind fun base =>
    (readWord msg 14).bind fun count =>
    msg[16]?.bind fun high => msg[17]?.bind fun middle => msg[18]?.bind fun low =>
    if count = 0 then some none
    else
      (chunkLoop msg count.toNat 20 []).bind fun (offset, statuses) =>
      (deltaLoop msg base statuses 0 offset (referenceTime high middle low) ⟨0, 0, []⟩).map some

/-- `zst_webrtc_twcc_process_incoming`: what it makes of a message before it returns it. -/
def processIncoming (msg : List Byte) : Option (Option Report) :=
  if msg.length < 4 then some none
  else
    msg[1]?.bind fun pt =>
    if 192 ≤ pt ∧ pt ≤ 223 ∧ pt = 205 then
      msg[0]?.bind fun first => if first &&& 0x1F = 15 then parseCcfb msg else some none
    else some none

/-! ## The messages -/

/-- A packet as a feedback message tells of it. -/
inductive Packet
  | lost
  | small (delta : Byte)
  | large (delta : BitVec 16)

namespace Packet

/-- The status of a packet. -/
def symbol : Packet → ℕ
  | lost => 0
  | small _ => 1
  | large _ => 2

/-- The time since the packet before it, in ticks of 250 microseconds. -/
def delta? : Packet → Option ℤ
  | lost => none
  | small delta => some delta.toNat
  | large delta => some delta.toInt

/-- The bytes of the delta. -/
def deltaBytes : Packet → List Byte
  | lost => []
  | small delta => [delta]
  | large delta => [(delta >>> 8).setWidth 8, delta.setWidth 8]

end Packet

/-- The two bytes of a chunk. -/
def Chunk.bytes (chunk : Chunk) : List Byte :=
  [(chunk.word >>> 8).setWidth 8, chunk.word.setWidth 8]

/-- A feedback message. The chunks cover the packets, and the last of them is needed for it. -/
structure Message where
  first : Byte
  feedback : first &&& 0x1F = 15
  header : List Byte
  header_length : header.length = 10
  base : BitVec 16
  reference : BitVec 24
  feedbackCount : Byte
  packets : List Packet
  fits : packets.length < 2 ^ 16
  chunks : List Chunk
  covers : (chunks.flatMap Chunk.symbols).take packets.length = packets.map Packet.symbol
  tight : (chunks.dropLast.flatMap Chunk.symbols).length < packets.length

namespace Message

/-- The number of packets. -/
def count (message : Message) : BitVec 16 := BitVec.ofNat 16 message.packets.length

/-- What stands in front of the chunks. -/
def front (message : Message) : List Byte :=
  message.first :: 205 :: message.header ++
    [(message.base >>> 8).setWidth 8, message.base.setWidth 8,
      (message.count >>> 8).setWidth 8, message.count.setWidth 8,
      (message.reference >>> 16).setWidth 8, (message.reference >>> 8).setWidth 8,
      message.reference.setWidth 8, message.feedbackCount]

/-- The bytes of a message. -/
def bytes (message : Message) : List Byte :=
  message.front ++ message.chunks.flatMap Chunk.bytes ++
    message.packets.flatMap Packet.deltaBytes

end Message

/-- The index and the delta of each packet that has arrived, when so many packets are before. -/
def receivedFrom (i : ℕ) : List Packet → List (ℕ × ℤ)
  | [] => []
  | packet :: packets =>
      match packet.delta? with
      | none => receivedFrom (i + 1) packets
      | some delta => (i, delta) :: receivedFrom (i + 1) packets

namespace Message

/-- The packets that have arrived. -/
def received (message : Message) : List (ℕ × ℤ) := receivedFrom 0 message.packets

/-- What a faithful report of a message has: both counts, and for each packet that has arrived the
sequence number, which is modulo `2 ^ 16`, and the time in microseconds. -/
structure Reported (message : Message) (report : Report) : Prop where
  lost : report.lost = message.packets.countP fun packet => packet.symbol = 0
  recv : report.recv = message.packets.countP fun packet => packet.symbol ≠ 0
  arrived : report.arrivals.length = message.received.length
  arrival : ∀ k index delta, message.received[k]? = some (index, delta) →
    ∃ seq time, report.arrivals[k]? = some (seq, time) ∧
      seq.toNat = (message.base.toNat + index) % 2 ^ 16 ∧
      time.toInt =
        message.reference.toNat * 64000 + 250 * ((message.received.take (k + 1)).map Prod.snd).sum

/-- The message is decoded faithfully. -/
def Decoded (message : Message) (outcome : Option (Option Report)) : Prop :=
  ∃ report, outcome = some (some report) ∧ message.Reported report

end Message

end Zstreamer.Twcc

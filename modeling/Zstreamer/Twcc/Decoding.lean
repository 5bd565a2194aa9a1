/-
# Decoding feedback

What the parser makes of the messages of `Message`, and what it reads in any bytes at all.
-/

import Mathlib.Data.Fin.VecNotation
import Zstreamer.Twcc.Feedback

namespace Zstreamer.Twcc

open Foundation List Option

/-! ## Reading -/

theorem getElem?_of_drop {msg : List Byte} {offset : ℕ} {bytes : List Byte}
    (hat : msg.drop offset = bytes) (i : ℕ) : msg[offset + i]? = bytes[i]? := by
  rw [← hat, getElem?_drop]

theorem readWord_of_drop {msg rest : List Byte} {offset : ℕ} {high low : Byte}
    (hat : msg.drop offset = high :: low :: rest) :
    readWord msg offset = some (be16 high low) := by
  have hhigh : msg[offset]? = some high := getElem?_of_drop hat 0
  have hlow : msg[offset + 1]? = some low := getElem?_of_drop hat 1
  rw [readWord, hhigh, hlow]
  rfl

/-- Two bytes below the size are read. -/
theorem readWord_isSome {msg : List Byte} {offset : ℕ} (hsize : offset + 2 ≤ msg.length) :
    ∃ word, readWord msg offset = some word := by
  have hhigh : msg[offset]? = some _ := getElem?_eq_getElem (by omega)
  have hlow : msg[offset + 1]? = some _ := getElem?_eq_getElem (by omega)
  exact ⟨_, by rw [readWord, hhigh, hlow]; rfl⟩

/-- What stands at an offset is inside the message. -/
theorem length_of_drop {msg bytes rest : List Byte} {offset : ℕ}
    (hat : msg.drop offset = bytes ++ rest) (hoffset : offset ≤ msg.length) :
    offset + bytes.length ≤ msg.length := by
  have hlength : msg.length - offset = bytes.length + rest.length := by
    rw [← length_drop, hat, length_append]
  omega

/-- Behind it stands the rest. -/
theorem drop_behind {msg bytes rest : List Byte} {offset : ℕ}
    (hat : msg.drop offset = bytes ++ rest) : msg.drop (offset + bytes.length) = rest := by
  rw [← drop_drop, hat, drop_left]

/-! ## The statuses -/

/-- The statuses of a chunk are kept as far as packets and array go. -/
theorem addStatuses_eq {count : ℕ} (symbols : List ℕ) :
    ∀ {statuses : List ℕ}, statuses.length ≤ min count maxStatuses →
      addStatuses count symbols statuses = (statuses ++ symbols).take (min count maxStatuses) := by
  induction symbols with
  | nil =>
      intro statuses hfew
      rw [addStatuses, append_nil, take_of_length_le hfew]
  | cons symbol symbols ih =>
      intro statuses hfew
      by_cases hroom : statuses.length < count ∧ statuses.length < maxStatuses
      · rw [addStatuses, if_pos hroom, ih (by rw [length_append]; simp; omega),
          append_assoc, singleton_append]
      · have hfull : statuses.length = min count maxStatuses := by omega
        rw [addStatuses, if_neg hroom, ← hfull, take_left]

theorem length_addStatuses {count : ℕ} (symbols : List ℕ) :
    ∀ {statuses : List ℕ}, statuses.length ≤ maxStatuses →
      (addStatuses count symbols statuses).length ≤ maxStatuses := by
  induction symbols with
  | nil => exact fun hfew => hfew
  | cons symbol symbols ih =>
      intro statuses hfew
      rw [addStatuses]
      split
      case isTrue hroom => exact ih (by rw [length_append]; simp; omega)
      case isFalse => exact hfew

/-! ## The chunks -/

/-- The array is never overrun. -/
theorem chunkLoop_statuses {msg : List Byte} {count offset offset' : ℕ} {statuses kept : List ℕ}
    (hfew : statuses.length ≤ maxStatuses)
    (hrun : chunkLoop msg count offset statuses = some (offset', kept)) :
    kept.length ≤ maxStatuses := by
  fun_induction chunkLoop msg count offset statuses with
  | case1 => cases hrun
  | case2 offset statuses hlimit hmore ih =>
      obtain ⟨chunk, hchunk, hrest⟩ := bind_eq_some_iff.mp hrun
      exact ih chunk (length_addStatuses _ hfew) hrest
  | case3 =>
      cases hrun
      exact hfew

/-- Below the last two numbers of `int` the loop reads inside the message, and stops there. -/
theorem chunkLoop_isSome {msg : List Byte} (count : ℕ) (hsize : msg.length + 2 < intLimit)
    {offset : ℕ} (statuses : List ℕ) (hoffset : offset ≤ msg.length) :
    ∃ offset' kept, chunkLoop msg count offset statuses = some (offset', kept) ∧
      offset' ≤ msg.length := by
  fun_induction chunkLoop msg count offset statuses with
  | case1 => omega
  | case2 offset statuses hlimit hmore ih =>
      obtain ⟨chunk, hchunk⟩ := readWord_isSome hmore.1
      obtain ⟨offset', kept, hrun, hinside⟩ := ih chunk hmore.1
      exact ⟨offset', kept, by rw [hchunk, bind_some, hrun], hinside⟩
  | case3 offset statuses => exact ⟨offset, statuses, rfl, hoffset⟩

/-- The chunks that stand in the message and cover the packets are all read, unless the offset
overflows behind them. -/
theorem chunkLoop_chunks {msg rest : List Byte} {count : ℕ} (hcount : count ≤ maxStatuses)
    (chunks : List Chunk) :
    ∀ {offset : ℕ} {statuses : List ℕ}, offset ≤ msg.length → statuses.length ≤ count →
      msg.drop offset = chunks.flatMap Chunk.bytes ++ rest →
      (chunks ≠ [] → statuses.length + (chunks.dropLast.flatMap Chunk.symbols).length < count) →
      count ≤ statuses.length + (chunks.flatMap Chunk.symbols).length →
      chunkLoop msg count offset statuses =
        if offset + 2 * chunks.length + 2 < intLimit then
          some (offset + 2 * chunks.length,
            (statuses ++ chunks.flatMap Chunk.symbols).take count)
        else none := by
  induction chunks with
  | nil =>
      intro offset statuses hoffset hfew hat htight hcover
      have hall : statuses.length = count := by simpa using Nat.le_antisymm hfew hcover
      rw [chunkLoop]
      by_cases hlimit : offset + 2 ≥ intLimit
      · rw [if_pos hlimit, if_neg (by simpa using hlimit)]
      · rw [if_neg hlimit, if_neg (by omega), if_pos (by simpa using hlimit)]
        simp [← hall]
  | cons chunk chunks ih =>
      intro offset statuses hoffset hfew hat htight hcover
      have hless : statuses.length < count :=
        Nat.lt_of_le_of_lt (Nat.le_add_right _ _) (htight (cons_ne_nil _ _))
      have hat' : msg.drop offset = chunk.bytes ++ (chunks.flatMap Chunk.bytes ++ rest) := by
        rw [hat, flatMap_cons, append_assoc]
      have hinside : offset + 2 ≤ msg.length := length_of_drop hat' hoffset
      have hword : readWord msg offset = some chunk.word :=
        (readWord_of_drop hat').trans (congrArg some (be16_bytes _))
      have hkept : addStatuses count (chunkSymbols chunk.word.toNat) statuses =
          (statuses ++ chunk.symbols).take count := by
        rw [Chunk.chunkSymbols_word, addStatuses_eq _ (by omega), Nat.min_eq_left hcount]
      rw [chunkLoop]
      by_cases hlimit : offset + 2 ≥ intLimit
      · rw [if_pos hlimit, if_neg (by rw [length_cons]; omega)]
      · rw [if_neg hlimit, if_pos ⟨hinside, hless, by omega⟩, hword, bind_some, hkept]
        have hrest : msg.drop (offset + 2) = chunks.flatMap Chunk.bytes ++ rest := drop_behind hat'
        have hbehind : offset + 2 + 2 * chunks.length = offset + 2 * (chunk :: chunks).length := by
          rw [length_cons]
          omega
        rw [flatMap_cons, length_append] at hcover
        rw [flatMap_cons, ← append_assoc, ← hbehind]
        cases chunks with
        | nil =>
            rw [flatMap_nil, length_nil, Nat.add_zero] at hcover
            rw [ih hinside (length_take_le _ _) hrest (fun hne => absurd rfl hne)
              (by rw [length_take, length_append]; simp; omega)]
            rw [flatMap_nil, append_nil, append_nil, take_take, Nat.min_self]
        | cons next chunks =>
            have hall : statuses.length + (chunk.symbols ++
                ((next :: chunks).dropLast.flatMap Chunk.symbols)).length < count := by
              simpa [dropLast] using htight (cons_ne_nil _ _)
            rw [length_append] at hall
            rw [take_of_length_le (by rw [length_append]; omega)]
            refine ih hinside (by rw [length_append]; omega) hrest ?_ ?_
            · intro hne
              rw [length_append]
              omega
            · rw [length_append]
              omega

/-! ## The deltas -/

/-- Inside the message a delta can be read. -/
theorem readDelta_isSome {msg : List Byte} (status : ℕ) {offset : ℕ}
    (hsize : offset + deltaSize status ≤ msg.length) :
    ∃ delta, readDelta msg status offset = some delta := by
  rw [deltaSize] at hsize
  rw [readDelta]
  split at hsize
  case isTrue hone =>
    rw [if_pos hone]
    have hbyte : msg[offset]? = some _ := getElem?_eq_getElem hsize
    exact ⟨_, by rw [hbyte]; rfl⟩
  case isFalse hone =>
    rw [if_neg hone]
    obtain ⟨word, hword⟩ := readWord_isSome hsize
    exact ⟨_, by rw [hword]; rfl⟩

theorem deltaSize_le (status : ℕ) : deltaSize status ≤ 2 := by
  rw [deltaSize]
  split <;> decide

/-- Below the last two numbers of `int` the deltas are read inside the message. -/
theorem deltaLoop_isSome {msg : List Byte} (base : BitVec 16) (hsize : msg.length + 2 < intLimit)
    (statuses : List ℕ) :
    ∀ (i : ℕ) {offset : ℕ} (time : BitVec 64) (report : Report), offset ≤ msg.length →
      ∃ final, deltaLoop msg base statuses i offset time report = some final := by
  induction statuses with
  | nil => exact fun i offset time report _ => ⟨report, rfl⟩
  | cons status statuses ih =>
      intro i offset time report hoffset
      have hsmall : deltaSize status ≤ 2 := deltaSize_le status
      rw [deltaLoop]
      by_cases hlost : status = 0
      · rw [if_pos hlost]
        exact ih _ _ _ hoffset
      rw [if_neg hlost, if_neg (by omega)]
      by_cases hcut : offset + deltaSize status > msg.length
      · exact ⟨_, if_pos hcut⟩
      obtain ⟨delta, hdelta⟩ := readDelta_isSome status (Nat.not_lt.mp hcut)
      rw [if_neg hcut, hdelta, bind_some]
      exact ih _ _ _ (Nat.not_lt.mp hcut)

/-- Every status is counted once at most. -/
theorem deltaLoop_counts {msg : List Byte} {base : BitVec 16} (statuses : List ℕ) :
    ∀ {i offset : ℕ} {time : BitVec 64} {report final : Report},
      deltaLoop msg base statuses i offset time report = some final →
      final.lost + final.recv ≤ report.lost + report.recv + statuses.length := by
  induction statuses with
  | nil =>
      intro i offset time report final hrun
      cases hrun
      exact Nat.le_refl _
  | cons status statuses ih =>
      intro i offset time report final hrun
      rw [length_cons]
      rw [deltaLoop] at hrun
      split at hrun
      case isTrue =>
        have hrest := ih hrun
        dsimp only at hrest
        omega
      split at hrun
      case isTrue => cases hrun
      split at hrun
      case isTrue =>
        cases hrun
        dsimp only
        omega
      obtain ⟨delta, hdelta, hnext⟩ := bind_eq_some_iff.mp hrun
      have hrest := ih hnext
      dsimp only at hrest
      omega

/-! ## The arrivals -/

/-- The packets with their sequence numbers and times, from a time on. -/
def stamps (base : BitVec 16) : List (ℕ × ℤ) → ℤ → List (BitVec 16 × BitVec 64)
  | [], _ => []
  | (index, delta) :: received, time =>
      (base + BitVec.ofNat 16 index, BitVec.ofInt 64 (time + 250 * delta)) ::
        stamps base received (time + 250 * delta)

theorem length_stamps (base : BitVec 16) (received : List (ℕ × ℤ)) :
    ∀ time, (stamps base received time).length = received.length := by
  induction received with
  | nil => exact fun time => rfl
  | cons entry received ih => exact fun time => congrArg (· + 1) (ih _)

/-- The time of a packet is the sum of the deltas up to its own. -/
theorem stamps_getElem? (base : BitVec 16) (received : List (ℕ × ℤ)) :
    ∀ (time : ℤ) {k index : ℕ} {delta : ℤ}, received[k]? = some (index, delta) →
      (stamps base received time)[k]? = some (base + BitVec.ofNat 16 index,
        BitVec.ofInt 64 (time + 250 * ((received.take (k + 1)).map Prod.snd).sum)) := by
  induction received with
  | nil =>
      intro time k index delta hget
      cases hget
  | cons entry received ih =>
      intro time k index delta hget
      cases k with
      | zero =>
          cases hget
          simp [stamps]
      | succ k =>
          rw [getElem?_cons_succ] at hget
          rw [stamps, getElem?_cons_succ, ih _ hget, take_succ_cons, map_cons,
            sum_cons]
          congr 3
          ring

/-- A delta that stands in the message is read; its bytes are those of its size. -/
theorem readDelta_packet {msg rest : List Byte} {offset : ℕ} {packet : Packet} {delta : ℤ}
    (hdelta : packet.delta? = some delta)
    (hat : msg.drop offset = packet.deltaBytes ++ rest) :
    packet.symbol ≠ 0 ∧ packet.deltaBytes.length = deltaSize packet.symbol ∧
      ∃ read, readDelta msg packet.symbol offset = some read ∧
        read.signExtend 64 = BitVec.ofInt 64 delta := by
  cases packet with
  | lost => cases hdelta
  | small byte =>
      cases hdelta
      have hbyte : msg[offset]? = some byte := getElem?_of_drop hat 0
      have hone : (Packet.small byte).symbol = 1 := rfl
      refine ⟨Nat.one_ne_zero, rfl, byte.setWidth 32, ?_, ?_⟩
      · rw [readDelta, if_pos hone, hbyte]
        rfl
      · have hvalue : (byte.setWidth 32).toNat = byte.toNat :=
          BitVec.toNat_setWidth_of_le (by decide)
        have hsmall : byte.toNat < 256 := byte.isLt
        rw [BitVec.signExtend, BitVec.toInt_eq_toNat_of_lt (by rw [hvalue]; omega), hvalue]
  | large word =>
      cases hdelta
      have htwo : ¬ (Packet.large word).symbol = 1 := fun hone => by cases hone
      refine ⟨Nat.succ_ne_zero 1, rfl, word.signExtend 32, ?_, ?_⟩
      · rw [readDelta, if_neg htwo, readWord_of_drop hat, be16_bytes]
        rfl
      · rw [BitVec.signExtend, BitVec.toInt_signExtend_of_le (by decide)]

theorem ofInt_add_tick (time delta : ℤ) :
    BitVec.ofInt 64 time + BitVec.ofInt 64 delta * 250 = BitVec.ofInt 64 (time + 250 * delta) := by
  rw [BitVec.ofInt_add, BitVec.ofInt_mul, BitVec.mul_comm]
  rfl

/-- The deltas that stand in the message are all read, and each packet that has arrived has its
stamp. -/
theorem deltaLoop_packets {msg rest : List Byte} {base : BitVec 16} (hint : msg.length < intLimit)
    (packets : List Packet) :
    ∀ {i offset : ℕ} (time : ℤ) (report : Report), offset ≤ msg.length →
      msg.drop offset = packets.flatMap Packet.deltaBytes ++ rest →
      deltaLoop msg base (packets.map Packet.symbol) i offset (BitVec.ofInt 64 time) report = some
        { lost := report.lost + packets.countP fun packet => packet.symbol = 0
          recv := report.recv + packets.countP fun packet => packet.symbol ≠ 0
          arrivals := report.arrivals ++ stamps base (receivedFrom i packets) time } := by
  induction packets with
  | nil =>
      intro i offset time report hoffset hat
      simp [deltaLoop, receivedFrom, stamps]
  | cons packet packets ih =>
      intro i offset time report hoffset hat
      rw [flatMap_cons, append_assoc] at hat
      have hinside : offset + packet.deltaBytes.length ≤ msg.length := length_of_drop hat hoffset
      have hbehind := drop_behind hat
      rw [map_cons, deltaLoop, receivedFrom]
      cases hdelta : packet.delta? with
      | none =>
          have hlost : packet.symbol = 0 ∧ packet.deltaBytes = [] := by
            cases packet with
            | lost => exact ⟨rfl, rfl⟩
            | small byte => cases hdelta
            | large word => cases hdelta
          obtain ⟨hsymbol, hnone⟩ := hlost
          rw [hnone, nil_append] at hat
          rw [if_pos hsymbol, ih _ _ hoffset hat]
          simp [hsymbol, Nat.add_comm 1, Nat.add_assoc]
      | some delta =>
          obtain ⟨hsymbol, hsize, read, hread, hvalue⟩ := readDelta_packet hdelta hat
          rw [hsize] at hinside hbehind
          rw [if_neg hsymbol, if_neg (by omega), if_neg (by omega), hread, bind_some]
          dsimp only
          rw [hvalue, ofInt_add_tick, ih _ _ hinside hbehind]
          simp [hsymbol, stamps, Nat.add_comm 1, Nat.add_assoc]

/-! ## The times as numbers -/

theorem receivedFrom_ticks (packets : List Packet) :
    ∀ (i : ℕ), ∀ entry ∈ receivedFrom i packets, -32768 ≤ entry.2 ∧ entry.2 ≤ 32767 := by
  induction packets with
  | nil => exact fun i entry hentry => absurd hentry not_mem_nil
  | cons packet packets ih =>
      intro i entry hentry
      rw [receivedFrom] at hentry
      cases packet with
      | lost => exact ih _ entry hentry
      | small byte =>
          rcases mem_cons.mp hentry with rfl | hrest
          · have hsmall : byte.toNat < 256 := byte.isLt
            dsimp only
            omega
          · exact ih _ entry hrest
      | large word =>
          rcases mem_cons.mp hentry with rfl | hrest
          · have hlow : -(2 : ℤ) ^ 15 ≤ word.toInt := BitVec.le_toInt word
            have hhigh : word.toInt < 2 ^ 15 := BitVec.toInt_lt
            dsimp only
            omega
          · exact ih _ entry hrest

theorem length_receivedFrom (packets : List Packet) :
    ∀ i, (receivedFrom i packets).length ≤ packets.length := by
  induction packets with
  | nil => exact fun i => Nat.le_refl 0
  | cons packet packets ih =>
      intro i
      rw [receivedFrom]
      have hrest := ih (i + 1)
      cases packet.delta? with
      | none =>
          dsimp only
          rw [length_cons]
          omega
      | some delta =>
          dsimp only
          rw [length_cons, length_cons]
          omega

/-- So many deltas of 16 bits at most. -/
theorem sum_ticks (entries : List (ℕ × ℤ)) :
    (∀ entry ∈ entries, -32768 ≤ entry.2 ∧ entry.2 ≤ 32767) →
    -32768 * (entries.length : ℤ) ≤ (entries.map Prod.snd).sum ∧
      (entries.map Prod.snd).sum ≤ 32768 * (entries.length : ℤ) := by
  induction entries with
  | nil => simp
  | cons entry entries ih =>
      intro hentries
      have hfirst := hentries entry mem_cons_self
      have hrest := ih fun other hother => hentries other (mem_cons_of_mem _ hother)
      rw [map_cons, sum_cons, length_cons, Nat.cast_add, Nat.cast_one]
      omega

namespace Message

variable (message : Message)

theorem packets_pos : 0 < message.packets.length :=
  Nat.lt_of_le_of_lt (Nat.zero_le _) message.tight

theorem toNat_count : message.count.toNat = message.packets.length := by
  rw [count, BitVec.toNat_ofNat, Nat.mod_eq_of_lt message.fits]

theorem length_front : message.front.length = 20 := by
  simp [front, message.header_length]

/-- No time leaves the 64 bits. -/
theorem toInt_time (k : ℕ) :
    (BitVec.ofInt 64 (message.reference.toNat * 64000 +
      250 * ((message.received.take k).map Prod.snd).sum)).toInt =
    message.reference.toNat * 64000 + 250 * ((message.received.take k).map Prod.snd).sum := by
  have hreference : message.reference.toNat < 2 ^ 24 := message.reference.isLt
  have hfew : (message.received.take k).length < 2 ^ 16 := by
    refine Nat.lt_of_le_of_lt (length_take_le' k message.received) ?_
    exact Nat.lt_of_le_of_lt (length_receivedFrom message.packets 0) message.fits
  have hsum := sum_ticks (message.received.take k) fun entry hentry =>
    receivedFrom_ticks message.packets 0 entry (mem_of_mem_take hentry)
  rw [BitVec.toInt_ofInt]
  refine Int.bmod_eq_of_le ?_ ?_
  · omega
  · omega

end Message

/-- The reference time has 24 bits, and 64 milliseconds for each unit. -/
theorem referenceTime_bytes (reference : BitVec 24) :
    referenceTime ((reference >>> 16).setWidth 8) ((reference >>> 8).setWidth 8)
      (reference.setWidth 8) = BitVec.ofInt 64 (reference.toNat * 64000) := by
  have hbits : ((reference >>> 16).setWidth 8).setWidth 32 <<< 16 |||
      ((reference >>> 8).setWidth 8).setWidth 32 <<< 8 ||| (reference.setWidth 8).setWidth 32 =
      reference.setWidth 32 := by
    ext i hi
    interval_cases i <;> simp
  have hreference : reference.toNat < 2 ^ 24 := reference.isLt
  rw [referenceTime, hbits, BitVec.ofInt_mul, BitVec.ofInt_natCast]
  refine BitVec.eq_of_toNat_eq ?_
  simp

namespace Message

variable (message : Message)

/-- The two bytes of a number that stands in the message are read. -/
theorem readWord_bytes {msg rest : List Byte} {offset : ℕ} {word : BitVec 16}
    (hat : msg.drop offset = [(word >>> 8).setWidth 8, word.setWidth 8] ++ rest) :
    readWord msg offset = some word :=
  (readWord_of_drop hat).trans (congrArg some (be16_bytes word))

/-- The parser finds the numbers of the header and goes on to the chunks. -/
theorem parseCcfb_bytes (trailing : List Byte) :
    parseCcfb (message.bytes ++ trailing) =
      (chunkLoop (message.bytes ++ trailing) message.packets.length 20 []).bind
        fun (offset, statuses) =>
          (deltaLoop (message.bytes ++ trailing) message.base statuses 0 offset
            (BitVec.ofInt 64 (message.reference.toNat * 64000)) ⟨0, 0, []⟩).map some := by
  have hpos := message.packets_pos
  have hcount := message.toNat_count
  have hsize : 20 ≤ (message.bytes ++ trailing).length := by
    rw [length_append, bytes, length_append, length_append, message.length_front]
    omega
  have hat : (message.bytes ++ trailing).drop 12 =
      [(message.base >>> 8).setWidth 8, message.base.setWidth 8] ++
        ([(message.count >>> 8).setWidth 8, message.count.setWidth 8] ++
          ([(message.reference >>> 16).setWidth 8, (message.reference >>> 8).setWidth 8,
            message.reference.setWidth 8, message.feedbackCount] ++
            (message.chunks.flatMap Chunk.bytes ++
              message.packets.flatMap Packet.deltaBytes ++ trailing))) := by
    have hlength : (message.first :: 205 :: message.header).length = 12 := by
      simp [message.header_length]
    rw [bytes, front, append_assoc, append_assoc, append_assoc, ← hlength,
      drop_left, append_assoc]
    rfl
  have hat14 := drop_behind hat
  have hat16 := drop_behind hat14
  have hbase : readWord (message.bytes ++ trailing) 12 = some message.base := readWord_bytes hat
  have hword : readWord (message.bytes ++ trailing) 14 = some message.count :=
    readWord_bytes hat14
  have hhigh : (message.bytes ++ trailing)[16]? = some _ := getElem?_of_drop hat16 0
  have hmiddle : (message.bytes ++ trailing)[17]? = some _ := getElem?_of_drop hat16 1
  have hlow : (message.bytes ++ trailing)[18]? = some _ := getElem?_of_drop hat16 2
  have hmany : ¬ message.count = 0 := by
    intro hzero
    rw [hzero] at hcount
    exact absurd hcount.symm (by simpa using hpos.ne')
  rw [parseCcfb, if_neg (by omega), hbase, bind_some, hword, bind_some, hhigh,
    bind_some, hmiddle, bind_some, hlow, bind_some,
    if_neg hmany, referenceTime_bytes, hcount]

/-- A feedback message is handed to the parser. -/
theorem processIncoming_bytes (trailing : List Byte) :
    processIncoming (message.bytes ++ trailing) = parseCcfb (message.bytes ++ trailing) := by
  have hsize : ¬ (message.bytes ++ trailing).length < 4 := by
    rw [length_append, bytes, length_append, length_append, message.length_front]
    omega
  have hpt : (message.bytes ++ trailing)[1]? = some 205 := rfl
  have hfirst : (message.bytes ++ trailing)[0]? = some message.first := rfl
  rw [processIncoming, if_neg hsize, hpt, bind_some, if_pos (by decide), hfirst,
    bind_some, if_pos message.feedback]

/-- The counts of a faithful report are those of all the packets. -/
theorem Reported.total {message : Message} {report : Report} (h : message.Reported report) :
    report.lost + report.recv = message.packets.length := by
  rw [h.lost, h.recv]
  simpa using (length_eq_countP_add_countP (fun packet : Packet => packet.symbol = 0)).symm

/-- Behind the chunks the offset is still an `int` that can be added to. -/
def Reachable : Prop := 20 + 2 * message.chunks.length + 2 < intLimit

instance : Decidable message.Reachable :=
  inferInstanceAs (Decidable (20 + 2 * message.chunks.length + 2 < intLimit))

theorem packets_le_symbols :
    message.packets.length ≤ (message.chunks.flatMap Chunk.symbols).length := by
  have hlength := congrArg List.length message.covers
  rw [length_take, length_map] at hlength
  omega

/-- The statuses the parser keeps when there is room for all of them. -/
theorem chunkLoop_bytes (hfit : message.packets.length ≤ maxStatuses) (trailing : List Byte) :
    chunkLoop (message.bytes ++ trailing) message.packets.length 20 [] =
      if message.Reachable then
        some (20 + 2 * message.chunks.length, message.packets.map Packet.symbol)
      else none := by
  have hat : (message.bytes ++ trailing).drop 20 = message.chunks.flatMap Chunk.bytes ++
      (message.packets.flatMap Packet.deltaBytes ++ trailing) := by
    rw [bytes, append_assoc, append_assoc, ← message.length_front, drop_left]
  have hsize : 20 ≤ (message.bytes ++ trailing).length := by
    rw [length_append, bytes, length_append, length_append, message.length_front]
    omega
  have htight : ([] : List ℕ).length + (message.chunks.dropLast.flatMap Chunk.symbols).length <
      message.packets.length := by
    rw [length_nil, Nat.zero_add]
    exact message.tight
  have hrun := chunkLoop_chunks hfit message.chunks hsize (Nat.zero_le _) hat (fun _ => htight)
    (by simpa using message.packets_le_symbols)
  rw [nil_append, message.covers] at hrun
  exact hrun

/-- A report of the statuses and deltas of the message is faithful. -/
theorem reported_stamps : message.Reported
    { lost := message.packets.countP fun packet => packet.symbol = 0
      recv := message.packets.countP fun packet => packet.symbol ≠ 0
      arrivals := stamps message.base message.received (message.reference.toNat * 64000) } where
  lost := rfl
  recv := rfl
  arrived := length_stamps _ _ _
  arrival := by
    intro k index delta hget
    refine ⟨_, _, stamps_getElem? _ _ _ hget, ?_, message.toInt_time (k + 1)⟩
    rw [BitVec.toNat_add, BitVec.toNat_ofNat, Nat.add_mod_mod]

theorem length_chunkBytes (chunks : List Chunk) :
    (chunks.flatMap Chunk.bytes).length = 2 * chunks.length := by
  induction chunks with
  | nil => rfl
  | cons chunk chunks ih =>
      rw [flatMap_cons, length_append, ih, length_cons, Chunk.bytes]
      simp
      omega

/-- The parser keeps no more statuses than the array has room for, and counts none twice. -/
theorem parseCcfb_total {msg : List Byte} {report : Report}
    (hrun : parseCcfb msg = some (some report)) : report.lost + report.recv ≤ maxStatuses := by
  rw [parseCcfb] at hrun
  split at hrun
  case isTrue => cases hrun
  obtain ⟨base, _, hrun⟩ := bind_eq_some_iff.mp hrun
  obtain ⟨count, _, hrun⟩ := bind_eq_some_iff.mp hrun
  obtain ⟨high, _, hrun⟩ := bind_eq_some_iff.mp hrun
  obtain ⟨middle, _, hrun⟩ := bind_eq_some_iff.mp hrun
  obtain ⟨low, _, hrun⟩ := bind_eq_some_iff.mp hrun
  split at hrun
  case isTrue => cases hrun
  obtain ⟨⟨offset, statuses⟩, hchunks, hdeltas⟩ := bind_eq_some_iff.mp hrun
  obtain ⟨final, hfinal, hsame⟩ := map_eq_some_iff.mp hdeltas
  cases hsame
  have hkept : statuses.length ≤ maxStatuses := chunkLoop_statuses (Nat.zero_le _) hchunks
  have hcounts := deltaLoop_counts statuses hfinal
  dsimp only at hcounts
  omega

/-- **A message is decoded faithfully when its statuses fit the array.** -/
theorem decoded_iff {trailing : List Byte} (hint : (message.bytes ++ trailing).length < intLimit) :
    message.Decoded (parseCcfb (message.bytes ++ trailing)) ↔
      message.packets.length ≤ maxStatuses ∧ message.Reachable := by
  constructor
  · rintro ⟨report, hrun, hreported⟩
    have hfit : message.packets.length ≤ maxStatuses :=
      hreported.total ▸ parseCcfb_total hrun
    refine ⟨hfit, ?_⟩
    by_contra hbeyond
    rw [message.parseCcfb_bytes, message.chunkLoop_bytes hfit, if_neg hbeyond] at hrun
    cases hrun
  · rintro ⟨hfit, hreach⟩
    refine ⟨_, ?_, message.reported_stamps⟩
    have hlength : (message.front ++ message.chunks.flatMap Chunk.bytes).length =
        20 + 2 * message.chunks.length := by
      rw [length_append, message.length_front, length_chunkBytes]
    have hat : (message.bytes ++ trailing).drop (20 + 2 * message.chunks.length) =
        message.packets.flatMap Packet.deltaBytes ++ trailing := by
      rw [bytes, append_assoc, ← hlength, drop_left]
    have hinside : 20 + 2 * message.chunks.length ≤ (message.bytes ++ trailing).length := by
      rw [← hlength, bytes, append_assoc]
      simp only [length_append]
      omega
    rw [message.parseCcfb_bytes, message.chunkLoop_bytes hfit, if_pos hreach, bind_some,
      map_eq_some_iff]
    refine ⟨_, deltaLoop_packets hint message.packets _ _ hinside hat, ?_⟩
    simp [received]

end Message

/-! ## Any bytes -/

/-- Below the last two numbers of `int` nothing outside the message is read. -/
theorem parseCcfb_isSome {msg : List Byte} (hsize : msg.length + 2 < intLimit) :
    (parseCcfb msg).isSome := by
  rw [parseCcfb]
  split
  case isTrue => rfl
  case isFalse hlong =>
    obtain ⟨base, hbase⟩ : ∃ base, readWord msg 12 = some base := readWord_isSome (by omega)
    obtain ⟨count, hcount⟩ : ∃ count, readWord msg 14 = some count := readWord_isSome (by omega)
    have hhigh : msg[16]? = some _ := getElem?_eq_getElem (by omega)
    have hmiddle : msg[17]? = some _ := getElem?_eq_getElem (by omega)
    have hlow : msg[18]? = some _ := getElem?_eq_getElem (by omega)
    rw [hbase, bind_some, hcount, bind_some, hhigh, bind_some, hmiddle,
      bind_some, hlow, bind_some]
    split
    case isTrue => rfl
    case isFalse =>
      obtain ⟨offset, statuses, hchunks, hinside⟩ :=
        chunkLoop_isSome count.toNat hsize [] (Nat.le_of_not_lt hlong)
      obtain ⟨final, hfinal⟩ := deltaLoop_isSome base hsize statuses 0
        (referenceTime _ _ _) ⟨0, 0, []⟩ hinside
      rw [hchunks, bind_some, isSome_map]
      exact isSome_of_eq_some hfinal

/-- Chunks of no packets, one behind the other up to the last number of `int`. -/
theorem chunkLoop_zeros {msg : List Byte} {count : ℕ} (hcount : 0 < count)
    (hzeros : ∀ i, 20 ≤ i → i < msg.length → msg[i]? = some 0) (hsize : intLimit ≤ msg.length + 2)
    (left : ℕ) :
    ∀ {offset : ℕ}, 20 ≤ offset → offset + 2 * left + 2 = intLimit →
      chunkLoop msg count offset [] = none := by
  induction left with
  | zero =>
      intro offset hlow hleft
      rw [chunkLoop, if_pos (by omega)]
  | succ left ih =>
      intro offset hlow hleft
      have hhigh : msg[offset]? = some 0 := hzeros offset hlow (by omega)
      have hbelow : msg[offset + 1]? = some 0 := hzeros (offset + 1) (by omega) (by omega)
      have hword : readWord msg offset = some 0 := by
        rw [readWord, hhigh, hbelow]
        rfl
      have hnone : chunkSymbols (BitVec.toNat (0 : BitVec 16)) = [] := by decide
      rw [chunkLoop, if_neg (by omega), if_pos ⟨by omega, hcount, by decide⟩, hword,
        bind_some, hnone, addStatuses]
      exact ih (by omega) (by omega)

/-- A message that tells of one packet and goes on with chunks of none. -/
def endless (size : ℕ) : List Byte :=
  replicate 15 0 ++ 1 :: replicate (size - 16) 0

theorem parseCcfb_endless {size : ℕ} (hsize : intLimit ≤ size + 2) :
    (endless size).length = size ∧ parseCcfb (endless size) = none := by
  have hlimit : intLimit = 2 ^ 31 := rfl
  have hlength : (endless size).length = size := by
    rw [endless]
    simp
    omega
  have hzeros : ∀ i, 16 ≤ i → i < size → (endless size)[i]? = some 0 := by
    intro i hlow hhigh
    obtain ⟨j, rfl⟩ := Nat.exists_eq_add_of_le hlow
    rw [endless, getElem?_append_right (by simp; omega), length_replicate,
      show 16 + j - 15 = j + 1 by omega, getElem?_cons_succ, getElem?_replicate,
      if_pos (by omega)]
  have hbase : readWord (endless size) 12 = some 0 := rfl
  have hcount : readWord (endless size) 14 = some 1 := rfl
  have hchunks : chunkLoop (endless size) 1 20 [] = none := by
    refine chunkLoop_zeros Nat.one_pos ?_ (by rw [hlength]; exact hsize) (2 ^ 30 - 11)
      (Nat.le_refl 20) (by omega)
    intro i hlow hhigh
    exact hzeros i (by omega) (by rw [← hlength]; exact hhigh)
  refine ⟨hlength, ?_⟩
  rw [parseCcfb, if_neg (by omega), hbase, bind_some, hcount, bind_some,
    hzeros 16 (by omega) (by omega), bind_some, hzeros 17 (by omega) (by omega),
    bind_some, hzeros 18 (by omega) (by omega), bind_some, if_neg (by decide)]
  have hone : BitVec.toNat (1 : BitVec 16) = 1 := rfl
  rw [hone, hchunks, bind_none]

/-- **Nothing outside the message is read, whatever the bytes, when the message is short of the
largest `int` by two bytes.** -/
theorem parseCcfb_isSome_iff (size : ℕ) :
    (∀ msg : List Byte, msg.length = size → (parseCcfb msg).isSome) ↔ size + 2 < intLimit := by
  constructor
  · intro hall
    by_contra hlong
    obtain ⟨hlength, hnone⟩ := parseCcfb_endless (Nat.le_of_not_lt hlong)
    have hsome := hall _ hlength
    rw [hnone] at hsome
    cases hsome
  · rintro hsize msg rfl
    exact parseCcfb_isSome hsize

/-! ## The decoding as a whole -/

/-- **A feedback message is decoded faithfully exactly when its statuses fit the array of 1024**
(and its chunks end where an `int` can still be added to), and all the bytes of a size are read
inside the message exactly when the size is short of the largest `int` by two. -/
theorem feedback_decoded_iff (message : Message) (trailing : List Byte) (size : ℕ) :
    ((message.bytes ++ trailing).length < intLimit →
      processIncoming (message.bytes ++ trailing) = parseCcfb (message.bytes ++ trailing) ∧
      (message.Decoded (parseCcfb (message.bytes ++ trailing)) ↔
        message.packets.length ≤ maxStatuses ∧ message.Reachable)) ∧
    ((∀ msg : List Byte, msg.length = size → (parseCcfb msg).isSome) ↔ size + 2 < intLimit) :=
  ⟨fun hint => ⟨message.processIncoming_bytes trailing, message.decoded_iff hint⟩,
    parseCcfb_isSome_iff size⟩

/-- A message of one vector: a lost packet and two that have come, the second of them early. -/
def vectorMessage : Message where
  first := 0x8F
  feedback := rfl
  header := replicate 10 0
  header_length := rfl
  base := 0xFFFF
  reference := 7
  feedbackCount := 0
  packets := [Packet.lost, Packet.small 4, Packet.large 0xFFFD]
  fits := by decide
  chunks := [Chunk.twoBit ![0, 1, 2, 3, 0, 0, 1]]
  covers := by decide
  tight := by decide

theorem feedback_decoded_vectorMessage :
    vectorMessage.Decoded (processIncoming (vectorMessage.bytes ++ [0])) ∧
      (parseCcfb [0x8F, 205, 0]).isSome := by
  obtain ⟨hmessage, hsize⟩ := feedback_decoded_iff vectorMessage [0] 3
  obtain ⟨hpassed, hdecoded⟩ := hmessage (by decide)
  refine ⟨?_, hsize.mpr (by decide) _ rfl⟩
  rw [hpassed]
  exact hdecoded.mpr (by decide)

/-- A message of one chunk: a run of 1025 packets, all of them lost. -/
def longMessage : Message where
  first := 0x8F
  feedback := rfl
  header := replicate 10 0
  header_length := rfl
  base := 0
  reference := 0
  feedbackCount := 0
  packets := replicate 1025 Packet.lost
  fits := by rw [length_replicate]; decide
  chunks := [Chunk.run 0 1025]
  covers := by
    rw [length_replicate, map_replicate]
    exact (take_left' (length_replicate ..)).trans rfl
  tight := by rw [length_replicate]; decide

/-- The last packet of the run is not counted. -/
theorem feedback_longMessage :
    longMessage.bytes = [0x8F, 205, 0, 0, 0, 0, 0, 0, 0, 0, 0, 0, 0, 0, 4, 1, 0, 0, 0, 0, 4, 1] ∧
      ¬ longMessage.Decoded (processIncoming longMessage.bytes) := by
  have hlength : longMessage.packets.length = 1025 := length_replicate
  have hcount : longMessage.count = 1025 := congrArg (BitVec.ofNat 16) hlength
  have hnone : longMessage.packets.flatMap Packet.deltaBytes = [] := by
    refine flatMap_eq_nil_iff.mpr ?_
    intro packet hpacket
    rw [eq_of_mem_replicate hpacket, Packet.deltaBytes]
  have hbytes : longMessage.bytes =
      [0x8F, 205, 0, 0, 0, 0, 0, 0, 0, 0, 0, 0, 0, 0, 4, 1, 0, 0, 0, 0, 4, 1] := by
    rw [Message.bytes, hnone, append_nil, Message.front, hcount]
    decide
  refine ⟨hbytes, ?_⟩
  intro hdecoded
  have hshort : (longMessage.bytes ++ []).length < intLimit := by
    rw [hbytes]
    decide
  rw [← append_nil longMessage.bytes, longMessage.processIncoming_bytes,
    longMessage.decoded_iff hshort, hlength] at hdecoded
  exact absurd hdecoded.1 (by decide)

end Zstreamer.Twcc

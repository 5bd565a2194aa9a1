/-
# Requests in pieces

`read` returns what has arrived, and so cuts the bytes of a client into pieces wherever it
likes.  As long as no piece ends inside a request, `client_thread` takes the messages one
after the other off the front of its buffer.  A piece that does is searched for the end of the
request all the same, and the search goes on into what earlier requests have left behind
`buf_len`: it may find the end of one of those there.
-/

import Zstreamer.Rtsp.Messages

namespace Zstreamer.Rtsp

open Foundation List

/-- What a client sends: a request or an interleaved frame. -/
inductive Message
  | request (q : RequestText)
  | frame (channel : Byte) (payload : List Byte)
  deriving DecidableEq, Repr

namespace Message

/-- The message as it is sent. -/
def bytes : Message → List Byte
  | request q => q.bytes
  | frame channel payload =>
      let size := BitVec.ofNat 16 payload.length
      0x24 :: channel :: (size >>> 8).setWidth 8 :: size.setWidth 8 :: payload

/-- It is well formed and not too long. -/
def Valid : Message → Prop
  | request q => q.Valid
  | frame _ payload => 4 + payload.length ≤ 4096

/-- What is to be dispatched for it. -/
def meaning : Message → Option Request
  | request q => some q.meaning
  | frame _ _ => none

end Message

/-- The bytes of all messages. -/
def wire (messages : List Message) : List Byte := messages.flatMap Message.bytes

/-- After so many bytes of the messages, a request has begun and not yet ended. -/
def InsideRequest : List Message → ℕ → Prop
  | [], _ => False
  | m :: later, n =>
      (0 < n ∧ n < m.bytes.length ∧ m.meaning ≠ none) ∨
        (m.bytes.length ≤ n ∧ InsideRequest later (n - m.bytes.length))

instance : ∀ messages n, Decidable (InsideRequest messages n)
  | [], _ => .isFalse id
  | m :: later, n =>
      have := instDecidableInsideRequest later (n - m.bytes.length)
      inferInstanceAs (Decidable ((0 < n ∧ n < m.bytes.length ∧ m.meaning ≠ none) ∨
        (m.bytes.length ≤ n ∧ InsideRequest later (n - m.bytes.length))))

/-- The request that is dispatched. -/
def Observed.dispatched : Observed → Option Request
  | dispatches req => some req
  | parses _ _ => none
  | holds _ => none

/-- What is seen is right for these messages. -/
structure Right (messages : List Message) (events : List Observed) : Prop where
  /-- Every request is dispatched once, in order, with all that it says. -/
  dispatched : events.filterMap Observed.dispatched = messages.filterMap Message.meaning
  held : ∀ n : ℤ, .holds n ∈ events → 0 ≤ n ∧ n ≤ rtspBufSize
  /-- The parser looks at nothing that is not in the buffer. -/
  within : ∀ (n : ℤ) (far : ℕ), .parses n far ∈ events → far ≤ n

/-- These bytes, and no others, are in the buffer; what follows them in the array is old. -/
def Receiver.Has (r : Receiver) (bytes : List Byte) : Prop :=
  ∃ stale, r = ⟨bytes ++ stale, bytes.length⟩ ∧ bytes.length + stale.length = rtspBufSize

/-! ## Messages -/

theorem RequestText.Valid.four_le {q : RequestText} (_h : q.Valid) : 4 ≤ q.bytes.length := by
  rw [length_bytes, requestLine]
  simp only [length_append, length_cons]
  omega

theorem RequestText.Valid.bytes_eq {q : RequestText} (h : q.Valid) :
    ∃ b rest, b ≠ 0x24 ∧ q.bytes = b :: rest := by
  obtain ⟨b, rest, hmethod⟩ := exists_cons_of_ne_nil h.method.2.2.1
  refine ⟨b, _, ?_, by rw [bytes, requestLine, hmethod]; rfl⟩
  rintro rfl
  exact h.dollar (by rw [hmethod]; rfl)

namespace Message

variable {m : Message}

theorem Valid.four_le (h : m.Valid) : 4 ≤ m.bytes.length := by
  cases m with
  | request q => exact RequestText.Valid.four_le h
  | frame channel payload =>
      show 4 ≤ payload.length + 1 + 1 + 1 + 1
      omega

/-- The size of a frame is read off its front. -/
theorem Valid.frameSize_eq {channel : Byte} {payload : List Byte}
    (h : (frame channel payload).Valid) (more : List Byte) (bufLen : ℤ) :
    Receiver.frameSize ⟨(frame channel payload).bytes ++ more, bufLen⟩ =
      (frame channel payload).bytes.length := by
  have hsize : 4 + payload.length ≤ 4096 := h
  let size := BitVec.ofNat 16 payload.length
  show 4 + (be16 ((size >>> 8).setWidth 8) (size.setWidth 8)).toNat = payload.length + 1 + 1 + 1 + 1
  rw [be16_bytes, BitVec.toNat_ofNat, Nat.mod_eq_of_lt (by omega)]
  omega

end Message

/-! ## What is seen -/

theorem Right.nil : Right [] [] where
  dispatched := rfl
  held := fun _ hmem => absurd hmem not_mem_nil
  within := fun _ _ hmem => absurd hmem not_mem_nil

theorem Right.append {first later : List Message} {events more : List Observed}
    (hfirst : Right first events) (hlater : Right later more) :
    Right (first ++ later) (events ++ more) where
  dispatched := by
    rw [filterMap_append, filterMap_append, hfirst.dispatched, hlater.dispatched]
  held := fun n hmem => (mem_append.mp hmem).elim (hfirst.held n) (hlater.held n)
  within := fun n k hmem => (mem_append.mp hmem).elim (hfirst.within n k) (hlater.within n k)

/-- What is right for the first messages leaves the others. -/
theorem Right.append_iff {first later : List Message} {events more : List Observed}
    (hfirst : Right first events) :
    Right (first ++ later) (events ++ more) ↔ Right later more := by
  refine ⟨fun h => ⟨?_, ?_, ?_⟩, hfirst.append⟩
  · have hall := h.dispatched
    rw [filterMap_append, filterMap_append, hfirst.dispatched] at hall
    exact append_cancel_left hall
  · exact fun n hmem => h.held n (mem_append_right events hmem)
  · exact fun n k hmem => h.within n k (mem_append_right events hmem)

theorem insideRequest_append {first : List Message} (later : List Message) (n : ℕ)
    (hfirst : ∀ m ∈ first, m.Valid) :
    InsideRequest (first ++ later) ((wire first).length + n) ↔ InsideRequest later n := by
  induction first with
  | nil => rw [wire, flatMap_nil, length_nil, Nat.zero_add, nil_append]
  | cons m first ih =>
      have hplace : (wire (m :: first)).length + n - m.bytes.length =
          (wire first).length + n := by
        rw [wire, flatMap_cons, length_append, ← wire]
        omega
      have hle : m.bytes.length ≤ (wire (m :: first)).length + n := by
        rw [wire, flatMap_cons, length_append]
        omega
      rw [cons_append, InsideRequest, hplace,
        ih fun other hother => hfirst other (mem_cons_of_mem m hother)]
      refine ⟨fun h => ?_, fun h => .inr ⟨hle, h⟩⟩
      rcases h with ⟨-, hlt, -⟩ | ⟨-, h⟩
      · omega
      · exact h

/-! ## The buffer -/

namespace Receiver

theorem fresh_has : fresh.Has [] :=
  ⟨replicate rtspBufSize 0, rfl, by rw [length_replicate]; exact Nat.zero_add _⟩

/-- What is read is put behind what is there. -/
theorem Has.read {r : Receiver} {bytes : List Byte} (h : r.Has bytes) {chunk : List Byte}
    (hroom : bytes.length + chunk.length ≤ rtspBufSize) : (r.read chunk).Has (bytes ++ chunk) := by
  obtain ⟨stale, rfl, hsize⟩ := h
  refine ⟨stale.drop chunk.length, ?_, ?_⟩
  · rw [Receiver.read]
    dsimp only
    rw [Int.toNat_natCast, take_left, ← drop_drop, drop_left, append_assoc,
      length_append, Nat.cast_add]
  · rw [length_append, length_drop]
    omega

/-- What is behind the first bytes is moved to the front. -/
theorem memmove_front (front rest stale : List Byte)
    (hsize : front.length + rest.length + stale.length = rtspBufSize) :
    Has ⟨((front ++ (rest ++ stale)).drop front.length).take rest.length ++
      (front ++ (rest ++ stale)).drop rest.length, rest.length⟩ rest := by
  refine ⟨(front ++ (rest ++ stale)).drop rest.length, ?_, ?_⟩
  · rw [drop_left, take_left]
  · rw [length_drop, length_append, length_append]
    omega

theorem moveFront_has (front rest stale : List Byte)
    (hsize : front.length + rest.length + stale.length = rtspBufSize) :
    Has ⟨moveFront (front ++ (rest ++ stale)) ((front.length + rest.length : ℕ) : ℤ) front.length,
      rest.length⟩ rest := by
  have hlength : (((front.length + rest.length : ℕ) : ℤ) - front.length).toNat = rest.length := by
    omega
  rw [moveFront, hlength]
  split
  case isTrue => exact memmove_front front rest stale hsize
  case isFalse hnone =>
      have hempty : rest = [] := eq_nil_of_length_eq_zero (by omega)
      subst hempty
      refine ⟨front ++ stale, rfl, ?_⟩
      rw [length_append, ← hsize]
      exact Nat.zero_add _

theorem Has.skip {r : Receiver} {front rest : List Byte} (h : r.Has (front ++ rest)) :
    (r.skip front.length).Has rest := by
  obtain ⟨stale, rfl, hsize⟩ := h
  have hlength : ((((front ++ rest).length : ℕ) : ℤ) - front.length).toNat = rest.length := by
    rw [length_append]
    omega
  have hleft : (((front ++ rest).length : ℕ) : ℤ) - front.length = rest.length := by
    rw [length_append]
    omega
  rw [length_append] at hsize
  rw [Receiver.skip, hlength]
  dsimp only
  rw [hleft, append_assoc]
  exact memmove_front front rest stale hsize

theorem Has.bufLen_eq {r : Receiver} {bytes : List Byte} (h : r.Has bytes) :
    r.bufLen = bytes.length := by
  obtain ⟨stale, rfl, -⟩ := h
  rfl

theorem Has.length_le {r : Receiver} {bytes : List Byte} (h : r.Has bytes) :
    bytes.length ≤ rtspBufSize := by
  obtain ⟨stale, -, hsize⟩ := h
  omega

/-- How full the buffer is, is right. -/
theorem Has.holds {r : Receiver} {bytes : List Byte} (h : r.Has bytes) :
    Right [] [.holds r.bufLen] where
  dispatched := rfl
  held := by
    intro n hmem
    obtain rfl : n = r.bufLen := by
      cases mem_singleton.mp hmem
      rfl
    rw [h.bufLen_eq]
    exact ⟨Int.natCast_nonneg _, Int.ofNat_le.mpr h.length_le⟩
  within := by
    intro n far hmem
    cases mem_singleton.mp hmem

/-- **A request at the front is parsed**, and the search does not go on behind it. -/
theorem Has.parse {q : RequestText} (hq : q.Valid) {r : Receiver} {rest : List Byte}
    (h : r.Has (q.bytes ++ rest)) :
    looked r.buf = q.bytes.length ∧
      ∃ r', r.parseRtspRequest = .request r' q.meaning ∧ r'.Has rest := by
  obtain ⟨stale, rfl, hsize⟩ := h
  rw [length_append] at hsize
  obtain ⟨front, hfront, hparse⟩ := hq.parseRtspRequest_eq (rest ++ stale)
    ((q.bytes.length + rest.length : ℕ) : ℤ)
  have hlength : (front ++ crlf).length = q.bytes.length := by
    rw [length_append, ← hfront]
    rfl
  have hleft : ((q.bytes.length + rest.length : ℕ) : ℤ) - q.bytes.length = rest.length := by
    omega
  rw [← hlength] at hsize
  have hrest := moveFront_has (front ++ crlf) rest stale hsize
  rw [hlength, append_assoc] at hrest
  rw [hleft] at hparse
  rw [append_assoc, length_append]
  exact ⟨hq.looked_eq _, _, hparse, hrest⟩

/-- **A message at the front is taken.** -/
theorem process_message {m : Message} (hvalid : m.Valid) {r : Receiver} {rest : List Byte}
    (h : r.Has (m.bytes ++ rest)) (turns : ℕ) :
    ∃ r' events, Has r' rest ∧ Right [m] events ∧
      process (turns + 1) r = ((process turns r').1, events ++ (process turns r').2) := by
  have hpos := hvalid.four_le
  have hlength : r.bufLen = (m.bytes.length + rest.length : ℕ) := by
    rw [h.bufLen_eq, length_append]
  have hsome : ¬ r.bufLen ≤ 0 := by omega
  rw [process, if_neg hsome]
  cases m with
  | frame channel payload =>
      have hfirst : r.buf.getD 0 0 = 0x24 := by
        obtain ⟨stale, rfl, -⟩ := h
        rfl
      have hsize : r.frameSize = (Message.frame channel payload).bytes.length := by
        obtain ⟨stale, rfl, -⟩ := h
        rw [append_assoc]
        exact hvalid.frameSize_eq _ _
      have hskip := h.skip
      rw [if_pos hfirst, if_neg (by omega), if_neg (by omega), hsize]
      refine ⟨_, [_], hskip, ?_, rfl⟩
      exact ⟨rfl, hskip.holds.held, hskip.holds.within⟩
  | request q =>
      have hq : q.Valid := hvalid
      have hfirst : r.buf.getD 0 0 ≠ 0x24 := by
        obtain ⟨stale, rfl, -⟩ := h
        obtain ⟨b, more, hb, hbytes⟩ := hq.bytes_eq
        show (q.bytes ++ rest ++ stale).getD 0 0 ≠ 0x24
        rw [hbytes]
        exact hb
      obtain ⟨hlooked, r', hparse, hrest⟩ := Has.parse hq h
      rw [if_neg hfirst, hparse]
      refine ⟨r', [_, _, _], hrest, ⟨rfl, ?_, ?_⟩, rfl⟩
      · intro n hmem
        refine hrest.holds.held n (mem_singleton.mpr ?_)
        simpa using hmem
      · intro n far hmem
        obtain ⟨rfl, rfl⟩ : n = r.bufLen ∧ far = looked r.buf := by simpa using hmem
        rw [hlooked, hlength]
        exact Int.ofNat_le.mpr (Nat.le_add_right _ _)

/-- **The messages at the front are taken** one after the other. -/
theorem process_messages {messages : List Message} (hvalid : ∀ m ∈ messages, m.Valid)
    {r : Receiver} {rest : List Byte} (h : r.Has (wire messages ++ rest)) {turns : ℕ}
    (hturns : (wire messages ++ rest).length ≤ turns) :
    ∃ r' events turns', rest.length ≤ turns' ∧ Has r' rest ∧ Right messages events ∧
      process turns r = ((process turns' r').1, events ++ (process turns' r').2) := by
  induction messages generalizing r turns with
  | nil => exact ⟨r, [], turns, hturns, h, Right.nil, rfl⟩
  | cons m messages ih =>
      have hm := hvalid m mem_cons_self
      have hsplit : wire (m :: messages) ++ rest = m.bytes ++ (wire messages ++ rest) := by
        rw [wire, flatMap_cons, append_assoc, ← wire]
      rw [hsplit] at h hturns
      rw [length_append] at hturns
      have hpos := hm.four_le
      obtain ⟨turns, rfl⟩ : ∃ k, turns = k + 1 := ⟨turns - 1, by omega⟩
      obtain ⟨r₁, first, hr₁, hfirst, hstep⟩ := process_message hm h turns
      obtain ⟨r', events, turns', hturns', hr', hevents, hrest⟩ :=
        ih (fun other hother => hvalid other (mem_cons_of_mem m hother)) hr₁
          (show _ ≤ turns by omega)
      refine ⟨r', first ++ events, turns', hturns', hr', hfirst.append hevents, ?_⟩
      rw [hstep, hrest, append_assoc]

end Receiver

/-- **A request is taken as soon as its end stands in the array**, though less of it may be in
the buffer. -/
theorem Receiver.process_early {q : RequestText} (hq : q.Valid) (tail : List Byte) {n : ℕ}
    (hpos : 0 < n) (hle : n ≤ q.bytes.length) (turns : ℕ) :
    ∃ front, front.length + 2 = q.bytes.length ∧
      process (turns + 1) ⟨q.bytes ++ tail, n⟩ =
        (⟨front ++ (crlf ++ tail), n - q.bytes.length⟩,
          [.parses n q.bytes.length, .holds (n - q.bytes.length), .dispatches q.meaning]) := by
  obtain ⟨front, hfront, hparse⟩ := hq.parseRtspRequest_eq tail n
  refine ⟨front, hfront, ?_⟩
  have hstays : moveFront (front ++ (crlf ++ tail)) n q.bytes.length = front ++ (crlf ++ tail) :=
    if_neg (by omega)
  have hfirst : (q.bytes ++ tail).getD 0 0 ≠ 0x24 := by
    obtain ⟨b, rest, hb, hbytes⟩ := hq.bytes_eq
    rw [hbytes]
    exact hb
  have hstop : ∀ (buf : List Byte) (turns : ℕ),
      process turns ⟨buf, n - q.bytes.length⟩ = (⟨buf, n - q.bytes.length⟩, []) := by
    intro buf turns
    cases turns with
    | zero => rfl
    | succ turns =>
        rw [process]
        exact if_pos (show (n : ℤ) - q.bytes.length ≤ 0 by omega)
  rw [process, if_neg (show ¬ (n : ℤ) ≤ 0 by omega), if_neg hfirst, hparse, hstays]
  dsimp only
  rw [hstop, hq.looked_eq]

/-! ## How much is in the buffer -/

namespace Receiver

theorem bufLen_le_of_parse {r r' : Receiver} {req : Request}
    (h : r.parseRtspRequest = .request r' req) : r'.bufLen ≤ r.bufLen := by
  rw [parseRtspRequest] at h
  split at h
  · cases h
  rename_i eoh _
  split at h
  · cases h
  dsimp only at h
  split at h
  · cases h
  split at h
  · cases h
  split at h
  · cases h
  · cases h
    show r.bufLen - (eoh + 4 : ℕ) ≤ r.bufLen
    omega

theorem process_bufLen_le (turns : ℕ) (r : Receiver) : (process turns r).1.bufLen ≤ r.bufLen := by
  induction turns generalizing r with
  | zero => exact le_rfl
  | succ turns ih =>
      have hskip : (r.skip r.frameSize).bufLen ≤ r.bufLen := by
        show r.bufLen - (r.frameSize : ℤ) ≤ r.bufLen
        omega
      rw [process]
      split_ifs
      · exact le_rfl
      · exact le_rfl
      · exact le_rfl
      · exact (ih _).trans hskip
      · dsimp only
        split
        case h_1 => exact le_rfl
        case h_2 => exact le_rfl
        case h_3 hparse => exact (ih _).trans (bufLen_le_of_parse hparse)

/-- There is room for a client that sends no more than that. -/
theorem reads_of_small {chunks : List (List Byte)} (hsome : ∀ chunk ∈ chunks, chunk ≠ [])
    {r : Receiver} (hsmall : r.bufLen + chunks.flatten.length ≤ rtspBufSize) :
    Reads chunks r := by
  induction chunks generalizing r with
  | nil => trivial
  | cons chunk chunks ih =>
      intro hnonneg
      rw [flatten_cons, length_append, Nat.cast_add] at hsmall
      refine ⟨⟨hsome chunk mem_cons_self, by omega⟩,
        ih (fun other hother => hsome other (mem_cons_of_mem chunk hother)) ?_⟩
      have hle : (r.receive chunk).1.bufLen ≤ r.bufLen + chunk.length :=
        process_bufLen_le _ (r.read chunk)
      omega

end Receiver

/-! ## What is not there as a whole -/

/-- The next message has begun at most. -/
def Part : List Message → List Byte → Prop
  | [], rest => rest = []
  | m :: _, rest => rest.length < m.bytes.length

/-- What has arrived is some messages and a part of the next. -/
theorem exists_part {messages : List Message} {got more : List Byte}
    (hstream : got ++ more = wire messages) :
    ∃ first later rest, messages = first ++ later ∧ got = wire first ++ rest ∧
      Part later rest ∧ rest ++ more = wire later := by
  induction messages generalizing got with
  | nil =>
      obtain ⟨rfl, rfl⟩ := append_eq_nil_iff.mp hstream
      exact ⟨[], [], [], rfl, rfl, rfl, rfl⟩
  | cons m messages ih =>
      by_cases hpart : got.length < m.bytes.length
      · exact ⟨[], m :: messages, got, rfl, rfl, hpart, hstream⟩
      · rw [wire, flatMap_cons, ← wire] at hstream
        obtain ⟨behind, rfl⟩ : m.bytes <+: got :=
          prefix_of_prefix_length_le (prefix_append _ (wire messages))
            (hstream ▸ prefix_append got more) (Nat.le_of_not_lt hpart)
        rw [append_assoc] at hstream
        obtain ⟨first, later, rest, rfl, rfl, hrest⟩ := ih (append_cancel_left hstream)
        refine ⟨m :: first, later, rest, rfl, ?_, hrest⟩
        rw [wire, wire, flatMap_cons, append_assoc]

theorem Part.begins {m : Message} {later : List Message} {rest more : List Byte}
    (h : Part (m :: later) rest) (hstream : rest ++ more = wire (m :: later)) :
    ∃ missing, missing ≠ [] ∧ rest ++ missing = m.bytes := by
  have hlt : rest.length < m.bytes.length := h
  have hboth : rest ++ more = m.bytes ++ wire later := hstream
  obtain ⟨missing, hmissing⟩ : rest <+: m.bytes :=
    prefix_of_prefix_length_le (hboth ▸ prefix_append rest more)
      (prefix_append m.bytes (wire later)) hlt.le
  refine ⟨missing, ?_, hmissing⟩
  rintro rfl
  rw [← hmissing, append_nil] at hlt
  exact lt_irrefl _ hlt

namespace Receiver

/-- What is in the buffer can be read there. -/
theorem Has.getD_eq {r : Receiver} {rest : List Byte} (h : r.Has rest) {i : ℕ}
    (hi : i < rest.length) (missing : List Byte) :
    r.buf.getD i 0 = (rest ++ missing).getD i 0 := by
  obtain ⟨stale, rfl, -⟩ := h
  show (rest ++ stale).getD i 0 = _
  rw [getD_append _ _ _ _ hi, getD_append _ _ _ _ hi]

/-- **A frame that is not there as a whole is left alone.** -/
theorem process_part {later : List Message} (hvalid : ∀ m ∈ later, m.Valid) {r : Receiver}
    {rest more : List Byte} (h : r.Has rest) (hpart : Part later rest)
    (hstream : rest ++ more = wire later) (houtside : ¬ InsideRequest later rest.length)
    (turns : ℕ) : process turns r = (r, []) := by
  cases turns with
  | zero => rfl
  | succ turns =>
      have hlength := h.bufLen_eq
      rw [process]
      cases later with
      | nil =>
          have hempty : rest = [] := hpart
          rw [hempty] at hlength
          exact if_pos hlength.le
      | cons m later =>
          obtain ⟨missing, hmissing, hbytes⟩ := hpart.begins hstream
          have hlt : rest.length < m.bytes.length := hpart
          by_cases hnone : r.bufLen ≤ 0
          · exact if_pos hnone
          rw [if_neg hnone]
          cases m with
          | request q =>
              exact absurd (.inl ⟨by omega, hlt, Option.some_ne_none _⟩) houtside
          | frame channel payload =>
              have hfirst : r.buf.getD 0 0 = 0x24 := by
                rw [h.getD_eq (by omega) missing, hbytes]
                rfl
              rw [if_pos hfirst]
              split
              case isTrue => rfl
              case isFalse hfour =>
                have hsize : r.frameSize = (Message.frame channel payload).bytes.length := by
                  rw [← Message.Valid.frameSize_eq (hvalid _ mem_cons_self) [] 0, frameSize,
                    h.getD_eq (by omega) missing, h.getD_eq (by omega) missing, hbytes,
                    append_nil]
                  rfl
                rw [hsize]
                exact if_pos (by omega)

/-- **A request that is not there as a whole is searched for its end**, and that is not in the
buffer. -/
theorem process_inside {later : List Message} (hvalid : ∀ m ∈ later, m.Valid) {r : Receiver}
    {rest more : List Byte} (h : r.Has rest) (hpart : Part later rest)
    (hstream : rest ++ more = wire later) (hinside : InsideRequest later rest.length)
    {turns : ℕ} (hturns : rest.length ≤ turns) :
    ∃ far, rest.length < far ∧ Observed.parses rest.length far ∈ (process turns r).2 := by
  cases later with
  | nil => exact hinside.elim
  | cons m later =>
      have hlt : rest.length < m.bytes.length := hpart
      rcases hinside with ⟨hpos, -, hrequest⟩ | ⟨hle, -⟩
      · obtain ⟨missing, hmissing, hbytes⟩ := hpart.begins hstream
        obtain ⟨turns, rfl⟩ : ∃ k, turns = k + 1 := ⟨turns - 1, by omega⟩
        have hlength := h.bufLen_eq
        cases m with
        | frame channel payload => exact absurd rfl hrequest
        | request q =>
            have hq : q.Valid := hvalid _ mem_cons_self
            have hfirst : r.buf.getD 0 0 ≠ 0x24 := by
              obtain ⟨b, behind, hb, hmethod⟩ := hq.bytes_eq
              rw [h.getD_eq hpos missing, hbytes]
              show q.bytes.getD 0 0 ≠ 0x24
              rw [hmethod]
              exact hb
            have hfar : rest.length < looked r.buf := by
              obtain ⟨stale, rfl, -⟩ := h
              exact hq.lt_looked hbytes hmissing stale
            refine ⟨looked r.buf, hfar, ?_⟩
            rw [process, if_neg (by omega), if_neg hfirst, hlength]
            dsimp only
            split <;> exact mem_cons_self
      · exact absurd hlt (not_lt.mpr hle)

/-- **What a `read` leads to.**  The messages that are complete are taken; if it ends inside a
request, the search for its end leaves what is in the buffer. -/
theorem receive_cases {left : List Message} (hvalid : ∀ m ∈ left, m.Valid) {r : Receiver}
    {pending chunk more : List Byte} (h : r.Has pending)
    (hroom : pending.length + chunk.length ≤ rtspBufSize)
    (hstream : pending ++ (chunk ++ more) = wire left) :
    ∃ first later rest, left = first ++ later ∧
      pending.length + chunk.length = (wire first).length + rest.length ∧
      Part later rest ∧ rest ++ more = wire later ∧
      ((InsideRequest later rest.length ∧
          ∃ far, rest.length < far ∧ Observed.parses rest.length far ∈ (r.receive chunk).2) ∨
        (¬ InsideRequest later rest.length ∧ (r.receive chunk).1.Has rest ∧
          Right first (r.receive chunk).2)) := by
  rw [← append_assoc] at hstream
  obtain ⟨first, later, rest, rfl, hgot, hpart, hrest⟩ := exists_part hstream
  have hread := h.read hroom
  rw [hgot] at hread
  have hfirst : ∀ m ∈ first, m.Valid := fun m hm => hvalid m (mem_append_left _ hm)
  have hlater : ∀ m ∈ later, m.Valid := fun m hm => hvalid m (mem_append_right _ hm)
  have hturns : (wire first ++ rest).length ≤ (r.read chunk).bufLen.toNat := by
    rw [hread.bufLen_eq, Int.toNat_natCast]
  obtain ⟨r', events, turns, hmore, hr', hevents, hprocess⟩ :=
    process_messages hfirst hread hturns
  refine ⟨first, later, rest, rfl, ?_, hpart, hrest, ?_⟩
  · rw [← length_append, hgot, length_append]
  · rw [receive]
    dsimp only
    rw [hprocess]
    by_cases hinside : InsideRequest later rest.length
    · obtain ⟨far, hfar, hmem⟩ := process_inside hlater hr' hpart hrest hinside hmore
      exact .inl ⟨hinside, far, hfar,
        mem_cons_of_mem _ (mem_append_right events hmem)⟩
    · rw [process_part hlater hr' hpart hrest hinside turns, append_nil]
      exact .inr ⟨hinside, hr', hread.holds.append hevents⟩

/-- **All reads of a client**, from a buffer with a part of the next message on. -/
theorem run_right_iff {left : List Message} (hvalid : ∀ m ∈ left, m.Valid)
    {chunks : List (List Byte)} {r : Receiver} {pending : List Byte} (h : r.Has pending)
    (hreads : Reads chunks r) (hstream : pending ++ chunks.flatten = wire left)
    (hpart : Part left pending) (houtside : ¬ InsideRequest left pending.length) :
    Right left (run chunks r) ↔ ∀ front back, chunks = front ++ back →
      ¬ InsideRequest left (pending.length + front.flatten.length) := by
  induction chunks generalizing left r pending with
  | nil =>
      have hnone : left = [] := by
        cases left with
        | nil => rfl
        | cons m left =>
            obtain ⟨missing, hmissing, hbytes⟩ := hpart.begins hstream
            have hall : pending ++ [] = m.bytes ++ wire left := hstream
            rw [← hbytes, append_assoc] at hall
            exact absurd (append_eq_nil_iff.mp (append_cancel_left hall).symm).1 hmissing
      subst hnone
      exact iff_of_true Right.nil fun _ _ _ hinside => hinside
  | cons chunk chunks ih =>
      have hnonneg : 0 ≤ r.bufLen := h.bufLen_eq ▸ Int.natCast_nonneg _
      obtain ⟨⟨-, hroom⟩, hnext⟩ := hreads hnonneg
      rw [h.bufLen_eq] at hroom
      obtain ⟨first, later, rest, rfl, hlength, hrestPart, hrest, hcases⟩ :=
        receive_cases hvalid h (by omega) hstream
      have hfirst : ∀ m ∈ first, m.Valid := fun m hm => hvalid m (mem_append_left _ hm)
      -- a place in what is still to come, seen from the beginning
      have hplace : ∀ k, InsideRequest (first ++ later) (pending.length + (chunk.length + k)) ↔
          InsideRequest later (rest.length + k) := by
        intro k
        rw [← Nat.add_assoc, hlength, Nat.add_assoc, insideRequest_append later _ hfirst]
      rw [run, if_neg (not_lt.mpr hnonneg)]
      rcases hcases with ⟨hinside, far, hfar, hmem⟩ | ⟨hrestOut, hhas, hevents⟩
      · refine iff_of_false (fun hright => ?_) (fun hall => ?_)
        · have hwithin := hright.within _ _ (mem_append_left _ hmem)
          omega
        · refine hall [chunk] chunks rfl ?_
          rw [flatten_singleton]
          exact (hplace 0).mpr hinside
      · rw [Right.append_iff hevents, ih (fun m hm => hvalid m (mem_append_right _ hm)) hhas
          hnext hrest hrestPart hrestOut]
        constructor
        · intro hall front back hcut
          cases front with
          | nil => exact houtside
          | cons one front =>
              obtain ⟨hone, hbehind⟩ : chunk = one ∧ chunks = front ++ back := List.cons.inj hcut
              rw [← hone, flatten_cons, length_append, hplace]
              exact hall front back hbehind
        · intro hall front back hcut
          have hone := hall (chunk :: front) back (congrArg (chunk :: ·) hcut)
          rw [flatten_cons, length_append, hplace] at hone
          exact hone

end Receiver

/-- No piece ends inside a request. -/
def CutBetween (messages : List Message) (chunks : List (List Byte)) : Prop :=
  ∀ front back, chunks = front ++ back → ¬ InsideRequest messages front.flatten.length

/-- **Whatever the messages, the pieces they come in decide**: `client_thread` reads them right,
and within its buffer, if and only if no `read` ends inside a request. -/
theorem received_right_iff {messages : List Message} (hvalid : ∀ m ∈ messages, m.Valid)
    {chunks : List (List Byte)} (hstream : chunks.flatten = wire messages)
    (hreads : Receiver.Reads chunks .fresh) :
    Right messages (Receiver.run chunks .fresh) ↔ CutBetween messages chunks := by
  have hpart : Part messages [] := by
    cases messages with
    | nil => rfl
    | cons m messages =>
        have hpos := (hvalid m mem_cons_self).four_le
        exact Nat.lt_of_lt_of_le (Nat.zero_lt_succ 3) hpos
  have houtside : ¬ InsideRequest messages 0 := by
    cases messages with
    | nil => exact fun hinside => hinside
    | cons m messages =>
        have hpos := (hvalid m mem_cons_self).four_le
        rintro (⟨hlt, -⟩ | ⟨hle, -⟩) <;> omega
  have hrun := Receiver.run_right_iff hvalid Receiver.fresh_has hreads hstream hpart houtside
  rw [hrun]
  simp only [length_nil, Nat.zero_add]
  rfl

/-- `OPTIONS` with a number. -/
def optionsRequest (cseq : String) (more : List HeaderLine) : RequestText :=
  ⟨text "OPTIONS", text "*", text "RTSP/1.0", ⟨text "CSeq", text cseq⟩ :: more⟩

theorem optionsRequest_valid {cseq : String} {more : List HeaderLine}
    (hvalue : OneLine (text cseq)) (hmore : ∀ hd ∈ more, hd.Valid)
    (hsize : (optionsRequest cseq more).bytes.length ≤ 4096) :
    (optionsRequest cseq more).Valid where
  method := show OneLine (text "OPTIONS") ∧ 0x20 ∉ text "OPTIONS" ∧ text "OPTIONS" ≠ [] ∧
    (text "OPTIONS").length < 16 by decide
  dollar := show (text "OPTIONS").head? ≠ some 0x24 by decide
  uri := show OneLine (text "*") ∧ 0x20 ∉ text "*" ∧ text "*" ≠ [] ∧ (text "*").length < 512 by
    decide
  version := show OneLine (text "RTSP/1.0") ∧ text "RTSP/1.0" ≠ [] by decide
  headers := by
    intro hd hmem
    rcases mem_cons.mp hmem with rfl | hmem
    · have hname : OneLine (text "CSeq") ∧ 0x3a ∉ text "CSeq" := by decide
      have hsession : ¬ SameCase (text "CSeq") (text "Session") := by decide
      have htransport : ¬ SameCase (text "CSeq") (text "Transport") := by decide
      exact ⟨hname, hvalue, fun hnamed => absurd hnamed hsession,
        fun hnamed => absurd hnamed htransport⟩
    · exact hmore hd hmem
  size := hsize

/-- A request without other headers. -/
theorem optionsRequest_plain {cseq : String} (hvalue : OneLine (text cseq))
    (hsize : (optionsRequest cseq []).bytes.length ≤ 4096) : (optionsRequest cseq []).Valid :=
  optionsRequest_valid hvalue (fun _ hmem => absurd hmem not_mem_nil) hsize

/-- A frame may be cut anywhere. -/
theorem received_right_frame :
    let q := optionsRequest " 1" []
    Right [.request q, .frame 0 [1, 2]]
      (Receiver.run [q.bytes ++ [0x24, 0], [0, 2, 1, 2]] .fresh) := by
  intro q
  have hvalid : ∀ m ∈ [Message.request q, .frame 0 [1, 2]], m.Valid := by
    intro m hmem
    rcases mem_cons.mp hmem with rfl | hmem
    · exact optionsRequest_plain (by decide) (by decide)
    · cases mem_singleton.mp hmem
      show 4 + 2 ≤ 4096
      decide
  have hreads : Receiver.Reads [q.bytes ++ [0x24, 0], [0, 2, 1, 2]] .fresh :=
    Receiver.reads_of_small (by decide) (by decide)
  refine (received_right_iff hvalid (by decide) hreads).mpr ?_
  intro front back hcut
  match front, hcut with
  | [], _ => decide
  | [_], rfl => decide
  | [_, _], rfl => decide

/-- **The end of an earlier request may end a later one**: then that is dispatched without its
last headers, and `buf_len` is negative. -/
theorem dispatched_early :
    let first := optionsRequest " 1" []
    let second := optionsRequest " 2" [⟨text "Session", text " 7"⟩]
    let early := optionsRequest " 2" []
    let pieces := [first.bytes, second.bytes.take 29, second.bytes.drop 29]
    (first.Valid ∧ second.Valid) ∧ pieces.flatten = wire [.request first, .request second] ∧
      Receiver.Reads pieces .fresh ∧
      Receiver.run pieces .fresh =
        [.holds 31, .parses 31 31, .holds 0, .dispatches first.meaning,
          .holds 29, .parses 29 31, .holds (-2), .dispatches early.meaning] ∧
      ¬ Right [.request first, .request second] (Receiver.run pieces .fresh) := by
  intro first second early pieces
  have hfirst : first.Valid := optionsRequest_plain (by decide) (by decide)
  have hearly : early.Valid := optionsRequest_plain (by decide) (by decide)
  have hsecond : second.Valid := by
    refine optionsRequest_valid (by decide) (fun hd hmem => ?_) (by decide)
    cases mem_singleton.mp hmem
    exact ⟨by decide, by decide, by decide, by decide⟩
  obtain ⟨tail, htail⟩ : ∃ tail, tail = Receiver.fresh.buf.drop 31 := ⟨_, rfl⟩
  obtain ⟨front, hfront, hone⟩ :=
    Receiver.process_early hfirst tail (n := 31) (by decide) (by decide) 30
  obtain ⟨front', -, htwo⟩ :=
    Receiver.process_early hearly tail (n := 29) (by decide) (by decide) 28
  have hreceive : Receiver.fresh.receive first.bytes = (⟨front ++ (crlf ++ tail), 0⟩,
      [.holds 31, .parses 31 31, .holds 0, .dispatches first.meaning]) := by
    have hread : Receiver.fresh.read first.bytes = ⟨first.bytes ++ tail, (31 : ℕ)⟩ := by
      rw [htail]
      rfl
    rw [Receiver.receive, hread]
    dsimp only
    rw [Int.toNat_natCast, hone]
    rfl
  have hreceive' : Receiver.receive ⟨front ++ (crlf ++ tail), 0⟩ (second.bytes.take 29) =
      (⟨front' ++ (crlf ++ tail), -2⟩,
        [.holds 29, .parses 29 31, .holds (-2), .dispatches early.meaning]) := by
    have hplace : front.length = 29 := Nat.add_right_cancel hfront
    -- behind the piece, the end of the first request is still in the array
    have hread : Receiver.read ⟨front ++ (crlf ++ tail), 0⟩ (second.bytes.take 29) =
        ⟨early.bytes ++ tail, (29 : ℕ)⟩ := by
      have hcut : second.bytes.take 29 ++ crlf = early.bytes := by decide
      have hdrop : (front ++ (crlf ++ tail)).drop 29 = crlf ++ tail := by
        rw [← hplace, drop_left]
      show Receiver.mk (second.bytes.take 29 ++ (front ++ (crlf ++ tail)).drop 29) 29 = _
      rw [hdrop, ← append_assoc, hcut]
      rfl
    rw [Receiver.receive, hread]
    dsimp only
    rw [Int.toNat_natCast, htwo]
    rfl
  have hrun : Receiver.run pieces .fresh =
      [.holds 31, .parses 31 31, .holds 0, .dispatches first.meaning,
        .holds 29, .parses 29 31, .holds (-2), .dispatches early.meaning] := by
    show Receiver.run (first.bytes :: second.bytes.take 29 :: second.bytes.drop 29 :: []) _ = _
    rw [Receiver.run, if_neg (by decide), hreceive, Receiver.run,
      if_neg (show ¬ (0 : ℤ) < 0 by decide), hreceive', Receiver.run,
      if_pos (show (-2 : ℤ) < 0 by decide)]
    rfl
  refine ⟨⟨hfirst, hsecond⟩, by decide, Receiver.reads_of_small (by decide) (by decide), hrun,
    fun hright => ?_⟩
  have hheld := hright.held (-2) (by rw [hrun]; decide)
  exact absurd hheld.1 (by decide)

end Zstreamer.Rtsp

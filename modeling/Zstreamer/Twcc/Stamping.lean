/-
# One-byte header extensions

The general header extension of an RTP packet when its profile is `0xBEDE`: elements, each with a
byte in front that has the identifier in its upper half and the number of data bytes, less one, in
its lower half. Zero is the identifier of padding, and fifteen ends the elements, so that neither
identifies an element.
-/

import Mathlib.Logic.Function.Basic
import Zstreamer.Foundation.Cursor
import Zstreamer.Rtp.Packet
import Zstreamer.Rtsp.Text

namespace Zstreamer.Twcc

open Foundation List Option

/-- An element of an extension. -/
structure Element where
  id : ℕ
  data : List Byte
  deriving DecidableEq, Repr

/-- The elements in the bytes of an extension. An element that is cut off is none. -/
def elements : List Byte → List Element
  | [] => []
  | head :: rest =>
      let id := (head >>> 4).toNat
      let size := (head &&& 0x0F).toNat + 1
      if id = 0 then elements rest
      else if id = 15 ∨ rest.length < size then []
      else ⟨id, rest.take size⟩ :: elements (rest.drop size)
termination_by bytes => bytes.length
decreasing_by
  · simp
  · simp only [length_cons, length_drop]
    omega

/-- The bytes of the contributing sources. -/
def csrcList (packet : List Byte) : List Byte :=
  (packet.drop 12).take ((packet.getD 0 0 &&& 0x0f).toNat * 4)

/-- The elements of a packet that has an extension with one-byte headers. -/
def oneByteElements (packet : List Byte) : Option (List Element) :=
  let p (i : ℕ) : Byte := packet.getD i 0
  let hlen := 12 + (p 0 &&& 0x0f).toNat * 4
  let words := (be16 (p (hlen + 2)) (p (hlen + 3))).toNat
  if p 0 &&& 0x10 ≠ 0 ∧ hlen + 4 + words * 4 ≤ packet.length ∧
      be16 (p hlen) (p (hlen + 1)) = 0xBEDE then
    some (elements ((packet.drop (hlen + 4)).take (words * 4)))
  else none

/-- **An identifier is one of fourteen.** -/
theorem elements_id (bytes : List Byte) :
    ∀ element ∈ elements bytes, 1 ≤ element.id ∧ element.id ≤ 14 := by
  fun_induction elements bytes with
  | case1 => exact fun element helement => absurd helement not_mem_nil
  | case2 head rest id hzero ih => exact ih
  | case3 head rest id size hzero hend =>
      exact fun element helement => absurd helement not_mem_nil
  | case4 head rest id size hzero hend ih =>
      intro element helement
      rcases mem_cons.mp helement with rfl | hrest
      · have hid : id < 16 := by
          have hhead : head.toNat < 256 := head.isLt
          simp only [id, BitVec.toNat_ushiftRight, Nat.shiftRight_eq_div_pow]
          omega
        dsimp only
        omega
      · exact ih element hrest

end Zstreamer.Twcc

/-! # Stamping of packets

`zst_webrtc_twcc_parse_offer` takes from an offer the identifier under which the other side
expects the transport-wide sequence numbers, and `zst_webrtc_twcc_process_outgoing` puts the next
number into every RTP packet, in a header extension with one-byte headers.

Such a header has four bits for the identifier, and the offer may name any number. A packet is
stamped as it should be when the number is one of the fourteen that identify an element.
-/

namespace Zstreamer.Twcc

open Foundation List Option

/-! ## The session -/

/-- `TWCC_HISTORY_SIZE`. -/
def historySize : ℕ := 8192

/-- `twcc_sent_packet_t`. -/
structure SentPacket where
  seqNum : BitVec 16
  sendTimeUs : BitVec 64
  packetSize : ℕ
  deriving DecidableEq, Repr

/-- The fields of `zst_webrtc_twcc` that stamping reads and writes. -/
structure Session where
  extmapId : BitVec 32
  seqNum : BitVec 16
  history : Fin historySize → SentPacket

/-- `seq % TWCC_HISTORY_SIZE`. -/
def historyIndex (seq : BitVec 16) : Fin historySize :=
  ⟨seq.toNat % historySize, Nat.mod_lt _ (by decide)⟩

/-! ## The offer -/

def extUri : List Byte :=
  Rtsp.text "http://www.ietf.org/id/draft-holmer-rmcat-transport-wide-cc-extensions-01"

def extmapStr : List Byte := Rtsp.text "a=extmap:"

/-- The loop from a place in the offer back to the line break before it. -/
def walkBack (offer : List Byte) : ℕ → ℕ
  | 0 => 0
  | start + 1 => if offer[start + 1]? ≠ some 0x0a then walkBack offer start else start + 1

/-- Where the line begins that a place of the offer is in. -/
def lineStart (offer : List Byte) (place : ℕ) : ℕ :=
  let start := walkBack offer place
  if offer[start]? = some 0x0a then start + 1 else start

/-- `zst_webrtc_twcc_parse_offer`. -/
def parseOffer (twcc : Session) (offer : List Byte) : Session × BitVec 32 :=
  match Rtsp.strstr offer extUri with
  | none => ({ twcc with extmapId := -1 }, -1)
  | some place =>
      let start := lineStart offer place
      if extmapStr <+: offer.drop start then
        let id := Rtsp.atoi (offer.drop (start + extmapStr.length))
        ({ twcc with extmapId := id }, id)
      else (twcc, -1)

/-! ## The packets -/

/-- The size of `new_pkt`. -/
def newPktSize : ℕ := 2048

/-- The eight bytes between the header and the payload: the profile, one word, and in it the
element with the number. -/
def extension (extmapId : BitVec 32) (seq : BitVec 16) : List Byte :=
  [0xBE, 0xDE, 0x00, 0x01, ((extmapId <<< 4) ||| 0x01).setWidth 8,
    (seq >>> 8).setWidth 8, seq.setWidth 8, 0x00]

/-- The packet that is built in `new_pkt`, whatever the array holds before. `none` is an access
outside one of the two arrays. -/
def newPacket (newPkt message : List Byte) (hdrLen : ℕ) (ext : List Byte) : Option (List Byte) :=
  (span message 0 hdrLen).bind fun header =>
  (store newPkt 0 header).bind fun pkt =>
  pkt[0]?.bind fun first =>
  (store pkt 0 [first ||| 0x10]).bind fun pkt =>
  (store pkt hdrLen ext).bind fun pkt =>
  (span message hdrLen (message.length - hdrLen)).bind fun payload =>
  (store pkt (hdrLen + 8) payload).bind fun pkt =>
  span pkt 0 (message.length + 8)

/-- The next number, and the packet in the history under it. -/
def Session.allocate (twcc : Session) (now : BitVec 64) (size : ℕ) : Session :=
  { twcc with
    seqNum := twcc.seqNum + 1
    history := Function.update twcc.history (historyIndex twcc.seqNum) ⟨twcc.seqNum, now, size⟩ }

/-- `zst_webrtc_twcc_process_outgoing`, at a time: the session after it, and the bytes of the new
message; there are none where it returns the message it has got. -/
def processOutgoing (twcc : Session) (now : BitVec 64) (newPkt message : List Byte) :
    Option (Session × Option (List Byte)) :=
  if twcc.extmapId.toInt < 0 then some (twcc, none)
  else if message.length < 12 then some (twcc, none)
  else
    message[0]?.bind fun first =>
    message[1]?.bind fun second =>
    let version := first >>> 6 &&& 0x03
    let pt := second &&& 0x7F
    let x := first >>> 4 &&& 0x01
    let csrcLen := (first &&& 0x0F).toNat * 4
    if version ≠ 2 then some (twcc, none)
    else if 64 ≤ pt ∧ pt ≤ 95 then some (twcc, none)
    else if message.length < 12 + csrcLen then some (twcc, none)
    else if x ≠ 0 then some (twcc, none)
    else if message.length + 8 > newPktSize then some (twcc, none)
    else
      (newPacket newPkt message (12 + csrcLen) (extension twcc.extmapId twcc.seqNum)).map
        fun pkt => (twcc.allocate now message.length, some pkt)

/-- A call for an RTP packet: the packet, the time, and what the array on the stack holds. -/
structure Call where
  packet : List Byte
  now : BitVec 64
  newPkt : List Byte
  array : newPkt.length = newPktSize
  version : packet.getD 0 0 >>> 6 &&& 0x03 = 2
  payloadType : ¬ (64 ≤ packet.getD 1 0 &&& 0x7F ∧ packet.getD 1 0 &&& 0x7F ≤ 95)
  plain : packet.getD 0 0 >>> 4 &&& 0x01 = 0
  header : 12 + (packet.getD 0 0 &&& 0x0F).toNat * 4 ≤ packet.length
  size : packet.length ≤ 2040

/-- The calls one after the other: the session after each of them, and what has been built. -/
def processAll : Session → List Call → Option (List (Session × Option (List Byte)))
  | _, [] => some []
  | twcc, call :: calls =>
      (processOutgoing twcc call.now call.newPkt call.packet).bind fun done =>
        (processAll done.1 calls).map (done :: ·)

/-! ## What the other side finds -/

/-- A packet has been stamped: it is the packet that has been given, but for the one element that
has the number. -/
structure Stamped (id : ℤ) (value : BitVec 16) (packet out : List Byte) : Prop where
  view : ∃ view, Rtp.parseRtp packet = some view ∧ Rtp.parseRtp out = some view
  csrcs : csrcList out = csrcList packet
  element : ∃ element, oneByteElements out = some [element] ∧ (element.id : ℤ) = id ∧
    element.data = [(value >>> 8).setWidth 8, value.setWidth 8]

/-- Every packet is stamped with the number behind that of the packet before it, and the history
has it, with the size of the packet. -/
def AllStamped (id : ℤ) (first : BitVec 16) (calls : List Call)
    (outcome : Option (List (Session × Option (List Byte)))) : Prop :=
  ∃ done, outcome = some done ∧ done.length = calls.length ∧
    ∀ (i : ℕ) (call : Call), calls[i]? = some call →
      ∃ twcc out, done[i]? = some (twcc, some out) ∧
        Stamped id (first + BitVec.ofNat 16 i) call.packet out ∧
        (twcc.history (historyIndex (first + BitVec.ofNat 16 i))).seqNum =
          first + BitVec.ofNat 16 i ∧
        (twcc.history (historyIndex (first + BitVec.ofNat 16 i))).packetSize = call.packet.length

/-! ## The new packet -/

/-- What the first byte of a plain packet says, and what it says with the extension bit. -/
theorem firstByte : ∀ first : Byte, first >>> 6 &&& 0x03 = 2 → first >>> 4 &&& 0x01 = 0 →
    first &&& 0xc0 = 0x80 ∧ first &&& 0x10 = 0 ∧ (first ||| 0x10) &&& 0xc0 = 0x80 ∧
      (first ||| 0x10) &&& 0x10 ≠ 0 ∧ (first ||| 0x10) &&& 0x0f = first &&& 0x0f := by
  decide +kernel

/-- The packet is built inside the array: the header with the extension bit, the extension, and
the payload. -/
theorem newPacket_eq {newPkt header payload ext : List Byte} {first : Byte} {hdrLen : ℕ}
    (hlength : (first :: header).length = hdrLen) (hext : ext.length = 8)
    (hroom : hdrLen + 8 + payload.length ≤ newPkt.length) :
    newPacket newPkt (first :: header ++ payload) hdrLen ext =
      some ((first ||| 0x10) :: header ++ ext ++ payload) := by
  have hread : span (first :: header ++ payload) 0 hdrLen = some (first :: header) := by
    rw [span_of_le (by rw [length_append]; omega), drop_zero, ← hlength, take_left]
  have hcopy : store newPkt 0 (first :: header) =
      some (first :: header ++ newPkt.drop (first :: header).length) :=
    @store_behind Byte [] _ newPkt 0 rfl (by omega)
  have hset : store (first :: header ++ newPkt.drop (first :: header).length) 0 [first ||| 0x10] =
      some ((first ||| 0x10) :: header ++ newPkt.drop (first :: header).length) :=
    @store_over Byte [] [first] _ _ 0 rfl rfl
  have hfront : ((first ||| 0x10) :: header).length = hdrLen := hlength
  have hrest : (newPkt.drop (first :: header).length).length = newPkt.length - hdrLen := by
    rw [length_drop, hlength]
  have hextended : ((first ||| 0x10) :: header ++ ext).length = hdrLen + 8 := by
    rw [length_append, hfront, hext]
  have hsize : (first :: header ++ payload).length = hdrLen + payload.length := by
    rw [length_append, hlength]
  have hpayload : span (first :: header ++ payload) hdrLen
      ((first :: header ++ payload).length - hdrLen) = some payload := by
    rw [span_of_le (by omega), ← hlength, drop_left, hsize]
    exact congrArg some (take_of_length_le (by omega))
  rw [newPacket, hread, bind_some, hcopy, bind_some]
  rw [show (first :: header ++ newPkt.drop (first :: header).length)[0]? = some first from rfl,
    bind_some, hset, bind_some, store_behind hfront (by omega), bind_some,
    hpayload, bind_some,
    store_behind hextended (by rw [length_drop]; omega), bind_some, hsize]
  have hall : ((first ||| 0x10) :: header ++ ext ++ payload).length =
      hdrLen + payload.length + 8 := by
    rw [length_append, hextended]
    omega
  rw [span_of_le (by rw [length_append, hall]; omega), drop_zero, ← hall, take_left]

/-! ## What is read in it -/

/-- The views of two packets are the same when the fixed headers agree behind the first byte. -/
theorem viewAt_congr {packet out : List Byte} {hlen hlen' : ℕ}
    (hfields : ∀ i, 0 < i → i < 12 → out.getD i 0 = packet.getD i 0)
    (hpayload : out.drop hlen' = packet.drop hlen) :
    Rtp.viewAt out hlen' = Rtp.viewAt packet hlen := by
  simp only [Rtp.viewAt, hpayload, hfields 1 (by decide) (by decide),
    hfields 2 (by decide) (by decide), hfields 3 (by decide) (by decide),
    hfields 4 (by decide) (by decide), hfields 5 (by decide) (by decide),
    hfields 6 (by decide) (by decide), hfields 7 (by decide) (by decide),
    hfields 8 (by decide) (by decide), hfields 9 (by decide) (by decide),
    hfields 10 (by decide) (by decide), hfields 11 (by decide) (by decide)]

section Built

variable {header payload : List Byte} {first : Byte} {id : BitVec 32} {seq : BitVec 16}

/-- The bytes of the extension stand behind the header. -/
theorem getD_extension {front : List Byte} {hlen : ℕ} (hlength : front.length = hlen) {i : ℕ}
    (hi : i < 8) :
    (front ++ extension id seq ++ payload).getD (hlen + i) 0 = (extension id seq).getD i 0 := by
  have hinside : hlen + i - hlen < (extension id seq).length := by
    rw [Nat.add_sub_cancel_left]
    exact hi
  rw [append_assoc, getD_eq_getElem?_getD, ← hlength,
    getElem?_append_right (Nat.le_add_right _ _), hlength,
    getElem?_append_left hinside, Nat.add_sub_cancel_left, ← getD_eq_getElem?_getD]

/-- The extension has one word. -/
theorem words_extension {front : List Byte} {hlen : ℕ} (hlength : front.length = hlen) :
    (be16 ((front ++ extension id seq ++ payload).getD (hlen + 2) 0)
      ((front ++ extension id seq ++ payload).getD (hlen + 3) 0)).toNat = 1 := by
  rw [getD_extension hlength (by decide), getD_extension hlength (by decide)]
  exact (by decide : (be16 0x00 0x01).toNat = 1)

/-- The profile of the extension is that of one-byte headers. -/
theorem profile_extension {front : List Byte} {hlen : ℕ} (hlength : front.length = hlen) :
    be16 ((front ++ extension id seq ++ payload).getD hlen 0)
      ((front ++ extension id seq ++ payload).getD (hlen + 1) 0) = 0xBEDE := by
  have hhigh : (front ++ extension id seq ++ payload).getD (hlen + 0) 0 = _ :=
    getD_extension hlength (by decide)
  rw [Nat.add_zero] at hhigh
  rw [hhigh, getD_extension hlength (by decide)]
  exact (by decide : be16 0xBE 0xDE = 0xBEDE)

/-- The depayloader finds the same in the new packet as in the one that has been given. -/
theorem parseRtp_stamped (hversion : first >>> 6 &&& 0x03 = 2) (hplain : first >>> 4 &&& 0x01 = 0)
    (hlength : (first :: header).length = 12 + (first &&& 0x0f).toNat * 4)
    (hsize : (first :: header).length + payload.length ≤ 2040) :
    ∃ view, Rtp.parseRtp (first :: header ++ payload) = some view ∧
      Rtp.parseRtp ((first ||| 0x10) :: header ++ extension id seq ++ payload) = some view := by
  obtain ⟨hkind, hnoext, hkind', hext, hsources⟩ := firstByte first hversion hplain
  have hmax : Rtp.maxPacket = 65535 := rfl
  have htotal : (first :: header ++ payload).length = (first :: header).length + payload.length :=
    length_append
  refine ⟨Rtp.viewAt (first :: header ++ payload) (first :: header).length, ?_, ?_⟩
  · have hfirst : (first :: header ++ payload).getD 0 0 = first := rfl
    rw [Rtp.parseRtp]
    simp only [hfirst, htotal]
    rw [if_neg (by omega), if_neg (not_not_intro hkind), if_neg (by omega),
      if_neg (not_not_intro hnoext), ← hlength]
  · have hfirst :
        ((first ||| 0x10) :: header ++ extension id seq ++ payload).getD 0 0 = first ||| 0x10 := rfl
    have hout : ((first ||| 0x10) :: header ++ extension id seq ++ payload).length =
        (first :: header).length + 8 + payload.length := by
      rw [length_append, length_append]
      rfl
    have hfront : ((first ||| 0x10) :: header).length = 12 + (first &&& 0x0f).toNat * 4 := hlength
    rw [Rtp.parseRtp]
    simp only [hfirst, hsources, hout, words_extension hfront]
    rw [if_neg (by omega), if_neg (not_not_intro hkind'), if_neg (by omega), if_pos hext,
      if_neg (by omega), if_neg (by omega)]
    refine congrArg some (viewAt_congr ?_ ?_)
    · intro i hlow hhigh
      obtain ⟨j, rfl⟩ := Nat.exists_eq_succ_of_ne_zero hlow.ne'
      have hinside : j < header.length := by
        rw [length_cons] at hlength
        omega
      rw [append_assoc, cons_append, cons_append, getD_cons_succ,
        getD_cons_succ, getD_append _ _ _ _ hinside, getD_append _ _ _ _ hinside]
    · have hbehind : ((first ||| 0x10) :: header ++ extension id seq).length =
          12 + (first &&& 0x0f).toNat * 4 + (4 + 1 * 4) := by
        rw [length_append, hfront]
        rfl
      rw [← hbehind, drop_left, drop_left]

/-- The contributing sources are those of the packet that has been given. -/
theorem csrcList_stamped (hversion : first >>> 6 &&& 0x03 = 2) (hplain : first >>> 4 &&& 0x01 = 0)
    (hlength : (first :: header).length = 12 + (first &&& 0x0f).toNat * 4) :
    csrcList ((first ||| 0x10) :: header ++ extension id seq ++ payload) =
      csrcList (first :: header ++ payload) := by
  obtain ⟨hkind, hnoext, hkind', hext, hsources⟩ := firstByte first hversion hplain
  have hinside : (first &&& 0x0f).toNat * 4 ≤ (header.drop 11).length := by
    rw [length_cons] at hlength
    rw [length_drop]
    omega
  have hlong : 11 ≤ header.length := by
    rw [length_cons] at hlength
    omega
  rw [csrcList, csrcList, append_assoc, cons_append, cons_append,
    getD_cons_zero, getD_cons_zero, hsources, drop_succ_cons, drop_succ_cons,
    drop_append_of_le_length hlong, drop_append_of_le_length hlong,
    take_append_of_le_length hinside, take_append_of_le_length hinside]

/-- The extension of the new packet has the elements of its four bytes. -/
theorem oneByteElements_stamped (hversion : first >>> 6 &&& 0x03 = 2)
    (hplain : first >>> 4 &&& 0x01 = 0)
    (hlength : (first :: header).length = 12 + (first &&& 0x0f).toNat * 4) :
    oneByteElements ((first ||| 0x10) :: header ++ extension id seq ++ payload) =
      some (elements ((extension id seq).drop 4)) := by
  obtain ⟨hkind, hnoext, hkind', hext, hsources⟩ := firstByte first hversion hplain
  have hfirst :
      ((first ||| 0x10) :: header ++ extension id seq ++ payload).getD 0 0 = first ||| 0x10 := rfl
  have hfront : ((first ||| 0x10) :: header).length = 12 + (first &&& 0x0f).toNat * 4 := hlength
  have hout : ((first ||| 0x10) :: header ++ extension id seq ++ payload).length =
      12 + (first &&& 0x0f).toNat * 4 + 8 + payload.length := by
    rw [length_append, length_append, hfront]
    rfl
  have hwords : (((first ||| 0x10) :: header ++ extension id seq ++ payload).drop
      (12 + (first &&& 0x0f).toNat * 4 + 4)).take (1 * 4) = (extension id seq).drop 4 := by
    rw [append_assoc, ← hfront, ← drop_drop, drop_left]
    rfl
  rw [oneByteElements]
  simp only [hfirst, hsources, hout, words_extension hfront, profile_extension hfront, hwords]
  exact if_pos ⟨hext, by omega, trivial⟩

end Built

/-- The number of an identifier that has four bits stands in the upper half of its byte. -/
theorem idByte : ∀ id : Fin 15, 1 ≤ id.val →
    (((((BitVec.ofNat 32 id.val) <<< 4) ||| 0x01).setWidth 8 : Byte) >>> 4).toNat = id.val ∧
      ((((BitVec.ofNat 32 id.val) <<< 4) ||| 0x01).setWidth 8 : Byte) &&& 0x0F = 1 := by
  decide

/-- The one element of an extension whose identifier is one of the fourteen. -/
theorem elements_extension {id : BitVec 32} (hlow : 1 ≤ id.toInt) (hhigh : id.toInt ≤ 14)
    (seq : BitVec 16) :
    elements ((extension id seq).drop 4) =
      [⟨id.toInt.toNat, [(seq >>> 8).setWidth 8, seq.setWidth 8]⟩] := by
  obtain ⟨n, hn⟩ : ∃ n : Fin 15, n.val = id.toInt.toNat := ⟨⟨id.toInt.toNat, by omega⟩, rfl⟩
  have hid : id = BitVec.ofNat 32 n.val := by
    refine BitVec.eq_of_toInt_eq ?_
    rw [hn, ← BitVec.ofInt_natCast, BitVec.toInt_ofInt, Int.toNat_of_nonneg (by omega)]
    exact (Int.bmod_eq_of_le (by omega) (by omega)).symm
  obtain ⟨hupper, hlower⟩ := idByte n (by omega)
  rw [← hn, hid]
  show elements [_, (seq >>> 8).setWidth 8, seq.setWidth 8, 0x00] = _
  rw [elements]
  simp only [hupper, hlower]
  rw [if_neg (by omega), if_neg (by simp; omega)]
  show ⟨n.val, _⟩ :: elements [0x00] = _
  rw [elements, elements]
  rfl

/-! ## One packet -/

namespace Call

variable (call : Call)

/-- The bytes of a packet are its first byte, the rest of the header, and the payload. -/
theorem exists_parts : ∃ first header payload, call.packet = first :: header ++ payload ∧
    first = call.packet.getD 0 0 ∧
    (first :: header).length = 12 + (first &&& 0x0f).toNat * 4 := by
  have hheader := call.header
  cases hpacket : call.packet with
  | nil =>
      rw [hpacket] at hheader
      simp at hheader
  | cons first rest =>
      rw [hpacket, getD_cons_zero] at hheader
      refine ⟨first, rest.take (11 + (first &&& 0x0f).toNat * 4),
        rest.drop (11 + (first &&& 0x0f).toNat * 4), ?_, rfl, ?_⟩
      · rw [cons_append, take_append_drop]
      · rw [length_cons] at hheader
        rw [length_cons, length_take]
        omega

/-- **A packet is built inside the array**, and when the identifier is one of the fourteen it is
the stamped one. -/
theorem processOutgoing_eq {twcc : Session} (hid : 0 ≤ twcc.extmapId.toInt) :
    ∃ out, processOutgoing twcc call.now call.newPkt call.packet =
        some (twcc.allocate call.now call.packet.length, some out) ∧
      (1 ≤ twcc.extmapId.toInt → twcc.extmapId.toInt ≤ 14 →
        Stamped twcc.extmapId.toInt twcc.seqNum call.packet out) := by
  obtain ⟨first, header, payload, hpacket, hfirst, hlength⟩ := call.exists_parts
  have hversion := call.version
  have htype := call.payloadType
  have hplain := call.plain
  have hheader := call.header
  have hsize := call.size
  have harray := call.array
  rw [← hfirst] at hversion hplain hheader
  have htotal : call.packet.length = (first :: header).length + payload.length := by
    rw [hpacket, length_append]
  have hlimit : newPktSize = 2048 := rfl
  refine ⟨(first ||| 0x10) :: header ++ extension twcc.extmapId twcc.seqNum ++ payload, ?_, ?_⟩
  · have hroom : 12 + (first &&& 0x0f).toNat * 4 + 8 + payload.length ≤ call.newPkt.length := by
      omega
    have hbuilt := newPacket_eq hlength
      (rfl : (extension twcc.extmapId twcc.seqNum).length = 8) hroom
    have hzero : call.packet[0]? = some first := by rw [hpacket]; rfl
    have hone : call.packet[1]? = some (call.packet.getD 1 0) := by
      rw [getElem?_eq_getElem (by omega), getD_eq_getElem _ _ (by omega)]
    rw [processOutgoing, if_neg (by omega), if_neg (by omega), hzero, bind_some, hone,
      bind_some]
    dsimp only
    rw [if_neg (not_not_intro hversion), if_neg htype, if_neg (by omega),
      if_neg (not_not_intro hplain), if_neg (by omega), hpacket, hbuilt]
    rfl
  · intro hlow hhigh
    rw [hpacket]
    exact
      { view := parseRtp_stamped hversion hplain hlength (by omega)
        csrcs := csrcList_stamped hversion hplain hlength
        element := ⟨_, (oneByteElements_stamped hversion hplain hlength).trans
          (congrArg some (elements_extension hlow hhigh twcc.seqNum)), by
            rw [Int.toNat_of_nonneg (by omega)], rfl⟩ }

end Call

/-! ## All the packets -/

@[simp]
theorem Session.allocate_extmapId (twcc : Session) (now : BitVec 64) (size : ℕ) :
    (twcc.allocate now size).extmapId = twcc.extmapId := rfl

@[simp]
theorem Session.allocate_seqNum (twcc : Session) (now : BitVec 64) (size : ℕ) :
    (twcc.allocate now size).seqNum = twcc.seqNum + 1 := rfl

/-- The history has the packet that has just been sent. -/
theorem Session.allocate_history (twcc : Session) (now : BitVec 64) (size : ℕ) :
    (twcc.allocate now size).history (historyIndex twcc.seqNum) = ⟨twcc.seqNum, now, size⟩ :=
  Function.update_self ..

/-- The calls go on with the next number. -/
theorem processAll_stamped {id : ℤ} (hlow : 1 ≤ id) (hhigh : id ≤ 14) (calls : List Call) :
    ∀ {twcc : Session}, twcc.extmapId.toInt = id →
      AllStamped id twcc.seqNum calls (processAll twcc calls) := by
  induction calls with
  | nil => exact fun _ => ⟨[], rfl, rfl, fun i call hget => by cases hget⟩
  | cons call calls ih =>
      intro twcc hid
      have hpos : 0 ≤ twcc.extmapId.toInt := by omega
      obtain ⟨out, hout, hstamped⟩ := call.processOutgoing_eq hpos
      obtain ⟨done, hdone, hlength, hall⟩ :=
        @ih (twcc.allocate call.now call.packet.length) hid
      refine ⟨(twcc.allocate call.now call.packet.length, some out) :: done, ?_,
        congrArg (· + 1) hlength, ?_⟩
      · rw [processAll, hout, bind_some, hdone]
        rfl
      · intro i later hget
        cases i with
        | zero =>
            cases hget
            rw [BitVec.add_zero]
            refine ⟨_, out, rfl, ?_, ?_, ?_⟩
            · exact hid ▸ hstamped (by omega) (by omega)
            · rw [Session.allocate_history]
            · rw [Session.allocate_history]
        | succ i =>
            have hvalue : twcc.seqNum + BitVec.ofNat 16 (i + 1) =
                (twcc.allocate call.now call.packet.length).seqNum + BitVec.ofNat 16 i := by
              rw [Session.allocate_seqNum, BitVec.ofNat_add, BitVec.add_assoc,
                BitVec.add_comm (BitVec.ofNat 16 i)]
              rfl
            rw [hvalue]
            exact hall i later hget

/-- What an offer is found to say is the identifier of the session. -/
theorem parseOffer_extmapId (twcc : Session) (offer : List Byte) :
    (parseOffer twcc offer).1.extmapId = (parseOffer twcc offer).2 ∨
      (parseOffer twcc offer).2 = -1 := by
  rw [parseOffer]
  split
  case h_1 => exact Or.inl rfl
  case h_2 place hplace =>
    dsimp only
    split
    case isTrue => exact Or.inl rfl
    case isFalse => exact Or.inr rfl

/-- No packet is stamped under another identifier. -/
theorem Stamped.id_bounds {id : ℤ} {value : BitVec 16} {packet out : List Byte}
    (h : Stamped id value packet out) : 1 ≤ id ∧ id ≤ 14 := by
  obtain ⟨element, helements, hid, _⟩ := h.element
  rw [oneByteElements] at helements
  split at helements
  case isTrue =>
    have hmember := Option.some.inj helements ▸ mem_singleton_self element
    have hbounds := elements_id _ element hmember
    omega
  case isFalse => cases helements

/-- **Every packet after an offer is stamped exactly when the identifier in the offer is one of
the fourteen of a one-byte header**, or no packet is sent. -/
theorem stamping_iff (twcc : Session) (offer : List Byte) (calls : List Call) :
    AllStamped (parseOffer twcc offer).2.toInt (parseOffer twcc offer).1.seqNum calls
        (processAll (parseOffer twcc offer).1 calls) ↔
      calls = [] ∨ 1 ≤ (parseOffer twcc offer).2.toInt ∧ (parseOffer twcc offer).2.toInt ≤ 14 := by
  constructor
  · rintro ⟨done, hdone, hlength, hall⟩
    cases calls with
    | nil => exact Or.inl rfl
    | cons call calls =>
        obtain ⟨_, out, _, hstamped, _⟩ := hall 0 call rfl
        exact Or.inr hstamped.id_bounds
  · rintro (rfl | ⟨hlow, hhigh⟩)
    · exact ⟨[], rfl, rfl, fun i call hget => by cases hget⟩
    · refine processAll_stamped hlow hhigh calls ?_
      rcases parseOffer_extmapId twcc offer with hid | hnone
      · rw [hid]
      · rw [hnone] at hlow
        exact absurd hlow (by decide)

/-- `zst_webrtc_twcc_create`. -/
def Session.create : Session := ⟨-1, 1, fun _ => ⟨0, 0, 0⟩⟩

/-- An offer whose identifier needs more than four bits. -/
def wideOffer : List Byte := Rtsp.text "v=0\r\na=extmap:16 " ++ extUri ++ Rtsp.text "\r\n"

/-- A packet that is a header and nothing else. -/
def shortCall : Call where
  packet := [0x80, 96, 0, 1, 0, 0, 0, 0, 0, 0, 0, 7]
  now := 0
  newPkt := replicate newPktSize 0
  array := length_replicate
  version := by decide
  payloadType := by decide
  plain := by decide
  header := by decide
  size := by decide

/-- The identifier of the offer is found, and the packet is built without it. -/
theorem stamping_wideOffer :
    (parseOffer Session.create wideOffer).2 = 16 ∧
      ¬ AllStamped 16 (parseOffer Session.create wideOffer).1.seqNum [shortCall]
        (processAll (parseOffer Session.create wideOffer).1 [shortCall]) := by
  refine ⟨by decide +kernel, ?_⟩
  rintro ⟨done, _, _, hall⟩
  obtain ⟨_, out, _, hstamped, _⟩ := hall 0 shortCall rfl
  exact absurd hstamped.id_bounds.2 (by decide)

end Zstreamer.Twcc

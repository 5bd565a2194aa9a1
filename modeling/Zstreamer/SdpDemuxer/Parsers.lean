/-
# Three parsers of the RTP header

`rtp_depayloader_parse_rtp`, `depayloader_process` of `st2110_21_depayloader.c` and
`sdp_process_rtp_packet` each look for the payload of a packet in their own way.  On every packet
they find the same: the payload with the padding behind it, which none of them takes off.  And on
any bytes at all the payload is a part of them.
-/

import Zstreamer.Rtp.DepayReads
import Zstreamer.SdpDemuxer.Splitting
import Zstreamer.St2110.Payloader

/-! # RTP packets on the wire

A packet of version 2 with all that RFC 3550 lets it have: contributing sources, an extension of so
many words, and padding whose last byte says how long it is.  It is built from what it has, so that
it is well formed; where its payload begins is a number of it.
-/

namespace Zstreamer.Rtp

open Foundation List Option

/-- The bytes of a number of 32 bits. -/
def bytes32 (x : BitVec 32) : List Byte :=
  [(x >>> 24).setWidth 8, (x >>> 16).setWidth 8, (x >>> 8).setWidth 8, x.setWidth 8]

/-- A header extension. -/
structure Extension where
  profile : BitVec 16
  words : List (BitVec 32)
  words_lt : words.length < 2 ^ 16

/-- A packet. -/
structure Wire where
  csrc : List (BitVec 32)
  csrc_le : csrc.length ≤ 15
  extension : Option Extension
  marker : Bool
  payloadType : BitVec 7
  seq : BitVec 16
  timestamp : BitVec 32
  ssrc : BitVec 32
  payload : List Byte
  payload_ne : payload ≠ []
  /-- The bytes of the padding before the one that counts them. -/
  padding : Option (List Byte)
  padding_lt : ∀ fill ∈ padding, fill.length < 255

/-- The extension, if there is one. -/
def extensionBytes : Option Extension → List Byte
  | none => []
  | some e =>
      bytes16 e.profile ++ (bytes16 (BitVec.ofNat 16 e.words.length) ++ e.words.flatMap bytes32)

/-- The padding, if there is any. -/
def paddingBytes : Option (List Byte) → List Byte
  | none => []
  | some fill => fill ++ [BitVec.ofNat 8 (fill.length + 1)]

namespace Wire

variable (w : Wire)

/-- The first byte: version, padding, extension, and how many sources there are. -/
def first : Byte :=
  0x80 ||| (if w.padding.isSome then 0x20 else 0x00) |||
    (if w.extension.isSome then 0x10 else 0x00) ||| BitVec.ofNat 8 w.csrc.length

/-- The second byte. -/
def second : Byte := (if w.marker then 0x80 else 0x00) ||| w.payloadType.setWidth 8

/-- The payload, and the padding behind it. -/
def rest : List Byte := w.payload ++ paddingBytes w.padding

/-- The bytes of a packet. -/
def bytes : List Byte :=
  ([w.first, w.second] ++ bytes16 w.seq ++ bytes32 w.timestamp ++ bytes32 w.ssrc) ++
    (w.csrc.flatMap bytes32 ++ (extensionBytes w.extension ++ w.rest))

/-- Where the extension would begin. -/
def sourcesEnd : ℕ := 12 + w.csrc.length * 4

/-- Where the payload begins. -/
def offset : ℕ :=
  match w.extension with
  | none => w.sourcesEnd
  | some e => w.sourcesEnd + (4 + e.words.length * 4)

/-- What the first two bytes say. -/
theorem first_fields :
    w.first &&& 0xc0 = 0x80 ∧ (w.first &&& 0x0f).toNat = w.csrc.length ∧
      (w.first &&& 0x10 ≠ 0 ↔ w.extension.isSome = true) := by
  have hall : ∀ (padded extended : Bool) (cc : Fin 16),
      let b : Byte := 0x80 ||| (if padded then 0x20 else 0x00) |||
        (if extended then 0x10 else 0x00) ||| BitVec.ofNat 8 cc
      b &&& 0xc0 = 0x80 ∧ (b &&& 0x0f).toNat = cc ∧ (b &&& 0x10 ≠ 0 ↔ extended = true) := by
    decide
  exact hall w.padding.isSome w.extension.isSome ⟨w.csrc.length, Nat.lt_succ_of_le w.csrc_le⟩

theorem second_fields :
    w.second &&& 0x7f = w.payloadType.setWidth 8 ∧
      decide (w.second &&& 0x80 ≠ 0) = w.marker := by
  have hall : ∀ (marker : Bool) (pt : BitVec 7),
      ((if marker then 0x80 else 0x00 : Byte) ||| pt.setWidth 8) &&& 0x7f = pt.setWidth 8 ∧
      decide (((if marker then 0x80 else 0x00 : Byte) ||| pt.setWidth 8) &&& 0x80 ≠ 0) =
        marker := by
    decide +kernel
  exact hall w.marker w.payloadType

end Wire

theorem length_flatMap_bytes32 (words : List (BitVec 32)) :
    (words.flatMap bytes32).length = words.length * 4 := by
  induction words with
  | nil => rfl
  | cons word words ih =>
      rw [flatMap_cons, length_append, ih, length_cons]
      show 4 + words.length * 4 = (words.length + 1) * 4
      omega

theorem getD_add (l : List Byte) (n i : ℕ) : l.getD (n + i) 0 = (l.drop n).getD i 0 := by
  rw [getD_eq_getElem?_getD, getD_eq_getElem?_getD, getElem?_drop]

namespace Wire

variable (w : Wire)

/-- Behind the sources. -/
theorem drop_sourcesEnd : w.bytes.drop w.sourcesEnd = extensionBytes w.extension ++ w.rest := by
  have hlength : (([w.first, w.second] ++ bytes16 w.seq ++ bytes32 w.timestamp ++ bytes32 w.ssrc) ++
      w.csrc.flatMap bytes32).length = w.sourcesEnd := by
    rw [length_append, length_flatMap_bytes32]
    rfl
  rw [bytes, ← append_assoc, drop_left' hlength]

/-- Where the payload begins, there it is. -/
theorem drop_offset : w.bytes.drop w.offset = w.rest := by
  rw [offset]
  cases hextension : w.extension with
  | none => rw [drop_sourcesEnd, hextension, extensionBytes, nil_append]
  | some e =>
      have hlength : (extensionBytes (some e)).length = 4 + e.words.length * 4 := by
        rw [extensionBytes, length_append, length_append, length_flatMap_bytes32]
        show 2 + (2 + _) = _
        omega
      rw [← drop_drop, drop_sourcesEnd, hextension, drop_left' hlength]

theorem rest_ne_nil : w.rest ≠ [] := append_ne_nil_of_left_ne_nil w.payload_ne _

theorem offset_lt : w.offset < w.bytes.length := by
  have hpos := length_pos_iff.mpr w.rest_ne_nil
  rw [← w.drop_offset, length_drop] at hpos
  omega

theorem sourcesEnd_le : w.sourcesEnd ≤ w.offset := by
  rw [offset]
  split
  · exact Nat.le_refl _
  · exact Nat.le_add_right _ _

/-- The number of words of the extension is where the parsers look for it. -/
theorem extension_words {e : Extension} (hextension : w.extension = some e) :
    (be16 (w.bytes.getD (w.sourcesEnd + 2) 0) (w.bytes.getD (w.sourcesEnd + 3) 0)).toNat =
      e.words.length := by
  rw [getD_add, getD_add, w.drop_sourcesEnd, hextension]
  show (be16 ((BitVec.ofNat 16 e.words.length >>> 8).setWidth 8)
    ((BitVec.ofNat 16 e.words.length).setWidth 8)).toNat = e.words.length
  rw [be16_bytes, BitVec.toNat_ofNat, Nat.mod_eq_of_lt e.words_lt]

/-- What is read of the fixed header. -/
theorem fixed_fields :
    be16 (w.bytes.getD 2 0) (w.bytes.getD 3 0) = w.seq ∧
      be32 (w.bytes.getD 4 0) (w.bytes.getD 5 0) (w.bytes.getD 6 0) (w.bytes.getD 7 0) =
        w.timestamp ∧
      be32 (w.bytes.getD 8 0) (w.bytes.getD 9 0) (w.bytes.getD 10 0) (w.bytes.getD 11 0) =
        w.ssrc :=
  ⟨be16_bytes w.seq, be32_bytes w.timestamp, be32_bytes w.ssrc⟩

theorem sourcesEnd_eq : 12 + (w.first &&& 0x0f).toNat * 4 = w.sourcesEnd := by
  rw [w.first_fields.2.1]
  rfl

/-- What the parsers do with a packet that has no extension. -/
theorem plain {w : Wire} (h : w.extension = none) :
    ¬ w.first &&& 0x10 ≠ 0 ∧ w.offset = w.sourcesEnd := by
  refine ⟨fun hextended => ?_, by rw [offset, h]⟩
  have hsome := w.first_fields.2.2.mp hextended
  rw [h] at hsome
  exact Bool.false_ne_true hsome

/-- What they do with one that has. -/
theorem extended {w : Wire} {e : Extension} (h : w.extension = some e) :
    w.first &&& 0x10 ≠ 0 ∧ w.offset = w.sourcesEnd + (4 + e.words.length * 4) :=
  ⟨w.first_fields.2.2.mpr (by rw [h]; rfl), by rw [offset, h]⟩

/-- The view of a packet. -/
def view : View where
  payload := w.rest
  payloadType := w.payloadType.setWidth 8
  marker := w.marker
  seq := w.seq
  timestamp := w.timestamp
  ssrc := w.ssrc

/-- **`rtp_depayloader_parse_rtp` on a packet**: it keeps the padding, and takes no packet of more
than 65535 bytes. -/
theorem parseRtp_bytes :
    parseRtp w.bytes = if w.bytes.length ≤ maxPacket then some w.view else none := by
  have hversion := w.first_fields.1
  obtain ⟨htype, hmarker⟩ := w.second_fields
  obtain ⟨hseq, htimestamp, hssrc⟩ := w.fixed_fields
  have hoffset := w.offset_lt
  have hstart := w.sourcesEnd_le
  have hview : viewAt w.bytes w.offset = w.view := by
    rw [viewAt, view, drop_offset]
    exact congr (congr (congr (congr (congr (congrArg View.mk rfl) htype) hmarker) hseq)
      htimestamp) hssrc
  have hfirst : w.bytes.getD 0 0 = w.first := rfl
  have htwelve : 12 ≤ w.sourcesEnd := Nat.le_add_right 12 _
  rw [parseRtp]
  simp only [hfirst, w.sourcesEnd_eq]
  by_cases hsize : w.bytes.length ≤ maxPacket
  · rw [if_neg (by omega), if_neg (not_not.mpr hversion), if_neg (by omega), if_pos hsize]
    cases hextension : w.extension with
    | none =>
        obtain ⟨hplain, hend⟩ := plain hextension
        rw [if_neg hplain, ← hview, hend]
    | some e =>
        obtain ⟨hflag, hend⟩ := extended hextension
        rw [if_pos hflag, w.extension_words hextension, ← hend, if_neg (by omega),
          if_neg (by omega), hview]
  · rw [if_pos (.inr (by omega)), if_neg hsize]

end Wire

end Zstreamer.Rtp

/-! # What the parsers read -/

namespace Zstreamer.St2110

open Foundation Rtp List Option

/-- The payload of a packet, with checked reads. -/
def checkedPayloadOf (pkt : List Byte) : Option (Option (List Byte)) :=
  let size := pkt.length
  if size < 12 then some none
  else do
    let first ← pkt[0]?
    let offset := 12 + (first &&& 0x0f).toNat * 4
    if first &&& 0x10 ≠ 0 then
      if size < offset + 4 then some none
      else do
        let high ← pkt[offset + 2]?
        let low ← pkt[offset + 3]?
        let offset := offset + (4 + (be16 high low).toNat * 4)
        if size ≤ offset then some none else (behind pkt offset).map some
    else if size ≤ offset then some none
    else (behind pkt offset).map some

/-- **The ST 2110-21 depayloader looks for the payload inside of the packet only.** -/
theorem checkedPayloadOf_eq (pkt : List Byte) : checkedPayloadOf pkt = some (payloadOf pkt) := by
  rw [checkedPayloadOf, payloadOf]
  dsimp only
  by_cases hsize : pkt.length < 12
  · rw [if_pos hsize, if_pos hsize]
  · rw [if_neg hsize, if_neg hsize, getElem?_eq_getD (by omega : 0 < pkt.length) 0]
    dsimp only [bind_eq_bind, bind_some]
    split
    · split
      · rfl
      · rw [getElem?_eq_getD (by omega) 0, getElem?_eq_getD (by omega) 0]
        dsimp only [bind_some]
        split
        · rfl
        · rw [behind_of_le (by omega)]
          rfl
    · split
      · rfl
      · rw [behind_of_le (by omega)]
        rfl

/-- What is found is the end of the packet. -/
theorem suffix_of_payloadOf {pkt payload : List Byte} (h : payloadOf pkt = some payload) :
    payload <:+ pkt := by
  rw [payloadOf] at h
  dsimp only at h
  split at h
  · cases h
  · split at h
    · split at h
      · cases h
      · split at h
        · cases h
        · exact Option.some.inj h ▸ drop_suffix _ _
    · split at h
      · cases h
      · exact Option.some.inj h ▸ drop_suffix _ _

end Zstreamer.St2110

namespace Zstreamer.SdpDemuxer

open Foundation Rtp List Option

theorem suffix_of_parseRtp {packet : List Byte} {view : View} (h : parseRtp packet = some view) :
    view.payload <:+ packet := by
  have hview : ∃ hlen, viewAt packet hlen = view := by
    rw [parseRtp] at h
    dsimp only at h
    split at h
    · cases h
    · split at h
      · cases h
      · split at h
        · cases h
        · split at h
          · split at h
            · cases h
            · split at h
              · cases h
              · exact ⟨_, Option.some.inj h⟩
          · exact ⟨_, Option.some.inj h⟩
  obtain ⟨hlen, rfl⟩ := hview
  exact drop_suffix hlen packet

/-- The demuxer has its payload from inside of the packet. -/
theorem suffix_of_processRtpPacket {data : List Byte} {handed : Handed}
    (h : processRtpPacket data data.length = some (some handed)) : handed.payload <:+ data := by
  rw [processRtpPacket] at h
  split at h
  · cases h
  · obtain ⟨header, -, hrest⟩ := bind_eq_some_iff.mp h
    obtain ⟨offset, -, hoffset⟩ := bind_eq_some_iff.mp hrest
    split at hoffset
    · cases hoffset
    · obtain ⟨payload, hread, heq⟩ := map_eq_some_iff.mp hoffset
      cases heq
      rw [read] at hread
      split at hread
      · rename_i hinside
        have hall : ((data.length : ℤ) - offset).toNat = (data.drop offset).length := by
          rw [length_drop]
          omega
        rw [hall, take_length] at hread
        exact Option.some.inj hread ▸ drop_suffix offset data
      · cases hread

/-- What the demuxer hands over of a packet. -/
def handed (w : Wire) : Handed where
  ssrc := w.ssrc
  payloadType := w.payloadType.setWidth 8
  seq := w.seq
  rtpTs := w.timestamp
  marker := w.marker
  payload := w.rest

section Packets

variable (w : Wire)

theorem payloadOf_bytes : St2110.payloadOf w.bytes = some w.rest := by
  have hoffset := w.offset_lt
  have hstart := w.sourcesEnd_le
  have hfirst : w.bytes.getD 0 0 = w.first := rfl
  have htwelve : 12 ≤ w.sourcesEnd := Nat.le_add_right 12 _
  rw [St2110.payloadOf]
  simp only [hfirst, w.sourcesEnd_eq]
  rw [if_neg (by omega)]
  cases hextension : w.extension with
  | none =>
      obtain ⟨hplain, hend⟩ := Wire.plain hextension
      rw [if_neg hplain, ← hend, if_neg (by omega), w.drop_offset]
  | some e =>
      obtain ⟨hflag, hend⟩ := Wire.extended hextension
      rw [if_pos hflag, w.extension_words hextension, ← hend, if_neg (by omega),
        if_neg (by omega), w.drop_offset]

/-- Where the demuxer finds the payload. -/
theorem payloadOffset_bytes : payloadOffset w.bytes w.first w.bytes.length = some w.offset := by
  have hoffset := w.offset_lt
  rw [payloadOffset]
  simp only [w.sourcesEnd_eq]
  cases hextension : w.extension with
  | none =>
      obtain ⟨hplain, hend⟩ := Wire.plain hextension
      rw [if_neg fun h => hplain h.1, hend]
  | some e =>
      obtain ⟨hflag, hend⟩ := Wire.extended hextension
      have hwords : read w.bytes (w.sourcesEnd + 2) 2 =
          some [w.bytes.getD (w.sourcesEnd + 2) 0, w.bytes.getD (w.sourcesEnd + 3) 0] := by
        rw [read_ne_none (by omega), drop_eq_getElem_cons (by omega),
          drop_eq_getElem_cons (by omega), getD_eq_getElem _ _ (by omega),
          getD_eq_getElem _ _ (by omega)]
        rfl
      rw [if_pos ⟨hflag, by omega⟩, hwords, hend, ← w.extension_words hextension]
      rfl

theorem processRtpPacket_bytes :
    processRtpPacket w.bytes w.bytes.length = some (some (handed w)) := by
  obtain ⟨htype, hmarker⟩ := w.second_fields
  obtain ⟨hseq, htimestamp, hssrc⟩ := w.fixed_fields
  have hoffset := w.offset_lt
  have hstart := w.sourcesEnd_le
  have htwelve : 12 ≤ w.sourcesEnd := Nat.le_add_right 12 _
  have hheader : read w.bytes 0 12 = some (w.bytes.take 12) := read_ne_none (by omega)
  have hpayload : read w.bytes w.offset ((w.bytes.length : ℤ) - w.offset).toNat = some w.rest := by
    have hall : ((w.bytes.length : ℤ) - w.offset).toNat = w.rest.length := by
      rw [← w.drop_offset, length_drop]
      omega
    rw [read_ne_none (by omega), hall, w.drop_offset, take_length]
  have hfirst : (w.bytes.take 12).getD 0 0 = w.first := rfl
  rw [processRtpPacket, if_neg (by omega), hheader, bind_some]
  simp only [hfirst, payloadOffset_bytes, bind_some]
  rw [if_neg (by omega), hpayload]
  exact congrArg (fun h => some (some h))
    (congr (congr (congr (congr (congr (congrArg Handed.mk hssrc) htype) hseq) htimestamp)
      hmarker) rfl)

end Packets

/-- **What the three parsers find.**  Of a packet: its fields, and its payload with the padding; the
one of `rtpdepay` takes packets of at most 65535 bytes.  Of any bytes: a part of them. -/
theorem parsers_find (w : Wire) (data : List Byte) :
    (parseRtp w.bytes = (if w.bytes.length ≤ maxPacket then some w.view else none) ∧
      (St2110.payloadOf w.bytes = some w.rest ∧
        decide (w.bytes.getD 1 0 &&& 0x80 ≠ 0) = w.marker) ∧
      processRtpPacket w.bytes w.bytes.length = some (some (handed w))) ∧
    (checkedParseRtp data = some (parseRtp data) ∧
      ∀ view, parseRtp data = some view → view.payload <:+ data) ∧
    (St2110.checkedPayloadOf data = some (St2110.payloadOf data) ∧
      ∀ payload, St2110.payloadOf data = some payload → payload <:+ data) ∧
    processRtpPacket data data.length ≠ none ∧
      ∀ handed, processRtpPacket data data.length = some (some handed) →
        handed.payload <:+ data :=
  ⟨⟨w.parseRtp_bytes, ⟨payloadOf_bytes w, w.second_fields.2⟩, processRtpPacket_bytes w⟩,
    ⟨checkedParseRtp_eq data, fun _ => suffix_of_parseRtp⟩,
    ⟨St2110.checkedPayloadOf_eq data, fun _ => St2110.suffix_of_payloadOf⟩,
    processRtpPacket_ne_none le_rfl, fun _ => suffix_of_processRtpPacket⟩

/-- A packet with a source, an extension of one word, and three bytes of padding. -/
def paddedPacket : Wire where
  csrc := [7]
  csrc_le := by decide
  extension := some ⟨0xbede, [1], by decide⟩
  marker := true
  payloadType := 96
  seq := 5
  timestamp := 90000
  ssrc := 9
  payload := [0x65, 0x88]
  payload_ne := by decide
  padding := some [0, 0]
  padding_lt := by decide

/-- No parser takes the padding off. -/
theorem padding_kept :
    (parseRtp paddedPacket.bytes).map View.payload ≠ some paddedPacket.payload ∧
      St2110.payloadOf paddedPacket.bytes ≠ some paddedPacket.payload ∧
      (processRtpPacket paddedPacket.bytes paddedPacket.bytes.length).map
          (Option.map Handed.payload) ≠ some (some paddedPacket.payload) := by
  decide

end Zstreamer.SdpDemuxer

/-
# What the SDP demuxer pushes

Item by item: NAL units of their own and those of aggregation packets as they are, and of
fragments what was gathered in an array of 150000 bytes, behind a header that is made up
from the fragment.  In H.265 the type of the fragment stays where the type of the NAL unit
belongs.
-/

import Zstreamer.SdpDemuxer.AudioUnits

namespace Zstreamer.SdpDemuxer

open Foundation Rtp List

/-! ## What is gathered of fragments -/

/-- The data of a fragment is gathered when there is room for all of it. -/
def fitPiece (nal piece : List Byte) : List Byte :=
  if piece ≠ [] ∧ nal.length + piece.length ≤ maxFuAccum then nal ++ piece else nal

/-- The data of some fragments. -/
def gathered (header : List Byte) (pieces : List (List Byte)) : List Byte := pieces.foldl fitPiece header

/-- What is pushed of it. -/
def gatheredFrame (headerLen : ℕ) (nal : List Byte) : List (List Byte) :=
  if nal.length > headerLen then [startCode true ++ nal] else []

theorem length_fitPiece_le {nal : List Byte} (hnal : nal.length ≤ maxFuAccum) (piece : List Byte) :
    (fitPiece nal piece).length ≤ maxFuAccum := by
  rw [fitPiece]
  split
  case isTrue hfits =>
    rw [length_append]
    exact hfits.2
  case isFalse => exact hnal

theorem length_gathered_le {header : List Byte} (hheader : header.length ≤ maxFuAccum)
    (pieces : List (List Byte)) : (gathered header pieces).length ≤ maxFuAccum := by
  induction pieces generalizing header with
  | nil => exact hheader
  | cons piece pieces ih => exact ih (length_fitPiece_le hheader piece)

/-- When there is room for all of it, nothing is left out. -/
theorem gathered_eq {header : List Byte} {pieces : List (List Byte)}
    (hfits : (header ++ pieces.flatten).length ≤ maxFuAccum) :
    gathered header pieces = header ++ pieces.flatten := by
  induction pieces generalizing header with
  | nil => exact (append_nil header).symm
  | cons piece pieces ih =>
      rw [flatten_cons, ← append_assoc] at hfits ⊢
      have hpiece : fitPiece header piece = header ++ piece := by
        rw [fitPiece]
        split
        case isTrue => rfl
        case isFalse hlacks =>
          rw [length_append, length_append] at hfits
          have hnil : piece = [] := by
            by_contra hne
            exact hlacks ⟨hne, by omega⟩
          rw [hnil, append_nil]
      rw [← hpiece] at hfits ⊢
      exact ih hfits

/-- The header of the NAL unit, as the SDP demuxer takes it from a fragment. -/
def rebuiltHeader : Codec → List Byte → List Byte
  | .h265, header => [(header.getD 0 0 &&& 0x81) ||| (49 <<< 1),
      (header.getD 1 0 &&& 0x81) ||| (((header.getD 0 0 >>> 1) &&& 0x3f) <<< 1)]
  | _, header => [header.getD 0 0 &&& 0x7f]

/-- What the SDP demuxer pushes for an item. -/
def Item.frames (codec : Codec) : Item → List (List Byte)
  | single nal => [startCode true ++ nal]
  | aggregate _ nals => nals.map fun nal => startCode true ++ nal
  | fragments header first others =>
      gatheredFrame codec.layout.nalHeader (gathered (rebuiltHeader codec header) (first :: others))
  | audio units =>
      aacLoop (2 + (units.flatMap AudioUnit.header ++ units.flatMap AudioUnit.data).length)
        (units.flatMap AudioUnit.header ++ units.flatMap AudioUnit.data)

/-! ## Fragments -/

namespace Depacketizer

/-- The bytes of a fragment of H.264, as the SDP demuxer reads them. -/
theorem read_fragment_h264 : ∀ (b : Byte) (first last : Bool),
    ((b &&& 0xe0) ||| 28) &&& 0x1f = (28 : Byte) ∧
    decide ((((b &&& 0x1f) ||| fuFlags first last) >>> 7) &&& 1 ≠ 0) = first ∧
    decide ((((b &&& 0x1f) ||| fuFlags first last) >>> 6) &&& 1 ≠ 0) = last ∧
    (((((b &&& 0xe0) ||| 28) >>> 5) &&& 0x03) <<< 5) |||
      (((b &&& 0x1f) ||| fuFlags first last) &&& 0x1f) = b &&& 0x7f := by
  decide +kernel

/-- The bytes of a fragment of H.265, as the SDP demuxer reads them. -/
theorem read_fragment_h265 : ∀ (b : Byte) (first last : Bool),
    (((b &&& 0x81) ||| (49 <<< 1)) >>> 1) &&& 0x3f = (49 : Byte) ∧
    decide (((((b >>> 1) &&& 0x3f) ||| fuFlags first last) >>> 7) &&& 1 ≠ 0) = first ∧
    decide (((((b >>> 1) &&& 0x3f) ||| fuFlags first last) >>> 6) &&& 1 ≠ 0) = last ∧
    (((b >>> 1) &&& (0x3f : Byte)) ||| fuFlags first last) &&& (0x3f : Byte) =
      (b >>> 1) &&& (0x3f : Byte) := by
  decide +kernel

/-- The type in a payload header of H.265 is in its first byte. -/
theorem type_h265 (high low : Byte) :
    (be16 high low >>> 9) &&& (0x3f : BitVec 16) = ((high >>> 1) &&& (0x3f : Byte)).setWidth 16 := by
  rw [be16]
  ext i hi
  interval_cases i <;> simp

/-- A fragment, as the SDP demuxer reads it. -/
theorem depacketize_fragment {codec : Codec} {header : List Byte} (hvideo : codec = .h264 ∨ codec = .h265)
    (hlength : header.length = codec.layout.nalHeader) (t : Depacketizer) (rtpTs : BitVec 32)
    (first last : Bool) (data : List Byte) :
    t.depacketize codec (codec.layout.header header first last ++ data) rtpTs =
      t.depacketizeFragment rtpTs first last (rebuiltHeader codec header) data := by
  rcases hvideo with rfl | rfl
  · obtain ⟨b, rfl⟩ := length_eq_one_iff.mp hlength
    obtain ⟨htype, hfirst, hlast, hheader⟩ := read_fragment_h264 b first last
    rw [depacketize, depacketizeH264]
    simp only [Codec.layout, layoutH264, cons_append, nil_append, getD_cons_zero,
      getD_cons_succ, length_cons, drop_succ_cons, drop_zero, htype, hfirst,
      hlast, hheader, rebuiltHeader]
    rw [if_neg (by omega), if_neg (by decide), if_pos ⟨trivial, by omega⟩]
  · obtain ⟨b, c, rfl⟩ := length_eq_two.mp hlength
    obtain ⟨htype, hfirst, hlast, hheader⟩ := read_fragment_h265 b first last
    rw [depacketize, depacketizeH265]
    simp only [Codec.layout, layoutH265, cons_append, nil_append, getD_cons_zero,
      getD_cons_succ, length_cons, drop_succ_cons, drop_zero, type_h265, htype,
      high_be16, low_be16, hfirst, hlast, hheader, rebuiltHeader]
    rw [if_neg (by omega), if_pos (by decide), if_neg (by omega)]

theorem length_rebuiltHeader {codec : Codec} (header : List Byte) :
    (rebuiltHeader codec header).length = codec.layout.nalHeader := by
  cases codec <;> rfl

/-- The fragments of a NAL unit are being gathered. -/
structure Gathers (rtpTs : BitVec 32) (nal : List Byte) (t : Depacketizer) : Prop where
  source : t.fuAccumSsrc = t.ssrc
  time : t.fuAccumTs = rtpTs
  nal : t.fuAccum = nal

theorem gathers_startFragment (t : Depacketizer) (rtpTs : BitVec 32) (header : List Byte) :
    (t.startFragment rtpTs header).Gathers rtpTs header := ⟨rfl, rfl, rfl⟩

theorem Gathers.copyFragment {rtpTs : BitVec 32} {nal : List Byte} {t : Depacketizer}
    (h : t.Gathers rtpTs nal) (piece : List Byte) :
    (t.copyFragment rtpTs piece).Gathers rtpTs (fitPiece nal piece) := by
  obtain ⟨hsource, htime, rfl⟩ := h
  rw [Depacketizer.copyFragment, fitPiece]
  by_cases hfits : piece ≠ [] ∧ t.fuAccum.length + piece.length ≤ maxFuAccum
  · rw [if_pos hfits, if_pos ⟨⟨hsource, htime⟩, hfits⟩]
    exact ⟨hsource, htime, rfl⟩
  · rw [if_neg hfits, if_neg fun hand => hfits hand.2]
    exact ⟨hsource, htime, rfl⟩

theorem Gathers.endFragment {rtpTs : BitVec 32} {nal : List Byte} {t : Depacketizer}
    (h : t.Gathers rtpTs nal) (headerLen : ℕ) :
    (t.endFragment headerLen).2.map Frame.data = gatheredFrame headerLen nal := by
  obtain ⟨-, -, rfl⟩ := h
  rw [Depacketizer.endFragment, gatheredFrame]
  split <;> rfl

/-- The fragments behind the first one. -/
theorem Gathers.depacketizeAll {codec : Codec} (hvideo : codec = .h264 ∨ codec = .h265)
    {header : List Byte} (hlength : header.length = codec.layout.nalHeader) {rtpTs : BitVec 32}
    {others : List (List Byte)} (hothers : others ≠ []) {nal : List Byte} {t : Depacketizer}
    (h : t.Gathers rtpTs nal) :
    (t.depacketizeAll codec (((flagLast others).map fun entry =>
      codec.layout.header header false entry.2 ++ entry.1).map fun payload => (payload, rtpTs))).2.map
        Frame.data = gatheredFrame codec.layout.nalHeader (gathered nal others) := by
  induction others using flagLast.induct generalizing nal t with
  | case1 => exact absurd rfl hothers
  | case2 piece =>
      rw [flagLast, map_singleton, map_singleton, Depacketizer.depacketizeAll,
        Depacketizer.depacketizeAll, depacketize_fragment hvideo hlength, depacketizeFragment,
        append_nil]
      dsimp only
      rw [if_neg Bool.false_ne_true, if_pos rfl, (h.copyFragment piece).endFragment,
        length_rebuiltHeader]
      rfl
  | case3 piece next rest ih =>
      rw [flagLast_cons piece (cons_ne_nil next rest), map_cons, map_cons,
        Depacketizer.depacketizeAll, depacketize_fragment hvideo hlength, depacketizeFragment]
      dsimp only
      rw [if_neg Bool.false_ne_true, if_neg Bool.false_ne_true, nil_append]
      exact ih (cons_ne_nil next rest) (h.copyFragment piece)

/-- All fragments of a NAL unit. -/
theorem depacketizeAll_fragments {codec : Codec} (hvideo : codec = .h264 ∨ codec = .h265)
    {header : List Byte} (hlength : header.length = codec.layout.nalHeader) (first : List Byte)
    (others : List (List Byte)) (rtpTs : BitVec 32) (t : Depacketizer) :
    (t.depacketizeAll codec (((Item.fragments header first others).payloads codec).map
      fun payload => (payload, rtpTs))).2.map Frame.data =
        (Item.fragments header first others).frames codec := by
  have hstarted := (t.gathers_startFragment rtpTs (rebuiltHeader codec header)).copyFragment first
  rw [Item.payloads, map_cons, Depacketizer.depacketizeAll, depacketize_fragment hvideo hlength,
    depacketizeFragment]
  dsimp only
  rw [if_pos rfl]
  cases others with
  | nil =>
      rw [if_pos isEmpty_nil, flagLast, map_nil, map_nil,
        Depacketizer.depacketizeAll, append_nil, hstarted.endFragment, length_rebuiltHeader]
      rfl
  | cons next rest =>
      rw [isEmpty_cons, if_neg Bool.false_ne_true, nil_append,
        hstarted.depacketizeAll hvideo hlength (cons_ne_nil next rest)]
      rfl

end Depacketizer

/-! ## Aggregation packets -/

namespace Depacketizer

theorem depacketize_aggregate {codec : Codec} {header : List Byte} {nals : List (List Byte)}
    (hheader : AggregateHeader codec header) (hnals : ∀ nal ∈ nals, nal.length < 65536)
    (t : Depacketizer) (rtpTs : BitVec 32) :
    t.depacketize codec (header ++ nals.flatMap sized) rtpTs =
      (t, nals.map fun nal => nalFrame nal rtpTs) := by
  have hunits : aggregationLoop (header ++ nals.flatMap sized).length (nals.flatMap sized) = nals :=
    aggregationLoop_sized hnals (by rw [length_append]; omega)
  cases codec with
  | h264 =>
      obtain ⟨b, rfl, htype⟩ := hheader
      rw [depacketize, depacketizeH264]
      simp only [cons_append, nil_append, getD_cons_zero, drop_succ_cons,
        drop_zero, length_cons, htype] at hunits ⊢
      rw [if_neg (by omega), if_neg (by decide), if_neg fun hand => (by decide : ¬ (24 : Byte) = 28) hand.1,
        if_pos trivial, hunits]
  | h265 =>
      obtain ⟨b, c, rfl, htype⟩ := hheader
      rw [depacketize, depacketizeH265]
      simp only [cons_append, nil_append, getD_cons_zero, getD_cons_succ,
        drop_succ_cons, drop_zero, length_cons, type_h265, htype] at hunits ⊢
      rw [if_neg (by omega), if_neg (by decide), if_pos (by decide), hunits]
  | aac => exact hheader.elim
  | pcm => exact hheader.elim

/-- A NAL unit in a packet of its own. -/
theorem depacketize_single {codec : Codec} {nal : List Byte} (hnal : Carriable codec nal)
    (t : Depacketizer) (rtpTs : BitVec 32) :
    t.depacketize codec nal rtpTs = (t, [nalFrame nal rtpTs]) := by
  cases codec with
  | h264 =>
      obtain ⟨hne, -, htype⟩ := hnal
      rw [depacketize, depacketizeH264]
      dsimp only
      rw [if_neg (not_lt.mpr (length_pos_iff.mpr hne)), if_pos htype]
  | h265 =>
      obtain ⟨hlength, haggregate, hfragment⟩ := hnal
      have hwiden : ∀ x : Byte, (x ≠ 49 → x.setWidth 16 ≠ (49 : BitVec 16)) ∧
          (x ≠ 48 → x.setWidth 16 ≠ (48 : BitVec 16)) := by decide +kernel
      rw [depacketize, depacketizeH265]
      simp only [type_h265]
      rw [if_neg (not_lt.mpr hlength), if_neg ((hwiden _).1 hfragment),
        if_neg ((hwiden _).2 haggregate)]
  | aac => exact hnal.elim
  | pcm => exact hnal.elim

theorem depacketize_audio {units : List AudioUnit} (hvalid : (Item.audio units).Valid .aac)
    (t : Depacketizer) (rtpTs : BitVec 32) :
    t.depacketize .aac (bytes16 (BitVec.ofNat 16 (16 * units.length)) ++
      (units.flatMap AudioUnit.header ++ units.flatMap AudioUnit.data)) rtpTs =
        (t, ((Item.audio units).frames .aac).map fun au => ⟨au, rtpTs⟩) := by
  obtain ⟨-, hne, hcount, -⟩ := hvalid
  have hpos := length_pos_iff.mpr hne
  have hheaders := length_headers units
  have hbits : (be16 ((BitVec.ofNat 16 (16 * units.length) >>> 8).setWidth 8)
      ((BitVec.ofNat 16 (16 * units.length)).setWidth 8)).toNat = 16 * units.length := by
    rw [be16_bytes, BitVec.toNat_ofNat, Nat.mod_eq_of_lt hcount]
  rw [depacketize, depacketizeAac]
  simp only [bytes16, cons_append, nil_append, getD_cons_zero, getD_cons_succ,
    drop_succ_cons, drop_zero, length_cons, length_append, hbits, Item.frames]
  rw [if_neg (by omega), if_neg (by omega)]
  congr 3
  omega

/-- What is pushed for an item does not depend on what was there before. -/
theorem depacketizeAll_item {codec : Codec} {item : Item} (hvalid : item.Valid codec)
    (rtpTs : BitVec 32) (t : Depacketizer) :
    (t.depacketizeAll codec ((item.payloads codec).map fun payload => (payload, rtpTs))).2.map
      Frame.data = item.frames codec := by
  cases item with
  | single nal =>
      rw [Item.payloads, map_singleton, depacketizeAll, depacketizeAll,
        depacketize_single hvalid]
      rfl
  | aggregate header nals =>
      rw [Item.payloads, map_singleton, depacketizeAll, depacketizeAll,
        depacketize_aggregate hvalid.1 fun nal hnal => (hvalid.2.2 nal hnal).2]
      dsimp only
      rw [append_nil, map_map]
      rfl
  | fragments header first others =>
      have hvideo : codec = .h264 ∨ codec = .h265 := by
        cases codec with
        | h264 => exact .inl rfl
        | h265 => exact .inr rfl
        | aac => exact hvalid.2.elim
        | pcm => exact hvalid.2.elim
      exact depacketizeAll_fragments hvideo hvalid.1 first others rtpTs t
  | audio units =>
      obtain rfl := hvalid.1
      rw [Item.payloads, map_singleton, depacketizeAll, depacketizeAll,
        depacketize_audio hvalid]
      dsimp only
      rw [append_nil, map_map]
      exact map_id _

theorem depacketizeAll_items {codec : Codec} {items : List Item}
    (hvalid : ∀ item ∈ items, item.Valid codec) (rtpTs : BitVec 32) (t : Depacketizer) :
    (t.depacketizeAll codec ((items.flatMap (Item.payloads codec)).map
      fun payload => (payload, rtpTs))).2.map Frame.data = items.flatMap (Item.frames codec) := by
  induction items generalizing t with
  | nil => rfl
  | cons item items ih =>
      rw [flatMap_cons, map_append, depacketizeAll_append, map_append,
        depacketizeAll_item (hvalid item mem_cons_self),
        ih fun other hother => hvalid other (mem_cons_of_mem item hother), flatMap_cons]

end Depacketizer

/-! ## Streams -/

/-- The payload and the time stamp of a packet. -/
def timed (rtp : View) : List Byte × BitVec 32 := (rtp.payload, rtp.timestamp)

/-- Packets that bring groups of items: they follow each other, and the groups are valid. -/
structure Arrives (codec : Codec) (groups : List (List Item)) (packets : List Rtp.Packet)
    (parts : List (List View)) : Prop where
  valid : ∀ items ∈ groups, ∀ item ∈ items, item.Valid codec
  brings : List.Forall₂ (Brings codec) parts groups
  chain : parts.flatten.IsChain Follows
  parsed : Parsed packets parts.flatten

/-- The packets of a group have one time stamp. -/
theorem same_time {views : List View} (hmarker : Ending View.marker views)
    (hchain : views.IsChain Follows) : ∃ rtpTs, ∀ rtp ∈ views, rtp.timestamp = rtpTs := by
  induction hmarker with
  | @last rtp => exact ⟨rtp.timestamp, fun other hother => by rw [mem_singleton.mp hother]⟩
  | @more rtp views hends hrest ih =>
      obtain ⟨hfirst, hchain⟩ := isChain_cons.mp hchain
      obtain ⟨rtpTs, hall⟩ := ih hchain
      refine ⟨rtpTs, fun other hother => ?_⟩
      rcases mem_cons.mp hother with rfl | hother
      · obtain ⟨next, rest, rfl⟩ := exists_cons_of_ne_nil hrest.ne_nil
        rw [← (hfirst next rfl).2 hends, hall next mem_cons_self]
      · exact hall other hother

/-- **What the SDP demuxer pushes** is what it pushes for every item. -/
theorem Arrives.frames {codec : Codec} {groups : List (List Item)} {packets : List Rtp.Packet}
    {parts : List (List View)} (h : Arrives codec groups packets parts) (t : Depacketizer) :
    (t.depacketizeAll codec (parts.flatten.map timed)).2.map Frame.data =
      groups.flatten.flatMap (Item.frames codec) := by
  obtain ⟨hvalid, hbrings, hchain, -⟩ := h
  induction hbrings generalizing t with
  | nil => rfl
  | @cons views items parts groups hone _ ih =>
      rw [flatten_cons] at hchain
      obtain ⟨hfirst, hothers, -⟩ := isChain_append.mp hchain
      obtain ⟨rtpTs, htime⟩ := same_time hone.marker hfirst
      have htimed : views.map timed =
          (items.flatMap (Item.payloads codec)).map fun payload => (payload, rtpTs) := by
        rw [← hone.payloads, map_map]
        exact map_congr_left fun rtp hrtp => Prod.ext rfl (htime rtp hrtp)
      rw [flatten_cons, map_append, htimed, Depacketizer.depacketizeAll_append,
        map_append, Depacketizer.depacketizeAll_items (hvalid items mem_cons_self),
        ih _ (fun other hother => hvalid other (mem_cons_of_mem items hother)) hothers,
        flatten_cons, flatMap_append]

end Zstreamer.SdpDemuxer

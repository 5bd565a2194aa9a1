/-
# The SDP demuxer and the depayloader

Both turn the packets of a stream into NAL units or AAC frames.  They agree about a stream
if and only if they agree about every item of it, since the SDP demuxer never pushes more
than the depayloader: about NAL units of their own and aggregation packets always, about
fragments of H.264 that fit into its array, never about fragments of H.265, and about AAC
when a packet reads both ways.
-/

import Zstreamer.Rtp.RoundTrip
import Zstreamer.SdpDemuxer.Gathering

namespace Zstreamer.SdpDemuxer

open Foundation Rtp List

/-- The two push the same: the same bytes of video, or the same AAC frames. -/
def Same (codec : Codec) (frames : List Frame) (out : List Delivery) : Prop :=
  if codec = .aac then frames.map Frame.data = out.map Delivery.data
  else (frames.map Frame.data).flatten = (out.map Delivery.data).flatten

instance (codec : Codec) (frames : List Frame) (out : List Delivery) :
    Decidable (Same codec frames out) :=
  inferInstanceAs (Decidable (if codec = .aac then frames.map Frame.data = out.map Delivery.data
    else (frames.map Frame.data).flatten = (out.map Delivery.data).flatten))

/-- The two agree about an item. -/
def Item.Agrees (codec : Codec) : Item → Prop
  | single _ => True
  | aggregate _ _ => True
  | fragments header first others =>
      let nal := header ++ (first ++ others.flatten)
      codec = .h264 ∧ nal.getD 0 0 &&& 0x80 = 0 ∧ 1 < nal.length ∧ nal.length ≤ maxFuAccum
  | audio units => ReadsBothWays units

/-! ## The depayloader -/

/-- The bytes of an item, as the depayloader has them. -/
def Item.bytes (item : Item) : List Byte := item.cut.content

/-- What the depayloader pushes of video is the bytes of every item. -/
theorem Arrives.video {codec : Codec} {groups : List (List Item)} {packets : List Rtp.Packet}
    {parts : List (List View)} (h : Arrives codec groups packets parts) (hvideo : codec ≠ .aac)
    {d : Depayloader} (hready : d.Ready codec) (haccepts : d.Accepts parts.flatten) :
    ((d.pushAll packets).2.map Delivery.data).flatten = groups.flatten.flatMap Item.bytes := by
  obtain ⟨hvalid, hbrings, hchain, hparsed⟩ := h
  have hconveys : List.Forall₂ (Conveys codec) parts.flatten
      (stream (groups.map fun items => items.map Item.cut)) := by
    clear hchain hparsed haccepts
    induction hbrings with
    | nil => exact .nil
    | @cons views items parts groups hone _ ih =>
        rw [flatten_cons, map_cons, stream, flatMap_cons]
        exact rel_append (hone.conveys (hvalid items mem_cons_self) hvideo)
          (ih fun other hother => hvalid other (mem_cons_of_mem items hother))
  have hgroups : ∀ g ∈ groups.map (fun items => items.map Item.cut), g ≠ [] := by
    intro g hg hnil
    obtain ⟨items, hitems, rfl⟩ := mem_map.mp hg
    obtain ⟨views, -, hone⟩ := forall₂_mem_right hbrings hitems
    have hpayloads := hone.payloads
    rw [map_eq_nil_iff.mp hnil, flatMap_nil, map_eq_nil_iff] at hpayloads
    exact hone.marker.ne_nil hpayloads
  rw [Depayloader.groups_come_back hparsed hconveys hchain hgroups hready haccepts, map_map]
  clear * -
  induction groups with
  | nil => rfl
  | cons items groups ih =>
      rw [map_cons, flatten_cons, ih, flatten_cons, flatMap_append]
      congr 1
      exact flatMap_map _ _ _

/-- The AAC frames of an item. -/
def Item.audioFrames : Item → List (List Byte)
  | audio units => units.map AudioUnit.data
  | _ => []

theorem Item.Valid.exists_audio {item : Item} (h : item.Valid .aac) :
    ∃ units, item = .audio units := by
  cases item with
  | single => exact h.elim
  | aggregate => exact h.1.elim
  | fragments => exact h.2.elim
  | audio units => exact ⟨units, rfl⟩

/-- A packet of AAC that the depayloader accepts. -/
theorem pushPacket_audio {d : Depayloader} (hcodec : d.codec = .aac) {p : Rtp.Packet} {rtp : View}
    (hparse : parseRtp p.data = some rtp) (haccepts : ¬ d.Ignores rtp) {units : List AudioUnit}
    (hvalid : (Item.audio units).Valid .aac)
    (hpayload : [rtp.payload] = (Item.audio units).payloads .aac) :
    (d.pushPacket p).out.map Delivery.data = units.map AudioUnit.data ∧
      (d.pushPacket p).depayloader.codec = .aac ∧
      ∀ other, (d.pushPacket p).depayloader.Ignores other → d.Ignores other := by
  have hlink := (d.counted p).link_follow rtp.seq
  have hcodec' : ((d.counted p).follow rtp.seq).codec = .aac := (congrArg Prod.fst hlink).trans hcodec
  obtain ⟨hout, hafter⟩ := depayAac_audio hvalid hpayload ((d.counted p).follow rtp.seq)
  rw [Depayloader.pushPacket_eq hparse haccepts, Depayloader.depay, hcodec']
  have hall := hafter.trans hlink
  refine ⟨hout, (congrArg Prod.fst hall).trans hcodec, fun other hignores => ?_⟩
  have htype := congrArg (fun link => link.2.1) hall
  have hfilter := congrArg (fun link => link.2.2.1) hall
  have hssrc := congrArg (fun link => link.2.2.2.1) hall
  dsimp only [Depayloader.link] at htype hfilter hssrc
  dsimp only at hignores
  rw [Depayloader.Ignores, htype, hfilter, hssrc] at hignores
  exact hignores

/-- What the depayloader pushes of AAC are the frames of every item. -/
theorem Arrives.audio {groups : List (List Item)} {packets : List Rtp.Packet}
    {parts : List (List View)} (h : Arrives .aac groups packets parts) {d : Depayloader}
    (hready : d.Ready .aac) (haccepts : d.Accepts parts.flatten) :
    (d.pushAll packets).2.map Delivery.data = groups.flatten.flatMap Item.audioFrames := by
  obtain ⟨hvalid, hbrings, -, hparsed⟩ := h
  have hpayloads : parts.flatten.map View.payload =
      groups.flatten.flatMap (Item.payloads .aac) := by
    clear * - hbrings
    induction hbrings with
    | nil => rfl
    | cons hone _ ih =>
        rw [flatten_cons, map_append, hone.payloads, ih, flatten_cons,
          flatMap_append]
  have hitems : ∀ item ∈ groups.flatten, item.Valid .aac := by
    intro item hitem
    obtain ⟨items, hmem, hitem⟩ := mem_flatten.mp hitem
    exact hvalid items hmem item hitem
  have haccepts := haccepts.accepts
  have hcodec := hready.codec
  generalize groups.flatten = items at hpayloads hitems
  generalize parts.flatten = views at hpayloads haccepts hparsed
  clear * - hpayloads hitems haccepts hparsed hcodec
  induction hparsed generalizing items d with
  | nil =>
      cases items with
      | nil => rfl
      | cons item items =>
          obtain ⟨units, rfl⟩ := (hitems item mem_cons_self).exists_audio
          cases hpayloads
  | @cons p rtp packets views hparse _ ih =>
      cases items with
      | nil => cases hpayloads
      | cons item items =>
          have hvalid := hitems item mem_cons_self
          obtain ⟨units, rfl⟩ := hvalid.exists_audio
          obtain ⟨hpayload, hrest⟩ := List.cons.inj hpayloads
          obtain ⟨hout, hcodec', hignores⟩ := pushPacket_audio hcodec hparse
            (haccepts rtp mem_cons_self) hvalid (singleton_inj.mpr hpayload)
          rw [Depayloader.pushAll, map_append, hout, flatMap_cons,
            ih hcodec' items (fun other hother => hitems other (mem_cons_of_mem _ hother)) hrest
              fun other hother hignored =>
                haccepts other (mem_cons_of_mem rtp hother) (hignores other hignored)]
          rfl

/-! ## Item by item -/

section Fragments

variable {codec : Codec} {header first : List Byte} {others : List (List Byte)}

theorem bytes_fragments (header first : List Byte) (others : List (List Byte)) :
    (Item.fragments header first others).bytes =
      startCode true ++ (header ++ (first ++ others.flatten)) := by
  rw [Item.bytes, Item.cut, Cut.content, append_assoc, append_assoc]

/-- The header is made up rightly for H.264 without the forbidden bit, and never for H.265. -/
theorem rebuiltHeader_eq_iff (hvideo : codec ≠ .aac) (hlength : header.length = codec.layout.nalHeader)
    {rest : List Byte} (hnal : Carriable codec (header ++ rest)) :
    rebuiltHeader codec header = header ↔
      codec = .h264 ∧ (header ++ rest).getD 0 0 &&& 0x80 = 0 := by
  cases codec with
  | h264 =>
      obtain ⟨b, rfl⟩ := length_eq_one_iff.mp hlength
      have hbit : ∀ b : Byte, b &&& 0x7f = b ↔ b &&& 0x80 = 0 := by decide +kernel
      exact (singleton_inj.trans (hbit b)).trans (and_iff_right rfl).symm
  | h265 =>
      obtain ⟨b, c, rfl⟩ := length_eq_two.mp hlength
      have htype : ∀ b : Byte, (b &&& 0x81) ||| (49 <<< 1) = b → (b >>> 1) &&& 0x3f = 49 := by
        decide +kernel
      refine iff_of_false (fun hsame => ?_) (fun hand => nomatch hand.1)
      exact hnal.2.2 (htype b (List.cons.inj hsame).1)
  | aac => exact absurd rfl hvideo
  | pcm => exact hnal.elim

/-- What is gathered of a NAL unit. -/
theorem gatheredFrame_spec (first : List Byte) (others : List (List Byte)) {made : List Byte} (hmade : made.length = header.length)
    (hheader : header.length ≤ maxFuAccum) :
    (gatheredFrame header.length (gathered made (first :: others))).flatten.length ≤
        (startCode true ++ (header ++ (first ++ others.flatten))).length ∧
      ((gatheredFrame header.length (gathered made (first :: others))).flatten =
          startCode true ++ (header ++ (first ++ others.flatten)) ↔
        made = header ∧ header.length < (header ++ (first ++ others.flatten)).length ∧
          (header ++ (first ++ others.flatten)).length ≤ maxFuAccum) := by
  have hlong := length_gathered_le (hmade.trans_le hheader) (first :: others)
  have hlengths : (header ++ (first ++ others.flatten)).length =
      (made ++ (first :: others).flatten).length := by
    simp only [length_append, flatten_cons, hmade]
  by_cases hfits : (header ++ (first ++ others.flatten)).length ≤ maxFuAccum
  · rw [gathered_eq (hlengths ▸ hfits), gatheredFrame, ← hlengths]
    split
    case isTrue hmore =>
      rw [flatten_singleton]
      have hless : (startCode true ++ (made ++ (first :: others).flatten)).length ≤
          (startCode true ++ (header ++ (first ++ others.flatten))).length := by
        simp only [length_append, flatten_cons, hmade, le_refl]
      refine ⟨hless, fun hsame => ?_, fun hall => ?_⟩
      · have hmades := append_cancel_left hsame
        exact ⟨(append_inj hmades hmade).1, hmore, hlengths ▸ hfits⟩
      · rw [hall.1]
        rfl
    case isFalse hshort =>
      exact ⟨Nat.zero_le _, fun hsame => (by cases hsame), fun hmore => absurd hmore.2.1 hshort⟩
  · rw [gatheredFrame]
    have hflat : ∀ l : List Byte, l.length ≤ maxFuAccum →
        (if l.length > header.length then [startCode true ++ l] else []).flatten.length <
          (startCode true ++ (header ++ (first ++ others.flatten))).length := by
      intro l hl
      split
      · rw [flatten_singleton, length_append, length_append]
        omega
      · rw [length_append]
        exact Nat.lt_of_lt_of_le (Nat.zero_lt_succ 3) (Nat.le_add_right _ _)
    have hless := hflat _ hlong
    exact ⟨hless.le, fun hsame => absurd (congrArg List.length hsame) hless.ne,
      fun hall => absurd hall.2.2 hfits⟩

end Fragments

/-- The SDP demuxer pushes no more of an item than the depayloader, and all of it if they agree. -/
theorem Item.Valid.video_agrees {codec : Codec} {item : Item} (h : item.Valid codec)
    (hvideo : codec ≠ .aac) :
    (item.frames codec).flatten.length ≤ item.bytes.length ∧
      ((item.frames codec).flatten = item.bytes ↔ item.Agrees codec) := by
  cases item with
  | single nal =>
      have hsame : ((single nal).frames codec).flatten = (single nal).bytes := by
        rw [Item.frames, flatten_singleton, Item.bytes, Item.cut, Cut.content, flatten_nil,
          append_nil]
      exact ⟨(congrArg List.length hsame).le, iff_of_true hsame trivial⟩
  | aggregate header nals =>
      have hsame : ((aggregate header nals).frames codec).flatten = (aggregate header nals).bytes := by
        rw [Item.frames, Item.bytes, Item.cut, Cut.content, flatten_nil, append_nil]
        rfl
      exact ⟨(congrArg List.length hsame).le, iff_of_true hsame trivial⟩
  | fragments header first others =>
      obtain ⟨hlength, hnal⟩ := h
      have hheader : header.length ≤ maxFuAccum := by
        have hsmall : codec.layout.nalHeader ≤ 2 := by cases codec <;> decide
        rw [maxFuAccum]
        omega
      obtain ⟨hless, hsame⟩ := gatheredFrame_spec first others
        ((Depacketizer.length_rebuiltHeader header).trans hlength.symm) hheader
      rw [bytes_fragments, Item.frames, ← hlength]
      refine ⟨hless, hsame.trans ?_⟩
      rw [rebuiltHeader_eq_iff hvideo hlength hnal, Item.Agrees, and_assoc]
      refine and_congr_right fun hh264 => ?_
      subst hh264
      rw [hlength]
      rfl
  | audio units => exact absurd h.1 hvideo

/-- The SDP demuxer uses up no more than an AAC packet, and it finds its frames if they agree. -/
theorem audio_agrees {units : List AudioUnit} (h : (Item.audio units).Valid .aac) :
    weigh consumed ((Item.audio units).frames .aac) ≤ weigh consumed (Item.audio units).audioFrames ∧
      ((Item.audio units).frames .aac = (Item.audio units).audioFrames ↔
        (Item.audio units).Agrees .aac) := by
  obtain ⟨-, -, -, hfits⟩ := h
  refine ⟨(weigh_aacLoop_le _ _).trans (length_packet units).le, aacLoop_eq_iff hfits ?_⟩
  rw [length_packet]
  omega

/-! ## Streams -/

theorem Arrives.valid_items {codec : Codec} {groups : List (List Item)} {packets : List Rtp.Packet}
    {parts : List (List View)} (h : Arrives codec groups packets parts) :
    ∀ item ∈ groups.flatten, item.Valid codec := by
  intro item hitem
  obtain ⟨items, hmem, hitem⟩ := mem_flatten.mp hitem
  exact h.valid items hmem item hitem

/-- Item by item, nothing can be made up for. -/
theorem flatMap_eq_iff {α : Type*} (weight : α → ℕ) (hpos : ∀ a, 0 < weight a) {items : List Item}
    {f g : Item → List α} (hless : ∀ item ∈ items, weigh weight (f item) ≤ weigh weight (g item)) :
    items.flatMap f = items.flatMap g ↔ ∀ item ∈ items, f item = g item := by
  have houtweighed : Outweighed weight (items.map f) (items.map g) := by
    rw [Outweighed, forall₂_map_left_iff, forall₂_map_right_iff]
    exact forall₂_same.mpr hless
  rw [flatMap_def, flatMap_def, houtweighed.flatten_eq_iff hpos]
  exact map_inj_left

/-- **The SDP demuxer and the depayloader agree** about a stream that comes in order if and only if
they agree about every item of it. -/
theorem agree_iff {codec : Codec} {groups : List (List Item)} {packets : List Rtp.Packet}
    {parts : List (List View)} (h : Arrives codec groups packets parts) {d : Depayloader}
    (hready : d.Ready codec) (haccepts : d.Accepts parts.flatten) (t : Depacketizer) :
    Same codec (t.depacketizeAll codec (parts.flatten.map timed)).2 (d.pushAll packets).2 ↔
      ∀ items ∈ groups, ∀ item ∈ items, item.Agrees codec := by
  have hall : (∀ items ∈ groups, ∀ item ∈ items, item.Agrees codec) ↔
      ∀ item ∈ groups.flatten, item.Agrees codec := by
    simp only [mem_flatten]
    exact ⟨fun hagrees item ⟨items, hitems, hitem⟩ => hagrees items hitems item hitem,
      fun hagrees items hitems item hitem => hagrees item ⟨items, hitems, hitem⟩⟩
  rw [hall, Same, h.frames]
  split
  case isTrue haac =>
    subst haac
    have hitems : ∀ item ∈ groups.flatten,
        weigh consumed (item.frames .aac) ≤ weigh consumed item.audioFrames ∧
          (item.frames .aac = item.audioFrames ↔ item.Agrees .aac) := by
      intro item hitem
      obtain ⟨units, rfl⟩ := (h.valid_items item hitem).exists_audio
      exact audio_agrees (h.valid_items _ hitem)
    rw [h.audio hready haccepts,
      flatMap_eq_iff consumed (fun au => Nat.add_pos_left Nat.two_pos au.length)
        fun item hitem => (hitems item hitem).1]
    exact forall₂_congr fun item hitem => (hitems item hitem).2
  case isFalse hvideo =>
    have hitems := fun item hitem => (h.valid_items item hitem).video_agrees hvideo
    have hflat : (groups.flatten.flatMap (Item.frames codec)).flatten =
        groups.flatten.flatMap fun item => (item.frames codec).flatten := by
      rw [flatMap_def, flatten_flatten, map_map]
      rfl
    rw [h.video hvideo hready haccepts, hflat, flatMap_eq_iff (fun _ => 1)
      (fun _ => Nat.one_pos) fun item hitem => by
        rw [weigh_one, weigh_one]
        exact (hitems item hitem).1]
    exact forall₂_congr fun item hitem => (hitems item hitem).2

/-- A depacketizer before the first packet. -/
def Depacketizer.start : Depacketizer := ⟨0, [], 0, 0⟩

/-- The packet of a view without contributing sources. -/
def packetOf (rtp : View) : Rtp.Packet :=
  ⟨(Header.mk rtp.marker rtp.payloadType rtp.seq rtp.timestamp rtp.ssrc).bytes ++ rtp.payload, 0⟩

/-- Two fragments of an H.264 NAL unit of four bytes. -/
def fragmentsH264 : List View :=
  [⟨[0x7c, 0x85, 0x88], 96, false, 7, 3000, 1⟩, ⟨[0x7c, 0x45, 0x84, 0x21], 96, true, 8, 3000, 1⟩]

/-- Two fragments of an H.265 NAL unit of four bytes. -/
def fragmentsH265 : List View :=
  [⟨[0x62, 0x01, 0x93, 0xaf], 96, false, 7, 3000, 1⟩, ⟨[0x62, 0x01, 0x53, 0x08], 96, true, 8, 3000, 1⟩]

theorem agree_iff_h264 :
    Same .h264 (Depacketizer.start.depacketizeAll .h264 ([fragmentsH264].flatten.map timed)).2
      (smallDepayloader.pushAll (fragmentsH264.map packetOf)).2 := by
  have harrives : Arrives .h264 [[.fragments [0x65] [0x88] [[0x84, 0x21]]]]
      (fragmentsH264.map packetOf) [fragmentsH264] := by
    refine ⟨fun items hitems item hitem => ?_, .cons ⟨rfl, ?_⟩ .nil, by decide, ?_⟩
    · obtain rfl := mem_singleton.mp hitems
      obtain rfl := mem_singleton.mp hitem
      exact ⟨rfl, by decide⟩
    · exact .more rfl (.last rfl)
    · exact .cons (by decide) (.cons (by decide) .nil)
  refine (agree_iff harrives ⟨rfl, rfl, rfl⟩ ⟨by decide, fun _ _ hseq => absurd hseq Bool.false_ne_true⟩ Depacketizer.start).mpr ?_
  intro items hitems item hitem
  obtain rfl := mem_singleton.mp hitems
  obtain rfl := mem_singleton.mp hitem
  exact ⟨rfl, by decide, by decide, by decide⟩

/-- Of fragments of H.265, the SDP demuxer makes a NAL unit with the type of the fragments. -/
theorem fragments_disagree :
    ∃ (groups : List (List Item)) (d : Depayloader), Arrives .h265 groups (fragmentsH265.map packetOf) [fragmentsH265] ∧
      d.Ready .h265 ∧ d.Accepts [fragmentsH265].flatten ∧
      ¬ Same .h265 (Depacketizer.start.depacketizeAll .h265 ([fragmentsH265].flatten.map timed)).2
        (d.pushAll (fragmentsH265.map packetOf)).2 := by
  refine ⟨[[.fragments [0x26, 0x01] [0xaf] [[0x08]]]], { smallDepayloader with codec := .h265 },
    ⟨fun items hitems item hitem => ?_, .cons ⟨rfl, ?_⟩ .nil, by decide, ?_⟩, ⟨rfl, rfl, rfl⟩,
    ⟨by decide, fun _ _ hseq => absurd hseq Bool.false_ne_true⟩, by decide⟩
  · obtain rfl := mem_singleton.mp hitems
    obtain rfl := mem_singleton.mp hitem
    exact ⟨rfl, by decide⟩
  · exact .more rfl (.last rfl)
  · exact .cons (by decide) (.cons (by decide) .nil)

end Zstreamer.SdpDemuxer

/-
# What the packets of a stream carry

A valid stream of H.264, H.265 or AAC in RTP, from the side of what it carries: a NAL unit
in a packet of its own, some NAL units in one packet, a NAL unit in fragments, or access
units of AAC in one packet.  Which program has made the packets does not matter.  The
depayloader gives back what they carry.
-/

import Zstreamer.Rtp.Receiver

namespace Zstreamer.SdpDemuxer

open Foundation Rtp List

/-- An AU header: 13 bits of size, and three bits of index. -/
def auHeader (index : BitVec 3) (size : ℕ) : BitVec 16 := BitVec.ofNat 16 (size * 8 + index.toNat)

/-- An access unit of AAC, with the index that its AU header has. -/
structure AudioUnit where
  index : BitVec 3
  data : List Byte
  deriving DecidableEq, Repr

/-- The bytes of the AU header. -/
def AudioUnit.header (au : AudioUnit) : List Byte := bytes16 (auHeader au.index au.data.length)

/-- A NAL unit behind its size. -/
def sized (nal : List Byte) : List Byte := bytes16 (BitVec.ofNat 16 nal.length) ++ nal

/-- What one packet carries, or some packets that belong together. -/
inductive Item
  | single (nal : List Byte)
  /-- STAP-A or AP: the header of the packet, and the NAL units -/
  | aggregate (header : List Byte) (nals : List (List Byte))
  /-- FU-A or FU: the header of the NAL unit, and its other bytes as they are cut -/
  | fragments (header first : List Byte) (others : List (List Byte))
  /-- AAC-hbr -/
  | audio (units : List AudioUnit)
  deriving DecidableEq, Repr

/-- The header of an aggregation packet. -/
def AggregateHeader : Codec → List Byte → Prop
  | .h264, header => ∃ b, header = [b] ∧ b &&& 0x1f = 24
  | .h265, header => ∃ b c, header = [b, c] ∧ (b >>> 1) &&& 0x3f = 48
  | _, _ => False

namespace Item

/-- The payloads of its packets. -/
def payloads (codec : Codec) : Item → List (List Byte)
  | single nal => [nal]
  | aggregate header nals => [header ++ nals.flatMap sized]
  | fragments header first others =>
      (codec.layout.header header true others.isEmpty ++ first) ::
        (flagLast others).map fun entry => codec.layout.header header false entry.2 ++ entry.1
  | audio units =>
      [bytes16 (BitVec.ofNat 16 (16 * units.length)) ++
        (units.flatMap AudioUnit.header ++ units.flatMap AudioUnit.data)]

/-- It is valid: a packet can carry each of its NAL units, every size fits into its field, and
there is something in it. -/
def Valid (codec : Codec) : Item → Prop
  | single nal => Carriable codec nal
  | aggregate header nals => AggregateHeader codec header ∧ nals ≠ [] ∧
      ∀ nal ∈ nals, Carriable codec nal ∧ nal.length < 65536
  | fragments header first others => header.length = codec.layout.nalHeader ∧
      Carriable codec (header ++ (first ++ others.flatten))
  | audio units => codec = .aac ∧ units ≠ [] ∧ 16 * units.length < 65536 ∧
      ∀ au ∈ units, 0 < au.data.length ∧ au.data.length < 8192

/-- The NAL units as pieces, behind start codes. -/
def cut : Item → Cut Byte
  | single nal => ⟨startCode true ++ nal, []⟩
  | aggregate _ nals => ⟨startCoded nals, []⟩
  | fragments header first others => ⟨startCode true ++ header ++ first, others⟩
  | audio _ => ⟨[], []⟩

end Item

/-! ## Aggregation packets -/

theorem length_sized (nal : List Byte) : (sized nal).length = 2 + nal.length := by
  rw [sized, length_append]
  rfl

/-- The size in front of a unit is read back. -/
theorem be16_sized {nal : List Byte} (hsize : nal.length < 65536) (rest : List Byte) :
    ∃ high low, sized nal ++ rest = high :: low :: (nal ++ rest) ∧
      (be16 high low).toNat = nal.length := by
  obtain ⟨high, low, hbytes, hbe⟩ := be16_bytes16 (BitVec.ofNat 16 nal.length) (nal ++ rest)
  refine ⟨high, low, ?_, ?_⟩
  · rw [sized, append_assoc, hbytes]
  · rw [hbe, BitVec.toNat_ofNat, Nat.mod_eq_of_lt hsize]

/-- The units of an aggregation packet are read back. -/
theorem aggregated_sized {nals : List (List Byte)}
    (hnals : ∀ nal ∈ nals, nal ≠ [] ∧ nal.length < 65536) (turns : ℕ)
    (hturns : (nals.flatMap sized).length ≤ turns) : aggregated turns (nals.flatMap sized) = nals := by
  induction nals generalizing turns with
  | nil => cases turns <;> rfl
  | cons nal nals ih =>
      obtain ⟨hne, hsize⟩ := hnals nal mem_cons_self
      rw [flatMap_cons, length_append, length_sized] at hturns
      obtain ⟨turns, rfl⟩ : ∃ n, turns = n + 1 := ⟨turns - 1, by omega⟩
      obtain ⟨high, low, hbytes, hread⟩ := be16_sized hsize (nals.flatMap sized)
      have hfits : ¬ (nal.length = 0 ∨ nal.length > (nal ++ nals.flatMap sized).length) := by
        have := length_pos_iff.mpr hne
        rw [length_append]
        omega
      rw [flatMap_cons, hbytes, aggregated]
      simp only [hread]
      rw [if_neg hfits, take_left, drop_left,
        ih (fun other hother => hnals other (mem_cons_of_mem nal hother)) turns (by omega)]

theorem foldl_appendUnit (nals : List (List Byte)) (s : Depayloader) :
    nals.foldl Depayloader.appendUnit s = s.appendAu (startCoded nals) := by
  induction nals generalizing s with
  | nil =>
      rw [Depayloader.appendAu, startCoded, flatMap_nil, append_nil]
      rfl
  | cons nal nals ih =>
      rw [foldl_cons, ih, Depayloader.appendUnit, Depayloader.appendAu_appendAu, startCoded,
        startCoded, flatMap_cons]

/-- The depayloader takes the NAL units of an aggregation packet as one piece. -/
theorem depay_aggregate {codec : Codec} {header : List Byte} {nals : List (List Byte)}
    (hheader : AggregateHeader codec header) (hnals : ∀ nal ∈ nals, nal ≠ [] ∧ nal.length < 65536)
    {s : Depayloader} {rtp : View} (hcodec : s.codec = codec)
    (hpayload : rtp.payload = header ++ nals.flatMap sized) (ends : Bool) :
    s.depay rtp = s.takePiece rtp ⟨true, ends, startCoded nals⟩ := by
  rw [Depayloader.depay, hcodec]
  cases codec with
  | h264 =>
      obtain ⟨b, rfl, htype⟩ := hheader
      have hunits := aggregated_sized hnals rtp.payload.length
        (by rw [hpayload, length_append]; omega)
      dsimp only
      rw [Depayloader.depayH264]
      simp only [hpayload, cons_append, nil_append, getD_cons_zero,
        drop_succ_cons, drop_zero, htype] at hunits ⊢
      rw [if_neg (cons_ne_nil b _), if_neg (by decide), if_pos trivial, hunits,
        foldl_appendUnit]
      rfl
  | h265 =>
      obtain ⟨b, c, rfl, htype⟩ := hheader
      have hunits := aggregated_sized hnals rtp.payload.length
        (by rw [hpayload, length_append]; omega)
      dsimp only
      rw [Depayloader.depayH265]
      simp only [hpayload, cons_append, nil_append, getD_cons_zero,
        drop_succ_cons, drop_zero, length_cons, htype] at hunits ⊢
      rw [if_neg (by omega), if_neg (by decide), if_pos trivial, hunits, foldl_appendUnit]
      rfl
  | aac => exact hheader.elim
  | pcm => exact hheader.elim

/-! ## Items as pieces -/

/-- What a payload brings: whichever packet it is in, the piece. -/
def BringsPiece (codec : Codec) (payload : List Byte) (p : Piece Byte) : Prop :=
  ∀ rtp : View, rtp.payload = payload → rtp.marker = p.ends → Conveys codec rtp p

theorem bringsPiece_others {codec : Codec} {header nal : List Byte} {others : List (List Byte)}
    (hheader : ∀ last, codec.layout.header header false last = codec.layout.header nal false last)
    (hnal : Carriable codec nal) (last : Bool) :
    List.Forall₂ (BringsPiece codec)
      ((flagLast others).map fun entry => codec.layout.header header false entry.2 ++ entry.1)
      ((flagLast others).map fun entry => ⟨false, last && entry.2, entry.1⟩) := by
  rw [forall₂_map_left_iff, forall₂_map_right_iff]
  refine forall₂_same.mpr fun entry _ rtp hpayload hmarker => ⟨hmarker, fun d hcodec => ?_, nofun⟩
  rw [hheader] at hpayload
  exact depay_fragment hnal hcodec hpayload _

/-- The header of a fragment has to do with the header of the NAL unit only. -/
theorem layout_header_append {codec : Codec} {header : List Byte}
    (hlength : header.length = codec.layout.nalHeader) (rest : List Byte) (first last : Bool) :
    codec.layout.header (header ++ rest) first last = codec.layout.header header first last := by
  cases codec with
  | h264 | aac | pcm =>
      obtain ⟨b, rfl⟩ := length_eq_one_iff.mp hlength
      rfl
  | h265 =>
      obtain ⟨b, c, rfl⟩ := length_eq_two.mp hlength
      rfl

/-- The payloads of an item bring its pieces. -/
theorem Item.Valid.bringsPieces {codec : Codec} {item : Item} (h : item.Valid codec)
    (hvideo : codec ≠ .aac) (last : Bool) :
    List.Forall₂ (BringsPiece codec) (item.payloads codec) (item.cut.pieces last) := by
  cases item with
  | single nal =>
      refine .cons (fun rtp hpayload hmarker => ⟨hmarker, fun d hcodec => ?_, fun _ => ?_⟩) .nil
      · exact depay_whole h hcodec hpayload _
      · exact cons_ne_nil _ _
  | aggregate header nals =>
      obtain ⟨hheader, hne, hnals⟩ := h
      refine .cons (fun rtp hpayload hmarker => ⟨hmarker, fun d hcodec => ?_, fun _ => ?_⟩) .nil
      · exact depay_aggregate hheader (fun nal hnal => ⟨(hnals nal hnal).1.ne_nil, (hnals nal hnal).2⟩)
          hcodec hpayload _
      · obtain ⟨nal, rest, rfl⟩ := exists_cons_of_ne_nil hne
        exact cons_ne_nil _ _
  | fragments header first others =>
      obtain ⟨hlength, hnal⟩ := h
      refine .cons (fun rtp hpayload hmarker => ⟨hmarker, fun d hcodec => ?_, fun _ => ?_⟩)
        (bringsPiece_others (fun last => (layout_header_append hlength _ false last).symm) hnal last)
      · rw [← layout_header_append hlength (first ++ others.flatten)] at hpayload
        have htake := depay_fragment hnal hcodec hpayload (last && others.isEmpty)
        rw [← hlength, take_left] at htake
        exact htake
      · exact cons_ne_nil _ _
  | audio units => exact absurd h.1 hvideo

/-! ## Groups of packets -/

/-- The packets of an access unit: their payloads are those of the items, and the last one has the
marker. -/
structure Brings (codec : Codec) (views : List View) (items : List Item) : Prop where
  payloads : views.map View.payload = items.flatMap (Item.payloads codec)
  marker : Ending View.marker views

/-- Two lists of the same length end at the same place. -/
theorem ends_together {α β : Type*} {f : α → Bool} {g : β → Bool} {l : List α} {m : List β}
    (hl : Ending f l) (hm : Ending g m) (hlength : l.length = m.length) :
    List.Forall₂ (fun a b => f a = g b) l m := by
  induction hl generalizing m with
  | @last a ha =>
      cases hm with
      | last hb => exact .cons (ha.trans hb.symm) .nil
      | more _ hrest => exact absurd (length_eq_zero_iff.mp (Nat.succ.inj hlength).symm) hrest.ne_nil
  | @more a l ha hrest ih =>
      cases hm with
      | last => exact absurd (length_eq_zero_iff.mp (Nat.succ.inj hlength)) hrest.ne_nil
      | more hb hrest' => exact .cons (ha.trans hb.symm) (ih hrest' (Nat.succ.inj hlength))

theorem forall₂_and {α β : Type*} {R S : α → β → Prop} {l : List α} {m : List β}
    (h : List.Forall₂ R l m) (h' : List.Forall₂ S l m) :
    List.Forall₂ (fun a b => R a b ∧ S a b) l m := by
  induction h with
  | nil => exact .nil
  | cons hone _ ih =>
      cases h' with
      | cons hone' hrest' => exact .cons ⟨hone, hone'⟩ (ih hrest')

/-- The pieces of the items of a group. -/
theorem bringsPieces_group {codec : Codec} {items : List Item}
    (hvalid : ∀ item ∈ items, item.Valid codec) (hvideo : codec ≠ .aac) :
    List.Forall₂ (BringsPiece codec) (items.flatMap (Item.payloads codec))
      (groupPieces (items.map Item.cut)) := by
  induction items with
  | nil => exact .nil
  | cons item items ih =>
      have hitem := hvalid item mem_cons_self
      have hitems := ih fun other hother => hvalid other (mem_cons_of_mem item hother)
      cases items with
      | nil =>
          have hsingle : groupPieces ([item].map Item.cut) = item.cut.pieces true :=
            append_nil _
          rw [hsingle, flatMap_singleton]
          exact hitem.bringsPieces hvideo true
      | cons next items =>
          rw [flatMap_cons, map_cons, map_cons,
            groupPieces_cons item.cut (cons_ne_nil next.cut (items.map Item.cut))]
          exact rel_append (hitem.bringsPieces hvideo false) hitems

/-- The packets of a group convey the pieces of its items. -/
theorem Brings.conveys {codec : Codec} {views : List View} {items : List Item}
    (h : Brings codec views items) (hvalid : ∀ item ∈ items, item.Valid codec)
    (hvideo : codec ≠ .aac) :
    List.Forall₂ (Conveys codec) views (groupPieces (items.map Item.cut)) := by
  have hpieces := bringsPieces_group hvalid hvideo
  rw [← h.payloads, forall₂_map_left_iff] at hpieces
  have hne : items.map Item.cut ≠ [] := by
    intro hnil
    rw [map_eq_nil_iff.mp hnil] at hpieces
    exact h.marker.ne_nil (forall₂_nil_right_iff.mp hpieces)
  have hends := ends_together h.marker (ending_groupPieces hne) hpieces.length_eq
  exact (forall₂_and hpieces hends).imp fun rtp p hand => hand.1 rtp rfl hand.2

end Zstreamer.SdpDemuxer

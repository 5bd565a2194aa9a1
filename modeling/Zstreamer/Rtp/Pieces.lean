/-
# NAL units as pieces

The packets of a NAL unit are the pieces of a cut of the unit, behind a start code of
four bytes.  The depayloader takes every one of them in the same way: a piece that
begins a NAL unit begins an access unit or goes on with it, and any other one is of no
use without what it belongs to.
-/

import Zstreamer.Rtp.Depayloader

namespace Zstreamer.Rtp

open Foundation List

/-! ## NAL units that can be sent -/

/-- The NAL units that the packets of a codec can carry: a type that is not one of the types of
the packets themselves. -/
def ValidNal : Codec → List Byte → Prop
  | .h264, nal => Clean nal ∧ 1 ≤ nal.getD 0 0 &&& 0x1f ∧ nal.getD 0 0 &&& 0x1f ≤ 23
  | .h265, nal => Clean nal ∧ 2 ≤ nal.length ∧
      (nal.getD 0 0 >>> 1) &&& 0x3f ≠ 48 ∧ (nal.getD 0 0 >>> 1) &&& 0x3f ≠ 49
  | .aac, _ => False
  | .pcm, _ => False

instance (codec : Codec) (nal : List Byte) : Decidable (ValidNal codec nal) :=
  match codec with
  | .h264 => inferInstanceAs (Decidable (_ ∧ _))
  | .h265 => inferInstanceAs (Decidable (_ ∧ _))
  | .aac => isFalse id
  | .pcm => isFalse id

/-- The layout of the fragments of a codec. -/
def Codec.layout : Codec → Layout
  | .h265 => layoutH265
  | _ => layoutH264

theorem ValidNal.clean {codec : Codec} {nal : List Byte} (h : ValidNal codec nal) : Clean nal := by
  cases codec with
  | h264 => exact h.1
  | h265 => exact h.1
  | aac => exact h.elim
  | pcm => exact h.elim

theorem ValidNal.nalHeader_le {codec : Codec} {nal : List Byte} (h : ValidNal codec nal) :
    codec.layout.nalHeader ≤ nal.length := by
  cases codec with
  | h264 => exact length_pos_iff.mpr h.1.nonempty
  | h265 => exact h.2.1
  | aac => exact h.elim
  | pcm => exact h.elim

/-- The NAL units that a packet can carry at all: there is a header, and the type is not one of the
types of the packets themselves.  Nothing else about their bytes matters to a packet. -/
def Carriable : Codec → List Byte → Prop
  | .h264, nal => nal ≠ [] ∧ 1 ≤ nal.getD 0 0 &&& 0x1f ∧ nal.getD 0 0 &&& 0x1f ≤ 23
  | .h265, nal => 2 ≤ nal.length ∧
      (nal.getD 0 0 >>> 1) &&& 0x3f ≠ 48 ∧ (nal.getD 0 0 >>> 1) &&& 0x3f ≠ 49
  | .aac, _ => False
  | .pcm, _ => False

instance (codec : Codec) (nal : List Byte) : Decidable (Carriable codec nal) :=
  match codec with
  | .h264 => inferInstanceAs (Decidable (_ ∧ _))
  | .h265 => inferInstanceAs (Decidable (_ ∧ _))
  | .aac => isFalse id
  | .pcm => isFalse id

theorem ValidNal.carriable {codec : Codec} {nal : List Byte} (h : ValidNal codec nal) :
    Carriable codec nal := by
  cases codec with
  | h264 => exact ⟨h.1.nonempty, h.2⟩
  | h265 => exact h.2
  | aac => exact h.elim
  | pcm => exact h.elim

theorem Carriable.ne_nil {codec : Codec} {nal : List Byte} (h : Carriable codec nal) :
    nal ≠ [] := by
  cases codec with
  | h264 => exact h.1
  | h265 => exact length_pos_iff.mp (lt_of_lt_of_le Nat.two_pos h.1)
  | aac => exact h.elim
  | pcm => exact h.elim

/-! ## What the depayloader makes of a piece -/

namespace Depayloader

@[simp]
theorem appendAu_appendAu (s : Depayloader) (front back : List Byte) :
    (s.appendAu front).appendAu back = s.appendAu (front ++ back) := by
  rw [appendAu, appendAu, appendAu, append_assoc]

/-- A piece is taken. -/
def takePiece (s : Depayloader) (rtp : View) (p : Piece Byte) : Depayed :=
  if p.starts then ((s.beginAu rtp.timestamp).appendAu p.content).finish rtp
  else if s.auActive = false ∨ s.auTs ≠ rtp.timestamp then ⟨s.dropPacket, [], true⟩
  else (s.appendAu p.content).finish rtp

theorem depayFragment_eq (s : Depayloader) (rtp : View) (start : Bool) (nalHeader data : List Byte)
    (ends : Bool) : s.depayFragment rtp start nalHeader data = s.takePiece rtp
      ⟨start, ends, (if start then startCode true ++ nalHeader else []) ++ data⟩ := by
  cases start with
  | false => rfl
  | true =>
      rw [depayFragment, takePiece, if_pos rfl, if_pos rfl, appendUnit, appendAu_appendAu]
      rfl

end Depayloader

/-- The bytes of a fragment of H.264 are those of the NAL unit. -/
theorem fragment_h264 : ∀ (b : Byte) (first last : Bool),
    ((b &&& 0xe0) ||| 28) &&& 0x1f = (28 : Byte) ∧
    decide (((b &&& 0x1f) ||| fuFlags first last) &&& 0x80 ≠ 0) = first ∧
    (((b &&& 0xe0) ||| 28) &&& 0xe0) ||| (((b &&& 0x1f) ||| fuFlags first last) &&& 0x1f) = b := by
  decide +kernel

/-- The bytes of a fragment of H.265 are those of the NAL unit. -/
theorem fragment_h265 : ∀ (b : Byte) (first last : Bool),
    (((b &&& 0x81) ||| (49 <<< 1)) >>> 1) &&& 0x3f = (49 : Byte) ∧
    decide ((((b >>> 1) &&& 0x3f) ||| fuFlags first last) &&& 0x80 ≠ 0) = first ∧
    (((b &&& 0x81) ||| (49 <<< 1)) &&& 0x81) |||
      (((((b >>> 1) &&& 0x3f) ||| fuFlags first last) &&& 0x3f) <<< 1) = b := by
  decide +kernel

/-- A NAL unit in a packet of its own. -/
theorem depay_whole {codec : Codec} {nal : List Byte} (hnal : Carriable codec nal)
    {s : Depayloader} {rtp : View} (hcodec : s.codec = codec) (hpayload : rtp.payload = nal)
    (ends : Bool) : s.depay rtp = s.takePiece rtp ⟨true, ends, startCode true ++ nal⟩ := by
  rw [Depayloader.depay, hcodec]
  cases codec with
  | h264 =>
      obtain ⟨hne, htype⟩ := hnal
      dsimp only
      rw [Depayloader.depayH264]
      simp only [hpayload]
      rw [if_neg hne, if_pos htype]
      rfl
  | h265 =>
      obtain ⟨hlength, htype⟩ := hnal
      dsimp only
      rw [Depayloader.depayH265]
      simp only [hpayload]
      rw [if_neg (not_lt.mpr hlength), if_pos htype]
      rfl
  | aac => exact hnal.elim
  | pcm => exact hnal.elim

/-- A fragment of a NAL unit. -/
theorem depay_fragment {codec : Codec} {nal : List Byte} (hnal : Carriable codec nal)
    {s : Depayloader} {rtp : View} (hcodec : s.codec = codec) {first last : Bool} {data : List Byte}
    (hpayload : rtp.payload = codec.layout.header nal first last ++ data) (ends : Bool) :
    s.depay rtp = s.takePiece rtp ⟨first, ends,
      (if first then startCode true ++ nal.take codec.layout.nalHeader else []) ++ data⟩ := by
  rw [Depayloader.depay, hcodec]
  cases codec with
  | h264 =>
      obtain ⟨htype, hstart, hheader⟩ := fragment_h264 (nal.getD 0 0) first last
      have htake : nal.take 1 = [nal.getD 0 0] := by
        obtain ⟨b, rest, rfl⟩ := exists_cons_of_ne_nil hnal.1
        rfl
      dsimp only
      rw [Depayloader.depayH264]
      simp only [hpayload, Codec.layout, layoutH264, cons_append, nil_append,
        getD_cons_zero, getD_cons_succ, length_cons, drop_succ_cons,
        drop_zero, htype, hstart, hheader, reduceCtorEq, if_false]
      rw [if_neg (by decide), if_neg (by decide), if_pos trivial, if_neg (by omega), htake]
      exact s.depayFragment_eq rtp first _ data ends
  | h265 =>
      obtain ⟨htype, hstart, hheader⟩ := fragment_h265 (nal.getD 0 0) first last
      have htake : nal.take 2 = [nal.getD 0 0, nal.getD 1 0] := by
        obtain ⟨hlength, -⟩ := hnal
        match nal, hlength with
        | b :: c :: rest, _ => rfl
      dsimp only
      rw [Depayloader.depayH265]
      simp only [hpayload, Codec.layout, layoutH265, cons_append, nil_append,
        getD_cons_zero, getD_cons_succ, length_cons, drop_succ_cons,
        drop_zero, htype, hstart, hheader]
      rw [if_neg (by omega), if_neg (by decide), if_neg (by decide), if_neg (by omega), htake]
      exact s.depayFragment_eq rtp first _ data ends
  | aac => exact hnal.elim
  | pcm => exact hnal.elim

end Zstreamer.Rtp

/-! # The packets of a NAL unit are its cut

What the payloaders ask for to send a NAL unit carries the pieces of a cut of it: one
piece when the unit fits into a packet, and as many as there are chunks when not.  The
header of the NAL unit, which fragments leave out, belongs to the first piece.
-/

namespace Zstreamer.Rtp

open Foundation List

/-- What a request carries of a NAL unit: all of it, or a fragment. -/
inductive Carries (layout : Layout) (nal : List Byte) : Request → Piece Byte → Prop
  | whole (timestamp : BitVec 32) (marker : Bool) :
      Carries layout nal ⟨[], nal, timestamp, marker⟩ ⟨true, marker, startCode true ++ nal⟩
  | fragment (first last : Bool) (data : List Byte) (timestamp : BitVec 32) (marker : Bool) :
      Carries layout nal ⟨layout.header nal first last, data, timestamp, marker⟩
        ⟨first, marker, (if first then startCode true ++ nal.take layout.nalHeader else []) ++ data⟩

theorem Carries.marker_eq {layout : Layout} {nal : List Byte} {r : Request} {p : Piece Byte}
    (h : Carries layout nal r p) : r.marker = p.ends := by
  cases h with
  | whole => rfl
  | fragment => rfl

/-- The depayloader takes what a request carries. -/
theorem Carries.depay {codec : Codec} {nal : List Byte} {r : Request} {p : Piece Byte}
    (h : Carries codec.layout nal r p) (hnal : Carriable codec nal) {s : Depayloader} {rtp : View}
    (hcodec : s.codec = codec) (hpayload : rtp.payload = r.header ++ r.payload) :
    s.depay rtp = s.takePiece rtp p := by
  cases h with
  | whole timestamp marker => exact depay_whole hnal hcodec hpayload marker
  | fragment first last data timestamp marker => exact depay_fragment hnal hcodec hpayload marker

/-- A piece that begins a NAL unit is not empty. -/
theorem Carries.content_ne {layout : Layout} {nal : List Byte} {r : Request} {p : Piece Byte}
    (h : Carries layout nal r p) (hstarts : p.starts = true) : p.content ≠ [] := by
  cases h with
  | whole => exact cons_ne_nil _ _
  | fragment first =>
      dsimp only at hstarts ⊢
      rw [if_pos hstarts]
      exact cons_ne_nil _ _

section Fragments

variable {layout : Layout} {nal : List Byte} {timestamp : BitVec 32} {marker : Bool} {most : ℤ}

theorem timestamp_fragments {first : Bool} {chunks : List Chunk} :
    ∀ r ∈ fragments layout nal timestamp marker first chunks, r.timestamp = timestamp := by
  induction chunks generalizing first with
  | nil => exact nofun
  | cons c chunks ih =>
      intro r hr
      rcases mem_cons.mp hr with rfl | hr
      · rfl
      · exact ih r hr

/-- A chunk is the last one when it is followed by none. -/
theorem last_iff_nil {chunks : List Chunk} {c : Chunk}
    (h : Chunked most nal.length (c.offset + c.length) chunks) :
    decide (c.offset + c.length ≥ nal.length) = chunks.isEmpty := by
  cases h with
  | done hend => exact decide_eq_true hend
  | chunk hmore => exact decide_eq_false (not_le.mpr hmore)

/-- The fragments behind the first one. -/
theorem carries_fragments {offset : ℤ} {chunks : List Chunk}
    (h : Chunked most nal.length offset chunks) :
    List.Forall₂ (Carries layout nal) (fragments layout nal timestamp marker false chunks)
      ((flagLast (chunks.map fun c => c.slice nal)).map fun entry =>
        ⟨false, marker && entry.2, entry.1⟩) := by
  induction h with
  | done => exact .nil
  | @chunk offset chunks hmore hrest ih =>
      have hlast := last_iff_nil (c := nextChunk most nal.length offset) hrest
      cases chunks with
      | nil =>
          refine .cons ?_ .nil
          rw [hlast]
          exact .fragment false true _ timestamp (marker && true)
      | cons c chunks =>
          refine .cons ?_ ih
          rw [hlast]
          exact .fragment false false _ timestamp (marker && false)

/-- **The fragments of a NAL unit carry the pieces of a cut of it.** -/
theorem fragmentLoop_cut (hmost : layout.headerLen < most) (hlong : layout.nalHeader < nal.length)
    {turns : ℕ} {requests : List Request}
    (hloop : fragmentLoop layout most nal timestamp marker turns = some requests) :
    (∃ cut : Cut Byte, cut.content = startCode true ++ nal ∧
      List.Forall₂ (Carries layout nal) requests (cut.pieces marker)) ∧
    ∀ r ∈ requests, r.timestamp = timestamp ∧ (r.size : ℤ) ≤ most := by
  obtain ⟨chunks, hchunks, rfl⟩ := Option.map_eq_some_iff.mp hloop
  have hchunked := chunked_of_chunkLoop hchunks
  have hsize : ∀ r ∈ fragments layout nal timestamp marker true chunks, (r.size : ℤ) ≤ most :=
    size_fragments_le fun c hc => by
      have := hchunked.bounds (by omega) c hc
      omega
  refine ⟨?_, fun r hr => ⟨timestamp_fragments r hr, hsize r hr⟩⟩
  have hslices := hchunked.flatMap_slice nal (by omega) (by omega)
  rw [Int.toNat_natCast] at hslices
  cases chunks with
  | nil =>
      cases hchunked with
      | done hend => omega
  | cons c rest =>
      obtain ⟨hc, hrest⟩ : c = nextChunk (most - layout.headerLen) nal.length layout.nalHeader ∧
          Chunked (most - layout.headerLen) nal.length (c.offset + c.length) rest := by
        cases hchunked with
        | chunk hmore hrest => exact ⟨rfl, hrest⟩
      have hlast := last_iff_nil hrest
      refine ⟨⟨startCode true ++ nal.take layout.nalHeader ++ c.slice nal,
        rest.map fun c => c.slice nal⟩, ?_, ?_⟩
      · rw [flatMap_cons] at hslices
        rw [Cut.content, ← flatMap_def, append_assoc, hslices, append_assoc,
          take_append_drop]
      · refine .cons ?_ (carries_fragments hrest)
        rw [hlast, isEmpty_map]
        exact .fragment true rest.isEmpty _ timestamp (marker && rest.isEmpty)

end Fragments

/-- **The packets of a NAL unit are its cut**, in the RTP payloader with room for a fragment. -/
theorem Payloader.sendNal_cut {layout : Layout} {s : Payloader} {nal : List Byte}
    (hroom : layout.headerLen + 12 < s.mtu) (hheader : layout.nalHeader ≤ nal.length) {turns : ℕ}
    {timestamp : BitVec 32} {marker : Bool} {sending : Sending}
    (hsend : s.sendNal layout turns nal timestamp marker = some sending) :
    sending.ok = true ∧
      (∃ cut : Cut Byte, cut.content = startCode true ++ nal ∧
        List.Forall₂ (Carries layout nal) sending.requests (cut.pieces marker)) ∧
      ∀ r ∈ sending.requests, r.timestamp = timestamp ∧ (r.size : ℤ) ≤ s.mtu - 12 := by
  rw [sendNal, if_neg (not_lt.mpr hheader), if_neg (by omega)] at hsend
  split at hsend
  case isTrue hwhole =>
    cases hsend
    refine ⟨rfl, ⟨⟨startCode true ++ nal, []⟩, append_nil _, ?_⟩, fun r hr => ?_⟩
    · refine .cons ?_ .nil
      rw [isEmpty_nil, Bool.and_true]
      exact .whole timestamp marker
    · obtain rfl := mem_singleton.mp hr
      refine ⟨rfl, ?_⟩
      rw [Request.size, length_nil, Nat.zero_add]
      exact hwhole
  case isFalse hlong =>
    obtain ⟨requests, hloop, rfl⟩ := Option.map_eq_some_iff.mp hsend
    have hnal : layout.nalHeader < nal.length := by
      rw [Layout.headerLen] at hroom
      push_cast at hroom
      omega
    exact ⟨rfl, fragmentLoop_cut (by omega) hnal hloop⟩

end Zstreamer.Rtp

/-
# When a frame of raw video comes back

The payloader cuts a line at pixels of as many bytes as the picture has, and says the
pixel; the depayloader takes every pixel for two bytes.  Both mean the same place where
pixels have two bytes, and at the first pixel of a line.  Otherwise there is a byte of the
frame that no packet reaches, and that stays what the allocation held.
-/

import Zstreamer.St2110.VideoDepayloader
import Zstreamer.St2110.VideoReads

namespace Zstreamer.St2110.Video

open Foundation Rtp List

/-! ## The packet of a piece -/

/-- The line and the pixel of a piece are numbers that the line header can say. -/
structure Piece.Sayable (p : Piece) : Prop where
  y : p.y < 2 ^ 15
  x : 0 ≤ p.x ∧ p.x < 2 ^ 15
  payload : p.payload.length < 2 ^ 16

/-- The header of a piece, as it is read. -/
def Piece.segment (p : Piece) : Segment where
  length := p.payload.length
  lineNo := p.y
  pOffset := p.x.toNat

theorem toNat_and_of_lt {x : BitVec 16} (hx : x.toNat < 2 ^ 15) :
    (x &&& 0x7fff &&& 0x7fff).toNat = x.toNat := by
  rw [BitVec.and_assoc, BitVec.and_self, BitVec.toNat_and]
  exact (Nat.and_two_pow_sub_one_eq_mod x.toNat 15).trans (Nat.mod_eq_of_lt hx)

theorem and_continuation (x : BitVec 16) : x &&& 0x7fff &&& 0x8000 = 0 := by
  rw [BitVec.and_assoc]
  exact BitVec.and_zero

section Packet

variable {s : Payloader} {p : Piece} {pts : BitVec 64}

theorem length_makePacket (s : Payloader) (p : Piece) (pts : BitVec 64) :
    (s.makePacket p pts).2.data.length = 20 + p.payload.length := by
  rw [Payloader.makePacket, length_append, length_append, Header.length_bytes,
    ← Nat.add_assoc]
  rfl

theorem timestampOf_makePacket (s : Payloader) (p : Piece) (pts : BitVec 64) :
    Depayloader.timestampOf (s.makePacket p pts).2.data = ptsToRtpTs pts 90000 :=
  be32_bytes _

theorem marker_makePacket (s : Payloader) (p : Piece) (pts : BitVec 64) :
    decide ((s.makePacket p pts).2.data.getD 1 0 &&& 0x80 ≠ 0) = p.isLastPacket :=
  (payloadType_or_marker (s.rtpPt.setWidth 8) p.isLastPacket).2

/-- **One segment is read, and it is the piece.** -/
theorem carried_makePacket (hsayable : p.Sayable) :
    carried (s.makePacket p pts).2.data = [(p.segment, 20)] := by
  have hlength := length_makePacket s p pts
  have hy : (BitVec.ofNat 16 p.y).toNat = p.y :=
    (BitVec.toNat_ofNat _ _).trans (Nat.mod_eq_of_lt (by have := hsayable.y; omega))
  have hx : (BitVec.ofInt 16 p.x).toNat = p.x.toNat := by
    obtain ⟨hlow, hhigh⟩ := hsayable.x
    rw [BitVec.toNat_ofInt]
    omega
  have hpayload : (BitVec.ofNat 16 p.payload.length).toNat = p.payload.length :=
    (BitVec.toNat_ofNat _ _).trans (Nat.mod_eq_of_lt hsayable.payload)
  have hheaders : readHeaders (s.makePacket p pts).2.data 32 14 = ([p.segment], 20) := by
    rw [readHeaders]
    simp only [hlength]
    simp only [Payloader.makePacket, Header.bytes, Payloader.lineHeader, cons_append,
      nil_append, getD_cons_succ, getD_cons_zero, be16_bytes, and_continuation]
    rw [if_pos (by omega), if_neg (by simp), toNat_and_of_lt (by rw [hy]; exact hsayable.y),
      toNat_and_of_lt (by rw [hx]; have := hsayable.x; omega), hy, hx, hpayload]
    rfl
  rw [carried, hheaders]
  dsimp only
  rw [carriedFrom, if_neg (by rw [hlength]; exact Nat.not_lt.mpr le_rfl), carriedFrom]

theorem drop_makePacket (s : Payloader) (p : Piece) (pts : BitVec 64) :
    ((s.makePacket p pts).2.data.drop 20).take p.payload.length = p.payload :=
  take_length

end Packet

/-! ## The frame that fills -/

/-- The cell that the depayloader copies a piece to, with lines of so many bytes. -/
def Piece.dest (stride : ℤ) (p : Piece) : ℤ := p.y * stride + p.x * 2

/-- The copy of a piece: none when it does not end within the frame. -/
def Piece.copies (stride : ℤ) (p : Piece) : List (Copy Byte) :=
  if p.dest stride + p.payload.length ≤ capacity then [⟨(p.dest stride).toNat, p.payload⟩] else []

/-- What the memory holds behind the copies of pieces. -/
def filled (stride : ℤ) (pieces : List Piece) (mem : ℕ → Byte) : ℕ → Byte :=
  putAll (pieces.flatMap (Piece.copies stride)) mem

/-- The highest line of pieces. -/
def highest (pieces : List Piece) : ℕ := pieces.foldl (fun maxY p => max maxY p.y) 0

theorem highest_append_singleton (pieces : List Piece) (p : Piece) :
    highest (pieces ++ [p]) = max (highest pieces) p.y := by
  rw [highest, foldl_append]
  rfl

theorem highest_le {pieces : List Piece} {n : ℕ} (hle : ∀ p ∈ pieces, p.y ≤ n) :
    highest pieces ≤ n := by
  induction pieces using reverseRecOn with
  | nil => exact Nat.zero_le n
  | append_singleton pieces p ih =>
      rw [highest_append_singleton]
      apply max_le
      · exact ih fun p' hp' => hle p' (mem_append_left _ hp')
      · exact hle p (mem_append_right _ mem_cons_self)

theorem filled_append_singleton (stride : ℤ) (pieces : List Piece) (p : Piece) (mem : ℕ → Byte) :
    filled stride (pieces ++ [p]) mem = putAll (p.copies stride) (filled stride pieces mem) := by
  rw [filled, flatMap_append, putAll_append, flatMap_singleton]
  rfl

namespace Depayloader

/-- The frame with the pieces so far. -/
def frameOf (stride : ℤ) (ts : BitVec 32) (mem : ℕ → Byte) (pieces : List Piece) : Frame where
  size := capacity
  mem := filled stride pieces mem
  pts := ts.setWidth 64
  eos := false

/-- The depayloader behind the packets of pieces. -/
def filling (stride : ℤ) (ts : BitVec 32) (mem : ℕ → Byte) (pieces : List Piece) :
    Depayloader where
  expectedLineLength := stride
  currentFrame := some (frameOf stride ts mem pieces)
  currentTs := ts
  maxY := highest pieces
  bpp := 2

variable {stride : ℤ} {ts : BitVec 32} {mem : ℕ → Byte} {pieces : List Piece} {p : Piece}
  {s : Payloader} {pts : BitVec 64}

theorem lineStride_filling (hstride : 0 < stride) : (filling stride ts mem pieces).lineStride = stride :=
  if_pos hstride

theorem take_filling (hstride : 0 < stride) (hsayable : p.Sayable)
    (hline : p.y * stride < 2 ^ 30) :
    takeSegments (s.makePacket p pts).2.data [(p.segment, 20)] (filling stride ts mem pieces)
        (frameOf stride ts mem pieces) =
      .ok ({ filling stride ts mem (pieces ++ [p]) with
          currentFrame := some (frameOf stride ts mem pieces) },
        frameOf stride ts mem (pieces ++ [p])) := by
  have hpixel : p.segment.pOffset < 2 ^ 15 := by
    have := hsayable.x
    rw [Piece.segment]
    dsimp only
    omega
  have hdest : (filling stride ts mem pieces).destPos p.segment = p.dest stride := by
    rw [destPos, lineStride_filling hstride, Piece.dest, Piece.segment, filling,
      Int.toNat_of_nonneg hsayable.x.1]
  have hbytes : ((s.makePacket p pts).2.data.drop (p.segment, 20).2).take
      (p.segment, 20).1.length = p.payload := drop_makePacket s p pts
  have hfill : frameOf stride ts mem (pieces ++ [p]) =
      { frameOf stride ts mem pieces with
        mem := putAll (p.copies stride) (filled stride pieces mem) } := by
    rw [frameOf, filled_append_singleton]
    rfl
  rw [takeSegments, takeSegment_eq rfl rfl ⟨hsayable.payload, hsayable.y, hpixel⟩
      (by rw [lineStride_filling hstride]; exact hline), hdest, hbytes]
  rw [filling, filling, highest_append_singleton, hfill]
  rfl

/-- A packet of the frame that is being filled does not change the frame. -/
theorem padPush_eq_takePacket (fresh : Option (ℕ → Byte)) :
    (filling stride (ptsToRtpTs pts 90000) mem pieces).padPush fresh (s.makePacket p pts).2 =
      (filling stride (ptsToRtpTs pts 90000) mem pieces).takePacket (s.makePacket p pts).2.data := by
  have heos : ¬ (s.makePacket p pts).2.eos = true := Bool.false_ne_true
  have hlong : ¬ (s.makePacket p pts).2.data.length < 20 := by
    rw [length_makePacket]
    exact Nat.not_lt.mpr (Nat.le_add_right 20 _)
  have hsame : (filling stride (ptsToRtpTs pts 90000) mem pieces).changeFrame fresh
      (timestampOf (s.makePacket p pts).2.data) =
        .ok (filling stride (ptsToRtpTs pts 90000) mem pieces, []) := by
    rw [timestampOf_makePacket]
    exact if_pos ⟨rfl, rfl⟩
  rw [padPush, if_neg heos, if_neg hlong, hsame]
  change (Depayloader.takePacket _ _ >>= fun taken => .ok (taken.1, [] ++ taken.2)) = _
  cases (filling stride (ptsToRtpTs pts 90000) mem pieces).takePacket (s.makePacket p pts).2.data with
  | error fault => rfl
  | ok taken => rfl

theorem takePacket_filling (hstride : 0 < stride) (hsayable : p.Sayable)
    (hline : p.y * stride < 2 ^ 30) :
    (filling stride ts mem pieces).takePacket (s.makePacket p pts).2.data =
      finish { filling stride ts mem (pieces ++ [p]) with
          currentFrame := some (frameOf stride ts mem pieces) }
        (frameOf stride ts mem (pieces ++ [p])) p.isLastPacket := by
  rw [takePacket, carried_makePacket hsayable, marker_makePacket]
  change (takeSegments _ _ _ _ >>= _) = _
  rw [take_filling hstride hsayable hline]
  rfl

/-- A packet that is not the last is put into the frame. -/
theorem padPush_filling (hstride : 0 < stride) (hsayable : p.Sayable)
    (hline : p.y * stride < 2 ^ 30) (hmore : p.isLastPacket = false) (fresh : Option (ℕ → Byte)) :
    (filling stride (ptsToRtpTs pts 90000) mem pieces).padPush fresh (s.makePacket p pts).2 =
      .ok (filling stride (ptsToRtpTs pts 90000) mem (pieces ++ [p]), []) := by
  rw [padPush_eq_takePacket, takePacket_filling hstride hsayable hline, hmore]
  rfl

/-- The frame that is handed on. -/
def finished (stride : ℤ) (ts : BitVec 32) (mem : ℕ → Byte) (pieces : List Piece) : Frame :=
  { frameOf stride ts mem pieces with size := stride * (highest pieces + 1) }

/-- The last packet hands the frame on. -/
theorem padPush_last (hstride : 0 < stride) (hsayable : p.Sayable)
    (hline : p.y * stride < 2 ^ 30) (hlast : p.isLastPacket = true)
    (hsize : stride * (highest (pieces ++ [p]) + 1) < 2 ^ 31) (fresh : Option (ℕ → Byte)) :
    ∃ d, (filling stride (ptsToRtpTs pts 90000) mem pieces).padPush fresh (s.makePacket p pts).2 =
      .ok (d, [finished stride (ptsToRtpTs pts 90000) mem (pieces ++ [p])]) := by
  have hpos : 0 ≤ stride * ((highest (pieces ++ [p]) : ℤ) + 1) :=
    Int.mul_nonneg hstride.le (by omega)
  have hint : IsInt (stride * (highest (pieces ++ [p]) + 1)) := ⟨by omega, hsize⟩
  have hfinal : ({ filling stride (ptsToRtpTs pts 90000) mem (pieces ++ [p]) with
      currentFrame := some (frameOf stride (ptsToRtpTs pts 90000) mem pieces) } :
        Depayloader).finalSize = .ok (stride * (highest (pieces ++ [p]) + 1)) := by
    change (filling stride (ptsToRtpTs pts 90000) mem (pieces ++ [p])).finalSize = _
    rw [finalSize, lineStride_filling hstride]
    exact if_pos hint
  rw [padPush_eq_takePacket, takePacket_filling hstride hsayable hline, hlast, finish, if_pos rfl,
    hfinal]
  exact ⟨_, rfl⟩

/-- The first packet begins a frame. -/
theorem padPush_initial (stride : ℤ) (mem : ℕ → Byte) (s : Payloader) (p : Piece)
    (pts : BitVec 64) :
    (initial stride).padPush (some mem) (s.makePacket p pts).2 =
      (filling stride (ptsToRtpTs pts 90000) mem []).padPush (some mem) (s.makePacket p pts).2 := by
  have hbegin : (initial stride).changeFrame (some mem)
      (timestampOf (s.makePacket p pts).2.data) =
        .ok (filling stride (ptsToRtpTs pts 90000) mem [], []) := by
    rw [timestampOf_makePacket]
    rfl
  have hsame : (filling stride (ptsToRtpTs pts 90000) mem []).changeFrame (some mem)
      (timestampOf (s.makePacket p pts).2.data) =
        .ok (filling stride (ptsToRtpTs pts 90000) mem [], []) := by
    rw [timestampOf_makePacket]
    exact if_pos ⟨rfl, rfl⟩
  rw [padPush, hbegin, padPush, hsame]
  rfl

/-- What a piece needs for its place to be a number of the machine. -/
structure Placeable (stride : ℤ) (p : Piece) : Prop where
  sayable : p.Sayable
  line : p.y * stride < 2 ^ 30

/-- The buffers are these packets, and there is memory for every frame. -/
structure Supplied (packets : List Rtp.Buffer) (run : List (Rtp.Buffer × Option (ℕ → Byte))) :
    Prop where
  packets : run.map Prod.fst = packets
  memory : ∀ p ∈ run, p.2.isSome = true

theorem Supplied.tail {packet : Rtp.Buffer} {packets : List Rtp.Buffer}
    {one : Rtp.Buffer × Option (ℕ → Byte)} {run : List (Rtp.Buffer × Option (ℕ → Byte))}
    (h : Supplied (packet :: packets) (one :: run)) : one.1 = packet ∧ Supplied packets run :=
  ⟨(List.cons.inj h.packets).1, (List.cons.inj h.packets).2,
    fun p hp => h.memory p (mem_cons_of_mem one hp)⟩

theorem supplied_map (packets : List Rtp.Buffer) (mem : ℕ → Byte) :
    Supplied packets (packets.map fun packet => (packet, some mem)) := by
  refine ⟨?_, fun p hp => ?_⟩
  · rw [map_map]
    exact map_id packets
  · obtain ⟨packet, -, rfl⟩ := mem_map.mp hp
    rfl

theorem eq_of_head_map {packets : List Rtp.Buffer} {mem mem' : ℕ → Byte}
    (hhead : (packets.map fun packet => (packet, some mem)).head?.bind Prod.snd = some mem') :
    mem' = mem := by
  cases packets with
  | nil => exact nomatch hhead
  | cons packet packets => exact (Option.some.inj hhead).symm

/-- **The packets of the rest of a frame hand it on once.** -/
theorem padPushAll_filling (hstride : 0 < stride) {last : Piece} {rest : List Piece} :
    ∀ {s : Payloader} {pieces : List Piece} {run : List (Rtp.Buffer × Option (ℕ → Byte))},
      Supplied (Payloader.makeAll pts (rest ++ [last]) s).2 run →
      (∀ p ∈ rest ++ [last], Placeable stride p) →
      (∀ p ∈ rest, p.isLastPacket = false) → last.isLastPacket = true →
      stride * (highest (pieces ++ rest ++ [last]) + 1) < 2 ^ 31 →
      ∃ d, padPushAll run (filling stride (ptsToRtpTs pts 90000) mem pieces) =
        .ok (d, [finished stride (ptsToRtpTs pts 90000) mem (pieces ++ rest ++ [last])]) := by
  induction rest with
  | nil =>
      intro s pieces run hrun hplace _ hlast hsize
      rw [append_nil] at hsize ⊢
      obtain ⟨hsayable, hline⟩ := hplace last mem_cons_self
      cases run with
      | nil =>
          have hpackets := hrun.packets
          cases hpackets
      | cons one run =>
          obtain ⟨packet, fresh⟩ := one
          obtain ⟨rfl, hnone⟩ := hrun.tail
          obtain rfl := map_eq_nil_iff.mp hnone.packets
          obtain ⟨d, hpush⟩ := @padPush_last stride mem pieces last s pts hstride hsayable hline
            hlast hsize fresh
          refine ⟨d, ?_⟩
          rw [padPushAll, hpush]
          rfl
  | cons p rest ih =>
      intro s pieces run hrun hplace hmore hlast hsize
      obtain ⟨hsayable, hline⟩ := hplace p mem_cons_self
      cases run with
      | nil =>
          have hpackets := hrun.packets
          cases hpackets
      | cons one run =>
          obtain ⟨packet, fresh⟩ := one
          obtain ⟨rfl, hrun'⟩ := hrun.tail
          have hpush := @padPush_filling stride mem pieces p s pts hstride hsayable hline
            (hmore p mem_cons_self) fresh
          have hassoc : pieces ++ p :: rest ++ [last] = pieces ++ [p] ++ rest ++ [last] := by
            rw [append_assoc pieces [p] rest]
            rfl
          rw [hassoc] at hsize ⊢
          obtain ⟨d, hrest⟩ := ih hrun' (fun p' hp' => hplace p' (mem_cons_of_mem p hp'))
            (fun p' hp' => hmore p' (mem_cons_of_mem p hp')) hlast hsize
          refine ⟨d, ?_⟩
          rw [padPushAll]
          rw [hpush]
          change (padPushAll run _ >>= _) = _
          rw [hrest]
          rfl

/-- The packets of a frame hand it on once, in the memory that the first of them was given. -/
theorem padPushAll_initial (hstride : 0 < stride) {last : Piece} {rest : List Piece}
    {run : List (Rtp.Buffer × Option (ℕ → Byte))}
    (hrun : Supplied (Payloader.makeAll pts (rest ++ [last]) s).2 run)
    (hplace : ∀ p ∈ rest ++ [last], Placeable stride p)
    (hmore : ∀ p ∈ rest, p.isLastPacket = false) (hlast : last.isLastPacket = true)
    (hsize : stride * (highest (rest ++ [last]) + 1) < 2 ^ 31) :
    ∃ mem d, run.head?.bind Prod.snd = some mem ∧ padPushAll run (initial stride) =
      .ok (d, [finished stride (ptsToRtpTs pts 90000) mem (rest ++ [last])]) := by
  obtain ⟨first, others, hpieces⟩ : ∃ first others, rest ++ [last] = first :: others :=
    exists_cons_of_ne_nil (append_ne_nil_of_right_ne_nil rest (cons_ne_nil _ _))
  cases run with
  | nil =>
      rw [hpieces] at hrun
      exact nomatch hrun.packets
  | cons one run =>
      obtain ⟨packet, fresh⟩ := one
      obtain ⟨mem, rfl⟩ := Option.isSome_iff_exists.mp (hrun.memory _ mem_cons_self)
      obtain ⟨d, hall⟩ := @padPushAll_filling stride mem pts hstride last rest s [] _ hrun hplace
        hmore hlast (by rw [nil_append]; exact hsize)
      refine ⟨mem, d, rfl, ?_⟩
      rw [nil_append] at hall
      rw [← hall, padPushAll, padPushAll]
      rw [hpieces] at hrun
      obtain ⟨rfl, -⟩ := hrun.tail
      rw [padPush_initial]

end Depayloader

/-! ## The pieces of a picture -/

namespace Payloader

/-- A picture of so many bytes for each pixel: its sides fit into the fields of the line headers,
and its bytes into the allocation of the depayloader. -/
structure Picture (s : Payloader) (bpp : ℤ) (data : List Byte) : Prop where
  width : 1 ≤ s.width ∧ s.width ≤ 32767
  height : 1 ≤ s.height ∧ s.height ≤ 32767
  pixel : 1 ≤ bpp ∧ bpp ≤ maxPayloadBytes
  size : (data.length : ℤ) = s.width * s.height * bpp
  room : s.width * s.height * bpp ≤ capacity

variable {s : Payloader} {bpp : ℤ} {data : List Byte} {chunks : List Chunk} {y : ℕ} {c : Chunk}

theorem Picture.area_le (h : s.Picture bpp data) : s.width * s.height ≤ capacity := by
  have harea : 0 ≤ s.width * s.height :=
    Int.mul_nonneg (by have := h.width; omega) (by have := h.height; omega)
  exact (le_mul_of_one_le_right harea h.pixel.1).trans h.room

/-- A line is not longer than the frame. -/
theorem Picture.line_le (h : s.Picture bpp data) : s.width * bpp ≤ capacity := by
  have hline : 0 ≤ s.width * bpp :=
    Int.mul_nonneg (by have := h.width; omega) (by have := h.pixel; omega)
  calc
    s.width * bpp ≤ s.width * bpp * s.height := le_mul_of_one_le_right hline h.height.1
    _ = s.width * s.height * bpp := by ring
    _ ≤ capacity := h.room

theorem Picture.stride_pos (h : s.Picture bpp data) : 0 < s.width * bpp :=
  Int.mul_pos (by have := h.width; omega) (by have := h.pixel; omega)

theorem Picture.addressed (h : s.Picture bpp data) : s.Addressed bpp := by
  have hcapacity : (capacity : ℤ) = 8388608 := rfl
  have hline := h.line_le
  have hstride := h.stride_pos
  obtain ⟨hwidth, hheight, hpixel, -, hroom⟩ := h
  refine ⟨by omega, hpixel, ?_, ?_⟩
  · have hless : (s.height - 1) * s.width * bpp = s.width * s.height * bpp - s.width * bpp := by ring
    omega
  · have hpixels : 0 ≤ maxPayloadBytes / bpp := Int.ediv_nonneg (by decide) (by omega)
    by_cases hzero : maxPayloadBytes / bpp = 0
    · rw [hzero, mul_zero, zero_mul]
      decide
    · have hoffset := Int.ediv_mul_le (s.width - 1) hzero
      have hscaled := Int.mul_le_mul_of_nonneg_right hoffset (show 0 ≤ bpp by omega)
      have hless : (s.width - 1) * bpp = s.width * bpp - bpp := by ring
      omega

/-- The quotient is the bytes of a pixel. -/
theorem Picture.bppOf_eq (h : s.Picture bpp data) : s.bppOf data.length = .ok bpp := by
  have hcapacity : (capacity : ℤ) = 8388608 := rfl
  have hroom : maxPayloadBytes = 1376 := rfl
  have harea := h.area_le
  obtain ⟨hwidth, hheight, hpixel, hsize, hfits⟩ := h
  have hpos : 0 < s.width * s.height := Int.mul_pos (by omega) (by omega)
  have hbytes : 0 < s.width * s.height * bpp := Int.mul_pos hpos (by omega)
  obtain ⟨bpp', hbpp, -, hlow⟩ := @Payloader.bppOf_eq s data.length
    (by omega) (by omega) (by omega) (by omega)
  have hquotient : data.length / (s.width * s.height).toNat = bpp.toNat := by
    apply Nat.div_eq_of_eq_mul_right (by omega)
    apply Int.ofNat_inj.mp
    rw [Nat.cast_mul, Int.toNat_of_nonneg hpos.le, Int.toNat_of_nonneg (by omega)]
    exact hsize
  have hsame : lowBpp (data.length / (s.width * s.height).toNat) = bpp := by
    rw [hquotient, lowBpp, Nat.mod_eq_of_lt (by omega), if_neg (by omega)]
    omega
  rw [hsame] at hlow
  rw [hbpp, hlow (.inr hpixel.2)]

/-- The pieces of the lines. -/
def framePieces (s : Payloader) (data : List Byte) (bpp : ℤ) (chunks : List Chunk) : List Piece :=
  (range s.height.toNat).flatMap fun y => chunks.map (s.pieceOf data bpp y)

theorem mem_framePieces {p : Piece} (hp : p ∈ s.framePieces data bpp chunks) :
    ∃ y : ℕ, (y : ℤ) < s.height ∧ ∃ c ∈ chunks, p = s.pieceOf data bpp y c := by
  obtain ⟨y, hy, hp⟩ := mem_flatMap.mp hp
  obtain ⟨c, hc, rfl⟩ := mem_map.mp hp
  have := mem_range.mp hy
  exact ⟨y, by omega, c, hc, rfl⟩

theorem mem_framePieces_of (hy : (y : ℤ) < s.height) (hc : c ∈ chunks) :
    s.pieceOf data bpp y c ∈ s.framePieces data bpp chunks :=
  mem_flatMap.mpr ⟨y, mem_range.mpr (by omega), mem_map_of_mem hc⟩

/-- **Only the last piece of a picture is for the last packet**, and it is of the last line. -/
theorem Picture.exists_last (h : s.Picture bpp data)
    (hchunked : Chunked (maxPixels bpp) s.width 0 chunks) :
    ∃ rest last, s.framePieces data bpp chunks = rest ++ [last] ∧
      (∀ p ∈ rest, p.isLastPacket = false) ∧ last.isLastPacket = true ∧
      (last.y : ℤ) = s.height - 1 := by
  obtain ⟨hwidth, hheight, hpixel, -, -⟩ := h
  have hpos := (maxPixels_pos_iff (by omega)).mpr hpixel
  obtain ⟨init, c, rfl, hend, hinit⟩ := hchunked.exists_init (by omega)
  obtain ⟨n, hn⟩ : ∃ n : ℕ, s.height.toNat = n + 1 := ⟨s.height.toNat - 1, by omega⟩
  have hlastLine : (n : ℤ) = s.height - 1 := by omega
  refine ⟨(range n).flatMap (fun y => (init ++ [c]).map (s.pieceOf data bpp y)) ++
    init.map (s.pieceOf data bpp n), s.pieceOf data bpp n c, ?_, ?_, ?_, hlastLine⟩
  · rw [framePieces, hn, range_succ, flatMap_append, flatMap_singleton,
      map_append, append_assoc]
    rfl
  · intro p hp
    rcases mem_append.mp hp with hp | hp
    · obtain ⟨y, hy, hp⟩ := mem_flatMap.mp hp
      obtain ⟨c', -, rfl⟩ := mem_map.mp hp
      have hbefore : ¬ (y : ℤ) = s.height - 1 := by
        have := mem_range.mp hy
        omega
      rw [pieceOf, decide_eq_false hbefore, Bool.false_and]
    · obtain ⟨c', hc', rfl⟩ := mem_map.mp hp
      rw [pieceOf, decide_eq_false (hinit c' hc').ne, Bool.and_false]
  · rw [pieceOf, decide_eq_true hlastLine, decide_eq_true hend, Bool.and_self]

theorem length_pixels (h : s.Addressed bpp) (hsize : s.width * s.height * bpp ≤ data.length)
    (hchunked : Chunked (maxPixels bpp) s.width 0 chunks) (hc : c ∈ chunks)
    (hy : (y : ℤ) < s.height) :
    ((s.pixels data bpp y c).length : ℤ) = c.length * bpp := by
  obtain ⟨-, hinside⟩ := reads_of_addressed h hsize hchunked hc hy
  push Not at hinside
  rw [pixels, length_take, length_drop]
  omega

theorem Picture.placeable (h : s.Picture bpp data)
    (hchunked : Chunked (maxPixels bpp) s.width 0 chunks) {p : Piece}
    (hp : p ∈ s.framePieces data bpp chunks) :
    Depayloader.Placeable (s.width * bpp) p := by
  obtain ⟨y, hy, c, hc, rfl⟩ := mem_framePieces hp
  have hpos := (maxPixels_pos_iff (by have := h.pixel; omega)).mpr h.pixel
  have hoffset := hchunked.bounds hpos c hc
  have hlength := length_pixels h.addressed h.size.ge hchunked hc hy
  have hmost := length_mul_le h.addressed hchunked hc
  have hroom : maxPayloadBytes = 1376 := rfl
  have hcapacity : (capacity : ℤ) = 8388608 := rfl
  have hwidth := h.width
  have hheight := h.height
  refine ⟨⟨?_, ?_, ?_⟩, ?_⟩
  · change y < 2 ^ 15
    omega
  · change 0 ≤ c.offset ∧ c.offset < 2 ^ 15
    omega
  · change (s.pixels data bpp y c).length < 2 ^ 16
    omega
  · have hrow : (y : ℤ) * (s.width * bpp) ≤ s.height * (s.width * bpp) :=
      Int.mul_le_mul_of_nonneg_right hy.le h.stride_pos.le
    have hframe : s.height * (s.width * bpp) = s.width * s.height * bpp := by ring
    have hfits := h.room
    change (y : ℤ) * (s.width * bpp) < 2 ^ 30
    omega

/-! ## Places -/

/-- Where the depayloader puts a piece, and where the payloader took it from. -/
theorem dest_pieceOf (y : ℕ) (c : Chunk) :
    (s.pieceOf data bpp y c).dest (s.width * bpp) =
      y * s.width * bpp + c.offset * bpp + c.offset * (2 - bpp) := by
  rw [Piece.dest, pieceOf]
  ring

/-- The bytes of a piece are the bytes of the frame from where it was taken. -/
theorem getElem?_pixels {i : ℕ}
    (hbegin : y * s.width * bpp + c.offset * bpp ≤ i)
    (hend : (i : ℤ) < y * s.width * bpp + c.offset * bpp + c.length * bpp)
    (hstart : 0 ≤ y * s.width * bpp + c.offset * bpp) :
    (s.pixels data bpp y c)[i - (y * s.width * bpp + c.offset * bpp).toNat]? = data[i]? := by
  rw [pixels, getElem?_take, if_pos (by omega), getElem?_drop]
  congr 1
  omega

/-- **A piece that is put where it was taken from shows the frame.** -/
theorem Picture.copies_same (h : s.Picture bpp data)
    (hchunked : Chunked (maxPixels bpp) s.width 0 chunks) (hc : c ∈ chunks)
    (hy : (y : ℤ) < s.height) (hplace : c.offset * (2 - bpp) = 0) :
    ∃ copy : Copy Byte, (s.pieceOf data bpp y c).copies (s.width * bpp) = [copy] ∧
      (copy.pos : ℤ) = y * s.width * bpp + c.offset * bpp ∧
      (copy.cells.length : ℤ) = c.length * bpp ∧
      copy.Shows (fun i => data.getD i 0) := by
  obtain ⟨-, hinside⟩ := reads_of_addressed h.addressed h.size.ge hchunked hc hy
  push Not at hinside
  have hlength := length_pixels h.addressed h.size.ge hchunked hc hy
  have hdest := @dest_pieceOf s bpp data y c
  rw [hplace, add_zero] at hdest
  have hfits : (s.pieceOf data bpp y c).dest (s.width * bpp) +
      (s.pieceOf data bpp y c).payload.length ≤ capacity := by
    have hend := end_le h.addressed hchunked hc hy
    have hroom := h.room
    change _ + ((s.pixels data bpp y c).length : ℤ) ≤ _
    omega
  refine ⟨_, if_pos hfits, ?_, hlength, ?_⟩
  · rw [hdest]
    exact Int.toNat_of_nonneg hinside.1
  · intro i hcovers
    obtain ⟨hbegin, hend⟩ := hcovers
    dsimp only at hbegin hend ⊢
    rw [hdest] at hbegin hend ⊢
    change _ < _ + (s.pixels data bpp y c).length at hend
    change (s.pixels data bpp y c)[_]? = _
    rw [getElem?_pixels (by omega) (by omega) hinside.1, getD_eq_getElem?_getD,
      getElem?_eq_getElem (by omega)]
    rfl

/-- Pixels have two bytes, or a line is one packet. -/
def Agrees (s : Payloader) (bpp : ℤ) : Prop := bpp = 2 ∨ s.width ≤ maxPayloadBytes / bpp

instance (s : Payloader) (bpp : ℤ) : Decidable (s.Agrees bpp) :=
  inferInstanceAs (Decidable (_ ∨ _))

theorem Picture.same_place (h : s.Picture bpp data) (hagrees : s.Agrees bpp)
    (hchunked : Chunked (maxPixels bpp) s.width 0 chunks) (hc : c ∈ chunks) :
    c.offset * (2 - bpp) = 0 := by
  rcases hagrees with rfl | hwhole
  · rw [sub_self, mul_zero]
  · obtain ⟨hend, k, hk⟩ := hchunked.offset_eq c hc
    rw [maxPixels_of_pos h.pixel.1, zero_add] at hk
    have hwidth := h.width
    have hfirst : k = 0 := by
      by_contra hlater
      have hone : maxPayloadBytes / bpp * 1 ≤ maxPayloadBytes / bpp * k :=
        Int.mul_le_mul_of_nonneg_left (by omega) (by omega)
      omega
    rw [hk, hfirst, Nat.cast_zero, mul_zero, zero_mul]

/-- **Where both ends mean the same place, the frame is filled with its bytes.** -/
theorem Picture.filled_eq (h : s.Picture bpp data) (hagrees : s.Agrees bpp)
    (hchunked : Chunked (maxPixels bpp) s.width 0 chunks) (mem : ℕ → Byte) {i : ℕ}
    (hi : i < data.length) :
    filled (s.width * bpp) (s.framePieces data bpp chunks) mem i = data.getD i 0 := by
  have hstride := h.stride_pos
  have hpixel := h.pixel
  have hpos := (maxPixels_pos_iff (by omega)).mpr hpixel
  apply putAll_of_covers
  · intro copy hcopy
    obtain ⟨p, hp, hcopy⟩ := mem_flatMap.mp hcopy
    obtain ⟨y, hy, c, hc, rfl⟩ := mem_framePieces hp
    obtain ⟨copy', hcopies, -, -, hshows⟩ :=
      h.copies_same hchunked hc hy (h.same_place hagrees hchunked hc)
    rw [hcopies] at hcopy
    obtain rfl := mem_singleton.mp hcopy
    exact hshows
  · -- the line of the cell, and in the line its pixel
    have hsize : (i : ℤ) < s.height * (s.width * bpp) := by
      have hframe : s.height * (s.width * bpp) = s.width * s.height * bpp := by ring
      have := h.size
      omega
    have hline : 0 ≤ (i : ℤ) / (s.width * bpp) := Int.ediv_nonneg (by omega) hstride.le
    have hrest := Int.emod_nonneg (i : ℤ) hstride.ne'
    have hrest' := Int.emod_lt_of_pos (i : ℤ) hstride
    have hcell := Int.emod_add_mul_ediv (i : ℤ) (s.width * bpp)
    have hy : (((i : ℤ) / (s.width * bpp)).toNat : ℤ) < s.height := by
      rw [Int.toNat_of_nonneg hline]
      exact Int.ediv_lt_of_lt_mul hstride hsize
    obtain ⟨c, hc, hlow, hhigh⟩ := hchunked.exists_covering
      (Int.ediv_nonneg hrest (show 0 ≤ bpp by omega))
      (Int.ediv_lt_of_lt_mul (show 0 < bpp by omega) hrest')
    obtain ⟨copy, hcopies, hbegin, hlength, -⟩ :=
      h.copies_same hchunked hc hy (h.same_place hagrees hchunked hc)
    refine ⟨copy, mem_flatMap.mpr ⟨_, mem_framePieces_of hy hc, hcopies ▸
      mem_singleton.mpr rfl⟩, ?_⟩
    have hleft : c.offset * bpp ≤ (i : ℤ) % (s.width * bpp) :=
      (Int.mul_le_mul_of_nonneg_right hlow (by omega)).trans (Int.ediv_mul_le _ (by omega))
    have hright : (i : ℤ) % (s.width * bpp) < c.offset * bpp + c.length * bpp := by
      rw [← add_mul]
      exact (Int.ediv_lt_iff_lt_mul (by omega)).mp hhigh
    rw [Int.toNat_of_nonneg hline] at hbegin
    have hrow : (i : ℤ) / (s.width * bpp) * s.width * bpp =
        s.width * bpp * ((i : ℤ) / (s.width * bpp)) := by ring
    rw [hrow] at hbegin
    exact ⟨by omega, by omega⟩

/-! ## The byte that is not reached -/

/-- Where the copies of a piece are. -/
theorem Picture.copies_at (h : s.Picture bpp data)
    (hchunked : Chunked (maxPixels bpp) s.width 0 chunks) (hc : c ∈ chunks)
    (hy : (y : ℤ) < s.height) {copy : Copy Byte}
    (hcopy : copy ∈ (s.pieceOf data bpp y c).copies (s.width * bpp)) :
    (copy.pos : ℤ) = y * s.width * bpp + c.offset * 2 ∧
      (copy.cells.length : ℤ) = c.length * bpp := by
  have hpos := (maxPixels_pos_iff (by have := h.pixel; omega)).mpr h.pixel
  have hlength := length_pixels h.addressed h.size.ge hchunked hc hy
  have hoffset := (hchunked.bounds hpos c hc).1
  have hrow : 0 ≤ (y : ℤ) * (s.width * bpp) := Int.mul_nonneg (by omega) h.stride_pos.le
  have hdest : (s.pieceOf data bpp y c).dest (s.width * bpp) =
      y * (s.width * bpp) + c.offset * 2 := rfl
  rw [Piece.copies] at hcopy
  split at hcopy
  · obtain rfl := mem_singleton.mp hcopy
    refine ⟨?_, hlength⟩
    dsimp only
    rw [hdest, Int.toNat_of_nonneg (by omega), mul_assoc]
  · cases hcopy

/-- With larger pixels, the last packet of a line ends before the line does. -/
theorem Picture.ends_early (h : s.Picture bpp data) (hlarge : 2 < bpp)
    (hsplit : maxPayloadBytes / bpp < s.width)
    (hchunked : Chunked (maxPixels bpp) s.width 0 chunks) (hc : c ∈ chunks) :
    c.offset * 2 + c.length * bpp < s.width * bpp := by
  have hpos := (maxPixels_pos_iff (by omega)).mpr h.pixel
  obtain ⟨hoffset, hlength, hmost, hend⟩ := hchunked.bounds hpos c hc
  rw [maxPixels_of_pos h.pixel.1] at hmost
  rcases hoffset.eq_or_lt with hfirst | hlater
  · have hless : c.length * bpp < s.width * bpp :=
      Int.mul_lt_mul_of_pos_right (by omega) (by omega)
    omega
  · have hbytes : c.offset * 2 < c.offset * bpp := Int.mul_lt_mul_of_pos_left hlarge hlater
    have hline : (c.offset + c.length) * bpp ≤ s.width * bpp :=
      Int.mul_le_mul_of_nonneg_right hend (by omega)
    rw [add_mul] at hline
    omega

/-- **Where the ends mean different places, no packet reaches some byte.**  With larger pixels it
is the last; with pixels of one byte, it is the one behind the first packet. -/
theorem Picture.exists_uncovered (h : s.Picture bpp data) (hagrees : ¬ s.Agrees bpp)
    (hchunked : Chunked (maxPixels bpp) s.width 0 chunks) :
    ∃ i < data.length, ∀ copy ∈ (s.framePieces data bpp chunks).flatMap
      (Piece.copies (s.width * bpp)), ¬ copy.Covers i := by
  obtain ⟨htwo, hsplit⟩ := not_or.mp hagrees
  have hpixel := h.pixel
  have hsize := h.size
  have hstride := h.stride_pos
  have hframe : s.width * bpp * s.height = s.width * s.height * bpp := by ring
  have hwhole : s.width * bpp ≤ s.width * bpp * s.height :=
    le_mul_of_one_le_right hstride.le h.height.1
  rcases (show bpp = 1 ∨ 2 < bpp by omega) with rfl | hlarge
  · refine ⟨1376, by rw [maxPayloadBytes] at hsplit; omega, fun copy hcopy hcovers => ?_⟩
    obtain ⟨p, hp, hcopy⟩ := mem_flatMap.mp hcopy
    obtain ⟨y, hy, c, hc, rfl⟩ := mem_framePieces hp
    obtain ⟨hbegin, hlength⟩ := h.copies_at hchunked hc hy hcopy
    obtain ⟨hlow, hhigh⟩ := hcovers
    obtain ⟨-, k, hk⟩ := hchunked.offset_eq c hc
    have hmost := length_mul_le h.addressed hchunked hc
    rw [maxPixels_of_pos le_rfl, zero_add] at hk
    simp only [maxPayloadBytes, Int.ediv_one, mul_one] at hk hsplit hbegin hlength hmost
    rcases Nat.eq_zero_or_pos y with rfl | hlater
    · rw [Nat.cast_zero, zero_mul, zero_add] at hbegin
      omega
    · have hrow : 1 * s.width ≤ (y : ℤ) * s.width :=
        Int.mul_le_mul_of_nonneg_right (by omega) (by omega)
      omega
  · refine ⟨data.length - 1, by omega, fun copy hcopy hcovers => ?_⟩
    obtain ⟨p, hp, hcopy⟩ := mem_flatMap.mp hcopy
    obtain ⟨y, hy, c, hc, rfl⟩ := mem_framePieces hp
    obtain ⟨hbegin, hlength⟩ := h.copies_at hchunked hc hy hcopy
    obtain ⟨-, hhigh⟩ := hcovers
    have hearly := h.ends_early hlarge (not_le.mp hsplit) hchunked hc
    have hrow := Payloader.line_le h.addressed hy
    have hlast : (s.height - 1) * s.width * bpp = s.width * s.height * bpp - s.width * bpp := by
      ring
    omega

/-! ## The round trip -/

/-- For every allocation, the packets of the frame come out of a depayloader for its lines as one
frame, with the size and the bytes of the frame. -/
def RoundTrips (s : Payloader) (bpp : ℤ) (buf : Rtp.Buffer) : Prop :=
  ∃ turns s' packets, s.padPush turns buf = .ok (s', packets) ∧
    ∀ run, Depayloader.Supplied packets run →
      ∃ d frame, Depayloader.padPushAll run (Depayloader.initial (s.width * bpp)) =
        .ok (d, [frame]) ∧ frame.size = s.width * s.height * bpp ∧ frame.bytes = buf.data

/-- The bytes of a frame are those of the buffer when every cell is. -/
theorem bytes_eq_iff {frame : Frame} (hsize : frame.size = data.length) :
    frame.bytes = data ↔ ∀ i < data.length, frame.mem i = data.getD i 0 := by
  have hcount : frame.size.toNat = data.length := by omega
  rw [Frame.bytes, hcount]
  constructor
  · intro hbytes i hi
    have hcell : ((range data.length).map frame.mem)[i]? = some (frame.mem i) := by
      rw [getElem?_map, getElem?_range hi]
      rfl
    rw [hbytes] at hcell
    rw [getD_eq_getElem?_getD, hcell]
    rfl
  · intro hcells
    apply ext_getElem?
    intro i
    by_cases hi : i < data.length
    · rw [getElem?_map, getElem?_range hi, Option.map_some, hcells i hi,
        getD_eq_getElem?_getD, getElem?_eq_getElem hi]
      rfl
    · rw [getElem?_eq_none (by rw [length_map, length_range]; omega),
        getElem?_eq_none (by omega)]

/-- The call sends the packets of the pieces, in as many turns as the loop over a line takes. -/
theorem Picture.padPush_eq (h : s.Picture bpp data) {turns : ℕ} {pts : BitVec 64} {s' : Payloader}
    {packets : List Rtp.Buffer} (hpush : s.padPush turns ⟨data, pts, false⟩ = .ok (s', packets)) :
    ∃ chunks, Chunked (maxPixels bpp) s.width 0 chunks ∧
      packets = (makeAll pts (s.framePieces data bpp chunks) s).2 := by
  have hwidth := h.width
  have hheight := h.height
  rw [padPush, if_neg Bool.false_ne_true] at hpush
  cases hloop : chunkLoop (maxPixels bpp) s.width turns 0 with
  | none =>
      obtain ⟨fault, hfault⟩ := pieces_endless h.bppOf_eq hloop (by omega)
      rw [hfault] at hpush
      cases hpush
  | some chunks =>
      have hchunked := chunked_of_chunkLoop hloop
      have hpieces := pieces_eq_ok h.bppOf_eq hloop fun y hy c hc =>
        reads_of_addressed h.addressed h.size.ge hchunked hc hy
      rw [hpieces] at hpush
      exact ⟨chunks, hchunked, (Prod.mk.inj (Except.ok.inj hpush)).2.symm⟩

/-- **What comes out of the depayloader**: one frame of the right size, with the copies of the
pieces in the memory that the first allocation gave. -/
theorem Picture.padPushAll_eq (h : s.Picture bpp data)
    (hchunked : Chunked (maxPixels bpp) s.width 0 chunks) {pts : BitVec 64}
    {run : List (Rtp.Buffer × Option (ℕ → Byte))}
    (hrun : Depayloader.Supplied (makeAll pts (s.framePieces data bpp chunks) s).2 run) :
    ∃ mem d frame, run.head?.bind Prod.snd = some mem ∧
      Depayloader.padPushAll run (Depayloader.initial (s.width * bpp)) = .ok (d, [frame]) ∧
      frame.size = s.width * s.height * bpp ∧
      frame.mem = filled (s.width * bpp) (s.framePieces data bpp chunks) mem := by
  have hplace := fun p => h.placeable hchunked (p := p)
  obtain ⟨rest, last, hpieces, hmore, hlast, hline⟩ := h.exists_last hchunked
  have hhighest : highest (rest ++ [last]) = last.y := by
    rw [highest_append_singleton]
    apply max_eq_right
    apply highest_le
    intro p hp
    obtain ⟨y, hy, c, -, rfl⟩ := mem_framePieces (hpieces ▸ mem_append_left [last] hp)
    change y ≤ last.y
    omega
  have hsize : s.width * bpp * ((highest (rest ++ [last]) : ℤ) + 1) =
      s.width * s.height * bpp := by
    rw [hhighest, hline]
    ring
  rw [hpieces] at hplace hrun ⊢
  obtain ⟨mem, d, hmem, hpush⟩ := Depayloader.padPushAll_initial h.stride_pos hrun hplace hmore
    hlast (by
      have hroom := h.room
      have hcapacity : (capacity : ℤ) = 8388608 := rfl
      omega)
  exact ⟨mem, d, _, hmem, hpush, hsize, rfl⟩

theorem roundTrips_of_agrees (h : s.Picture bpp data) (hagrees : s.Agrees bpp)
    (pts : BitVec 64) : s.RoundTrips bpp ⟨data, pts, false⟩ := by
  obtain ⟨turns, chunks, hchunked, hpieces⟩ :=
    pieces_of_addressed h.addressed h.bppOf_eq h.size.ge
  refine ⟨turns, (makeAll pts (s.framePieces data bpp chunks) s).1,
    (makeAll pts (s.framePieces data bpp chunks) s).2, ?_, fun run hrun => ?_⟩
  · rw [padPush, if_neg Bool.false_ne_true, hpieces]
    rfl
  · obtain ⟨mem, d, frame, -, hpush, hsize, hmem⟩ := h.padPushAll_eq hchunked hrun
    refine ⟨d, frame, hpush, hsize, (bytes_eq_iff (hsize.trans h.size.symm)).mpr fun i hi => ?_⟩
    rw [hmem]
    exact h.filled_eq hagrees hchunked mem hi

theorem agrees_of_roundTrips (h : s.Picture bpp data) {pts : BitVec 64}
    (htrip : s.RoundTrips bpp ⟨data, pts, false⟩) : s.Agrees bpp := by
  by_contra hagrees
  obtain ⟨turns, s', packets, hpush, hall⟩ := htrip
  obtain ⟨chunks, hchunked, rfl⟩ := h.padPush_eq hpush
  obtain ⟨i, hi, huncovered⟩ := h.exists_uncovered hagrees hchunked
  have hbyte : Nontrivial Byte := ⟨0, 1, by decide⟩
  obtain ⟨mem, hother⟩ := exists_putAll_ne huncovered (fun i => data.getD i 0)
  have hrun := Depayloader.supplied_map (makeAll pts (s.framePieces data bpp chunks) s).2 mem
  obtain ⟨d, frame, hframe, hsize, hbytes⟩ := hall _ hrun
  obtain ⟨mem', d', frame', hmem', hframe', -, hfilled⟩ := h.padPushAll_eq hchunked hrun
  obtain ⟨-, hsame⟩ := Prod.mk.inj (Except.ok.inj (hframe.symm.trans hframe'))
  obtain rfl := head_eq_of_cons_eq hsame
  have hmemory := Depayloader.eq_of_head_map hmem'
  have hcell := (bytes_eq_iff (hsize.trans h.size.symm)).mp hbytes i hi
  rw [hfilled, hmemory] at hcell
  exact hother hcell

end Payloader

/-- **When a frame of raw video comes back.**  For every picture and every frame of it: exactly
when pixels have two bytes or a line is one packet. -/
theorem frame_round_trip (s : Payloader) {bpp : ℤ} {data : List Byte} (h : s.Picture bpp data)
    (pts : BitVec 64) :
    s.RoundTrips bpp ⟨data, pts, false⟩ ↔ bpp = 2 ∨ s.width ≤ maxPayloadBytes / bpp :=
  ⟨Payloader.agrees_of_roundTrips h, fun hagrees => Payloader.roundTrips_of_agrees h hagrees pts⟩

/-- A payloader for a line of so many pixels. -/
def lineOf (width : ℤ) : Payloader where
  width := width
  height := 1
  sampling := "YCbCr-4:4:4"
  rtpPt := 96
  ssrc := 0x21102000
  seq := 0
  packets := 0
  bytes := 0

/-- Three lines of 1000 pixels of two bytes; each line takes two packets. -/
def splitLines : Payloader := { lineOf 1000 with height := 3, sampling := "YCbCr-4:2:2" }

theorem frame_round_trip_splitLines :
    splitLines.RoundTrips 2 ⟨(range 6000).map (BitVec.ofNat 8), 0, false⟩ := by
  have hpicture : splitLines.Picture 2 ((range 6000).map (BitVec.ofNat 8)) :=
    ⟨by decide, by decide, by decide, by rw [length_map, length_range]; rfl, by decide⟩
  exact (frame_round_trip splitLines hpicture 0).mpr (.inl rfl)

/-- A line of 459 pixels of three bytes is two packets, and the second is put at the wrong place. -/
theorem line_is_damaged :
    (lineOf 459).Picture 3 (replicate 1377 0) ∧
      ¬ (lineOf 459).RoundTrips 3 ⟨replicate 1377 0, 0, false⟩ := by
  have hpicture : (lineOf 459).Picture 3 (replicate 1377 0) :=
    ⟨by decide, by decide, by decide, by rw [length_replicate]; rfl, by decide⟩
  refine ⟨hpicture, fun htrip => ?_⟩
  exact absurd (Payloader.agrees_of_roundTrips hpicture htrip) (by decide)

end Zstreamer.St2110.Video

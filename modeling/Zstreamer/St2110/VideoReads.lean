/-
# When the ST 2110-20 payloader reads only its input

The quotient that the payloader takes for the bytes of a pixel is any number, as the
buffer is of any size.  A pixel that is larger than a packet leaves no pixels for one, and
the loop over a line stands still; a buffer that is smaller than the picture is read
beyond its end.
-/

import Zstreamer.St2110.VideoPayloader

namespace Zstreamer.St2110.Video

open Foundation Rtp

/-! ## Pixels of a packet -/

theorem maxPixels_of_pos {bpp : ℤ} (hpos : 1 ≤ bpp) : maxPixels bpp = maxPayloadBytes / bpp := by
  have haligned : maxPayloadBytes - maxPayloadBytes % bpp = bpp * (maxPayloadBytes / bpp) := by
    have := Int.emod_add_mul_ediv maxPayloadBytes bpp
    omega
  have hnonneg : 0 ≤ bpp * (maxPayloadBytes / bpp) :=
    Int.mul_nonneg (by omega) (Int.ediv_nonneg (by decide) (by omega))
  rw [maxPixels, Int.tmod_eq_emod_of_nonneg (by decide), haligned,
    Int.tdiv_eq_ediv_of_nonneg hnonneg, Int.mul_ediv_cancel_left _ (by omega)]

theorem maxPixels_of_neg {bpp : ℤ} (hneg : bpp < 0) : maxPixels bpp ≤ 0 := by
  have hmod : maxPayloadBytes.tmod bpp ≤ maxPayloadBytes := by
    have hquotient : maxPayloadBytes.tdiv bpp ≤ 0 :=
      Int.tdiv_nonpos_of_nonneg_of_nonpos (by decide) (by omega)
    have hproduct := Int.mul_nonneg_of_nonpos_of_nonpos hneg.le hquotient
    have := Int.tmod_add_mul_tdiv maxPayloadBytes bpp
    omega
  rw [maxPixels]
  exact Int.tdiv_nonpos_of_nonneg_of_nonpos (by omega) (by omega)

/-- A packet has room for a pixel exactly when the pixel is not larger. -/
theorem maxPixels_pos_iff {bpp : ℤ} (hzero : bpp ≠ 0) :
    1 ≤ maxPixels bpp ↔ 1 ≤ bpp ∧ bpp ≤ maxPayloadBytes := by
  rcases lt_or_gt_of_ne hzero with hneg | hpos
  · have := maxPixels_of_neg hneg
    omega
  · rw [maxPixels_of_pos hpos, Int.le_ediv_iff_mul_le hpos]
    omega

/-- The chunk fits and is read, when its numbers are numbers of the machine. -/
def Reads (s : Payloader) (size : ℕ) (bpp : ℤ) (y : ℕ) (c : Chunk) : Prop :=
  (IsInt (y * s.width) ∧ IsInt (y * s.width * bpp) ∧ IsInt (c.offset * bpp) ∧
    IsInt (c.length * bpp)) ∧
  ¬ (y * s.width * bpp + c.offset * bpp < 0 ∨ c.length * bpp < 0 ∨
    size < y * s.width * bpp + c.offset * bpp + c.length * bpp)

namespace Payloader

variable {s : Payloader} {data : List Byte} {bpp : ℤ} {y : ℕ} {c : Chunk} {turns : ℕ}

/-- The bytes of the pixels of a chunk of a line. -/
def pixels (s : Payloader) (data : List Byte) (bpp : ℤ) (y : ℕ) (c : Chunk) : List Byte :=
  (data.drop (y * s.width * bpp + c.offset * bpp).toNat).take (c.length * bpp).toNat

/-- The piece of a chunk of a line. -/
def pieceOf (s : Payloader) (data : List Byte) (bpp : ℤ) (y : ℕ) (c : Chunk) : Piece where
  y := y
  x := c.offset
  payload := s.pixels data bpp y c
  isLastPacket := y = s.height - 1 && c.offset + c.length = s.width

theorem piece_eq_ok (hreads : Reads s data.length bpp y c) :
    s.piece data bpp y c = .ok (s.pieceOf data bpp y c) := by
  rw [piece, readPixels, if_neg (not_not.mpr hreads.1), if_neg hreads.2]
  rfl

theorem piece_eq_error (hreads : ¬ Reads s data.length bpp y c) :
    ∃ fault, s.piece data bpp y c = .error fault := by
  rw [piece, readPixels]
  split
  · exact ⟨_, rfl⟩
  · rename_i hints
    rw [if_pos]
    · exact ⟨_, rfl⟩
    · by_contra hinside
      exact hreads ⟨not_not.mp hints, hinside⟩

/-- The pieces of a frame all of whose chunks are read. -/
theorem pieces_eq_ok {chunks : List Chunk} (hbpp : s.bppOf data.length = .ok bpp)
    (hloop : chunkLoop (maxPixels bpp) s.width turns 0 = some chunks)
    (hreads : ∀ y : ℕ, y < s.height → ∀ c ∈ chunks, Reads s data.length bpp y c) :
    s.pieces turns data = .ok ((List.range s.height.toNat).flatMap fun y =>
      chunks.map (s.pieceOf data bpp y)) := by
  have hlines : (List.range s.height.toNat).mapM (s.linePieces turns data bpp) =
      .ok ((List.range s.height.toNat).map fun y => chunks.map (s.pieceOf data bpp y)) := by
    apply mapM_eq_ok
    intro y hy
    have hline : (y : ℤ) < s.height := by
      have := List.mem_range.mp hy
      omega
    rw [linePieces, hloop]
    exact mapM_eq_ok fun c hc => piece_eq_ok (hreads y hline c hc)
  rw [pieces, hbpp, List.flatMap_def]
  exact congrArg (fun lines => lines >>= fun lines => .ok lines.flatten) hlines

/-- No frame comes out of a line whose loop does not end. -/
theorem pieces_endless (hbpp : s.bppOf data.length = .ok bpp)
    (hendless : chunkLoop (maxPixels bpp) s.width turns 0 = none) (hheight : 0 < s.height) :
    ∃ fault, s.pieces turns data = .error fault := by
  have hline : s.linePieces turns data bpp 0 = .error .endless := by
    rw [linePieces, hendless]
  obtain ⟨fault, hfault⟩ := mapM_eq_error (List.mem_range.mpr (by omega : 0 < s.height.toNat)) hline
  refine ⟨fault, ?_⟩
  rw [pieces, hbpp]
  exact congrArg (fun lines => lines >>= fun lines => .ok lines.flatten) hfault

/-- No frame comes out of a chunk that is not read. -/
theorem pieces_eq_error {chunks : List Chunk} (hbpp : s.bppOf data.length = .ok bpp)
    (hloop : chunkLoop (maxPixels bpp) s.width turns 0 = some chunks)
    (hy : (y : ℤ) < s.height) (hc : c ∈ chunks) (hreads : ¬ Reads s data.length bpp y c) :
    ∃ fault, s.pieces turns data = .error fault := by
  obtain ⟨fault, hpiece⟩ := piece_eq_error hreads
  obtain ⟨fault, hmap⟩ := mapM_eq_error hc hpiece
  have hline : s.linePieces turns data bpp y = .error fault := by
    rw [linePieces, hloop]
    exact hmap
  obtain ⟨fault, hfault⟩ := mapM_eq_error (List.mem_range.mpr (by omega : y < s.height.toNat)) hline
  refine ⟨fault, ?_⟩
  rw [pieces, hbpp]
  exact congrArg (fun lines => lines >>= fun lines => .ok lines.flatten) hfault

/-! ## Chunks of a line -/

/-- The lines of a picture and the packets of a line begin where an `int` can say. -/
structure Addressed (s : Payloader) (bpp : ℤ) : Prop where
  width : 0 < s.width
  pixel : 1 ≤ bpp ∧ bpp ≤ maxPayloadBytes
  lines : (s.height - 1) * s.width * bpp < 2 ^ 31
  offsets : (s.width - 1) / (maxPayloadBytes / bpp) * (maxPayloadBytes / bpp) * bpp < 2 ^ 31

theorem line_le (h : s.Addressed bpp) (hy : (y : ℤ) < s.height) :
    y * s.width * bpp ≤ (s.height - 1) * s.width * bpp := by
  have hwidth := h.width
  have hbpp := h.pixel.1
  apply Int.mul_le_mul_of_nonneg_right _ (by omega)
  exact Int.mul_le_mul_of_nonneg_right (by omega) (by omega)

/-- The last packet of a line begins at a multiple of the pixels of a packet. -/
theorem offset_le {chunks : List Chunk} (h : s.Addressed bpp)
    (hchunked : Chunked (maxPixels bpp) s.width 0 chunks) (hc : c ∈ chunks) :
    c.offset * bpp ≤
      (s.width - 1) / (maxPayloadBytes / bpp) * (maxPayloadBytes / bpp) * bpp := by
  have hpos := (maxPixels_pos_iff (by have := h.pixel; omega)).mpr h.pixel
  obtain ⟨hend, k, hk⟩ := hchunked.offset_eq c hc
  rw [maxPixels_of_pos h.pixel.1] at hpos hk
  have hturn : (k : ℤ) ≤ (s.width - 1) / (maxPayloadBytes / bpp) := by
    rw [Int.le_ediv_iff_mul_le (by omega), mul_comm]
    omega
  have hbpp := h.pixel.1
  apply Int.mul_le_mul_of_nonneg_right _ (by omega)
  rw [hk, zero_add, mul_comm]
  exact Int.mul_le_mul_of_nonneg_right hturn (by omega)

theorem length_mul_le {chunks : List Chunk} (h : s.Addressed bpp)
    (hchunked : Chunked (maxPixels bpp) s.width 0 chunks) (hc : c ∈ chunks) :
    c.length * bpp ≤ maxPayloadBytes := by
  have hbpp := h.pixel.1
  have hpos := (maxPixels_pos_iff (by omega)).mpr h.pixel
  have hlength := (hchunked.bounds hpos c hc).2.2.1
  rw [maxPixels_of_pos hbpp] at hlength
  calc
    c.length * bpp ≤ maxPayloadBytes / bpp * bpp :=
      Int.mul_le_mul_of_nonneg_right hlength (by omega)
    _ ≤ maxPayloadBytes := Int.ediv_mul_le _ (by omega)

/-- A chunk ends within its line, and the lines end with the picture. -/
theorem end_le {chunks : List Chunk} (h : s.Addressed bpp)
    (hchunked : Chunked (maxPixels bpp) s.width 0 chunks) (hc : c ∈ chunks)
    (hy : (y : ℤ) < s.height) :
    y * s.width * bpp + c.offset * bpp + c.length * bpp ≤ s.width * s.height * bpp := by
  have hbpp := h.pixel.1
  have hpos := (maxPixels_pos_iff (by omega)).mpr h.pixel
  have hend := (hchunked.bounds hpos c hc).2.2.2
  calc
    y * s.width * bpp + c.offset * bpp + c.length * bpp
        = y * s.width * bpp + (c.offset + c.length) * bpp := by ring
    _ ≤ (s.height - 1) * s.width * bpp + s.width * bpp :=
      add_le_add (line_le h hy) (Int.mul_le_mul_of_nonneg_right hend (by omega))
    _ = s.width * s.height * bpp := by ring

/-- **Every chunk of a picture that the buffer has is read.** -/
theorem reads_of_addressed {chunks : List Chunk} (h : s.Addressed bpp)
    (hsize : s.width * s.height * bpp ≤ data.length)
    (hchunked : Chunked (maxPixels bpp) s.width 0 chunks) (hc : c ∈ chunks)
    (hy : (y : ℤ) < s.height) : Reads s data.length bpp y c := by
  have hbpp := h.pixel.1
  have hwidth := h.width
  have hpos := (maxPixels_pos_iff (by omega)).mpr h.pixel
  obtain ⟨hoffset, hlength, -, -⟩ := hchunked.bounds hpos c hc
  have hrow : 0 ≤ (y : ℤ) * s.width := Int.mul_nonneg (by omega) (by omega)
  have hline : y * s.width ≤ y * s.width * bpp := le_mul_of_one_le_right hrow hbpp
  have hpixel : 0 ≤ c.offset * bpp := Int.mul_nonneg hoffset (by omega)
  have hbytes : 0 ≤ c.length * bpp := Int.mul_nonneg (by omega) (by omega)
  have hlines := h.lines
  have hoffsets := h.offsets
  have hlast := line_le h hy
  have hfirst := offset_le h hchunked hc
  have hmost := length_mul_le h hchunked hc
  have hend := end_le h hchunked hc hy
  have hroom : maxPayloadBytes = 1376 := rfl
  exact ⟨⟨⟨by omega, by omega⟩, ⟨by omega, by omega⟩, ⟨by omega, by omega⟩, by omega, by omega⟩,
    by omega⟩

/-- The loop over a line ends, and the frame is cut. -/
theorem pieces_of_addressed (h : s.Addressed bpp) (hbpp : s.bppOf data.length = .ok bpp)
    (hsize : s.width * s.height * bpp ≤ data.length) :
    ∃ turns chunks, Chunked (maxPixels bpp) s.width 0 chunks ∧
      s.pieces turns data = .ok ((List.range s.height.toNat).flatMap fun y =>
        chunks.map (s.pieceOf data bpp y)) := by
  have hpixel := h.pixel
  have hpos := (maxPixels_pos_iff (by omega)).mpr hpixel
  have hturns : s.width - 0 ≤ (s.width.toNat : ℤ) := by omega
  obtain ⟨chunks, hloop⟩ := chunkLoop_ends hpos hturns
  have hchunked := chunked_of_chunkLoop hloop
  exact ⟨_, chunks, hchunked, pieces_eq_ok hbpp hloop fun y hy c hc =>
    reads_of_addressed h hsize hchunked hc hy⟩

/-- A frame that is cut has its last line read to the end. -/
theorem addressed_of_pieces {pieces : List Piece} (hwidth : 0 < s.width) (hheight : 0 < s.height)
    (hzero : bpp ≠ 0) (hbpp : s.bppOf data.length = .ok bpp)
    (hpieces : s.pieces turns data = .ok pieces) :
    s.Addressed bpp ∧ s.width * s.height * bpp ≤ data.length := by
  cases hloop : chunkLoop (maxPixels bpp) s.width turns 0 with
  | none =>
      obtain ⟨fault, hfault⟩ := pieces_endless hbpp hloop hheight
      rw [hpieces] at hfault
      cases hfault
  | some chunks =>
      have hpos : 1 ≤ maxPixels bpp := by
        by_contra hnone
        rw [chunkLoop_endless (by omega) hwidth] at hloop
        cases hloop
      have hreads : ∀ y : ℕ, (y : ℤ) < s.height → ∀ c ∈ chunks, Reads s data.length bpp y c := by
        intro y hy c hc
        by_contra hnot
        obtain ⟨fault, hfault⟩ := pieces_eq_error hbpp hloop hy hc hnot
        rw [hpieces] at hfault
        cases hfault
      have hpixel := (maxPixels_pos_iff hzero).mp hpos
      have hchunked := chunked_of_chunkLoop hloop
      obtain ⟨init, c, hinit, hend, -⟩ := hchunked.exists_init hwidth
      have hc : c ∈ chunks := hinit ▸ List.mem_append_right init List.mem_cons_self
      have hlast : ((s.height - 1).toNat : ℤ) = s.height - 1 := Int.toNat_of_nonneg (by omega)
      obtain ⟨⟨-, hline, -, -⟩, hinside⟩ := hreads (s.height - 1).toNat (by omega) c hc
      rw [hlast] at hline hinside
      refine ⟨⟨hwidth, hpixel, hline.2, ?_⟩, ?_⟩
      · -- the last packet of the first line
        have hturns : 0 ≤ (s.width - 1) / maxPixels bpp := Int.ediv_nonneg (by omega) (by omega)
        have hbegin := Int.ediv_mul_le (s.width - 1) (show maxPixels bpp ≠ 0 by omega)
        have hindex : 0 + maxPixels bpp * ((((s.width - 1) / maxPixels bpp).toNat : ℕ) : ℤ) =
            (s.width - 1) / maxPixels bpp * maxPixels bpp := by
          rw [Int.toNat_of_nonneg hturns]
          ring
        obtain ⟨c', hc', hoffset⟩ := hchunked.exists_chunk (by rw [hindex]; omega) hpos
        obtain ⟨⟨-, -, hoffsets, -⟩, -⟩ := hreads 0 (by exact_mod_cast hheight) c' hc'
        rw [hoffset, hindex, maxPixels_of_pos hpixel.1] at hoffsets
        exact hoffsets.2
      · push Not at hinside
        have hpicture : (s.height - 1) * s.width * bpp + c.offset * bpp + c.length * bpp =
            s.width * s.height * bpp := by
          rw [← hend]
          ring
        omega

/-! ## The quotient -/

/-- The low bits of a quotient as an `int`, and what stands for none. -/
def lowBpp (quotient : ℕ) : ℤ :=
  if quotient % 2 ^ 32 = 0 then 2 else (quotient % 2 ^ 32 : ℕ)

theorem bppOf_eq_default {size : ℕ} (hsize : size = 0) : s.bppOf size = .ok s.defaultBpp := by
  rw [bppOf, if_neg fun hpos => absurd hsize hpos.2.2.ne']

theorem toInt_quotient (quotient : ℕ) :
    (BitVec.ofNat 32 quotient).toInt =
      if quotient % 2 ^ 32 < 2 ^ 31 then ((quotient % 2 ^ 32 : ℕ) : ℤ)
      else ((quotient % 2 ^ 32 : ℕ) : ℤ) - 2 ^ 32 := by
  rw [BitVec.toInt_eq_toNat_cond, BitVec.toNat_ofNat]
  split <;> split <;> omega

/-- The bytes of a pixel are what the low bits say, or not positive. -/
theorem bppOf_eq {size : ℕ} (hwidth : 0 < s.width) (hheight : 0 < s.height)
    (harea : s.width * s.height < 2 ^ 31) (hsize : 0 < size) :
    ∃ bpp, s.bppOf size = .ok bpp ∧ bpp ≠ 0 ∧
      (1 ≤ bpp ∨ lowBpp (size / (s.width * s.height).toNat) ≤ maxPayloadBytes →
        bpp = lowBpp (size / (s.width * s.height).toNat)) := by
  have hpos : 0 < s.width * s.height := Int.mul_pos hwidth hheight
  have hroom : maxPayloadBytes = 1376 := rfl
  refine ⟨_, by rw [bppOf, if_pos ⟨hwidth, hheight, hsize⟩, if_pos ⟨by omega, harea⟩], ?_, ?_⟩
  · split
    · decide
    · assumption
  · rw [toInt_quotient, lowBpp]
    have hlow := Nat.mod_lt (size / (s.width * s.height).toNat) (show 0 < 2 ^ 32 by decide)
    generalize (size / (s.width * s.height).toNat) % 2 ^ 32 = low at hlow ⊢
    intro hcase
    by_cases hzero : low = 0
    · subst hzero
      rfl
    · by_cases hsmall : low < 2 ^ 31
      · rw [if_pos hsmall, if_neg hzero, if_neg (by omega)]
      · rw [if_neg hsmall, if_neg hzero, if_neg (by omega)] at hcase
        omega

/-- The buffer has a byte for every pixel at least.  What the low 32 bits of the quotient say is
not larger than a packet, and the lines of such a picture and the packets of a line begin where
an `int` can say. -/
def Readable (s : Payloader) (size : ℕ) : Prop :=
  let quotient := size / (s.width * s.height).toNat
  let bpp := lowBpp quotient
  1 ≤ quotient ∧ bpp ≤ maxPayloadBytes ∧ (s.height - 1) * s.width * bpp < 2 ^ 31 ∧
    (s.width - 1) / (maxPayloadBytes / bpp) * (maxPayloadBytes / bpp) * bpp < 2 ^ 31

instance (s : Payloader) (size : ℕ) : Decidable (s.Readable size) :=
  inferInstanceAs (Decidable (_ ∧ _))

theorem one_le_lowBpp (quotient : ℕ) : 1 ≤ lowBpp quotient := by
  rw [lowBpp]
  split <;> omega

/-- A picture of as many bytes as the quotient says is not larger than the buffer. -/
theorem picture_le {size : ℕ} (hwidth : 0 < s.width) (hheight : 0 < s.height)
    (hquotient : 1 ≤ size / (s.width * s.height).toNat) :
    s.width * s.height * lowBpp (size / (s.width * s.height).toNat) ≤ size := by
  have hpos : 0 < s.width * s.height := Int.mul_pos hwidth hheight
  have harea : (((s.width * s.height).toNat : ℕ) : ℤ) = s.width * s.height :=
    Int.toNat_of_nonneg hpos.le
  have hle : lowBpp (size / (s.width * s.height).toNat) ≤
      ((size / (s.width * s.height).toNat : ℕ) : ℤ) := by
    rw [lowBpp]
    have hmod := Nat.mod_le (size / (s.width * s.height).toNat) (2 ^ 32)
    split <;> omega
  calc
    s.width * s.height * lowBpp (size / (s.width * s.height).toNat)
        ≤ s.width * s.height * ((size / (s.width * s.height).toNat : ℕ) : ℤ) :=
      Int.mul_le_mul_of_nonneg_left hle hpos.le
    _ = (((s.width * s.height).toNat * (size / (s.width * s.height).toNat) : ℕ) : ℤ) := by
      rw [Nat.cast_mul, harea]
    _ ≤ size := by exact_mod_cast Nat.mul_div_le _ _

/-- A buffer that has the picture has a byte for every pixel. -/
theorem one_le_quotient {size : ℕ} (hwidth : 0 < s.width) (hheight : 0 < s.height) (hbpp : 1 ≤ bpp)
    (hsize : s.width * s.height * bpp ≤ size) : 1 ≤ size / (s.width * s.height).toNat := by
  have hpos : 0 < s.width * s.height := Int.mul_pos hwidth hheight
  have harea : s.width * s.height ≤ s.width * s.height * bpp :=
    le_mul_of_one_le_right hpos.le hbpp
  rw [Nat.le_div_iff_mul_le (by omega), one_mul]
  omega

theorem pieces_iff_readable (hwidth : 0 < s.width) (hheight : 0 < s.height)
    (harea : s.width * s.height < 2 ^ 31) :
    (∃ turns pieces, s.pieces turns data = .ok pieces) ↔ s.Readable data.length := by
  constructor
  · rintro ⟨turns, pieces, hpieces⟩
    by_cases hempty : data.length = 0
    · have hdefault : 1 ≤ s.defaultBpp := by
        rw [defaultBpp]
        split <;> decide
      obtain ⟨-, hsize⟩ := addressed_of_pieces hwidth hheight (by omega)
        (bppOf_eq_default hempty) hpieces
      have hquotient := one_le_quotient hwidth hheight hdefault hsize
      rw [hempty, Nat.zero_div] at hquotient
      omega
    · obtain ⟨bpp, hbpp, hzero, hlow⟩ := bppOf_eq hwidth hheight harea (Nat.pos_of_ne_zero hempty)
      obtain ⟨h, hsize⟩ := addressed_of_pieces hwidth hheight hzero hbpp hpieces
      obtain rfl := hlow (.inl h.pixel.1)
      exact ⟨one_le_quotient hwidth hheight h.pixel.1 hsize, h.pixel.2, h.lines, h.offsets⟩
  · rintro ⟨hquotient, hpixel, hlines, hoffsets⟩
    have hsize : 0 < data.length := by
      by_contra hempty
      rw [Nat.eq_zero_of_not_pos hempty, Nat.zero_div] at hquotient
      omega
    obtain ⟨bpp, hbpp, -, hlow⟩ := bppOf_eq hwidth hheight harea hsize
    obtain rfl := hlow (.inr hpixel)
    obtain ⟨turns, chunks, -, hpieces⟩ := pieces_of_addressed
      ⟨hwidth, ⟨one_le_lowBpp _, hpixel⟩, hlines, hoffsets⟩ hbpp (picture_le hwidth hheight hquotient)
    exact ⟨turns, _, hpieces⟩

/-- The call ends, and reads nothing but the input. -/
def Terminates (s : Payloader) (buf : Rtp.Buffer) : Prop :=
  ∃ turns result, s.padPush turns buf = .ok result

theorem terminates_iff (hwidth : 0 < s.width) (hheight : 0 < s.height)
    (harea : s.width * s.height < 2 ^ 31) (buf : Rtp.Buffer) :
    s.Terminates buf ↔ buf.eos = true ∨ s.Readable buf.data.length := by
  rw [Terminates]
  by_cases heos : buf.eos = true
  · exact ⟨fun _ => .inl heos, fun _ => ⟨0, _, by rw [padPush, if_pos heos]⟩⟩
  · rw [or_iff_right heos, ← pieces_iff_readable hwidth hheight harea]
    constructor
    · rintro ⟨turns, result, hpush⟩
      rw [padPush, if_neg heos] at hpush
      cases hpieces : s.pieces turns buf.data with
      | error fault =>
          rw [hpieces] at hpush
          cases hpush
      | ok pieces => exact ⟨turns, pieces, hpieces⟩
    · rintro ⟨turns, pieces, hpieces⟩
      exact ⟨turns, _, by rw [padPush, if_neg heos, hpieces]; rfl⟩

/-- A payloader of two lines of two pixels. -/
def small : Payloader where
  width := 2
  height := 2
  sampling := "YCbCr-4:2:2"
  rtpPt := 96
  ssrc := 0x21102000
  seq := 0
  packets := 0
  bytes := 0

/-- **When the payloader ends and reads only its input.**  For every picture whose area is an
`int` and every buffer: the end of the stream, or a buffer with a byte for every pixel whose
quotient is not larger than a packet and does not take the addresses out of an `int`. -/
theorem reads_only_its_input (s : Payloader) (hwidth : 0 < s.width) (hheight : 0 < s.height)
    (harea : s.width * s.height < 2 ^ 31) (buf : Rtp.Buffer) :
    s.Terminates buf ↔ buf.eos = true ∨ s.Readable buf.data.length :=
  terminates_iff hwidth hheight harea buf

/-- Two bytes for every pixel. -/
theorem reads_only_its_input_small : small.Terminates ⟨[1, 2, 3, 4, 5, 6, 7, 8], 0, false⟩ :=
  (reads_only_its_input small (by decide) (by decide) (by decide) _).mpr (.inr (by decide))

/-- Three bytes are fewer than the four pixels, and the payloader reads eight; a pixel of 1377
bytes does not fit into a packet, and the loop does not end. -/
theorem small_reads_outside :
    (0 < small.width ∧ 0 < small.height ∧ small.width * small.height < 2 ^ 31) ∧
      ¬ small.Terminates ⟨[1, 2, 3], 0, false⟩ ∧
      small.padPush 8 ⟨[1, 2, 3], 0, false⟩ = .error .outside ∧
      ¬ small.Terminates ⟨List.replicate 5508 0, 0, false⟩ := by
  refine ⟨⟨by decide, by decide, by decide⟩, ?_, by decide, ?_⟩
  · rw [terminates_iff (by decide) (by decide) (by decide)]
    decide
  · rw [terminates_iff (by decide) (by decide) (by decide), List.length_replicate]
    decide

end Payloader

end Zstreamer.St2110.Video

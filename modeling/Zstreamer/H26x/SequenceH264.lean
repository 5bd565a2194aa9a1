/-
# Sequence parameter sets of H.264

The syntax of a sequence parameter set in which no scaling list is transmitted, its bits, and the
size of the picture that it says; and what `parse_h264_sps` reads of it.

The parser reads every parameter set as if the order count were of type 0, where types 1 and 2 have
other fields; it does not know that profile 135 has a chroma format; and it crops a picture without
chroma by two columns for each that is said.  Of the others it reads the sizes that are said.
-/

import Zstreamer.H26x.Reading

namespace Zstreamer.H26x

open Foundation

/-! ## Syntax -/

/-- What is said of the order count, by its type.  A signed number is the number of its code
word. -/
inductive PicOrderCnt
  | type0 (log2MaxLsbMinus4 : ℕ)
  | type1 (deltaAlwaysZero : Bool) (offsetForNonRef offsetForTopToBottom : ℕ)
      (offsetsForRefFrames : List ℕ)
  | type2

/-- How many units are cropped. -/
structure Cropping where
  left : ℕ
  right : ℕ
  top : ℕ
  bottom : ℕ

/-- A sequence parameter set.  `scalingMatrix` is `seq_scaling_matrix_present_flag`, behind which
none of the lists is present; `vui` is what is said of the use of the pictures, if it is. -/
structure SpsSyntax where
  profileIdc : ℕ
  constraintFlags : ℕ
  levelIdc : ℕ
  id : ℕ
  chromaFormatIdc : ℕ
  separateColourPlane : Bool
  bitDepthLumaMinus8 : ℕ
  bitDepthChromaMinus8 : ℕ
  transformBypass : Bool
  scalingMatrix : Bool
  log2MaxFrameNumMinus4 : ℕ
  picOrderCnt : PicOrderCnt
  maxNumRefFrames : ℕ
  gapsInFrameNum : Bool
  picWidthInMbsMinus1 : ℕ
  picHeightInMapUnitsMinus1 : ℕ
  frameMbsOnly : Bool
  mbAdaptiveFrameField : Bool
  direct8x8Inference : Bool
  cropping : Option Cropping
  vui : Option (List Bool)

/-- The profiles with a chroma format, as the standard has them. -/
def highProfiles : List ℕ := [100, 110, 122, 244, 44, 83, 86, 118, 128, 138, 139, 134, 135]

namespace SpsSyntax

variable (sps : SpsSyntax)

/-- The chroma format; where none is said, there are two rows and columns of luma for each. -/
def chromaFormat : ℕ := if sps.profileIdc ∈ highProfiles then sps.chromaFormatIdc else 1

/-- How many scaling lists there can be. -/
def scalingLists : ℕ := if sps.chromaFormatIdc = 3 then 12 else 8

/-- The bits of the scaling matrix: for each list, that it is not present. -/
def scalingBits : List Bool :=
  [sps.scalingMatrix] ++
    (if sps.scalingMatrix = true then List.replicate sps.scalingLists false else [])

/-- The bits of what only some profiles have: the chroma format, the bit depths and the scaling
matrix. -/
def chromaBits : List Bool :=
  if sps.profileIdc ∈ highProfiles then
    expGolomb sps.chromaFormatIdc ++
      ((if sps.chromaFormatIdc = 3 then [sps.separateColourPlane] else []) ++
        (expGolomb sps.bitDepthLumaMinus8 ++ (expGolomb sps.bitDepthChromaMinus8 ++
          ([sps.transformBypass] ++ sps.scalingBits))))
  else []

/-- The bits of what is said of the order count. -/
def orderBits : List Bool :=
  match sps.picOrderCnt with
  | .type0 log2MaxLsbMinus4 => expGolomb 0 ++ expGolomb log2MaxLsbMinus4
  | .type1 deltaAlwaysZero offsetForNonRef offsetForTopToBottom offsetsForRefFrames =>
      expGolomb 1 ++ [deltaAlwaysZero] ++ expGolomb offsetForNonRef ++
        expGolomb offsetForTopToBottom ++ expGolomb offsetsForRefFrames.length ++
        offsetsForRefFrames.flatMap expGolomb
  | .type2 => expGolomb 2

/-- The bits of the cropping. -/
def croppingBits : List Bool :=
  match sps.cropping with
  | none => [false]
  | some crop => [true] ++ (expGolomb crop.left ++ (expGolomb crop.right ++
      (expGolomb crop.top ++ expGolomb crop.bottom)))

/-- The bits of what is said of the use. -/
def vuiBits : List Bool :=
  match sps.vui with
  | none => [false]
  | some vui => [true] ++ vui

/-- The bits as far as the cropping. -/
def sizeBits : List Bool :=
  fixed 8 sps.profileIdc ++ (fixed 8 sps.constraintFlags ++ (fixed 8 sps.levelIdc ++
    (expGolomb sps.id ++ (sps.chromaBits ++ ((expGolomb sps.log2MaxFrameNumMinus4 ++ (sps.orderBits ++
      expGolomb sps.maxNumRefFrames)) ++ ([sps.gapsInFrameNum] ++ (expGolomb sps.picWidthInMbsMinus1 ++
        (expGolomb sps.picHeightInMapUnitsMinus1 ++ ([sps.frameMbsOnly] ++
          ((if sps.frameMbsOnly = false then [sps.mbAdaptiveFrameField] else []) ++
            ([sps.direct8x8Inference] ++ sps.croppingBits)))))))))))

/-- The NAL unit, behind a byte of header. -/
def nal (header : Byte) : List Byte := nalUnit [header] (sps.sizeBits ++ sps.vuiBits)

/-! ## The size of the picture -/

/-- No chroma, also when the colour planes are coded each for itself. -/
def chromaArrayType : ℕ :=
  if sps.chromaFormat = 3 ∧ sps.separateColourPlane = true then 0 else sps.chromaFormat

/-- How many fields a frame has in the rows of map units. -/
def fieldFactor : ℕ := 2 - sps.frameMbsOnly.toNat

/-- `CropUnitX` -/
def cropUnitX : ℕ := if sps.chromaArrayType = 1 ∨ sps.chromaArrayType = 2 then 2 else 1

/-- `CropUnitY` -/
def cropUnitY : ℕ := (if sps.chromaArrayType = 1 then 2 else 1) * sps.fieldFactor

def codedWidth : ℕ := (sps.picWidthInMbsMinus1 + 1) * 16

def codedHeight : ℕ := (sps.picHeightInMapUnitsMinus1 + 1) * 16 * sps.fieldFactor

/-- The columns and rows that are cropped, in units. -/
def cropColumns : ℕ := (sps.cropping.map fun crop => crop.left + crop.right).getD 0

def cropRows : ℕ := (sps.cropping.map fun crop => crop.top + crop.bottom).getD 0

def width : ℕ := sps.codedWidth - sps.cropUnitX * sps.cropColumns

def height : ℕ := sps.codedHeight - sps.cropUnitY * sps.cropRows

/-! ## Validity -/

/-- The numbers that are code words. -/
def values : List ℕ :=
  [sps.id, sps.chromaFormatIdc, sps.bitDepthLumaMinus8, sps.bitDepthChromaMinus8, sps.log2MaxFrameNumMinus4,
    sps.maxNumRefFrames, sps.picWidthInMbsMinus1, sps.picHeightInMapUnitsMinus1] ++
    (match sps.picOrderCnt with
      | .type0 log2MaxLsbMinus4 => [log2MaxLsbMinus4]
      | .type1 _ offsetForNonRef offsetForTopToBottom offsetsForRefFrames =>
          offsetForNonRef :: offsetForTopToBottom :: offsetsForRefFrames.length ::
            offsetsForRefFrames
      | .type2 => []) ++
    (match sps.cropping with
      | none => []
      | some crop => [crop.left, crop.right, crop.top, crop.bottom])

/-- A parameter set that can be written, of a picture that has a size. -/
structure Valid : Prop where
  profile : sps.profileIdc < 2 ^ 8
  constraint : sps.constraintFlags < 2 ^ 8
  level : sps.levelIdc < 2 ^ 8
  chroma : sps.chromaFormatIdc ≤ 3
  value : ∀ v ∈ sps.values, v < 2 ^ 31 - 1
  width : sps.codedWidth < 2 ^ 31
  height : sps.codedHeight < 2 ^ 31
  columns : sps.cropUnitX * sps.cropColumns < sps.codedWidth
  rows : sps.cropUnitY * sps.cropRows < sps.codedHeight

/-- The parser gives the numbers and sizes that the parameter set says. -/
def Recovered (header : Byte) : Prop :=
  ∃ id format, parseH264Sps (sps.nal header) = some (id, format) ∧ id.toNat = sps.id ∧
    format.profile.toNat = sps.profileIdc ∧ format.level.toNat = sps.levelIdc ∧
    format.codedWidth.toNat = sps.codedWidth ∧ format.codedHeight.toNat = sps.codedHeight ∧
    format.width.toNat = sps.width ∧ format.height.toNat = sps.height

end SpsSyntax

/-! ## What the parser reads -/

/-- Two numbers that are read are equal when they are written alike. -/
theorem ofNat_eq_iff {a b : ℕ} (ha : a < 2 ^ 32) (hb : b < 2 ^ 32) :
    BitVec.ofNat 32 a = BitVec.ofNat 32 b ↔ a = b := by
  refine ⟨fun heq => ?_, fun heq => congrArg _ heq⟩
  have hnat := congrArg BitVec.toNat heq
  rwa [BitVec.toNat_ofNat, BitVec.toNat_ofNat, Nat.mod_eq_of_lt ha, Nat.mod_eq_of_lt hb] at hnat

/-- The parser knows the profiles of the standard, but for one. -/
theorem mem_chromaProfiles {profile : ℕ} (h : profile < 2 ^ 8) (hother : profile ≠ 135) :
    BitVec.ofNat 32 profile ∈ chromaProfiles ↔ profile ∈ highProfiles := by
  have hlist : chromaProfiles =
      [100, 110, 122, 244, 44, 83, 86, 118, 128, 138, 139, 134].map (BitVec.ofNat 32) := rfl
  have hsmall : ∀ p ∈ [100, 110, 122, 244, 44, 83, 86, 118, 128, 138, 139, 134], p < 2 ^ 32 := by
    decide
  rw [hlist, List.mem_map]
  constructor
  · rintro ⟨p, hp, heq⟩
    rw [(ofNat_eq_iff (by omega) (hsmall p hp)).mp heq.symm]
    exact List.mem_append_left [135] hp
  · intro hmem
    refine ⟨profile, ?_, rfl⟩
    rcases List.mem_append.mp (show profile ∈
      [100, 110, 122, 244, 44, 83, 86, 118, 128, 138, 139, 134] ++ [135] from hmem) with hp | hp
    · exact hp
    · exact absurd (List.mem_singleton.mp hp) hother

variable {sps : SpsSyntax} {data : List Byte}

/-- Lists that are not present are passed over. -/
theorem reads_noScalingList (n : ℕ) :
    Reads data (times n (noScalingList data)) (List.replicate n false) () := by
  induction n with
  | zero => exact Reads.pure ()
  | succ n ih =>
      have hone : Reads data (noScalingList data) [false] () :=
        (reads_flag false).bind (Reads.pure ())
      exact hone.skip.bind ih

/-- The scaling matrix is passed over, with the lists of the chroma format. -/
theorem readScaling_reads (sps : SpsSyntax) {chroma : BitVec 32}
    (hchroma : chroma = 3 ↔ sps.chromaFormatIdc = 3) :
    Reads data
      (do
        let scaling ← bitsRead data 1
        if scaling ≠ 0 then times (if chroma = 3 then 12 else 8) (noScalingList data)
        return chroma)
      sps.scalingBits chroma := by
  have hlists : (if chroma = 3 then 12 else 8) = sps.scalingLists := by
    rw [SpsSyntax.scalingLists]
    exact if_congr hchroma rfl rfl
  have hflag : (if sps.scalingMatrix then 1 else 0 : BitVec 32) ≠ 0 ↔ sps.scalingMatrix = true := by
    cases sps.scalingMatrix <;> decide
  rw [hlists, SpsSyntax.scalingBits]
  refine (reads_flag _).bind ?_
  rw [← List.append_nil (if sps.scalingMatrix = true then _ else _)]
  exact Reads.optional hflag (fun _ => reads_noScalingList _) (Reads.pure _)

theorem readChroma_reads (hv : sps.Valid) (hprofile : sps.profileIdc ≠ 135) :
    Reads data (readChroma data (BitVec.ofNat 32 sps.profileIdc)) sps.chromaBits
      (BitVec.ofNat 32 sps.chromaFormat) := by
  have hvalue : ∀ v ∈ [sps.id, sps.chromaFormatIdc, sps.bitDepthLumaMinus8,
      sps.bitDepthChromaMinus8], v < 2 ^ 31 - 1 := fun v hmem =>
    hv.value v (List.mem_append_left _ (List.mem_append_left _
      (List.mem_append_left [sps.log2MaxFrameNumMinus4, sps.maxNumRefFrames,
        sps.picWidthInMbsMinus1, sps.picHeightInMapUnitsMinus1] hmem)))
  have hchroma := hv.chroma
  rw [readChroma, SpsSyntax.chromaBits, SpsSyntax.chromaFormat]
  by_cases hhigh : sps.profileIdc ∈ highProfiles
  · rw [if_pos ((mem_chromaProfiles hv.profile hprofile).mpr hhigh), if_pos hhigh, if_pos hhigh]
    refine (reads_expGolomb (hvalue _ (by simp))).bind ?_
    refine Reads.optional (ofNat_eq_iff (by omega) (by decide)) (fun _ => (reads_flag _).skip) ?_
    refine (reads_expGolomb (hvalue _ (by simp))).skip.bind ?_
    refine (reads_expGolomb (hvalue _ (by simp))).skip.bind ?_
    refine (reads_flag _).skip.bind ?_
    exact readScaling_reads sps (ofNat_eq_iff (by omega) (by decide))
  · rw [if_neg fun h => hhigh ((mem_chromaProfiles hv.profile hprofile).mp h), if_neg hhigh,
      if_neg hhigh]
    exact Reads.pure _

namespace SpsSyntax

/-- What is cropped on a side. -/
def cropped (sps : SpsSyntax) (side : Cropping → ℕ) : ℕ := (sps.cropping.map side).getD 0

end SpsSyntax

/-- **The parser reads the fields that the parameter set has**, when the order count is of type
0. -/
theorem parseH264Sps_reads (hv : sps.Valid) (hprofile : sps.profileIdc ≠ 135) {log2MaxLsb : ℕ}
    (horder : sps.picOrderCnt = .type0 log2MaxLsb) (header : Byte) :
    ∃ data, parseH264Sps (sps.nal header) =
      (spsFormat data (BitVec.ofNat 32 sps.id) (BitVec.ofNat 32 sps.profileIdc)
        (BitVec.ofNat 32 sps.levelIdc) (BitVec.ofNat 32 sps.chromaFormat)
        (BitVec.ofNat 32 sps.picWidthInMbsMinus1) (BitVec.ofNat 32 sps.picHeightInMapUnitsMinus1)
        (if sps.frameMbsOnly then 1 else 0) (BitVec.ofNat 32 (sps.cropped Cropping.left))
        (BitVec.ofNat 32 (sps.cropped Cropping.right)) (BitVec.ofNat 32 (sps.cropped Cropping.top))
        (BitVec.ofNat 32 (sps.cropped Cropping.bottom)) sps.sizeBits.length).map Prod.fst := by
  have hvalue := hv.value
  rw [SpsSyntax.values, horder] at hvalue
  have hskipped : (expGolomb sps.log2MaxFrameNumMinus4 ++ (sps.orderBits ++
      expGolomb sps.maxNumRefFrames)) =
      [sps.log2MaxFrameNumMinus4, 0, log2MaxLsb, sps.maxNumRefFrames].flatMap expGolomb := by
    rw [SpsSyntax.orderBits, horder]
    simp only [List.flatMap_cons, List.flatMap_nil, List.append_assoc, List.append_nil]
  refine readNal_of_continues (fun data => ?_) sps.vuiBits
  rw [SpsSyntax.sizeBits, hskipped]
  refine Continues.trans (Continues.of_reads (reads_fixed (by omega) (by omega) hv.profile) _) ?_
  refine Continues.trans
    (Continues.of_reads (reads_fixed (by omega) (by omega) hv.constraint).skip _) ?_
  refine Continues.trans (Continues.of_reads (reads_fixed (by omega) (by omega) hv.level) _) ?_
  refine Continues.trans (Continues.of_reads (reads_expGolomb (hvalue _ (by simp))) _) ?_
  refine Continues.trans (Continues.of_reads (readChroma_reads hv hprofile) _) ?_
  refine Continues.trans (Continues.of_reads (reads_skipped (fun v hmem => ?_)) _) ?_
  · have hzero : (0 : ℕ) < 2 ^ 31 - 1 := by decide
    rcases List.mem_cons.mp hmem with rfl | hmem
    · exact hvalue _ (by simp)
    rcases List.mem_cons.mp hmem with rfl | hmem
    · exact hzero
    refine hvalue v ?_
    simp only [List.mem_cons, List.not_mem_nil, or_false] at hmem
    rcases hmem with rfl | rfl <;> simp
  refine Continues.trans (Continues.of_reads (reads_flag _).skip _) ?_
  refine Continues.trans (Continues.of_reads (reads_expGolomb (hvalue _ (by simp))) _) ?_
  refine Continues.trans (Continues.of_reads (reads_expGolomb (hvalue _ (by simp))) _) ?_
  refine Continues.trans (Continues.of_reads (reads_flag _) _) ?_
  refine Continues.trans (Continues.optional ?_ (fun _ => (reads_flag _).skip) _) ?_
  · cases sps.frameMbsOnly <;> decide
  refine Continues.trans (Continues.of_reads (reads_flag _).skip _) ?_
  rw [SpsSyntax.croppingBits]
  cases hcropping : sps.cropping with
  | none =>
      rw [SpsSyntax.cropped, SpsSyntax.cropped, SpsSyntax.cropped, SpsSyntax.cropped, hcropping]
      exact Continues.of_reads (reads_flag false) _
  | some crop =>
      rw [hcropping] at hvalue
      refine Continues.trans (Continues.of_reads (reads_flag true) _) ?_
      refine Continues.trans (Continues.of_reads (reads_expGolomb (hvalue _ (by simp))) _) ?_
      refine Continues.trans (Continues.of_reads (reads_expGolomb (hvalue _ (by simp))) _) ?_
      refine Continues.trans (Continues.of_reads (reads_expGolomb (hvalue _ (by simp))) _) ?_
      rw [SpsSyntax.cropped, SpsSyntax.cropped, SpsSyntax.cropped, SpsSyntax.cropped, hcropping]
      exact Continues.of_reads (reads_expGolomb (hvalue _ (by simp))) _

/-! ## Sizes -/

theorem fieldFactor_eq (sps : SpsSyntax) :
    2 - (if sps.frameMbsOnly then 1 else 0 : BitVec 32) = BitVec.ofNat 32 sps.fieldFactor := by
  rw [SpsSyntax.fieldFactor]
  cases sps.frameMbsOnly <;> rfl

/-- The columns for each that is cropped, as the parser takes them. -/
def parserUnitX (chroma : ℕ) : ℕ := if chroma = 3 then 1 else 2

/-- The rows for each that is cropped, as the parser takes them. -/
def parserUnitY (chroma : ℕ) : ℕ := if chroma = 1 then 2 else 1

theorem chromaFormat_le (hv : sps.Valid) : sps.chromaFormat ≤ 3 := by
  rw [SpsSyntax.chromaFormat]
  split
  case isTrue => exact hv.chroma
  case isFalse => decide

/-- The parser crops too much when there is no chroma. -/
theorem parserUnitX_eq (hv : sps.Valid) :
    parserUnitX sps.chromaFormat = sps.cropUnitX + (if sps.chromaFormat = 0 then 1 else 0) := by
  have hchroma := chromaFormat_le hv
  rw [parserUnitX, SpsSyntax.cropUnitX, SpsSyntax.chromaArrayType]
  generalize sps.chromaFormat = chroma at *
  interval_cases chroma <;> cases sps.separateColourPlane <;> rfl

theorem parserUnitY_eq (hv : sps.Valid) :
    parserUnitY sps.chromaFormat * sps.fieldFactor = sps.cropUnitY := by
  have hchroma := chromaFormat_le hv
  rw [parserUnitY, SpsSyntax.cropUnitY, SpsSyntax.chromaArrayType]
  congr 1
  generalize sps.chromaFormat = chroma at *
  interval_cases chroma <;> cases sps.separateColourPlane <;> rfl

theorem cropColumns_eq (sps : SpsSyntax) :
    sps.cropColumns = sps.cropped Cropping.left + sps.cropped Cropping.right := by
  rw [SpsSyntax.cropColumns, SpsSyntax.cropped, SpsSyntax.cropped]
  cases sps.cropping <;> rfl

theorem cropRows_eq (sps : SpsSyntax) :
    sps.cropRows = sps.cropped Cropping.top + sps.cropped Cropping.bottom := by
  rw [SpsSyntax.cropRows, SpsSyntax.cropped, SpsSyntax.cropped]
  cases sps.cropping <;> rfl

theorem ofNat_lt_iff {a b : ℕ} (ha : a < 2 ^ 32) (hb : b < 2 ^ 32) :
    BitVec.ofNat 32 a < BitVec.ofNat 32 b ↔ a < b := by
  rw [BitVec.lt_def, BitVec.toNat_ofNat, BitVec.toNat_ofNat, Nat.mod_eq_of_lt ha,
    Nat.mod_eq_of_lt hb]

theorem ofNat_sub {a b : ℕ} (hba : b ≤ a) (ha : a < 2 ^ 32) :
    BitVec.ofNat 32 a - BitVec.ofNat 32 b = BitVec.ofNat 32 (a - b) := by
  refine BitVec.eq_of_toNat_eq ?_
  rw [BitVec.toNat_sub_of_le, BitVec.toNat_ofNat, BitVec.toNat_ofNat, BitVec.toNat_ofNat]
  · omega
  · rw [BitVec.le_def, BitVec.toNat_ofNat, BitVec.toNat_ofNat]
    omega

/-- Two columns for each that is cropped do not wrap around either. -/
theorem parserUnitX_small (hv : sps.Valid) :
    parserUnitX sps.chromaFormat * sps.cropColumns < 2 ^ 32 := by
  have hwidth := hv.width
  have hcolumns := hv.columns
  have hpos : 1 ≤ sps.cropUnitX := by
    rw [SpsSyntax.cropUnitX]
    split <;> omega
  have hle : sps.cropColumns ≤ sps.cropUnitX * sps.cropColumns := Nat.le_mul_of_pos_left _ hpos
  rw [parserUnitX_eq hv, Nat.add_mul]
  split
  case isTrue => omega
  case isFalse => omega

/-- The size is computed when the condition holds. -/
theorem ensure_bind {α : Type} {p q : Prop} [Decidable p] [Decidable q] (hpq : p ↔ q)
    (next : Reader α) (bit : ℕ) :
    (ensure p >>= fun _ => next) bit = if q then next bit else none := by
  rw [ensure]
  by_cases hp : p
  · rw [if_pos hp, if_pos (hpq.mp hp)]
    rfl
  · rw [if_neg hp, if_neg fun hq => hp (hpq.mpr hq)]
    rfl

/-- **What the parser gives**, in numbers: the size that is said, but for the cropped columns. -/
theorem parseH264Sps_eq (hv : sps.Valid) (hprofile : sps.profileIdc ≠ 135) {log2MaxLsb : ℕ}
    (horder : sps.picOrderCnt = .type0 log2MaxLsb) (header : Byte) :
    ∃ framerate, parseH264Sps (sps.nal header) =
      if parserUnitX sps.chromaFormat * sps.cropColumns < sps.codedWidth then
        some (BitVec.ofNat 32 sps.id,
          { width := BitVec.ofNat 32
              (sps.codedWidth - parserUnitX sps.chromaFormat * sps.cropColumns)
            height := BitVec.ofNat 32 sps.height
            codedWidth := BitVec.ofNat 32 sps.codedWidth
            codedHeight := BitVec.ofNat 32 sps.codedHeight
            profile := BitVec.ofNat 32 sps.profileIdc
            level := BitVec.ofNat 32 sps.levelIdc
            bitDepth := 8
            framerate := framerate })
      else none := by
  obtain ⟨data, hparse⟩ := parseH264Sps_reads hv hprofile horder header
  have hchroma := chromaFormat_le hv
  have hsubW : (if BitVec.ofNat 32 sps.chromaFormat = 3 then 1 else 2 : BitVec 32) =
      BitVec.ofNat 32 (parserUnitX sps.chromaFormat) := by
    rw [parserUnitX]
    generalize sps.chromaFormat = chroma at *
    interval_cases chroma <;> rfl
  have hsubH : (if BitVec.ofNat 32 sps.chromaFormat = 1 then 2 else 1 : BitVec 32) =
      BitVec.ofNat 32 (parserUnitY sps.chromaFormat) := by
    rw [parserUnitY]
    generalize sps.chromaFormat = chroma at *
    interval_cases chroma <;> rfl
  have hcodedWidth : (BitVec.ofNat 32 sps.picWidthInMbsMinus1 + 1) * 16 =
      BitVec.ofNat 32 sps.codedWidth := by
    rw [SpsSyntax.codedWidth, BitVec.ofNat_mul, BitVec.ofNat_add]
    rfl
  have hcodedHeight : (BitVec.ofNat 32 sps.picHeightInMapUnitsMinus1 + 1) * 16 *
      BitVec.ofNat 32 sps.fieldFactor = BitVec.ofNat 32 sps.codedHeight := by
    rw [SpsSyntax.codedHeight, BitVec.ofNat_mul, BitVec.ofNat_mul, BitVec.ofNat_add]
    rfl
  have hcropX : (BitVec.ofNat 32 (sps.cropped Cropping.left) +
      BitVec.ofNat 32 (sps.cropped Cropping.right)) *
        BitVec.ofNat 32 (parserUnitX sps.chromaFormat) =
      BitVec.ofNat 32 (parserUnitX sps.chromaFormat * sps.cropColumns) := by
    rw [cropColumns_eq, Nat.mul_comm, BitVec.ofNat_mul, BitVec.ofNat_add]
  have hcropY : (BitVec.ofNat 32 (sps.cropped Cropping.top) +
      BitVec.ofNat 32 (sps.cropped Cropping.bottom)) *
        BitVec.ofNat 32 (parserUnitY sps.chromaFormat) * BitVec.ofNat 32 sps.fieldFactor =
      BitVec.ofNat 32 (sps.cropUnitY * sps.cropRows) := by
    rw [cropRows_eq, ← parserUnitY_eq hv, Nat.mul_comm, ← Nat.mul_assoc, BitVec.ofNat_mul,
      BitVec.ofNat_mul, BitVec.ofNat_add]
  have hwidth := hv.width
  have hheight := hv.height
  have hrows := hv.rows
  have hsmall := parserUnitX_small hv
  rw [spsFormat, hsubW, hsubH, fieldFactor_eq, hcodedWidth, hcodedHeight, hcropX, hcropY] at hparse
  have hensure : (BitVec.ofNat 32 (parserUnitX sps.chromaFormat * sps.cropColumns) <
        BitVec.ofNat 32 sps.codedWidth ∧
      BitVec.ofNat 32 (sps.cropUnitY * sps.cropRows) < BitVec.ofNat 32 sps.codedHeight) ↔
      parserUnitX sps.chromaFormat * sps.cropColumns < sps.codedWidth := by
    rw [ofNat_lt_iff hsmall (by omega), ofNat_lt_iff (by omega) (by omega), and_iff_left hrows]
  rw [ensure_bind hensure, ofNat_sub (Nat.le_of_lt hrows) (by omega)] at hparse
  refine ⟨((parseH264VuiFramerate data).run sps.sizeBits.length).map Prod.fst, ?_⟩
  rw [hparse]
  by_cases hcrop : parserUnitX sps.chromaFormat * sps.cropColumns < sps.codedWidth
  · rw [if_pos hcrop, if_pos hcrop, ← ofNat_sub (Nat.le_of_lt hcrop) (by omega)]
    rfl
  · rw [if_neg hcrop, if_neg hcrop]
    rfl

/-- **Sequence parameter sets whose order count is of type 0, and whose profile is not 135**, give
the size that they say, unless columns of a picture without chroma are cropped. -/
theorem recovered_iff (sps : SpsSyntax) (hv : sps.Valid) (hprofile : sps.profileIdc ≠ 135)
    (horder : ∃ log2MaxLsb, sps.picOrderCnt = .type0 log2MaxLsb) (header : Byte) :
    sps.Recovered header ↔ sps.chromaFormat ≠ 0 ∨ sps.cropColumns = 0 := by
  obtain ⟨log2MaxLsb, horder⟩ := horder
  obtain ⟨framerate, hparse⟩ := parseH264Sps_eq hv hprofile horder header
  have hwidth := hv.width
  have hheight := hv.height
  have hcolumns := hv.columns
  have hunit := parserUnitX_eq hv
  rw [SpsSyntax.Recovered, hparse]
  constructor
  · rintro ⟨id, format, hsome, -, -, -, -, -, hrecovered, -⟩
    by_contra hnot
    rw [not_or, not_not] at hnot
    split at hsome
    case isFalse => exact absurd hsome (by simp)
    case isTrue hcrop =>
      obtain ⟨-, rfl⟩ := Prod.mk.inj (Option.some.inj hsome)
      rw [hunit, if_pos hnot.1, Nat.add_mul] at hcrop hrecovered
      rw [BitVec.toNat_ofNat, SpsSyntax.width] at hrecovered
      omega
  · intro hfits
    have hcrop : parserUnitX sps.chromaFormat * sps.cropColumns =
        sps.cropUnitX * sps.cropColumns := by
      rw [hunit]
      rcases hfits with hchroma | hnone
      · rw [if_neg hchroma, Nat.add_zero]
      · rw [hnone, Nat.mul_zero, Nat.mul_zero]
    have hid := hv.value sps.id (List.mem_append_left _ (List.mem_append_left _ List.mem_cons_self))
    have hprofileSmall := hv.profile
    have hlevel := hv.level
    rw [hcrop, if_pos hcolumns]
    refine ⟨_, _, rfl, ?_, ?_, ?_, ?_, ?_, ?_, ?_⟩
    all_goals rw [BitVec.toNat_ofNat]
    · omega
    · omega
    · omega
    · omega
    · omega
    · rw [SpsSyntax.width]
      omega
    · rw [SpsSyntax.height]
      omega

/-- A picture of 176 by 144 pixels. -/
def quarterSize (picOrderCnt : PicOrderCnt) : SpsSyntax where
  profileIdc := 66
  constraintFlags := 0xc0
  levelIdc := 30
  id := 0
  chromaFormatIdc := 1
  separateColourPlane := false
  bitDepthLumaMinus8 := 0
  bitDepthChromaMinus8 := 0
  transformBypass := false
  scalingMatrix := false
  log2MaxFrameNumMinus4 := 0
  picOrderCnt := picOrderCnt
  maxNumRefFrames := 1
  gapsInFrameNum := false
  picWidthInMbsMinus1 := 10
  picHeightInMapUnitsMinus1 := 8
  frameMbsOnly := true
  mbAdaptiveFrameField := false
  direct8x8Inference := true
  cropping := none
  vui := none

/-- A picture of 1920 by 1080 pixels, in fields, with a scaling matrix that has no list. -/
def fullHd : SpsSyntax where
  profileIdc := 100
  constraintFlags := 0
  levelIdc := 40
  id := 3
  chromaFormatIdc := 1
  separateColourPlane := false
  bitDepthLumaMinus8 := 0
  bitDepthChromaMinus8 := 0
  transformBypass := false
  scalingMatrix := true
  log2MaxFrameNumMinus4 := 5
  picOrderCnt := .type0 4
  maxNumRefFrames := 4
  gapsInFrameNum := false
  picWidthInMbsMinus1 := 119
  picHeightInMapUnitsMinus1 := 33
  frameMbsOnly := false
  mbAdaptiveFrameField := true
  direct8x8Inference := true
  cropping := some ⟨0, 0, 0, 2⟩
  vui := some [true, false, false, true, true]

theorem fullHd_valid : fullHd.Valid where
  profile := by decide
  constraint := by decide
  level := by decide
  chroma := by decide
  value := by decide
  width := by decide
  height := by decide
  columns := by decide
  rows := by decide

theorem recovered_iff_fullHd :
    fullHd.Recovered 0x67 ∧ fullHd.width = 1920 ∧ fullHd.height = 1080 :=
  ⟨(recovered_iff fullHd fullHd_valid (by decide) ⟨4, rfl⟩ 0x67).mpr (.inl (by decide)),
    by decide, by decide⟩

/-- The order count of type 2 makes the picture one of 32 by 48. -/
theorem frame_order_misread :
    (quarterSize .type2).Valid ∧ ¬ (quarterSize .type2).Recovered 0x67 := by
  refine ⟨⟨by decide, by decide, by decide, by decide, by decide, by decide, by decide, by decide,
    by decide⟩, ?_⟩
  rintro ⟨id, format, hsome, -, -, -, hwidth, -⟩
  have hparse : (parseH264Sps ((quarterSize .type2).nal 0x67)).map (fun sps => sps.2.codedWidth) =
      some 32 := by decide +kernel
  rw [hsome] at hparse
  have hcoded : format.codedWidth = 32 := Option.some.inj hparse
  rw [hcoded] at hwidth
  exact absurd hwidth (by decide)

end Zstreamer.H26x

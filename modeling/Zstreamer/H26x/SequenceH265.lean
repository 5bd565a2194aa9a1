/-
# Sequence parameter sets of H.265

The syntax of a sequence parameter set, as far as the bit depths, and its bits; and
`parse_h265_sps`, which reads none: `skip_h265_ptl` asks `bits_read` for 48 bits at once, which
never reads more than 32.
-/

import Zstreamer.H26x.SequenceH264

namespace Zstreamer.H26x

open Foundation

/-! ## Syntax -/

/-- What is said of the profile, in 88 bits, and the level. -/
structure ProfileTier where
  profile : List Bool
  level : ℕ

/-- A sequence parameter set.  Of a sub-layer the profile, the level, both or none are said; `later`
is what is behind the bit depths. -/
structure H265Syntax where
  vpsId : ℕ
  temporalIdNesting : Bool
  general : ProfileTier
  subLayers : List (Option (List Bool) × Option ℕ)
  id : ℕ
  chromaFormatIdc : ℕ
  separateColourPlane : Bool
  picWidth : ℕ
  picHeight : ℕ
  conformanceWindow : Option Cropping
  bitDepthLumaMinus8 : ℕ
  bitDepthChromaMinus8 : ℕ
  later : List Bool

namespace H265Syntax

variable (sps : H265Syntax)

/-- The bits of `profile_tier_level`. -/
def profileTierLevelBits : List Bool :=
  sps.general.profile ++ fixed 8 sps.general.level ++
    sps.subLayers.flatMap (fun layer => [layer.1.isSome, layer.2.isSome]) ++
    (if sps.subLayers = [] then [] else List.replicate (2 * (8 - sps.subLayers.length)) false) ++
    sps.subLayers.flatMap fun layer => layer.1.getD [] ++ (layer.2.map (fixed 8)).getD []

/-- The bits of the conformance window. -/
def windowBits : List Bool :=
  match sps.conformanceWindow with
  | none => [false]
  | some crop => [true] ++ expGolomb crop.left ++ expGolomb crop.right ++ expGolomb crop.top ++
      expGolomb crop.bottom

/-- The bits. -/
def bits : List Bool :=
  fixed 4 sps.vpsId ++ fixed 3 sps.subLayers.length ++ [sps.temporalIdNesting] ++
    sps.profileTierLevelBits ++ expGolomb sps.id ++ expGolomb sps.chromaFormatIdc ++
    (if sps.chromaFormatIdc = 3 then [sps.separateColourPlane] else []) ++
    expGolomb sps.picWidth ++ expGolomb sps.picHeight ++ sps.windowBits ++
    expGolomb sps.bitDepthLumaMinus8 ++ expGolomb sps.bitDepthChromaMinus8 ++ sps.later

/-- The NAL unit, behind two bytes of header. -/
def nal (first second : Byte) : List Byte := nalUnit [first, second] sps.bits

/-- `SubWidthC` -/
def subWidth : ℕ := if sps.chromaFormatIdc = 1 ∨ sps.chromaFormatIdc = 2 then 2 else 1

/-- `SubHeightC` -/
def subHeight : ℕ := if sps.chromaFormatIdc = 1 then 2 else 1

/-- The columns and rows outside of the window. -/
def windowColumns : ℕ :=
  sps.subWidth * (sps.conformanceWindow.map fun crop => crop.left + crop.right).getD 0

def windowRows : ℕ :=
  sps.subHeight * (sps.conformanceWindow.map fun crop => crop.top + crop.bottom).getD 0

/-- A parameter set that can be written, of a picture that has a size. -/
structure Valid : Prop where
  vps : sps.vpsId < 2 ^ 4
  layers : sps.subLayers.length ≤ 6
  profile : sps.general.profile.length = 88
  level : sps.general.level < 2 ^ 8
  layer : ∀ layer ∈ sps.subLayers, (∀ profile ∈ layer.1, profile.length = 88) ∧
    ∀ level ∈ layer.2, level < 2 ^ 8
  chroma : sps.chromaFormatIdc ≤ 3
  depth : sps.bitDepthLumaMinus8 ≤ 8 ∧ sps.bitDepthChromaMinus8 ≤ 8
  size : sps.picWidth < 2 ^ 31 - 1 ∧ sps.picHeight < 2 ^ 31 - 1
  columns : sps.windowColumns < sps.picWidth
  rows : sps.windowRows < sps.picHeight

/-- The parser gives the sizes and the bit depth that the parameter set says. -/
def Recovered (first second : Byte) : Prop :=
  ∃ format, parseH265Sps (sps.nal first second) = some format ∧
    format.codedWidth.toNat = sps.picWidth ∧ format.codedHeight.toNat = sps.picHeight ∧
    format.width.toNat = sps.picWidth - sps.windowColumns ∧
    format.height.toNat = sps.picHeight - sps.windowRows ∧
    format.bitDepth.toNat = sps.bitDepthLumaMinus8 + 8

end H265Syntax

/-! ## The call that fails -/

/-- A reader that fails wherever it is. -/
def Refuses {α : Type} (reader : Reader α) : Prop := ∀ bit, reader bit = none

namespace Refuses

variable {α β : Type} {reader : Reader α}

theorem bind (h : Refuses reader) (next : α → Reader β) : Refuses (reader >>= next) := by
  intro bit
  show (reader bit).bind _ = none
  rw [h bit]
  rfl

/-- It does not matter what is read before. -/
theorem behind (first : Reader α) {next : α → Reader β} (h : ∀ x, Refuses (next x)) :
    Refuses (first >>= next) := by
  intro bit
  show ((first bit).bind fun p => next p.1 p.2) = none
  cases first bit with
  | none => rfl
  | some p => exact h p.1 p.2

end Refuses

/-- The call with 48 bits. -/
theorem refuses_wide (data : List Byte) : Refuses (skip (bitsRead data 48)) :=
  Refuses.bind (fun bit => bitsRead_wide (by decide) bit) _

theorem refuses_skipH265Ptl (data : List Byte) (maxSubLayers : ℕ) :
    Refuses (skipH265Ptl data maxSubLayers) :=
  Refuses.behind _ fun _ => Refuses.behind _ fun _ => Refuses.behind _ fun _ =>
    Refuses.behind _ fun _ => (refuses_wide data).bind _

/-- **`parse_h265_sps` fails on every NAL unit.** -/
theorem parseH265Sps_eq_none (nal : List Byte) : parseH265Sps nal = none := by
  rw [parseH265Sps, readNal]
  cases rbspFromNal nal 2 with
  | none => rfl
  | some data =>
      exact congrArg (Option.map Prod.fst) (Refuses.behind _ (fun _ => Refuses.behind _
        fun sublayers => Refuses.behind _ fun _ =>
          (refuses_skipH265Ptl data sublayers.toNat).bind _) 0)

/-- **No sequence parameter set is recovered.** -/
theorem h265_never_recovered (sps : H265Syntax) (first second : Byte) :
    ¬ sps.Recovered first second := by
  rintro ⟨format, hsome, -⟩
  rw [parseH265Sps_eq_none] at hsome
  exact absurd hsome (by simp)

/-- A picture of 416 by 240 pixels. -/
def smallPicture : H265Syntax where
  vpsId := 0
  temporalIdNesting := true
  general := ⟨fixed 8 1 ++ fixed 32 0x60000000 ++ List.replicate 48 false, 60⟩
  subLayers := []
  id := 0
  chromaFormatIdc := 1
  separateColourPlane := false
  picWidth := 416
  picHeight := 240
  conformanceWindow := none
  bitDepthLumaMinus8 := 0
  bitDepthChromaMinus8 := 0
  later := []

/-- It can be written, and is not recovered. -/
theorem small_picture_refused :
    smallPicture.Valid ∧ ¬ smallPicture.Recovered 0x42 0x01 := by
  refine ⟨⟨by decide, by decide, by decide, by decide, by decide, by decide, by decide, by decide,
    by decide, by decide⟩, ?_⟩
  rintro ⟨format, hsome, -⟩
  rw [parseH265Sps_eq_none] at hsome
  exact absurd hsome (by simp)

end Zstreamer.H26x

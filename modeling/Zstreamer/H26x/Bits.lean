/-
# Reading the headers of NAL units

The bit reader of `h26x_parser.c`, and what the parser reads with it: sequence and
picture parameter sets and the beginning of a slice header.  A reader is at a bit of the
bytes and fails when they end.
-/

import Mathlib.Control.Monad.Basic
import Zstreamer.Foundation.Bits

namespace Zstreamer.H26x

open Foundation

/-- A reader of some bytes: the state is the number of the next bit. -/
abbrev Reader := StateT ℕ Option

/-- The bit of that number. -/
def bitAt (data : List Byte) (bit : ℕ) : Bool := (data.getD (bit / 8) 0).getMsbD (bit % 8)

/-- `bits_read`: never more than 32 bits. -/
def bitsRead (data : List Byte) (n : ℕ) : Reader (BitVec 32) := fun bit =>
  if n > 32 ∨ bit > data.length * 8 ∨ n > data.length * 8 - bit then none
  else
    let step (v : BitVec 32) (i : ℕ) : BitVec 32 := v <<< 1 ||| if bitAt data (bit + i) then 1 else 0
    some ((List.range n).foldl step 0, bit + n)

/-- The loop of `bits_ue`: zeros before a one, from some on; 31 zeros are too many. -/
def zerosFrom (data : List Byte) : ℕ → ℕ → Reader ℕ
  | 0, _ => failure
  | left + 1, zeros => do
      let bit ← bitsRead data 1
      if bit ≠ 0 then return zeros else zerosFrom data left (zeros + 1)

/-- `bits_ue` -/
def bitsUe (data : List Byte) : Reader (BitVec 32) := do
  let zeros ← zerosFrom data 31 0
  let suffix ← bitsRead data zeros
  return ((1 : BitVec 32) <<< zeros - 1) + suffix

/-- The loop of `rbsp_from_nal`: behind two zeros, a three in front of at most a three is left
out. -/
def unescape : ℕ → List Byte → List Byte
  | _, [] => []
  | zeros, b :: rest =>
      if zeros ≥ 2 ∧ b = 3 ∧ rest ≠ [] ∧ rest.headD 0 ≤ 3 then unescape 0 rest
      else b :: unescape (if b = 0 then zeros + 1 else 0) rest

/-- `rbsp_from_nal` -/
def rbspFromNal (nal : List Byte) (header : ℕ) : Option (List Byte) :=
  if nal.length ≤ header then none else some (unescape 0 (nal.drop header))

/-- What a reader reads of the bytes behind the header of a NAL unit. -/
def readNal {α : Type} (nal : List Byte) (header : ℕ) (reader : List Byte → Reader α) : Option α :=
  match rbspFromNal nal header with
  | none => none
  | some rbsp => ((reader rbsp).run 0).map Prod.fst

/-- A reader that fails unless the condition holds. -/
def ensure (p : Prop) [Decidable p] : Reader Unit := if p then pure () else failure

/-- What does not matter when it is read. -/
def skip {α : Type} (reader : Reader α) : Reader Unit := do
  let _ ← reader

/-- So many times. -/
def times {α : Type} : ℕ → Reader α → Reader Unit
  | 0, _ => pure ()
  | n + 1, reader => do
      skip reader
      times n reader

/-- A frame rate: the `double` that is the quotient of `time_scale` and twice `num_units`. -/
structure Framerate where
  timeScale : BitVec 32
  numUnits : BitVec 32
  deriving DecidableEq, Repr

/-- `parse_h264_vui_framerate`; `0.0` is none. -/
def parseH264VuiFramerate (data : List Byte) : Reader Framerate := do
  let present ← bitsRead data 1
  ensure (present ≠ 0)
  let aspect ← bitsRead data 1
  if aspect ≠ 0 then
    let value ← bitsRead data 8
    if value = 255 then times 2 (bitsRead data 16)
  let overscan ← bitsRead data 1
  if overscan ≠ 0 then skip (bitsRead data 1)
  let videoSignal ← bitsRead data 1
  if videoSignal ≠ 0 then
    skip (bitsRead data 3)
    skip (bitsRead data 1)
    let colour ← bitsRead data 1
    if colour ≠ 0 then times 3 (bitsRead data 8)
  let chromaLoc ← bitsRead data 1
  if chromaLoc ≠ 0 then times 2 (bitsUe data)
  let timing ← bitsRead data 1
  ensure (timing ≠ 0)
  let numUnits ← bitsRead data 32
  let timeScale ← bitsRead data 32
  skip (bitsRead data 1)
  ensure (numUnits ≠ 0)
  return ⟨timeScale, numUnits⟩

/-- The format that a sequence parameter set says. -/
structure Format where
  width : BitVec 32
  height : BitVec 32
  codedWidth : BitVec 32
  codedHeight : BitVec 32
  profile : BitVec 32
  level : BitVec 32
  bitDepth : BitVec 32
  framerate : Option Framerate
  deriving DecidableEq, Repr

/-- The profiles whose parameter sets say the chroma format. -/
def chromaProfiles : List (BitVec 32) := [100, 110, 122, 244, 44, 83, 86, 118, 128, 138, 139, 134]

/-- A scaling list that is present is refused. -/
def noScalingList (data : List Byte) : Reader Unit := do
  let list ← bitsRead data 1
  ensure (list = 0)

/-- The part of `parse_h264_sps` that only these profiles have: the chroma format. -/
def readChroma (data : List Byte) (profile : BitVec 32) : Reader (BitVec 32) := do
  if profile ∈ chromaProfiles then
    let chroma ← bitsUe data
    if chroma = 3 then skip (bitsRead data 1)
    skip (bitsUe data)
    skip (bitsUe data)
    skip (bitsRead data 1)
    let scaling ← bitsRead data 1
    if scaling ≠ 0 then times (if chroma = 3 then 12 else 8) (noScalingList data)
    return chroma
  else return 1

/-- The end of `parse_h264_sps`, when everything has been read but the use. -/
def spsFormat (data : List Byte) (id profile level chroma widthMbs heightMap frameMbs left right top
    bottom : BitVec 32) : Reader (BitVec 32 × Format) := do
  let codedWidth := (widthMbs + 1) * 16
  let codedHeight := (heightMap + 1) * 16 * (2 - frameMbs)
  let subW : BitVec 32 := if chroma = 3 then 1 else 2
  let subH : BitVec 32 := if chroma = 1 then 2 else 1
  let cropX := (left + right) * subW
  let cropY := (top + bottom) * subH * (2 - frameMbs)
  ensure (cropX < codedWidth ∧ cropY < codedHeight)
  let bit ← get
  return (id,
    { width := codedWidth - cropX
      height := codedHeight - cropY
      codedWidth := codedWidth
      codedHeight := codedHeight
      profile := profile
      level := level
      bitDepth := 8
      framerate := ((parseH264VuiFramerate data).run bit).map Prod.fst })

/-- `parse_h264_sps`: the number of the parameter set, and the format. -/
def parseH264Sps (nal : List Byte) : Option (BitVec 32 × Format) :=
  readNal nal 1 fun data => do
    let profile ← bitsRead data 8
    skip (bitsRead data 8)
    let level ← bitsRead data 8
    let id ← bitsUe data
    let chroma ← readChroma data profile
    times 4 (bitsUe data)
    skip (bitsRead data 1)
    let widthMbs ← bitsUe data
    let heightMap ← bitsUe data
    let frameMbs ← bitsRead data 1
    if frameMbs = 0 then skip (bitsRead data 1)
    skip (bitsRead data 1)
    let crop ← bitsRead data 1
    let (left, right, top, bottom) ←
      if crop ≠ 0 then do
        let left ← bitsUe data
        let right ← bitsUe data
        let top ← bitsUe data
        let bottom ← bitsUe data
        pure (left, right, top, bottom)
      else pure (0, 0, 0, 0)
    spsFormat data id profile level chroma widthMbs heightMap frameMbs left right top bottom

/-- `H264_MAX_SPS` -/
def maxSps : BitVec 32 := 32

/-- `H264_MAX_PPS` -/
def maxPps : BitVec 32 := 256

/-- `parse_h264_pps`: the numbers of the picture parameter set and of its sequence. -/
def parseH264Pps (nal : List Byte) : Option (BitVec 32 × BitVec 32) :=
  readNal nal 1 fun data => do
    let ppsId ← bitsUe data
    let spsId ← bitsUe data
    ensure (ppsId < maxPps ∧ spsId < maxSps)
    return (ppsId, spsId)

/-- `parse_h264_slice`: the first macroblock, and the number of the picture parameter set. -/
def parseH264Slice (nal : List Byte) : Option (BitVec 32 × BitVec 32) :=
  readNal nal 1 fun data => do
    let firstMb ← bitsUe data
    skip (bitsUe data)
    let ppsId ← bitsUe data
    ensure (ppsId < maxPps)
    return (firstMb, ppsId)

/-- The flags of the sub-layers, in the array `p`. -/
def readSubLayerFlags (data : List Byte) : ℕ → ℕ → List (BitVec 32) → Reader (List (BitVec 32))
  | 0, _, p => pure p
  | n + 1, i, p => do
      let profilePresent ← bitsRead data 1
      let levelPresent ← bitsRead data 1
      readSubLayerFlags data n (i + 1) ((p.set i profilePresent).set (i + 1) levelPresent)

/-- What is said of the sub-layers. -/
def skipSubLayers (data : List Byte) (p : List (BitVec 32)) : ℕ → ℕ → Reader Unit
  | 0, _ => pure ()
  | n + 1, i => do
      if p.getD i 0 ≠ 0 then times 88 (bitsRead data 1)
      if p.getD (i + 1) 0 ≠ 0 then skip (bitsRead data 8)
      skipSubLayers data p n (i + 1)

/-- `skip_h265_ptl` -/
def skipH265Ptl (data : List Byte) (maxSubLayers : ℕ) : Reader Unit := do
  skip (bitsRead data 2)
  skip (bitsRead data 1)
  skip (bitsRead data 5)
  skip (bitsRead data 32)
  skip (bitsRead data 48)
  skip (bitsRead data 8)
  let p ← readSubLayerFlags data maxSubLayers 0 (List.replicate 7 0)
  times (8 - maxSubLayers) (bitsRead data 2)
  skipSubLayers data p maxSubLayers 0

/-- What `parse_h265_sps` sets. -/
structure H265Format where
  codedWidth : BitVec 32
  codedHeight : BitVec 32
  width : BitVec 32
  height : BitVec 32
  bitDepth : BitVec 32
  deriving DecidableEq, Repr

/-- `parse_h265_sps` -/
def parseH265Sps (nal : List Byte) : Option H265Format :=
  readNal nal 2 fun data => do
    skip (bitsRead data 4)
    let sublayers ← bitsRead data 3
    skip (bitsRead data 1)
    skipH265Ptl data sublayers.toNat
    skip (bitsUe data)
    let chroma ← bitsUe data
    if chroma = 3 then skip (bitsRead data 1)
    let width ← bitsUe data
    let height ← bitsUe data
    let conf ← bitsRead data 1
    let (l, r, t, bot) ←
      if conf ≠ 0 then do
        let l ← bitsUe data
        let r ← bitsUe data
        let t ← bitsUe data
        let bot ← bitsUe data
        pure (l, r, t, bot)
      else pure (0, 0, 0, 0)
    let bitdepth ← bitsUe data
    skip (bitsUe data)
    let subW : BitVec 32 := if chroma = 3 then 1 else 2
    let subH : BitVec 32 := if chroma = 1 then 2 else 1
    let cropX := (l + r) * subW
    let cropY := (t + bot) * subH
    ensure (cropX < width ∧ cropY < height)
    return { codedWidth := width, codedHeight := height, width := width - cropX,
             height := height - cropY, bitDepth := bitdepth + 8 }

end Zstreamer.H26x

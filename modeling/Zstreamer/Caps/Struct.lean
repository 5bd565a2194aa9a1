/-
# Capability structures

`zst_caps.c` describes a stream by a list of structures.  A structure has a media
type, a type, generic fields by key, and, for video and audio, a second copy of
some of them in members of their own (here: the legacy members).  The constructors
and setters below write both copies the way the source does, aliases and
truncation included.

C strings are Lean strings without a zero character, one character for a byte.
An `int` is an integer, as nothing is computed with it.  Allocations succeed.
-/

import Zstreamer.Foundation.Assoc
import Zstreamer.Foundation.Double
import Mathlib.Data.Int.Notation

namespace Zstreamer.Caps

open Foundation

/-- The contents of a character array with room for `n` characters and the terminator. -/
structure Text (n : ℕ) where
  chars : String
  short : chars.length ≤ n

instance {n : ℕ} : DecidableEq (Text n) := fun a b =>
  decidable_of_iff (a.chars = b.chars)
    ⟨fun h => by cases a; cases b; cases h; rfl, fun h => by rw [h]⟩

/-- What `strncpy` puts into such an array. -/
def truncate (n : ℕ) (s : String) : Text n :=
  ⟨String.ofList (s.toList.take n), by
    rw [String.length_ofList, List.length_take]
    exact Nat.min_le_left _ _⟩

theorem truncate_chars_of_le {n : ℕ} {s : String} (hshort : s.length ≤ n) :
    (truncate n s).chars = s := by
  simp only [truncate]
  rw [List.take_of_length_le (by rw [String.length_toList]; exact hshort)]
  exact String.ofList_toList

@[simp]
theorem truncate_chars {n : ℕ} (t : Text n) : truncate n t.chars = t := by
  have hchars := truncate_chars_of_le t.short
  cases t
  simp only [truncate, Text.mk.injEq] at hchars ⊢
  exact hchars

/-- `zst_caps_type_t` -/
inductive CapsType
  | video
  | audio
  | any
  deriving DecidableEq, Repr

/-- The value of a field, with its type.  A string may be a null pointer; a buffer of no
bytes has no data. -/
inductive Value
  | int (i : ℤ)
  | uint (u : ℕ)
  | double (d : Double)
  | string (s : Option String)
  | fraction (num denom : ℤ)
  | buffer (bytes : List UInt8)
  deriving DecidableEq, Repr

/-- `caps_field_equal` -/
def Value.equal : Value → Value → Bool
  | .int a, .int b => a == b
  | .uint a, .uint b => a == b
  | .double a, .double b => a.eq b
  | .string a, .string b => a == b
  | .fraction a b, .fraction c d => a == c && b == d
  | .buffer a, .buffer b => a == b
  | _, _ => false

/-- The video members; zero and the empty string mean any. -/
structure Video where
  width : ℤ
  height : ℤ
  framerate : Double
  pixelFormat : Text 31
  deriving DecidableEq

/-- The audio members; zero and the empty string mean any. -/
structure Audio where
  channels : ℤ
  sampleRate : ℤ
  format : Text 31
  deriving DecidableEq

/-- `zst_caps_struct_t` -/
structure Struct where
  mediaType : Text 63
  type : CapsType
  fields : Assoc String Value
  video : Video
  audio : Audio
  deriving DecidableEq

/-- A list of structures, most preferred first. -/
abbrev CapsList := List Struct

/-- `calloc` of a structure, with its media type and type. -/
def Struct.blank (mediaType : Option String) (type : CapsType) : Struct where
  mediaType := truncate 63 (mediaType.getD "")
  type := type
  fields := Assoc.empty
  video := ⟨0, 0, Double.zero, truncate 31 ""⟩
  audio := ⟨0, 0, truncate 31 ""⟩

/-- `caps_is_raw_video_struct` -/
def Struct.isRawVideo (s : Struct) : Bool := s.type = .video ∧ s.mediaType.chars = "video/x-raw"

/-- `caps_is_raw_audio_struct` -/
def Struct.isRawAudio (s : Struct) : Bool := s.type = .audio ∧ s.mediaType.chars = "audio/x-raw"

/-- `caps_is_raw_legacy_field` -/
def Struct.isRawLegacyField (s : Struct) (key : String) : Bool :=
  if s.isRawVideo then
    key = "width" ∨ key = "height" ∨ key = "framerate" ∨ key = "pixel-format"
  else if s.isRawAudio then
    key = "channels" ∨ key = "sample-rate" ∨ key = "format"
  else false

/-- `caps_struct_set_field`, when memory lasts. -/
def Struct.setField (s : Struct) (key : String) (value : Value) : Struct :=
  { s with fields := s.fields.assign key value }

/-- Set a field if a condition holds. -/
def Struct.setFieldIf (cond : Bool) (key : String) (value : Value) (s : Struct) : Struct :=
  if cond then s.setField key value else s

/-- `zst_caps_struct_create_video` -/
def createVideo (mediaType : Option String) (width height : ℤ) (framerate : Double)
    (pixelFormat : Option String) : Struct :=
  let s := { Struct.blank mediaType .video with
    video := ⟨width, height, framerate, truncate 31 (pixelFormat.getD "")⟩ }
  let isRaw := s.mediaType.chars == "video/x-raw"
  let s := s.setFieldIf (isRaw || width != 0) "width" (.int width)
  let s := s.setFieldIf (isRaw || height != 0) "height" (.int height)
  let s := s.setFieldIf (isRaw || !framerate.eq .zero) "framerate" (.double framerate)
  s.setFieldIf (isRaw && pixelFormat.isSome) "pixel-format" (.string pixelFormat)

/-- `zst_caps_struct_create_audio` -/
def createAudio (mediaType : Option String) (channels sampleRate : ℤ) (format : Option String) :
    Struct :=
  let s := { Struct.blank mediaType .audio with
    audio := ⟨channels, sampleRate, truncate 31 (format.getD "")⟩ }
  let isRaw := s.mediaType.chars == "audio/x-raw"
  let s := s.setFieldIf (isRaw || channels != 0) "channels" (.int channels)
  let s := s.setFieldIf (isRaw || sampleRate != 0) "sample-rate" (.int sampleRate)
  s.setFieldIf (isRaw && format.isSome) "format" (.string format)

/-- The structure `zst_caps_new_simple` makes its list of. -/
def newSimple (mediaType : Option String) : Struct :=
  match mediaType with
  | none => Struct.blank none .any
  | some m =>
      if m.startsWith "video/" then Struct.blank mediaType .video
      else if m.startsWith "audio/" then Struct.blank mediaType .audio
      else Struct.blank mediaType .any

/-- `zst_caps_set_int`, on the first structure. -/
def Struct.setInt (key : String) (value : ℤ) (s : Struct) : Struct :=
  let s :=
    match s.type with
    | .video =>
        if key = "width" then { s with video := { s.video with width := value } }
        else if key = "height" then { s with video := { s.video with height := value } }
        else s
    | .audio =>
        if key = "channels" then { s with audio := { s.audio with channels := value } }
        else if key = "sample-rate" ∨ key = "sample_rate" then
          { s with audio := { s.audio with sampleRate := value } }
        else s
    | .any => s
  s.setField (truncate 63 key).chars (.int value)

/-- `zst_caps_set_double` -/
def Struct.setDouble (key : String) (value : Double) (s : Struct) : Struct :=
  let s :=
    if s.type = .video ∧ key = "framerate" then
      { s with video := { s.video with framerate := value } }
    else s
  s.setField (truncate 63 key).chars (.double value)

/-- `zst_caps_set_string` -/
def Struct.setString (key : String) (value : Option String) (s : Struct) : Struct :=
  let s :=
    match s.type with
    | .video =>
        if key = "pixel-format" ∨ key = "pixel_format" then
          { s with video := { s.video with pixelFormat := truncate 31 (value.getD "") } }
        else s
    | .audio =>
        if key = "format" then
          { s with audio := { s.audio with format := truncate 31 (value.getD "") } }
        else s
    | .any => s
  s.setField (truncate 63 key).chars (.string value)

/-- A setter applied to a list; without a structure it fails. -/
def CapsList.onFirst (f : Struct → Struct) : CapsList → Option CapsList
  | [] => none
  | s :: rest => some (f s :: rest)

/-! ## Intersection -/

/-- Intersect a member where zero means any. -/
def intersectInt (a b : ℤ) : Option ℤ :=
  if a ≠ 0 ∧ b ≠ 0 then
    if a ≠ b then none else some a
  else some (if a ≠ 0 then a else b)

/-- Intersect the frame rates. -/
def intersectDouble (a b : Double) : Option Double :=
  if a.eq .zero = false ∧ b.eq .zero = false then
    if a.eq b = false then none else some a
  else some (if a.eq .zero = false then a else b)

/-- Intersect a format.  It goes through an array of the same size. -/
def intersectFormat (a b : Text 31) : Option (Text 31) :=
  if a.chars ≠ "" ∧ b.chars ≠ "" then
    if a ≠ b then none else some a
  else some (if a.chars ≠ "" then a else b)

/-- The members of an intersection: a new raw structure, or a copy of the first one. -/
def intersectMembers (s₁ s₂ : Struct) : Option Struct :=
  if s₁.isRawVideo then do
    let width ← intersectInt s₁.video.width s₂.video.width
    let height ← intersectInt s₁.video.height s₂.video.height
    let framerate ← intersectDouble s₁.video.framerate s₂.video.framerate
    let format ← intersectFormat s₁.video.pixelFormat s₂.video.pixelFormat
    return createVideo s₁.mediaType.chars width height framerate format.chars
  else if s₁.isRawAudio then do
    let channels ← intersectInt s₁.audio.channels s₂.audio.channels
    let rate ← intersectInt s₁.audio.sampleRate s₂.audio.sampleRate
    let format ← intersectFormat s₁.audio.format s₂.audio.format
    return createAudio s₁.mediaType.chars channels rate format.chars
  else some s₁

/-- The loop over the fields of the first structure: a field the other has too must be
equal there. -/
def mergeFirst (s₁ s₂ : Struct) : List (String × Value) → Struct → Option Struct
  | [], res => some res
  | (key, value) :: rest, res =>
      if s₁.isRawLegacyField key then mergeFirst s₁ s₂ rest res
      else
        match s₂.fields.get key with
        | some other =>
            if value.equal other = false then none
            else mergeFirst s₁ s₂ rest (res.setField key value)
        | none => mergeFirst s₁ s₂ rest (res.setField key value)

/-- The loop over the fields of the second structure: what the first does not have is
added. -/
def mergeSecond (s₁ s₂ : Struct) : List (String × Value) → Struct → Struct
  | [], res => res
  | (key, value) :: rest, res =>
      if s₂.isRawLegacyField key then mergeSecond s₁ s₂ rest res
      else
        match s₁.fields.get key with
        | some _ => mergeSecond s₁ s₂ rest res
        | none => mergeSecond s₁ s₂ rest (res.setField key value)

/-- `zst_caps_struct_intersect` -/
def Struct.intersect (s₁ s₂ : Struct) : Option Struct :=
  if s₁.mediaType ≠ s₂.mediaType then none
  else if s₁.type ≠ s₂.type then none
  else do
    let res ← intersectMembers s₁ s₂
    let res ← mergeFirst s₁ s₂ s₁.fields.entries res
    return mergeSecond s₁ s₂ s₂.fields.entries res

/-- `zst_caps_intersect` -/
def CapsList.intersect (caps₁ caps₂ : CapsList) : CapsList :=
  caps₁.flatMap fun s₁ => caps₂.filterMap fun s₂ => s₁.intersect s₂

/-! ## Fixing -/

/-- `zst_caps_struct_is_fixed` -/
def Struct.isFixed (s : Struct) : Bool :=
  if s.isRawVideo then
    s.video.width ≠ 0 ∧ s.video.height ≠ 0 ∧ s.video.framerate.eq .zero = false ∧
      s.video.pixelFormat.chars ≠ ""
  else if s.isRawAudio then
    s.audio.channels ≠ 0 ∧ s.audio.sampleRate ≠ 0 ∧ s.audio.format.chars ≠ ""
  else s.mediaType.chars ≠ ""

/-- `zst_caps_is_fixed` -/
def CapsList.isFixed : CapsList → Bool
  | [s] => s.isFixed
  | _ => false

/-- `30.0` -/
def thirty : Double := ⟨0x403E000000000000⟩

/-- The members of a raw structure with the wildcards filled in. -/
def Struct.fillMembers (s : Struct) : Struct :=
  if s.isRawVideo then
    { s with video :=
      { width := if s.video.width = 0 then 640 else s.video.width
        height := if s.video.height = 0 then 480 else s.video.height
        framerate := if s.video.framerate.eq .zero then thirty else s.video.framerate
        pixelFormat :=
          if s.video.pixelFormat.chars = "" then truncate 31 "YUV420P" else s.video.pixelFormat } }
  else if s.isRawAudio then
    { s with audio :=
      { channels := if s.audio.channels = 0 then 2 else s.audio.channels
        sampleRate := if s.audio.sampleRate = 0 then 44100 else s.audio.sampleRate
        format := if s.audio.format.chars = "" then truncate 31 "S16LE" else s.audio.format } }
  else s

/-- Resolve the wildcards of a structure and write the members to their fields. -/
def Struct.fixate (s : Struct) : Struct :=
  let s := s.fillMembers
  if s.isRawVideo then
    (((s.setInt "width" s.video.width).setInt "height" s.video.height).setDouble "framerate"
      s.video.framerate).setString "pixel-format" s.video.pixelFormat.chars
  else if s.isRawAudio then
    ((s.setInt "channels" s.audio.channels).setInt "sample-rate" s.audio.sampleRate).setString
      "format" s.audio.format.chars
  else s

/-- `zst_caps_fixate`: keep the first structure and resolve its wildcards. -/
def CapsList.fixate : CapsList → Option CapsList
  | [] => none
  | s :: _ => some [s.fixate]

end Zstreamer.Caps

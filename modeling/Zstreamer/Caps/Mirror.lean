/-
# Members and fields that say the same thing

Seven facts about a stream are stored twice, in a member of the structure and in a
field.  A `Slot` is such a fact: whose structures have it, under which key, under
which second key the setters accept it, and which member it is.  Everything below
is said once for all slots.

`Mirrors` is the agreement of the two copies.  Creating, fixing, and intersecting
raw structures establish it from nothing.  Three things break it: a setter called
with a second key writes the member only; a setter called with a value of another
type writes the field only; and the intersection of structures that are not raw
keeps the members of the first while it takes over fields of the second.  The
conditions `SetKeeps` and `MeetKeeps` are exactly that these do no harm.
-/

import Zstreamer.Caps.Fixation
import Zstreamer.Foundation.Runs

namespace Zstreamer.Caps

open Foundation

/-! ## Slots -/

/-- The facts that are stored twice. -/
inductive Slot
  | width
  | height
  | framerate
  | pixelFormat
  | channels
  | sampleRate
  | format
  deriving DecidableEq, Repr

namespace Slot

/-- The structures that have the member. -/
def type : Slot → CapsType
  | width | height | framerate | pixelFormat => .video
  | channels | sampleRate | format => .audio

/-- The key of the field. -/
def key : Slot → String
  | width => "width"
  | height => "height"
  | framerate => "framerate"
  | pixelFormat => "pixel-format"
  | channels => "channels"
  | sampleRate => "sample-rate"
  | format => "format"

/-- The other key a setter takes for the member; most have none. -/
def otherKey : Slot → String
  | pixelFormat => "pixel_format"
  | sampleRate => "sample_rate"
  | slot => slot.key

/-- The member, as the value its field should have. -/
def member (s : Struct) : Slot → Value
  | width => .int s.video.width
  | height => .int s.video.height
  | framerate => .double s.video.framerate
  | pixelFormat => .string (some s.video.pixelFormat.chars)
  | channels => .int s.audio.channels
  | sampleRate => .int s.audio.sampleRate
  | format => .string (some s.audio.format.chars)

end Slot

/-- `zst_caps_field_type_t` -/
inductive FieldType
  | int
  | uint
  | double
  | string
  | fraction
  | buffer
  deriving DecidableEq, Repr

def Value.type : Value → FieldType
  | .int _ => .int
  | .uint _ => .uint
  | .double _ => .double
  | .string _ => .string
  | .fraction _ _ => .fraction
  | .buffer _ => .buffer

/-- A field reads like a member.  A string that does not fit the member need not, and a null
string is an empty one. -/
def Value.Reads : Value → Value → Prop
  | .string a, .string b => (a.getD "").length < 32 → a.getD "" = b.getD ""
  | a, b => a = b

/-- `video/x-raw` or `audio/x-raw` -/
def Struct.isRaw (s : Struct) : Bool := s.isRawVideo || s.isRawAudio

/-- One slot of a structure agrees: a field of the natural type reads like the member, and a
constrained member of a raw structure has such a field. -/
def SlotMirrors (raw : Bool) (field : Option Value) (member : Value) : Prop :=
  (∀ v, field = some v → v.type = member.type → v.Reads member) ∧
  (raw = true → member.isAny = false → ∃ v, field = some v ∧ v.type = member.type)

/-- **The two copies agree.** -/
def Struct.Mirrors (s : Struct) : Prop :=
  ∀ slot : Slot, slot.type = s.type →
    SlotMirrors s.isRaw (s.fields.get slot.key) (slot.member s)

theorem Value.reads_refl (v : Value) : v.Reads v := by
  cases v with
  | string s => exact fun _ => rfl
  | _ => rfl

/-- A field that is the member agrees with it. -/
theorem slotMirrors_self (raw : Bool) (member : Value) :
    SlotMirrors raw (some member) member := by
  constructor
  · rintro v hv -
    cases hv
    exact member.reads_refl
  · exact fun _ _ => ⟨member, rfl, rfl⟩

/-- No field agrees with a member that is not constrained. -/
theorem slotMirrors_none {raw : Bool} {member : Value} (hany : raw = true → member.isAny = true) :
    SlotMirrors raw none member := by
  constructor
  · intro v hv
    cases hv
  · intro hraw hconstrained
    rw [hany hraw] at hconstrained
    cases hconstrained

theorem isRaw_iff (s : Struct) : s.isRaw = true ↔ s.isRawVideo = true ∨ s.isRawAudio = true := by
  unfold Struct.isRaw
  exact Bool.or_eq_true_iff

/-! ## Structures that show their members -/

/-- A slot of a raw structure is among its members. -/
theorem slot_mem_memberFields {s : Struct} {slot : Slot} (hraw : s.isRaw = true)
    (htype : slot.type = s.type) : (slot.key, slot.member s) ∈ s.memberFields := by
  unfold Struct.memberFields
  split
  case isTrue hvideo =>
      have hvideoType : s.type = .video := (of_decide_eq_true hvideo).1
      rw [hvideoType] at htype
      cases slot <;> simp_all [Slot.type, Slot.key, Slot.member]
  case isFalse hvideo =>
      have haudio : s.isRawAudio = true := ((isRaw_iff s).mp hraw).resolve_left hvideo
      have haudioType : s.type = .audio := (of_decide_eq_true haudio).1
      rw [if_pos haudio]
      rw [haudioType] at htype
      cases slot <;> simp_all [Slot.type, Slot.key, Slot.member]

theorem mirrors_of_showsMembers {s : Struct} (hraw : s.isRaw = true) (hshows : s.ShowsMembers) :
    s.Mirrors := by
  intro slot htype
  have hfield := hshows _ (slot_mem_memberFields hraw htype)
  have hfield : s.fields.get slot.key = some (slot.member s) := hfield
  rw [hfield]
  exact slotMirrors_self _ _

/-! ## New structures -/

/-- A field that is written under a condition, together with the member. -/
theorem slotMirrors_written {cond raw : Bool} {value member : Value}
    (htype : value.type = member.type) (hreads : value.Reads member)
    (hany : cond = false → raw = true → member.isAny = true) :
    SlotMirrors raw (if cond = true then some value else none) member := by
  cases cond with
  | false => exact slotMirrors_none (hany rfl)
  | true =>
      refine ⟨?_, fun _ _ => ⟨value, rfl, htype⟩⟩
      rintro v hv -
      cases hv
      exact hreads

/-- A string reads like the member it was copied to. -/
theorem reads_truncate (v : Option String) :
    (Value.string v).Reads (.string (some (truncate 31 (v.getD "")).chars)) := by
  intro hshort
  exact (truncate_chars_of_le (Nat.le_of_lt_succ hshort)).symm

section Create

variable (mediaType : Option String) (width height : ℤ) (framerate : Double)
  (channels rate : ℤ) (format : Option String)

theorem createVideo_isRaw :
    (createVideo mediaType width height framerate format).isRaw =
      ((truncate 63 (mediaType.getD "")).chars == "video/x-raw") := by
  rw [Bool.eq_iff_iff]
  simp [Struct.isRaw, Struct.isRawVideo, Struct.isRawAudio, createVideo, Struct.blank]

theorem createAudio_isRaw :
    (createAudio mediaType channels rate format).isRaw =
      ((truncate 63 (mediaType.getD "")).chars == "audio/x-raw") := by
  rw [Bool.eq_iff_iff]
  simp [Struct.isRaw, Struct.isRawVideo, Struct.isRawAudio, createAudio, Struct.blank]

theorem createVideo_video :
    (createVideo mediaType width height framerate format).video =
      ⟨width, height, framerate, truncate 31 (format.getD "")⟩ := by
  simp [createVideo]

theorem createAudio_audio :
    (createAudio mediaType channels rate format).audio =
      ⟨channels, rate, truncate 31 (format.getD "")⟩ := by
  simp [createAudio]

/-- The fields of a new video structure. -/
theorem createVideo_get {raw : Bool}
    (hraw : ((truncate 63 (mediaType.getD "")).chars == "video/x-raw") = raw) :
    let fields := (createVideo mediaType width height framerate format).fields
    fields.get "width" = (if (raw || width != 0) = true then some (.int width) else none) ∧
    fields.get "height" = (if (raw || height != 0) = true then some (.int height) else none) ∧
    fields.get "framerate" =
      (if (raw || !framerate.eq .zero) = true then some (.double framerate) else none) ∧
    fields.get "pixel-format" =
      (if (raw && format.isSome) = true then some (.string format) else none) := by
  subst hraw
  simp [createVideo, setFieldIf_get, Struct.blank]

/-- The fields of a new audio structure. -/
theorem createAudio_get {raw : Bool}
    (hraw : ((truncate 63 (mediaType.getD "")).chars == "audio/x-raw") = raw) :
    let fields := (createAudio mediaType channels rate format).fields
    fields.get "channels" =
      (if (raw || channels != 0) = true then some (.int channels) else none) ∧
    fields.get "sample-rate" = (if (raw || rate != 0) = true then some (.int rate) else none) ∧
    fields.get "format" =
      (if (raw && format.isSome) = true then some (.string format) else none) := by
  subst hraw
  simp [createAudio, setFieldIf_get, Struct.blank]

/-- A field that a raw structure always gets. -/
theorem slotMirrors_always {raw other : Bool} (value : Value) :
    SlotMirrors raw (if (raw || other) = true then some value else none) value := by
  apply slotMirrors_written rfl value.reads_refl
  intro hnot hraw
  rw [hraw, Bool.true_or] at hnot
  cases hnot

/-- The format, which a raw structure gets if there is one. -/
theorem slotMirrors_format {raw : Bool} :
    SlotMirrors raw (if (raw && format.isSome) = true then some (.string format) else none)
      (.string (some (truncate 31 (format.getD "")).chars)) := by
  refine slotMirrors_written ?_ (reads_truncate format) ?_
  · rfl
  · intro hnot hraw
    rw [hraw, Bool.true_and] at hnot
    cases format with
    | none => decide
    | some f => cases hnot

theorem createVideo_mirrors :
    (createVideo mediaType width height framerate format).Mirrors := by
  intro slot htype
  rw [createVideo_isRaw]
  obtain ⟨hwidth, hheight, hrate, hformat⟩ :=
    createVideo_get mediaType width height framerate format rfl
  cases slot with
  | width =>
      rw [Slot.key, hwidth, Slot.member, createVideo_video]
      exact slotMirrors_always (.int width)
  | height =>
      rw [Slot.key, hheight, Slot.member, createVideo_video]
      exact slotMirrors_always (.int height)
  | framerate =>
      rw [Slot.key, hrate, Slot.member, createVideo_video]
      exact slotMirrors_always (.double framerate)
  | pixelFormat =>
      rw [Slot.key, hformat, Slot.member, createVideo_video]
      exact slotMirrors_format format
  | _ =>
      simp [createVideo, Slot.type, Struct.blank] at htype

theorem createAudio_mirrors : (createAudio mediaType channels rate format).Mirrors := by
  intro slot htype
  rw [createAudio_isRaw]
  obtain ⟨hchannels, hrate, hformat⟩ := createAudio_get mediaType channels rate format rfl
  cases slot with
  | channels =>
      rw [Slot.key, hchannels, Slot.member, createAudio_audio]
      exact slotMirrors_always (.int channels)
  | sampleRate =>
      rw [Slot.key, hrate, Slot.member, createAudio_audio]
      exact slotMirrors_always (.int rate)
  | format =>
      rw [Slot.key, hformat, Slot.member, createAudio_audio]
      exact slotMirrors_format format
  | _ =>
      simp [createAudio, Slot.type, Struct.blank] at htype

end Create

/-- A structure without fields and constraints. -/
theorem blank_mirrors (mediaType : Option String) (type : CapsType) :
    (Struct.blank mediaType type).Mirrors := by
  intro slot _
  apply slotMirrors_none
  intro _
  cases slot with
  | framerate => exact (by decide : (Value.double .zero).isAny = true)
  | _ => rfl

theorem newSimple_mirrors (mediaType : Option String) : (newSimple mediaType).Mirrors := by
  unfold newSimple
  split
  · exact blank_mirrors none .any
  · split
    · exact blank_mirrors _ _
    · split
      · exact blank_mirrors _ _
      · exact blank_mirrors _ _

/-! ## Setters -/

/-- What the three setters are given. -/
inductive Setting
  | int (i : ℤ)
  | double (d : Double)
  | string (s : Option String)
  deriving DecidableEq, Repr

/-- The value of the field a setter writes. -/
def Setting.value : Setting → Value
  | .int i => .int i
  | .double d => .double d
  | .string s => .string s

/-- What the member a setter writes holds after that. -/
def Setting.stored : Setting → Value
  | .string s => .string (some (truncate 31 (s.getD "")).chars)
  | setting => setting.value

/-- `zst_caps_set_int`, `zst_caps_set_double` or `zst_caps_set_string`. -/
def Struct.set (key : String) : Setting → Struct → Struct
  | .int i => Struct.setInt key i
  | .double d => Struct.setDouble key d
  | .string v => Struct.setString key v

/-- The keys of slots are short, so a key is not cut down to one. -/
theorem slot_key_iff (slot : Slot) (key : String) :
    slot.key = (truncate 63 key).chars ↔ key = slot.key := by
  have hshort : slot.key.length < 63 := by cases slot <;> decide
  by_cases hkey : key.length ≤ 63
  · rw [truncate_chars_of_le hkey, eq_comm]
  · have hlength : (truncate 63 key).chars.length = 63 := by
      simp only [truncate, String.length_ofList, List.length_take, String.length_toList]
      omega
    constructor
    · intro heq
      rw [← heq] at hlength
      omega
    · intro heq
      rw [heq] at hkey
      omega

section Set

variable (s : Struct) (key : String) (setting : Setting)

theorem set_isRaw : (s.set key setting).type = s.type ∧
    (s.set key setting).isRaw = s.isRaw := by
  have hkind : (s.set key setting).type = s.type ∧
      (s.set key setting).mediaType = s.mediaType := by
    cases setting <;>
      simp only [Struct.set, Struct.setInt, Struct.setDouble, Struct.setString,
        Struct.setField] <;> grind
  obtain ⟨hvideo, haudio, -⟩ := isRaw_congr hkind.2 hkind.1
  refine ⟨hkind.1, ?_⟩
  unfold Struct.isRaw
  rw [hvideo, haudio]

/-- The field of a slot after a setter. -/
theorem set_get (slot : Slot) :
    (s.set key setting).fields.get slot.key =
      if key = slot.key then some setting.value else s.fields.get slot.key := by
  cases setting <;>
    simp only [Struct.set, Struct.setInt, Struct.setDouble, Struct.setString, Struct.setField,
      Assoc.get_assign, slot_key_iff, Setting.value] <;> grind

/-- The member of a slot after a setter. -/
theorem set_member (slot : Slot) :
    slot.member (s.set key setting) =
      if slot.type = s.type ∧ setting.value.type = (slot.member s).type ∧
          (key = slot.key ∨ key = slot.otherKey) then setting.stored
      else slot.member s := by
  cases setting <;> cases slot <;>
    simp only [Struct.set, Struct.setInt, Struct.setDouble, Struct.setString, Struct.setField,
      Slot.member, Slot.type, Slot.key, Slot.otherKey, Setting.stored, Setting.value,
      Value.type] <;> grind

/-- A call of a setter does no harm: under the key of a slot of a raw structure it gives a value of
the natural type, unless the member is not constrained; under the other key it gives what the
field already shows. -/
def SetKeeps : Prop :=
  ∀ slot : Slot, slot.type = s.type →
    (key = slot.key → setting.value.type ≠ (slot.member s).type → s.isRaw = true →
      (slot.member s).isAny = true) ∧
    (key = slot.otherKey → slot.otherKey ≠ slot.key →
      setting.value.type = (slot.member s).type →
      SlotMirrors s.isRaw (s.fields.get slot.key) setting.stored)

theorem stored_type : setting.stored.type = setting.value.type := by
  cases setting <;> rfl

theorem value_reads_stored : setting.value.Reads setting.stored := by
  cases setting with
  | int i => rfl
  | double d => rfl
  | string v => exact reads_truncate v

theorem set_mirrors_iff (hmirrors : s.Mirrors) :
    (s.set key setting).Mirrors ↔ SetKeeps s key setting := by
  obtain ⟨htype', hraw'⟩ := set_isRaw s key setting
  unfold Struct.Mirrors
  simp only [htype', hraw', set_get, set_member]
  constructor
  · intro hafter slot htype
    have hslot := hafter slot htype
    constructor
    · intro hkey hother hraw
      rw [if_pos hkey, if_neg fun h => hother h.2.1] at hslot
      cases hany : (slot.member s).isAny with
      | true => rfl
      | false =>
          obtain ⟨v, hv, hvtype⟩ := hslot.2 hraw hany
          cases hv
          exact absurd hvtype hother
    · intro hkey hne hnatural
      rwa [if_neg (fun h => hne (hkey.symm.trans h)),
        if_pos ⟨htype, hnatural, .inr hkey⟩] at hslot
  · intro hkeeps slot htype
    obtain ⟨hunnatural, halias⟩ := hkeeps slot htype
    by_cases hnatural : setting.value.type = (slot.member s).type
    · by_cases hkey : key = slot.key
      · -- The field and the member are written together.
        rw [if_pos hkey, if_pos ⟨htype, hnatural, .inl hkey⟩]
        refine ⟨?_, fun _ _ => ⟨_, rfl, (stored_type setting).symm⟩⟩
        rintro v hv -
        cases hv
        exact value_reads_stored setting
      · rw [if_neg hkey]
        by_cases hother : key = slot.otherKey
        · rw [if_pos ⟨htype, hnatural, .inr hother⟩]
          exact halias hother (fun h => hkey (hother.trans h)) hnatural
        · rw [if_neg fun h => h.2.2.elim hkey hother]
          exact hmirrors slot htype
    · by_cases hkey : key = slot.key
      · -- Only the field is written, and it is no field of the natural type any more.
        rw [if_pos hkey, if_neg fun h => hnatural h.2.1]
        constructor
        · intro v hv hvtype
          cases hv
          exact absurd hvtype hnatural
        · intro hraw hconstrained
          rw [hunnatural hkey hnatural hraw] at hconstrained
          cases hconstrained
      · rw [if_neg hkey, if_neg fun h => hnatural h.2.1]
        exact hmirrors slot htype

end Set

/-! ## Intersection and fixing -/

/-- The intersection of two structures does no harm: unless they are raw, a field it takes over
from the second reads like the member of the first. -/
def MeetKeeps (s₁ s₂ : Struct) : Prop :=
  Compatible s₁ s₂ → s₁.isRaw = false → ∀ slot : Slot, slot.type = s₁.type →
    s₁.fields.get slot.key = none → ∀ v, s₂.fields.get slot.key = some v →
    v.type = (slot.member s₁).type → v.Reads (slot.member s₁)

/-- What the meet of structures that are not raw looks like at a slot. -/
theorem meet_slot {s₁ s₂ : Struct} (hcompatible : Compatible s₁ s₂) (hraw : s₁.isRaw = false)
    (slot : Slot) :
    (s₁.meet s₂).fields.get slot.key =
        (s₁.fields.get slot.key).or (s₂.fields.get slot.key) ∧
      slot.member (s₁.meet s₂) = slot.member s₁ := by
  obtain ⟨-, -, hlegacy⟩ := isRaw_congr hcompatible.mediaType hcompatible.type
  obtain ⟨hvideo, haudio⟩ := Bool.or_eq_false_iff.mp hraw
  have hown : s₁.isRawLegacyField slot.key = false := by
    unfold Struct.isRawLegacyField
    simp [hvideo, haudio]
  have hmembers : meetMembers s₁ s₂ = s₁ := by
    unfold meetMembers
    simp [hvideo, haudio]
  refine ⟨meet_get s₁ s₂ hlegacy hown, ?_⟩
  unfold Struct.meet
  rw [hmembers]
  cases slot <;> rfl

theorem meet_isRaw (s₁ s₂ : Struct) : (s₁.meet s₂).isRaw = s₁.isRaw := by
  obtain ⟨hvideo, haudio, -⟩ := isRaw_congr (meet_mediaType s₁ s₂) (meet_type s₁ s₂)
  unfold Struct.isRaw
  rw [hvideo, haudio]

theorem meet_mirrors_iff {s₁ s₂ : Struct} (hmirrors : s₁.Mirrors)
    (hcompatible : Compatible s₁ s₂) : (s₁.meet s₂).Mirrors ↔ MeetKeeps s₁ s₂ := by
  cases hraw : s₁.isRaw with
  | true =>
      have hraw' : (s₁.meet s₂).isRaw = true := by rw [meet_isRaw, hraw]
      apply iff_of_true (mirrors_of_showsMembers hraw' (meet_showsMembers hcompatible))
      intro _ hnot
      rw [hraw] at hnot
      cases hnot
  | false =>
      have hslots := meet_slot hcompatible hraw
      unfold Struct.Mirrors
      simp only [meet_type, meet_isRaw, hslots, hraw]
      constructor
      · intro hafter _ _ slot htype hnone v hv hvtype
        have hfield : (s₁.fields.get slot.key).or (s₂.fields.get slot.key) = some v := by
          rw [hnone, hv, Option.none_or]
        exact (hafter slot htype).1 v hfield hvtype
      · intro hkeeps slot htype
        refine ⟨fun v hv hvtype => ?_, fun hfalse => by cases hfalse⟩
        rcases Option.or_eq_some_iff.mp hv with hfirst | ⟨hnone, hsecond⟩
        · exact (hmirrors slot htype).1 v hfirst hvtype
        · exact hkeeps hcompatible hraw slot htype hnone v hsecond hvtype

theorem fixate_mirrors {s : Struct} (hmirrors : s.Mirrors) : s.fixate.Mirrors := by
  obtain ⟨hvideo', haudio', -⟩ := isRaw_congr (fixate_mediaType s) (fixate_type s)
  cases hraw : s.isRaw with
  | true =>
      have hraw' : s.fixate.isRaw = true := by
        rw [← hraw]
        unfold Struct.isRaw
        rw [hvideo', haudio']
      exact mirrors_of_showsMembers hraw' (fixate_showsMembers s)
  | false =>
      obtain ⟨hvideo, haudio⟩ := Bool.or_eq_false_iff.mp hraw
      have hsame : s.fixate = s := by
        simp [Struct.fixate, Struct.fillMembers, hvideo, haudio]
      rw [hsame]
      exact hmirrors

/-! ## Building capabilities -/

/-- The calls that build capabilities.  A list is named by its number; what a call makes gets the
next one. -/
inductive Build
  | create
  | appendVideo (caps : ℕ) (mediaType : Option String) (width height : ℤ) (framerate : Double)
      (format : Option String)
  | appendAudio (caps : ℕ) (mediaType : Option String) (channels rate : ℤ)
      (format : Option String)
  | newSimple (mediaType : Option String)
  | set (caps : ℕ) (key : String) (setting : Setting)
  | copy (caps : ℕ)
  | intersect (first second : ℕ)
  | fixate (caps : ℕ)

/-- Replace a list by what a call answers; a call that fails changes nothing. -/
def replaceAt (lists : List CapsList) (caps : ℕ) (f : CapsList → Option CapsList) :
    Option (List CapsList) :=
  lists[caps]?.map fun old => lists.set caps ((f old).getD old)

/-- One call. -/
def build (lists : List CapsList) : Build → Option (List CapsList)
  | .create => some (lists ++ [[]])
  | .appendVideo caps mediaType width height framerate format =>
      replaceAt lists caps fun old =>
        some (old ++ [createVideo mediaType width height framerate format])
  | .appendAudio caps mediaType channels rate format =>
      replaceAt lists caps fun old => some (old ++ [createAudio mediaType channels rate format])
  | .newSimple mediaType => some (lists ++ [[newSimple mediaType]])
  | .set caps key setting =>
      replaceAt lists caps fun old => CapsList.onFirst (Struct.set key setting) old
  | .copy caps => lists[caps]?.map fun old => lists ++ [old]
  | .intersect first second =>
      lists[first]?.bind fun caps₁ => lists[second]?.map fun caps₂ =>
        lists ++ [caps₁.intersect caps₂]
  | .fixate caps => replaceAt lists caps CapsList.fixate

/-- Capabilities built from nothing. -/
def builder : System (List CapsList) Build where
  init lists := lists = []
  next := build

/-- Every structure of every list mirrors. -/
def AllMirror (lists : List CapsList) : Prop := ∀ caps ∈ lists, ∀ s ∈ caps, s.Mirrors

/-- The setters and intersections that do no harm, and everything else. -/
def Keeps (lists : List CapsList) : Build → Prop
  | .set caps key setting =>
      ∀ s rest, lists[caps]? = some (s :: rest) → SetKeeps s key setting
  | .intersect first second =>
      ∀ caps₁ caps₂, lists[first]? = some caps₁ → lists[second]? = some caps₂ →
        ∀ s₁ ∈ caps₁, ∀ s₂ ∈ caps₂, MeetKeeps s₁ s₂
  | _ => True

theorem allMirror_append {lists : List CapsList} {caps : CapsList} (hall : AllMirror lists) :
    AllMirror (lists ++ [caps]) ↔ ∀ s ∈ caps, s.Mirrors := by
  constructor
  · intro h
    exact h caps (List.mem_append_right _ (List.mem_singleton.mpr rfl))
  · intro h old hold
    rcases List.mem_append.mp hold with hmem | hnew
    · exact hall old hmem
    · rw [List.mem_singleton.mp hnew]
      exact h

theorem allMirror_replaceAt {lists lists' : List CapsList} {caps : ℕ}
    {f : CapsList → Option CapsList} (hall : AllMirror lists)
    (hreplace : replaceAt lists caps f = some lists') :
    ∃ old ∈ lists, lists[caps]? = some old ∧
      (AllMirror lists' ↔ ∀ s ∈ (f old).getD old, s.Mirrors) := by
  obtain ⟨old, hold, rfl⟩ := Option.map_eq_some_iff.mp hreplace
  obtain ⟨hlt, -⟩ := List.getElem?_eq_some_iff.mp hold
  refine ⟨old, List.mem_of_getElem? hold, hold, ?_, ?_⟩
  · intro h
    exact h _ (List.mem_set hlt _)
  · intro h other hother
    rcases List.mem_or_eq_of_mem_set hother with hmem | rfl
    · exact hall other hmem
    · exact h

/-- A call on capabilities that all mirror keeps them so exactly if it does no harm. -/
theorem build_mirrors_iff {lists lists' : List CapsList} {call : Build} (hall : AllMirror lists)
    (hbuild : build lists call = some lists') : AllMirror lists' ↔ Keeps lists call := by
  cases call with
  | create =>
      cases hbuild
      exact iff_of_true ((allMirror_append hall).mpr nofun) trivial
  | newSimple mediaType =>
      cases hbuild
      refine iff_of_true ((allMirror_append hall).mpr fun s hs => ?_) trivial
      rw [List.mem_singleton.mp hs]
      exact newSimple_mirrors mediaType
  | appendVideo caps mediaType width height framerate format =>
      obtain ⟨old, hold, -, hiff⟩ := allMirror_replaceAt hall hbuild
      refine iff_of_true (hiff.mpr fun s hs => ?_) trivial
      rcases List.mem_append.mp hs with hmem | hnew
      · exact hall old hold s hmem
      · rw [List.mem_singleton.mp hnew]
        exact createVideo_mirrors mediaType width height framerate format
  | appendAudio caps mediaType channels rate format =>
      obtain ⟨old, hold, -, hiff⟩ := allMirror_replaceAt hall hbuild
      refine iff_of_true (hiff.mpr fun s hs => ?_) trivial
      rcases List.mem_append.mp hs with hmem | hnew
      · exact hall old hold s hmem
      · rw [List.mem_singleton.mp hnew]
        exact createAudio_mirrors mediaType channels rate format
  | copy caps =>
      obtain ⟨old, hold, rfl⟩ := Option.map_eq_some_iff.mp hbuild
      refine iff_of_true ((allMirror_append hall).mpr ?_) trivial
      exact hall old (List.mem_of_getElem? hold)
  | fixate caps =>
      obtain ⟨old, hold, -, hiff⟩ := allMirror_replaceAt hall hbuild
      refine iff_of_true (hiff.mpr fun s hs => ?_) trivial
      cases old with
      | nil => cases hs
      | cons first rest =>
          rw [List.mem_singleton.mp hs]
          exact fixate_mirrors (hall _ hold first List.mem_cons_self)
  | set caps key setting =>
      obtain ⟨old, hold, hget, hiff⟩ := allMirror_replaceAt hall hbuild
      rw [hiff]
      cases old with
      | nil =>
          apply iff_of_true nofun
          intro s rest hsome
          rw [hget] at hsome
          cases hsome
      | cons first rest =>
          have hfirst := hall _ hold first List.mem_cons_self
          have hset := set_mirrors_iff first key setting hfirst
          constructor
          · intro h s tail hsome
            rw [hget] at hsome
            cases hsome
            exact hset.mp (h _ List.mem_cons_self)
          · intro hkeeps s hs
            rcases List.mem_cons.mp hs with rfl | htail
            · exact hset.mpr (hkeeps first rest hget)
            · exact hall _ hold s (List.mem_cons_of_mem first htail)
  | intersect first second =>
      obtain ⟨caps₁, hfirst, hrest⟩ := Option.bind_eq_some_iff.mp hbuild
      obtain ⟨caps₂, hsecond, rfl⟩ := Option.map_eq_some_iff.mp hrest
      have hmirrors := hall caps₁ (List.mem_of_getElem? hfirst)
      rw [allMirror_append hall]
      constructor
      · intro h other₁ other₂ hget₁ hget₂ s₁ hs₁ s₂ hs₂
        rw [hfirst] at hget₁
        rw [hsecond] at hget₂
        cases hget₁
        cases hget₂
        intro hcompatible
        have hmeet := h _ (mem_intersect.mpr ⟨s₁, hs₁, s₂, hs₂, hcompatible, rfl⟩)
        exact (meet_mirrors_iff (hmirrors s₁ hs₁) hcompatible).mp hmeet hcompatible
      · intro hkeeps s hs
        obtain ⟨s₁, hs₁, s₂, hs₂, hcompatible, rfl⟩ := mem_intersect.mp hs
        exact (meet_mirrors_iff (hmirrors s₁ hs₁) hcompatible).mpr
          (hkeeps caps₁ caps₂ hfirst hsecond s₁ hs₁ s₂ hs₂)

theorem allMirror_of_reachable {lists : List CapsList}
    (hreach : builder.ReachableVia Keeps lists) : AllMirror lists := by
  apply System.ReachableVia.invariant _ _ hreach
  · rintro lists rfl caps hcaps
    cases hcaps
  · intro lists call lists' _ hall hkeeps hbuild
    exact (build_mirrors_iff hall hbuild).mpr hkeeps

/-- **When members mirror fields.**  However capabilities are built by calls that do no harm, every
structure mirrors; and the next call that does harm leaves one that does not. -/
theorem members_mirror_fields {lists : List CapsList}
    (hreach : builder.ReachableVia Keeps lists) :
    AllMirror lists ∧
      ∀ call lists', build lists call = some lists' → (AllMirror lists' ↔ Keeps lists call) := by
  have hall := allMirror_of_reachable hreach
  exact ⟨hall, fun call lists' hbuild => build_mirrors_iff hall hbuild⟩

/-- Raw video with a width set, intersected with itself and fixed. -/
theorem members_mirror_fields_raw :
    ∃ caps, builder.run [] [.newSimple (some "video/x-raw"), .set 0 "width" (.int 320),
        .intersect 0 0, .fixate 1] = some [caps, [(createVideo (some "video/x-raw") 320 480 thirty
          (some "YUV420P"))]] ∧
      AllMirror [caps, [(createVideo (some "video/x-raw") 320 480 thirty (some "YUV420P"))]] := by
  let any := newSimple (some "video/x-raw")
  let wide := any.set "width" (.int 320)
  have hset : SetKeeps any "width" (.int 320) := by
    intro slot _
    cases slot <;> simp [Slot.key, Slot.otherKey, Slot.member, Setting.value, Value.type]
  have hreach : builder.ReachableVia Keeps [[any]] :=
    .step (.start rfl) (a := .newSimple (some "video/x-raw")) trivial rfl
  have hreach : builder.ReachableVia Keeps [[wide]] := by
    refine .step hreach (a := .set 0 "width" (.int 320)) ?_ rfl
    intro s rest hget
    cases hget
    exact hset
  have hreach : builder.ReachableVia Keeps [[wide], CapsList.intersect [wide] [wide]] := by
    refine .step hreach (a := .intersect 0 0) ?_ rfl
    intro caps₁ caps₂ hget₁ hget₂ s₁ hs₁ s₂ _ _ hraw
    cases hget₁
    rw [List.mem_singleton.mp hs₁] at hraw
    exact absurd hraw (by decide +kernel)
  have hreach : builder.ReachableVia Keeps
      [[wide], [createVideo (some "video/x-raw") 320 480 thirty (some "YUV420P")]] :=
    .step hreach (a := .fixate 1) trivial (by decide +kernel)
  exact ⟨[wide], by decide +kernel, (members_mirror_fields hreach).1⟩

/-- H.264 of any size intersected with H.264 that is 640 wide: the field says 640 and the member
says any. -/
theorem intersection_breaks_mirror :
    ¬ ∀ lists, builder.Reachable lists → AllMirror lists := by
  intro hclaim
  let open264 := newSimple (some "video/x-h264")
  let wide264 := createVideo (some "video/x-h264") 640 0 .zero none
  have hrun : builder.run [] [.newSimple (some "video/x-h264"), .create,
      .appendVideo 1 (some "video/x-h264") 640 0 .zero none, .intersect 0 1] =
      some [[open264], [wide264], [open264.meet wide264]] := by
    decide +kernel
  have hreach : builder.Reachable [[open264], [wide264], [open264.meet wide264]] :=
    System.Reachable.run (.start rfl) hrun
  have hmirrors := hclaim _ hreach [open264.meet wide264] (by simp) _ (List.mem_singleton.mpr rfl)
  have hslot := (hmirrors .width (by decide +kernel)).1 (.int 640) (by decide +kernel) rfl
  have hmember : Slot.width.member (open264.meet wide264) = .int 0 := by decide +kernel
  rw [hmember] at hslot
  have hsame : Value.int 640 = .int 0 := hslot
  cases hsame

end Zstreamer.Caps

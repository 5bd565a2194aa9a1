/-
# What the intersection of two structures is

`Compatible` says when two structures can be met by one stream: same media type and
type, no member of a raw structure and no other field constrained differently by
the two.  `intersect_eq` then gives `zst_caps_struct_intersect` in one line: the
structures are compatible and the result is their `meet`, or there is none.  What
the meet looks like, member by member and field by field, follows; the rest of the
development uses these equations and never the loops.
-/

import Zstreamer.Caps.Struct

namespace Zstreamer.Caps

open Foundation

/-! ## Members -/

/-- One of the two is a wildcard or they are the same. -/
def IntsAgree (a b : ℤ) : Prop := a = 0 ∨ b = 0 ∨ a = b

instance (a b : ℤ) : Decidable (IntsAgree a b) := inferInstanceAs (Decidable (_ ∨ _))

def RatesAgree (a b : Double) : Prop := a.eq .zero = true ∨ b.eq .zero = true ∨ a.eq b = true

instance (a b : Double) : Decidable (RatesAgree a b) := inferInstanceAs (Decidable (_ ∨ _))

def FormatsAgree (a b : Text 31) : Prop := a.chars = "" ∨ b.chars = "" ∨ a = b

instance (a b : Text 31) : Decidable (FormatsAgree a b) := inferInstanceAs (Decidable (_ ∨ _))

/-- The first that is not a wildcard. -/
def pickInt (a b : ℤ) : ℤ := if a ≠ 0 then a else b

def pickRate (a b : Double) : Double := if a.eq .zero = false then a else b

def pickFormat (a b : Text 31) : Text 31 := if a.chars ≠ "" then a else b

theorem intersectInt_eq (a b : ℤ) :
    intersectInt a b = if IntsAgree a b then some (pickInt a b) else none := by
  unfold intersectInt IntsAgree pickInt
  by_cases ha : a = 0
  · simp [ha]
  · by_cases hb : b = 0
    · simp [ha, hb]
    · by_cases hab : a = b
      · simp [hb, hab]
      · simp [ha, hb, hab]

theorem intersectDouble_eq (a b : Double) :
    intersectDouble a b = if RatesAgree a b then some (pickRate a b) else none := by
  unfold intersectDouble RatesAgree pickRate
  by_cases ha : a.eq .zero = true
  · simp [ha]
  · by_cases hb : b.eq .zero = true
    · simp [ha, hb]
    · by_cases hab : a.eq b = true
      · simp [ha, hb, hab]
      · simp [ha, hb, hab]

theorem intersectFormat_eq (a b : Text 31) :
    intersectFormat a b = if FormatsAgree a b then some (pickFormat a b) else none := by
  unfold intersectFormat FormatsAgree pickFormat
  by_cases ha : a.chars = ""
  · simp [ha]
  · by_cases hb : b.chars = ""
    · simp [ha, hb]
    · by_cases hab : a = b
      · simp [hab]
      · simp [ha, hb, hab]

/-- The members of two raw structures of one kind agree. -/
def MembersAgree (s₁ s₂ : Struct) : Prop :=
  (s₁.isRawVideo = true →
    IntsAgree s₁.video.width s₂.video.width ∧ IntsAgree s₁.video.height s₂.video.height ∧
    RatesAgree s₁.video.framerate s₂.video.framerate ∧
    FormatsAgree s₁.video.pixelFormat s₂.video.pixelFormat) ∧
  (s₁.isRawAudio = true →
    IntsAgree s₁.audio.channels s₂.audio.channels ∧
    IntsAgree s₁.audio.sampleRate s₂.audio.sampleRate ∧
    FormatsAgree s₁.audio.format s₂.audio.format)

instance (s₁ s₂ : Struct) : Decidable (MembersAgree s₁ s₂) := inferInstanceAs (Decidable (_ ∧ _))

/-- The structure the fields are merged into. -/
def meetMembers (s₁ s₂ : Struct) : Struct :=
  if s₁.isRawVideo then
    createVideo s₁.mediaType.chars (pickInt s₁.video.width s₂.video.width)
      (pickInt s₁.video.height s₂.video.height) (pickRate s₁.video.framerate s₂.video.framerate)
      (pickFormat s₁.video.pixelFormat s₂.video.pixelFormat).chars
  else if s₁.isRawAudio then
    createAudio s₁.mediaType.chars (pickInt s₁.audio.channels s₂.audio.channels)
      (pickInt s₁.audio.sampleRate s₂.audio.sampleRate)
      (pickFormat s₁.audio.format s₂.audio.format).chars
  else s₁

theorem rawVideo_not_rawAudio {s : Struct} (hvideo : s.isRawVideo = true) :
    s.isRawAudio = false := by
  simp only [Struct.isRawVideo, decide_eq_true_eq] at hvideo
  simp [Struct.isRawAudio, hvideo.1]

theorem intersectMembers_eq (s₁ s₂ : Struct) :
    intersectMembers s₁ s₂ = if MembersAgree s₁ s₂ then some (meetMembers s₁ s₂) else none := by
  unfold intersectMembers MembersAgree meetMembers
  simp only [intersectInt_eq, intersectDouble_eq, intersectFormat_eq]
  by_cases hvideo : s₁.isRawVideo = true
  · have haudio := rawVideo_not_rawAudio hvideo
    simp only [hvideo, haudio, if_true, true_imp_iff, Bool.false_eq_true, false_imp_iff, and_true]
    by_cases hwidth : IntsAgree s₁.video.width s₂.video.width
    · by_cases hheight : IntsAgree s₁.video.height s₂.video.height
      · by_cases hrate : RatesAgree s₁.video.framerate s₂.video.framerate
        · by_cases hformat : FormatsAgree s₁.video.pixelFormat s₂.video.pixelFormat
          · simp [hwidth, hheight, hrate, hformat]
          · simp [hwidth, hheight, hrate, hformat]
        · simp [hwidth, hheight, hrate]
      · simp [hwidth, hheight]
    · simp [hwidth]
  · by_cases haudio : s₁.isRawAudio = true
    · simp only [hvideo, haudio, if_true, true_imp_iff, Bool.false_eq_true, if_false,
        false_imp_iff, true_and]
      by_cases hchannels : IntsAgree s₁.audio.channels s₂.audio.channels
      · by_cases hrate : IntsAgree s₁.audio.sampleRate s₂.audio.sampleRate
        · by_cases hformat : FormatsAgree s₁.audio.format s₂.audio.format
          · simp [hchannels, hrate, hformat]
          · simp [hchannels, hrate, hformat]
        · simp [hchannels, hrate]
      · simp [hchannels]
    · simp [hvideo, haudio]

/-! ## Fields -/

/-- The fields of the first that count agree with those of the second. -/
def FieldsAgree (s₁ s₂ : Struct) : Prop :=
  ∀ key v₁ v₂, s₁.isRawLegacyField key = false → s₁.fields.get key = some v₁ →
    s₂.fields.get key = some v₂ → v₁.equal v₂ = true

/-- One turn of the first loop would not give up. -/
def EntryAgrees (s₁ s₂ : Struct) (entry : String × Value) : Bool :=
  s₁.isRawLegacyField entry.1 || ((s₂.fields.get entry.1).all fun other => entry.2.equal other)

theorem fieldsAgree_iff (s₁ s₂ : Struct) :
    FieldsAgree s₁ s₂ ↔ s₁.fields.entries.all (EntryAgrees s₁ s₂) = true := by
  rw [List.all_eq_true]
  constructor
  · rintro hagree ⟨key, value⟩ hmem
    have hget := s₁.fields.mem_entries_iff.mp hmem
    unfold EntryAgrees
    cases hlegacy : s₁.isRawLegacyField key with
    | true => simp
    | false =>
        cases hother : s₂.fields.get key with
        | none => simp
        | some other => simp [hagree key value other hlegacy hget hother]
  · intro hall key v₁ v₂ hlegacy h₁ h₂
    have hentry := hall (key, v₁) (s₁.fields.mem_entries_iff.mpr h₁)
    simpa [EntryAgrees, hlegacy, h₂] using hentry

instance (s₁ s₂ : Struct) : Decidable (FieldsAgree s₁ s₂) :=
  decidable_of_iff _ (fieldsAgree_iff s₁ s₂).symm

/-- The fields of a structure that count, apart from the legacy ones of a raw structure. -/
def Struct.ownEntries (s : Struct) : List (String × Value) :=
  s.fields.entries.filter fun entry => !s.isRawLegacyField entry.1

/-- Set one field after the other. -/
def Struct.setFields (s : Struct) (pairs : List (String × Value)) : Struct :=
  { s with fields := s.fields.assignAll pairs }

theorem mergeFirst_eq (s₁ s₂ : Struct) (entries : List (String × Value)) (res : Struct) :
    mergeFirst s₁ s₂ entries res =
      if entries.all (EntryAgrees s₁ s₂) then
        some (res.setFields (entries.filter fun entry => !s₁.isRawLegacyField entry.1))
      else none := by
  induction entries generalizing res with
  | nil => simp [mergeFirst, Struct.setFields, Assoc.assignAll]
  | cons entry rest ih =>
      obtain ⟨key, value⟩ := entry
      rw [mergeFirst, List.all_cons, List.filter_cons]
      cases hlegacy : s₁.isRawLegacyField key with
      | true =>
          have hentry : EntryAgrees s₁ s₂ (key, value) = true := by simp [EntryAgrees, hlegacy]
          rw [if_pos rfl, ih, hentry, Bool.true_and]
          rfl
      | false =>
          cases hother : s₂.fields.get key with
          | none =>
              have hentry : EntryAgrees s₁ s₂ (key, value) = true := by simp [EntryAgrees, hother]
              rw [hentry, Bool.true_and]
              simp [ih, Struct.setField, Struct.setFields, Assoc.assignAll]
          | some other =>
              cases hequal : value.equal other with
              | false =>
                  have hentry : EntryAgrees s₁ s₂ (key, value) = false := by
                    simp [EntryAgrees, hlegacy, hother, hequal]
                  simp [hentry, hequal]
              | true =>
                  have hentry : EntryAgrees s₁ s₂ (key, value) = true := by
                    simp [EntryAgrees, hother, hequal]
                  rw [hentry, Bool.true_and]
                  simp [ih, hequal, Struct.setField, Struct.setFields, Assoc.assignAll]

theorem mergeSecond_eq (s₁ s₂ : Struct) (entries : List (String × Value)) (res : Struct) :
    mergeSecond s₁ s₂ entries res =
      res.setFields (entries.filter fun entry =>
        !s₂.isRawLegacyField entry.1 && (s₁.fields.get entry.1).isNone) := by
  induction entries generalizing res with
  | nil => simp [mergeSecond, Struct.setFields, Assoc.assignAll]
  | cons entry rest ih =>
      obtain ⟨key, value⟩ := entry
      simp only [mergeSecond]
      cases hlegacy : s₂.isRawLegacyField key with
      | true => simp [ih, hlegacy]
      | false =>
          cases hown : s₁.fields.get key with
          | none =>
              simp [ih, hlegacy, hown, Struct.setField, Struct.setFields, Assoc.assignAll]
          | some own => simp [ih, hlegacy, hown]

/-! ## The meet -/

/-- Two structures that one stream can satisfy. -/
structure Compatible (s₁ s₂ : Struct) : Prop where
  mediaType : s₁.mediaType = s₂.mediaType
  type : s₁.type = s₂.type
  members : MembersAgree s₁ s₂
  fields : FieldsAgree s₁ s₂

theorem compatible_iff (s₁ s₂ : Struct) :
    Compatible s₁ s₂ ↔ s₁.mediaType = s₂.mediaType ∧ s₁.type = s₂.type ∧ MembersAgree s₁ s₂ ∧
      FieldsAgree s₁ s₂ :=
  ⟨fun h => ⟨h.mediaType, h.type, h.members, h.fields⟩, fun h => ⟨h.1, h.2.1, h.2.2.1, h.2.2.2⟩⟩

instance (s₁ s₂ : Struct) : Decidable (Compatible s₁ s₂) :=
  decidable_of_iff _ (compatible_iff s₁ s₂).symm

/-- The structure two compatible ones have in common. -/
def Struct.meet (s₁ s₂ : Struct) : Struct :=
  ((meetMembers s₁ s₂).setFields s₁.ownEntries).setFields
    (s₂.fields.entries.filter fun entry =>
      !s₂.isRawLegacyField entry.1 && (s₁.fields.get entry.1).isNone)

/-- **`zst_caps_struct_intersect` in one line.** -/
theorem intersect_eq (s₁ s₂ : Struct) :
    s₁.intersect s₂ = if Compatible s₁ s₂ then some (s₁.meet s₂) else none := by
  unfold Struct.intersect
  by_cases hmedia : s₁.mediaType = s₂.mediaType
  · by_cases htype : s₁.type = s₂.type
    · rw [if_neg (not_not_intro hmedia), if_neg (not_not_intro htype), intersectMembers_eq]
      by_cases hmembers : MembersAgree s₁ s₂
      · rw [if_pos hmembers]
        simp only [Option.bind_eq_bind, Option.bind_some, mergeFirst_eq]
        by_cases hfields : FieldsAgree s₁ s₂
        · have hcompatible : Compatible s₁ s₂ := ⟨hmedia, htype, hmembers, hfields⟩
          rw [if_pos ((fieldsAgree_iff s₁ s₂).mp hfields), if_pos hcompatible, Option.bind_some,
            mergeSecond_eq]
          rfl
        · have hnot : ¬ Compatible s₁ s₂ := fun h => hfields h.fields
          rw [if_neg (mt (fieldsAgree_iff s₁ s₂).mpr hfields), if_neg hnot]
          rfl
      · have hnot : ¬ Compatible s₁ s₂ := fun h => hmembers h.members
        rw [if_neg hmembers, if_neg hnot]
        rfl
    · have hnot : ¬ Compatible s₁ s₂ := fun h => htype h.type
      rw [if_neg (not_not_intro hmedia), if_pos htype, if_neg hnot]
  · have hnot : ¬ Compatible s₁ s₂ := fun h => hmedia h.mediaType
    rw [if_pos hmedia, if_neg hnot]

/-- Being raw is a matter of the media type and the type. -/
theorem isRaw_congr {s₁ s₂ : Struct} (hmedia : s₁.mediaType = s₂.mediaType)
    (htype : s₁.type = s₂.type) :
    s₁.isRawVideo = s₂.isRawVideo ∧ s₁.isRawAudio = s₂.isRawAudio ∧
      s₁.isRawLegacyField = s₂.isRawLegacyField := by
  have hvideo : s₁.isRawVideo = s₂.isRawVideo := by
    simp only [Struct.isRawVideo, hmedia, htype]
  have haudio : s₁.isRawAudio = s₂.isRawAudio := by
    simp only [Struct.isRawAudio, hmedia, htype]
  refine ⟨hvideo, haudio, ?_⟩
  funext key
  simp only [Struct.isRawLegacyField, hvideo, haudio]

section Setters

variable (cond : Bool) (key : String) (value : Value) (s : Struct)

@[simp]
theorem setFieldIf_mediaType : (s.setFieldIf cond key value).mediaType = s.mediaType := by
  unfold Struct.setFieldIf
  cases cond <;> rfl

@[simp]
theorem setFieldIf_type : (s.setFieldIf cond key value).type = s.type := by
  unfold Struct.setFieldIf
  cases cond <;> rfl

@[simp]
theorem setFieldIf_video : (s.setFieldIf cond key value).video = s.video := by
  unfold Struct.setFieldIf
  cases cond <;> rfl

@[simp]
theorem setFieldIf_audio : (s.setFieldIf cond key value).audio = s.audio := by
  unfold Struct.setFieldIf
  cases cond <;> rfl

theorem setFieldIf_get (x : String) :
    (s.setFieldIf cond key value).fields.get x =
      if cond = true ∧ x = key then some value else s.fields.get x := by
  unfold Struct.setFieldIf
  cases cond with
  | true => simp [Struct.setField, Assoc.get_assign]
  | false => simp

theorem setFields_get {pairs : List (String × Value)} (hnodup : (pairs.map Prod.fst).Nodup)
    (x : String) :
    (s.setFields pairs).fields.get x = (pairs.lookup x).or (s.fields.get x) :=
  Assoc.get_assignAll s.fields pairs hnodup x

end Setters

theorem nodup_filter_keys (a : Assoc String Value) (p : String × Value → Bool) :
    ((a.entries.filter p).map Prod.fst).Nodup :=
  (List.filter_sublist.map Prod.fst).nodup a.nodup

/-- Only the video keys are fields of a new video structure. -/
theorem createVideo_get_other {mediaType format : Option String} {width height : ℤ}
    {framerate : Double} {key : String}
    (hkey : key ≠ "width" ∧ key ≠ "height" ∧ key ≠ "framerate" ∧ key ≠ "pixel-format") :
    (createVideo mediaType width height framerate format).fields.get key = none := by
  simp [createVideo, setFieldIf_get, hkey, Struct.blank]

/-- Only the audio keys are fields of a new audio structure. -/
theorem createAudio_get_other {mediaType format : Option String} {channels rate : ℤ} {key : String}
    (hkey : key ≠ "channels" ∧ key ≠ "sample-rate" ∧ key ≠ "format") :
    (createAudio mediaType channels rate format).fields.get key = none := by
  simp [createAudio, setFieldIf_get, hkey, Struct.blank]

section Meet

variable (s₁ s₂ : Struct)

theorem meetMembers_type : (meetMembers s₁ s₂).type = s₁.type := by
  unfold meetMembers
  split
  case isTrue hvideo =>
      simp only [Struct.isRawVideo, decide_eq_true_eq] at hvideo
      simp [createVideo, Struct.blank, hvideo.1]
  case isFalse =>
      split
      case isTrue haudio =>
          simp only [Struct.isRawAudio, decide_eq_true_eq] at haudio
          simp [createAudio, Struct.blank, haudio.1]
      case isFalse => rfl

theorem meetMembers_mediaType : (meetMembers s₁ s₂).mediaType = s₁.mediaType := by
  unfold meetMembers
  split
  · simp [createVideo, Struct.blank]
  · split
    · simp [createAudio, Struct.blank]
    · rfl

/-- A structure to merge into has no field of its own that would count, except that a copy
has those of the first. -/
theorem meetMembers_get {key : String} (hown : s₁.isRawLegacyField key = false) :
    (s₁.fields.get key).or ((meetMembers s₁ s₂).fields.get key) = s₁.fields.get key := by
  unfold meetMembers
  unfold Struct.isRawLegacyField at hown
  split
  case isTrue hvideo =>
      rw [if_pos hvideo] at hown
      have hkey : key ≠ "width" ∧ key ≠ "height" ∧ key ≠ "framerate" ∧ key ≠ "pixel-format" := by
        simpa using hown
      rw [createVideo_get_other hkey, Option.or_none]
  case isFalse hvideo =>
      rw [if_neg hvideo] at hown
      split
      case isTrue haudio =>
          rw [if_pos haudio] at hown
          have hkey : key ≠ "channels" ∧ key ≠ "sample-rate" ∧ key ≠ "format" := by
            simpa using hown
          rw [createAudio_get_other hkey, Option.or_none]
      case isFalse => rw [Option.or_self]

theorem meet_type : (s₁.meet s₂).type = s₁.type := meetMembers_type s₁ s₂

theorem meet_mediaType : (s₁.meet s₂).mediaType = s₁.mediaType := meetMembers_mediaType s₁ s₂

/-- The three sources a field of the meet can come from. -/
theorem meet_get_eq (key : String) :
    (s₁.meet s₂).fields.get key =
      (if !s₂.isRawLegacyField key && (s₁.fields.get key).isNone then s₂.fields.get key
        else none).or
      ((if !s₁.isRawLegacyField key then s₁.fields.get key else none).or
        ((meetMembers s₁ s₂).fields.get key)) := by
  unfold Struct.meet Struct.ownEntries
  rw [setFields_get _ (nodup_filter_keys _ _), setFields_get _ (nodup_filter_keys _ _),
    lookup_filter_key fun k => !s₂.isRawLegacyField k && (s₁.fields.get k).isNone,
    lookup_filter_key fun k => !s₁.isRawLegacyField k]
  rfl

/-- The meet has the fields of both. -/
theorem meet_get {key : String} (hlegacy : s₁.isRawLegacyField = s₂.isRawLegacyField)
    (hown : s₁.isRawLegacyField key = false) :
    (s₁.meet s₂).fields.get key = (s₁.fields.get key).or (s₂.fields.get key) := by
  have hbase := meetMembers_get s₁ s₂ hown
  rw [meet_get_eq, ← hlegacy, hown]
  cases hfirst : s₁.fields.get key with
  | some v => simp
  | none =>
      rw [hfirst, Option.none_or] at hbase
      simp [hbase]

/-- A legacy field of the meet of raw structures is the one of the new structure. -/
theorem meet_get_legacy {key : String} (hlegacy : s₁.isRawLegacyField = s₂.isRawLegacyField)
    (hkey : s₁.isRawLegacyField key = true) :
    (s₁.meet s₂).fields.get key = (meetMembers s₁ s₂).fields.get key := by
  rw [meet_get_eq, ← hlegacy, hkey]
  simp

theorem meet_video (hvideo : s₁.isRawVideo = true) :
    (s₁.meet s₂).video = ⟨pickInt s₁.video.width s₂.video.width,
      pickInt s₁.video.height s₂.video.height, pickRate s₁.video.framerate s₂.video.framerate,
      pickFormat s₁.video.pixelFormat s₂.video.pixelFormat⟩ := by
  change (meetMembers s₁ s₂).video = _
  simp [meetMembers, hvideo, createVideo]

theorem meet_audio (haudio : s₁.isRawAudio = true) :
    (s₁.meet s₂).audio = ⟨pickInt s₁.audio.channels s₂.audio.channels,
      pickInt s₁.audio.sampleRate s₂.audio.sampleRate,
      pickFormat s₁.audio.format s₂.audio.format⟩ := by
  change (meetMembers s₁ s₂).audio = _
  have hvideo : ¬ s₁.isRawVideo = true := fun hboth => by
    rw [rawVideo_not_rawAudio hboth] at haudio
    cases haudio
  simp [meetMembers, hvideo, haudio, createAudio]

end Meet

end Zstreamer.Caps

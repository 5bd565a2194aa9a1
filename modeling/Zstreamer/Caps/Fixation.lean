/-
# Resolving the wildcards of a structure

`zst_caps_fixate` fills in what a raw structure leaves open and then writes the
members to the fields of the same names, one setter after the other.  `fixate_eq`
puts this as two steps, `fillMembers` and `memberFields`, and the facts the rest of
the development uses are stated for each: what is constrained stays, what comes out
is fixed, and a structure that is fixed and has its members in its fields is left
alone.  The last one makes the operation idempotent; it is also why negotiation may
skip it when the intersection is fixed already.
-/

import Zstreamer.Caps.Admission

namespace Zstreamer.Caps

open Foundation

/-! ## Members as fields -/

/-- The values that mean any in a legacy field. -/
def Value.isAny : Value → Bool
  | .int i => i = 0
  | .double d => d.eq .zero
  | .string s => s.getD "" = ""
  | _ => false

/-- The members of a raw structure as fields. -/
def Struct.memberFields (s : Struct) : List (String × Value) :=
  if s.isRawVideo then
    [("width", .int s.video.width), ("height", .int s.video.height),
      ("framerate", .double s.video.framerate),
      ("pixel-format", .string (some s.video.pixelFormat.chars))]
  else if s.isRawAudio then
    [("channels", .int s.audio.channels), ("sample-rate", .int s.audio.sampleRate),
      ("format", .string (some s.audio.format.chars))]
  else []

theorem nodup_memberFields (s : Struct) : (s.memberFields.map Prod.fst).Nodup := by
  unfold Struct.memberFields
  split
  · simp
  · split
    · simp
    · simp

/-- The keys of the members are the legacy ones. -/
theorem memberFields_legacy {s : Struct} {pair : String × Value} (hmem : pair ∈ s.memberFields) :
    s.isRawLegacyField pair.1 = true := by
  unfold Struct.memberFields at hmem
  unfold Struct.isRawLegacyField
  split at hmem
  case isTrue hvideo =>
      simp only [List.mem_cons, List.not_mem_nil, or_false] at hmem
      rcases hmem with rfl | rfl | rfl | rfl <;> simp [hvideo]
  case isFalse hvideo =>
      split at hmem
      case isTrue haudio =>
          simp only [List.mem_cons, List.not_mem_nil, or_false] at hmem
          rcases hmem with rfl | rfl | rfl <;> simp [hvideo, haudio]
      case isFalse => cases hmem

/-- The members stand in the fields of the same names. -/
def Struct.ShowsMembers (s : Struct) : Prop :=
  ∀ pair ∈ s.memberFields, s.fields.get pair.1 = some pair.2

theorem setFields_eq_self {s : Struct} {pairs : List (String × Value)}
    (hget : ∀ pair ∈ pairs, s.fields.get pair.1 = some pair.2) : s.setFields pairs = s := by
  unfold Struct.setFields
  rw [Assoc.assignAll_of_get hget]

/-- A field that is not set keeps its value. -/
theorem setFields_get_other {s : Struct} {pairs : List (String × Value)} {key : String}
    (hnodup : (pairs.map Prod.fst).Nodup) (hkey : ∀ pair ∈ pairs, pair.1 ≠ key) :
    (s.setFields pairs).fields.get key = s.fields.get key := by
  have hnone : pairs.lookup key = none := by
    rw [List.lookup_eq_none_iff]
    intro pair hpair
    exact bne_iff_ne.mpr (Ne.symm (hkey pair hpair))
  rw [setFields_get s hnodup, hnone, Option.none_or]

theorem setFields_showsMembers (s : Struct) : (s.setFields s.memberFields).ShowsMembers := by
  rintro ⟨key, value⟩ hpair
  have hpair : (key, value) ∈ s.memberFields := hpair
  have hlookup : s.memberFields.lookup key = some value :=
    (Assoc.mem_entries_iff ⟨s.memberFields, nodup_memberFields s⟩).mp hpair
  rw [setFields_get s (nodup_memberFields s), hlookup, Option.some_or]

/-- The meet has its members in its fields. -/
theorem meet_showsMembers {s₁ s₂ : Struct} (hcompatible : Compatible s₁ s₂) :
    (s₁.meet s₂).ShowsMembers := by
  obtain ⟨-, -, hlegacy⟩ := isRaw_congr hcompatible.mediaType hcompatible.type
  obtain ⟨hvideo', haudio', hlegacy'⟩ := isRaw_congr (meet_mediaType s₁ s₂) (meet_type s₁ s₂)
  intro pair hpair
  have hkey := memberFields_legacy hpair
  rw [hlegacy'] at hkey
  rw [meet_get_legacy s₁ s₂ hlegacy hkey]
  unfold Struct.memberFields at hpair
  rw [hvideo', haudio'] at hpair
  split at hpair
  case isTrue hvideo =>
      have hraw : s₁.mediaType.chars = "video/x-raw" := (of_decide_eq_true hvideo).2
      rw [meet_video s₁ s₂ hvideo] at hpair
      simp only [List.mem_cons, List.not_mem_nil, or_false] at hpair
      rw [meetMembers, if_pos hvideo]
      rcases hpair with rfl | rfl | rfl | rfl <;>
        simp (disch := decide) [createVideo, setFieldIf_get, Struct.blank, hraw,
          truncate_chars_of_le]
  case isFalse hvideo =>
      split at hpair
      case isTrue haudio =>
          have hraw : s₁.mediaType.chars = "audio/x-raw" := (of_decide_eq_true haudio).2
          rw [meet_audio s₁ s₂ haudio] at hpair
          simp only [List.mem_cons, List.not_mem_nil, or_false] at hpair
          rw [meetMembers, if_neg hvideo, if_pos haudio]
          rcases hpair with rfl | rfl | rfl <;>
            simp (disch := decide) [createAudio, setFieldIf_get, Struct.blank, hraw,
              truncate_chars_of_le]
      case isFalse => cases hpair

/-! ## Filling in -/

section Filling

variable (s : Struct)

@[simp]
theorem fillMembers_mediaType : s.fillMembers.mediaType = s.mediaType := by
  unfold Struct.fillMembers
  split
  · rfl
  · split <;> rfl

@[simp]
theorem fillMembers_type : s.fillMembers.type = s.type := by
  unfold Struct.fillMembers
  split
  · rfl
  · split <;> rfl

@[simp]
theorem fillMembers_fields : s.fillMembers.fields = s.fields := by
  unfold Struct.fillMembers
  split
  · rfl
  · split <;> rfl

theorem fillMembers_video (hvideo : s.isRawVideo = true) :
    s.fillMembers.video =
      { width := if s.video.width = 0 then 640 else s.video.width
        height := if s.video.height = 0 then 480 else s.video.height
        framerate := if s.video.framerate.eq .zero then thirty else s.video.framerate
        pixelFormat :=
          if s.video.pixelFormat.chars = "" then truncate 31 "YUV420P"
          else s.video.pixelFormat } := by
  unfold Struct.fillMembers
  rw [if_pos hvideo]

theorem fillMembers_audio (haudio : s.isRawAudio = true) :
    s.fillMembers.audio =
      { channels := if s.audio.channels = 0 then 2 else s.audio.channels
        sampleRate := if s.audio.sampleRate = 0 then 44100 else s.audio.sampleRate
        format := if s.audio.format.chars = "" then truncate 31 "S16LE" else s.audio.format } := by
  have hvideo : ¬ s.isRawVideo = true := fun hboth => by
    rw [rawVideo_not_rawAudio hboth] at haudio
    cases haudio
  unfold Struct.fillMembers
  rw [if_neg hvideo, if_pos haudio]

/-- What is filled in is fixed, if the structure has a media type at all. -/
theorem fillMembers_isFixed (hmedia : s.mediaType.chars ≠ "") : s.fillMembers.isFixed = true := by
  obtain ⟨hvideo', haudio', -⟩ := isRaw_congr (fillMembers_mediaType s) (fillMembers_type s)
  unfold Struct.isFixed
  rw [hvideo', haudio', fillMembers_mediaType]
  split
  case isTrue hvideo =>
      rw [fillMembers_video s hvideo]
      simp only [decide_eq_true_eq]
      refine ⟨?_, ?_, ?_, ?_⟩
      · split <;> simp_all
      · split <;> simp_all
      · split
        · decide
        · simp_all
      · split
        · decide
        · assumption
  case isFalse hvideo =>
      split
      case isTrue haudio =>
          rw [fillMembers_audio s haudio]
          simp only [decide_eq_true_eq]
          refine ⟨?_, ?_, ?_⟩
          · split <;> simp_all
          · split <;> simp_all
          · split
            · decide
            · assumption
      case isFalse => simpa using hmedia

/-- Nothing is to be filled in where everything is fixed. -/
theorem fillMembers_eq_self (hfixed : s.isFixed = true) : s.fillMembers = s := by
  unfold Struct.isFixed at hfixed
  unfold Struct.fillMembers
  split
  case isTrue hvideo =>
      rw [if_pos hvideo] at hfixed
      obtain ⟨hwidth, hheight, hrate, hformat⟩ := of_decide_eq_true hfixed
      simp [hwidth, hheight, hrate, hformat]
  case isFalse hvideo =>
      split
      case isTrue haudio =>
          rw [if_neg hvideo, if_pos haudio] at hfixed
          obtain ⟨hchannels, hrate, hformat⟩ := of_decide_eq_true hfixed
          simp [hchannels, hrate, hformat]
      case isFalse => rfl

end Filling

/-! ## Fixation -/

/-- The setters write to the members what is there already, and to the fields. -/
theorem fixate_eq (s : Struct) :
    s.fixate = s.fillMembers.setFields s.fillMembers.memberFields := by
  unfold Struct.fixate
  generalize s.fillMembers = t
  unfold Struct.memberFields
  dsimp only
  split
  case isTrue hvideo =>
      have htype : t.type = .video := (of_decide_eq_true hvideo).1
      simp (disch := decide) [Struct.setInt, Struct.setDouble, Struct.setString, htype, Struct.setField,
        Struct.setFields, Assoc.assignAll, truncate_chars_of_le]
  case isFalse hvideo =>
      split
      case isTrue haudio =>
          have htype : t.type = .audio := (of_decide_eq_true haudio).1
          simp (disch := decide) [Struct.setInt, Struct.setString, htype, Struct.setField, Struct.setFields,
            Assoc.assignAll, truncate_chars_of_le]
      case isFalse => rfl

section Fixation

variable (s : Struct)

@[simp]
theorem fixate_mediaType : s.fixate.mediaType = s.mediaType := by
  rw [fixate_eq]
  exact fillMembers_mediaType s

@[simp]
theorem fixate_type : s.fixate.type = s.type := by
  rw [fixate_eq]
  exact fillMembers_type s

theorem fixate_video : s.fixate.video = s.fillMembers.video := by
  rw [fixate_eq]
  rfl

theorem fixate_audio : s.fixate.audio = s.fillMembers.audio := by
  rw [fixate_eq]
  rfl

/-- Only the legacy fields of a raw structure are written. -/
theorem fixate_get_other {key : String} (hown : s.isRawLegacyField key = false) :
    s.fixate.fields.get key = s.fields.get key := by
  obtain ⟨-, -, hlegacy⟩ := isRaw_congr (fillMembers_mediaType s) (fillMembers_type s)
  rw [fixate_eq, setFields_get_other (nodup_memberFields _), fillMembers_fields]
  rintro pair hpair rfl
  have hlegacyKey := memberFields_legacy hpair
  rw [hlegacy, hown] at hlegacyKey
  cases hlegacyKey

theorem fixate_showsMembers : s.fixate.ShowsMembers := by
  rw [fixate_eq]
  exact setFields_showsMembers s.fillMembers

theorem fixate_isFixed (hmedia : s.mediaType.chars ≠ "") : s.fixate.isFixed = true := by
  rw [fixate_eq]
  exact fillMembers_isFixed s hmedia

/-- A structure without wildcards that shows its members is left alone. -/
theorem fixate_eq_self (hfill : s.fillMembers = s) (hshows : s.ShowsMembers) : s.fixate = s := by
  rw [fixate_eq, hfill]
  exact setFields_eq_self hshows

/-- What is filled in once needs no more filling. -/
theorem fillMembers_fixate : s.fixate.fillMembers = s.fixate := by
  by_cases hmedia : s.mediaType.chars = ""
  · -- Without a media type the structure is not raw, and nothing is ever filled in.
    have hvideo : s.fixate.isRawVideo = false := by simp [Struct.isRawVideo, hmedia]
    have haudio : s.fixate.isRawAudio = false := by simp [Struct.isRawAudio, hmedia]
    unfold Struct.fillMembers
    simp [hvideo, haudio]
  · exact fillMembers_eq_self s.fixate (fixate_isFixed s hmedia)

/-- **Fixing twice is fixing once.** -/
theorem fixate_fixate : s.fixate.fixate = s.fixate :=
  fixate_eq_self s.fixate (fillMembers_fixate s) (fixate_showsMembers s)

end Fixation

end Zstreamer.Caps

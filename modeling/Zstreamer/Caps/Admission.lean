/-
# Intersection of capabilities is intersection of sets

What a structure is for is to say which streams are acceptable.  A `Description` is
a stream described in full: a value for every member and for every key.  A structure
admits those that agree with everything it constrains, and a list admits what one of
its structures does.  Values are compared as the source compares them, so a `double`
by `==`: the two zeros are one value, and a NaN is no value at all.

With this reading `zst_caps_intersect` computes the intersection of the admitted
sets, exactly and for all capabilities.  The one thing NaN spoils is that a list
with no structures is the only one that admits nothing: a structure that asks for a
NaN is in the result and admits no description.  `nan_admits_nothing` is such a
pair.
-/

import Zstreamer.Caps.Intersection
import Mathlib.Data.Set.Basic

namespace Zstreamer.Caps

open Foundation

/-! ## Comparing values -/

theorem Value.equal_symm {a b : Value} (hab : a.equal b = true) : b.equal a = true := by
  cases a with
  | double d =>
      cases b with
      | double e => exact Double.eq_symm hab
      | _ => cases hab
  | _ =>
      cases b <;> simp_all [Value.equal]

theorem Value.equal_trans {a b c : Value} (hab : a.equal b = true) (hbc : b.equal c = true) :
    a.equal c = true := by
  cases a with
  | double d =>
      cases b with
      | double e =>
          cases c with
          | double f => exact Double.eq_trans hab hbc
          | _ => cases hbc
      | _ => cases hab
  | _ =>
      cases b <;> simp_all [Value.equal]

/-- Not a number. -/
def Value.isNaN : Value → Bool
  | .double d => d.isNaN
  | _ => false

theorem Value.equal_refl {a : Value} (hnumber : a.isNaN = false) : a.equal a = true := by
  cases a with
  | double d => exact Double.eq_refl hnumber
  | _ => simp [Value.equal]

/-! ## Descriptions -/

/-- A stream described in full. -/
structure Description where
  mediaType : Text 63
  type : CapsType
  video : Video
  audio : Audio
  fields : String → Value

/-- A member constrains a value unless it is the wildcard. -/
def IntAdmits (a x : ℤ) : Prop := a = 0 ∨ x = a

def RateAdmits (a x : Double) : Prop := a.eq .zero = true ∨ a.eq x = true

def FormatAdmits (a x : Text 31) : Prop := a.chars = "" ∨ x = a

/-- The members of a raw video structure admit these values. -/
def Video.Admits (v x : Video) : Prop :=
  IntAdmits v.width x.width ∧ IntAdmits v.height x.height ∧
    RateAdmits v.framerate x.framerate ∧ FormatAdmits v.pixelFormat x.pixelFormat

/-- The members of a raw audio structure admit these values. -/
def Audio.Admits (a x : Audio) : Prop :=
  IntAdmits a.channels x.channels ∧ IntAdmits a.sampleRate x.sampleRate ∧
    FormatAdmits a.format x.format

/-- The descriptions a structure admits. -/
structure Struct.Admits (s : Struct) (d : Description) : Prop where
  mediaType : d.mediaType = s.mediaType
  type : d.type = s.type
  video : s.isRawVideo = true → s.video.Admits d.video
  audio : s.isRawAudio = true → s.audio.Admits d.audio
  fields : ∀ key v, s.isRawLegacyField key = false → s.fields.get key = some v →
    v.equal (d.fields key) = true

/-- The descriptions a list admits. -/
def admitted (caps : CapsList) : Set Description := {d | ∃ s ∈ caps, s.Admits d}

/-! ## Members -/

theorem pickInt_admits {a b x : ℤ} (hagree : IntsAgree a b) :
    IntAdmits (pickInt a b) x ↔ IntAdmits a x ∧ IntAdmits b x := by
  unfold IntAdmits pickInt
  rcases hagree with rfl | rfl | rfl
  · simp
  · by_cases ha : a = 0
    · simp [ha]
    · simp [ha]
  · simp

theorem IntAdmits.agree {a b x : ℤ} (ha : IntAdmits a x) (hb : IntAdmits b x) : IntsAgree a b := by
  rcases ha with rfl | rfl
  · exact .inl rfl
  · rcases hb with rfl | rfl
    · exact .inr (.inl rfl)
    · exact .inr (.inr rfl)

theorem pickRate_admits {a b x : Double} (hagree : RatesAgree a b) :
    RateAdmits (pickRate a b) x ↔ RateAdmits a x ∧ RateAdmits b x := by
  unfold RateAdmits pickRate
  by_cases ha : a.eq .zero = true
  · simp [ha]
  · by_cases hb : b.eq .zero = true
    · simp [ha, hb]
    · have hab : a.eq b = true := by
        rcases hagree with h | h | h
        · exact absurd h ha
        · exact absurd h hb
        · exact h
      rw [if_pos (Bool.eq_false_iff.mpr ha)]
      constructor
      · intro hx
        have hx : a.eq x = true := hx.resolve_left ha
        exact ⟨.inr hx, .inr (Double.eq_trans (Double.eq_symm hab) hx)⟩
      · exact fun hx => hx.1

theorem RateAdmits.agree {a b x : Double} (ha : RateAdmits a x) (hb : RateAdmits b x) :
    RatesAgree a b := by
  rcases ha with ha | ha
  · exact .inl ha
  · rcases hb with hb | hb
    · exact .inr (.inl hb)
    · exact .inr (.inr (Double.eq_trans ha (Double.eq_symm hb)))

theorem pickFormat_admits {a b x : Text 31} (hagree : FormatsAgree a b) :
    FormatAdmits (pickFormat a b) x ↔ FormatAdmits a x ∧ FormatAdmits b x := by
  unfold FormatAdmits pickFormat
  rcases hagree with ha | hb | rfl
  · simp [ha]
  · by_cases ha : a.chars = ""
    · simp [ha, hb]
    · simp [ha, hb]
  · simp

theorem FormatAdmits.agree {a b x : Text 31} (ha : FormatAdmits a x) (hb : FormatAdmits b x) :
    FormatsAgree a b := by
  rcases ha with ha | rfl
  · exact .inl ha
  · rcases hb with hb | rfl
    · exact .inr (.inl hb)
    · exact .inr (.inr rfl)

/-! ## Structures -/

/-- Structures that admit a common description are compatible. -/
theorem Struct.Admits.compatible {s₁ s₂ : Struct} {d : Description} (h₁ : s₁.Admits d)
    (h₂ : s₂.Admits d) : Compatible s₁ s₂ := by
  have hmedia := h₁.mediaType.symm.trans h₂.mediaType
  have htype := h₁.type.symm.trans h₂.type
  obtain ⟨hvideo, haudio, hlegacy⟩ := isRaw_congr hmedia htype
  refine ⟨hmedia, htype, ⟨fun hraw => ?_, fun hraw => ?_⟩, fun key v₁ v₂ hown hget₁ hget₂ => ?_⟩
  · obtain ⟨hw₁, hh₁, hf₁, hp₁⟩ := h₁.video hraw
    obtain ⟨hw₂, hh₂, hf₂, hp₂⟩ := h₂.video (hvideo ▸ hraw)
    exact ⟨hw₁.agree hw₂, hh₁.agree hh₂, hf₁.agree hf₂, hp₁.agree hp₂⟩
  · obtain ⟨hc₁, hr₁, hf₁⟩ := h₁.audio hraw
    obtain ⟨hc₂, hr₂, hf₂⟩ := h₂.audio (haudio ▸ hraw)
    exact ⟨hc₁.agree hc₂, hr₁.agree hr₂, hf₁.agree hf₂⟩
  · have hfirst := h₁.fields key v₁ hown hget₁
    have hsecond := h₂.fields key v₂ (hlegacy ▸ hown) hget₂
    exact Value.equal_trans hfirst (Value.equal_symm hsecond)

/-- The meet of two compatible structures admits what both admit. -/
theorem meet_admits {s₁ s₂ : Struct} (hcompatible : Compatible s₁ s₂) (d : Description) :
    (s₁.meet s₂).Admits d ↔ s₁.Admits d ∧ s₂.Admits d := by
  obtain ⟨hmedia, htype, hmembers, hfields⟩ := hcompatible
  obtain ⟨hvideo, haudio, hlegacy⟩ := isRaw_congr hmedia htype
  obtain ⟨hvideo', haudio', hlegacy'⟩ := isRaw_congr (meet_mediaType s₁ s₂) (meet_type s₁ s₂)
  -- The members of the meet admit what the members of both do.
  have hvideoIff : s₁.isRawVideo = true →
      ((s₁.meet s₂).video.Admits d.video ↔ s₁.video.Admits d.video ∧ s₂.video.Admits d.video) := by
    intro hraw
    obtain ⟨hw, hh, hf, hp⟩ := hmembers.1 hraw
    rw [meet_video s₁ s₂ hraw]
    simp only [Video.Admits, pickInt_admits hw, pickInt_admits hh, pickRate_admits hf,
      pickFormat_admits hp]
    tauto
  have haudioIff : s₁.isRawAudio = true →
      ((s₁.meet s₂).audio.Admits d.audio ↔ s₁.audio.Admits d.audio ∧ s₂.audio.Admits d.audio) := by
    intro hraw
    obtain ⟨hc, hr, hf⟩ := hmembers.2 hraw
    rw [meet_audio s₁ s₂ hraw]
    simp only [Audio.Admits, pickInt_admits hc, pickInt_admits hr, pickFormat_admits hf]
    tauto
  constructor
  · intro h
    have hfirst : ∀ key v, s₁.isRawLegacyField key = false → s₁.fields.get key = some v →
        v.equal (d.fields key) = true := by
      intro key v hown hget
      apply h.fields key v (hlegacy' ▸ hown)
      rw [meet_get s₁ s₂ hlegacy hown, hget]
      rfl
    refine ⟨⟨?_, ?_, fun hraw => ?_, fun hraw => ?_, hfirst⟩, ?_, ?_, fun hraw => ?_,
      fun hraw => ?_, fun key v hown hget => ?_⟩
    · rw [h.mediaType, meet_mediaType]
    · rw [h.type, meet_type]
    · exact ((hvideoIff hraw).mp (h.video (hvideo' ▸ hraw))).1
    · exact ((haudioIff hraw).mp (h.audio (haudio' ▸ hraw))).1
    · rw [h.mediaType, meet_mediaType, hmedia]
    · rw [h.type, meet_type, htype]
    · rw [← hvideo] at hraw
      exact ((hvideoIff hraw).mp (h.video (hvideo' ▸ hraw))).2
    · rw [← haudio] at hraw
      exact ((haudioIff hraw).mp (h.audio (haudio' ▸ hraw))).2
    · -- A field of the second is a field of the meet, or equal to the one of the first.
      rw [← hlegacy] at hown
      cases hget₁ : s₁.fields.get key with
      | none =>
          apply h.fields key v (hlegacy' ▸ hown)
          rw [meet_get s₁ s₂ hlegacy hown, hget₁, hget]
          rfl
      | some v₁ =>
          have hsame := hfields key v₁ v hown hget₁ hget
          exact Value.equal_trans (Value.equal_symm hsame) (hfirst key v₁ hown hget₁)
  · rintro ⟨h₁, h₂⟩
    refine ⟨?_, ?_, fun hraw => ?_, fun hraw => ?_, fun key v hown hget => ?_⟩
    · rw [meet_mediaType, h₁.mediaType]
    · rw [meet_type, h₁.type]
    · rw [hvideo'] at hraw
      exact (hvideoIff hraw).mpr ⟨h₁.video hraw, h₂.video (hvideo ▸ hraw)⟩
    · rw [haudio'] at hraw
      exact (haudioIff hraw).mpr ⟨h₁.audio hraw, h₂.audio (haudio ▸ hraw)⟩
    · rw [hlegacy'] at hown
      rw [meet_get s₁ s₂ hlegacy hown, Option.or_eq_some_iff] at hget
      rcases hget with hget₁ | ⟨-, hget₂⟩
      · exact h₁.fields key v hown hget₁
      · exact h₂.fields key v (hlegacy ▸ hown) hget₂

/-- Nothing the structure constrains is a NaN. -/
structure Struct.NaNFree (s : Struct) : Prop where
  framerate : s.isRawVideo = true → s.video.framerate.isNaN = false
  fields : ∀ key v, s.isRawLegacyField key = false → s.fields.get key = some v → v.isNaN = false

/-- A structure without NaN admits the description made of its own values. -/
theorem Struct.NaNFree.exists_admits {s : Struct} (h : s.NaNFree) : ∃ d, s.Admits d := by
  refine ⟨⟨s.mediaType, s.type, s.video, s.audio, fun key => (s.fields.get key).getD (.int 0)⟩,
    rfl, rfl, fun hraw => ?_, fun _ => ⟨.inr rfl, .inr rfl, .inr rfl⟩, fun key v hown hget => ?_⟩
  · exact ⟨.inr rfl, .inr rfl, .inr (Double.eq_refl (h.framerate hraw)), .inr rfl⟩
  · simp only [hget, Option.getD_some]
    exact Value.equal_refl (h.fields key v hown hget)

theorem meet_nanFree {s₁ s₂ : Struct} (hcompatible : Compatible s₁ s₂) (h₁ : s₁.NaNFree)
    (h₂ : s₂.NaNFree) : (s₁.meet s₂).NaNFree := by
  obtain ⟨hvideo, -, hlegacy⟩ := isRaw_congr hcompatible.mediaType hcompatible.type
  obtain ⟨hvideo', -, hlegacy'⟩ := isRaw_congr (meet_mediaType s₁ s₂) (meet_type s₁ s₂)
  refine ⟨fun hraw => ?_, fun key v hown hget => ?_⟩
  · rw [hvideo'] at hraw
    rw [meet_video s₁ s₂ hraw]
    simp only [pickRate]
    split
    · exact h₁.framerate hraw
    · exact h₂.framerate (hvideo ▸ hraw)
  · rw [hlegacy'] at hown
    rw [meet_get s₁ s₂ hlegacy hown, Option.or_eq_some_iff] at hget
    rcases hget with hget₁ | ⟨-, hget₂⟩
    · exact h₁.fields key v hown hget₁
    · exact h₂.fields key v (hlegacy ▸ hown) hget₂

/-! ## Lists -/

/-- The structures of an intersection are the meets of the compatible pairs. -/
theorem mem_intersect {a b : CapsList} {s : Struct} :
    s ∈ a.intersect b ↔ ∃ s₁ ∈ a, ∃ s₂ ∈ b, Compatible s₁ s₂ ∧ s = s₁.meet s₂ := by
  simp only [CapsList.intersect, List.mem_flatMap, List.mem_filterMap, intersect_eq,
    Option.ite_none_right_eq_some, Option.some.injEq]
  constructor
  · rintro ⟨s₁, h₁, s₂, h₂, hcompatible, rfl⟩
    exact ⟨s₁, h₁, s₂, h₂, hcompatible, rfl⟩
  · rintro ⟨s₁, h₁, s₂, h₂, hcompatible, rfl⟩
    exact ⟨s₁, h₁, s₂, h₂, hcompatible, rfl⟩

theorem admitted_intersect (a b : CapsList) :
    admitted (a.intersect b) = admitted a ∩ admitted b := by
  ext d
  constructor
  · rintro ⟨s, hs, hadmits⟩
    obtain ⟨s₁, h₁, s₂, h₂, hcompatible, rfl⟩ := mem_intersect.mp hs
    obtain ⟨hd₁, hd₂⟩ := (meet_admits hcompatible d).mp hadmits
    exact ⟨⟨s₁, h₁, hd₁⟩, ⟨s₂, h₂, hd₂⟩⟩
  · rintro ⟨⟨s₁, h₁, hd₁⟩, ⟨s₂, h₂, hd₂⟩⟩
    have hcompatible := hd₁.compatible hd₂
    exact ⟨s₁.meet s₂, mem_intersect.mpr ⟨s₁, h₁, s₂, h₂, hcompatible, rfl⟩,
      (meet_admits hcompatible d).mpr ⟨hd₁, hd₂⟩⟩

/-- Without NaN, a list with a structure admits something. -/
theorem intersect_eq_nil_iff {a b : CapsList} (ha : ∀ s ∈ a, s.NaNFree) (hb : ∀ s ∈ b, s.NaNFree) :
    a.intersect b = [] ↔ admitted a ∩ admitted b = ∅ := by
  rw [← admitted_intersect]
  constructor
  · intro hempty
    rw [hempty]
    ext d
    simp [admitted]
  · intro hempty
    by_contra hsome
    obtain ⟨s, hs⟩ := List.exists_mem_of_ne_nil _ hsome
    obtain ⟨s₁, h₁, s₂, h₂, hcompatible, rfl⟩ := mem_intersect.mp hs
    obtain ⟨d, hd⟩ := (meet_nanFree hcompatible (ha s₁ h₁) (hb s₂ h₂)).exists_admits
    have hmem : d ∈ admitted (a.intersect b) := ⟨_, hs, hd⟩
    rw [hempty] at hmem
    exact hmem

/-- **Caps intersection is set intersection.**  For all capabilities the intersection admits
exactly the descriptions both admit; so it is commutative, associative and idempotent up to
what is admitted; and where no structure asks for a NaN, the result has no structure exactly
when no description is admitted by both. -/
theorem caps_intersection (a b c : CapsList) :
    admitted (a.intersect b) = admitted a ∩ admitted b ∧
    admitted (a.intersect b) = admitted (b.intersect a) ∧
    admitted ((a.intersect b).intersect c) = admitted (a.intersect (b.intersect c)) ∧
    admitted (a.intersect a) = admitted a ∧
    ((∀ s ∈ a, s.NaNFree) → (∀ s ∈ b, s.NaNFree) →
      (a.intersect b = [] ↔ admitted a ∩ admitted b = ∅)) := by
  refine ⟨admitted_intersect a b, ?_, ?_, ?_, intersect_eq_nil_iff⟩
  · rw [admitted_intersect, admitted_intersect, Set.inter_comm]
  · simp only [admitted_intersect, Set.inter_assoc]
  · rw [admitted_intersect, Set.inter_self]

/-- Two raw formats that constrain different members have a common description. -/
theorem caps_intersection_video :
    CapsList.intersect [createVideo (some "video/x-raw") 640 0 .zero none]
        [createVideo (some "video/x-raw") 0 480 .zero (some "NV12")] ≠ [] ∧
      (admitted [createVideo (some "video/x-raw") 640 0 .zero none] ∩
        admitted [createVideo (some "video/x-raw") 0 480 .zero (some "NV12")]).Nonempty := by
  have hnanFree : ∀ width height format,
      (createVideo (some "video/x-raw") width height .zero format).NaNFree := by
    intro width height format
    refine ⟨fun _ => ?_, fun key v hown hget => ?_⟩
    · simp [createVideo, Double.isNaN_zero]
    · have hkey : key ≠ "width" ∧ key ≠ "height" ∧ key ≠ "framerate" ∧ key ≠ "pixel-format" := by
        have hraw : (createVideo (some "video/x-raw") width height .zero format).isRawVideo =
            true := by
          simp only [Struct.isRawVideo, createVideo, setFieldIf_type, setFieldIf_mediaType,
            Struct.blank, Option.getD_some]
          decide
        unfold Struct.isRawLegacyField at hown
        rw [if_pos hraw] at hown
        simpa using hown
      rw [createVideo_get_other hkey] at hget
      cases hget
  have hsome : CapsList.intersect [createVideo (some "video/x-raw") 640 0 .zero none]
      [createVideo (some "video/x-raw") 0 480 .zero (some "NV12")] ≠ [] := by decide +kernel
  refine ⟨hsome, Set.nonempty_iff_ne_empty.mpr fun hempty => hsome ?_⟩
  have hiff := (caps_intersection [createVideo (some "video/x-raw") 640 0 .zero none]
    [createVideo (some "video/x-raw") 0 480 .zero (some "NV12")] []).2.2.2.2
  apply (hiff _ _).mpr hempty
  · intro s hs
    rw [List.mem_singleton.mp hs]
    exact hnanFree 640 0 none
  · intro s hs
    rw [List.mem_singleton.mp hs]
    exact hnanFree 0 480 (some "NV12")

/-- A list that asks for a NaN, against one that asks for nothing: the result has a
structure, and no description is admitted. -/
theorem nan_admits_nothing :
    ¬ ∀ a b : CapsList, a.intersect b = [] ↔ admitted a ∩ admitted b = ∅ := by
  intro hclaim
  let asks := (newSimple (some "any")).setDouble "gain" ⟨0x7FF8000000000000⟩
  have hempty : admitted [asks] ∩ admitted [newSimple (some "any")] = ∅ := by
    ext d
    refine ⟨?_, fun hd => absurd hd (Set.notMem_empty d)⟩
    rintro ⟨⟨s, hs, hadmits⟩, -⟩
    obtain rfl := List.mem_singleton.mp hs
    have hfield := hadmits.fields "gain" (.double ⟨0x7FF8000000000000⟩) (by decide +kernel)
      (by decide +kernel)
    cases hvalue : d.fields "gain" with
    | double x =>
        rw [hvalue] at hfield
        have hnan := (Double.not_isNaN_of_eq hfield).1
        exact absurd hnan (by decide)
    | _ =>
        rw [hvalue] at hfield
        cases hfield
  have hnil := (hclaim _ _).mpr hempty
  revert hnil
  decide +kernel

end Zstreamer.Caps

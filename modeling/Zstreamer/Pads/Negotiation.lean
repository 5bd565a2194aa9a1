/-
# Negotiation finds the first pair that agrees

`zst_pad_negotiate` intersects what two pads offer and keeps the first structure of
the result.  `FirstPair` is what that amounts to: the first structure of the source
that anything of the sink agrees with, and the first of the sink that agrees with
it.  A structure `Satisfies` another when it keeps everything that one constrains.
A value is kept when it is identical, or `==` to the one asked for; the second is
for a zero that comes with the other sign.

Of a raw structure the members are what is constrained, and the legacy fields only
show them.
-/

import Zstreamer.Pads.Link

namespace Zstreamer.Caps

open Foundation List Function

/-! ## The first pair -/

/-- The first pair of compatible structures, in the order of the first list and then of the
second. -/
def FirstPair (caps₁ caps₂ : CapsList) (s₁ s₂ : Struct) : Prop :=
  Compatible s₁ s₂ ∧
  (∃ front₁ back₁, caps₁ = front₁ ++ s₁ :: back₁ ∧
    ∀ t₁ ∈ front₁, ∀ t₂ ∈ caps₂, ¬ Compatible t₁ t₂) ∧
  ∃ front₂ back₂, caps₂ = front₂ ++ s₂ :: back₂ ∧ ∀ t₂ ∈ front₂, ¬ Compatible s₁ t₂

theorem intersect_eq_none {s₁ s₂ : Struct} : s₁.intersect s₂ = none ↔ ¬ Compatible s₁ s₂ := by
  rw [intersect_eq]
  by_cases hcompatible : Compatible s₁ s₂
  · simp [hcompatible]
  · simp [hcompatible]

theorem intersect_eq_some {s₁ s₂ m : Struct} :
    s₁.intersect s₂ = some m ↔ Compatible s₁ s₂ ∧ m = s₁.meet s₂ := by
  rw [intersect_eq]
  by_cases hcompatible : Compatible s₁ s₂
  · simp [hcompatible, eq_comm]
  · simp [hcompatible]

/-- The head of the intersection is the meet of the first pair. -/
theorem head_intersect {caps₁ caps₂ : CapsList} {m : Struct} :
    (caps₁.intersect caps₂).head? = some m ↔
      ∃ s₁ s₂, FirstPair caps₁ caps₂ s₁ s₂ ∧ m = s₁.meet s₂ := by
  unfold CapsList.intersect
  simp only [head?_flatMap, head?_filterMap, findSome?_eq_some_iff,
    findSome?_eq_none_iff, intersect_eq_none, intersect_eq_some]
  constructor
  · rintro ⟨front₁, s₁, back₁, hcaps₁, ⟨front₂, s₂, back₂, hcaps₂, ⟨hcompatible, rfl⟩, hfront₂⟩,
      hfront₁⟩
    exact ⟨s₁, s₂, ⟨hcompatible, ⟨front₁, back₁, hcaps₁, hfront₁⟩, front₂, back₂, hcaps₂, hfront₂⟩,
      rfl⟩
  · rintro ⟨s₁, s₂, ⟨hcompatible, ⟨front₁, back₁, hcaps₁, hfront₁⟩, front₂, back₂, hcaps₂, hfront₂⟩,
      rfl⟩
    exact ⟨front₁, s₁, back₁, hcaps₁, ⟨front₂, s₂, back₂, hcaps₂, ⟨hcompatible, rfl⟩, hfront₂⟩,
      hfront₁⟩

/-- First pairs have one meet. -/
theorem FirstPair.meet_unique {caps₁ caps₂ : CapsList} {s₁ s₂ t₁ t₂ : Struct}
    (hs : FirstPair caps₁ caps₂ s₁ s₂) (ht : FirstPair caps₁ caps₂ t₁ t₂) :
    s₁.meet s₂ = t₁.meet t₂ := by
  have hhead := head_intersect.mpr ⟨s₁, s₂, hs, rfl⟩
  rw [head_intersect.mpr ⟨t₁, t₂, ht, rfl⟩] at hhead
  exact (Option.some.inj hhead).symm

/-- There is a first pair exactly if there is one at all. -/
theorem exists_firstPair {caps₁ caps₂ : CapsList} :
    (∃ s₁ s₂, FirstPair caps₁ caps₂ s₁ s₂) ↔ ∃ s₁ ∈ caps₁, ∃ s₂ ∈ caps₂, Compatible s₁ s₂ := by
  constructor
  · rintro ⟨s₁, s₂, hcompatible, ⟨front₁, back₁, rfl, -⟩, front₂, back₂, rfl, -⟩
    exact ⟨s₁, by simp, s₂, by simp, hcompatible⟩
  · rintro ⟨s₁, h₁, s₂, h₂, hcompatible⟩
    have hmem : s₁.meet s₂ ∈ caps₁.intersect caps₂ :=
      mem_intersect.mpr ⟨s₁, h₁, s₂, h₂, hcompatible, rfl⟩
    cases hresult : caps₁.intersect caps₂ with
    | nil =>
        rw [hresult] at hmem
        cases hmem
    | cons m rest =>
        have hhead : (caps₁.intersect caps₂).head? = some m := by rw [hresult, head?_cons]
        obtain ⟨t₁, t₂, hfirst, -⟩ := head_intersect.mp hhead
        exact ⟨t₁, t₂, hfirst⟩

/-! ## Keeping constraints -/

/-- A frame rate keeps a constraint. -/
def RateKept (a x : Double) : Prop := a.eq .zero = true ∨ x = a ∨ a.eq x = true

/-- A structure keeps everything another one constrains. -/
structure Struct.Satisfies (r s : Struct) : Prop where
  mediaType : r.mediaType = s.mediaType
  type : r.type = s.type
  video : s.isRawVideo = true →
    IntAdmits s.video.width r.video.width ∧ IntAdmits s.video.height r.video.height ∧
    RateKept s.video.framerate r.video.framerate ∧
    FormatAdmits s.video.pixelFormat r.video.pixelFormat
  audio : s.isRawAudio = true → s.audio.Admits r.audio
  fields : ∀ key v, s.isRawLegacyField key = false → s.fields.get key = some v →
    ∃ w, r.fields.get key = some w ∧ (w = v ∨ v.equal w = true)

theorem pickInt_left (a b : ℤ) : IntAdmits a (pickInt a b) := by
  unfold IntAdmits pickInt
  by_cases ha : a = 0
  · exact .inl ha
  · exact .inr (if_pos ha)

theorem pickInt_right {a b : ℤ} (hagree : IntsAgree a b) : IntAdmits b (pickInt a b) := by
  unfold IntAdmits pickInt
  by_cases ha : a = 0
  · exact .inr (if_neg (not_not_intro ha))
  · rcases hagree with h | h | h
    · exact absurd h ha
    · exact .inl h
    · exact .inr ((if_pos ha).trans h)

theorem pickFormat_left (a b : Text 31) : FormatAdmits a (pickFormat a b) := by
  unfold FormatAdmits pickFormat
  by_cases ha : a.chars = ""
  · exact .inl ha
  · exact .inr (if_pos ha)

theorem pickFormat_right {a b : Text 31} (hagree : FormatsAgree a b) :
    FormatAdmits b (pickFormat a b) := by
  unfold FormatAdmits pickFormat
  by_cases ha : a.chars = ""
  · exact .inr (if_neg (not_not_intro ha))
  · rcases hagree with h | h | h
    · exact absurd h ha
    · exact .inl h
    · exact .inr ((if_pos ha).trans h)

theorem pickRate_left (a b : Double) : RateKept a (pickRate a b) := by
  unfold RateKept pickRate
  cases ha : a.eq .zero with
  | true => exact .inl rfl
  | false => exact .inr (.inl (if_pos rfl))

theorem pickRate_right {a b : Double} (hagree : RatesAgree a b) : RateKept b (pickRate a b) := by
  unfold RateKept pickRate
  cases ha : a.eq .zero with
  | true => exact .inr (.inl rfl)
  | false =>
      rcases hagree with h | h | h
      · rw [ha] at h
        cases h
      · exact .inl h
      · exact .inr (.inr (Double.eq_symm h))

theorem IntAdmits.kept {a x y : ℤ} (hadmits : IntAdmits a x) (hkept : x ≠ 0 → y = x) :
    IntAdmits a y := by
  rcases hadmits with ha | rfl
  · exact .inl ha
  · by_cases hx : x = 0
    · exact .inl hx
    · exact .inr (hkept hx)

theorem FormatAdmits.kept {a x y : Text 31} (hadmits : FormatAdmits a x)
    (hkept : x.chars ≠ "" → y = x) : FormatAdmits a y := by
  rcases hadmits with ha | rfl
  · exact .inl ha
  · by_cases hx : x.chars = ""
    · exact .inl hx
    · exact .inr (hkept hx)

theorem RateKept.kept {a x y : Double} (hrate : RateKept a x)
    (hkept : x.eq .zero = false → y = x) : RateKept a y := by
  rcases hrate with ha | rfl | heq
  · exact .inl ha
  · cases hx : x.eq .zero with
    | true => exact .inl hx
    | false => exact .inr (.inl (hkept hx))
  · cases hx : x.eq .zero with
    | true => exact .inl (Double.eq_trans heq hx)
    | false =>
        rw [hkept hx]
        exact .inr (.inr heq)

/-- The meet keeps what the first structure constrains, with its very values. -/
theorem meet_satisfies_left {s₁ s₂ : Struct} (hcompatible : Compatible s₁ s₂) :
    (s₁.meet s₂).Satisfies s₁ := by
  obtain ⟨-, -, hlegacy⟩ := isRaw_congr hcompatible.mediaType hcompatible.type
  refine ⟨meet_mediaType s₁ s₂, meet_type s₁ s₂, fun hvideo => ?_, fun haudio => ?_,
    fun key v hown hget => ?_⟩
  · rw [meet_video s₁ s₂ hvideo]
    exact ⟨pickInt_left _ _, pickInt_left _ _, pickRate_left _ _, pickFormat_left _ _⟩
  · rw [meet_audio s₁ s₂ haudio]
    exact ⟨pickInt_left _ _, pickInt_left _ _, pickFormat_left _ _⟩
  · refine ⟨v, ?_, .inl rfl⟩
    rw [meet_get s₁ s₂ hlegacy hown, hget, Option.some_or]

theorem meet_satisfies_right {s₁ s₂ : Struct} (hcompatible : Compatible s₁ s₂) :
    (s₁.meet s₂).Satisfies s₂ := by
  obtain ⟨hvideo', haudio', hlegacy⟩ := isRaw_congr hcompatible.mediaType hcompatible.type
  refine ⟨(meet_mediaType s₁ s₂).trans hcompatible.mediaType,
    (meet_type s₁ s₂).trans hcompatible.type, fun hvideo => ?_, fun haudio => ?_,
    fun key v hown hget => ?_⟩
  · rw [← hvideo'] at hvideo
    obtain ⟨hwidth, hheight, hrate, hformat⟩ := hcompatible.members.1 hvideo
    rw [meet_video s₁ s₂ hvideo]
    exact ⟨pickInt_right hwidth, pickInt_right hheight, pickRate_right hrate,
      pickFormat_right hformat⟩
  · rw [← haudio'] at haudio
    obtain ⟨hchannels, hrate, hformat⟩ := hcompatible.members.2 haudio
    rw [meet_audio s₁ s₂ haudio]
    exact ⟨pickInt_right hchannels, pickInt_right hrate, pickFormat_right hformat⟩
  · rw [← hlegacy] at hown
    rw [meet_get s₁ s₂ hlegacy hown]
    cases hfirst : s₁.fields.get key with
    | none => exact ⟨v, hget, .inl rfl⟩
    | some w =>
        have hequal := hcompatible.fields key w v hown hfirst hget
        exact ⟨w, rfl, .inr (Value.equal_symm hequal)⟩

/-! ## Only wildcards are filled in -/

/-- The second structure is the first with some wildcards replaced: no constrained member and no
field that counts changes, and a legacy field that shows a constrained member goes on showing
it. -/
structure Struct.OnlyFills (s t : Struct) : Prop where
  mediaType : t.mediaType = s.mediaType
  type : t.type = s.type
  video : if s.isRawVideo then
      (s.video.width ≠ 0 → t.video.width = s.video.width) ∧
      (s.video.height ≠ 0 → t.video.height = s.video.height) ∧
      (s.video.framerate.eq .zero = false → t.video.framerate = s.video.framerate) ∧
      (s.video.pixelFormat.chars ≠ "" → t.video.pixelFormat = s.video.pixelFormat)
    else t.video = s.video
  audio : if s.isRawAudio then
      (s.audio.channels ≠ 0 → t.audio.channels = s.audio.channels) ∧
      (s.audio.sampleRate ≠ 0 → t.audio.sampleRate = s.audio.sampleRate) ∧
      (s.audio.format.chars ≠ "" → t.audio.format = s.audio.format)
    else t.audio = s.audio
  fields : ∀ key, s.isRawLegacyField key = false → t.fields.get key = s.fields.get key
  legacy : ∀ pair ∈ s.memberFields, pair.2.isAny = false → t.fields.get pair.1 = some pair.2

theorem fillMembers_video_other {s : Struct} (hvideo : ¬ s.isRawVideo = true) :
    s.fillMembers.video = s.video := by
  unfold Struct.fillMembers
  rw [if_neg hvideo]
  split <;> rfl

theorem fillMembers_audio_other {s : Struct} (haudio : ¬ s.isRawAudio = true) :
    s.fillMembers.audio = s.audio := by
  unfold Struct.fillMembers
  split
  · rfl
  · rfl

/-- A member that is constrained is among the members after filling in. -/
theorem mem_memberFields_fillMembers {s : Struct} {pair : String × Value}
    (hmem : pair ∈ s.memberFields) (hconstrained : pair.2.isAny = false) :
    pair ∈ s.fillMembers.memberFields := by
  obtain ⟨hvideo', haudio', -⟩ := isRaw_congr (fillMembers_mediaType s) (fillMembers_type s)
  unfold Struct.memberFields at hmem ⊢
  rw [hvideo', haudio']
  split
  case isTrue hvideo =>
      rw [if_pos hvideo] at hmem
      rw [fillMembers_video s hvideo]
      simp only [mem_cons, not_mem_nil, or_false] at hmem
      rcases hmem with rfl | rfl | rfl | rfl <;> simp_all [Value.isAny]
  case isFalse hvideo =>
      rw [if_neg hvideo] at hmem
      split
      case isTrue haudio =>
          rw [if_pos haudio] at hmem
          rw [fillMembers_audio s haudio]
          simp only [mem_cons, not_mem_nil, or_false] at hmem
          rcases hmem with rfl | rfl | rfl <;> simp_all [Value.isAny]
      case isFalse haudio =>
          rw [if_neg haudio] at hmem
          cases hmem

theorem fixate_onlyFills (s : Struct) : s.OnlyFills s.fixate := by
  refine ⟨fixate_mediaType s, fixate_type s, ?_, ?_, fun key hown => fixate_get_other s hown,
    fun pair hpair hconstrained => ?_⟩
  · rw [fixate_video]
    split
    case isTrue hvideo =>
        rw [fillMembers_video s hvideo]
        refine ⟨fun h => if_neg h, fun h => if_neg h, fun h => ?_, fun h => if_neg h⟩
        exact if_neg (by rw [h]; exact Bool.false_ne_true)
    case isFalse hvideo => exact fillMembers_video_other hvideo
  · rw [fixate_audio]
    split
    case isTrue haudio =>
        rw [fillMembers_audio s haudio]
        exact ⟨fun h => if_neg h, fun h => if_neg h, fun h => if_neg h⟩
    case isFalse haudio => exact fillMembers_audio_other haudio
  · apply fixate_showsMembers s pair
    rw [fixate_eq]
    exact mem_memberFields_fillMembers hpair hconstrained

/-- Filling in keeps what is constrained. -/
theorem Struct.Satisfies.fixate {r s : Struct} (hsat : r.Satisfies s) : r.fixate.Satisfies s := by
  obtain ⟨hvideo', haudio', hlegacy⟩ := isRaw_congr hsat.mediaType hsat.type
  have hfills := fixate_onlyFills r
  refine ⟨hfills.mediaType.trans hsat.mediaType, hfills.type.trans hsat.type, fun hvideo => ?_,
    fun haudio => ?_, fun key v hown hget => ?_⟩
  · obtain ⟨hwidth, hheight, hrate, hformat⟩ := hsat.video hvideo
    have hkept := hfills.video
    rw [hvideo', if_pos hvideo] at hkept
    obtain ⟨hkeptWidth, hkeptHeight, hkeptRate, hkeptFormat⟩ := hkept
    refine ⟨hwidth.kept hkeptWidth, hheight.kept hkeptHeight, hrate.kept hkeptRate,
      hformat.kept hkeptFormat⟩
  · obtain ⟨hchannels, hrate, hformat⟩ := hsat.audio haudio
    have hkept := hfills.audio
    rw [haudio', if_pos haudio] at hkept
    obtain ⟨hkeptChannels, hkeptRate, hkeptFormat⟩ := hkept
    exact ⟨hchannels.kept hkeptChannels, hrate.kept hkeptRate, hformat.kept hkeptFormat⟩
  · rw [hfills.fields key (hlegacy ▸ hown)]
    exact hsat.fields key v hown hget

end Zstreamer.Caps

namespace Zstreamer.Pads

open Foundation Caps List Function

/-! ## Negotiation -/

/-- An intersection of structures with media types is settled by fixing the meet of the first
pair. -/
theorem settle_intersect {caps₁ caps₂ : CapsList} {s₁ s₂ : Struct}
    (hfirst : FirstPair caps₁ caps₂ s₁ s₂) :
    settle (caps₁.intersect caps₂) = some [(s₁.meet s₂).fixate] := by
  have hhead : (caps₁.intersect caps₂).head? = some (s₁.meet s₂) :=
    head_intersect.mpr ⟨s₁, s₂, hfirst, rfl⟩
  obtain ⟨rest, hresult⟩ := head?_eq_some_iff.mp hhead
  unfold settle
  rw [hresult]
  split
  case isTrue hfixed =>
      -- A list that is fixed has one structure, and fixing it once more changes nothing.
      cases rest with
      | nil =>
          have hfill := fillMembers_eq_self (s₁.meet s₂) hfixed
          rw [fixate_eq_self _ hfill (meet_showsMembers hfirst.1)]
      | cons t rest => cases hfixed
  case isFalse => rfl

/-- Without a compatible pair there is nothing to settle on. -/
theorem settle_eq_none {caps₁ caps₂ : CapsList}
    (hnone : ¬ ∃ s₁ ∈ caps₁, ∃ s₂ ∈ caps₂, Compatible s₁ s₂) :
    settle (caps₁.intersect caps₂) = none := by
  cases hresult : caps₁.intersect caps₂ with
  | nil => rfl
  | cons m rest =>
      have hhead : (caps₁.intersect caps₂).head? = some m := by rw [hresult, head?_cons]
      obtain ⟨s₁, s₂, hfirst, -⟩ := head_intersect.mp hhead
      exact absurd (exists_firstPair.mp ⟨s₁, s₂, hfirst⟩) hnone

section Negotiate

variable (els : Elements) (pads : Store) (src sink : ℕ)

/-- What negotiation does where both sides have something to say. -/
theorem negotiate_eq {srcCaps sinkCaps : CapsList} (hsrc : getCaps els pads src = some srcCaps)
    (hsink : getCaps els pads sink = some sinkCaps) :
    negotiate els pads src sink =
      match settle (srcCaps.intersect sinkCaps) with
      | none => (.error, pads)
      | some caps => (.ok, setCaps (setCaps pads src caps) sink caps) := by
  unfold negotiate
  cases houtcome : settle (srcCaps.intersect sinkCaps) with
  | none => simp only [hsrc, hsink, houtcome]
  | some caps => simp only [hsrc, hsink, houtcome]

theorem setCaps_pair (caps : Option CapsList) :
    (setCaps (setCaps pads src caps) sink caps src).caps = caps ∧
      (setCaps (setCaps pads src caps) sink caps sink).caps = caps := by
  unfold setCaps
  refine ⟨?_, by rw [update_self]⟩
  by_cases hsame : src = sink
  · rw [hsame, update_self]
  · rw [update_of_ne hsame, update_self]

/-- **Negotiation is sound, complete and deterministic in preference order.**  It succeeds exactly
if some structures of the two sides are compatible; then, whatever the first pair of those is,
both pads carry the one structure made by fixing their intersection, which is fixed and
satisfies both; a failed negotiation changes nothing.  Fixing is idempotent and fills in
wildcards only. -/
theorem negotiation {srcCaps sinkCaps : CapsList} (hsrc : getCaps els pads src = some srcCaps)
    (hsink : getCaps els pads sink = some sinkCaps)
    (hmediaTypes : ∀ s ∈ srcCaps, s.mediaType.chars ≠ "") :
    ((negotiate els pads src sink).1 = .ok ↔
      ∃ s₁ ∈ srcCaps, ∃ s₂ ∈ sinkCaps, Compatible s₁ s₂) ∧
    ((negotiate els pads src sink).1 = .ok →
      ∃ s₁ s₂ r, FirstPair srcCaps sinkCaps s₁ s₂ ∧
        (∃ m, s₁.intersect s₂ = some m ∧ CapsList.fixate [m] = some [r]) ∧
        ((negotiate els pads src sink).2 src).caps = some [r] ∧
        ((negotiate els pads src sink).2 sink).caps = some [r] ∧
        CapsList.isFixed [r] = true ∧ r.Satisfies s₁ ∧ r.Satisfies s₂) ∧
    (∀ s₁ s₂ t₁ t₂, FirstPair srcCaps sinkCaps s₁ s₂ → FirstPair srcCaps sinkCaps t₁ t₂ →
      s₁.intersect s₂ = t₁.intersect t₂) ∧
    ((negotiate els pads src sink).1 ≠ .ok → (negotiate els pads src sink).2 = pads) ∧
    (∀ caps fixed : CapsList, caps.fixate = some fixed → fixed.fixate = some fixed) ∧
    (∀ s : Struct, s.OnlyFills s.fixate) := by
  have hunique : ∀ s₁ s₂ t₁ t₂, FirstPair srcCaps sinkCaps s₁ s₂ →
      FirstPair srcCaps sinkCaps t₁ t₂ → s₁.intersect s₂ = t₁.intersect t₂ := by
    intro s₁ s₂ t₁ t₂ hs ht
    rw [intersect_eq_some.mpr ⟨hs.1, rfl⟩, intersect_eq_some.mpr ⟨ht.1, rfl⟩,
      hs.meet_unique ht]
  have hidempotent : ∀ caps fixed : CapsList, caps.fixate = some fixed →
      fixed.fixate = some fixed := by
    intro caps fixed hfixate
    cases caps with
    | nil => cases hfixate
    | cons s rest =>
        cases hfixate
        exact congrArg (fun t => some [t]) (fixate_fixate s)
  rw [negotiate_eq els pads src sink hsrc hsink]
  by_cases hpair : ∃ s₁ ∈ srcCaps, ∃ s₂ ∈ sinkCaps, Compatible s₁ s₂
  · obtain ⟨s₁, s₂, hfirst⟩ := exists_firstPair.mpr hpair
    have hmedia : (s₁.meet s₂).mediaType.chars ≠ "" := by
      rw [meet_mediaType]
      obtain ⟨-, ⟨front, back, hsplit, -⟩, -⟩ := hfirst
      apply hmediaTypes
      rw [hsplit]
      exact mem_append_right _ mem_cons_self
    rw [settle_intersect hfirst]
    refine ⟨iff_of_true rfl hpair, fun _ => ?_, hunique, fun hfail => absurd rfl hfail,
      hidempotent, fixate_onlyFills⟩
    obtain ⟨hsrcCaps, hsinkCaps⟩ := setCaps_pair pads src sink (some [(s₁.meet s₂).fixate])
    exact ⟨s₁, s₂, (s₁.meet s₂).fixate, hfirst,
      ⟨s₁.meet s₂, intersect_eq_some.mpr ⟨hfirst.1, rfl⟩, rfl⟩, hsrcCaps, hsinkCaps,
      fixate_isFixed _ hmedia, (meet_satisfies_left hfirst.1).fixate,
      (meet_satisfies_right hfirst.1).fixate⟩
  · rw [settle_eq_none hpair]
    exact ⟨iff_of_false nofun hpair, nofun, hunique, fun _ => rfl, hidempotent, fixate_onlyFills⟩

end Negotiate

/-- A camera that can do raw video of any height and an encoder that takes H.264 or raw video
of a fixed height agree on raw video. -/
theorem negotiation_raw_video :
    let camera := createVideo (some "video/x-raw") 640 0 .zero none
    let parsed := createVideo (some "video/x-h264") 0 0 .zero none
    let scaled := createVideo (some "video/x-raw") 0 360 .zero (some "NV12")
    let pads : Store := fun pad =>
      if pad = 0 then Pad.create .src (some [camera]) else Pad.create .sink (some [parsed, scaled])
    let els : Elements := ⟨fun _ _ => none, fun pads _ _ => pads⟩
    ∃ r : Struct, ((negotiate els pads 0 1).2 0).caps = some [r] ∧
      ((negotiate els pads 0 1).2 1).caps = some [r] ∧ CapsList.isFixed [r] = true ∧
      r.Satisfies camera ∧ r.Satisfies scaled := by
  intro camera parsed scaled pads els
  have hmedia : ∀ s ∈ [camera], s.mediaType.chars ≠ "" := by decide +kernel
  have hcompatible : Compatible camera scaled := by decide +kernel
  have hother : ¬ Compatible camera parsed := by decide +kernel
  obtain ⟨hiff, hok, -⟩ := negotiation els pads 0 1
    (show getCaps els pads 0 = some [camera] from rfl)
    (show getCaps els pads 1 = some [parsed, scaled] from rfl) hmedia
  obtain ⟨s₁, s₂, r, hfirst, -, hsrc, hsink, hfixed, hsat₁, hsat₂⟩ :=
    hok (hiff.mpr ⟨camera, by simp, scaled, by simp, hcompatible⟩)
  obtain ⟨hpair, ⟨front₁, back₁, hsplit₁, -⟩, front₂, back₂, hsplit₂, -⟩ := hfirst
  have h₁ : s₁ = camera := by
    have hmem : s₁ ∈ [camera] := hsplit₁ ▸ mem_append_right _ mem_cons_self
    exact mem_singleton.mp hmem
  have h₂ : s₂ = scaled := by
    have hmem : s₂ ∈ [parsed, scaled] := hsplit₂ ▸ mem_append_right _ mem_cons_self
    rcases mem_cons.mp hmem with rfl | hlast
    · exact absurd (h₁ ▸ hpair) hother
    · exact mem_singleton.mp hlast
  exact ⟨r, hsrc, hsink, hfixed, h₁ ▸ hsat₁, h₂ ▸ hsat₂⟩

end Zstreamer.Pads

/-! # What a refused link leaves behind

`zst_pad_link` negotiates before it looks whether the pads are free, and
negotiation writes the capabilities of both.  A call that is refused because a pad
is taken has then already changed them, on a pad that may be streaming.
`refused_link` says exactly when that happens; every other refusal leaves all pads
as they were.
-/

namespace Zstreamer.Pads

open Foundation Caps List Function

section Refusal

variable (els : Elements) (pads : Store) (src sink : ℕ)

/-- The pads a call of `zst_pad_link` is about: its arguments and what they are linked to. -/
def Concerned (pad : ℕ) : Prop :=
  pad = src ∨ pad = sink ∨ (pads src).peer = some pad ∨ (pads sink).peer = some pad

/-- The directions are right, a pad is taken, and negotiation comes to something that one of the
pads does not carry yet. -/
def NewsForTaken : Prop :=
  (pads src).direction = .src ∧ (pads sink).direction = .sink ∧
  ((pads src).peer.isSome ∨ (pads sink).peer.isSome) ∧
  ∃ srcCaps sinkCaps s₁ s₂ m,
    getCaps els pads src = some srcCaps ∧ getCaps els pads sink = some sinkCaps ∧
    FirstPair srcCaps sinkCaps s₁ s₂ ∧ s₁.intersect s₂ = some m ∧
    ((pads src).caps ≠ some [m.fixate] ∨ (pads sink).caps ≠ some [m.fixate])

/-- The three ways negotiation can end. -/
theorem negotiate_cases :
    negotiate els pads src sink = (.ok, pads) ∧
        (getCaps els pads src = none ∨ getCaps els pads sink = none) ∨
      (∃ srcCaps sinkCaps, getCaps els pads src = some srcCaps ∧
        getCaps els pads sink = some sinkCaps ∧
        (negotiate els pads src sink = (.error, pads) ∧
            (∀ s₁ s₂, ¬ FirstPair srcCaps sinkCaps s₁ s₂) ∨
          ∃ s₁ s₂, FirstPair srcCaps sinkCaps s₁ s₂ ∧
            negotiate els pads src sink =
              (.ok, setCaps (setCaps pads src (some [(s₁.meet s₂).fixate])) sink
                (some [(s₁.meet s₂).fixate])))) := by
  cases hsrc : getCaps els pads src with
  | none =>
      refine .inl ⟨?_, .inl rfl⟩
      unfold negotiate
      rw [hsrc]
  | some srcCaps =>
      cases hsink : getCaps els pads sink with
      | none =>
          refine .inl ⟨?_, .inr rfl⟩
          unfold negotiate
          rw [hsrc, hsink]
      | some sinkCaps =>
          refine .inr ⟨srcCaps, sinkCaps, rfl, rfl, ?_⟩
          rw [negotiate_eq els pads src sink hsrc hsink]
          by_cases hpair : ∃ s₁ ∈ srcCaps, ∃ s₂ ∈ sinkCaps, Compatible s₁ s₂
          · obtain ⟨s₁, s₂, hfirst⟩ := exists_firstPair.mpr hpair
            refine .inr ⟨s₁, s₂, hfirst, ?_⟩
            rw [settle_intersect hfirst]
          · refine .inl ⟨?_, fun s₁ s₂ hfirst => hpair (exists_firstPair.mp ⟨s₁, s₂, hfirst⟩)⟩
            rw [settle_eq_none hpair]

@[simp]
theorem setCaps_peer (pad other : ℕ) (caps : Option CapsList) :
    (setCaps pads pad caps other).peer = (pads other).peer := by
  unfold setCaps
  by_cases hsame : other = pad
  · rw [hsame, update_self]
  · rw [update_of_ne hsame]

/-- Writing what is there changes nothing. -/
theorem setCaps_eq_self {pad : ℕ} {caps : Option CapsList} (hcaps : (pads pad).caps = caps) :
    setCaps pads pad caps = pads := by
  unfold setCaps
  rw [← hcaps]
  exact update_eq_self pad pads

/-- Writing an agreement to both pads changes nothing exactly if both carry it. -/
theorem setCaps_pair_unchanged_iff (caps : Option CapsList) :
    (∀ pad, Concerned pads src sink pad →
      setCaps (setCaps pads src caps) sink caps pad = pads pad) ↔
    (pads src).caps = caps ∧ (pads sink).caps = caps := by
  obtain ⟨hnewSrc, hnewSink⟩ := setCaps_pair pads src sink caps
  constructor
  · intro hsame
    rw [hsame src (.inl rfl)] at hnewSrc
    rw [hsame sink (.inr (.inl rfl))] at hnewSink
    exact ⟨hnewSrc, hnewSink⟩
  · rintro ⟨hsrc, hsink⟩ pad -
    rw [setCaps_eq_self pads hsrc, setCaps_eq_self pads hsink]

/-- What is news, once the first pair is known. -/
theorem newsForTaken_iff {srcCaps sinkCaps : CapsList} {s₁ s₂ : Struct}
    (hsrc : (pads src).direction = .src) (hsink : (pads sink).direction = .sink)
    (htaken : (pads src).peer.isSome ∨ (pads sink).peer.isSome)
    (hsrcCaps : getCaps els pads src = some srcCaps)
    (hsinkCaps : getCaps els pads sink = some sinkCaps)
    (hfirst : FirstPair srcCaps sinkCaps s₁ s₂) :
    NewsForTaken els pads src sink ↔
      (pads src).caps ≠ some [(s₁.meet s₂).fixate] ∨
        (pads sink).caps ≠ some [(s₁.meet s₂).fixate] := by
  constructor
  · rintro ⟨-, -, -, srcCaps', sinkCaps', t₁, t₂, m, hsrcCaps', hsinkCaps', hfirst', hm, hnews⟩
    cases hsrcCaps.symm.trans hsrcCaps'
    cases hsinkCaps.symm.trans hsinkCaps'
    rw [hfirst.meet_unique hfirst', ← (intersect_eq_some.mp hm).2]
    exact hnews
  · intro hnews
    exact ⟨hsrc, hsink, htaken, srcCaps, sinkCaps, s₁, s₂, s₁.meet s₂, hsrcCaps, hsinkCaps, hfirst,
      intersect_eq_some.mpr ⟨hfirst.1, rfl⟩, hnews⟩

/-- Pads of the right directions: linking is negotiating, then looking whether they are free. -/
theorem link_eq {result : Result} {pads' : Store} (hsrc : (pads src).direction = .src)
    (hsink : (pads sink).direction = .sink)
    (hnegotiate : negotiate els pads src sink = (result, pads')) :
    link els pads src sink =
      if result = .ok then
        if (pads' src).peer.isSome ∨ (pads' sink).peer.isSome then (.error, pads')
        else (.ok, replayAll els (join pads' src sink) src)
      else (result, pads') := by
  unfold link
  rw [if_neg (not_not_intro hsrc), if_neg (not_not_intro hsink), hnegotiate]
  cases result <;> rfl

/-- **When a refused link changes nothing.**  It does exactly if it is not the case that the
directions are right, a pad is taken, and negotiation comes to something new for one of the
two. -/
theorem refused_link :
    ((link els pads src sink).1 ≠ .ok →
      ∀ pad, Concerned pads src sink pad → (link els pads src sink).2 pad = pads pad) ↔
    ¬ NewsForTaken els pads src sink := by
  by_cases hsrc : (pads src).direction = .src
  swap
  · have hlink : link els pads src sink = (.error, pads) := by
      unfold link
      rw [if_pos hsrc]
    rw [hlink]
    exact iff_of_true (fun _ _ _ => rfl) fun hnews => hsrc hnews.1
  by_cases hsink : (pads sink).direction = .sink
  swap
  · have hlink : link els pads src sink = (.error, pads) := by
      unfold link
      rw [if_neg (not_not_intro hsrc), if_pos hsink]
    rw [hlink]
    exact iff_of_true (fun _ _ _ => rfl) fun hnews => hsink hnews.2.1
  rcases negotiate_cases els pads src sink with ⟨hnegotiate, hsilent⟩ |
    ⟨srcCaps, sinkCaps, hsrcCaps, hsinkCaps, ⟨hnegotiate, hnone⟩ | ⟨s₁, s₂, hfirst, hnegotiate⟩⟩
  · -- One side has nothing to say, and a pad that is taken ends the call.
    rw [link_eq els pads src sink hsrc hsink hnegotiate, if_pos rfl]
    apply iff_of_true
    · intro hrefused pad _
      split
      · rfl
      case isFalse hfree =>
          rw [if_neg hfree] at hrefused
          exact absurd rfl hrefused
    · rintro ⟨-, -, -, srcCaps, sinkCaps, s₁, s₂, m, hsrcCaps, hsinkCaps, -⟩
      rcases hsilent with h | h
      · rw [h] at hsrcCaps
        cases hsrcCaps
      · rw [h] at hsinkCaps
        cases hsinkCaps
  · -- The two sides do not agree.
    rw [link_eq els pads src sink hsrc hsink hnegotiate, if_neg nofun]
    apply iff_of_true (fun _ _ _ => rfl)
    rintro ⟨-, -, -, srcCaps', sinkCaps', s₁, s₂, m, hsrcCaps', hsinkCaps', hfirst, -⟩
    cases hsrcCaps.symm.trans hsrcCaps'
    cases hsinkCaps.symm.trans hsinkCaps'
    exact hnone s₁ s₂ hfirst
  · -- They agree, and the agreement is written to both before the call looks further.
    rw [link_eq els pads src sink hsrc hsink hnegotiate, if_pos rfl]
    simp only [setCaps_peer]
    by_cases htaken : (pads src).peer.isSome ∨ (pads sink).peer.isSome
    · rw [if_pos htaken,
        newsForTaken_iff els pads src sink hsrc hsink htaken hsrcCaps hsinkCaps hfirst, not_or,
        not_ne_iff, not_ne_iff, ← setCaps_pair_unchanged_iff]
      exact ⟨fun hsame => hsame nofun, fun hsame _ => hsame⟩
    · rw [if_neg htaken]
      exact iff_of_true (fun hrefused => absurd rfl hrefused) fun hnews => htaken hnews.2.2.1

end Refusal

/-- A camera is linked to a recorder that takes anything; linking it to a second consumer is
refused, and leaves the camera with capabilities. -/
theorem refused_link_renegotiates :
    ¬ ∀ (els : Elements) (pads : Store) (src sink : ℕ), (link els pads src sink).1 ≠ .ok →
      ∀ pad, Concerned pads src sink pad → (link els pads src sink).2 pad = pads pad := by
  intro hclaim
  let els : Elements := ⟨fun _ _ => none, fun pads _ _ => pads⟩
  let camera := createVideo (some "video/x-raw") 0 0 .zero none
  let fresh : Store := fun pad =>
    if pad = 0 then Pad.create .src (some [camera])
    else if pad = 1 then Pad.create .sink none
    else Pad.create .sink (some [camera])
  let pads := (link els fresh 0 1).2
  have hlinked : (link els fresh 0 1).1 = .ok ∧ (pads 0).peer = some 1 ∧ (pads 0).caps = none := by
    decide +kernel
  have hrefused : (link els pads 0 2).1 ≠ .ok := by decide +kernel
  have hcaps : ((link els pads 0 2).2 0).caps ≠ none := by decide +kernel
  have hsame := hclaim els pads 0 2 hrefused 0 (.inl rfl)
  rw [hsame] at hcaps
  exact hcaps hlinked.2.2

end Zstreamer.Pads

/-
# Access units

The NAL units that come in are put together to access units.  A new one begins at a NAL
unit that ends an access unit, or that is the first slice of a picture, when the open one
has a slice; so the buffers that go out are the groups of a sequence.  They are access
units as they should be when every first slice can be told by its header, and, for H.265,
when no parameter set, delimiter or prefix message comes behind a slice.
-/

import Zstreamer.Foundation.Groups
import Zstreamer.H26x.Handling

namespace Zstreamer.H26x

open Foundation List

/-- A NAL unit as it comes in: with its times, and whether it is flagged as the last. -/
structure Arrival where
  nal : Nal
  stamp : Stamp
  eos : Bool
  deriving DecidableEq, Repr

/-- NAL units one after the other, as long as none fails. -/
def Assembler.handleEach (answers : ℕ → Bool) : List Arrival → Assembler → Assembler × Bool
  | [], s => (s, true)
  | a :: as, s => andThen (s.handleNal answers a.nal a.stamp a.eos) (handleEach answers as)

/-- The bytes of a NAL unit behind a start code. -/
def Nal.framed (nal : Nal) : List Byte := startCode ++ nal.bytes

/-- The bytes of NAL units, each behind a start code. -/
def framed (unit : List Arrival) : List Byte := unit.flatMap fun a => a.nal.framed

/-- The places of NAL units in the stream. -/
def places (unit : List Arrival) : List ℕ := unit.map fun a => a.nal.position

/-- The times of the first of some NAL units. -/
def firstStamp : List Arrival → Stamp
  | [] => ⟨0, 0, 0⟩
  | a :: _ => a.stamp

/-- The NAL units in one buffer. -/
def bufferOf (unit : List Arrival) : Out :=
  ⟨framed unit, firstStamp unit, ⟨false, false⟩, places unit⟩

/-- Slices. -/
def isVcl (codec : Codec) (nal : Nal) : Bool := (kindOf codec nal.bytes).vcl

/-- The NAL units in front of which an access unit is flushed when it has a slice. -/
def closesAu (codec : Codec) (nal : Nal) : Bool :=
  endsAu codec (kindOf codec nal.bytes).type ||
    ((kindOf codec nal.bytes).vcl && (kindOf codec nal.bytes).first)

/-- The access units that the parser makes of NAL units, with an open one. -/
def accessUnits (codec : Codec) (unit as : List Arrival) : List (List Arrival) :=
  groupsFrom (closing (fun a => isVcl codec a.nal) fun a => closesAu codec a.nal) unit as

namespace Work

/-- NAL units one after the other. -/
def run (w : Work) (as : List Arrival) : Work := as.foldl (fun w a => w.handle a.nal a.stamp) w

/-- There is room for each. -/
def Fits : Work → List Arrival → Prop
  | _, [] => True
  | w, a :: as => w.Room a.nal ∧ Fits (w.handle a.nal a.stamp) as

/-- The NAL units in the open access unit. -/
structure Holds (w : Work) (unit : List Arrival) : Prop where
  au : w.au = framed unit
  auStamp : unit ≠ [] → w.auStamp = firstStamp unit
  auHasVcl : w.auHasVcl = unit.any fun a => isVcl w.codec a.nal
  auPositions : w.auPositions = places unit

end Work

theorem framed_ne_nil {unit : List Arrival} (hunit : unit ≠ []) : framed unit ≠ [] := by
  cases unit with
  | nil => exact absurd rfl hunit
  | cons a as => exact cons_ne_nil _ _

theorem framed_append (unit more : List Arrival) : framed (unit ++ more) = framed unit ++ framed more :=
  flatMap_append

theorem framed_singleton (a : Arrival) : framed [a] = startCode ++ a.nal.bytes :=
  flatMap_singleton ..

theorem firstStamp_append {unit : List Arrival} (hunit : unit ≠ []) (more : List Arrival) :
    firstStamp (unit ++ more) = firstStamp unit := by
  cases unit with
  | nil => exact absurd rfl hunit
  | cons a as => rfl

namespace Work

variable {w : Work} {unit : List Arrival} {a : Arrival}

theorem Holds.au_eq_nil_iff (h : w.Holds unit) : w.au = [] ↔ unit = [] := by
  constructor
  · intro hau
    by_contra hunit
    exact framed_ne_nil hunit (h.au.symm.trans hau)
  · rintro rfl
    exact h.au

/-- A flush sends the NAL units of the open access unit. -/
theorem Holds.flush (h : w.Holds unit) (hunit : unit ≠ []) :
    w.flush.Holds [] ∧ w.flush.buffers = w.buffers ++ [bufferOf unit] := by
  rw [Work.flush, if_neg fun hau => hunit (h.au_eq_nil_iff.mp hau)]
  refine ⟨⟨rfl, fun hne => absurd rfl hne, rfl, rfl⟩, ?_⟩
  rw [bufferOf, ← h.au, ← h.auPositions, ← h.auStamp hunit]

theorem count_flush (w : Work) (nal : Nal) : (w.count nal).flush = w.flush.count nal := by
  rw [Work.flush, Work.flush, apply_ite (fun w => Work.count w nal)]
  rfl

/-- **The two flushes in front of a NAL unit are one.** -/
theorem Holds.prepared (h : w.Holds unit) (haggregate : w.aggregateAu = true) (nal : Nal) :
    w.ready nal = (if (w.auHasVcl && closesAu w.codec nal) = true then w.flush else w).count nal := by
  rw [ready]
  cases hvcl : w.auHasVcl with
  | false =>
      have hclose : w.close (kindOf w.codec nal.bytes) = w :=
        if_neg fun hand => by rw [hvcl] at hand; exact Bool.false_ne_true hand.2.1
      rw [hclose]
      exact if_neg fun hand => by
        have : (w.count nal).auHasVcl = false := hvcl
        rw [this] at hand
        exact Bool.false_ne_true hand.2.2
  | true =>
      have hunit : unit ≠ [] := by
        rintro rfl
        rw [h.auHasVcl] at hvcl
        cases hvcl
      have hflushed : (w.flush.count nal).auHasVcl = false := (h.flush hunit).1.auHasVcl
      rw [Bool.true_and, closesAu]
      cases hends : endsAu w.codec (kindOf w.codec nal.bytes).type with
      | true =>
          have hclose : w.close (kindOf w.codec nal.bytes) = w.flush :=
            if_pos ⟨haggregate, hvcl, hends⟩
          rw [hclose, Bool.true_or, if_pos rfl]
          exact if_neg fun hand => by rw [hflushed] at hand; exact Bool.false_ne_true hand.2.2
      | false =>
          have hclose : w.close (kindOf w.codec nal.bytes) = w :=
            if_neg fun hand => by rw [hends] at hand; exact Bool.false_ne_true hand.2.2
          have hcounted : (w.count nal).auHasVcl = true := hvcl
          rw [hclose, Bool.false_or, next, count_flush, hcounted, apply_ite (fun w => Work.count w nal)]
          exact if_congr (by rw [Bool.and_eq_true, and_iff_left rfl]) rfl rfl

/-- The NAL unit goes into the open access unit. -/
theorem Holds.put (h : w.Holds unit) (a : Arrival) :
    (((w.count a.nal).begin a.stamp).put a.nal (isVcl w.codec a.nal)).Holds (unit ++ [a]) ∧
      (((w.count a.nal).begin a.stamp).put a.nal (isVcl w.codec a.nal)).buffers = w.buffers := by
  have hbegin : ((w.count a.nal).begin a.stamp).au = w.au ∧
      ((w.count a.nal).begin a.stamp).auHasVcl = w.auHasVcl ∧
      ((w.count a.nal).begin a.stamp).auPositions = w.auPositions ∧
      ((w.count a.nal).begin a.stamp).codec = w.codec ∧
      ((w.count a.nal).begin a.stamp).buffers = w.buffers := by
    rw [Work.begin]
    split <;> exact ⟨rfl, rfl, rfl, rfl, rfl⟩
  have hstamp : ((w.count a.nal).begin a.stamp).auStamp = firstStamp (unit ++ [a]) := by
    by_cases hunit : unit = []
    · have hau : (w.count a.nal).au = [] := h.au_eq_nil_iff.mpr hunit
      rw [Work.begin, if_pos hau, hunit]
      rfl
    · have hau : ¬ (w.count a.nal).au = [] := fun hau => hunit (h.au_eq_nil_iff.mp hau)
      rw [Work.begin, if_neg hau, firstStamp_append hunit]
      exact h.auStamp hunit
  generalize (w.count a.nal).begin a.stamp = w' at hbegin hstamp
  obtain ⟨hau, hvcl, hpositions, hcodec, hbuffers⟩ := hbegin
  refine ⟨⟨?_, fun _ => hstamp, ?_, ?_⟩, hbuffers⟩
  · rw [framed_append, framed_singleton, ← h.au, ← hau]
    rfl
  · have hcodec' : (w'.put a.nal (isVcl w.codec a.nal)).codec = w.codec := hcodec
    rw [hcodec', any_append, ← h.auHasVcl, ← hvcl, any_cons, any_nil, Bool.or_false]
    rfl
  · rw [places, map_append, ← places, ← h.auPositions, ← hpositions]
    rfl

/-- **A NAL unit closes the open access unit and begins the next, or goes into it.** -/
theorem Holds.handle (h : w.Holds unit) (haggregate : w.aggregateAu = true) (a : Arrival) :
    if unit ≠ [] ∧ closing (fun a => isVcl w.codec a.nal) (fun a => closesAu w.codec a.nal) unit a
        = true
    then (w.handle a.nal a.stamp).Holds [a] ∧
      (w.handle a.nal a.stamp).buffers = w.buffers ++ [bufferOf unit]
    else (w.handle a.nal a.stamp).Holds (unit ++ [a]) ∧
      (w.handle a.nal a.stamp).buffers = w.buffers := by
  have hdeliver (w' : Work) (hsettings : w'.settings = w.settings) :
      (w'.count a.nal).deliver a.nal a.stamp (kindOf w.codec a.nal.bytes) =
        ((w'.count a.nal).begin a.stamp).put a.nal (isVcl w'.codec a.nal) := by
    rw [isVcl, codec_of_settings hsettings]
    exact if_pos ((aggregateAu_of_settings hsettings).trans haggregate)
  have hhandle : w.handle a.nal a.stamp =
      (w.ready a.nal).deliver a.nal a.stamp (kindOf w.codec a.nal.bytes) := rfl
  rw [h.prepared haggregate, h.auHasVcl] at hhandle
  split
  · rename_i hcut
    have hcut' : (unit.any (fun a => isVcl w.codec a.nal) && closesAu w.codec a.nal) = true := hcut.2
    rw [if_pos hcut', hdeliver _ (flush_settings w)] at hhandle
    obtain ⟨hempty, hbuffers⟩ := h.flush hcut.1
    obtain ⟨hholds, hsame⟩ := hempty.put a
    rw [hhandle, hsame]
    exact ⟨hholds, hbuffers⟩
  · rename_i hcut
    have hcut' : ¬ (unit.any (fun a => isVcl w.codec a.nal) && closesAu w.codec a.nal) = true := by
      refine fun hand => hcut ⟨?_, hand⟩
      rintro rfl
      cases hand
    rw [if_neg hcut', hdeliver w rfl] at hhandle
    rw [hhandle]
    exact h.put a

/-- **The buffers that go out are the access units.** -/
theorem Holds.run (haggregate : w.aggregateAu = true) (h : w.Holds unit) (as : List Arrival) :
    (w.run as).flush.buffers = w.buffers ++ (accessUnits w.codec unit as).map bufferOf := by
  induction as generalizing w unit with
  | nil =>
      change w.flush.buffers = _
      rw [accessUnits, groupsFrom]
      split
      · rename_i hunit
        rw [Work.flush, if_pos (h.au_eq_nil_iff.mpr hunit), map_nil, append_nil]
      · rename_i hunit
        exact (h.flush hunit).2
  | cons a as ih =>
      change ((w.handle a.nal a.stamp).run as).flush.buffers = _
      have hsettings := handle_settings w a.nal a.stamp
      have haggregate' := (aggregateAu_of_settings hsettings).trans haggregate
      have hcodec := codec_of_settings hsettings
      have hhandle := h.handle haggregate a
      rw [accessUnits, groupsFrom]
      split
      · rename_i hcut
        rw [if_pos hcut] at hhandle
        rw [ih haggregate' hhandle.1, hhandle.2, hcodec, append_assoc]
        rfl
      · rename_i hcut
        rw [if_neg hcut] at hhandle
        rw [ih haggregate' hhandle.1, hhandle.2, hcodec]
        rfl

theorem length_framed_le {unit g : List Arrival} (h : unit <+: g) :
    (framed unit).length ≤ (framed g).length := by
  obtain ⟨rest, rfl⟩ := h
  rw [framed_append, length_append]
  exact Nat.le_add_right _ _

/-- There is room for a NAL unit when the access unit that it goes into is not too large. -/
theorem Holds.room (haggregate : w.aggregateAu = true) (h : w.Holds unit) (a : Arrival)
    (hsize : (framed (if unit ≠ [] ∧ closing (fun a => isVcl w.codec a.nal)
      (fun a => closesAu w.codec a.nal) unit a = true then [a] else unit ++ [a])).length ≤
        w.maxAuSize) : w.Room a.nal := by
  intro _
  have hframed (unit : List Arrival) :
      (framed (unit ++ [a])).length = (framed unit).length + (a.nal.bytes.length + 4) := by
    rw [framed_append, framed_singleton, length_append, length_append, startCode,
      Nat.add_comm a.nal.bytes.length]
    rfl
  rw [h.prepared haggregate, h.auHasVcl]
  split at hsize
  · rename_i hcut
    have hcut' : (unit.any (fun a => isVcl w.codec a.nal) && closesAu w.codec a.nal) = true := hcut.2
    rw [if_pos hcut']
    have hau : (w.flush.count a.nal).au = framed [] := (h.flush hcut.1).1.au
    rw [hau, ← hframed]
    exact hsize
  · rename_i hcut
    have hcut' : ¬ (unit.any (fun a => isVcl w.codec a.nal) && closesAu w.codec a.nal) = true := by
      refine fun hand => hcut ⟨?_, hand⟩
      rintro rfl
      cases hand
    rw [if_neg hcut']
    have hau : (w.count a.nal).au = framed unit := h.au
    rw [hau, ← hframed]
    exact hsize

/-- There is room for each NAL unit when the access units are not too large. -/
theorem Holds.fits (haggregate : w.aggregateAu = true) (h : w.Holds unit) (as : List Arrival)
    (hsize : ∀ g ∈ accessUnits w.codec unit as, (framed g).length ≤ w.maxAuSize) : w.Fits as := by
  induction as generalizing w unit with
  | nil => trivial
  | cons a as ih =>
      have hsettings := handle_settings w a.nal a.stamp
      have haggregate' := (aggregateAu_of_settings hsettings).trans haggregate
      have hhandle := h.handle haggregate a
      rw [← codec_of_settings hsettings, ← maxAuSize_of_settings hsettings] at hsize
      have hlimit := maxAuSize_of_settings hsettings
      have hopen (unit' : List Arrival) (hne : unit' ≠ [])
          (hlater : ∀ g ∈ accessUnits (w.handle a.nal a.stamp).codec unit' as,
            (framed g).length ≤ (w.handle a.nal a.stamp).maxAuSize) :
          (framed unit').length ≤ w.maxAuSize := by
        obtain ⟨g, hg, hprefix⟩ := @exists_mem_groupsFrom _ _ _ as hne
        exact (length_framed_le hprefix).trans (hlimit ▸ hlater g hg)
      rw [accessUnits, groupsFrom, codec_of_settings hsettings] at hsize
      by_cases hcut : unit ≠ [] ∧ closing (fun a => isVcl w.codec a.nal)
          (fun a => closesAu w.codec a.nal) unit a = true
      · rw [if_pos hcut] at hhandle hsize
        have hlater : ∀ g ∈ accessUnits (w.handle a.nal a.stamp).codec [a] as,
            (framed g).length ≤ (w.handle a.nal a.stamp).maxAuSize := by
          rw [codec_of_settings hsettings]
          exact fun g hg => hsize g (mem_cons_of_mem _ hg)
        refine ⟨h.room haggregate a ?_, ih haggregate' hhandle.1 hlater⟩
        rw [if_pos hcut]
        exact hopen [a] (cons_ne_nil _ _) hlater
      · rw [if_neg hcut] at hhandle hsize
        have hlater : ∀ g ∈ accessUnits (w.handle a.nal a.stamp).codec (unit ++ [a]) as,
            (framed g).length ≤ (w.handle a.nal a.stamp).maxAuSize := by
          rw [codec_of_settings hsettings]
          exact hsize
        refine ⟨h.room haggregate a ?_, ih haggregate' hhandle.1 hlater⟩
        rw [if_neg hcut]
        exact hopen (unit ++ [a]) (append_ne_nil_of_right_ne_nil _ (cons_ne_nil _ _)) hlater

end Work

namespace Assembler

variable {answers : ℕ → Bool}

/-- **NAL units are handled one after the other** when every call is answered and there is room. -/
theorem handleEach_work (hanswers : ∀ n, answers n = true) (as : List Arrival) (s : Assembler)
    (hbytes : ∀ a ∈ as, a.nal.bytes ≠ []) (hfits : s.work.Fits as) :
    (s.handleEach answers as).2 = true ∧ (s.handleEach answers as).1.work = s.work.run as := by
  induction as generalizing s with
  | nil => exact ⟨rfl, rfl⟩
  | cons a as ih =>
      have hok := handleNal_ok hanswers s a.nal a.stamp a.eos fun _ => hfits.1
      have hwork : (s.handleNal answers a.nal a.stamp a.eos).1.work = s.work.handle a.nal a.stamp := by
        rcases handleNal_handles answers s a.stamp a.eos (hbytes a mem_cons_self) with
          ⟨hwork, -⟩ | ⟨hfail, -⟩
        · exact hwork
        · rw [hok] at hfail
          cases hfail
      rw [handleEach, andThen_true _ hok]
      have hlater := ih (s.handleNal answers a.nal a.stamp a.eos).1
        (fun a ha => hbytes a (mem_cons_of_mem _ ha)) (by rw [hwork]; exact hfits.2)
      rw [hwork] at hlater
      exact hlater

theorem finish_work (hanswers : ∀ n, answers n = true) (s : Assembler) :
    (s.finish answers).2 = true ∧ (s.finish answers).1.work = s.work.flush := by
  have hok := flushAu_ok hanswers { s with auFlags := { s.auFlags with eos := true } }
  refine ⟨hok, ?_⟩
  rcases flushAu_work answers { s with auFlags := { s.auFlags with eos := true } } with
    hwork | ⟨hfail, -⟩
  · exact hwork
  · rw [hok] at hfail
    cases hfail

/-- **The buffers of the NAL units of a stream are its access units.** -/
theorem stream_buffers (hanswers : ∀ n, answers n = true) {codec : Codec} {maxAuSize : ℕ}
    {as : List Arrival} (hbytes : ∀ a ∈ as, a.nal.bytes ≠ [])
    (hsize : ∀ unit ∈ accessUnits codec [] as, (framed unit).length ≤ maxAuSize) :
    buffersOf (andThen ((create codec true maxAuSize).handleEach answers as)
      (finish answers)).1.sent = (accessUnits codec [] as).map bufferOf := by
  have hholds : (create codec true maxAuSize).work.Holds [] :=
    ⟨rfl, fun hne => absurd rfl hne, rfl, rfl⟩
  obtain ⟨hok, hwork⟩ := handleEach_work hanswers as _ hbytes (hholds.fits rfl as hsize)
  rw [andThen_true _ hok]
  obtain ⟨-, hfinish⟩ := finish_work hanswers ((create codec true maxAuSize).handleEach answers as).1
  calc _ = ((create codec true maxAuSize).work.run as).flush.buffers := by
        rw [← hwork]
        exact congrArg Work.buffers hfinish
    _ = [] ++ (accessUnits codec [] as).map bufferOf := hholds.run rfl as
    _ = _ := nil_append _

end Assembler

/-! ## Access units as they should be -/

/-- The first slices of a picture: slices of H.264 whose header begins with `first_mb_in_slice` 0,
and segments of H.265 with `first_slice_segment_in_pic_flag`. -/
def isFirstSlice (codec : Codec) (nal : Nal) : Bool :=
  match codec with
  | .h264 => (kindH264 nal.bytes).vcl && (readNal nal.bytes 1 bitsUe == some 0)
  | .auto | .h265 => (kindH265 nal.bytes).first

/-- Parameter sets, delimiters and prefix messages. -/
def comesFirst (codec : Codec) (nal : Nal) : Bool :=
  let type := (kindOf codec nal.bytes).type
  match codec with
  | .h264 => decide (6 ≤ type ∧ type ≤ 9)
  | .auto | .h265 => decide (32 ≤ type ∧ type ≤ 35 ∨ type = 39)

/-- No two first slices, and nothing that comes first behind a slice. -/
structure WellFormed (codec : Codec) (unit : List Nal) : Prop where
  first : unit.Pairwise fun a b => ¬ (isFirstSlice codec a = true ∧ isFirstSlice codec b = true)
  ordered : unit.Pairwise fun a b => ¬ (isVcl codec a = true ∧ comesFirst codec b = true)

/-- The buffers are the NAL units, put together to access units as they should be. -/
def AreAccessUnits (codec : Codec) (nals : List Nal) (buffers : List Out) : Prop :=
  ∃ units : List (List Nal), units.flatten = nals ∧
    buffers.map Out.data = units.map (fun unit => unit.flatMap Nal.framed) ∧
    buffers.map Out.positions = units.map (fun unit => unit.map Nal.position) ∧
    ∀ unit ∈ units, WellFormed codec unit

/-- The streams whose access units are as they should be.  In H.264, from a first slice to the next
there is a NAL unit in front of which the access unit is flushed; in H.265, no parameter set,
delimiter or prefix message comes behind a slice. -/
def KeepsOrder (codec : Codec) (nals : List Nal) : Prop :=
  match codec with
  | .h264 => ∀ x a mid b y, nals = x ++ a :: (mid ++ b :: y) → isFirstSlice .h264 a = true →
      isFirstSlice .h264 b = true → (mid ++ [b]).any (closesAu .h264) = true
  | .auto | .h265 => nals.Pairwise fun a b => ¬ (isVcl codec a = true ∧ comesFirst codec b = true)

/-- The access units of NAL units alone. -/
theorem accessUnits_map (codec : Codec) (as : List Arrival) :
    (accessUnits codec [] as).map (List.map Arrival.nal) =
      groupsFrom (closing (isVcl codec) (closesAu codec)) [] (as.map Arrival.nal) :=
  (groupsFrom_map (closing_map Arrival.nal (isVcl codec) (closesAu codec)) [] as).symm

section Kinds

variable {codec : Codec} {nal : Nal}

theorem isVcl_of_isFirstSlice (h : isFirstSlice codec nal = true) : isVcl codec nal = true := by
  cases codec with
  | h264 => exact (Bool.and_eq_true_iff.mp h).1
  | auto => exact (Bool.and_eq_true_iff.mp (Bool.and_eq_true_iff.mp h).1).1
  | h265 => exact (Bool.and_eq_true_iff.mp (Bool.and_eq_true_iff.mp h).1).1

/-- In H.264, what comes first ends an access unit. -/
theorem closesAu_of_comesFirst (h : comesFirst .h264 nal = true) : closesAu .h264 nal = true := by
  have hends : endsAu .h264 (kindOf .h264 nal.bytes).type = true := by
    rw [endsAu, decide_eq_true rfl, Bool.true_and]
    exact Bool.or_eq_true_iff.mpr (.inl h)
  rw [closesAu, hends]
  rfl

/-- In H.265, the first slices are what closes access units. -/
theorem closesAu_eq_isFirstSlice (hcodec : codec ≠ .h264) (nal : Nal) :
    closesAu codec nal = isFirstSlice codec nal := by
  have hends : endsAu codec (kindOf codec nal.bytes).type = false := by
    rw [endsAu, decide_eq_false hcodec, Bool.false_and]
  rw [closesAu, hends, Bool.false_or]
  cases hfirst : isFirstSlice codec nal with
  | true =>
      have hvcl := isVcl_of_isFirstSlice hfirst
      rw [isVcl] at hvcl
      rw [hvcl, Bool.true_and]
      cases codec with
      | h264 => exact absurd rfl hcodec
      | auto => exact hfirst
      | h265 => exact hfirst
  | false =>
      rw [Bool.and_eq_false_iff]
      cases codec with
      | h264 => exact absurd rfl hcodec
      | auto => exact .inr hfirst
      | h265 => exact .inr hfirst

theorem not_isVcl_of_comesFirst (hcodec : codec ≠ .h264) (h : comesFirst codec nal = true) :
    isVcl codec nal = false := by
  have htype : 32 ≤ (kindH265 nal.bytes).type ∧ (kindH265 nal.bytes).type ≤ 35 ∨
      (kindH265 nal.bytes).type = 39 := by
    cases codec with
    | h264 => exact absurd rfl hcodec
    | auto => exact of_decide_eq_true h
    | h265 => exact of_decide_eq_true h
  have hvcl : isVcl codec nal = decide ((kindH265 nal.bytes).type ≤ 31) := by
    cases codec with
    | h264 => exact absurd rfl hcodec
    | auto => rfl
    | h265 => rfl
  rw [hvcl, decide_eq_false_iff_not]
  bv_omega

end Kinds

/-- In H.264, only first slices can come together. -/
theorem wellFormed_h264_iff (nals : List Nal) :
    (∀ unit ∈ groupsFrom (closing (isVcl .h264) (closesAu .h264)) [] nals, WellFormed .h264 unit) ↔
      KeepsOrder .h264 nals := by
  have hfirst := @pairwise_groupsFrom_iff _ nals (isVcl .h264) (closesAu .h264)
    (fun a b => isFirstSlice .h264 a = true ∧ isFirstSlice .h264 b = true)
    fun a b hab => isVcl_of_isFirstSlice hab.1
  have hordered := @pairwise_groupsFrom_iff _ nals (isVcl .h264) (closesAu .h264)
    (fun a b => isVcl .h264 a = true ∧ comesFirst .h264 b = true) fun a b hab => hab.1
  constructor
  · intro hunits x a mid b y hsplit ha hb
    exact hfirst.mp (fun unit hunit => (hunits unit hunit).first) x a mid b y hsplit ⟨ha, hb⟩
  · intro hkeeps unit hunit
    refine ⟨hfirst.mpr (fun x a mid b y hsplit hab => hkeeps x a mid b y hsplit hab.1 hab.2) unit hunit,
      hordered.mpr (fun x a mid b y _ hab => ?_) unit hunit⟩
    exact any_eq_true.mpr
      ⟨b, mem_append_right _ mem_cons_self, closesAu_of_comesFirst hab.2⟩

/-- In H.265, what is behind a slice stays behind a slice. -/
theorem pairwise_of_separated {codec : Codec} (hcodec : codec ≠ .h264) {nals : List Nal}
    (hseparated : ∀ x a mid b y, nals = x ++ a :: (mid ++ b :: y) →
      isVcl codec a = true ∧ comesFirst codec b = true → (mid ++ [b]).any (closesAu codec) = true) :
    nals.Pairwise fun a b => ¬ (isVcl codec a = true ∧ comesFirst codec b = true) := by
  rw [pairwise_iff_splits]
  intro x a mid b y hsplit hab
  -- the slice that is said to be between is nearer to the second NAL unit
  induction hn : mid.length using Nat.strong_induction_on generalizing x a mid with
  | _ n ih =>
      subst hn
      obtain ⟨c, hc, hcloses⟩ := any_eq_true.mp (hseparated x a mid b y hsplit hab)
      have hvcl : isVcl codec c = true := by
        rw [closesAu_eq_isFirstSlice hcodec] at hcloses
        exact isVcl_of_isFirstSlice hcloses
      have hmid : c ∈ mid := by
        rcases mem_append.mp hc with hmid | hlast
        · exact hmid
        · obtain rfl := mem_singleton.mp hlast
          rw [not_isVcl_of_comesFirst hcodec hab.2] at hvcl
          cases hvcl
      obtain ⟨mid₁, mid₂, rfl⟩ := append_of_mem hmid
      refine ih mid₂.length ?_ (x ++ a :: mid₁) c mid₂ ?_ ⟨hvcl, hab.2⟩ rfl
      · rw [length_append, length_cons]
        omega
      · rw [hsplit]
        simp only [append_assoc, cons_append]

/-- In H.265, only what comes first can be at a wrong place. -/
theorem wellFormed_h265_iff {codec : Codec} (hcodec : codec ≠ .h264) (nals : List Nal) :
    (∀ unit ∈ groupsFrom (closing (isVcl codec) (closesAu codec)) [] nals, WellFormed codec unit) ↔
      nals.Pairwise fun a b => ¬ (isVcl codec a = true ∧ comesFirst codec b = true) := by
  have hfirst := @pairwise_groupsFrom_iff _ nals (isVcl codec) (closesAu codec)
    (fun a b => isFirstSlice codec a = true ∧ isFirstSlice codec b = true)
    fun a b hab => isVcl_of_isFirstSlice hab.1
  have hordered := @pairwise_groupsFrom_iff _ nals (isVcl codec) (closesAu codec)
    (fun a b => isVcl codec a = true ∧ comesFirst codec b = true) fun a b hab => hab.1
  constructor
  · intro hunits
    exact pairwise_of_separated hcodec (hordered.mp fun unit hunit => (hunits unit hunit).ordered)
  · intro hpairwise unit hunit
    refine ⟨hfirst.mpr (fun x a mid b y _ hab => ?_) unit hunit,
      hordered.mpr (fun x a mid b y hsplit hab => ?_) unit hunit⟩
    · refine any_eq_true.mpr ⟨b, mem_append_right _ mem_cons_self, ?_⟩
      rw [closesAu_eq_isFirstSlice hcodec]
      exact hab.2
    · exact absurd hab (pairwise_iff_splits.mp hpairwise x a mid b y hsplit)

theorem wellFormed_iff (codec : Codec) (nals : List Nal) :
    (∀ unit ∈ groupsFrom (closing (isVcl codec) (closesAu codec)) [] nals, WellFormed codec unit) ↔
      KeepsOrder codec nals := by
  cases codec with
  | h264 => exact wellFormed_h264_iff nals
  | auto => exact wellFormed_h265_iff (by decide) nals
  | h265 => exact wellFormed_h265_iff (by decide) nals

/-- The buffers say which NAL units are in which. -/
theorem areAccessUnits_iff (codec : Codec) (units : List (List Arrival)) :
    AreAccessUnits codec (units.flatten.map Arrival.nal) (units.map bufferOf) ↔
      ∀ unit ∈ units.map (List.map Arrival.nal), WellFormed codec unit := by
  constructor
  · rintro ⟨units', hflatten, -, hpositions, hwell⟩
    have hunits : units' = units.map (List.map Arrival.nal) := by
      refine eq_iff_flatten_eq.mpr ⟨?_, ?_⟩
      · rw [hflatten, map_flatten]
      · have hlengths := congrArg (List.map List.length) hpositions
        rw [map_map, map_map, map_map] at hlengths
        rw [map_map]
        calc units'.map List.length
            = units'.map (List.length ∘ fun unit => unit.map Nal.position) :=
              map_congr_left fun unit _ => length_map .. |>.symm
          _ = units.map (List.length ∘ Out.positions ∘ bufferOf) := hlengths.symm
          _ = units.map (List.length ∘ List.map Arrival.nal) :=
              map_congr_left fun unit _ =>
                (length_map ..).trans (length_map ..).symm
    rw [← hunits]
    exact hwell
  · intro hwell
    refine ⟨units.map (List.map Arrival.nal), map_flatten.symm, ?_, ?_, hwell⟩
    · rw [map_map, map_map]
      exact map_congr_left fun unit _ => (flatMap_map ..).symm
    · rw [map_map, map_map]
      exact map_congr_left fun unit _ => (map_map ..).symm

namespace Assembler

theorem areAccessUnits_stream_iff {answers : ℕ → Bool} (hanswers : ∀ n, answers n = true)
    {codec : Codec} {maxAuSize : ℕ} {as : List Arrival} (hbytes : ∀ a ∈ as, a.nal.bytes ≠ [])
    (hsize : ∀ unit ∈ accessUnits codec [] as, (framed unit).length ≤ maxAuSize) :
    AreAccessUnits codec (as.map Arrival.nal)
        (buffersOf (andThen ((create codec true maxAuSize).handleEach answers as)
          (finish answers)).1.sent) ↔
      KeepsOrder codec (as.map Arrival.nal) := by
  have hflatten : (accessUnits codec [] as).flatten = as := flatten_groupsFrom _ [] as
  rw [stream_buffers hanswers hbytes hsize]
  have hunits := areAccessUnits_iff codec (accessUnits codec [] as)
  rw [hflatten, accessUnits_map] at hunits
  exact hunits.trans (wellFormed_iff codec _)

/-- **The access units of a stream are as they should be when and only when the stream keeps this
order.** -/
theorem access_units_well_formed {answers : ℕ → Bool} (hanswers : ∀ n, answers n = true)
    {codec : Codec} {maxAuSize : ℕ} {as : List Arrival} (hbytes : ∀ a ∈ as, a.nal.bytes ≠ [])
    (hsize : ∀ unit ∈ accessUnits codec [] as, (framed unit).length ≤ maxAuSize) :
    AreAccessUnits codec (as.map Arrival.nal)
        (buffersOf (andThen ((create codec true maxAuSize).handleEach answers as)
          (finish answers)).1.sent) ↔
      KeepsOrder codec (as.map Arrival.nal) :=
  areAccessUnits_stream_iff hanswers hbytes hsize

/-- A delimiter, the one slice of a picture, and the delimiter of the next picture, of H.265. -/
def pictures : List Arrival :=
  [⟨⟨[0x46, 0x01], 0⟩, ⟨0, 0, 0⟩, false⟩, ⟨⟨[0x02, 0x01, 0x80], 6⟩, ⟨0, 0, 0⟩, false⟩,
    ⟨⟨[0x46, 0x01], 13⟩, ⟨0, 0, 0⟩, false⟩]

theorem access_units_well_formed_picture :
    AreAccessUnits .h265 ((pictures.take 2).map Arrival.nal)
        (buffersOf (andThen ((create .h265 true 64).handleEach (fun _ => true) (pictures.take 2))
          (finish fun _ => true)).1.sent) ↔
      KeepsOrder .h265 ((pictures.take 2).map Arrival.nal) :=
  access_units_well_formed (fun _ => rfl) (by decide) (by decide)

/-- The second delimiter is in one buffer with the slice before it. -/
theorem delimiter_joins_picture :
    ¬ AreAccessUnits .h265 (pictures.map Arrival.nal)
      (buffersOf (andThen ((create .h265 true 64).handleEach (fun _ => true) pictures)
        (finish fun _ => true)).1.sent) := by
  rw [areAccessUnits_stream_iff (fun _ => rfl) (by decide) (by decide)]
  change ¬ (pictures.map Arrival.nal).Pairwise _
  decide

end Assembler

end Zstreamer.H26x

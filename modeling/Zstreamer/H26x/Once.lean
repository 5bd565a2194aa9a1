/-
# No NAL unit twice

The adapter is compacted behind the last NAL unit that was handled, but only when the whole
parse has gone through.  A parse that fails when it has counted a NAL unit leaves it in the
adapter, and the next parse handles it again.  As long as that does not happen, every NAL
unit of the stream is counted once and goes out once, whatever else fails.
-/

import Zstreamer.H26x.Calls

namespace Zstreamer.H26x

open Foundation List

namespace Parser

/-- The bytes that the parser has taken. -/
def input (s : Parser) : List Byte := s.taken.flatMap Input.data

/-- No NAL unit that has been counted is still in the adapter. -/
def Uncounted (s : Parser) : Prop := ∀ place ∈ s.assembler.counted, place < s.adapterPosition

instance (s : Parser) : Decidable s.Uncounted := inferInstanceAs (Decidable (∀ _ ∈ _, _))

/-- Calls that bring one stream: no buffer is to be dropped, and no bytes come behind the end. -/
def OneStream (cs : List Call) : Prop :=
  (∀ c ∈ cs, c.drops = false) ∧ cs.Pairwise fun a b => a.ends = true → b.data = []

/-- The adapter is what is left of the stream: its NAL units are the last of the stream's. -/
structure Tracks (p : Parser) (ended : Bool) (s : Parser) : Prop where
  format : s.inputFormat = p.inputFormat
  nalLengthSize : s.nalLengthSize = p.nalLengthSize
  maxNalSize : s.maxNalSize = p.maxNalSize
  adapter : s.adapter = s.input.drop s.adapterPosition
  position : s.adapterPosition ≤ s.input.length
  cut : (∃ before, ∀ more eos, p.unitsOf 0 (s.input ++ more) eos =
      before ++ p.unitsOf s.adapterPosition (s.adapter ++ more) eos) ∨
    ended = true ∧ s.adapter = []

/-- The NAL units that have been counted, each once, are NAL units of the stream, and no others have
been handed on. -/
structure Counts (p : Parser) (ended : Bool) (input : List Byte) (w : Work) : Prop where
  within : ∀ place ∈ w.counted, place ∈ (p.unitsOf 0 input ended).map Nal.position
  nodup : w.counted.Nodup
  handed : w.handed.Subperm w.counted
  parsedNals : w.parsedNals = w.counted.length

variable {p s t : Parser} {ended : Bool}

/-- The end of the stream takes no NAL unit away. -/
theorem mem_unitsOf_or {place : ℕ} {data : List Byte} {nal : Nal} (eos eos' : Bool)
    (hnal : nal ∈ p.unitsOf place data eos) : nal ∈ p.unitsOf place data (eos || eos') := by
  cases eos with
  | true => exact hnal
  | false => exact (unitsOf_false_sublist p place data _).subset hnal

theorem Counts.ends {input : List Byte} {w : Work} (h : Counts p ended input w) (ends : Bool) :
    Counts p (ended || ends) input w where
  within := by
    intro place hplace
    obtain ⟨nal, hnal, rfl⟩ := mem_map.mp (h.within place hplace)
    exact mem_map_of_mem (mem_unitsOf_or ended ends hnal)
  nodup := h.nodup
  handed := h.handed
  parsedNals := h.parsedNals

/-- More bytes take no NAL unit away that has an end. -/
theorem Counts.more {input : List Byte} {w : Work} (h : Counts p ended input w) {data : List Byte}
    (hdata : ended = true → data = []) : Counts p ended (input ++ data) w where
  within := by
    intro place hplace
    obtain ⟨nal, hnal, rfl⟩ := mem_map.mp (h.within place hplace)
    refine mem_map_of_mem ?_
    cases ended with
    | true =>
        rw [hdata rfl, append_nil]
        exact hnal
    | false =>
        rw [unitsOf_false] at hnal
        rw [unitsOf_append]
        exact mem_append_left _ hnal
  nodup := h.nodup
  handed := h.handed
  parsedNals := h.parsedNals

/-- **New NAL units of the stream are counted, each once.** -/
theorem Counts.moves {input : List Byte} {w w' : Work} (h : Counts p ended input w)
    {counts hands : List ℕ} (hmoves : w.Moves w' counts hands) (hhands : hands.Subperm counts)
    (hnodup : counts.Nodup) (hfresh : ∀ a ∈ w.counted, ∀ b ∈ counts, a ≠ b)
    (hwithin : ∀ place ∈ counts, place ∈ (p.unitsOf 0 input ended).map Nal.position) :
    Counts p ended input w' where
  within := by
    intro place hplace
    rw [hmoves.counted] at hplace
    rcases mem_append.mp hplace with hold | hnew
    · exact h.within place hold
    · exact hwithin place hnew
  nodup := by
    rw [hmoves.counted]
    exact nodup_append.mpr ⟨h.nodup, hnodup, hfresh⟩
  handed := by
    rw [hmoves.counted]
    exact hmoves.handed.trans (h.handed.append hhands)
  parsedNals := by
    rw [hmoves.parsedNals, hmoves.counted, h.parsedNals, length_append]

theorem Counts.flushed {input : List Byte} {w w' : Work} (h : Counts p ended input w)
    (hflushed : w.Flushed w') : Counts p ended input w' :=
  h.moves hflushed.moves (List.Subperm.refl _) nodup_nil (fun _ _ _ hb => nomatch hb)
    fun _ hplace => nomatch hplace

theorem input_append (s : Parser) (buf : Input) :
    (s.taken ++ [buf]).flatMap Input.data = s.input ++ buf.data := by
  rw [flatMap_append, flatMap_singleton]
  rfl

theorem Tracks.loaded (h : Tracks p ended s) {c : Call} (hload : Loaded s c t)
    (hdata : ended = true → c.data = []) :
    Tracks p ended t ∧ t.input = s.input ++ c.data ∧ t.adapterPosition = s.adapterPosition ∧
      t.assembler.work = s.assembler.work := by
  cases hload with
  | eos =>
      refine ⟨h, ?_, rfl, rfl⟩
      exact (append_nil _).symm
  | push buf asm hwork hroom =>
      have hinput : (s.taken ++ [buf]).flatMap Input.data = s.input ++ buf.data := input_append s buf
      refine ⟨⟨h.format, h.nalLengthSize, h.maxNalSize, ?_, ?_, ?_⟩, hinput, rfl, hwork⟩
      · rw [input, hinput, drop_append_of_le_length h.position, ← h.adapter]
      · rw [input, hinput, length_append]
        exact h.position.trans (Nat.le_add_right _ _)
      · rcases h.cut with ⟨before, hbefore⟩ | ⟨hended, hadapter⟩
        · refine .inl ⟨before, fun more eos => ?_⟩
          rw [input, hinput, append_assoc, append_assoc]
          exact hbefore (buf.data ++ more) eos
        · refine .inr ⟨hended, ?_⟩
          have hnone : buf.data = [] := hdata hended
          rw [hadapter, hnone]
          rfl

theorem Tracks.ends (h : Tracks p ended s) (ends : Bool) : Tracks p (ended || ends) s where
  format := h.format
  nalLengthSize := h.nalLengthSize
  maxNalSize := h.maxNalSize
  adapter := h.adapter
  position := h.position
  cut := h.cut.imp id fun hempty => ⟨by rw [hempty.1]; rfl, hempty.2⟩

/-- What the assembler does leaves the adapter as it is. -/
theorem Tracks.handled (h : Tracks p ended s) (asm : Assembler) :
    Tracks p ended { s with assembler := asm } :=
  ⟨h.format, h.nalLengthSize, h.maxNalSize, h.adapter, h.position, h.cut⟩

/-- **What is left of the adapter is what is left of the stream.** -/
theorem Tracks.compact (h : Tracks p ended s) :
    Tracks p ended (s.compact (s.scanner.used s.adapter)) := by
  have hused := s.scanner.used_le s.adapter
  have hlength : s.adapter.length + s.adapterPosition = s.input.length := by
    rw [h.adapter, length_drop]
    exact Nat.sub_add_cancel h.position
  have hscanner : s.scanner = p.scanner := by
    rw [scanner, scanner, h.format, h.nalLengthSize, h.maxNalSize]
  refine ⟨h.format, h.nalLengthSize, h.maxNalSize, ?_, ?_, ?_⟩
  · change s.adapter.drop _ = s.input.drop (s.adapterPosition + _)
    rw [h.adapter, drop_drop]
  · change s.adapterPosition + _ ≤ s.input.length
    omega
  · rcases h.cut with ⟨before, hbefore⟩ | ⟨hended, hadapter⟩
    · refine .inl ⟨before ++ (p.scanner.tokens s.adapterPosition s.adapter).map toNal,
        fun more eos => ?_⟩
      rw [append_assoc]
      refine (hbefore more eos).trans (congrArg (before ++ ·) ?_)
      rw [unitsOf_append, ← hscanner]
      rfl
    · exact .inr ⟨hended, by change s.adapter.drop _ = []; rw [hadapter, drop_nil]⟩

/-- Nothing is left of the adapter. -/
theorem Tracks.clear (h : Tracks p ended s) (hended : ended = true) :
    Tracks p ended (s.compact s.adapter.length) := by
  have hlength : s.adapterPosition + s.adapter.length = s.input.length := by
    rw [h.adapter, length_drop]
    exact Nat.add_sub_cancel' h.position
  have hempty : (s.compact s.adapter.length).adapter = [] := drop_length
  refine ⟨h.format, h.nalLengthSize, h.maxNalSize, ?_, ?_, .inr ⟨hended, hempty⟩⟩
  · rw [hempty]
    change [] = s.input.drop (s.adapterPosition + _)
    rw [hlength, drop_length]
  · change s.adapterPosition + _ ≤ s.input.length
    exact hlength.le

/-- The NAL units that are found in the adapter are NAL units of the stream. -/
theorem Tracks.mem_of_mem_found (h : Tracks p ended s) {eos : Bool} {nal : Nal}
    (hnal : nal ∈ s.found eos) : nal ∈ p.unitsOf 0 s.input eos := by
  rw [found, unitsOf_congr h.format h.nalLengthSize h.maxNalSize] at hnal
  rcases h.cut with ⟨before, hbefore⟩ | ⟨-, hadapter⟩
  · have hall := hbefore [] eos
    rw [append_nil, append_nil] at hall
    rw [hall]
    exact mem_append_right _ hnal
  · rw [hadapter, unitsOf_nil] at hnal
    cases hnal

/-- **A parse counts NAL units of the stream**, each once when none of them has been counted. -/
theorem counts_of_parsed (hformat : p.inputFormat ≠ .auto) {eos : Bool} {s' : Parser}
    {answers : ℕ → Bool} (ht : Tracks p ended t) (hcounts : Counts p ended t.input t.assembler.work)
    (huncounted : t.Uncounted) (hparsed : Parsed answers t eos s') :
    Tracks p (ended || eos) s' ∧ s'.input = t.input ∧
      Counts p (ended || eos) s'.input s'.assembler.work := by
  obtain ⟨units, result, asm, hunits, houtcome, hflushed, rfl⟩ := hparsed
  have hdetect : t.detect = t := by
    rw [detect, if_neg fun hand => hformat (ht.format.symm.trans hand.1)]
  rw [hdetect] at hunits houtcome
  have hpositions : units.map (fun unit => unit.1.position) = (t.found eos).map Nal.position := by
    rw [← hunits, map_map]
    rfl
  have hbytes : ∀ unit ∈ units, unit.1.bytes ≠ [] := by
    intro unit hunit
    have hmem : unit.1 ∈ t.found eos := hunits ▸ mem_map_of_mem hunit
    exact bytes_ne_nil t hmem
  obtain ⟨counts, hands, hsub, hhands, hmoves⟩ :=
    Assembler.handleAll_moves answers t.adapterStamp units t.assembler hbytes
  rw [hpositions] at hsub
  have hhandled : Counts p (ended || eos) t.input
      (t.assembler.handleAll answers t.adapterStamp units).1.work := by
    refine (hcounts.ends eos).moves hmoves hhands.subperm ?_ ?_ ?_
    · exact ((pairwise_position t t.adapterPosition t.adapter eos).sublist hsub).imp Nat.ne_of_lt
    · intro a ha b hb
      obtain ⟨nal, hnal, rfl⟩ := mem_map.mp (hsub.subset hb)
      exact Nat.ne_of_lt ((huncounted a ha).trans_le (le_position t hnal))
    · intro place hplace
      obtain ⟨nal, hnal, rfl⟩ := mem_map.mp (hsub.subset hplace)
      rw [Bool.or_comm]
      exact mem_map_of_mem (mem_unitsOf_or eos ended (ht.mem_of_mem_found hnal))
  have hends := ht.ends eos
  cases houtcome with
  | failed hfail => exact ⟨hends.handled _, rfl, hhandled.flushed hflushed⟩
  | refused asm' hok hwork hrefused =>
      exact ⟨hends.handled _, rfl, (hwork ▸ hhandled).flushed hflushed⟩
  | kept hok => exact ⟨hends.compact.handled _, rfl, hhandled.flushed hflushed⟩
  | ended hok heos =>
      have hended : (ended || eos) = true := by rw [heos, Bool.or_true]
      exact ⟨(hends.clear hended).handled _, rfl, hhandled.flushed hflushed⟩
  | dropped asm' hok hwork hformat' heos hrest =>
      have hended : (ended || eos) = true := by rw [heos, Bool.or_true]
      exact ⟨(hends.clear hended).handled _, rfl, (hwork ▸ hhandled).flushed hflushed⟩

/-- **A call counts NAL units of the stream**, each once when none that has been counted is still in
the adapter. -/
theorem counts_of_call (answers : ℕ → Bool) (hformat : p.inputFormat ≠ .auto) {c : Call}
    (hs : Tracks p ended s) (hcounts : Counts p ended s.input s.assembler.work)
    (huncounted : s.Uncounted) (hdrops : c.drops = false) (hdata : ended = true → c.data = []) :
    Tracks p (ended || c.ends) (s.call answers c).1 ∧
      Counts p (ended || c.ends) (s.call answers c).1.input (s.call answers c).1.assembler.work := by
  rcases call_cases answers s hdrops with ⟨buf, asm, rfl, hwork, hrefused⟩ | ⟨t, hload, hparsed⟩
  · rw [hrefused]
    have htracks : Tracks p ended
        { s with adapterStamp := s.stampFor buf.stamp, haveTimestamp := true, assembler := asm } :=
      ⟨hs.format, hs.nalLengthSize, hs.maxNalSize, hs.adapter, hs.position, hs.cut⟩
    have hsame : Counts p ended s.input asm.work := by
      rw [hwork]
      exact hcounts
    exact ⟨htracks.ends _, hsame.ends _⟩
  · obtain ⟨ht, hinput, hposition, hwork⟩ := hs.loaded hload hdata
    have hmore : Counts p ended t.input t.assembler.work := by
      rw [hinput, hwork]
      exact hcounts.more hdata
    have huncounted' : t.Uncounted := by
      intro place hplace
      have hcounted : t.assembler.counted = s.assembler.counted := congrArg Work.counted hwork
      rw [hcounted] at hplace
      rw [hposition]
      exact huncounted place hplace
    obtain ⟨htracks, -, hcounts'⟩ := counts_of_parsed hformat ht hmore huncounted' hparsed
    exact ⟨htracks, hcounts'⟩

/-- What holds when calls have come, the last of them or one before the end of the stream. -/
theorem counts_of_calls (answers : ℕ → Bool) (hformat : p.inputFormat ≠ .auto) {cs : List Call}
    (hs : Tracks p ended s) (hcounts : Counts p ended s.input s.assembler.work)
    (hstream : OneStream cs) (hdata : ended = true → ∀ c ∈ cs, c.data = [])
    (hfollows : Follows answers (fun s _ => s.Uncounted) cs s) :
    ∃ ended', Counts p ended' (s.calls answers cs).input (s.calls answers cs).assembler.work := by
  induction cs generalizing s ended with
  | nil => exact ⟨ended, hcounts⟩
  | cons c cs ih =>
      obtain ⟨hc, hcs⟩ := forall_mem_cons.mp hstream.1
      obtain ⟨hlast, hpairwise⟩ := pairwise_cons.mp hstream.2
      obtain ⟨htracks, hcounts'⟩ := counts_of_call answers hformat hs hcounts hfollows.1 hc
        fun hended => hdata hended c mem_cons_self
      refine ih htracks hcounts' ⟨hcs, hpairwise⟩ ?_ hfollows.2
      intro hended c' hc'
      rcases (Bool.or_eq_true _ _).mp hended with hold | hnew
      · exact hdata hold c' (mem_cons_of_mem _ hc')
      · exact hlast c' hc' hnew

/-- The NAL units that have gone out. -/
def sentPlaces (s : Parser) : List ℕ := (buffersOf s.assembler.sent).flatMap Out.positions

theorem once_of_counts {input : List Byte} (hcounts : Counts p ended input s.assembler.work) :
    s.sentPlaces.Nodup ∧ s.assembler.parsedNals ≤ (p.unitsOf 0 input true).length := by
  constructor
  · have hhanded : s.assembler.work.handed.Nodup := by
      obtain ⟨perm, hperm, hsub⟩ := hcounts.handed
      exact hperm.nodup (hsub.nodup hcounts.nodup)
    exact (sublist_append_left _ _).nodup hhanded
  · have hsub := (hcounts.ends true).nodup.subperm fun place hplace =>
      (hcounts.ends true).within place hplace
    have hlength := hsub.length_le
    rw [length_map, Bool.or_true] at hlength
    calc s.assembler.parsedNals = s.assembler.work.counted.length := hcounts.parsedNals
      _ ≤ _ := hlength

section Created

variable (inputFormat : StreamFormat) (nalLengthSize maxNalSize maxBufferedBytes : ℕ)
  (policy : Policy) (codec : Codec) (aggregateAu : Bool) (maxAuSize : ℕ)

/-- A parser when it is created has nothing of a stream. -/
theorem tracks_create :
    Tracks (create inputFormat nalLengthSize maxNalSize maxBufferedBytes policy
        (.create codec aggregateAu maxAuSize)) false
      (create inputFormat nalLengthSize maxNalSize maxBufferedBytes policy
        (.create codec aggregateAu maxAuSize)) where
  format := rfl
  nalLengthSize := rfl
  maxNalSize := rfl
  adapter := rfl
  position := le_rfl
  cut := .inl ⟨[], fun _ _ => rfl⟩

theorem counts_create (p : Parser) : Counts p false [] (Assembler.create codec aggregateAu maxAuSize).work where
  within := fun _ hplace => nomatch hplace
  nodup := nodup_nil
  handed := List.Subperm.refl _
  parsedNals := rfl

end Created

/-- **No NAL unit of a stream goes out twice, and no more are counted than there are**, when at
every call none that has been counted is still in the adapter.  Any call that is made on the way may
fail. -/
theorem no_nal_twice (answers : ℕ → Bool) {inputFormat : StreamFormat}
    {nalLengthSize maxNalSize maxBufferedBytes : ℕ} {policy : Policy} {codec : Codec}
    {aggregateAu : Bool} {maxAuSize : ℕ} {cs : List Call} (hformat : inputFormat ≠ .auto)
    (hstream : OneStream cs)
    (hfollows : Follows answers (fun s _ => s.Uncounted) cs
      (create inputFormat nalLengthSize maxNalSize maxBufferedBytes policy
        (.create codec aggregateAu maxAuSize))) :
    let p := create inputFormat nalLengthSize maxNalSize maxBufferedBytes policy
      (.create codec aggregateAu maxAuSize)
    (p.calls answers cs).sentPlaces.Nodup ∧
      (p.calls answers cs).assembler.parsedNals ≤
        (p.unitsOf 0 (p.calls answers cs).input true).length := by
  obtain ⟨ended, hcounts⟩ := counts_of_calls answers hformat
    (tracks_create inputFormat nalLengthSize maxNalSize maxBufferedBytes policy codec aggregateAu
      maxAuSize)
    (counts_create codec aggregateAu maxAuSize _) hstream (fun hended => nomatch hended) hfollows
  exact once_of_counts hcounts

/-- A byte stream in two buffers: a slice of H.265, and the beginning of the next. -/
def twoBuffers : List Call :=
  [.push ⟨[0, 0, 1, 2, 1, 0, 0, 1], ⟨0, 0, 0⟩, false, false⟩,
    .push ⟨[2, 1], ⟨0, 0, 0⟩, false, false⟩]

theorem no_nal_twice_small :
    let p := create .annexB 4 64 64 .error (.create .h265 false 64)
    (p.calls (fun n => n ≠ 0) twoBuffers).sentPlaces.Nodup ∧
      (p.calls (fun n => n ≠ 0) twoBuffers).assembler.parsedNals ≤
        (p.unitsOf 0 (p.calls (fun n => n ≠ 0) twoBuffers).input true).length :=
  no_nal_twice (fun n => n ≠ 0) (by decide) ⟨by decide, by decide⟩ ⟨by decide, by decide, trivial⟩

/-- The pad refuses the slice when it goes out, and gets it a second time with the next buffer. -/
theorem slice_goes_out_twice :
    ¬ ((create .annexB 4 64 64 .error (.create .h265 false 64)).calls (fun n => n ≠ 2)
      twoBuffers).sentPlaces.Nodup := by
  decide

end Parser

end Zstreamer.H26x

/-
# What handling a NAL unit comes to

Of all that `handle_nal` does, this module keeps the access unit and the buffers that go
out.  A flush sends the access unit or loses it, a NAL unit goes out or into the access
unit, and the caps and the parameter sets touch neither.  Every statement is for any
answers; where nothing is refused, the work is what `Work.handle` says.
-/

import Zstreamer.H26x.Assembler

namespace Zstreamer.H26x

open Foundation List

/-- A buffer without its flags. -/
def Out.plain (b : Out) : Out := { b with flags := ⟨false, false⟩ }

/-- The buffers among what has gone out. -/
def buffersOf (sent : List Event) : List Out :=
  sent.filterMap fun event =>
    match event with
    | .buffer b => some b.plain
    | .caps _ | .dropped _ => none

theorem buffersOf_append (sent more : List Event) :
    buffersOf (sent ++ more) = buffersOf sent ++ buffersOf more :=
  filterMap_append

/-- The access unit and the buffers, with the settings they depend on. -/
structure Work where
  codec : Codec
  aggregateAu : Bool
  maxAuSize : ℕ
  au : List Byte
  auStamp : Stamp
  auHasVcl : Bool
  auPositions : List ℕ
  parsedNals : ℕ
  counted : List ℕ
  buffers : List Out

namespace Work

/-- The access unit goes out. -/
def flush (w : Work) : Work :=
  if w.au = [] then w
  else
    { w with
      au := []
      auHasVcl := false
      auPositions := []
      buffers := w.buffers ++ [⟨w.au, w.auStamp, ⟨false, false⟩, w.auPositions⟩] }

/-- The access unit is lost. -/
def lose (w : Work) : Work := { w with au := [], auHasVcl := false, auPositions := [] }

/-- The NAL unit goes out by itself. -/
def send (w : Work) (nal : Nal) (stamp : Stamp) : Work :=
  { w with
    buffers := w.buffers ++ [⟨startCode ++ nal.bytes, stamp, ⟨false, false⟩, [nal.position]⟩] }

/-- The access unit takes its times from its first NAL unit. -/
def begin (w : Work) (stamp : Stamp) : Work := if w.au = [] then { w with auStamp := stamp } else w

/-- The NAL unit goes into the access unit. -/
def put (w : Work) (nal : Nal) (vcl : Bool) : Work :=
  { w with
    au := w.au ++ (startCode ++ nal.bytes)
    auHasVcl := w.auHasVcl || vcl
    auPositions := w.auPositions ++ [nal.position] }

/-- The access unit is flushed in front of a NAL unit that ends it. -/
def close (w : Work) (kind : Kind) : Work :=
  if w.aggregateAu ∧ w.auHasVcl ∧ endsAu w.codec kind.type then w.flush else w

/-- The NAL unit is counted. -/
def count (w : Work) (nal : Nal) : Work :=
  { w with parsedNals := w.parsedNals + 1, counted := w.counted ++ [nal.position] }

/-- The access unit is flushed in front of the first slice of a picture. -/
def next (w : Work) (kind : Kind) : Work :=
  if kind.vcl ∧ kind.first ∧ w.auHasVcl then w.flush else w

/-- The NAL unit goes out or into the access unit. -/
def deliver (w : Work) (nal : Nal) (stamp : Stamp) (kind : Kind) : Work :=
  if w.aggregateAu then (w.begin stamp).put nal kind.vcl else w.send nal stamp

/-- The access unit is flushed in front of the NAL unit, when it is due, and the NAL unit
counted. -/
def ready (w : Work) (nal : Nal) : Work :=
  let kind := kindOf w.codec nal.bytes
  ((w.close kind).count nal).next kind

/-- A NAL unit that is handled. -/
def handle (w : Work) (nal : Nal) (stamp : Stamp) : Work :=
  (w.ready nal).deliver nal stamp (kindOf w.codec nal.bytes)

/-- What may be left of the work when a call for the NAL unit fails: the access unit has been
flushed or lost or neither, before or after the NAL unit was counted. -/
def leftovers (w : Work) (nal : Nal) (stamp : Stamp) : List Work :=
  let kind := kindOf w.codec nal.bytes
  let counted := (w.close kind).count nal
  [w, w.close kind, w.lose, counted, w.ready nal, counted.lose, (w.ready nal).begin stamp]

/-- There is room for the NAL unit in the access unit. -/
def Room (w : Work) (nal : Nal) : Prop :=
  w.aggregateAu = true → (w.ready nal).au.length + (nal.bytes.length + 4) ≤ w.maxAuSize

/-- `reserve` has found room for the NAL unit. -/
def Reserved (w : Work) (nal : Nal) : Prop :=
  w.aggregateAu = true → hasRoom w.au.length (nal.bytes.length + 4) w.maxAuSize = true

/-! ### The settings -/

/-- The settings of the parser that the work depends on. -/
def settings (w : Work) : Codec × Bool × ℕ := (w.codec, w.aggregateAu, w.maxAuSize)

@[simp]
theorem flush_settings (w : Work) : w.flush.settings = w.settings := by
  rw [flush]
  split <;> rfl

@[simp]
theorem begin_settings (w : Work) (stamp : Stamp) : (w.begin stamp).settings = w.settings := by
  rw [begin]
  split <;> rfl

@[simp]
theorem close_settings (w : Work) (kind : Kind) : (w.close kind).settings = w.settings := by
  rw [close]
  split
  · exact flush_settings w
  · rfl

@[simp]
theorem next_settings (w : Work) (kind : Kind) : (w.next kind).settings = w.settings := by
  rw [next]
  split
  · exact flush_settings w
  · rfl

@[simp]
theorem deliver_settings (w : Work) (nal : Nal) (stamp : Stamp) (kind : Kind) :
    (w.deliver nal stamp kind).settings = w.settings := by
  rw [deliver]
  split
  · exact begin_settings w stamp
  · rfl

@[simp]
theorem handle_settings (w : Work) (nal : Nal) (stamp : Stamp) :
    (w.handle nal stamp).settings = w.settings := by
  let kind := kindOf w.codec nal.bytes
  calc (w.handle nal stamp).settings
      = (((w.close kind).count nal).next kind).settings := deliver_settings _ nal stamp kind
    _ = (w.close kind).settings := next_settings _ kind
    _ = w.settings := close_settings w kind

theorem codec_of_settings {w w' : Work} (h : w'.settings = w.settings) : w'.codec = w.codec :=
  congrArg Prod.fst h

theorem aggregateAu_of_settings {w w' : Work} (h : w'.settings = w.settings) :
    w'.aggregateAu = w.aggregateAu :=
  congrArg (fun settings => settings.2.1) h

theorem maxAuSize_of_settings {w w' : Work} (h : w'.settings = w.settings) :
    w'.maxAuSize = w.maxAuSize :=
  congrArg (fun settings => settings.2.2) h

end Work

namespace Assembler

/-- The part that this module is about. -/
def work (s : Assembler) : Work where
  codec := s.codec
  aggregateAu := s.aggregateAu
  maxAuSize := s.maxAuSize
  au := s.au
  auStamp := s.auStamp
  auHasVcl := s.auHasVcl
  auPositions := s.auPositions
  parsedNals := s.parsedNals
  counted := s.counted
  buffers := buffersOf s.sent

section Steps

variable {answers : ℕ → Bool} {s : Assembler}

theorem andThen_true {result : Assembler × Bool} (next : Assembler → Assembler × Bool)
    (htrue : result.2 = true) : andThen result next = next result.1 :=
  if_pos htrue

theorem andThen_false {result : Assembler × Bool} (next : Assembler → Assembler × Bool)
    (hfalse : result.2 = false) : andThen result next = result :=
  if_neg (by rw [hfalse]; exact Bool.false_ne_true)

@[simp]
theorem ask_work (answers : ℕ → Bool) (s : Assembler) : (s.ask answers).1.work = s.work := rfl

/-- The caps are not part of the work. -/
theorem pushCaps_work (answers : ℕ → Bool) (s : Assembler) :
    (s.pushCaps answers).1.work = s.work := by
  rw [pushCaps]
  split
  · rfl
  · split
    · rfl
    · rw [andThen]
      split
      · dsimp only
        rw [andThen]
        split
        · rw [work, buffersOf_append]
          exact congrArg (fun buffers => { s.work with buffers := buffers })
            (append_nil (buffersOf s.sent))
        · rfl
      · rfl

theorem sendBuffer_work (answers : ℕ → Bool) (s : Assembler) (b : Out) :
    (s.sendBuffer answers b).1.work =
      { s.work with buffers := s.work.buffers ++ [b.plain] } := by
  rw [sendBuffer, ask_work, work, buffersOf_append]
  rfl

/-- **A flush sends the access unit**, or does nothing and fails, or loses it and fails. -/
theorem flushAu_work (answers : ℕ → Bool) (s : Assembler) :
    (s.flushAu answers).1.work = s.work.flush ∨
      (s.flushAu answers).2 = false ∧
        ((s.flushAu answers).1.work = s.work ∨ (s.flushAu answers).1.work = s.work.lose) := by
  have hwork := pushCaps_work answers s
  rw [flushAu]
  split
  · rename_i hempty
    exact .inl (if_pos hempty).symm
  · rename_i hsome
    cases hcaps : (s.pushCaps answers).2 with
    | false => exact .inr (by rw [andThen_false _ hcaps]; exact ⟨hcaps, .inl hwork⟩)
    | true =>
        rw [andThen_true _ hcaps]
        generalize (s.pushCaps answers).1 = s' at hwork
        have hau : s'.au = s.au := congrArg Work.au hwork
        have hflush : s.work.flush = s'.work.flush := by rw [hwork]
        have hlose : s.work.lose = s'.work.lose := by rw [hwork]
        rw [hflush, hlose]
        dsimp only
        rw [andThen]
        split
        · left
          rw [sendBuffer_work, Work.flush, if_neg (by rw [work, hau]; exact hsome)]
          rfl
        · rename_i hrefused
          exact .inr ⟨Bool.eq_false_iff.mpr hrefused, .inr rfl⟩

theorem emit_work (answers : ℕ → Bool) (s : Assembler) (nal : Nal) (stamp : Stamp)
    (flags : Flags) :
    (s.emit answers nal stamp flags).1.work = s.work.send nal stamp ∨
      (s.emit answers nal stamp flags).2 = false ∧
        (s.emit answers nal stamp flags).1.work = s.work := by
  have hwork := pushCaps_work answers s
  rw [emit]
  cases hcaps : (s.pushCaps answers).2 with
  | false => exact .inr (by rw [andThen_false _ hcaps]; exact ⟨hcaps, hwork⟩)
  | true =>
      rw [andThen_true _ hcaps, ← hwork, andThen]
      split
      · exact .inl (sendBuffer_work answers _ _)
      · rename_i hrefused
        exact .inr ⟨Bool.eq_false_iff.mpr hrefused, rfl⟩

theorem cacheH264Sps_work (answers : ℕ → Bool) (s : Assembler) (nal : List Byte) :
    (s.cacheH264Sps answers nal).1.work = s.work := by
  rw [cacheH264Sps]
  split
  · rfl
  · dsimp only
    split
    · rfl
    · split
      · rfl
      · rw [andThen]
        split <;> rfl

theorem cacheH264Pps_work (answers : ℕ → Bool) (s : Assembler) (nal : List Byte) :
    (s.cacheH264Pps answers nal).1.work = s.work := by
  rw [cacheH264Pps]
  split
  · rfl
  · dsimp only
    split
    · rfl
    · rw [andThen]
      split <;> rfl

theorem cacheH265_work (answers : ℕ → Bool) (s : Assembler) (nal : List Byte) (ps : ℕ)
    (type : Byte) : (s.cacheH265 answers nal ps type).1.work = s.work := by
  rw [cacheH265, andThen]
  split
  · dsimp only
    split
    · split <;> rfl
    · split <;> rfl
  · rfl

/-- The parameter sets are not part of the work. -/
theorem cache_work (answers : ℕ → Bool) (s : Assembler) (nal : List Byte) (kind : Kind) :
    (s.cache answers nal kind).1.work = s.work := by
  rw [cache]
  split
  · rfl
  · split
    · split
      · exact cacheH264Sps_work answers s nal
      · exact cacheH264Pps_work answers s nal
    · exact cacheH265_work answers s nal _ _

theorem activateH264Config_work (s : Assembler) (ppsId : BitVec 32) :
    (s.activateH264Config ppsId).work = s.work := by
  rw [activateH264Config]
  split
  · rfl
  · split <;> rfl

/-! ## A NAL unit -/

/-- A step of a call: it stops there when it fails, and goes on when it does not. -/
theorem andThen_cases {P : Assembler × Bool → Prop} {result : Assembler × Bool}
    {next : Assembler → Assembler × Bool} (hstop : result.2 = false → P result)
    (hgo : result.2 = true → P (next result.1)) : P (andThen result next) := by
  cases hresult : result.2 with
  | false =>
      rw [andThen_false next hresult]
      exact hstop hresult
  | true =>
      rw [andThen_true next hresult]
      exact hgo hresult

/-- **The NAL unit goes out or into the access unit**, or the call fails: then it has not gone out,
and nothing but the times of the access unit has changed. -/
theorem deliver_work (answers : ℕ → Bool) (s : Assembler) (nal : Nal) (stamp : Stamp)
    (flags : Flags) (kind : Kind) :
    (s.deliver answers nal stamp flags kind.vcl).1.work = s.work.deliver nal stamp kind ∧
        s.work.Reserved nal ∨
      (s.deliver answers nal stamp flags kind.vcl).2 = false ∧
        ((s.deliver answers nal stamp flags kind.vcl).1.work = s.work ∨
          (s.deliver answers nal stamp flags kind.vcl).1.work = s.work.begin stamp) := by
  rw [deliver, Work.deliver]
  by_cases hau : s.aggregateAu = true
  · have hbegin : (if s.au = [] then { s with auStamp := stamp } else s).work =
        s.work.begin stamp := by
      rw [Work.begin, apply_ite work]
      rfl
    have hsame : (if s.au = [] then { s with auStamp := stamp } else s).au = s.work.au ∧
        (if s.au = [] then { s with auStamp := stamp } else s).maxAuSize = s.work.maxAuSize := by
      split <;> exact ⟨rfl, rfl⟩
    have hwork : s.work.aggregateAu = true := hau
    rw [if_neg (not_not.mpr hau), if_pos hwork]
    dsimp only
    generalize (if s.au = [] then { s with auStamp := stamp } else s) = s' at hbegin hsame ⊢
    rw [hsame.1, hsame.2]
    split
    · exact .inr ⟨rfl, .inr hbegin⟩
    · rename_i hroom
      rw [← hbegin, andThen]
      split
      · exact .inl ⟨rfl, fun _ => not_not.mp hroom⟩
      · rename_i hrefused
        exact .inr ⟨Bool.eq_false_iff.mpr hrefused, .inr rfl⟩
  · have hwork : ¬ s.work.aggregateAu = true := hau
    rw [if_pos hau, if_neg hwork]
    rcases emit_work answers s nal stamp flags with hsend | ⟨hfail, hnone⟩
    · exact .inl ⟨hsend, fun hau => absurd hau hwork⟩
    · exact .inr ⟨hfail, .inl hnone⟩

/-- The flush in front of a NAL unit, when it is due: it sends the access unit, or fails. -/
theorem flushIf_work (answers : ℕ → Bool) (s : Assembler) (p : Prop) [Decidable p] :
    (if p then s.flushAu answers else (s, true)).1.work = (if p then s.work.flush else s.work) ∨
      (if p then s.flushAu answers else (s, true)).2 = false ∧
        ((if p then s.flushAu answers else (s, true)).1.work = s.work ∨
          (if p then s.flushAu answers else (s, true)).1.work = s.work.lose) := by
  split
  · exact flushAu_work answers s
  · exact .inl rfl

/-- The active configuration is not part of the work. -/
theorem activated_work (s : Assembler) (kind : Kind) :
    (match kind.slice with
      | some ppsId => if s.codec = Codec.h264 ∧ kind.first then s.activateH264Config ppsId else s
      | none => s).work = s.work := by
  split
  · split
    · exact activateH264Config_work s _
    · rfl
  · rfl

end Steps

end Assembler

/-! ## A NAL unit, whatever fails -/

namespace Work

/-- The NAL units that have gone out or are in the access unit. -/
def handed (w : Work) : List ℕ := w.buffers.flatMap Out.positions ++ w.auPositions

/-- From one state of the work to another, these are counted, and at most these are new among what
is handed on. -/
structure Moves (w w' : Work) (counts hands : List ℕ) : Prop where
  counted : w'.counted = w.counted ++ counts
  parsedNals : w'.parsedNals = w.parsedNals + counts.length
  handed : (w'.handed).Subperm (w.handed ++ hands)

namespace Moves

variable {w w' w'' : Work} {counts counts' hands hands' : List ℕ}

theorem refl (w : Work) : w.Moves w [] [] where
  counted := (append_nil _).symm
  parsedNals := rfl
  handed := by rw [append_nil]

theorem trans (h : w.Moves w' counts hands) (h' : w'.Moves w'' counts' hands') :
    w.Moves w'' (counts ++ counts') (hands ++ hands') where
  counted := by rw [h'.counted, h.counted, append_assoc]
  parsedNals := by rw [h'.parsedNals, h.parsedNals, length_append, Nat.add_assoc]
  handed := by
    have hmore : (w'.handed ++ hands').Subperm (w.handed ++ hands ++ hands') :=
      List.Subperm.append h.handed (List.Subperm.refl hands')
    rw [append_assoc] at hmore
    exact h'.handed.trans hmore

theorem flush (w : Work) : w.Moves w.flush [] [] := by
  rw [Work.flush]
  split
  · exact refl w
  · refine ⟨(append_nil _).symm, rfl, ?_⟩
    have hhanded (out : Out) (hout : out.positions = w.auPositions) :
        (w.buffers ++ [out]).flatMap Out.positions ++ [] = w.handed := by
      rw [append_nil, flatMap_append, flatMap_singleton, hout]
      rfl
    rw [append_nil]
    exact (List.Perm.of_eq (hhanded _ rfl)).subperm

theorem lose (w : Work) : w.Moves w.lose [] [] where
  counted := (append_nil _).symm
  parsedNals := rfl
  handed := by
    rw [append_nil]
    exact ((nil_sublist w.auPositions).append_left _).subperm

theorem begin (w : Work) (stamp : Stamp) : w.Moves (w.begin stamp) [] [] := by
  rw [Work.begin]
  split
  · exact ⟨(append_nil _).symm, rfl, by rw [append_nil]; exact List.Subperm.refl _⟩
  · exact refl w

theorem count (w : Work) (nal : Nal) : w.Moves (w.count nal) [nal.position] [] where
  counted := rfl
  parsedNals := rfl
  handed := by
    rw [append_nil]
    exact List.Subperm.refl _

theorem send (w : Work) (nal : Nal) (stamp : Stamp) :
    w.Moves (w.send nal stamp) [] [nal.position] where
  counted := (append_nil _).symm
  parsedNals := rfl
  handed := by
    have hhanded : (w.send nal stamp).handed =
        w.buffers.flatMap Out.positions ++ ([nal.position] ++ w.auPositions) := by
      rw [← append_assoc]
      exact congrArg (· ++ w.auPositions) (flatMap_append ..)
    rw [hhanded, Work.handed, append_assoc]
    exact (perm_append_comm.append_left _).subperm

theorem put (w : Work) (nal : Nal) (vcl : Bool) :
    w.Moves (w.put nal vcl) [] [nal.position] where
  counted := (append_nil _).symm
  parsedNals := rfl
  handed := (List.Perm.of_eq (append_assoc ..).symm).subperm

theorem close (w : Work) (kind : Kind) : w.Moves (w.close kind) [] [] := by
  rw [Work.close]
  split
  · exact flush w
  · exact refl w

theorem next (w : Work) (kind : Kind) : w.Moves (w.next kind) [] [] := by
  rw [Work.next]
  split
  · exact flush w
  · exact refl w

theorem deliver (w : Work) (nal : Nal) (stamp : Stamp) (kind : Kind) :
    w.Moves (w.deliver nal stamp kind) [] [nal.position] := by
  rw [Work.deliver]
  split
  · exact (begin w stamp).trans (put _ nal kind.vcl)
  · exact send w nal stamp

/-- **A NAL unit that is handled** is counted once and handed on once. -/
theorem handle (w : Work) (nal : Nal) (stamp : Stamp) :
    w.Moves (w.handle nal stamp) [nal.position] [nal.position] :=
  (((close w _).trans (count _ nal)).trans (next _ _)).trans (deliver _ nal stamp _)

/-- **A NAL unit of a call that fails** has not been handed on; it may have been counted. -/
theorem of_mem_leftovers {nal : Nal} {stamp : Stamp} (h : w' ∈ w.leftovers nal stamp) :
    ∃ counts, counts.Sublist [nal.position] ∧ w.Moves w' counts [] := by
  let kind := kindOf w.codec nal.bytes
  have hcount := (close w kind).trans (count _ nal)
  simp only [leftovers, mem_cons, not_mem_nil, or_false] at h
  rcases h with rfl | rfl | rfl | rfl | rfl | rfl | rfl
  · exact ⟨[], nil_sublist _, refl w'⟩
  · exact ⟨[], nil_sublist _, close w _⟩
  · exact ⟨[], nil_sublist _, lose w⟩
  · exact ⟨_, List.Sublist.refl _, hcount⟩
  · exact ⟨_, List.Sublist.refl _, hcount.trans (next _ _)⟩
  · exact ⟨_, List.Sublist.refl _, hcount.trans (lose _)⟩
  · exact ⟨_, List.Sublist.refl _, (hcount.trans (next _ _)).trans (begin _ stamp)⟩

end Moves

end Work

namespace Assembler

/-- **A NAL unit is handled**, and there was room for it, or the call has failed. -/
def Handles (w : Work) (nal : Nal) (stamp : Stamp) (result : Assembler × Bool) : Prop :=
  result.1.work = w.handle nal stamp ∧ (w.ready nal).Reserved nal ∨
    result.2 = false ∧ result.1.work ∈ w.leftovers nal stamp

theorem Handles.stop {w w' : Work} {nal : Nal} {stamp : Stamp} {result : Assembler × Bool}
    (hstop : result.2 = false) (hwork : result.1.work = w') (hmem : w' ∈ w.leftovers nal stamp) :
    Handles w nal stamp result :=
  .inr ⟨hstop, hwork ▸ hmem⟩

theorem count_handles (answers : ℕ → Bool) {s : Assembler} {w : Work} {nal : Nal} (stamp : Stamp)
    (eos : Bool) (hwork : s.work = w.close (kindOf w.codec nal.bytes)) :
    Handles w nal stamp (s.count answers nal stamp eos (kindOf w.codec nal.bytes)) := by
  let kind := kindOf w.codec nal.bytes
  rw [count]
  dsimp only
  have hflush := flushIf_work answers
    { s with parsedNals := s.parsedNals + 1, counted := s.counted ++ [nal.position] }
    (kind.vcl ∧ kind.first ∧ s.auHasVcl)
  have hcounted : ({ s with parsedNals := s.parsedNals + 1, counted := s.counted ++ [nal.position] } :
      Assembler).work = (w.close kind).count nal := hwork ▸ rfl
  have hnext : (if kind.vcl = true ∧ kind.first = true ∧ s.auHasVcl = true then
      ((w.close kind).count nal).flush else (w.close kind).count nal) =
        ((w.close kind).count nal).next kind := by
    rw [Work.next, ← hcounted]
    rfl
  rw [hcounted, hnext] at hflush
  generalize (if kind.vcl = true ∧ kind.first = true ∧ s.auHasVcl = true then
    flushAu answers
      { s with parsedNals := s.parsedNals + 1, counted := s.counted ++ [nal.position] }
    else _) = flushed at hflush ⊢
  have hleft (w' : Work) (hmem : w' ∈ [((w.close kind).count nal), ((w.close kind).count nal).next kind,
      ((w.close kind).count nal).lose, (((w.close kind).count nal).next kind).begin stamp]) :
      w' ∈ w.leftovers nal stamp :=
    mem_cons_of_mem _ (mem_cons_of_mem _ (mem_cons_of_mem _ hmem))
  refine andThen_cases (fun hstop => ?_) (fun hgo => ?_)
  · rcases hflush with hnext | ⟨-, hsame | hlose⟩
    · exact .stop hstop hnext (hleft _ (by simp only [mem_cons, true_or, or_true]))
    · exact .stop hstop hsame (hleft _ (by simp only [mem_cons, true_or]))
    · exact .stop hstop hlose (hleft _ (by simp only [mem_cons, true_or, or_true]))
  · have hnext : flushed.1.work = ((w.close kind).count nal).next kind := by
      rcases hflush with hnext | ⟨hfail, -⟩
      · exact hnext
      · rw [hfail] at hgo
        cases hgo
    have hactive := (activated_work flushed.1 kind).trans hnext
    rcases deliver_work answers _ nal stamp ⟨eos, kind.key⟩ kind with hdone | ⟨hfail, hsame | hbegin⟩
    · rw [hactive] at hdone
      exact .inl hdone
    · rw [hactive] at hsame
      exact .stop hfail hsame (hleft _ (by simp only [mem_cons, true_or, or_true]))
    · rw [hactive] at hbegin
      exact .stop hfail hbegin (hleft _ (by simp only [mem_cons, true_or, or_true]))

theorem handleNal_handles (answers : ℕ → Bool) (s : Assembler) {nal : Nal} (stamp : Stamp)
    (eos : Bool) (hnal : nal.bytes ≠ []) :
    Handles s.work nal stamp (s.handleNal answers nal stamp eos) := by
  let kind := kindOf s.codec nal.bytes
  rw [handleNal, if_neg hnal]
  dsimp only
  have hflush := flushIf_work answers s (s.aggregateAu ∧ s.auHasVcl ∧ endsAu s.codec kind.type)
  have hclose : (if s.aggregateAu = true ∧ s.auHasVcl = true ∧ endsAu s.codec kind.type = true then
      s.work.flush else s.work) = s.work.close kind := rfl
  rw [hclose] at hflush
  generalize (if s.aggregateAu = true ∧ s.auHasVcl = true ∧ endsAu s.codec kind.type = true then
    s.flushAu answers else _) = flushed at hflush ⊢
  have hclosed : s.work.close kind ∈ s.work.leftovers nal stamp :=
    mem_cons_of_mem _ mem_cons_self
  refine andThen_cases (fun hstop => ?_) (fun hgo => ?_)
  · rcases hflush with hclose | ⟨-, hsame | hlose⟩
    · exact .stop hstop hclose hclosed
    · exact .stop hstop hsame mem_cons_self
    · exact .stop hstop hlose (mem_cons_of_mem _ (mem_cons_of_mem _ mem_cons_self))
  · have hclose : flushed.1.work = s.work.close kind := by
      rcases hflush with hclose | ⟨hfail, -⟩
      · exact hclose
      · rw [hfail] at hgo
        cases hgo
    have hcache := (cache_work answers flushed.1 nal.bytes kind).trans hclose
    exact andThen_cases (fun hstop => .stop hstop hcache hclosed)
      (fun _ => count_handles answers stamp eos hcache)

/-! ## A NAL unit, when nothing fails -/

/-- Room for a NAL unit is what `reserve` asks for. -/
theorem hasRoom_of_le {size add limit : ℕ} (h : size + add ≤ limit) :
    hasRoom size add limit = true := by
  rw [hasRoom, decide_eq_true_iff, if_pos ((Nat.le_add_right _ _).trans h)]
  exact Nat.le_sub_of_add_le' h

section Answered

variable {answers : ℕ → Bool}

theorem andThen_ok {result : Assembler × Bool} {next : Assembler → Assembler × Bool}
    (hresult : result.2 = true) (hnext : (next result.1).2 = true) :
    (andThen result next).2 = true := by
  rw [andThen_true next hresult]
  exact hnext

variable (hanswers : ∀ n, answers n = true)

include hanswers

theorem ask_ok (s : Assembler) : (s.ask answers).2 = true := hanswers s.calls

theorem pushCaps_ok (s : Assembler) : (s.pushCaps answers).2 = true := by
  rw [pushCaps]
  split
  · rfl
  · split
    · rfl
    · exact andThen_ok (ask_ok hanswers s) (andThen_ok (ask_ok hanswers _) rfl)

theorem flushAu_ok (s : Assembler) : (s.flushAu answers).2 = true := by
  rw [flushAu]
  split
  · rfl
  · exact andThen_ok (pushCaps_ok hanswers s) (andThen_ok (ask_ok hanswers _) (ask_ok hanswers _))

theorem emit_ok (s : Assembler) (nal : Nal) (stamp : Stamp) (flags : Flags) :
    (s.emit answers nal stamp flags).2 = true :=
  andThen_ok (pushCaps_ok hanswers s) (andThen_ok (ask_ok hanswers _) (ask_ok hanswers _))

theorem cacheH264Sps_ok (s : Assembler) (nal : List Byte) :
    (s.cacheH264Sps answers nal).2 = true := by
  rw [cacheH264Sps]
  split
  · rfl
  · dsimp only
    split
    · rfl
    · split
      · rfl
      · exact andThen_ok (ask_ok hanswers s) rfl

theorem cacheH264Pps_ok (s : Assembler) (nal : List Byte) :
    (s.cacheH264Pps answers nal).2 = true := by
  rw [cacheH264Pps]
  split
  · rfl
  · dsimp only
    split
    · rfl
    · exact andThen_ok (ask_ok hanswers s) rfl

theorem cacheH265_ok (s : Assembler) (nal : List Byte) (ps : ℕ) (type : Byte) :
    (s.cacheH265 answers nal ps type).2 = true := by
  refine andThen_ok (ask_ok hanswers s) ?_
  dsimp only
  split
  · split <;> rfl
  · split <;> rfl

theorem cache_ok (s : Assembler) (nal : List Byte) (kind : Kind) :
    (s.cache answers nal kind).2 = true := by
  rw [cache]
  split
  · rfl
  · split
    · split
      · exact cacheH264Sps_ok hanswers s nal
      · exact cacheH264Pps_ok hanswers s nal
    · exact cacheH265_ok hanswers s nal _ _

theorem deliver_ok (s : Assembler) (nal : Nal) (stamp : Stamp) (flags : Flags) (vcl : Bool)
    (hroom : s.aggregateAu = true → s.au.length + (nal.bytes.length + 4) ≤ s.maxAuSize) :
    (s.deliver answers nal stamp flags vcl).2 = true := by
  rw [deliver]
  by_cases hau : s.aggregateAu = true
  · rw [if_neg (not_not.mpr hau)]
    have hkept : (if s.au = [] then { s with auStamp := stamp } else s).au = s.au ∧
        (if s.au = [] then { s with auStamp := stamp } else s).maxAuSize = s.maxAuSize := by
      split <;> exact ⟨rfl, rfl⟩
    dsimp only
    rw [hkept.1, hkept.2, hasRoom_of_le (hroom hau), if_neg (not_not.mpr rfl)]
    exact andThen_ok (ask_ok hanswers _) rfl
  · rw [if_pos hau]
    exact emit_ok hanswers s nal stamp flags

theorem flushIf_ok (s : Assembler) (p : Prop) [Decidable p] :
    (if p then s.flushAu answers else (s, true)).2 = true := by
  split
  · exact flushAu_ok hanswers s
  · rfl

theorem flushIf_ok_work (s : Assembler) (p : Prop) [Decidable p] :
    (if p then s.flushAu answers else (s, true)).1.work = if p then s.work.flush else s.work := by
  rcases flushIf_work answers s p with hflush | ⟨hfail, -⟩
  · exact hflush
  · rw [flushIf_ok hanswers] at hfail
    cases hfail

theorem count_ok (s : Assembler) (nal : Nal) (stamp : Stamp) (eos : Bool) (kind : Kind)
    (hroom : s.work.aggregateAu = true →
      ((s.work.count nal).next kind).au.length + (nal.bytes.length + 4) ≤ s.work.maxAuSize) :
    (s.count answers nal stamp eos kind).2 = true := by
  rw [count]
  refine andThen_ok (flushIf_ok hanswers _ _) ?_
  dsimp only
  have hwork := (activated_work _ kind).trans (flushIf_ok_work hanswers
    { s with parsedNals := s.parsedNals + 1, counted := s.counted ++ [nal.position] }
    (kind.vcl ∧ kind.first ∧ s.auHasVcl))
  have hnext : (if kind.vcl = true ∧ kind.first = true ∧ s.auHasVcl = true then
      (s.work.count nal).flush else s.work.count nal) = (s.work.count nal).next kind := rfl
  replace hwork := hwork.trans hnext
  have hsettings : ((s.work.count nal).next kind).settings = s.work.settings :=
    Work.next_settings _ kind
  rw [← hwork] at hroom hsettings
  refine deliver_ok hanswers _ nal stamp _ _ fun hau => ?_
  calc _ ≤ s.work.maxAuSize := hroom ((Work.aggregateAu_of_settings hsettings).symm.trans hau)
    _ = _ := (Work.maxAuSize_of_settings hsettings).symm

/-- **A NAL unit is handled** when every call is answered and there is room. -/
theorem handleNal_ok (s : Assembler) (nal : Nal) (stamp : Stamp) (eos : Bool)
    (hroom : nal.bytes ≠ [] → s.work.Room nal) :
    (s.handleNal answers nal stamp eos).2 = true := by
  rw [handleNal]
  split
  · rfl
  · rename_i hnal
    refine andThen_ok (flushIf_ok hanswers _ _) (andThen_ok (cache_ok hanswers _ _ _) ?_)
    have hwork := (cache_work answers _ nal.bytes (kindOf s.codec nal.bytes)).trans
      (flushIf_ok_work hanswers s
        (s.aggregateAu ∧ s.auHasVcl ∧ endsAu s.codec (kindOf s.codec nal.bytes).type))
    have hclose : (if s.aggregateAu = true ∧ s.auHasVcl = true ∧
        endsAu s.codec (kindOf s.codec nal.bytes).type = true then s.work.flush else s.work) =
          s.work.close (kindOf s.work.codec nal.bytes) := rfl
    replace hwork := hwork.trans hclose
    have hsettings := Work.close_settings s.work (kindOf s.work.codec nal.bytes)
    refine count_ok hanswers _ nal stamp eos _ fun hau => ?_
    rw [hwork] at hau ⊢
    rw [Work.maxAuSize_of_settings hsettings]
    exact hroom hnal ((Work.aggregateAu_of_settings hsettings).symm.trans hau)

end Answered

end Assembler

end Zstreamer.H26x

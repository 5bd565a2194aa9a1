/-
# The times of what goes out

The parser keeps the times of the first buffer that comes, and forgets them only when the
adapter is cleared.  Everything that goes out has these times.  They are the right ones as
long as each NAL unit that opens a buffer begins in a buffer with the same times.
-/

import Zstreamer.H26x.Calls

namespace Zstreamer.H26x

open Foundation

/-- The times of the buffer that a byte of the stream came in. -/
def stampAt : List Input → ℕ → Option Stamp
  | [], _ => none
  | buf :: bufs, place =>
      if place < buf.data.length then some buf.stamp else stampAt bufs (place - buf.data.length)

/-- These are the times of the buffer that the byte came in. -/
def RightTime (taken : List Input) (place : ℕ) (stamp : Stamp) : Prop :=
  ∃ origin, stampAt taken place = some origin ∧ origin.pts = stamp.pts ∧ origin.dts = stamp.dts

instance (taken : List Input) (place : ℕ) (stamp : Stamp) : Decidable (RightTime taken place stamp) :=
  match h : stampAt taken place with
  | none => isFalse fun ⟨_, horigin, _⟩ => nomatch h.symm.trans horigin
  | some origin =>
      decidable_of_iff (origin.pts = stamp.pts ∧ origin.dts = stamp.dts)
        ⟨fun hequal => ⟨origin, h, hequal⟩, fun ⟨_, horigin, hequal⟩ =>
          Option.some.inj (h.symm.trans horigin) ▸ hequal⟩

theorem stampAt_append {taken : List Input} {place : ℕ} {stamp : Stamp}
    (h : stampAt taken place = some stamp) (more : List Input) :
    stampAt (taken ++ more) place = some stamp := by
  induction taken generalizing place with
  | nil => cases h
  | cons buf bufs ih =>
      rw [stampAt] at h
      rw [List.cons_append, stampAt]
      split at h
      · rename_i hhere
        rw [if_pos hhere]
        exact h
      · rename_i hlater
        rw [if_neg hlater]
        exact ih h

/-- More buffers change no times. -/
theorem RightTime.append {taken : List Input} {place : ℕ} {stamp : Stamp}
    (h : RightTime taken place stamp) (more : List Input) :
    RightTime (taken ++ more) place stamp :=
  h.imp fun _ horigin => ⟨stampAt_append horigin.1 more, horigin.2⟩

namespace Work

/-- The NAL unit will be the first in its buffer. -/
def Opens (w : Work) (nal : Nal) : Prop := w.aggregateAu = true → (w.ready nal).au = []

/-- Each of the NAL units that opens a buffer has a right place, as long as there is room. -/
def Opening (right : ℕ → Prop) (stamp : Stamp) : Work → List Nal → Prop
  | _, [] => True
  | w, nal :: nals =>
      (w.ready nal).Reserved nal →
        (w.Opens nal → right nal.position) ∧ Opening right stamp (w.handle nal stamp) nals

instance (w : Work) (nal : Nal) : Decidable (w.Opens nal) := inferInstanceAs (Decidable (_ → _))

instance (w : Work) (nal : Nal) : Decidable (w.Reserved nal) := inferInstanceAs (Decidable (_ → _))

instance Opening.decidable (right : ℕ → Prop) [DecidablePred right] (stamp : Stamp) :
    ∀ (w : Work) (nals : List Nal), Decidable (Opening right stamp w nals)
  | _, [] => inferInstanceAs (Decidable True)
  | w, nal :: nals =>
      have := Opening.decidable right stamp (w.handle nal stamp) nals
      inferInstanceAs (Decidable (_ → _ ∧ _))

/-- What goes out has the times of its first NAL unit. -/
structure Dated (right : ℕ → Stamp → Prop) (w : Work) : Prop where
  buffers : ∀ b ∈ w.buffers, ∃ place, b.positions.head? = some place ∧ right place b.stamp
  au : w.au ≠ [] → ∃ place, w.auPositions.head? = some place ∧ right place w.auStamp
  empty : w.au = [] → w.auPositions = []

namespace Dated

variable {right : ℕ → Stamp → Prop} {w w' : Work} {nal : Nal} {stamp : Stamp}

theorem flush (h : w.Dated right) : w.flush.Dated right := by
  rw [Work.flush]
  split
  · exact h
  · rename_i hau
    refine ⟨fun b hb => ?_, fun hne => absurd rfl hne, fun _ => rfl⟩
    rcases List.mem_append.mp hb with hold | hnew
    · exact h.buffers b hold
    · obtain rfl := List.mem_singleton.mp hnew
      exact h.au hau

theorem lose (h : w.Dated right) : w.lose.Dated right :=
  ⟨h.buffers, fun hne => absurd rfl hne, fun _ => rfl⟩

theorem begin (h : w.Dated right) (stamp : Stamp) : (w.begin stamp).Dated right := by
  rw [Work.begin]
  split
  · rename_i hau
    exact ⟨h.buffers, fun hne => absurd hau hne, h.empty⟩
  · exact h

theorem close (h : w.Dated right) (kind : Kind) : (w.close kind).Dated right := by
  rw [Work.close]
  split
  · exact h.flush
  · exact h

theorem count (h : w.Dated right) (nal : Nal) : (w.count nal).Dated right :=
  ⟨h.buffers, h.au, h.empty⟩

theorem next (h : w.Dated right) (kind : Kind) : (w.next kind).Dated right := by
  rw [Work.next]
  split
  · exact h.flush
  · exact h

theorem ready (h : w.Dated right) (nal : Nal) : (w.ready nal).Dated right :=
  ((h.close _).count nal).next _

theorem put (h : w.Dated right) (vcl : Bool) (hright : w.au = [] → right nal.position stamp) :
    ((w.begin stamp).put nal vcl).Dated right := by
  have hbegin := h.begin stamp
  refine ⟨hbegin.buffers, fun _ => ?_, fun hau => ?_⟩
  · by_cases hau : w.au = []
    · have hpositions : (w.begin stamp).auPositions = [] := by
        rw [Work.begin, if_pos hau]
        exact h.empty hau
      have hstamp : (w.begin stamp).auStamp = stamp := by
        rw [Work.begin, if_pos hau]
      refine ⟨nal.position, ?_, ?_⟩
      · change ((w.begin stamp).auPositions ++ [nal.position]).head? = _
        rw [hpositions]
        rfl
      · change right nal.position (w.begin stamp).auStamp
        rw [hstamp]
        exact hright hau
    · have hsame : w.begin stamp = w := by
        rw [Work.begin, if_neg hau]
      obtain ⟨place, hplace, hstamp⟩ := h.au hau
      rw [hsame]
      refine ⟨place, ?_, hstamp⟩
      change (w.auPositions ++ [nal.position]).head? = _
      rw [List.head?_append, hplace]
      rfl
  · exact absurd hau (List.append_ne_nil_of_right_ne_nil _ (List.cons_ne_nil _ _))

theorem send (h : w.Dated right) (hright : right nal.position stamp) :
    (w.send nal stamp).Dated right := by
  refine ⟨fun b hb => ?_, h.au, h.empty⟩
  rcases List.mem_append.mp hb with hold | hnew
  · exact h.buffers b hold
  · obtain rfl := List.mem_singleton.mp hnew
    exact ⟨nal.position, rfl, hright⟩

/-- **A NAL unit that is handled** has the times of its buffer, when they are right where it opens
one. -/
theorem handle (h : w.Dated right) (hright : w.Opens nal → right nal.position stamp) :
    (w.handle nal stamp).Dated right := by
  have hready := h.ready nal
  have hsettings : (w.ready nal).settings = w.settings :=
    (next_settings _ _).trans (close_settings w _)
  have haggregate := aggregateAu_of_settings hsettings
  rw [Work.handle, Work.deliver]
  split
  · exact hready.put _ fun hau => hright fun _ => hau
  · rename_i hnot
    exact hready.send (hright fun hau => absurd (haggregate.trans hau) hnot)

theorem leftover (h : w.Dated right) (hleft : w' ∈ w.leftovers nal stamp) : w'.Dated right := by
  have hcount := (h.close (kindOf w.codec nal.bytes)).count nal
  simp only [leftovers, List.mem_cons, List.not_mem_nil, or_false] at hleft
  rcases hleft with rfl | rfl | rfl | rfl | rfl | rfl | rfl
  · exact h
  · exact h.close _
  · exact h.lose
  · exact hcount
  · exact h.ready nal
  · exact hcount.lose
  · exact (h.ready nal).begin stamp

theorem flushed (h : w.Dated right) (hflushed : w.Flushed w') : w'.Dated right := by
  rcases hflushed with rfl | rfl | rfl
  · exact h
  · exact h.flush
  · exact h.lose

theorem mono (h : w.Dated right) {right' : ℕ → Stamp → Prop}
    (hmono : ∀ place stamp, right place stamp → right' place stamp) : w.Dated right' where
  buffers := fun b hb => (h.buffers b hb).imp fun _ hplace => ⟨hplace.1, hmono _ _ hplace.2⟩
  au := fun hau => (h.au hau).imp fun _ hplace => ⟨hplace.1, hmono _ _ hplace.2⟩
  empty := h.empty

end Dated

end Work

/-- **NAL units are handled with the right times.** -/
theorem Assembler.handleAll_dated (answers : ℕ → Bool) {right : ℕ → Stamp → Prop} {stamp : Stamp}
    {units : List (Nal × Bool)} {s : Assembler} (hbytes : ∀ unit ∈ units, unit.1.bytes ≠ [])
    (hs : s.work.Dated right)
    (hopening : s.work.Opening (fun place => right place stamp) stamp (units.map Prod.fst)) :
    (s.handleAll answers stamp units).1.work.Dated right := by
  induction units generalizing s with
  | nil => exact hs
  | cons unit units ih =>
      rw [List.map_cons, Work.Opening] at hopening
      have hhandles := handleNal_handles answers s stamp unit.2 (hbytes unit List.mem_cons_self)
      rw [handleAll]
      rcases hhandles with ⟨hwork, hreserved⟩ | ⟨hfail, hleft⟩
      · obtain ⟨hright, hlater⟩ := hopening hreserved
        have hdone : (s.handleNal answers unit.1 stamp unit.2).1.work.Dated right := by
          rw [hwork]
          exact hs.handle hright
        rw [← hwork] at hlater
        rw [andThen]
        split
        · exact ih (fun unit hunit => hbytes unit (List.mem_cons_of_mem _ hunit)) hdone hlater
        · exact hdone
      · rw [andThen_false _ hfail]
        exact hs.leftover hleft

/-- The times of the buffer of a call. -/
def Call.stamp : Call → Option Stamp
  | .push buf => some buf.stamp
  | .eos => none

namespace Parser

/-- What goes out has the times of the buffer in which its first NAL unit begins. -/
def WellTimed (s : Parser) : Prop :=
  ∀ b ∈ buffersOf s.assembler.sent,
    ∃ place, b.positions.head? = some place ∧ RightTime s.taken place b.stamp

/-- The parser with the bytes of a call in the adapter. -/
def loaded (s : Parser) : Call → Parser
  | .push buf =>
      { s with
        adapterStamp := s.stampFor buf.stamp
        haveTimestamp := true
        adapter := s.adapter ++ buf.data
        taken := s.taken ++ [buf] }
  | .eos => s

/-- There is room in the adapter. -/
def roomFor (s : Parser) : Call → Bool
  | .push buf => hasRoom s.adapter.length buf.data.length s.maxBufferedBytes
  | .eos => true

/-- The times of the adapter are the right ones for each NAL unit that opens a buffer. -/
def Timely (s : Parser) (c : Call) : Prop :=
  let t := (s.loaded c).detect
  s.roomFor c = true →
    t.assembler.work.Opening (fun place => RightTime t.taken place t.adapterStamp) t.adapterStamp
      (t.found c.ends)

instance (s : Parser) (c : Call) : Decidable (s.Timely c) :=
  inferInstanceAs (Decidable (_ → Work.Opening ..))

variable {answers : ℕ → Bool} {s : Parser}

theorem detect_eq (s : Parser) :
    ∃ format, s.detect = { s with inputFormat := format } ∧
      ∀ asm : Assembler, ({ s with assembler := asm } : Parser).detect =
        { s with inputFormat := format, assembler := asm } := by
  by_cases hauto : s.inputFormat = .auto ∧ 4 ≤ s.adapter.length
  · exact ⟨_, by rw [detect, if_pos hauto], fun asm => by rw [detect, if_pos hauto]⟩
  · exact ⟨s.inputFormat, by rw [detect, if_neg hauto], fun asm => by rw [detect, if_neg hauto]⟩

/-! ## The times that are kept -/

/-- The times that are kept, if any are. -/
def saved (s : Parser) : Option Stamp := if s.haveTimestamp then some s.adapterStamp else none

theorem saved_of_parsed {t s' : Parser} {eos : Bool} (h : Parsed answers t eos s') :
    s'.saved = t.saved := by
  obtain ⟨units, result, asm, -, houtcome, -, rfl⟩ := h
  obtain ⟨format, hdetect, -⟩ := detect_eq t
  rw [hdetect] at houtcome
  cases houtcome <;> rfl

/-- The times of a buffer are kept when none are, whether the buffer is refused or not. -/
theorem saved_call (answers : ℕ → Bool) (s : Parser) {c : Call} (hdrops : c.drops = false) :
    (s.call answers c).1.saved = s.saved.or c.stamp := by
  have hpush (buf : Input) : some (s.stampFor buf.stamp) = s.saved.or (some buf.stamp) := by
    rw [stampFor, saved]
    split <;> rfl
  rcases call_cases answers s hdrops with ⟨buf, asm, rfl, -, hrefused⟩ | ⟨t, hload, hparsed⟩
  · rw [hrefused]
    exact hpush buf
  · rw [saved_of_parsed hparsed]
    cases hload with
    | push buf asm hwork hroom => exact hpush buf
    | eos => exact Option.or_none.symm

theorem saved_calls (answers : ℕ → Bool) {cs : List Call} (hdrops : ∀ c ∈ cs, c.drops = false)
    (s : Parser) : (s.calls answers cs).saved = s.saved.or (cs.findSome? Call.stamp) := by
  induction cs generalizing s with
  | nil => exact Option.or_none.symm
  | cons c cs ih =>
      obtain ⟨hc, hcs⟩ := List.forall_mem_cons.mp hdrops
      rw [calls, ih hcs, saved_call answers s hc, Option.or_assoc, List.findSome?_cons]
      cases c.stamp <;> rfl

/-- **The times that everything gets are those of the first buffer since the adapter was cleared**,
as long as no buffer is dropped. -/
theorem adapterStamp_loaded (answers : ℕ → Bool) {cs : List Call} {c : Call} {stamp : Stamp}
    (hclear : s.haveTimestamp = false) (hdrops : ∀ c ∈ cs, c.drops = false)
    (hfirst : (cs ++ [c]).findSome? Call.stamp = some stamp) :
    ((s.calls answers cs).loaded c).detect.adapterStamp = stamp := by
  have hsaved := saved_calls answers hdrops s
  have hnone : s.saved = none := by rw [saved, hclear, if_neg Bool.false_ne_true]
  rw [hnone, Option.none_or] at hsaved
  rw [List.findSome?_append, ← hsaved, saved] at hfirst
  obtain ⟨format, hdetect, -⟩ := detect_eq ((s.calls answers cs).loaded c)
  rw [hdetect]
  cases c with
  | push buf =>
      change (s.calls answers cs).stampFor buf.stamp = stamp
      rw [stampFor]
      split at hfirst
      case isTrue hhave =>
        rw [if_pos hhave]
        exact Option.some.inj hfirst
      case isFalse hhave =>
        rw [if_neg hhave]
        exact Option.some.inj hfirst
  | eos =>
      split at hfirst
      · exact Option.some.inj hfirst
      · cases hfirst

/-- **A call keeps the times right** when they are right for what it finds. -/
theorem dated_of_call (answers : ℕ → Bool) {c : Call} (hdrops : c.drops = false)
    (hs : s.assembler.work.Dated (RightTime s.taken)) (htimely : s.Timely c) :
    (s.call answers c).1.assembler.work.Dated (RightTime (s.call answers c).1.taken) := by
  rcases call_cases answers s hdrops with ⟨buf, asm, rfl, hwork, hrefused⟩ | ⟨t, hload, hparsed⟩
  · rw [hrefused]
    dsimp only
    rw [hwork]
    exact hs
  · have ht : s.roomFor c = true ∧ ∃ asm : Assembler, asm.work = s.assembler.work ∧
        t = { s.loaded c with assembler := asm } := by
      cases hload with
      | eos => exact ⟨rfl, s.assembler, rfl, rfl⟩
      | push buf asm hwork hroom => exact ⟨hroom, asm, hwork, rfl⟩
    have htaken : ∃ more, (s.loaded c).taken = s.taken ++ more := by
      cases c with
      | push buf => exact ⟨[buf], rfl⟩
      | eos => exact ⟨[], (List.append_nil _).symm⟩
    have hsame : (s.loaded c).assembler = s.assembler := by
      cases c <;> rfl
    obtain ⟨hroom, asm, hwork, rfl⟩ := ht
    replace htimely := htimely hroom
    obtain ⟨more, htaken⟩ := htaken
    obtain ⟨format, hdetect, hdetect'⟩ := detect_eq (s.loaded c)
    rw [hdetect] at htimely
    dsimp only at htimely
    rw [hsame, ← hwork] at htimely
    have hdated : asm.work.Dated (RightTime (s.loaded c).taken) := by
      rw [hwork, htaken]
      exact hs.mono fun _ _ hright => hright.append more
    obtain ⟨units, result, asm', hunits, houtcome, hflushed, hcall⟩ := hparsed
    rw [hdetect'] at hunits houtcome
    have hbytes : ∀ unit ∈ units, unit.1.bytes ≠ [] := by
      intro unit hunit
      have hmem := hunits ▸ List.mem_map_of_mem (f := Prod.fst) hunit
      exact bytes_ne_nil _ hmem
    have hhandled := Assembler.handleAll_dated answers hbytes hdated (hunits ▸ htimely)
    have hresult : result.1.assembler.work.Dated (RightTime (s.loaded c).taken) ∧
        result.1.taken = (s.loaded c).taken := by
      cases houtcome with
      | failed hfail => exact ⟨hhandled, rfl⟩
      | refused asm'' hok hwork' hrefused => exact ⟨hwork' ▸ hhandled, rfl⟩
      | kept hok => exact ⟨hhandled, rfl⟩
      | ended hok heos => exact ⟨hhandled, rfl⟩
      | dropped asm'' hok hwork' hformat heos hrest => exact ⟨hwork' ▸ hhandled, rfl⟩
    rw [hcall]
    dsimp only
    rw [hresult.2]
    exact hresult.1.flushed hflushed

theorem dated_of_calls (answers : ℕ → Bool) {cs : List Call} (hdrops : ∀ c ∈ cs, c.drops = false)
    (hs : s.assembler.work.Dated (RightTime s.taken)) (hfollows : Follows answers Timely cs s) :
    (s.calls answers cs).assembler.work.Dated (RightTime (s.calls answers cs).taken) := by
  induction cs generalizing s with
  | nil => exact hs
  | cons c cs ih =>
      obtain ⟨hc, hcs⟩ := List.forall_mem_cons.mp hdrops
      exact ih hcs (dated_of_call answers hc hs hfollows.1) hfollows.2

/-- **What goes out has the right times** when at every call the times that are kept are right for
the NAL units that open a buffer. -/
theorem stamps_are_right (answers : ℕ → Bool) {inputFormat : StreamFormat}
    {nalLengthSize maxNalSize maxBufferedBytes : ℕ} {policy : Policy} {codec : Codec}
    {aggregateAu : Bool} {maxAuSize : ℕ} {cs : List Call} (hdrops : ∀ c ∈ cs, c.drops = false)
    (hfollows : Follows answers Timely cs
      (create inputFormat nalLengthSize maxNalSize maxBufferedBytes policy
        (.create codec aggregateAu maxAuSize))) :
    ((create inputFormat nalLengthSize maxNalSize maxBufferedBytes policy
      (.create codec aggregateAu maxAuSize)).calls answers cs).WellTimed := by
  have hcreate : (Assembler.create codec aggregateAu maxAuSize).work.Dated (RightTime []) :=
    ⟨fun _ hb => (nomatch hb), fun hau => absurd rfl hau, fun _ => rfl⟩
  exact (dated_of_calls answers hdrops hcreate hfollows).buffers

/-- Two buffers of a byte stream, each with a slice of H.265, the second later than the first. -/
def laterSlice (pts : BitVec 64) : List Call :=
  [.push ⟨[0, 0, 1, 2, 1], ⟨40, 40, 0⟩, false, false⟩, .push ⟨[0, 0, 1, 2, 1], ⟨pts, pts, 0⟩, false, false⟩,
    .eos]

theorem stamps_are_right_small :
    ((create .annexB 4 64 64 .error (.create .h265 false 64)).calls (fun _ => true)
      (laterSlice 40)).WellTimed :=
  stamps_are_right (fun _ => true) (by decide) ⟨by decide, by decide, by decide, trivial⟩

/-- The second slice goes out with the times of the first. -/
theorem later_slice_has_earlier_time :
    ¬ ((create .annexB 4 64 64 .error (.create .h265 false 64)).calls (fun _ => true)
      (laterSlice 80)).WellTimed := by
  intro hwell
  obtain ⟨place, hplace, hright⟩ := hwell ⟨[0, 0, 0, 1, 2, 1], ⟨40, 40, 0⟩, ⟨false, false⟩, [5]⟩
    (by decide)
  cases hplace
  revert hright
  decide

end Parser

end Zstreamer.H26x

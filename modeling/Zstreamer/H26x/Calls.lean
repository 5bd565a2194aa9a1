/-
# What a call comes to

A call puts the bytes of a buffer into the adapter, handles the NAL units that are found
there, and at the end of the stream flushes the access unit.  Any of it may fail; what the
calls so far leave is told here in terms of the NAL units found.
-/

import Zstreamer.H26x.Units

namespace Zstreamer.H26x

open Foundation

namespace Call

/-- A call that ends the stream. -/
def ends : Call → Bool
  | push buf => buf.eos
  | eos => true

/-- The bytes that come with a call. -/
def data : Call → List Byte
  | push buf => buf.data
  | eos => []

/-- A buffer that is to be dropped. -/
def drops : Call → Bool
  | push buf => buf.drop
  | eos => false

end Call

/-- Calls that all meet a condition on the parser before them. -/
def Parser.Follows (answers : ℕ → Bool) (P : Parser → Call → Prop) : List Call → Parser → Prop
  | [], _ => True
  | c :: cs, s => P s c ∧ Follows answers P cs (s.call answers c).1

namespace Assembler

/-- **NAL units are handled up to the first that fails.** -/
theorem handleAll_moves (answers : ℕ → Bool) (stamp : Stamp) (units : List (Nal × Bool))
    (s : Assembler) (hbytes : ∀ unit ∈ units, unit.1.bytes ≠ []) :
    ∃ counts hands, counts.Sublist (units.map fun unit => unit.1.position) ∧ hands.Sublist counts ∧
      s.work.Moves (s.handleAll answers stamp units).1.work counts hands := by
  induction units generalizing s with
  | nil => exact ⟨[], [], List.Sublist.refl _, List.Sublist.refl _, .refl _⟩
  | cons unit units ih =>
      have hhandles := handleNal_handles answers s stamp unit.2 (hbytes unit List.mem_cons_self)
      rw [handleAll]
      rw [List.map_cons]
      cases hok : (s.handleNal answers unit.1 stamp unit.2).2 with
      | true =>
          have hwork : (s.handleNal answers unit.1 stamp unit.2).1.work = s.work.handle unit.1 stamp := by
            rcases hhandles with ⟨hwork, -⟩ | ⟨hfail, -⟩
            · exact hwork
            · rw [hok] at hfail
              cases hfail
          obtain ⟨counts, hands, hcounts, hhands, hmoves⟩ := ih
            (s.handleNal answers unit.1 stamp unit.2).1
            fun unit hunit => hbytes unit (List.mem_cons_of_mem _ hunit)
          rw [andThen_true _ hok]
          rw [hwork] at hmoves
          exact ⟨_, _, hcounts.cons_cons _, hhands.cons_cons _,
            (Work.Moves.handle s.work unit.1 stamp).trans hmoves⟩
      | false =>
          rw [andThen_false _ hok]
          rcases hhandles with ⟨hwork, -⟩ | ⟨-, hleft⟩
          · rw [hwork]
            exact ⟨_, _, (List.nil_sublist _).cons_cons _, List.Sublist.refl _,
              Work.Moves.handle s.work unit.1 stamp⟩
          · obtain ⟨counts, hcounts, hmoves⟩ := Work.Moves.of_mem_leftovers hleft
            exact ⟨counts, [], hcounts.trans ((List.nil_sublist _).cons_cons _), List.nil_sublist _,
              hmoves⟩

end Assembler

namespace Work

/-- What a flush at the end of a call may leave. -/
def Flushed (w w' : Work) : Prop := w' = w ∨ w' = w.flush ∨ w' = w.lose

theorem Flushed.moves {w w' : Work} (h : w.Flushed w') : w.Moves w' [] [] := by
  rcases h with rfl | rfl | rfl
  · exact .refl _
  · exact .flush _
  · exact .lose _

end Work

namespace Parser

variable {answers : ℕ → Bool} {s : Parser}

/-- The times that the adapter has when a buffer has come. -/
def stampFor (s : Parser) (stamp : Stamp) : Stamp :=
  if s.haveTimestamp then s.adapterStamp else stamp

/-- The parser when a call begins to parse. -/
inductive Loaded (s : Parser) : Call → Parser → Prop
  | push (buf : Input) (asm : Assembler) (hwork : asm.work = s.assembler.work)
      (hroom : hasRoom s.adapter.length buf.data.length s.maxBufferedBytes = true) :
      Loaded s (.push buf)
        { s with
          adapterStamp := s.stampFor buf.stamp
          haveTimestamp := true
          adapter := s.adapter ++ buf.data
          taken := s.taken ++ [buf]
          assembler := asm }
  | eos : Loaded s .eos s

theorem keepStamp_eq (s : Parser) (stamp : Stamp) :
    s.keepStamp stamp = { s with adapterStamp := s.stampFor stamp, haveTimestamp := true } := by
  rw [keepStamp, stampFor]
  cases hhave : s.haveTimestamp with
  | true =>
      rw [if_pos rfl, if_pos rfl, ← hhave]
  | false =>
      rw [if_neg Bool.false_ne_true, if_neg Bool.false_ne_true]

/-- A buffer is refused, or its bytes are in the adapter. -/
theorem append_cases (answers : ℕ → Bool) (s : Parser) (buf : Input) :
    (∃ asm : Assembler, asm.work = s.assembler.work ∧
        s.append answers buf = ({ s with assembler := asm }, false)) ∨
      ∃ asm : Assembler, asm.work = s.assembler.work ∧
        hasRoom s.adapter.length buf.data.length s.maxBufferedBytes = true ∧
        s.append answers buf =
          ({ s with adapter := s.adapter ++ buf.data, taken := s.taken ++ [buf], assembler := asm },
            true) := by
  rw [append]
  split
  · exact .inl ⟨s.assembler, rfl, rfl⟩
  · rename_i hroom
    dsimp only
    split
    · exact .inr ⟨(s.assembler.ask answers).1, rfl, not_not.mp hroom, rfl⟩
    · exact .inl ⟨(s.assembler.ask answers).1, rfl, rfl⟩

/-- What becomes of a parser whose adapter has been parsed. -/
structure Parsed (answers : ℕ → Bool) (t : Parser) (eos : Bool) (s' : Parser) : Prop where
  exists_result : ∃ units result asm, units.map Prod.fst = t.detect.found eos ∧
    Outcome t.detect eos (t.detect.assembler.handleAll answers t.detect.adapterStamp units) result ∧
    result.1.assembler.work.Flushed asm.work ∧ s' = { result.1 with assembler := asm }

theorem finish_flushed (s : Assembler) : s.work.Flushed (s.finish answers).1.work := by
  rcases Assembler.flushAu_work answers { s with auFlags := { s.auFlags with eos := true } } with
    hflush | ⟨-, hsame | hlose⟩
  · exact .inr (.inl hflush)
  · exact .inl hsame
  · exact .inr (.inr hlose)

/-- A parse and what follows it. -/
theorem parsed_push (answers : ℕ → Bool) (t : Parser) (eos : Bool) :
    Parsed answers t eos
      (if ¬ (countError (t.parseAdapter answers eos)).2 then countError (t.parseAdapter answers eos)
        else if eos then (countError (t.parseAdapter answers eos)).1.finish answers
        else countError (t.parseAdapter answers eos)).1 := by
  obtain ⟨units, hunits, houtcome⟩ := parseAdapter_outcome answers t eos
  have hcounted : (t.parseAdapter answers eos).1.assembler.work =
      (countError (t.parseAdapter answers eos)).1.assembler.work := by
    rw [countError]
    split <;> rfl
  have hsame : (countError (t.parseAdapter answers eos)).1 =
      { (t.parseAdapter answers eos).1 with
        assembler := (countError (t.parseAdapter answers eos)).1.assembler } := by
    rw [countError]
    split <;> rfl
  generalize countError (t.parseAdapter answers eos) = counted at hcounted hsame ⊢
  have hstay : Parsed answers t eos counted.1 :=
    ⟨units, _, counted.1.assembler, hunits, houtcome, .inl hcounted.symm, hsame⟩
  split
  · exact hstay
  · split
    · refine ⟨units, _, (counted.1.assembler.finish answers).1, hunits, houtcome, ?_, ?_⟩
      · rw [hcounted]
        exact finish_flushed counted.1.assembler
      · rw [finish, hsame]
    · exact hstay

/-- **What a call comes to**: a buffer is refused, or the adapter is parsed. -/
theorem call_cases (answers : ℕ → Bool) (s : Parser) {c : Call} (hdrops : c.drops = false) :
    (∃ buf asm, c = .push buf ∧ asm.work = s.assembler.work ∧
        (s.call answers c).1 =
          { s with
            adapterStamp := s.stampFor buf.stamp
            haveTimestamp := true
            assembler := asm }) ∨
      ∃ t, Loaded s c t ∧ Parsed answers t c.ends (s.call answers c).1 := by
  cases c with
  | eos =>
      refine .inr ⟨s, .eos, ?_⟩
      obtain ⟨units, hunits, houtcome⟩ := parseAdapter_outcome answers s true
      change Parsed answers s true (s.eosEvent answers).1
      rw [eosEvent]
      split
      · exact ⟨units, _, _, hunits, houtcome, finish_flushed _, rfl⟩
      · exact ⟨units, _, _, hunits, houtcome, .inl rfl, rfl⟩
  | push buf =>
      have hdrop : buf.drop = false := hdrops
      have hcall : s.call answers (.push buf) = s.parserPush answers buf := rfl
      rw [hcall, parserPush, hdrop, if_neg Bool.false_ne_true, keepStamp_eq]
      rcases append_cases answers
        { s with adapterStamp := s.stampFor buf.stamp, haveTimestamp := true } buf with
        ⟨asm, hwork, happend⟩ | ⟨asm, hwork, hroom, happend⟩
      · rw [happend]
        exact .inl ⟨buf, asm, rfl, hwork, rfl⟩
      · rw [happend]
        exact .inr ⟨_, .push buf asm hwork hroom, parsed_push answers _ buf.eos⟩

end Parser

end Zstreamer.H26x

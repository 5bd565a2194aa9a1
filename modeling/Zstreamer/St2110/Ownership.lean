/-
# Who drops the reference of an input

The payloaders and depayloaders of ST 2110-30 and ST 2110-40 drop a reference of the buffer
that they are given to process, as if it were theirs.  It is one of the caller's: none of the
conventions of `process()` takes it.
-/

import Zstreamer.Pads.Forwarding
import Zstreamer.St2110.Audio

namespace Zstreamer.St2110

open Foundation Pads

/-- The results of `process()` here. -/
inductive ProcessResult
  | ok
  | error
  deriving DecidableEq, Repr

/-- A buffer to process: which one it is, and what is in it. -/
structure Incoming where
  buffer : ℕ
  content : Audio.Input
  deriving DecidableEq, Repr

/-- What a call comes to: its result, the buffer in `*out`, and the counts. -/
structure Processed where
  result : ProcessResult
  out : Option ℕ
  counts : Counts

/-- The loop of `st2110_30_payloader.c`: a buffer for every chunk, of which the last is in `*out`
and the others are pushed.  What they are pushed to keeps no reference.  `zst_buffer_create` may
fail. -/
def chunkBuffers (creates : ℕ → Bool) (size maxPayload : ℕ) (offset : ℕ) (h : Counts) :
    Option ℕ × Counts :=
  if _hmore : offset < size ∧ 0 < maxPayload then
    let chunk := if size - offset > maxPayload then maxPayload else size - offset
    if creates h.next = false then (none, h)
    else if offset + chunk ≥ size then (some h.next, h.create)
    else chunkBuffers creates size maxPayload (offset + chunk) h.create
  else (none, h)
termination_by size - offset
decreasing_by
  split
  · omega
  · omega

/-- `payloader_process` of `st2110_30_payloader.c`. -/
def audioPayloader (s : Audio.Payloader) (creates : ℕ → Bool) (input : Option Incoming)
    (h : Counts) : Processed :=
  match input with
  | none => ⟨.error, none, h⟩
  | some input =>
      if input.content.eos = true then ⟨.ok, some input.buffer, h⟩
      else if s.frameSize ≤ 0 then ⟨.error, none, h.unref input.buffer⟩
      else
        let size := (Audio.Payloader.inputOf s.frameSize input.content).1
        let made := chunkBuffers creates size (Audio.Payloader.maxPayload s.frameSize).toNat 0 h
        ⟨.ok, made.1, made.2.unref input.buffer⟩

/-- `depayloader_process` of `st2110_30_depayloader.c`. -/
def audioDepayloader (creates : ℕ → Bool) (input : Option Incoming) (h : Counts) : Processed :=
  match input with
  | none => ⟨.error, none, h⟩
  | some input =>
      if input.content.eos = true then ⟨.ok, some input.buffer, h⟩
      else if input.content.memory.length < 12 then ⟨.ok, none, h.unref input.buffer⟩
      else if input.content.memory.length - 12 = 0 then ⟨.ok, none, h.unref input.buffer⟩
      else if creates h.next = false then ⟨.error, none, h.unref input.buffer⟩
      else ⟨.ok, some h.next, h.create.unref input.buffer⟩

/-- `payloader_process` of `st2110_40_payloader.c`. -/
def dataPayloader (creates : ℕ → Bool) (input : Option Incoming) (h : Counts) : Processed :=
  match input with
  | none => ⟨.error, none, h⟩
  | some input =>
      if input.content.eos = true then ⟨.ok, some input.buffer, h⟩
      else if creates h.next = false then ⟨.error, none, h.unref input.buffer⟩
      else ⟨.ok, some h.next, h.create.unref input.buffer⟩

/-- `depayloader_process` of `st2110_40_depayloader.c`. -/
def dataDepayloader (creates : ℕ → Bool) (input : Option Incoming) (h : Counts) : Processed :=
  match input with
  | none => ⟨.error, none, h⟩
  | some input =>
      if input.content.eos = true then ⟨.ok, some input.buffer, h⟩
      else if input.content.memory.length ≤ 12 then ⟨.ok, none, h.unref input.buffer⟩
      else if creates h.next = false then ⟨.error, none, h.unref input.buffer⟩
      else ⟨.ok, some h.next, h.create.unref input.buffer⟩

/-- The four elements. -/
inductive Transform
  | audioPayloader (s : Audio.Payloader)
  | audioDepayloader
  | dataPayloader
  | dataDepayloader
  deriving DecidableEq, Repr

/-- `process()` of an element. -/
def Transform.process (t : Transform) (creates : ℕ → Bool) (input : Option Incoming) (h : Counts) :
    Processed :=
  match t with
  | .audioPayloader s => St2110.audioPayloader s creates input h
  | .audioDepayloader => St2110.audioDepayloader creates input h
  | .dataPayloader => St2110.dataPayloader creates input h
  | .dataDepayloader => St2110.dataDepayloader creates input h

/-- What a call comes to is what one of the conventions does; without an input nothing comes out
and nothing has changed. -/
def Conforms (input : Option Incoming) (h : Counts) (p : Processed) : Prop :=
  match input with
  | none => p.out = none ∧ p.counts = h
  | some input => ∃ kind : Convention, (kind.process input.buffer h).1.map Prod.fst = p.out ∧
      (kind.process input.buffer h).2 = p.counts

/-! ## What becomes of the input -/

/-- The loop leaves the buffers that are there alone. -/
theorem count_chunkBuffers (creates : ℕ → Bool) (size maxPayload offset : ℕ) (h : Counts) {b : ℕ}
    (hb : b < h.next) :
    (chunkBuffers creates size maxPayload offset h).2.count b = h.count b := by
  fun_induction chunkBuffers creates size maxPayload offset h with
  | case1 => rfl
  | case2 => exact Counts.create_of_ne (by omega)
  | case3 offset h hmore chunk hcreates hlast ih =>
      rw [ih (Nat.lt_succ_of_lt hb), Counts.create_of_ne (by omega)]
  | case4 => rfl

/-- No convention takes a reference of the input. -/
theorem count_process_convention (kind : Convention) {b : ℕ} {h : Counts} (hb : b < h.next) :
    h.count b ≤ (kind.process b h).2.count b := by
  cases kind with
  | same => exact Nat.le_refl _
  | sameRef =>
      show h.count b ≤ (h.ref b).count b
      rw [Counts.ref_self]
      exact Nat.le_succ _
  | fresh marked =>
      show h.count b ≤ h.create.count b
      rw [Counts.create_of_ne (by omega)]
  | nothing => exact Nat.le_refl _

/-- Every input that is not the end of the stream loses a reference. -/
theorem count_process (t : Transform) (creates : ℕ → Bool) {input : Incoming} {h : Counts}
    (hb : input.buffer < h.next) (heos : input.content.eos = false) :
    (t.process creates (some input) h).counts.count input.buffer = h.count input.buffer - 1 := by
  have hgoing : ¬ input.content.eos = true := by
    rw [heos]
    exact Bool.false_ne_true
  have hmade : (h.create.unref input.buffer).count input.buffer = h.count input.buffer - 1 := by
    rw [Counts.unref_self, Counts.create_of_ne (by omega)]
  cases t with
  | audioPayloader s =>
      simp only [Transform.process, audioPayloader, if_neg hgoing]
      split
      · exact Counts.unref_self
      · rw [Counts.unref_self, count_chunkBuffers _ _ _ _ _ hb]
  | audioDepayloader =>
      simp only [Transform.process, audioDepayloader, if_neg hgoing]
      split
      · exact Counts.unref_self
      · split
        · exact Counts.unref_self
        · split
          · exact Counts.unref_self
          · exact hmade
  | dataPayloader =>
      simp only [Transform.process, dataPayloader, if_neg hgoing]
      split
      · exact Counts.unref_self
      · exact hmade
  | dataDepayloader =>
      simp only [Transform.process, dataDepayloader, if_neg hgoing]
      split
      · exact Counts.unref_self
      · split
        · exact Counts.unref_self
        · exact hmade

/-- The end of a stream is handed on as it is. -/
theorem process_eos (t : Transform) (creates : ℕ → Bool) {input : Incoming} (h : Counts)
    (heos : input.content.eos = true) :
    (t.process creates (some input) h).out = some input.buffer ∧
      (t.process creates (some input) h).counts = h := by
  cases t with
  | audioPayloader s => simp only [Transform.process, audioPayloader, if_pos heos, and_self]
  | audioDepayloader => simp only [Transform.process, audioDepayloader, if_pos heos, and_self]
  | dataPayloader => simp only [Transform.process, dataPayloader, if_pos heos, and_self]
  | dataDepayloader => simp only [Transform.process, dataDepayloader, if_pos heos, and_self]

theorem conforms_iff (t : Transform) (creates : ℕ → Bool) (input : Option Incoming) {h : Counts}
    (howned : ∀ i ∈ input, i.buffer < h.next ∧ 0 < h.count i.buffer) :
    Conforms input h (t.process creates input h) ↔ ∀ i ∈ input, i.content.eos = true := by
  cases input with
  | none =>
      refine iff_of_true ?_ nofun
      cases t <;> exact ⟨rfl, rfl⟩
  | some i =>
      obtain ⟨hb, hpos⟩ := howned i rfl
      constructor
      · rintro ⟨kind, -, hcounts⟩ j hj
        cases hj
        by_contra hgoing
        have hcount := count_process t creates hb (Bool.eq_false_iff.mpr hgoing)
        have hkept := count_process_convention kind hb
        rw [hcounts] at hkept
        omega
      · intro heos
        obtain ⟨hout, hcounts⟩ := process_eos t creates h (heos i rfl)
        exact ⟨.same, hout.symm, hcounts.symm⟩

/-! ## Pads and elements -/

/-- **References are neutral along a chain exactly when the buffer is marked, has one owner, or is
not given back without a reference; and the four elements keep to a convention exactly at the end
of the stream** (or when there is no input). -/
theorem reference_neutral_iff (chain : List Convention) (b : ℕ) (marked : Bool) (h : Counts)
    (t : Transform) (creates : ℕ → Bool) (input : Option Incoming) (hun : h.Unmade)
    (hb : b < h.next) (hpos : 0 < h.count b)
    (howned : ∀ i ∈ input, i.buffer < h.next ∧ 0 < h.count i.buffer) :
    (Neutral h (pushChain chain b marked h) ↔
        marked = true ∨ h.count b = 1 ∨ lent chain = 0) ∧
      (Conforms input h (t.process creates input h) ↔ ∀ i ∈ input, i.content.eos = true) :=
  ⟨neutral_pushChain_iff chain marked hun hb hpos, conforms_iff t creates input howned⟩

/-- One buffer, with two owners. -/
def shared : Counts := ⟨fun c => if c = 0 then 2 else 0, 1⟩

theorem unmade_shared : shared.Unmade := fun _ hc => if_neg (Nat.ne_of_gt hc)

/-- A buffer of samples that is not the end of a stream. -/
def samples : Incoming := ⟨0, ⟨List.replicate 24 0, none, 0, false⟩⟩

/-- An element that takes a reference for what it gives back, and the end of a stream. -/
theorem reference_neutral_sameRef :
    Neutral shared (pushChain [.sameRef, .nothing] 0 false shared) ∧
      Conforms (some ⟨0, ⟨[], none, 0, true⟩⟩) shared
        (Transform.dataPayloader.process (fun _ => true) (some ⟨0, ⟨[], none, 0, true⟩⟩) shared) := by
  obtain ⟨hchain, helement⟩ := reference_neutral_iff [.sameRef, .nothing] 0 false shared
    .dataPayloader (fun _ => true) (some ⟨0, ⟨[], none, 0, true⟩⟩) unmade_shared (by decide)
    (by decide) (fun i hi => by cases hi; decide)
  exact ⟨hchain.mpr (.inr (.inr rfl)), helement.mpr fun i hi => by cases hi; rfl⟩

/-- A buffer that is shared loses a reference to an element that gives it back as it is, and to
a payloader. -/
theorem reference_lost :
    (pushChain [.same] 0 false shared).count 0 = 1 ∧
      ¬ Neutral shared (pushChain [.same] 0 false shared) ∧
      ¬ Conforms (some samples) shared
        (Transform.dataPayloader.process (fun _ => true) (some samples) shared) := by
  refine ⟨rfl, fun hneutral => absurd (hneutral.1 0 (by decide)) (by decide), ?_⟩
  rw [conforms_iff _ _ _ (fun i hi => by cases hi; decide)]
  exact fun hall => absurd (hall samples rfl) (by decide)

end Zstreamer.St2110

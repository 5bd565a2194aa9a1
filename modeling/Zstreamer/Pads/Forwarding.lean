/-
# The references of a buffer that is processed and forwarded

`default_sink_pad_push` has an element process a buffer and pushes what comes out of it.  An
element may give back its input, with a reference of its own or without one; the function
tells the two apart by a count above one, which the other owners of the buffer raise as
well.  What comes out is pushed on into the next element of a chain before the reference is
dropped.
-/

import Mathlib.Logic.Function.Basic
import Mathlib.Tactic.Common

namespace Zstreamer.Pads

open Function

/-- The reference counts of all buffers.  A buffer without references has been freed, or has not
been made yet; those from `next` on have not. -/
structure Counts where
  count : ℕ → ℕ
  next : ℕ

namespace Counts

/-- `zst_buffer_ref`. -/
def ref (h : Counts) (b : ℕ) : Counts := { h with count := update h.count b (h.count b + 1) }

/-- `zst_buffer_unref`. -/
def unref (h : Counts) (b : ℕ) : Counts := { h with count := update h.count b (h.count b - 1) }

/-- `zst_buffer_create`: the buffer `next`, with one reference. -/
def create (h : Counts) : Counts := ⟨update h.count h.next 1, h.next + 1⟩

/-- What has not been made has no references. -/
def Unmade (h : Counts) : Prop := ∀ c, h.next ≤ c → h.count c = 0

variable {h : Counts} {b c : ℕ}

@[simp] theorem ref_self : (h.ref b).count b = h.count b + 1 := update_self ..

@[simp] theorem unref_self : (h.unref b).count b = h.count b - 1 := update_self ..

@[simp] theorem create_self : h.create.count h.next = 1 := update_self ..

theorem ref_of_ne (hne : c ≠ b) : (h.ref b).count c = h.count c := update_of_ne hne ..

theorem unref_of_ne (hne : c ≠ b) : (h.unref b).count c = h.count c := update_of_ne hne ..

theorem create_of_ne (hne : c ≠ h.next) : h.create.count c = h.count c := update_of_ne hne ..

theorem Unmade.ref (hun : h.Unmade) (hb : b < h.next) : (h.ref b).Unmade := fun c hc => by
  have hc : h.next ≤ c := hc
  rw [ref_of_ne (by omega)]
  exact hun c hc

theorem Unmade.create (hun : h.Unmade) : h.create.Unmade := fun c hc => by
  have hc : h.next + 1 ≤ c := hc
  rw [create_of_ne (by omega)]
  exact hun c (by omega)

end Counts

/-- The conventions of `process()`.  A new buffer may carry a mark, as the end of a stream does. -/
inductive Convention
  /-- The input, with no reference for it. -/
  | same
  /-- `zst_buffer_ref(in)`. -/
  | sameRef
  | fresh (marked : Bool)
  | nothing
  deriving DecidableEq, Repr

/-- What such a `process()` makes of the counts, and what comes out, with its mark.  The input
that is processed has none. -/
def Convention.process (kind : Convention) (b : ℕ) (h : Counts) : Option (ℕ × Bool) × Counts :=
  match kind with
  | .same => (some (b, false), h)
  | .sameRef => (some (b, false), h.ref b)
  | .fresh marked => (some (h.next, marked), h.create)
  | .nothing => (none, h)

/-- The end of `default_sink_pad_push`: what is done with the buffer that has been pushed. -/
def finishPush (b out : ℕ) (h : Counts) : Counts :=
  if out ≠ b then h.unref out else if h.count out > 1 then h.unref out else h

/-- `default_sink_pad_push` of the elements of a chain, each of which pushes into the next one.
A buffer that is marked (`ZST_BUFFER_FLAG_DROP`, `ZST_BUFFER_FLAG_EOS`) is only pushed on.  What
is behind the chain keeps no reference. -/
def pushChain : List Convention → ℕ → Bool → Counts → Counts
  | [], _, _, h => h
  | _ :: chain, b, true, h => pushChain chain b true h
  | kind :: chain, b, false, h =>
      match kind.process b h with
      | (none, h') => h'
      | (some (out, marked), h') => finishPush b out (pushChain chain out marked h')

/-! ## What is left of the references -/

/-- The elements that give back the input without a reference, up to the first one that does not
give it back. -/
def lent : List Convention → ℕ
  | .same :: chain => lent chain + 1
  | .sameRef :: chain => lent chain
  | .fresh _ :: _ => 0
  | .nothing :: _ => 0
  | [] => 0

/-- The count of the input afterwards. -/
def kept (chain : List Convention) (marked : Bool) (count : ℕ) : ℕ :=
  if marked = true then count else max 1 (count - lent chain)

/-- The counts after a push: the input has lost what was lent, the other buffers have what they
had, and what was made on the way is freed. -/
structure Pushed (chain : List Convention) (b : ℕ) (marked : Bool) (h after : Counts) : Prop where
  next : h.next ≤ after.next
  input : after.count b = kept chain marked (h.count b)
  others : ∀ c, c ≠ b → c < h.next → after.count c = h.count c
  freed : ∀ c, h.next ≤ c → after.count c = 0

section FinishPush

variable {chain : List Convention} {b : ℕ} {h after : Counts}

theorem next_finishPush {out : ℕ} : (finishPush b out after).next = after.next := by
  rw [finishPush]
  split
  · rfl
  · split <;> rfl

theorem finishPush_of_ne {out c : ℕ} (hne : c ≠ out) :
    (finishPush b out after).count c = after.count c := by
  rw [finishPush]
  split
  · exact Counts.unref_of_ne hne
  · split
    · exact Counts.unref_of_ne hne
    · rfl

theorem finishPush_self : (finishPush b b after).count b =
    if after.count b > 1 then after.count b - 1 else after.count b := by
  rw [finishPush, if_neg (not_not_intro rfl)]
  split
  · exact Counts.unref_self
  · rfl

theorem finishPush_out {out : ℕ} (hne : out ≠ b) :
    (finishPush b out after).count out = after.count out - 1 := by
  rw [finishPush, if_pos hne]
  exact Counts.unref_self

/-- One reference is taken for an owner's when there are others. -/
theorem Pushed.same (hb : b < h.next) (hpushed : Pushed chain b false h after) :
    Pushed (.same :: chain) b false h (finishPush b b after) where
  next := by
    rw [next_finishPush]
    exact hpushed.next
  input := by
    rw [finishPush_self, hpushed.input, kept, kept, if_neg Bool.false_ne_true,
      if_neg Bool.false_ne_true, lent]
    split <;> omega
  others := fun c hc hlt => (finishPush_of_ne hc).trans (hpushed.others c hc hlt)
  freed := fun c hc => (finishPush_of_ne (by omega)).trans (hpushed.freed c hc)

/-- The reference of the element is given back. -/
theorem Pushed.sameRef (hb : b < h.next)
    (hpushed : Pushed chain b false (h.ref b) after) :
    Pushed (.sameRef :: chain) b false h (finishPush b b after) where
  next := by
    rw [next_finishPush]
    exact hpushed.next
  input := by
    rw [finishPush_self, hpushed.input, kept, kept, if_neg Bool.false_ne_true,
      if_neg Bool.false_ne_true, lent, Counts.ref_self]
    split <;> omega
  others := fun c hc hlt => (finishPush_of_ne hc).trans <|
    (hpushed.others c hc hlt).trans (Counts.ref_of_ne hc)
  freed := fun c hc => (finishPush_of_ne (by omega)).trans (hpushed.freed c hc)

/-- A new buffer is freed, and the input is not looked at. -/
theorem Pushed.fresh {marked : Bool} (hb : b < h.next) (hpos : 0 < h.count b)
    (hpushed : Pushed chain h.next marked h.create after) :
    Pushed (.fresh marked :: chain) b false h (finishPush b h.next after) where
  next := by
    rw [next_finishPush]
    exact Nat.le_trans (Nat.le_succ _) hpushed.next
  input := by
    rw [finishPush_of_ne (by omega), hpushed.others b (by omega) (Nat.lt_succ_of_lt hb),
      Counts.create_of_ne (by omega), kept, if_neg Bool.false_ne_true, lent]
    omega
  others := fun c hc hlt => by
    rw [finishPush_of_ne (by omega), hpushed.others c (by omega) (Nat.lt_succ_of_lt hlt),
      Counts.create_of_ne (by omega)]
  freed := fun c hc => by
    rcases Nat.eq_or_lt_of_le hc with rfl | hlt
    · rw [finishPush_out (by omega), hpushed.input, kept, Counts.create_self]
      split <;> omega
    · rw [finishPush_of_ne (by omega)]
      exact hpushed.freed c hlt

end FinishPush

/-- What every push of a buffer that is owned comes to. -/
theorem pushed_pushChain (chain : List Convention) {b : ℕ} (marked : Bool) {h : Counts}
    (hun : h.Unmade) (hb : b < h.next) (hpos : 0 < h.count b) :
    Pushed chain b marked h (pushChain chain b marked h) := by
  induction chain generalizing b marked h with
  | nil =>
      refine ⟨Nat.le_refl _, ?_, fun c _ _ => rfl, fun c hc => hun c hc⟩
      cases marked with
      | true => rfl
      | false =>
          rw [pushChain, kept, if_neg Bool.false_ne_true, lent]
          omega
  | cons kind chain ih =>
      cases marked with
      | true =>
          have hrest := ih true hun hb hpos
          exact ⟨hrest.next, hrest.input, hrest.others, hrest.freed⟩
      | false =>
          cases kind with
          | same => exact (ih false hun hb hpos).same hb
          | sameRef =>
              have hpos' : 0 < (h.ref b).count b := by
                rw [Counts.ref_self]
                exact Nat.succ_pos _
              exact (ih false (hun.ref hb) hb hpos').sameRef hb
          | fresh marked =>
              have hmade : 0 < h.create.count h.next := by
                rw [Counts.create_self]
                exact Nat.one_pos
              exact (ih marked hun.create (Nat.lt_succ_self _) hmade).fresh hb hpos
          | nothing =>
              refine ⟨Nat.le_refl _, ?_, fun c _ _ => rfl, fun c hc => hun c hc⟩
              rw [kept, if_neg Bool.false_ne_true, lent]
              show h.count b = max 1 (h.count b - 0)
              omega

/-- Every buffer has as many references as before, and what was made is freed. -/
def Neutral (h after : Counts) : Prop :=
  (∀ c, c < h.next → after.count c = h.count c) ∧ ∀ c, h.next ≤ c → after.count c = 0

/-- **A push leaves all references as they are** exactly when the buffer is marked, has one owner,
or is not given back without a reference. -/
theorem neutral_pushChain_iff (chain : List Convention) {b : ℕ} (marked : Bool) {h : Counts}
    (hun : h.Unmade) (hb : b < h.next) (hpos : 0 < h.count b) :
    Neutral h (pushChain chain b marked h) ↔
      marked = true ∨ h.count b = 1 ∨ lent chain = 0 := by
  have hpushed := pushed_pushChain chain marked hun hb hpos
  have hinput := hpushed.input
  rw [kept] at hinput
  constructor
  · intro hneutral
    rw [hneutral.1 b hb] at hinput
    split at hinput
    case isTrue hmarked => exact .inl hmarked
    case isFalse =>
      right
      omega
  · intro hsome
    refine ⟨fun c hc => ?_, hpushed.freed⟩
    rcases eq_or_ne c b with rfl | hne
    · rw [hinput]
      split
      case isTrue => rfl
      case isFalse hunmarked =>
        have hrest := hsome.resolve_left hunmarked
        omega
    · exact hpushed.others c hne hc

end Zstreamer.Pads

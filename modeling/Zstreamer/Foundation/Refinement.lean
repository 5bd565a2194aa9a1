/-
# Machines

Machines that answer, simulations between them, and what becomes of the elements that one holds.
-/

import Mathlib.Algebra.Order.Group.Multiset
import Mathlib.Logic.Basic
import Mathlib.Tactic.Abel

/-! # Machines that answer, and simulations between them

A machine takes an operation and answers; its state is its own affair.  Two machines
refine one another when a relation between their states is kept by every operation
and makes the answers equal.  The relation may rely on a condition on the operation
and the state of the abstract machine, so that assumptions about the client are
stated where the client can see them.
-/

namespace Zstreamer.Foundation

universe u v w

/-- A deterministic machine; `none` is an operation that does not return. -/
structure Machine (σ : Type u) (α : Type v) (β : Type w) where
  step : σ → α → Option (β × σ)

namespace Machine

variable {σ τ : Type u} {α : Type v} {β : Type w}

/-- The answers to a list of operations, and the state they lead to. -/
def run (M : Machine σ α β) : σ → List α → Option (List β × σ)
  | s, [] => some ([], s)
  | s, op :: ops =>
      match M.step s op with
      | none => none
      | some (answer, s') =>
          match M.run s' ops with
          | none => none
          | some (answers, s'') => some (answer :: answers, s'')

/-- A machine that always answers answers every list of operations. -/
theorem exists_run {M : Machine σ α β} (hstep : ∀ s op, ∃ answer s', M.step s op = some (answer, s'))
    (s : σ) (ops : List α) : ∃ answers s', M.run s ops = some (answers, s') := by
  induction ops generalizing s with
  | nil => exact ⟨[], s, rfl⟩
  | cons op ops ih =>
      obtain ⟨answer, mid, hone⟩ := hstep s op
      obtain ⟨answers, s', hrest⟩ := ih mid
      refine ⟨answer :: answers, s', ?_⟩
      rw [Machine.run]
      simp only [hone, hrest]

/-- Each operation of the list meets the condition in the state it finds. -/
def Respects (M : Machine σ α β) (allowed : σ → α → Prop) : σ → List α → Prop
  | _, [] => True
  | s, op :: ops =>
      allowed s op ∧ ∀ answer s', M.step s op = some (answer, s') → M.Respects allowed s' ops

/-- The concrete machine answers every allowed operation as the abstract one does. -/
structure Simulates (concrete : Machine τ α β) (spec : Machine σ α β)
    (allowed : σ → α → Prop) (R : σ → τ → Prop) : Prop where
  step : ∀ s t op answer s', R s t → allowed s op → spec.step s op = some (answer, s') →
    ∃ t', concrete.step t op = some (answer, t') ∧ R s' t'

variable {concrete : Machine τ α β} {spec : Machine σ α β} {allowed : σ → α → Prop}
  {R : σ → τ → Prop}

/-- **The simulation rule.**  Along any list of allowed operations the answers are
the same and the states stay related. -/
theorem Simulates.run (hsim : Simulates concrete spec allowed R) {s s' : σ} {t : τ}
    {ops : List α} {answers : List β} (hrel : R s t) (hallowed : spec.Respects allowed s ops)
    (hrun : spec.run s ops = some (answers, s')) :
    ∃ t', concrete.run t ops = some (answers, t') ∧ R s' t' := by
  induction ops generalizing s t answers with
  | nil =>
      obtain ⟨rfl, rfl⟩ : [] = answers ∧ s = s' := by simpa [Machine.run] using hrun
      exact ⟨t, rfl, hrel⟩
  | cons op ops ih =>
      rw [Machine.run] at hrun
      cases hstep : spec.step s op with
      | none => simp [hstep] at hrun
      | some out =>
          obtain ⟨answer, mid⟩ := out
          simp only [hstep] at hrun
          cases hrest : spec.run mid ops with
          | none => simp [hrest] at hrun
          | some out =>
              obtain ⟨rest, last⟩ := out
              simp only [hrest, Option.some.injEq, Prod.mk.injEq] at hrun
              obtain ⟨rfl, rfl⟩ := hrun
              obtain ⟨hop, hlater⟩ := hallowed
              obtain ⟨t', hconcrete, hrel'⟩ := hsim.step s t op answer mid hrel hop hstep
              obtain ⟨t'', hrun', hrel''⟩ := ih hrel' (hlater answer mid hstep) hrest
              refine ⟨t'', ?_, hrel''⟩
              rw [Machine.run]
              simp only [hconcrete, hrun']

end Machine

end Zstreamer.Foundation

/-! # What becomes of the elements that a machine holds

A machine holds elements; its operations let elements in and deliver elements.  What is neither
delivered nor held any more has been discarded.  `Tallies.run` takes the accounts of single
operations to those of whole runs.
-/

namespace Zstreamer.Foundation

universe u v w x

variable {γ : Type x}

/-- What was held and what has entered is delivered, discarded or held still, in some order. -/
def Balances (held entered delivered discarded held' : List γ) : Prop :=
  (held ++ entered).Perm (delivered ++ discarded ++ held')

theorem Balances.length {held entered delivered discarded held' : List γ}
    (h : Balances held entered delivered discarded held') :
    held.length + entered.length = delivered.length + discarded.length + held'.length := by
  have hlength := List.Perm.length_eq h
  rwa [List.length_append, List.length_append, List.length_append] at hlength

/-- Nothing happens. -/
theorem Balances.refl (held : List γ) : Balances held [] [] [] held := by
  rw [Balances, List.append_nil, List.append_nil, List.nil_append]

/-- Two accounts, one after the other. -/
theorem Balances.trans {a b c entered entered' delivered delivered' discarded discarded' : List γ}
    (h : Balances a entered delivered discarded b)
    (h' : Balances b entered' delivered' discarded' c) :
    Balances a (entered ++ entered') (delivered ++ delivered') (discarded ++ discarded') c := by
  rw [Balances, ← Multiset.coe_eq_coe] at h h' ⊢
  simp only [← Multiset.coe_add] at h h' ⊢
  calc (a : Multiset γ) + (entered + entered')
      = (a + entered) + entered' := by abel
    _ = delivered + discarded + (b + entered') := by
          rw [h]
          abel
    _ = (delivered + delivered') + (discarded + discarded') + c := by
          rw [h']
          abel

namespace Machine

variable {σ : Type u} {α : Type v} {β : Type w}

/-- What the operations of a run contribute, one after the other. -/
def collect (M : Machine σ α β) (what : σ → α → List γ) : σ → List α → List γ
  | _, [] => []
  | s, op :: ops =>
      what s op ++
        match M.step s op with
        | none => []
        | some (_, s') => M.collect what s' ops

/-- A counter grows with every operation by what it discards and by what it delivers. -/
structure Tallies (M : Machine σ α β) (inv : σ → Prop) (held : σ → List γ)
    (entered delivered : σ → α → List γ) (counter : σ → ℕ) : Prop where
  step : ∀ s op answer s', inv s → M.step s op = some (answer, s') →
    inv s' ∧ ∃ discarded,
      Balances (held s) (entered s op) (delivered s op) discarded (held s') ∧
      counter s' = counter s + discarded.length + (delivered s op).length

variable {M : Machine σ α β} {inv : σ → Prop} {held : σ → List γ}
  {entered delivered : σ → α → List γ} {counter : σ → ℕ}

/-- The operation that a run begins with, and the rest of the run. -/
theorem run_cons {s s' : σ} {op : α} {ops : List α} {answers : List β}
    (h : M.run s (op :: ops) = some (answers, s')) :
    ∃ answer mid rest, M.step s op = some (answer, mid) ∧ M.run mid ops = some (rest, s') ∧
      answers = answer :: rest := by
  rw [run] at h
  split at h
  case h_1 => cases h
  case h_2 answer mid hstep =>
    split at h
    case h_1 => cases h
    case h_2 rest last hrest =>
      cases h
      exact ⟨answer, mid, rest, hstep, hrest, rfl⟩

theorem collect_cons {s mid : σ} {op : α} {answer : β} (what : σ → α → List γ)
    (hstep : M.step s op = some (answer, mid)) (ops : List α) :
    M.collect what s (op :: ops) = what s op ++ M.collect what mid ops := by
  rw [collect]
  simp only [hstep]

/-- **The accounts of a run**: its counter has grown by all that was discarded and delivered. -/
theorem Tallies.run (h : M.Tallies inv held entered delivered counter) {s s' : σ} {ops : List α}
    {answers : List β} (hinv : inv s) (hrun : M.run s ops = some (answers, s')) :
    ∃ discarded,
      Balances (held s) (M.collect entered s ops) (M.collect delivered s ops) discarded (held s') ∧
      counter s' = counter s + discarded.length + (M.collect delivered s ops).length := by
  induction ops generalizing s answers with
  | nil =>
      obtain ⟨-, rfl⟩ := Prod.mk.inj (Option.some.inj hrun)
      exact ⟨[], Balances.refl _, rfl⟩
  | cons op ops ih =>
      obtain ⟨answer, mid, rest, hstep, hrest, -⟩ := run_cons hrun
      obtain ⟨hmid, gone, hbalance, hcounter⟩ := h.step s op answer mid hinv hstep
      obtain ⟨gone', hbalance', hcounter'⟩ := ih hmid hrest
      refine ⟨gone ++ gone', ?_, ?_⟩
      · rw [collect_cons entered hstep, collect_cons delivered hstep]
        exact hbalance.trans hbalance'
      · rw [collect_cons delivered hstep, List.length_append, List.length_append]
        omega

/-- A run that answers contributes nothing exactly when none of its operations does. -/
theorem collect_eq_nil_iff {what : σ → α → List γ} {s s' : σ} {ops : List α} {answers : List β}
    (hrun : M.run s ops = some (answers, s')) :
    M.collect what s ops = [] ↔ M.Respects (fun s op => what s op = []) s ops := by
  induction ops generalizing s answers with
  | nil => exact ⟨fun _ => trivial, fun _ => rfl⟩
  | cons op ops ih =>
      obtain ⟨answer, mid, rest, hstep, hrest, -⟩ := run_cons hrun
      rw [collect_cons what hstep, List.append_eq_nil_iff, ih hrest]
      refine and_congr_right fun _ => ⟨?_, fun hlater => hlater answer mid hstep⟩
      intro hlater answer' mid' hstep'
      obtain ⟨-, rfl⟩ := Prod.mk.inj (Option.some.inj (hstep.symm.trans hstep'))
      exact hlater

/-- A condition may be put in other words that mean the same in every state of the run. -/
theorem respects_congr {allowed other : σ → α → Prop}
    (hkeep : ∀ s op answer s', inv s → M.step s op = some (answer, s') → inv s')
    (hsame : ∀ s op, inv s → (allowed s op ↔ other s op)) {s : σ} (hinv : inv s) (ops : List α) :
    M.Respects allowed s ops ↔ M.Respects other s ops := by
  induction ops generalizing s with
  | nil => exact Iff.rfl
  | cons op ops ih =>
      refine and_congr (hsame s op hinv) ?_
      exact forall_congr' fun answer => forall_congr' fun s' => forall_congr' fun hstep =>
        ih (hkeep s op answer s' hinv hstep)

/-- **The counter counts what is discarded** exactly as long as nothing is delivered. -/
theorem Tallies.counter_iff (h : M.Tallies inv held entered delivered counter)
    {idle : σ → α → Prop} (hidle : ∀ s op, inv s → (delivered s op = [] ↔ idle s op)) {s s' : σ}
    {ops : List α} {answers : List β} (hinv : inv s) (hrun : M.run s ops = some (answers, s')) :
    ∃ discarded,
      Balances (held s) (M.collect entered s ops) (M.collect delivered s ops) discarded (held s') ∧
      (counter s' = counter s + discarded.length ↔ M.Respects idle s ops) := by
  obtain ⟨discarded, hbalance, hcounter⟩ := h.run hinv hrun
  refine ⟨discarded, hbalance, ?_⟩
  have hkeep : ∀ s op answer s', inv s → M.step s op = some (answer, s') → inv s' :=
    fun s op answer s' hs hstep => (h.step s op answer s' hs hstep).1
  rw [← respects_congr hkeep hidle hinv, ← collect_eq_nil_iff hrun, hcounter,
    ← List.length_eq_zero_iff]
  omega

end Machine

end Zstreamer.Foundation

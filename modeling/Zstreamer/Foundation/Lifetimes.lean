/-
# Things that are created and deleted

A log of creations and deletions of things that follow one another: each is created, then deleted,
and only then is the next one created. What the log leaves open is the thing that is there now.
-/

import Mathlib.Data.List.Basic
import Mathlib.Data.Nat.Notation

namespace Zstreamer.Foundation

variable {α κ : Type*}

/-- An entry of the log. -/
inductive Change (α : Type*)
  | created (thing : α)
  | deleted (thing : α)
  deriving DecidableEq, Repr

namespace Change

/-- What an entry is about. -/
def thing : Change α → α
  | created thing => thing
  | deleted thing => thing

def isCreated : Change α → Bool
  | created _ => true
  | deleted _ => false

def isDeleted : Change α → Bool
  | created _ => false
  | deleted _ => true

end Change

/-- The creations and deletions alternate, a creation first, and each deletion is of the thing
created last; `now` is what has not been deleted. -/
def Alternates (log : List (Change α)) (now : Option α) : Prop :=
  ∃ past : List α, log =
    (past.flatMap fun thing => [Change.created thing, Change.deleted thing]) ++
      now.toList.map Change.created

theorem Alternates.nil : Alternates ([] : List (Change α)) none := ⟨[], rfl⟩

theorem Alternates.create {log : List (Change α)} (h : Alternates log none) (thing : α) :
    Alternates (log ++ [.created thing]) (some thing) := by
  obtain ⟨past, rfl⟩ := h
  exact ⟨past, by simp⟩

theorem Alternates.delete {log : List (Change α)} {thing : α} (h : Alternates log (some thing)) :
    Alternates (log ++ [.deleted thing]) none := by
  obtain ⟨past, rfl⟩ := h
  exact ⟨past ++ [thing], by simp⟩

/-- Deleting what there is. -/
theorem Alternates.close {log : List (Change α)} {now : Option α} (h : Alternates log now) :
    Alternates (log ++ now.toList.map Change.deleted) none := by
  cases now with
  | none => simpa using h
  | some thing => exact h.delete

/-- When nothing is there, every creation has its deletion. -/
theorem Alternates.balanced {log : List (Change α)} (h : Alternates log none) :
    log.countP Change.isCreated = log.countP Change.isDeleted := by
  obtain ⟨past, rfl⟩ := h
  rw [Option.toList_none, List.map_nil, List.append_nil]
  induction past with
  | nil => rfl
  | cons thing past ih =>
      rw [List.flatMap_cons, List.countP_append, List.countP_append, ih]
      rfl

/-! ## A register of things with different keys -/

/-- Of the things with different keys, those with one key are the first of them. -/
theorem filter_key_eq_find? [DecidableEq κ] (key : α → κ) (k : κ) (things : List α)
    (hkeys : (things.map key).Nodup) :
    things.filter (fun thing => key thing = k) =
      (things.find? fun thing => key thing = k).toList := by
  induction things with
  | nil => rfl
  | cons thing things ih =>
      obtain ⟨hfresh, hrest⟩ := List.nodup_cons.mp hkeys
      by_cases hkey : key thing = k
      · have hnone : things.filter (fun other => key other = k) = [] := by
          refine List.filter_eq_nil_iff.mpr ?_
          intro other hother hsame
          refine hfresh ?_
          rw [hkey, ← of_decide_eq_true hsame]
          exact List.mem_map_of_mem hother
        rw [List.filter_cons_of_pos (by simpa using hkey),
          List.find?_cons_of_pos (by simpa using hkey), hnone, Option.toList_some]
      · rw [List.filter_cons_of_neg (by simpa using hkey),
          List.find?_cons_of_neg (by simpa using hkey), ih hrest]

/-- A thing that is taken out leaves nothing under its key, and everything under the others. -/
theorem find?_eraseP_key [DecidableEq κ] (key : α → κ) (k l : κ) (things : List α)
    (hkeys : (things.map key).Nodup) :
    (things.eraseP fun thing => key thing = k).find? (fun thing => key thing = l) =
      if l = k then none else things.find? fun thing => key thing = l := by
  induction things with
  | nil => simp
  | cons thing things ih =>
      obtain ⟨hfresh, hrest⟩ := List.nodup_cons.mp hkeys
      by_cases hkey : key thing = k
      · rw [List.eraseP_cons_of_pos (by simpa using hkey)]
        split
        case isTrue hsame =>
          subst hsame
          refine List.find?_eq_none.mpr ?_
          intro other hother hother'
          refine hfresh ?_
          rw [hkey, ← of_decide_eq_true hother']
          exact List.mem_map_of_mem hother
        case isFalse hdiffer =>
          rw [List.find?_cons_of_neg]
          simpa [hkey] using Ne.symm hdiffer
      · rw [List.eraseP_cons_of_neg (by simpa using hkey)]
        by_cases hother : key thing = l
        · have hdiffer : l ≠ k := fun hsame => hkey (hother.trans hsame)
          rw [if_neg hdiffer, List.find?_cons_of_pos (by simpa using hother),
            List.find?_cons_of_pos (by simpa using hother)]
        · rw [List.find?_cons_of_neg (by simpa using hother),
            List.find?_cons_of_neg (by simpa using hother), ih hrest]

end Zstreamer.Foundation

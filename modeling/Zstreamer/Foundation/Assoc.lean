/-
# Records with a changeable set of fields

An `Assoc` is a list of key and value pairs in which no key occurs twice; that is
a field of the structure, so a record with two entries for one key cannot be
built.  `assign` replaces the value of a key where it stands, or adds the pair at
the end, which is what an array of fields with a linear search does.

Proofs about records go through `get`: `get_assign` says what one assignment does,
and `get_assignAll` what a loop of assignments does.
-/

import Mathlib.Data.List.Basic
import Mathlib.Data.List.Nodup

namespace Zstreamer.Foundation

open List

universe u v

variable {κ : Type u} {ν : Type v} [DecidableEq κ]

/-- `List.lookup` with the test as a proposition. -/
theorem lookup_cons_ite (x k : κ) (v : ν) (rest : List (κ × ν)) :
    ((k, v) :: rest).lookup x = if x = k then some v else rest.lookup x := by
  rw [lookup_cons]
  by_cases hx : x = k
  · rw [if_pos hx, beq_iff_eq.mpr hx]
  · rw [if_neg hx, beq_eq_false_iff_ne.mpr hx]

/-- Put a value under a key: where the key stands, or else at the end. -/
def assignEntry (k : κ) (v : ν) : List (κ × ν) → List (κ × ν)
  | [] => [(k, v)]
  | (k', v') :: rest => if k' = k then (k, v) :: rest else (k', v') :: assignEntry k v rest

theorem mem_keys_assignEntry {k k' : κ} {v : ν} {entries : List (κ × ν)}
    (hmem : k' ∈ (assignEntry k v entries).map Prod.fst) :
    k' = k ∨ k' ∈ entries.map Prod.fst := by
  induction entries with
  | nil => exact .inl (mem_singleton.mp hmem)
  | cons entry rest ih =>
      obtain ⟨key, value⟩ := entry
      simp only [assignEntry] at hmem
      split at hmem
      case isTrue hkey =>
          rcases mem_cons.mp hmem with hhead | htail
          · exact .inl hhead
          · exact .inr (mem_cons_of_mem _ htail)
      case isFalse =>
          rcases mem_cons.mp hmem with hhead | htail
          · exact .inr (mem_cons.mpr (.inl hhead))
          · rcases ih htail with hk | hrest
            · exact .inl hk
            · exact .inr (mem_cons_of_mem _ hrest)

theorem nodup_assignEntry {k : κ} {v : ν} {entries : List (κ × ν)}
    (hnodup : (entries.map Prod.fst).Nodup) :
    ((assignEntry k v entries).map Prod.fst).Nodup := by
  induction entries with
  | nil => exact nodup_singleton k
  | cons entry rest ih =>
      obtain ⟨key, value⟩ := entry
      rw [map_cons, nodup_cons] at hnodup
      simp only [assignEntry]
      split
      case isTrue hkey =>
          subst hkey
          exact nodup_cons.mpr hnodup
      case isFalse hkey =>
          rw [map_cons, nodup_cons]
          refine ⟨fun hmem => ?_, ih hnodup.2⟩
          rcases mem_keys_assignEntry hmem with hk | hrest
          · exact hkey hk
          · exact hnodup.1 hrest

/-- Fields by key, each key at most once. -/
structure Assoc (κ : Type u) (ν : Type v) where
  entries : List (κ × ν)
  nodup : (entries.map Prod.fst).Nodup

/-- Looking up among the entries whose keys satisfy a predicate. -/
theorem lookup_filter_key (p : κ → Bool) (entries : List (κ × ν)) (x : κ) :
    (entries.filter fun entry => p entry.1).lookup x =
      if p x then entries.lookup x else none := by
  induction entries with
  | nil => simp
  | cons entry rest ih =>
      obtain ⟨key, value⟩ := entry
      rw [filter_cons]
      by_cases hkey : p key = true
      · rw [if_pos hkey, lookup_cons_ite, lookup_cons_ite, ih]
        by_cases hx : x = key
        · rw [if_pos hx, if_pos hx, hx, if_pos hkey]
        · rw [if_neg hx, if_neg hx]
      · rw [if_neg hkey, lookup_cons_ite, ih]
        by_cases hx : x = key
        · rw [hx, if_neg hkey, if_neg hkey]
        · rw [if_neg hx]

namespace Assoc

instance [DecidableEq ν] : DecidableEq (Assoc κ ν) := fun a b =>
  decidable_of_iff (a.entries = b.entries) ⟨fun h => by cases a; cases b; cases h; rfl, fun h => by rw [h]⟩

/-- No fields. -/
def empty : Assoc κ ν := ⟨[], nodup_nil⟩

/-- The value of a key. -/
def get (a : Assoc κ ν) (k : κ) : Option ν := a.entries.lookup k

/-- Set the value of a key. -/
def assign (a : Assoc κ ν) (k : κ) (v : ν) : Assoc κ ν :=
  ⟨assignEntry k v a.entries, nodup_assignEntry a.nodup⟩

@[simp]
theorem get_empty (k : κ) : (empty : Assoc κ ν).get k = none := rfl

theorem get_assign (a : Assoc κ ν) (k x : κ) (v : ν) :
    (a.assign k v).get x = if x = k then some v else a.get x := by
  simp only [get, assign]
  induction a.entries with
  | nil => rw [assignEntry, lookup_cons_ite]
  | cons entry rest ih =>
      obtain ⟨key, value⟩ := entry
      simp only [assignEntry]
      split
      case isTrue hkey =>
          subst hkey
          rw [lookup_cons_ite, lookup_cons_ite]
          by_cases hx : x = key
          · rw [if_pos hx, if_pos hx]
          · rw [if_neg hx, if_neg hx, if_neg hx]
      case isFalse hkey =>
          rw [lookup_cons_ite, lookup_cons_ite, ih]
          by_cases hx : x = key
          · rw [if_pos hx, if_pos hx, if_neg (hx ▸ hkey)]
          · rw [if_neg hx, if_neg hx]

@[simp]
theorem get_assign_self (a : Assoc κ ν) (k : κ) (v : ν) : (a.assign k v).get k = some v := by
  rw [get_assign, if_pos rfl]

/-- The entries are the values of the keys. -/
theorem mem_entries_iff (a : Assoc κ ν) {k : κ} {v : ν} :
    (k, v) ∈ a.entries ↔ a.get k = some v := by
  obtain ⟨entries, hnodup⟩ := a
  simp only [get]
  induction entries with
  | nil => simp
  | cons entry rest ih =>
      obtain ⟨key, value⟩ := entry
      rw [map_cons, nodup_cons] at hnodup
      rw [mem_cons, ih hnodup.2, lookup_cons_ite]
      by_cases hk : k = key
      · subst hk
        have hrest : rest.lookup k ≠ some v := by
          intro hfound
          exact hnodup.1 (mem_map.mpr ⟨(k, v), (ih hnodup.2).mpr hfound, rfl⟩)
        simp [hrest, eq_comm]
      · simp [hk]

/-- Setting a value that is there changes nothing. -/
theorem assign_get (a : Assoc κ ν) {k : κ} {v : ν} (hget : a.get k = some v) :
    a.assign k v = a := by
  obtain ⟨entries, hnodup⟩ := a
  simp only [get] at hget
  simp only [assign, Assoc.mk.injEq]
  clear hnodup
  induction entries with
  | nil => cases hget
  | cons entry rest ih =>
      obtain ⟨key, value⟩ := entry
      rw [lookup_cons_ite] at hget
      simp only [assignEntry]
      by_cases hk : k = key
      · rw [if_pos hk] at hget
        rw [if_pos hk.symm, hk, Option.some.inj hget]
      · rw [if_neg hk] at hget
        rw [if_neg (Ne.symm hk), ih hget]

/-- Assign one pair after the other. -/
def assignAll (a : Assoc κ ν) (pairs : List (κ × ν)) : Assoc κ ν :=
  pairs.foldl (fun acc pair => acc.assign pair.1 pair.2) a

/-- A loop of assignments: the last pair with a key decides, and there is only one where the
pairs come from a record. -/
theorem get_assignAll (a : Assoc κ ν) (pairs : List (κ × ν)) (hnodup : (pairs.map Prod.fst).Nodup)
    (x : κ) :
    (a.assignAll pairs).get x = (pairs.lookup x).or (a.get x) := by
  unfold assignAll
  induction pairs generalizing a with
  | nil => rfl
  | cons pair rest ih =>
      obtain ⟨key, value⟩ := pair
      rw [map_cons, nodup_cons] at hnodup
      rw [foldl_cons, ih _ hnodup.2, lookup_cons_ite, get_assign]
      by_cases hx : x = key
      · subst hx
        have hrest : rest.lookup x = none := by
          rw [lookup_eq_none_iff]
          intro pair hpair
          rw [bne_iff_ne]
          rintro rfl
          exact hnodup.1 (mem_map.mpr ⟨pair, hpair, rfl⟩)
        simp [hrest]
      · simp [hx]

/-- A loop that assigns what is there changes nothing. -/
theorem assignAll_of_get {a : Assoc κ ν} {pairs : List (κ × ν)}
    (hget : ∀ pair ∈ pairs, a.get pair.1 = some pair.2) : a.assignAll pairs = a := by
  unfold assignAll
  induction pairs with
  | nil => rfl
  | cons pair rest ih =>
      rw [foldl_cons, a.assign_get (hget pair mem_cons_self)]
      apply ih
      intro other hother
      exact hget other (mem_cons_of_mem pair hother)

end Assoc

end Zstreamer.Foundation

/-
# The parameter sets of a session

The cache of a session is a store that only grows: it has every parameter set once, in the
order in which they were first pushed.
-/

import Zstreamer.Foundation.FirstSeen
import Zstreamer.Rtsp.RoundTrip

namespace Zstreamer.Rtsp

open Foundation Rtp List

/-- The two kinds of parameter sets. -/
inductive ParameterSet
  | sps
  | pps
  deriving DecidableEq, Repr

/-- A NAL unit is a set of this kind. -/
def ParameterSet.is : ParameterSet → List Byte → Bool
  | .sps, nal => nalType (nal.getD 0 0) = 7
  | .pps, nal => nalType (nal.getD 0 0) = 8

/-- A NAL unit is a slice, of type 1 or 5. -/
def isSlice (nal : List Byte) : Bool := nalType (nal.getD 0 0) = 1 || nalType (nal.getD 0 0) = 5

/-- A NAL unit is a set of some kind. -/
def isSet (nal : List Byte) : Bool := isParameterSet (nal.getD 0 0)

/-- The last set of a kind. -/
def lastSet (k : ParameterSet) (nals : List (List Byte)) : Option (List Byte) := lastWith k.is nals

/-- The parameter sets, in the order in which they first came. -/
def setsOf (nals : List (List Byte)) : List (List Byte) := firstSeen (nals.filter isSet)

theorem ParameterSet.isSet_of_is {k : ParameterSet} {nal : List Byte} (h : k.is nal = true) :
    isSet nal = true := by
  rw [isSet, isParameterSet]
  cases k with
  | sps => exact Bool.or_eq_true_iff.mpr (.inl h)
  | pps => exact Bool.or_eq_true_iff.mpr (.inr h)

/-- No set at all is none of any kind. -/
theorem ParameterSet.not_any {nals : List (List Byte)} (h : nals.any isSet = false)
    (k : ParameterSet) : nals.any k.is = false := by
  rw [any_eq_false] at h ⊢
  exact fun nal hnal hkind => h nal hnal (isSet_of_is hkind)

/-! ## The cache -/

/-- The cache with these sets. -/
def cached (sets : List (List Byte)) : List Byte := annexB (sets.map fun nal => (true, nal))

theorem cached_cons (nal : List Byte) (sets : List (List Byte)) :
    cached (nal :: sets) = [0, 0, 0, 1] ++ (nal ++ cached sets) := annexB_cons (true, nal) _

theorem cached_append (front back : List (List Byte)) :
    cached (front ++ back) = cached front ++ cached back := by
  rw [cached, map_append, annexB, flatMap_append]
  rfl

section Cache

variable {sets : List (List Byte)}

theorem nalEnd_cached {nal : List Byte} (hnal : Plain nal) (hsets : ∀ s ∈ sets, Plain s) :
    nalEnd (nal ++ cached sets) = nal.length := by
  have hrest : nalEnd (cached sets) = 0 := by
    refine nalEnd_annexB fun unit hunit => ?_
    obtain ⟨s, hs, rfl⟩ := mem_map.mp hunit
    exact hsets s hs
  rw [nalEnd_plain hnal, hrest, Nat.add_zero]

theorem length_cached_cons (s : List Byte) (sets : List (List Byte)) :
    (cached (s :: sets)).length = 4 + (s.length + (cached sets).length) := by
  rw [cached_cons, length_append, length_append]
  rfl

theorem length_le_cached {nal : List Byte} (hnal : nal ∈ sets) :
    4 + nal.length ≤ (cached sets).length := by
  induction sets with
  | nil => cases hnal
  | cons s sets ih =>
      rw [length_cached_cons]
      rcases mem_cons.mp hnal with rfl | hnal
      · exact Nat.add_le_add_left (Nat.le_add_right _ _) _
      · have := ih hnal
        omega

theorem containsFrom_cached (hsets : ∀ s ∈ sets, Plain s) (nal : List Byte) {turns : ℕ}
    (hturns : (cached sets).length ≤ turns) :
    containsFrom nal turns (cached sets) = decide (nal ∈ sets) := by
  induction sets generalizing turns with
  | nil =>
      cases turns with
      | zero => rfl
      | succ turns => exact if_pos (Nat.lt_of_lt_of_le (Nat.succ_pos 3) (Nat.le_add_right 4 _))
  | cons s sets ih =>
      have hs := hsets s mem_cons_self
      have hrest : ∀ other ∈ sets, Plain other := fun other hother =>
        hsets other (mem_cons_of_mem s hother)
      have hlength := length_cached_cons s sets
      obtain ⟨turns, rfl⟩ : ∃ m, turns = m + 1 := ⟨turns - 1, by omega⟩
      rw [containsFrom]
      split
      case isTrue hshort =>
        exact (decide_eq_false fun hmem => absurd (length_le_cached hmem) (not_le.mpr hshort)).symm
      case isFalse =>
        have htake : (cached (s :: sets)).take 4 = [0, 0, 0, 1] := by rw [cached_cons]; rfl
        have hdrop : (cached (s :: sets)).drop 4 = s ++ cached sets := by rw [cached_cons]; rfl
        rw [if_pos htake]
        dsimp only
        rw [hdrop, nalEnd_cached hs hrest, take_left, drop_left]
        split
        case isTrue hsame => exact (decide_eq_true (hsame ▸ mem_cons_self)).symm
        case isFalse hother =>
          rw [ih hrest (by omega)]
          refine decide_eq_decide.mpr ?_
          rw [mem_cons]
          exact ⟨Or.inr, fun hmem => hmem.resolve_left fun hsame => hother hsame.symm⟩

theorem contains_cached (hsets : ∀ s ∈ sets, Plain s) {nal : List Byte} (hnal : nal ≠ []) :
    annexbCacheContainsNal (cached sets) nal = decide (nal ∈ sets) := by
  rw [annexbCacheContainsNal]
  split
  case isTrue hnone =>
    have hempty := hnone.resolve_right hnal
    refine (decide_eq_false fun hmem => ?_).symm
    have := length_le_cached hmem
    rw [hempty, length_nil] at this
    omega
  case isFalse => exact containsFrom_cached hsets nal le_rfl

theorem replayFrom_cached (hsets : ∀ s ∈ sets, Plain s) {turns : ℕ}
    (hturns : (cached sets).length ≤ turns) : replayFrom turns (cached sets) = sets := by
  induction sets generalizing turns with
  | nil => cases turns <;> rfl
  | cons s sets ih =>
      have hs := hsets s mem_cons_self
      have hrest : ∀ other ∈ sets, Plain other := fun other hother =>
        hsets other (mem_cons_of_mem s hother)
      have hlength := length_cached_cons s sets
      obtain ⟨turns, rfl⟩ : ∃ m, turns = m + 1 := ⟨turns - 1, by omega⟩
      have hunfold : replayFrom (turns + 1) (cached (s :: sets)) =
          (s ++ cached sets).take (nalEnd (s ++ cached sets)) ::
            replayFrom turns ((s ++ cached sets).drop (nalEnd (s ++ cached sets))) := by
        rw [cached_cons]
        exact if_pos rfl
      rw [hunfold, nalEnd_cached hs hrest, take_left, drop_left, ih hrest (by omega)]

/-- **The cache is replayed as the sets that it was put together from.** -/
theorem replayed_cached (hsets : ∀ s ∈ sets, Plain s) : replayed (cached sets) = sets := by
  rw [replayed, replayFrom_cached hsets le_rfl]
  exact filter_eq_self.mpr fun s hs => decide_eq_true (hsets s hs).nonempty

theorem cacheNal_cached (hsets : ∀ s ∈ sets, Plain s) {f : Found} (hf : Plain f.nal) :
    cacheNal (cached sets) f = cached (if isSet f.nal then addNew sets f.nal else sets) := by
  rw [cacheNal, contains_cached hsets hf.nonempty]
  by_cases hset : isSet f.nal = true
  · rw [if_pos hset, addNew]
    by_cases hmem : f.nal ∈ sets
    · rw [if_pos hmem, if_neg fun hand => absurd hand.2.2 (by rw [decide_eq_true hmem]; decide)]
    · rw [if_neg hmem, if_pos ⟨hf.nonempty, hset, decide_eq_false hmem⟩, cached_append]
      have hnone : cached [] = [] := rfl
      rw [cached_cons, hnone, append_nil]
  · rw [if_neg hset, if_neg fun hand => hset hand.2.1]

theorem foldl_cacheNal {found : List Found} (hfound : ∀ f ∈ found, Plain f.nal)
    (hsets : ∀ s ∈ sets, Plain s) :
    found.foldl cacheNal (cached sets) =
      cached (((found.map Found.nal).filter isSet).foldl addNew sets) := by
  induction found generalizing sets with
  | nil => rfl
  | cons f found ih =>
      have hf := hfound f mem_cons_self
      rw [foldl_cons, cacheNal_cached hsets hf, map_cons, filter_cons,
        ih (fun other hother => hfound other (mem_cons_of_mem f hother))]
      · split <;> rfl
      · intro s hs
        split at hs
        · rcases mem_addNew.mp hs with hs | rfl
          · exact hsets s hs
          · exact hf
        · exact hsets s hs

/-- **A buffer puts its sets into the cache that are new.** -/
theorem cacheSpsPps_cached (hsets : ∀ s ∈ sets, Plain s) {units : List (Bool × List Byte)}
    (hunits : ∀ unit ∈ units, Plain unit.2) (hsize : (annexB units).length < 2 ^ 31) :
    cacheSpsPps (cached sets) (annexB units) =
      cached (((units.map Prod.snd).filter isSet).foldl addNew sets) := by
  have hfound : ∀ f ∈ places 0 units, Plain f.nal := by
    intro f hf
    obtain ⟨unit, hunit, heq⟩ := mem_map.mp
      (map_nal_places 0 units ▸ mem_map_of_mem (f := Found.nal) hf)
    exact heq ▸ hunits unit hunit
  rw [cacheSpsPps, seen_eq hsize, scan_annexB hunits, foldl_cacheNal hfound hsets, map_nal_places]

/-- The pre-scan finds a set if there is one. -/
theorem any_places (i : ℕ) (units : List (Bool × List Byte))
    (hunits : ∀ unit ∈ units, Plain unit.2) {front : List Byte} (hfront : front.length = i) :
    (places i units).any (fun f => isParameterSet ((front ++ annexB units).getD f.start 0)) =
      (units.map Prod.snd).any isSet := by
  induction units generalizing i front with
  | nil => rfl
  | cons unit units ih =>
      obtain ⟨b, rest, hnal⟩ := exists_cons_of_ne_nil (hunits unit mem_cons_self).nonempty
      have hsplit : front ++ annexB (unit :: units) =
          (front ++ (startCode unit.1 ++ unit.2)) ++ annexB units := by
        rw [annexB_cons, append_assoc, append_assoc]
      have hplace : (front ++ annexB (unit :: units)).getD (i + (startCode unit.1).length) 0 =
          unit.2.getD 0 0 := by
        rw [annexB_cons, ← hfront, ← append_assoc, ← length_append, hnal]
        simp [getD_eq_getElem?_getD]
      rw [places, any_cons, hplace, map_cons, any_cons, hsplit, ih]
      · rfl
      · exact fun other hother => hunits other (mem_cons_of_mem unit hother)
      · rw [length_append, length_append, hfront, Nat.add_assoc]

theorem hasSpsPps_annexB {units : List (Bool × List Byte)}
    (hunits : ∀ unit ∈ units, Plain unit.2) :
    hasSpsPps (annexB units) = (units.map Prod.snd).any isSet := by
  rw [hasSpsPps, scan_annexB hunits]
  exact @any_places 0 units hunits [] rfl

end Cache

end Zstreamer.Rtsp

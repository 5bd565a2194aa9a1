/-
# Start codes

The payloaders take an access unit apart at its start codes, three or four bytes long
(`zst_find_start_code` in `zst_media_utils.h`).  Positions count from where the search
begins, so a search from an offset is a search of what is left from there.

An access unit put together from NAL units comes apart into the same units when none
of them contains a start code or ends with a zero byte.
-/

import Mathlib.Data.List.DropRight
import Zstreamer.Foundation.Bits
import Zstreamer.Foundation.Reassembly

namespace Zstreamer.Rtp

open Foundation List

/-- `zst_find_start_code`: the position and the size of the first start code. -/
def findStartCode : List Byte → Option (ℕ × ℕ)
  | [] => none
  | b :: rest =>
      if (b :: rest).take 3 = [0, 0, 1] then some (0, 3)
      else if (b :: rest).take 4 = [0, 0, 0, 1] then some (0, 4)
      else (findStartCode rest).map fun found => (found.1 + 1, found.2)

/-- Zero bytes at the end belong to no NAL unit. -/
def stripZeros (data : List Byte) : List Byte := data.rdropWhile fun b => b = 0

/-- The loop over the start codes, behind one of them, for so many turns at most.  The last NAL
unit is flagged. -/
def nalUnitsFrom : ℕ → List Byte → List (List Byte × Bool)
  | 0, _ => []
  | turns + 1, data =>
      match findStartCode data with
      | none => [(stripZeros data, true)]
      | some (pos, code) =>
          (stripZeros (data.take pos), false) :: nalUnitsFrom turns (data.drop (pos + code))

/-- The NAL units that the payloaders send.  Without a start code all of the data is one. -/
def nalUnits (data : List Byte) : List (List Byte × Bool) :=
  match findStartCode data with
  | none => [(data, true)]
  | some (pos, code) =>
      (nalUnitsFrom (data.length + 1) (data.drop (pos + code))).filter fun unit => unit.1 ≠ []

/-- The start code of four bytes or of three. -/
def startCode (long : Bool) : List Byte := if long then [0, 0, 0, 1] else [0, 0, 1]

/-- What is found is a start code. -/
theorem startCode_of_found {data : List Byte} {pos code : ℕ}
    (hfound : findStartCode data = some (pos, code)) :
    ∃ long, (startCode long).length = code ∧ startCode long <+: data.drop pos := by
  induction data generalizing pos code with
  | nil => cases hfound
  | cons b rest ih =>
      rw [findStartCode] at hfound
      split at hfound
      case isTrue hthree =>
        cases hfound
        exact ⟨false, rfl, show [0, 0, 1] <+: b :: rest from hthree ▸ take_prefix 3 (b :: rest)⟩
      case isFalse =>
        split at hfound
        case isTrue hfour =>
          cases hfound
          exact ⟨true, rfl, show [0, 0, 0, 1] <+: b :: rest from hfour ▸ take_prefix 4 (b :: rest)⟩
        case isFalse =>
          obtain ⟨⟨pos', code'⟩, hrest, heq⟩ := Option.map_eq_some_iff.mp hfound
          cases heq
          exact ih hrest

/-- A start code is inside the data. -/
theorem findStartCode_bounds {data : List Byte} {pos code : ℕ}
    (hfound : findStartCode data = some (pos, code)) :
    3 ≤ code ∧ code ≤ 4 ∧ pos + code ≤ data.length := by
  obtain ⟨long, rfl, hprefix⟩ := startCode_of_found hfound
  have hle := hprefix.length_le
  rw [length_drop] at hle
  cases long <;> simp only [startCode, Bool.false_eq_true, if_false, if_true, length_cons,
    length_nil] at hle ⊢ <;> omega

/-! ## Access units that come apart again -/

/-- A NAL unit with no start code inside that does not end with a zero byte. -/
structure Plain (nal : List Byte) : Prop where
  code : ¬ [0, 0, 1] <:+: nal
  last : nal.getLast? ≠ some 0
  nonempty : nal ≠ []

instance (nal : List Byte) : Decidable (Plain nal) :=
  decidable_of_iff (¬ [0, 0, 1] <:+: nal ∧ nal.getLast? ≠ some 0 ∧ nal ≠ [])
    ⟨fun ⟨h₁, h₂, h₃⟩ => ⟨h₁, h₂, h₃⟩, fun ⟨h₁, h₂, h₃⟩ => ⟨h₁, h₂, h₃⟩⟩

theorem Plain.tail {b c : Byte} {rest : List Byte} (h : Plain (b :: c :: rest)) :
    Plain (c :: rest) where
  code := fun hinside => h.code (hinside.trans (suffix_cons b _).isInfix)
  last := fun hlast => h.last (by rw [getLast?_cons_cons]; exact hlast)
  nonempty := cons_ne_nil c rest

/-- No start code begins inside a plain NAL unit. -/
theorem Plain.take_ne {b : Byte} {rest : List Byte} (h : Plain (b :: rest)) (after : List Byte) :
    ((b :: rest) ++ after).take 3 ≠ [0, 0, 1] ∧ ((b :: rest) ++ after).take 4 ≠ [0, 0, 0, 1] := by
  match rest, h with
  | [], h =>
      have hb : b ≠ 0 := fun hzero => h.last (by rw [hzero]; rfl)
      exact ⟨fun htake => hb (List.cons.inj htake).1, fun htake => hb (List.cons.inj htake).1⟩
  | [c], h =>
      have hc : c ≠ 0 := fun hzero => h.last (by rw [hzero]; rfl)
      exact ⟨fun htake => hc (List.cons.inj (List.cons.inj htake).2).1,
        fun htake => hc (List.cons.inj (List.cons.inj htake).2).1⟩
  | [c, d], h =>
      have hd : d ≠ 0 := fun hzero => h.last (by rw [hzero]; rfl)
      refine ⟨fun htake => ?_, fun htake => ?_⟩
      · have hall : [b, c, d] = [0, 0, 1] := htake
        exact h.code (hall ▸ infix_refl _)
      · exact hd (List.cons.inj (List.cons.inj (List.cons.inj htake).2).2).1
  | c :: d :: e :: more, h =>
      refine ⟨fun htake => ?_, fun htake => ?_⟩
      · have hall : [b, c, d] = [0, 0, 1] := htake
        exact h.code (hall ▸ (prefix_append [b, c, d] (e :: more)).isInfix)
      · have hall : [b, c, d, e] = [0, 0, 0, 1] := htake
        have hthree : [c, d, e] = [0, 0, 1] := congrArg (drop 1) hall
        exact h.tail.code (hthree ▸ (prefix_append [c, d, e] more).isInfix)

/-- A NAL unit with no start code and no three zero bytes inside, that does not end with a zero
byte. -/
structure Clean (nal : List Byte) : Prop where
  code : ¬ [0, 0, 1] <:+: nal
  zeros : ¬ [0, 0, 0] <:+: nal
  last : nal.getLast? ≠ some 0
  nonempty : nal ≠ []

instance (nal : List Byte) : Decidable (Clean nal) :=
  decidable_of_iff (¬ [0, 0, 1] <:+: nal ∧ ¬ [0, 0, 0] <:+: nal ∧ nal.getLast? ≠ some 0 ∧ nal ≠ [])
    ⟨fun ⟨h₁, h₂, h₃, h₄⟩ => ⟨h₁, h₂, h₃, h₄⟩, fun ⟨h₁, h₂, h₃, h₄⟩ => ⟨h₁, h₂, h₃, h₄⟩⟩

theorem Clean.plain {nal : List Byte} (h : Clean nal) : Plain nal := ⟨h.code, h.last, h.nonempty⟩

theorem findStartCode_startCode (long : Bool) (rest : List Byte) :
    findStartCode (startCode long ++ rest) = some (0, (startCode long).length) := by
  cases long with
  | false => rfl
  | true => rfl

/-- Behind a plain NAL unit the search goes on. -/
theorem Plain.findStartCode_behind {nal : List Byte} (h : Plain nal) (after : List Byte) :
    findStartCode (nal ++ after) =
      (findStartCode after).map fun found => (nal.length + found.1, found.2) := by
  induction nal with
  | nil => exact absurd rfl h.nonempty
  | cons b rest ih =>
      obtain ⟨hthree, hfour⟩ := h.take_ne after
      rw [cons_append] at hthree hfour ⊢
      rw [findStartCode, if_neg hthree, if_neg hfour]
      have hrest : findStartCode (rest ++ after) =
          (findStartCode after).map fun found => (rest.length + found.1, found.2) := by
        cases rest with
        | nil => simp
        | cons c rest => exact ih h.tail
      rw [hrest, Option.map_map]
      refine congrArg (fun f => (findStartCode after).map f) (funext fun found => ?_)
      exact Prod.ext (by simp only [Function.comp, length_cons]; omega) rfl

/-- The first start code behind a plain NAL unit is the one that follows it. -/
theorem Plain.findStartCode_append {nal : List Byte} (h : Plain nal) (long : Bool)
    (rest : List Byte) : findStartCode (nal ++ (startCode long ++ rest)) =
      some (nal.length, (startCode long).length) := by
  rw [h.findStartCode_behind, findStartCode_startCode]
  rfl

/-- There is no start code in a plain NAL unit. -/
theorem Plain.findStartCode_eq_none {nal : List Byte} (h : Plain nal) :
    findStartCode nal = none := by
  have hbehind := h.findStartCode_behind []
  rwa [append_nil] at hbehind

theorem Clean.stripZeros_eq {nal : List Byte} (h : Clean nal) : stripZeros nal = nal := by
  rw [stripZeros, rdropWhile_eq_self_iff]
  intro hne hzero
  apply h.last
  rw [getLast?_eq_some_getLast hne, of_decide_eq_true hzero]

/-- NAL units written one after the other, each behind a start code. -/
def annexB (units : List (Bool × List Byte)) : List Byte :=
  units.flatMap fun unit => startCode unit.1 ++ unit.2

theorem nalUnitsFrom_annexB {nal : List Byte} {units : List (Bool × List Byte)} (hnal : Clean nal)
    (hunits : ∀ unit ∈ units, Clean unit.2) {turns : ℕ}
    (hturns : (nal ++ annexB units).length < turns) :
    nalUnitsFrom turns (nal ++ annexB units) =
      flagLast (nal :: units.map fun unit => unit.2) := by
  induction units generalizing nal turns with
  | nil =>
      obtain ⟨turns, rfl⟩ : ∃ m, turns = m + 1 := ⟨turns - 1, by omega⟩
      rw [annexB, flatMap_nil, append_nil, nalUnitsFrom, hnal.plain.findStartCode_eq_none]
      exact congrArg (fun data => [(data, true)]) hnal.stripZeros_eq
  | cons unit units ih =>
      obtain ⟨turns, rfl⟩ : ∃ m, turns = m + 1 := ⟨turns - 1, by omega⟩
      have hcons : annexB (unit :: units) = startCode unit.1 ++ (unit.2 ++ annexB units) := by
        rw [annexB, flatMap_cons, append_assoc]
        rfl
      rw [hcons] at hturns ⊢
      have hdrop : (nal ++ (startCode unit.1 ++ (unit.2 ++ annexB units))).drop
          (nal.length + (startCode unit.1).length) = unit.2 ++ annexB units := by
        rw [← drop_drop, drop_left, drop_left]
      have hcode : 0 < (startCode unit.1).length := by
        cases unit.1 <;> decide
      rw [nalUnitsFrom, hnal.plain.findStartCode_append]
      dsimp only
      rw [hdrop, take_left, hnal.stripZeros_eq,
        ih (hunits unit mem_cons_self)
          (fun other hother => hunits other (mem_cons_of_mem unit hother))]
      · rfl
      · rw [length_append, length_append] at hturns
        omega

/-- **An access unit comes apart into the NAL units it was put together from.** -/
theorem nalUnits_annexB {units : List (Bool × List Byte)} (hne : units ≠ [])
    (hunits : ∀ unit ∈ units, Clean unit.2) :
    nalUnits (annexB units) = flagLast (units.map fun unit => unit.2) := by
  cases units with
  | nil => exact absurd rfl hne
  | cons unit units =>
      have hcons : annexB (unit :: units) = startCode unit.1 ++ (unit.2 ++ annexB units) := by
        rw [annexB, flatMap_cons, append_assoc]
        rfl
      have hclean := hunits unit mem_cons_self
      have hrest : ∀ other ∈ units, Clean other.2 :=
        fun other hother => hunits other (mem_cons_of_mem unit hother)
      have hall : ∀ entry ∈ flagLast ((unit :: units).map fun unit => unit.2), entry.1 ≠ [] := by
        intro entry hentry
        obtain ⟨other, hother, heq⟩ := mem_map.mp (mem_of_mem_flagLast hentry)
        exact heq ▸ (hunits other hother).nonempty
      rw [nalUnits, hcons, findStartCode_startCode]
      dsimp only
      rw [Nat.zero_add, drop_left, nalUnitsFrom_annexB hclean hrest]
      · apply filter_eq_self.mpr
        intro entry hentry
        exact decide_eq_true (hall entry hentry)
      · simp only [length_append]
        omega

end Zstreamer.Rtp

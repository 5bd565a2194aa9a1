/-
# UTF-8

`valid_utf8` accepts the encodings of Unicode scalar values, one behind the other, and no other
bytes; and it looks at no byte behind the last.
-/

import Zstreamer.DanteSession.Protocol
import Zstreamer.Foundation.Cursor

namespace Zstreamer.DanteSession.Utf8

open Foundation List

/-! ## Encodings -/

/-- A Unicode scalar value. -/
def Scalar (v : ℕ) : Prop := v ≤ 0x10ffff ∧ ¬ (0xd800 ≤ v ∧ v ≤ 0xdfff)

/-- The encoding of a value. -/
def encode (v : ℕ) : List Byte :=
  if v < 0x80 then [BitVec.ofNat 8 v]
  else if v < 0x800 then [BitVec.ofNat 8 (0xc0 + v / 64), BitVec.ofNat 8 (0x80 + v % 64)]
  else if v < 0x10000 then
    [BitVec.ofNat 8 (0xe0 + v / 4096), BitVec.ofNat 8 (0x80 + v / 64 % 64),
      BitVec.ofNat 8 (0x80 + v % 64)]
  else
    [BitVec.ofNat 8 (0xf0 + v / 262144), BitVec.ofNat 8 (0x80 + v / 4096 % 64),
      BitVec.ofNat 8 (0x80 + v / 64 % 64), BitVec.ofNat 8 (0x80 + v % 64)]

/-- Encodings of scalar values, one behind the other. -/
def WellFormed (data : List Byte) : Prop :=
  ∃ scalars : List ℕ, (∀ v ∈ scalars, Scalar v) ∧ data = scalars.flatMap encode

/-! ## The bytes of a character -/

/-- What a byte behind the first adds to the value. -/
theorem shift_or_next (value : ℕ) (next : Byte) :
    value <<< 6 ||| (next &&& 0x3f).toNat = value * 64 + next.toNat % 64 := by
  have hnext : (next &&& 0x3f).toNat = next.toNat % 64 := by
    rw [BitVec.toNat_and]
    exact Nat.and_two_pow_sub_one_eq_mod next.toNat 6
  rw [hnext, ← Nat.shiftLeft_add_eq_or_of_lt (by omega), Nat.shiftLeft_eq]

/-- A byte behind the first. -/
theorem next_iff (next : Byte) : next &&& 0xc0 = 0x80 ↔ 128 ≤ next.toNat ∧ next.toNat < 192 := by
  revert next
  decide +kernel

/-- What a first byte gives of the value. -/
theorem lead_eq (c : Byte) : (c &&& 0x1f).toNat = c.toNat % 32 ∧
    (c &&& 0x0f).toNat = c.toNat % 16 ∧ (c &&& 0x07).toNat = c.toNat % 8 := by
  rw [BitVec.toNat_and, BitVec.toNat_and, BitVec.toNat_and]
  exact ⟨Nat.and_two_pow_sub_one_eq_mod c.toNat 5, Nat.and_two_pow_sub_one_eq_mod c.toNat 4,
    Nat.and_two_pow_sub_one_eq_mod c.toNat 3⟩

theorem continues_one (lead : ℕ) (n₁ : Byte) :
    continues lead [n₁] = true ↔ (128 ≤ n₁.toNat ∧ n₁.toNat < 192) ∧
      Scalar (lead * 64 + n₁.toNat % 64) := by
  rw [continues, Bool.and_eq_true, all_eq_true, decide_eq_true_eq, Scalar]
  simp only [mem_singleton, forall_eq, decide_eq_true_eq, next_iff, foldl_cons,
    foldl_nil, shift_or_next, length_cons, length_nil]
  omega

theorem continues_two (lead : ℕ) (n₁ n₂ : Byte) :
    continues lead [n₁, n₂] = true ↔ ((128 ≤ n₁.toNat ∧ n₁.toNat < 192) ∧
      (128 ≤ n₂.toNat ∧ n₂.toNat < 192)) ∧
        0x800 ≤ (lead * 64 + n₁.toNat % 64) * 64 + n₂.toNat % 64 ∧
          Scalar ((lead * 64 + n₁.toNat % 64) * 64 + n₂.toNat % 64) := by
  rw [continues, Bool.and_eq_true, all_eq_true, decide_eq_true_eq, Scalar]
  simp only [forall_mem_cons, not_mem_nil, false_imp_iff, implies_true, and_true,
    decide_eq_true_eq, next_iff, foldl_cons, foldl_nil, shift_or_next, length_cons,
    length_nil, true_and]
  omega

theorem continues_three (lead : ℕ) (n₁ n₂ n₃ : Byte) :
    continues lead [n₁, n₂, n₃] = true ↔ ((128 ≤ n₁.toNat ∧ n₁.toNat < 192) ∧
      (128 ≤ n₂.toNat ∧ n₂.toNat < 192) ∧ (128 ≤ n₃.toNat ∧ n₃.toNat < 192)) ∧
        0x10000 ≤ ((lead * 64 + n₁.toNat % 64) * 64 + n₂.toNat % 64) * 64 + n₃.toNat % 64 ∧
          Scalar (((lead * 64 + n₁.toNat % 64) * 64 + n₂.toNat % 64) * 64 + n₃.toNat % 64) := by
  rw [continues, Bool.and_eq_true, all_eq_true, decide_eq_true_eq, Scalar]
  simp only [forall_mem_cons, not_mem_nil, false_imp_iff, implies_true, and_true,
    decide_eq_true_eq, next_iff, foldl_cons, foldl_nil, shift_or_next, length_cons,
    length_nil, true_and]
  omega

theorem ofNat_toNat {b : Byte} {v : ℕ} (h : v = b.toNat) : BitVec.ofNat 8 v = b := by
  rw [h, BitVec.ofNat_toNat, BitVec.setWidth_eq]

theorem toNat_ofNat {v : ℕ} (h : v < 256) : (BitVec.ofNat 8 v).toNat = v := by
  rw [BitVec.toNat_ofNat, Nat.mod_eq_of_lt h]

/-- **What is accepted begins with the encoding of a scalar value.** -/
theorem encode_of_valid {c : Byte} {rest : List Byte} (h : validUtf8 (c :: rest) = true) :
    ∃ v later, Scalar v ∧ c :: rest = encode v ++ later ∧ validUtf8 later = true := by
  have hc := c.isLt
  obtain ⟨hlead₁, hlead₂, hlead₃⟩ := lead_eq c
  rw [validUtf8.eq_def] at h
  dsimp only at h
  split at h
  case isTrue hone =>
    have hone : c.toNat < 128 := hone
    refine ⟨c.toNat, rest, ⟨by omega, by omega⟩, ?_, h⟩
    rw [encode, if_pos hone, ofNat_toNat rfl]
    rfl
  case isFalse =>
    split at h
    case isTrue htwo =>
      have hlow : 0xc2 ≤ c.toNat := htwo.1
      have hhigh : c.toNat ≤ 0xdf := htwo.2
      cases rest with
      | nil => cases h
      | cons n₁ later =>
          rw [Bool.and_eq_true, continues_one, hlead₁] at h
          obtain ⟨⟨hnext, hscalar⟩, hlater⟩ := h
          refine ⟨_, later, hscalar, ?_, hlater⟩
          rw [encode, if_neg (by omega), if_pos (by omega), ofNat_toNat (b := c) (by omega),
            ofNat_toNat (b := n₁) (by omega)]
          rfl
    case isFalse =>
      split at h
      case isTrue hthree =>
        have hlow : 0xe0 ≤ c.toNat := hthree.1
        have hhigh : c.toNat ≤ 0xef := hthree.2
        rcases rest with _ | ⟨n₁, _ | ⟨n₂, later⟩⟩
        · cases h
        · cases h
        · rw [Bool.and_eq_true, continues_two, hlead₂] at h
          obtain ⟨⟨hnexts, hlarge, hscalar⟩, hlater⟩ := h
          refine ⟨_, later, hscalar, ?_, hlater⟩
          rw [encode, if_neg (by omega), if_neg (by omega), if_pos (by omega),
            ofNat_toNat (b := c) (by omega), ofNat_toNat (b := n₁) (by omega),
            ofNat_toNat (b := n₂) (by omega)]
          rfl
      case isFalse =>
        split at h
        case isTrue hfour =>
          have hlow : 0xf0 ≤ c.toNat := hfour.1
          have hhigh : c.toNat ≤ 0xf4 := hfour.2
          rcases rest with _ | ⟨n₁, _ | ⟨n₂, _ | ⟨n₃, later⟩⟩⟩
          · cases h
          · cases h
          · cases h
          · rw [Bool.and_eq_true, continues_three, hlead₃] at h
            obtain ⟨⟨hnexts, hlarge, hscalar⟩, hlater⟩ := h
            refine ⟨_, later, hscalar, ?_, hlater⟩
            rw [encode, if_neg (by omega), if_neg (by omega), if_neg (by omega),
              ofNat_toNat (b := c) (by omega), ofNat_toNat (b := n₁) (by omega),
              ofNat_toNat (b := n₂) (by omega), ofNat_toNat (b := n₃) (by omega)]
            rfl
        case isFalse => exact absurd h Bool.false_ne_true

/-- **The encoding of a scalar value is accepted**, and what is behind it decides. -/
theorem validUtf8_encode {v : ℕ} (hv : Scalar v) (later : List Byte) :
    validUtf8 (encode v ++ later) = validUtf8 later := by
  have hlimit := hv.1
  rw [encode]
  split
  case isTrue hone =>
    rw [singleton_append, validUtf8.eq_def]
    dsimp only
    rw [if_pos]
    show (BitVec.ofNat 8 v).toNat < 0x80
    rw [toNat_ofNat (by omega)]
    exact hone
  case isFalse =>
    split
    case isTrue htwo =>
      have hlead := toNat_ofNat (show 0xc0 + v / 64 < 256 by omega)
      have hcontinues : continues (BitVec.ofNat 8 (0xc0 + v / 64) &&& 0x1f).toNat
          [BitVec.ofNat 8 (0x80 + v % 64)] = true := by
        rw [continues_one, (lead_eq _).1, hlead, toNat_ofNat (by omega),
          show (0xc0 + v / 64) % 32 * 64 + (0x80 + v % 64) % 64 = v by omega]
        exact ⟨by omega, hv⟩
      rw [cons_append, singleton_append, validUtf8.eq_def]
      dsimp only
      rw [hcontinues, Bool.true_and, if_neg, if_pos]
      · show 0xc2 ≤ (BitVec.ofNat 8 (0xc0 + v / 64)).toNat ∧
          (BitVec.ofNat 8 (0xc0 + v / 64)).toNat ≤ 0xdf
        omega
      · show ¬ (BitVec.ofNat 8 (0xc0 + v / 64)).toNat < 0x80
        omega
    case isFalse =>
      split
      case isTrue hthree =>
        have hlead := toNat_ofNat (show 0xe0 + v / 4096 < 256 by omega)
        have hcontinues : continues (BitVec.ofNat 8 (0xe0 + v / 4096) &&& 0x0f).toNat
            [BitVec.ofNat 8 (0x80 + v / 64 % 64), BitVec.ofNat 8 (0x80 + v % 64)] = true := by
          rw [continues_two, (lead_eq _).2.1, hlead, toNat_ofNat (by omega), toNat_ofNat (by omega),
            show ((0xe0 + v / 4096) % 16 * 64 + (0x80 + v / 64 % 64) % 64) * 64 +
              (0x80 + v % 64) % 64 = v by omega]
          exact ⟨by omega, by omega, hv⟩
        rw [cons_append, cons_append, singleton_append, validUtf8.eq_def]
        dsimp only
        rw [hcontinues, Bool.true_and, if_neg, if_neg, if_pos]
        · show 0xe0 ≤ (BitVec.ofNat 8 (0xe0 + v / 4096)).toNat ∧
            (BitVec.ofNat 8 (0xe0 + v / 4096)).toNat ≤ 0xef
          omega
        · rintro ⟨-, hhigh⟩
          have hhigh : (BitVec.ofNat 8 (0xe0 + v / 4096)).toNat ≤ 0xdf := hhigh
          omega
        · show ¬ (BitVec.ofNat 8 (0xe0 + v / 4096)).toNat < 0x80
          omega
      case isFalse hfour =>
        have hlead := toNat_ofNat (show 0xf0 + v / 262144 < 256 by omega)
        have hcontinues : continues (BitVec.ofNat 8 (0xf0 + v / 262144) &&& 0x07).toNat
            [BitVec.ofNat 8 (0x80 + v / 4096 % 64), BitVec.ofNat 8 (0x80 + v / 64 % 64),
              BitVec.ofNat 8 (0x80 + v % 64)] = true := by
          rw [continues_three, (lead_eq _).2.2, hlead, toNat_ofNat (by omega),
            toNat_ofNat (by omega), toNat_ofNat (by omega),
            show (((0xf0 + v / 262144) % 8 * 64 + (0x80 + v / 4096 % 64) % 64) * 64 +
              (0x80 + v / 64 % 64) % 64) * 64 + (0x80 + v % 64) % 64 = v by omega]
          exact ⟨by omega, by omega, hv⟩
        rw [cons_append, cons_append, cons_append, singleton_append,
          validUtf8.eq_def]
        dsimp only
        rw [hcontinues, Bool.true_and, if_neg, if_neg, if_neg, if_pos]
        · show 0xf0 ≤ (BitVec.ofNat 8 (0xf0 + v / 262144)).toNat ∧
            (BitVec.ofNat 8 (0xf0 + v / 262144)).toNat ≤ 0xf4
          omega
        · rintro ⟨-, hhigh⟩
          have hhigh : (BitVec.ofNat 8 (0xf0 + v / 262144)).toNat ≤ 0xef := hhigh
          omega
        · rintro ⟨-, hhigh⟩
          have hhigh : (BitVec.ofNat 8 (0xf0 + v / 262144)).toNat ≤ 0xdf := hhigh
          omega
        · show ¬ (BitVec.ofNat 8 (0xf0 + v / 262144)).toNat < 0x80
          omega

theorem encode_ne_nil (v : ℕ) : encode v ≠ [] := by
  rw [encode]
  repeat' split
  all_goals exact cons_ne_nil _ _

/-- Exactly the encodings of scalar values are accepted. -/
theorem validUtf8_iff (data : List Byte) : validUtf8 data = true ↔ WellFormed data := by
  constructor
  · intro h
    induction hn : data.length using Nat.strongRecOn generalizing data with
    | ind n ih =>
        cases data with
        | nil => exact ⟨[], fun v hv => absurd hv not_mem_nil, rfl⟩
        | cons c rest =>
            obtain ⟨v, later, hscalar, hdata, hlater⟩ := encode_of_valid h
            have hshort : later.length < n := by
              have hlength := congrArg List.length hdata
              have hpos := length_pos_of_ne_nil (encode_ne_nil v)
              rw [length_append] at hlength
              omega
            obtain ⟨scalars, hscalars, hencoded⟩ := ih later.length hshort later hlater rfl
            refine ⟨v :: scalars, forall_mem_cons.mpr ⟨hscalar, hscalars⟩, ?_⟩
            rw [hdata, flatMap_cons, hencoded]
  · rintro ⟨scalars, hscalars, rfl⟩
    induction scalars with
    | nil => rfl
    | cons v scalars ih =>
        rw [forall_mem_cons] at hscalars
        rw [flatMap_cons, validUtf8_encode hscalars.1]
        exact ih hscalars.2

/-! ## The loop -/

/-- What a first byte that is not a character says: its part of the value, and how many bytes go
on. -/
def lead (c : Byte) : Option (ℕ × ℕ) :=
  if 0xc2 ≤ c ∧ c ≤ 0xdf then some ((c &&& 0x1f).toNat, 1)
  else if 0xe0 ≤ c ∧ c ≤ 0xef then some ((c &&& 0x0f).toNat, 2)
  else if 0xf0 ≤ c ∧ c ≤ 0xf4 then some ((c &&& 0x07).toNat, 3)
  else none

/-- The inner loop: `none` when it looks at a byte that is not there, `some none` at one that does
not go on. -/
def readNexts (data : List Byte) : ℕ → ℕ → ℕ → Option (Option ℕ)
  | value, 0, _ => some (some value)
  | value, n + 1, i =>
      data[i]?.bind fun next =>
        if next &&& 0xc0 ≠ 0x80 then some none
        else readNexts data (value <<< 6 ||| (next &&& 0x3f).toNat) n (i + 1)

/-- The loop of `valid_utf8` from an index on, where every byte that it looks at is to be there, for
so many turns at most. -/
def validFrom (data : List Byte) : ℕ → ℕ → Option Bool
  | 0, _ => none
  | turns + 1, i =>
      if i < data.length then
        data[i]?.bind fun c =>
          if c < 0x80 then validFrom data turns (i + 1)
          else
            match lead c with
            | none => some false
            | some (value, continuation) =>
                if continuation > data.length - (i + 1) then some false
                else
                  (readNexts data value continuation (i + 1)).bind fun
                    | none => some false
                    | some value =>
                        if continuation = 2 ∧ value < 0x800 ∨ continuation = 3 ∧ value < 0x10000 ∨
                            value > 0x10ffff ∨ 0xd800 ≤ value ∧ value ≤ 0xdfff then some false
                        else validFrom data turns (i + 1 + continuation)
      else some true

/-- The function on a string: `none` when it reads outside of it. -/
def checkedUtf8 (data : List Byte) : Option Bool := validFrom data (data.length + 1) 0

theorem readNexts_eq (data : List Byte) (value : ℕ) {n i : ℕ} (h : i + n ≤ data.length) :
    readNexts data value n i =
      some (if ((data.drop i).take n).all (fun next => next &&& 0xc0 = 0x80) then
        some (((data.drop i).take n).foldl
          (fun value next => value <<< 6 ||| (next &&& 0x3f).toNat) value) else none) := by
  induction n generalizing value i with
  | zero => rfl
  | succ n ih =>
      have hin : i < data.length := by omega
      rw [readNexts, getElem?_eq_getElem hin, Option.bind_some,
        drop_eq_getElem_cons hin, take_succ_cons, all_cons, foldl_cons]
      by_cases hnext : data[i] &&& 0xc0 = 0x80
      · rw [if_neg (not_not.mpr hnext), ih _ (by omega), decide_eq_true hnext, Bool.true_and]
      · rw [if_pos hnext, decide_eq_false hnext, Bool.false_and]
        rfl

/-- The list function, by the number of bytes that go on. -/
theorem validUtf8_cons (c : Byte) (rest : List Byte) :
    validUtf8 (c :: rest) =
      if c < 0x80 then validUtf8 rest
      else
        match lead c with
        | none => false
        | some (value, continuation) =>
            if continuation > rest.length then false
            else continues value (rest.take continuation) && validUtf8 (rest.drop continuation) := by
  rw [validUtf8.eq_def, lead]
  dsimp only
  split
  case isTrue => rfl
  case isFalse =>
    split
    case isTrue =>
      rcases rest with _ | ⟨n₁, later⟩ <;> rfl
    case isFalse =>
      split
      case isTrue =>
        rcases rest with _ | ⟨n₁, _ | ⟨n₂, later⟩⟩ <;> rfl
      case isFalse =>
        split
        case isTrue =>
          rcases rest with _ | ⟨n₁, _ | ⟨n₂, _ | ⟨n₃, later⟩⟩⟩ <;> rfl
        case isFalse => rfl

/-- The loop does what the list function does, and reads inside of the string. -/
theorem validFrom_eq {data : List Byte} {turns i : ℕ} (hi : i ≤ data.length)
    (hturns : data.length - i < turns) :
    validFrom data turns i = some (validUtf8 (data.drop i)) := by
  induction turns generalizing i with
  | zero => exact absurd hturns (Nat.not_lt_zero _)
  | succ turns ih =>
      rw [validFrom]
      split
      case isFalse hend =>
        rw [drop_eq_nil_of_le (by omega)]
        rfl
      case isTrue hin =>
        have hrest : (data.drop (i + 1)).length = data.length - (i + 1) := length_drop
        rw [getElem?_eq_getElem hin, Option.bind_some, drop_eq_getElem_cons hin,
          validUtf8_cons, hrest]
        split
        case isTrue => exact ih (by omega) (by omega)
        case isFalse =>
          cases lead data[i] with
          | none => rfl
          | some p =>
              obtain ⟨value, continuation⟩ := p
              dsimp only
              split
              case isTrue => rfl
              case isFalse hroom =>
                have htake : ((data.drop (i + 1)).take continuation).length = continuation := by
                  rw [length_take]
                  omega
                rw [readNexts_eq _ _ (by omega), Option.bind_some, continues, htake]
                -- the range is looked at when the bytes go on only
                cases ((data.drop (i + 1)).take continuation).all
                  (fun next => decide (next &&& 0xc0 = 0x80)) with
                | false => rfl
                | true =>
                    rw [if_pos rfl, Bool.true_and]
                    dsimp only
                    split
                    case isTrue hrange =>
                      rw [decide_eq_false (not_not.mpr hrange), Bool.false_and]
                    case isFalse hrange =>
                      rw [decide_eq_true hrange, Bool.true_and, ih (by omega) (by omega),
                        drop_drop]

/-- **UTF-8 validation**: every string is read inside of its bounds, and accepted when it is made of
encodings of scalar values, and only then. -/
theorem checkedUtf8_iff (data : List Byte) :
    ∃ valid, checkedUtf8 data = some valid ∧ (valid = true ↔ WellFormed data) :=
  ⟨validUtf8 data, validFrom_eq (Nat.zero_le _) (by omega), validUtf8_iff data⟩

end Zstreamer.DanteSession.Utf8

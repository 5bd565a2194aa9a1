/-
# From start codes to lengths

`hls_annexb_to_avcc` writes each NAL unit of a byte stream that is not empty behind its length in
four bytes.  A start code of three bytes gives way to a length of four, so the output can be longer
than the stream; every unit has a byte, so it is longer by a quarter at most.
-/

import Zstreamer.Rtp.Scanner

namespace Zstreamer.Hls

open Foundation Rtp List Option

/-! ## The function -/

/-- The loop that takes zero bytes off the end of a NAL unit. -/
def trimEnd (data : List Byte) (nalStart : ℕ) : ℕ → Option ℕ
  | 0 => some 0
  | nalEnd + 1 =>
      if nalEnd + 1 > nalStart then
        data[nalEnd]?.bind fun last =>
          if last = 0 then trimEnd data nalStart nalEnd else some (nalEnd + 1)
      else some (nalEnd + 1)

/-- A length in four bytes. -/
def lengthBytes (n : ℕ) : List Byte :=
  [BitVec.ofNat 8 (n >>> 24), BitVec.ofNat 8 (n >>> 16), BitVec.ofNat 8 (n >>> 8), BitVec.ofNat 8 n]

/-- What is written behind the output, which has so much room. -/
def writeTo (room : ℕ) (out bytes : List Byte) : Option (List Byte) :=
  if out.length + bytes.length ≤ room then some (out ++ bytes) else none

/-- A NAL unit that is not empty is written behind its length. -/
def writeUnit (data : List Byte) (room nalStart nalSize : ℕ) (out : List Byte) :
    Option (List Byte) :=
  if nalSize > 0 then
    (writeTo room out (lengthBytes nalSize)).bind fun out =>
      writeTo room out ((data.drop nalStart).take nalSize)
  else some out

/-- The loop over the start codes, for so many turns at most.  `none` when something is read or
written out of range. -/
def convertFrom (data : List Byte) (room : ℕ) : ℕ → ℕ → ℕ → List Byte → Option (List Byte)
  | 0, _, _, _ => none
  | turns + 1, pos, codeSize, out => do
      let nalStart := pos + codeSize
      let next ← zstFindStartCode data nalStart
      let nalEnd ← trimEnd data nalStart ((next.map Prod.fst).getD data.length)
      let out ← writeUnit data room nalStart (nalEnd - nalStart) out
      match next with
      | none => some out
      | some (pos, codeSize) => convertFrom data room turns pos codeSize out

/-- `hls_annexb_to_avcc`; `some none` is `NULL`.  `grant` says whether there is memory. -/
def annexbToAvcc (grant : Bool) (data : List Byte) : Option (Option (List Byte)) := do
  let first ← zstFindStartCode data 0
  match first with
  | none => some none
  | some (pos, codeSize) =>
      if grant = false then some none
      else
        (convertFrom data (data.length + data.length / 2 + 4) (data.length + 1) pos codeSize []).map
          some

/-! ## Lengths and units -/

/-- The NAL units of a stream that are not empty: what is between the start codes, without the zero
bytes at its end. -/
def nalUnitsOf (data : List Byte) : List (List Byte) :=
  match findStartCode data with
  | none => []
  | some (pos, code) =>
      ((nalUnitsFrom (data.length + 1) (data.drop (pos + code))).map Prod.fst).filter (· ≠ [])

/-- Units, each behind its length. -/
def lengthPrefixed (units : List (List Byte)) : List Byte :=
  units.flatMap fun unit => lengthBytes unit.length ++ unit

/-- The units behind their lengths, in so many turns at most. -/
def readUnits : ℕ → List Byte → Option (List (List Byte))
  | 0, _ => none
  | turns + 1, data =>
      if data = [] then some []
      else
        let n := bigEndian (data.take 4)
        if data.length < 4 + n then none
        else (readUnits turns (data.drop (4 + n))).map ((data.drop 4).take n :: ·)

theorem bigEndian_lengthBytes {n : ℕ} (hn : n < 2 ^ 32) : bigEndian (lengthBytes n) = n := by
  rw [bigEndian, lengthBytes]
  simp only [foldl_cons, foldl_nil, BitVec.toNat_ofNat, Nat.shiftRight_eq_div_pow]
  omega

/-- **Decoding gives the units back.** -/
theorem readUnits_lengthPrefixed {units : List (List Byte)}
    (hlength : ∀ unit ∈ units, unit.length < 2 ^ 32) {turns : ℕ} (hturns : units.length < turns) :
    readUnits turns (lengthPrefixed units) = some units := by
  induction units generalizing turns with
  | nil =>
      obtain ⟨turns, rfl⟩ := Nat.exists_eq_add_of_lt hturns
      rfl
  | cons unit units ih =>
      obtain ⟨turns, rfl⟩ : ∃ more, turns = more + 1 := ⟨turns - 1, by omega⟩
      rw [length_cons] at hturns
      rw [forall_mem_cons] at hlength
      have hdata : lengthPrefixed (unit :: units) =
          lengthBytes unit.length ++ (unit ++ lengthPrefixed units) := by
        rw [lengthPrefixed, flatMap_cons, append_assoc]
        rfl
      have hfour : (lengthBytes unit.length).length = 4 := rfl
      have htake : (lengthPrefixed (unit :: units)).take 4 = lengthBytes unit.length := by
        rw [hdata, take_left' hfour]
      have hdrop : (lengthPrefixed (unit :: units)).drop 4 = unit ++ lengthPrefixed units := by
        rw [hdata, drop_left' hfour]
      have hne : lengthPrefixed (unit :: units) ≠ [] := by
        rw [hdata]
        exact cons_ne_nil _ _
      have htotal : (lengthPrefixed (unit :: units)).length =
          4 + (unit.length + (lengthPrefixed units).length) := by
        rw [hdata, length_append, length_append, hfour]
      rw [readUnits, if_neg hne, htake, bigEndian_lengthBytes hlength.1]
      dsimp only
      rw [if_neg (by omega), ← drop_drop, hdrop, drop_left, take_left,
        ih hlength.2 (by omega)]
      rfl

/-! ## The loop -/

variable {data : List Byte}

/-- The zero bytes at the end of a NAL unit are taken off. -/
theorem trimEnd_eq {nalStart nalEnd : ℕ} (hstart : nalStart ≤ nalEnd) (hend : nalEnd ≤ data.length) :
    ∃ last, trimEnd data nalStart nalEnd = some last ∧ nalStart ≤ last ∧ last ≤ nalEnd ∧
      (data.drop nalStart).take (last - nalStart) =
        stripZeros ((data.drop nalStart).take (nalEnd - nalStart)) := by
  induction nalEnd with
  | zero =>
      refine ⟨0, rfl, hstart, Nat.le_refl 0, ?_⟩
      rw [Nat.zero_sub, take_zero]
      rfl
  | succ nalEnd ih =>
      rw [trimEnd]
      by_cases hmore : nalEnd + 1 > nalStart
      · have hin : nalEnd < data.length := hend
        have hlast : (data.drop nalStart).take (nalEnd + 1 - nalStart) =
            (data.drop nalStart).take (nalEnd - nalStart) ++ [data[nalEnd]] := by
          have hget : (data.drop nalStart)[nalEnd - nalStart]? = some data[nalEnd] := by
            rw [getElem?_drop, Nat.add_sub_cancel' (by omega), getElem?_eq_getElem hin]
          rw [show nalEnd + 1 - nalStart = nalEnd - nalStart + 1 by omega, take_add_one, hget]
          rfl
        rw [if_pos hmore, getElem?_eq_getElem hin, bind_some, hlast, stripZeros,
          rdropWhile_concat]
        by_cases hzero : data[nalEnd] = 0
        · obtain ⟨last, hrun, hlow, hhigh, htake⟩ := ih (by omega) (by omega)
          rw [if_pos hzero, if_pos (decide_eq_true hzero)]
          exact ⟨last, hrun, hlow, by omega, htake⟩
        · rw [if_neg hzero, if_neg (by simpa using hzero)]
          exact ⟨nalEnd + 1, rfl, hstart, Nat.le_refl _, hlast⟩
      · rw [if_neg hmore]
        refine ⟨nalEnd + 1, rfl, hstart, Nat.le_refl _, ?_⟩
        rw [show nalEnd + 1 - nalStart = 0 by omega, take_zero]
        rfl

/-- The units behind a start code that are not empty. -/
def unitsFrom (turns : ℕ) (data : List Byte) : List (List Byte) :=
  ((nalUnitsFrom turns data).map Prod.fst).filter (· ≠ [])

/-- What is written for a unit, if it is not empty. -/
def prefixed (unit : List Byte) : List Byte :=
  if unit = [] then [] else lengthBytes unit.length ++ unit

theorem lengthPrefixed_filter (unit : List Byte) (units : List (List Byte)) :
    lengthPrefixed ((unit :: units).filter (· ≠ [])) =
      prefixed unit ++ lengthPrefixed (units.filter (· ≠ [])) := by
  by_cases hunit : unit = []
  · rw [prefixed, if_pos hunit, filter_cons_of_neg (by simpa using hunit), nil_append]
  · rw [prefixed, if_neg hunit, filter_cons_of_pos (by simpa using hunit), lengthPrefixed,
      flatMap_cons]
    rfl

/-- The unit between two places is written when there is room for it. -/
theorem writeUnit_eq {room nalStart nalSize : ℕ} {out : List Byte}
    (hin : nalStart + nalSize ≤ data.length)
    (hroom : nalSize > 0 → out.length + 4 + nalSize ≤ room) :
    writeUnit data room nalStart nalSize out =
      some (out ++ prefixed ((data.drop nalStart).take nalSize)) := by
  rw [writeUnit]
  have hlength : ((data.drop nalStart).take nalSize).length = nalSize := by
    rw [length_take, length_drop]
    omega
  by_cases hpos : nalSize > 0
  · have hne : (data.drop nalStart).take nalSize ≠ [] := by
      intro hnil
      rw [hnil, length_nil] at hlength
      omega
    have hfour : (lengthBytes nalSize).length = 4 := rfl
    have hroom := hroom hpos
    have hfirst : writeTo room out (lengthBytes nalSize) = some (out ++ lengthBytes nalSize) :=
      if_pos (by omega)
    have hsecond : writeTo room (out ++ lengthBytes nalSize) ((data.drop nalStart).take nalSize) =
        some (out ++ lengthBytes nalSize ++ (data.drop nalStart).take nalSize) :=
      if_pos (by rw [length_append]; omega)
    rw [if_pos hpos, prefixed, if_neg hne, hlength, ← append_assoc, ← hsecond, hfirst]
    rfl
  · rw [if_neg hpos, show nalSize = 0 by omega, take_zero, prefixed, if_pos rfl,
      append_nil]

theorem length_prefixed (unit : List Byte) :
    (prefixed unit).length = if unit = [] then 0 else 4 + unit.length := by
  rw [prefixed]
  split
  case isTrue => rfl
  case isFalse => exact length_append

/-- A turn of the loop: one unit, and on from the next start code. -/
theorem convertFrom_succ {room turns pos codeSize last : ℕ} {out : List Byte}
    {next : Option (ℕ × ℕ)} (hnext : zstFindStartCode data (pos + codeSize) = some next)
    (htrim : trimEnd data (pos + codeSize) ((next.map Prod.fst).getD data.length) = some last)
    (hin : pos + codeSize + (last - (pos + codeSize)) ≤ data.length)
    (hroom : last - (pos + codeSize) > 0 → out.length + 4 + (last - (pos + codeSize)) ≤ room) :
    convertFrom data room (turns + 1) pos codeSize out =
      let out := out ++ prefixed ((data.drop (pos + codeSize)).take (last - (pos + codeSize)))
      next.elim (some out) fun found => convertFrom data room turns found.1 found.2 out := by
  rw [convertFrom]
  simp only [hnext, htrim, writeUnit_eq hin hroom, bind_eq_bind, bind_some]
  cases next with
  | none => rfl
  | some found => rfl

/-- **The loop writes the units behind their lengths.**  The output is never longer than five
quarters of what the loop has passed. -/
theorem convertFrom_eq {turns pos codeSize : ℕ} {out : List Byte} (hcode : 3 ≤ codeSize)
    (hstart : pos + codeSize ≤ data.length) (hturns : data.length - (pos + codeSize) < turns)
    (hout : 4 * out.length ≤ 5 * pos) :
    convertFrom data (data.length + data.length / 2 + 4) turns pos codeSize out =
      some (out ++ lengthPrefixed (unitsFrom turns (data.drop (pos + codeSize)))) := by
  induction turns generalizing pos codeSize out with
  | zero => exact absurd hturns (Nat.not_lt_zero _)
  | succ turns ih =>
      have hnext := zstFindStartCode_eq hstart
      rw [unitsFrom, nalUnitsFrom]
      rw [startCodeFrom] at hnext
      cases hfound : findStartCode (data.drop (pos + codeSize)) with
      | none =>
          rw [hfound] at hnext
          obtain ⟨last, htrim, hlow, hhigh, htake⟩ := trimEnd_eq hstart (Nat.le_refl data.length)
          have hwhole : (data.drop (pos + codeSize)).take (data.length - (pos + codeSize)) =
              data.drop (pos + codeSize) :=
            take_of_length_le (Nat.le_of_eq length_drop)
          rw [hwhole] at htake
          rw [convertFrom_succ hnext htrim (by omega) (by omega), htake]
          dsimp only [map_none, elim_none]
          rw [map_singleton, lengthPrefixed_filter, filter_nil]
          show _ = some (out ++ (_ ++ []))
          rw [append_nil]
      | some found =>
          obtain ⟨p, code⟩ := found
          rw [hfound] at hnext
          obtain ⟨hthree, -, hbound⟩ := findStartCode_bounds hfound
          rw [length_drop] at hbound
          have hend : pos + codeSize + p ≤ data.length := by omega
          obtain ⟨last, htrim, hlow, hhigh, htake⟩ :=
            trimEnd_eq (Nat.le_add_right (pos + codeSize) p) hend
          have hsize : ((data.drop (pos + codeSize)).take (last - (pos + codeSize))).length =
              last - (pos + codeSize) := by
            rw [length_take, length_drop]
            omega
          have hlength := length_prefixed
            ((data.drop (pos + codeSize)).take (last - (pos + codeSize)))
          rw [hsize] at hlength
          rw [convertFrom_succ hnext htrim (by omega) (by omega)]
          dsimp only [map_some, elim_some]
          rw [ih hthree (by omega) (by omega) (by
            rw [length_append, hlength]
            split
            case isTrue => omega
            case isFalse hne =>
              have hpos : 0 < last - (pos + codeSize) := by
                rw [← hsize]
                exact length_pos_of_ne_nil hne
              omega)]
          rw [Nat.add_sub_cancel_left] at htake
          rw [htake, append_assoc, map_cons, lengthPrefixed_filter, drop_drop,
            Nat.add_assoc _ p code]
          rfl

/-! ## The whole stream -/

theorem length_stripZeros_le (unit : List Byte) : (stripZeros unit).length ≤ unit.length :=
  (List.rdropWhile_prefix _ unit).length_le

/-- A unit is a part of the stream. -/
theorem length_unitsFrom_le {turns : ℕ} {unit : List Byte} (h : unit ∈ unitsFrom turns data) :
    unit.length ≤ data.length := by
  rw [unitsFrom] at h
  obtain ⟨p, hp, rfl⟩ := mem_map.mp (mem_of_mem_filter h)
  clear h
  induction turns generalizing data with
  | zero => exact absurd hp not_mem_nil
  | succ turns ih =>
      rw [nalUnitsFrom] at hp
      split at hp
      · rw [mem_singleton.mp hp]
        exact length_stripZeros_le data
      · rename_i pos code hfound
        rcases mem_cons.mp hp with rfl | hlater
        · refine (length_stripZeros_le _).trans ?_
          rw [length_take]
          exact Nat.min_le_right _ _
        · refine (ih hlater).trans ?_
          rw [length_drop]
          exact Nat.sub_le _ _

/-- What is given for a stream: units behind their lengths, in the memory that was allocated, from
which they can be read back. -/
structure Converted (data : List Byte) (out : List Byte) : Prop where
  written : out = lengthPrefixed (nalUnitsOf data)
  room : out.length ≤ data.length + data.length / 2 + 4
  decoded : ∀ turns, (nalUnitsOf data).length < turns → readUnits turns out = some (nalUnitsOf data)

/-- The units are short enough for their lengths. -/
theorem length_nalUnitsOf_le {unit : List Byte} (h : unit ∈ nalUnitsOf data) :
    unit.length ≤ data.length := by
  rw [nalUnitsOf] at h
  split at h
  · exact absurd h not_mem_nil
  · refine (length_unitsFrom_le h).trans ?_
    rw [length_drop]
    exact Nat.sub_le _ _

theorem writeUnit_room {room nalStart nalSize : ℕ} {out out' : List Byte}
    (h : writeUnit data room nalStart nalSize out = some out') (hout : out.length ≤ room) :
    out'.length ≤ room := by
  have hwrite : ∀ {out bytes out' : List Byte}, writeTo room out bytes = some out' →
      out'.length ≤ room := by
    intro out bytes out' h
    rw [writeTo] at h
    split at h
    case isTrue hroom =>
      rw [← Option.some.inj h, length_append]
      exact hroom
    case isFalse => exact absurd h (by simp)
  rw [writeUnit] at h
  split at h
  case isTrue =>
    obtain ⟨_, -, hsecond⟩ := bind_eq_some_iff.mp h
    exact hwrite hsecond
  case isFalse =>
    rw [← Option.some.inj h]
    exact hout

/-- Nothing is written beyond the memory. -/
theorem convertFrom_room {room turns pos codeSize : ℕ} {out result : List Byte}
    (h : convertFrom data room turns pos codeSize out = some result) (hout : out.length ≤ room) :
    result.length ≤ room := by
  induction turns generalizing pos codeSize out with
  | zero => exact absurd h (by simp [convertFrom])
  | succ turns ih =>
      rw [convertFrom] at h
      simp only [bind_eq_bind, bind_eq_some_iff] at h
      obtain ⟨next, -, last, -, out', hwrite, hrest⟩ := h
      have hout' := writeUnit_room hwrite hout
      cases next with
      | none =>
          rw [← Option.some.inj hrest]
          exact hout'
      | some found => exact ih hrest hout'

/-- **Conversion**: the units of the stream behind their lengths, in the memory that was allocated.
There is no output when there is no start code. -/
theorem annexbToAvcc_converted (data : List Byte) (hsize : data.length ≤ 2 ^ 30) :
    ∃ result, annexbToAvcc true data = some result ∧
      (result = none ↔ findStartCode data = none) ∧ Converted data (result.getD []) := by
  have hdecoded : ∀ turns, (nalUnitsOf data).length < turns →
      readUnits turns (lengthPrefixed (nalUnitsOf data)) = some (nalUnitsOf data) :=
    fun turns hturns => readUnits_lengthPrefixed (fun unit hunit =>
      Nat.lt_of_le_of_lt (length_nalUnitsOf_le hunit) (by omega)) hturns
  have hfirst := zstFindStartCode_eq (Nat.zero_le data.length)
  rw [startCodeFrom, drop_zero] at hfirst
  rw [annexbToAvcc, hfirst, bind_eq_bind, bind_some]
  cases hfound : findStartCode data with
  | none =>
      have hnone : nalUnitsOf data = [] := by rw [nalUnitsOf, hfound]
      refine ⟨none, rfl, ⟨fun _ => rfl, fun _ => rfl⟩, ?_, Nat.zero_le _, ?_⟩
      · rw [hnone]
        rfl
      · rw [hnone] at hdecoded ⊢
        exact hdecoded
  | some found =>
      obtain ⟨pos, code⟩ := found
      obtain ⟨hthree, -, hbound⟩ := findStartCode_bounds hfound
      have hunits : nalUnitsOf data = unitsFrom (data.length + 1) (data.drop (pos + code)) := by
        rw [nalUnitsOf, hfound, unitsFrom]
      have hrun := @convertFrom_eq data (data.length + 1) pos code [] hthree hbound (by omega)
        (Nat.zero_le _)
      rw [nil_append, ← hunits] at hrun
      have hroom := convertFrom_room hrun (Nat.zero_le _)
      refine ⟨some (lengthPrefixed (nalUnitsOf data)), ?_, ⟨fun h => absurd h (by simp),
        fun h => absurd h (by simp)⟩, rfl, hroom, hdecoded⟩
      dsimp only [map_some]
      rw [if_neg (by decide), Nat.zero_add, hrun, map_some]

/-- Two short start codes and a long one. -/
theorem annexbToAvcc_converted_units :
    ∃ result, annexbToAvcc true [0, 0, 1, 5, 0, 0, 0, 1, 6, 7, 0, 0, 1] = some result ∧
      (result = none ↔ findStartCode [0, 0, 1, 5, 0, 0, 0, 1, 6, 7, 0, 0, 1] = none) ∧
      Converted [0, 0, 1, 5, 0, 0, 0, 1, 6, 7, 0, 0, 1] (result.getD []) :=
  annexbToAvcc_converted _ (by decide)

end Zstreamer.Hls

/-
# The scanner for start codes

`zst_find_start_code` goes from zero byte to zero byte with `memchr`, as far as two bytes before the
end, and looks at up to three bytes behind each.  It finds the first start code, and looks at no
byte outside of the data.
-/

import Zstreamer.Rtp.StartCode

namespace Zstreamer.Rtp

open Foundation

/-- `memchr` for a zero byte, between two places in the data: `none` when they are not. -/
def memchrZero (data : List Byte) (ptr stop : ℕ) : Option (Option ℕ) :=
  if ptr ≤ stop ∧ stop ≤ data.length then
    some ((List.range' ptr (stop - ptr)).find? fun i => data.getD i 1 = 0)
  else none

/-- The loop of `zst_find_start_code`, for so many turns at most, where every byte that it looks at
is to be there.  `some none` when there is no start code. -/
def scanFrom (data : List Byte) : ℕ → ℕ → Option (Option (ℕ × ℕ))
  | 0, _ => none
  | turns + 1, ptr =>
      if ptr < data.length - 2 then
        (memchrZero data ptr (data.length - 2)).bind fun
          | none => some none
          | some p =>
              data[p + 1]?.bind fun second =>
                if second = 0 then
                  data[p + 2]?.bind fun third =>
                    if third = 1 then some (some (p, 3))
                    else if third = 0 ∧ p + 3 < data.length then
                      data[p + 3]?.bind fun fourth =>
                        if fourth = 1 then some (some (p, 4)) else scanFrom data turns (p + 1)
                    else scanFrom data turns (p + 1)
                else scanFrom data turns (p + 1)
      else some none

/-- `zst_find_start_code`: the position and the size of the first start code from an offset on. -/
def zstFindStartCode (data : List Byte) (offset : ℕ) : Option (Option (ℕ × ℕ)) :=
  if data.length = 0 ∨ offset + 2 ≥ data.length then some none
  else scanFrom data (data.length + 1) offset

/-- The first start code from an offset on, with its position in the data. -/
def startCodeFrom (data : List Byte) (offset : ℕ) : Option (ℕ × ℕ) :=
  (findStartCode (data.drop offset)).map fun found => (offset + found.1, found.2)

variable {data : List Byte}

/-- A start code of three bytes that begins here. -/
theorem startCodeFrom_three {ptr : ℕ} (hthree : (data.drop ptr).take 3 = [0, 0, 1]) :
    startCodeFrom data ptr = some (ptr, 3) := by
  rw [startCodeFrom]
  cases hdrop : data.drop ptr with
  | nil =>
      rw [hdrop] at hthree
      exact absurd hthree (by simp)
  | cons b rest =>
      rw [← hdrop, hdrop, findStartCode, if_pos (hdrop ▸ hthree)]
      rfl

/-- A start code of four bytes that begins here. -/
theorem startCodeFrom_four {ptr : ℕ} (hthree : (data.drop ptr).take 3 ≠ [0, 0, 1])
    (hfour : (data.drop ptr).take 4 = [0, 0, 0, 1]) : startCodeFrom data ptr = some (ptr, 4) := by
  rw [startCodeFrom]
  cases hdrop : data.drop ptr with
  | nil =>
      rw [hdrop] at hfour
      exact absurd hfour (by simp)
  | cons b rest =>
      rw [← hdrop, hdrop, findStartCode, if_neg (hdrop ▸ hthree), if_pos (hdrop ▸ hfour)]
      rfl

/-- Where none begins, the next is further on. -/
theorem startCodeFrom_succ {ptr : ℕ} (hptr : ptr < data.length)
    (hthree : (data.drop ptr).take 3 ≠ [0, 0, 1]) (hfour : (data.drop ptr).take 4 ≠ [0, 0, 0, 1]) :
    startCodeFrom data ptr = startCodeFrom data (ptr + 1) := by
  rw [startCodeFrom, startCodeFrom]
  have hcons := List.drop_eq_getElem_cons hptr
  rw [hcons] at hthree hfour ⊢
  rw [findStartCode, if_neg hthree, if_neg hfour, Option.map_map]
  congr 1
  funext found
  show (ptr + (found.1 + 1), found.2) = (ptr + 1 + found.1, found.2)
  rw [Nat.add_comm found.1, Nat.add_assoc]

/-- Two bytes are no start code. -/
theorem startCodeFrom_end {ptr : ℕ} (h : data.length ≤ ptr + 2) : startCodeFrom data ptr = none := by
  have hshort : findStartCode (data.drop ptr) = none := by
    cases hfound : findStartCode (data.drop ptr) with
    | none => rfl
    | some found =>
        obtain ⟨hcode, -, hbound⟩ := findStartCode_bounds hfound
        rw [List.length_drop] at hbound
        omega
  rw [startCodeFrom, hshort]
  rfl

/-- A start code begins with a zero byte. -/
theorem startCodeFrom_nonzero {ptr : ℕ} (hptr : ptr < data.length) (hb : data[ptr] ≠ 0) :
    startCodeFrom data ptr = startCodeFrom data (ptr + 1) := by
  have hcons := List.drop_eq_getElem_cons hptr
  refine startCodeFrom_succ hptr ?_ ?_
  · rw [hcons]
    exact fun h => hb (List.cons.inj h).1
  · rw [hcons]
    exact fun h => hb (List.cons.inj h).1

/-- Bytes that are not zero are passed over. -/
theorem startCodeFrom_skip {ptr p : ℕ} (hp : ptr ≤ p) (hdata : p ≤ data.length)
    (hskip : ∀ i, ptr ≤ i → i < p → data.getD i 1 ≠ 0) :
    startCodeFrom data ptr = startCodeFrom data p := by
  induction p, hp using Nat.le_induction with
  | base => rfl
  | succ p hp ih =>
      have hin : p < data.length := hdata
      have hb := hskip p hp (Nat.lt_succ_self p)
      rw [List.getD_eq_getElem _ _ hin] at hb
      rw [ih (Nat.le_of_lt hin) fun i hlow hhigh => hskip i hlow (Nat.lt_succ_of_lt hhigh),
        startCodeFrom_nonzero hin hb]

/-- The four bytes at a zero byte decide whether a start code begins there. -/
theorem startCodeFrom_zero {p : ℕ} (hp : p + 2 < data.length) (hb : data[p] = 0) :
    startCodeFrom data p =
      if data[p + 1] = 0 then
        if data[p + 2] = 1 then some (p, 3)
        else if data[p + 2] = 0 ∧ data[p + 3]? = some 1 then some (p, 4)
        else startCodeFrom data (p + 1)
      else startCodeFrom data (p + 1) := by
  have hdrop : data.drop p = 0 :: data[p + 1] :: data[p + 2] :: data.drop (p + 3) := by
    rw [List.drop_eq_getElem_cons (by omega : p < data.length), hb,
      List.drop_eq_getElem_cons (by omega : p + 1 < data.length),
      List.drop_eq_getElem_cons (by omega : p + 2 < data.length)]
  have hthree : (data.drop p).take 3 = [0, data[p + 1], data[p + 2]] := by
    rw [hdrop]
    rfl
  have hfour : (data.drop p).take 4 = [0, 0, 0, 1] ↔
      data[p + 1] = 0 ∧ data[p + 2] = 0 ∧ data[p + 3]? = some 1 := by
    rw [hdrop, ← List.head?_drop]
    cases hrest : data.drop (p + 3) with
    | nil => simp
    | cons b rest => simp
  by_cases hsecond : data[p + 1] = 0
  · rw [if_pos hsecond]
    by_cases hone : data[p + 2] = 1
    · rw [if_pos hone]
      refine startCodeFrom_three ?_
      rw [hthree, hsecond, hone]
    · have hnot : (data.drop p).take 3 ≠ [0, 0, 1] := by
        rw [hthree, hsecond]
        intro h
        exact hone (List.cons.inj (List.cons.inj (List.cons.inj h).2).2).1
      rw [if_neg hone]
      by_cases hlong : data[p + 2] = 0 ∧ data[p + 3]? = some 1
      · rw [if_pos hlong]
        exact startCodeFrom_four hnot (hfour.mpr ⟨hsecond, hlong⟩)
      · rw [if_neg hlong]
        exact startCodeFrom_succ (by omega) hnot fun h => hlong (hfour.mp h).2
  · rw [if_neg hsecond]
    refine startCodeFrom_succ (by omega) ?_ fun h => hsecond (hfour.mp h).1
    rw [hthree]
    intro h
    exact hsecond (List.cons.inj (List.cons.inj h).2).1

/-- The loop finds the first start code. -/
theorem scanFrom_eq {turns ptr : ℕ} (hptr : ptr ≤ data.length) (hturns : data.length - ptr < turns) :
    scanFrom data turns ptr = some (startCodeFrom data ptr) := by
  induction turns generalizing ptr with
  | zero => exact absurd hturns (Nat.not_lt_zero _)
  | succ turns ih =>
      rw [scanFrom]
      by_cases hmore : ptr < data.length - 2
      swap
      · rw [if_neg hmore, startCodeFrom_end (by omega)]
      rw [if_pos hmore, memchrZero, if_pos ⟨by omega, by omega⟩, Option.bind_some]
      cases hzero : (List.range' ptr (data.length - 2 - ptr)).find? fun i => data.getD i 1 = 0 with
      | none =>
          have hnone := List.find?_range'_eq_none.mp hzero
          have hskip : startCodeFrom data ptr = startCodeFrom data (data.length - 2) :=
            startCodeFrom_skip (by omega) (by omega) fun i hlow hhigh => by
              simpa using hnone i hlow (by omega)
          dsimp only
          rw [hskip, startCodeFrom_end (by omega)]
      | some p =>
          obtain ⟨hp, hrange, hbefore⟩ := List.find?_range'_eq_some.mp hzero
          rw [List.mem_range'_1] at hrange
          have hroom : p + 2 < data.length := by omega
          have hb : data[p] = 0 := by
            rw [← List.getD_eq_getElem data 1 (by omega : p < data.length)]
            simpa using hp
          have hskip : startCodeFrom data ptr = startCodeFrom data p :=
            startCodeFrom_skip hrange.1 (by omega) fun i hlow hhigh => by
              simpa using hbefore i hlow hhigh
          have hnext : scanFrom data turns (p + 1) = some (startCodeFrom data (p + 1)) :=
            ih (by omega) (by omega)
          dsimp only
          rw [hskip, startCodeFrom_zero hroom hb, hnext,
            List.getElem?_eq_getElem (by omega : p + 1 < data.length), Option.bind_some,
            List.getElem?_eq_getElem hroom, Option.bind_some]
          by_cases hsecond : data[p + 1] = 0
          swap
          · rw [if_neg hsecond, if_neg hsecond]
          rw [if_pos hsecond, if_pos hsecond]
          by_cases hone : data[p + 2] = 1
          · rw [if_pos hone, if_pos hone]
          rw [if_neg hone, if_neg hone]
          -- the fourth byte is looked at when it is there
          by_cases hthird : data[p + 2] = 0 ∧ p + 3 < data.length
          · rw [if_pos hthird, List.getElem?_eq_getElem hthird.2, Option.bind_some]
            by_cases hfourth : data[p + 3] = 1
            · rw [if_pos hfourth, if_pos ⟨hthird.1, congrArg some hfourth⟩]
            · rw [if_neg hfourth, if_neg fun h => hfourth (Option.some.inj h.2)]
          · rw [if_neg hthird, if_neg]
            rintro ⟨hzero, hfourth⟩
            exact hthird ⟨hzero, (List.getElem?_eq_some_iff.mp hfourth).1⟩

/-- **The scanner finds the first start code** from an offset on, and reads inside of the data. -/
theorem zstFindStartCode_eq {offset : ℕ} (hoffset : offset ≤ data.length) :
    zstFindStartCode data offset = some (startCodeFrom data offset) := by
  rw [zstFindStartCode]
  split
  case isTrue hend => rw [startCodeFrom_end (by omega)]
  case isFalse => exact scanFrom_eq hoffset (by omega)

end Zstreamer.Rtp

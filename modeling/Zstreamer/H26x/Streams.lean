/-
# Streams of NAL units

The two formats of a stream, written down apart from the parser: NAL units between start
codes, and NAL units behind their lengths.  The scanners of the parser read both back.  A
format that is not set is detected: a stream has start codes when it begins with one.
Nothing is detected as long as there are not four bytes.
-/

import Zstreamer.H26x.Units

namespace Zstreamer.H26x

open Foundation Rtp List

/-! ## Streams -/

/-- The length of a NAL unit in so many bytes. -/
def lengthBytes : ℕ → ℕ → List Byte
  | 0, _ => []
  | size + 1, n => lengthBytes size (n / 256) ++ [BitVec.ofNat 8 n]

/-- NAL units behind their lengths. -/
def lengthPrefixed (size : ℕ) (nals : List (List Byte)) : List Byte :=
  nals.flatMap fun nal => lengthBytes size nal.length ++ nal

/-- What is between start codes, and behind the last, in so many turns at most. -/
def splitAtCodes : ℕ → List Byte → List (List Byte)
  | 0, _ => []
  | turns + 1, data =>
      match findStartCode data with
      | none => [data]
      | some (len, scLen) => data.take len :: splitAtCodes turns (data.drop (len + scLen))

/-- The NAL units between successive start codes. -/
def betweenCodes (data : List Byte) : List (List Byte) :=
  (splitAtCodes (data.length + 1) data).filter (· ≠ [])

/-- The well-formed streams of a format, and their NAL units. -/
inductive WellFormedStream (size maxNalSize : ℕ) : StreamFormat → List Byte → List (List Byte) → Prop
  | annexB {data : List Byte} {scLen : ℕ} (hcode : findStartCode data = some (0, scLen)) :
      WellFormedStream size maxNalSize .annexB data (betweenCodes data)
  | length {nals : List (List Byte)}
      (hnals : ∀ nal ∈ nals, nal ≠ [] ∧ nal.length ≤ maxNalSize ∧ nal.length < 256 ^ size) :
      WellFormedStream size maxNalSize .length (lengthPrefixed size nals) nals

theorem length_lengthBytes (size n : ℕ) : (lengthBytes size n).length = size := by
  induction size generalizing n with
  | zero => rfl
  | succ size ih => rw [lengthBytes, length_append, ih, length_singleton]

theorem bigEndian_lengthBytes {size n : ℕ} (hn : n < 256 ^ size) :
    bigEndian (lengthBytes size n) = n := by
  induction size generalizing n with
  | zero =>
      rw [pow_zero, Nat.lt_one_iff] at hn
      rw [hn]
      rfl
  | succ size ih =>
      have hhigh : n / 256 < 256 ^ size := by
        rw [Nat.div_lt_iff_lt_mul (by decide), ← pow_succ]
        exact hn
      have hfold : bigEndian (lengthBytes size (n / 256) ++ [BitVec.ofNat 8 n]) =
          bigEndian (lengthBytes size (n / 256)) * 256 + (BitVec.ofNat 8 n).toNat := by
        rw [bigEndian, foldl_append]
        rfl
      rw [lengthBytes, hfold, ih hhigh, BitVec.toNat_ofNat]
      exact Nat.div_add_mod' n 256

section LengthPrefixed

variable {size maxNalSize : ℕ} {nal : List Byte} {nals : List (List Byte)}

theorem step_lengthPrefixed (hnal : nal ≠ [] ∧ nal.length ≤ maxNalSize ∧ nal.length < 256 ^ size)
    (rest : List Byte) :
    (lengthScanner size maxNalSize).step (lengthBytes size nal.length ++ nal ++ rest) =
      some (some nal, size + nal.length) := by
  have hlength := length_lengthBytes size nal.length
  have htake : (lengthBytes size nal.length ++ nal ++ rest).take size =
      lengthBytes size nal.length := by
    rw [append_assoc]
    exact take_left' hlength
  have hdrop : (lengthBytes size nal.length ++ nal ++ rest).drop size = nal ++ rest := by
    rw [append_assoc]
    exact drop_left' hlength
  have hpos := length_pos_iff.mpr hnal.1
  change stepLength _ _ _ = _
  rw [stepLength, htake, hdrop, bigEndian_lengthBytes hnal.2.2, take_left, if_neg]
  rw [length_append, length_append, hlength]
  omega

/-- **NAL units behind their lengths are read back.** -/
theorem read_lengthPrefixed
    (hnals : ∀ nal ∈ nals, nal ≠ [] ∧ nal.length ≤ maxNalSize ∧ nal.length < 256 ^ size)
    (hsize : 1 ≤ size) (place : ℕ) :
    ((lengthScanner size maxNalSize).tokens place (lengthPrefixed size nals)).map Prod.fst = nals ∧
      (lengthScanner size maxNalSize).rest (lengthPrefixed size nals) = [] := by
  induction nals generalizing place with
  | nil =>
      have hstep : (lengthScanner size maxNalSize).step (lengthPrefixed size []) = none :=
        if_pos (.inl hsize)
      rw [Scanner.tokens_none hstep, Scanner.rest, Scanner.used_none hstep]
      exact ⟨rfl, rfl⟩
  | cons nal nals ih =>
      obtain ⟨hnal, hlater⟩ := forall_mem_cons.mp hnals
      have hcons : lengthPrefixed size (nal :: nals) =
          lengthBytes size nal.length ++ nal ++ lengthPrefixed size nals := flatMap_cons ..
      have hstep := @step_lengthPrefixed size maxNalSize nal hnal (lengthPrefixed size nals)
      have hdrop : (lengthBytes size nal.length ++ nal ++ lengthPrefixed size nals).drop
          (size + nal.length) = lengthPrefixed size nals :=
        drop_left' (by rw [length_append, length_lengthBytes])
      obtain ⟨htokens, hrest⟩ := ih hlater (place + (size + nal.length))
      rw [hcons, Scanner.tokens_some hstep, Scanner.rest_some hstep, hdrop, map_append, htokens]
      exact ⟨rfl, hrest⟩

/-- A bad length stays where it is. -/
theorem rest_of_badLength {data : List Byte} (hbad : BadLength size maxNalSize data)
    (more : List Byte) : (lengthScanner size maxNalSize).rest (data ++ more) = data ++ more := by
  have htake : (data ++ more).take size = data.take size := take_append_of_le_length hbad.1
  have hstep : (lengthScanner size maxNalSize).step (data ++ more) = none := by
    change stepLength _ _ _ = _
    rw [stepLength, htake, if_pos]
    rcases hbad.2 with hzero | hlarge
    · exact .inr (.inl hzero)
    · exact .inr (.inr (.inl hlarge))
  rw [Scanner.rest, Scanner.used_none hstep, drop_zero]

/-- There is no bad length in a well-formed stream, wherever it is cut. -/
theorem not_badLength {data more : List Byte}
    (hnals : ∀ nal ∈ nals, nal ≠ [] ∧ nal.length ≤ maxNalSize ∧ nal.length < 256 ^ size)
    (hsize : 1 ≤ size) (hdata : data ++ more = lengthPrefixed size nals) :
    ¬ BadLength size maxNalSize ((lengthScanner size maxNalSize).rest data) := by
  intro hbad
  have hrest := Scanner.rest_append (s := lengthScanner size maxNalSize) data more
  rw [hdata, (read_lengthPrefixed hnals hsize 0).2, rest_of_badLength hbad] at hrest
  have hshort := hbad.1
  rw [(append_eq_nil_iff.mp hrest.symm).1, length_nil] at hshort
  exact absurd (hsize.trans hshort) (by decide)

end LengthPrefixed

section AnnexB

theorem filter_ne_nil_cons (first : List Byte) (later : List (List Byte)) :
    (first :: later).filter (· ≠ []) =
      (if first ≠ [] then [first] else []) ++ later.filter (· ≠ []) := by
  by_cases hfirst : first = []
  · rw [hfirst]
    rfl
  · rw [if_pos hfirst, filter_cons, if_pos (decide_eq_true hfirst)]
    rfl

/-- **NAL units behind start codes are read back.** -/
theorem read_annexB {turns : ℕ} {data : List Byte} {scLen : ℕ}
    (hcode : findStartCode data = some (0, scLen)) (place : ℕ)
    (hturns : (data.drop scLen).length < turns) :
    (annexBScanner.tokens place data).map Prod.fst ++
        (if lastAnnexB (annexBScanner.rest data) ≠ [] then [lastAnnexB (annexBScanner.rest data)]
          else []) =
      (splitAtCodes turns (data.drop scLen)).filter (· ≠ []) := by
  induction turns generalizing data scLen place with
  | zero => exact absurd hturns (Nat.not_lt_zero _)
  | succ turns ih =>
      rw [splitAtCodes]
      cases hnext : findStartCode (data.drop scLen) with
      | none =>
          have hstep := step_of_last hcode hnext
          have hlast : lastAnnexB data = data.drop scLen := by
            rw [lastAnnexB, hcode]
          rw [Scanner.tokens_none hstep, Scanner.rest, Scanner.used_none hstep, drop_zero, hlast]
          dsimp only
          rw [filter_ne_nil_cons, filter_nil, append_nil]
          rfl
      | some found =>
          obtain ⟨len, nextLen⟩ := found
          have hstep := step_of_next hcode hnext
          have hbounds := findStartCode_bounds hnext
          have hcode' : findStartCode (data.drop (scLen + len)) = some (0, nextLen) := by
            rw [← drop_drop]
            exact findStartCode_drop hnext
          have hdrop : (data.drop (scLen + len)).drop nextLen =
              (data.drop scLen).drop (len + nextLen) := by
            rw [drop_drop, drop_drop, Nat.add_assoc]
          have hlater := ih hcode' (place + (scLen + len)) (by
            rw [hdrop, length_drop]
            omega)
          rw [hdrop] at hlater
          dsimp only
          rw [Scanner.tokens_some hstep, Scanner.rest_some hstep, map_append, append_assoc,
            hlater, filter_ne_nil_cons]
          by_cases hlen : 0 < len
          · have hne : (data.drop scLen).take len ≠ [] := by
              rw [← length_pos_iff, length_take]
              omega
            rw [if_pos hlen, if_pos hne]
            rfl
          · obtain rfl : len = 0 := by omega
            rw [if_neg hlen, take_zero]
            rfl

theorem read_betweenCodes {data : List Byte} {scLen : ℕ}
    (hcode : findStartCode data = some (0, scLen)) (place : ℕ) :
    (annexBScanner.tokens place data).map Prod.fst ++
        (if lastAnnexB (annexBScanner.rest data) ≠ [] then [lastAnnexB (annexBScanner.rest data)]
          else []) =
      betweenCodes data := by
  have hbounds := findStartCode_bounds hcode
  have hsplit : splitAtCodes (data.length + 1) data =
      [] :: splitAtCodes data.length (data.drop scLen) := by
    rw [splitAtCodes, hcode]
    dsimp only
    rw [Nat.zero_add]
    rfl
  rw [betweenCodes, hsplit, filter_ne_nil_cons]
  exact read_annexB hcode place (by rw [length_drop]; omega)

end AnnexB

/-! ## The format -/

/-- The format that the parser takes a stream for. -/
def StreamFormat.detected (format : StreamFormat) (data : List Byte) : StreamFormat :=
  if format = .auto ∧ 4 ≤ data.length then
    if (findStartCode data).map Prod.fst = some 0 then .annexB else .length
  else format

/-- A start code at the beginning is in the first four bytes. -/
theorem findStartCode_eq_zero_iff {data : List Byte} :
    (findStartCode data).map Prod.fst = some 0 ↔
      data.take 3 = [0, 0, 1] ∨ data.take 4 = [0, 0, 0, 1] := by
  cases data with
  | nil => exact ⟨fun h => (nomatch h), fun h => by rcases h with h | h <;> cases h⟩
  | cons b rest =>
      rw [findStartCode]
      split
      · rename_i hthree
        exact ⟨fun _ => .inl hthree, fun _ => rfl⟩
      · rename_i hthree
        split
        · rename_i hfour
          exact ⟨fun _ => .inr hfour, fun _ => rfl⟩
        · rename_i hfour
          constructor
          · intro hzero
            cases hrest : findStartCode rest with
            | none =>
                rw [hrest] at hzero
                cases hzero
            | some found =>
                rw [hrest] at hzero
                exact absurd (Option.some.inj hzero) (Nat.succ_ne_zero _)
          · rintro (hcode | hcode)
            · exact absurd hcode hthree
            · exact absurd hcode hfour

/-- The first four bytes decide. -/
theorem detected_append (format : StreamFormat) {data : List Byte} (hlength : 4 ≤ data.length)
    (more : List Byte) : format.detected (data ++ more) = format.detected data := by
  have hcode : ((findStartCode (data ++ more)).map Prod.fst = some 0) =
      ((findStartCode data).map Prod.fst = some 0) := by
    rw [findStartCode_eq_zero_iff, findStartCode_eq_zero_iff,
      take_append_of_le_length (Nat.le_of_succ_le hlength),
      take_append_of_le_length hlength]
  have hlonger : 4 ≤ (data ++ more).length := by
    rw [length_append]
    exact hlength.trans (Nat.le_add_right _ _)
  rw [StreamFormat.detected, StreamFormat.detected]
  simp only [hcode, hlength, hlonger]

theorem detected_of_ne {format : StreamFormat} (hformat : format ≠ .auto) (data : List Byte) :
    format.detected data = format :=
  if_neg fun hand => hformat hand.1

theorem detected_of_lt (format : StreamFormat) {data : List Byte} (hlength : data.length < 4) :
    format.detected data = format :=
  if_neg fun hand => Nat.not_le.mpr hlength hand.2

theorem detected_ne_auto (format : StreamFormat) {data : List Byte} (hlength : 4 ≤ data.length) :
    format.detected data ≠ .auto := by
  rw [StreamFormat.detected]
  split
  · split <;> exact fun h => nomatch h
  · rename_i hnot
    exact fun hauto => hnot ⟨hauto, hlength⟩

end Zstreamer.H26x

/-
# The NAL units of a stream

The loops of the parser take NAL units off the front of the adapter: what is between two
start codes, or what is behind a length.  Both are scanners, so the NAL units of a stream
and their places do not depend on the buffers that the stream comes in.
-/

import Zstreamer.Foundation.Scanning
import Zstreamer.H26x.Handling
import Zstreamer.H26x.Parser

namespace Zstreamer.H26x

open Foundation Rtp List Option

/-! ## Start codes -/

theorem length_of_take {data word : List Byte} {k : ℕ} (h : data.take k = word)
    (hword : word.length = k) : k ≤ data.length := by
  rw [← h, length_take] at hword
  omega

/-- A start code is the first one whatever comes behind it. -/
theorem findStartCode_append {data : List Byte} {found : ℕ × ℕ}
    (hfound : findStartCode data = some found) (more : List Byte) :
    findStartCode (data ++ more) = some found := by
  induction data generalizing found with
  | nil => cases hfound
  | cons b rest ih =>
      rw [findStartCode] at hfound
      rw [cons_append, findStartCode, ← cons_append]
      split at hfound
      · rename_i hthree
        rw [take_append_of_le_length (length_of_take hthree rfl), if_pos hthree]
        exact hfound
      · rename_i hthree
        split at hfound
        · rename_i hfour
          have hlength := length_of_take hfour rfl
          rw [take_append_of_le_length (Nat.le_of_succ_le hlength),
            take_append_of_le_length hlength, if_neg hthree, if_pos hfour]
          exact hfound
        · rename_i hfour
          obtain ⟨found', hrest, rfl⟩ := map_eq_some_iff.mp hfound
          obtain ⟨hcode, -, hend⟩ := @findStartCode_bounds _ found'.1 found'.2 hrest
          have hlength : 4 ≤ (b :: rest).length := by
            rw [length_cons]
            omega
          rw [take_append_of_le_length (Nat.le_of_succ_le hlength),
            take_append_of_le_length hlength, if_neg hthree, if_neg hfour, ih hrest]
          rfl

/-- Behind what is before it, the start code is at the beginning. -/
theorem findStartCode_drop {data : List Byte} {pos code : ℕ}
    (hfound : findStartCode data = some (pos, code)) :
    findStartCode (data.drop pos) = some (0, code) := by
  induction data generalizing pos with
  | nil => cases hfound
  | cons b rest ih =>
      have hwhole := hfound
      rw [findStartCode] at hfound
      split at hfound
      · cases hfound
        exact hwhole
      · split at hfound
        · cases hfound
          exact hwhole
        · obtain ⟨⟨pos', code'⟩, hrest, heq⟩ := map_eq_some_iff.mp hfound
          cases heq
          exact ih hrest

/-- What is taken off the front of a byte stream: what is before the first start code; then a start
code and the NAL unit behind it, when the next start code is there. -/
def stepAnnexB (data : List Byte) : Option (Option (List Byte) × ℕ) :=
  match findStartCode data with
  | none => none
  | some (0, scLen) =>
      (findStartCode (data.drop scLen)).map fun found =>
        (if 0 < found.1 then some ((data.drop scLen).take found.1) else none, scLen + found.1)
  | some (sc, _) => some (none, sc)

/-- The NAL units of a byte stream that have an end. -/
def annexBScanner : Scanner Byte (List Byte) where
  step := stepAnnexB
  step_pos := by
    intro data token n hstep
    rw [stepAnnexB] at hstep
    split at hstep
    · cases hstep
    · rename_i scLen hfound
      obtain ⟨found, -, heq⟩ := map_eq_some_iff.mp hstep
      have := (findStartCode_bounds hfound).1
      cases heq
      omega
    · rename_i hne hfound
      cases hstep
      exact Nat.pos_of_ne_zero hne
  step_le := by
    intro data token n hstep
    rw [stepAnnexB] at hstep
    split at hstep
    · cases hstep
    · rename_i scLen hfound
      obtain ⟨found, hnext, heq⟩ := map_eq_some_iff.mp hstep
      have := (@findStartCode_bounds _ found.1 found.2 hnext).2.2
      have hsc := (findStartCode_bounds hfound).2.2
      rw [length_drop] at this
      cases heq
      omega
    · rename_i hfound
      have := (findStartCode_bounds hfound).2.2
      cases hstep
      omega
  step_append := by
    intro data found hstep more
    rw [stepAnnexB] at hstep ⊢
    split at hstep
    · cases hstep
    · rename_i scLen hfound
      obtain ⟨found, hnext, rfl⟩ := map_eq_some_iff.mp hstep
      have hbounds := @findStartCode_bounds _ found.1 found.2 hnext
      have hsc := (findStartCode_bounds hfound).2.2
      have hdrop : (data ++ more).drop scLen = data.drop scLen ++ more :=
        drop_append_of_le_length (by omega)
      simp only [findStartCode_append hfound, hdrop, findStartCode_append hnext, map_some]
      rw [take_append_of_le_length (by omega)]
    · rename_i hne hfound
      cases hstep
      rw [findStartCode_append hfound]
      split
      · rename_i heq
        cases heq
      · rename_i heq
        cases heq
        exact absurd rfl hne
      · rename_i heq
        cases heq
        rfl

/-- A NAL unit and its place. -/
def toNal (found : List Byte × ℕ) : Nal := ⟨found.1, found.2⟩

theorem step_of_next {data : List Byte} {scLen len nextLen : ℕ}
    (hcode : findStartCode data = some (0, scLen))
    (hnext : findStartCode (data.drop scLen) = some (len, nextLen)) :
    annexBScanner.step data =
      some (if 0 < len then some ((data.drop scLen).take len) else none, scLen + len) := by
  change stepAnnexB data = _
  simp only [stepAnnexB, hcode, hnext, map_some]

theorem step_of_last {data : List Byte} {scLen : ℕ} (hcode : findStartCode data = some (0, scLen))
    (hlast : findStartCode (data.drop scLen) = none) : annexBScanner.step data = none := by
  change stepAnnexB data = _
  simp only [stepAnnexB, hcode, hlast, map_none]

theorem step_of_skip {data : List Byte} {sc scLen : ℕ} (hcode : findStartCode data = some (sc, scLen))
    (hsc : sc ≠ 0) : annexBScanner.step data = some (none, sc) := by
  change stepAnnexB data = _
  obtain ⟨sc, rfl⟩ : ∃ m, sc = m + 1 := Nat.exists_eq_succ_of_ne_zero hsc
  simp only [stepAnnexB, hcode]

/-- **The loop over the start codes** takes the NAL units that have an end, and is at the start code
that is left. -/
theorem codesFrom_eq (position turns off : ℕ) {data : List Byte} {scLen : ℕ}
    (hcode : findStartCode data = some (0, scLen)) (hturns : data.length ≤ turns + scLen) :
    ∃ lastLen, findStartCode (annexBScanner.rest data) = some (0, lastLen) ∧
      codesFrom position turns off scLen (data.drop scLen) =
        ⟨(annexBScanner.tokens (position + off) data).map toNal, off + annexBScanner.used data, lastLen,
          (annexBScanner.rest data).drop lastLen⟩ := by
  induction turns generalizing off data scLen with
  | zero =>
      have hnone : data.drop scLen = [] := by
        rw [← length_eq_zero_iff, length_drop]
        omega
      have hstep := step_of_last hcode (by rw [hnone]; rfl)
      refine ⟨scLen, ?_, ?_⟩
      · rw [Scanner.rest, Scanner.used_none hstep, drop_zero]
        exact hcode
      · rw [codesFrom, Scanner.rest, Scanner.used_none hstep, Scanner.tokens_none hstep, drop_zero]
        rfl
  | succ turns ih =>
      rw [codesFrom]
      cases hnext : findStartCode (data.drop scLen) with
      | none =>
          have hstep := step_of_last hcode hnext
          refine ⟨scLen, ?_, ?_⟩
          · rw [Scanner.rest, Scanner.used_none hstep, drop_zero]
            exact hcode
          · rw [Scanner.rest, Scanner.used_none hstep, Scanner.tokens_none hstep, drop_zero]
            rfl
      | some found =>
          obtain ⟨len, nextLen⟩ := found
          have hstep := step_of_next hcode hnext
          have hcode' : findStartCode (data.drop (scLen + len)) = some (0, nextLen) := by
            rw [← drop_drop]
            exact findStartCode_drop hnext
          have hbounds := findStartCode_bounds hcode
          have hbounds' := findStartCode_bounds hcode'
          rw [length_drop] at hbounds'
          obtain ⟨lastLen, hlast, hlater⟩ := ih (off + scLen + len) hcode' (by
            rw [length_drop]
            omega)
          have hdrop : (data.drop (scLen + len)).drop nextLen =
              (data.drop scLen).drop (len + nextLen) := by
            rw [drop_drop, drop_drop, Nat.add_assoc]
          have hplace : position + (off + scLen + len) = position + off + (scLen + len) := by omega
          rw [hdrop, hplace] at hlater
          refine ⟨lastLen, ?_, ?_⟩
          · rw [Scanner.rest_some hstep]
            exact hlast
          · dsimp only
            rw [hlater, Scanner.rest_some hstep, Scanner.used_some hstep, Scanner.tokens_some hstep,
              map_append, Nat.add_assoc off, Nat.add_assoc off]
            congr 2
            split <;> rfl

/-- What is behind the start code at the beginning: at the end of the stream, the last NAL unit. -/
def lastAnnexB (data : List Byte) : List Byte :=
  match findStartCode data with
  | none => []
  | some (_, scLen) => data.drop scLen

/-- **What is found in the adapter of a byte stream.** -/
theorem scanAnnexB_eq {adapter : List Byte} (position : ℕ) (eos : Bool) {sc scLen : ℕ}
    (hcode : findStartCode adapter = some (sc, scLen)) :
    scanAnnexB adapter position eos sc scLen =
      let units := (annexBScanner.tokens position adapter).map fun found => (toNal found, false)
      let last := lastAnnexB (annexBScanner.rest adapter)
      if eos ∧ last ≠ [] then
        ⟨units ++ [(⟨last, position + annexBScanner.used adapter⟩, true)], adapter.length, true⟩
      else ⟨units, annexBScanner.used adapter, true⟩ := by
  have hbounds := findStartCode_bounds hcode
  obtain ⟨lastLen, hlast, hcodes⟩ := codesFrom_eq position adapter.length sc
    (findStartCode_drop hcode) (by rw [length_drop]; omega)
  rw [drop_drop] at hcodes
  have hscan : annexBScanner.tokens (position + sc) (adapter.drop sc) =
      annexBScanner.tokens position adapter ∧
      sc + annexBScanner.used (adapter.drop sc) = annexBScanner.used adapter ∧
      annexBScanner.rest (adapter.drop sc) = annexBScanner.rest adapter := by
    by_cases hsc : sc = 0
    · rw [hsc, drop_zero, Nat.zero_add]
      exact ⟨rfl, rfl, rfl⟩
    · have hstep := step_of_skip hcode hsc
      rw [Scanner.tokens_some hstep, Scanner.used_some hstep, Scanner.rest_some hstep]
      exact ⟨rfl, rfl, rfl⟩
  rw [hscan.1, hscan.2.1, hscan.2.2] at hcodes
  rw [hscan.2.2] at hlast
  have hrest : lastAnnexB (annexBScanner.rest adapter) = (annexBScanner.rest adapter).drop lastLen := by
    rw [lastAnnexB, hlast]
  rw [scanAnnexB, hcodes, hrest]
  dsimp only
  rw [List.map_map]
  rfl

/-! ## Lengths -/

/-- What is taken off the front of NAL units behind their lengths. -/
def stepLength (size maxNalSize : ℕ) (data : List Byte) : Option (Option (List Byte) × ℕ) :=
  let n := bigEndian (data.take size)
  if data.length < size ∨ n = 0 ∨ n > maxNalSize ∨ n > data.length - size then none
  else some (some ((data.drop size).take n), size + n)

/-- The NAL units behind their lengths. -/
def lengthScanner (size maxNalSize : ℕ) : Scanner Byte (List Byte) where
  step := stepLength size maxNalSize
  step_pos := by
    intro data token n hstep
    rw [stepLength] at hstep
    split at hstep
    · cases hstep
    · cases hstep
      omega
  step_le := by
    intro data token n hstep
    rw [stepLength] at hstep
    split at hstep
    · cases hstep
    · cases hstep
      omega
  step_append := by
    intro data found hstep more
    rw [stepLength] at hstep ⊢
    split at hstep
    · cases hstep
    · rename_i hfits
      have htake : (data ++ more).take size = data.take size :=
        take_append_of_le_length (by omega)
      have hdrop : (data ++ more).drop size = data.drop size ++ more :=
        drop_append_of_le_length (by omega)
      rw [htake, hdrop, length_append,
        take_append_of_le_length (by rw [length_drop]; omega), if_neg (by omega)]
      exact hstep

/-- A length that no NAL unit has. -/
def BadLength (size maxNalSize : ℕ) (data : List Byte) : Prop :=
  size ≤ data.length ∧ (bigEndian (data.take size) = 0 ∨ bigEndian (data.take size) > maxNalSize)

instance (size maxNalSize : ℕ) (data : List Byte) : Decidable (BadLength size maxNalSize data) :=
  inferInstanceAs (Decidable (_ ∧ _))

/-- **The loop over the lengths** takes the NAL units that are there, and stops at a bad length. -/
theorem lengthsFrom_eq (size maxNalSize position : ℕ) (eos : Bool) {turns : ℕ} (off : ℕ)
    {data : List Byte} (hturns : data.length < turns) :
    (lengthsFrom size maxNalSize position eos turns off data).units.map Prod.fst =
        ((lengthScanner size maxNalSize).tokens (position + off) data).map toNal ∧
      (lengthsFrom size maxNalSize position eos turns off data).off =
        off + (lengthScanner size maxNalSize).used data ∧
      ((lengthsFrom size maxNalSize position eos turns off data).ok = true ↔
        ¬ BadLength size maxNalSize ((lengthScanner size maxNalSize).rest data)) := by
  induction turns generalizing off data with
  | zero => exact absurd hturns (Nat.not_lt_zero _)
  | succ turns ih =>
      rw [lengthsFrom]
      by_cases hstop : data.length < size ∨ bigEndian (data.take size) = 0 ∨
          bigEndian (data.take size) > maxNalSize ∨ bigEndian (data.take size) > data.length - size
      · have hstep : (lengthScanner size maxNalSize).step data = none := if_pos hstop
        rw [Scanner.tokens_none hstep, Scanner.rest, Scanner.used_none hstep, drop_zero, BadLength]
        split
        · rename_i hshort
          exact ⟨rfl, rfl, fun _ hbad => Nat.not_le.mpr hshort hbad.1, fun _ => rfl⟩
        · rename_i hlong
          split
          · rename_i hbad
            exact ⟨rfl, rfl, fun hok => absurd hok Bool.false_ne_true,
              fun hgood => absurd ⟨Nat.not_lt.mp hlong, hbad⟩ hgood⟩
          · rename_i hgood
            rw [if_pos (by omega)]
            exact ⟨rfl, rfl, fun _ hbad => hgood hbad.2, fun _ => rfl⟩
      · have hstep : (lengthScanner size maxNalSize).step data =
            some (some ((data.drop size).take (bigEndian (data.take size))),
              size + bigEndian (data.take size)) := if_neg hstop
        have hless : (data.drop (size + bigEndian (data.take size))).length < turns := by
          rw [length_drop]
          omega
        obtain ⟨hunits, hoff, hok⟩ := ih (off + (size + bigEndian (data.take size))) hless
        rw [if_neg (by omega), if_neg (by omega), if_neg (by omega), Scanner.tokens_some hstep,
          Scanner.used_some hstep, Scanner.rest_some hstep]
        refine ⟨?_, ?_, hok⟩
        · rw [map_cons, hunits, ← Nat.add_assoc position]
          rfl
        · rw [hoff, Nat.add_assoc]

/-! ## The adapter -/

/-- Nothing is taken. -/
def idleScanner : Scanner Byte (List Byte) where
  step := fun _ => none
  step_pos := fun hstep => nomatch hstep
  step_le := fun hstep => nomatch hstep
  step_append := fun hstep => nomatch hstep

namespace Parser

variable (s : Parser)

/-- What takes NAL units off the adapter. -/
def scanner : Scanner Byte (List Byte) :=
  match s.inputFormat with
  | .auto => idleScanner
  | .annexB => annexBScanner
  | .length => lengthScanner s.nalLengthSize s.maxNalSize

/-- What the end of the stream makes a NAL unit of. -/
def last (rest : List Byte) : List Byte :=
  match s.inputFormat with
  | .annexB => lastAnnexB rest
  | .auto | .length => []

/-- The NAL units of some data from a place on, at the end of the stream or not. -/
def unitsOf (place : ℕ) (data : List Byte) (eos : Bool) : List Nal :=
  let last := s.last (s.scanner.rest data)
  (s.scanner.tokens place data).map toNal ++
    if eos ∧ last ≠ [] then [⟨last, place + s.scanner.used data⟩] else []

/-- The NAL units that are found in the adapter. -/
def found (eos : Bool) : List Nal := s.unitsOf s.adapterPosition s.adapter eos

theorem unitsOf_congr {s p : Parser} (hformat : s.inputFormat = p.inputFormat)
    (hsize : s.nalLengthSize = p.nalLengthSize) (hmax : s.maxNalSize = p.maxNalSize) :
    s.unitsOf = p.unitsOf := by
  have hscanner : s.scanner = p.scanner := by
    rw [scanner, scanner, hformat, hsize, hmax]
  have hlast : s.last = p.last := by
    funext rest
    rw [last, last, hformat]
  funext place data eos
  rw [unitsOf, unitsOf, hscanner, hlast]

/-- NAL units that come in pieces are the NAL units of the whole. -/
theorem unitsOf_append (place : ℕ) (data more : List Byte) (eos : Bool) :
    s.unitsOf place (data ++ more) eos =
      (s.scanner.tokens place data).map toNal ++
        s.unitsOf (place + s.scanner.used data) (s.scanner.rest data ++ more) eos := by
  rw [unitsOf, unitsOf, Scanner.tokens_append, Scanner.used_append, Scanner.rest_append,
    map_append, append_assoc, Nat.add_assoc]

theorem unitsOf_false (place : ℕ) (data : List Byte) :
    s.unitsOf place data false = (s.scanner.tokens place data).map toNal := by
  rw [unitsOf, if_neg fun hand => Bool.false_ne_true hand.1, append_nil]

theorem unitsOf_nil (place : ℕ) (eos : Bool) : s.unitsOf place [] eos = [] := by
  have hstep : s.scanner.step [] = none := by
    cases hstep : s.scanner.step [] with
    | none => rfl
    | some found =>
        have hpos := s.scanner.step_pos hstep
        exact absurd (s.scanner.step_le hstep) (Nat.not_le.mpr hpos)
  have hlast : s.last [] = [] := by
    rw [last]
    split <;> rfl
  rw [unitsOf, Scanner.tokens_none hstep, Scanner.rest, drop_nil, hlast,
    if_neg fun hand => hand.2 rfl]
  rfl

/-- The end of the stream adds a NAL unit at most. -/
theorem unitsOf_false_sublist (place : ℕ) (data : List Byte) (eos : Bool) :
    (s.unitsOf place data false).Sublist (s.unitsOf place data eos) := by
  rw [unitsOf_false, unitsOf]
  exact sublist_append_left _ _

/-- No NAL unit is empty. -/
theorem bytes_ne_nil {place : ℕ} {data : List Byte} {eos : Bool} {nal : Nal}
    (hnal : nal ∈ s.unitsOf place data eos) : nal.bytes ≠ [] := by
  rw [unitsOf] at hnal
  rcases mem_append.mp hnal with htoken | hlast
  · obtain ⟨found, hfound, rfl⟩ := mem_map.mp htoken
    refine Scanner.forall_tokens (P := fun bytes => bytes ≠ []) ?_ hfound
    intro data token n hstep
    rw [scanner] at hstep
    split at hstep
    · cases hstep
    · change stepAnnexB data = _ at hstep
      rw [stepAnnexB] at hstep
      split at hstep
      · cases hstep
      · obtain ⟨next, hnext, heq⟩ := map_eq_some_iff.mp hstep
        have hbounds := @findStartCode_bounds _ next.1 next.2 hnext
        obtain ⟨htake, -⟩ := Prod.mk.inj heq
        split at htake
        · cases htake
          rw [← length_pos_iff, length_take]
          omega
        · cases htake
      · cases hstep
    · change stepLength _ _ data = _ at hstep
      rw [stepLength] at hstep
      split at hstep
      · cases hstep
      · cases hstep
        rw [← length_pos_iff, length_take, length_drop]
        omega
  · split at hlast
    · rename_i hend
      obtain rfl := mem_singleton.mp hlast
      exact hend.2
    · cases hlast

/-- **No two NAL units begin at one place.** -/
theorem pairwise_position (place : ℕ) (data : List Byte) (eos : Bool) :
    ((s.unitsOf place data eos).map Nal.position).Pairwise (· < ·) := by
  have htokens := Scanner.pairwise_place (s := s.scanner) place data
  rw [unitsOf, List.map_append, List.map_map, List.pairwise_append]
  refine ⟨htokens, ?_, ?_⟩
  · split
    · exact pairwise_singleton _ _
    · exact List.Pairwise.nil
  · intro a ha b hb
    obtain ⟨found, hfound, rfl⟩ := mem_map.mp ha
    split at hb
    · obtain rfl := mem_singleton.mp hb
      exact (Scanner.place_of_mem hfound).2
    · cases hb

/-- The NAL units begin behind the place. -/
theorem le_position {place : ℕ} {data : List Byte} {eos : Bool} {nal : Nal}
    (hnal : nal ∈ s.unitsOf place data eos) : place ≤ nal.position := by
  rw [unitsOf] at hnal
  rcases mem_append.mp hnal with htoken | hlast
  · obtain ⟨found, hfound, rfl⟩ := mem_map.mp htoken
    exact (Scanner.place_of_mem hfound).1
  · split at hlast
    · obtain rfl := mem_singleton.mp hlast
      exact Nat.le_add_right _ _
    · cases hlast

/-- What `parse_adapter` comes to, when the NAL units found have been handled so far. -/
inductive Outcome (s : Parser) (eos : Bool) (handled : Assembler × Bool) : Parser × Bool → Prop
  /-- a NAL unit has failed -/
  | failed (hfail : handled.2 = false) : Outcome s eos handled ({ s with assembler := handled.1 }, false)
  /-- what is left is refused -/
  | refused (asm : Assembler) (hok : handled.2 = true) (hwork : asm.work = handled.1.work)
      (hrefused : s.inputFormat = .annexB ∧ s.adapter.length > s.maxBufferedBytes ∨
        s.inputFormat = .length ∧
          (BadLength s.nalLengthSize s.maxNalSize (s.scanner.rest s.adapter) ∨
            eos = true ∧ s.scanner.rest s.adapter ≠ [])) :
      Outcome s eos handled ({ s with assembler := asm }, false)
  /-- what is left is kept -/
  | kept (hok : handled.2 = true) :
      Outcome s eos handled
        ({ s with assembler := handled.1 }.compact (s.scanner.used s.adapter), true)
  /-- what is left was the last NAL unit -/
  | ended (hok : handled.2 = true) (heos : eos = true) :
      Outcome s eos handled ({ s with assembler := handled.1 }.compact s.adapter.length, true)
  /-- what is left is dropped -/
  | dropped (asm : Assembler) (hok : handled.2 = true) (hwork : asm.work = handled.1.work)
      (hformat : s.inputFormat = .length) (heos : eos = true) (hrest : s.scanner.rest s.adapter ≠ []) :
      Outcome s eos handled ({ s with assembler := asm }.compact s.adapter.length, true)

theorem compact_zero (s : Parser) : s.compact 0 = s := rfl

variable {s} (answers : ℕ → Bool)

theorem parseAnnexB_outcome (hformat : s.inputFormat = .annexB) (eos : Bool) :
    ∃ units : List (Nal × Bool), units.map Prod.fst = s.found eos ∧
      Outcome s eos (s.assembler.handleAll answers s.adapterStamp units) (s.parseAnnexB answers eos) := by
  have hscanner : s.scanner = annexBScanner := by
    rw [scanner, hformat]
  have hlast (rest : List Byte) : s.last rest = lastAnnexB rest := by
    rw [last, hformat]
  rw [found, unitsOf, hscanner, hlast, parseAnnexB]
  cases hcode : findStartCode s.adapter with
  | none =>
      have hstep : annexBScanner.step s.adapter = none := by
        change stepAnnexB s.adapter = none
        simp only [stepAnnexB, hcode]
      have hnone : lastAnnexB (annexBScanner.rest s.adapter) = [] := by
        rw [Scanner.rest, Scanner.used_none hstep, drop_zero, lastAnnexB, hcode]
      refine ⟨[], ?_, ?_⟩
      · rw [hnone, Scanner.tokens_none hstep, if_neg fun hand => hand.2 rfl]
        rfl
      · by_cases hlong : s.adapter.length ≤ s.maxBufferedBytes
        · have hkept := @Outcome.kept s eos (s.assembler.handleAll answers s.adapterStamp []) rfl
          rw [hscanner, Scanner.used_none hstep, compact_zero] at hkept
          simp only [decide_eq_true hlong]
          exact hkept
        · simp only [decide_eq_false hlong]
          exact .refused s.assembler rfl rfl (.inl ⟨hformat, Nat.lt_of_not_le hlong⟩)
  | some found =>
      obtain ⟨sc, scLen⟩ := found
      refine ⟨(scanAnnexB s.adapter s.adapterPosition eos sc scLen).units, ?_, ?_⟩
      · rw [scanAnnexB_eq _ _ hcode]
        dsimp only
        split
        · rw [List.map_append, List.map_map]
          rfl
        · rw [List.map_map, List.append_nil]
          rfl
      · dsimp only
        rw [handleUnits]
        cases hok : (s.assembler.handleAll answers s.adapterStamp
          (scanAnnexB s.adapter s.adapterPosition eos sc scLen).units).2 with
        | false => exact .failed hok
        | true =>
            have hoff : (scanAnnexB s.adapter s.adapterPosition eos sc scLen).off =
                annexBScanner.used s.adapter ∨
                eos = true ∧ (scanAnnexB s.adapter s.adapterPosition eos sc scLen).off =
                  s.adapter.length := by
              rw [scanAnnexB_eq _ _ hcode]
              dsimp only
              split
              · rename_i hend
                exact .inr ⟨hend.1, rfl⟩
              · exact .inl rfl
            rw [if_pos rfl]
            rcases hoff with hoff | ⟨heos, hoff⟩
            · rw [hoff, ← hscanner]
              exact .kept hok
            · rw [hoff]
              exact .ended hok heos

theorem parseLength_outcome (hformat : s.inputFormat = .length) (eos : Bool) :
    ∃ units : List (Nal × Bool), units.map Prod.fst = s.found eos ∧
      Outcome s eos (s.assembler.handleAll answers s.adapterStamp units) (s.parseLength answers eos) := by
  have hscanner : s.scanner = lengthScanner s.nalLengthSize s.maxNalSize := by
    rw [scanner, hformat]
  have hlast (rest : List Byte) : s.last rest = [] := by
    rw [last, hformat]
  have hscan := lengthsFrom_eq s.nalLengthSize s.maxNalSize s.adapterPosition eos 0
    (Nat.lt_succ_self s.adapter.length)
  obtain ⟨hunits, hoff, hgood⟩ := hscan
  refine ⟨(lengthsFrom s.nalLengthSize s.maxNalSize s.adapterPosition eos (s.adapter.length + 1) 0
    s.adapter).units, ?_, ?_⟩
  · rw [found, unitsOf, hscanner, hlast, hunits, if_neg fun hand => hand.2 rfl, append_nil]
    rfl
  · rw [parseLength]
    rw [handleUnits]
    cases hok : (s.assembler.handleAll answers s.adapterStamp (lengthsFrom s.nalLengthSize s.maxNalSize
        s.adapterPosition eos (s.adapter.length + 1) 0 s.adapter).units).2 with
    | false => exact .failed hok
    | true =>
        rw [if_neg (not_not.mpr rfl)]
        by_cases hbad : BadLength s.nalLengthSize s.maxNalSize
            ((lengthScanner s.nalLengthSize s.maxNalSize).rest s.adapter)
        · rw [if_pos fun htrue => hgood.mp htrue hbad]
          exact .refused _ hok rfl (.inr ⟨hformat, .inl (by rw [hscanner]; exact hbad)⟩)
        · rw [if_neg (not_not.mpr (hgood.mpr hbad)), hoff, Nat.zero_add]
          by_cases hend : eos = true ∧
              (lengthScanner s.nalLengthSize s.maxNalSize).used s.adapter ≠ s.adapter.length
          · have hrest : s.scanner.rest s.adapter ≠ [] := by
              rw [Scanner.rest, hscanner, ne_eq, drop_eq_nil_iff, Nat.not_le]
              exact Nat.lt_of_le_of_ne (Scanner.used_le _) hend.2
            rw [if_pos hend, leaveRest]
            dsimp only
            split
            · exact .refused _ hok rfl (.inr ⟨hformat, .inr ⟨hend.1, hrest⟩⟩)
            · exact .dropped _ hok rfl hformat hend.1 hrest
          · rw [if_neg hend, ← hscanner]
            exact .kept hok

/-- **What `parse_adapter` comes to.** -/
theorem parseAdapter_outcome (s : Parser) (eos : Bool) :
    ∃ units : List (Nal × Bool), units.map Prod.fst = s.detect.found eos ∧
      Outcome s.detect eos (s.detect.assembler.handleAll answers s.detect.adapterStamp units)
        (s.parseAdapter answers eos) := by
  rw [parseAdapter]
  generalize s.detect = s'
  split
  · rename_i hformat
    have hscanner : s'.scanner = idleScanner := by
      rw [scanner, hformat]
    have hstep : idleScanner.step s'.adapter = none := rfl
    refine ⟨[], ?_, ?_⟩
    · rw [found, unitsOf, hscanner, last, hformat, Scanner.tokens_none hstep,
        if_neg fun hand => hand.2 rfl]
      rfl
    · have hkept := @Outcome.kept s' eos (s'.assembler.handleAll answers s'.adapterStamp []) rfl
      rw [hscanner, Scanner.used_none hstep] at hkept
      exact hkept
  · rename_i hformat
    exact parseAnnexB_outcome answers hformat eos
  · rename_i hformat
    exact parseLength_outcome answers hformat eos

end Parser

end Zstreamer.H26x

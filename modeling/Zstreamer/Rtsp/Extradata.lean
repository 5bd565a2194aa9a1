/-
# Parameter sets out of an avcC record

`avcc_to_sdp_params` of `rtsp_server.c` walks over the lists of parameter sets of an avcC record
and writes them in base64, with commas between them.  Every read of the record is checked here,
and so is every write to the scratch buffer and to the text; the function fails when one of them
is outside.

Sizes and offsets are natural numbers: no `int` overflows, since there are at most 286 parameter
sets of at most 65535 bytes each.
-/

import Zstreamer.Foundation.Cursor
import Zstreamer.Foundation.Tokens
import Zstreamer.Sdp.Base64

namespace Zstreamer.Rtsp

open Foundation Sdp

/-- The size of `tmp`. -/
def scratchSize : ℕ := 1024

/-- The size of `sprop` in `make_sdp`. -/
def spropSize : ℕ := 1024

/-- Bytes are written behind those that stand in a buffer of so many. -/
def writeBehind (size : ℕ) (front bytes : List Byte) : Option (List Byte) :=
  if front.length + bytes.length ≤ size then some (front ++ bytes) else none

/-- They are, on a condition. -/
def writeWhen (room : Prop) [Decidable room] (size : ℕ) (front bytes : List Byte) :
    Option (List Byte) :=
  if room then writeBehind size front bytes else some front

/-- `base64_encode` into the scratch buffer, with the NUL behind the characters.  They are those of
`sdp_muxer_base64`. -/
def encodeSet (nal : List Byte) : Option (List Byte) :=
  (writeBehind scratchSize [] (base64 nal ++ [0])).map fun _ => base64 nal

/-- The loop over the parameter sets of one kind: how many are left, whether a comma goes in front
of the next one, and the offset and the text that the loop leaves. -/
def walkSets (cap : ℕ) (extra : List Byte) : ℕ → Bool → ℕ → List Byte → Option (ℕ × List Byte)
  | 0, _, p, sprop => some (p, sprop)
  | count + 1, comma, p, sprop =>
      if p + 2 ≤ extra.length then do
        let high ← extra[p]?
        let low ← extra[p + 1]?
        let nalLen := (be16 high low).toNat
        let p := p + 2
        if p + nalLen > extra.length then some (p, sprop)
        else do
          let sprop ← writeWhen (comma = true ∧ sprop.length + 1 < cap) cap sprop [0x2c]
          let nal ← span extra p nalLen
          let tmp ← encodeSet nal
          let sprop ← writeWhen (sprop.length + tmp.length < cap) cap sprop tmp
          walkSets cap extra count true (p + nalLen) sprop
      else some (p, sprop)

/-- What `avcc_to_sdp_params` fills in. -/
structure AvccParams where
  profileLevelId : List Byte
  sprop : List Byte
  deriving DecidableEq, Repr

/-- `%02x`. -/
def hexByte (b : Byte) : List Byte :=
  let digit (n : ℕ) : Byte := (text "0123456789abcdef").getD n 0
  [digit (b.toNat / 16), digit (b.toNat % 16)]

/-- The NUL behind the text. -/
def endSprop (cap : ℕ) (profileLevelId sprop : List Byte) : Option (Option AvccParams) :=
  (writeBehind cap sprop [0]).map fun _ => some ⟨profileLevelId, sprop⟩

/-- `avcc_to_sdp_params`: `none` when a read or a write is outside, and `some none` when the record
is refused. -/
def avccToSdpParams (extra : List Byte) (cap : ℕ) : Option (Option AvccParams) :=
  if extra.length < 7 then some none
  else do
    let version ← extra[0]?
    if version ≠ 1 then some none
    else do
      let profile ← extra[1]?
      let compatibility ← extra[2]?
      let level ← extra[3]?
      let profileLevelId := hexByte profile ++ hexByte compatibility ++ hexByte level
      let numSps ← extra[5]?
      let sps ← walkSets cap extra (numSps &&& 0x1f).toNat false 6 []
      if sps.1 ≥ extra.length then endSprop cap profileLevelId sps.2
      else do
        let numPps ← extra[sps.1]?
        let pps ← walkSets cap extra numPps.toNat true (sps.1 + 1) sps.2
        endSprop cap profileLevelId pps.2

/-! ## The sets of a record -/

/-- The sets of one kind that a record has, and what is behind them. -/
def setsFrom : ℕ → List Byte → List (List Byte) × List Byte
  | 0, rest => ([], rest)
  | count + 1, high :: low :: rest =>
      let size := (be16 high low).toNat
      if size > rest.length then ([], rest)
      else
        let later := setsFrom count (rest.drop size)
        (rest.take size :: later.1, later.2)
  | _ + 1, rest => ([], rest)

/-- The sets of both kinds. -/
def recordSets (extra : List Byte) : List (List Byte) :=
  let sps := setsFrom (extra.getD 5 0 &&& 0x1f).toNat (extra.drop 6)
  match sps.2 with
  | [] => sps.1
  | numPps :: rest => sps.1 ++ (setsFrom numPps.toNat rest).1

/-- The record is one that `avcc_to_sdp_params` looks into. -/
def IsRecord (extra : List Byte) : Prop := 7 ≤ extra.length ∧ extra.getD 0 0 = 1

instance (extra : List Byte) : Decidable (IsRecord extra) := inferInstanceAs (Decidable (_ ∧ _))

/-- The scratch buffer has room for each of the sets. -/
def Fit (sets : List (List Byte)) : Prop := ∀ set ∈ sets, set.length ≤ 765

instance (sets : List (List Byte)) : Decidable (Fit sets) := inferInstanceAs (Decidable (∀ _ ∈ _, _))

theorem fit_nil : Fit [] := nofun

theorem fit_cons {set : List Byte} {sets : List (List Byte)} :
    Fit (set :: sets) ↔ set.length ≤ 765 ∧ Fit sets := List.forall_mem_cons

/-- One more set in the text, where there is room for it. -/
def addSet (cap : ℕ) (comma : Bool) (sprop set : List Byte) : List Byte :=
  let sprop := if comma = true ∧ sprop.length + 1 < cap then sprop ++ [0x2c] else sprop
  if sprop.length + (base64 set).length < cap then sprop ++ base64 set else sprop

/-- Sets one after the other. -/
def addSets (cap : ℕ) : Bool → List Byte → List (List Byte) → List Byte
  | _, sprop, [] => sprop
  | comma, sprop, set :: sets => addSets cap true (addSet cap comma sprop set) sets

/-! ## The scratch buffer -/

/-- It has room for the characters of a set exactly when the set is not too long. -/
theorem encodeSet_eq (nal : List Byte) :
    encodeSet nal = if nal.length ≤ 765 then some (base64 nal) else none := by
  have hlength : (base64 nal ++ [0]).length = (nal.length + 2) / 3 * 4 + 1 := by
    rw [List.length_append, length_base64]
    rfl
  have hscratch : scratchSize = 1024 := rfl
  rw [encodeSet, writeBehind, List.length_nil, hlength, hscratch]
  by_cases hsmall : nal.length ≤ 765
  · rw [if_pos hsmall, if_pos (by omega)]
    rfl
  · rw [if_neg hsmall, if_neg (by omega)]
    rfl

/-! ## The text -/

variable {cap : ℕ}

theorem length_addSet {sprop : List Byte} (comma : Bool) (set : List Byte)
    (h : sprop.length < cap) : (addSet cap comma sprop set).length < cap := by
  have hcomma : (if comma = true ∧ sprop.length + 1 < cap then sprop ++ [0x2c]
      else sprop).length < cap := by
    split
    case isTrue hroom =>
      rw [List.length_append]
      exact hroom.2
    case isFalse => exact h
  rw [addSet]
  generalize (if comma = true ∧ sprop.length + 1 < cap then sprop ++ [0x2c] else sprop) = front
    at hcomma ⊢
  split
  case isTrue hroom => rwa [List.length_append]
  case isFalse => exact hcomma

/-- Writes that are asked for only where there is room for them. -/
theorem writeWhen_eq {front bytes : List Byte} {room : Prop} [Decidable room]
    (h : room → front.length + bytes.length < cap) :
    writeWhen room cap front bytes = some (if room then front ++ bytes else front) := by
  rw [writeWhen]
  split
  case isTrue hroom => exact if_pos (h hroom).le
  case isFalse => rfl

/-- **The loop over the sets of one kind** reads inside the record and writes inside the text; it
stays in the scratch buffer exactly when no set is too long. -/
theorem walkSets_eq {extra : List Byte} (count : ℕ) (comma : Bool) {p : ℕ} {sprop : List Byte}
    (hp : p ≤ extra.length) (hsprop : sprop.length < cap) :
    walkSets cap extra count comma p sprop =
      if Fit (setsFrom count (extra.drop p)).1 then
        some (extra.length - (setsFrom count (extra.drop p)).2.length,
          addSets cap comma sprop (setsFrom count (extra.drop p)).1)
      else none := by
  induction count generalizing comma p sprop with
  | zero =>
      have hend : extra.length - (extra.drop p).length = p := by
        rw [List.length_drop]
        omega
      rw [walkSets, setsFrom, if_pos fit_nil, hend]
      rfl
  | succ count ih =>
      rw [walkSets]
      by_cases hheader : p + 2 ≤ extra.length
      · obtain ⟨high, low, hhigh, hlow, hdrop⟩ := drop_two hheader
        have hrest : (extra.drop (p + 2)).length = extra.length - (p + 2) := List.length_drop
        rw [if_pos hheader, hhigh, hlow, hdrop, setsFrom]
        dsimp only [Option.bind_eq_bind, Option.bind_some]
        by_cases hleaves : (be16 high low).toNat > (extra.drop (p + 2)).length
        · have hend : extra.length - (extra.drop (p + 2)).length = p + 2 := by omega
          rw [if_pos hleaves, if_pos (by omega), if_pos fit_nil, hend]
          rfl
        · rw [if_neg hleaves, if_neg (by omega), span_of_le (by omega)]
          dsimp only
          rw [writeWhen_eq fun hroom => hroom.2]
          dsimp only [Option.bind_some]
          rw [encodeSet_eq]
          by_cases hsmall : ((extra.drop (p + 2)).take (be16 high low).toNat).length ≤ 765
          · have hnext := @ih true (p + 2 + (be16 high low).toNat)
              (addSet cap comma sprop
                ((extra.drop (p + 2)).take (be16 high low).toNat)) (by omega)
              (length_addSet comma _ hsprop)
            rw [if_pos hsmall, List.drop_drop]
            dsimp only [Option.bind_some]
            rw [writeWhen_eq fun hroom => hroom]
            dsimp only [Option.bind_some]
            refine hnext.trans ?_
            by_cases hall : Fit (setsFrom count (extra.drop (p + 2 + (be16 high low).toNat))).1
            · rw [if_pos hall, if_pos (fit_cons.mpr ⟨hsmall, hall⟩)]
              rfl
            · rw [if_neg hall, if_neg fun hboth => hall (fit_cons.mp hboth).2]
          · have hnot : ¬ Fit ((extra.drop (p + 2)).take (be16 high low).toNat ::
                (setsFrom count ((extra.drop (p + 2)).drop (be16 high low).toNat)).1) :=
              fun hboth => hsmall (fit_cons.mp hboth).1
            rw [if_neg hsmall, if_neg hnot]
            rfl
      · -- no size is left
        have hshort : (extra.drop p).length < 2 := length_drop_lt_two hheader
        have hnone : setsFrom (count + 1) (extra.drop p) = ([], extra.drop p) := by
          match hrest : extra.drop p, hshort with
          | [], _ => rfl
          | [_], _ => rfl
        have hend : extra.length - (extra.drop p).length = p := by
          rw [List.length_drop]
          omega
        rw [if_neg hheader, hnone, if_pos fit_nil, hend]
        rfl

/-! ## A whole record -/

/-- What is behind the sets is the end of what they are read from. -/
theorem setsFrom_suffix (count : ℕ) (rest : List Byte) : (setsFrom count rest).2 <:+ rest := by
  induction count generalizing rest with
  | zero => exact List.suffix_rfl
  | succ count ih =>
      match rest with
      | [] | [_] => exact List.suffix_rfl
      | high :: low :: rest =>
          have hbehind : rest <:+ high :: low :: rest := ⟨[high, low], rfl⟩
          rw [setsFrom]
          dsimp only
          split
          case isTrue => exact hbehind
          case isFalse =>
            exact (ih _).trans ((List.drop_suffix _ rest).trans hbehind)

/-- The text that a record becomes. -/
def recordText (cap : ℕ) (extra : List Byte) : List Byte :=
  let sps := setsFrom (extra.getD 5 0 &&& 0x1f).toNat (extra.drop 6)
  match sps.2 with
  | [] => addSets cap false [] sps.1
  | numPps :: rest =>
      addSets cap true (addSets cap false [] sps.1) (setsFrom numPps.toNat rest).1

/-- The profile and the level of a record. -/
def recordLevel (extra : List Byte) : List Byte :=
  hexByte (extra.getD 1 0) ++ hexByte (extra.getD 2 0) ++ hexByte (extra.getD 3 0)

theorem length_addSets (comma : Bool) {sprop : List Byte} (sets : List (List Byte))
    (h : sprop.length < cap) : (addSets cap comma sprop sets).length < cap := by
  induction sets generalizing comma sprop with
  | nil => exact h
  | cons set sets ih => exact ih true (length_addSet comma set h)

theorem endSprop_eq {sprop : List Byte} (h : sprop.length < cap) (level : List Byte) :
    endSprop cap level sprop = some (some ⟨level, sprop⟩) := by
  have hroom : sprop.length + [(0 : Byte)].length ≤ cap := h
  rw [endSprop, writeBehind, if_pos hroom]
  rfl

/-- **What `avcc_to_sdp_params` does**: it stays in its buffers exactly when no set of the record is
too long, and then the text is that of the sets. -/
theorem avccToSdpParams_eq (extra : List Byte) (hcap : 0 < cap) :
    avccToSdpParams extra cap =
      if IsRecord extra then
        if Fit (recordSets extra) then some (some ⟨recordLevel extra, recordText cap extra⟩)
        else none
      else some none := by
  rw [avccToSdpParams]
  by_cases hshort : extra.length < 7
  · rw [if_pos hshort, if_neg fun h => absurd h.1 (Nat.not_le.mpr hshort)]
  rw [if_neg hshort]
  have hget : ∀ i, i < 7 → extra[i]? = some (extra.getD i 0) := fun i hi => by
    rw [List.getD_eq_getElem?_getD, List.getElem?_eq_getElem (by omega), Option.getD_some]
  simp only [hget 0 (by decide), hget 1 (by decide), hget 2 (by decide), hget 3 (by decide),
    hget 5 (by decide), Option.bind_eq_bind, Option.bind_some]
  by_cases hversion : extra.getD 0 0 = 1
  case neg => rw [if_pos hversion, if_neg fun h => hversion h.2]
  have hrecord : IsRecord extra := ⟨by omega, hversion⟩
  rw [if_neg (not_not.mpr hversion), if_pos hrecord, walkSets_eq _ _ (by omega) hcap]
  rw [recordSets, recordText]
  have hsuffix := setsFrom_suffix (extra.getD 5 0 &&& 0x1f).toNat (extra.drop 6)
  have hless : (addSets cap false []
      (setsFrom (extra.getD 5 0 &&& 0x1f).toNat (extra.drop 6)).1).length < cap :=
    length_addSets false _ hcap
  generalize setsFrom (extra.getD 5 0 &&& 0x1f).toNat (extra.drop 6) = sps at hsuffix hless ⊢
  obtain ⟨sets, rest⟩ := sps
  have hsuffix := hsuffix.trans (List.drop_suffix 6 extra)
  dsimp only at hsuffix hless ⊢
  have hplace := List.suffix_iff_eq_drop.mp hsuffix
  cases rest with
  | nil =>
      dsimp only
      by_cases hfit : Fit sets
      · rw [if_pos hfit, if_pos hfit, Option.bind_some, if_pos (by exact Nat.le_refl _),
          endSprop_eq hless]
        rfl
      · rw [if_neg hfit, if_neg hfit]
        rfl
  | cons numPps rest =>
      have hlength := hsuffix.length_le
      rw [List.length_cons] at hlength hplace
      have hdrop : extra.drop (extra.length - (rest.length + 1) + 1) = rest := by
        rw [← List.drop_drop, ← hplace]
        rfl
      have hfirst : extra[extra.length - (rest.length + 1)]? = some numPps := by
        rw [← List.head?_drop, ← hplace]
        rfl
      have hboth : Fit (sets ++ (setsFrom numPps.toNat rest).1) ↔
          Fit sets ∧ Fit (setsFrom numPps.toNat rest).1 := List.forall_mem_append
      dsimp only
      by_cases hfit : Fit sets
      · rw [if_pos hfit, Option.bind_some, List.length_cons, if_neg (by omega), hfirst,
          Option.bind_some, walkSets_eq _ _ (by omega) hless, hdrop]
        by_cases hlater : Fit (setsFrom numPps.toNat rest).1
        · rw [if_pos hlater, if_pos (hboth.mpr ⟨hfit, hlater⟩), Option.bind_some,
            endSprop_eq (length_addSets true _ hless)]
          rfl
        · rw [if_neg hlater, if_neg fun h => hlater (hboth.mp h).2]
          rfl
      · rw [if_neg hfit, if_neg fun h => hfit (hboth.mp h).1]
        rfl

/-! ## Well-formed records -/

/-- A parameter set behind its size. -/
def sizedSet (set : List Byte) : List Byte :=
  ((BitVec.ofNat 16 set.length >>> 8).setWidth 8) :: (BitVec.ofNat 16 set.length).setWidth 8 :: set

/-- A well-formed avcC record, with sets of both kinds.  There may be more behind them. -/
structure AvcRecord where
  profile : Byte
  compatibility : Byte
  level : Byte
  lengthSize : Byte
  /-- the number of sequence parameter sets, below bits that are reserved -/
  numSps : Byte
  sps : List (List Byte)
  pps : List (List Byte)
  tail : List Byte
  sps_ne : sps ≠ []
  pps_ne : pps ≠ []
  count_sps : (numSps &&& 0x1f).toNat = sps.length
  count_pps : pps.length < 2 ^ 8
  small : ∀ set ∈ sps ++ pps, set.length < 2 ^ 16

namespace AvcRecord

/-- The bytes of the record. -/
def bytes (r : AvcRecord) : List Byte :=
  [1, r.profile, r.compatibility, r.level, r.lengthSize, r.numSps] ++ (r.sps.flatMap sizedSet ++
    (BitVec.ofNat 8 r.pps.length :: (r.pps.flatMap sizedSet ++ r.tail)))

/-- All sets in base64, with commas between them. -/
def text (r : AvcRecord) : List Byte := joined 0x2c ((r.sps ++ r.pps).map base64)

end AvcRecord

theorem setsFrom_sized {sets : List (List Byte)} (hsmall : ∀ set ∈ sets, set.length < 2 ^ 16)
    (rest : List Byte) : setsFrom sets.length (sets.flatMap sizedSet ++ rest) = (sets, rest) := by
  induction sets with
  | nil => rfl
  | cons set sets ih =>
      have hset := hsmall set List.mem_cons_self
      have hsize : (BitVec.ofNat 16 set.length).toNat = set.length := by
        rw [BitVec.toNat_ofNat, Nat.mod_eq_of_lt hset]
      have hfits : ¬ set.length > (set ++ (sets.flatMap sizedSet ++ rest)).length := by
        rw [List.length_append]
        omega
      rw [List.length_cons, List.flatMap_cons, List.append_assoc]
      show setsFrom (sets.length + 1) (_ :: _ :: (set ++ (sets.flatMap sizedSet ++ rest))) = _
      rw [setsFrom, be16_bytes, hsize]
      dsimp only
      rw [if_neg hfits, List.drop_left, List.take_left,
        ih fun other hother => hsmall other (List.mem_cons_of_mem set hother)]

/-- A set behind a comma, where there is room for both. -/
theorem addSet_comma {sprop set : List Byte} (h : sprop.length + 1 + (base64 set).length < cap) :
    addSet cap true sprop set = sprop ++ [0x2c] ++ base64 set := by
  have hcomma : (if true = true ∧ sprop.length + 1 < cap then sprop ++ [0x2c] else sprop) =
      sprop ++ [0x2c] := if_pos ⟨rfl, by omega⟩
  have hroom : (sprop ++ [0x2c]).length + (base64 set).length < cap := by
    rw [List.length_append, List.length_singleton]
    exact h
  rw [addSet, hcomma, if_pos hroom]

/-- The first set. -/
theorem addSet_first {set : List Byte} (h : (base64 set).length < cap) :
    addSet cap false [] set = base64 set := by
  have hroom : ([] : List Byte).length + (base64 set).length < cap := (Nat.zero_add _).trans_lt h
  show (if _ then [] ++ base64 set else []) = _
  exact if_pos hroom

/-- Sets with a comma in front of each, where the text has room for all of them. -/
theorem addSets_true {sprop : List Byte} {sets : List (List Byte)}
    (hroom : (sprop ++ (sets.map base64).flatMap (0x2c :: ·)).length < cap) :
    addSets cap true sprop sets = sprop ++ (sets.map base64).flatMap (0x2c :: ·) := by
  induction sets generalizing sprop with
  | nil => exact (List.append_nil sprop).symm
  | cons set sets ih =>
      have hsplit : sprop ++ ((set :: sets).map base64).flatMap (0x2c :: ·) =
          (sprop ++ [0x2c] ++ base64 set) ++ (sets.map base64).flatMap (0x2c :: ·) := by
        rw [List.map_cons, List.flatMap_cons, List.append_assoc, List.append_assoc]
        rfl
      rw [hsplit] at hroom ⊢
      have hfits := hroom
      rw [List.length_append, List.length_append, List.length_append, List.length_singleton] at hfits
      rw [addSets, addSet_comma (by omega)]
      exact ih hroom

/-- **A well-formed record becomes its sets in base64**, where they fit. -/
theorem avccToSdpParams_record (r : AvcRecord) (hfits : r.text.length < spropSize) :
    avccToSdpParams r.bytes spropSize = some (some ⟨recordLevel r.bytes, r.text⟩) := by
  obtain ⟨sps, more, hsps⟩ : ∃ sps more, r.sps = sps :: more := List.exists_cons_of_ne_nil r.sps_ne
  have hspsSmall : ∀ set ∈ r.sps, set.length < 2 ^ 16 := fun set hset =>
    r.small set (List.mem_append_left _ hset)
  have hppsSmall : ∀ set ∈ r.pps, set.length < 2 ^ 16 := fun set hset =>
    r.small set (List.mem_append_right _ hset)
  have hfirst : setsFrom (r.bytes.getD 5 0 &&& 0x1f).toNat (r.bytes.drop 6) =
      (r.sps, BitVec.ofNat 8 r.pps.length :: (r.pps.flatMap sizedSet ++ r.tail)) := by
    show setsFrom (r.numSps &&& 0x1f).toNat (r.sps.flatMap sizedSet ++ _) = _
    rw [r.count_sps, setsFrom_sized hspsSmall]
  have hsecond : setsFrom (BitVec.ofNat 8 r.pps.length).toNat (r.pps.flatMap sizedSet ++ r.tail) =
      (r.pps, r.tail) := by
    rw [BitVec.toNat_ofNat, Nat.mod_eq_of_lt r.count_pps, setsFrom_sized hppsSmall]
  have hsets : recordSets r.bytes = r.sps ++ r.pps := by
    rw [recordSets, hfirst]
    show r.sps ++ (setsFrom _ _).1 = _
    rw [hsecond]
  have htext : r.text = base64 sps ++ ((more ++ r.pps).map base64).flatMap (0x2c :: ·) := by
    rw [AvcRecord.text, hsps, List.cons_append, List.map_cons, joined_eq_flatMap]
  have hall : base64 sps ++ ((more ++ r.pps).map base64).flatMap (0x2c :: ·) =
      (base64 sps ++ (more.map base64).flatMap (0x2c :: ·)) ++
        (r.pps.map base64).flatMap (0x2c :: ·) := by
    rw [List.map_append, List.flatMap_append, List.append_assoc]
  have hroom : ((base64 sps ++ (more.map base64).flatMap (0x2c :: ·)) ++
      (r.pps.map base64).flatMap (0x2c :: ·)).length < spropSize := by
    rw [← hall, ← htext]
    exact hfits
  have hroomFirst : (base64 sps ++ (more.map base64).flatMap (0x2c :: ·)).length < spropSize := by
    rw [List.length_append] at hroom
    omega
  have hbegin : addSet spropSize false [] sps = base64 sps := by
    rw [List.length_append] at hroomFirst
    exact addSet_first (by omega)
  have hwritten : recordText spropSize r.bytes = r.text := by
    rw [recordText, hfirst]
    show addSets spropSize true (addSets spropSize false [] r.sps) (setsFrom _ _).1 = _
    rw [hsecond, hsps, addSets, hbegin, addSets_true hroomFirst, addSets_true hroom, ← hall, htext]
  -- a set that fits into the text fits into the scratch buffer
  have hfit : Fit (recordSets r.bytes) := by
    intro set hset
    rw [hsets] at hset
    have hpart : (base64 set).length ≤ r.text.length := by
      rw [htext]
      rw [hsps, List.cons_append] at hset
      rcases List.mem_cons.mp hset with rfl | hset
      · rw [List.length_append]
        omega
      · rw [List.length_append]
        have hmem : 0x2c :: base64 set ∈ ((more ++ r.pps).map base64).map (0x2c :: ·) :=
          List.mem_map_of_mem (List.mem_map_of_mem hset)
        have hle := (List.sublist_flatten_of_mem hmem).length_le
        rw [List.length_cons, ← List.flatMap_def] at hle
        omega
    have hsize : spropSize = 1024 := rfl
    have hlength : (base64 set).length = (set.length + 2) / 3 * 4 := length_base64 set
    omega
  have hrecord : IsRecord r.bytes := by
    refine ⟨?_, rfl⟩
    rw [AvcRecord.bytes]
    simp only [List.length_append, List.length_cons]
    omega
  rw [avccToSdpParams_eq _ (by decide), if_pos hrecord, if_pos hfit, hwritten]

/-! ## Which records are safe -/

/-- The conversion that `make_sdp` asks for stays inside of the record and of its buffers, and a
well-formed record whose text fits becomes its sets. -/
structure AvccRight (extra : List Byte) : Prop where
  inside : avccToSdpParams extra spropSize ≠ none
  faithful : ∀ r : AvcRecord, r.bytes = extra → r.text.length < spropSize →
    ∃ level, avccToSdpParams extra spropSize = some (some ⟨level, r.text⟩)

/-- A conversion that stays inside has no parameter set of more than 765 bytes. -/
theorem AvccRight.fit {extra : List Byte} (h : AvccRight extra) (hrecord : IsRecord extra) :
    Fit (recordSets extra) := by
  by_contra hlong
  have hspec := @avccToSdpParams_eq spropSize extra (by decide)
  rw [if_pos hrecord, if_neg hlong] at hspec
  exact h.inside hspec

/-- **The conversion is safe and faithful exactly when no parameter set of the record has more than
765 bytes.** -/
theorem avccRight_iff (extra : List Byte) :
    AvccRight extra ↔ (IsRecord extra → Fit (recordSets extra)) := by
  constructor
  · exact AvccRight.fit
  · intro hfit
    have hspec := @avccToSdpParams_eq spropSize extra (by decide)
    refine ⟨?_, fun r hr hroom => ⟨_, hr ▸ avccToSdpParams_record r hroom⟩⟩
    rw [hspec]
    by_cases hrecord : IsRecord extra
    · rw [if_pos hrecord, if_pos (hfit hrecord)]
      exact Option.some_ne_none _
    · rw [if_neg hrecord]
      exact Option.some_ne_none _

/-- A record with one sequence parameter set of 766 bytes. -/
def longRecord : List Byte := [1, 66, 0, 30, 0xff, 0xe1, 0x02, 0xfe] ++ List.replicate 766 0

/-- Its characters do not fit into the scratch buffer. -/
theorem not_avccRight_long : ¬ AvccRight longRecord := by
  intro h
  have hsets : recordSets longRecord = [List.replicate 766 0] := by
    have hfrom : setsFrom 1 (0x02 :: 0xfe :: List.replicate 766 (0 : Byte)) =
        ([List.replicate 766 0], []) := by
      rw [setsFrom]
      have hsize : (be16 0x02 0xfe).toNat = 766 := by decide
      rw [hsize]
      dsimp only
      rw [if_neg (by rw [List.length_replicate]; decide), List.take_replicate, List.drop_replicate]
      rfl
    have hpart : setsFrom (longRecord.getD 5 0 &&& 0x1f).toNat (longRecord.drop 6) =
        ([List.replicate 766 0], []) := hfrom
    rw [recordSets, hpart]
  have hrecord : IsRecord longRecord := by
    refine ⟨?_, rfl⟩
    rw [longRecord, List.length_append, List.length_replicate]
    decide
  have hfit := h.fit hrecord
  rw [hsets] at hfit
  have hlong := hfit _ List.mem_cons_self
  rw [List.length_replicate] at hlong
  exact absurd hlong (by decide)

end Zstreamer.Rtsp

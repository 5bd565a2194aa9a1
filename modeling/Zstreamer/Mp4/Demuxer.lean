/-
# Through the container and back

`mp4_parse_h264_extradata` makes an avcC record of the first parameter sets of a stream.
`mp4demux_avcc_to_annexb` turns a packet back into a byte stream, and puts the parameter sets of
the record in front of a key frame.  The memory for both is the size of the packet and 1024 bytes,
and only a NAL unit of the packet makes it grow.
-/

import Zstreamer.Mp4.Muxer
import Zstreamer.Rtp.Carriage

namespace Zstreamer.Mp4

open Foundation Rtp Hls List Option
open Rtsp (sizedSet setsFrom recordSets IsRecord)

/-! ## The demuxer -/

/-- A start code, and so many bytes from an offset on behind it. -/
def putUnit (room : ℕ) (data : List Byte) (offset len : ℕ) (out : List Byte) : Option (List Byte) :=
  (span data offset len).bind fun unit => writeTo room out (startCode true ++ unit)

/-- A loop over the parameter sets of one kind: the offset and the output that it leaves. -/
def copySets (room : ℕ) (extra : List Byte) : ℕ → ℕ → List Byte → Option (ℕ × List Byte)
  | 0, p, out => some (p, out)
  | count + 1, p, out =>
      if p + 2 ≤ extra.length then do
        let high ← extra[p]?
        let low ← extra[p + 1]?
        let len := (be16 high low).toNat
        let p := p + 2
        if p + len > extra.length then some (p, out)
        else do
          let out ← putUnit room extra p len out
          copySets room extra count (p + len) out
      else some (p, out)

/-- The parameter sets in front of a key frame. -/
def putSets (room : ℕ) (extra : List Byte) : Option (List Byte) := do
  let numSps ← extra[5]?
  let sps ← copySets room extra (numSps &&& 0x1f).toNat 6 []
  if sps.1 < extra.length then do
    let numPps ← extra[sps.1]?
    (copySets room extra numPps.toNat (sps.1 + 1) sps.2).map Prod.snd
  else some sps.2

/-- The loop over the NAL units.  The sums with a length are of 32 bits. -/
def copyUnits (grants : ℕ → Bool) (avcc : List Byte) :
    ℕ → ℕ → ℕ → List Byte → Option (Option (List Byte))
  | 0, _, _, _ => none
  | turns + 1, allocSize, i, out =>
      if i + 4 > avcc.length then some (some out)
      else do
        let word ← span avcc i 4
        let nalLen := bigEndian word
        let i := i + 4
        if (i + nalLen) % 2 ^ 32 > avcc.length then some (some out)
        else
          let required := (out.length + 4 + nalLen) % 2 ^ 32
          let wanted := (required + 1024) % 2 ^ 32
          if required > allocSize ∧ ¬ (grants i = true ∧ wanted < 2 ^ 31) then some none
          else do
            let allocSize := if required > allocSize then wanted else allocSize
            let out ← putUnit allocSize avcc i nalLen out
            copyUnits grants avcc turns allocSize (i + nalLen) out

/-- `mp4demux_avcc_to_annexb`. -/
def avccToAnnexb (grant : Bool) (grants : ℕ → Bool) (isKeyframe : Bool) (extra avcc : List Byte) :
    Option (Option (List Byte)) :=
  if grant = false then some none
  else do
    let out ← (if isKeyframe = true ∧ IsRecord extra then putSets (avcc.length + 1024) extra
      else some [])
    copyUnits grants avcc (avcc.length + 1) (avcc.length + 1024) 0 out

/-! ## What is copied -/

theorem startCoded_cons (unit : List Byte) (units : List (List Byte)) :
    startCoded (unit :: units) = startCode true ++ unit ++ startCoded units := flatMap_cons

theorem startCoded_append (first second : List (List Byte)) :
    startCoded (first ++ second) = startCoded first ++ startCoded second := flatMap_append

/-- The units of a packet up to one that is not all there, and the bytes from there on. -/
def unitsBehind : ℕ → List Byte → List (List Byte) × List Byte
  | 0, rest => ([], rest)
  | turns + 1, rest =>
      let n := bigEndian (rest.take 4)
      if rest.length < 4 ∨ rest.length < 4 + n then ([], rest)
      else
        let later := unitsBehind turns (rest.drop (4 + n))
        ((rest.drop 4).take n :: later.1, later.2)

/-- Its end, as a number of 32 bits, is inside of the packet all the same. -/
def Wraps (avcc rest : List Byte) : Prop :=
  4 ≤ rest.length ∧ rest.length < 4 + bigEndian (rest.take 4) ∧
    (avcc.length - rest.length + 4 + bigEndian (rest.take 4)) % 2 ^ 32 ≤ avcc.length

instance (avcc rest : List Byte) : Decidable (Wraps avcc rest) :=
  inferInstanceAs (Decidable (_ ∧ _ ∧ _))

/-- Nothing is copied, and the offset is where the rest begins. -/
theorem copySets_stays {room p : ℕ} {extra out : List Byte} (hout : out.length ≤ room)
    (hp : p ≤ extra.length) :
    (writeTo room out (startCoded [])).map (extra.length - (extra.drop p).length, ·) =
      some (p, out) := by
  have hend : extra.length - (extra.drop p).length = p := by
    rw [length_drop]
    omega
  rw [hend]
  exact Option.map_eq_some_iff.mpr ⟨out, writeTo_eq_some.mpr ⟨append_nil out, hout⟩, rfl⟩

/-- **The loop over the parameter sets of one kind** reads inside of the record; it stays in its
memory exactly when the sets fit there behind their start codes. -/
theorem copySets_eq {room : ℕ} {extra : List Byte} (count : ℕ) {p : ℕ} {out : List Byte}
    (hp : p ≤ extra.length) (hout : out.length ≤ room) :
    copySets room extra count p out =
      (writeTo room out (startCoded (setsFrom count (extra.drop p)).1)).map
        (extra.length - (setsFrom count (extra.drop p)).2.length, ·) := by
  induction count generalizing p out with
  | zero =>
      rw [copySets, setsFrom]
      exact (copySets_stays hout hp).symm
  | succ count ih =>
      rw [copySets]
      by_cases hheader : p + 2 ≤ extra.length
      · obtain ⟨high, low, hhigh, hlow, hdrop⟩ := drop_two hheader
        have hrest : (extra.drop (p + 2)).length = extra.length - (p + 2) := length_drop
        rw [if_pos hheader, hhigh, hlow, hdrop, setsFrom]
        dsimp only [bind_eq_bind, bind_some]
        by_cases hleaves : (be16 high low).toNat > (extra.drop (p + 2)).length
        · rw [if_pos hleaves, if_pos (by omega)]
          exact (copySets_stays hout hheader).symm
        · rw [if_neg hleaves, if_neg (by omega), putUnit, span_of_le (by omega)]
          dsimp only [bind_some]
          rw [drop_drop, startCoded_cons, ← writeTo_append room out (_ ++ _), Option.map_bind]
          exact bind_congr fun _ hwrite => ih (by omega) (writeTo_eq_some.mp hwrite).2
      · have hshort : (extra.drop p).length < 2 := length_drop_lt_two hheader
        have hnone : setsFrom (count + 1) (extra.drop p) = ([], extra.drop p) := by
          rcases hrest : extra.drop p with _ | ⟨high, _ | ⟨low, rest⟩⟩
          · rfl
          · rfl
          · rw [hrest] at hshort
            exact absurd hshort (Nat.not_lt.mpr (Nat.le_add_left 2 _))
        rw [if_neg hheader, hnone]
        exact (copySets_stays hout hp).symm

/-- The parameter sets of a record are copied when they fit. -/
theorem putSets_eq {extra : List Byte} (hrecord : IsRecord extra) (room : ℕ) :
    putSets room extra = writeTo room [] (startCoded (recordSets extra)) := by
  have hlength := hrecord.1
  have hsuffix := (Rtsp.setsFrom_suffix (extra.getD 5 0 &&& 0x1f).toNat (extra.drop 6)).trans
    (drop_suffix 6 extra)
  rw [putSets, getElem?_eq_getD (show 5 < extra.length by omega) 0, bind_eq_bind, bind_some,
    copySets_eq _ (show 6 ≤ extra.length by omega) (Nat.zero_le room), recordSets, Option.bind_eq_bind,
    Option.bind_map]
  generalize setsFrom (extra.getD 5 0 &&& 0x1f).toNat (extra.drop 6) = sps at hsuffix ⊢
  obtain ⟨sets, rest⟩ := sps
  have hplace := suffix_iff_eq_drop.mp hsuffix
  cases rest with
  | nil =>
      have hend : ¬ extra.length - ([] : List Byte).length < extra.length := Nat.lt_irrefl _
      exact (bind_congr fun out _ => if_neg hend).trans (bind_fun_some _)
  | cons numPps rest =>
      have hless := hsuffix.length_le
      dsimp only at hplace hless ⊢
      rw [length_cons] at hplace hless ⊢
      rw [startCoded_append, ← writeTo_append]
      refine bind_congr fun out hwrite => ?_
      dsimp only [Function.comp_apply]
      rw [if_pos (by omega), ← head?_drop, ← hplace, head?_cons, bind_some,
        copySets_eq _ (by omega) (writeTo_eq_some.mp hwrite).2, ← drop_drop, ← hplace, Option.map_map]
      exact Option.map_id'

theorem bigEndian_lt (bytes : List Byte) : bigEndian (bytes.take 4) < 2 ^ 32 := by
  rcases bytes with _ | ⟨a, _ | ⟨b, _ | ⟨c, _ | ⟨d, rest⟩⟩⟩⟩
  all_goals
    simp only [bigEndian, take_succ_cons, take_zero, take_nil, foldl_cons, foldl_nil]
    omega

/-- **The loop over the NAL units** copies the units up to one that is not all there.  It leaves its
memory exactly when the end of that one wraps around. -/
theorem copyUnits_eq {avcc : List Byte} (hsize : avcc.length ≤ 2 ^ 29) {turns allocSize i : ℕ}
    {out : List Byte} (hi : i ≤ avcc.length) (hturns : avcc.length - i < turns)
    (hout : out.length ≤ allocSize) (hlow : i ≤ out.length)
    (hhigh : out.length ≤ avcc.length + 1024 + i) :
    copyUnits (fun _ => true) avcc turns allocSize i out =
      if Wraps avcc (unitsBehind turns (avcc.drop i)).2 then none
      else some (some (out ++ startCoded (unitsBehind turns (avcc.drop i)).1)) := by
  induction turns generalizing allocSize i out with
  | zero => exact absurd hturns (Nat.not_lt_zero _)
  | succ turns ih =>
      have hrest : (avcc.drop i).length = avcc.length - i := length_drop
      rw [copyUnits, unitsBehind]
      have hlen := bigEndian_lt (avcc.drop i)
      by_cases hfour : i + 4 > avcc.length
      · have hstop : (avcc.drop i).length < 4 := by omega
        have hnot : ¬ Wraps avcc (avcc.drop i) := fun h => absurd h.1 (Nat.not_le.mpr hstop)
        rw [if_pos hfour, if_pos (Or.inl hstop)]
        dsimp only
        rw [if_neg hnot]
        exact congrArg (some ∘ some) (append_nil out).symm
      · have hend : avcc.length - (avcc.drop i).length = i := by omega
        have hiff : Wraps avcc (avcc.drop i) ↔ 4 ≤ (avcc.drop i).length ∧
            (avcc.drop i).length < 4 + bigEndian ((avcc.drop i).take 4) ∧
              (i + 4 + bigEndian ((avcc.drop i).take 4)) % 2 ^ 32 ≤ avcc.length := by
          rw [Wraps, hend]
        rw [if_neg hfour, span_of_le (by omega), bind_eq_bind, bind_some]
        generalize bigEndian ((avcc.drop i).take 4) = n at hlen hiff ⊢
        dsimp only
        by_cases hwhole : (avcc.drop i).length < 4 + n
        · rw [if_pos (Or.inr hwhole)]
          by_cases hwraps : (i + 4 + n) % 2 ^ 32 ≤ avcc.length
          · -- the unit is read from the packet, which ends before it does
            have hspan : span avcc (i + 4) n = none := if_neg (by omega)
            have hmost : (out.length + 4 + n) % 2 ^ 32 + 1024 < 2 ^ 31 := by omega
            rw [if_neg (Nat.not_lt.mpr hwraps), if_neg fun h => absurd h.2 (not_not.mpr
              ⟨rfl, (Nat.mod_le _ _).trans_lt hmost⟩), if_pos (hiff.mpr ⟨by omega, hwhole, hwraps⟩),
              putUnit, hspan]
            rfl
          · rw [if_pos (Nat.lt_of_not_le hwraps), if_neg fun h => hwraps (hiff.mp h).2.2]
            exact congrArg (some ∘ some) (append_nil out).symm
        · have hmore : ¬ ((avcc.drop i).length < 4 ∨ (avcc.drop i).length < 4 + n) := by omega
          have hunit : ((avcc.drop i).drop 4).take n = (avcc.drop (i + 4)).take n := by
            rw [drop_drop]
          have hnext : (avcc.drop i).drop (4 + n) = avcc.drop (i + 4 + n) := by
            rw [drop_drop, Nat.add_assoc]
          have hlonger : (out ++ (startCode true ++ (avcc.drop (i + 4)).take n)).length =
              out.length + 4 + n := by
            simp only [length_append, length_take, length_drop,
              show (startCode true).length = 4 from rfl]
            omega
          rw [Nat.mod_eq_of_lt (show i + 4 + n < 2 ^ 32 by omega),
            Nat.mod_eq_of_lt (show out.length + 4 + n < 2 ^ 32 by omega),
            Nat.mod_eq_of_lt (show out.length + 4 + n + 1024 < 2 ^ 32 by omega), if_neg (by omega),
            if_neg fun h => absurd h.2 (not_not.mpr ⟨rfl, by omega⟩), if_neg hmore, putUnit,
            span_of_le (by omega), bind_some, hunit, hnext, startCoded_cons]
          have hroom : out.length + 4 + n ≤ if out.length + 4 + n > allocSize then
              out.length + 4 + n + 1024 else allocSize := by
            split
            · omega
            · omega
          rw [writeTo_eq_some.mpr ⟨rfl, hlonger.trans_le hroom⟩, bind_some,
            ih (by omega) (by omega) (hlonger.trans_le hroom) (by omega) (by omega), append_assoc]

/-- The parameter sets that come in front. -/
def frontSets (isKeyframe : Bool) (extra : List Byte) : List (List Byte) :=
  if isKeyframe = true ∧ IsRecord extra then recordSets extra else []

/-- What the whole function does when all requests for memory are granted. -/
theorem avccToAnnexb_eq (isKeyframe : Bool) (extra : List Byte) {avcc : List Byte}
    (hsize : avcc.length ≤ 2 ^ 29) :
    avccToAnnexb true (fun _ => true) isKeyframe extra avcc =
      if (startCoded (frontSets isKeyframe extra)).length ≤ avcc.length + 1024 ∧
          ¬ Wraps avcc (unitsBehind (avcc.length + 1) avcc).2 then
        some (some (startCoded (frontSets isKeyframe extra ++
          (unitsBehind (avcc.length + 1) avcc).1)))
      else none := by
  have hfront : (if isKeyframe = true ∧ IsRecord extra then putSets (avcc.length + 1024) extra
      else some []) = writeTo (avcc.length + 1024) [] (startCoded (frontSets isKeyframe extra)) := by
    rw [frontSets]
    split
    case isTrue h => exact putSets_eq h.2 _
    case isFalse => exact (if_pos (Nat.zero_le _)).symm
  rw [avccToAnnexb, if_neg (show ¬ true = false from Bool.noConfusion), hfront, writeTo, length_nil,
    Nat.zero_add, nil_append]
  by_cases hroom : (startCoded (frontSets isKeyframe extra)).length ≤ avcc.length + 1024
  · have hrun := @copyUnits_eq avcc hsize (avcc.length + 1) (avcc.length + 1024) 0
      (startCoded (frontSets isKeyframe extra)) (Nat.zero_le _) (by omega) hroom (Nat.zero_le _) hroom
    rw [drop_zero] at hrun
    rw [if_pos hroom, bind_eq_bind, bind_some, hrun, startCoded_append]
    by_cases hwraps : Wraps avcc (unitsBehind (avcc.length + 1) avcc).2
    · rw [if_pos hwraps, if_neg fun h => h.2 hwraps]
    · rw [if_neg hwraps, if_pos ⟨hroom, hwraps⟩]
  · rw [if_neg hroom, if_neg fun h => hroom h.1]
    rfl

/-- **`mp4demux_avcc_to_annexb` leaves its memory or its packet exactly when** the parameter sets of
a key frame, each behind a start code, have more than 1024 bytes more than the packet, or when the
end of a NAL unit that is not all there wraps around. -/
theorem avccToAnnexb_outside_iff (isKeyframe : Bool) (extra : List Byte) {avcc : List Byte}
    (hsize : avcc.length ≤ 2 ^ 29) :
    avccToAnnexb true (fun _ => true) isKeyframe extra avcc = none ↔
      avcc.length + 1024 < (startCoded (frontSets isKeyframe extra)).length ∨
        Wraps avcc (unitsBehind (avcc.length + 1) avcc).2 := by
  rw [avccToAnnexb_eq isKeyframe extra hsize, ← Nat.not_le]
  split
  case isTrue h => exact iff_of_false (some_ne_none _) fun hout => hout.elim (· h.1) h.2
  case isFalse h =>
    exact iff_of_true rfl ((not_and_or.mp h).imp_right not_not.mp)

/-- A length of 2^32 - 4. -/
theorem avccToAnnexb_outside_wrap :
    avccToAnnexb true (fun _ => true) false [] [0xff, 0xff, 0xff, 0xfc] = none :=
  (avccToAnnexb_outside_iff false [] (by decide)).mpr (.inr (by decide))

/-! ## A stream through the container -/

/-- Units that can be read back are all there. -/
theorem unitsBehind_of_readUnits {turns : ℕ} {packet : List Byte} {units : List (List Byte)}
    (h : readUnits turns packet = some units) : unitsBehind turns packet = (units, []) := by
  induction turns generalizing packet units with
  | zero => cases h
  | succ turns ih =>
      rw [readUnits] at h
      rw [unitsBehind]
      split at h
      case isTrue hnil =>
        cases h
        rw [hnil, if_pos (Or.inl (by decide))]
      case isFalse hne =>
        rw [Option.ite_none_left_eq_some] at h
        obtain ⟨hwhole, hmap⟩ := h
        obtain ⟨later, hlater, rfl⟩ := Option.map_eq_some_iff.mp hmap
        rw [if_neg (by omega), ih hlater]

theorem length_le_lengthPrefixed (units : List (List Byte)) :
    units.length ≤ (lengthPrefixed units).length := by
  induction units with
  | nil => exact Nat.le_refl 0
  | cons unit units ih =>
      rw [lengthPrefixed, flatMap_cons, length_append, ← lengthPrefixed, length_append, length_cons,
        show (lengthBytes unit.length).length = 4 from rfl]
      omega

/-- **What goes through the container comes back**: behind the parameter sets of a key frame come
the NAL units of the stream, each behind a start code of four bytes, if the parameter sets fit into
the memory. -/
theorem remux_eq (isKeyframe : Bool) (extra : List Byte) {data : List Byte}
    (hsize : data.length ≤ 2 ^ 28) (hunits : nalUnitsOf data ≠ []) :
    (muxPacket true true (fun _ => true) data).bind
        (avccToAnnexb true (fun _ => true) isKeyframe extra) =
      if (startCoded (frontSets isKeyframe extra)).length ≤
          (lengthPrefixed (nalUnitsOf data)).length + 1024 then
        some (some (startCoded (frontSets isKeyframe extra ++ nalUnitsOf data)))
      else none := by
  obtain ⟨result, hrun, hwritten, hroom⟩ := hlsAnnexbToAvcc_eq data
  have hsame : annexbToAvcc true (fun _ => true) data = some result :=
    (annexbToAvcc_agrees (fun _ => true) hrun).resolve_right fun h => h.2.elim fun _ hrefused => by
      cases hrefused
  have hlength := length_le_lengthPrefixed (nalUnitsOf data)
  have hcount := length_pos_of_ne_nil hunits
  have hpacket : muxPacket true true (fun _ => true) data =
      some (lengthPrefixed (nalUnitsOf data)) := by
    have hne : lengthPrefixed (nalUnitsOf data) ≠ [] := ne_nil_of_length_pos (by omega)
    rw [muxPacket, if_pos rfl, hsame, map_some, hwritten, if_neg hne]
  rw [hwritten] at hroom
  have hdecoded := unitsBehind_of_readUnits (readUnits_lengthPrefixed
    (fun unit hunit => (length_nalUnitsOf_le hunit).trans_lt (by omega)) (Nat.lt_succ_of_le hlength))
  have hnot : ¬ Wraps (lengthPrefixed (nalUnitsOf data)) [] := fun h => absurd h.1 (by decide)
  rw [hpacket, bind_some, avccToAnnexb_eq isKeyframe extra (by omega), hdecoded]
  simp only [hnot, not_false_eq_true, and_true]

/-- A key frame, with the parameter sets of a record in front. -/
theorem remux_keyframe :
    (muxPacket true true (fun _ => true) [0, 0, 1, 0x65, 7]).bind (avccToAnnexb true (fun _ => true)
        true [1, 66, 0, 30, 0xff, 0xe1, 0, 1, 0x67, 1, 0, 1, 0x68]) =
      some (some (startCoded [[0x67], [0x68], [0x65, 7]])) :=
  (remux_eq true _ (by decide) (by decide)).trans (by decide)

/-! ## The parameter sets of a stream -/

/-- The first unit of each type is kept. -/
theorem foldl_note (units : List (List Byte)) (sets : ParameterSets) :
    units.foldl ParameterSets.note sets =
      ⟨sets.sps <|> units.find? (nalType · = 7), sets.pps <|> units.find? (nalType · = 8)⟩ := by
  induction units generalizing sets with
  | nil =>
      obtain ⟨sps | sps, pps | pps⟩ := sets
      all_goals rfl
  | cons unit units ih =>
      rw [foldl_cons, ih, find?_cons, find?_cons, ParameterSets.note]
      by_cases hsps : nalType unit = 7
      · obtain ⟨sps | sps, pps⟩ := sets
        all_goals simp [hsps]
      · by_cases hpps : nalType unit = 8
        · obtain ⟨sps, pps | pps⟩ := sets
          all_goals simp [hpps]
        · simp only [hsps, hpps, false_and, if_false, decide_false]

theorem ParameterSets.note_nil (sets : ParameterSets) : sets.note [] = sets := by
  simp [note, nalType]

/-- The loop notes the units of the stream. -/
theorem scanSets_eq {data : List Byte} {turns pos codeSize : ℕ} {sets : ParameterSets}
    (hstart : pos + codeSize ≤ data.length) (hturns : data.length - (pos + codeSize) < turns) :
    scanSets data turns pos codeSize sets =
      some (((nalUnitsFrom turns (data.drop (pos + codeSize))).map Prod.fst).foldl
        ParameterSets.note sets) := by
  induction turns generalizing pos codeSize sets with
  | zero => exact absurd hturns (Nat.not_lt_zero _)
  | succ turns ih =>
      have hnote : ∀ n, (if n > 0 then sets.note ((data.drop (pos + codeSize)).take n) else sets) =
          sets.note ((data.drop (pos + codeSize)).take n) := by
        intro n
        cases n with
        | zero => exact sets.note_nil.symm
        | succ n => exact if_pos (Nat.succ_pos n)
      have hnext := zstFindStartCode_eq hstart
      rw [startCodeFrom] at hnext
      rw [scanSets, nalUnitsFrom]
      cases hfound : findStartCode (data.drop (pos + codeSize)) with
      | none =>
          rw [hfound] at hnext
          obtain ⟨last, htrim, -, -, htake⟩ := trimEnd_eq hstart (Nat.le_refl data.length)
          rw [take_of_length_le (Nat.le_of_eq length_drop)] at htake
          simp only [hnext, map_none, getD_none, htrim, bind_eq_bind, bind_some, hnote, htake]
          rfl
      | some found =>
          rw [hfound] at hnext
          obtain ⟨hthree, -, hbound⟩ := @findStartCode_bounds _ found.1 found.2 hfound
          rw [length_drop] at hbound
          obtain ⟨last, htrim, -, -, htake⟩ := trimEnd_eq (Nat.le_add_right (pos + codeSize) found.1)
            (show pos + codeSize + found.1 ≤ data.length by omega)
          rw [Nat.add_sub_cancel_left] at htake
          simp only [hnext, map_some, getD_some, htrim, bind_eq_bind, bind_some, hnote, htake]
          rw [ih (by omega) (by omega), map_cons, foldl_cons, drop_drop, Nat.add_assoc _ found.1]

/-- The sets of such a record. -/
theorem frontSets_avcc {sps pps : List Byte} (hsps : sps.length < 2 ^ 16)
    (hpps : pps.length < 2 ^ 16) : frontSets true (avcc sps pps) = [sps, pps] := by
  have hset : ∀ {set : List Byte}, set.length < 2 ^ 16 → ∀ rest,
      setsFrom 1 (sizedSet set ++ rest) = ([set], rest) := by
    intro set hset rest
    have hone := @Rtsp.setsFrom_sized [set] (forall_mem_singleton.mpr hset) rest
    rwa [flatMap_singleton] at hone
  have hrecord : IsRecord (avcc sps pps) := ⟨by simp [avcc, sizedSet], rfl⟩
  have hfront : setsFrom ((avcc sps pps).getD 5 0 &&& 0x1f).toNat ((avcc sps pps).drop 6) =
      ([sps], 1 :: sizedSet pps) := by
    rw [show (avcc sps pps).getD 5 0 = 0xe1 from rfl]
    exact hset hsps _
  have hback : setsFrom (1 : Byte).toNat (sizedSet pps) = ([pps], []) := by
    have hall := hset hpps []
    rwa [append_nil] at hall
  rw [frontSets, if_pos ⟨rfl, hrecord⟩, recordSets, hfront]
  dsimp only
  rw [hback]
  rfl

/-- **The demuxer finds the first SPS and the first PPS of a stream in the record that the muxer
makes of it.** -/
theorem parseH264Extradata_record {data sps pps : List Byte} (annexb : Bool)
    (hsps : (nalUnitsOf data).find? (nalType · = 7) = some sps)
    (hpps : (nalUnitsOf data).find? (nalType · = 8) = some pps)
    (hsize : 4 ≤ sps.length ∧ sps.length < 2 ^ 16) (hsize' : pps.length < 2 ^ 16) :
    ∃ extra, parseH264Extradata ⟨annexb, none⟩ data = some ⟨true, some extra⟩ ∧
      frontSets true extra = [sps, pps] := by
  have hfirst := zstFindStartCode_eq (Nat.zero_le data.length)
  rw [startCodeFrom, drop_zero] at hfirst
  rw [nalUnitsOf] at hsps hpps
  cases hfound : findStartCode data with
  | none =>
      rw [hfound] at hsps
      cases hsps
  | some found =>
      rw [hfound] at hfirst hsps hpps
      obtain ⟨-, -, hbound⟩ := @findStartCode_bounds _ found.1 found.2 hfound
      have hne : data ≠ [] := by
        rintro rfl
        cases hfound
      have hscan := @scanSets_eq data (data.length + 1) found.1 found.2 ⟨none, none⟩ hbound
        (by omega)
      have hskip : (fun (sets : ParameterSets) nal => if decide (nal ≠ []) = true then sets.note nal
          else sets) = ParameterSets.note := by
        funext sets nal
        by_cases hnal : nal = []
        · rw [hnal, sets.note_nil, ite_self]
        · exact if_pos (decide_eq_true hnal)
      rw [← hskip, ← foldl_filter, foldl_note, hsps, hpps] at hscan
      have hrecord : (if sps.length < 4 then none else some (avcc sps pps)) = some (avcc sps pps) :=
        if_neg (Nat.not_lt.mpr hsize.1)
      refine ⟨avcc sps pps, ?_, frontSets_avcc hsize.2 hsize'⟩
      rw [parseH264Extradata, if_neg (not_or.mpr ⟨hne, not_not.mpr rfl⟩), hfirst, bind_eq_bind,
        bind_some]
      dsimp only [map_some]
      rw [Nat.zero_add, hscan, ← hrecord]
      rfl

/-- A second SPS is not taken. -/
theorem parseH264Extradata_record_first :
    ∃ extra, parseH264Extradata ⟨false, none⟩
        [0, 0, 1, 0x67, 66, 0, 30, 0, 0, 1, 0x67, 0, 0, 1, 0x68, 1] = some ⟨true, some extra⟩ ∧
      frontSets true extra = [[0x67, 66, 0, 30], [0x68, 1]] :=
  parseH264Extradata_record false (by decide) (by decide) (by decide) (by decide)

end Zstreamer.Mp4

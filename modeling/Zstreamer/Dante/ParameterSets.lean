/-
# Parameter sets that a video channel keeps

`cache_h264_parameter_sets` of `dante_video_coordinator.c` takes the last set of each kind out of a
buffer, with a scanner of its own: where it looks for a start code there must be four bytes at
least.  The zero bytes at the end of a NAL unit are taken off, as in the payloaders.

Memory is taken to be there for the copies.
-/

import Zstreamer.Rtsp.ParameterSets
import Zstreamer.Rtsp.Stuffing

namespace Zstreamer.Dante

open Foundation Rtp List Option

/-- What stands where the scanner looks (the condition of its inner loops). -/
def codeHere (data : List Byte) : Bool :=
  data.take 3 = [0, 0, 1] || (data.length > 3 && data.take 4 = [0, 0, 0, 1])

/-- An inner loop: how far it is to a start code, or to the last three bytes. -/
def toCode : List Byte → ℕ
  | [] => 0
  | b :: rest => if (b :: rest).length > 3 ∧ codeHere (b :: rest) = false then toCode rest + 1 else 0

/-- `sps` and `pps` of `dante_video_channel_t`. -/
structure ParameterSets where
  sps : Option (List Byte)
  pps : Option (List Byte)
  deriving DecidableEq, Repr

/-- `replace_parameter_set`: a set behind a start code. -/
def replaceParameterSet (nal : List Byte) : Option (List Byte) := some ([0, 0, 0, 1] ++ nal)

/-- A NAL unit is kept if it is a set. -/
def ParameterSets.keep (sets : ParameterSets) (nal : List Byte) : ParameterSets :=
  if nal ≠ [] then
    let type := nal.getD 0 0 &&& 0x1f
    if type = 7 then { sets with sps := replaceParameterSet nal }
    else if type = 8 then { sets with pps := replaceParameterSet nal }
    else sets
  else sets

/-- The loop over the NAL units, for so many turns at most. -/
def cacheFrom : ℕ → List Byte → ParameterSets → ParameterSets
  | 0, _, sets => sets
  | turns + 1, data, sets =>
      if data.length ≤ 3 then sets
      else
        let start := data.drop (toCode data)
        if start.length ≤ 3 then sets
        else
          let code := if start.getD 2 0 = 1 then 3 else 4
          let nal := start.drop code
          let last := if (nal.drop (toCode nal)).length ≤ 3 then nal.length else toCode nal
          let unit := stripZeros (nal.take last)
          cacheFrom turns (nal.drop unit.length) (sets.keep unit)

/-- `cache_h264_parameter_sets`. -/
def cacheH264ParameterSets (sets : ParameterSets) (data : List Byte) : ParameterSets :=
  if data.length < 5 then sets else cacheFrom data.length data sets

/-! ## Start codes -/

theorem codeHere_eq (data : List Byte) : codeHere data =
    (decide (data.take 3 = [0, 0, 1]) || decide (data.take 4 = [0, 0, 0, 1])) := by
  rw [codeHere]
  congr 1
  by_cases hfour : data.take 4 = [0, 0, 0, 1]
  · have hlength := congrArg List.length hfour
    rw [length_take] at hlength
    have hlong : data.length > 3 := by
      simp only [length_cons, length_nil] at hlength
      omega
    rw [decide_eq_true hlong, Bool.true_and]
  · rw [decide_eq_false hfour, Bool.and_false]

/-- The loop stops at the start code that the payloaders find, when a byte follows it. -/
theorem toCode_of_some {data : List Byte} {pos code : ℕ}
    (hfound : findStartCode data = some (pos, code)) (hbehind : pos + 3 < data.length) :
    toCode data = pos := by
  induction data generalizing pos code with
  | nil => cases hfound
  | cons b rest ih =>
      rw [findStartCode] at hfound
      rw [toCode, codeHere_eq]
      split at hfound
      case isTrue hthree =>
        cases hfound
        rw [decide_eq_true hthree, Bool.true_or, if_neg fun h => Bool.false_ne_true h.2.symm]
      case isFalse hthree =>
        split at hfound
        case isTrue hfour =>
          cases hfound
          rw [decide_eq_true hfour, Bool.or_true, if_neg fun h => Bool.false_ne_true h.2.symm]
        case isFalse hfour =>
          obtain ⟨⟨pos', code'⟩, hrest, heq⟩ := map_eq_some_iff.mp hfound
          cases heq
          rw [length_cons] at hbehind ⊢
          rw [decide_eq_false hthree, decide_eq_false hfour, if_pos ⟨by omega, rfl⟩,
            ih hrest (by omega)]

/-- Without one it stops at the last three bytes. -/
theorem toCode_of_none {data : List Byte} (hnone : findStartCode data = none) :
    (data.drop (toCode data)).length ≤ 3 := by
  induction data with
  | nil => exact Nat.zero_le 3
  | cons b rest ih =>
      rw [findStartCode] at hnone
      split at hnone
      case isTrue => cases hnone
      case isFalse hthree =>
        split at hnone
        case isTrue => cases hnone
        case isFalse hfour =>
          rw [toCode, codeHere_eq, decide_eq_false hthree, decide_eq_false hfour]
          split
          · exact ih (map_eq_none_iff.mp hnone)
          · rename_i hshort
            rw [drop_zero]
            exact Nat.le_of_not_lt fun hlong => hshort ⟨hlong, rfl⟩

/-- The third byte says which start code it is. -/
theorem code_of_found {data : List Byte} {pos code : ℕ}
    (hfound : findStartCode data = some (pos, code)) :
    (if (data.drop pos).getD 2 0 = 1 then 3 else 4) = code := by
  obtain ⟨long, rfl, rest, hrest⟩ := startCode_of_found hfound
  rw [← hrest]
  cases long <;> rfl

/-! ## The sets of a stream -/

/-- A NAL unit is taken whole. -/
theorem unit_of_stream {units : List Stuffed} (tail : ℕ) {nal : List Byte} (hnal : Clean nal)
    (hunits : ∀ u ∈ units, Clean u.nal) :
    let data := nal ++ stuffedStream units tail
    stripZeros (data.take (if (data.drop (toCode data)).length ≤ 3 then data.length
      else toCode data)) = nal := by
  cases units with
  | nil =>
      have hnone : findStartCode (nal ++ zeroBytes tail) = none := by
        rw [hnal.plain.findStartCode_behind, findStartCode_zeroBytes]
        rfl
      dsimp only
      rw [stuffedStream, if_pos (toCode_of_none hnone), take_length,
        hnal.stripZeros_zeroBytes]
  | cons u units =>
      obtain ⟨pos, code, hfound, hsum, hle⟩ :=
        findStartCode_stuffed u.extra u.long (u.nal ++ stuffedStream units tail)
      have hwhole : findStartCode (nal ++ stuffedStream (u :: units) tail) =
          some (nal.length + pos, code) := by
        rw [hnal.plain.findStartCode_behind, stuffedStream, hfound]
        rfl
      have hpos := length_pos_iff.mpr (hunits u mem_cons_self).nonempty
      have hlength : (nal ++ stuffedStream (u :: units) tail).length =
          nal.length + (u.extra + ((startCode u.long).length +
            (u.nal.length + (stuffedStream units tail).length))) := by
        rw [stuffedStream, length_append, length_append, length_append,
          length_append, zeroBytes, length_replicate]
      have hcode := (findStartCode_bounds hfound).1
      have hstop := toCode_of_some hwhole (by omega)
      have hlong : ¬ ((nal ++ stuffedStream (u :: units) tail).drop (nal.length + pos)).length ≤ 3 := by
        rw [length_drop]
        omega
      dsimp only
      rw [hstop, if_neg hlong, take_length_add_append, stuffedStream, take_stuffed hle,
        hnal.stripZeros_zeroBytes]

/-- The sets of a stream are kept one after the other. -/
theorem cacheFrom_stream {units : List Stuffed} (tail : ℕ) (hunits : ∀ u ∈ units, Clean u.nal)
    {turns : ℕ} (hturns : (stuffedStream units tail).length ≤ turns) (sets : ParameterSets) :
    cacheFrom turns (stuffedStream units tail) sets =
      (units.map Stuffed.nal).foldl ParameterSets.keep sets := by
  induction units generalizing turns sets with
  | nil =>
      cases turns with
      | zero => rfl
      | succ turns =>
          rw [cacheFrom]
          split
          · rfl
          · exact if_pos (toCode_of_none (findStartCode_zeroBytes tail))
  | cons u units ih =>
      have hclean := hunits u mem_cons_self
      have hpos := length_pos_iff.mpr hclean.nonempty
      obtain ⟨pos, code, hfound, hsum, hle⟩ :=
        findStartCode_stuffed u.extra u.long (u.nal ++ stuffedStream units tail)
      have hwhole : findStartCode (stuffedStream (u :: units) tail) = some (pos, code) := hfound
      have hlength : (stuffedStream (u :: units) tail).length =
          u.extra + ((startCode u.long).length +
            (u.nal.length + (stuffedStream units tail).length)) := by
        rw [stuffedStream, length_append, length_append, length_append,
          zeroBytes, length_replicate]
      have hcode := (findStartCode_bounds hwhole).1
      have hstop := toCode_of_some hwhole (by omega)
      have hlong : ¬ ((stuffedStream (u :: units) tail).drop pos).length ≤ 3 := by
        rw [length_drop]
        omega
      have hdrop : ((stuffedStream (u :: units) tail).drop pos).drop code =
          u.nal ++ stuffedStream units tail := by
        rw [drop_drop, hsum, stuffedStream, drop_stuffed]
      have hunit := unit_of_stream tail hclean fun v hv => hunits v (mem_cons_of_mem u hv)
      dsimp only at hunit
      obtain ⟨turns, rfl⟩ : ∃ m, turns = m + 1 := ⟨turns - 1, by omega⟩
      rw [cacheFrom, if_neg (by omega)]
      dsimp only
      rw [hstop, if_neg hlong, code_of_found hwhole, hdrop, hunit, drop_left,
        ih (fun v hv => hunits v (mem_cons_of_mem u hv)) (by omega)]
      rfl

/-- The last set of each kind; without one, what was kept before. -/
def ParameterSets.taking (sets : ParameterSets) (nals : List (List Byte)) : ParameterSets where
  sps := ((Rtsp.lastSet .sps nals).map ([0, 0, 0, 1] ++ ·)).or sets.sps
  pps := ((Rtsp.lastSet .pps nals).map ([0, 0, 0, 1] ++ ·)).or sets.pps

theorem taking_taking (sets : ParameterSets) (front back : List (List Byte)) :
    (sets.taking front).taking back = sets.taking (front ++ back) := by
  have happend : ∀ k : Rtsp.ParameterSet, Rtsp.lastSet k (front ++ back) =
      (Rtsp.lastSet k back).or (Rtsp.lastSet k front) := fun k => lastWith_append k.is front back
  simp only [ParameterSets.taking, happend, Option.map_or, Option.or_assoc]

/-- What was kept stays as it is when no NAL unit is a set. -/
theorem forall_taking_eq_iff (nals : List (List Byte)) :
    (∀ sets : ParameterSets, sets.taking nals = sets) ↔ nals.any Rtsp.isSet = false := by
  constructor
  · intro h
    have hnone := h ⟨none, none⟩
    rw [ParameterSets.taking, ParameterSets.mk.injEq, or_none, or_none,
      map_eq_none_iff, map_eq_none_iff] at hnone
    have hsps := any_eq_false.mp (lastWith_eq_none.mp hnone.1)
    have hpps := any_eq_false.mp (lastWith_eq_none.mp hnone.2)
    exact any_eq_false.mpr fun nal hnal hset =>
      (Bool.or_eq_true_iff.mp hset).elim (hsps nal hnal) (hpps nal hnal)
  · intro h sets
    rw [ParameterSets.taking, Rtsp.lastSet, Rtsp.lastSet,
      lastWith_eq_none.mpr (Rtsp.ParameterSet.not_any h .sps),
      lastWith_eq_none.mpr (Rtsp.ParameterSet.not_any h .pps)]
    rfl

/-- A NAL unit is kept as the list of it alone is. -/
theorem keep_eq {nal : List Byte} (hnal : nal ≠ []) (sets : ParameterSets) :
    sets.keep nal = sets.taking [nal] := by
  have hone : ∀ k : Rtsp.ParameterSet,
      Rtsp.lastSet k [nal] = if k.is nal = true then some nal else none := fun k => by
    rw [Rtsp.lastSet, lastWith, filter_cons, filter_nil]
    split <;> rfl
  rw [ParameterSets.keep, if_pos hnal, ParameterSets.taking, hone, hone, Rtsp.ParameterSet.is,
    Rtsp.ParameterSet.is, Rtsp.nalType]
  dsimp only
  generalize nal.getD 0 0 &&& 0x1f = type
  by_cases hsps : type = 7
  · rw [hsps]
    rfl
  · by_cases hpps : type = 8
    · rw [hpps]
      rfl
    · rw [if_neg hsps, if_neg hpps, decide_eq_false hsps, decide_eq_false hpps]
      rfl

theorem foldl_keep {nals : List (List Byte)} (hnals : ∀ nal ∈ nals, nal ≠ [])
    (sets : ParameterSets) : nals.foldl ParameterSets.keep sets = sets.taking nals := by
  induction nals generalizing sets with
  | nil => rfl
  | cons nal nals ih =>
      rw [foldl_cons, ih fun other hother => hnals other (mem_cons_of_mem nal hother),
        keep_eq (hnals nal mem_cons_self), taking_taking]
      rfl

/-- **The sets of a stream** of five bytes at least: the last one of each kind. -/
theorem cacheH264ParameterSets_stream {units : List Stuffed} {tail : ℕ}
    (hunits : ∀ u ∈ units, Clean u.nal) (hlength : 5 ≤ (stuffedStream units tail).length)
    (sets : ParameterSets) : cacheH264ParameterSets sets (stuffedStream units tail) =
      sets.taking (units.map Stuffed.nal) := by
  rw [cacheH264ParameterSets, if_neg (by omega), cacheFrom_stream tail hunits le_rfl,
    foldl_keep]
  intro nal hnal
  obtain ⟨u, hu, rfl⟩ := mem_map.mp hnal
  exact (hunits u hu).nonempty

/-! ## The three scanners -/

/-- **The payloader, the RTSP server and the coordinator find the NAL units of a stream**, and the
last sets of parameters among them, exactly when the stream is one whose size is an `int`, no zero
bytes stay on a NAL unit, and it is not so short that the sets in it are not looked for. -/
theorem scanners_agree_iff {units : List Stuffed} {tail : ℕ} (hunits : ∀ u ∈ units, Clean u.nal)
    (htail : units = [] → tail = 0) :
    (h264Units (stuffedStream units tail) = flagLast (units.map Stuffed.nal) ∧
      Rtsp.frameUnits (Rtsp.seen (stuffedStream units tail)) = flagLast (units.map Stuffed.nal) ∧
      ∀ sets, cacheH264ParameterSets sets (stuffedStream units tail) =
        ParameterSets.taking sets (units.map Stuffed.nal)) ↔
    (stuffedStream units tail).length < 2 ^ 31 ∧ Rtsp.NoneStays units tail ∧
      (5 ≤ (stuffedStream units tail).length ∨
        (units.map Stuffed.nal).any Rtsp.isSet = false) := by
  have hplain : ∀ u ∈ units, Rtp.Plain u.nal := fun u hu => (hunits u hu).plain
  by_cases hne : units = []
  · obtain rfl := htail hne
    subst hne
    exact iff_of_true ⟨rfl, rfl, fun sets => rfl⟩
      ⟨by decide, trivial, .inr rfl⟩
  have hdata : stuffedStream units tail ≠ [] := by
    obtain ⟨u, units, rfl⟩ := exists_cons_of_ne_nil hne
    exact append_ne_nil_of_right_ne_nil _
      (append_ne_nil_of_left_ne_nil (startCode_ne_nil u.long) _)
  have hunitsNe : flagLast (units.map Stuffed.nal) ≠ [] := fun h => by
    have hmap := map_fst_flagLast (units.map Stuffed.nal)
    rw [h] at hmap
    exact hne (map_eq_nil_iff.mp hmap.symm)
  have hfirst : h264Units (stuffedStream units tail) = flagLast (units.map Stuffed.nal) ↔
      (stuffedStream units tail).length < 2 ^ 31 := by
    rw [h264Units, if_neg hdata, nalUnits_stream tail hne hunits, int32Max]
    split
    case isTrue hlong => exact iff_of_false hunitsNe.symm (by omega)
    case isFalse hshort => exact iff_of_true rfl (by omega)
  rw [hfirst]
  refine and_congr_right fun hsize => ?_
  rw [Rtsp.seen_eq hsize, Rtsp.frameUnits_stream_iff tail hplain hne]
  refine and_congr_right fun _ => ?_
  by_cases hlength : 5 ≤ (stuffedStream units tail).length
  · exact iff_of_true (cacheH264ParameterSets_stream hunits hlength) (.inl hlength)
  · have hshort : ∀ sets : ParameterSets,
        cacheH264ParameterSets sets (stuffedStream units tail) = sets := fun sets =>
      if_pos (by omega)
    rw [or_iff_right hlength, ← forall_taking_eq_iff]
    exact forall_congr' fun sets => (hshort sets).symm ▸ eq_comm

/-- A set and a slice behind two zero bytes and start codes of both kinds. -/
def plainPair : List Stuffed := [⟨2, true, [0x67, 0x42]⟩, ⟨1, false, [0x65, 0x88]⟩]

theorem scanners_agree_iff_pair :
    h264Units (stuffedStream plainPair 0) = flagLast (plainPair.map Stuffed.nal) ∧
      Rtsp.frameUnits (Rtsp.seen (stuffedStream plainPair 0)) =
        flagLast (plainPair.map Stuffed.nal) ∧
      ∀ sets, cacheH264ParameterSets sets (stuffedStream plainPair 0) =
        ParameterSets.taking sets (plainPair.map Stuffed.nal) :=
  (scanners_agree_iff (by decide) (by decide)).mpr ⟨by decide, by decide, by decide⟩

/-- Two NAL units with one zero byte more than a start code has between them: the RTSP server sends
it at the end of the first. -/
def stuffedPair : List Stuffed := [⟨0, true, [0x65, 0x88]⟩, ⟨1, true, [0x41, 0x9a]⟩]

theorem zero_byte_sent :
    Rtsp.frameUnits (Rtsp.seen (stuffedStream stuffedPair 0)) =
        [([0x65, 0x88, 0], false), ([0x41, 0x9a], true)] ∧
      flagLast (stuffedPair.map Stuffed.nal) = [([0x65, 0x88], false), ([0x41, 0x9a], true)] := by
  decide

end Zstreamer.Dante

/-
# The converters of the three muxers

`mp4_annexb_to_avcc` asks for more memory where a NAL unit does not fit any more.
`rtmp_annexb_to_avcc` allocates four bytes more than the stream has and never asks, although a
start code of three bytes gives way to a length of four; `hls_annexb_to_avcc` allocates enough
for every stream.
-/

import Zstreamer.H26x.Units
import Zstreamer.Hls.Avcc
import Zstreamer.Rtsp.Extradata

namespace Zstreamer.Mp4

open Foundation Rtp Hls List Option
open Rtsp (sizedSet)

/-! ## The functions -/

/-- The loop of `mp4_annexb_to_avcc`.  A unit is known by its place, and so is the call of `realloc`
for it.  `none` when something is read or written out of range, `some none` is `NULL`. -/
def convertFrom (grants : ℕ → Bool) (data : List Byte) :
    ℕ → ℕ → ℕ → ℕ → List Byte → Option (Option (List Byte))
  | 0, _, _, _, _ => none
  | turns + 1, capacity, pos, codeSize, out => do
      let nalStart := pos + codeSize
      let next ← zstFindStartCode data nalStart
      let nalEnd ← trimEnd data nalStart ((next.map Prod.fst).getD data.length)
      let nalSize := nalEnd - nalStart
      let required := if nalSize > 0 then out.length + 4 + nalSize else 0
      if required > capacity ∧ grants nalStart = false then some none
      else do
        let capacity := max capacity required
        let out ← writeUnit data capacity nalStart nalSize out
        match next with
        | none => some (some out)
        | some (pos, codeSize) => convertFrom grants data turns capacity pos codeSize out

/-- `mp4_annexb_to_avcc`. -/
def annexbToAvcc (grant : Bool) (grants : ℕ → Bool) (data : List Byte) :
    Option (Option (List Byte)) := do
  let first ← zstFindStartCode data 0
  match first with
  | none => some none
  | some (pos, codeSize) =>
      if grant = false then some none
      else convertFrom grants data (data.length + 1) (data.length + 4) pos codeSize []

/-- `rtmp_annexb_to_avcc`. -/
def rtmpAnnexbToAvcc (grant : Bool) (data : List Byte) : Option (Option (List Byte)) := do
  let first ← zstFindStartCode data 0
  match first with
  | none => some none
  | some (pos, codeSize) =>
      if grant = false then some none
      else (Hls.convertFrom data (data.length + 4) (data.length + 1) pos codeSize []).map some

/-- The bytes that `mp4_mux_write` gives to the container. -/
def muxPacket (annexb : Bool) (grant : Bool) (grants : ℕ → Bool) (data : List Byte) :
    Option (List Byte) :=
  if annexb then
    (annexbToAvcc grant grants data).map fun converted =>
      if converted.getD [] = [] then data else converted.getD []
  else some data

/-- The parameter sets that have been found. -/
structure ParameterSets where
  sps : Option (List Byte)
  pps : Option (List Byte)
  deriving DecidableEq, Repr

/-- The type of a NAL unit. -/
def nalType (nal : List Byte) : Byte := nal.getD 0 0 &&& 0x1f

/-- The first set of each kind is kept. -/
def ParameterSets.note (sets : ParameterSets) (nal : List Byte) : ParameterSets :=
  if nalType nal = 7 ∧ sets.sps = none then { sets with sps := some nal }
  else if nalType nal = 8 ∧ sets.pps = none then { sets with pps := some nal }
  else sets

/-- The loop over the start codes of `mp4_parse_h264_extradata`. -/
def scanSets (data : List Byte) : ℕ → ℕ → ℕ → ParameterSets → Option ParameterSets
  | 0, _, _, _ => none
  | turns + 1, pos, codeSize, sets => do
      let nalStart := pos + codeSize
      let next ← zstFindStartCode data nalStart
      let nalEnd ← trimEnd data nalStart ((next.map Prod.fst).getD data.length)
      let nal := (data.drop nalStart).take (nalEnd - nalStart)
      let sets := if nalEnd - nalStart > 0 then sets.note nal else sets
      match next with
      | none => some sets
      | some (pos, codeSize) => scanSets data turns pos codeSize sets

/-- The loop over the lengths.  No sum of two `int`s overflows. -/
def walkLengths (data : List Byte) : ℕ → ℕ → ParameterSets → Option ParameterSets
  | 0, _, _ => none
  | turns + 1, pos, sets =>
      if pos + 4 > data.length then some sets
      else
        let nalSize := (BitVec.ofNat 32 (bigEndian ((data.drop pos).take 4))).toInt
        if nalSize ≤ 0 then some sets
        else if pos + 4 + nalSize ≥ 2 ^ 31 then none
        else if pos + 4 + nalSize > data.length then some sets
        else
          walkLengths data turns (pos + 4 + nalSize.toNat)
            (sets.note ((data.drop (pos + 4)).take nalSize.toNat))

/-- The bytes of an avcC record. -/
def avcc (sps pps : List Byte) : List Byte :=
  [1, sps.getD 1 0, sps.getD 2 0, sps.getD 3 0, 0xff, 0xe1] ++ (sizedSet sps ++ 1 :: sizedSet pps)

/-- The record, when both sets are there. -/
def ParameterSets.record (sets : ParameterSets) : Option (List Byte) :=
  sets.sps.bind fun sps => sets.pps.bind fun pps =>
    if sps.length < 4 then none else some (avcc sps pps)

/-- What the muxer knows of its video. -/
structure Video where
  annexb : Bool
  extradata : Option (List Byte)
  deriving DecidableEq, Repr

/-- `mp4_parse_h264_extradata`, when there is memory for it. -/
def parseH264Extradata (s : Video) (data : List Byte) : Option Video :=
  if data = [] ∨ s.extradata ≠ none then some s
  else do
    let first ← zstFindStartCode data 0
    match first with
    | some (pos, codeSize) =>
        (scanSets data (data.length + 1) pos codeSize ⟨none, none⟩).map fun sets =>
          ⟨true, sets.record⟩
    | none =>
        if data.length < 5 then some s
        else
          (walkLengths data (data.length + 1) 0 ⟨none, none⟩).map fun sets => ⟨false, sets.record⟩

/-! ## The memory of the loops -/

variable {data : List Byte}

/-- Two writes in a row are one. -/
theorem writeTo_append (room : ℕ) (out first second : List Byte) :
    ((writeTo room out first).bind fun out => writeTo room out second) =
      writeTo room out (first ++ second) := by
  rw [writeTo, writeTo, length_append]
  by_cases hfirst : out.length + first.length ≤ room
  · rw [if_pos hfirst, bind_some, writeTo, length_append, append_assoc, Nat.add_assoc]
  · rw [if_neg hfirst, if_neg (by omega)]
    rfl

theorem writeTo_eq_some {room : ℕ} {out bytes out' : List Byte} :
    writeTo room out bytes = some out' ↔ out ++ bytes = out' ∧ out'.length ≤ room := by
  rw [writeTo, Option.ite_none_right_eq_some, ← length_append, Option.some.injEq, and_comm]
  exact and_congr_right fun h => by rw [h]

/-- The bytes for a unit do not depend on the memory that they are written to. -/
theorem exists_writeUnit (data : List Byte) (nalStart nalSize : ℕ) :
    ∃ bytes : List Byte, bytes.length ≤ (if nalSize > 0 then 4 + nalSize else 0) ∧
      ∀ {room out}, out.length ≤ room →
        writeUnit data room nalStart nalSize out = writeTo room out bytes := by
  by_cases hpos : nalSize > 0
  · refine ⟨lengthBytes nalSize ++ (data.drop nalStart).take nalSize, ?_, fun _ => ?_⟩
    · rw [if_pos hpos, length_append]
      exact Nat.add_le_add_left (length_take_le _ _) 4
    · rw [writeUnit, if_pos hpos, writeTo_append]
  · refine ⟨[], Nat.zero_le _, fun hout => ?_⟩
    rw [writeUnit, if_neg hpos]
    exact (writeTo_eq_some.mpr ⟨append_nil _, hout⟩).symm

/-- **The loop with `realloc`** does what the loop without does, unless a request is refused. -/
theorem convertFrom_agrees (grants : ℕ → Bool) {room turns capacity pos codeSize : ℕ}
    {out result : List Byte} (h : Hls.convertFrom data room turns pos codeSize out = some result)
    (hroom : out.length ≤ room) (hout : out.length ≤ capacity) :
    convertFrom grants data turns capacity pos codeSize out = some (some result) ∨
      convertFrom grants data turns capacity pos codeSize out = some none ∧
        ∃ place, grants place = false := by
  induction turns generalizing capacity pos codeSize out with
  | zero => cases h
  | succ turns ih =>
      rw [Hls.convertFrom] at h
      simp only [bind_eq_bind, bind_eq_some_iff] at h
      obtain ⟨next, hnext, last, htrim, out', hwrite, hrest⟩ := h
      obtain ⟨bytes, hlength, hbytes⟩ :=
        exists_writeUnit data (pos + codeSize) (last - (pos + codeSize))
      rw [hbytes hroom, writeTo_eq_some] at hwrite
      obtain ⟨rfl, hroom'⟩ := hwrite
      rw [convertFrom]
      simp only [hnext, htrim, bind_eq_bind, bind_some]
      generalize hrequired : (if last - (pos + codeSize) > 0 then
        out.length + 4 + (last - (pos + codeSize)) else 0) = required
      by_cases hrefused : required > capacity ∧ grants (pos + codeSize) = false
      · exact .inr ⟨if_pos hrefused, _, hrefused.2⟩
      · have hfits : (out ++ bytes).length ≤ max capacity required := by
          rw [length_append]
          split at hlength
          · rw [if_pos ‹_›] at hrequired
            omega
          · omega
        rw [if_neg hrefused, hbytes (hout.trans (Nat.le_max_left _ _)),
          writeTo_eq_some.mpr ⟨rfl, hfits⟩]
        cases next with
        | none => exact .inl (congrArg some hrest)
        | some found => exact ih hrest hroom' hfits

/-- **The loop in another memory**: it stays inside exactly when the result fits there. -/
theorem convertFrom_room_iff {room less turns pos codeSize : ℕ} {out result : List Byte}
    (h : Hls.convertFrom data room turns pos codeSize out = some result)
    (hroom : out.length ≤ room) :
    out.length ≤ result.length ∧ (out.length ≤ less →
      Hls.convertFrom data less turns pos codeSize out =
        if result.length ≤ less then some result else none) := by
  induction turns generalizing pos codeSize out with
  | zero => cases h
  | succ turns ih =>
      rw [Hls.convertFrom] at h ⊢
      simp only [bind_eq_bind, bind_eq_some_iff] at h
      obtain ⟨next, hnext, last, htrim, out', hwrite, hrest⟩ := h
      obtain ⟨bytes, -, hbytes⟩ :=
        exists_writeUnit data (pos + codeSize) (last - (pos + codeSize))
      rw [hbytes hroom, writeTo_eq_some] at hwrite
      obtain ⟨rfl, hroom'⟩ := hwrite
      have hlater : (out ++ bytes).length ≤ result.length ∧ ((out ++ bytes).length ≤ less →
          (next.elim (some (out ++ bytes)) fun found =>
              Hls.convertFrom data less turns found.1 found.2 (out ++ bytes)) =
            if result.length ≤ less then some result else none) := by
        cases next with
        | none =>
            cases hrest
            exact ⟨Nat.le_refl _, fun hfits => (if_pos hfits).symm⟩
        | some found => exact ih hrest hroom'
      have hlonger : out.length ≤ (out ++ bytes).length := (prefix_append out bytes).length_le
      refine ⟨hlonger.trans hlater.1, fun hout => ?_⟩
      simp only [hnext, htrim, hbytes hout, bind_eq_bind, bind_some]
      by_cases hfits : (out ++ bytes).length ≤ less
      · rw [writeTo_eq_some.mpr ⟨rfl, hfits⟩, bind_some, ← hlater.2 hfits]
        cases next with
        | none => rfl
        | some found => rfl
      · rw [writeTo, ← length_append, if_neg hfits, if_neg fun h => hfits (hlater.1.trans h)]
        rfl

/-! ## Whole streams -/

/-- **`mp4_annexb_to_avcc` agrees with `hls_annexb_to_avcc`**: it returns the same, or `NULL` when a
request for memory is refused. -/
theorem annexbToAvcc_agrees (grants : ℕ → Bool) {result : Option (List Byte)}
    (hrun : Hls.annexbToAvcc true data = some result) :
    annexbToAvcc true grants data = some result ∨
      annexbToAvcc true grants data = some none ∧ ∃ place, grants place = false := by
  rw [Hls.annexbToAvcc, bind_eq_bind, bind_eq_some_iff] at hrun
  obtain ⟨first, hfirst, hrun⟩ := hrun
  rw [annexbToAvcc, hfirst, bind_eq_bind, bind_some]
  cases first with
  | none => exact .inl hrun
  | some found =>
      obtain ⟨bytes, hloop, rfl⟩ := Option.map_eq_some_iff.mp hrun
      exact convertFrom_agrees grants hloop (Nat.zero_le _) (Nat.zero_le _)

/-- What `hls_annexb_to_avcc` gives, and its size. -/
theorem hlsAnnexbToAvcc_eq (data : List Byte) :
    ∃ result, Hls.annexbToAvcc true data = some result ∧
      result.getD [] = lengthPrefixed (nalUnitsOf data) ∧
      (result.getD []).length ≤ data.length + data.length / 2 + 4 := by
  have hfirst := zstFindStartCode_eq (Nat.zero_le data.length)
  rw [startCodeFrom, drop_zero] at hfirst
  rw [Hls.annexbToAvcc, nalUnitsOf, hfirst, bind_eq_bind, bind_some]
  cases hfound : findStartCode data with
  | none => exact ⟨none, rfl, rfl, Nat.zero_le _⟩
  | some found =>
      obtain ⟨hthree, -, hbound⟩ := @findStartCode_bounds _ found.1 found.2 hfound
      have hrun := @Hls.convertFrom_eq data (data.length + 1) found.1 found.2 [] hthree hbound
        (by omega) (Nat.zero_le _)
      refine ⟨some _, ?_, rfl, convertFrom_room hrun (Nat.zero_le _)⟩
      dsimp only [map_some]
      rw [if_neg (by decide), Nat.zero_add, hrun]
      rfl

/-- **`rtmp_annexb_to_avcc` stays in its memory exactly when the units behind their lengths have at
most four bytes more than the stream**; then it agrees with `hls_annexb_to_avcc`. -/
theorem rtmpAnnexbToAvcc_eq (data : List Byte) :
    rtmpAnnexbToAvcc true data =
      if (lengthPrefixed (nalUnitsOf data)).length ≤ data.length + 4 then
        Hls.annexbToAvcc true data
      else none := by
  obtain ⟨result, hrun, hwritten, -⟩ := hlsAnnexbToAvcc_eq data
  rw [← hwritten, hrun]
  rw [Hls.annexbToAvcc, bind_eq_bind, bind_eq_some_iff] at hrun
  obtain ⟨first, hfirst, hrun⟩ := hrun
  rw [rtmpAnnexbToAvcc, hfirst, bind_eq_bind, bind_some]
  cases first with
  | none =>
      cases hrun
      exact (if_pos (Nat.zero_le _)).symm
  | some found =>
      obtain ⟨bytes, hloop, rfl⟩ := Option.map_eq_some_iff.mp hrun
      have hrtmp := (convertFrom_room_iff hloop (Nat.zero_le _)).2 (Nat.zero_le (data.length + 4))
      exact (congrArg (Option.map some) hrtmp).trans (apply_ite _ _ _ _)

end Zstreamer.Mp4

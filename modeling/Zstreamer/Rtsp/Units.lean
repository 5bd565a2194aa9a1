/-
# NAL units of the RTSP server

`rtsp_server.c` has a scanner of its own for start codes, which it writes out wherever it
needs it: a start code counts when a byte follows it, and a NAL unit goes as far as the next
one or the end of the data.  The sizes are `int`s.

The sets of parameters that a session has had are kept in an array, each behind a start code
of four bytes, and that array is scanned in the same way.  It is taken to stay as short as an
`int` can say.
-/

import Zstreamer.Rtp.StartCode
import Mathlib.Data.Int.ModEq

namespace Zstreamer.Rtsp

open Foundation Rtp List

/-- A size as an `int`. -/
def toInt (size : ℕ) : ℤ := Int.bmod size (2 ^ 32)

/-- The bytes that a loop up to an `int` sees. -/
def seen (data : List Byte) : List Byte := data.take (toInt data.length).toNat

/-- The length of the start code at the front, when a byte follows it (`code_len`). -/
def codeLen (data : List Byte) : Option ℕ :=
  if data.take 3 = [0, 0, 1] ∧ 3 < data.length then some 3
  else if data.take 4 = [0, 0, 0, 1] ∧ 4 < data.length then some 4
  else none

/-- How far it is to the next start code or the end (`nal_end`). -/
def nalEnd : List Byte → ℕ
  | [] => 0
  | b :: rest => if (codeLen (b :: rest)).isSome then 0 else nalEnd rest + 1

/-- A NAL unit and where it begins (`nal_start`). -/
structure Found where
  start : ℕ
  nal : List Byte
  deriving DecidableEq, Repr

/-- The loop over the start codes, from a place on, for so many turns at most. -/
def scanFrom : ℕ → ℕ → List Byte → List Found
  | turns + 1, i, b :: rest =>
      match codeLen (b :: rest) with
      | none => scanFrom turns (i + 1) rest
      | some code =>
          let data := (b :: rest).drop code
          ⟨i + code, data.take (nalEnd data)⟩ ::
            scanFrom turns (i + code + nalEnd data) (data.drop (nalEnd data))
  | _, _, _ => []

/-- The loop over the start codes of a buffer. -/
def scan (data : List Byte) : List Found := scanFrom data.length 0 data

/-- `last_nal_off`. -/
def lastNalOff (found : List Found) : ℤ := (found.getLast?.map fun f => (f.start : ℤ)).getD (-1)

/-- The NAL units of a buffer that are sent, and whether each is the last one (`is_last`). -/
def frameUnits (data : List Byte) : List (List Byte × Bool) :=
  ((scan data).filter fun f => f.nal ≠ []).map fun f =>
    (f.nal, (f.start : ℤ) = lastNalOff (scan data))

/-- The type of a NAL unit whose header is this byte. -/
def nalType (header : Byte) : Byte := header &&& 0x1f

/-- `H264_NAL_SPS` or `H264_NAL_PPS`. -/
def isParameterSet (header : Byte) : Bool := nalType header = 7 || nalType header = 8

/-- `has_sps_pps`. -/
def hasSpsPps (data : List Byte) : Bool :=
  (scan data).any fun f => isParameterSet (data.getD f.start 0)

/-! ## The cache -/

/-- The loop of `annexb_cache_contains_nal`, for so many turns at most. -/
def containsFrom (nal : List Byte) : ℕ → List Byte → Bool
  | 0, _ => false
  | turns + 1, data =>
      if data.length < 4 + nal.length then false
      else if data.take 4 = [0, 0, 0, 1] then
        let unit := data.drop 4
        if unit.take (nalEnd unit) = nal then true
        else containsFrom nal turns (unit.drop (nalEnd unit))
      else containsFrom nal turns (data.drop 1)

/-- `annexb_cache_contains_nal`. -/
def annexbCacheContainsNal (cache nal : List Byte) : Bool :=
  if cache = [] ∨ nal = [] then false else containsFrom nal cache.length cache

/-- A set of parameters that is not in the cache is put behind the others. -/
def cacheNal (cache : List Byte) (f : Found) : List Byte :=
  if f.nal ≠ [] ∧ isParameterSet (f.nal.getD 0 0) ∧ annexbCacheContainsNal cache f.nal = false then
    cache ++ ([0, 0, 0, 1] ++ f.nal)
  else cache

/-- The first phase of `session_deliver`. -/
def cacheSpsPps (cache data : List Byte) : List Byte := (scan (seen data)).foldl cacheNal cache

/-- The loop that replays the cache, for so many turns at most. -/
def replayFrom : ℕ → List Byte → List (List Byte)
  | turns + 1, b :: rest =>
      if (b :: rest).take 4 = [0, 0, 0, 1] then
        let data := (b :: rest).drop 4
        data.take (nalEnd data) :: replayFrom turns (data.drop (nalEnd data))
      else replayFrom turns rest
  | _, _ => []

/-- The NAL units of the cache that are sent. -/
def replayed (cache : List Byte) : List (List Byte) :=
  (replayFrom cache.length cache).filter fun nal => nal ≠ []

/-! ## Start codes -/

theorem codeLen_plain {b : Byte} {rest : List Byte} (h : Plain (b :: rest))
    (after : List Byte) : codeLen ((b :: rest) ++ after) = none := by
  obtain ⟨hthree, hfour⟩ := h.take_ne after
  rw [codeLen, if_neg fun hand => hthree hand.1, if_neg fun hand => hfour hand.1]

/-- A plain NAL unit goes as far as what is behind it begins. -/
theorem nalEnd_plain {nal : List Byte} (h : Plain nal) (after : List Byte) :
    nalEnd (nal ++ after) = nal.length + nalEnd after := by
  induction nal with
  | nil => exact absurd rfl h.nonempty
  | cons b tail ih =>
      rw [cons_append, nalEnd, ← cons_append, codeLen_plain h, Option.isSome_none,
        if_neg Bool.false_ne_true, length_cons]
      cases tail with
      | nil =>
          rw [nil_append, length_nil]
          omega
      | cons c tail =>
          rw [ih h.tail]
          omega

/-- A start code with a byte behind it counts. -/
theorem codeLen_startCode (long : Bool) {after : List Byte} (hafter : after ≠ []) :
    codeLen (startCode long ++ after) = some (startCode long).length := by
  obtain ⟨b, rest, rfl⟩ := exists_cons_of_ne_nil hafter
  cases long with
  | false => exact if_pos ⟨rfl, by rw [length_append]; exact Nat.lt_add_of_pos_right (Nat.succ_pos _)⟩
  | true =>
      rw [codeLen, if_neg fun hand => absurd hand.1 (by decide : ¬ ([0, 0, 0] : List Byte) = [0, 0, 1])]
      exact if_pos ⟨rfl, by rw [length_append]; exact Nat.lt_add_of_pos_right (Nat.succ_pos _)⟩

theorem nalEnd_of_codeLen {data : List Byte} {code : ℕ} (h : codeLen data = some code) :
    nalEnd data = 0 := by
  cases data with
  | nil => rfl
  | cons b rest => rw [nalEnd, h, Option.isSome_some, if_pos rfl]

/-! ## Buffers that come apart again -/

theorem annexB_cons (unit : Bool × List Byte) (units : List (Bool × List Byte)) :
    annexB (unit :: units) = startCode unit.1 ++ (unit.2 ++ annexB units) := by
  rw [annexB, flatMap_cons, append_assoc]
  rfl

/-- There is no end of a NAL unit before the one that follows. -/
theorem nalEnd_annexB {units : List (Bool × List Byte)} (hunits : ∀ unit ∈ units, Plain unit.2) :
    nalEnd (annexB units) = 0 := by
  cases units with
  | nil => rfl
  | cons unit units =>
      rw [annexB_cons]
      exact nalEnd_of_codeLen (codeLen_startCode unit.1
        (append_ne_nil_of_left_ne_nil (hunits unit mem_cons_self).nonempty _))

/-- The NAL units that a buffer was put together from, with the places where they begin. -/
def places : ℕ → List (Bool × List Byte) → List Found
  | _, [] => []
  | i, unit :: units =>
      ⟨i + (startCode unit.1).length, unit.2⟩ ::
        places (i + (startCode unit.1).length + unit.2.length) units

theorem map_nal_places (i : ℕ) (units : List (Bool × List Byte)) :
    (places i units).map Found.nal = units.map Prod.snd := by
  induction units generalizing i with
  | nil => rfl
  | cons unit units ih => rw [places, map_cons, map_cons, ih]

theorem startCode_length_pos (long : Bool) : 0 < (startCode long).length := by
  cases long <;> decide

theorem scanFrom_annexB {units : List (Bool × List Byte)} (hunits : ∀ unit ∈ units, Plain unit.2)
    {turns : ℕ} (hturns : (annexB units).length ≤ turns) (i : ℕ) :
    scanFrom turns i (annexB units) = places i units := by
  induction units generalizing turns i with
  | nil => cases turns <;> rfl
  | cons unit units ih =>
      have hplain := hunits unit mem_cons_self
      have hrest : ∀ other ∈ units, Plain other.2 :=
        fun other hother => hunits other (mem_cons_of_mem unit hother)
      have hcode := codeLen_startCode unit.1
        (append_ne_nil_of_left_ne_nil hplain.nonempty (annexB units))
      have hpos := startCode_length_pos unit.1
      have hend : nalEnd (unit.2 ++ annexB units) = unit.2.length := by
        rw [nalEnd_plain hplain, nalEnd_annexB hrest, Nat.add_zero]
      rw [annexB_cons] at hturns ⊢
      obtain ⟨b, rest, hdata⟩ := exists_cons_of_ne_nil
        (append_ne_nil_of_left_ne_nil (length_pos_iff.mp hpos) (unit.2 ++ annexB units))
      have hlength : (b :: rest).length =
          (startCode unit.1).length + (unit.2.length + (annexB units).length) := by
        rw [← hdata, length_append, length_append]
      obtain ⟨turns, rfl⟩ : ∃ m, turns = m + 1 := ⟨turns - 1, by rw [hdata, hlength] at hturns; omega⟩
      have hdrop : (b :: rest).drop (startCode unit.1).length = unit.2 ++ annexB units := by
        rw [← hdata, drop_left]
      rw [hdata] at hcode hturns ⊢
      rw [scanFrom, hcode]
      dsimp only
      rw [hdrop, hend, take_left, drop_left, places, ih hrest (by omega)]

/-- **A buffer comes apart into the NAL units that it was put together from.** -/
theorem scan_annexB {units : List (Bool × List Byte)} (hunits : ∀ unit ∈ units, Plain unit.2) :
    scan (annexB units) = places 0 units := scanFrom_annexB hunits le_rfl 0

/-! ## The last NAL unit -/

/-- NAL units are found behind the place where the search begins, one behind the other. -/
theorem pairwise_scanFrom (turns i : ℕ) (data : List Byte) :
    (scanFrom turns i data).Pairwise (fun f g => f.start < g.start) ∧
      ∀ f ∈ scanFrom turns i data, i < f.start := by
  induction turns generalizing i data with
  | zero => exact ⟨.nil, nofun⟩
  | succ turns ih =>
      cases data with
      | nil => exact ⟨.nil, nofun⟩
      | cons b rest =>
          rw [scanFrom]
          cases hcode : codeLen (b :: rest) with
          | none =>
              obtain ⟨hpairwise, hbehind⟩ := ih (i + 1) rest
              exact ⟨hpairwise, fun f hf => (Nat.lt_succ_self i).trans (hbehind f hf)⟩
          | some code =>
              have hpos : 0 < code := by
                rw [codeLen] at hcode
                split at hcode
                · cases hcode
                  exact Nat.succ_pos 2
                · split at hcode
                  · cases hcode
                    exact Nat.succ_pos 3
                  · cases hcode
              obtain ⟨hpairwise, hbehind⟩ := ih
                (i + code + nalEnd ((b :: rest).drop code))
                (((b :: rest).drop code).drop (nalEnd ((b :: rest).drop code)))
              refine ⟨pairwise_cons.mpr ⟨fun g hg => ?_, hpairwise⟩, fun f hf => ?_⟩
              · have := hbehind g hg
                dsimp only
                omega
              · rcases mem_cons.mp hf with rfl | hf
                · dsimp only
                  omega
                · have := hbehind f hf
                  omega

/-- The pre-scan flags the last one. -/
theorem map_lastNalOff {found : List Found}
    (hpairwise : found.Pairwise fun f g => f.start < g.start) :
    found.map (fun f => (f.nal, decide ((f.start : ℤ) = lastNalOff found))) =
      flagLast (found.map Found.nal) := by
  induction found with
  | nil => rfl
  | cons f rest ih =>
      obtain ⟨hless, hrest⟩ := pairwise_cons.mp hpairwise
      cases rest with
      | nil => simp [lastNalOff, flagLast]
      | cons g more =>
          have hsame : lastNalOff (f :: g :: more) = lastNalOff (g :: more) := by
            rw [lastNalOff, getLast?_cons_cons]
            rfl
          have hlater : (f.start : ℤ) ≠ lastNalOff (g :: more) := by
            have hlast := hless _ (getLast_mem (cons_ne_nil g more))
            rw [lastNalOff, getLast?_eq_some_getLast (cons_ne_nil g more), Option.map_some,
              Option.getD_some]
            exact_mod_cast hlast.ne
          rw [map_cons, hsame, ih hrest, decide_eq_false hlater]
          rfl

/-- **The NAL units of a buffer are sent with the last one flagged.** -/
theorem frameUnits_annexB {units : List (Bool × List Byte)}
    (hunits : ∀ unit ∈ units, Plain unit.2) :
    frameUnits (annexB units) = flagLast (units.map Prod.snd) := by
  have hfound := scan_annexB hunits
  have hall : ((scan (annexB units)).filter fun f => f.nal ≠ []) = scan (annexB units) := by
    refine filter_eq_self.mpr fun f hf => decide_eq_true ?_
    rw [hfound] at hf
    obtain ⟨unit, hunit, heq⟩ := mem_map.mp
      (map_nal_places 0 units ▸ mem_map_of_mem (f := Found.nal) hf)
    rw [← heq]
    exact (hunits unit hunit).nonempty
  have hpairwise : (scan (annexB units)).Pairwise fun f g => f.start < g.start :=
    (pairwise_scanFrom _ _ _).1
  rw [frameUnits, hall, map_lastNalOff hpairwise, hfound, map_nal_places]

end Zstreamer.Rtsp

/-
# Streams with zero bytes between the NAL units

Zero bytes may stand before every start code and behind the last NAL unit.  The payloaders find
the same NAL units with and without them: they take the zero bytes at the end of a NAL unit off.
-/

import Zstreamer.Rtp.Payloader

namespace Zstreamer.Rtp

open Foundation List

/-- A NAL unit in a stream: the zero bytes and the start code before it. -/
structure Stuffed where
  extra : ℕ
  long : Bool
  nal : List Byte
  deriving DecidableEq, Repr

/-- The zero bytes before the one of the start code, those of the start code with them. -/
def Stuffed.zeros (u : Stuffed) : ℕ := u.extra + if u.long then 3 else 2

/-- So many zero bytes. -/
def zeroBytes (n : ℕ) : List Byte := replicate n 0

/-- The stream, with so many zero bytes behind the last NAL unit. -/
def stuffedStream : List Stuffed → ℕ → List Byte
  | [], tail => zeroBytes tail
  | u :: units, tail => zeroBytes u.extra ++ (startCode u.long ++ (u.nal ++ stuffedStream units tail))

/-- The NAL units that `rtp_payloader_pad_push` has packetised for H.264. -/
def h264Units (data : List Byte) : List (List Byte × Bool) :=
  if data = [] then [] else if data.length > int32Max then [] else nalUnits data

/-! ## Zero bytes -/

theorem startCode_ne_nil (long : Bool) : startCode long ≠ [] := by
  cases long <;> decide

/-- Behind zero bytes and before a start code there are two more zero bytes at least. -/
theorem take_two_stuffed (extra : ℕ) (long : Bool) (after : List Byte) :
    ∃ more, zeroBytes extra ++ (startCode long ++ after) = 0 :: 0 :: more := by
  match extra, long with
  | 0, false => exact ⟨_, rfl⟩
  | 0, true => exact ⟨_, rfl⟩
  | 1, false => exact ⟨_, rfl⟩
  | 1, true => exact ⟨_, rfl⟩
  | n + 2, long => exact ⟨zeroBytes n ++ (startCode long ++ after), rfl⟩

/-- A zero byte before zero bytes and a start code is not the first of a short start code; it is
the first of a long one when a short one follows. -/
theorem zero_before (extra : ℕ) (long : Bool) (after : List Byte) :
    (0 :: (zeroBytes extra ++ (startCode long ++ after))).take 3 ≠ [0, 0, 1] ∧
      ((0 :: (zeroBytes extra ++ (startCode long ++ after))).take 4 = [0, 0, 0, 1] ↔
        extra = 0 ∧ long = false) := by
  match extra, long with
  | 0, false => simp [zeroBytes, startCode]
  | 0, true => simp [zeroBytes, startCode]
  | n + 1, long =>
      obtain ⟨more, hmore⟩ := take_two_stuffed n long after
      have hcons : zeroBytes (n + 1) ++ (startCode long ++ after) = 0 :: 0 :: 0 :: more :=
        congrArg (0 :: ·) hmore
      simp [hcons]

/-- The start code that is found behind zero bytes takes some of them, at most one. -/
theorem findStartCode_stuffed (extra : ℕ) (long : Bool) (after : List Byte) :
    ∃ pos code, findStartCode (zeroBytes extra ++ (startCode long ++ after)) = some (pos, code) ∧
      pos + code = extra + (startCode long).length ∧ pos ≤ extra := by
  induction extra with
  | zero =>
      refine ⟨0, (startCode long).length, ?_, rfl, le_rfl⟩
      exact findStartCode_startCode long after
  | succ extra ih =>
      obtain ⟨pos, code, hfound, hsum, hle⟩ := ih
      have hcons : zeroBytes (extra + 1) ++ (startCode long ++ after) =
          0 :: (zeroBytes extra ++ (startCode long ++ after)) := rfl
      obtain ⟨hthree, hfour⟩ := zero_before extra long after
      rw [hcons, findStartCode, if_neg hthree]
      split
      case isTrue h =>
        obtain ⟨rfl, rfl⟩ := hfour.mp h
        exact ⟨0, 4, rfl, rfl, Nat.zero_le 1⟩
      case isFalse =>
        refine ⟨pos + 1, code, ?_, by omega, by omega⟩
        rw [hfound]
        rfl

/-- Zero bytes begin with no start code. -/
theorem take_zeroBytes_ne (n m : ℕ) {word : List Byte} (hword : (1 : Byte) ∈ word) :
    (zeroBytes n).take m ≠ word := by
  rintro rfl
  exact absurd (eq_of_mem_replicate (mem_of_mem_take hword)) (by decide)

/-- There is no start code in zero bytes. -/
theorem findStartCode_zeroBytes (n : ℕ) : findStartCode (zeroBytes n) = none := by
  induction n with
  | zero => rfl
  | succ n ih =>
      have hthree : (0 :: zeroBytes n).take 3 ≠ [0, 0, 1] := take_zeroBytes_ne (n + 1) 3 (by decide)
      have hfour : (0 :: zeroBytes n).take 4 ≠ [0, 0, 0, 1] :=
        take_zeroBytes_ne (n + 1) 4 (by decide)
      show findStartCode (0 :: zeroBytes n) = none
      rw [findStartCode, if_neg hthree, if_neg hfour, ih]
      rfl

/-- The zero bytes behind a clean NAL unit are taken off. -/
theorem Clean.stripZeros_zeroBytes {nal : List Byte} (h : Clean nal) (n : ℕ) :
    stripZeros (nal ++ zeroBytes n) = nal := by
  have hall : ∀ b ∈ zeroBytes n, b = 0 := fun b hb => eq_of_mem_replicate hb
  have hnal := h.stripZeros_eq
  rw [stripZeros, rdropWhile] at hnal ⊢
  rw [reverse_append, dropWhile_append_of_pos fun b hb => ?_, hnal]
  exact decide_eq_true (hall b (mem_reverse.mp hb))

/-! ## The NAL units of a stream -/

theorem take_stuffed {extra pos : ℕ} (hle : pos ≤ extra) (rest : List Byte) :
    (zeroBytes extra ++ rest).take pos = zeroBytes pos := by
  rw [take_append_of_le_length (by simpa [zeroBytes] using hle), zeroBytes,
    take_replicate, Nat.min_eq_left hle]
  rfl

theorem drop_stuffed (extra : ℕ) (long : Bool) (after : List Byte) :
    (zeroBytes extra ++ (startCode long ++ after)).drop (extra + (startCode long).length) =
      after := by
  rw [← drop_drop, drop_left' (by simp [zeroBytes]), drop_left]

theorem nalUnitsFrom_stream {nal : List Byte} {units : List Stuffed} (tail : ℕ)
    (hnal : Clean nal) (hunits : ∀ u ∈ units, Clean u.nal) {turns : ℕ}
    (hturns : (nal ++ stuffedStream units tail).length < turns) :
    nalUnitsFrom turns (nal ++ stuffedStream units tail) = flagLast (nal :: units.map Stuffed.nal) := by
  induction units generalizing nal turns with
  | nil =>
      obtain ⟨turns, rfl⟩ : ∃ m, turns = m + 1 := ⟨turns - 1, by omega⟩
      rw [stuffedStream, nalUnitsFrom, hnal.plain.findStartCode_behind, findStartCode_zeroBytes]
      exact congrArg (fun data => [(data, true)]) (hnal.stripZeros_zeroBytes tail)
  | cons u units ih =>
      obtain ⟨turns, rfl⟩ : ∃ m, turns = m + 1 := ⟨turns - 1, by omega⟩
      obtain ⟨pos, code, hfound, hsum, hle⟩ :=
        findStartCode_stuffed u.extra u.long (u.nal ++ stuffedStream units tail)
      have hcode : findStartCode (stuffedStream (u :: units) tail) = some (pos, code) := hfound
      obtain ⟨hthree, -, hend⟩ := findStartCode_bounds hcode
      have hdrop : (nal ++ stuffedStream (u :: units) tail).drop (nal.length + pos + code) =
          u.nal ++ stuffedStream units tail := by
        rw [Nat.add_assoc, hsum, ← drop_drop, drop_left, stuffedStream, drop_stuffed]
      have htake : (nal ++ stuffedStream (u :: units) tail).take (nal.length + pos) =
          nal ++ zeroBytes pos := by
        rw [take_length_add_append, stuffedStream, take_stuffed hle]
      have hshort : (u.nal ++ stuffedStream units tail).length < turns := by
        have hlength := congrArg List.length hdrop
        rw [length_drop, length_append] at hlength
        rw [length_append] at hturns
        omega
      rw [nalUnitsFrom, hnal.plain.findStartCode_behind, hcode, Option.map_some]
      dsimp only
      rw [hdrop, htake, hnal.stripZeros_zeroBytes,
        ih (hunits u mem_cons_self)
          (fun other hother => hunits other (mem_cons_of_mem u hother)) hshort]
      rfl

/-- **The payloaders find the NAL units of a stream**, however many zero bytes there are. -/
theorem nalUnits_stream {units : List Stuffed} (tail : ℕ) (hne : units ≠ [])
    (hunits : ∀ u ∈ units, Clean u.nal) :
    nalUnits (stuffedStream units tail) = flagLast (units.map Stuffed.nal) := by
  obtain ⟨u, units, rfl⟩ := exists_cons_of_ne_nil hne
  obtain ⟨pos, code, hfound, hsum, -⟩ :=
    findStartCode_stuffed u.extra u.long (u.nal ++ stuffedStream units tail)
  have hall : ∀ entry ∈ flagLast ((u :: units).map Stuffed.nal), entry.1 ≠ [] := by
    intro entry hentry
    obtain ⟨other, hother, heq⟩ := mem_map.mp (mem_of_mem_flagLast hentry)
    exact heq ▸ (hunits other hother).nonempty
  rw [nalUnits, stuffedStream, hfound]
  dsimp only
  rw [hsum, drop_stuffed, nalUnitsFrom_stream tail (hunits u mem_cons_self)
    fun other hother => hunits other (mem_cons_of_mem u hother)]
  · exact filter_eq_self.mpr fun entry hentry => decide_eq_true (hall entry hentry)
  · simp only [length_append]
    omega

end Zstreamer.Rtp

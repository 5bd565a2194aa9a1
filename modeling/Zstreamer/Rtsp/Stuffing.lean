/-
# Zero bytes between the NAL units of a session

The scanner of the RTSP server takes nothing off a NAL unit.  Zero bytes behind it stay on it,
but for the three at most that stand before the one of a start code.
-/

import Zstreamer.Rtp.Stuffing
import Zstreamer.Rtsp.Units

namespace Zstreamer.Rtsp

open Foundation Rtp List

/-! ## Zero bytes before a start code -/

/-- A zero byte before zero bytes and a start code begins a start code when a short one
follows. -/
theorem codeLen_zero_before (extra : ℕ) (long : Bool) {after : List Byte} (hafter : after ≠ []) :
    codeLen (0 :: (zeroBytes extra ++ (startCode long ++ after))) =
      if extra = 0 ∧ long = false then some 4 else none := by
  obtain ⟨hthree, hfour⟩ := zero_before extra long after
  obtain ⟨b, rest, rfl⟩ := exists_cons_of_ne_nil hafter
  rw [codeLen, if_neg fun h => hthree h.1]
  by_cases hshort : extra = 0 ∧ long = false
  · obtain ⟨rfl, rfl⟩ := hshort
    rfl
  · rw [if_neg fun h => hshort (hfour.mp h.1), if_neg hshort]

/-- The zero bytes that a NAL unit before them gets. -/
theorem nalEnd_stuffed (extra : ℕ) (long : Bool) {after : List Byte} (hafter : after ≠ []) :
    nalEnd (zeroBytes extra ++ (startCode long ++ after)) =
      extra + (if long then 3 else 2) - 3 := by
  induction extra with
  | zero =>
      refine (nalEnd_of_codeLen (codeLen_startCode long hafter)).trans ?_
      cases long <;> rfl
  | succ extra ih =>
      have hcons : zeroBytes (extra + 1) ++ (startCode long ++ after) =
          0 :: (zeroBytes extra ++ (startCode long ++ after)) := rfl
      rw [hcons, nalEnd, codeLen_zero_before extra long hafter, ih]
      by_cases hshort : extra = 0 ∧ long = false
      · obtain ⟨rfl, rfl⟩ := hshort
        rfl
      · rw [if_neg hshort, Option.isSome_none, if_neg Bool.false_ne_true]
        cases long with
        | false =>
            have hne : extra ≠ 0 := fun h => hshort ⟨h, rfl⟩
            rw [if_neg Bool.false_ne_true]
            omega
        | true =>
            rw [if_pos rfl]
            omega

theorem codeLen_zeroBytes (n : ℕ) : codeLen (zeroBytes n) = none := by
  rw [codeLen, if_neg fun h => take_zeroBytes_ne n 3 (by decide) h.1,
    if_neg fun h => take_zeroBytes_ne n 4 (by decide) h.1]

/-- Zero bytes at the end all stay. -/
theorem nalEnd_zeroBytes (n : ℕ) : nalEnd (zeroBytes n) = n := by
  induction n with
  | zero => rfl
  | succ n ih =>
      have hnone : codeLen (0 :: zeroBytes n) = none := codeLen_zeroBytes (n + 1)
      show nalEnd (0 :: zeroBytes n) = n + 1
      rw [nalEnd, hnone, Option.isSome_none, if_neg Bool.false_ne_true, ih]

/-- The loop passes the zero bytes before a start code. -/
theorem scanFrom_stuffed (extra : ℕ) (long : Bool) {after : List Byte} (hafter : after ≠ [])
    {turns : ℕ} (i : ℕ)
    (hturns : (zeroBytes extra ++ (startCode long ++ after)).length ≤ turns) :
    ∃ turns', after.length ≤ turns' ∧
      scanFrom turns i (zeroBytes extra ++ (startCode long ++ after)) =
        ⟨i + extra + (startCode long).length, after.take (nalEnd after)⟩ ::
          scanFrom turns' (i + extra + (startCode long).length + nalEnd after)
            (after.drop (nalEnd after)) := by
  have hlength : (zeroBytes extra ++ (startCode long ++ after)).length =
      extra + ((startCode long).length + after.length) := by
    rw [length_append, length_append, zeroBytes, length_replicate]
  rw [hlength] at hturns
  clear hlength
  have hpos := startCode_length_pos long
  obtain ⟨turns, rfl⟩ : ∃ m, turns = m + 1 := ⟨turns - 1, by omega⟩
  induction extra generalizing turns i with
  | zero =>
      obtain ⟨b, rest, hdata⟩ := exists_cons_of_ne_nil
        (append_ne_nil_of_left_ne_nil (startCode_ne_nil long) after)
      have hcode := codeLen_startCode long hafter
      have hdrop : (b :: rest).drop (startCode long).length = after := by
        rw [← hdata, drop_left]
      refine ⟨turns, by omega, ?_⟩
      show scanFrom (turns + 1) i (startCode long ++ after) = _
      rw [hdata] at hcode ⊢
      rw [scanFrom, hcode]
      dsimp only
      rw [hdrop, Nat.add_zero]
  | succ extra ih =>
      have hcons : zeroBytes (extra + 1) ++ (startCode long ++ after) =
          0 :: (zeroBytes extra ++ (startCode long ++ after)) := rfl
      rw [hcons, scanFrom, codeLen_zero_before extra long hafter]
      by_cases hshort : extra = 0 ∧ long = false
      · -- the start code is taken for a long one
        obtain ⟨rfl, rfl⟩ := hshort
        exact ⟨turns, by omega, rfl⟩
      · rw [if_neg hshort]
        obtain ⟨turns, rfl⟩ : ∃ m, turns = m + 1 := ⟨turns - 1, by omega⟩
        have hshift : i + 1 + extra = i + (extra + 1) := by omega
        exact hshift ▸ ih (i + 1) turns (by omega)

/-! ## The NAL units of a stream -/

/-- The zero bytes that stay on the NAL unit before these. -/
def staying : List Stuffed → ℕ → ℕ
  | [], tail => tail
  | u :: _, _ => u.zeros - 3

/-- The NAL units with the zero bytes that stay on them. -/
def withZeros : List Stuffed → ℕ → List (List Byte)
  | [], _ => []
  | u :: units, tail => (u.nal ++ zeroBytes (staying units tail)) :: withZeros units tail

theorem nalEnd_stream {units : List Stuffed} (hunits : ∀ u ∈ units, u.nal ≠ []) (tail : ℕ) :
    nalEnd (stuffedStream units tail) = staying units tail := by
  cases units with
  | nil => exact nalEnd_zeroBytes tail
  | cons u units =>
      exact nalEnd_stuffed u.extra u.long
        (append_ne_nil_of_left_ne_nil (hunits u mem_cons_self) _)

/-- The zero bytes that stay on a NAL unit stand at the front of what follows. -/
theorem stream_staying (units : List Stuffed) (tail : ℕ) :
    ∃ rest, stuffedStream units tail = zeroBytes (staying units tail) ++ rest ∧
      (rest = [] ∧ units = [] ∨ ∃ u more extra, units = u :: more ∧
        rest = zeroBytes extra ++ (startCode u.long ++ (u.nal ++ stuffedStream more tail))) := by
  cases units with
  | nil => exact ⟨[], (append_nil _).symm, .inl ⟨rfl, rfl⟩⟩
  | cons u units =>
      have hle : u.zeros - 3 ≤ u.extra := by
        rw [Stuffed.zeros]
        split <;> omega
      refine ⟨_, ?_, .inr ⟨u, units, u.extra - (u.zeros - 3), rfl, rfl⟩⟩
      have hsplit : zeroBytes u.extra =
          zeroBytes (u.zeros - 3) ++ zeroBytes (u.extra - (u.zeros - 3)) := by
        rw [zeroBytes, zeroBytes, zeroBytes, replicate_append_replicate,
          Nat.add_sub_cancel' hle]
      rw [stuffedStream, hsplit, append_assoc]
      rfl

/-- The scanner finds the NAL units with the zero bytes that stay on them. -/
theorem scanFrom_stream {units : List Stuffed} (tail : ℕ) (hunits : ∀ u ∈ units, Plain u.nal)
    {turns : ℕ} (i : ℕ) {extra : ℕ} {long : Bool} {nal : List Byte} (hnal : Plain nal)
    (hturns : (zeroBytes extra ++ (startCode long ++ (nal ++ stuffedStream units tail))).length ≤ turns) :
    (scanFrom turns i (zeroBytes extra ++ (startCode long ++ (nal ++ stuffedStream units tail)))).map
        Found.nal =
      (nal ++ zeroBytes (staying units tail)) :: withZeros units tail := by
  induction units generalizing turns i extra long nal with
  | nil =>
      obtain ⟨turns', hturns', hscan⟩ := scanFrom_stuffed extra long
        (append_ne_nil_of_left_ne_nil hnal.nonempty (stuffedStream [] tail)) i hturns
      have hend : nalEnd (nal ++ stuffedStream [] tail) = (nal ++ stuffedStream [] tail).length := by
        rw [nalEnd_plain hnal, nalEnd_stream (fun _ h => absurd h not_mem_nil), length_append,
          stuffedStream, staying, zeroBytes, length_replicate]
      rw [hscan, hend, drop_length, take_length]
      cases turns' <;> rfl
  | cons u units ih =>
      obtain ⟨turns', hturns', hscan⟩ := scanFrom_stuffed extra long
        (append_ne_nil_of_left_ne_nil hnal.nonempty (stuffedStream (u :: units) tail)) i hturns
      obtain ⟨rest, hstream, hrest⟩ := stream_staying (u :: units) tail
      obtain ⟨-, hnil⟩ | ⟨v, more, extra', hcons, hrest⟩ := hrest
      · cases hnil
      obtain ⟨rfl, rfl⟩ := List.cons.inj hcons
      have hend : nalEnd (nal ++ stuffedStream (u :: units) tail) =
          nal.length + staying (u :: units) tail := by
        rw [nalEnd_plain hnal, nalEnd_stream fun w hw => (hunits w hw).nonempty]
      have hzeros : (zeroBytes (staying (u :: units) tail)).length = staying (u :: units) tail := by
        rw [zeroBytes, length_replicate]
      rw [hscan, hend, map_cons, take_length_add_append, ← drop_drop,
        drop_left, hstream, take_left' hzeros, drop_left' hzeros, hrest, withZeros]
      refine congrArg _ (ih (fun w hw => hunits w (mem_cons_of_mem u hw)) _
        (hunits u mem_cons_self) ?_)
      rw [← hrest]
      have hlength := congrArg List.length hstream
      rw [length_append] at hlength hturns'
      omega

theorem scan_stream {units : List Stuffed} (tail : ℕ) (hunits : ∀ u ∈ units, Plain u.nal)
    (hne : units ≠ []) : (scan (stuffedStream units tail)).map Found.nal = withZeros units tail := by
  obtain ⟨u, units, rfl⟩ := exists_cons_of_ne_nil hne
  exact scanFrom_stream tail (fun w hw => hunits w (mem_cons_of_mem u hw)) 0
    (hunits u mem_cons_self) le_rfl

/-- No zero bytes stay on a NAL unit: there are three at most before the one of each start code
behind it, and none behind the last. -/
def NoneStays : List Stuffed → ℕ → Prop
  | [], _ => True
  | [_], tail => tail = 0
  | _ :: u :: units, tail => u.zeros ≤ 3 ∧ NoneStays (u :: units) tail

instance decidableNoneStays : (units : List Stuffed) → (tail : ℕ) → Decidable (NoneStays units tail)
  | [], _ => isTrue trivial
  | [_], tail => inferInstanceAs (Decidable (tail = 0))
  | _ :: u :: units, tail =>
      have := decidableNoneStays (u :: units) tail
      inferInstanceAs (Decidable (u.zeros ≤ 3 ∧ NoneStays (u :: units) tail))

theorem withZeros_iff (units : List Stuffed) (tail : ℕ) :
    withZeros units tail = units.map Stuffed.nal ↔ NoneStays units tail := by
  have hzeros : ∀ (nal : List Byte) (n : ℕ), nal ++ zeroBytes n = nal ↔ n = 0 := fun nal n => by
    rw [append_right_eq_self, zeroBytes, replicate_eq_nil_iff]
  induction units with
  | nil => exact iff_of_true rfl trivial
  | cons u units ih =>
      rw [withZeros, map_cons, List.cons.injEq, hzeros]
      refine (and_congr_right fun _ => ih).trans ?_
      cases units with
      | nil => exact and_iff_left trivial
      | cons v units =>
          refine and_congr_left fun _ => ?_
          rw [staying]
          omega

theorem withZeros_ne_nil {units : List Stuffed} (tail : ℕ) (hunits : ∀ u ∈ units, Plain u.nal) :
    ∀ nal ∈ withZeros units tail, nal ≠ [] := by
  induction units with
  | nil => exact fun nal h => absurd h not_mem_nil
  | cons u units ih =>
      intro nal hnal
      rcases mem_cons.mp hnal with rfl | hlater
      · exact append_ne_nil_of_left_ne_nil (hunits u mem_cons_self).nonempty _
      · exact ih (fun w hw => hunits w (mem_cons_of_mem u hw)) nal hlater

/-- **The RTSP server finds the NAL units of a stream** exactly when no zero bytes stay on them. -/
theorem frameUnits_stream_iff {units : List Stuffed} (tail : ℕ)
    (hunits : ∀ u ∈ units, Plain u.nal) (hne : units ≠ []) :
    frameUnits (stuffedStream units tail) = flagLast (units.map Stuffed.nal) ↔ NoneStays units tail := by
  have hscan := scan_stream tail hunits hne
  have hnonempty := withZeros_ne_nil tail hunits
  have hall : ((scan (stuffedStream units tail)).filter fun f => f.nal ≠ []) =
      scan (stuffedStream units tail) := by
    refine filter_eq_self.mpr fun f hf => decide_eq_true ?_
    exact hnonempty _ (hscan ▸ mem_map_of_mem hf)
  have hpairwise : (scan (stuffedStream units tail)).Pairwise fun f g => f.start < g.start :=
    (pairwise_scanFrom _ _ _).1
  rw [frameUnits, hall, map_lastNalOff hpairwise, hscan, ← withZeros_iff]
  refine ⟨fun h => ?_, congrArg flagLast⟩
  rw [← map_fst_flagLast (withZeros units tail), h, map_fst_flagLast]

end Zstreamer.Rtsp

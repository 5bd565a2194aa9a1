/-
# The three base64 encoders

`sdp_muxer_base64`, and the functions `base64_encode` of the RTSP server and of the WebSocket
server, go over a byte string by three bytes each in a loop of its own.  All of them write its
base64 text, and `sdp_base64_decode` reads the string back.

The text is given by the bits of the string, six for each character.
-/

import Zstreamer.Sdp.Base64

namespace Zstreamer.Sdp

open Foundation List Option
open Rtsp (text isSpace)

/-! ## The text -/

/-- The numbers that six bits each write; zero bits are put behind the last. -/
def sextets : List Bool → List ℕ
  | b₀ :: b₁ :: b₂ :: b₃ :: b₄ :: b₅ :: rest => bitsToNat [b₀, b₁, b₂, b₃, b₄, b₅] :: sextets rest
  | [] => []
  | bits => [bitsToNat (bits ++ replicate (6 - bits.length) false)]

/-- Base64: a character for each six bits, and signs of equality up to a multiple of four. -/
def base64Text (bytes : List Byte) : List Byte :=
  (sextets (bitsOf bytes)).map (fun n => base64Table.getD n 0) ++
    replicate ((3 - bytes.length % 3) % 3) 0x3d

/-! ## The functions -/

/-- Characters written behind the output, in a buffer of that size. -/
def store (capacity : ℕ) (out chars : List Byte) : Option (List Byte) :=
  if out.length + chars.length ≤ capacity then some (out ++ chars) else none

/-- The loop of `sdp_muxer_base64`, for so many turns at most; `none` when something is read or
written out of range. -/
def muxerFrom (bytes : List Byte) (capacity : ℕ) : ℕ → ℕ → List Byte → Option (List Byte)
  | 0, _, _ => none
  | turns + 1, i, out =>
      if i < bytes.length then do
        let rem := bytes.length - i
        let first ← bytes[i]?
        let second ← if rem > 1 then bytes[i + 1]? else some 0
        let third ← if rem > 2 then bytes[i + 2]? else some 0
        let v := group first second third
        let out ← store capacity out [sixBits v 18, sixBits v 12,
          if rem > 1 then sixBits v 6 else 0x3d, if rem > 2 then sixBits v 0 else 0x3d]
        muxerFrom bytes capacity turns (i + 3) out
      else some out

/-- `sdp_muxer_base64`; `some none` is -1. -/
def sdpMuxerBase64 (bytes : List Byte) (capacity : ℕ) : Option (Option (List Byte)) :=
  if capacity < base64Length bytes.length + 1 then some none
  else do
    let out ← muxerFrom bytes capacity (bytes.length + 1) 0 []
    let _ ← store capacity out [0]
    return some out

/-- The loop of `base64_encode` in the RTSP server. -/
def rtspFrom (bytes : List Byte) (capacity : ℕ) : ℕ → ℕ → List Byte → Option (List Byte)
  | 0, _, _ => none
  | turns + 1, i, out =>
      if i < bytes.length then do
        let first ← bytes[i]?
        let v : BitVec 32 := first.setWidth 32 <<< 16
        let v : BitVec 32 ←
          if i + 1 < bytes.length then bytes[i + 1]?.map fun (b : Byte) => v ||| b.setWidth 32 <<< 8
          else some v
        let v : BitVec 32 ←
          if i + 2 < bytes.length then bytes[i + 2]?.map fun (b : Byte) => v ||| b.setWidth 32
          else some v
        let out ← store capacity out [sixBits v 18, sixBits v 12,
          if i + 1 < bytes.length then sixBits v 6 else 0x3d,
          if i + 2 < bytes.length then sixBits v 0 else 0x3d]
        rtspFrom bytes capacity turns (i + 3) out
      else some out

/-- `base64_encode` of the RTSP server. -/
def rtspBase64Encode (bytes : List Byte) (capacity : ℕ) : Option (List Byte) := do
  let out ← rtspFrom bytes capacity (bytes.length + 1) 0 []
  let _ ← store capacity out [0]
  return out

/-- The loop of `base64_encode` in the WebSocket server. -/
def wsFrom (bytes : List Byte) (capacity : ℕ) : ℕ → ℕ → List Byte → Option (List Byte)
  | 0, _, _ => none
  | turns + 1, i, out =>
      if i < bytes.length ∧ out.length + 4 < capacity then do
        let first ← bytes[i]?
        let val : BitVec 32 := first.setWidth 32 <<< 16
        let (val, i, count) : BitVec 32 × ℕ × ℕ ←
          if i + 1 < bytes.length then
            bytes[i + 1]?.map fun (b : Byte) => (val ||| b.setWidth 32 <<< 8, i + 2, 2)
          else some (val, i + 1, 1)
        let (val, i, count) ←
          if i < bytes.length then
            bytes[i]?.map fun (b : Byte) => (val ||| b.setWidth 32, i + 1, count + 1)
          else some (val, i, count)
        let out ← store capacity out [sixBits val 18, sixBits val 12,
          if count ≥ 2 then sixBits val 6 else 0x3d, if count = 3 then sixBits val 0 else 0x3d]
        wsFrom bytes capacity turns i out
      else some out

/-- `base64_encode` of the WebSocket server. -/
def wsBase64Encode (bytes : List Byte) (capacity : ℕ) : Option (List Byte) := do
  let out ← wsFrom bytes capacity (bytes.length + 1) 0 []
  let _ ← store capacity out [0]
  return out

/-! ## Bits -/

/-- Six bits of a number. -/
theorem sixBits_eq (v : BitVec 32) (shift : ℕ) :
    sixBits v shift = base64Table.getD (bitsToNat [v.getLsbD (shift + 5), v.getLsbD (shift + 4),
      v.getLsbD (shift + 3), v.getLsbD (shift + 2), v.getLsbD (shift + 1), v.getLsbD shift]) 0 := by
  have hall : ∀ w : BitVec 6, w.toNat = bitsToNat [w.getLsbD 5, w.getLsbD 4, w.getLsbD 3,
      w.getLsbD 2, w.getLsbD 1, w.getLsbD 0] := by decide
  have hmask : ((v >>> shift) &&& 0x3f).toNat = ((v >>> shift).setWidth 6).toNat := by
    rw [BitVec.toNat_and, BitVec.toNat_setWidth]
    exact Nat.and_two_pow_sub_one_eq_mod _ 6
  rw [sixBits, hmask, hall]
  congr 2
  simp

/-- The bits of three bytes. -/
theorem group_bits (a b c : Byte) :
    base64Table.getD (bitsToNat [a.getMsbD 0, a.getMsbD 1, a.getMsbD 2, a.getMsbD 3, a.getMsbD 4,
        a.getMsbD 5]) 0 = sixBits (group a b c) 18 ∧
      base64Table.getD (bitsToNat [a.getMsbD 6, a.getMsbD 7, b.getMsbD 0, b.getMsbD 1, b.getMsbD 2,
        b.getMsbD 3]) 0 = sixBits (group a b c) 12 ∧
      base64Table.getD (bitsToNat [b.getMsbD 4, b.getMsbD 5, b.getMsbD 6, b.getMsbD 7, c.getMsbD 0,
        c.getMsbD 1]) 0 = sixBits (group a b c) 6 ∧
      base64Table.getD (bitsToNat [c.getMsbD 2, c.getMsbD 3, c.getMsbD 4, c.getMsbD 5, c.getMsbD 6,
        c.getMsbD 7]) 0 = sixBits (group a b c) 0 := by
  rw [sixBits_eq, sixBits_eq, sixBits_eq, sixBits_eq]
  refine ⟨?_, ?_, ?_, ?_⟩
  · congr 2
    simp [group, BitVec.getMsbD]
  · congr 2
    simp [group, BitVec.getMsbD]
  · congr 2
    simp [group, BitVec.getMsbD]
  · congr 2
    simp [group, BitVec.getMsbD]

/-- **The encoder writes base64.** -/
theorem base64_eq_text (bytes : List Byte) : base64 bytes = base64Text bytes := by
  induction bytes using base64.induct with
  | case1 => rfl
  | case2 a =>
      obtain ⟨hfirst, hsecond, -, -⟩ := group_bits a 0 0
      rw [base64, ← hfirst, ← hsecond]
      rfl
  | case3 a b =>
      obtain ⟨hfirst, hsecond, hthird, -⟩ := group_bits a b 0
      rw [base64, ← hfirst, ← hsecond, ← hthird]
      rfl
  | case4 a b c rest ih =>
      obtain ⟨hfirst, hsecond, hthird, hfourth⟩ := group_bits a b c
      have hpadding : (a :: b :: c :: rest).length % 3 = rest.length % 3 := Nat.add_mod_right _ 3
      rw [base64, ← hfirst, ← hsecond, ← hthird, ← hfourth, ih, base64Text, base64Text, hpadding]
      rfl

/-! ## The loops -/

/-- The characters of the first three bytes. -/
def quad : List Byte → List Byte
  | [] => []
  | [a] => [sixBits (group a 0 0) 18, sixBits (group a 0 0) 12, 0x3d, 0x3d]
  | [a, b] => [sixBits (group a b 0) 18, sixBits (group a b 0) 12, sixBits (group a b 0) 6, 0x3d]
  | a :: b :: c :: _ =>
      [sixBits (group a b c) 18, sixBits (group a b c) 12, sixBits (group a b c) 6,
        sixBits (group a b c) 0]

theorem base64_eq_quad (bytes : List Byte) :
    base64 bytes = quad bytes ++ base64 (bytes.drop 3) := by
  match bytes with
  | [] => rfl
  | [_] => rfl
  | [_, _] => rfl
  | _ :: _ :: _ :: _ => rfl

theorem length_quad {bytes : List Byte} (h : bytes ≠ []) : (quad bytes).length = 4 := by
  match bytes, h with
  | [_], _ => rfl
  | [_, _], _ => rfl
  | _ :: _ :: _ :: _, _ => rfl

theorem store_of_le {capacity : ℕ} {out chars : List Byte}
    (h : out.length + chars.length ≤ capacity) : store capacity out chars = some (out ++ chars) :=
  if_pos h

/-- **A loop that writes four characters for three bytes in every turn writes base64.** -/
theorem loop_base64 {bytes : List Byte} {capacity : ℕ}
    {loop : ℕ → ℕ → List Byte → Option (List Byte)}
    (hend : ∀ turns i out, bytes.length ≤ i → loop (turns + 1) i out = some out)
    (hturn : ∀ turns i out, i < bytes.length → out.length + 4 < capacity → ∃ i', i < i' ∧
      bytes.drop i' = (bytes.drop i).drop 3 ∧ loop (turns + 1) i out =
        (store capacity out (quad (bytes.drop i))).bind (loop turns i'))
    {turns i : ℕ} {out : List Byte} (hturns : bytes.length - i < turns)
    (hroom : out.length + base64Length (bytes.length - i) < capacity) :
    loop turns i out = some (out ++ base64 (bytes.drop i)) := by
  induction turns generalizing i out with
  | zero => exact absurd hturns (Nat.not_lt_zero _)
  | succ turns ih =>
      by_cases hmore : i < bytes.length
      · have hne : bytes.drop i ≠ [] := by
          intro hnil
          have hlength := congrArg List.length hnil
          rw [length_drop, length_nil] at hlength
          omega
        have hgroups : base64Length (bytes.length - i) =
            4 + base64Length (bytes.length - i - 3) := by
          rw [base64Length, base64Length]
          omega
        obtain ⟨i', hi', hdrop, hrun⟩ := hturn turns i out hmore (by omega)
        have hleft : bytes.length - i' = bytes.length - i - 3 := by
          rw [← length_drop, hdrop, length_drop, length_drop]
        have hout : (out ++ quad (bytes.drop i)).length = out.length + 4 := by
          rw [length_append, length_quad hne]
        rw [hrun, store_of_le (by rw [length_quad hne]; omega), bind_some,
          ih (by omega) (by rw [hout, hleft]; omega), hdrop, append_assoc, ← base64_eq_quad]
      · rw [hend turns i out (by omega), drop_eq_nil_of_le (by omega), base64, append_nil]

/-- One, two or three bytes and more are left. -/
theorem three_cases {bytes : List Byte} {i : ℕ} (h : i < bytes.length) :
    (∃ a, bytes.drop i = [a] ∧ bytes[i]? = some a ∧ bytes.length = i + 1) ∨
      (∃ a b, bytes.drop i = [a, b] ∧ bytes[i]? = some a ∧ bytes[i + 1]? = some b ∧
        bytes.length = i + 2) ∨
      ∃ a b c rest, bytes.drop i = a :: b :: c :: rest ∧ bytes[i]? = some a ∧
        bytes[i + 1]? = some b ∧ bytes[i + 2]? = some c ∧ i + 3 ≤ bytes.length := by
  have hget : ∀ j, bytes[i + j]? = (bytes.drop i)[j]? := fun j => getElem?_drop.symm
  have hlength : (bytes.drop i).length = bytes.length - i := length_drop
  match hrest : bytes.drop i with
  | [] =>
      rw [hrest, length_nil] at hlength
      omega
  | [a] =>
      rw [hrest] at hget hlength
      rw [length_singleton] at hlength
      exact Or.inl ⟨a, rfl, hget 0, by omega⟩
  | [a, b] =>
      rw [hrest] at hget hlength
      rw [length_cons, length_singleton] at hlength
      exact Or.inr (Or.inl ⟨a, b, rfl, hget 0, hget 1, by omega⟩)
  | a :: b :: c :: rest =>
      rw [hrest] at hget hlength
      simp only [length_cons] at hlength
      exact Or.inr (Or.inr ⟨a, b, c, rest, rfl, hget 0, hget 1, hget 2, by omega⟩)

variable {bytes : List Byte} {capacity turns i : ℕ} {out : List Byte}

theorem muxerFrom_turn (h : i < bytes.length) :
    muxerFrom bytes capacity (turns + 1) i out =
      (store capacity out (quad (bytes.drop i))).bind (muxerFrom bytes capacity turns (i + 3)) := by
  rw [muxerFrom, if_pos h]
  rcases three_cases h with ⟨a, hrest, ha, hlength⟩ | ⟨a, b, hrest, ha, hb, hlength⟩ |
    ⟨a, b, c, rest, hrest, ha, hb, hc, hlength⟩
  · have hone : ¬ bytes.length - i > 1 := by omega
    have htwo : ¬ bytes.length - i > 2 := by omega
    simp only [hrest, ha, hone, htwo, if_false, bind_eq_bind, bind_some, quad]
  · have hone : bytes.length - i > 1 := by omega
    have htwo : ¬ bytes.length - i > 2 := by omega
    simp only [hrest, ha, hb, hone, htwo, if_true, if_false, bind_eq_bind, bind_some,
      quad]
  · have hone : bytes.length - i > 1 := by omega
    have htwo : bytes.length - i > 2 := by omega
    simp only [hrest, ha, hb, hc, hone, htwo, if_true, bind_eq_bind, bind_some, quad]

/-- What is not or-ed to the number is a zero byte of it. -/
theorem group_zero (a b : Byte) :
    group a 0 0 = a.setWidth 32 <<< 16 ∧
      group a b 0 = a.setWidth 32 <<< 16 ||| b.setWidth 32 <<< 8 := by
  have hnone : ∀ v : BitVec 32, v ||| 0 = v := fun v => BitVec.or_zero
  have hzero : (0 : Byte).setWidth 32 = 0 := rfl
  have hshift : (0 : BitVec 32) <<< 8 = 0 := rfl
  rw [group, group, hzero, hshift, hnone, hnone, hnone]
  exact ⟨rfl, rfl⟩

theorem rtspFrom_turn (h : i < bytes.length) :
    rtspFrom bytes capacity (turns + 1) i out =
      (store capacity out (quad (bytes.drop i))).bind (rtspFrom bytes capacity turns (i + 3)) := by
  rw [rtspFrom, if_pos h]
  rcases three_cases h with ⟨a, hrest, ha, hlength⟩ | ⟨a, b, hrest, ha, hb, hlength⟩ |
    ⟨a, b, c, rest, hrest, ha, hb, hc, hlength⟩
  · have hone : ¬ i + 1 < bytes.length := by omega
    have htwo : ¬ i + 2 < bytes.length := by omega
    simp only [hrest, ha, hone, htwo, if_false, bind_eq_bind, bind_some, quad,
      (group_zero a 0).1]
  · have hone : i + 1 < bytes.length := by omega
    have htwo : ¬ i + 2 < bytes.length := by omega
    simp only [hrest, ha, hb, hone, htwo, if_true, if_false, bind_eq_bind, bind_some,
      map_some, quad, (group_zero a b).2]
  · have hone : i + 1 < bytes.length := by omega
    have htwo : i + 2 < bytes.length := by omega
    simp only [hrest, ha, hb, hc, hone, htwo, if_true, bind_eq_bind, bind_some,
      map_some, quad, group]

/-- The loop of the WebSocket server is behind the bytes that it has read. -/
theorem wsFrom_turn (h : i < bytes.length) (hroom : out.length + 4 < capacity) :
    ∃ i', i < i' ∧ bytes.drop i' = (bytes.drop i).drop 3 ∧
      wsFrom bytes capacity (turns + 1) i out =
        (store capacity out (quad (bytes.drop i))).bind (wsFrom bytes capacity turns i') := by
  rw [wsFrom, if_pos ⟨h, hroom⟩]
  rcases three_cases h with ⟨a, hrest, ha, hlength⟩ | ⟨a, b, hrest, ha, hb, hlength⟩ |
    ⟨a, b, c, rest, hrest, ha, hb, hc, hlength⟩
  · have hone : ¬ i + 1 < bytes.length := by omega
    refine ⟨i + 1, by omega, ?_, ?_⟩
    · rw [drop_eq_nil_of_le (by omega), hrest]
      rfl
    · simp only [hrest, ha, hone, if_false, bind_eq_bind, bind_some, quad,
        (group_zero a 0).1]
      rfl
  · have hone : i + 1 < bytes.length := by omega
    have htwo : ¬ i + 2 < bytes.length := by omega
    refine ⟨i + 2, by omega, ?_, ?_⟩
    · rw [drop_eq_nil_of_le (by omega), hrest]
      rfl
    · simp only [hrest, ha, hb, hone, htwo, if_true, if_false, bind_eq_bind,
        bind_some, map_some, quad, (group_zero a b).2]
      rfl
  · have hone : i + 1 < bytes.length := by omega
    have htwo : i + 2 < bytes.length := by omega
    refine ⟨i + 3, by omega, drop_drop.symm, ?_⟩
    simp only [hrest, ha, hb, hc, hone, htwo, if_true, bind_eq_bind, bind_some,
      map_some, quad, group]
    rfl

/-! ## The coders -/

/-- **The coders agree**: in buffers that are large enough the three encoders write the base64 text
of the string, and the decoder reads the string back. -/
theorem base64_coders (bytes : List Byte) {capacity outCap : ℕ}
    (hcapacity : base64Length bytes.length + 1 ≤ capacity) (houtCap : bytes.length ≤ outCap) :
    sdpMuxerBase64 bytes capacity = some (some (base64Text bytes)) ∧
      rtspBase64Encode bytes capacity = some (base64Text bytes) ∧
      wsBase64Encode bytes capacity = some (base64Text bytes) ∧
      base64Decode outCap (base64Text bytes) = some bytes := by
  rw [← base64_eq_text]
  have hlength := length_base64 bytes
  have hend : store capacity (base64 bytes) [0] = some (base64 bytes ++ [0]) :=
    store_of_le (by rw [hlength, length_singleton]; exact hcapacity)
  have hroom : ([] : List Byte).length + base64Length (bytes.length - 0) < capacity := by
    rw [length_nil, Nat.zero_add, Nat.sub_zero]
    exact hcapacity
  have hturns : bytes.length - 0 < bytes.length + 1 := Nat.lt_succ_self _
  have hmuxer : muxerFrom bytes capacity (bytes.length + 1) 0 [] = some (base64 bytes) :=
    loop_base64 (fun turns i out hi => by rw [muxerFrom, if_neg (by omega)])
      (fun turns i out hi _ => ⟨i + 3, by omega, drop_drop.symm, muxerFrom_turn hi⟩)
      hturns hroom
  have hrtsp : rtspFrom bytes capacity (bytes.length + 1) 0 [] = some (base64 bytes) :=
    loop_base64 (fun turns i out hi => by rw [rtspFrom, if_neg (by omega)])
      (fun turns i out hi _ => ⟨i + 3, by omega, drop_drop.symm, rtspFrom_turn hi⟩)
      hturns hroom
  have hws : wsFrom bytes capacity (bytes.length + 1) 0 [] = some (base64 bytes) :=
    loop_base64 (fun turns i out hi => by rw [wsFrom, if_neg (by omega)])
      (fun turns i out hi hout => wsFrom_turn hi hout) hturns hroom
  refine ⟨?_, ?_, ?_, ?_⟩
  · rw [sdpMuxerBase64, if_neg (by omega), hmuxer]
    simp only [bind_eq_bind, bind_some, hend]
    rfl
  · rw [rtspBase64Encode, hrtsp]
    simp only [bind_eq_bind, bind_some, hend]
    rfl
  · rw [wsBase64Encode, hws]
    simp only [bind_eq_bind, bind_some, hend]
    rfl
  · have hall := base64Decode_take houtCap (base64 bytes).length
    rw [take_length, take_of_length_le (by
      rw [hlength, base64Length]
      omega)] at hall
    exact hall

theorem base64_coders_two :
    sdpMuxerBase64 [0x67, 0x42] 5 = some (some (base64Text [0x67, 0x42])) ∧
      rtspBase64Encode [0x67, 0x42] 5 = some (base64Text [0x67, 0x42]) ∧
      wsBase64Encode [0x67, 0x42] 5 = some (base64Text [0x67, 0x42]) ∧
      base64Decode 2 (base64Text [0x67, 0x42]) = some [0x67, 0x42] :=
  base64_coders [0x67, 0x42] (by decide) (by decide)

end Zstreamer.Sdp

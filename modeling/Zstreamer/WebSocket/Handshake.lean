/-
# The digest of the handshake

`sha1_transform` and `sha1` of `zst_ws_server.c`: the whole blocks of the data are taken from where
they are, and what is left goes to one block with the padding, or to two.  The digest is SHA-1, and
every access is in range.

Beside the digest the blocks are kept that `sha1_transform` has been given.
-/

import Zstreamer.Foundation.Sha1

namespace Zstreamer.WebSocket

open Foundation List Option
open Foundation.Sha1 (Word Hash)

/-! ## The functions -/

/-- The first words of a block. -/
def loadWords (buffer : List Byte) : Option (List Word) :=
  (range 16).mapM fun i => do
    let b₀ ← buffer[i * 4]?
    let b₁ ← buffer[i * 4 + 1]?
    let b₂ ← buffer[i * 4 + 2]?
    let b₃ ← buffer[i * 4 + 3]?
    return be32 b₀ b₁ b₂ b₃

/-- The next word. -/
def extendWords (w : List Word) (i : ℕ) : Option (List Word) := do
  let w₃ ← w[i - 3]?
  let w₈ ← w[i - 8]?
  let w₁₄ ← w[i - 14]?
  let w₁₆ ← w[i - 16]?
  let val := w₃ ^^^ w₈ ^^^ w₁₄ ^^^ w₁₆
  return w ++ [val <<< 1 ||| val >>> 31]

/-- A turn of the loop over the words. -/
def sha1Turn (w : List Word) (s : Hash) (i : ℕ) : Option Hash := do
  let (f, k) : Word × Word :=
    if i < 20 then (s.b &&& s.c ||| ~~~s.b &&& s.d, 0x5A827999)
    else if i < 40 then (s.b ^^^ s.c ^^^ s.d, 0x6ED9EBA1)
    else if i < 60 then (s.b &&& s.c ||| s.b &&& s.d ||| s.c &&& s.d, 0x8F1BBCDC)
    else (s.b ^^^ s.c ^^^ s.d, 0xCA62C1D6)
  let word ← w[i]?
  let temp := (s.a <<< 5 ||| s.a >>> 27) + f + s.e + k + word
  return ⟨temp, s.a, s.b <<< 30 ||| s.b >>> 2, s.c, s.d⟩

/-- `sha1_transform` -/
def sha1Transform (state : Hash) (buffer : List Byte) : Option Hash := do
  let w ← loadWords buffer
  let w ← (range' 16 64).foldlM extendWords w
  let s ← (range 80).foldlM (sha1Turn w) state
  return ⟨state.a + s.a, state.b + s.b, state.c + s.c, state.d + s.d, state.e + s.e⟩

/-- A hash value, and the blocks that it has been given. -/
structure Digesting where
  state : Hash
  given : List (List Byte)

/-- A call of `sha1_transform`. -/
def Digesting.transform (s : Digesting) (buffer : List Byte) : Option Digesting :=
  (sha1Transform s.state buffer).map fun state => ⟨state, s.given ++ [buffer]⟩

/-- `memcpy` from the data. -/
def copyFrom (data : List Byte) (i n : ℕ) : Option (List Byte) :=
  if i + n ≤ data.length then some ((data.drop i).take n) else none

/-- The loop over the whole blocks, for so many turns at most. -/
def wholeBlocks (data : List Byte) : ℕ → ℕ → Digesting → Option (ℕ × Digesting)
  | 0, _, _ => none
  | turns + 1, i, s =>
      if data.length - i ≥ 64 then do
        let buffer ← copyFrom data i 64
        let s ← s.transform buffer
        wholeBlocks data turns (i + 64) s
      else some (i, s)

/-- Bytes written to a buffer from a place on. -/
def writeAt (pad : List Byte) (i : ℕ) (bytes : List Byte) : Option (List Byte) :=
  if i + bytes.length ≤ pad.length then
    some (pad.take i ++ bytes ++ pad.drop (i + bytes.length))
  else none

/-- The bytes of `bits`. -/
def bitsBytes (bits : BitVec 64) : List Byte :=
  [((bits >>> 56) &&& 0xff).setWidth 8, ((bits >>> 48) &&& 0xff).setWidth 8,
    ((bits >>> 40) &&& 0xff).setWidth 8, ((bits >>> 32) &&& 0xff).setWidth 8,
    ((bits >>> 24) &&& 0xff).setWidth 8, ((bits >>> 16) &&& 0xff).setWidth 8,
    ((bits >>> 8) &&& 0xff).setWidth 8, (bits &&& 0xff).setWidth 8]

/-- The bytes of the state. -/
def digestBytes (state : Hash) : List Byte :=
  [state.a, state.b, state.c, state.d, state.e].flatMap fun (word : Word) =>
    [((word >>> 24) &&& 0xff).setWidth 8, ((word >>> 16) &&& 0xff).setWidth 8,
      ((word >>> 8) &&& 0xff).setWidth 8, (word &&& 0xff).setWidth 8]

/-- `sha1`: the digest, and the blocks. -/
def sha1 (data : List Byte) : Option (List Byte × List (List Byte)) := do
  let bits : BitVec 64 := BitVec.ofNat 64 data.length * 8
  let (i, s) ← wholeBlocks data (data.length + 1) 0 ⟨Sha1.initial, []⟩
  let pad := replicate 64 0
  let rem := data.length - i
  let rest ← copyFrom data i rem
  let pad ← writeAt pad 0 rest
  let pad ← writeAt pad rem [0x80]
  let (s, pad) ←
    if rem ≥ 56 then (s.transform pad).map fun s => (s, replicate 64 0) else some (s, pad)
  let pad ← writeAt pad 56 (bitsBytes bits)
  let s ← s.transform pad
  return (digestBytes s.state, s.given)

/-! ## A block -/

/-- Where every call gives a value the list of values is given. -/
theorem mapM_eq_map {α β : Type} {f : α → Option β} {g : α → β} {l : List α}
    (h : ∀ x ∈ l, f x = some (g x)) : l.mapM f = some (l.map g) := by
  induction l with
  | nil => rfl
  | cons x l ih =>
      rw [forall_mem_cons] at h
      rw [mapM_cons, h.1, ih h.2]
      rfl

/-- The first words are those of the block. -/
theorem loadWords_eq {buffer : List Byte} (h : buffer.length = 64) :
    loadWords buffer = some ((range 16).map (Sha1.schedule buffer)) := by
  have hget : ∀ k < 64, buffer[k]? = some (buffer.getD k 0) := by
    intro k hk
    rw [getD_eq_getElem?_getD, getElem?_eq_getElem (by omega), getD_some]
  refine mapM_eq_map fun i hi => ?_
  have hi := mem_range.mp hi
  rw [hget _ (by omega), hget _ (by omega), hget _ (by omega), hget _ (by omega), Sha1.schedule,
    if_pos hi]
  rfl

/-- A word of the schedule that is there. -/
theorem getElem?_schedule (buffer : List Byte) {n i : ℕ} (hi : i < n) :
    ((range n).map (Sha1.schedule buffer))[i]? = some (Sha1.schedule buffer i) := by
  rw [getElem?_map, getElem?_range hi]
  rfl

/-- A rotation is two shifts. -/
theorem rotate_eq (w : Word) :
    w <<< 1 ||| w >>> 31 = w.rotateLeft 1 ∧ w <<< 5 ||| w >>> 27 = w.rotateLeft 5 ∧
      w <<< 30 ||| w >>> 2 = w.rotateLeft 30 :=
  ⟨rfl, rfl, rfl⟩

/-- The words are those of the schedule. -/
theorem extendWords_eq (buffer : List Byte) (n : ℕ) :
    (range' 16 n).foldlM extendWords ((range 16).map (Sha1.schedule buffer)) =
      some ((range (16 + n)).map (Sha1.schedule buffer)) := by
  induction n with
  | zero => rfl
  | succ n ih =>
      have hnext : Sha1.schedule buffer (16 + n) = (Sha1.schedule buffer (16 + n - 3) ^^^
          Sha1.schedule buffer (16 + n - 8) ^^^ Sha1.schedule buffer (16 + n - 14) ^^^
            Sha1.schedule buffer (16 + n - 16)).rotateLeft 1 := by
        rw [Sha1.schedule, if_neg (by omega)]
      rw [range'_concat, foldlM_append, ih]
      simp only [bind_eq_bind, bind_some, foldlM_cons, foldlM_nil, Nat.one_mul]
      rw [extendWords, getElem?_schedule buffer (by omega), getElem?_schedule buffer (by omega),
        getElem?_schedule buffer (by omega), getElem?_schedule buffer (by omega)]
      simp only [bind_eq_bind, bind_some, (rotate_eq _).1, ← hnext]
      rw [← Nat.add_assoc, range_succ, map_append]
      rfl

/-- The functions of the rounds, with or for exclusive or. -/
theorem logical_eq (x y z : Word) :
    (x &&& y ||| ~~~x &&& z) = Sha1.ch x y z ∧
      (x &&& y ||| x &&& z ||| y &&& z) = Sha1.maj x y z := by
  constructor
  · rw [Sha1.ch]
    ext i hi
    simp only [BitVec.getElem_or, BitVec.getElem_and, BitVec.getElem_not, BitVec.getElem_xor]
    cases x[i] <;> cases y[i] <;> cases z[i] <;> rfl
  · rw [Sha1.maj]
    ext i hi
    simp only [BitVec.getElem_or, BitVec.getElem_and, BitVec.getElem_xor]
    cases x[i] <;> cases y[i] <;> cases z[i] <;> rfl

/-- A turn is a round. -/
theorem sha1Turn_eq (buffer : List Byte) (s : Hash) {i : ℕ} (hi : i < 80) :
    sha1Turn ((range 80).map (Sha1.schedule buffer)) s i =
      some (Sha1.round i (Sha1.schedule buffer i) s) := by
  obtain ⟨hch, hmaj⟩ := logical_eq s.b s.c s.d
  have hword := getElem?_schedule buffer hi
  rw [sha1Turn, Sha1.round, Sha1.logical, Sha1.constant, hword, hch, hmaj]
  by_cases h₁ : i < 20
  · simp only [h₁, if_true]
    rfl
  by_cases h₂ : i < 40
  · simp only [h₁, h₂, if_true, if_false]
    rfl
  by_cases h₃ : i < 60
  · simp only [h₁, h₂, h₃, if_true, if_false]
    rfl
  · simp only [h₁, h₂, h₃, if_false]
    rfl

/-- The turns are the rounds. -/
theorem sha1Turns_eq {w : List Word} {buffer : List Byte}
    (hturn : ∀ i < 80, ∀ s, sha1Turn w s i = some (Sha1.round i (Sha1.schedule buffer i) s))
    (state : Hash) {n : ℕ} (hn : n ≤ 80) :
    (range n).foldlM (sha1Turn w) state = some (Sha1.rounds buffer n state) := by
  induction n with
  | zero => rfl
  | succ n ih =>
      rw [range_succ, foldlM_append, ih (by omega)]
      simp only [bind_eq_bind, bind_some, foldlM_cons, foldlM_nil,
        hturn n (by omega)]
      rfl

/-- **A block of 64 bytes is read in its bounds, and compressed.** -/
theorem sha1Transform_eq (state : Hash) {buffer : List Byte} (h : buffer.length = 64) :
    sha1Transform state buffer = some (Sha1.compress state buffer) := by
  rw [sha1Transform, loadWords_eq h]
  simp only [bind_eq_bind, bind_some, extendWords_eq,
    sha1Turns_eq (fun i hi s => sha1Turn_eq buffer s hi) state (Nat.le_refl 80)]
  rfl

/-! ## The loop and the padding -/

theorem transform_eq (s : Digesting) {buffer : List Byte} (h : buffer.length = 64) :
    s.transform buffer = some ⟨Sha1.compress s.state buffer, s.given ++ [buffer]⟩ := by
  rw [Digesting.transform, sha1Transform_eq s.state h]
  rfl

theorem copyFrom_eq {data : List Byte} {i n : ℕ} (h : i + n ≤ data.length) :
    copyFrom data i n = some ((data.drop i).take n) :=
  if_pos h

/-- The state behind some blocks. -/
def Digesting.after (s : Digesting) (front : List (List Byte)) : Digesting :=
  ⟨front.foldl Sha1.compress s.state, s.given ++ front⟩

/-- The loop takes the whole blocks of the data, and leaves less than one. -/
theorem wholeBlocks_eq (data : List Byte) {turns i : ℕ} (s : Digesting) (hi : i ≤ data.length)
    (hturns : data.length - i < turns) :
    ∃ place front, wholeBlocks data turns i s = some (place, s.after front) ∧
      place ≤ data.length ∧ data.length - place < 64 ∧ place % 64 = i % 64 ∧
      ∀ tail, Sha1.blocks (data.drop i ++ tail) = front ++ Sha1.blocks (data.drop place ++ tail) := by
  induction turns generalizing i s with
  | zero => exact absurd hturns (Nat.not_lt_zero _)
  | succ turns ih =>
      rw [wholeBlocks]
      by_cases hwhole : data.length - i ≥ 64
      · have hblock : ((data.drop i).take 64).length = 64 := by
          rw [length_take, length_drop]
          omega
        obtain ⟨place, front, hrun, hin, hless, hplace, hblocks⟩ := ih
          (s.after [(data.drop i).take 64]) (show i + 64 ≤ data.length by omega) (by omega)
        refine ⟨place, (data.drop i).take 64 :: front, ?_, hin, hless, by omega, fun tail => ?_⟩
        · rw [if_pos hwhole, copyFrom_eq (by omega)]
          simp only [bind_eq_bind, bind_some, transform_eq s hblock]
          rw [show (⟨Sha1.compress s.state ((data.drop i).take 64), s.given ++ [(data.drop i).take 64]⟩ :
            Digesting) = s.after [(data.drop i).take 64] from rfl, hrun, Digesting.after, Digesting.after,
            Digesting.after, append_assoc]
          rfl
        · have hsplit : data.drop i = (data.drop i).take 64 ++ data.drop (i + 64) := by
            rw [← drop_drop, take_append_drop]
          calc Sha1.blocks (data.drop i ++ tail)
              = Sha1.blocks ((data.drop i).take 64 ++ (data.drop (i + 64) ++ tail)) := by
                rw [← append_assoc, ← hsplit]
            _ = (data.drop i).take 64 :: Sha1.blocks (data.drop (i + 64) ++ tail) :=
                Sha1.blocks_append hblock _
            _ = (data.drop i).take 64 :: front ++ Sha1.blocks (data.drop place ++ tail) := by
                rw [hblocks, cons_append]
      · exact ⟨i, [], by rw [if_neg hwhole, Digesting.after, append_nil]; rfl, hi, by omega, rfl,
          fun tail => rfl⟩

/-- The bytes of the number of bits. -/
theorem bitsBytes_eq {length : ℕ} (h : length < 2 ^ 61) :
    bitsBytes (BitVec.ofNat 64 length * 8) = Sha1.bytes64 (length * 8) := by
  have hbits : (BitVec.ofNat 64 length * 8).toNat = length * 8 := by
    rw [BitVec.toNat_mul, BitVec.toNat_ofNat]
    show length % 2 ^ 64 * 8 % 2 ^ 64 = _
    omega
  have hbyte : ∀ shift : ℕ, (((BitVec.ofNat 64 length * 8) >>> shift) &&& 0xff).setWidth 8 =
      BitVec.ofNat 8 (length * 8 / 2 ^ shift) := by
    intro shift
    apply BitVec.eq_of_toNat_eq
    rw [BitVec.toNat_setWidth, BitVec.toNat_and, BitVec.toNat_ushiftRight, hbits, BitVec.toNat_ofNat,
      Nat.shiftRight_eq_div_pow]
    show (length * 8 / 2 ^ shift &&& 2 ^ 8 - 1) % 2 ^ 8 = _
    rw [Nat.and_two_pow_sub_one_eq_mod, Nat.mod_mod]
  have hlow := hbyte 0
  rw [BitVec.ushiftRight_zero, Nat.pow_zero, Nat.div_one] at hlow
  rw [bitsBytes, Sha1.bytes64, hbyte, hbyte, hbyte, hbyte, hbyte, hbyte, hbyte, hlow]

/-- The bytes of the state are those of the hash value. -/
theorem digestBytes_eq (state : Hash) : digestBytes state = state.bytes := by
  have hbyte : ∀ w : Word, (w &&& 0xff).setWidth 8 = w.setWidth 8 := by
    intro w
    ext i hi
    rw [BitVec.getElem_setWidth, BitVec.getElem_setWidth, BitVec.getLsbD_and,
      show (0xff : Word).getLsbD i = true from by interval_cases i <;> rfl, Bool.and_true]
  simp only [digestBytes, hbyte]
  rfl

/-- What is left of the data is put in front of the padding. -/
theorem writeRest_eq {rest : List Byte} (h : rest.length < 64) :
    (writeAt (replicate 64 0) 0 rest).bind (fun pad => writeAt pad rest.length [0x80]) =
      some (rest ++ 0x80 :: replicate (63 - rest.length) 0) := by
  have hfirst : writeAt (replicate 64 0) 0 rest =
      some (rest ++ replicate (64 - rest.length) 0) := by
    rw [writeAt, if_pos (by rw [length_replicate]; omega), take_zero, nil_append,
      Nat.zero_add, drop_replicate]
  rw [hfirst, bind_some, writeAt, if_pos (by
    rw [length_append, length_replicate, length_singleton]
    omega), take_left' rfl, append_assoc, length_singleton, ← drop_drop,
    drop_left' rfl, drop_replicate]
  rw [show 64 - rest.length - 1 = 63 - rest.length by omega]
  rfl

/-- The number of bits is put behind 56 bytes. -/
theorem writeBits_eq {pad bits : List Byte} (hpad : pad.length = 64) (hbits : bits.length = 8) :
    writeAt pad 56 bits = some (pad.take 56 ++ bits) := by
  rw [writeAt, if_pos (by omega), drop_of_length_le (by omega), append_nil]

/-- With fewer than 56 bytes left the padding makes up one block. -/
theorem blocks_short {rest bits : List Byte} (hrest : rest.length < 56) (hbits : bits.length = 8) :
    Sha1.blocks (rest ++ 0x80 :: (replicate (Sha1.zeroCount rest.length) 0 ++ bits)) =
      [(rest ++ 0x80 :: replicate (63 - rest.length) 0).take 56 ++ bits] := by
  have hzeros : Sha1.zeroCount rest.length = 55 - rest.length := by
    rw [Sha1.zeroCount]
    omega
  have htake : (rest ++ 0x80 :: replicate (63 - rest.length) 0).take 56 =
      rest ++ (0x80 : Byte) :: replicate (55 - rest.length) 0 := by
    rw [take_append, take_of_length_le (by omega),
      show 56 - rest.length = 55 - rest.length + 1 by omega, take_succ_cons, take_replicate]
    congr 3
    omega
  rw [htake, hzeros, append_assoc, cons_append, Sha1.blocks_single]
  rw [length_append, length_cons, length_append, length_replicate, hbits]
  omega

/-- Else it makes up two. -/
theorem blocks_long {rest bits : List Byte} (hrest : 56 ≤ rest.length) (hless : rest.length < 64)
    (hbits : bits.length = 8) :
    Sha1.blocks (rest ++ 0x80 :: (replicate (Sha1.zeroCount rest.length) 0 ++ bits)) =
      [rest ++ 0x80 :: replicate (63 - rest.length) 0,
        (replicate 64 0).take 56 ++ bits] := by
  have hzeros : Sha1.zeroCount rest.length = 63 - rest.length + 56 := by
    rw [Sha1.zeroCount]
    omega
  have hsplit : rest ++ 0x80 :: (replicate (63 - rest.length + 56) 0 ++ bits) =
      rest ++ 0x80 :: replicate (63 - rest.length) 0 ++ (replicate 56 0 ++ bits) := by
    rw [replicate_add, append_assoc, append_assoc, cons_append]
  rw [hzeros, hsplit, Sha1.blocks_append, Sha1.blocks_single, take_replicate]
  · rfl
  · rw [length_append, length_replicate, hbits]
  · rw [length_append, length_cons, length_replicate]
    omega

/-- **The digest is SHA-1**: the blocks given are those of the data with the padding, which is
`0x80`, the fewest zero bytes that make up whole blocks, and the number of bits; no access is out of
range. -/
theorem sha1_eq (data : List Byte) (hlength : data.length < 2 ^ 61) :
    sha1 data = some (Sha1.digest data, Sha1.blocks (Sha1.padded data)) ∧
      Sha1.padded data = data ++ 0x80 :: (replicate (Sha1.zeroCount data.length) 0 ++
        Sha1.bytes64 (data.length * 8)) ∧
      (data.length + 1 + Sha1.zeroCount data.length + 8) % 64 = 0 ∧
      ∀ zeros, (data.length + 1 + zeros + 8) % 64 = 0 → Sha1.zeroCount data.length ≤ zeros := by
  refine ⟨?_, rfl, Sha1.zeroCount_whole _, fun zeros => Sha1.zeroCount_least⟩
  obtain ⟨place, front, hrun, hin, hless, hplace, hblocks⟩ := wholeBlocks_eq data
    ⟨Sha1.initial, []⟩ (Nat.zero_le _) (show data.length - 0 < data.length + 1 by omega)
  have hbits : (Sha1.bytes64 (data.length * 8)).length = 8 := rfl
  have hrest : (data.drop place).length = data.length - place := length_drop
  have hzeros : Sha1.zeroCount data.length = Sha1.zeroCount (data.drop place).length := by
    rw [hrest, Sha1.zeroCount, Sha1.zeroCount]
    omega
  have hall := hblocks (0x80 :: (replicate (Sha1.zeroCount data.length) 0 ++
    Sha1.bytes64 (data.length * 8)))
  have hfirst := writeRest_eq (show (data.drop place).length < 64 by omega)
  have hpad : (data.drop place ++ (0x80 : Byte) :: replicate
      (63 - (data.drop place).length) 0).length = 64 := by
    rw [length_append, length_cons, length_replicate]
    omega
  have hcopy : copyFrom data place (data.length - place) = some (data.drop place) := by
    rw [copyFrom_eq (by omega), take_of_length_le (Nat.le_of_eq hrest)]
  rw [drop_zero, hzeros] at hall
  rw [Sha1.digest, Sha1.padded, Sha1.padding, hzeros, hall, sha1, hrun, bitsBytes_eq hlength]
  simp only [bind_eq_bind, bind_some, hcopy]
  rw [← hrest, ← bind_assoc, hfirst, bind_some]
  by_cases hlong : (data.drop place).length ≥ 56
  · rw [if_pos hlong, transform_eq _ hpad, blocks_long hlong (by omega) hbits]
    simp only [map_some, bind_some]
    rw [writeBits_eq (length_replicate ..) hbits, bind_some, transform_eq _ rfl,
      bind_some, digestBytes_eq, foldl_append]
    simp only [Digesting.after, append_assoc, nil_append, cons_append]
    rfl
  · rw [if_neg hlong, blocks_short (by omega) hbits]
    simp only [writeBits_eq hpad hbits, bind_some]
    rw [transform_eq _ (by rw [length_append, length_take, hpad, hbits]; rfl),
      bind_some, digestBytes_eq, foldl_append]
    rfl

/-- The digest of three letters. -/
theorem sha1_eq_abc :
    Sha1.digest [0x61, 0x62, 0x63] =
      [0xa9, 0x99, 0x3e, 0x36, 0x47, 0x06, 0x81, 0x6a, 0xba, 0x3e, 0x25, 0x71, 0x78, 0x50, 0xc2, 0x6c,
        0x9c, 0xd0, 0xd8, 0x9d] := by
  have hrun : (sha1 [0x61, 0x62, 0x63]).map Prod.fst =
      some [0xa9, 0x99, 0x3e, 0x36, 0x47, 0x06, 0x81, 0x6a, 0xba, 0x3e, 0x25, 0x71, 0x78, 0x50, 0xc2,
        0x6c, 0x9c, 0xd0, 0xd8, 0x9d] := by
    decide +kernel
  rw [(sha1_eq [0x61, 0x62, 0x63] (by decide)).1] at hrun
  exact Option.some.inj hrun

end Zstreamer.WebSocket

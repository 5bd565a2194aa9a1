/-
# SHA-1

The secure hash standard (FIPS 180), in bytes: the padding of a message, the schedule of a block,
the eighty rounds and the digest.
-/

import Zstreamer.Foundation.Bits

namespace Zstreamer.Foundation.Sha1

/-! ## Words -/

abbrev Word := BitVec 32

/-- The hash value, or the working variables. -/
structure Hash where
  a : Word
  b : Word
  c : Word
  d : Word
  e : Word
  deriving DecidableEq, Repr

/-- The first hash value. -/
def initial : Hash := ⟨0x67452301, 0xefcdab89, 0x98badcfe, 0x10325476, 0xc3d2e1f0⟩

def ch (x y z : Word) : Word := x &&& y ^^^ ~~~x &&& z

def parity (x y z : Word) : Word := x ^^^ y ^^^ z

def maj (x y z : Word) : Word := x &&& y ^^^ x &&& z ^^^ y &&& z

/-- The function of a round. -/
def logical (t : ℕ) : Word → Word → Word → Word :=
  if t < 20 then ch else if t < 40 then parity else if t < 60 then maj else parity

/-- The constant of a round. -/
def constant (t : ℕ) : Word :=
  if t < 20 then 0x5a827999 else if t < 40 then 0x6ed9eba1 else if t < 60 then 0x8f1bbcdc
  else 0xca62c1d6

/-! ## Blocks -/

/-- A word of a block of 64 bytes. -/
def wordAt (block : List Byte) (t : ℕ) : Word :=
  be32 (block.getD (t * 4) 0) (block.getD (t * 4 + 1) 0) (block.getD (t * 4 + 2) 0)
    (block.getD (t * 4 + 3) 0)

/-- The message schedule of a block. -/
def schedule (block : List Byte) (t : ℕ) : Word :=
  if t < 16 then wordAt block t
  else
    (schedule block (t - 3) ^^^ schedule block (t - 8) ^^^ schedule block (t - 14) ^^^
      schedule block (t - 16)).rotateLeft 1
termination_by t

/-- One round. -/
def round (t : ℕ) (w : Word) (v : Hash) : Hash where
  a := v.a.rotateLeft 5 + logical t v.b v.c v.d + v.e + constant t + w
  b := v.a
  c := v.b.rotateLeft 30
  d := v.c
  e := v.d

/-- The first rounds. -/
def rounds (block : List Byte) : ℕ → Hash → Hash
  | 0, v => v
  | t + 1, v => round t (schedule block t) (rounds block t v)

/-- The hash value behind a block. -/
def compress (h : Hash) (block : List Byte) : Hash :=
  let v := rounds block 80 h
  ⟨h.a + v.a, h.b + v.b, h.c + v.c, h.d + v.d, h.e + v.e⟩

/-! ## Padding -/

/-- How many zero bytes the padding has. -/
def zeroCount (length : ℕ) : ℕ := (119 - length % 64) % 64

/-- They are as few as make up whole blocks. -/
theorem zeroCount_whole (length : ℕ) : (length + 1 + zeroCount length + 8) % 64 = 0 := by
  rw [zeroCount]
  omega

theorem zeroCount_least {length zeros : ℕ} (h : (length + 1 + zeros + 8) % 64 = 0) :
    zeroCount length ≤ zeros := by
  rw [zeroCount]
  omega

/-- The bytes of a number of 64 bits. -/
def bytes64 (n : ℕ) : List Byte :=
  [BitVec.ofNat 8 (n / 2 ^ 56), BitVec.ofNat 8 (n / 2 ^ 48), BitVec.ofNat 8 (n / 2 ^ 40),
    BitVec.ofNat 8 (n / 2 ^ 32), BitVec.ofNat 8 (n / 2 ^ 24), BitVec.ofNat 8 (n / 2 ^ 16),
    BitVec.ofNat 8 (n / 2 ^ 8), BitVec.ofNat 8 n]

/-- What is put behind a message of that length. -/
def padding (length : ℕ) : List Byte :=
  0x80 :: (List.replicate (zeroCount length) 0 ++ bytes64 (length * 8))

/-- The message with its padding. -/
def padded (message : List Byte) : List Byte := message ++ padding message.length

/-- Blocks of 64 bytes. -/
def blocks (data : List Byte) : List (List Byte) :=
  (List.range (data.length / 64)).map fun i => (data.drop (i * 64)).take 64

/-! ## The digest -/

/-- The bytes of a word. -/
def wordBytes (w : Word) : List Byte :=
  [(w >>> 24).setWidth 8, (w >>> 16).setWidth 8, (w >>> 8).setWidth 8, w.setWidth 8]

/-- The bytes of a hash value. -/
def Hash.bytes (h : Hash) : List Byte :=
  wordBytes h.a ++ wordBytes h.b ++ wordBytes h.c ++ wordBytes h.d ++ wordBytes h.e

/-- The digest of a message. -/
def digest (message : List Byte) : List Byte :=
  ((blocks (padded message)).foldl compress initial).bytes

/-! ## Blocks one by one -/

@[simp]
theorem blocks_nil : blocks [] = [] := rfl

/-- The first block. -/
theorem blocks_append {block : List Byte} (h : block.length = 64) (rest : List Byte) :
    blocks (block ++ rest) = block :: blocks rest := by
  have hcount : (block ++ rest).length / 64 = rest.length / 64 + 1 := by
    rw [List.length_append, h]
    omega
  rw [blocks, hcount, List.range_succ_eq_map, List.map_cons, List.map_map, Nat.zero_mul,
    List.drop_zero, List.take_left' h, blocks]
  congr 1
  refine List.map_congr_left fun i _ => ?_
  show ((block ++ rest).drop ((i + 1) * 64)).take 64 = _
  rw [Nat.add_mul, Nat.one_mul, Nat.add_comm (i * 64), ← List.drop_drop, List.drop_left' h]

theorem blocks_single {block : List Byte} (h : block.length = 64) : blocks block = [block] := by
  have hone := blocks_append h []
  rwa [List.append_nil, blocks_nil] at hone

end Zstreamer.Foundation.Sha1

/-
# Messages survive framing

However the bytes of frames are cut into chunks, the client takes one frame after the
other off the front of its buffer, and what it has not taken is there as it came.  So
`on_message` is called for every text frame that has arrived as a whole, once and in
order, with its payload.

The exception is a frame whose size wraps, as for the bounds of the buffer: `Wraps` is a
turn that parses one.
-/

import Mathlib.Data.FinEnum
import Zstreamer.WebSocket.Frames

namespace Zstreamer.WebSocket

open Foundation List Option

/-! ## Lengths -/

/-- The mask bit is above the bits of a length. -/
theorem maskBit_table : ∀ n : Fin 128,
    (UInt8.ofNat n ||| 0x80) &&& 0x7F = UInt8.ofNat n ∧ UInt8.ofNat n &&& 0x7F = UInt8.ofNat n ∧
    (((UInt8.ofNat n ||| 0x80) &&& 0x80) != 0) = true ∧ ((UInt8.ofNat n &&& 0x80) != 0) = false := by
  decide +kernel

/-- A number is put together again from its last byte and the others. -/
theorem shiftLeft_or_byte (x : ℕ) : ((x >>> 8) <<< 8) ||| x % 256 = x := by
  have hbyte : x % 256 < 2 ^ 8 := Nat.mod_lt x (by decide)
  rw [← Nat.shiftLeft_add_eq_or_of_lt hbyte, Nat.shiftLeft_eq, Nat.shiftRight_eq_div_pow]
  exact Nat.div_add_mod' x (2 ^ 8)

/-- The loop over the bytes of a 64-bit length gives the length. -/
theorem foldl_length {n : ℕ} (hn : n < 2 ^ 64) {byte : ℕ → UInt8}
    (hbyte : ∀ k < 8, byte k = UInt8.ofNat (n >>> ((7 - k) * 8))) :
    (range 8).foldl (fun len k => ((len <<< 8) % 2 ^ 64) ||| (byte k).toNat) 0 = n := by
  have hloop : ∀ m ≤ 8, (range m).foldl
      (fun len k => ((len <<< 8) % 2 ^ 64) ||| (byte k).toNat) 0 = n >>> ((8 - m) * 8) := by
    intro m
    induction m with
    | zero =>
        intro _
        rw [range_zero, foldl_nil, Nat.shiftRight_eq_div_pow]
        exact (Nat.div_eq_of_lt hn).symm
    | succ m ih =>
        intro hm
        have hshift : (8 - m) * 8 = (7 - m) * 8 + 8 := by omega
        have hless : ((n >>> ((7 - m) * 8)) >>> 8) <<< 8 < 2 ^ 64 := by
          rw [Nat.shiftLeft_eq, Nat.shiftRight_eq_div_pow _ 8]
          exact Nat.lt_of_le_of_lt (Nat.div_mul_le_self _ _)
            (Nat.lt_of_le_of_lt (Nat.shiftRight_le n _) hn)
        have htoNat : (byte m).toNat = n >>> ((7 - m) * 8) % 256 := by
          rw [hbyte m (by omega)]
          exact UInt8.toNat_ofNat'
        rw [range_succ, foldl_append, ih (by omega), foldl_cons, foldl_nil,
          hshift, Nat.shiftRight_add, Nat.mod_eq_of_lt hless, htoNat, shiftLeft_or_byte,
          Nat.add_sub_add_right 7 1 m]
  exact (hloop 8 le_rfl).trans (by rw [Nat.sub_self, Nat.zero_mul, Nat.shiftRight_zero])

namespace Frame

/-- The byte with the mask bit. -/
def second (f : Frame) (b : UInt8) : UInt8 := if f.key.isSome then b ||| 0x80 else b

/-- The opcode of a kind of frame. -/
def opcode (f : Frame) : UInt8 := f.kind.first &&& 0x0F

/-- How long the header is before the mask key. -/
def headerLen (f : Frame) : ℕ := f.length.length + 1

theorem length_eq (f : Frame) {b : UInt8} {rest : List UInt8}
    (hlength : lengthBytes f.payload.length = b :: rest) : f.length = f.second b :: rest := by
  rw [length, hlength, second]
  cases f.key with
  | none => rfl
  | some key => rfl

theorem second_spec (f : Frame) {n : ℕ} (hn : n < 128) :
    f.second (UInt8.ofNat n) &&& 0x7F = UInt8.ofNat n ∧
      ((f.second (UInt8.ofNat n) &&& 0x80) != 0) = f.key.isSome := by
  obtain ⟨hmasked, hplain, hset, hclear⟩ := maskBit_table ⟨n, hn⟩
  rw [second]
  cases f.key with
  | none => exact ⟨hplain, hclear⟩
  | some key => exact ⟨hmasked, hset⟩

/-- The header of a frame. -/
def parsed (f : Frame) : Header := ⟨f.opcode, f.key.isSome, f.headerLen, f.payload.length⟩

end Frame

/-- The buffer begins like these bytes. -/
def Client.Reads (c : Client) (stream : List UInt8) : Prop :=
  ∀ i < c.rxLen, c.rxBuf i = stream.getD i 0

section Header

variable {c : Client} {f : Frame} {more : List UInt8}

/-- The first two bytes of a frame, and the bytes of its length behind them. -/
theorem Client.Reads.front (hreads : c.Reads (f.bytes ++ more)) {b : UInt8} {rest : List UInt8}
    (hlength : lengthBytes f.payload.length = b :: rest) :
    f.headerLen = rest.length + 2 ∧ (0 < c.rxLen → c.rxBuf 0 = f.kind.first) ∧
      (1 < c.rxLen → c.rxBuf 1 = f.second b) ∧
      ∀ k < rest.length, k + 2 < c.rxLen → c.rxBuf (k + 2) = rest.getD k 0 := by
  have hbytes : f.bytes ++ more =
      f.kind.first :: f.second b :: (rest ++ (f.keyBytes ++ f.body ++ more)) := by
    rw [Frame.bytes, f.length_eq hlength]
    simp only [cons_append, append_assoc]
  rw [hbytes] at hreads
  refine ⟨?_, fun hlen => hreads 0 hlen, fun hlen => hreads 1 hlen, fun k hk hlen => ?_⟩
  · rw [Frame.headerLen, f.length_eq hlength]
    rfl
  · rw [hreads (k + 2) hlen, getD_cons_succ, getD_cons_succ,
      getD_append _ _ _ _ hk]

theorem Client.Reads.header_short (hreads : c.Reads (f.bytes ++ more))
    (hshort : f.payload.length ≤ 125) :
    c.header = if c.rxLen < f.headerLen then none else some f.parsed := by
  have hlength : lengthBytes f.payload.length = [UInt8.ofNat f.payload.length] := by
    rw [lengthBytes, if_pos hshort]
  obtain ⟨hlow, hmask⟩ := f.second_spec (by omega : f.payload.length < 128)
  obtain ⟨hheaderLen, hzero, hone, -⟩ := hreads.front hlength
  have htoNat : (UInt8.ofNat f.payload.length).toNat = f.payload.length :=
    UInt8.toNat_ofNat_of_lt' (show f.payload.length < 256 by omega)
  have hle : UInt8.ofNat f.payload.length ≤ 125 := by
    rw [UInt8.le_iff_toNat_le, htoNat]
    exact hshort
  rw [length_nil, Nat.zero_add] at hheaderLen
  rw [Client.header, hheaderLen, Frame.parsed, hheaderLen]
  by_cases htwo : c.rxLen < 2
  · rw [if_pos htwo, if_pos htwo]
  · rw [if_neg htwo, if_neg htwo]
    simp only [hzero (by omega), hone (by omega), hlow, hmask, hle, if_true, htoNat]
    rfl

theorem Client.Reads.header_medium (hreads : c.Reads (f.bytes ++ more))
    (hlong : ¬ f.payload.length ≤ 125) (hshort : f.payload.length ≤ 65535) :
    c.header = if c.rxLen < f.headerLen then none else some f.parsed := by
  have hlength : lengthBytes f.payload.length =
      [126, UInt8.ofNat (f.payload.length >>> 8), UInt8.ofNat f.payload.length] := by
    rw [lengthBytes, if_neg hlong, if_pos hshort]
  obtain ⟨hlow, hmask⟩ := f.second_spec (by decide : 126 < 128)
  obtain ⟨hheaderLen, hzero, hone, hrest⟩ := hreads.front hlength
  have hhigh : (UInt8.ofNat (f.payload.length >>> 8)).toNat = f.payload.length >>> 8 := by
    refine UInt8.toNat_ofNat_of_lt' (show f.payload.length >>> 8 < 256 from ?_)
    rw [Nat.shiftRight_eq_div_pow]
    omega
  have htoNat : (UInt8.ofNat f.payload.length).toNat = f.payload.length % 256 :=
    UInt8.toNat_ofNat'
  have hheaderLen : f.headerLen = 4 := hheaderLen
  rw [Client.header, hheaderLen, Frame.parsed, hheaderLen]
  by_cases htwo : c.rxLen < 2
  · rw [if_pos htwo, if_pos (by omega)]
  · rw [if_neg htwo]
    have hsecond : c.rxBuf 1 = f.second (UInt8.ofNat 126) := hone (by omega)
    simp only [hzero (by omega), hsecond, hlow, hmask]
    rw [if_neg (by decide), if_pos (by decide)]
    by_cases hfour : c.rxLen < 4
    · rw [if_pos hfour, if_pos hfour]
    · have htwo := hrest 0 Nat.zero_lt_two (by omega)
      have hthree := hrest 1 Nat.one_lt_two (by omega)
      simp only [Nat.zero_add, Nat.reduceAdd, getD_cons_zero, getD_cons_succ]
        at htwo hthree
      rw [if_neg hfour, if_neg hfour, htwo, hthree, hhigh, htoNat, shiftLeft_or_byte]
      rfl

theorem Client.Reads.header_long (hreads : c.Reads (f.bytes ++ more))
    (hlong : ¬ f.payload.length ≤ 65535) :
    c.header = if c.rxLen < f.headerLen then none else some f.parsed := by
  have hlength : lengthBytes f.payload.length =
      127 :: (range 8).map fun i => UInt8.ofNat (f.payload.length >>> ((7 - i) * 8)) := by
    rw [lengthBytes, if_neg (by omega), if_neg hlong]
  obtain ⟨hlow, hmask⟩ := f.second_spec (by decide : 127 < 128)
  obtain ⟨hheaderLen, hzero, hone, hrest⟩ := hreads.front hlength
  rw [length_map, length_range] at hheaderLen hrest
  rw [Client.header, hheaderLen, Frame.parsed, hheaderLen]
  by_cases htwo : c.rxLen < 2
  · rw [if_pos htwo, if_pos (by omega)]
  · rw [if_neg htwo]
    have hsecond : c.rxBuf 1 = f.second (UInt8.ofNat 127) := hone (by omega)
    simp only [hzero (by omega), hsecond, hlow, hmask]
    rw [if_neg (by decide), if_neg (by decide)]
    by_cases hten : c.rxLen < 10
    · rw [if_pos hten, if_pos hten]
    · have hfold : c.longLength = f.payload.length := by
        refine foldl_length f.length_lt fun k hk => ?_
        rw [Nat.add_comm 2 k, hrest k hk (by omega),
          getD_eq_getElem _ _ (by rw [length_map, length_range]; exact hk),
          getElem_map, getElem_range]
      rw [if_neg hten, if_neg hten, hfold]
      rfl

/-- **The header is read as it was written**, once it has arrived. -/
theorem Client.Reads.header_eq (hreads : c.Reads (f.bytes ++ more)) :
    c.header = if c.rxLen < f.headerLen then none else some f.parsed := by
  by_cases hshort : f.payload.length ≤ 125
  · exact hreads.header_short hshort
  · by_cases hmedium : f.payload.length ≤ 65535
    · exact hreads.header_medium hshort hmedium
    · exact hreads.header_long hmedium

end Header

/-! ## What is in the buffer -/

@[simp]
theorem Client.length_contents (c : Client) : c.contents.length = c.rxLen := by
  rw [contents, length_map, length_range]

theorem Client.getElem_contents {c : Client} {i : ℕ} (hi : i < c.contents.length) :
    c.contents[i] = c.rxBuf i := by
  simp only [contents, getElem_map, getElem_range]

/-- A buffer that is a prefix begins like it. -/
theorem Client.reads_of_prefix {c : Client} {stream : List UInt8} (h : c.contents <+: stream) :
    c.Reads stream := by
  intro i hi
  rw [← c.length_contents] at hi
  rw [← getElem_contents hi, h.getElem hi, getD_eq_getElem]

theorem Client.contents_congr {c c' : Client} (hlen : c'.rxLen = c.rxLen)
    (hbuf : c'.rxBuf = c.rxBuf) : c'.contents = c.contents := by
  rw [contents, contents, hlen, hbuf]

/-- Taking bytes off the front does not change what the thread is doing. -/
theorem Client.phase_consume (total : ℕ) (c : Client) :
    (c.consume total).1.phase = c.phase ∧ (c.consume total).1.handshaked = c.handshaked := by
  -- The kernel must not compare the buffers, or it counts down from 2⁶⁴.
  have hkeep : ∀ (buf : ℕ → UInt8) (len : ℕ),
      ({ c with rxBuf := buf, rxLen := len } : Client).phase = c.phase ∧
        ({ c with rxBuf := buf, rxLen := len } : Client).handshaked = c.handshaked :=
    fun _ _ => ⟨rfl, rfl⟩
  exact hkeep _ _

/-- What is left when bytes are taken off the front. -/
theorem Client.contents_consume {c unmasked : Client} {total : ℕ} (hfits : Fits c)
    (hlen : unmasked.rxLen = c.rxLen) (htotal : total ≤ c.rxLen)
    (hbuf : ∀ i, total ≤ i → unmasked.rxBuf i = c.rxBuf i) :
    (unmasked.consume total).1.contents = c.contents.drop total := by
  have hcap := hfits.cap_le
  have hle := hfits.len_le
  have hrest : subSize unmasked.rxLen total = c.rxLen - total := by
    rw [hlen]
    exact subSize_of_le htotal (by omega)
  refine ext_getElem ?_ fun i hi hi' => ?_
  · rw [length_contents, length_drop, length_contents]
    exact hrest
  · have hless : i < c.rxLen - total := by
      rw [length_contents] at hi
      exact hrest ▸ hi
    rw [getElem_contents, getElem_drop, getElem_contents, consume]
    dsimp only
    rw [hrest, if_pos hless]
    exact hbuf _ (Nat.le_add_right total i)

theorem Client.contents_append {c : Client} (hfits : Fits c) {bytes : List UInt8}
    (hroom : c.rxLen + bytes.length ≤ c.rxCap) :
    (c.append bytes).contents = c.contents ++ bytes := by
  have hcap := hfits.cap_le
  have hlen : (c.append bytes).rxLen = c.rxLen + bytes.length := addSize_of_lt (by omega)
  refine ext_getElem ?_ fun i hi hi' => ?_
  · rw [length_contents, length_append, length_contents, hlen]
  · rw [getElem_contents, getElem_append, append]
    dsimp only
    by_cases hold : i < c.rxLen
    · rw [if_neg (Nat.not_le.mpr hold), dif_pos (c.length_contents.symm ▸ hold), getElem_contents]
    · have hin : i - c.rxLen < bytes.length := by
        rw [length_contents, hlen] at hi
        omega
      rw [if_pos (Nat.not_lt.mp hold), dif_neg (c.length_contents.symm ▸ hold)]
      simp only [length_contents]
      exact getD_eq_getElem _ _ hin

/-! ## A frame in the buffer -/

namespace Frame

theorem length_bytes (f : Frame) :
    f.bytes.length = f.parsed.dataAt + f.payload.length := by
  rw [bytes, length_cons, length_append, length_append, keyBytes, body,
    Header.dataAt, parsed, headerLen]
  cases f.key with
  | none => simp only [length_nil, isSome_none, Bool.false_eq_true, if_false]; omega
  | some key =>
      simp only [length_ofFn, length_mapIdx, isSome_some, if_true]
      omega

/-- The bytes behind the header. -/
theorem getD_bytes (f : Frame) (more : List UInt8) (i : ℕ) :
    (f.bytes ++ more).getD (f.headerLen + i) 0 = (f.keyBytes ++ f.body ++ more).getD i 0 := by
  have hbytes : f.bytes ++ more =
      (f.kind.first :: f.length) ++ (f.keyBytes ++ f.body ++ more) := by
    rw [bytes]
    simp only [cons_append, append_assoc]
  have hlength : (f.kind.first :: f.length).length = f.headerLen := rfl
  rw [hbytes, getD_append_right _ _ _ _ (by omega), hlength, Nat.add_sub_cancel_left]

theorem opcode_ne (f : Frame) : f.parsed.opcode ≠ 8 := by
  have hkind : ∀ kind : Kind, kind.first &&& 0x0F ≠ 8 := by
    intro kind
    cases kind with
    | text => decide
    | ping => decide
    | pong => decide
  exact hkind f.kind

theorem opcode_eq_one (f : Frame) : f.parsed.opcode = 1 ↔ f.kind = .text := by
  have hkind : ∀ kind : Kind, kind.first &&& 0x0F = 1 ↔ kind = .text := by
    intro kind
    cases kind with
    | text => decide
    | ping => decide
    | pong => decide
  exact hkind f.kind

theorem payloadLen_parsed (f : Frame) : f.parsed.payloadLen = f.payload.length := rfl

end Frame

/-- The client with the payload of the frame at the front unmasked. -/
def Client.unmasked (c : Client) (f : Frame) : Client :=
  if f.parsed.masked then c.unmask f.parsed else c

section Complete

variable {c : Client} {f : Frame} {more : List UInt8}

/-- **Unmasking gives the payload**, and leaves what is behind it. -/
theorem Client.Reads.unmasked (hreads : c.Reads (f.bytes ++ more))
    (hlen : f.bytes.length ≤ c.rxLen) :
    (∀ i < f.payload.length, (c.unmasked f).rxBuf (f.parsed.dataAt + i) = f.payload.getD i 0) ∧
    (∀ i, f.bytes.length ≤ i → (c.unmasked f).rxBuf i = c.rxBuf i) ∧
    (c.unmasked f).rxLen = c.rxLen := by
  have hbytes := f.length_bytes
  rw [Client.unmasked]
  cases hkey : f.key with
  | none =>
      have hmasked : f.parsed.masked = false := by
        rw [Frame.parsed, hkey]
        rfl
      have hdataAt : f.parsed.dataAt = f.headerLen := by
        rw [Header.dataAt, hmasked]
        rfl
      rw [hmasked, if_neg Bool.false_ne_true]
      refine ⟨fun i hi => ?_, fun i _ => rfl, rfl⟩
      rw [hreads _ (by omega), hdataAt, f.getD_bytes, Frame.keyBytes, Frame.body, hkey]
      exact getD_append _ _ _ _ hi
  | some key =>
      have hmasked : f.parsed.masked = true := by
        rw [Frame.parsed, hkey]
        rfl
      have hdataAt : f.parsed.dataAt = f.headerLen + 4 := by
        rw [Header.dataAt, hmasked]
        rfl
      have hkeyByte : ∀ i, c.rxBuf (f.headerLen + i % 4) = key ⟨i % 4, Nat.mod_lt i (by decide)⟩ := by
        intro i
        have hmod := Nat.mod_lt i (by decide : 4 > 0)
        rw [hreads _ (by omega), f.getD_bytes, Frame.keyBytes, hkey, append_assoc,
          getD_append _ _ _ _ (by rw [length_ofFn]; exact hmod),
          List.getD_eq_getElem _ _ (by rw [List.length_ofFn]; exact hmod), List.getElem_ofFn]
      rw [hmasked, if_pos rfl, Client.unmask]
      have hpayloadLen := f.payloadLen_parsed
      refine ⟨fun i hi => ?_, fun i hi => if_neg (by omega), rfl⟩
      have hmask : (f.keyBytes ++ f.body ++ more).getD (4 + i) 0 =
          f.payload.getD i 0 ^^^ key ⟨i % 4, Nat.mod_lt i (by decide)⟩ := by
        have hfour : f.keyBytes.length = 4 := by
          rw [Frame.keyBytes, hkey]
          exact length_ofFn
        have hbody : i < f.body.length := by
          rw [Frame.body, hkey]
          simp only [length_mapIdx]
          exact hi
        rw [append_assoc, getD_append_right _ _ _ _ (by omega), hfour,
          Nat.add_sub_cancel_left, getD_append _ _ _ _ hbody, getD_eq_getElem _ _ hbody,
          getD_eq_getElem _ _ hi]
        simp only [Frame.body, hkey, getElem_mapIdx]
      have hdata : f.parsed.headerLen + (f.parsed.dataAt + i - f.parsed.dataAt) % 4 =
          f.headerLen + i % 4 := by
        rw [Nat.add_sub_cancel_left]
        rfl
      dsimp only
      rw [if_pos ⟨by omega, by omega⟩, hdata, hkeyByte,
        hreads _ (by omega), hdataAt, Nat.add_assoc, f.getD_bytes, hmask, UInt8.xor_assoc,
        UInt8.xor_self, UInt8.xor_zero]

theorem Frame.headerLen_le (f : Frame) : f.headerLen ≤ f.bytes.length := by
  have hdataAt : f.headerLen ≤ f.parsed.dataAt := by
    rw [Header.dataAt]
    exact Nat.le_add_right f.headerLen _
  rw [f.length_bytes]
  exact Nat.le_add_right_of_le hdataAt

/-- The size of a frame that fits into the buffer does not wrap. -/
theorem Frame.totalRequired_eq {f : Frame} (hsize : f.bytes.length < 2 ^ 64) :
    f.parsed.totalRequired = f.bytes.length := by
  rw [f.length_bytes] at hsize ⊢
  rw [Header.totalRequired, f.payloadLen_parsed]
  exact addSize_of_lt hsize

/-- The memory that `on_message` reads, with the terminator behind the payload. -/
theorem Client.Reads.message (hreads : c.Reads (f.bytes ++ more))
    (hlen : f.bytes.length ≤ c.rxLen) :
    ((c.unmasked f).callBack f.parsed).2 = [⟨f.payload ++ [0], f.payload.length⟩] := by
  obtain ⟨hpayload, -, -⟩ := hreads.unmasked hlen
  have htext : (range (f.payload.length + 1)).map (fun i =>
      ((c.unmasked f).put (f.parsed.dataAt + f.payload.length) 0).rxBuf (f.parsed.dataAt + i)) =
      f.payload ++ [0] := by
    rw [range_succ, map_append, map_singleton]
    congr 1
    · refine ext_getElem (by rw [length_map, length_range]) fun i hi hi' => ?_
      rw [getElem_map, getElem_range, put]
      dsimp only
      rw [if_neg (by omega), hpayload i hi', getD_eq_getElem]
    · rw [put]
      dsimp only
      rw [if_pos rfl]
  rw [callBack]
  dsimp only
  rw [f.payloadLen_parsed, htext]

/-- **A frame that has arrived as a whole is taken**, and `on_message` called with its payload. -/
theorem Client.Reads.deliver (hreads : c.Reads (f.bytes ++ more)) (hfits : Fits c)
    (hlen : f.bytes.length ≤ c.rxLen) :
    (c.deliver true).1.contents = c.contents.drop f.bytes.length ∧
      (c.deliver true).1.phase = c.phase ∧ (c.deliver true).1.handshaked = c.handshaked ∧
      (c.deliver true).2 = f.calls := by
  have hcap := hfits.cap_le
  have hle := hfits.len_le
  have hheaderLen := f.headerLen_le
  obtain ⟨-, hbehind, hrxLen⟩ := hreads.unmasked hlen
  have hsize : f.bytes.length < 2 ^ 64 := by omega
  have hcontents := contents_consume hfits hrxLen hlen hbehind
  have hstate : ((c.unmasked f).consume f.bytes.length).1.phase = c.phase ∧
      ((c.unmasked f).consume f.bytes.length).1.handshaked = c.handshaked := by
    obtain ⟨hphase, hhandshaked⟩ := (c.unmasked f).phase_consume f.bytes.length
    rw [hphase, hhandshaked, Client.unmasked]
    split
    · exact ⟨rfl, rfl⟩
    · exact ⟨rfl, rfl⟩
  rw [Client.deliver, hreads.header_eq, if_neg (by omega)]
  dsimp only
  rw [Frame.totalRequired_eq hsize, if_neg (by omega), if_neg f.opcode_ne, ← Client.unmasked]
  by_cases htext : f.kind = .text
  · rw [if_pos ⟨f.opcode_eq_one.mpr htext, rfl⟩, callBack_fst, hreads.message hlen]
    dsimp only
    refine ⟨hcontents, hstate.1, hstate.2, ?_⟩
    rw [Frame.calls, htext]
  · rw [if_neg fun h => htext (f.opcode_eq_one.mp h.1)]
    dsimp only
    refine ⟨hcontents, hstate.1, hstate.2, ?_⟩
    rw [Frame.calls]
    cases hkind : f.kind with
    | text => exact absurd hkind htext
    | ping => rfl
    | pong => rfl

/-- A frame that has not arrived as a whole stays as it is, unless its size wraps. -/
theorem Client.Reads.deliver_incomplete (hreads : c.Reads (f.bytes ++ more))
    (hlen : c.rxLen < f.bytes.length) (hwraps : ¬ (∃ h, c.header = some h ∧
      h.totalRequired ≤ c.rxLen ∧ 2 ^ 64 ≤ h.dataAt + h.payloadLen)) :
    c.deliver true = ({ c with phase := .polling }, []) := by
  have hbytes := f.length_bytes
  rw [Client.deliver, hreads.header_eq]
  by_cases hshort : c.rxLen < f.headerLen
  · rw [if_pos hshort]
  · rw [if_neg hshort]
    dsimp only
    by_cases hlate : c.rxLen < f.parsed.totalRequired
    · rw [if_pos hlate]
    · exfalso
      refine hwraps ⟨f.parsed, by rw [hreads.header_eq, if_neg hshort], Nat.not_lt.mp hlate, ?_⟩
      by_contra hsmall
      rw [Header.totalRequired, addSize_of_lt (Nat.not_le.mp hsmall)] at hlate
      exact hlate (hbytes ▸ hlen)

end Complete

/-! ## Whole sessions -/

/-- How far a session has come: some frames are taken, and what has arrived of the others is in
the buffer. -/
structure Progress (frames : List Frame) (s : Session) (done todo : List Frame) : Prop where
  frames_eq : frames = done ++ todo
  arrived : s.arrived = encode done ++ s.client.contents
  calls : s.calls = done.flatMap Frame.calls
  /-- The thread waits only when no whole frame is there. -/
  polling : s.client.phase = .polling → ∀ f ∈ todo.head?, s.client.rxLen < f.bytes.length

/-- What holds of an open session. -/
structure Alive (frames : List Frame) (s : Session) : Prop where
  handshaked : s.client.handshaked = true
  fits : Fits s.client
  sent : s.arrived <+: encode frames
  progress : ∃ done todo, Progress frames s done todo

theorem encode_append (front back : List Frame) :
    encode (front ++ back) = encode front ++ encode back := flatMap_append

theorem encode_cons (f : Frame) (frames : List Frame) :
    encode (f :: frames) = f.bytes ++ encode frames := flatMap_cons

/-- The buffer begins like what is still to be taken. -/
theorem Progress.prefix_todo {frames done todo : List Frame} {s : Session}
    (h : Progress frames s done todo) (hsent : s.arrived <+: encode frames) :
    s.client.contents <+: encode todo := by
  rw [h.arrived, h.frames_eq, encode_append] at hsent
  exact (prefix_append_right_inj _).mp hsent

theorem Session.Begins.alive {frames : List Frame} {s : Session} (h : s.Begins frames) :
    Alive frames s := by
  refine ⟨h.handshaked, h.fits, h.sent, [], frames, rfl, h.arrived, h.calls, ?_⟩
  intro hpolling f _
  rcases h.phase with hprocessing | ⟨-, hempty⟩
  · rw [hpolling] at hprocessing
    cases hprocessing
  · rw [hempty]
    exact length_pos_iff.mpr (cons_ne_nil _ _)

theorem Client.grow_keeps {c c' : Client} {realloc : Bool} (hgrow : c.grow realloc = some c') :
    c'.contents = c.contents := by
  have hkeep : ∀ cap size : ℕ,
      ({ c with rxCap := cap, allocated := size } : Client).contents = c.contents :=
    fun _ _ => rfl
  rw [grow] at hgrow
  dsimp only at hgrow
  split at hgrow
  · split at hgrow
    · cases hgrow
      exact hkeep _ _
    · cases hgrow
  · cases hgrow
    rfl

/-- Bytes that are received stand behind those that are already there. -/
theorem Alive.receive {frames : List Frame} {s : Session} (h : Alive frames s)
    (hpolling : s.client.phase = .polling) {realloc : Bool} {bytes : List UInt8}
    (hsent : s.arrived ++ bytes <+: encode frames) {c : Client} {accesses : List Access}
    (hreceive : s.client.receive realloc bytes = some (c, accesses)) :
    c.phase = .closed ∨ Alive frames ⟨c, s.arrived ++ bytes, s.calls⟩ := by
  have hfits := (receive_fits h.fits hpolling hreceive).1
  obtain ⟨done, todo, hprogress⟩ := h.progress
  rw [Client.receive] at hreceive
  cases hgrow : s.client.grow realloc with
  | none =>
      rw [hgrow] at hreceive
      obtain ⟨rfl, -⟩ := Prod.mk.inj (Option.some.inj hreceive)
      exact .inl rfl
  | some grown =>
      obtain ⟨hgrown, hphase, hroom, hlen, hhandshaked⟩ := grow_fits h.fits hpolling hgrow
      have hcontents := Client.grow_keeps hgrow
      rw [hgrow] at hreceive
      dsimp only at hreceive
      split at hreceive
      case isFalse => cases hreceive
      case isTrue hfree =>
        have hcap := hgrown.cap_le
        rw [subSize_of_le hgrown.len_le (by omega)] at hfree
        right
        split at hreceive
        case isTrue hempty =>
          obtain ⟨rfl, -⟩ := Prod.mk.inj (Option.some.inj hreceive)
          refine ⟨hhandshaked.trans h.handshaked, hfits, hsent, done, todo, hprogress.frames_eq, ?_,
            hprogress.calls, fun _ => ?_⟩
          · dsimp only
            rw [hcontents, hempty, append_nil]
            exact hprogress.arrived
          · dsimp only
            rw [hlen]
            exact hprogress.polling hpolling
        case isFalse hnew =>
          obtain ⟨rfl, -⟩ := Prod.mk.inj (Option.some.inj hreceive)
          refine ⟨hhandshaked.trans h.handshaked, hfits, hsent, done, todo, hprogress.frames_eq, ?_,
            hprogress.calls, nofun⟩
          have happend : (grown.append bytes).contents = grown.contents ++ bytes :=
            Client.contents_append hgrown (by have := hgrown.len_le; omega)
          have hsame : ({ grown.append bytes with phase := .processing } : Client).contents =
              (grown.append bytes).contents := Client.contents_congr rfl rfl
          dsimp only
          rw [hsame, happend, hcontents, hprogress.arrived, append_assoc]

theorem Frame.bytes_pos (f : Frame) : 0 < f.bytes.length :=
  length_pos_iff.mpr (cons_ne_nil _ _)

/-- A turn of the loop takes the frame at the front, or goes back to waiting. -/
theorem Alive.process {frames : List Frame} {s : Session} (h : Alive frames s)
    (hprocessing : s.client.phase = .processing) (hwraps : ¬ Wraps s.client (.process true)) :
    Alive frames ⟨(s.client.deliver true).1, s.arrived, s.calls ++ (s.client.deliver true).2⟩ ∧
      ((s.client.deliver true).1.phase = .polling ∨ (s.client.deliver true).1.phase = .processing ∧
        (s.client.deliver true).1.rxLen < s.client.rxLen) := by
  obtain ⟨done, todo, hprogress⟩ := h.progress
  have hprefix := hprogress.prefix_todo h.sent
  have hfits : Fits (s.client.deliver true).1 := by
    rw [Client.deliver_fst]
    exact (frame_fits true h.fits hprocessing).1
  have hwait : ∀ {todo : List Frame}, Progress frames s done todo →
      (∀ f ∈ todo.head?, s.client.rxLen < f.bytes.length) →
      s.client.deliver true = ({ s.client with phase := .polling }, []) →
      Alive frames ⟨(s.client.deliver true).1, s.arrived, s.calls ++ (s.client.deliver true).2⟩ ∧
        ((s.client.deliver true).1.phase = .polling ∨
          (s.client.deliver true).1.phase = .processing ∧
            (s.client.deliver true).1.rxLen < s.client.rxLen) := by
    intro todo hprogress hshort hdeliver
    rw [hdeliver] at hfits ⊢
    refine ⟨⟨h.handshaked, hfits, h.sent, done, todo, hprogress.frames_eq, hprogress.arrived, ?_,
      fun _ => hshort⟩, .inl rfl⟩
    rw [append_nil]
    exact hprogress.calls
  cases todo with
  | nil =>
      have hempty : s.client.rxLen = 0 := by
        rw [← s.client.length_contents, prefix_nil.mp hprefix]
        rfl
      refine hwait hprogress (fun _ hhead => by cases hhead) ?_
      rw [Client.deliver, Client.header, if_pos (by omega)]
  | cons f todo =>
      rw [encode_cons] at hprefix
      have hreads := Client.reads_of_prefix hprefix
      by_cases hwhole : f.bytes.length ≤ s.client.rxLen
      · obtain ⟨hcontents, hphase, hhandshaked, hcalls⟩ := hreads.deliver h.fits hwhole
        have hfront : f.bytes <+: s.client.contents :=
          prefix_of_prefix_length_le (prefix_append _ _) hprefix
            (s.client.length_contents ▸ hwhole)
        obtain ⟨rest, hrest⟩ := hfront
        have hleft : (s.client.deliver true).1.contents = rest := by
          rw [hcontents, ← hrest, drop_left]
        refine ⟨⟨hhandshaked.trans h.handshaked, hfits, h.sent, done ++ [f], todo, ?_, ?_, ?_, ?_⟩,
          .inr ⟨hphase.trans hprocessing, ?_⟩⟩
        · rw [hprogress.frames_eq, append_assoc]
          rfl
        · dsimp only
          rw [hleft, hprogress.arrived, ← hrest, encode_append, append_assoc]
          exact congrArg (encode done ++ ·) (congrArg (· ++ rest) (append_nil _).symm)
        · dsimp only
          rw [hcalls, hprogress.calls, flatMap_append, flatMap_singleton]
        · dsimp only
          rw [hphase, hprocessing]
          intro hpolling
          cases hpolling
        · have hpos := f.bytes_pos
          have hlen := congrArg List.length hrest
          rw [length_append, Client.length_contents] at hlen
          rw [← Client.length_contents, hleft]
          omega
      · refine hwait hprogress (fun g hg => ?_) (hreads.deliver_incomplete (Nat.not_le.mp hwhole)
          fun hover => hwraps ⟨h.handshaked, hover⟩)
        cases hg
        exact Nat.not_le.mp hwhole

/-- A step of a session that does not wrap keeps it alive, or closes the client. -/
theorem alive_next {frames : List Frame} {s s' : Session} {a : Action}
    (h : s.client.phase = .closed ∨ Alive frames s) (hwraps : ¬ Wraps s.client a)
    (hnext : (session frames).next s a = some s') :
    s'.client.phase = .closed ∨ Alive frames s' := by
  obtain ⟨hsends, hmap⟩ := ite_none_right_eq_some.mp hnext
  clear hnext
  obtain ⟨⟨c, accesses⟩, hturn, rfl⟩ := map_eq_some_iff.mp hmap
  clear hmap
  have halive : s.client.phase ≠ .closed → Alive frames s := h.resolve_left
  cases a with
  | receive realloc bytes =>
      obtain ⟨hpolling, hreceive⟩ := ite_none_right_eq_some.mp hturn
      have hstep := (halive (by rw [hpolling]; decide)).receive hpolling hsends hreceive
      rw [Client.calls_receive, append_nil]
      exact hstep
  | hangUp =>
      obtain ⟨-, hhangUp⟩ := ite_none_right_eq_some.mp hturn
      obtain ⟨rfl, -⟩ := Prod.mk.inj (Option.some.inj hhangUp)
      exact .inl rfl
  | process onMessage =>
      obtain rfl : onMessage = true := hsends
      obtain ⟨hprocessing, hprocess⟩ := ite_none_right_eq_some.mp hturn
      have halive := halive (by rw [hprocessing]; decide)
      have hc : c = (s.client.deliver true).1 := by
        rw [Client.process, halive.handshaked, if_pos rfl] at hprocess
        rw [Client.deliver_fst, Option.some.inj hprocess]
      have hcalls : s.client.calls (.process true) = (s.client.deliver true).2 := by
        rw [Client.calls, halive.handshaked, if_pos rfl]
      rw [hc, hcalls, Action.bytes_process, append_nil]
      exact .inr (halive.process hprocessing hwraps).1

/-- The loop ends, or comes to a frame whose size wraps. -/
theorem Alive.settles {frames : List Frame} {s : Session} (h : Alive frames s)
    (hopen : s.client.phase ≠ .closed) :
    ∃ turns s', (session frames).run s (replicate turns (.process true)) = some s' ∧
      (s'.client.phase = .polling ∨ Wraps s'.client (.process true)) := by
  induction hlen : s.client.rxLen using Nat.strong_induction_on generalizing s with
  | _ len ih =>
      by_cases hwraps : Wraps s.client (.process true)
      · exact ⟨0, s, rfl, .inr hwraps⟩
      · cases hphase : s.client.phase with
        | closed => exact absurd hphase hopen
        | polling => exact ⟨0, s, rfl, .inl hphase⟩
        | processing =>
            obtain ⟨halive, hstep⟩ := h.process hphase hwraps
            have hnext : (session frames).next s (.process true) = some
                ⟨(s.client.deliver true).1, s.arrived, s.calls ++ (s.client.deliver true).2⟩ := by
              have hprocess : (s.client.process true).1 = (s.client.deliver true).1 := by
                rw [Client.process, h.handshaked, if_pos rfl, Client.deliver_fst]
              have hcalls : s.client.calls (.process true) = (s.client.deliver true).2 := by
                rw [Client.calls, h.handshaked, if_pos rfl]
              rw [session]
              dsimp only
              rw [if_pos (show s.Sends frames (.process true) from rfl), turn, if_pos hphase,
                map_some, hprocess, hcalls, Action.bytes_process, append_nil]
            rcases hstep with hpolling | ⟨hprocessing, hless⟩
            · exact ⟨1, _, by rw [replicate_one, System.run, hnext]; rfl, .inl hpolling⟩
            · have hopen' : (s.client.deliver true).1.phase ≠ .closed := by
                rw [hprocessing]
                decide
              obtain ⟨turns, s', hrun, hend⟩ := ih _ (hlen ▸ hless) halive hopen' rfl
              exact ⟨turns + 1, s', by rw [replicate_succ, System.run, hnext]; exact hrun, hend⟩

theorem reachable_alive {frames : List Frame} {s : Session}
    (hreach : (session frames).ReachableVia (fun s a => ¬ Wraps s.client a) s) :
    s.client.phase = .closed ∨ Alive frames s :=
  hreach.invariant (fun _ hinit => .inr (Session.Begins.alive hinit))
    fun _ _ _ _ h hwraps hnext => alive_next h hwraps hnext

/-- **Messages survive framing and any segmentation.**  In every session without a wrapping turn,
`on_message` has been called for every text frame that is taken, in order, with its payload and
its length; what has arrived of the other frames is in the buffer as it came; while the thread
waits, no whole frame is there, so when all has arrived all is taken; and the loop always comes
back to waiting, unless it comes to a frame whose size wraps. -/
theorem messages_survive {frames : List Frame} {s : Session}
    (hreach : (session frames).ReachableVia (fun s a => ¬ Wraps s.client a) s)
    (hopen : s.client.phase ≠ .closed) :
    (∃ done todo, Progress frames s done todo) ∧
    (s.client.phase = .polling → s.arrived = encode frames →
      s.client.contents = [] ∧ s.calls = frames.flatMap Frame.calls) ∧
    ∃ turns s', (session frames).run s (replicate turns (.process true)) = some s' ∧
      (s'.client.phase = .polling ∨ Wraps s'.client (.process true)) := by
  have halive := (reachable_alive hreach).resolve_left hopen
  obtain ⟨done, todo, hprogress⟩ := halive.progress
  refine ⟨⟨done, todo, hprogress⟩, fun hpolling hall => ?_, halive.settles hopen⟩
  have hcontents : s.client.contents = encode todo := by
    rw [hprogress.arrived, hprogress.frames_eq, encode_append] at hall
    exact append_cancel_left hall
  cases todo with
  | nil =>
      refine ⟨hcontents, ?_⟩
      rw [hprogress.calls, hprogress.frames_eq, append_nil]
  | cons f todo =>
      have hshort := hprogress.polling hpolling f rfl
      have hlen := congrArg List.length hcontents
      rw [Client.length_contents, encode_cons, length_append] at hlen
      omega

/-- No turn wraps while all frames have fewer than 2⁶⁴ bytes. -/
theorem Alive.not_wraps {frames : List Frame} {s : Session} (h : Alive frames s)
    (hsizes : ∀ f ∈ frames, f.bytes.length < 2 ^ 64) (a : Action) : ¬ Wraps s.client a := by
  cases a with
  | receive realloc bytes => exact id
  | hangUp => exact id
  | process onMessage =>
      rintro ⟨-, header, hheader, -, hwrap⟩
      obtain ⟨done, todo, hprogress⟩ := h.progress
      have hprefix := hprogress.prefix_todo h.sent
      cases todo with
      | nil =>
          have hempty : s.client.rxLen = 0 := by
            rw [← s.client.length_contents, prefix_nil.mp hprefix]
            rfl
          rw [Client.header, if_pos (by omega)] at hheader
          cases hheader
      | cons f todo =>
          rw [encode_cons] at hprefix
          rw [(Client.reads_of_prefix hprefix).header_eq] at hheader
          obtain ⟨-, hparsed⟩ := ite_none_left_eq_some.mp hheader
          cases hparsed
          rw [f.payloadLen_parsed, ← f.length_bytes] at hwrap
          have hf : f ∈ frames := by
            rw [hprogress.frames_eq]
            exact mem_append_right done mem_cons_self
          exact Nat.not_lt.mpr hwrap (hsizes f hf)

theorem reachableVia_of_sizes {frames : List Frame}
    (hsizes : ∀ f ∈ frames, f.bytes.length < 2 ^ 64) {s : Session}
    (hreach : (session frames).Reachable s) :
    (session frames).ReachableVia (fun s a => ¬ Wraps s.client a) s := by
  induction hreach with
  | start hinit => exact .start hinit
  | @step s s' a _ _ hnext ih =>
      refine .step ih ?_ hnext
      rcases reachable_alive ih with hclosed | halive
      · obtain ⟨-, hmap⟩ := ite_none_right_eq_some.mp hnext
        obtain ⟨r, hturn, -⟩ := map_eq_some_iff.mp hmap
        cases a with
        | receive realloc bytes => exact id
        | hangUp => exact id
        | process onMessage =>
            obtain ⟨hprocessing, -⟩ := ite_none_right_eq_some.mp hturn
            rw [hclosed] at hprocessing
            cases hprocessing
      · exact halive.not_wraps hsizes a

/-! ## Two sessions -/

/-- A ping, and a masked text frame with one letter. -/
def pingAndLetter : List Frame :=
  [⟨.ping, none, [1, 2], by decide⟩, ⟨.text, some fun i => UInt8.ofNat (i + 1), [0x61], by decide⟩]

/-- A client that has done the handshake, with the bytes behind it in the buffer. -/
theorem begins_of_run {bytes : List UInt8} {frames : List Frame} {c : Client}
    (hsent : bytes <+: encode frames)
    (hrun : client.run (Client.accept true) [.receive true (shortRequest ++ bytes), .process true] =
      some c)
    (hc : c.handshaked = true ∧ c.phase = .processing ∧ c.contents = bytes) :
    (session frames).init ⟨c, bytes, []⟩ where
  handshaked := hc.1
  fits := reachable_fits (System.Reachable.run (.start ⟨true, rfl⟩) hrun)
  arrived := hc.2.2.symm
  sent := hsent
  calls := rfl
  phase := .inl hc.2.1

/-- Five bytes come with the handshake, which cut the text frame behind its first byte. -/
theorem messages_survive_cut :
    ∃ s, (session pingAndLetter).Reachable s ∧ s.client.contents = [] ∧
      s.calls = [⟨[0x61, 0], 1⟩] := by
  obtain ⟨c, hrun, hc⟩ := map_eq_some_iff.mp
    (show (client.run (Client.accept true)
        [.receive true (shortRequest ++ [0x89, 2, 1, 2, 0x81]), .process true]).map (fun c =>
          (c.handshaked, c.phase, c.contents, ((session pingAndLetter).run
            ⟨c, [0x89, 2, 1, 2, 0x81], []⟩ [.process true, .process true,
              .receive true [0x81, 1, 2, 3, 4, 0x60], .process true, .process true]).map fun s =>
                decide (s.client.phase = .polling ∧ s.arrived = encode pingAndLetter))) =
        some (true, .processing, [0x89, 2, 1, 2, 0x81], some true) by decide +kernel)
  simp only [Prod.mk.injEq] at hc
  obtain ⟨hhandshaked, hphase, hcontents, hsession⟩ := hc
  obtain ⟨s, hs, hend⟩ := map_eq_some_iff.mp hsession
  obtain ⟨hpolling, harrived⟩ := of_decide_eq_true hend
  have hreach : (session pingAndLetter).Reachable s := System.Reachable.run
    (.start (begins_of_run (by decide +kernel) hrun ⟨hhandshaked, hphase, hcontents⟩)) hs
  obtain ⟨-, hall, -⟩ := messages_survive (reachableVia_of_sizes (by decide +kernel) hreach)
    (by rw [hpolling]; decide)
  obtain ⟨hempty, hcalls⟩ := hall hpolling harrived
  exact ⟨s, hreach, hempty, hcalls⟩

/-- A ping of 2⁶⁴ - 1 bytes, in which a text frame seems to begin. -/
def hugePing : Frame where
  kind := .ping
  key := none
  payload := [0x00, 0x81, 0x01, 0x41] ++ replicate (2 ^ 64 - 5) 0
  length_lt := by
    rw [length_append, length_replicate]
    decide

/-- Its size wraps to nine: nine bytes are taken off, and `on_message` is called with bytes of the
ping. -/
theorem message_out_of_ping :
    ¬ ∀ frames s, (session frames).Reachable s → s.client.phase ≠ .closed →
      ∃ done todo, Progress frames s done todo := by
  intro hclaim
  have hsent : [0x89, 0x7F, 0xFF, 0xFF, 0xFF, 0xFF, 0xFF, 0xFF, 0xFF, 0xFF, 0x00, 0x81, 0x01, 0x41]
      <+: encode [hugePing] := by
    have hlength : hugePing.payload.length = 2 ^ 64 - 1 := by
      rw [hugePing, length_append, length_replicate]
      rfl
    have hbytes : lengthBytes (2 ^ 64 - 1) =
        [0x7F, 0xFF, 0xFF, 0xFF, 0xFF, 0xFF, 0xFF, 0xFF, 0xFF] := by decide +kernel
    have hframe : hugePing.length = [0x7F, 0xFF, 0xFF, 0xFF, 0xFF, 0xFF, 0xFF, 0xFF, 0xFF] := by
      rw [hugePing.length_eq (hlength ▸ hbytes)]
      rfl
    rw [encode, flatMap_singleton, Frame.bytes, hframe]
    exact ⟨replicate (2 ^ 64 - 5) 0, rfl⟩
  obtain ⟨c, hrun, hc⟩ := map_eq_some_iff.mp
    (show (client.run (Client.accept true)
        [.receive true (shortRequest ++ [0x89, 0x7F, 0xFF, 0xFF, 0xFF, 0xFF, 0xFF, 0xFF, 0xFF, 0xFF,
          0x00, 0x81, 0x01, 0x41]), .process true]).map (fun c =>
          (c.handshaked, c.phase, c.contents, ((session [hugePing]).run ⟨c, [0x89, 0x7F, 0xFF, 0xFF,
              0xFF, 0xFF, 0xFF, 0xFF, 0xFF, 0xFF, 0x00, 0x81, 0x01, 0x41], []⟩
            [.process true, .process true, .process true]).map fun s =>
              decide (s.client.phase = .processing ∧ s.calls = [⟨[0x41, 0], 1⟩]))) =
        some (true, .processing, [0x89, 0x7F, 0xFF, 0xFF, 0xFF, 0xFF, 0xFF, 0xFF, 0xFF, 0xFF, 0x00,
          0x81, 0x01, 0x41], some true) by decide +kernel)
  simp only [Prod.mk.injEq] at hc
  obtain ⟨hhandshaked, hphase, hcontents, hsession⟩ := hc
  obtain ⟨s, hs, hend⟩ := map_eq_some_iff.mp hsession
  obtain ⟨hprocessing, hcalls⟩ := of_decide_eq_true hend
  have hreach : (session [hugePing]).Reachable s := System.Reachable.run
    (.start (begins_of_run hsent hrun ⟨hhandshaked, hphase, hcontents⟩)) hs
  obtain ⟨done, todo, hprogress⟩ := hclaim [hugePing] s hreach
    (by rw [hprocessing]; decide)
  have hnone : done.flatMap Frame.calls = [] := by
    refine flatMap_eq_nil_iff.mpr fun f hf => ?_
    have hmem : f ∈ [hugePing] := hprogress.frames_eq ▸ mem_append_left todo hf
    rw [mem_singleton.mp hmem]
    rfl
  rw [hprogress.calls, hnone] at hcalls
  cases hcalls

end Zstreamer.WebSocket

/-
# What the bit reader reads

`bits_read` gives the next bits as a number and fails when there are not so many.  `bits_ue` reads
the code word at the cursor, when there is one with at most 30 zeros in front, and nothing else.
Both look at the bytes that are there only.
-/

import Zstreamer.H26x.Bits

namespace Zstreamer.H26x

open Foundation List Option

variable {data : List Byte}

/-! ## Fixed widths -/

/-- One turn of the loop of `bits_read`. -/
theorem shift_or_bit {v : BitVec 32} (hv : v.toNat < 2 ^ 31) (b : Bool) :
    (v <<< 1 ||| if b then 1 else 0).toNat = 2 * v.toNat + b.toNat := by
  have hbit : (if b then 1 else 0 : BitVec 32).toNat = b.toNat := by
    cases b <;> rfl
  have hshift : (v <<< 1).toNat = v.toNat <<< 1 := by
    rw [BitVec.toNat_shiftLeft, Nat.shiftLeft_eq, Nat.pow_one]
    omega
  have hsmall : b.toNat < 2 ^ 1 := by
    have hb := Bool.toNat_le b
    omega
  rw [BitVec.toNat_or, hbit, hshift, ← Nat.shiftLeft_add_eq_or_of_lt hsmall, Nat.shiftLeft_eq,
    Nat.pow_one, Nat.mul_comm]

/-- The loop of `bits_read` has read a number. -/
theorem readLoop_toNat {n bit : ℕ} (hn : n ≤ 32) (hinside : bit + n ≤ data.length * 8) :
    ((range n).foldl (fun (v : BitVec 32) i => v <<< 1 ||| if bitAt data (bit + i) then 1 else 0)
      0).toNat = bitsToNat (((bitsOf data).drop bit).take n) := by
  induction n with
  | zero => rfl
  | succ n ih =>
      have hnext : ((bitsOf data).drop bit)[n]? = some (bitAt data (bit + n)) := by
        rw [getElem?_drop, getElem?_bitsOf (by omega)]
        rfl
      have hlength : (((bitsOf data).drop bit).take n).length = n := by
        rw [length_take, length_drop, length_bitsOf]
        omega
      have hsmall : bitsToNat (((bitsOf data).drop bit).take n) < 2 ^ 31 := by
        have hlt := bitsToNat_lt (((bitsOf data).drop bit).take n)
        rw [hlength] at hlt
        exact Nat.lt_of_lt_of_le hlt (Nat.pow_le_pow_right (by omega) (by omega))
      have ih := ih (by omega) (by omega)
      rw [range_succ, foldl_append, foldl_cons, foldl_nil,
        shift_or_bit (by rw [ih]; exact hsmall), ih, take_add_one, hnext, toList_some,
        bitsToNat_concat]

/-- **`bits_read`**: the next bits, when there are so many. -/
theorem bitsRead_eq {n : ℕ} (hn : n ≤ 32) (bit : ℕ) :
    bitsRead data n bit =
      if bit + n ≤ data.length * 8 then
        some (BitVec.ofNat 32 (bitsToNat (((bitsOf data).drop bit).take n)), bit + n)
      else none := by
  rw [bitsRead]
  by_cases hinside : bit + n ≤ data.length * 8
  · rw [if_neg (by omega), if_pos hinside, ← readLoop_toNat hn hinside, BitVec.ofNat_toNat,
      BitVec.setWidth_eq]
  · rw [if_pos (by omega), if_neg hinside]

/-- A number of at most 32 bits that is read is the number that the bits write. -/
theorem toNat_bitsRead {n : ℕ} (hn : n ≤ 32) (bits : List Bool) :
    (BitVec.ofNat 32 (bitsToNat (bits.take n))).toNat = bitsToNat (bits.take n) := by
  have hlt := bitsToNat_lt (bits.take n)
  have hlength : (bits.take n).length ≤ 32 := by
    rw [length_take]
    omega
  have hpow : 2 ^ (bits.take n).length ≤ 2 ^ 32 := Nat.pow_le_pow_right (by omega) hlength
  rw [BitVec.toNat_ofNat, Nat.mod_eq_of_lt (by omega)]

/-- More than 32 bits are never read. -/
theorem bitsRead_wide {n : ℕ} (hn : 32 < n) (bit : ℕ) : bitsRead data n bit = none :=
  if_pos (Or.inl hn)

/-- `bits_read` where every byte that it looks at is to be there: `none` when it looks at
another. -/
def checkedRead (data : List Byte) (n bit : ℕ) : Option (Option (BitVec 32 × ℕ)) :=
  if n > 32 ∨ bit > data.length * 8 ∨ n > data.length * 8 - bit then some none
  else
    ((range n).foldlM (fun (v : BitVec 32) i => data[(bit + i) / 8]?.map fun b =>
      v <<< 1 ||| if b.getMsbD ((bit + i) % 8) then 1 else 0) 0).map fun v => some (v, bit + n)

/-- **`bits_read` looks at the bytes that are there only.** -/
theorem checkedRead_eq (data : List Byte) (n bit : ℕ) :
    checkedRead data n bit = some (bitsRead data n bit) := by
  rw [checkedRead, bitsRead]
  split
  case isTrue => rfl
  case isFalse hread =>
    have hloop : ∀ k ≤ n, ∀ v : BitVec 32,
        (range k).foldlM (fun (v : BitVec 32) i => data[(bit + i) / 8]?.map fun b =>
          v <<< 1 ||| if b.getMsbD ((bit + i) % 8) then 1 else 0) v =
        some ((range k).foldl (fun (v : BitVec 32) i =>
          v <<< 1 ||| if bitAt data (bit + i) then 1 else 0) v) := by
      intro k hk v
      induction k with
      | zero => rfl
      | succ k ih =>
          have hin : (bit + k) / 8 < data.length := by omega
          rw [range_succ, foldlM_append, ih (by omega), foldl_append]
          simp only [bind_eq_bind, bind_some, foldlM_cons, foldlM_nil,
            foldl_cons, foldl_nil, bitAt, getElem?_eq_getElem hin, map_some,
            List.getD_eq_getElem _ _ hin, Option.pure_def]
    rw [hloop n (Nat.le_refl n)]
    rfl

/-- One bit. -/
theorem bitsRead_one (bit : ℕ) :
    bitsRead data 1 bit =
      ((bitsOf data).drop bit).head?.map fun b => (if b then 1 else 0, bit + 1) := by
  rw [bitsRead_eq (by omega)]
  split
  case isTrue hinside =>
    have hin : bit < (bitsOf data).length := by
      rw [length_bitsOf]
      omega
    rw [drop_eq_getElem_cons hin]
    cases (bitsOf data)[bit] <;> rfl
  case isFalse hinside =>
    rw [drop_eq_nil_of_le (by rw [length_bitsOf]; omega)]
    rfl

/-! ## Code words -/

/-- The loop of `bits_ue`, where the next bit is a zero or a one. -/
theorem zerosFrom_succ (left zeros bit : ℕ) :
    zerosFrom data (left + 1) zeros bit =
      match ((bitsOf data).drop bit).head? with
      | none => none
      | some true => some (zeros, bit + 1)
      | some false => zerosFrom data left (zeros + 1) (bit + 1) := by
  rw [zerosFrom]
  show ((bitsRead data 1 bit).bind fun p =>
    (if p.1 ≠ 0 then return zeros else zerosFrom data left (zeros + 1) : Reader ℕ) p.2) = _
  rw [bitsRead_one]
  cases ((bitsOf data).drop bit).head? with
  | none => rfl
  | some b => cases b <;> rfl

/-- The loop of `bits_ue` finds the first one, if it is there in time. -/
theorem zerosFrom_iff {left zeros bit z next : ℕ} :
    zerosFrom data left zeros bit = some (z, next) ↔
      ∃ k < left, z = zeros + k ∧ next = bit + (k + 1) ∧
        replicate k false ++ [true] <+: (bitsOf data).drop bit := by
  induction left generalizing zeros bit with
  | zero =>
      have hfail : zerosFrom data 0 zeros bit = none := rfl
      rw [hfail]
      exact ⟨fun h => absurd h (by simp), fun ⟨_, h, _⟩ => absurd h (Nat.not_lt_zero _)⟩
  | succ left ih =>
      rw [zerosFrom_succ]
      have hnext : (bitsOf data).drop (bit + 1) = ((bitsOf data).drop bit).tail := by
        rw [tail_drop]
      cases hrest : (bitsOf data).drop bit with
      | nil =>
          refine ⟨fun h => absurd h (by simp), ?_⟩
          rintro ⟨k, -, -, -, hprefix⟩
          have hnil := prefix_nil.mp hprefix
          exact absurd (congrArg List.length hnil) (by simp)
      | cons b rest =>
          rw [hrest, tail_cons] at hnext
          cases b with
          | true =>
              show some (zeros, bit + 1) = some (z, next) ↔ _
              constructor
              · intro h
                cases h
                exact ⟨0, Nat.succ_pos _, rfl, rfl, cons_prefix_cons.mpr ⟨rfl, nil_prefix⟩⟩
              · rintro ⟨k, -, hz, hbit, hprefix⟩
                cases k with
                | zero =>
                    rw [hz, hbit]
                    rfl
                | succ k =>
                    rw [replicate_succ, cons_append] at hprefix
                    exact absurd (cons_prefix_cons.mp hprefix).1 (by decide)
          | false =>
              show zerosFrom data left (zeros + 1) (bit + 1) = some (z, next) ↔ _
              rw [ih, hnext]
              constructor
              · rintro ⟨k, hk, hz, hbit, hprefix⟩
                refine ⟨k + 1, by omega, by omega, by omega, ?_⟩
                rw [replicate_succ, cons_append]
                exact cons_prefix_cons.mpr ⟨rfl, hprefix⟩
              · rintro ⟨k, hk, hz, hbit, hprefix⟩
                cases k with
                | zero => exact absurd (cons_prefix_cons.mp hprefix).1 (by decide)
                | succ k =>
                    rw [replicate_succ, cons_append] at hprefix
                    exact ⟨k, by omega, by omega, by omega, (cons_prefix_cons.mp hprefix).2⟩

/-- What is in front, and then so many bits. -/
theorem prefix_append_iff {front word l : List Bool} :
    front ++ word <+: l ↔ front <+: l ∧ word <+: l.drop front.length := by
  constructor
  · rintro ⟨rest, rfl⟩
    refine ⟨⟨word ++ rest, (append_assoc _ _ _).symm⟩, rest, ?_⟩
    rw [append_assoc, drop_left]
  · rintro ⟨⟨rest, rfl⟩, hword⟩
    rw [drop_left] at hword
    exact (prefix_append_right_inj front).mpr hword

/-- The value of a code word with at most 30 zeros does not wrap around. -/
theorem toNat_codeValue {suffix : List Bool} (h : suffix.length ≤ 30) :
    ((1 : BitVec 32) <<< suffix.length - 1 + BitVec.ofNat 32 (bitsToNat suffix)).toNat =
      codeValue suffix := by
  have hlt := bitsToNat_lt suffix
  have hpow : 2 ^ suffix.length ≤ 2 ^ 30 := Nat.pow_le_pow_right (by omega) h
  have hpos : 0 < 2 ^ suffix.length := Nat.two_pow_pos _
  have hone : ((1 : BitVec 32) <<< suffix.length).toNat = 2 ^ suffix.length := by
    rw [BitVec.toNat_shiftLeft, Nat.shiftLeft_eq]
    show 1 * _ % _ = _
    rw [Nat.one_mul, Nat.mod_eq_of_lt (by omega)]
  have hsub : ((1 : BitVec 32) <<< suffix.length - 1).toNat = 2 ^ suffix.length - 1 := by
    rw [BitVec.toNat_sub, hone]
    show (2 ^ 32 - 1 + _) % _ = _
    omega
  rw [BitVec.toNat_add, hsub, BitVec.toNat_ofNat, codeValue]
  omega

/-- **`bits_ue`**: the code word at the cursor. -/
theorem bitsUe_iff {bit next : ℕ} {x : BitVec 32} :
    bitsUe data bit = some (x, next) ↔
      ∃ suffix : List Bool, suffix.length ≤ 30 ∧ codeWord suffix <+: (bitsOf data).drop bit ∧
        x.toNat = codeValue suffix ∧ next = bit + (codeWord suffix).length := by
  have hdef : bitsUe data bit = (zerosFrom data 31 0 bit).bind fun p =>
      (bitsRead data p.1 p.2).bind fun q => some ((1 : BitVec 32) <<< p.1 - 1 + q.1, q.2) := rfl
  rw [hdef, bind_eq_some_iff]
  constructor
  · rintro ⟨⟨zeros, behind⟩, hzeros, hread⟩
    obtain ⟨k, hk, hz, hbehind, hstarts⟩ := zerosFrom_iff.mp hzeros
    rw [Nat.zero_add] at hz
    obtain ⟨⟨value, last⟩, hvalue, hlast⟩ := bind_eq_some_iff.mp hread
    rw [hz, hbehind, bitsRead_eq (by omega)] at hvalue
    split at hvalue
    case isFalse => exact absurd hvalue (by simp)
    case isTrue hinside =>
      obtain ⟨hvalue, hend⟩ := Prod.mk.inj (Option.some.inj hvalue)
      obtain ⟨hx, hnext⟩ := Prod.mk.inj (Option.some.inj hlast)
      have hlength : (((bitsOf data).drop (bit + (k + 1))).take k).length = k := by
        rw [length_take, length_drop, length_bitsOf]
        omega
      refine ⟨((bitsOf data).drop (bit + (k + 1))).take k, by omega, ?_, ?_, ?_⟩
      · rw [codeWord, hlength, append_cons, prefix_append_iff, length_append,
          length_replicate, length_singleton, drop_drop]
        exact ⟨hstarts, take_prefix _ _⟩
      · rw [← hx, ← hvalue, hz, ← toNat_codeValue (by omega), hlength]
      · rw [length_codeWord, hlength]
        omega
  · rintro ⟨suffix, hshort, hprefix, hx, hnext⟩
    rw [codeWord, append_cons, prefix_append_iff, length_append, length_replicate,
      length_singleton, drop_drop] at hprefix
    refine ⟨(suffix.length, bit + (suffix.length + 1)),
      zerosFrom_iff.mpr ⟨suffix.length, by omega, (Nat.zero_add _).symm, rfl, hprefix.1⟩, ?_⟩
    have hinside : bit + (suffix.length + 1) + suffix.length ≤ data.length * 8 := by
      have hle := hprefix.2.length_le
      rw [length_drop, length_bitsOf] at hle
      by_cases hzero : suffix.length = 0
      · have hone := hprefix.1.length_le
        rw [length_append, length_replicate, length_singleton, length_drop,
          length_bitsOf] at hone
        omega
      · omega
    have htake : ((bitsOf data).drop (bit + (suffix.length + 1))).take suffix.length = suffix := by
      obtain ⟨rest, hrest⟩ := hprefix.2
      rw [← hrest, take_left]
    show ((bitsRead data suffix.length _).bind _) = _
    rw [bitsRead_eq (by omega), if_pos hinside, htake, bind_some]
    congr 2
    · refine BitVec.eq_of_toNat_eq ?_
      rw [hx, ← toNat_codeValue hshort]
    · rw [hnext, length_codeWord]
      omega

/-! ## What is written is read -/

/-- Where these bits are next, the reader gives this and goes behind them. -/
def Reads {α : Type} (data : List Byte) (reader : Reader α) (bits : List Bool) (x : α) : Prop :=
  ∀ bit, bits <+: (bitsOf data).drop bit → reader bit = some (x, bit + bits.length)

namespace Reads

variable {α β : Type} {reader : Reader α} {bits : List Bool} {x : α}

theorem pure (x : α) : Reads data (Pure.pure x) [] x := fun _ _ => rfl

theorem bind {next : α → Reader β} {later : List Bool} {y : β} (h : Reads data reader bits x)
    (hnext : Reads data (next x) later y) : Reads data (reader >>= next) (bits ++ later) y := by
  intro bit hprefix
  obtain ⟨hfirst, hlater⟩ := prefix_append_iff.mp hprefix
  rw [drop_drop] at hlater
  show ((reader bit).bind fun p => next p.1 p.2) = _
  rw [h bit hfirst, bind_some, hnext _ hlater, length_append, Nat.add_assoc]

theorem skip (h : Reads data reader bits x) : Reads data (H26x.skip reader) bits () := by
  intro bit hprefix
  show ((reader bit).bind fun p => some ((), p.2)) = _
  rw [h bit hprefix]
  rfl

/-- A reader whose call is made only under a condition. -/
theorem optional {c d : Prop} [Decidable c] [Decidable d] {reader : Reader Unit} {x : α}
    (hcd : c ↔ d) (h : d → Reads data reader bits ()) {next : Unit → Reader α} {later : List Bool}
    (hnext : Reads data (next ()) later x) :
    Reads data (if c then reader >>= next else next ()) ((if d then bits else []) ++ later) x := by
  by_cases hd : d
  · rw [if_pos (hcd.mpr hd), if_pos hd]
    exact (h hd).bind hnext
  · rw [if_neg fun hc => hd (hcd.mp hc), if_neg hd]
    exact hnext

end Reads

/-- Where these bits are next, one reader does what another does behind them. -/
def Continues {α : Type} (data : List Byte) (reader : Reader α) (bits : List Bool)
    (later : Reader α) : Prop :=
  ∀ bit, bits <+: (bitsOf data).drop bit → reader bit = later (bit + bits.length)

namespace Continues

variable {α β : Type} {reader : Reader α} {bits : List Bool} {x : α}

theorem of_reads (h : Reads data reader bits x) (next : α → Reader β) :
    Continues data (reader >>= next) bits (next x) := by
  intro bit hprefix
  show ((reader bit).bind fun p => next p.1 p.2) = _
  rw [h bit hprefix]
  rfl

theorem trans {first second third : Reader α} {later : List Bool}
    (h : Continues data first bits second) (hlater : Continues data second later third) :
    Continues data first (bits ++ later) third := by
  intro bit hprefix
  obtain ⟨hfirst, hsecond⟩ := prefix_append_iff.mp hprefix
  rw [drop_drop] at hsecond
  rw [h bit hfirst, hlater _ hsecond, length_append, Nat.add_assoc]

/-- A reader whose call is made only under a condition. -/
theorem optional {c d : Prop} [Decidable c] [Decidable d] {reader : Reader Unit} (hcd : c ↔ d)
    (h : d → Reads data reader bits ()) (next : Unit → Reader α) :
    Continues data (if c then reader >>= next else next ()) (if d then bits else []) (next ()) := by
  by_cases hd : d
  · rw [if_pos (hcd.mpr hd), if_pos hd]
    exact of_reads (h hd) next
  · rw [if_neg fun hc => hd (hcd.mp hc), if_neg hd]
    exact fun _ _ => rfl

end Continues

/-- A number of at most 32 bits. -/
theorem reads_fixed {n v : ℕ} (hpos : 0 < n) (hn : n ≤ 32) (hv : v < 2 ^ n) :
    Reads data (bitsRead data n) (fixed n v) (BitVec.ofNat 32 v) := by
  intro bit hprefix
  have hle := hprefix.length_le
  rw [length_fixed, length_drop, length_bitsOf] at hle
  obtain ⟨rest, hrest⟩ := hprefix
  have htake : ((bitsOf data).drop bit).take n = fixed n v := by
    rw [← hrest, take_left' (length_fixed n v)]
  rw [bitsRead_eq hn, htake, bitsToNat_fixed hv, length_fixed, if_pos (by omega)]

/-- A flag. -/
theorem reads_flag (b : Bool) : Reads data (bitsRead data 1) [b] (if b then 1 else 0) := by
  intro bit hprefix
  obtain ⟨rest, hrest⟩ := hprefix
  rw [bitsRead_one, ← hrest]
  rfl

/-- A value below `2 ^ 31 - 1`. -/
theorem reads_expGolomb {v : ℕ} (hv : v < 2 ^ 31 - 1) :
    Reads data (bitsUe data) (expGolomb v) (BitVec.ofNat 32 v) := by
  intro bit hprefix
  refine bitsUe_iff.mpr ⟨codeSuffix v, ?_, hprefix, ?_, rfl⟩
  · exact Nat.le_of_lt_succ (length_codeSuffix_lt (by omega))
  · rw [codeValue_codeSuffix, BitVec.toNat_ofNat, Nat.mod_eq_of_lt (by omega)]

/-- Several values that are skipped. -/
theorem reads_skipped {values : List ℕ} (h : ∀ v ∈ values, v < 2 ^ 31 - 1) :
    Reads data (times values.length (bitsUe data)) (values.flatMap expGolomb) () := by
  induction values with
  | nil => exact Reads.pure ()
  | cons v values ih =>
      rw [forall_mem_cons] at h
      exact (reads_expGolomb h.1).skip.bind (ih h.2)

/-- So many values. -/
def readUes (data : List Byte) : ℕ → Reader (List (BitVec 32))
  | 0 => pure []
  | n + 1 => do
      let value ← bitsUe data
      let later ← readUes data n
      return value :: later

/-- The code words of values are read one by one. -/
theorem reads_expGolombs {values : List ℕ} (h : ∀ v ∈ values, v < 2 ^ 31 - 1) :
    Reads data (readUes data values.length) (values.flatMap expGolomb)
      (values.map (BitVec.ofNat 32)) := by
  induction values with
  | nil => exact Reads.pure _
  | cons v values ih =>
      rw [forall_mem_cons] at h
      have hlater : Reads data
          (readUes data values.length >>= fun later => pure (BitVec.ofNat 32 v :: later))
          (values.flatMap expGolomb ++ []) ((v :: values).map (BitVec.ofNat 32)) :=
        (ih h.2).bind (Reads.pure _)
      rw [append_nil] at hlater
      exact (reads_expGolomb h.1).bind hlater

/-- What the two functions do at every cursor. -/
structure ReadsBits (data : List Byte) : Prop where
  fixedWidth : ∀ n ≤ 32, ∀ bit, bit + n ≤ data.length * 8 →
    ∃ x, bitsRead data n bit = some (x, bit + n) ∧
      x.toNat = bitsToNat (((bitsOf data).drop bit).take n)
  short : ∀ n ≤ 32, ∀ bit, bitsRead data n bit = none ↔ data.length * 8 < bit + n
  inside : ∀ n bit, checkedRead data n bit = some (bitsRead data n bit)
  code : ∀ bit x next, bitsUe data bit = some (x, next) ↔
    ∃ suffix : List Bool, suffix.length ≤ 30 ∧ codeWord suffix <+: (bitsOf data).drop bit ∧
      x.toNat = codeValue suffix ∧ next = bit + (codeWord suffix).length
  codes : ∀ values : List ℕ, (∀ v ∈ values, v < 2 ^ 31 - 1) → ∀ bit,
    values.flatMap expGolomb <+: (bitsOf data).drop bit →
      readUes data values.length bit =
        some (values.map (BitVec.ofNat 32), bit + (values.flatMap expGolomb).length)

/-- **Exp-Golomb reading.** -/
theorem readsBits (data : List Byte) : ReadsBits data where
  fixedWidth n hn bit hinside := by
    rw [bitsRead_eq hn, if_pos hinside]
    exact ⟨_, rfl, toNat_bitsRead hn _⟩
  short n hn bit := by
    rw [bitsRead_eq hn]
    split
    case isTrue hinside => exact ⟨fun h => absurd h (by simp), fun h => absurd hinside (by omega)⟩
    case isFalse hinside => exact ⟨fun _ => by omega, fun _ => rfl⟩
  inside := checkedRead_eq data
  code _ _ _ := bitsUe_iff
  codes _ h := reads_expGolombs h

end Zstreamer.H26x

/-! # Emulation prevention

What an encoder does with the bytes behind the header of a NAL unit, so that no start code stands in
them: a three is put in front of every byte up to three that is behind two zeros.  `rbsp_from_nal`
takes it out.
-/

namespace Zstreamer.H26x

open Foundation List Option

/-- The bytes with the threes, behind so many zeros. -/
def escape : ℕ → List Byte → List Byte
  | _, [] => []
  | zeros, b :: rest =>
      if zeros ≥ 2 ∧ b ≤ 3 then 3 :: b :: escape (if b = 0 then 1 else 0) rest
      else b :: escape (if b = 0 then zeros + 1 else 0) rest

/-- A three that was put there is taken out: the byte behind it is at most three. -/
theorem unescape_inserted {zeros : ℕ} (hzeros : zeros ≥ 2) {b : Byte} (hb : b ≤ 3)
    (rest : List Byte) : unescape zeros (3 :: b :: rest) = unescape 0 (b :: rest) := by
  conv_lhs => rw [unescape]
  exact if_pos ⟨hzeros, rfl, cons_ne_nil _ _, hb⟩

/-- Every other byte is kept. -/
theorem unescape_kept {zeros : ℕ} {b : Byte} (h : ¬ (zeros ≥ 2 ∧ b ≤ 3)) (rest : List Byte) :
    unescape zeros (b :: rest) = b :: unescape (if b = 0 then zeros + 1 else 0) rest := by
  rw [unescape, if_neg]
  rintro ⟨hzeros, rfl, -, -⟩
  exact h ⟨hzeros, by decide⟩

/-- The zeros are counted alike on both sides. -/
theorem unescape_escape (zeros : ℕ) (r : List Byte) : unescape zeros (escape zeros r) = r := by
  induction r generalizing zeros with
  | nil => rfl
  | cons b r ih =>
      rw [escape]
      split
      case isTrue h =>
        rw [unescape_inserted h.1 h.2, unescape_kept (by simp), ih]
      case isFalse h => rw [unescape_kept h, ih]

theorem escape_ne_nil {zeros : ℕ} {r : List Byte} (hr : r ≠ []) : escape zeros r ≠ [] := by
  obtain ⟨b, rest, rfl⟩ := exists_cons_of_ne_nil hr
  rw [escape]
  split
  case isTrue => exact cons_ne_nil _ _
  case isFalse => exact cons_ne_nil _ _

/-- What is behind the header comes back. -/
theorem rbspFromNal_append (header : List Byte) {r : List Byte} (hr : r ≠ []) :
    rbspFromNal (header ++ escape 0 r) header.length = some r := by
  have hpos : 0 < (escape 0 r).length := length_pos_of_ne_nil (escape_ne_nil hr)
  rw [rbspFromNal, length_append, if_neg (by omega), drop_left, unescape_escape]

/-- **Unescaping inverts emulation prevention**, behind any header. -/
theorem rbspFromNal_escape (header r : List Byte) (hr : r ≠ []) :
    rbspFromNal (header ++ escape 0 r) header.length = some r :=
  rbspFromNal_append header hr

/-- Three zeros, a three and a one. -/
theorem rbspFromNal_escape_zeros :
    rbspFromNal ([0x67] ++ escape 0 [0, 0, 0, 3, 1]) [(0x67 : Byte)].length =
      some [0, 0, 0, 3, 1] :=
  rbspFromNal_escape [0x67] [0, 0, 0, 3, 1] (cons_ne_nil _ _)

/-! ## A NAL unit with a syntax structure -/

/-- The bits with a one and zeros behind them, so that they are whole bytes. -/
def withTrailing (bits : List Bool) : List Bool :=
  bits ++ true :: replicate (7 - bits.length % 8) false

theorem length_withTrailing (bits : List Bool) :
    (withTrailing bits).length = (bits.length / 8 + 1) * 8 := by
  rw [withTrailing, length_append, length_cons, length_replicate]
  omega

/-- The NAL unit with this header and these bits. -/
def nalUnit (header : List Byte) (bits : List Bool) : List Byte :=
  header ++ escape 0 (packBits (bits.length / 8 + 1) (withTrailing bits))

/-- What a reader reads of the NAL unit it reads of bytes that begin with the bits. -/
theorem readNal_nalUnit {α : Type} (header : List Byte) (bits : List Bool)
    (reader : List Byte → Reader α) :
    ∃ data, bits <+: bitsOf data ∧
      readNal (nalUnit header bits) header.length reader = (reader data 0).map Prod.fst := by
  refine ⟨packBits (bits.length / 8 + 1) (withTrailing bits), ?_, ?_⟩
  · rw [bitsOf_packBits (length_withTrailing bits)]
    exact prefix_append _ _
  · rw [readNal, nalUnit]
    generalize hbytes : packBits (bits.length / 8 + 1) (withTrailing bits) = bytes
    have hne : bytes ≠ [] := by
      rw [← hbytes]
      exact cons_ne_nil _ _
    rw [rbspFromNal_append header hne]
    rfl

/-- **A NAL unit is read as far as the reader goes on.** -/
theorem readNal_of_continues {α : Type} {header : List Byte} {bits : List Bool}
    {reader later : List Byte → Reader α}
    (h : ∀ data, Continues data (reader data) bits (later data)) (more : List Bool) :
    ∃ data, readNal (nalUnit header (bits ++ more)) header.length reader =
      (later data bits.length).map Prod.fst := by
  obtain ⟨data, hbits, hread⟩ := readNal_nalUnit header (bits ++ more) reader
  refine ⟨data, ?_⟩
  rw [hread, h data 0 ((prefix_append _ _).trans hbits), Nat.zero_add]

end Zstreamer.H26x

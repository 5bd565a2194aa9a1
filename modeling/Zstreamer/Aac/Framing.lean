/-
# ADTS framing

`aac_parser.c` puts a header of seven bytes in front of each AAC access unit, from what the audio
specific config says.  An access unit that looks like an ADTS frame is handed on as it is.

The fields of the header are read back from its bits.
-/

import Zstreamer.Foundation.Bits

namespace Zstreamer.Aac

open Foundation

/-! ## The functions -/

/-- `hex_value` -/
def hexValue (c : Byte) : Option ℕ :=
  if 0x30 ≤ c ∧ c ≤ 0x39 then some (c.toNat - 0x30)
  else if 0x61 ≤ c ∧ c ≤ 0x66 then some (c.toNat - 0x61 + 10)
  else if 0x41 ≤ c ∧ c ≤ 0x46 then some (c.toNat - 0x41 + 10)
  else none

/-- `aac_parser_t`, without the pads. -/
structure AacParser where
  profile : ℕ
  frequencyIndex : ℕ
  channels : ℕ
  deriving DecidableEq, Repr

/-- Two bytes, as four hexadecimal digits write them. -/
def hexBytes : List Byte → Option (ℕ × ℕ)
  | c₀ :: c₁ :: c₂ :: c₃ :: _ => do
      let h0 ← hexValue c₀
      let l0 ← hexValue c₁
      let h1 ← hexValue c₂
      let l1 ← hexValue c₃
      return (h0 <<< 4 ||| l0, h1 <<< 4 ||| l1)
  | _ => none

/-- `parse_audio_specific_config` -/
def parseAudioSpecificConfig (hex : List Byte) : Option AacParser :=
  if hex.length < 4 ∨ hex.length % 2 = 1 then none
  else do
    let (byte0, byte1) ← hexBytes hex
    let objectType := byte0 >>> 3
    let frequencyIndex := (byte0 &&& 7) <<< 1 ||| byte1 >>> 7
    let channels := byte1 >>> 3 &&& 15
    if objectType < 1 ∨ objectType > 4 ∨ frequencyIndex > 12 ∨ channels < 1 ∨ channels > 7 then none
    else some ⟨objectType - 1, frequencyIndex, channels⟩

/-- `zst_buffer_t`, as far as the parser looks at it. -/
structure Buffer where
  data : List Byte
  pts : BitVec 64
  dts : BitVec 64
  duration : BitVec 64
  flags : BitVec 32
  deriving DecidableEq, Repr

/-- Whether an access unit is taken for an ADTS frame. -/
def alreadyAdts (src : List Byte) : Bool :=
  src.length ≥ 2 ∧ src.getD 0 0 = 0xff ∧ src.getD 1 0 &&& 0xf6 = 0xf0

/-- The seven bytes in front of an access unit. -/
def adtsHeader (s : AacParser) (frameLength : ℕ) : List Byte :=
  [0xff, 0xf1,
    BitVec.ofNat 8 (s.profile <<< 6 ||| s.frequencyIndex <<< 2 ||| s.channels >>> 2),
    BitVec.ofNat 8 ((s.channels &&& 3) <<< 6 ||| frameLength >>> 11),
    BitVec.ofNat 8 (frameLength >>> 3),
    BitVec.ofNat 8 ((frameLength &&& 7) <<< 5 ||| 0x1f),
    0xfc]

/-- `aac_parser_process` as far as the buffer that is pushed, or given to the caller; `none` is an
error.  `config` is what the caps of the sink pad say, `grants` whether there is memory for the
buffer and its data. -/
def process (s : AacParser) (config : Option (List Byte)) (grants : Bool × Bool) (input : Buffer) :
    AacParser × Option Buffer :=
  if input.data.length = 0 then (s, none)
  else
    match (if s.channels = 0 then config.bind parseAudioSpecificConfig else some s) with
    | none => (s, none)
    | some s =>
        let size := input.data.length
        let already := alreadyAdts input.data
        let headerSize := if already then 0 else 7
        if already = false ∧ size > 8184 then (s, none)
        else if grants.1 = false ∨ grants.2 = false then (s, none)
        else
          (s, some
            { input with
              data := (if already then [] else adtsHeader s (size + headerSize)) ++ input.data })

/-! ## The fields -/

/-- The number in so many bits from one on. -/
def field (data : List Byte) (first width : ℕ) : ℕ :=
  bitsToNat (((bitsOf data).drop first).take width)

/-- What an audio specific config of two bytes says. -/
structure AudioConfig where
  objectType : ℕ
  samplingFrequencyIndex : ℕ
  channelConfiguration : ℕ
  deriving DecidableEq, Repr

def readAudioConfig (data : List Byte) : AudioConfig :=
  ⟨field data 0 5, field data 5 4, field data 9 4⟩

/-- An ADTS header. -/
structure AdtsFields where
  syncword : ℕ
  id : ℕ
  layer : ℕ
  protectionAbsent : ℕ
  profile : ℕ
  samplingFrequencyIndex : ℕ
  channelConfiguration : ℕ
  frameLength : ℕ
  bufferFullness : ℕ
  dataBlocks : ℕ
  deriving DecidableEq, Repr

def readAdts (data : List Byte) : AdtsFields where
  syncword := field data 0 12
  id := field data 12 1
  layer := field data 13 2
  protectionAbsent := field data 15 1
  profile := field data 16 2
  samplingFrequencyIndex := field data 18 4
  channelConfiguration := field data 23 3
  frameLength := field data 30 13
  bufferFullness := field data 43 11
  dataBlocks := field data 54 2

/-! ## The config -/

/-- The fields of a config that is accepted are in their ranges. -/
structure InRange (s : AacParser) : Prop where
  profile : s.profile < 4
  frequencyIndex : s.frequencyIndex < 13
  channels : 1 ≤ s.channels ∧ s.channels < 8

theorem hexValue_lt {c : Byte} {v : ℕ} (h : hexValue c = some v) : v < 16 := by
  rw [hexValue] at h
  split at h
  case isTrue hc =>
    have hhigh : c.toNat ≤ 0x39 := hc.2
    have hv := Option.some.inj h
    omega
  case isFalse =>
    split at h
    case isTrue hc =>
      have hhigh : c.toNat ≤ 0x66 := hc.2
      have hv := Option.some.inj h
      omega
    case isFalse =>
      split at h
      case isTrue hc =>
        have hhigh : c.toNat ≤ 0x46 := hc.2
        have hv := Option.some.inj h
        omega
      case isFalse => exact absurd h (by simp)

theorem hexBytes_lt {hex : List Byte} {byte0 byte1 : ℕ} (h : hexBytes hex = some (byte0, byte1)) :
    byte0 < 256 ∧ byte1 < 256 := by
  have hpair : ∀ high < 16, ∀ low < 16, high <<< 4 ||| low < 256 := by decide
  match hex, h with
  | c₀ :: c₁ :: c₂ :: c₃ :: _, h =>
      simp only [hexBytes, Option.bind_eq_bind, Option.bind_eq_some_iff] at h
      obtain ⟨h0, hh0, l0, hl0, h1, hh1, l1, hl1, hbytes⟩ := h
      cases hbytes
      exact ⟨hpair _ (hexValue_lt hh0) _ (hexValue_lt hl0),
        hpair _ (hexValue_lt hh1) _ (hexValue_lt hl1)⟩

/-- The three fields are those of the config. -/
theorem readAudioConfig_eq {byte0 byte1 : ℕ} (h0 : byte0 < 256) (h1 : byte1 < 256) :
    readAudioConfig [BitVec.ofNat 8 byte0, BitVec.ofNat 8 byte1] =
      ⟨byte0 >>> 3, (byte0 &&& 7) <<< 1 ||| byte1 >>> 7, byte1 >>> 3 &&& 15⟩ := by
  have hfirst : ∀ b < 256, bitsToNat ((byteBits (BitVec.ofNat 8 b)).take 5) = b >>> 3 ∧
      bitsToNat ((byteBits (BitVec.ofNat 8 b)).drop 5) = b &&& 7 := by decide +kernel
  have hsecond : ∀ b < 256, bitsToNat ((byteBits (BitVec.ofNat 8 b)).take 1) = b >>> 7 ∧
      bitsToNat (((byteBits (BitVec.ofNat 8 b)).drop 1).take 4) = b >>> 3 &&& 15 := by
    decide +kernel
  have hor : ∀ high, ∀ low < 2, high * 2 + low = high <<< 1 ||| low := by
    intro high low hlow
    rw [← Nat.shiftLeft_add_eq_or_of_lt (by omega), Nat.shiftLeft_eq, Nat.pow_one]
  have hobject : field [BitVec.ofNat 8 byte0, BitVec.ofNat 8 byte1] 0 5 = byte0 >>> 3 :=
    (hfirst byte0 h0).1
  have hchannels : field [BitVec.ofNat 8 byte0, BitVec.ofNat 8 byte1] 9 4 = byte1 >>> 3 &&& 15 :=
    (hsecond byte1 h1).2
  have hindex : field [BitVec.ofNat 8 byte0, BitVec.ofNat 8 byte1] 5 4 =
      (byte0 &&& 7) <<< 1 ||| byte1 >>> 7 := by
    have hbits : ((bitsOf [BitVec.ofNat 8 byte0, BitVec.ofNat 8 byte1]).drop 5).take 4 =
        (byteBits (BitVec.ofNat 8 byte0)).drop 5 ++ (byteBits (BitVec.ofNat 8 byte1)).take 1 := rfl
    have hlow : byte1 >>> 7 < 2 := by
      rw [Nat.shiftRight_eq_div_pow]
      omega
    rw [field, hbits, bitsToNat_append, (hfirst byte0 h0).2, (hsecond byte1 h1).1]
    exact hor _ _ hlow
  rw [readAudioConfig, hobject, hindex, hchannels]

/-- What is accepted: the object type, the frequency index and the channels of the config. -/
theorem parseAudioSpecificConfig_spec {hex : List Byte} {s : AacParser}
    (h : parseAudioSpecificConfig hex = some s) :
    InRange s ∧ ∃ byte0 byte1, hexBytes hex = some (byte0, byte1) ∧
      readAudioConfig [BitVec.ofNat 8 byte0, BitVec.ofNat 8 byte1] =
        ⟨s.profile + 1, s.frequencyIndex, s.channels⟩ := by
  rw [parseAudioSpecificConfig] at h
  split at h
  case isTrue => exact absurd h (by simp)
  case isFalse =>
    obtain ⟨⟨byte0, byte1⟩, hbytes, h⟩ := Option.bind_eq_some_iff.mp h
    obtain ⟨h0, h1⟩ := hexBytes_lt hbytes
    dsimp only at h
    split at h
    case isTrue => exact absurd h (by simp)
    case isFalse hrange =>
      cases h
      refine ⟨⟨?_, ?_, ?_, ?_⟩, byte0, byte1, hbytes, ?_⟩
      · show byte0 >>> 3 - 1 < 4
        omega
      · show (byte0 &&& 7) <<< 1 ||| byte1 >>> 7 < 13
        omega
      · show 1 ≤ byte1 >>> 3 &&& 15
        omega
      · show byte1 >>> 3 &&& 15 < 8
        omega
      · rw [readAudioConfig_eq h0 h1]
        dsimp only
        rw [Nat.sub_add_cancel (by omega)]

/-! ## The header -/

/-- The bytes of the header in which the fields of the config stand. -/
theorem bits_config {profile index channels : ℕ} (hprofile : profile < 4) (hindex : index < 13)
    (hchannels : channels < 8) :
    byteBits (BitVec.ofNat 8 (profile <<< 6 ||| index <<< 2 ||| channels >>> 2)) =
      fixed 2 profile ++ fixed 4 index ++ [false] ++ fixed 1 (channels / 4) := by
  have hall : ∀ profile < 4, ∀ index < 13, ∀ channels < 8,
      byteBits (BitVec.ofNat 8 (profile <<< 6 ||| index <<< 2 ||| channels >>> 2)) =
        fixed 2 profile ++ fixed 4 index ++ [false] ++ fixed 1 (channels / 4) := by decide +kernel
  exact hall profile hprofile index hindex channels hchannels

/-- The bytes of the header in which the frame length stands. -/
theorem bits_length {channels frameLength : ℕ} (hchannels : channels < 8)
    (hlength : frameLength < 2 ^ 13) :
    byteBits (BitVec.ofNat 8 ((channels &&& 3) <<< 6 ||| frameLength >>> 11)) =
        fixed 2 (channels % 4) ++ [false, false, false, false] ++ fixed 2 (frameLength / 2048) ∧
      byteBits (BitVec.ofNat 8 (frameLength >>> 3)) = fixed 8 (frameLength / 8 % 256) ∧
      byteBits (BitVec.ofNat 8 ((frameLength &&& 7) <<< 5 ||| 0x1f)) =
        fixed 3 (frameLength % 8) ++ [true, true, true, true, true] := by
  have hhigh : ∀ channels < 8, ∀ high < 4,
      byteBits (BitVec.ofNat 8 ((channels &&& 3) <<< 6 ||| high)) =
        fixed 2 (channels % 4) ++ [false, false, false, false] ++ fixed 2 high := by decide +kernel
  have hmiddle : ∀ middle < 256, byteBits (BitVec.ofNat 8 middle) = fixed 8 middle := by
    decide +kernel
  have hlow : ∀ low < 8, byteBits (BitVec.ofNat 8 (low <<< 5 ||| 0x1f)) =
      fixed 3 low ++ [true, true, true, true, true] := by decide +kernel
  refine ⟨?_, ?_, ?_⟩
  · rw [Nat.shiftRight_eq_div_pow]
    exact hhigh channels hchannels _ (by omega)
  · have hwrap : BitVec.ofNat 8 (frameLength >>> 3) = BitVec.ofNat 8 (frameLength / 8 % 256) := by
      refine BitVec.eq_of_toNat_eq ?_
      rw [BitVec.toNat_ofNat, BitVec.toNat_ofNat, Nat.shiftRight_eq_div_pow]
      omega
    rw [hwrap]
    exact hmiddle _ (by omega)
  · rw [show frameLength &&& 7 = frameLength % 8 from Nat.and_two_pow_sub_one_eq_mod frameLength 3]
    exact hlow _ (by omega)

/-- The bits of the header, and of what is behind it. -/
theorem bits_header {s : AacParser} (hs : InRange s) {frameLength : ℕ}
    (hlength : frameLength < 2 ^ 13) (au : List Byte) :
    bitsOf (adtsHeader s frameLength ++ au) =
      fixed 12 0xfff ++ fixed 1 0 ++ fixed 2 0 ++ fixed 1 1 ++ fixed 2 s.profile ++
        fixed 4 s.frequencyIndex ++ [false] ++ (fixed 1 (s.channels / 4) ++
          fixed 2 (s.channels % 4)) ++ fixed 4 0 ++ (fixed 2 (frameLength / 2048) ++
            fixed 8 (frameLength / 8 % 256) ++ fixed 3 (frameLength % 8)) ++ fixed 11 0x7ff ++
              fixed 2 0 ++ bitsOf au := by
  obtain ⟨hhigh, hmiddle, hlow⟩ := bits_length hs.channels.2 hlength
  rw [adtsHeader]
  simp only [List.cons_append, List.nil_append, bitsOf_cons]
  rw [bits_config hs.profile hs.frequencyIndex hs.channels.2, hhigh, hmiddle, hlow]
  rfl

/-- **The header is decoded**: the profile, the frequency index and the channels of the config, and
the length of the frame. -/
theorem readAdts_header {s : AacParser} (hs : InRange s) {frameLength : ℕ}
    (hlength : frameLength < 2 ^ 13) (au : List Byte) :
    readAdts (adtsHeader s frameLength ++ au) =
      { syncword := 0xfff, id := 0, layer := 0, protectionAbsent := 1, profile := s.profile
        samplingFrequencyIndex := s.frequencyIndex, channelConfiguration := s.channels
        frameLength := frameLength, bufferFullness := 0x7ff, dataBlocks := 0 } := by
  have hread : ∀ (first : ℕ) (bits : List Bool),
      ((bitsOf (adtsHeader s frameLength ++ au)).drop first).take bits.length = bits →
        field (adtsHeader s frameLength ++ au) first bits.length = bitsToNat bits :=
    fun _ _ h => congrArg bitsToNat h
  have hprofile := hs.profile
  have hindex := hs.frequencyIndex
  have hchannels := hs.channels
  rw [bits_header hs hlength au] at hread
  rw [readAdts, AdtsFields.mk.injEq]
  refine ⟨hread 0 (fixed 12 0xfff) rfl, hread 12 (fixed 1 0) rfl, hread 13 (fixed 2 0) rfl,
    hread 15 (fixed 1 1) rfl, ?_, ?_, ?_, ?_, hread 43 (fixed 11 0x7ff) rfl,
    hread 54 (fixed 2 0) rfl⟩
  · exact (hread 16 (fixed 2 s.profile) rfl).trans (bitsToNat_fixed (by omega))
  · exact (hread 18 (fixed 4 s.frequencyIndex) rfl).trans (bitsToNat_fixed (by omega))
  · refine (hread 23 (fixed 1 (s.channels / 4) ++ fixed 2 (s.channels % 4)) rfl).trans ?_
    rw [bitsToNat_append, bitsToNat_fixed (by omega), bitsToNat_fixed (by omega), length_fixed]
    omega
  · refine (hread 30 (fixed 2 (frameLength / 2048) ++ fixed 8 (frameLength / 8 % 256) ++
      fixed 3 (frameLength % 8)) rfl).trans ?_
    rw [bitsToNat_append, bitsToNat_append, bitsToNat_fixed (by omega), bitsToNat_fixed (by omega),
      bitsToNat_fixed (by omega), length_fixed, length_fixed]
    omega

/-! ## The frame -/

/-- What is handed on for an access unit is a frame: a header that says the config and the length of
the frame, and the access unit. -/
structure Framed (config : AudioConfig) (au frame : List Byte) : Prop where
  decoded : readAdts frame =
    { syncword := 0xfff, id := 0, layer := 0, protectionAbsent := 1
      profile := config.objectType - 1
      samplingFrequencyIndex := config.samplingFrequencyIndex
      channelConfiguration := config.channelConfiguration
      frameLength := frame.length, bufferFullness := 0x7ff, dataBlocks := 0 }
  payload : frame.drop 7 = au

/-- A parser that has been given the config, or finds it in the caps. -/
def HasConfig (hex : List Byte) (s : AacParser) (config : Option (List Byte)) : Prop :=
  parseAudioSpecificConfig hex = some s ∨ s.channels = 0 ∧ config = some hex

/-- What a parser with a config hands on. -/
theorem process_eq {hex : List Byte} {c s : AacParser} {config : Option (List Byte)} {input : Buffer}
    (hparse : parseAudioSpecificConfig hex = some c) (hconfig : HasConfig hex s config)
    (hne : input.data ≠ []) (hsize : input.data.length ≤ 8184) :
    process s config (true, true) input = (c, some
      { input with
        data := (if alreadyAdts input.data then [] else
          adtsHeader c (input.data.length + 7)) ++ input.data }) := by
  have hpos : ¬ input.data.length = 0 := fun h => hne (List.eq_nil_of_length_eq_zero h)
  have hchannels := (parseAudioSpecificConfig_spec hparse).1.channels.1
  have hresolved : (if s.channels = 0 then config.bind parseAudioSpecificConfig else some s) =
      some c := by
    rcases hconfig with hgiven | ⟨hzero, hcaps⟩
    · obtain rfl : c = s := Option.some.inj (hparse.symm.trans hgiven)
      rw [if_neg (by omega)]
    · rw [if_pos hzero, hcaps, Option.bind_some, hparse]
  rw [process, if_neg hpos, hresolved]
  dsimp only
  rw [if_neg fun h => absurd h.2 (Nat.not_lt.mpr hsize), if_neg (by decide)]
  cases alreadyAdts input.data <;> rfl

/-- **ADTS framing**: an access unit that does not look like an ADTS frame is put behind a header
that is decoded to the config and to the length of the frame; one that does is handed on as it
is. -/
theorem process_framed {hex : List Byte} {c s : AacParser} {config : Option (List Byte)}
    {input : Buffer} (hparse : parseAudioSpecificConfig hex = some c)
    (hconfig : HasConfig hex s config) (hne : input.data ≠ [])
    (hsize : input.data.length ≤ 8184) :
    ∃ byte0 byte1 frame, hexBytes hex = some (byte0, byte1) ∧
      process s config (true, true) input = (c, some { input with data := frame }) ∧
      (alreadyAdts input.data = false →
        Framed (readAudioConfig [BitVec.ofNat 8 byte0, BitVec.ofNat 8 byte1]) input.data frame) ∧
      (alreadyAdts input.data = true → frame = input.data) := by
  obtain ⟨hrange, byte0, byte1, hbytes, haudio⟩ := parseAudioSpecificConfig_spec hparse
  refine ⟨byte0, byte1, _, hbytes, process_eq hparse hconfig hne hsize, fun hplain => ?_,
    fun hadts => ?_⟩
  · rw [if_neg (by rw [hplain]; decide), haudio]
    refine ⟨?_, rfl⟩
    rw [readAdts_header hrange (by omega), List.length_append]
    show _ = _
    rw [Nat.add_sub_cancel, Nat.add_comm input.data.length 7]
    rfl
  · rw [if_pos hadts, List.nil_append]

/-- The digits `1210`: low complexity, 44.1 kHz, two channels. -/
def stereo : List Byte := [0x31, 0x32, 0x31, 0x30]

/-- A parser without a config. -/
def idle : AacParser := ⟨0, 0, 0⟩

/-- An access unit in a buffer without times. -/
def accessUnit (data : List Byte) : Buffer := ⟨data, 0, 0, 0, 0⟩

theorem process_framed_silence :
    ∃ byte0 byte1 frame, hexBytes stereo = some (byte0, byte1) ∧
      process idle (some stereo) (true, true) (accessUnit [0x21, 0x10]) =
        (⟨1, 4, 2⟩, some { accessUnit [0x21, 0x10] with data := frame }) ∧
      (alreadyAdts [0x21, 0x10] = false →
        Framed (readAudioConfig [BitVec.ofNat 8 byte0, BitVec.ofNat 8 byte1]) [0x21, 0x10] frame) ∧
      (alreadyAdts [0x21, 0x10] = true → frame = [0x21, 0x10]) :=
  have hne : (accessUnit [0x21, 0x10]).data ≠ [] := List.cons_ne_nil _ _
  process_framed (show parseAudioSpecificConfig stereo = some ⟨1, 4, 2⟩ from by decide)
    (Or.inr ⟨rfl, rfl⟩) hne (by decide)

/-- An access unit that begins with the bytes of a header gets none. -/
theorem adts_start_not_framed :
    ¬ ∃ frame, process idle (some stereo) (true, true) (accessUnit [0xff, 0xf1, 0x00]) =
        (⟨1, 4, 2⟩, some { accessUnit [0xff, 0xf1, 0x00] with data := frame }) ∧
      Framed (readAudioConfig [0x12, 0x10]) [0xff, 0xf1, 0x00] frame := by
  rintro ⟨frame, hprocess, hframed⟩
  have hgiven : process idle (some stereo) (true, true) (accessUnit [0xff, 0xf1, 0x00]) =
      (⟨1, 4, 2⟩, some (accessUnit [0xff, 0xf1, 0x00])) := by decide
  rw [hgiven] at hprocess
  have hsame : [0xff, 0xf1, 0x00] = frame :=
    congrArg Buffer.data (Option.some.inj (Prod.mk.inj hprocess).2)
  have hpayload := hframed.payload
  rw [← hsame] at hpayload
  exact absurd hpayload (by decide)

end Zstreamer.Aac

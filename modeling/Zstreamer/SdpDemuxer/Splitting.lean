/-
# Splitting a buffer into packets

A buffer on the sink pad of the SDP demuxer may hold one RTP packet or several, RTP behind
interleaved headers, or RTCP.  The loop of `sdp_sink_push` takes the first bytes for one of
these and goes on behind it.  Of an RTP packet it takes the sequence number for the length.

The loop reads a byte only where a check has shown it to be inside of the buffer.  What it
calls reads as far as the length says that it is given, so for that the model says when
bytes outside of the buffer are read.  Lengths are `int`s and offsets are `size_t`s.
-/

import Mathlib.Data.Int.Basic
import Zstreamer.Foundation.Bits

namespace Zstreamer.SdpDemuxer

open Foundation

/-- A call of the loop: with the bytes from an offset on, and how many they are. -/
inductive Call
  | rtp (offset : ℕ) (pktLen : ℤ)
  | rtcp (offset : ℕ) (len : ℤ)
  deriving DecidableEq, Repr

/-- `(int)` of a `size_t`. -/
def toInt32 (n : ℕ) : ℤ := (n : ℤ).bmod (2 ^ 32)

/-- A `size_t` and an `int`. -/
def sizeAdd (n : ℕ) (len : ℤ) : ℕ := ((n + len) % 2 ^ 64).toNat

/-- A turn of the loop in `sdp_sink_push`: the calls, and the next offset.  There is no turn when
fewer than four bytes are left: then the loop has come to the end, or breaks. -/
def splitTurn (data : List Byte) (offset : ℕ) : Option (List Call × ℕ) :=
  if h : offset + 4 ≤ data.length then
    let pt := data[offset + 1]
    let word := (be16 data[offset + 2] data[offset + 3]).toNat
    if data[offset] = 0x24 then
      let total := 4 + word
      if offset + total > data.length then none
      else some (if word ≥ 12 then [.rtp (offset + 4) word] else [], offset + total)
    else if 200 ≤ pt ∧ pt ≤ 209 then
      let total := min ((word + 1) * 4) (data.length - offset)
      some ([.rtcp offset total], offset + total)
    else if (data[offset] >>> 6) &&& 0x03 = 2 then
      let inPktLen := min (word + 12 : ℤ) (toInt32 (data.length - offset))
      some ([.rtp offset inPktLen], sizeAdd offset inPktLen)
    else some ([], offset + 1)
  else none

/-- The loop, from an offset on and for so many turns at most; `none` says that it has not ended
by then. -/
def splitLoop (data : List Byte) : ℕ → ℕ → Option (List Call)
  | 0, _ => none
  | turns + 1, offset =>
      match splitTurn data offset with
      | none => some []
      | some (calls, next) => (splitLoop data turns next).map (calls ++ ·)

/-- So many bytes from a place on; `none` says that some of them are outside of the memory. -/
def read (memory : List Byte) (start count : ℕ) : Option (List Byte) :=
  if start + count ≤ memory.length then some ((memory.drop start).take count) else none

/-- What `sdp_process_rtp_packet` hands to `reorder_insert` of the track that it finds by the
source or the payload type. -/
structure Handed where
  ssrc : BitVec 32
  payloadType : Byte
  seq : BitVec 16
  rtpTs : BitVec 32
  marker : Bool
  payload : List Byte
  deriving DecidableEq, Repr

/-- Where the payload begins: behind the header, the sources and the extension, if there is room
for the head of one. -/
def payloadOffset (memory : List Byte) (first : Byte) (pktLen : ℤ) : Option ℕ :=
  let offset := 12 + (first &&& 0x0f).toNat * 4
  if first &&& 0x10 ≠ 0 ∧ offset + 4 ≤ pktLen then
    (read memory (offset + 2) 2).map fun words =>
      offset + (4 + (be16 (words.getD 0 0) (words.getD 1 0)).toNat * 4)
  else some offset

/-- `sdp_process_rtp_packet`, on the memory from the packet on: what it hands over, if anything.
`none` says that it reads bytes outside of the memory. -/
def processRtpPacket (memory : List Byte) (pktLen : ℤ) : Option (Option Handed) :=
  if pktLen < 12 then some none
  else
    (read memory 0 12).bind fun header =>
      let p (i : ℕ) : Byte := header.getD i 0
      (payloadOffset memory (p 0) pktLen).bind fun offset =>
        if (offset : ℤ) ≥ pktLen then some none
        else
          (read memory offset (pktLen - offset).toNat).map fun payload =>
            some
              { ssrc := be32 (p 8) (p 9) (p 10) (p 11)
                payloadType := p 1 &&& 0x7f
                seq := be16 (p 2) (p 3)
                rtpTs := be32 (p 4) (p 5) (p 6) (p 7)
                marker := p 1 &&& 0x80 ≠ 0
                payload := payload }

/-! ## What is inside of the buffer -/

/-- A call has bytes of the buffer only, and no other bytes are read in it. -/
def Call.Inside (data : List Byte) : Call → Prop
  | rtp offset pktLen => 0 ≤ pktLen ∧ offset + pktLen ≤ data.length ∧
      processRtpPacket (data.drop offset) pktLen ≠ none
  | rtcp offset len => 0 ≤ len ∧ offset + len ≤ data.length

theorem read_ne_none {memory : List Byte} {start count : ℕ} (h : start + count ≤ memory.length) :
    read memory start count = some ((memory.drop start).take count) := if_pos h

/-- A packet whose bytes are all there is read inside of them, whatever it says about its sources
and its extension. -/
theorem processRtpPacket_ne_none {memory : List Byte} {pktLen : ℤ}
    (hinside : pktLen ≤ memory.length) : processRtpPacket memory pktLen ≠ none := by
  rw [processRtpPacket]
  split
  case isTrue => exact Option.some_ne_none _
  case isFalse hlong =>
    have hheader : read memory 0 12 = some ((memory.drop 0).take 12) := read_ne_none (by omega)
    obtain ⟨offset, hoffset⟩ :
        ∃ offset, payloadOffset memory (((memory.drop 0).take 12).getD 0 0) pktLen = some offset := by
      rw [payloadOffset]
      split
      case isTrue hextension =>
        obtain ⟨-, hroom⟩ := hextension
        rw [read_ne_none (by omega)]
        exact ⟨_, rfl⟩
      case isFalse => exact ⟨_, rfl⟩
    rw [hheader, Option.bind_some]
    dsimp only
    rw [hoffset, Option.bind_some]
    split
    case isTrue => exact Option.some_ne_none _
    case isFalse hpayload =>
      rw [read_ne_none (by omega)]
      exact Option.some_ne_none _

theorem inside_rtp {data : List Byte} {offset : ℕ} {pktLen : ℤ} (hlow : 0 ≤ pktLen)
    (hhigh : offset + pktLen ≤ data.length) : (Call.rtp offset pktLen).Inside data := by
  refine ⟨hlow, hhigh, processRtpPacket_ne_none ?_⟩
  rw [List.length_drop]
  omega

/-- The `int` is the remainder, or 2^32 less. -/
theorem toInt32_eq (n : ℕ) :
    toInt32 n = if (n : ℤ) % 4294967296 < 2147483648 then (n : ℤ) % 4294967296
      else (n : ℤ) % 4294967296 - 4294967296 := by
  unfold toInt32
  rw [Int.bmod_def]
  norm_num

theorem toInt32_of_lt {n : ℕ} (h : n < 2 ^ 31) : toInt32 n = n := by
  rw [toInt32_eq]
  split <;> omega

theorem toInt32_le (n : ℕ) : toInt32 n ≤ n := by
  rw [toInt32_eq]
  split <;> omega

theorem sizeAdd_of_nonneg {n : ℕ} {len : ℤ} (hlow : 0 ≤ len) (hhigh : n + len < 2 ^ 64) :
    (sizeAdd n len : ℤ) = n + len := by
  rw [sizeAdd, Int.emod_eq_of_lt (by omega) hhigh, Int.toNat_of_nonneg (by omega)]

/-! ## A turn of the loop -/

/-- A raw RTP packet seems to begin here. -/
def RawRtp (data : List Byte) (offset : ℕ) : Prop :=
  offset + 4 ≤ data.length ∧ data.getD offset 0 ≠ 0x24 ∧
    ¬ (200 ≤ data.getD (offset + 1) 0 ∧ data.getD (offset + 1) 0 ≤ 209) ∧
    (data.getD offset 0 >>> 6) &&& 0x03 = 2

instance (data : List Byte) (offset : ℕ) : Decidable (RawRtp data offset) :=
  inferInstanceAs (Decidable (_ ∧ _))

/-- The number of 16 bits behind the first two bytes: the length of what is interleaved, the words
of RTCP, or the sequence number of RTP. -/
def wordAt (data : List Byte) (offset : ℕ) : ℕ :=
  (be16 (data.getD (offset + 2) 0) (data.getD (offset + 3) 0)).toNat

/-- The length that the loop gives an RTP packet. -/
def rawLength (data : List Byte) (offset : ℕ) : ℤ :=
  min (wordAt data offset + 12 : ℤ) (toInt32 (data.length - offset))

theorem RawRtp.splitTurn {data : List Byte} {offset : ℕ} (h : RawRtp data offset) :
    splitTurn data offset = some ([.rtp offset (rawLength data offset)],
      sizeAdd offset (rawLength data offset)) := by
  obtain ⟨hroom, hdollar, hrtcp, hversion⟩ := h
  rw [rawLength, wordAt]
  simp only [List.getD_eq_getElem data 0 (show offset < data.length by omega),
    List.getD_eq_getElem data 0 (show offset + 1 < data.length by omega),
    List.getD_eq_getElem data 0 (show offset + 2 < data.length by omega),
    List.getD_eq_getElem data 0 (show offset + 3 < data.length by omega)] at hdollar hrtcp hversion ⊢
  rw [SdpDemuxer.splitTurn, dif_pos hroom]
  dsimp only
  rw [if_neg hdollar, if_neg hrtcp, if_pos hversion]

/-- A turn that does not stand at a raw RTP packet has bytes of the buffer only, and goes on. -/
theorem splitTurn_other {data : List Byte} {offset : ℕ} (hraw : ¬ RawRtp data offset)
    {calls : List Call} {next : ℕ} (hturn : splitTurn data offset = some (calls, next)) :
    (∀ call ∈ calls, call.Inside data) ∧ offset < next ∧ next ≤ data.length := by
  rw [splitTurn] at hturn
  split at hturn
  case isFalse => cases hturn
  case isTrue hroom =>
    rw [RawRtp, List.getD_eq_getElem data 0 (show offset < data.length by omega),
      List.getD_eq_getElem data 0 (show offset + 1 < data.length by omega)] at hraw
    dsimp only at hturn
    split at hturn
    case isTrue =>
      split at hturn
      case isTrue => cases hturn
      case isFalse hfits =>
        cases hturn
        refine ⟨fun call hcall => ?_, by omega, by omega⟩
        split at hcall
        case isTrue =>
          obtain rfl := List.mem_singleton.mp hcall
          exact inside_rtp (by omega) (by push_cast; omega)
        case isFalse => cases hcall
    case isFalse hdollar =>
      split at hturn
      case isTrue =>
        cases hturn
        refine ⟨fun call hcall => ?_, by omega, by omega⟩
        obtain rfl := List.mem_singleton.mp hcall
        exact ⟨by omega, by omega⟩
      case isFalse hrtcp =>
        split at hturn
        case isTrue hversion => exact absurd ⟨hroom, hdollar, hrtcp, hversion⟩ hraw
        case isFalse =>
          cases hturn
          exact ⟨nofun, by omega, by omega⟩

/-- The remaining bytes are more than an `int` counts: what is left is zero or less as an `int`. -/
def TooMuch (data : List Byte) (offset : ℕ) : Prop :=
  RawRtp data offset ∧ toInt32 (data.length - offset) ≤ 0

/-- Any other turn has bytes of the buffer only, and goes on. -/
theorem splitTurn_inside {data : List Byte} (hsize : data.length < 2 ^ 64) {offset : ℕ}
    (hfine : ¬ TooMuch data offset) {calls : List Call} {next : ℕ}
    (hturn : splitTurn data offset = some (calls, next)) :
    (∀ call ∈ calls, call.Inside data) ∧ offset < next ∧ next ≤ data.length := by
  by_cases hraw : RawRtp data offset
  · rw [hraw.splitTurn] at hturn
    cases hturn
    have hroom := hraw.1
    have hmore : 0 < toInt32 (data.length - offset) := not_le.mp fun hless => hfine ⟨hraw, hless⟩
    have hless := toInt32_le (data.length - offset)
    have hlow : 0 < rawLength data offset := lt_min (by omega) hmore
    have hhigh : rawLength data offset ≤ toInt32 (data.length - offset) := min_le_right _ _
    have hnext := sizeAdd_of_nonneg (n := offset) hlow.le (by omega)
    refine ⟨fun call hcall => ?_, by omega, by omega⟩
    obtain rfl := List.mem_singleton.mp hcall
    exact inside_rtp hlow.le (by omega)
  · exact splitTurn_other hraw hturn

/-! ## The loop -/

/-- The loop comes to an offset. -/
inductive Visits (data : List Byte) (start : ℕ) : ℕ → Prop
  | here : Visits data start start
  | next {offset next : ℕ} {calls : List Call} (h : Visits data start offset)
      (hturn : splitTurn data offset = some (calls, next)) : Visits data start next

theorem Visits.of_turn {data : List Byte} {offset next : ℕ} {calls : List Call}
    (hturn : splitTurn data offset = some (calls, next)) {p : ℕ} (h : Visits data next p) :
    Visits data offset p := by
  induction h with
  | here => exact .next .here hturn
  | next _ hlast ih => exact .next ih hlast

/-- **The loop ends**, and has bytes of the buffer only, when it never has too much left. -/
theorem splitLoop_inside {data : List Byte} (hsize : data.length < 2 ^ 64) {offset : ℕ}
    (hoffset : offset ≤ data.length) (hfine : ∀ p, Visits data offset p → ¬ TooMuch data p) {turns : ℕ}
    (hturns : data.length < offset + turns) :
    ∃ calls, splitLoop data turns offset = some calls ∧ ∀ call ∈ calls, call.Inside data := by
  induction turns generalizing offset with
  | zero => omega
  | succ turns ih =>
      rw [splitLoop]
      cases hturn : splitTurn data offset with
      | none => exact ⟨[], rfl, nofun⟩
      | some result =>
          obtain ⟨calls, next⟩ := result
          obtain ⟨hinside, hmore, hnext⟩ := splitTurn_inside hsize (hfine offset .here) hturn
          obtain ⟨rest, hrest, hothers⟩ := ih hnext (fun p hp => hfine p (hp.of_turn hturn))
            (show data.length < next + turns by omega)
          refine ⟨calls ++ rest, ?_, fun call hcall => ?_⟩
          · dsimp only
            rw [hrest]
            rfl
          · rcases List.mem_append.mp hcall with hcall | hcall
            · exact hinside call hcall
            · exact hothers call hcall

/-- The loop ends from where it comes to. -/
theorem Visits.splitLoop {data : List Byte} {start p : ℕ} (h : Visits data start p) {turns : ℕ}
    {calls : List Call} (hloop : splitLoop data turns start = some calls) :
    ∃ turns' before calls', SdpDemuxer.splitLoop data turns' p = some calls' ∧
      calls = before ++ calls' := by
  induction h with
  | here => exact ⟨turns, [], calls, hloop, rfl⟩
  | @next offset next made _ hturn ih =>
      obtain ⟨turns', before, calls', hloop', rfl⟩ := ih
      cases turns' with
      | zero => cases hloop'
      | succ turns' =>
          rw [SdpDemuxer.splitLoop, hturn] at hloop'
          obtain ⟨rest, hrest, rfl⟩ := Option.map_eq_some_iff.mp hloop'
          exact ⟨turns', before ++ made, rest, hrest, (List.append_assoc _ _ _).symm⟩

/-- With nothing left as an `int`, the loop stays where it is. -/
theorem splitLoop_stays {data : List Byte} (hsize : data.length < 2 ^ 64) {offset : ℕ}
    (hraw : RawRtp data offset) (hzero : toInt32 (data.length - offset) = 0) (turns : ℕ) :
    splitLoop data turns offset = none := by
  have hroom := hraw.1
  have hlength : rawLength data offset = 0 := by
    rw [rawLength, hzero]
    exact min_eq_right (by omega)
  have hnext := sizeAdd_of_nonneg (n := offset) le_rfl (by omega)
  have hturn := hraw.splitTurn
  rw [hlength, show sizeAdd offset 0 = offset by omega] at hturn
  induction turns with
  | zero => rfl
  | succ turns ih =>
      rw [splitLoop, hturn]
      dsimp only
      rw [ih]
      rfl

/-! ## A datagram -/

/-- A valid RTP packet: the version is 2, the header, the sources and the extension are there, and
the byte with the payload type does not look like RTCP. -/
structure ValidRtp (data : List Byte) : Prop where
  version : (data.getD 0 0 >>> 6) &&& 0x03 = 2
  header : 12 + (data.getD 0 0 &&& 0x0f).toNat * 4 ≤ data.length
  extension : data.getD 0 0 &&& 0x10 ≠ 0 →
    let offset := 12 + (data.getD 0 0 &&& 0x0f).toNat * 4
    offset + (4 + (be16 (data.getD (offset + 2) 0) (data.getD (offset + 3) 0)).toNat * 4) ≤ data.length
  type : ¬ (200 ≤ data.getD 1 0 ∧ data.getD 1 0 ≤ 209)

theorem ValidRtp.rawRtp {data : List Byte} (h : ValidRtp data) : RawRtp data 0 := by
  have hheader := h.header
  have hversion : ∀ b : Byte, (b >>> 6) &&& 0x03 = 2 → b ≠ 0x24 := by decide +kernel
  exact ⟨by omega, hversion _ h.version, h.type, h.version⟩

/-- A buffer is taken rightly: when it is a valid RTP packet, the packet is handed over once and as
a whole; and in any case the loop ends and has bytes of the buffer only. -/
structure TakenRightly (data : List Byte) : Prop where
  whole : ValidRtp data → ∃ turns, splitLoop data turns 0 = some [.rtp 0 data.length]
  inside : ∃ turns calls, splitLoop data turns 0 = some calls ∧ ∀ call ∈ calls, call.Inside data

/-- A packet is handed over as a whole when its sequence number is not too small. -/
theorem whole_iff {data : List Byte} (h : ValidRtp data) :
    (∃ turns, splitLoop data turns 0 = some [.rtp 0 data.length]) ↔
      data.length ≤ wordAt data 0 + 12 := by
  have hturn := h.rawRtp.splitTurn
  constructor
  · rintro ⟨turns, hloop⟩
    cases turns with
    | zero => cases hloop
    | succ turns =>
        rw [splitLoop, hturn] at hloop
        obtain ⟨rest, -, hcalls⟩ := Option.map_eq_some_iff.mp hloop
        have hlength : rawLength data 0 = data.length :=
          (Call.rtp.inj (List.cons.inj hcalls).1).2
        have hless : rawLength data 0 ≤ wordAt data 0 + 12 := min_le_left _ _
        omega
  · intro hlength
    have hword : wordAt data 0 < 2 ^ 16 := (be16 _ _).isLt
    have hint : toInt32 (data.length - 0) = data.length := toInt32_of_lt (by omega)
    have hraw : rawLength data 0 = data.length := by
      rw [rawLength, hint]
      exact min_eq_right (by exact_mod_cast hlength)
    have hnext := @sizeAdd_of_nonneg 0 data.length (by omega) (by omega)
    have hend : splitTurn data data.length = none := dif_neg (by omega)
    refine ⟨2, ?_⟩
    rw [splitLoop, hturn, hraw, show sizeAdd 0 data.length = data.length by omega]
    dsimp only
    rw [splitLoop, hend]
    rfl

/-- **A buffer is taken rightly** if and only if it is not a valid RTP packet that is longer than
its sequence number and 12, and the loop never comes to an RTP packet with 2^31 bytes or more left
that are zero or less as an `int`. -/
theorem takenRightly_iff {data : List Byte} (hsize : data.length < 2 ^ 64) :
    TakenRightly data ↔ (ValidRtp data → data.length ≤ wordAt data 0 + 12) ∧
      ∀ p, Visits data 0 p → ¬ TooMuch data p := by
  constructor
  · rintro ⟨hwhole, turns, calls, hloop, hinside⟩
    refine ⟨fun hvalid => (whole_iff hvalid).mp (hwhole hvalid), fun p hp ⟨hraw, hless⟩ => ?_⟩
    obtain ⟨turns', before, calls', hloop', rfl⟩ := hp.splitLoop hloop
    rcases hless.lt_or_eq with hnegative | hzero
    · cases turns' with
      | zero => cases hloop'
      | succ turns' =>
          rw [splitLoop, hraw.splitTurn] at hloop'
          obtain ⟨rest, -, rfl⟩ := Option.map_eq_some_iff.mp hloop'
          have hcall := hinside (.rtp p (rawLength data p)) (by simp)
          have hlength : rawLength data p ≤ toInt32 (data.length - p) := min_le_right _ _
          have hlow : 0 ≤ rawLength data p := hcall.1
          omega
    · rw [splitLoop_stays hsize hraw hzero] at hloop'
      cases hloop'
  · rintro ⟨hwhole, hfine⟩
    obtain ⟨calls, hloop, hinside⟩ := splitLoop_inside hsize (Nat.zero_le _) hfine
      (show data.length < 0 + (data.length + 1) by omega)
    exact ⟨fun hvalid => (whole_iff hvalid).mpr (hwhole hvalid), _, calls, hloop, hinside⟩

/-- An RTP packet with this sequence number and a payload of two bytes. -/
def twoBytesOfPayload (seq : Byte) : List Byte := [0x80, 96, 0, seq, 0, 0, 0, 0, 0, 0, 0, 1, 0x65, 0x88]

theorem twoBytes_valid (seq : Byte) : ValidRtp (twoBytesOfPayload seq) where
  version := (by decide : ((0x80 : Byte) >>> 6) &&& 0x03 = 2)
  header := (by decide : 12 + ((0x80 : Byte) &&& 0x0f).toNat * 4 ≤ 14)
  extension hext := absurd hext (by decide : ¬ (0x80 : Byte) &&& 0x10 ≠ 0)
  type := (by decide : ¬ (200 ≤ (96 : Byte) ∧ (96 : Byte) ≤ 209))

/-- Below 2^31 bytes there is never too much left. -/
theorem not_tooMuch {data : List Byte} (hsize : data.length < 2 ^ 31) (p : ℕ) : ¬ TooMuch data p := by
  rintro ⟨hraw, hless⟩
  have hroom := hraw.1
  rw [toInt32_of_lt (by omega)] at hless
  omega

theorem takenRightly_two : TakenRightly (twoBytesOfPayload 2) :=
  (takenRightly_iff (by decide)).mpr ⟨fun _ => by decide, fun p _ => not_tooMuch (by decide) p⟩

/-- The first packet of a stream with the sequence number 0: only its header is handed over. -/
theorem first_packet_cut :
    ValidRtp (twoBytesOfPayload 0) ∧ ¬ TakenRightly (twoBytesOfPayload 0) ∧
      splitLoop (twoBytesOfPayload 0) 2 0 = some [.rtp 0 12] := by
  refine ⟨twoBytes_valid 0, fun htaken => ?_, by decide⟩
  exact absurd ((whole_iff (twoBytes_valid 0)).mp (htaken.whole (twoBytes_valid 0))) (by decide)

end Zstreamer.SdpDemuxer

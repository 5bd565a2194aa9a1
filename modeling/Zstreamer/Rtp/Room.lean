/-
# The memory of an access unit

`rtp_depayloader.c` once more with the memory that it keeps an access unit in, with allocations
that may fail, and with every read, write and difference of sizes checked.  Nothing fails, whatever
the packets are: what is read is in the packet, what is written is in the memory, no difference
wraps around and every loop ends.
-/

import Zstreamer.Rtp.DepayReads

namespace Zstreamer.Rtp

open Foundation Option

/-- `SIZE_MAX`. -/
def sizeMax : ℕ := 2 ^ 64 - 1

/-- A difference of `size_t`s that does not wrap around. -/
def sizeSub (a b : ℕ) : Option ℕ := if b ≤ a then some (a - b) else none

/-- The steps that set all bits below the highest one. -/
def smear (n : ℕ) : ℕ := [1, 2, 4, 8, 16, 32].foldl (fun cap k => cap ||| cap >>> k) n

/-- The capacity for so many bytes: a power of two, if there is one. -/
def capacityFor (need : ℕ) : Option ℕ :=
  if need > sizeMax / 2 then some need
  else (sizeSub need 1).map fun cap => if smear cap + 1 < 256 then 256 else smear cap + 1

/-- The depayloader, with `au_cap` and the number of allocations so far. -/
structure Room where
  s : Depayloader
  cap : ℕ
  asked : ℕ

/-- What a call leaves, as in `Depayed`. -/
structure Outcome where
  room : Room
  out : List Delivery
  ok : Bool

namespace Room

section Calls

-- which allocations succeed
variable (grants : ℕ → Bool)

/-- An allocation. -/
def ask (r : Room) : Room × Bool := ({ r with asked := r.asked + 1 }, grants r.asked)

/-- `rtp_depayloader_reset_au`. -/
def resetAu (r : Room) : Room := { r with s := r.s.resetAu, cap := 0 }

/-- `rtp_depayloader_begin_au`. -/
def beginAu (r : Room) (ts : BitVec 32) : Room :=
  if r.s.auActive = true ∧ r.s.auTs = ts then r else { r with s := r.s.beginAu ts, cap := 0 }

/-- `rtp_depayloader_reserve_au`. -/
def reserveAu (r : Room) (extra : ℕ) : Option (Room × Bool) := do
  let left ← sizeSub sizeMax r.s.auData.length
  if extra > left then some (r, false)
  else if r.s.auData.length + extra ≤ r.cap then some (r, true)
  else do
    let cap ← capacityFor (r.s.auData.length + extra)
    let one := r.ask grants
    some (if one.2 then { one.1 with cap := cap } else one.1, one.2)

/-- `memcpy` behind what is there. -/
def write (r : Room) (data : List Byte) : Option Room :=
  if r.s.auData.length + data.length ≤ r.cap then some { r with s := r.s.appendAu data } else none

/-- `rtp_depayloader_append_au`. -/
def appendAu (r : Room) (data : List Byte) : Option (Room × Bool) :=
  if data = [] then some (r, true)
  else
    (r.reserveAu grants data.length).bind fun one =>
      if one.2 then (one.1.write data).map fun r => (r, true) else some one

/-- `rtp_depayloader_append_start_code`, and then a NAL unit. -/
def appendUnit (r : Room) (nal : List Byte) : Option (Room × Bool) :=
  (r.appendAu grants (startCode true)).bind fun one =>
    if one.2 then one.1.appendAu grants nal else some one

/-- `rtp_depayloader_push_bytes`: without a buffer the data is freed. -/
def pushBytes (r : Room) (data : List Byte) (pts duration : BitVec 64) (drop : Bool) : Outcome :=
  if data = [] then ⟨r, [], false⟩
  else
    let one := r.ask grants
    if one.2 then
      let pushed := one.1.s.pushBytes data pts duration drop
      ⟨{ one.1 with s := pushed.depayloader }, pushed.out, pushed.ok⟩
    else ⟨one.1, [], false⟩

/-- The access unit is handed over, and its memory with it. -/
def takeAu (r : Room) : Room := { r with s := r.s.takeAu, cap := 0 }

/-- `rtp_depayloader_push_au`. -/
def pushAu (r : Room) : Outcome :=
  if r.s.auActive = false ∨ r.s.auData = [] then ⟨r.resetAu, [], true⟩
  else if r.s.codec = .h264 ∧ r.s.h264DiscontinuityPending = true then
    { r.takeAu with s := { r.s.takeAu with h264DiscontinuityPending := false } }.pushBytes grants
      r.s.auData r.s.auPts 0 true
  else r.takeAu.pushBytes grants r.s.auData r.s.auPts 0 false

/-- The end of a packet. -/
def finish (r : Room) (rtp : View) : Outcome :=
  if rtp.marker then r.pushAu grants else ⟨r, [], true⟩

/-- What follows an append: the end of the packet, or an error. -/
def finishAppend (one : Room × Bool) (rtp : View) : Outcome :=
  if one.2 then one.1.finish grants rtp else ⟨one.1.resetAu, [], false⟩

/-- The loop over the units of an aggregation packet, for so many turns at most. -/
def appendUnits (p : List Byte) : ℕ → ℕ → Room → Option (Room × Bool)
  | 0, _, _ => none
  | turns + 1, off, r =>
      if off + 2 ≤ p.length then do
        let high ← p[off]?
        let low ← p[off + 1]?
        let nalLen := (be16 high low).toNat
        if nalLen = 0 ∨ off + 2 + nalLen > p.length then some (r, true)
        else do
          let nal ← span p (off + 2) nalLen
          let one ← r.appendUnit grants nal
          if one.2 then appendUnits p turns (off + 2 + nalLen) one.1 else some one
      else some (r, true)

/-- One more packet that is of no use. -/
def dropPacket (r : Room) : Room := { r with s := r.s.dropPacket }

/-- A fragment of a NAL unit. -/
def depayFragment (r : Room) (rtp : View) (start : Bool) (nalHeader data : List Byte) :
    Option Outcome :=
  if start then
    ((r.beginAu rtp.timestamp).appendUnit grants nalHeader).bind fun one =>
      if one.2 then (one.1.appendAu grants data).map fun two => finishAppend grants two rtp
      else some ⟨one.1.resetAu, [], false⟩
  else if r.s.auActive = false ∨ r.s.auTs ≠ rtp.timestamp then some ⟨r.dropPacket, [], true⟩
  else (r.appendAu grants data).map fun two => finishAppend grants two rtp

/-- A packet that is one NAL unit. -/
def depaySingle (r : Room) (rtp : View) : Option Outcome := do
  let nal ← span rtp.payload 0 rtp.payload.length
  let one ← (r.beginAu rtp.timestamp).appendUnit grants nal
  some (finishAppend grants one rtp)

/-- An aggregation packet, whose units begin at an offset. -/
def depayAggregate (r : Room) (rtp : View) (off : ℕ) : Option Outcome :=
  (appendUnits grants rtp.payload rtp.payload.length off (r.beginAu rtp.timestamp)).map
    fun one => finishAppend grants one rtp

/-- `rtp_depayloader_depay_h264`. -/
def depayH264 (r : Room) (rtp : View) : Option Outcome :=
  if rtp.payload.length = 0 then some ⟨r, [], false⟩
  else do
    let first ← rtp.payload[0]?
    let nalType := first &&& 0x1f
    if 1 ≤ nalType ∧ nalType ≤ 23 then r.depaySingle grants rtp
    else if nalType = 24 then r.depayAggregate grants rtp 1
    else if nalType = 28 then
      if rtp.payload.length < 2 then some ⟨r, [], false⟩
      else do
        let fuHeader ← rtp.payload[1]?
        let data ← behind rtp.payload 2
        r.depayFragment grants rtp (fuHeader &&& 0x80 ≠ 0)
          [(first &&& 0xe0) ||| (fuHeader &&& 0x1f)] data
    else r.depaySingle grants rtp

/-- `rtp_depayloader_depay_h265`. -/
def depayH265 (r : Room) (rtp : View) : Option Outcome :=
  if rtp.payload.length < 2 then some ⟨r, [], false⟩
  else do
    let first ← rtp.payload[0]?
    let nalType := (first >>> 1) &&& 0x3f
    if nalType ≠ 48 ∧ nalType ≠ 49 then r.depaySingle grants rtp
    else if nalType = 48 then r.depayAggregate grants rtp 2
    else if rtp.payload.length < 3 then some ⟨r, [], false⟩
    else do
      let fuHeader ← rtp.payload[2]?
      let second ← rtp.payload[1]?
      let data ← behind rtp.payload 3
      r.depayFragment grants rtp (fuHeader &&& 0x80 ≠ 0)
        [(first &&& 0x81) ||| ((fuHeader &&& 0x3f) <<< 1), second] data

/-- The loop over the access units of an AAC packet, each in memory of its own. -/
def depayAacUnits (rtp : View) : ℕ → ℕ → ℕ → Room → Option Outcome
  | 0, _, _, r => some ⟨r, [], true⟩
  | count + 1, i, cursor, r => do
      let high ← rtp.payload[2 + i * 2]?
      let low ← rtp.payload[2 + i * 2 + 1]?
      let size := (be16 high low >>> 3).toNat
      let rate : BitVec 64 := r.s.clockRate.setWidth 64
      let pts := tsToPts rtp.timestamp r.s.clockRate +
        BitVec.ofNat 64 i * 1024 * 1000000000 / rate
      if size = 0 ∨ cursor + size > rtp.payload.length then some ⟨r.dropPacket, [], false⟩
      else
        let memory := r.ask grants
        if memory.2 then do
          let data ← span rtp.payload cursor size
          let one := memory.1.pushBytes grants data pts (1024 * 1000000000 / rate) false
          let rest ← depayAacUnits rtp count (i + 1) (cursor + size) one.room
          some ⟨rest.room, one.out ++ rest.out, one.ok && rest.ok⟩
        else some ⟨memory.1, [], false⟩

/-- `rtp_depayloader_depay_aac`. -/
def depayAac (r : Room) (rtp : View) : Option Outcome :=
  if rtp.payload.length < 4 then some ⟨r, [], false⟩
  else do
    let high ← rtp.payload[0]?
    let low ← rtp.payload[1]?
    let auBits := (be16 high low).toNat
    let auHeaderBytes := (auBits + 7) / 8
    if auBits = 0 ∨ auBits % 16 ≠ 0 ∨ 2 + auHeaderBytes > rtp.payload.length then
      some ⟨r, [], false⟩
    else r.depayAacUnits grants rtp (auBits / 16) 0 (2 + auHeaderBytes)

/-- `rtp_depayloader_depay_pcm`. -/
def depayPcm (r : Room) (rtp : View) : Option Outcome :=
  if rtp.payload.length = 0 then some ⟨r, [], false⟩
  else do
    let data ← span rtp.payload 0 rtp.payload.length
    let one ← (r.beginAu rtp.timestamp).appendAu grants data
    some (if one.2 then
        if rtp.marker then
          one.1.takeAu.pushBytes grants one.1.s.auData one.1.s.auPts one.1.s.pcmDuration false
        else ⟨one.1, [], true⟩
      else ⟨one.1.resetAu, [], false⟩)

/-- What the sequence number of a packet says. -/
def follow (r : Room) (seq : BitVec 16) : Room :=
  { r with
    s := r.s.follow seq
    cap := if r.s.haveSeq = true ∧ seq ≠ r.s.nextSeq then 0 else r.cap }

/-- The payload of a packet. -/
def depay (r : Room) (rtp : View) : Option Outcome :=
  match r.s.codec with
  | .h264 => r.depayH264 grants rtp
  | .h265 => r.depayH265 grants rtp
  | .aac => r.depayAac grants rtp
  | .pcm => r.depayPcm grants rtp

/-- `rtp_depayloader_pad_push`. -/
def push (r : Room) (buf : Buffer) : Option Outcome :=
  if buf.eos then some (r.pushAu grants)
  else do
    let r := { r with s := { r.s with inPackets := r.s.inPackets + 1 } }
    match ← checkedParseRtp buf.data with
    | none => some ⟨{ r with s := { r.s with
        parseErrors := r.s.parseErrors + 1
        droppedPackets := r.s.droppedPackets + 1 } }, [], true⟩
    | some rtp =>
        let r := { r with s := { r.s with
          packets := r.s.packets + 1
          bytes := r.s.bytes + buf.data.length } }
        if r.s.Ignores rtp then some ⟨r.dropPacket, [], true⟩
        else (r.follow rtp.seq).depay grants rtp

/-- What happens to a depayloader: buffers, properties, and that it is opened and closed. -/
inductive Event
  | push (buf : Buffer)
  | setCodec (codec : Codec)
  | setPayloadType (pt : Byte)
  | setSsrc (ssrc : BitVec 32)
  | setClockRate (rate : BitVec 32)
  | setChannels (channels : ℤ)
  | setSampleSize (sampleSize : ℤ)
  | opens
  | closes

/-- `rtp_depayloader_set_property` of the codec: the clock rate goes with it. -/
def setCodec (r : Room) (codec : Codec) : Room :=
  let rate : BitVec 32 :=
    if codec = .h264 ∨ codec = .h265 then 90000
    else if r.s.clockRate = 90000 then 48000 else r.s.clockRate
  { r with s := { r.s with codec := codec, clockRate := rate } }.resetAu

/-- `rtp_depayloader_open`. -/
def opened (r : Room) : Room :=
  { r.resetAu with s := { r.s.resetAu with
    haveSeq := false
    h264DiscontinuityPending := false
    nextSeq := 0
    packets := 0
    bytes := 0
    outBuffers := 0
    outBytes := 0
    droppedPackets := 0 } }

/-- An event. -/
def handle (r : Room) : Event → Option Outcome
  | .push buf => r.push grants buf
  | .setCodec codec => some ⟨r.setCodec codec, [], true⟩
  | .setPayloadType pt => some ⟨{ r with s := { r.s with payloadType := pt } }, [], true⟩
  | .setSsrc ssrc =>
      some ⟨{ r with s := { r.s with expectedSsrc := ssrc, filterSsrc := ssrc ≠ 0 } }, [], true⟩
  | .setClockRate rate => some ⟨{ r with s := { r.s with clockRate := rate } }, [], true⟩
  | .setChannels channels => some ⟨{ r with s := { r.s with channels := channels } }, [], true⟩
  | .setSampleSize size => some ⟨{ r with s := { r.s with sampleSize := size } }, [], true⟩
  | .opens => some ⟨r.opened, [], true⟩
  | .closes => some ⟨{ r.resetAu with s := { r.s.resetAu with haveSeq := false } }, [], true⟩

/-- Events one after the other; `none` says that some read, write or difference is not right, or
that some loop does not end. -/
def handleAll : List Event → Room → Option Room
  | [], r => some r
  | event :: events, r => (r.handle grants event).bind fun one => handleAll events one.room

end Calls

/-! ## The capacity -/

theorem le_smear (n : ℕ) : n ≤ smear n := by
  have hfold : ∀ (shifts : List ℕ) (m : ℕ), n ≤ m →
      n ≤ shifts.foldl (fun cap k => cap ||| cap >>> k) m := fun shifts => by
    induction shifts with
    | nil => exact fun m h => h
    | cons k shifts ih => exact fun m h => ih _ (h.trans Nat.left_le_or)
  exact hfold _ n (Nat.le_refl n)

theorem smear_lt {n : ℕ} (h : n < 2 ^ 63) : smear n < 2 ^ 63 := by
  have hfold : ∀ (shifts : List ℕ) (m : ℕ), m < 2 ^ 63 →
      shifts.foldl (fun cap k => cap ||| cap >>> k) m < 2 ^ 63 := fun shifts => by
    induction shifts with
    | nil => exact fun m h => h
    | cons k shifts ih =>
        exact fun m h => ih _ (Nat.or_lt_two_pow h
          (Nat.lt_of_le_of_lt (Nat.shiftRight_le m k) h))
  exact hfold _ n h

/-- The capacity is enough, and a `size_t`. -/
theorem capacityFor_spec {need : ℕ} (hpos : 0 < need) (hneed : need ≤ sizeMax) :
    ∃ cap, capacityFor need = some cap ∧ need ≤ cap ∧ cap ≤ sizeMax := by
  rw [capacityFor, sizeMax] at *
  by_cases hlarge : need > (2 ^ 64 - 1) / 2
  · exact ⟨need, if_pos hlarge, Nat.le_refl _, hneed⟩
  · have hle := le_smear (need - 1)
    have hlt := smear_lt (n := need - 1) (by omega)
    rw [if_neg hlarge, sizeSub, if_pos (show 1 ≤ need from hpos)]
    refine ⟨_, rfl, ?_, ?_⟩ <;> dsimp only <;> split <;> omega

/-- What is kept of an access unit is in its memory. -/
structure Fits (r : Room) : Prop where
  length_le : r.s.auData.length ≤ r.cap
  cap_le : r.cap ≤ sizeMax

/-- An append neither fails nor spoils the memory. -/
def Kept (o : Option (Room × Bool)) : Prop := ∃ one, o = some one ∧ one.1.Fits

/-- Nor does a call. -/
def Done (o : Option Outcome) : Prop := ∃ one, o = some one ∧ one.room.Fits

section Memory

variable (grants : ℕ → Bool) {r : Room}

theorem Fits.emptied {s : Depayloader} (hempty : s.auData = []) (asked : ℕ) :
    (Room.mk s 0 asked).Fits :=
  ⟨by rw [hempty]; exact Nat.le_refl 0, Nat.zero_le _⟩

theorem Fits.congr (h : r.Fits) {r' : Room} (hdata : r'.s.auData = r.s.auData)
    (hcap : r'.cap = r.cap) : r'.Fits :=
  ⟨by rw [hdata, hcap]; exact h.length_le, by rw [hcap]; exact h.cap_le⟩

theorem resetAu_fits (r : Room) : r.resetAu.Fits := .emptied rfl _

theorem takeAu_fits (r : Room) : r.takeAu.Fits := .emptied rfl _

theorem beginAu_fits (h : r.Fits) (ts : BitVec 32) : (r.beginAu ts).Fits := by
  rw [beginAu]
  split
  case isTrue => exact h
  case isFalse hother =>
    refine .emptied ?_ _
    rw [Depayloader.beginAu, if_neg hother]
    rfl

/-- There is room for what is reserved. -/
theorem reserveAu_spec (h : r.Fits) {extra : ℕ} (hextra : 0 < extra) :
    ∃ one, r.reserveAu grants extra = some one ∧ one.1.Fits ∧ one.1.s = r.s ∧
      (one.2 = true → r.s.auData.length + extra ≤ one.1.cap) := by
  have hlength := h.length_le
  have hcap := h.cap_le
  rw [reserveAu, sizeSub, if_pos (by omega)]
  dsimp only [bind_eq_bind, bind_some]
  split
  case isTrue => exact ⟨_, rfl, h, rfl, nofun⟩
  case isFalse hsize =>
    split
    case isTrue hroom => exact ⟨_, rfl, h, rfl, fun _ => hroom⟩
    case isFalse =>
      obtain ⟨cap, hnew, henough, hlimit⟩ := capacityFor_spec
        (by omega : 0 < r.s.auData.length + extra) (by omega)
      rw [hnew]
      refine ⟨_, rfl, ?_⟩
      dsimp only
      by_cases hgrant : (r.ask grants).2 = true
      · rw [if_pos hgrant]
        exact ⟨⟨(Nat.le_add_right _ _).trans henough, hlimit⟩, rfl, fun _ => henough⟩
      · rw [if_neg hgrant]
        exact ⟨h.congr rfl rfl, rfl, fun hok => absurd hok hgrant⟩

theorem appendAu_kept (h : r.Fits) (data : List Byte) : Kept (r.appendAu grants data) := by
  rw [appendAu]
  by_cases hempty : data = []
  · exact ⟨_, if_pos hempty, h⟩
  · obtain ⟨one, hreserve, hfits, hsame, hroom⟩ :=
      reserveAu_spec grants h (List.length_pos_iff.mpr hempty)
    rw [if_neg hempty, hreserve, bind_some]
    split
    case isTrue hok =>
      rw [write, hsame, if_pos (hroom hok)]
      refine ⟨_, rfl, ?_, hfits.cap_le⟩
      show (r.s.auData ++ data).length ≤ one.1.cap
      rw [List.length_append]
      exact hroom hok
    case isFalse => exact ⟨one, rfl, hfits⟩

theorem appendUnit_kept (h : r.Fits) (nal : List Byte) : Kept (r.appendUnit grants nal) := by
  obtain ⟨one, hcode, hfits⟩ := appendAu_kept grants h (startCode true)
  rw [appendUnit, hcode, bind_some]
  split
  · exact appendAu_kept grants hfits nal
  · exact ⟨one, rfl, hfits⟩

theorem pushBytes_fits (h : r.Fits) (data : List Byte) (pts duration : BitVec 64) (drop : Bool) :
    (r.pushBytes grants data pts duration drop).room.Fits := by
  rw [pushBytes]
  split
  · exact h
  · dsimp only [ask]
    split
    · refine h.congr ?_ rfl
      dsimp only
      rw [Depayloader.pushBytes]
      split <;> rfl
    · exact h.congr rfl rfl

theorem pushAu_fits (r : Room) : (r.pushAu grants).room.Fits := by
  rw [pushAu]
  split
  · exact r.resetAu_fits
  · split
    · exact pushBytes_fits grants (.emptied rfl _) _ _ _ _
    · exact pushBytes_fits grants r.takeAu_fits _ _ _ _

theorem finish_fits (h : r.Fits) (rtp : View) : (r.finish grants rtp).room.Fits := by
  rw [finish]
  split
  · exact pushAu_fits grants r
  · exact h

theorem finishAppend_fits {one : Room × Bool} (h : one.1.Fits) (rtp : View) :
    (finishAppend grants one rtp).room.Fits := by
  rw [finishAppend]
  split
  · exact finish_fits grants h rtp
  · exact one.1.resetAu_fits

/-- What follows an append that is kept. -/
theorem Kept.finish {o : Option (Room × Bool)} (h : Kept o) (rtp : View) :
    Done (o.map fun one => finishAppend grants one rtp) := by
  obtain ⟨one, rfl, hfits⟩ := h
  exact ⟨_, rfl, finishAppend_fits grants hfits rtp⟩

/-! ## The depayloaders -/

/-- **The loop over an aggregation packet** reads inside of it, and ends. -/
theorem appendUnits_kept (h : r.Fits) {p : List Byte} {turns off : ℕ} (hoff : off ≤ p.length)
    (hturns : p.length - off < turns) : Kept (appendUnits grants p turns off r) := by
  induction turns generalizing off r with
  | zero => exact absurd hturns (Nat.not_lt_zero _)
  | succ turns ih =>
      rw [appendUnits]
      split
      case isTrue htwo =>
        rw [getElem?_eq_getD (by omega) 0, getElem?_eq_getD (by omega) 0]
        dsimp only [bind_eq_bind, bind_some]
        split
        case isTrue => exact ⟨_, rfl, h⟩
        case isFalse hinside =>
          rw [span_of_le (by omega), bind_some]
          obtain ⟨one, happend, hfits⟩ := appendUnit_kept grants h
            ((p.drop (off + 2)).take (be16 (p.getD off 0) (p.getD (off + 1) 0)).toNat)
          rw [happend, bind_some]
          split
          · exact ih hfits (by omega) (by omega)
          · exact ⟨one, rfl, hfits⟩
      case isFalse => exact ⟨_, rfl, h⟩

theorem depaySingle_done (h : r.Fits) (rtp : View) : Done (r.depaySingle grants rtp) := by
  obtain ⟨one, happend, hfits⟩ := appendUnit_kept grants (beginAu_fits h rtp.timestamp) rtp.payload
  rw [depaySingle, Depayloader.span_all]
  dsimp only [bind_eq_bind, bind_some]
  rw [happend]
  exact ⟨_, rfl, finishAppend_fits grants hfits rtp⟩

theorem depayAggregate_done (h : r.Fits) (rtp : View) {off : ℕ} (hpos : 0 < off)
    (hoff : off ≤ rtp.payload.length) : Done (r.depayAggregate grants rtp off) :=
  (appendUnits_kept grants (beginAu_fits h rtp.timestamp) hoff (by omega)).finish grants rtp

theorem depayFragment_done (h : r.Fits) (rtp : View) (start : Bool) (nalHeader data : List Byte) :
    Done (r.depayFragment grants rtp start nalHeader data) := by
  rw [depayFragment]
  split
  · obtain ⟨one, happend, hfits⟩ :=
      appendUnit_kept grants (beginAu_fits h rtp.timestamp) nalHeader
    rw [happend, bind_some]
    split
    · exact (appendAu_kept grants hfits data).finish grants rtp
    · exact ⟨_, rfl, one.1.resetAu_fits⟩
  · split
    · exact ⟨_, rfl, h.congr rfl rfl⟩
    · exact (appendAu_kept grants h data).finish grants rtp

/-- **The H.264 depayloader.** -/
theorem depayH264_done (h : r.Fits) (rtp : View) : Done (r.depayH264 grants rtp) := by
  rw [depayH264]
  split
  case isTrue => exact ⟨_, rfl, h⟩
  case isFalse hsome =>
    rw [getElem?_eq_getD (by omega) 0]
    dsimp only [bind_eq_bind, bind_some]
    split
    · exact depaySingle_done grants h rtp
    split
    · exact depayAggregate_done grants h rtp Nat.one_pos (by omega)
    split
    · split
      · exact ⟨_, rfl, h⟩
      · rw [getElem?_eq_getD (by omega) 0, behind_of_le (by omega)]
        exact depayFragment_done grants h rtp _ _ _
    · exact depaySingle_done grants h rtp

/-- **The H.265 depayloader.** -/
theorem depayH265_done (h : r.Fits) (rtp : View) : Done (r.depayH265 grants rtp) := by
  rw [depayH265]
  split
  case isTrue => exact ⟨_, rfl, h⟩
  case isFalse hlong =>
    rw [getElem?_eq_getD (by omega) 0]
    dsimp only [bind_eq_bind, bind_some]
    split
    · exact depaySingle_done grants h rtp
    split
    · exact depayAggregate_done grants h rtp Nat.two_pos (by omega)
    split
    · exact ⟨_, rfl, h⟩
    · rw [getElem?_eq_getD (by omega) 0, getElem?_eq_getD (by omega) 0, behind_of_le (by omega)]
      exact depayFragment_done grants h rtp _ _ _

/-- The loop over the access units of an AAC packet whose headers are there. -/
theorem depayAacUnits_done (h : r.Fits) (rtp : View) {count i cursor : ℕ}
    (hheaders : 2 + (i + count) * 2 ≤ rtp.payload.length) :
    Done (r.depayAacUnits grants rtp count i cursor) := by
  induction count generalizing i cursor r with
  | zero => exact ⟨_, rfl, h⟩
  | succ count ih =>
      rw [depayAacUnits, getElem?_eq_getD (by omega) 0, getElem?_eq_getD (by omega) 0]
      dsimp only [bind_eq_bind, bind_some]
      split
      case isTrue => exact ⟨_, rfl, h.congr rfl rfl⟩
      case isFalse hinside =>
        have hasked : (r.ask grants).1.Fits := h.congr rfl rfl
        split
        · rw [span_of_le (by omega), bind_some]
          obtain ⟨rest, hrest, hfits⟩ := ih (pushBytes_fits grants hasked _ _ _ _)
            (by omega : 2 + (i + 1 + count) * 2 ≤ rtp.payload.length)
          rw [hrest]
          exact ⟨_, rfl, hfits⟩
        · exact ⟨_, rfl, hasked⟩

/-- **The AAC depayloader.** -/
theorem depayAac_done (h : r.Fits) (rtp : View) : Done (r.depayAac grants rtp) := by
  rw [depayAac]
  split
  case isTrue => exact ⟨_, rfl, h⟩
  case isFalse hlong =>
    rw [getElem?_eq_getD (by omega) 0, getElem?_eq_getD (by omega) 0]
    dsimp only [bind_eq_bind, bind_some]
    split
    · exact ⟨_, rfl, h⟩
    · exact depayAacUnits_done grants h rtp (by omega)

theorem depayPcm_done (h : r.Fits) (rtp : View) : Done (r.depayPcm grants rtp) := by
  rw [depayPcm]
  split
  · exact ⟨_, rfl, h⟩
  · obtain ⟨one, happend, hfits⟩ := appendAu_kept grants (beginAu_fits h rtp.timestamp) rtp.payload
    rw [Depayloader.span_all]
    dsimp only [bind_eq_bind, bind_some]
    rw [happend]
    refine ⟨_, rfl, ?_⟩
    split
    · split
      · exact pushBytes_fits grants one.1.takeAu_fits _ _ _ _
      · exact hfits
    · exact one.1.resetAu_fits

theorem follow_fits (h : r.Fits) (seq : BitVec 16) : (r.follow seq).Fits := by
  have hfollow : (r.s.follow seq).auData =
      if r.s.haveSeq = true ∧ seq ≠ r.s.nextSeq then [] else r.s.auData := by
    rw [Depayloader.follow]
    dsimp only
    split <;> rfl
  by_cases hgap : r.s.haveSeq = true ∧ seq ≠ r.s.nextSeq
  · rw [if_pos hgap] at hfollow
    rw [follow, if_pos hgap]
    exact .emptied hfollow _
  · rw [if_neg hgap] at hfollow
    rw [follow, if_neg hgap]
    exact h.congr hfollow rfl

/-- **A buffer on the sink pad.** -/
theorem push_done (h : r.Fits) (buf : Buffer) : Done (r.push grants buf) := by
  rw [push]
  split
  · exact ⟨_, rfl, pushAu_fits grants r⟩
  · rw [checkedParseRtp_eq, bind_eq_bind, bind_some]
    cases parseRtp buf.data with
    | none => exact ⟨_, rfl, h.congr rfl rfl⟩
    | some rtp =>
        dsimp only
        split
        · exact ⟨_, rfl, h.congr rfl rfl⟩
        · have hfits := follow_fits (h.congr rfl rfl : Fits { r with s := { r.s with
            inPackets := r.s.inPackets + 1
            packets := r.s.packets + 1
            bytes := r.s.bytes + buf.data.length } }) rtp.seq
          rw [depay]
          split
          · exact depayH264_done grants hfits rtp
          · exact depayH265_done grants hfits rtp
          · exact depayAac_done grants hfits rtp
          · exact depayPcm_done grants hfits rtp

theorem handle_done (h : r.Fits) (event : Event) : Done (r.handle grants event) := by
  cases event with
  | push buf => exact push_done grants h buf
  | setCodec codec => exact ⟨_, rfl, resetAu_fits _⟩
  | setPayloadType pt => exact ⟨_, rfl, h.congr rfl rfl⟩
  | setSsrc ssrc => exact ⟨_, rfl, h.congr rfl rfl⟩
  | setClockRate rate => exact ⟨_, rfl, h.congr rfl rfl⟩
  | setChannels channels => exact ⟨_, rfl, h.congr rfl rfl⟩
  | setSampleSize size => exact ⟨_, rfl, h.congr rfl rfl⟩
  | opens => exact ⟨_, rfl, .emptied rfl _⟩
  | closes => exact ⟨_, rfl, .emptied rfl _⟩

/-- A whole run. -/
theorem handleAll_fits (h : r.Fits) (events : List Event) :
    ∃ r', r.handleAll grants events = some r' ∧ r'.Fits := by
  induction events generalizing r with
  | nil => exact ⟨r, rfl, h⟩
  | cons event events ih =>
      obtain ⟨one, hone, hfits⟩ := handle_done grants h event
      obtain ⟨r', hrest, hlast⟩ := ih hfits
      exact ⟨r', by rw [handleAll, hone, bind_some, hrest], hlast⟩

end Memory

/-- **The depayloader reads only what it has received.**  Whatever comes after it has been opened:
no read leaves the packet, no write the memory of the access unit, no difference of sizes wraps
around, every loop ends, and the access unit is not longer than its memory. -/
theorem reads_received (grants : ℕ → Bool) (r : Room) (events : List Event) :
    ∃ r', r.opened.handleAll grants events = some r' ∧ r'.s.auData.length ≤ r'.cap := by
  obtain ⟨r', hrun, hfits⟩ := handleAll_fits grants (.emptied rfl _ : r.opened.Fits) events
  exact ⟨r', hrun, hfits.length_le⟩

end Room

end Zstreamer.Rtp

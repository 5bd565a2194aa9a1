/-
# What the depayloader reads

The parser of packets and the H.264 and AAC depayloaders once more, with every read checked and
the loop over an aggregation packet for so many turns at most.  They never fail, and give what
the unchecked ones give: the depayloaders read inside of the packet only, and their loops
end.
-/

import Zstreamer.Foundation.Cursor
import Zstreamer.Rtp.Depayloader

namespace Zstreamer.Rtp

open Foundation

/-! ## The header -/

/-- The view of a packet, with checked reads. -/
def checkedViewAt (packet : List Byte) (hlen : ℕ) : Option View := do
  let payload ← behind packet hlen
  let p₁ ← packet[1]?
  let p₂ ← packet[2]?
  let p₃ ← packet[3]?
  let p₄ ← packet[4]?
  let p₅ ← packet[5]?
  let p₆ ← packet[6]?
  let p₇ ← packet[7]?
  let p₈ ← packet[8]?
  let p₉ ← packet[9]?
  let p₁₀ ← packet[10]?
  let p₁₁ ← packet[11]?
  some
    { payload := payload
      payloadType := p₁ &&& 0x7f
      marker := p₁ &&& 0x80 ≠ 0
      seq := be16 p₂ p₃
      timestamp := be32 p₄ p₅ p₆ p₇
      ssrc := be32 p₈ p₉ p₁₀ p₁₁ }

/-- `rtp_depayloader_parse_rtp`, with checked reads. -/
def checkedParseRtp (packet : List Byte) : Option (Option View) :=
  let size := packet.length
  if size < 12 ∨ size > maxPacket then some none
  else do
    let first ← packet[0]?
    let hlen := 12 + (first &&& 0x0f).toNat * 4
    if first &&& 0xc0 ≠ 0x80 then some none
    else if hlen > size then some none
    else if first &&& 0x10 ≠ 0 then
      if hlen + 4 > size then some none
      else do
        let high ← packet[hlen + 2]?
        let low ← packet[hlen + 3]?
        let hlen := hlen + (4 + (be16 high low).toNat * 4)
        if hlen > size then some none else (checkedViewAt packet hlen).map some
    else (checkedViewAt packet hlen).map some

theorem checkedViewAt_eq {packet : List Byte} {hlen : ℕ} (hheader : 12 ≤ packet.length)
    (hinside : hlen ≤ packet.length) : checkedViewAt packet hlen = some (viewAt packet hlen) := by
  have hthere : ∀ i < 12, packet[i]? = some (packet.getD i 0) := fun i hi =>
    getElem?_eq_getD (by omega) 0
  rw [checkedViewAt, behind_of_le hinside, hthere 1 (by omega), hthere 2 (by omega),
    hthere 3 (by omega), hthere 4 (by omega), hthere 5 (by omega), hthere 6 (by omega),
    hthere 7 (by omega), hthere 8 (by omega), hthere 9 (by omega), hthere 10 (by omega),
    hthere 11 (by omega)]
  rfl

/-- **The parser reads inside of the packet only.** -/
theorem checkedParseRtp_eq (packet : List Byte) :
    checkedParseRtp packet = some (parseRtp packet) := by
  rw [checkedParseRtp, parseRtp]
  dsimp only
  by_cases hsize : packet.length < 12 ∨ packet.length > maxPacket
  · rw [if_pos hsize, if_pos hsize]
  · rw [if_neg hsize, if_neg hsize, getElem?_eq_getD (by omega : 0 < packet.length) 0]
    dsimp only [Option.bind_eq_bind, Option.bind_some]
    split
    · rfl
    split
    · rfl
    rename_i hsources
    split
    · split
      · rfl
      · rw [getElem?_eq_getD (by omega) 0, getElem?_eq_getD (by omega) 0]
        dsimp only [Option.bind_some]
        split
        · rfl
        · rw [checkedViewAt_eq (by omega) (by omega)]
          rfl
    · rw [checkedViewAt_eq (by omega) (by omega)]
      rfl

namespace Depayloader

/-- A turn of the loop over a STAP-A packet: it ends at an empty NAL unit. -/
def stapTurn (p : List Byte) : ℕ → Option (Turn (List Byte)) :=
  sizedTurn (fun high low => (be16 high low).toNat) true p

/-- The NAL units of a STAP-A packet. -/
def stapUnits (p : List Byte) : Option (List (List Byte)) := collect (stapTurn p) p.length 1

/-- `rtp_depayloader_depay_h264`, with checked reads. -/
def checkedDepayH264 (s : Depayloader) (rtp : View) : Option Depayed :=
  if rtp.payload.length = 0 then some ⟨s, [], false⟩
  else do
    let first ← rtp.payload[0]?
    let nalType := first &&& 0x1f
    if 1 ≤ nalType ∧ nalType ≤ 23 then do
      let nal ← span rtp.payload 0 rtp.payload.length
      some (((s.beginAu rtp.timestamp).appendUnit nal).finish rtp)
    else if nalType = 24 then do
      let units ← stapUnits rtp.payload
      some ((units.foldl appendUnit (s.beginAu rtp.timestamp)).finish rtp)
    else if nalType = 28 then
      if rtp.payload.length < 2 then some ⟨s, [], false⟩
      else do
        let fuHeader ← rtp.payload[1]?
        let data ← span rtp.payload 2 (rtp.payload.length - 2)
        some (s.depayFragment rtp (fuHeader &&& 0x80 ≠ 0)
          [(first &&& 0xe0) ||| (fuHeader &&& 0x1f)] data)
    else do
      let nal ← span rtp.payload 0 rtp.payload.length
      some (((s.beginAu rtp.timestamp).appendUnit nal).finish rtp)

/-- The loop over the access units of an AAC packet, with checked reads. -/
def checkedAacUnits (rtp : View) : ℕ → ℕ → ℕ → Depayloader → Option Depayed
  | 0, _, _, s => some ⟨s, [], true⟩
  | count + 1, i, cursor, s => do
      let high ← rtp.payload[2 + i * 2]?
      let low ← rtp.payload[2 + i * 2 + 1]?
      let size := (be16 high low >>> 3).toNat
      let rate : BitVec 64 := s.clockRate.setWidth 64
      let pts := tsToPts rtp.timestamp s.clockRate +
        BitVec.ofNat 64 i * 1024 * 1000000000 / rate
      if size = 0 ∨ cursor + size > rtp.payload.length then some ⟨s.dropPacket, [], false⟩
      else do
        let data ← span rtp.payload cursor size
        let one := s.pushBytes data pts (1024 * 1000000000 / rate) false
        let rest ← checkedAacUnits rtp count (i + 1) (cursor + size) one.depayloader
        some ⟨rest.depayloader, one.out ++ rest.out, one.ok && rest.ok⟩

/-- `rtp_depayloader_depay_aac`, with checked reads. -/
def checkedDepayAac (s : Depayloader) (rtp : View) : Option Depayed :=
  if rtp.payload.length < 4 then some ⟨s, [], false⟩
  else do
    let high ← rtp.payload[0]?
    let low ← rtp.payload[1]?
    let auBits := (be16 high low).toNat
    let auHeaderBytes := (auBits + 7) / 8
    if auBits = 0 ∨ auBits % 16 ≠ 0 ∨ 2 + auHeaderBytes > rtp.payload.length then
      some ⟨s, [], false⟩
    else checkedAacUnits rtp (auBits / 16) 0 (2 + auHeaderBytes) s

/-! ## Aggregation packets -/

theorem sizedLoop_aggregated :
    SizedLoop (fun high low => (be16 high low).toNat) true aggregated where
  cons turns high low rest := by
    rw [aggregated]
    simp only [true_and]
  short := eq_nil_of_short (fun _ => rfl) (fun _ => rfl) (fun _ _ => rfl)

/-- The loop over a STAP-A packet reads inside of it, and ends. -/
theorem stapUnits_eq {p : List Byte} (hp : p ≠ []) :
    stapUnits p = some (aggregated p.length (p.drop 1)) := by
  have hpos := List.length_pos_iff.mpr hp
  exact collect_eq (fun off turns _ => sizedLoop_aggregated.follows off turns) hpos (by omega)

/-! ## The depayloaders -/

theorem span_all (p : List Byte) : span p 0 p.length = some p := by
  rw [span_of_le (by omega), List.drop_zero, List.take_length]

/-- **The H.264 depayloader reads inside of the payload only**, and its loop ends. -/
theorem checkedDepayH264_eq (s : Depayloader) (rtp : View) :
    s.checkedDepayH264 rtp = some (s.depayH264 rtp) := by
  rw [checkedDepayH264, depayH264]
  by_cases hempty : rtp.payload = []
  · rw [if_pos (List.length_eq_zero_iff.mpr hempty)]
    dsimp only
    rw [if_pos hempty]
  · have hpos := List.length_pos_iff.mpr hempty
    rw [if_neg (by omega), getElem?_eq_getD hpos 0, span_all, stapUnits_eq hempty]
    dsimp only [Option.bind_eq_bind, Option.bind_some]
    rw [if_neg hempty]
    split
    · rfl
    split
    · rfl
    split
    · split
      · rfl
      · rw [getElem?_eq_getD (by omega) 0, span_behind (by omega)]
        rfl
    · rfl

theorem checkedAacUnits_eq (rtp : View) (count i cursor : ℕ) (s : Depayloader)
    (hheaders : 2 + (i + count) * 2 ≤ rtp.payload.length) :
    s.checkedAacUnits rtp count i cursor = some (s.depayAacUnits rtp count i cursor) := by
  induction count generalizing i cursor s with
  | zero => rfl
  | succ count ih =>
      rw [checkedAacUnits, depayAacUnits, getElem?_eq_getD (by omega) 0, getElem?_eq_getD (by omega) 0]
      dsimp only [Option.bind_eq_bind, Option.bind_some]
      split
      · rfl
      · rename_i hfits
        rw [span_of_le (by omega)]
        dsimp only [Option.bind_some]
        rw [ih _ _ _ (by omega)]
        rfl

/-- **The AAC depayloader reads inside of the payload only.** -/
theorem checkedDepayAac_eq (s : Depayloader) (rtp : View) :
    s.checkedDepayAac rtp = some (s.depayAac rtp) := by
  rw [checkedDepayAac, depayAac]
  by_cases hshort : rtp.payload.length < 4
  · rw [if_pos hshort]
    dsimp only
    rw [if_pos hshort]
  · rw [if_neg hshort, getElem?_eq_getD (by omega) 0, getElem?_eq_getD (by omega) 0]
    dsimp only [Option.bind_eq_bind, Option.bind_some]
    rw [if_neg hshort]
    split
    · rfl
    · rename_i hheaders
      exact checkedAacUnits_eq rtp _ _ _ _ (by omega)

end Depayloader

end Zstreamer.Rtp

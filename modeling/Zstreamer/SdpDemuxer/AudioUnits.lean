/-
# Depacketizing in the SDP demuxer

`sdp_demuxer.c` turns the payloads of a track into NAL units and AAC frames by itself: it
pushes every NAL unit in a buffer of its own, behind a start code of four bytes, and gathers
the fragments of a NAL unit in an array of the track.

Allocations succeed and the source pad of the track is linked.  The time of a buffer comes
from the clock; what is kept of it is the RTP time stamp that it is computed from.
-/

import Zstreamer.Foundation.Tally
import Zstreamer.SdpDemuxer.Items

namespace Zstreamer.SdpDemuxer

open Foundation Rtp List

/-- `SDP_DEMUXER_MAX_FU_ACCUM`. -/
def maxFuAccum : ℕ := 150000

/-- What the depacketizers use of `sdp_track_t`. -/
structure Depacketizer where
  ssrc : BitVec 32
  fuAccum : List Byte
  fuAccumTs : BitVec 32
  fuAccumSsrc : BitVec 32
  deriving DecidableEq, Repr

/-- A buffer on the source pad of the track. -/
structure Frame where
  data : List Byte
  rtpTs : BitVec 32
  deriving DecidableEq, Repr

/-- `sdp_push_h264_nal` and `sdp_push_h265_nal`. -/
def nalFrame (nal : List Byte) (rtpTs : BitVec 32) : Frame := ⟨startCode true ++ nal, rtpTs⟩

/-- The loop over the units of an aggregation packet, each behind its size, for so many turns at
most.  A unit may be empty here. -/
def aggregationLoop : ℕ → List Byte → List (List Byte)
  | turns + 1, high :: low :: rest =>
      let size := (be16 high low).toNat
      if size > rest.length then []
      else rest.take size :: aggregationLoop turns (rest.drop size)
  | _, _ => []

/-- The units of an aggregation packet are read back; they may be empty here. -/
theorem aggregationLoop_sized {nals : List (List Byte)} (hnals : ∀ nal ∈ nals, nal.length < 65536)
    {turns : ℕ} (hturns : (nals.flatMap sized).length ≤ turns) :
    aggregationLoop turns (nals.flatMap sized) = nals := by
  induction nals generalizing turns with
  | nil => cases turns <;> rfl
  | cons nal nals ih =>
      rw [flatMap_cons, length_append, length_sized] at hturns
      obtain ⟨turns, rfl⟩ : ∃ n, turns = n + 1 := ⟨turns - 1, by omega⟩
      obtain ⟨high, low, hbytes, hread⟩ := be16_sized (hnals nal mem_cons_self) (nals.flatMap sized)
      rw [flatMap_cons, hbytes, aggregationLoop]
      simp only [hread]
      rw [if_neg (by rw [length_append]; omega), take_left, drop_left,
        ih (fun other hother => hnals other (mem_cons_of_mem nal hother)) (by omega)]

/-- The loop over the access units of an AAC packet, for so many turns at most: what is behind an
AU header is taken for its access unit. -/
def aacLoop : ℕ → List Byte → List (List Byte)
  | turns + 1, high :: low :: rest =>
      let size := ((be16 high low >>> 3) &&& 0x1fff).toNat
      if size > 0 ∧ size ≤ rest.length then rest.take size :: aacLoop turns (rest.drop size) else []
  | _, _ => []

namespace Depacketizer

/-- The first fragment of a NAL unit brings the header of the unit. -/
def startFragment (t : Depacketizer) (rtpTs : BitVec 32) (header : List Byte) : Depacketizer :=
  { t with fuAccum := header, fuAccumTs := rtpTs, fuAccumSsrc := t.ssrc }

/-- The data of a fragment is copied when there is room for all of it. -/
def copyFragment (t : Depacketizer) (rtpTs : BitVec 32) (data : List Byte) : Depacketizer :=
  if (t.fuAccumSsrc = t.ssrc ∧ t.fuAccumTs = rtpTs) ∧
      data ≠ [] ∧ t.fuAccum.length + data.length ≤ maxFuAccum then
    { t with fuAccum := t.fuAccum ++ data }
  else t

/-- The last fragment pushes what was gathered, if that is more than the header. -/
def endFragment (t : Depacketizer) (headerLen : ℕ) : Depacketizer × List Frame :=
  if t.fuAccum.length > headerLen then ({ t with fuAccum := [] }, [nalFrame t.fuAccum t.fuAccumTs])
  else (t, [])

/-- A fragment of a NAL unit. -/
def depacketizeFragment (t : Depacketizer) (rtpTs : BitVec 32) (start ends : Bool)
    (header data : List Byte) : Depacketizer × List Frame :=
  let t := if start then t.startFragment rtpTs header else t
  let t := t.copyFragment rtpTs data
  if ends then t.endFragment header.length else (t, [])

/-- `sdp_demuxer_depacketize_h264`. -/
def depacketizeH264 (t : Depacketizer) (data : List Byte) (rtpTs : BitVec 32) :
    Depacketizer × List Frame :=
  let p (i : ℕ) : Byte := data.getD i 0
  let nalType := p 0 &&& 0x1f
  let nri := (p 0 >>> 5) &&& 0x03
  if data.length < 1 then (t, [])
  else if nalType ≤ 23 then (t, [nalFrame data rtpTs])
  else if nalType = 28 ∧ data.length ≥ 2 then
    t.depacketizeFragment rtpTs ((p 1 >>> 7) &&& 1 ≠ 0) ((p 1 >>> 6) &&& 1 ≠ 0)
      [(nri <<< 5) ||| (p 1 &&& 0x1f)] (data.drop 2)
  else if nalType = 24 then
    (t, (aggregationLoop data.length (data.drop 1)).map fun nal => nalFrame nal rtpTs)
  else (t, [])

/-- `sdp_demuxer_depacketize_h265`. -/
def depacketizeH265 (t : Depacketizer) (data : List Byte) (rtpTs : BitVec 32) :
    Depacketizer × List Frame :=
  let p (i : ℕ) : Byte := data.getD i 0
  let nalHeader := be16 (p 0) (p 1)
  let nalType := (nalHeader >>> 9) &&& 0x3f
  if data.length < 2 then (t, [])
  else if nalType = 49 then
    if data.length < 3 then (t, [])
    else
      t.depacketizeFragment rtpTs ((p 2 >>> 7) &&& 1 ≠ 0) ((p 2 >>> 6) &&& 1 ≠ 0)
        [(nalHeader >>> 8).setWidth 8, (nalHeader.setWidth 8 &&& 0x81) ||| ((p 2 &&& 0x3f) <<< 1)]
        (data.drop 3)
  else if nalType = 48 then
    (t, (aggregationLoop data.length (data.drop 2)).map fun nal => nalFrame nal rtpTs)
  else (t, [nalFrame data rtpTs])

/-- `sdp_demuxer_depacketize_aac`. -/
def depacketizeAac (t : Depacketizer) (data : List Byte) (rtpTs : BitVec 32) :
    Depacketizer × List Frame :=
  let p (i : ℕ) : Byte := data.getD i 0
  let auHeadersLenBits := (be16 (p 0) (p 1)).toNat
  let auHeadersLenBytes := (auHeadersLenBits + 7) / 8
  if data.length < 4 then (t, [])
  else if auHeadersLenBytes + 2 > data.length then (t, [])
  else (t, (aacLoop data.length (data.drop 2)).map fun au => ⟨au, rtpTs⟩)

/-- `sdp_demuxer_depacketize`; there is no depacketizer for other codecs. -/
def depacketize (t : Depacketizer) (codec : Codec) (payload : List Byte) (rtpTs : BitVec 32) :
    Depacketizer × List Frame :=
  match codec with
  | .h264 => t.depacketizeH264 payload rtpTs
  | .h265 => t.depacketizeH265 payload rtpTs
  | .aac => t.depacketizeAac payload rtpTs
  | .pcm => (t, [])

/-- Payloads one after the other, each with the time stamp of its packet. -/
def depacketizeAll (codec : Codec) : List (List Byte × BitVec 32) → Depacketizer →
    Depacketizer × List Frame
  | [], t => (t, [])
  | (payload, rtpTs) :: packets, t =>
      let one := t.depacketize codec payload rtpTs
      let rest := depacketizeAll codec packets one.1
      (rest.1, one.2 ++ rest.2)

theorem depacketizeAll_append (codec : Codec) (front back : List (List Byte × BitVec 32))
    (t : Depacketizer) : t.depacketizeAll codec (front ++ back) =
      (((t.depacketizeAll codec front).1.depacketizeAll codec back).1,
        (t.depacketizeAll codec front).2 ++
          ((t.depacketizeAll codec front).1.depacketizeAll codec back).2) := by
  induction front generalizing t with
  | nil => rfl
  | cons packet front ih =>
      rw [cons_append, depacketizeAll, depacketizeAll, ih, append_assoc]

/-- A packet leaves the source of the track alone. -/
@[simp]
theorem ssrc_copyFragment (t : Depacketizer) (rtpTs : BitVec 32) (data : List Byte) :
    (t.copyFragment rtpTs data).ssrc = t.ssrc := by
  rw [copyFragment]
  split <;> rfl

end Depacketizer

end Zstreamer.SdpDemuxer

/-! # Access units of AAC

A packet of AAC has the headers of all of its access units first, and then the access
units.  The depayloader reads it so.  The SDP demuxer looks for every access unit right
behind its header, and finds the right ones only when the packet can be read both ways.
-/

namespace Zstreamer.SdpDemuxer

open Foundation Rtp List

/-! ## AU headers -/

theorem toNat_auHeader (index : BitVec 3) {size : ℕ} (hsize : size < 8192) :
    (auHeader index size >>> 3).toNat = size := by
  have hindex := index.isLt
  rw [BitVec.toNat_ushiftRight, auHeader, BitVec.toNat_ofNat, Nat.mod_eq_of_lt (by omega),
    Nat.shiftRight_eq_div_pow]
  omega

theorem toNat_auHeader_masked (index : BitVec 3) {size : ℕ} (hsize : size < 8192) :
    ((auHeader index size >>> 3) &&& 0x1fff).toNat = size := by
  have hmask : (0x1fff : BitVec 16).toNat = 2 ^ 13 - 1 := rfl
  rw [BitVec.toNat_and, toNat_auHeader index hsize, hmask, Nat.and_two_pow_sub_one_eq_mod]
  exact Nat.mod_eq_of_lt hsize

@[simp]
theorem AudioUnit.length_header (au : AudioUnit) : au.header.length = 2 := rfl

theorem length_headers (units : List AudioUnit) :
    (units.flatMap AudioUnit.header).length = 2 * units.length := by
  induction units with
  | nil => rfl
  | cons au units ih =>
      rw [flatMap_cons, length_append, ih, au.length_header, length_cons]
      omega

/-! ## The depayloader -/

theorem link_depayAacUnits (rtp : View) (count i cursor : ℕ) (s : Depayloader) :
    (s.depayAacUnits rtp count i cursor).depayloader.link = s.link := by
  induction count generalizing i cursor s with
  | zero => rfl
  | succ count ih =>
      rw [Depayloader.depayAacUnits]
      dsimp only
      split
      · rfl
      · rw [ih, Depayloader.link_pushBytes]

/-- A number of 16 bits is read where it was written. -/
theorem be16_getD {data : List Byte} (front : List Byte) {x : BitVec 16} {rest : List Byte}
    (hdata : data = front ++ (bytes16 x ++ rest)) {i : ℕ} (hi : i = front.length) :
    be16 (data.getD i 0) (data.getD (i + 1) 0) = x := by
  subst hi
  rw [hdata, getD_append_right _ _ _ _ le_rfl,
    getD_append_right _ _ _ _ (Nat.le_add_right _ 1), Nat.sub_self, Nat.add_sub_cancel_left]
  exact be16_bytes x

/-- An access unit of a valid size. -/
def AudioUnit.Fits (au : AudioUnit) : Prop := 0 < au.data.length ∧ au.data.length < 8192

/-- The data of access units, up to the first one that has none. -/
def filled (units : List AudioUnit) : List (List Byte) :=
  (units.map AudioUnit.data).takeWhile (· ≠ [])

theorem filled_cons (au : AudioUnit) (units : List AudioUnit) :
    filled (au :: units) = if au.data = [] then [] else au.data :: filled units := by
  rw [filled, map_cons, takeWhile_cons]
  by_cases hempty : au.data = []
  · rw [if_pos hempty, if_neg (by simp [hempty])]
  · rw [if_neg hempty, if_pos (decide_eq_true hempty)]
    rfl

theorem filled_eq_map {units : List AudioUnit} (hfits : ∀ au ∈ units, au.Fits) :
    filled units = units.map AudioUnit.data := by
  refine takeWhile_eq_self_iff.mpr fun data hdata => decide_eq_true ?_
  obtain ⟨au, hau, rfl⟩ := mem_map.mp hdata
  exact length_pos_iff.mp (hfits au hau).1

/-- The loop over the access units: some headers and access units are done. -/
theorem depayAacUnits_eq (rtp : View) {units : List AudioUnit}
    (hsizes : ∀ au ∈ units, au.data.length < 8192)
    (front back : List Byte) {i : ℕ} (hfront : front.length = 2 + i * 2)
    (hpayload : rtp.payload = front ++ (units.flatMap AudioUnit.header ++
      (back ++ units.flatMap AudioUnit.data))) (s : Depayloader) :
    (s.depayAacUnits rtp units.length i
      (front.length + 2 * units.length + back.length)).out.map Delivery.data = filled units := by
  induction units generalizing front back i s with
  | nil => rfl
  | cons au units ih =>
      have hsize := hsizes au mem_cons_self
      rw [flatMap_cons, flatMap_cons, append_assoc] at hpayload
      have hread : (be16 (rtp.payload.getD (2 + i * 2) 0) (rtp.payload.getD (2 + i * 2 + 1) 0) >>>
          3).toNat = au.data.length := by
        rw [be16_getD _ hpayload hfront.symm, toNat_auHeader _ hsize]
      rw [filled_cons, length_cons, Depayloader.depayAacUnits]
      dsimp only
      rw [← length_cons (a := au), hread]
      by_cases hempty : au.data = []
      · rw [if_pos hempty, if_pos (.inl (length_eq_zero_iff.mpr hempty))]
        rfl
      have hpos := length_pos_iff.mpr hempty
      have hbefore : rtp.payload = (front ++ (au.header ++ (units.flatMap AudioUnit.header ++ back))) ++
          (au.data ++ units.flatMap AudioUnit.data) := by
        rw [hpayload]
        simp only [append_assoc]
      have hcursor : (front ++ (au.header ++ (units.flatMap AudioUnit.header ++ back))).length =
          front.length + 2 * (au :: units).length + back.length := by
        simp only [length_append, au.length_header, length_headers, length_cons]
        omega
      have htake : (rtp.payload.drop (front.length + 2 * (au :: units).length + back.length)).take
          au.data.length = au.data := by
        rw [hbefore, ← hcursor, drop_left, take_left]
      have hlength : rtp.payload.length = front.length + 2 * (au :: units).length + back.length +
          (au.data.length + (units.flatMap AudioUnit.data).length) := by
        rw [hbefore, length_append, hcursor, length_append]
      have hrest := ih (fun other hother => hsizes other (mem_cons_of_mem au hother))
        (front ++ au.header) (back ++ au.data) (i := i + 1)
        (by rw [length_append, hfront, au.length_header]; omega)
        (by rw [hpayload]; simp only [append_assoc])
      have hnext : (front ++ au.header).length + 2 * units.length + (back ++ au.data).length =
          front.length + 2 * (au :: units).length + back.length + au.data.length := by
        simp only [length_append, au.length_header, length_cons]
        omega
      rw [hnext] at hrest
      rw [if_neg (by omega), htake, Depayloader.pushBytes, if_neg hempty, map_append, hrest,
        if_neg hempty]
      rfl

/-- The access units of a packet are given back, each in a buffer of its own, up to the first
empty one. -/
theorem depayAac_units {units : List AudioUnit} (hne : units ≠ [])
    (hcount : 16 * units.length < 65536) (hsizes : ∀ au ∈ units, au.data.length < 8192)
    {rtp : View} (hpayload : [rtp.payload] = (Item.audio units).payloads .aac) (s : Depayloader) :
    (s.depayAac rtp).out.map Delivery.data = filled units ∧
      (s.depayAac rtp).depayloader.link = s.link := by
  have hpayload := singleton_inj.mp hpayload
  have hpos := length_pos_iff.mpr hne
  have hbits : (be16 (rtp.payload.getD 0 0) (rtp.payload.getD 1 0)).toNat = 16 * units.length := by
    rw [be16_getD [] hpayload (i := 0) rfl, BitVec.toNat_ofNat, Nat.mod_eq_of_lt hcount]
  have hlength : rtp.payload.length =
      2 + (2 * units.length + (units.flatMap AudioUnit.data).length) := by
    rw [hpayload, length_append, length_append, length_headers]
    rfl
  have hdiv : 16 * units.length / 16 = units.length := by omega
  have hbytes : 2 + (16 * units.length + 7) / 8 = 2 + 2 * units.length + 0 := by omega
  rw [Depayloader.depayAac]
  dsimp only
  rw [hbits, if_neg (by omega), if_neg (by omega), hdiv, hbytes]
  refine ⟨?_, link_depayAacUnits rtp _ _ _ s⟩
  exact depayAacUnits_eq rtp hsizes (bytes16 (BitVec.ofNat 16 (16 * units.length))) [] rfl hpayload s

/-- Access units of valid sizes are all given back. -/
theorem depayAac_audio {units : List AudioUnit} (hvalid : (Item.audio units).Valid .aac)
    {rtp : View} (hpayload : [rtp.payload] = (Item.audio units).payloads .aac) (s : Depayloader) :
    (s.depayAac rtp).out.map Delivery.data = units.map AudioUnit.data ∧
      (s.depayAac rtp).depayloader.link = s.link := by
  obtain ⟨-, hne, hcount, hfits⟩ := hvalid
  rw [← filled_eq_map hfits]
  exact depayAac_units hne hcount (fun au hau => (hfits au hau).2) hpayload s

/-! ## The SDP demuxer -/

/-- What the SDP demuxer uses up for an access unit. -/
def consumed (au : List Byte) : ℕ := 2 + au.length

/-- A header that is read is the header of what is behind it. -/
theorem exists_header (high low : Byte) {data : List Byte}
    (hsize : ((be16 high low >>> 3) &&& 0x1fff).toNat = data.length) :
    ∃ index, (⟨index, data⟩ : AudioUnit).header = [high, low] := by
  refine ⟨(be16 high low).setWidth 3, ?_⟩
  have hword := (be16 high low).isLt
  have hmask : (0x1fff : BitVec 16).toNat = 2 ^ 13 - 1 := rfl
  rw [BitVec.toNat_and, BitVec.toNat_ushiftRight, hmask, Nat.and_two_pow_sub_one_eq_mod,
    Nat.shiftRight_eq_div_pow] at hsize
  have hheader : auHeader ((be16 high low).setWidth 3) data.length = be16 high low := by
    refine BitVec.eq_of_toNat_eq ?_
    rw [auHeader, BitVec.toNat_ofNat, BitVec.toNat_setWidth]
    omega
  rw [AudioUnit.header, hheader, bytes16_be16]

/-- The loop ends here: no size, or no access unit of it. -/
def AacEnds (rest : List Byte) : Prop :=
  ∀ high low data, rest = high :: low :: data →
    ((be16 high low >>> 3) &&& 0x1fff).toNat = 0 ∨
      data.length < ((be16 high low >>> 3) &&& 0x1fff).toNat

theorem aacEnds_nil : AacEnds [] := nofun

/-- What is read is a beginning of the bytes: access units, each behind its header.  With turns
enough, the loop ends behind them. -/
theorem aacLoop_reads (turns : ℕ) (bytes : List Byte) :
    ∃ (units : List AudioUnit) (rest : List Byte), units.map AudioUnit.data = aacLoop turns bytes ∧
      bytes = (units.flatMap fun au => au.header ++ au.data) ++ rest ∧
      (bytes.length ≤ turns → AacEnds rest) := by
  induction turns, bytes using aacLoop.induct with
  | case1 turns high low rest size hsize ih =>
      obtain ⟨units, others, hunits, hrest, hends⟩ := ih
      have htake : size = (rest.take size).length := by
        rw [length_take, Nat.min_eq_left hsize.2]
      obtain ⟨index, hheader⟩ := exists_header high low htake
      refine ⟨⟨index, rest.take size⟩ :: units, others, ?_, ?_, fun hturns => hends ?_⟩
      · rw [map_cons, hunits, aacLoop]
        exact (if_pos hsize).symm
      · rw [flatMap_cons, hheader, append_assoc, append_assoc, ← hrest,
          take_append_drop]
        rfl
      · rw [length_cons, length_cons] at hturns
        rw [length_drop]
        omega
  | case2 turns high low rest size hsize =>
      refine ⟨[], high :: low :: rest, ?_, rfl, fun _ => ?_⟩
      · rw [aacLoop]
        exact (if_neg hsize).symm
      · rintro _ _ _ ⟨⟩
        have : ¬ (size > 0 ∧ size ≤ rest.length) := hsize
        omega
  | case3 turns bytes hend =>
      refine ⟨[], bytes, by rw [aacLoop]; rfl; exact hend, rfl, fun hturns => ?_⟩
      rintro high low data rfl
      rw [length_cons] at hturns
      obtain ⟨turns, rfl⟩ : ∃ n, turns = n + 1 := ⟨turns - 1, by omega⟩
      exact (hend turns high low data rfl rfl).elim

theorem weigh_interleaved (units : List AudioUnit) :
    weigh consumed (units.map AudioUnit.data) =
      (units.flatMap fun au => au.header ++ au.data).length := by
  induction units with
  | nil => rfl
  | cons au units ih =>
      rw [map_cons, weigh_cons, ih, flatMap_cons, length_append,
        length_append, au.length_header, consumed]

/-- What is read does not outweigh the bytes. -/
theorem weigh_aacLoop_le (turns : ℕ) (bytes : List Byte) :
    weigh consumed (aacLoop turns bytes) ≤ bytes.length := by
  obtain ⟨units, rest, hunits, hbytes, -⟩ := aacLoop_reads turns bytes
  have hlength := congrArg List.length hbytes
  rw [length_append, ← weigh_interleaved, hunits] at hlength
  omega

theorem aacLoop_of_aacEnds {rest : List Byte} (h : AacEnds rest) (turns : ℕ) :
    aacLoop turns rest = [] := by
  match turns, rest, h with
  | 0, _, _ | _ + 1, [], _ | _ + 1, [_], _ => rfl
  | _ + 1, high :: low :: data, h =>
      have := h high low data rfl
      rw [aacLoop]
      exact if_neg (by omega)

/-- Access units that are each behind its header are read, up to where the loop ends. -/
theorem aacLoop_interleaved {units : List AudioUnit} (hfits : ∀ au ∈ units, au.Fits)
    {rest : List Byte} (hends : AacEnds rest) {turns : ℕ}
    (hturns : (units.flatMap fun au => au.header ++ au.data).length ≤ turns) :
    aacLoop turns ((units.flatMap fun au => au.header ++ au.data) ++ rest) =
      units.map AudioUnit.data := by
  induction units generalizing turns with
  | nil => exact aacLoop_of_aacEnds hends turns
  | cons au units ih =>
      obtain ⟨hpos, hsize⟩ := hfits au mem_cons_self
      rw [flatMap_cons, length_append, length_append, au.length_header] at hturns
      obtain ⟨turns, rfl⟩ : ∃ n, turns = n + 1 := ⟨turns - 1, by omega⟩
      obtain ⟨high, low, hbytes, hbe⟩ := be16_bytes16 (auHeader au.index au.data.length)
        (au.data ++ ((units.flatMap fun au => au.header ++ au.data) ++ rest))
      have hread : ((be16 high low >>> 3) &&& 0x1fff).toNat = au.data.length := by
        rw [hbe, toNat_auHeader_masked _ hsize]
      rw [flatMap_cons, append_assoc, append_assoc, AudioUnit.header, hbytes, aacLoop]
      simp only [hread]
      rw [if_pos ⟨hpos, by rw [length_append]; omega⟩, take_left, drop_left,
        ih (fun other hother => hfits other (mem_cons_of_mem au hother)) (by omega)]
      rfl

/-- The packet reads both ways: the headers and then the access units are, byte for byte, the
access units each behind a header of its size. -/
def ReadsBothWays (units : List AudioUnit) : Prop :=
  ∃ others : List AudioUnit, others.map AudioUnit.data = units.map AudioUnit.data ∧
    units.flatMap AudioUnit.header ++ units.flatMap AudioUnit.data =
      others.flatMap fun au => au.header ++ au.data

theorem length_packet (units : List AudioUnit) :
    (units.flatMap AudioUnit.header ++ units.flatMap AudioUnit.data).length =
      weigh consumed (units.map AudioUnit.data) := by
  rw [length_append, length_headers]
  induction units with
  | nil => rfl
  | cons au units ih =>
      rw [map_cons, weigh_cons, ← ih, flatMap_cons, length_append,
        length_cons, consumed]
      omega

/-- **The SDP demuxer finds the access units of a packet** if and only if it reads both ways. -/
theorem aacLoop_eq_iff {units : List AudioUnit} (hfits : ∀ au ∈ units, au.Fits) {turns : ℕ}
    (hturns : weigh consumed (units.map AudioUnit.data) ≤ turns) :
    aacLoop turns (units.flatMap AudioUnit.header ++ units.flatMap AudioUnit.data) =
      units.map AudioUnit.data ↔ ReadsBothWays units := by
  constructor
  · intro hloop
    obtain ⟨others, rest, hothers, hbytes, -⟩ := aacLoop_reads turns
      (units.flatMap AudioUnit.header ++ units.flatMap AudioUnit.data)
    rw [hloop] at hothers
    have hlength := congrArg List.length hbytes
    rw [length_packet, length_append, ← weigh_interleaved, hothers] at hlength
    have hnil : rest = [] := eq_nil_of_length_eq_zero (by omega)
    rw [hnil, append_nil] at hbytes
    exact ⟨others, hothers, hbytes⟩
  · rintro ⟨others, hothers, hbytes⟩
    rw [hbytes, ← hothers, ← append_nil (others.flatMap _)]
    refine aacLoop_interleaved (fun au hau => ?_) aacEnds_nil ?_
    · have hdata := mem_map_of_mem (f := AudioUnit.data) hau
      rw [hothers] at hdata
      obtain ⟨unit, hunit, hsame⟩ := mem_map.mp hdata
      rw [AudioUnit.Fits, ← hsame]
      exact hfits unit hunit
    · rw [← weigh_interleaved, hothers]
      exact hturns

end Zstreamer.SdpDemuxer

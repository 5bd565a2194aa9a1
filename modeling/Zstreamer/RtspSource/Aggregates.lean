/-
# Packets with several units in the RTSP source

The RTSP source and the depayloader each have a parser of their own for packets with
several units.  They find the same NAL units in a STAP-A packet.  In an AAC packet all AU
headers come before the access units, and the depayloader reads them so; the RTSP source
looks for every access unit right behind its AU header, and finds the same ones only when
the packet can be read that way too.  A packet with one access unit always can.

Both parsers read inside of any payload only, and end.
-/

import Zstreamer.Rtp.DepayReads
import Zstreamer.RtspSource.Depacketize
import Zstreamer.SdpDemuxer.AudioUnits

namespace Zstreamer.RtspSource

open Foundation Rtp List Option
open SdpDemuxer (AudioUnit aggregationLoop aacLoop sized filled AacEnds)

/-! ## The loops of the RTSP source -/

theorem sizedLoop_aggregationLoop :
    SizedLoop (fun high low => (be16 high low).toNat) false aggregationLoop where
  cons turns high low rest := by
    rw [aggregationLoop]
    simp only [Bool.false_eq_true, false_and, false_or]
  short := eq_nil_of_short (fun _ => rfl) (fun _ => rfl) (fun _ _ => rfl)

theorem sizedLoop_aacLoop :
    SizedLoop (fun high low => ((be16 high low >>> 3) &&& 0x1fff).toNat) true aacLoop where
  cons turns high low rest := by
    rw [aacLoop]
    simp only [true_and]
    split
    case isTrue hfits => exact (if_neg (by omega)).symm
    case isFalse hends => exact (if_pos (by omega)).symm
  short := eq_nil_of_short (fun _ => rfl) (fun _ => rfl) (fun _ _ => rfl)

theorem collect_stapTurn {payload : List Byte} (hpayload : 1 ≤ payload.length) :
    collect (stapTurn payload) payload.length 1 =
      some (aggregationLoop payload.length (payload.drop 1)) :=
  collect_eq (fun offset turns _ => sizedLoop_aggregationLoop.follows offset turns) hpayload
    (by omega)

theorem collect_aacTurn {payload : List Byte} (hpayload : 2 ≤ payload.length) :
    collect (aacTurn payload) payload.length 2 = some (aacLoop payload.length (payload.drop 2)) :=
  collect_eq (fun offset turns _ => sizedLoop_aacLoop.follows offset turns) hpayload (by omega)

/-! ## What the RTSP source pushes -/

/-- The data of the buffers that are pushed. -/
def datas (out : List Pushed) : List (List Byte) := out.map Pushed.data

namespace Client

variable (cl : Client) (tr : Track) (now : BitVec 64) {payload : List Byte} (rtpTs ssrc : BitVec 32)

/-- The H.264 depacketizer reads inside of the payload only, and its loop ends. -/
theorem isSome_processH264Rtp (payload : List Byte) :
    (cl.processH264Rtp tr now payload rtpTs ssrc).isSome = true := by
  rw [processH264Rtp]
  split
  · rfl
  · rename_i hpos
    rw [getElem?_eq_getD (by omega) 0, collect_stapTurn (by omega)]
    dsimp only [bind_eq_bind, bind_some]
    split
    · rfl
    split
    · rename_i hfragment
      rw [getElem?_eq_getD (by omega) 0, span_behind (by omega)]
      rfl
    split <;> rfl

/-- The NAL units of a STAP-A packet are pushed, each behind a start code. -/
theorem processH264Rtp_stap {header : Byte} (hheader : header &&& 0x1f = 24)
    {nals : List (List Byte)} (hnals : ∀ nal ∈ nals, nal.length < 65536) :
    (cl.processH264Rtp tr now (header :: nals.flatMap sized) rtpTs ssrc).map (datas ·.2) =
      some (nals.map (startCode true ++ ·)) := by
  have hloop : aggregationLoop (header :: nals.flatMap sized).length (nals.flatMap sized) = nals :=
    SdpDemuxer.aggregationLoop_sized hnals (Nat.le_succ _)
  rw [processH264Rtp, collect_stapTurn (Nat.le_add_left _ _), drop_one, tail_cons, hloop]
  rw [if_neg (by rw [length_cons]; omega), getElem?_cons_zero]
  dsimp only [bind_eq_bind, bind_some]
  rw [hheader, if_neg (by decide), if_neg (fun h => absurd h.1 (by decide)), if_pos rfl]
  rw [Option.map_some, datas, List.map_map]
  rfl

/-- The AAC depacketizer reads inside of the payload only, and its loop ends. -/
theorem isSome_processAacRtp (payload : List Byte) (clockRate : ℤ) :
    (cl.processAacRtp tr now payload rtpTs clockRate).isSome = true := by
  rw [processAacRtp]
  split
  · rfl
  · rename_i hlong
    rw [getElem?_eq_getD (by omega) 0, getElem?_eq_getD (by omega) 0,
      collect_aacTurn (by omega)]
    dsimp only [bind_eq_bind, bind_some]
    split <;> rfl

/-- The RTSP source pushes what its loop finds behind the length of the AU headers. -/
theorem processAacRtp_eq (clockRate : ℤ) (x : BitVec 16) {rest : List Byte}
    (hlong : 2 ≤ rest.length) (hheaders : (x.toNat + 7) / 8 ≤ rest.length) :
    (cl.processAacRtp tr now (bytes16 x ++ rest) rtpTs clockRate).map (datas ·.2.2) =
      some (aacLoop (rest.length + 2) rest) := by
  obtain ⟨high, low, hbytes, hbe⟩ := be16_bytes16 x rest
  have hlength : (bytes16 x ++ rest).length = rest.length + 2 := by
    rw [hbytes]
    rfl
  rw [processAacRtp, collect_aacTurn (by omega), hlength, hbytes, if_neg (by omega)]
  simp only [getElem?_cons_zero, getElem?_cons_succ, drop_succ_cons, drop_zero]
  dsimp only [bind_eq_bind, bind_some]
  rw [hbe, if_neg (by omega), Option.map_some, datas, List.map_map]
  exact congrArg some (map_id _)

end Client

/-! ## AAC packets -/

/-- An AAC packet: the length of the AU headers in bits, the AU headers, and the access units. -/
def aacPayload (units : List AudioUnit) : List Byte :=
  bytes16 (BitVec.ofNat 16 (16 * units.length)) ++
    (units.flatMap AudioUnit.header ++ units.flatMap AudioUnit.data)

/-- The number of AU headers and the sizes of the access units fit into their fields. -/
structure IsAac (units : List AudioUnit) : Prop where
  some : units ≠ []
  count : 16 * units.length < 65536
  sizes : ∀ au ∈ units, au.data.length < 8192

/-- Behind the length of the AU headers, the bytes of the packet are also the same access units,
each right behind a header of its size, up to where the loop ends. -/
def ReadsInterleaved (units : List AudioUnit) : Prop :=
  ∃ (others : List AudioUnit) (rest : List Byte), others.map AudioUnit.data = filled units ∧
    units.flatMap AudioUnit.header ++ units.flatMap AudioUnit.data =
      (others.flatMap fun au => au.header ++ au.data) ++ rest ∧ AacEnds rest

theorem fits_of_map_eq_filled {units others : List AudioUnit}
    (hsizes : ∀ au ∈ units, au.data.length < 8192)
    (hothers : others.map AudioUnit.data = filled units) : ∀ au ∈ others, au.Fits := by
  intro au hau
  have hdata : au.data ∈ (units.map AudioUnit.data).takeWhile (· ≠ []) := by
    have hmem := mem_map_of_mem (f := AudioUnit.data) hau
    rwa [hothers] at hmem
  obtain ⟨unit, hunit, hsame⟩ := mem_map.mp (takeWhile_subset _ hdata)
  have hfilled := mem_takeWhile_imp hdata
  have hne : au.data ≠ [] := of_decide_eq_true hfilled
  exact ⟨length_pos_iff.mpr hne, hsame ▸ hsizes unit hunit⟩

/-- The loop finds the access units of a packet if and only if the packet reads that way. -/
theorem aacLoop_eq_iff {units : List AudioUnit} (hsizes : ∀ au ∈ units, au.data.length < 8192)
    {turns : ℕ} (hturns : (units.flatMap AudioUnit.header ++
      units.flatMap AudioUnit.data).length ≤ turns) :
    aacLoop turns (units.flatMap AudioUnit.header ++ units.flatMap AudioUnit.data) =
      filled units ↔ ReadsInterleaved units := by
  constructor
  · intro hloop
    obtain ⟨others, rest, hothers, hbytes, hends⟩ := SdpDemuxer.aacLoop_reads turns
      (units.flatMap AudioUnit.header ++ units.flatMap AudioUnit.data)
    exact ⟨others, rest, hothers.trans hloop, hbytes, hends hturns⟩
  · rintro ⟨others, rest, hothers, hbytes, hends⟩
    rw [hbytes, length_append] at hturns
    rw [hbytes, ← hothers]
    exact SdpDemuxer.aacLoop_interleaved (fits_of_map_eq_filled hsizes hothers) hends (by omega)

/-! ## The agreement -/

/-- A packet with several units, as its two parsers are to read it. -/
inductive Aggregate
  | aac (units : List AudioUnit)
  | stapA (header : Byte) (nals : List (List Byte))
  deriving DecidableEq, Repr

namespace Aggregate

/-- The payload of the packet. -/
def payload : Aggregate → List Byte
  | aac units => aacPayload units
  | stapA header nals => header :: nals.flatMap sized

/-- The packet is well formed. -/
def WellFormed : Aggregate → Prop
  | aac units => IsAac units
  | stapA header nals => header &&& 0x1f = 24 ∧ ∀ nal ∈ nals, nal ≠ [] ∧ nal.length < 65536

/-- The RTSP source pushes the units that the depayloader extracts from the same payload: the AAC
frames as they are; the NAL units each behind a start code, where the depayloader adds them to
the access unit. -/
def Agrees (packet : Aggregate) (cl : Client) (tr : Track) (now : BitVec 64) (d : Depayloader)
    (rtp : View) : Prop :=
  match packet with
  | aac _ =>
      (cl.processAacRtp tr now packet.payload rtp.timestamp tr.clockRate).map (datas ·.2.2) =
        some ((d.depayAac { rtp with payload := packet.payload }).out.map Delivery.data)
  | stapA _ _ => ∃ nals : List (List Byte),
      (cl.processH264Rtp tr now packet.payload rtp.timestamp rtp.ssrc).map (datas ·.2) =
        some (nals.map (startCode true ++ ·)) ∧
      Depayloader.stapUnits packet.payload = some nals ∧
      d.depayH264 { rtp with payload := packet.payload } =
        (nals.foldl Depayloader.appendUnit (d.beginAu rtp.timestamp)).finish rtp

/-- The packet of AAC reads both ways. -/
def ReadsAlike : Aggregate → Prop
  | aac units => ReadsInterleaved units
  | stapA _ _ => True

variable {packet : Aggregate} (cl : Client) (tr : Track) (now : BitVec 64) (d : Depayloader)
  (rtp : View)

theorem agrees_aac_iff {units : List AudioUnit} (h : IsAac units) :
    (aac units).Agrees cl tr now d rtp ↔ ReadsInterleaved units := by
  have hlength : (units.flatMap AudioUnit.header ++ units.flatMap AudioUnit.data).length =
      2 * units.length + (units.flatMap AudioUnit.data).length := by
    rw [length_append, SdpDemuxer.length_headers]
  have hpos := length_pos_iff.mpr h.some
  have hbits : (BitVec.ofNat 16 (16 * units.length)).toNat = 16 * units.length := by
    rw [BitVec.toNat_ofNat, Nat.mod_eq_of_lt h.count]
  have hlong : 2 ≤ (units.flatMap AudioUnit.header ++ units.flatMap AudioUnit.data).length := by
    omega
  have hpushed := cl.processAacRtp_eq tr now rtp.timestamp tr.clockRate
    (BitVec.ofNat 16 (16 * units.length)) hlong (by omega)
  let seen : View := { rtp with payload := aacPayload units }
  have hseen : [seen.payload] = (SdpDemuxer.Item.audio units).payloads .aac := rfl
  obtain ⟨hextracted, -⟩ := SdpDemuxer.depayAac_units h.some h.count h.sizes hseen d
  refine (iff_of_eq (congrArg (· = _) hpushed)).trans ?_
  rw [some_inj]
  refine (iff_of_eq (congrArg (_ = ·) hextracted)).trans ?_
  exact aacLoop_eq_iff h.sizes (Nat.le_add_right _ 2)

theorem agrees_stapA {header : Byte} {nals : List (List Byte)}
    (h : (stapA header nals).WellFormed) : (stapA header nals).Agrees cl tr now d rtp := by
  obtain ⟨hheader, hnals⟩ := h
  have hloop : aggregated (header :: nals.flatMap sized).length (nals.flatMap sized) = nals :=
    SdpDemuxer.aggregated_sized hnals _ (Nat.le_succ _)
  refine ⟨nals, ?_, ?_, ?_⟩
  · exact cl.processH264Rtp_stap tr now rtp.timestamp rtp.ssrc hheader fun nal hnal =>
      (hnals nal hnal).2
  · exact (Depayloader.stapUnits_eq (cons_ne_nil _ _)).trans (congrArg some hloop)
  · rw [Depayloader.depayH264]
    simp only [payload, getD_cons_zero, hheader, drop_succ_cons, drop_zero, hloop]
    rw [if_neg (cons_ne_nil _ _), if_neg (by decide), if_pos trivial]
    rfl

/-- **The RTSP source and the depayloader agree on a packet with several units** if and only if it
is not AAC, or reads both ways.  On any payload both of them read inside of it only, and end. -/
theorem agrees_iff (h : packet.WellFormed) :
    (packet.Agrees cl tr now d rtp ↔ packet.ReadsAlike) ∧
      ∀ payload : List Byte,
        ((cl.processH264Rtp tr now payload rtp.timestamp rtp.ssrc).isSome = true ∧
          (cl.processAacRtp tr now payload rtp.timestamp tr.clockRate).isSome = true) ∧
        d.checkedDepayH264 { rtp with payload } = some (d.depayH264 { rtp with payload }) ∧
        d.checkedDepayAac { rtp with payload } = some (d.depayAac { rtp with payload }) := by
  refine ⟨?_, fun payload => ⟨⟨?_, ?_⟩, ?_, ?_⟩⟩
  · cases packet with
    | aac units => exact agrees_aac_iff cl tr now d rtp h
    | stapA header nals => exact iff_of_true (agrees_stapA cl tr now d rtp h) trivial
  · exact cl.isSome_processH264Rtp tr now _ _ payload
  · exact cl.isSome_processAacRtp tr now _ payload _
  · exact d.checkedDepayH264_eq _
  · exact d.checkedDepayAac_eq _

/-! ## Two access units -/

/-- A track of AAC. -/
def audioTrack : Track := ⟨.audio, 97, Rtsp.text "MPEG4-GENERIC", 48000, false, 0, 0⟩

/-- A depayloader of AAC. -/
def aacDepayloader : Depayloader :=
  ⟨.aac, 97, 48000, 2, 0, 0, false, false, 0, [], 0, 0, false, false, 0, 0, 0, 0, 0, 0, 0⟩

/-- A packet of the track. -/
def audioView : View := ⟨[], 97, true, 1, 1024, 7⟩

/-- Two access units of one byte each. -/
def twoFrames : List AudioUnit := [⟨0, [0x21]⟩, ⟨0, [0x22]⟩]

/-- Two access units; the first has the bytes of the AU header of the second. -/
def echoFrames : List AudioUnit := [⟨0, [0x00, 0x08]⟩, ⟨0, [0x22]⟩]

/-- The NAL units of a STAP-A. -/
def threeNals : List (List Byte) := [[0x67, 0x42], [0x68, 0xce], [0x65, 0x88, 0x84]]

theorem agrees_iff_several :
    (stapA 0x18 threeNals).Agrees Client.start audioTrack 1 { aacDepayloader with codec := .h264 }
        audioView ∧
      (aac echoFrames).Agrees Client.start audioTrack 1 aacDepayloader audioView ∧
      (Client.start.processH264Rtp audioTrack 1 [0x18, 0x00, 0x09, 0x65] 1024 7).isSome = true := by
  have haac : (aac echoFrames).WellFormed := ⟨by decide, by decide, by decide⟩
  have hstapA : (stapA 0x18 threeNals).WellFormed := ⟨by decide, by decide⟩
  obtain ⟨hstapA, hreads⟩ := agrees_iff Client.start audioTrack 1
    { aacDepayloader with codec := .h264 } audioView hstapA
  exact ⟨hstapA.mpr trivial,
    (agrees_iff Client.start audioTrack 1 aacDepayloader audioView haac).1.mpr
      ⟨echoFrames, [], rfl, by decide, SdpDemuxer.aacEnds_nil⟩, (hreads _).1.1⟩

/-- Of two access units the RTSP source pushes a byte of an AU header. -/
theorem twoFrames_disagree : (aac twoFrames).WellFormed ∧
    ¬ (aac twoFrames).Agrees Client.start audioTrack 1 aacDepayloader audioView := by
  refine ⟨⟨by decide, by decide, by decide⟩, ?_⟩
  show ¬ (Client.start.processAacRtp audioTrack 1 (aacPayload twoFrames) 1024 48000).map
    (datas ·.2.2) = some ((aacDepayloader.depayAac
      { audioView with payload := aacPayload twoFrames }).out.map Delivery.data)
  decide +kernel

end Aggregate

end Zstreamer.RtspSource

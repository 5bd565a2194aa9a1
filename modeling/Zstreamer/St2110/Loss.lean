/-
# Lost packets of the ST 2110-21 payloader

The depayloader collects the pieces that packets carry without looking for gaps.  So
what it pushes is made of complete NAL units of one access unit when an access unit
whose marker arrives has lost whole NAL units only, and one whose marker is lost has lost
everything or is the end of all that is pushed.
-/

import Mathlib.Data.List.Sublists
import Zstreamer.Foundation.Collecting
import Zstreamer.Rtp.RoundTrip
import Zstreamer.St2110.Mtu

namespace Zstreamer.St2110

open Foundation Rtp List

/-! ## What a packet carries -/

/-- The marker of a packet. -/
def marker (p : Packet) : Bool := p.data.getD 1 0 &&& 0x80 ≠ 0

/-- A packet begins a NAL unit when it is not a fragment, or the first one. -/
def begins (isH265 : Bool) (p : Packet) : Bool :=
  let q (i : ℕ) : Byte := ((payloadOf p.data).getD []).getD i 0
  if isH265 then (q 0 &&& 0x7e) >>> 1 ≠ 49 ∨ q 2 &&& 0x80 ≠ 0
  else q 0 &&& 0x1f ≠ 28 ∨ q 1 &&& 0x80 ≠ 0

/-- What a packet adds to the access unit. -/
def contentOf (isH265 : Bool) (p : Packet) : List Byte :=
  match (⟨isH265, [], 0⟩ : Depayloader).take ((payloadOf p.data).getD []) 0 with
  | none => []
  | some s => s.auData

/-- The piece that a packet carries. -/
def pieceOf (isH265 : Bool) (p : Packet) : Piece Byte :=
  ⟨begins isH265 p, marker p, contentOf isH265 p⟩

/-- A packet that was made of a request. -/
structure MadeOf (r : Request) (p : Packet) : Prop where
  payload : payloadOf p.data = some (r.header ++ r.payload)
  marker : marker p = r.marker

theorem madeOf_makePacket (s : Payloader) {r : Request} (hne : r.header ++ r.payload ≠ [])
    (pts : BitVec 64) : MadeOf r (s.makePacket r pts).2 := by
  obtain ⟨-, hmarker⟩ := payloadType_or_marker (s.header r).payloadType (s.header r).marker
  constructor
  · have hpos := length_pos_iff.mpr hne
    rw [Payloader.makePacket, payloadOf]
    simp only [Header.bytes, cons_append, nil_append, getD_cons_zero,
      length_cons]
    rw [if_neg (by omega), if_neg (by decide), if_neg]
    · rfl
    · have hcsrc : ((0x80 : Byte) &&& 0x0f).toNat = 0 := rfl
      rw [hcsrc]
      omega
  · rw [St2110.marker, Payloader.makePacket]
    simp only [Header.bytes, cons_append, getD_cons_succ, getD_cons_zero, hmarker]
    rfl

/-- What is asked for a NAL unit is not empty. -/
theorem Carries.payload_ne {codec : Codec} {r : Request} {p : Piece Byte}
    (h : CarriesVideo codec r p) : r.header ++ r.payload ≠ [] := by
  obtain ⟨nal, hnal, hcarries⟩ := h
  cases hcarries with
  | whole => exact hnal.clean.nonempty
  | fragment first last data =>
      refine append_ne_nil_of_left_ne_nil (fun hnil => ?_) data
      have hlength := codec.layout.length_header nal first last
      rw [show codec.layout.header nal first last = [] from hnil] at hlength
      cases hlength

/-- A packet that carries a piece. -/
def Bears (isH265 : Bool) (p : Packet) (piece : Piece Byte) : Prop :=
  ∃ r, CarriesVideo (codecOf isH265) r piece ∧ MadeOf r p

namespace Bears

variable {isH265 : Bool} {p : Packet} {piece : Piece Byte}

theorem take (h : Bears isH265 p piece) {s : Depayloader} (hs : s.isH265 = isH265)
    (pts : BitVec 64) : ∃ payload, payloadOf p.data = some payload ∧
      s.take payload pts = some (s.takePiece piece.starts piece.content pts) := by
  obtain ⟨r, ⟨nal, hnal, hcarries⟩, hmade⟩ := h
  subst hs
  refine ⟨_, hmade.payload, ?_⟩
  cases hcarries with
  | whole => exact s.take_whole hnal pts
  | fragment first last data => exact s.take_fragment hnal first last data pts

theorem begins_eq (h : Bears isH265 p piece) : begins isH265 p = piece.starts := by
  obtain ⟨r, ⟨nal, hnal, hcarries⟩, hmade⟩ := h
  rw [begins, hmade.payload]
  cases hcarries with
  | whole =>
      cases isH265 with
      | false =>
          have htype : ∀ b : Byte, 1 ≤ b &&& 0x1f ∧ b &&& 0x1f ≤ 23 → b &&& 0x1f ≠ 28 := by decide
          exact decide_eq_true (.inl (htype _ hnal.2))
      | true =>
          refine decide_eq_true (.inl ?_)
          rw [Payloader.nalType_h265]
          exact hnal.2.2.2
  | fragment first last data =>
      cases isH265 with
      | false =>
          obtain ⟨htype, hstart, -⟩ := fragment_h264 (nal.getD 0 0) first last
          simp only [codecOf, Codec.layout, layoutH264, Bool.false_eq_true, if_false,
            Option.getD_some, cons_append, getD_cons_zero, getD_cons_succ, htype]
          exact (decide_eq_decide.mpr (or_iff_right (not_not_intro rfl))).trans hstart
      | true =>
          obtain ⟨htype, hstart, -⟩ := fragment_h265 (nal.getD 0 0) first last
          simp only [codecOf, Codec.layout, layoutH265, if_true, Option.getD_some,
            cons_append, getD_cons_zero, getD_cons_succ, Payloader.nalType_h265,
            htype]
          exact (decide_eq_decide.mpr (or_iff_right (not_not_intro rfl))).trans hstart

theorem marker_eq (h : Bears isH265 p piece) : marker p = piece.ends := by
  obtain ⟨r, ⟨nal, hnal, hcarries⟩, hmade⟩ := h
  rw [hmade.marker, hcarries.marker_eq]

/-- A packet carries the piece that its bytes say. -/
theorem pieceOf_eq (h : Bears isH265 p piece) : pieceOf isH265 p = piece := by
  obtain ⟨payload, hpayload, htake⟩ := h.take (s := ⟨isH265, [], 0⟩) rfl 0
  rw [pieceOf, h.begins_eq, h.marker_eq, contentOf, hpayload, Option.getD_some, htake]
  rfl

theorem content_ne (h : Bears isH265 p piece) (hstarts : piece.starts = true) :
    piece.content ≠ [] := by
  obtain ⟨r, ⟨nal, hnal, hcarries⟩, hmade⟩ := h
  exact hcarries.content_ne hstarts

end Bears

/-! ## The depayloader collects -/

namespace Depayloader

/-- What the depayloader has, as a collector. -/
def collector (s : Depayloader) : Collector Byte (BitVec 64) := ⟨s.auData, s.auPts⟩

/-- What is handed over as a buffer. -/
def frame (out : List Byte × BitVec 64) : Frame := ⟨out.1, out.2, out.2⟩

theorem pushAu_eq (s : Depayloader) :
    s.pushAu.1.isH265 = s.isH265 ∧ s.pushAu.1.collector = ⟨[], s.auPts⟩ ∧
      s.pushAu.2 = (if s.auData = [] then [] else [(s.auData, s.auPts)]).map frame := by
  rw [pushAu]
  split
  · rename_i hempty
    exact ⟨rfl, congrArg (fun held => Collector.mk held s.auPts) hempty, rfl⟩
  · exact ⟨rfl, rfl, rfl⟩

theorem process_eq {s : Depayloader} {p : Packet} {piece : Piece Byte}
    (h : Bears s.isH265 p piece) :
    (s.process p).1.isH265 = s.isH265 ∧
      (s.process p).1.collector = (s.collector.receive piece p.pts).1 ∧
      (s.process p).2 = (s.collector.receive piece p.pts).2.map frame := by
  obtain ⟨payload, hpayload, htake⟩ := h.take rfl p.pts
  have hmarker := h.marker_eq
  rw [marker] at hmarker
  rw [process, hpayload]
  dsimp only
  rw [htake]
  dsimp only
  rw [Collector.receive, ← hmarker]
  by_cases hends : p.data.getD 1 0 &&& 0x80 ≠ 0
  · rw [if_pos hends, if_pos (decide_eq_true hends)]
    exact (s.takePiece piece.starts piece.content p.pts).pushAu_eq
  · rw [if_neg hends, if_neg (by rw [decide_eq_false hends]; exact Bool.false_ne_true)]
    exact ⟨rfl, rfl, rfl⟩

/-- **The depayloader collects the pieces of the packets.** -/
theorem processAll_eq {isH265 : Bool} {packets : List Packet}
    (hpackets : ∀ p ∈ packets, Bears isH265 p (pieceOf isH265 p)) {s : Depayloader}
    (hs : s.isH265 = isH265) :
    (s.processAll packets).2 =
      (Collector.run (pieceOf isH265) Packet.pts packets s.collector).2.map frame := by
  induction packets generalizing s with
  | nil => rfl
  | cons p packets ih =>
      obtain ⟨hisH265, hcollector, hout⟩ :=
        process_eq (s := s) (hs ▸ hpackets p mem_cons_self)
      have hrest := ih (fun other hother => hpackets other (mem_cons_of_mem p hother))
        (hisH265.trans hs)
      rw [hcollector, hs] at hrest
      rw [processAll, Collector.run, map_append]
      dsimp only
      rw [hrest, hout, hs]

end Depayloader

/-! ## The packets of access units -/

namespace Payloader

/-- The codec of the payloader. -/
def codec (s : Payloader) : Codec := codecOf s.isH265

theorem layout_eq (s : Payloader) : s.layout = s.codec.layout := by
  rw [layout, codec]
  cases s.isH265 with
  | false => rfl
  | true => rfl

/-- Access units one after the other, with the packets of each. -/
def processAll (turns : ℕ) : List Rtp.Buffer → Payloader → Except Fault (List (List Packet))
  | [], _ => .ok []
  | buf :: bufs, s => do
      let one ← s.process turns buf
      let rest ← processAll turns bufs one.1
      return one.2 :: rest

theorem headerLen_lt_room {s : Payloader} (hmtu : 16 ≤ s.mtu.toInt) :
    s.codec.layout.headerLen < s.room := by
  rw [room, codec]
  cases s.isH265 with
  | false =>
      have hheader : (codecOf false).layout.headerLen = 2 := rfl
      rw [hheader]
      omega
  | true =>
      have hheader : (codecOf true).layout.headerLen = 3 := rfl
      rw [hheader]
      omega

theorem intSize_eq {data : List Byte} (hsize : data.length ≤ int32Max) :
    intSize data = data.length := by
  rw [int32Max] at hsize
  have hmod : data.length % 2 ^ 32 = data.length := Nat.mod_eq_of_lt (by omega)
  rw [intSize, BitVec.toInt_eq_toNat_cond, BitVec.toNat_ofNat, hmod, if_pos (by omega)]

theorem estimates {s : Payloader} (hmtu : 16 ≤ s.mtu.toInt) {size : ℤ} (hlow : 0 ≤ size)
    (hhigh : size ≤ int32Max) : s.Estimates size := by
  have hroom : 4 ≤ s.room := by
    rw [room]
    omega
  rw [int32Max] at hhigh
  have hpos : 0 ≤ size.tdiv s.room := Int.tdiv_nonneg hlow (by omega)
  have hle : size.tdiv s.room * 4 ≤ size := by
    rw [Int.tdiv_eq_ediv_of_nonneg hlow] at hpos ⊢
    exact (Int.mul_le_mul_of_nonneg_left hroom hpos).trans (Int.ediv_mul_le size (by omega))
  exact ⟨by omega, by omega, by omega, by omega⟩

/-- The requests for a NAL unit carry its cut. -/
theorem sendNal_cut {s : Payloader} (hmtu : 16 ≤ s.mtu.toInt) {nal : List Byte}
    (hnal : ValidNal s.codec nal) {turns : ℕ} {timestamp : BitVec 32} {marker : Bool}
    {requests : List Request}
    (hsend : s.sendNal turns nal nal.length timestamp marker = .ok requests) :
    ∃ cut : Cut Byte, cut.content = startCode true ++ nal ∧
      List.Forall₂ (CarriesVideo s.codec) requests (cut.pieces marker) := by
  have hroom := headerLen_lt_room hmtu
  rw [sendNal, Int.toNat_natCast, take_length, layout_eq] at hsend
  split at hsend
  case isTrue hwhole =>
    rw [if_neg (by omega)] at hsend
    cases hsend
    refine ⟨⟨startCode true ++ nal, []⟩, append_nil _, .cons ⟨nal, hnal, ?_⟩ .nil⟩
    rw [isEmpty_nil, Bool.and_true]
    exact .whole timestamp marker
  case isFalse hlong =>
    have hheader : s.codec.layout.nalHeader < nal.length := by
      rw [Layout.headerLen] at hroom
      omega
    rw [if_neg hnal.clean.nonempty, if_neg (by omega), if_neg (by
      rw [nextChunk_length]
      omega)] at hsend
    split at hsend
    · cases hsend
    · rename_i found hloop
      cases hsend
      obtain ⟨⟨cut, hcontent, hcut⟩, -⟩ := fragmentLoop_cut hroom hheader hloop
      exact ⟨cut, hcontent, hcut.imp fun _ _ h => ⟨nal, hnal, h⟩⟩

/-- The requests for NAL units carry their cuts. -/
theorem sendUnits_cuts {s : Payloader} (hmtu : 16 ≤ s.mtu.toInt) {nals : List (List Byte)}
    (hnals : ∀ nal ∈ nals, ValidNal s.codec nal) {turns : ℕ} {timestamp : BitVec 32}
    {requests : List Request} (hsend : s.sendUnits turns timestamp (flagLast nals) = .ok requests) :
    ∃ cuts, CutsOf cuts nals ∧
      List.Forall₂ (CarriesVideo s.codec) requests (groupPieces cuts) := by
  induction nals using flagLast.induct generalizing requests with
  | case1 =>
      cases hsend
      exact ⟨[], .nil, .nil⟩
  | case2 nal =>
      rw [flagLast, sendUnits, sendUnits] at hsend
      cases hone : s.sendNal turns nal nal.length timestamp true with
      | error fault =>
          rw [hone] at hsend
          cases hsend
      | ok one =>
          rw [hone] at hsend
          cases hsend
          obtain ⟨cut, hcontent, hcut⟩ := sendNal_cut hmtu (hnals nal mem_cons_self) hone
          refine ⟨[cut], .cons hcontent .nil, ?_⟩
          have hsingle : groupPieces [cut] = cut.pieces true := append_nil _
          rw [hsingle, append_nil]
          exact hcut
  | case3 nal next rest ih =>
      rw [flagLast, sendUnits] at hsend
      cases hone : s.sendNal turns nal nal.length timestamp false with
      | error fault =>
          rw [hone] at hsend
          cases hsend
      | ok one =>
          cases hothers : s.sendUnits turns timestamp (flagLast (next :: rest)) with
          | error fault =>
              rw [hone, hothers] at hsend
              cases hsend
          | ok others =>
              rw [hone, hothers] at hsend
              cases hsend
              obtain ⟨cut, hcontent, hcut⟩ := sendNal_cut hmtu (hnals nal mem_cons_self) hone
              obtain ⟨cuts, hcontents, hcuts⟩ :=
                ih (fun other hother => hnals other (mem_cons_of_mem nal hother)) hothers
              refine ⟨cut :: cuts, .cons hcontent hcontents, ?_⟩
              rw [groupPieces_cons cut]
              · exact rel_append hcut hcuts
              · rintro rfl
                cases hcontents

/-- The packets that are made of requests bear what these carry. -/
theorem makeAll_bears {s : Payloader} {requests : List Request} {pieces : List (Piece Byte)}
    (hcarries : List.Forall₂ (CarriesVideo s.codec) requests pieces) (pts : BitVec 64) :
    (makeAll pts requests s).1.mtu = s.mtu ∧ (makeAll pts requests s).1.isH265 = s.isH265 ∧
      List.Forall₂ (Bears s.isH265) (makeAll pts requests s).2 pieces ∧
      ∀ p ∈ (makeAll pts requests s).2, p.pts = pts := by
  obtain ⟨isH265, hisH265⟩ : ∃ isH265, isH265 = s.isH265 := ⟨_, rfl⟩
  rw [codec, ← hisH265] at hcarries
  rw [← hisH265]
  induction hcarries generalizing s with
  | nil => exact ⟨rfl, hisH265.symm, .nil, nofun⟩
  | @cons r piece requests pieces hone _ ih =>
      obtain ⟨hmtu, hcodec, hbears, hpts⟩ := ih (s := (s.makePacket r pts).1) hisH265
      refine ⟨hmtu, hcodec, .cons ⟨r, hone, madeOf_makePacket s (Carries.payload_ne hone) pts⟩ hbears,
        fun p hp => ?_⟩
      rcases mem_cons.mp hp with rfl | hp
      · rfl
      · exact hpts p hp

/-- Packets bear the pieces that their bytes say. -/
theorem pieces_of_bears {isH265 : Bool} {packets : List Packet} {pieces : List (Piece Byte)}
    (h : List.Forall₂ (Bears isH265) packets pieces) :
    packets.map (pieceOf isH265) = pieces ∧ ∀ p ∈ packets, Bears isH265 p (pieceOf isH265 p) := by
  induction h with
  | nil => exact ⟨rfl, nofun⟩
  | @cons p piece packets pieces hone _ ih =>
      refine ⟨by rw [map_cons, hone.pieceOf_eq, ih.1], fun q hq => ?_⟩
      rcases mem_cons.mp hq with rfl | hq
      · rw [hone.pieceOf_eq]
        exact hone
      · exact ih.2 q hq

theorem packetize_units {s : Payloader} (hmtu : 16 ≤ s.mtu.toInt) {au : AccessUnit}
    (hau : au.Valid s.codec) (hsize : (annexB au.units).length ≤ int32Max) (turns : ℕ) :
    s.packetize turns au.buffer =
      s.sendUnits turns (ptsToRtpTs au.pts 90000) (flagLast au.nals) := by
  have hlength : intSize au.buffer.data = (annexB au.units).length := intSize_eq hsize
  have hunits : nalUnits (annexB au.units) = flagLast au.nals :=
    nalUnits_annexB hau.1 fun unit hunit => (hau.2 unit hunit).clean
  obtain ⟨found, hfound⟩ : ∃ found, findStartCode (annexB au.units) = some found := by
    obtain ⟨⟨long, nal⟩, units, heq⟩ := exists_cons_of_ne_nil hau.1
    rw [heq, annexB, flatMap_cons, append_assoc]
    exact ⟨_, findStartCode_startCode _ _⟩
  have htake : au.buffer.data.take (intSize au.buffer.data).toNat = annexB au.units := by
    rw [hlength, Int.toNat_natCast]
    exact take_length
  have hestimates := estimates hmtu (Int.natCast_nonneg (annexB au.units).length)
    (by exact_mod_cast hsize)
  rw [packetize_eq (hlength ▸ hestimates), htake, hfound]
  dsimp only
  rw [hunits]
  rfl

/-- What the depayloader can make of the packets of an access unit. -/
structure Sends (s : Payloader) (au : AccessUnit) (packets : List Packet)
    (g : Batch Byte (BitVec 64)) : Prop where
  cuts : CutsOf g.units au.nals
  stamp : g.stamp = au.pts
  sent : Batch.Sent (pieceOf s.isH265) Packet.pts g packets
  bears : ∀ p ∈ packets, Bears s.isH265 p (pieceOf s.isH265 p)

theorem process_sends {s : Payloader} (hmtu : 16 ≤ s.mtu.toInt) {au : AccessUnit}
    (hau : au.Valid s.codec) (hsize : (annexB au.units).length ≤ int32Max) {turns : ℕ}
    {s' : Payloader} {packets : List Packet}
    (hprocess : s.process turns au.buffer = .ok (s', packets)) :
    s'.mtu = s.mtu ∧ s'.isH265 = s.isH265 ∧ ∃ g, s.Sends au packets g := by
  rw [process, packetize_units hmtu hau hsize] at hprocess
  cases hsend : s.sendUnits turns (ptsToRtpTs au.pts 90000) (flagLast au.nals) with
  | error fault =>
      rw [hsend] at hprocess
      cases hprocess
  | ok requests =>
      rw [hsend] at hprocess
      obtain ⟨rfl, rfl⟩ := Prod.mk.inj (Except.ok.inj hprocess)
      obtain ⟨cuts, hcuts, hcarries⟩ := sendUnits_cuts hmtu (fun nal (hnal : nal ∈ au.nals) => by
        obtain ⟨unit, hunit, rfl⟩ := mem_map.mp hnal
        exact hau.2 unit hunit) hsend
      obtain ⟨hmtu', hcodec, hbears, hpts⟩ := makeAll_bears hcarries au.buffer.pts
      obtain ⟨hpieces, hall⟩ := pieces_of_bears hbears
      refine ⟨hmtu', hcodec, ⟨cuts, au.pts⟩, hcuts, rfl, ⟨?_, hpieces, hpts, fun p hp hstarts => ?_⟩,
        hall⟩
      · rintro rfl
        exact hau.1 (map_eq_nil_iff.mp (forall₂_nil_left_iff.mp hcuts))
      · exact (hall p hp).content_ne hstarts

theorem processAll_sends {s start : Payloader} (hmtu : 16 ≤ start.mtu.toInt)
    (hs : s.mtu = start.mtu ∧ s.isH265 = start.isH265) {aus : List AccessUnit}
    (haus : ∀ au ∈ aus, au.Valid start.codec)
    (hsizes : ∀ au ∈ aus, (annexB au.units).length ≤ int32Max) {turns : ℕ}
    {batches : List (List Packet)}
    (hprocess : processAll turns (aus.map AccessUnit.buffer) s = .ok batches) :
    ∃ groups : List (Batch Byte (BitVec 64)),
      List.Forall₂ (fun au g => CutsOf (Batch.units g) au.nals ∧ g.stamp = au.pts) aus groups ∧
      List.Forall₂ (Batch.Sent (pieceOf start.isH265) Packet.pts) groups batches ∧
      ∀ p ∈ batches.flatten, Bears start.isH265 p (pieceOf start.isH265 p) := by
  induction aus generalizing s batches with
  | nil =>
      cases hprocess
      exact ⟨[], .nil, .nil, nofun⟩
  | cons au aus ih =>
      have hcodec : s.codec = start.codec := congrArg codecOf hs.2
      rw [map_cons, processAll] at hprocess
      cases hone : s.process turns au.buffer with
      | error fault =>
          rw [hone] at hprocess
          cases hprocess
      | ok one =>
          cases hothers : processAll turns (aus.map AccessUnit.buffer) one.1 with
          | error fault =>
              simp only [hone, bind, Except.bind, hothers] at hprocess
              cases hprocess
          | ok others =>
              simp only [hone, bind, Except.bind, hothers] at hprocess
              cases hprocess
              obtain ⟨hmtu', hisH265, g, hsends⟩ := process_sends
                (hs.1 ▸ hmtu) (hcodec ▸ haus au mem_cons_self)
                (hsizes au mem_cons_self) hone
              obtain ⟨groups, hcuts, hsent, hbears⟩ := ih ⟨hmtu'.trans hs.1, hisH265.trans hs.2⟩
                (fun other hother => haus other (mem_cons_of_mem au hother))
                (fun other hother => hsizes other (mem_cons_of_mem au hother)) hothers
              refine ⟨g :: groups, .cons ⟨hsends.cuts, hsends.stamp⟩ hcuts,
                .cons (hs.2 ▸ hsends.sent) hsent, fun p hp => ?_⟩
              rcases mem_append.mp hp with hp | hp
              · exact hs.2 ▸ hsends.bears p hp
              · exact hbears p hp

/-- The calls with access units end without a fault. -/
theorem exists_processAll {s start : Payloader} (hmtu : 16 ≤ start.mtu.toInt)
    (hs : s.mtu = start.mtu ∧ s.isH265 = start.isH265) {aus : List AccessUnit}
    (haus : ∀ au ∈ aus, au.Valid start.codec)
    (hsizes : ∀ au ∈ aus, (annexB au.units).length ≤ int32Max) {turns : ℕ}
    (hturns : ∀ au ∈ aus, ∀ nal ∈ au.nals, nal.length ≤ turns) :
    ∃ batches, processAll turns (aus.map AccessUnit.buffer) s = .ok batches := by
  induction aus generalizing s with
  | nil => exact ⟨[], rfl⟩
  | cons au aus ih =>
      have hcodec : s.codec = start.codec := congrArg codecOf hs.2
      have hau : au.Valid s.codec := hcodec ▸ haus au mem_cons_self
      have hsize := hsizes au mem_cons_self
      have hroom := headerLen_lt_room (s := s) (hs.1 ▸ hmtu)
      have hfits : ∀ unit ∈ flagLast au.nals, s.NalFits unit.1 unit.1.length := by
        intro unit hunit
        obtain ⟨entry, hentry, hnal⟩ := mem_map.mp (mem_of_mem_flagLast hunit)
        have hne := (hau.2 entry hentry).clean.nonempty
        rw [NalFits, layout_eq]
        split
        · exact Int.natCast_nonneg _
        · exact ⟨hnal ▸ hne, .inr hroom⟩
      obtain ⟨requests, hsend, -⟩ := sendUnits_fits hfits (fun unit hunit =>
        hturns au mem_cons_self unit.1 (mem_of_mem_flagLast hunit)) (ptsToRtpTs au.pts 90000)
      have hone : s.process turns au.buffer = .ok (makeAll au.pts requests s) := by
        rw [process, packetize_units (hs.1 ▸ hmtu) hau hsize, hsend]
        rfl
      obtain ⟨hmtu', hisH265, -⟩ := process_sends (hs.1 ▸ hmtu) hau hsize hone
      obtain ⟨others, hothers⟩ := ih ⟨hmtu'.trans hs.1, hisH265.trans hs.2⟩
        (fun other hother => haus other (mem_cons_of_mem au hother))
        (fun other hother => hsizes other (mem_cons_of_mem au hother))
        (fun other hother => hturns other (mem_cons_of_mem au hother))
      exact ⟨_, by simp only [map_cons, processAll, hone, bind, Except.bind, hothers]; rfl⟩

end Payloader

/-! ## Access units that come back -/

/-- Some units of a group are some NAL units of its access unit. -/
theorem exists_sublist_of_cutsOf {cuts units : List (Cut Byte)} (hsub : List.Sublist units cuts)
    {nals : List (List Byte)} (h : CutsOf cuts nals) :
    ∃ kept, List.Sublist kept nals ∧ CutsOf units kept := by
  induction hsub generalizing nals with
  | slnil => exact ⟨[], nil_sublist _, .nil⟩
  | cons cut _ ih =>
      cases h with
      | cons _ hrest =>
          obtain ⟨kept, hkept, hunits⟩ := ih hrest
          exact ⟨kept, hkept.cons _, hunits⟩
  | cons_cons cut _ ih =>
      cases h with
      | cons hcut hrest =>
          obtain ⟨kept, hkept, hunits⟩ := ih hrest
          exact ⟨_ :: kept, hkept.cons_cons _, .cons hcut hunits⟩

/-- A depayloader that was opened for the packets of a payloader. -/
structure Depayloader.Opened (s : Payloader) (d : Depayloader) : Prop where
  isH265 : d.isH265 = s.isH265
  auData : d.auData = []

/-- **When no NAL unit is damaged.**  Whichever packets of access units are lost, every buffer
that is pushed consists of complete NAL units of one access unit in order, as long as the losses
respect NAL units and access units.  Without loss every access unit comes back. -/
theorem undamaged_of_tolerable {s : Payloader} (hmtu : 16 ≤ s.mtu.toInt) {d : Depayloader}
    (hopened : d.Opened s) {aus : List AccessUnit} (haus : ∀ au ∈ aus, au.Valid s.codec)
    (hsizes : ∀ au ∈ aus, (annexB au.units).length ≤ int32Max) :
    (∃ turns batches, Payloader.processAll turns (aus.map AccessUnit.buffer) s = .ok batches) ∧
    ∀ turns batches, Payloader.processAll turns (aus.map AccessUnit.buffer) s = .ok batches →
      (d.processAll batches.flatten).2 =
        aus.map (fun au => ⟨startCoded au.nals, au.pts, au.pts⟩) ∧
      ∀ sent : List (List (Packet × Bool)), sent.map (List.map Prod.fst) = batches →
        Tolerable (begins s.isH265) marker sent →
        ∀ out ∈ (d.processAll (received sent.flatten)).2,
          ∃ au ∈ aus, ∃ nals, nals ≠ [] ∧ List.Sublist nals au.nals ∧
            out.data = startCoded nals ∧ out.pts = au.pts := by
  refine ⟨?_, fun turns batches hprocess => ?_⟩
  · obtain ⟨turns, hturns⟩ := Rtp.Payloader.exists_turns_nals aus
    exact ⟨turns, Payloader.exists_processAll hmtu ⟨rfl, rfl⟩ haus hsizes hturns⟩
  obtain ⟨groups, hcuts, hsent, hbears⟩ :=
    Payloader.processAll_sends hmtu ⟨rfl, rfl⟩ haus hsizes hprocess
  refine ⟨?_, ?_⟩
  · rw [d.processAll_eq hbears hopened.isH265, Collector.run_all hsent hopened.auData, map_map]
    clear hprocess hsent hbears haus hsizes
    induction hcuts with
    | nil => rfl
    | @cons au g aus groups hone _ ih =>
        rw [map_cons, map_cons, ih, Function.comp, hone.1.groupContent, hone.2]
        rfl
  · rintro sent rfl htolerable out hout
    rw [forall₂_map_right_iff] at hsent
    have hreceived : ∀ p ∈ received sent.flatten, Bears s.isH265 p (pieceOf s.isH265 p) := by
      intro p hp
      obtain ⟨group, hgroup, hmem⟩ := mem_flatten.mp (mem_of_mem_received hp)
      exact hbears p (mem_flatten.mpr
        ⟨_, mem_map_of_mem hgroup, mem_map.mpr ⟨_, hmem, rfl⟩⟩)
    rw [d.processAll_eq hreceived hopened.isH265] at hout
    obtain ⟨pushed, hpushed, rfl⟩ := mem_map.mp hout
    obtain ⟨g, hg, units, hne, hsub, rfl⟩ := Collector.hands_of_tolerable hsent htolerable
      (.inl hopened.auData) pushed hpushed
    obtain ⟨au, hau, hnals, hstamp⟩ := forall₂_mem_right hcuts hg
    obtain ⟨nals, hsublist, hunits⟩ := exists_sublist_of_cutsOf hsub hnals
    refine ⟨au, hau, nals, ?_, hsublist, hunits.groupContent, hstamp⟩
    rintro rfl
    exact hne (forall₂_nil_right_iff.mp hunits)

/-- A depayloader for H.264. -/
def st2110depay : Depayloader := ⟨false, [], 0⟩

/-- Packets with marks. -/
def marked (batches : List (List Packet)) (marks : List (List Bool)) : List (List (Packet × Bool)) :=
  zipWith zip batches marks

/-- The first NAL unit of the first access unit is lost. -/
theorem undamaged_of_tolerable_nal :
    ∃ batches, Payloader.processAll 5 (twoAccessUnits.map AccessUnit.buffer) (st2110pay 16) =
        .ok batches ∧
      ∀ out ∈ (st2110depay.processAll
          (received (marked batches [[false, true, true], [true]]).flatten)).2,
        ∃ au ∈ twoAccessUnits, ∃ nals, nals ≠ [] ∧ List.Sublist nals au.nals ∧
          out.data = startCoded nals ∧ out.pts = au.pts := by
  obtain ⟨-, hall⟩ := undamaged_of_tolerable (s := st2110pay 16) (by decide)
    (⟨rfl, rfl⟩ : st2110depay.Opened (st2110pay 16))
    (by decide : ∀ au ∈ twoAccessUnits, au.Valid (st2110pay 16).codec) (by decide)
  refine ⟨_, rfl, ?_⟩
  exact (hall 5 _ rfl).2 (marked _ [[false, true, true], [true]]) (by decide +kernel)
    (by decide +kernel)

/-- The first fragment of the second NAL unit is lost: the rest of it is pushed behind the first
NAL unit. -/
theorem lost_fragment_damages :
    ∃ batches, Payloader.processAll 5 (twoAccessUnits.map AccessUnit.buffer) (st2110pay 16) =
        .ok batches ∧
      (marked batches [[true, false, true], [true]]).map (List.map Prod.fst) = batches ∧
      ∃ out ∈ (st2110depay.processAll
          (received (marked batches [[true, false, true], [true]]).flatten)).2,
        out.data = [0, 0, 0, 1, 0x67, 0x42, 0x00, 0x33] ∧
        ∀ au ∈ twoAccessUnits, ∀ nals, List.Sublist nals au.nals → out.data ≠ startCoded nals := by
  refine ⟨_, rfl, by decide +kernel, ⟨[0, 0, 0, 1, 0x67, 0x42, 0x00, 0x33], 0, 0⟩, by decide +kernel,
    rfl, fun au hau nals hnals => ?_⟩
  have hsublists : ∀ au ∈ twoAccessUnits, ∀ nals ∈ au.nals.sublists,
      [0, 0, 0, 1, 0x67, 0x42, 0x00, 0x33] ≠ startCoded nals := by decide +kernel
  exact hsublists au hau nals (mem_sublists.mpr hnals)

end Zstreamer.St2110

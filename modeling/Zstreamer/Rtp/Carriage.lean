/-
# What the packets of access units bring

The packets that the payloader makes of a list of access units are numbered from its
sequence number on, and bring the pieces of the NAL units, group by group: a group is an
access unit, and all of its pieces have the time stamp of the access unit.
-/

import Mathlib.Data.List.Chain
import Mathlib.Data.List.Forall2
import Zstreamer.Rtp.Mtu
import Zstreamer.Rtp.Pieces

namespace Zstreamer.Rtp

open Foundation List Option

/-! ## Access units -/

/-- An access unit: its NAL units, each with the start code in front of it, and its time. -/
structure AccessUnit where
  units : List (Bool × List Byte)
  pts : BitVec 64
  deriving DecidableEq, Repr

namespace AccessUnit

/-- It has NAL units that packets can carry. -/
def Valid (codec : Codec) (au : AccessUnit) : Prop :=
  au.units ≠ [] ∧ ∀ unit ∈ au.units, ValidNal codec unit.2

instance (codec : Codec) (au : AccessUnit) : Decidable (au.Valid codec) :=
  inferInstanceAs (Decidable (_ ∧ _))

/-- The buffer on the sink pad of the payloader. -/
def buffer (au : AccessUnit) : Buffer := ⟨annexB au.units, au.pts, false⟩

/-- The NAL units. -/
def nals (au : AccessUnit) : List (List Byte) := au.units.map fun unit => unit.2

end AccessUnit

/-- NAL units, each behind a start code of four bytes. -/
def startCoded (nals : List (List Byte)) : List Byte := nals.flatMap fun nal => startCode true ++ nal

/-- What a request carries of the access units of a codec. -/
def CarriesVideo (codec : Codec) (r : Request) (p : Piece Byte) : Prop :=
  ∃ nal, ValidNal codec nal ∧ Carries codec.layout nal r p

/-- Cuts of NAL units. -/
def CutsOf (cuts : List (Cut Byte)) (nals : List (List Byte)) : Prop :=
  List.Forall₂ (fun cut nal => Cut.content cut = startCode true ++ nal) cuts nals

theorem CutsOf.groupContent {cuts : List (Cut Byte)} {nals : List (List Byte)}
    (h : CutsOf cuts nals) : groupContent cuts = startCoded nals := by
  induction h with
  | nil => rfl
  | cons hcut _ ih =>
      rw [Foundation.groupContent, flatMap_cons, hcut]
      exact congrArg _ ih

namespace Payloader

/-- A payloader for video with room for a fragment. -/
def Video (s : Payloader) : Prop :=
  (s.codec = .h264 ∧ 15 ≤ s.mtu ∨ s.codec = .h265 ∧ 16 ≤ s.mtu) ∧ s.mtu ≤ maxPayload

instance (s : Payloader) : Decidable s.Video := inferInstanceAs (Decidable (_ ∧ _))

theorem Video.room {s : Payloader} (h : s.Video) : s.codec.layout.headerLen + 12 < s.mtu := by
  rcases h.1 with ⟨hcodec, hmtu⟩ | ⟨hcodec, hmtu⟩
  · have hheader : Codec.h264.layout.headerLen = 2 := rfl
    rw [hcodec, hheader]
    omega
  · have hheader : Codec.h265.layout.headerLen = 3 := rfl
    rw [hcodec, hheader]
    omega

/-- The requests for NAL units carry their cuts. -/
theorem sendUnits_cuts {s : Payloader} (hvideo : s.Video) {nals : List (List Byte)}
    (hnals : ∀ nal ∈ nals, ValidNal s.codec nal) {turns : ℕ} {timestamp : BitVec 32}
    {sending : Sending}
    (hsend : s.sendUnits s.codec.layout turns timestamp (flagLast nals) = some sending) :
    sending.ok = true ∧
      (∃ cuts, CutsOf cuts nals ∧
        List.Forall₂ (CarriesVideo s.codec) sending.requests (groupPieces cuts)) ∧
      ∀ r ∈ sending.requests, r.timestamp = timestamp ∧ (r.size : ℤ) ≤ s.mtu - 12 := by
  have hone : ∀ {nal marker sending}, ValidNal s.codec nal →
      s.sendNal s.codec.layout turns nal timestamp marker = some sending → sending.ok = true ∧
      (∃ cut : Cut Byte, cut.content = startCode true ++ nal ∧
        List.Forall₂ (CarriesVideo s.codec) sending.requests (cut.pieces marker)) ∧
      ∀ r ∈ sending.requests, r.timestamp = timestamp ∧ (r.size : ℤ) ≤ s.mtu - 12 := by
    intro nal marker sending hnal hsend
    obtain ⟨hok, ⟨cut, hcontent, hcut⟩, hsize⟩ := sendNal_cut hvideo.room hnal.nalHeader_le hsend
    exact ⟨hok, ⟨cut, hcontent, hcut.imp fun _ _ h => ⟨nal, hnal, h⟩⟩, hsize⟩
  induction nals using flagLast.induct generalizing sending with
  | case1 =>
      cases hsend
      exact ⟨rfl, ⟨[], .nil, .nil⟩, forall_mem_nil _⟩
  | case2 nal =>
      rw [flagLast, sendUnits, sendUnits] at hsend
      obtain ⟨one, hnal, hrest⟩ := bind_eq_some_iff.mp hsend
      obtain ⟨hok, ⟨cut, hcontent, hcut⟩, hsize⟩ := hone (hnals nal mem_cons_self) hnal
      cases hrest
      rw [Sending.append, append_nil, Bool.and_true]
      refine ⟨hok, ⟨[cut], .cons hcontent .nil, ?_⟩, hsize⟩
      have hsingle : groupPieces [cut] = cut.pieces true := append_nil _
      rw [hsingle]
      exact hcut
  | case3 nal next rest ih =>
      rw [flagLast, sendUnits] at hsend
      obtain ⟨one, hnal, hrest⟩ := bind_eq_some_iff.mp hsend
      obtain ⟨hok, ⟨cut, hcontent, hcut⟩, hsize⟩ := hone (hnals nal mem_cons_self) hnal
      obtain ⟨others, hothers, rfl⟩ := map_eq_some_iff.mp hrest
      obtain ⟨hoks, ⟨cuts, hcontents, hcuts⟩, hsizes⟩ :=
        ih (fun other hother => hnals other (mem_cons_of_mem nal hother)) hothers
      refine ⟨by rw [Sending.append, hok, hoks]; rfl, ⟨cut :: cuts, .cons hcontent hcontents, ?_⟩,
        fun r hr => ?_⟩
      · have hne : cuts ≠ [] := by
          rintro rfl
          cases hcontents
        rw [groupPieces_cons cut hne]
        exact rel_append hcut hcuts
      · rcases mem_append.mp hr with hr | hr
        · exact hsize r hr
        · exact hsizes r hr

/-! ## Packets -/

/-- A payloader that has made so many packets since it was another one. -/
structure After (start : Payloader) (i : ℕ) (s : Payloader) : Prop where
  codec : s.codec = start.codec
  payloadType : s.payloadType = start.payloadType
  ssrc : s.ssrc = start.ssrc
  clockRate : s.clockRate = start.clockRate
  mtu : s.mtu = start.mtu
  channels : s.channels = start.channels
  sampleSize : s.sampleSize = start.sampleSize
  strictMtu : s.strictMtu = start.strictMtu
  seq : s.seq = start.seq + BitVec.ofNat 16 i

theorem After.refl (s : Payloader) : After s 0 s :=
  ⟨rfl, rfl, rfl, rfl, rfl, rfl, rfl, rfl, (BitVec.add_zero _).symm⟩

theorem After.sent {start s : Payloader} {i : ℕ} (h : After start i s) (size : ℕ) :
    After start (i + 1) (s.sent size) :=
  ⟨h.codec, h.payloadType, h.ssrc, h.clockRate, h.mtu, h.channels, h.sampleSize, h.strictMtu, by
    rw [Payloader.sent, h.seq, BitVec.add_assoc, BitVec.ofNat_add]
    rfl⟩

theorem After.video {start s : Payloader} {i : ℕ} (h : After start i s) (hvideo : start.Video) :
    s.Video := by
  rw [Video, h.codec, h.mtu]
  exact hvideo

theorem After.makes {start s : Payloader} {i : ℕ} (h : After start i s) {r : Request}
    (hmakes : start.Makes r) : s.Makes r := by
  rw [Makes, h.strictMtu, h.mtu]
  exact hmakes

/-- The packet with the number `i` is made of a request. -/
def Brings (start : Payloader) (i : ℕ) (p : Packet) (r : Request) : Prop :=
  p.data.length = r.size + 12 ∧ parseRtp p.data = some
    { payload := r.header ++ r.payload
      payloadType := start.payloadType &&& 0x7f
      marker := r.marker
      seq := start.seq + BitVec.ofNat 16 i
      timestamp := r.timestamp
      ssrc := start.ssrc }

theorem After.brings {start s : Payloader} {i : ℕ} (h : After start i s) {r : Request}
    (hmakes : s.Makes r) (pts : BitVec 64) : Brings start i (s.packet r pts) r := by
  have hsize : (r.header ++ r.payload).length ≤ 65523 := by
    have := hmakes.1
    rw [Request.size, maxPayload] at this
    rw [length_append]
    omega
  refine ⟨s.length_packet r pts, ?_⟩
  rw [packet, parseRtp_bytes _ hsize, header, h.payloadType, h.ssrc, h.seq]

/-- Packets with numbers from one on are made of requests. -/
inductive BringsAll (start : Payloader) : ℕ → List Packet → List Request → Prop
  | nil {i : ℕ} : BringsAll start i [] []
  | cons {i : ℕ} {p : Packet} {r : Request} {packets : List Packet} {requests : List Request}
      (hone : Brings start i p r) (hrest : BringsAll start (i + 1) packets requests) :
      BringsAll start i (p :: packets) (r :: requests)

namespace BringsAll

variable {start : Payloader} {i : ℕ} {packets : List Packet} {requests : List Request}

theorem length_eq (h : BringsAll start i packets requests) : packets.length = requests.length := by
  induction h with
  | nil => rfl
  | cons _ _ ih => exact congrArg (· + 1) ih

theorem append (h : BringsAll start i packets requests) {packets' : List Packet}
    {requests' : List Request} (h' : BringsAll start (i + packets.length) packets' requests') :
    BringsAll start i (packets ++ packets') (requests ++ requests') := by
  induction h with
  | nil => exact h'
  | @cons i p r packets requests hone hrest ih =>
      refine .cons hone (ih ?_)
      rw [Nat.add_assoc, Nat.add_comm 1]
      exact h'

theorem getElem? (h : BringsAll start i packets requests) {j : ℕ} {p : Packet}
    (hp : packets[j]? = some p) :
    ∃ r, requests[j]? = some r ∧ Brings start (i + j) p r := by
  induction h generalizing j with
  | nil => cases hp
  | @cons i q r packets requests hone hrest ih =>
      cases j with
      | zero =>
          cases hp
          exact ⟨r, rfl, hone⟩
      | succ j =>
          obtain ⟨r', hr', hbrings⟩ := ih hp
          refine ⟨r', hr', ?_⟩
          rw [Nat.add_comm j, ← Nat.add_assoc]
          exact hbrings

theorem single {r : Request} (h : BringsAll start i packets [r]) :
    ∃ p, packets = [p] ∧ Brings start i p r := by
  cases h with
  | @cons _ p _ _ _ hone hrest =>
      cases hrest
      exact ⟨p, rfl, hone⟩

end BringsAll

/-- All requests that can be made are made, in order. -/
theorem After.pushAll {start s : Payloader} {i : ℕ} (h : After start i s) {requests : List Request}
    (hmakes : ∀ r ∈ requests, start.Makes r) (pts : BitVec 64) :
    BringsAll start i (Payloader.pushAll pts requests s).2.1 requests ∧
      After start (i + requests.length) (Payloader.pushAll pts requests s).1 ∧
      (Payloader.pushAll pts requests s).2.2 = true := by
  induction requests generalizing s i with
  | nil => exact ⟨.nil, h, rfl⟩
  | cons r requests ih =>
      have hone := h.makes (hmakes r mem_cons_self)
      obtain ⟨hpackets, hafter, hok⟩ := ih (h.sent r.size)
        fun r' hr' => hmakes r' (mem_cons_of_mem r hr')
      rw [Payloader.pushAll, if_pos hone, length_cons, Nat.add_comm _ 1, ← Nat.add_assoc]
      exact ⟨.cons (h.brings hone pts) hpackets, hafter, hok⟩

/-! ## Access units one after the other -/

/-- What a call with an access unit does: its packets are made of requests, which carry cuts of
its NAL units and have its time stamp; but an access unit that is too long is refused. -/
structure Group (start : Payloader) (i : ℕ) (au : AccessUnit) (pushed : Pushed)
    (requests : List Request) (cuts : List (Cut Byte)) : Prop where
  brings : BringsAll start i pushed.packets requests
  carries : List.Forall₂ (CarriesVideo start.codec) requests (groupPieces cuts)
  timestamps : ∀ r ∈ requests, r.timestamp = ptsToRtpTs au.pts 90000
  sizes : ∀ r ∈ requests, ((r.size + 12 : ℕ) : ℤ) ≤ start.mtu
  after : After start (i + requests.length) pushed.payloader
  cuts : int32Max < (annexB au.units).length ∧ pushed.ok = false ∧ cuts = [] ∨
    (annexB au.units).length ≤ int32Max ∧ pushed.ok = true ∧ cuts ≠ [] ∧ CutsOf cuts au.nals

theorem annexB_ne {units : List (Bool × List Byte)} (hunits : units ≠ []) : annexB units ≠ [] := by
  cases units with
  | nil => exact absurd rfl hunits
  | cons unit units =>
      obtain ⟨long, nal⟩ := unit
      cases long <;> exact cons_ne_nil _ _

theorem Video.packetize {s : Payloader} (hvideo : s.Video) {au : AccessUnit}
    (hau : au.Valid s.codec) (hsize : (annexB au.units).length ≤ int32Max) (turns : ℕ) :
    s.packetize turns au.buffer =
      s.sendUnits s.codec.layout turns (ptsToRtpTs au.pts 90000) (flagLast au.nals) := by
  have hunits : nalUnits (annexB au.units) = flagLast au.nals :=
    nalUnits_annexB hau.1 fun unit hunit => (hau.2 unit hunit).clean
  rw [@packetize_of_data s au.buffer (annexB_ne hau.1) rfl hsize]
  rcases hvideo.1 with ⟨hcodec, -⟩ | ⟨hcodec, -⟩
  · rw [hcodec]
    dsimp only [AccessUnit.buffer]
    rw [packetizeH264, hunits]
    rfl
  · rw [hcodec]
    dsimp only [AccessUnit.buffer]
    rw [packetizeH265, hunits]
    rfl

theorem After.push {start s : Payloader} {i : ℕ} (h : After start i s) (hvideo : start.Video)
    {au : AccessUnit} (hau : au.Valid start.codec) {turns : ℕ} {pushed : Pushed}
    (hpush : s.push turns au.buffer = some pushed) :
    ∃ requests cuts, Group start i au pushed requests cuts := by
  obtain ⟨sending, hpacketize, rfl⟩ := map_eq_some_iff.mp hpush
  by_cases hsize : (annexB au.units).length ≤ int32Max
  · rw [(h.video hvideo).packetize (h.codec ▸ hau) hsize] at hpacketize
    obtain ⟨hok, ⟨cuts, hcuts, hcarries⟩, hrequests⟩ := sendUnits_cuts (h.video hvideo)
      (fun nal (hnal : nal ∈ au.nals) => by
        obtain ⟨unit, hunit, rfl⟩ := mem_map.mp hnal
        exact h.codec ▸ hau.2 unit hunit) hpacketize
    rw [h.codec] at hcarries
    rw [h.mtu] at hrequests
    have hmakes : ∀ r ∈ sending.requests, start.Makes r := by
      intro r hr
      obtain ⟨-, hsize⟩ := hrequests r hr
      have hmtu := hvideo.2
      rw [maxPayload] at hmtu
      exact ⟨by rw [maxPayload]; omega, fun _ => by omega⟩
    obtain ⟨hbrings, hafter, hall⟩ := h.pushAll hmakes au.pts
    refine ⟨sending.requests, cuts, hbrings, hcarries, fun r hr => (hrequests r hr).1,
      fun r hr => ?_, hafter, .inr ⟨hsize, ?_, ?_, hcuts⟩⟩
    · have := (hrequests r hr).2
      push_cast
      omega
    · dsimp only [AccessUnit.buffer]
      rw [hok, hall]
      rfl
    · rintro rfl
      have hnil : au.units = [] := map_eq_nil_iff.mp (forall₂_nil_left_iff.mp hcuts)
      exact hau.1 hnil
  · have hsends : ¬ (au.buffer.eos = true ∨ au.buffer.data = []) :=
      not_or.mpr ⟨Bool.false_ne_true, annexB_ne hau.1⟩
    have hlong : au.buffer.data.length > int32Max := not_le.mp hsize
    rw [Payloader.packetize, if_neg hsends, if_pos hlong] at hpacketize
    cases hpacketize
    exact ⟨[], [], .nil, .nil, forall_mem_nil _, forall_mem_nil _, h, .inl ⟨hlong, rfl, rfl⟩⟩

/-- The time stamp changes behind a marker only. -/
def SameTime (r r' : Request) : Prop := r.marker = false → r'.timestamp = r.timestamp

/-- The requests of a group, in front of others. -/
theorem chain_of_group {codec : Codec} {pieces : List (Piece Byte)} (hpieces : Ending Piece.ends pieces)
    {requests rest : List Request} {timestamp : BitVec 32}
    (hcarries : List.Forall₂ (CarriesVideo codec) requests pieces)
    (htimestamps : ∀ r ∈ requests, r.timestamp = timestamp) (hrest : rest.IsChain SameTime) :
    (requests ++ rest).IsChain SameTime := by
  induction hpieces generalizing requests with
  | @last p hends =>
      obtain ⟨r, others, ⟨nal, -, hr⟩, hnil, rfl⟩ := forall₂_cons_right_iff.mp hcarries
      obtain rfl := forall₂_nil_right_iff.mp hnil
      refine isChain_cons.mpr ⟨fun y _ hmarker => ?_, hrest⟩
      rw [hr.marker_eq, hends] at hmarker
      cases hmarker
  | @more p pieces hends hmore ih =>
      obtain ⟨r, requests, hr, hrequests, rfl⟩ := forall₂_cons_right_iff.mp hcarries
      refine isChain_cons.mpr ⟨fun y hy _ => ?_,
        ih hrequests fun r' hr' => htimestamps r' (mem_cons_of_mem r hr')⟩
      cases requests with
      | nil => exact absurd (forall₂_nil_left_iff.mp hrequests) hmore.ne_nil
      | cons r' requests =>
          obtain rfl := Option.some.inj hy
          rw [htimestamps r mem_cons_self,
            htimestamps r' (mem_cons_of_mem r mem_cons_self)]

/-- What calls with access units do. -/
structure Stream (start : Payloader) (i : ℕ) (aus : List AccessUnit) (pushes : List Pushed)
    (requests : List Request) (groups : List (List (Cut Byte))) : Prop where
  brings : BringsAll start i (packetsOf pushes) requests
  carries : List.Forall₂ (CarriesVideo start.codec) requests (stream groups)
  chain : requests.IsChain SameTime
  sizes : ∀ r ∈ requests, ((r.size + 12 : ℕ) : ℤ) ≤ start.mtu
  lengths : List.Forall₂ (fun pushed g => pushed.packets.length = (groupPieces g).length)
    pushes groups
  cuts : List.Forall₂ (fun au g => int32Max < (annexB au.units).length ∧ g = [] ∨
    (annexB au.units).length ≤ int32Max ∧ g ≠ [] ∧ CutsOf g au.nals) aus groups
  ok : (∀ au ∈ aus, (annexB au.units).length ≤ int32Max) → ∀ pushed ∈ pushes, pushed.ok = true

/-- **The packets of access units bring the cuts of their NAL units.** -/
theorem After.pushBuffers {start s : Payloader} {i : ℕ} (h : After start i s)
    (hvideo : start.Video) {aus : List AccessUnit} (haus : ∀ au ∈ aus, au.Valid start.codec)
    {turns : ℕ} {pushes : List Pushed}
    (hpush : Payloader.pushBuffers turns (aus.map AccessUnit.buffer) s = some pushes) :
    ∃ requests groups, Stream start i aus pushes requests groups := by
  induction aus generalizing s i pushes with
  | nil =>
      cases hpush
      exact ⟨[], [], .nil, .nil, .nil, nofun, .nil, .nil, nofun⟩
  | cons au aus ih =>
      rw [map_cons, Payloader.pushBuffers] at hpush
      obtain ⟨one, hone, hrest⟩ := bind_eq_some_iff.mp hpush
      obtain ⟨others, hothers, rfl⟩ := map_eq_some_iff.mp hrest
      obtain ⟨requests, cuts, hgroup⟩ := h.push hvideo (haus au mem_cons_self) hone
      obtain ⟨requests', groups, hstream⟩ := ih hgroup.after
        (fun other hother => haus other (mem_cons_of_mem au hother)) hothers
      have hlength := hgroup.brings.length_eq
      refine ⟨requests ++ requests', cuts :: groups,
        hgroup.brings.append (hlength ▸ hstream.brings),
        rel_append hgroup.carries hstream.carries, ?_, fun r hr => ?_,
        .cons (hlength.trans hgroup.carries.length_eq) hstream.lengths, .cons ?_ hstream.cuts,
        fun hsizes pushed hpushed => ?_⟩
      · rcases hgroup.cuts with ⟨-, -, rfl⟩ | ⟨-, -, hne, -⟩
        · obtain rfl := forall₂_nil_right_iff.mp hgroup.carries
          exact hstream.chain
        · exact chain_of_group (ending_groupPieces hne) hgroup.carries hgroup.timestamps
            hstream.chain
      · rcases mem_append.mp hr with hr | hr
        · exact hgroup.sizes r hr
        · exact hstream.sizes r hr
      · exact hgroup.cuts.imp (fun ⟨hlong, _, hnil⟩ => ⟨hlong, hnil⟩)
          fun ⟨hshort, _, hcuts⟩ => ⟨hshort, hcuts⟩
      · rcases mem_cons.mp hpushed with rfl | hpushed
        · rcases hgroup.cuts with ⟨hlong, -⟩ | ⟨-, hok, -⟩
          · exact absurd (hsizes au mem_cons_self) (not_le.mpr hlong)
          · exact hok
        · exact hstream.ok (fun other hother => hsizes other (mem_cons_of_mem au hother))
            pushed hpushed

end Payloader

end Zstreamer.Rtp

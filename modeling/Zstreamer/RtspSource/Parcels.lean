/-
# What the RTSP server sends of H.264

A packet of the server carries a NAL unit, or a fragment of one.  The fragments of a NAL
unit are its bytes behind the first one, cut into pieces.  The packets for a list of access
units carry what they are to carry, one after the other, and the RTSP source reads them so.
-/

import Zstreamer.Rtsp.RoundTrip
import Zstreamer.RtspSource.Depacketize

namespace Zstreamer.RtspSource

open Foundation Rtp List
open Rtsp (Stream nalRequests layoutServer rtpMtu requestsFor)

/-! ## Parcels -/

/-- A fragment of a NAL unit: whether it is the first one or the last one, and its bytes. -/
structure Fragment where
  nal : List Byte
  first : Bool
  last : Bool
  data : List Byte
  deriving DecidableEq, Repr

/-- What a packet carries. -/
inductive Parcel
  | whole (nal : List Byte)
  | fragment (f : Fragment)
  deriving DecidableEq, Repr

/-- The NAL unit that it is, or belongs to. -/
def Parcel.nal : Parcel → List Byte
  | whole nal => nal
  | fragment f => f.nal

/-- The payload of the packet. -/
def Parcel.payload : Parcel → List Byte
  | whole nal => nal
  | fragment f => layoutServer.header f.nal f.first f.last ++ f.data

/-- The fragments that some pieces of a NAL unit make up. -/
def fragmentsFrom (nal : List Byte) : Bool → List (List Byte) → List Fragment
  | _, [] => []
  | first, data :: pieces => ⟨nal, first, pieces.isEmpty, data⟩ :: fragmentsFrom nal false pieces

/-- How many bytes of a NAL unit there is room for in a packet. -/
def room : ℤ := (rtpMtu : ℤ) - 12 - layoutServer.headerLen

/-- The bytes of a NAL unit behind its header, as many in a piece as there is room for. -/
def pieces (nal : List Byte) : List (List Byte) :=
  ((chunkLoop room nal.length nal.length 1).getD []).map (·.slice nal)

/-- The fragments of a NAL unit. -/
def fragmentsOf (nal : List Byte) : List Fragment := fragmentsFrom nal true (pieces nal)

/-- What the packets of a NAL unit carry. -/
def parcels (nal : List Byte) : List Parcel :=
  if nal.length < 1 then []
  else if nal.length ≤ rtpMtu - 12 then [.whole nal]
  else (fragmentsOf nal).map .fragment

theorem nal_of_mem_fragmentsFrom {nal : List Byte} {first : Bool} {datas : List (List Byte)} :
    ∀ f ∈ fragmentsFrom nal first datas, f.nal = nal := by
  induction datas generalizing first with
  | nil => exact nofun
  | cons data datas ih =>
      intro f hf
      rcases mem_cons.mp hf with rfl | hf
      · rfl
      · exact ih f hf

theorem nal_of_mem_parcels {nal : List Byte} : ∀ p ∈ parcels nal, p.nal = nal := by
  intro p hp
  rw [parcels] at hp
  split at hp
  · cases hp
  split at hp
  · rw [mem_singleton.mp hp]
    rfl
  · obtain ⟨f, hf, rfl⟩ := mem_map.mp hp
    exact nal_of_mem_fragmentsFrom f hf

theorem room_pos : 1 ≤ room := by decide

theorem exists_chunks (nal : List Byte) : ∃ chunks : List Chunk,
    chunkLoop room nal.length nal.length 1 = some chunks ∧ Chunked room nal.length 1 chunks ∧
      pieces nal = chunks.map (·.slice nal) := by
  have hturns : (nal.length : ℤ) - 1 ≤ nal.length := by omega
  obtain ⟨chunks, hchunks⟩ := chunkLoop_ends room_pos hturns
  exact ⟨chunks, hchunks, chunked_of_chunkLoop hchunks, by rw [pieces, hchunks]; rfl⟩

/-- The pieces are the bytes behind the header. -/
theorem flatten_pieces (nal : List Byte) : (pieces nal).flatten = nal.drop 1 := by
  obtain ⟨chunks, -, hchunked, hpieces⟩ := exists_chunks nal
  rw [hpieces, ← flatMap_def]
  exact hchunked.flatMap_slice nal room_pos (by omega)

/-! ## The packets of the server -/

/-- A request has the payload of a parcel. -/
def Asks (timestamp : BitVec 32) (r : Request) (p : Parcel) : Prop :=
  r.header ++ r.payload = p.payload ∧ r.timestamp = timestamp

theorem asks_fragments {nal : List Byte} {timestamp : BitVec 32} {marker first : Bool}
    {most offset : ℤ} {chunks : List Chunk} (h : Chunked most nal.length offset chunks) :
    List.Forall₂ (Asks timestamp) (fragments layoutServer nal timestamp marker first chunks)
      ((fragmentsFrom nal first (chunks.map (·.slice nal))).map .fragment) := by
  induction h generalizing first with
  | done => exact .nil
  | @chunk offset chunks hmore hrest ih =>
      refine .cons ⟨?_, rfl⟩ ih
      have hlast := last_iff_nil (c := nextChunk most nal.length offset) hrest
      show layoutServer.header nal first _ ++ _ = layoutServer.header nal first _ ++ _
      rw [isEmpty_map, ← hlast]

theorem asks_nalRequests (nal : List Byte) (timestamp : BitVec 32) (isLast : Bool) :
    List.Forall₂ (Asks timestamp) (nalRequests nal timestamp isLast) (parcels nal) := by
  rw [nalRequests, parcels]
  split
  · exact .nil
  split
  · exact .cons ⟨rfl, rfl⟩ .nil
  · obtain ⟨chunks, hchunks, hchunked, hpieces⟩ := exists_chunks nal
    have hloop : fragmentLoop layoutServer (rtpMtu - 12) nal timestamp isLast nal.length =
        some (fragments layoutServer nal timestamp isLast true chunks) :=
      congrArg (Option.map _) hchunks
    rw [hloop, fragmentsOf, hpieces]
    exact asks_fragments hchunked

theorem payload_ne_nil {nal : List Byte} : ∀ p ∈ parcels nal, p.payload ≠ [] := by
  intro p hp
  rw [parcels] at hp
  split at hp
  · cases hp
  rename_i hpos
  split at hp
  · rw [mem_singleton.mp hp]
    exact fun hnil => hpos (by rw [show nal = [] from hnil]; exact Nat.one_pos)
  · obtain ⟨f, -, rfl⟩ := mem_map.mp hp
    exact cons_ne_nil _ _

/-! ## Access units -/

/-- An access unit: its RTP time stamp, its NAL units, and which of them is called the last one. -/
structure AccessUnit where
  timestamp : BitVec 32
  units : List (List Byte × Bool)
  deriving DecidableEq, Repr

/-- `h264_packetize` for every NAL unit of every access unit. -/
def sendUnits : List AccessUnit → Stream → Stream × List (List Byte)
  | [], st => (st, [])
  | au :: aus, st =>
      let one := { st with timestamp := au.timestamp }.packetizeAll au.units
      let rest := sendUnits aus one.1
      (rest.1, one.2 ++ rest.2)

/-- The NAL units. -/
def nalsOf (aus : List AccessUnit) : List (List Byte) := aus.flatMap fun au => au.units.map Prod.fst

/-- What the packets carry, each with its time stamp. -/
def parcelsOf (aus : List AccessUnit) : List (BitVec 32 × Parcel) :=
  aus.flatMap fun au => au.units.flatMap fun unit => (parcels unit.1).map (au.timestamp, ·)

/-- Every parcel is of one of the NAL units. -/
theorem nal_mem_of_mem_parcelsOf {aus : List AccessUnit} {entry : BitVec 32 × Parcel}
    (hentry : entry ∈ parcelsOf aus) : entry.2.nal ∈ nalsOf aus := by
  obtain ⟨au, hau, hentry⟩ := mem_flatMap.mp hentry
  obtain ⟨unit, hunit, hentry⟩ := mem_flatMap.mp hentry
  obtain ⟨p, hp, rfl⟩ := mem_map.mp hentry
  rw [nal_of_mem_parcels p hp]
  exact mem_flatMap.mpr ⟨au, hau, mem_map_of_mem hunit⟩

/-- A packet of the stream carries the parcel, as the RTSP source reads it. -/
def Holds (ssrc : BitVec 32) (payloadType : Byte) (data : List Byte)
    (entry : BitVec 32 × Parcel) : Prop :=
  ∃ rtp, parsePacket (data.take Receiver.rtpBufSize) = some rtp ∧ rtp.payload = entry.2.payload ∧
    rtp.timestamp = entry.1 ∧ rtp.ssrc = ssrc ∧ rtp.payloadType = payloadType &&& 0x7f

theorem asks_requestsFor (units : List (List Byte × Bool)) (timestamp : BitVec 32) :
    List.Forall₂ (Asks timestamp) (requestsFor units timestamp)
      (units.flatMap fun unit => parcels unit.1) := by
  induction units with
  | nil => exact .nil
  | cons unit units ih =>
      rw [requestsFor, flatMap_cons, flatMap_cons]
      exact rel_append (asks_nalRequests unit.1 timestamp unit.2) ih

theorem size_nalRequests_le (nal : List Byte) (timestamp : BitVec 32) (isLast : Bool) :
    ∀ r ∈ nalRequests nal timestamp isLast, r.size ≤ rtpMtu - 12 := by
  rw [nalRequests]
  split
  · exact forall_mem_nil _
  split
  case isTrue hwhole =>
    intro r hr
    obtain rfl := mem_singleton.mp hr
    rw [Request.size, length_nil, Nat.zero_add]
    exact hwhole
  case isFalse =>
    have hroom : (layoutServer.headerLen : ℤ) < (rtpMtu : ℤ) - 12 := by decide
    obtain ⟨requests, hloop, hsizes⟩ :=
      @fragmentLoop_ends layoutServer _ nal timestamp isLast hroom _ le_rfl
    rw [hloop, Option.getD_some]
    intro r hr
    have hsize := hsizes r hr
    have hmtu : (rtpMtu : ℤ) - 12 = 1388 := rfl
    have hmtu' : rtpMtu - 12 = 1388 := rfl
    omega

/-- The packets of requests hold what the requests ask for. -/
theorem holds_sendAll {timestamp : BitVec 32} {requests : List Request} {ps : List Parcel}
    (h : List.Forall₂ (Asks timestamp) requests ps) (hne : ∀ p ∈ ps, p.payload ≠ [])
    (hsize : ∀ r ∈ requests, r.size ≤ rtpMtu - 12) {st : Stream} (hst : st.timestamp = timestamp) :
    List.Forall₂ (Holds st.ssrc st.payloadType) (st.sendAll requests).2
      (ps.map (timestamp, ·)) := by
  induction h generalizing st with
  | nil => exact .nil
  | @cons r p requests ps hasks hrest ih =>
      have hnext : (st.send r).1.timestamp = timestamp := hst
      refine .cons ?_ (ih (fun q hq => hne q (mem_cons_of_mem p hq))
        (fun q hq => hsize q (mem_cons_of_mem r hq)) hnext)
      obtain ⟨hpayload, -⟩ := hasks
      let header : Header := ⟨r.marker, st.payloadType, st.seq, st.timestamp, st.ssrc⟩
      have hshort : (header.bytes ++ p.payload).length ≤ Receiver.rtpBufSize := by
        have hlength := congrArg List.length hpayload
        have hsmall := hsize r mem_cons_self
        have hmtu : rtpMtu - 12 = 1388 := rfl
        have hbuf : Receiver.rtpBufSize = 2048 := rfl
        rw [length_append] at hlength
        rw [Request.size] at hsmall
        rw [length_append, Header.length_bytes]
        omega
      have hdata : (st.send r).2 = header.bytes ++ p.payload := by
        rw [← hpayload]
        rfl
      refine ⟨⟨p.payload, st.payloadType &&& 0x7f, r.marker, st.seq, st.timestamp, st.ssrc⟩, ?_, rfl,
        hst, rfl, rfl⟩
      rw [hdata, take_of_length_le hshort]
      exact parsePacket_bytes header (hne p mem_cons_self)

/-- **The packets for access units carry their NAL units**, whole or in fragments, in order. -/
theorem holds_sendUnits (aus : List AccessUnit) (st : Stream) :
    List.Forall₂ (Holds st.ssrc st.payloadType) (sendUnits aus st).2 (parcelsOf aus) := by
  induction aus generalizing st with
  | nil => exact .nil
  | cons au aus ih =>
      let st₀ : Stream := { st with timestamp := au.timestamp }
      have hone : st₀.packetizeAll au.units = st₀.sendAll (requestsFor au.units au.timestamp) :=
        Stream.packetizeAll_eq au.units st₀
      have hfixed := Stream.fixed_sendAll (requestsFor au.units au.timestamp) st₀
      have hssrc : (st₀.packetizeAll au.units).1.ssrc = st.ssrc := by
        rw [hone]
        exact congrArg Prod.fst hfixed
      have htype : (st₀.packetizeAll au.units).1.payloadType = st.payloadType := by
        rw [hone]
        exact congrArg (·.2.1) hfixed
      have hrest := ih (st₀.packetizeAll au.units).1
      rw [hssrc, htype] at hrest
      have hsent : List.Forall₂ (Holds st.ssrc st.payloadType) (st₀.packetizeAll au.units).2
          ((au.units.flatMap fun unit => parcels unit.1).map (au.timestamp, ·)) := by
        have htimestamp : st₀.timestamp = au.timestamp := rfl
        rw [hone]
        refine holds_sendAll (asks_requestsFor au.units au.timestamp) (fun p hp => ?_)
          (fun r hr => ?_) htimestamp
        · obtain ⟨unit, -, hp⟩ := mem_flatMap.mp hp
          exact payload_ne_nil p hp
        · obtain ⟨unit, -, hr⟩ := mem_flatMap.mp hr
          exact size_nalRequests_le _ _ _ r hr
      rw [map_flatMap] at hsent
      exact rel_append hsent hrest

end Zstreamer.RtspSource

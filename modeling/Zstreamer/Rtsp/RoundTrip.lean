/-
# What is delivered comes back

The packets that a client is sent for an access unit bring the pieces of its NAL units, with
numbers that follow each other and one time stamp, and only the last one has the marker.  So
the depayloader hands over every access unit that has been delivered.
-/

import Zstreamer.Rtp.RoundTrip
import Zstreamer.Rtsp.Delivery

namespace Zstreamer.Rtsp

open Foundation Rtp List

/-! ## The packets of a NAL unit -/

/-- The two bits of the header and the bit that must be zero make the three that are kept. -/
theorem indicator_eq : ∀ b : Byte, b &&& 0x80 = 0 →
    (((b >>> 5) &&& 0x03) <<< 5) ||| 28 = (b &&& 0xe0) ||| (28 : Byte) := by
  decide +kernel

/-- A fragment has the header that the depayloader expects. -/
theorem header_layoutServer {nal : List Byte} (hforbidden : nal.getD 0 0 &&& 0x80 = 0)
    (first last : Bool) : layoutServer.header nal first last = layoutH264.header nal first last := by
  show [_, _] = [_, _]
  rw [indicator_eq _ hforbidden, BitVec.or_comm (fuFlags first last), nalType]

theorem carries_layoutServer {nal : List Byte} (hforbidden : nal.getD 0 0 &&& 0x80 = 0)
    {r : Rtp.Request} {p : Piece Byte} (h : Rtp.Carries layoutServer nal r p) :
    Rtp.Carries layoutH264 nal r p := by
  cases h with
  | whole timestamp marker => exact .whole timestamp marker
  | fragment first last data timestamp marker =>
      rw [header_layoutServer hforbidden]
      exact .fragment first last data timestamp marker

/-- A NAL unit that can be sent: it has a type of its own, and the first bit is zero. -/
structure Sendable (nal : List Byte) : Prop where
  plain : Plain nal
  type : 1 ≤ nal.getD 0 0 &&& 0x1f ∧ nal.getD 0 0 &&& 0x1f ≤ 23
  forbidden : nal.getD 0 0 &&& 0x80 = 0

instance (nal : List Byte) : Decidable (Sendable nal) :=
  decidable_of_iff (Plain nal ∧ (1 ≤ nal.getD 0 0 &&& 0x1f ∧ nal.getD 0 0 &&& 0x1f ≤ 23) ∧
      nal.getD 0 0 &&& 0x80 = 0)
    ⟨fun ⟨h₁, h₂, h₃⟩ => ⟨h₁, h₂, h₃⟩, fun ⟨h₁, h₂, h₃⟩ => ⟨h₁, h₂, h₃⟩⟩

/-- The depayloader takes what the request carries. -/
def Brings (r : Rtp.Request) (p : Piece Byte) : Prop :=
  ∃ nal, Carriable .h264 nal ∧ Rtp.Carries layoutH264 nal r p

/-- The loop over the fragments ends, and what is sent is a cut of the NAL unit in small packets. -/
theorem nalRequests_cut {nal : List Byte} (hnal : Sendable nal) (timestamp : BitVec 32)
    (isLast : Bool) :
    (∃ cut : Cut Byte, cut.content = startCode true ++ nal ∧
      List.Forall₂ Brings (nalRequests nal timestamp isLast) (cut.pieces isLast)) ∧
    ∀ r ∈ nalRequests nal timestamp isLast, r.size ≤ rtpMtu - 12 := by
  have hcarriable : Carriable .h264 nal := ⟨hnal.plain.nonempty, hnal.type⟩
  have hpos := length_pos_iff.mpr hnal.plain.nonempty
  rw [nalRequests, if_neg (by omega)]
  split
  case isTrue hwhole =>
    refine ⟨⟨⟨startCode true ++ nal, []⟩, append_nil _, .cons ?_ .nil⟩, fun r hr => ?_⟩
    · rw [isEmpty_nil, Bool.and_true]
      exact ⟨nal, hcarriable, .whole timestamp isLast⟩
    · obtain rfl := mem_singleton.mp hr
      rw [Request.size, length_nil, Nat.zero_add]
      exact hwhole
  case isFalse hlong =>
    have hroom : (layoutServer.headerLen : ℤ) < (rtpMtu : ℤ) - 12 := by decide
    have hheader : layoutServer.nalHeader < nal.length := by
      show 1 < nal.length
      have hmtu : rtpMtu - 12 = 1388 := rfl
      omega
    obtain ⟨requests, hloop, -⟩ :=
      @fragmentLoop_ends layoutServer _ nal timestamp isLast hroom _ le_rfl
    obtain ⟨⟨cut, hcontent, hcut⟩, hsizes⟩ := fragmentLoop_cut hroom hheader hloop
    rw [hloop, Option.getD_some]
    refine ⟨⟨cut, hcontent, hcut.imp fun _ _ h =>
      ⟨nal, hcarriable, carries_layoutServer hnal.forbidden h⟩⟩, fun r hr => ?_⟩
    have hsize := (hsizes r hr).2
    have hmtu : (rtpMtu : ℤ) - 12 = 1388 := rfl
    have hmtu' : rtpMtu - 12 = 1388 := rfl
    omega

/-! ## The packets of an access unit -/

/-- The requests for NAL units. -/
def requestsFor (units : List (List Byte × Bool)) (timestamp : BitVec 32) : List Rtp.Request :=
  units.flatMap fun unit => nalRequests unit.1 timestamp unit.2

/-- They carry a group of cuts of the NAL units. -/
theorem requestsFor_cuts {nals : List (List Byte)} (hnals : ∀ nal ∈ nals, Sendable nal)
    (timestamp : BitVec 32) :
    (∃ cuts, CutsOf cuts nals ∧
      List.Forall₂ Brings (requestsFor (flagLast nals) timestamp) (groupPieces cuts)) ∧
    ∀ r ∈ requestsFor (flagLast nals) timestamp, r.size ≤ rtpMtu - 12 := by
  induction nals using flagLast.induct with
  | case1 => exact ⟨⟨[], .nil, .nil⟩, forall_mem_nil _⟩
  | case2 nal =>
      obtain ⟨⟨cut, hcontent, hcut⟩, hsize⟩ :=
        nalRequests_cut (hnals nal mem_cons_self) timestamp true
      have hrequests : requestsFor (flagLast [nal]) timestamp = nalRequests nal timestamp true :=
        append_nil _
      have hsingle : groupPieces [cut] = cut.pieces true := append_nil _
      rw [hrequests]
      refine ⟨⟨[cut], .cons hcontent .nil, ?_⟩, hsize⟩
      rw [hsingle]
      exact hcut
  | case3 nal next rest ih =>
      obtain ⟨⟨cut, hcontent, hcut⟩, hsize⟩ :=
        nalRequests_cut (hnals nal mem_cons_self) timestamp false
      obtain ⟨⟨cuts, hcontents, hcuts⟩, hsizes⟩ :=
        ih fun other hother => hnals other (mem_cons_of_mem nal hother)
      have hrequests : requestsFor (flagLast (nal :: next :: rest)) timestamp =
          nalRequests nal timestamp false ++ requestsFor (flagLast (next :: rest)) timestamp := rfl
      have hne : cuts ≠ [] := by
        rintro rfl
        cases hcontents
      rw [hrequests]
      refine ⟨⟨cut :: cuts, .cons hcontent hcontents, ?_⟩, fun r hr => ?_⟩
      · rw [groupPieces_cons cut hne]
        exact rel_append hcut hcuts
      · rcases mem_append.mp hr with hr | hr
        · exact hsize r hr
        · exact hsizes r hr

namespace Stream

theorem sendAll_append (front back : List Rtp.Request) (st : Stream) :
    st.sendAll (front ++ back) = (((st.sendAll front).1.sendAll back).1,
      (st.sendAll front).2 ++ ((st.sendAll front).1.sendAll back).2) := by
  induction front generalizing st with
  | nil => rfl
  | cons r front ih => rw [cons_append, sendAll, ih]; rfl

theorem sendAll_timestamp (requests : List Rtp.Request) (st : Stream) :
    (st.sendAll requests).1.timestamp = st.timestamp := by
  induction requests generalizing st with
  | nil => rfl
  | cons r requests ih => exact ih (st.send r).1

/-- NAL units are sent as all of their packets. -/
theorem packetizeAll_eq (units : List (List Byte × Bool)) (st : Stream) :
    st.packetizeAll units = st.sendAll (requestsFor units st.timestamp) := by
  induction units generalizing st with
  | nil => rfl
  | cons unit units ih =>
      have hsame := sendAll_timestamp (nalRequests unit.1 st.timestamp unit.2) st
      rw [packetizeAll, h264Packetize, ih, hsame, requestsFor, requestsFor, flatMap_cons,
        sendAll_append]

/-- What the depayloader sees of a packet. -/
def view (st : Stream) (r : Rtp.Request) : View where
  payload := r.header ++ r.payload
  payloadType := st.payloadType &&& 0x7f
  marker := r.marker
  seq := st.seq
  timestamp := st.timestamp
  ssrc := st.ssrc

/-- What it sees of all of them. -/
def views : List Rtp.Request → Stream → List View
  | [], _ => []
  | r :: requests, st => st.view r :: views requests (st.send r).1

/-- The fields that sending leaves alone. -/
def fixed (st : Stream) : BitVec 32 × Byte × Option Codec × Address × BitVec 32 :=
  (st.ssrc, st.payloadType, st.codec, st.clientRtpAddr, st.timestamp)

theorem fixed_sendAll (requests : List Rtp.Request) (st : Stream) :
    (st.sendAll requests).1.fixed = st.fixed := by
  induction requests generalizing st with
  | nil => rfl
  | cons r requests ih => exact ih (st.send r).1

/-- Small packets are seen as what they are. -/
theorem parse_sendAll {requests : List Rtp.Request} (hsize : ∀ r ∈ requests, r.size ≤ rtpMtu - 12)
    (st : Stream) :
    List.Forall₂ (fun data rtp => parseRtp data = some rtp) (st.sendAll requests).2
      (st.views requests) := by
  induction requests generalizing st with
  | nil => exact .nil
  | cons r requests ih =>
      refine .cons (parseRtp_bytes _ ?_) (ih (fun other hother =>
        hsize other (mem_cons_of_mem r hother)) (st.send r).1)
      have hsmall := hsize r mem_cons_self
      have hmtu : rtpMtu - 12 = 1388 := rfl
      rw [length_append]
      rw [Request.size] at hsmall
      omega

/-- They stay within the maximum. -/
theorem length_sendAll {requests : List Rtp.Request} (hsize : ∀ r ∈ requests, r.size ≤ rtpMtu - 12)
    (st : Stream) : ∀ data ∈ (st.sendAll requests).2, data.length ≤ rtpMtu := by
  induction requests generalizing st with
  | nil => exact nofun
  | cons r requests ih =>
      intro data hdata
      rcases mem_cons.mp hdata with rfl | hdata
      · have hsmall := hsize r mem_cons_self
        have hmtu : rtpMtu = 1400 := rfl
        rw [Request.size] at hsmall
        show (Header.bytes _ ++ (r.header ++ r.payload)).length ≤ rtpMtu
        rw [length_append, Header.length_bytes, length_append]
        omega
      · exact ih (fun other hother => hsize other (mem_cons_of_mem r hother)) (st.send r).1
          data hdata

/-- The views have the markers of the requests. -/
theorem map_marker_views (requests : List Rtp.Request) (st : Stream) :
    (st.views requests).map View.marker = requests.map Rtp.Request.marker := by
  induction requests generalizing st with
  | nil => rfl
  | cons r requests ih => rw [views, map_cons, map_cons, ih]; rfl

/-- They are from the stream. -/
theorem of_mem_views (requests : List Rtp.Request) (st : Stream) {rtp : View}
    (hrtp : rtp ∈ st.views requests) :
    rtp.payloadType = st.payloadType &&& 0x7f ∧ rtp.ssrc = st.ssrc := by
  induction requests generalizing st with
  | nil => cases hrtp
  | cons r requests ih =>
      rcases mem_cons.mp hrtp with rfl | hrtp
      · exact ⟨rfl, rfl⟩
      · exact ih (st.send r).1 hrtp

/-- The first one has the next number of the stream, and behind the last one comes the next number
of what is left of it. -/
theorem seq_views (requests : List Rtp.Request) (st : Stream) :
    (∀ rtp ∈ (st.views requests).head?, rtp.seq = st.seq) ∧
      (∀ rtp ∈ (st.views requests).getLast?, (st.sendAll requests).1.seq = rtp.seq + 1) := by
  induction requests generalizing st with
  | nil => exact ⟨nofun, nofun⟩
  | cons r requests ih =>
      refine ⟨fun rtp hrtp => ?_, fun rtp hrtp => ?_⟩
      · cases hrtp
        rfl
      · cases requests with
        | nil =>
            cases hrtp
            rfl
        | cons next requests =>
            rw [views, views, getLast?_cons_cons] at hrtp
            exact (ih (st.send r).1).2 rtp hrtp

/-- They follow each other at one time. -/
theorem chain_views (requests : List Rtp.Request) (st : Stream) :
    (st.views requests).IsChain Follows := by
  induction requests generalizing st with
  | nil => exact .nil
  | cons r requests ih =>
      cases requests with
      | nil => exact .singleton _
      | cons next requests => exact .cons_cons ⟨rfl, fun _ => rfl⟩ (ih (st.send r).1)

/-- The depayloader takes the pieces. -/
theorem conveys_views {requests : List Rtp.Request} {pieces : List (Piece Byte)}
    (h : List.Forall₂ Brings requests pieces) (st : Stream) :
    List.Forall₂ (Conveys .h264) (st.views requests) pieces := by
  induction h generalizing st with
  | nil => exact .nil
  | @cons r piece _ _ hone _ ih =>
      obtain ⟨nal, hnal, hcarries⟩ := hone
      have htaken : ∀ d : Depayloader, d.codec = .h264 →
          d.depay (st.view r) = d.takePiece (st.view r) piece :=
        fun d hcodec => @Rtp.Carries.depay .h264 nal r piece hcarries hnal d (st.view r) hcodec rfl
      exact .cons ⟨hcarries.marker_eq, htaken, hcarries.content_ne⟩ (ih (st.send r).1)

end Stream

/-- What is flagged in a group is the end of it. -/
theorem ending_of_brings {requests : List Rtp.Request} {pieces : List (Piece Byte)}
    (h : List.Forall₂ Brings requests pieces) (hends : Ending Piece.ends pieces) :
    Ending Rtp.Request.marker requests := by
  induction h with
  | nil => exact absurd rfl hends.ne_nil
  | @cons r piece _ _ hone hrest ih =>
      obtain ⟨nal, -, hcarries⟩ := hone
      have hsame := hcarries.marker_eq
      cases hends with
      | last hlast =>
          cases hrest
          exact .last (hsame.trans hlast)
      | more hmore hlater => exact .more (hsame.trans hmore) (ih hlater)

/-- A size that an `int` holds. -/
theorem seen_eq {data : List Byte} (h : data.length < 2 ^ 31) : seen data = data := by
  have hint : toInt data.length = data.length := by
    unfold toInt
    rw [Int.bmod_def]
    norm_num
    omega
  rw [seen, hint, Int.toNat_natCast, take_length]

/-! ## Pushes -/

/-- An access unit is pushed on the video pad of a session: the clients in front of one and behind
it, how it stands itself, and whether the pacer finds that it is too late. -/
structure Push where
  unit : AccessUnit
  client : Client
  ahead : List Viewer
  behind : List Viewer
  late : Bool

namespace Push

/-- The clients of the server. -/
def viewers (p : Push) (st : Stream) : List Viewer := p.ahead ++ ⟨p.client, st⟩ :: p.behind

/-- `multicast_sent` when it is the turn of the client. -/
def multicastSent (p : Push) (sess : ℕ) : List Address := p.ahead.foldl (Viewer.noted sess) []

/-- The cache of the session, and what the client is sent. -/
def deliver (p : Push) (sess : ℕ) (cache : List Byte) (st : Stream) : List Byte × Sent :=
  let out := sessionDeliver sess cache (p.viewers st) p.late p.unit.buffer
  (out.1, (out.2[p.ahead.length]?).getD (Viewer.idle ⟨p.client, st⟩))

end Push

/-- What the client is sent for one push after the other. -/
def deliveries (sess : ℕ) : List Push → List Byte → Stream → List Sent
  | [], _, _ => []
  | p :: pushes, cache, st =>
      let one := p.deliver sess cache st
      one.2 :: deliveries sess pushes one.1 one.2.stream

theorem deliverAll_getElem? (sess : ℕ) (cache : List Byte) (buf : Rtp.Buffer)
    (multicastSent : List Address) (ahead behind : List Viewer) (v : Viewer) :
    (deliverAll sess cache buf multicastSent (ahead ++ v :: behind))[ahead.length]? =
      some (v.deliver sess cache buf (ahead.foldl (Viewer.noted sess) multicastSent)) := by
  induction ahead generalizing multicastSent with
  | nil => rfl
  | cons first ahead ih => exact ih _

/-- What a push does, seen from the client. -/
theorem Push.deliver_eq (p : Push) (sess : ℕ) (cache : List Byte) (st : Stream) :
    p.deliver sess cache st =
      if Dropped sess (p.viewers st) p.late p.unit.buffer then
        (cache, Viewer.idle ⟨p.client, st⟩)
      else
        (cacheSpsPps cache p.unit.buffer.data,
          Viewer.deliver ⟨p.client, st⟩ sess (cacheSpsPps cache p.unit.buffer.data) p.unit.buffer
            (p.multicastSent sess)) := by
  rw [Push.deliver, sessionDeliver]
  split
  · rw [viewers, map_append, map_cons, getElem?_append_right (by rw [length_map]),
      length_map, Nat.sub_self]
    rfl
  · dsimp only
    rw [viewers, deliverAll_getElem?]
    rfl

/-! ## Access units that are delivered -/

/-- An access unit of NAL units that can be sent. -/
def Deliverable (au : AccessUnit) : Prop := au.units ≠ [] ∧ ∀ unit ∈ au.units, Sendable unit.2

instance (au : AccessUnit) : Decidable (Deliverable au) := inferInstanceAs (Decidable (_ ∧ _))

/-- A push is for the client: it plays, the pacer does not drop the access unit as too late, no
client in front has been sent it for the same multicast group, and an `int` holds its size. -/
structure Push.Reaches (p : Push) (sess : ℕ) (address : Address) : Prop where
  plays : p.client.session = some sess ∧ p.client.playState = .playing
  inTime : p.late = false ∨ p.client.transportType = .tcp ∧
    ∀ v ∈ p.ahead ++ p.behind, ¬ v.Paced sess
  unshared : ¬ (p.client.transportType = .multicast ∧ address ∈ p.multicastSent sess)
  size : (annexB p.unit.units).length < 2 ^ 31

/-- The stream is that of H.264, and its parameter sets have been sent. -/
def Stream.Begun (st : Stream) : Prop := st.codec = some .h264 ∧ st.spsPpsSent = true

/-- A push that reaches the client is delivered to it. -/
theorem Push.Reaches.deliver {p : Push} {sess : ℕ} {st : Stream}
    (h : p.Reaches sess st.clientRtpAddr) (hcodec : st.codec = some .h264) (cache : List Byte) :
    p.deliver sess cache st = (cacheSpsPps cache p.unit.buffer.data,
      st.deliver (cacheSpsPps cache p.unit.buffer.data) p.unit.buffer) := by
  have hkept : ¬ Dropped sess (p.viewers st) p.late p.unit.buffer := by
    rintro (heos | ⟨⟨v, hv, hplays, hpaced⟩, hlate⟩)
    · cases heos
    · rcases h.inTime with hearly | ⟨htcp, hothers⟩
      · exact Bool.false_ne_true (hearly.symm.trans hlate)
      · rcases mem_append.mp hv with hahead | hrest
        · exact hothers v (mem_append_left _ hahead) ⟨hplays, hpaced⟩
        · rcases mem_cons.mp hrest with rfl | hbehind
          · exact hpaced htcp
          · exact hothers v (mem_append_right _ hbehind) ⟨hplays, hpaced⟩
  have hserved : Viewer.Served ⟨p.client, st⟩ sess (p.multicastSent sess) :=
    ⟨h.plays, by rw [hcodec]; exact Option.some_ne_none _, h.unshared⟩
  rw [Push.deliver_eq, if_neg hkept, Viewer.deliver, if_pos hserved]

/-- Time is all that a stamp changes of what is sent. -/
theorem Stream.fixed_stamp (st : Stream) (pts : BitVec 64) :
    (st.stamp pts).seq = st.seq ∧ (st.stamp pts).ssrc = st.ssrc ∧
      (st.stamp pts).payloadType = st.payloadType ∧ (st.stamp pts).codec = st.codec ∧
      (st.stamp pts).spsPpsSent = st.spsPpsSent ∧
      (st.stamp pts).clientRtpAddr = st.clientRtpAddr := by
  rw [stamp]
  split <;> exact ⟨rfl, rfl, rfl, rfl, rfl, rfl⟩

theorem Stream.deliver_h264 {st : Stream} (hcodec : st.codec = some .h264) (cache : List Byte)
    (buf : Rtp.Buffer) :
    let now := st.stamp buf.pts
    let units := now.unitsFor cache (seen buf.data)
    st.deliver cache buf =
      ⟨{ (now.packetizeAll units).1 with spsPpsSent := now.sentAfter cache (seen buf.data) }, units,
        (now.packetizeAll units).2⟩ :=
  if_pos ((st.fixed_stamp buf.pts).2.2.2.1.trans hcodec)

theorem Stream.spsPpsSent_sendAll (requests : List Rtp.Request) (st : Stream) :
    (st.sendAll requests).1.spsPpsSent = st.spsPpsSent := by
  induction requests generalizing st with
  | nil => rfl
  | cons r requests ih => exact ih (st.send r).1

/-- What a stream whose parameter sets have been sent is sent of an access unit. -/
theorem Stream.deliver_begun {st : Stream} (hst : st.Begun) {au : AccessUnit}
    (hau : Deliverable au) (hsize : (annexB au.units).length < 2 ^ 31) (cache : List Byte) :
    let now := st.stamp au.pts
    let requests := requestsFor (flagLast au.nals) now.timestamp
    (st.deliver cache au.buffer).packets = (now.sendAll requests).2 ∧
      (st.deliver cache au.buffer).stream = (now.sendAll requests).1 := by
  have hsent : (st.stamp au.pts).spsPpsSent = true := (st.fixed_stamp au.pts).2.2.2.2.1.trans hst.2
  have hunits : (st.stamp au.pts).unitsFor cache (annexB au.units) = flagLast au.nals := by
    have hnone : ¬ (st.stamp au.pts).Replays cache (annexB au.units) :=
      fun hreplays => Bool.false_ne_true (hreplays.1.symm.trans hsent)
    rw [unitsFor, if_neg hnone, nil_append,
      frameUnits_annexB fun unit hunit => (hau.2 unit hunit).plain]
    rfl
  have hafter : (st.stamp au.pts).sentAfter cache (annexB au.units) = true := by
    rw [sentAfter, hsent, Bool.true_or, Bool.true_or]
  rw [Stream.deliver_h264 hst.1]
  dsimp only [AccessUnit.buffer]
  rw [seen_eq hsize, hunits, packetizeAll_eq, hafter]
  refine ⟨rfl, ?_⟩
  have hkeep := (Stream.spsPpsSent_sendAll (requestsFor (flagLast au.nals)
    (st.stamp au.pts).timestamp) (st.stamp au.pts)).trans hsent
  rw [← hkeep]

/-- What is sent for access units, part by part: what the depayloader sees of it, and the cuts that
it brings. -/
structure Carried (st : Stream) (units : List AccessUnit) (sents : List Sent)
    (parts : List (List View)) (groups : List (List (Cut Byte))) : Prop where
  parsed : List.Forall₂ (fun s views =>
    List.Forall₂ (fun data rtp => parseRtp data = some rtp) s.packets views) sents parts
  conveys : List.Forall₂ (Conveys .h264) parts.flatten (stream groups)
  cuts : List.Forall₂ CutsOf groups (units.map AccessUnit.nals)
  chain : parts.flatten.IsChain Follows
  first : ∀ rtp ∈ parts.flatten.head?, rtp.seq = st.seq
  ends : ∀ views ∈ parts, Ending View.marker views
  own : ∀ rtp ∈ parts.flatten, rtp.payloadType = st.payloadType &&& 0x7f ∧ rtp.ssrc = st.ssrc
  small : ∀ s ∈ sents, ∀ data ∈ s.packets, data.length ≤ rtpMtu

/-- One access unit more, in front. -/
theorem Carried.cons {st : Stream} (hst : st.Begun) {au : AccessUnit} (hau : Deliverable au)
    (hsize : (annexB au.units).length < 2 ^ 31) (cache : List Byte) {units : List AccessUnit}
    {sents : List Sent} {parts : List (List View)} {groups : List (List (Cut Byte))}
    (h : Carried (st.deliver cache au.buffer).stream units sents parts groups) :
    ∃ views cuts, Carried st (au :: units) (st.deliver cache au.buffer :: sents) (views :: parts)
      (cuts :: groups) := by
  obtain ⟨hpackets, hstream⟩ := Stream.deliver_begun hst hau hsize cache
  rw [hstream] at h
  obtain ⟨hseq, hssrc, htype, -⟩ := st.fixed_stamp au.pts
  generalize st.stamp au.pts = stamped at hpackets h hseq hssrc htype
  have hnals : ∀ nal ∈ au.nals, Sendable nal := by
    intro nal hnal
    obtain ⟨unit, hunit, rfl⟩ := mem_map.mp hnal
    exact hau.2 unit hunit
  obtain ⟨⟨cuts, hcuts, hbrings⟩, hsizes⟩ := requestsFor_cuts hnals stamped.timestamp
  generalize requestsFor (flagLast au.nals) stamped.timestamp = requests at hpackets h hbrings hsizes
  have hne : cuts ≠ [] := by
    rintro rfl
    have hnone : au.nals = [] := forall₂_nil_left_iff.mp hcuts
    exact hau.1 (map_eq_nil_iff.mp hnone)
  have hending : Ending View.marker (stamped.views requests) :=
    (ending_of_brings hbrings (ending_groupPieces hne)).of_map_eq
      (Stream.map_marker_views requests stamped)
  obtain ⟨hfirst, hlast⟩ := Stream.seq_views requests stamped
  have hfixed := Stream.fixed_sendAll requests stamped
  simp only [Stream.fixed, Prod.mk.injEq] at hfixed
  obtain ⟨hssrc', htype', -⟩ := hfixed
  refine ⟨stamped.views requests, cuts, ?_, ?_, .cons hcuts h.cuts, ?_, ?_, ?_, ?_, ?_⟩
  · refine .cons ?_ h.parsed
    rw [hpackets]
    exact Stream.parse_sendAll hsizes stamped
  · exact rel_append (Stream.conveys_views hbrings stamped) h.conveys
  · refine isChain_append.mpr ⟨Stream.chain_views requests stamped, h.chain, ?_⟩
    intro v hv w hw
    refine ⟨(h.first w hw).trans (hlast v hv), fun hmarker => ?_⟩
    exact absurd (hmarker.symm.trans (hending.of_getLast v hv)) Bool.false_ne_true
  · intro rtp hrtp
    obtain ⟨v, rest, hviews⟩ := exists_cons_of_ne_nil hending.ne_nil
    rw [flatten_cons, hviews] at hrtp
    obtain rfl := Option.some.inj hrtp
    exact (hfirst v (by rw [hviews]; rfl)).trans hseq
  · intro views hviews
    rcases mem_cons.mp hviews with rfl | hviews
    · exact hending
    · exact h.ends views hviews
  · intro rtp hrtp
    rcases mem_append.mp hrtp with hrtp | hrtp
    · obtain ⟨hone, htwo⟩ := Stream.of_mem_views requests stamped hrtp
      exact ⟨hone.trans (by rw [htype]), htwo.trans hssrc⟩
    · obtain ⟨hone, htwo⟩ := h.own rtp hrtp
      exact ⟨hone.trans (by rw [htype', htype]), htwo.trans (hssrc'.trans hssrc)⟩
  · intro s hs data hdata
    rcases mem_cons.mp hs with rfl | hs
    · rw [hpackets] at hdata
      exact Stream.length_sendAll hsizes stamped data hdata
    · exact h.small s hs data hdata

/-- A stream goes on with its parameter sets sent, to the same address. -/
theorem Stream.Begun.deliver {st : Stream} (hst : st.Begun) {au : AccessUnit}
    (hau : Deliverable au) (hsize : (annexB au.units).length < 2 ^ 31) (cache : List Byte) :
    (st.deliver cache au.buffer).stream.Begun ∧
      (st.deliver cache au.buffer).stream.clientRtpAddr = st.clientRtpAddr := by
  obtain ⟨-, -, -, hcodec, hsent, haddress⟩ := st.fixed_stamp au.pts
  have hfixed := (st.stamp au.pts).fixed_sendAll
    (requestsFor (flagLast au.nals) (st.stamp au.pts).timestamp)
  simp only [Stream.fixed, Prod.mk.injEq] at hfixed
  obtain ⟨-, -, hcodec', haddress', -⟩ := hfixed
  rw [(Stream.deliver_begun hst hau hsize cache).2]
  refine ⟨⟨hcodec'.trans (hcodec.trans hst.1), ?_⟩, haddress'.trans haddress⟩
  exact (Stream.spsPpsSent_sendAll _ _).trans (hsent.trans hst.2)

/-- What is sent for a list of pushes. -/
theorem carried_deliveries {sess : ℕ} {pushes : List Push} {st : Stream} (hst : st.Begun)
    (hpushes : ∀ p ∈ pushes, Deliverable p.unit ∧ p.Reaches sess st.clientRtpAddr)
    (cache : List Byte) :
    ∃ parts groups, Carried st (pushes.map Push.unit) (deliveries sess pushes cache st) parts
      groups := by
  induction pushes generalizing cache st with
  | nil => exact ⟨[], [], .nil, .nil, .nil, .nil, nofun, nofun, nofun, nofun⟩
  | cons p pushes ih =>
      obtain ⟨hau, hreaches⟩ := hpushes p mem_cons_self
      have hone := hreaches.deliver hst.1 cache
      obtain ⟨hbegun, haddress⟩ := hst.deliver hau hreaches.size
        (cacheSpsPps cache p.unit.buffer.data)
      obtain ⟨parts, groups, hrest⟩ := ih hbegun
        (fun other hother => haddress.symm ▸ hpushes other (mem_cons_of_mem p hother))
        (cacheSpsPps cache p.unit.buffer.data)
      obtain ⟨views, cuts, hall⟩ := hrest.cons hst hau hreaches.size
      rw [deliveries, hone, map_cons]
      dsimp only
      exact ⟨views :: parts, cuts :: groups, hall⟩

/-! ## What comes back -/

/-- A depayloader for the packets of a stream: it holds nothing and ignores none of them. -/
structure Expects (st : Stream) (d : Depayloader) : Prop where
  ready : d.Ready .h264
  payloadType : d.payloadType = st.payloadType &&& 0x7f
  filter : d.filterSsrc = true → d.expectedSsrc = st.ssrc
  first : d.haveSeq = true → d.nextSeq = st.seq

/-- The packets that are sent for access units are small, their numbers follow each other, the last
one of every access unit has the marker and no other one, and the depayloader makes of them one
buffer for every access unit, with the same NAL units behind start codes of four bytes. -/
structure Undone (st : Stream) (units : List AccessUnit) (sents : List Sent) : Prop where
  small : ∀ s ∈ sents, ∀ data ∈ s.packets, data.length ≤ rtpMtu
  framed : ∃ parts : List (List View), List.Forall₂ (fun s views =>
      List.Forall₂ (fun data rtp => parseRtp data = some rtp) s.packets views) sents parts ∧
    (parts.flatten.IsChain fun v w => w.seq = v.seq + 1) ∧
    ∀ views ∈ parts, Ending View.marker views
  returned : ∀ (d : Depayloader) (packets : List Packet), Expects st d →
    packets.map Packet.data = sents.flatMap Sent.packets →
    (d.pushAll packets).2.map Delivery.data = units.map fun au => startCoded au.nals

theorem Carried.undone {st : Stream} {units : List AccessUnit} {sents : List Sent}
    {parts : List (List View)} {groups : List (List (Cut Byte))}
    (h : Carried st units sents parts groups) (hunits : ∀ au ∈ units, Deliverable au) :
    Undone st units sents where
  small := h.small
  framed := ⟨parts, h.parsed, h.chain.imp fun _ _ hfollows => hfollows.1, h.ends⟩
  returned d packets hd hpackets := by
    have hparsed : Rtp.Parsed packets parts.flatten := by
      have hall : List.Forall₂ (fun data rtp => parseRtp data = some rtp)
          (packets.map Packet.data) parts.flatten := by
        rw [hpackets, flatMap_def]
        exact rel_flatten (forall₂_map_left_iff.mpr h.parsed)
      exact forall₂_map_left_iff.mp hall
    have hgroups : ∀ g ∈ groups, g ≠ [] := by
      rintro g hg rfl
      obtain ⟨nals, hnals, hcuts⟩ := forall₂_mem_right h.cuts.flip hg
      obtain rfl := forall₂_nil_left_iff.mp hcuts
      obtain ⟨au, hau, hnone⟩ := mem_map.mp hnals
      exact (hunits au hau).1 (map_eq_nil_iff.mp hnone)
    have hcontents : groups.map groupContent = (units.map AccessUnit.nals).map startCoded := by
      have hcuts := h.cuts
      generalize units.map AccessUnit.nals = nals at hcuts
      clear h hgroups
      induction hcuts with
      | nil => rfl
      | cons hone _ ih => rw [map_cons, map_cons, hone.groupContent, ih]
    have haccepts : d.Accepts parts.flatten := by
      refine ⟨fun rtp hrtp => ?_, fun rtp hrtp hseq => (h.first rtp hrtp).trans (hd.first hseq).symm⟩
      obtain ⟨htype, hssrc⟩ := h.own rtp hrtp
      refine not_or.mpr ⟨not_not.mpr (htype.trans hd.payloadType.symm), fun hand => ?_⟩
      exact hand.2 (hssrc.trans (hd.filter hand.1).symm)
    rw [Depayloader.groups_come_back hparsed h.conveys h.chain hgroups hd.ready haccepts, hcontents,
      map_map]
    rfl

/-- **What is delivered comes back**, as long as the pushes reach the client. -/
theorem delivery_undone {sess : ℕ} {pushes : List Push} {st : Stream} (hst : st.Begun)
    (hpushes : ∀ p ∈ pushes, Deliverable p.unit ∧ p.Reaches sess st.clientRtpAddr)
    (cache : List Byte) :
    Undone st (pushes.map Push.unit) (deliveries sess pushes cache st) := by
  obtain ⟨parts, groups, hcarried⟩ := carried_deliveries hst hpushes cache
  refine hcarried.undone fun au hau => ?_
  obtain ⟨p, hp, rfl⟩ := mem_map.mp hau
  exact (hpushes p hp).1

/-- A client that plays the session in the first slot. -/
def playing (transport : TransportType) : Client :=
  { Client.connected with transportType := transport, session := some 0, playState := .playing }

/-- Its stream, with the parameter sets sent. -/
def begun : Stream where
  ssrc := 7
  seq := 65535
  timestamp := 1000
  baseRtpTs := 0
  basePts := 0
  clockRate := 90000
  payloadType := 96
  codec := some .h264
  packetCount := 0
  octetCount := 0
  spsPpsSent := true
  clientRtpAddr := ⟨0xef000001, 5004⟩

/-- An access unit of one slice is pushed. -/
def pushSlice (client : Client) (ahead : List Viewer) (late : Bool) : Push :=
  ⟨⟨[(false, [0x65, 0x88])], 40000000⟩, client, ahead, [], late⟩

theorem deliverable_slice (client : Client) (ahead : List Viewer) (late : Bool) :
    Deliverable (pushSlice client ahead late).unit := by
  show Deliverable ⟨[(false, [0x65, 0x88])], 40000000⟩
  decide

/-- A slice of so many bytes behind its header. -/
def slice (n : ℕ) : List Byte := 0x65 :: replicate n 0x88

theorem length_slice (n : ℕ) : (slice n).length = n + 1 := by
  rw [slice, length_cons, length_replicate]

theorem sendable_slice (n : ℕ) : Sendable (slice n) := by
  have hzero : (0 : Byte) ∉ slice n := by
    rw [slice, mem_cons, mem_replicate]
    exact not_or.mpr ⟨by decide, fun hand => absurd hand.2 (by decide)⟩
  refine ⟨⟨fun hcode => hzero (hcode.subset mem_cons_self),
    fun hlast => hzero (mem_of_getLast? hlast), cons_ne_nil _ _⟩, ?_, ?_⟩
  · show 1 ≤ (0x65 : Byte) &&& 0x1f ∧ (0x65 : Byte) &&& 0x1f ≤ 23
    decide
  · show (0x65 : Byte) &&& 0x80 = 0
    decide

/-- The parameter sets and a slice that takes three packets; then two slices, one of two packets. -/
def pushTwo : List Push :=
  [⟨⟨[(true, [0x67, 0x42]), (true, [0x68, 0xce]), (false, slice 3000)], 40000000⟩, playing .tcp, [],
      [], false⟩,
    ⟨⟨[(true, slice 9), (false, slice 1500)], 80000000⟩, playing .tcp, [], [], false⟩]

theorem delivery_undone_two :
    Undone begun (pushTwo.map Push.unit) (deliveries 0 pushTwo [] begun) := by
  refine delivery_undone ⟨rfl, rfl⟩ (fun p hp => ?_) []
  have hunshared : ¬ (TransportType.tcp = .multicast ∧ begun.clientRtpAddr ∈ ([] : List Address)) :=
    fun hand => TransportType.noConfusion hand.1
  rcases mem_pair.mp hp with rfl | rfl
  · refine ⟨⟨cons_ne_nil _ _, ?_⟩, ⟨rfl, rfl⟩, .inl rfl, hunshared, ?_⟩
    · simp only [forall_mem_cons]
      exact ⟨by decide, by decide, sendable_slice 3000, nofun⟩
    · simp only [annexB, flatMap_cons, flatMap_nil, length_append, length_slice]
      decide
  · refine ⟨⟨cons_ne_nil _ _, ?_⟩, ⟨rfl, rfl⟩, .inl rfl, hunshared, ?_⟩
    · simp only [forall_mem_cons]
      exact ⟨sendable_slice 9, sendable_slice 1500, nofun⟩
    · simp only [annexB, flatMap_cons, flatMap_nil, length_append, length_slice]
      decide

/-- Nothing is right when nothing is sent. -/
theorem not_undone_of_packets {st : Stream} {units : List AccessUnit} {s : Sent}
    (hnone : s.packets = []) : ¬ Undone st units [s] := by
  rintro ⟨-, ⟨parts, hparsed, -, hends⟩, -⟩
  obtain ⟨views, rest, hviews, -, rfl⟩ := forall₂_cons_left_iff.mp hparsed
  rw [hnone] at hviews
  exact (hends views mem_cons_self).ne_nil (forall₂_nil_left_iff.mp hviews)

/-- One that the pacer finds too late. -/
def pushLate : Push := pushSlice (playing .udp) [] true

/-- One that a client in front has got for the same multicast group. -/
def pushShared : Push := pushSlice (playing .multicast) [⟨playing .multicast, begun⟩] false

/-- It is not enough that a client plays: it is sent nothing in these two cases. -/
theorem playing_not_enough :
    begun.Begun ∧
      (∀ p ∈ [pushLate, pushShared],
        Deliverable p.unit ∧ p.client.session = some 0 ∧ p.client.playState = .playing) ∧
      ¬ Undone begun [pushLate.unit] (deliveries 0 [pushLate] [] begun) ∧
      ¬ Undone begun [pushShared.unit] (deliveries 0 [pushShared] [] begun) := by
  refine ⟨⟨rfl, rfl⟩, fun p hp => ?_, not_undone_of_packets (by decide),
    not_undone_of_packets (by decide)⟩
  rcases mem_pair.mp hp with rfl | rfl
  · exact ⟨deliverable_slice _ _ _, rfl, rfl⟩
  · exact ⟨deliverable_slice _ _ _, rfl, rfl⟩

end Zstreamer.Rtsp

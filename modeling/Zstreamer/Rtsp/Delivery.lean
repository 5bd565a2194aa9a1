/-
# Delivery to the clients of a session

`session_deliver` of `rtsp_server.c` for a video pad: the parameter sets of a buffer go into
the cache of the session, and every client that plays is sent the NAL units of the buffer,
behind those of the cache if it has not had any parameter sets yet.

The video of a session is H.264 (`video_codec` is never set to anything else).  Sockets take
what they are given.  The pacer waits, and says whether a buffer comes too late; it is asked
only if there is a client that it is for.
-/

import Zstreamer.Rtp.Receiver
import Zstreamer.Rtsp.Connection
import Zstreamer.Rtsp.Units

namespace Zstreamer.Rtsp

open Foundation Rtp

/-- `RTP_MTU`. -/
def rtpMtu : ℕ := 1400

/-- `client_rtp_addr`. -/
structure Address where
  addr : BitVec 32
  port : BitVec 16
  deriving DecidableEq, Repr

/-- `rtp_stream_state_t`.  The codec is missing until the stream has been set up. -/
structure Stream where
  ssrc : BitVec 32
  seq : BitVec 16
  timestamp : BitVec 32
  baseRtpTs : BitVec 32
  basePts : BitVec 64
  clockRate : BitVec 32
  payloadType : Byte
  codec : Option Codec
  packetCount : BitVec 32
  octetCount : BitVec 32
  spsPpsSent : Bool
  clientRtpAddr : Address
  deriving DecidableEq, Repr

/-- FU-A as `h264_packetize` writes it: only two bits of the header go into the indicator. -/
def layoutServer : Layout where
  nalHeader := 1
  header nal first last :=
    let b := nal.getD 0 0
    let nri := (b >>> 5) &&& 0x03
    [(nri <<< 5) ||| 28, fuFlags first last ||| nalType b]
  length_header _ _ _ := rfl

/-- The packets that `h264_packetize` makes of a NAL unit. -/
def nalRequests (nal : List Byte) (timestamp : BitVec 32) (isLast : Bool) : List Rtp.Request :=
  if nal.length < 1 then []
  else if nal.length ≤ rtpMtu - 12 then [⟨[], nal, timestamp, isLast⟩]
  else
    -- as many turns as there are bytes are enough
    (fragmentLoop layoutServer (rtpMtu - 12) nal timestamp isLast nal.length).getD []

namespace Stream

/-- `build_rtp_hdr`, the payload, and `packet_send_cb`. -/
def send (st : Stream) (r : Rtp.Request) : Stream × List Byte :=
  let header : Header := ⟨r.marker, st.payloadType, st.seq, st.timestamp, st.ssrc⟩
  ({ st with
      seq := st.seq + 1
      packetCount := st.packetCount + 1
      octetCount := st.octetCount + BitVec.ofNat 32 r.size },
    header.bytes ++ (r.header ++ r.payload))

/-- Packets one after the other. -/
def sendAll : List Rtp.Request → Stream → Stream × List (List Byte)
  | [], st => (st, [])
  | r :: requests, st =>
      let rest := sendAll requests (st.send r).1
      (rest.1, (st.send r).2 :: rest.2)

/-- `h264_packetize`. -/
def h264Packetize (st : Stream) (nal : List Byte) (isLast : Bool) : Stream × List (List Byte) :=
  st.sendAll (nalRequests nal st.timestamp isLast)

/-- NAL units one after the other. -/
def packetizeAll : List (List Byte × Bool) → Stream → Stream × List (List Byte)
  | [], st => (st, [])
  | unit :: units, st =>
      let one := st.h264Packetize unit.1 unit.2
      let rest := packetizeAll units one.1
      (rest.1, one.2 ++ rest.2)

/-- The time stamp of a buffer: the first one gives the base. -/
def stamp (st : Stream) (pts : BitVec 64) : Stream :=
  let st := if st.basePts = 0 then { st with basePts := pts, baseRtpTs := st.timestamp } else st
  let delta := if (pts - st.basePts).msb then 0 else pts - st.basePts
  { st with
    timestamp := st.baseRtpTs + (delta * st.clockRate.setWidth 64 / 1000000000).setWidth 32 }

/-- The cache goes in front of what is sent. -/
def Replays (st : Stream) (cache data : List Byte) : Prop :=
  st.spsPpsSent = false ∧ hasSpsPps data = false ∧ cache ≠ []

instance (st : Stream) (cache data : List Byte) : Decidable (st.Replays cache data) :=
  inferInstanceAs (Decidable (_ ∧ _))

/-- The NAL units that `h264_packetize` is called with, and whether each is the last one. -/
def unitsFor (st : Stream) (cache data : List Byte) : List (List Byte × Bool) :=
  (if st.Replays cache data then (replayed cache).map fun nal => (nal, false) else []) ++
    frameUnits data

/-- `sps_pps_sent` afterwards. -/
def sentAfter (st : Stream) (cache data : List Byte) : Bool :=
  st.spsPpsSent || decide (st.Replays cache data) ||
    (frameUnits data).any fun unit => isParameterSet (unit.1.getD 0 0)

end Stream

/-- What a client is sent: the NAL units and the packets that they become. -/
structure Sent where
  stream : Stream
  units : List (List Byte × Bool)
  packets : List (List Byte)

/-- The body of the loop over the clients, for one that is sent the buffer. -/
def Stream.deliver (st : Stream) (cache : List Byte) (buf : Rtp.Buffer) : Sent :=
  let st := st.stamp buf.pts
  if st.codec = some .h264 then
    let data := seen buf.data
    let units := st.unitsFor cache data
    let out := st.packetizeAll units
    ⟨{ out.1 with spsPpsSent := st.sentAfter cache data }, units, out.2⟩
  else ⟨st, [], []⟩

/-- A client with its video stream. -/
structure Viewer where
  client : Client
  vstream : Stream

namespace Viewer

/-- It plays the media of this session. -/
def Plays (v : Viewer) (sess : ℕ) : Prop :=
  v.client.session = some sess ∧ v.client.playState = .playing

instance (v : Viewer) (sess : ℕ) : Decidable (v.Plays sess) := inferInstanceAs (Decidable (_ ∧ _))

/-- It is sent a buffer that the clients at these addresses have been sent already. -/
def Served (v : Viewer) (sess : ℕ) (multicastSent : List Address) : Prop :=
  v.Plays sess ∧ v.vstream.codec ≠ none ∧
    ¬ (v.client.transportType = .multicast ∧ v.vstream.clientRtpAddr ∈ multicastSent)

instance (v : Viewer) (sess : ℕ) (multicastSent : List Address) :
    Decidable (v.Served sess multicastSent) := inferInstanceAs (Decidable (_ ∧ _))

/-- `multicast_sent` behind this client. -/
def noted (sess : ℕ) (multicastSent : List Address) (v : Viewer) : List Address :=
  if v.Served sess multicastSent ∧ v.client.transportType = .multicast ∧ multicastSent.length < 32 then
    v.vstream.clientRtpAddr :: multicastSent
  else multicastSent

/-- A client that is sent nothing. -/
def idle (v : Viewer) : Sent := ⟨v.vstream, [], []⟩

/-- What this client is sent. -/
def deliver (v : Viewer) (sess : ℕ) (cache : List Byte) (buf : Rtp.Buffer)
    (multicastSent : List Address) : Sent :=
  if v.Served sess multicastSent then v.vstream.deliver cache buf else v.idle

/-- It is one that the pacer is for. -/
def Paced (v : Viewer) (sess : ℕ) : Prop := v.Plays sess ∧ v.client.transportType ≠ .tcp

instance (v : Viewer) (sess : ℕ) : Decidable (v.Paced sess) := inferInstanceAs (Decidable (_ ∧ _))

end Viewer

/-- The loop over the clients. -/
def deliverAll (sess : ℕ) (cache : List Byte) (buf : Rtp.Buffer) :
    List Address → List Viewer → List Sent
  | _, [] => []
  | multicastSent, v :: viewers =>
      v.deliver sess cache buf multicastSent ::
        deliverAll sess cache buf (v.noted sess multicastSent) viewers

/-- The buffer is dropped before anything is done with it: at the end of the stream, or because it
comes too late for a client that the pacer is for. -/
def Dropped (sess : ℕ) (viewers : List Viewer) (late : Bool) (buf : Rtp.Buffer) : Prop :=
  buf.eos = true ∨ ((∃ v ∈ viewers, v.Paced sess) ∧ late = true)

instance (sess : ℕ) (viewers : List Viewer) (late : Bool) (buf : Rtp.Buffer) :
    Decidable (Dropped sess viewers late buf) := inferInstanceAs (Decidable (_ ∨ _))

/-- `session_deliver`, for a video pad: the cache of the session afterwards, and what every client
is sent. -/
def sessionDeliver (sess : ℕ) (cache : List Byte) (viewers : List Viewer) (late : Bool)
    (buf : Rtp.Buffer) : List Byte × List Sent :=
  if Dropped sess viewers late buf then (cache, viewers.map Viewer.idle)
  else
    let cache := cacheSpsPps cache buf.data
    (cache, deliverAll sess cache buf [] viewers)

end Zstreamer.Rtsp

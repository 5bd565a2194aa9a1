/-
# The text of the replies

`send_reply` of `rtsp_server.c`, and what the handlers put into a reply: the headers of a
description and of a session, the session description itself, and the information on the streams
that are played.  Text is written behind text into arrays of a fixed size, and what does not fit is
cut off.

What a handler decides is in `Connection`.  The ports, numbers and times that a reply prints are
those of the streams as the handler leaves them.
-/

import Mathlib.Data.List.Chain
import Zstreamer.Rtsp.Extradata
import Zstreamer.Rtsp.Messages
import Zstreamer.Rtsp.TransportHeader

namespace Zstreamer.Rtsp

open Foundation

/-! ## Text in arrays -/

/-- Text on a line. -/
def line (label : String) (value : List Byte) : List Byte := text label ++ (value ++ crlf)

/-- The line of a header. -/
def header (name : String) (value : List Byte) : List Byte :=
  text name ++ 0x3a :: 0x20 :: (value ++ crlf)

/-- `APPEND_SNPRINTF`: the bytes that an array of so many counts.  Text that does not fit is cut
off, and the zero byte behind it counts. -/
def appendSnprintf (size : ℕ) (buf str : List Byte) : List Byte :=
  if buf.length < size then
    if buf.length + str.length < size then buf ++ str
    else buf ++ str.take (size - 1 - buf.length) ++ [0]
  else buf

/-- `snprintf` into an array of so many bytes: the string. -/
def snprintf (size : ℕ) (str : List Byte) : List Byte := str.take (size - 1)

/-- No zero byte, and no end of a line. -/
def NoBreak (l : List Byte) : Prop := 0 ∉ l ∧ l.IsChain fun a b => ¬ (a = 0x0d ∧ b = 0x0a)

/-! ## What a reply prints -/

/-- `rtp_stream_state_t`, as far as a reply prints it. -/
structure StreamState where
  seq : BitVec 16
  timestamp : BitVec 32
  clientRtpPort : BitVec 16
  clientRtcpPort : BitVec 16
  serverRtpPort : BitVec 16
  serverRtcpPort : BitVec 16

/-- `rtsp_server_session_t`, as far as its description prints it. -/
structure MediaState where
  /-- `video_codec` is that of H.264. -/
  h264 : Bool
  /-- What `avcc_to_sdp_params` has filled in, if there is data that it takes. -/
  params : Option AvccParams
  sampleRate : BitVec 32
  channels : BitVec 32

/-- What is outside of the connection. -/
structure Wire where
  /-- What `strftime` writes for the time. -/
  date : List Byte
  date_line : OneLine date
  date_length : date.length < 64
  /-- `time`, since 1900. -/
  now : BitVec 64
  /-- The address of the socket. -/
  localIp : List Byte
  localIp_line : OneLine localIp
  localIp_length : localIp.length < 64
  localPort : BitVec 16
  /-- The properties of the server. -/
  multicastAddress : List Byte
  multicastAddress_line : OneLine multicastAddress
  multicastAddress_length : multicastAddress.length < 64
  multicastTtl : BitVec 32
  forceTcp : Bool
  media : ℕ → MediaState
  video : StreamState
  audio : StreamState

/-- `%hu` -/
def hu (x : BitVec 16) : List Byte := Printf.decimal x.toNat

/-- `%d` -/
def d (x : BitVec 32) : List Byte := Printf.int x

/-! ## The session description -/

/-- `%02X` -/
def hexByteUpper (b : Byte) : List Byte :=
  let digit (n : ℕ) : Byte := (text "0123456789ABCDEF").getD n 0
  [digit (b.toNat / 16), digit (b.toNat % 16)]

/-- What the description of a session begins with. -/
def sdpHead (now : BitVec 64) (name : List Byte) : List Byte :=
  line "v=" (text "0") ++ line "o=- " (Printf.decimal now.toNat ++ text " " ++
    Printf.decimal now.toNat ++ text " IN IP4 0.0.0.0") ++ line "s=" name ++
    line "c=" (text "IN IP4 0.0.0.0") ++ line "t=" (text "0 0") ++ line "a=" (text "range:npt=0-") ++
    line "a=" (text "sendonly") ++ line "a=" (text "control:*")

/-- The lines for video. -/
def sdpVideo (m : MediaState) : List (List Byte) :=
  let pt := text (if m.h264 then "96" else "97")
  let enc := text (if m.h264 then "H264" else "H265")
  let fmtp (rest : List Byte) : List Byte :=
    line "a=fmtp:" (pt ++ text " packetization-mode=1;profile-level-id=" ++ rest) ++
      line "a=" (text "control:trackID=0")
  [line "m=video 0 RTP/AVP " pt ++ line "a=rtpmap:" (pt ++ text " " ++ enc ++ text "/90000"),
    match if m.h264 then m.params else none with
    | none => fmtp (text "42e01f")
    | some params =>
        if params.sprop = [] then fmtp params.profileLevelId
        else fmtp (params.profileLevelId ++ text ";sprop-parameter-sets=" ++ params.sprop)]

/-- The rates that have an index. -/
def sdpRates : List (BitVec 32) :=
  [96000, 88200, 64000, 48000, 44100, 32000, 24000, 22050, 16000, 12000, 11025, 8000, 7350]

/-- The lines for audio. -/
def sdpAudio (m : MediaState) : List Byte :=
  let sr := if 0 < m.sampleRate.toInt then m.sampleRate else 44100
  let ch := if 0 < m.channels.toInt then m.channels else 2
  let freqIdx : BitVec 32 := BitVec.ofNat 32 ((sdpRates.idxOf? sr).getD 4)
  let ch := if 7 < ch.toInt then 2 else ch
  let asc0 : Byte := (2 <<< 3 ||| freqIdx >>> 1).setWidth 8
  let asc1 : Byte := ((freqIdx &&& 1) <<< 7 ||| ch <<< 3).setWidth 8
  line "m=audio 0 RTP/AVP " (text "98") ++
    line "a=rtpmap:" (text "98 MPEG4-GENERIC/" ++ d sr ++ text "/" ++ d ch) ++
    line "a=fmtp:" (text "98 streamtype=5;profile-level-id=1;mode=AAC-hbr;config=" ++
      hexByteUpper asc0 ++ hexByteUpper asc1 ++
      text ";sizelength=13;indexlength=3;indexdeltalength=3") ++
    line "a=" (text "control:trackID=1")

/-- `make_sdp`, into an array of 4096 bytes. -/
def makeSdp (now : BitVec 64) (mount : Mount) (m : MediaState) : List Byte :=
  ([sdpHead now mount.name] ++ (if mount.hasVideo then sdpVideo m else []) ++
    (if mount.hasAudio then [sdpAudio m] else [])).foldl (appendSnprintf 4096) []

/-! ## Replies -/

/-- `reason_phrase` -/
def reasonPhrase : ℕ → String
  | 200 => "OK"
  | 400 => "Bad Request"
  | 404 => "Not Found"
  | 454 => "Session Not Found"
  | 461 => "Unsupported Transport"
  | 500 => "Internal Server Error"
  | 505 => "RTSP Version Not Supported"
  | _ => "Unknown"

/-- `send_reply`: the bytes that are sent, out of an array of 8192. -/
def sendReply (w : Wire) (cseq : BitVec 32) (reply : Reply) (extra body : List Byte) : List Byte :=
  let buf := appendSnprintf 8192 [] (line "RTSP/1.0 " (Printf.decimal reply.code ++ text " " ++
    text (reasonPhrase reply.code)) ++ header "CSeq" (Printf.decimal cseq.toNat) ++
    header "Date" w.date ++ header "Server" (text "zstreamer/1.0"))
  let buf := if reply.session = [] then buf else appendSnprintf 8192 buf (header "Session" reply.session)
  let buf := appendSnprintf 8192 buf extra
  let buf := appendSnprintf 8192 buf
    (header "Content-Length" (Printf.decimal body.length) ++ crlf)
  if buf.length + body.length ≤ 8192 then buf ++ body else buf

namespace Client

/-- The base of the URLs in a description, in an array of 1024 bytes. -/
def baseUrl (cl : Client) (w : Wire) : List Byte :=
  let uri := cl.request.uri
  if strstr uri (text "://") ≠ none then
    snprintf 1024 (if uri.getLast? = some 0x2f then uri else uri ++ text "/")
  else
    snprintf 1024 (text "rtsp://" ++ w.localIp ++ text ":" ++ hu w.localPort ++ text "/" ++
      uri.dropWhile (· = 0x2f) ++ text "/")

/-- The headers of a description, in an array of 1200 bytes. -/
def describeHeaders (cl : Client) (w : Wire) : List Byte :=
  snprintf 1200 (header "Content-Type" (text "application/sdp") ++
    header "Content-Base" (cl.baseUrl w))

/-- What a SETUP says of multicast: the destination, and the time to live. -/
structure Multicast where
  destination : List Byte
  ttl : BitVec 32

/-- `parse_transport_token`, as far as it looks for multicast. -/
def parseMulticastToken (m : Multicast) (tok : List Byte) : Multicast :=
  let tok := tok.dropWhile (· = 0x20)
  if IsParameter "ttl=" tok then
    match scanInt ((tok.take 15).drop 4) with
    | none => m
    | some (ttl, _) => { m with ttl := BitVec.ofInt 32 ttl }
  else if IsParameter "destination=" tok then { m with destination := (tok.drop 12).take 63 }
  else m

/-- `parse_transport_header`, as far as it looks for multicast. -/
def parseMulticast (field : List Byte) : Multicast :=
  (field.splitOnP fun b => b = 0x3b ∨ b = 0x2c).foldl parseMulticastToken ⟨[], 0⟩

/-- The value of the Transport header of a reply; `audio` says that the track is the one for
audio. -/
def transportValue (cl : Client) (w : Wire) (asked : Transport) (audio : Bool) : List Byte :=
  let st := if audio then w.audio else w.video
  match cl.transportType with
  | .udp => text "RTP/AVP/UDP;unicast;client_port=" ++ hu st.clientRtpPort ++ text "-" ++
      hu st.clientRtcpPort ++ text ";server_port=" ++ hu st.serverRtpPort ++ text "-" ++
      hu st.serverRtcpPort
  | .multicast =>
      let found := parseMulticast cl.request.transportHdr
      let group := if found.destination = [] then w.multicastAddress else found.destination
      let ttl := if 0 < found.ttl.toInt then found.ttl else w.multicastTtl
      text "RTP/AVP;multicast;destination=" ++ group ++ text ";port=" ++ hu st.serverRtpPort ++
        text "-" ++ hu st.serverRtcpPort ++ text ";ttl=" ++ d ttl
  | .tcp =>
      let rtpCh := if audio then
        (if asked.interleaved1 ≥ 0 then asked.interleaved1 else cl.interleavedRtp + 2)
        else cl.interleavedRtp
      let rtcpCh := if audio then (if asked.interleaved2 ≥ 0 then asked.interleaved2 else rtpCh + 1)
        else cl.interleavedRtcp
      text "RTP/AVP/TCP;interleaved=" ++ d (BitVec.ofInt 32 rtpCh) ++ text "-" ++
        d (BitVec.ofInt 32 rtcpCh)

/-- The headers of a PLAY, in an array of 512 bytes. -/
def playPieces (cl : Client) (w : Wire) : List (List Byte) :=
  let slash := text (if cl.request.uri.getLast? = some 0x2f then "" else "/")
  let url (track : String) (st : StreamState) : List Byte :=
    text "url=" ++ cl.request.uri ++ slash ++ text track ++ text ";seq=" ++ hu st.seq ++
      text ";rtptime=" ++ Printf.decimal st.timestamp.toNat
  [header "Range" (text "npt=0.000-") ++ (text "RTP-Info" ++ [0x3a, 0x20])] ++
    (if cl.videoSetUp then [url "trackID=0" w.video] else []) ++
    (if cl.audioSetUp then
      (if cl.videoSetUp then [text ","] else []) ++ [url "trackID=1" w.audio] else []) ++ [crlf]

/-- They are a string in the array. -/
def playHeaders (cl : Client) (w : Wire) : List Byte :=
  cstr ((cl.playPieces w).foldl (appendSnprintf 512) [])

end Client

/-- The handlers. -/
inductive Handler
  | options
  | describe
  | setup
  | play
  | pause
  | teardown

/-- The server that a client is connected to. -/
structure Site where
  slots : ℕ → Mount
  /-- `find_or_mount_session` -/
  find : List Byte → Option ℕ

/-- The bytes that a handler sends; nothing where it reads an array that nothing has been written
to. -/
def Client.sent (cl : Client) (site : Site) (w : Wire) (outside : Outside) : Handler → Option (List Byte)
  | .options =>
      some (sendReply w cl.request.cseq cl.onOptions.2
        (header "Public" (text "DESCRIBE, SETUP, TEARDOWN, PLAY, PAUSE, OPTIONS")) [])
  | .describe =>
      let (cl', reply) := cl.onDescribe site.find
      match if reply.code = 200 then cl'.session else none with
      | none => some (sendReply w cl.request.cseq reply [] [])
      | some i => some (sendReply w cl.request.cseq reply (cl.describeHeaders w)
          (makeSdp w.now (site.slots i) (w.media i)))
  | .setup =>
      let (cl', reply) :=
        cl.onSetup site.slots site.find parseTransportHeader w.forceTcp outside
      match cl.bindSession site.find with
      | none => some (sendReply w cl.request.cseq reply [] [])
      | some i =>
          -- `destination` is only written where there is a Transport header
          if cl'.transportType = .multicast ∧ cl.request.transportHdr = [] then none
          else if reply.code = 200 then
            let asked := if cl.request.transportHdr = [] then .default
              else parseTransportHeader cl.request.transportHdr
            some (sendReply w cl.request.cseq reply (snprintf 256 (header "Transport"
              (cl'.transportValue w asked (Client.wantedTrack cl.request.uri (site.slots i)).2))) [])
          else some (sendReply w cl.request.cseq reply [] [])
  | .play =>
      let reply := cl.onPlay.2
      some (sendReply w cl.request.cseq reply
        (if reply.code = 200 then cl.playHeaders w else []) [])
  | .pause => some (sendReply w cl.request.cseq cl.onPause.2 [] [])
  | .teardown => some (sendReply w cl.request.cseq cl.onTeardown.2 [] [])

end Zstreamer.Rtsp

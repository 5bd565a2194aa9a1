/-
# A connection of the RTSP server

The handlers of `rtsp_server.c` for the requests of one client, and the mount points that the
clients are attached to.  A client keeps a pointer into the array of mount points, which is
the index of the slot here; slots that are not in use keep what was in them.

Replies have more headers and a body that nothing here reads, and so have the RTP streams of
a client more state: what counts is which tracks are set up.  A reply is sent as a whole.
What a header asks of the transport is a parameter, as is what the operating system does.
-/

import Mathlib.Algebra.Ring.Nat
import Zstreamer.Rtsp.Text

namespace Zstreamer.Rtsp

open Foundation

/-- A request as `parse_rtsp_request` leaves it in the client. -/
structure Request where
  method : List Byte
  uri : List Byte
  cseq : BitVec 32
  sessionId : List Byte
  transportHdr : List Byte
  deriving DecidableEq, Repr

/-- `play_state`. -/
inductive PlayState
  | init
  | playing
  | paused
  deriving DecidableEq, Repr

/-- `transport_type`. -/
inductive TransportType
  | tcp
  | udp
  | multicast
  deriving DecidableEq, Repr

/-- What `parse_transport_header` finds. -/
structure Transport where
  transportType : TransportType
  clientPort : BitVec 16
  interleaved1 : ℤ
  interleaved2 : ℤ
  deriving DecidableEq, Repr

/-- `parse_transport_header` without a header, in effect. -/
def Transport.default : Transport := ⟨.tcp, 0, -1, -1⟩

/-- `rtsp_client_t`. -/
structure Client where
  request : Request
  transportType : TransportType
  interleavedRtp : ℤ
  interleavedRtcp : ℤ
  /-- bit 0 of `track_setup_mask` -/
  videoSetUp : Bool
  /-- bit 1 of `track_setup_mask` -/
  audioSetUp : Bool
  session : Option ℕ
  playState : PlayState
  running : Bool
  deriving DecidableEq, Repr

/-- A client that has connected. -/
def Client.connected : Client where
  request := ⟨[], [], 0, [], []⟩
  transportType := .tcp
  interleavedRtp := 0
  interleavedRtcp := 1
  videoSetUp := false
  audioSetUp := false
  session := none
  playState := .init
  running := true

/-- `rtsp_server_session_t`. -/
structure Mount where
  name : List Byte
  hasVideo : Bool
  hasAudio : Bool
  deriving DecidableEq, Repr

/-- The mount points of `rtsp_server_priv_t`. -/
structure Mounts where
  slots : ℕ → Mount
  sessionCount : ℕ

/-- `send_reply`: the code, and the identifier in the `Session` header if there is one. -/
structure Reply where
  code : ℕ
  session : List Byte
  deriving DecidableEq, Repr

/-- What comes from outside in a request. -/
structure Outside where
  /-- `secure_rand32` -/
  random : BitVec 32
  /-- UDP sockets are created and bound -/
  sockets : Bool
  deriving DecidableEq, Repr

/-- `RTSP_MAX_SESSIONS`. -/
def maxSessions : ℕ := 16

section Mount

local instance lawfulByte : LawfulBEq Byte := inferInstance

/-- `extract_mount_clean`, into an array of 128 bytes. -/
def extractMountClean (uri : List Byte) : Option (List Byte) :=
  let path : Option (List Byte) :=
    match strstr uri (text "://") with
    | some i => (strchr (uri.drop (i + 3)) 0x2f).map fun j => uri.drop (i + 3 + j)
    | none => some uri
  path.bind fun p =>
    let mount := (((p.dropWhile (· = 0x2f)).takeWhile (· ∉ text "/?;")).take 127)
    if mount = [] then none else some mount

end Mount

/-- The loop of `find_session_locked`. -/
def Mounts.findFrom (m : Mounts) (mount : List Byte) : ℕ → ℕ → Option ℕ
  | 0, _ => none
  | left + 1, i => if (m.slots i).name = mount then some i else m.findFrom mount left (i + 1)

/-- `find_session_locked`. -/
def Mounts.findSession (m : Mounts) (mount : List Byte) : Option ℕ :=
  m.findFrom mount m.sessionCount 0

namespace Client

/-- `send_reply` and `reply_simple`. -/
def reply (cl : Client) (code : ℕ) : Client × Reply := (cl, ⟨code, cl.request.sessionId⟩)

/-- Nothing is set up. -/
def NoTrack (cl : Client) : Prop := cl.videoSetUp = false ∧ cl.audioSetUp = false

instance (cl : Client) : Decidable cl.NoTrack := inferInstanceAs (Decidable (_ ∧ _))

/-- `on_options`. -/
def onOptions (cl : Client) : Client × Reply := cl.reply 200

/-- `on_describe`, which finds a mount point or not. -/
def onDescribe (cl : Client) (find : List Byte → Option ℕ) : Client × Reply :=
  match extractMountClean cl.request.uri with
  | none => cl.reply 404
  | some mount =>
      match find mount with
      | none => cl.reply 404
      | some sess => { cl with session := some sess }.reply 200

/-- The mount point of a SETUP: the one of the client, or else one that is found. -/
def bindSession (cl : Client) (find : List Byte → Option ℕ) : Option ℕ :=
  match cl.session with
  | some sess => some sess
  | none => (extractMountClean cl.request.uri).bind find

/-- The track that the URI of a SETUP names: video, audio. -/
def wantedTrack (uri : List Byte) (sess : Mount) : Bool × Bool :=
  match strstr uri (text "trackID=") with
  | some i =>
      let tid := atoi (uri.drop (i + 8))
      (tid = 0, tid = 1)
  | none => (sess.hasVideo, !sess.hasVideo && sess.hasAudio)

/-- `snprintf` with the format `%08x`. -/
def hexId (x : BitVec 32) : List Byte :=
  (List.range 8).map fun i =>
    let digit := (x >>> (28 - 4 * i)).toNat % 16
    BitVec.ofNat 8 (if digit < 10 then 0x30 + digit else 0x57 + digit)

/-- The first SETUP makes an identifier and chooses the transport. -/
def establish (cl : Client) (random : BitVec 32) (wanted : Transport) (hasTransport : Bool) : Client :=
  let cl := { cl with request := { cl.request with sessionId := hexId random } }
  let tcp (rtp rtcp : ℤ) : Client :=
    { cl with transportType := .tcp, interleavedRtp := rtp, interleavedRtcp := rtcp }
  let first := if wanted.interleaved1 ≥ 0 then wanted.interleaved1 else 0
  let second := if wanted.interleaved2 ≥ 0 then wanted.interleaved2 else first + 1
  match wanted.transportType with
  | .multicast => { cl with transportType := .multicast }
  | .tcp => tcp first second
  | .udp =>
      if wanted.clientPort = 0 then if hasTransport then tcp first second else tcp 0 1
      else { cl with transportType := .udp }

/-- The transport that a SETUP asks for.  `parse` is `parse_transport_header`, and `forceTcp` the
property of the server. -/
def wantedTransport (cl : Client) (parse : List Byte → Transport) (forceTcp : Bool) : Transport :=
  let asked := if cl.request.transportHdr = [] then .default else parse cl.request.transportHdr
  if forceTcp then { asked with transportType := .tcp, clientPort := 0 } else asked

/-- If this is the first SETUP, establish the transport. -/
def firstSetup (cl : Client) (random : BitVec 32) (wanted : Transport) : Client :=
  if cl.NoTrack then cl.establish random wanted (cl.request.transportHdr ≠ []) else cl

/-- The tracks that are wanted and are there are set up. -/
def setTracks (cl : Client) (track : Bool × Bool) (sess : Mount) : Client :=
  { cl with
    videoSetUp := cl.videoSetUp || (track.1 && sess.hasVideo)
    audioSetUp := cl.audioSetUp || (track.2 && sess.hasAudio) }

/-- The sockets of the track are made. -/
def needsSockets (cl : Client) (wanted : Transport) : Bool :=
  (cl.transportType = .udp && wanted.clientPort ≠ 0) || cl.transportType = .multicast

/-- `on_setup`. -/
def onSetup (cl : Client) (slots : ℕ → Mount) (find : List Byte → Option ℕ)
    (parse : List Byte → Transport) (forceTcp : Bool) (outside : Outside) : Client × Reply :=
  match cl.bindSession find with
  | none => { cl with session := none }.reply 454
  | some i =>
      let wanted := cl.wantedTransport parse forceTcp
      let track := wantedTrack cl.request.uri (slots i)
      let cl := ({ cl with session := some i }.firstSetup outside.random wanted).setTracks track
        (slots i)
      cl.reply (if cl.needsSockets wanted && !outside.sockets then 500 else 200)

/-- `on_play`. -/
def onPlay (cl : Client) : Client × Reply :=
  if cl.request.sessionId = [] then cl.reply 454
  else ({ cl with playState := .playing }, ⟨200, cl.request.sessionId⟩)

/-- `on_pause`. -/
def onPause (cl : Client) : Client × Reply :=
  if cl.request.sessionId = [] then cl.reply 454
  else { cl with playState := .paused }.reply 200

/-- `on_teardown`. -/
def onTeardown (cl : Client) : Client × Reply := { cl with playState := .init }.reply 200

/-- `dispatch_rtsp`. -/
def dispatch (cl : Client) (slots : ℕ → Mount) (find : List Byte → Option ℕ)
    (parse : List Byte → Transport) (forceTcp : Bool) (outside : Outside) : Client × Reply :=
  if SameCase cl.request.method (text "OPTIONS") then cl.onOptions
  else if SameCase cl.request.method (text "DESCRIBE") then cl.onDescribe find
  else if SameCase cl.request.method (text "SETUP") then
    cl.onSetup slots find parse forceTcp outside
  else if SameCase cl.request.method (text "PLAY") then cl.onPlay
  else if SameCase cl.request.method (text "PAUSE") then cl.onPause
  else if SameCase cl.request.method (text "TEARDOWN") then cl.onTeardown
  else cl.reply 501

end Client

end Zstreamer.Rtsp

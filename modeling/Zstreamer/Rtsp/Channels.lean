/-
# Channels of an interleaved connection

Over TCP the frames of a client share its connection, and each has the number of a channel.  A
SETUP asks for two channels, for RTP and for RTCP, and its reply announces two.  The numbers are
kept where they were asked for first, in the client, and in each stream; the reply and the
sender reports compute theirs once more.
-/

import Zstreamer.Rtsp.Identifier
import Zstreamer.Rtsp.TransportHeader

namespace Zstreamer.Rtsp

open Foundation

/-- A pair of channels. -/
structure ChannelPair where
  rtp : ℤ
  rtcp : ℤ
  deriving DecidableEq, Repr

/-- A client with the field `interleaved_ch` of its two streams. -/
structure Channels where
  client : Client
  video : ℤ
  audio : ℤ
  deriving DecidableEq, Repr

/-- The four bytes before a packet, and the packet. -/
def interleavedFrame (channel : ℤ) (packet : List Byte) : List Byte :=
  let len := BitVec.ofNat 16 packet.length
  0x24 :: BitVec.ofInt 8 channel :: (len >>> 8).setWidth 8 :: len.setWidth 8 :: packet

/-- `write_rtp_packet` to a TCP client. -/
def writeRtpPacket (interleavedCh : ℤ) (packet : List Byte) : List Byte :=
  interleavedFrame interleavedCh packet

/-- `send_rtcp_sr` to a TCP client. -/
def sendRtcpSr (interleavedCh : ℤ) (report : List Byte) : List Byte :=
  interleavedFrame (interleavedCh + 1) report

/-- The channel of a frame. -/
def channelOf (frame : List Byte) : ℤ := ((frame.drop 1).headD 0).toNat

namespace Channels

/-- A client that has connected. -/
def connected : Channels := ⟨Client.connected, 0, 0⟩

/-- The channel of the audio stream: the one that is asked for, or one behind those of the video. -/
def audioRtp (cl : Client) (wanted : Transport) : ℤ :=
  if wanted.interleaved1 ≥ 0 then wanted.interleaved1 else cl.interleavedRtp + 2

/-- The channels in the reply to a SETUP over TCP. -/
def announced (cl : Client) (isAudioTrack : Bool) (wanted : Transport) : ChannelPair :=
  if isAudioTrack = true then
    ⟨audioRtp cl wanted,
      if wanted.interleaved2 ≥ 0 then wanted.interleaved2 else audioRtp cl wanted + 1⟩
  else ⟨cl.interleavedRtp, cl.interleavedRtcp⟩

/-- The channels of the streams that a SETUP sets up, where there is a mount point. -/
def setupStreams (s : Channels) (ask : Ask) (i : ℕ) : Channels × Option ChannelPair :=
  let cl := { s.client with request := ask.request }
  let wanted := cl.wantedTransport ask.parse ask.forceTcp
  let track := Client.wantedTrack cl.request.uri (ask.slots i)
  let first := { cl with session := some i }.firstSetup ask.outside.random wanted
  (⟨(s.client.exchange ask).after,
      if (track.1 && (ask.slots i).hasVideo && !first.videoSetUp) = true then first.interleavedRtp
      else s.video,
      if (track.2 && (ask.slots i).hasAudio && !first.audioSetUp) = true then audioRtp first wanted
      else s.audio⟩,
    if first.transportType = .tcp then some (announced first track.2 wanted) else none)

/-- A request, and the channels in the reply if there are any. -/
def exchange (s : Channels) (ask : Ask) : Channels × Option ChannelPair :=
  if SameCase ask.request.method (text "SETUP") then
    match { s.client with request := ask.request }.bindSession ask.find with
    | none => ({ s with client := (s.client.exchange ask).after }, none)
    | some i => s.setupStreams ask i
  else ({ s with client := (s.client.exchange ask).after }, none)

/-- So many requests, one after the other. -/
def serve (s : Channels) (asks : List Ask) : Channels :=
  asks.foldl (fun s ask => (s.exchange ask).1) s

end Channels

/-- The Transport header of the request asks for the two channels. -/
structure Ask.AsksFor (ask : Ask) (rtp rtcp : ℕ) : Prop where
  setup : SameCase ask.request.method (text "SETUP")
  parse : ask.parse = parseTransportHeader
  rtp : (parseTransportHeader ask.request.transportHdr).interleaved1 = rtp
  rtcp : (parseTransportHeader ask.request.transportHdr).interleaved2 = rtcp
  given : ask.request.transportHdr ≠ []

/-- A connection over TCP in which the two tracks are set up, each by one SETUP that asks for
channels of its own. -/
structure TwoSetups where
  before : List Ask
  first : Ask
  between : List Ask
  second : Ask
  after : List Ask
  others : ∀ ask ∈ before ++ between ++ after, ¬ SameCase ask.request.method (text "SETUP")
  rtp₁ : ℕ
  rtcp₁ : ℕ
  rtp₂ : ℕ
  rtcp₂ : ℕ
  distinct : [rtp₁, rtcp₁, rtp₂, rtcp₂].Nodup
  small : ∀ channel ∈ [rtp₁, rtcp₁, rtp₂, rtcp₂], channel < 256
  asksFirst : first.AsksFor rtp₁ rtcp₁
  asksSecond : second.AsksFor rtp₂ rtcp₂
  succeed :
    let one := (Channels.connected.serve before).exchange first
    let two := (one.1.serve between).exchange second
    two.1.client.transportType = .tcp ∧ two.1.client.videoSetUp = true ∧
      two.1.client.audioSetUp = true

namespace TwoSetups

variable (c : TwoSetups)

/-- After the first SETUP, with what it has announced. -/
def one : Channels × Option ChannelPair := (Channels.connected.serve c.before).exchange c.first

/-- After the second one. -/
def two : Channels × Option ChannelPair := (c.one.1.serve c.between).exchange c.second

/-- When frames are sent. -/
def final : Channels := c.two.1.serve c.after

/-- The first SETUP was that of the video. -/
def VideoFirst : Prop := c.one.1.client.videoSetUp = true

instance : Decidable c.VideoFirst := inferInstanceAs (Decidable (_ = _))

/-- What the SETUP of the video has asked for, and what was announced. -/
def videoAsked : ChannelPair := if c.VideoFirst then ⟨c.rtp₁, c.rtcp₁⟩ else ⟨c.rtp₂, c.rtcp₂⟩

def videoTold : Option ChannelPair := if c.VideoFirst then c.one.2 else c.two.2

/-- And that of the audio. -/
def audioAsked : ChannelPair := if c.VideoFirst then ⟨c.rtp₂, c.rtcp₂⟩ else ⟨c.rtp₁, c.rtcp₁⟩

def audioTold : Option ChannelPair := if c.VideoFirst then c.two.2 else c.one.2

/-- A stream sends on the channels that were announced, which are those that were asked for. -/
def StreamRight (asked : ChannelPair) (told : Option ChannelPair) (interleavedCh : ℤ) : Prop :=
  told = some asked ∧ (∀ packet, channelOf (writeRtpPacket interleavedCh packet) = asked.rtp) ∧
    ∀ report, channelOf (sendRtcpSr interleavedCh report) = asked.rtcp

/-- Both streams do, and no frames of the two have the same channel. -/
structure Right : Prop where
  video : StreamRight c.videoAsked c.videoTold c.final.video
  audio : StreamRight c.audioAsked c.audioTold c.final.audio
  apart : ∀ packet packet',
    ∀ x ∈ [writeRtpPacket c.final.video packet, sendRtcpSr c.final.video packet],
      ∀ y ∈ [writeRtpPacket c.final.audio packet', sendRtcpSr c.final.audio packet'],
        channelOf x ≠ channelOf y

end TwoSetups

/-! ## What requests leave -/

/-- Only a SETUP touches the transport. -/
theorem Client.dispatch_transport (cl : Client) (ask : Ask)
    (h : ¬ SameCase cl.request.method (text "SETUP")) :
    let cl' := (cl.dispatch ask.slots ask.find ask.parse ask.forceTcp ask.outside).1
    cl'.transportType = cl.transportType ∧ cl'.interleavedRtp = cl.interleavedRtp ∧
      cl'.interleavedRtcp = cl.interleavedRtcp := by
  rw [dispatch]
  split
  · exact ⟨rfl, rfl, rfl⟩
  split
  · rw [onDescribe]
    split
    · exact ⟨rfl, rfl, rfl⟩
    · split <;> exact ⟨rfl, rfl, rfl⟩
  split
  · rw [onPlay]
    split <;> exact ⟨rfl, rfl, rfl⟩
  split
  · rw [onPause]
    split <;> exact ⟨rfl, rfl, rfl⟩
  split <;> exact ⟨rfl, rfl, rfl⟩

namespace Channels

/-- The fields of a SETUP are as they were. -/
structure SameTracks (s s' : Channels) : Prop where
  transportType : s'.client.transportType = s.client.transportType
  interleavedRtp : s'.client.interleavedRtp = s.client.interleavedRtp
  interleavedRtcp : s'.client.interleavedRtcp = s.client.interleavedRtcp
  videoSetUp : s'.client.videoSetUp = s.client.videoSetUp
  audioSetUp : s'.client.audioSetUp = s.client.audioSetUp
  video : s'.video = s.video
  audio : s'.audio = s.audio

theorem SameTracks.refl (s : Channels) : SameTracks s s := ⟨rfl, rfl, rfl, rfl, rfl, rfl, rfl⟩

theorem SameTracks.trans {s s' s'' : Channels} (h : SameTracks s s') (h' : SameTracks s' s'') :
    SameTracks s s'' :=
  ⟨h'.transportType.trans h.transportType, h'.interleavedRtp.trans h.interleavedRtp,
    h'.interleavedRtcp.trans h.interleavedRtcp, h'.videoSetUp.trans h.videoSetUp,
    h'.audioSetUp.trans h.audioSetUp, h'.video.trans h.video, h'.audio.trans h.audio⟩

/-- Requests of other methods leave them. -/
theorem exchange_other (s : Channels) {ask : Ask}
    (h : ¬ SameCase ask.request.method (text "SETUP")) : SameTracks s (s.exchange ask).1 := by
  rw [exchange, if_neg h]
  obtain ⟨hvideo, haudio, -⟩ := Client.dispatch_spec { s.client with request := ask.request }
    ask.slots ask.find ask.parse ask.forceTcp ask.outside h
  have hclient := Client.dispatch_transport { s.client with request := ask.request } ask h
  exact ⟨hclient.1, hclient.2.1, hclient.2.2, hvideo, haudio, rfl, rfl⟩

theorem serve_others (s : Channels) {asks : List Ask}
    (h : ∀ ask ∈ asks, ¬ SameCase ask.request.method (text "SETUP")) :
    SameTracks s (s.serve asks) := by
  induction asks generalizing s with
  | nil => exact SameTracks.refl s
  | cons ask asks ih =>
      exact (s.exchange_other (h ask List.mem_cons_self)).trans
        (ih _ fun ask' hmem => h ask' (List.mem_cons_of_mem ask hmem))

end Channels

/-- The first SETUP of a connection over TCP keeps the channels that it asks for. -/
theorem Client.establish_tcp {cl : Client} {random : BitVec 32} {wanted : Transport}
    (h₁ : 0 ≤ wanted.interleaved1) (h₂ : 0 ≤ wanted.interleaved2)
    (htcp : (cl.establish random wanted true).transportType = .tcp) :
    (cl.establish random wanted true).interleavedRtp = wanted.interleaved1 ∧
      (cl.establish random wanted true).interleavedRtcp = wanted.interleaved2 := by
  rw [establish] at htcp ⊢
  cases htype : wanted.transportType with
  | multicast =>
      rw [htype] at htcp
      cases htcp
  | tcp => exact ⟨if_pos h₁, if_pos h₂⟩
  | udp =>
      rw [htype] at htcp
      dsimp only at htcp ⊢
      split at htcp
      case isTrue hport =>
        rw [if_pos hport]
        exact ⟨if_pos h₁, if_pos h₂⟩
      case isFalse => cases htcp

/-- A URI names one track at most. -/
theorem Client.wantedTrack_one (uri : List Byte) (sess : Mount) :
    (Client.wantedTrack uri sess).1 = true → (Client.wantedTrack uri sess).2 = false := by
  rw [Client.wantedTrack]
  split
  · intro hzero
    have hzero := of_decide_eq_true hzero
    dsimp only
    rw [hzero]
    rfl
  · intro hvideo
    dsimp only at hvideo ⊢
    rw [hvideo]
    rfl

namespace Channels

/-- What a SETUP over TCP does, if it sets up the video (`v`) or the audio (`a`). -/
structure SetsUp (s : Channels) (rtp rtcp : ℕ) (out : Channels × Option ChannelPair)
    (v a : Bool) : Prop where
  one : v = true → a = false
  videoSetUp : out.1.client.videoSetUp = (s.client.videoSetUp || v)
  audioSetUp : out.1.client.audioSetUp = (s.client.audioSetUp || a)
  later : ¬ s.client.NoTrack → out.1.client.transportType = s.client.transportType ∧
    out.1.client.interleavedRtp = s.client.interleavedRtp ∧
    out.1.client.interleavedRtcp = s.client.interleavedRtcp
  first : s.client.NoTrack → v = true ∨ a = true → out.1.client.transportType = .tcp →
    out.1.client.interleavedRtp = rtp ∧ out.1.client.interleavedRtcp = rtcp
  video : out.1.video =
    if v = true ∧ s.client.videoSetUp = false then out.1.client.interleavedRtp else s.video
  audio : out.1.audio = if a = true ∧ s.client.audioSetUp = false then (rtp : ℤ) else s.audio
  toldVideo : v = true → out.1.client.transportType = .tcp →
    out.2 = some ⟨out.1.client.interleavedRtp, out.1.client.interleavedRtcp⟩
  toldAudio : a = true → out.1.client.transportType = .tcp → out.2 = some ⟨rtp, rtcp⟩

/-- **A SETUP** that asks for channels. -/
theorem exchange_setup (s : Channels) {ask : Ask} {rtp rtcp : ℕ} (h : ask.AsksFor rtp rtcp) :
    ∃ v a, SetsUp s rtp rtcp (s.exchange ask) v a := by
  rw [exchange, if_pos h.setup]
  have hclient : (s.client.exchange ask).after =
      (Client.onSetup { s.client with request := ask.request } ask.slots ask.find ask.parse
        ask.forceTcp ask.outside).1 := by
    show (Client.dispatch _ _ _ _ _ _).1 = _
    exact congrArg Prod.fst (Client.dispatch_setup h.setup)
  split
  case h_1 hbind =>
    rw [hclient, Client.onSetup, hbind]
    refine ⟨false, false, fun hfalse => (by cases hfalse), ?_, ?_, fun _ => ⟨rfl, rfl, rfl⟩, ?_, ?_, ?_,
      fun hfalse => (by cases hfalse), fun hfalse => by cases hfalse⟩
    · exact (Bool.or_false _).symm
    · exact (Bool.or_false _).symm
    · rintro - (hfalse | hfalse) <;> cases hfalse
    · exact (if_neg fun hand => Bool.noConfusion hand.1).symm
    · exact (if_neg fun hand => Bool.noConfusion hand.1).symm
  case h_2 i hbind =>
    obtain ⟨wanted, hwanted⟩ : ∃ wanted, wanted =
        Client.wantedTransport { s.client with request := ask.request } ask.parse ask.forceTcp :=
      ⟨_, rfl⟩
    obtain ⟨first, hfirst⟩ : ∃ first, first =
        Client.firstSetup { s.client with request := ask.request, session := some i }
          ask.outside.random wanted := ⟨_, rfl⟩
    have hchannels : wanted.interleaved1 = rtp ∧ wanted.interleaved2 = rtcp := by
      rw [hwanted, Client.wantedTransport]
      dsimp only
      rw [if_neg h.given, h.parse]
      split <;> exact ⟨h.rtp, h.rtcp⟩
    have hafter : (s.client.exchange ask).after =
        first.setTracks (Client.wantedTrack ask.request.uri (ask.slots i)) (ask.slots i) := by
      rw [hclient, Client.onSetup, hbind, hfirst, hwanted]
      rfl
    obtain ⟨-, hvideo, haudio⟩ := Client.firstSetup_spec
      { s.client with request := ask.request, session := some i } ask.outside.random wanted
    rw [← hfirst] at hvideo haudio
    have hlater : ¬ s.client.NoTrack → first.transportType = s.client.transportType ∧
        first.interleavedRtp = s.client.interleavedRtp ∧
        first.interleavedRtcp = s.client.interleavedRtcp := by
      intro htrack
      have htrack : ¬ Client.NoTrack
        { s.client with request := ask.request, session := some i } := htrack
      rw [hfirst, Client.firstSetup, if_neg htrack]
      exact ⟨rfl, rfl, rfl⟩
    have hestablish : s.client.NoTrack → first.transportType = .tcp →
        first.interleavedRtp = rtp ∧ first.interleavedRtcp = rtcp := by
      intro hnone htcp
      have hnone : Client.NoTrack
        { s.client with request := ask.request, session := some i } := hnone
      rw [hfirst, Client.firstSetup, if_pos hnone] at htcp ⊢
      have hgiven : decide (ask.request.transportHdr ≠ []) = true := decide_eq_true h.given
      dsimp only at htcp ⊢
      rw [hgiven] at htcp ⊢
      obtain ⟨hrtp, hrtcp⟩ := Client.establish_tcp (hchannels.1 ▸ Int.natCast_nonneg rtp)
        (hchannels.2 ▸ Int.natCast_nonneg rtcp) htcp
      exact ⟨hrtp.trans hchannels.1, hrtcp.trans hchannels.2⟩
    have haudioRtp : audioRtp first wanted = rtp := by
      rw [audioRtp, hchannels.1]
      exact if_pos (Int.natCast_nonneg rtp)
    rw [setupStreams]
    dsimp only
    rw [← hwanted, ← hfirst, hafter, haudioRtp, hvideo, haudio]
    obtain ⟨track, htrack⟩ : ∃ track, track = Client.wantedTrack ask.request.uri (ask.slots i) :=
      ⟨_, rfl⟩
    have hone := Client.wantedTrack_one ask.request.uri (ask.slots i)
    rw [← htrack] at hone ⊢
    refine ⟨track.1 && (ask.slots i).hasVideo, track.2 && (ask.slots i).hasAudio, ?_, ?_, ?_,
      hlater, fun hnone _ => hestablish hnone, ?_, ?_, ?_, ?_⟩
    · intro hv
      rw [hone (Bool.and_eq_true_iff.mp hv).1, Bool.false_and]
    · exact congrArg (· || (track.1 && (ask.slots i).hasVideo)) hvideo
    · exact congrArg (· || (track.2 && (ask.slots i).hasAudio)) haudio
    · exact if_congr (by rw [Bool.and_eq_true_iff, Bool.not_eq_true']) rfl rfl
    · exact if_congr (by rw [Bool.and_eq_true_iff, Bool.not_eq_true']) rfl rfl
    · intro hv htcp
      have htcp : first.transportType = .tcp := htcp
      show (if first.transportType = .tcp then some (announced first track.2 wanted) else none) = _
      rw [if_pos htcp, announced, hone (Bool.and_eq_true_iff.mp hv).1]
      rfl
    · intro ha htcp
      have htcp : first.transportType = .tcp := htcp
      show (if first.transportType = .tcp then some (announced first track.2 wanted) else none) = _
      rw [if_pos htcp, announced, if_pos (Bool.and_eq_true_iff.mp ha).1, haudioRtp, hchannels.2,
        if_pos (Int.natCast_nonneg rtcp)]

end Channels

namespace TwoSetups

variable (c : TwoSetups)

/-- What the two SETUPs leave, in either order. -/
structure Outcome : Prop where
  videoFirst : c.VideoFirst → c.one.2 = some ⟨c.rtp₁, c.rtcp₁⟩ ∧ c.two.2 = some ⟨c.rtp₂, c.rtcp₂⟩ ∧
    c.final.video = c.rtp₁ ∧ c.final.audio = c.rtp₂
  audioFirst : ¬ c.VideoFirst → c.two.2 = some ⟨c.rtp₁, c.rtcp₁⟩

theorem outcome : c.Outcome := by
  have hbefore := Channels.connected.serve_others fun ask hmem =>
    c.others ask (List.mem_append_left _ (List.mem_append_left _ hmem))
  have hbetween := c.one.1.serve_others fun ask hmem =>
    c.others ask (List.mem_append_left _ (List.mem_append_right _ hmem))
  have hafter := c.two.1.serve_others fun ask hmem =>
    c.others ask (List.mem_append_right _ hmem)
  obtain ⟨htcp, hvideo, haudio⟩ := c.succeed
  have htcp : c.two.1.client.transportType = .tcp := htcp
  have hvideo : c.two.1.client.videoSetUp = true := hvideo
  have haudio : c.two.1.client.audioSetUp = true := haudio
  obtain ⟨v₁, a₁, h₁⟩ := Channels.exchange_setup (Channels.connected.serve c.before) c.asksFirst
  obtain ⟨v₂, a₂, h₂⟩ := Channels.exchange_setup (c.one.1.serve c.between) c.asksSecond
  have h₁ : Channels.SetsUp _ _ _ c.one v₁ a₁ := h₁
  have h₂ : Channels.SetsUp _ _ _ c.two v₂ a₂ := h₂
  have hnone : (Channels.connected.serve c.before).client.NoTrack :=
    ⟨hbefore.videoSetUp, hbefore.audioSetUp⟩
  have hv₁ : c.one.1.client.videoSetUp = v₁ := by
    rw [h₁.videoSetUp, hnone.1, Bool.false_or]
  have ha₁ : c.one.1.client.audioSetUp = a₁ := by
    rw [h₁.audioSetUp, hnone.2, Bool.false_or]
  rw [h₂.videoSetUp, hbetween.videoSetUp, hv₁] at hvideo
  rw [h₂.audioSetUp, hbetween.audioSetUp, ha₁] at haudio
  have hsome : v₁ = true ∨ a₁ = true := by
    cases v₁ with
    | true => exact .inl rfl
    | false =>
        cases a₁ with
        | true => exact .inr rfl
        | false =>
            rw [Bool.false_or] at hvideo haudio
            exact Bool.noConfusion (haudio.symm.trans (h₂.one hvideo))
  have htrack : ¬ (c.one.1.serve c.between).client.NoTrack := by
    rintro ⟨hv, ha⟩
    rw [hbetween.videoSetUp, hv₁] at hv
    rw [hbetween.audioSetUp, ha₁] at ha
    rcases hsome with hv' | ha'
    · exact Bool.noConfusion (hv'.symm.trans hv)
    · exact Bool.noConfusion (ha'.symm.trans ha)
  obtain ⟨htype, hrtp, hrtcp⟩ := h₂.later htrack
  have htcp₁ : c.one.1.client.transportType = .tcp := by
    rw [← hbetween.transportType, ← htype, htcp]
  obtain ⟨hrtp₁, hrtcp₁⟩ := h₁.first hnone hsome htcp₁
  refine ⟨fun hfirst => ?_, fun hfirst => ?_⟩
  · have hv : v₁ = true := hv₁.symm.trans hfirst
    have ha : a₁ = false := h₁.one hv
    have ha₂ : a₂ = true := by
      rwa [ha, Bool.false_or] at haudio
    have hv₂ : ¬ v₂ = true := fun hv₂ => Bool.noConfusion (ha₂.symm.trans (h₂.one hv₂))
    refine ⟨?_, h₂.toldAudio ha₂ htcp, ?_, ?_⟩
    · rw [h₁.toldVideo hv htcp₁, hrtp₁, hrtcp₁]
    · rw [final, hafter.video, h₂.video, if_neg fun hand => hv₂ hand.1, hbetween.video, h₁.video,
        if_pos ⟨hv, hnone.1⟩, hrtp₁]
    · rw [final, hafter.audio, h₂.audio,
        if_pos ⟨ha₂, hbetween.audioSetUp.trans (ha₁.trans ha)⟩]
  · have hv : v₁ = false := Bool.eq_false_iff.mpr fun hv => hfirst (hv₁.trans hv)
    have hv₂ : v₂ = true := by
      rwa [hv, Bool.false_or] at hvideo
    rw [h₂.toldVideo hv₂ htcp, hrtp, hrtcp, hbetween.interleavedRtp, hbetween.interleavedRtcp,
      hrtp₁, hrtcp₁]

theorem channelOf_frame (n : ℕ) (packet : List Byte) :
    channelOf (interleavedFrame (n : ℤ) packet) = ((n % 256 : ℕ) : ℤ) := by
  show (((BitVec.ofInt 8 (n : ℤ)).toNat : ℕ) : ℤ) = _
  rw [BitVec.toNat_ofInt]
  omega

/-- A stream sends on the channel that it has, and its reports on the one behind it. -/
theorem channelOf_rtp {n : ℕ} (hn : n < 256) (packet : List Byte) :
    channelOf (writeRtpPacket n packet) = n := by
  rw [writeRtpPacket, channelOf_frame, Nat.mod_eq_of_lt hn]

theorem channelOf_report (n : ℕ) (report : List Byte) :
    channelOf (sendRtcpSr n report) = (((n + 1) % 256 : ℕ) : ℤ) :=
  channelOf_frame (n + 1) report

theorem streamRight_iff {rtp rtcp : ℕ} (hrtp : rtp < 256) :
    StreamRight ⟨rtp, rtcp⟩ (some ⟨rtp, rtcp⟩) rtp ↔ (rtp + 1) % 256 = rtcp := by
  constructor
  · rintro ⟨-, -, hreport⟩
    have hreport := hreport []
    rw [channelOf_report] at hreport
    exact Int.ofNat.inj hreport
  · intro hnext
    refine ⟨rfl, channelOf_rtp hrtp, fun report => ?_⟩
    rw [channelOf_report, hnext]

/-- **The channels are right** if and only if the video is set up first, and every request asks for
the channel of RTCP that follows that of RTP. -/
theorem right_iff : c.Right ↔
    c.VideoFirst ∧ (c.rtp₁ + 1) % 256 = c.rtcp₁ ∧ (c.rtp₂ + 1) % 256 = c.rtcp₂ := by
  obtain ⟨hvideoFirst, haudioFirst⟩ := c.outcome
  have hsmall₁ : c.rtp₁ < 256 := c.small _ List.mem_cons_self
  have hsmall₂ : c.rtp₂ < 256 := c.small _ (by simp only [List.mem_cons, true_or, or_true])
  have hdistinct := c.distinct
  simp only [List.nodup_cons, List.mem_cons, List.not_mem_nil, or_false, not_or] at hdistinct
  by_cases hfirst : c.VideoFirst
  · obtain ⟨htold₁, htold₂, hvideo, haudio⟩ := hvideoFirst hfirst
    have hv : StreamRight c.videoAsked c.videoTold c.final.video ↔
        (c.rtp₁ + 1) % 256 = c.rtcp₁ := by
      rw [videoAsked, if_pos hfirst, videoTold, if_pos hfirst, htold₁, hvideo]
      exact streamRight_iff hsmall₁
    have ha : StreamRight c.audioAsked c.audioTold c.final.audio ↔
        (c.rtp₂ + 1) % 256 = c.rtcp₂ := by
      rw [audioAsked, if_pos hfirst, audioTold, if_pos hfirst, htold₂, haudio]
      exact streamRight_iff hsmall₂
    refine ⟨fun h => ⟨hfirst, hv.mp h.video, ha.mp h.audio⟩, ?_⟩
    rintro ⟨-, hnext₁, hnext₂⟩
    refine ⟨hv.mpr hnext₁, ha.mpr hnext₂, fun packet packet' x hx y hy => ?_⟩
    rw [hvideo] at hx
    rw [haudio] at hy
    have hx : channelOf x = c.rtp₁ ∨ channelOf x = c.rtcp₁ := by
      rcases List.mem_cons.mp hx with rfl | hx
      · exact .inl (channelOf_rtp hsmall₁ packet)
      · cases List.mem_singleton.mp hx
        exact .inr (by rw [channelOf_report, hnext₁])
    have hy : channelOf y = c.rtp₂ ∨ channelOf y = c.rtcp₂ := by
      rcases List.mem_cons.mp hy with rfl | hy
      · exact .inl (channelOf_rtp hsmall₂ packet')
      · cases List.mem_singleton.mp hy
        exact .inr (by rw [channelOf_report, hnext₂])
    omega
  · refine iff_of_false (fun h => ?_) fun hand => hfirst hand.1
    -- the reply to the SETUP of the video has the channels that the audio has asked for
    have htold := h.video.1
    rw [videoTold, if_neg hfirst, haudioFirst hfirst, videoAsked, if_neg hfirst] at htold
    have hsame : (c.rtp₁ : ℤ) = c.rtp₂ := congrArg ChannelPair.rtp (Option.some.inj htold)
    omega

end TwoSetups

/-! ## Three clients -/

/-- A SETUP for a track of a mount point with both. -/
def setupOf (track a b : ℕ) : Ask where
  request :=
    { method := text "SETUP"
      uri := text "rtsp://h/cam/trackID=" ++ Printf.decimal track
      cseq := 0
      sessionId := []
      transportHdr := interleavedHeader a b }
  slots := fun _ => ⟨text "cam", true, true⟩
  find := fun _ => some 0
  parse := parseTransportHeader
  forceTcp := false
  outside := ⟨7, true⟩

theorem setupOf_asksFor (track : ℕ) {a b : ℕ} (ha : a < 256) (hb : b < 256) :
    (setupOf track a b).AsksFor a b where
  setup := rfl
  parse := rfl
  rtp := congrArg Transport.interleaved1 (parseTransportHeader_interleaved ha hb)
  rtcp := congrArg Transport.interleaved2 (parseTransportHeader_interleaved ha hb)
  given := List.cons_ne_nil _ _

/-- A client that asks for the usual channels in the usual order. -/
def videoThenAudio : TwoSetups where
  before := []
  first := setupOf 0 4 5
  between := []
  second := setupOf 1 6 7
  after := []
  others := nofun
  rtp₁ := 4
  rtcp₁ := 5
  rtp₂ := 6
  rtcp₂ := 7
  distinct := by decide
  small := by decide
  asksFirst := setupOf_asksFor 0 (by decide) (by decide)
  asksSecond := setupOf_asksFor 1 (by decide) (by decide)
  succeed := by decide +kernel

theorem videoThenAudio_right : videoThenAudio.Right :=
  videoThenAudio.right_iff.mpr ⟨by decide +kernel, rfl, rfl⟩

/-- A client that sets up the audio first. -/
def audioThenVideo : TwoSetups where
  before := []
  first := setupOf 1 0 1
  between := []
  second := setupOf 0 2 3
  after := []
  others := nofun
  rtp₁ := 0
  rtcp₁ := 1
  rtp₂ := 2
  rtcp₂ := 3
  distinct := by decide
  small := by decide
  asksFirst := setupOf_asksFor 1 (by decide) (by decide)
  asksSecond := setupOf_asksFor 0 (by decide) (by decide)
  succeed := by decide +kernel

/-- A client whose channels do not follow each other. -/
def farApart : TwoSetups where
  before := []
  first := setupOf 0 0 5
  between := []
  second := setupOf 1 2 3
  after := []
  others := nofun
  rtp₁ := 0
  rtcp₁ := 5
  rtp₂ := 2
  rtcp₂ := 3
  distinct := by decide
  small := by decide
  asksFirst := setupOf_asksFor 0 (by decide) (by decide)
  asksSecond := setupOf_asksFor 1 (by decide) (by decide)
  succeed := by decide +kernel

/-- **Both streams send on one channel; and sender reports are sent on another channel** than the
one that was announced. -/
theorem channels_wrong :
    (audioThenVideo.videoTold = some ⟨0, 1⟩ ∧ audioThenVideo.videoAsked = ⟨2, 3⟩ ∧
      audioThenVideo.final.video = 0 ∧ audioThenVideo.final.audio = 0 ∧ ¬ audioThenVideo.Right) ∧
      farApart.videoTold = some ⟨0, 5⟩ ∧
      channelOf (sendRtcpSr farApart.final.video []) = 1 ∧ ¬ farApart.Right := by
  have hvideo : audioThenVideo.videoTold = some ⟨0, 1⟩ ∧ audioThenVideo.videoAsked = ⟨2, 3⟩ ∧
      audioThenVideo.final.video = 0 ∧ audioThenVideo.final.audio = 0 := by
    decide +kernel
  have hfar : farApart.videoTold = some ⟨0, 5⟩ ∧ farApart.videoAsked = ⟨0, 5⟩ ∧
      channelOf (sendRtcpSr farApart.final.video []) = 1 := by
    decide +kernel
  obtain ⟨htold, hasked, hv, ha⟩ := hvideo
  obtain ⟨hfarTold, hfarAsked, hreport⟩ := hfar
  refine ⟨⟨htold, hasked, hv, ha, fun h => ?_⟩, hfarTold, hreport, fun h => ?_⟩
  · have hsame := h.video.1
    rw [htold, hasked] at hsame
    exact absurd hsame (by decide)
  · have hsame := h.video.2.2 []
    rw [hreport, hfarAsked] at hsame
    exact absurd hsame (by decide)

end Zstreamer.Rtsp

import Zstreamer.Aac.Framing
import Zstreamer.Bin.EndOfStream
import Zstreamer.BufferPool.Sizes
import Zstreamer.Caps.Mirror
import Zstreamer.Clock.Qos
import Zstreamer.Core.HookBalance
import Zstreamer.Dante.ChunkPool
import Zstreamer.Dante.Order
import Zstreamer.Dante.ParameterSets
import Zstreamer.DanteSession.Registry
import Zstreamer.DanteSession.Utf8
import Zstreamer.Demuxer.ByteQueue
import Zstreamer.Dep.Attach
import Zstreamer.Dep.Drops
import Zstreamer.Dep.Lifecycle
import Zstreamer.Dep.Timestamps
import Zstreamer.Dep.Torn
import Zstreamer.EventBus.Delivery
import Zstreamer.H26x.Chunking
import Zstreamer.H26x.Once
import Zstreamer.H26x.SequenceH265
import Zstreamer.H26x.Times
import Zstreamer.Mixer.Samples
import Zstreamer.Mp4.Demuxer
import Zstreamer.Pads.Ghost
import Zstreamer.Pads.LinkInvariant
import Zstreamer.Pads.Negotiation
import Zstreamer.Pads.Segments
import Zstreamer.Queue.Bytes
import Zstreamer.Queue.Refinement
import Zstreamer.Queue.Wakeup
import Zstreamer.Redundancy.Failover
import Zstreamer.Redundancy.Merge
import Zstreamer.Rtp.AudioRoundTrip
import Zstreamer.Rtp.Room
import Zstreamer.Rtsp.Answers
import Zstreamer.Rtsp.Channels
import Zstreamer.Rtsp.Clock
import Zstreamer.Rtsp.Mounts
import Zstreamer.Rtsp.Segmentation
import Zstreamer.Rtsp.Started
import Zstreamer.RtspSource.Clock
import Zstreamer.RtspSource.Fragments
import Zstreamer.Scheduler.Accounting
import Zstreamer.Scheduler.Drain
import Zstreamer.Sdp.Base64Coders
import Zstreamer.SdpDemuxer.Agreement
import Zstreamer.SdpDemuxer.Parsers
import Zstreamer.SdpDemuxer.Recovery
import Zstreamer.SdpDemuxer.Routing
import Zstreamer.Srt.RoundTrip
import Zstreamer.St2110.AudioRoundTrip
import Zstreamer.St2110.Loss
import Zstreamer.St2110.Ownership
import Zstreamer.St2110.Stamps
import Zstreamer.St2110.VideoRoundTrip
import Zstreamer.Topology.PoolSizing
import Zstreamer.Topology.Ranks
import Zstreamer.Topology.Sorting
import Zstreamer.Twcc.Answer
import Zstreamer.Twcc.Decoding
import Zstreamer.WebSocket.Framing
import Zstreamer.WebSocket.Handshake

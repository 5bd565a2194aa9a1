/-
# The clock of the payloaders

Four payloaders stamp the packets of a buffer with its time in ticks of the clock of the
stream: a product of 64 bits is divided by the nanoseconds of a second.  The ticks are those
of the time as long as the product has not wrapped around, and again for some of the times
behind that.

The first packet that comes out need not be the first one of the buffer: with a strict mtu the
RTP payloader refuses whole chunks of samples, which have no room for the header, and only the
rest behind them is sent, with the time of its first sample.
-/

import Zstreamer.Foundation.Ticks
import Zstreamer.Rtp.Mtu
import Zstreamer.St2110.Audio
import Zstreamer.St2110.Payloader
import Zstreamer.St2110.VideoPayloader

namespace Zstreamer.St2110

open Foundation Rtp

/-! ## The first packet of a buffer -/

/-- A call of one of the payloaders, with the buffer it is given. -/
inductive Call
  | rtp (s : Rtp.Payloader) (buf : Rtp.Buffer)
  | video (s : Video.Payloader) (buf : Rtp.Buffer)
  | compressed (s : Payloader) (buf : Rtp.Buffer)
  | audio (s : Audio.Payloader) (input : Audio.Input)

namespace Call

/-- The time of the buffer. -/
def pts : Call → BitVec 64
  | .rtp _ buf => buf.pts
  | .video _ buf => buf.pts
  | .compressed _ buf => buf.pts
  | .audio _ input => input.pts

/-- The rate of the clock: that of video is always the same. -/
def rate : Call → BitVec 64
  | .rtp s _ =>
      match s.codec with
      | .h264 | .h265 => 90000
      | .aac | .pcm => s.clockRate.setWidth 64
  | .video _ _ => 90000
  | .compressed _ _ => 90000
  | .audio s _ => BitVec.ofInt 64 s.sampleRate

/-- The first packet that the call hands on, when it returns.  The end of the stream is none. -/
def firstPacket (turns : ℕ) : Call → Option (List Byte)
  | .rtp s buf => (s.push turns buf).bind fun pushed => pushed.packets.head?.map Packet.data
  | .video s buf =>
      if buf.eos then none
      else (s.padPush turns buf).toOption.bind fun made => made.2.head?.map Rtp.Buffer.data
  | .compressed s buf =>
      (s.process turns buf).toOption.bind fun made => made.2.head?.map Packet.data
  | .audio s input =>
      if input.eos then none
      else (s.process turns input).toOption.bind fun made =>
        made.2.packets.head?.map Rtp.Buffer.data

/-- What the payloaders make of the time of the buffer. -/
def stamp (c : Call) : BitVec 32 := (c.pts * c.rate / 1000000000).setWidth 32

/-- The bytes of samples in front of the first chunk that `make_packet` does not refuse.  The chunks
have the same size, but for the last one: when the first one is refused, the last one is left. -/
def refusedBytes (s : Rtp.Payloader) (size : ℕ) : ℤ :=
  let first : ℤ := min size s.mtu
  if first ≤ maxPayload ∧ (s.strictMtu = true → first + 12 ≤ s.mtu) then 0
  else size / s.mtu * s.mtu

/-- The sample frames in front of the first packet. -/
def skipped : Call → ℤ
  | .rtp s buf =>
      match s.codec with
      | .pcm => (refusedBytes s buf.data.length).tdiv s.bytesPerSampleFrame
      | .h264 | .h265 | .aac => 0
  | .video _ _ => 0
  | .compressed _ _ => 0
  | .audio _ _ => 0

/-! ## What it is stamped with -/

theorem timestamp_sendNal {layout : Layout} {s : Rtp.Payloader} {turns : ℕ} {nal : List Byte}
    {timestamp : BitVec 32} {marker : Bool} {sending : Sending}
    (h : s.sendNal layout turns nal timestamp marker = some sending) :
    ∀ r ∈ sending.requests, r.timestamp = timestamp := by
  rw [Rtp.Payloader.sendNal] at h
  split at h
  case isTrue =>
    cases h
    exact List.forall_mem_nil _
  split at h
  case isTrue =>
    cases h
    exact List.forall_mem_nil _
  split at h
  case isTrue =>
    cases h
    exact fun r hr => List.mem_singleton.mp hr ▸ rfl
  case isFalse =>
    obtain ⟨requests, hloop, rfl⟩ := Option.map_eq_some_iff.mp h
    obtain ⟨chunks, -, rfl⟩ := Option.map_eq_some_iff.mp hloop
    exact timestamp_fragments

theorem timestamp_sendUnits {layout : Layout} {s : Rtp.Payloader} {turns : ℕ}
    {timestamp : BitVec 32} {units : List (List Byte × Bool)} {sending : Sending}
    (h : s.sendUnits layout turns timestamp units = some sending) :
    ∀ r ∈ sending.requests, r.timestamp = timestamp := by
  induction units generalizing sending with
  | nil =>
      cases h
      exact nofun
  | cons unit units ih =>
      obtain ⟨one, hone, hrest⟩ := Option.bind_eq_some_iff.mp h
      obtain ⟨rest, hunits, rfl⟩ := Option.map_eq_some_iff.mp hrest
      intro r hr
      rcases List.mem_append.mp hr with hr | hr
      · exact timestamp_sendNal hone r hr
      · exact ih hunits r hr

/-- The first packet is that of a request that is made: of the first one, if it is. -/
theorem first_pushAll {pts : BitVec 64} {requests : List Request} {s : Rtp.Payloader} {p : Packet}
    (h : (Rtp.Payloader.pushAll pts requests s).2.1.head? = some p) :
    ∃ r ∈ requests, s.Makes r ∧ (∀ first ∈ requests.head?, s.Makes first → r = first) ∧
      p = s.packet r pts := by
  induction requests with
  | nil => cases h
  | cons first requests ih =>
      rw [Rtp.Payloader.pushAll] at h
      split at h
      case isTrue hmakes =>
        refine ⟨first, List.mem_cons_self, hmakes, ?_, (Option.some.inj h).symm⟩
        exact fun _ hhead _ => Option.some.inj hhead
      case isFalse hrefused =>
        obtain ⟨r, hr, hmakes, -, hp⟩ := ih h
        refine ⟨r, List.mem_cons_of_mem _ hr, hmakes, fun _ hhead hfirst => ?_, hp⟩
        cases hhead
        exact absurd hfirst hrefused

theorem makes_pcmRequest {s : Rtp.Payloader} {data : List Byte} {timestamp : BitVec 32} {c : Chunk}
    (hoffset : 0 ≤ c.offset) (hlength : 0 ≤ c.length) (hend : c.offset + c.length ≤ data.length) :
    s.Makes (s.pcmRequest data timestamp c) ↔
      c.length ≤ maxPayload ∧ (s.strictMtu = true → c.length + 12 ≤ s.mtu) := by
  rw [← @Rtp.Payloader.size_pcmRequest s data timestamp c hoffset hlength hend]
  exact and_congr_left' Int.ofNat_le.symm

/-- **What is refused in front of the first packet**: nothing, or every whole chunk. -/
theorem timestamp_firstMade {s : Rtp.Payloader} {data : List Byte} {timestamp : BitVec 32}
    {chunks : List Chunk} {r : Request} (hmtu : 1 ≤ s.mtu)
    (hchunks : Chunked s.mtu data.length 0 chunks)
    (hr : r ∈ chunks.map (s.pcmRequest data timestamp)) (hmakes : s.Makes r)
    (hhead : ∀ first ∈ (chunks.map (s.pcmRequest data timestamp)).head?,
      s.Makes first → r = first) :
    r.timestamp =
      timestamp + BitVec.ofInt 32 ((refusedBytes s data.length).tdiv s.bytesPerSampleFrame) := by
  have hmade : ∀ c ∈ chunks, s.Makes (s.pcmRequest data timestamp c) ↔
      c.length ≤ maxPayload ∧ (s.strictMtu = true → c.length + 12 ≤ s.mtu) := fun c hc => by
    obtain ⟨hoffset, hpos, -, hend⟩ := hchunks.bounds hmtu c hc
    exact makes_pcmRequest hoffset (by omega) hend
  obtain ⟨c, hmem, rfl⟩ := List.mem_map.mp hr
  rw [refusedBytes]
  by_cases hfirst : min (data.length : ℤ) s.mtu ≤ maxPayload ∧
      (s.strictMtu = true → min (data.length : ℤ) s.mtu + 12 ≤ s.mtu)
  · rw [if_pos hfirst]
    cases hchunks with
    | done => cases hmem
    | chunk hmore hrest =>
        rw [hhead _ rfl ((hmade _ List.mem_cons_self).mpr
          (by rwa [nextChunk_length, sub_zero]))]
        rfl
  · -- a chunk of the size of the first one would be refused as well
    obtain ⟨hoffset, hpos, hmost, hend⟩ := hchunks.bounds hmtu c hmem
    have hlength := hchunks.length_eq c hmem
    have hshort : c.length ≠ s.mtu := by
      intro hwhole
      have hfits := (hmade c hmem).mp hmakes
      rw [hwhole] at hfits
      exact hfirst (by rwa [min_eq_right (by omega)])
    obtain ⟨-, k, hk⟩ := hchunks.offset_eq c hmem
    rw [zero_add, mul_comm] at hk
    have hquotient : (data.length : ℤ) / s.mtu = k :=
      (Int.ediv_eq_iff_of_pos (by omega)).mpr ⟨by omega, by omega⟩
    rw [if_neg hfirst, hquotient, ← hk]
    rfl

/-- The first packet of `rtppay` has the time of the buffer, or of the sample that it begins at. -/
theorem timestamp_packetize {s : Rtp.Payloader} {turns : ℕ} {buf : Rtp.Buffer} {sending : Sending}
    {r : Request} (h : s.packetize turns buf = some sending) (hmem : r ∈ sending.requests)
    (hmakes : s.Makes r) (hhead : ∀ first ∈ sending.requests.head?, s.Makes first → r = first) :
    r.timestamp = (rtp s buf).stamp + BitVec.ofInt 32 (rtp s buf).skipped := by
  rw [Rtp.Payloader.packetize] at h
  split at h
  case isTrue =>
    cases h
    cases hmem
  case isFalse hsends =>
  split at h
  case isTrue =>
    cases h
    cases hmem
  case isFalse =>
  split at h
  case h_1 hcodec =>
    rw [stamp, rate, skipped, pts, hcodec]
    exact (timestamp_sendUnits h r hmem).trans (BitVec.add_zero _).symm
  case h_2 hcodec =>
    rw [stamp, rate, skipped, pts, hcodec]
    exact (timestamp_sendUnits h r hmem).trans (BitVec.add_zero _).symm
  case h_3 hcodec =>
    rw [stamp, rate, skipped, pts, hcodec]
    have h := Option.some.inj h
    rw [Rtp.Payloader.packetizeAac] at h
    split at h
    · subst h
      cases hmem
    · subst h
      obtain rfl := List.mem_singleton.mp hmem
      exact (BitVec.add_zero _).symm
  case h_4 hcodec =>
    rw [stamp, rate, skipped, pts, hcodec]
    obtain ⟨chunks, hchunks, rfl⟩ := Option.map_eq_some_iff.mp h
    have hmtu : 1 ≤ s.mtu := by
      by_contra hlow
      have hdata := List.length_pos_iff.mpr (not_or.mp hsends).2
      rw [chunkLoop_endless (by omega) (by omega)] at hchunks
      cases hchunks
    exact timestamp_firstMade hmtu (chunked_of_chunkLoop hchunks) hmem hmakes hhead

/-- Every request of the ST 2110-21 payloader has the time of the buffer. -/
theorem timestamp_compressed {s : Payloader} {turns : ℕ} {nal : List Byte} {len : ℤ}
    {timestamp : BitVec 32} {marker : Bool} {requests : List Request}
    (h : s.sendNal turns nal len timestamp marker = .ok requests) :
    ∀ r ∈ requests, r.timestamp = timestamp := by
  rw [Payloader.sendNal] at h
  split at h
  case isTrue =>
    split at h
    · cases h
    · cases h
      exact fun r hr => List.mem_singleton.mp hr ▸ rfl
  case isFalse =>
  split at h
  case isTrue => cases h
  case isFalse =>
  split at h
  case isTrue =>
    cases h
    exact nofun
  case isFalse =>
  split at h
  case isTrue => cases h
  case isFalse =>
  split at h
  case h_1 => cases h
  case h_2 hloop =>
    cases h
    obtain ⟨chunks, -, rfl⟩ := Option.map_eq_some_iff.mp hloop
    exact timestamp_fragments

theorem timestamp_compressedUnits {s : Payloader} {turns : ℕ} {timestamp : BitVec 32}
    {units : List (List Byte × Bool)} {requests : List Request}
    (h : s.sendUnits turns timestamp units = .ok requests) :
    ∀ r ∈ requests, r.timestamp = timestamp := by
  induction units generalizing requests with
  | nil =>
      cases h
      exact nofun
  | cons unit units ih =>
      rw [Payloader.sendUnits] at h
      cases hone : s.sendNal turns unit.1 unit.1.length timestamp unit.2 with
      | error fault =>
          rw [hone] at h
          cases h
      | ok one =>
          rw [hone] at h
          cases hunits : s.sendUnits turns timestamp units with
          | error fault =>
              rw [hunits] at h
              cases h
          | ok rest =>
              rw [hunits] at h
              cases h
              intro r hr
              rcases List.mem_append.mp hr with hr | hr
              · exact timestamp_compressed hone r hr
              · exact ih hunits r hr

theorem timestamp_compressedAll {s : Payloader} {turns : ℕ} {buf : Rtp.Buffer}
    {requests : List Request} (h : s.packetize turns buf = .ok requests) :
    ∀ r ∈ requests, r.timestamp = ptsToRtpTs buf.pts 90000 := by
  rw [Payloader.packetize] at h
  cases hnum : s.numPackets (Payloader.intSize buf.data) with
  | error fault =>
      rw [hnum] at h
      cases h
  | ok count =>
      rw [hnum] at h
      simp only [bind, Except.bind] at h
      split at h
      case h_1 => exact timestamp_compressed h
      case h_2 => exact timestamp_compressedUnits h

/-- What is read of the chunks of samples has the chunks in their order. -/
theorem fst_readChunks {data : Option (List Byte)} {pieces : List Chunk}
    {chunks : List (Chunk × List Byte)}
    (h : pieces.mapM (fun c => (Audio.Payloader.readChunk data c).map fun payload => (c, payload)) =
      .ok chunks) : chunks.map Prod.fst = pieces := by
  induction pieces generalizing chunks with
  | nil =>
      cases h
      rfl
  | cons c pieces ih =>
      rw [List.mapM_cons] at h
      cases hread : Audio.Payloader.readChunk data c with
      | error fault =>
          rw [hread] at h
          cases h
      | ok payload =>
          rw [hread] at h
          cases hrest : pieces.mapM fun c =>
              (Audio.Payloader.readChunk data c).map fun payload => (c, payload) with
          | error fault =>
              rw [hrest] at h
              cases h
          | ok rest =>
              rw [hrest] at h
              cases h
              rw [List.map_cons, ih hrest]

theorem chunked_cut {s : Audio.Payloader} {turns size : ℕ} {data : Option (List Byte)}
    {chunks : List (Chunk × List Byte)} (h : s.cut turns size data = .ok chunks) :
    Chunked (Audio.Payloader.maxPayload s.frameSize) size 0 (chunks.map Prod.fst) := by
  rw [Audio.Payloader.cut] at h
  split at h
  case h_1 => cases h
  case h_2 pieces hloop =>
  split at h
  case isTrue => cases h
  case isFalse =>
    rw [fst_readChunks h]
    exact chunked_of_chunkLoop hloop

/-- The first packet of samples is the one of the first chunk, which begins at the start: it is
returned only when there is no other. -/
theorem head_packets {most frameSize : ℤ} {size : ℕ} {pts : BitVec 64}
    {chunks : List (Chunk × List Byte)} (hchunks : Chunked most size 0 (chunks.map Prod.fst))
    (s : Audio.Payloader) {first : Rtp.Buffer} :
    let made := (Audio.Payloader.makeAll frameSize size pts chunks s).2
    (Audio.Payloader.Output.packets ⟨(made.filter fun p => !p.2).map Prod.fst,
      ((made.filter Prod.snd).map Prod.fst).getLast?⟩).head? = some first →
    ∃ c : Chunk × List Byte, c.1.offset = 0 ∧
      first = (s.makePacket frameSize pts c.1 c.2).2 := by
  dsimp only
  cases chunks with
  | nil => exact nofun
  | cons c chunks =>
      rw [List.map_cons] at hchunks
      generalize hmapped : chunks.map Prod.fst = rest at hchunks
      generalize hc : c.1 = piece at hchunks
      cases hchunks with
      | chunk hmore hrest =>
      intro hfirst
      refine ⟨c, by rw [hc, nextChunk_offset], ?_⟩
      rw [Audio.Payloader.makeAll] at hfirst
      by_cases hlast : (size : ℤ) ≤ c.1.offset + c.1.length
      · have hnone : rest = [] := by
          cases hrest with
          | done => rfl
          | chunk hmore' =>
              rw [hc, nextChunk_offset] at hlast
              omega
        obtain rfl := List.map_eq_nil_iff.mp (hmapped.trans hnone)
        rw [decide_eq_true hlast] at hfirst
        exact (Option.some.inj hfirst).symm
      · rw [decide_eq_false hlast] at hfirst
        exact (Option.some.inj hfirst).symm

/-- **Every payloader stamps the first packet of a buffer in the same way**: with what it makes of
the time, and the sample frames that it skips. -/
theorem stampOf_firstPacket {c : Call} {turns : ℕ} {packet : List Byte}
    (h : c.firstPacket turns = some packet) :
    stampOf packet = c.stamp + BitVec.ofInt 32 c.skipped := by
  cases c with
  | rtp s buf =>
      obtain ⟨pushed, hpush, hhead⟩ := Option.bind_eq_some_iff.mp h
      obtain ⟨sending, hsending, rfl⟩ := Option.map_eq_some_iff.mp hpush
      obtain ⟨first, hfirst, rfl⟩ := Option.map_eq_some_iff.mp hhead
      obtain ⟨r, hr, hmakes, honly, rfl⟩ := first_pushAll hfirst
      exact (stampOf_header _ _).trans (timestamp_packetize hsending hr hmakes honly)
  | video s buf =>
      rw [firstPacket] at h
      split at h
      case isTrue => cases h
      case isFalse heos =>
        obtain ⟨made, hmade, hhead⟩ := Option.bind_eq_some_iff.mp h
        rw [Video.Payloader.padPush, if_neg heos] at hmade
        cases hpieces : s.pieces turns buf.data with
        | error fault =>
            rw [hpieces] at hmade
            cases hmade
        | ok pieces =>
            rw [hpieces] at hmade
            cases hmade
            cases pieces with
            | nil => cases hhead
            | cons p pieces =>
                cases hhead
                exact (stampOf_header _ _).trans (BitVec.add_zero _).symm
  | compressed s buf =>
      obtain ⟨made, hmade, hhead⟩ := Option.bind_eq_some_iff.mp h
      rw [Payloader.process] at hmade
      cases hrequests : s.packetize turns buf with
      | error fault =>
          rw [hrequests] at hmade
          cases hmade
      | ok requests =>
          rw [hrequests] at hmade
          cases hmade
          cases requests with
          | nil => cases hhead
          | cons r requests =>
              cases hhead
              refine (stampOf_header _ _).trans ?_
              exact (timestamp_compressedAll hrequests r List.mem_cons_self).trans
                (BitVec.add_zero _).symm
  | audio s input =>
      rw [firstPacket] at h
      split at h
      case isTrue => cases h
      case isFalse heos =>
        obtain ⟨made, hmade, hhead⟩ := Option.bind_eq_some_iff.mp h
        rw [Audio.Payloader.process, if_neg heos] at hmade
        split at hmade
        case isTrue => cases hmade
        split at hmade
        case isTrue =>
          cases hmade
          cases hhead
        case isFalse =>
        dsimp only at hmade
        cases hcut : s.cut turns (Audio.Payloader.inputOf s.frameSize input).1
            (Audio.Payloader.inputOf s.frameSize input).2 with
        | error fault =>
            rw [hcut] at hmade
            cases hmade
        | ok chunks =>
            rw [hcut] at hmade
            cases hmade
            obtain ⟨first, hfirst, rfl⟩ := Option.map_eq_some_iff.mp hhead
            obtain ⟨c, hoffset, rfl⟩ := head_packets (chunked_cut hcut) s hfirst
            refine (stampOf_header _ _).trans ?_
            show (input.pts * BitVec.ofInt 64 s.sampleRate / 1000000000).setWidth 32 +
              BitVec.ofInt 32 (c.1.offset / s.frameSize) = _
            rw [hoffset, Int.zero_ediv]
            rfl

/-! ## When it is the time of the buffer -/

/-- The product that is divided, before it is cut down to 64 bits. -/
def product (c : Call) : ℕ := c.pts.toNat * c.rate.toNat

/-- The ticks of the time of the buffer, as far as a timestamp can count. -/
def ideal (c : Call) : BitVec 32 := BitVec.ofNat 32 (ticks second c.rate.toNat c.pts.toNat)

/-- The ticks that go lost with the whole turns of the product. -/
def lost (c : Call) : ℕ :=
  (2 ^ 64 * (c.product / 2 ^ 64) + c.product % 2 ^ 64 % second) / second

/-- What goes lost is made up for by the sample frames that are skipped; as a rule there are none of
either. -/
def Continues (c : Call) : Prop := c.lost ≡ c.skipped [ZMOD 2 ^ 32]

instance (c : Call) : Decidable c.Continues := inferInstanceAs (Decidable (_ = _))

theorem second_eq : second = 1953125 * 2 ^ 9 := by decide

theorem toNat_stamp (c : Call) : c.stamp.toNat = c.product % 2 ^ 64 / second % 2 ^ 32 := by
  rw [stamp, BitVec.toNat_setWidth, BitVec.toNat_udiv, BitVec.toNat_mul]
  rfl

/-- The ticks of the time are those of the stamp and the lost ones. -/
theorem ideal_eq (c : Call) : c.ideal = c.stamp + BitVec.ofNat 32 c.lost := by
  refine BitVec.eq_of_toNat_eq ?_
  rw [BitVec.toNat_add, toNat_stamp, ideal, BitVec.toNat_ofNat, BitVec.toNat_ofNat, ← Nat.add_mod,
    ticks, lost, second_eq, ← div_eq_add_turns _ 64 (by decide)]
  rfl

/-- The stamp of the first packet is that of the time when as much is skipped as is lost. -/
theorem stamp_add_skipped_iff (c : Call) :
    c.stamp + BitVec.ofInt 32 c.skipped = c.ideal ↔ c.Continues := by
  rw [ideal_eq, BitVec.add_right_inj, ← BitVec.toNat_inj, BitVec.toNat_ofInt, BitVec.toNat_ofNat,
    Continues, Int.ModEq]
  omega

/-- **When nothing is skipped, the turns must not count**: the product has wrapped around a multiple
of 1953125 times. -/
theorem continues_iff_dvd {c : Call} (hskipped : c.skipped = 0) :
    c.Continues ↔ 1953125 ∣ c.product / 2 ^ 64 := by
  have hstamp : c.stamp + BitVec.ofInt 32 c.skipped = c.stamp := by
    rw [hskipped]
    exact BitVec.add_zero _
  rw [← stamp_add_skipped_iff, hstamp, ← BitVec.toNat_inj, toNat_stamp, ideal, BitVec.toNat_ofNat,
    ticks, second_eq]
  exact wrapped_div_modEq_iff (by decide) (by decide) (by decide) (by decide)

/-- **The first packet of a buffer has the ticks of its time exactly when as many go lost with the
turns of the product as sample frames are skipped**; for two buffers of which that is so the stamps
are apart by the difference of the ticks. -/
theorem stamp_iff (c next : Call) (turns : ℕ) (packet packet' : List Byte)
    (h : c.firstPacket turns = some packet) (h' : next.firstPacket turns = some packet') :
    (stampOf packet = c.ideal ↔ c.Continues) ∧
      (c.skipped = 0 → (c.Continues ↔ 1953125 ∣ c.product / 2 ^ 64)) ∧
      (c.rate = next.rate → c.pts ≤ next.pts → c.Continues → next.Continues →
        ticks second c.rate.toNat c.pts.toNat ≤ ticks second c.rate.toNat next.pts.toNat ∧
        stampOf packet' - stampOf packet =
          BitVec.ofNat 32 (ticks second c.rate.toNat next.pts.toNat -
            ticks second c.rate.toNat c.pts.toNat)) := by
  rw [stampOf_firstPacket h, stampOf_firstPacket h']
  refine ⟨stamp_add_skipped_iff c, continues_iff_dvd, fun hrate hpts hc hnext => ?_⟩
  have hmono := @ticks_mono second c.rate.toNat _ _ (BitVec.le_def.mp hpts)
  refine ⟨hmono, ?_⟩
  rw [(stamp_add_skipped_iff c).mpr hc, (stamp_add_skipped_iff next).mpr hnext, ideal, ideal,
    ← hrate]
  obtain ⟨more, hmore⟩ := Nat.exists_eq_add_of_le hmono
  rw [hmore, Nat.add_sub_cancel_left, BitVec.ofNat_add, BitVec.add_comm, BitVec.add_sub_cancel]

/-- A buffer of five sample frames for an RTP payloader with an mtu of four of them, at 48 kHz. -/
def rtpCall (strictMtu : Bool) (pts : BitVec 64) : Call :=
  .rtp ⟨.pcm, 97, 7, 0, 48000, 16, 2, 2, 0, 0, 0, strictMtu⟩ ⟨List.replicate 20 1, pts, false⟩

/-- The first seconds of a stream. -/
theorem stamp_firstSeconds :
    ∃ packet packet', (rtpCall false 0).firstPacket 20 = some packet ∧
      (rtpCall false 1000000000).firstPacket 20 = some packet' ∧
      stampOf packet = (rtpCall false 0).ideal ∧ stampOf packet' - stampOf packet = 48000 := by
  refine ⟨_, _, rfl, rfl, ?_⟩
  obtain ⟨hstamp, -, hnext⟩ := stamp_iff (rtpCall false 0) (rtpCall false 1000000000) 20 _ _ rfl rfl
  exact ⟨hstamp.mpr (by decide), (hnext rfl (by decide) (by decide) (by decide)).2⟩

/-- With a strict mtu, only the fifth sample frame is sent, with its own time. -/
example : ((rtpCall true 0).firstPacket 20).map stampOf = some 4 := by decide

/-- A buffer of one sample frame for an ST 2110-30 payloader at 48 kHz. -/
def pcmCall (pts : BitVec 64) : Call :=
  .audio ⟨2, 48000, 24, 97, 7, 0⟩ ⟨[1, 2, 3, 4, 5, 6], none, pts, false⟩

/-- After less than five days the product of 48 kHz wraps around, and the stamp is not that of the
time. -/
theorem stamp_wrapped :
    ∃ packet, (pcmCall 400000000000000).firstPacket 2 = some packet ∧
      stampOf packet ≠ (pcmCall 400000000000000).ideal := by
  refine ⟨_, rfl, ?_⟩
  decide

end Call

end Zstreamer.St2110

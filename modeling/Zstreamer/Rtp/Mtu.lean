/-
# When the payloader respects the mtu

The mtu means two things: with strict mtu, and for video, the bytes of a packet; else
for audio the bytes of its payload.  And the fragments of a NAL unit need room for
three headers, of which the setter and the guard of the senders count one.
-/

import Mathlib.Algebra.Order.BigOperators.Group.List
import Zstreamer.Rtp.Payloader

namespace Zstreamer.Rtp

open Foundation List

namespace Payloader

/-! ## Packets that are made -/

theorem length_packet (s : Payloader) (r : Request) (pts : BitVec 64) :
    (s.packet r pts).data.length = r.size + 12 := by
  rw [packet, length_append, length_append, Header.length_bytes, Request.size]
  omega

/-- Every packet is the packet of a request that was made. -/
theorem exists_request_of_mem_pushAll {pts : BitVec 64} {requests : List Request} {s : Payloader}
    {p : Packet} (hp : p ∈ (pushAll pts requests s).2.1) :
    ∃ r ∈ requests, ∃ s' : Payloader, s'.mtu = s.mtu ∧ s'.strictMtu = s.strictMtu ∧ s'.Makes r ∧
      p = s'.packet r pts := by
  induction requests generalizing s with
  | nil => cases hp
  | cons r requests ih =>
      rw [pushAll] at hp
      split at hp
      case isTrue hmakes =>
        rcases mem_cons.mp hp with rfl | hrest
        · exact ⟨r, mem_cons_self, s, rfl, rfl, hmakes, rfl⟩
        · obtain ⟨r', hr', s', hmtu, hstrict, hrest⟩ := ih hrest
          exact ⟨r', mem_cons_of_mem r hr', s', hmtu, hstrict, hrest⟩
      case isFalse =>
        obtain ⟨r', hr', hrest⟩ := ih hp
        exact ⟨r', mem_cons_of_mem r hr', hrest⟩

/-- A request that can be made is made. -/
theorem exists_packet_of_mem {pts : BitVec 64} {requests : List Request} {s : Payloader}
    {r : Request} (hr : r ∈ requests) (hmakes : s.Makes r) :
    ∃ p ∈ (pushAll pts requests s).2.1, p.data.length = r.size + 12 := by
  induction requests generalizing s with
  | nil => cases hr
  | cons first requests ih =>
      rw [pushAll]
      rcases mem_cons.mp hr with rfl | hrest
      · rw [if_pos hmakes]
        exact ⟨_, mem_cons_self, s.length_packet r pts⟩
      · split
        · obtain ⟨p, hp, hlength⟩ := ih (s := s.sent first.size) hrest hmakes
          exact ⟨p, mem_cons_of_mem _ hp, hlength⟩
        · exact ih hrest hmakes

/-- The packets are within the mtu when the requests are, and always when it is strict. -/
theorem packets_le {pts : BitVec 64} {requests : List Request} {s : Payloader}
    (hrequests : s.strictMtu = true ∨ ∀ r ∈ requests, ((r.size + 12 : ℕ) : ℤ) ≤ s.mtu) :
    ∀ p ∈ (pushAll pts requests s).2.1, (p.data.length : ℤ) ≤ s.mtu := by
  intro p hp
  obtain ⟨r, hr, s', hmtu, hstrict, hmakes, rfl⟩ := exists_request_of_mem_pushAll hp
  rw [length_packet]
  rcases hrequests with hs | hall
  · have := hmakes.2 (hstrict.trans hs)
    rw [hmtu] at this
    exact_mod_cast this
  · exact hall r hr

/-! ## Video -/

/-- The mtu leaves no room at all and the NAL unit is refused, or the NAL unit fits or is only a
header, or there is room for a fragment. -/
def NalFits (layout : Layout) (mtu : ℤ) (nal : List Byte) : Prop :=
  mtu ≤ 12 ∨ nal.length ≤ mtu - 12 ∨ nal.length ≤ layout.nalHeader ∨ layout.headerLen + 12 < mtu

instance (layout : Layout) (mtu : ℤ) (nal : List Byte) : Decidable (NalFits layout mtu nal) :=
  inferInstanceAs (Decidable (_ ∨ _))

theorem sendNal_fits {layout : Layout} {s : Payloader} {nal : List Byte}
    (hfits : NalFits layout s.mtu nal) {turns : ℕ} (hturns : nal.length ≤ turns)
    (timestamp : BitVec 32) (marker : Bool) :
    ∃ sending, s.sendNal layout turns nal timestamp marker = some sending ∧
      ∀ r ∈ sending.requests, ((r.size + 12 : ℕ) : ℤ) ≤ s.mtu := by
  rw [sendNal]
  split
  · exact ⟨_, rfl, forall_mem_nil _⟩
  · split
    · exact ⟨_, rfl, forall_mem_nil _⟩
    · rename_i hroom
      split
      · rename_i hwhole
        refine ⟨_, rfl, fun r hr => ?_⟩
        obtain rfl := mem_singleton.mp hr
        rw [Request.size]
        push_cast
        rw [length_nil]
        omega
      · rename_i hlong
        rcases hfits with hsmall | hwhole | hshort | hfragment
        · omega
        · exact absurd hwhole hlong
        · refine ⟨⟨[], true⟩, ?_, forall_mem_nil _⟩
          rw [fragmentLoop_short hshort]
          rfl
        · have hmost : (layout.headerLen : ℤ) < s.mtu - 12 := by omega
          obtain ⟨requests, hloop, hsize⟩ :=
            @fragmentLoop_ends layout _ nal timestamp marker hmost turns hturns
          refine ⟨⟨requests, true⟩, by rw [hloop]; rfl, fun r hr => ?_⟩
          have := hsize r hr
          push_cast
          omega

theorem sendNal_endless {layout : Layout} {s : Payloader} {nal : List Byte}
    (hfits : ¬ NalFits layout s.mtu nal) (turns : ℕ) (timestamp : BitVec 32) (marker : Bool) :
    s.sendNal layout turns nal timestamp marker = none := by
  rw [NalFits, not_or, not_or, not_or] at hfits
  obtain ⟨hroom, hlong, hnal, hsmall⟩ := hfits
  rw [sendNal, if_neg (by omega), if_neg (by omega), if_neg hlong,
    fragmentLoop_endless (by omega) (not_le.mp hnal)]
  rfl

/-- The units of an access unit can be sent, or are refused. -/
theorem sendUnits_fits {layout : Layout} {s : Payloader} {units : List (List Byte × Bool)}
    (hfits : ∀ unit ∈ units, NalFits layout s.mtu unit.1) {turns : ℕ}
    (hturns : ∀ unit ∈ units, unit.1.length ≤ turns) (timestamp : BitVec 32) :
    ∃ sending, s.sendUnits layout turns timestamp units = some sending ∧
      ∀ r ∈ sending.requests, ((r.size + 12 : ℕ) : ℤ) ≤ s.mtu := by
  induction units with
  | nil => exact ⟨_, rfl, nofun⟩
  | cons unit units ih =>
      obtain ⟨one, hone, hsize⟩ := sendNal_fits (hfits unit mem_cons_self)
        (hturns unit mem_cons_self) timestamp unit.2
      obtain ⟨rest, hrest, hsizes⟩ := ih
        (fun other hother => hfits other (mem_cons_of_mem unit hother))
        (fun other hother => hturns other (mem_cons_of_mem unit hother))
      refine ⟨one.append rest, by rw [sendUnits, hone, hrest]; rfl, fun r hr => ?_⟩
      rcases mem_append.mp hr with hr | hr
      · exact hsize r hr
      · exact hsizes r hr

theorem sendUnits_endless {layout : Layout} {s : Payloader} {units : List (List Byte × Bool)}
    {unit : List Byte × Bool} (hunit : unit ∈ units) (hfits : ¬ NalFits layout s.mtu unit.1)
    (turns : ℕ) (timestamp : BitVec 32) : s.sendUnits layout turns timestamp units = none := by
  induction units with
  | nil => cases hunit
  | cons first units ih =>
      rw [sendUnits]
      rcases mem_cons.mp hunit with rfl | hrest
      · rw [sendNal_endless hfits]
        rfl
      · rw [ih hrest]
        exact Option.bind_fun_none _

/-! ## Audio -/

/-- An access unit that is sent with its AU header is within the mtu. -/
def AacFits (s : Payloader) (size : ℕ) : Prop :=
  s.strictMtu = true ∨ size + 16 ≤ s.mtu ∨ size > 0x1fff ∨ size + 4 > s.mtu

instance (s : Payloader) (size : ℕ) : Decidable (s.AacFits size) :=
  inferInstanceAs (Decidable (_ ∨ _))

/-- A chunk of samples is within the mtu. -/
def PcmFits (s : Payloader) (size : ℕ) : Prop := s.strictMtu = true ∨ size + 12 ≤ s.mtu

instance (s : Payloader) (size : ℕ) : Decidable (s.PcmFits size) :=
  inferInstanceAs (Decidable (_ ∨ _))

theorem packetizeAac_fits {s : Payloader} {data : List Byte} (hfits : s.AacFits data.length)
    (pts : BitVec 64) : s.strictMtu = true ∨
      ∀ r ∈ (s.packetizeAac data pts).requests, ((r.size + 12 : ℕ) : ℤ) ≤ s.mtu := by
  rcases hfits with hstrict | hrest
  · exact .inl hstrict
  · right
    rw [packetizeAac]
    split
    · exact nofun
    · rename_i hsends
      intro r hr
      obtain rfl := mem_singleton.mp hr
      have hheader : (auHeader data.length).length = 4 := rfl
      rw [Request.size, hheader]
      push_cast
      omega

/-- The loop over the samples ends, as the mtu is positive. -/
theorem packetizePcm_ends {s : Payloader} (hmtu : 1 ≤ s.mtu) (data : List Byte) (pts : BitVec 64) :
    ∃ chunks, Chunked s.mtu data.length 0 chunks ∧
      s.packetizePcm data.length data pts =
        some ⟨chunks.map (s.pcmRequest data (ptsToRtpTs pts s.clockRate)), true⟩ := by
  have hturns : (data.length : ℤ) - 0 ≤ data.length := by omega
  obtain ⟨chunks, hchunks⟩ := chunkLoop_ends hmtu hturns
  exact ⟨chunks, chunked_of_chunkLoop hchunks, by rw [packetizePcm, hchunks]; rfl⟩

theorem size_pcmRequest {s : Payloader} {data : List Byte} {timestamp : BitVec 32} {c : Chunk}
    (hoffset : 0 ≤ c.offset) (hlength : 0 ≤ c.length)
    (hend : c.offset + c.length ≤ data.length) :
    ((s.pcmRequest data timestamp c).size : ℤ) = c.length := by
  have hslice := Chunk.length_slice hoffset hlength hend
  rw [Request.size]
  push_cast
  rw [pcmRequest]
  dsimp only
  rw [hslice, length_nil]
  omega

/-! ## The condition -/

/-- What the mtu must leave room for: the fragments of every NAL unit that does not fit, or the
headers in front of the samples. -/
def Fits (s : Payloader) (data : List Byte) : Prop :=
  match s.codec with
  | .h264 => ∀ unit ∈ nalUnits data, NalFits layoutH264 s.mtu unit.1
  | .h265 => ∀ unit ∈ nalUnits data, NalFits layoutH265 s.mtu unit.1
  | .aac => s.AacFits data.length
  | .pcm => s.PcmFits data.length

instance (s : Payloader) (data : List Byte) : Decidable (s.Fits data) :=
  match h : s.codec with
  | .h264 => decidable_of_iff (∀ unit ∈ nalUnits data, NalFits layoutH264 s.mtu unit.1)
      (by rw [Fits, h])
  | .h265 => decidable_of_iff (∀ unit ∈ nalUnits data, NalFits layoutH265 s.mtu unit.1)
      (by rw [Fits, h])
  | .aac => decidable_of_iff (s.AacFits data.length) (by rw [Fits, h])
  | .pcm => decidable_of_iff (s.PcmFits data.length) (by rw [Fits, h])

/-- The call ends, and every packet is within the mtu. -/
def Respects (s : Payloader) (buf : Buffer) : Prop :=
  ∃ turns pushed, s.push turns buf = some pushed ∧
    ∀ p ∈ pushed.packets, (p.data.length : ℤ) ≤ s.mtu

theorem respects_of_packetize {s : Payloader} {buf : Buffer} {turns : ℕ} {sending : Sending}
    (hpacketize : s.packetize turns buf = some sending)
    (hsize : s.strictMtu = true ∨ ∀ r ∈ sending.requests, ((r.size + 12 : ℕ) : ℤ) ≤ s.mtu) :
    s.Respects buf :=
  ⟨turns, _, by rw [push, hpacketize]; rfl, packets_le hsize⟩

/-- A call that sends something, and what it then asks for. -/
theorem packetize_of_data {s : Payloader} {buf : Buffer} (hdata : buf.data ≠ [])
    (heos : buf.eos = false) (hsize : buf.data.length ≤ int32Max) (turns : ℕ) :
    s.packetize turns buf =
      match s.codec with
      | .h264 => s.packetizeH264 turns buf.data buf.pts
      | .h265 => s.packetizeH265 turns buf.data buf.pts
      | .aac => some (s.packetizeAac buf.data buf.pts)
      | .pcm => s.packetizePcm turns buf.data buf.pts := by
  have hsends : ¬ (buf.eos = true ∨ buf.data = []) := by
    rw [heos]
    exact not_or.mpr ⟨Bool.false_ne_true, hdata⟩
  rw [packetize, if_neg hsends]
  exact if_neg (not_lt.mpr hsize)

/-- A call that sends nothing, as the buffer is empty, marks the end or is refused. -/
theorem respects_of_nothing {s : Payloader} {buf : Buffer}
    (hnothing : buf.eos = true ∨ buf.data = [] ∨ int32Max < buf.data.length) : s.Respects buf := by
  by_cases hends : buf.eos = true ∨ buf.data = []
  · have hnone : s.packetize 0 buf = some ⟨[], true⟩ := by rw [packetize, if_pos hends]
    exact respects_of_packetize hnone (.inr nofun)
  · have hlong : buf.data.length > int32Max :=
      hnothing.resolve_left (not_or.mp hends).1 |>.resolve_left (not_or.mp hends).2
    have hnone : s.packetize 0 buf = some .refused := by
      rw [packetize, if_neg hends, if_pos hlong]
    exact respects_of_packetize hnone (.inr nofun)

/-- Enough turns for every NAL unit. -/
theorem exists_turns (units : List (List Byte × Bool)) :
    ∃ turns, ∀ unit ∈ units, unit.1.length ≤ turns :=
  ⟨(units.map fun unit => unit.1.length).sum, fun _ hunit =>
    le_sum_of_mem (mem_map.mpr ⟨_, hunit, rfl⟩)⟩

/-- An access unit respects the mtu if there is room for the fragments of its NAL units. -/
theorem respects_of_units {layout : Layout} {s : Payloader} {buf : Buffer}
    (hpacketize : ∀ turns, s.packetize turns buf =
      s.sendUnits layout turns (ptsToRtpTs buf.pts 90000) (nalUnits buf.data)) :
    s.Respects buf ↔ ∀ unit ∈ nalUnits buf.data, NalFits layout s.mtu unit.1 := by
  constructor
  · rintro ⟨turns, pushed, hpush, -⟩ unit hunit
    by_contra hfits
    rw [push, hpacketize, sendUnits_endless hunit hfits] at hpush
    cases hpush
  · intro hfits
    obtain ⟨turns, hturns⟩ := exists_turns (nalUnits buf.data)
    obtain ⟨sending, hsend, hsize⟩ := sendUnits_fits hfits hturns (ptsToRtpTs buf.pts 90000)
    exact respects_of_packetize (by rw [hpacketize, hsend]) (.inr hsize)

/-- A request that is made and is too long breaks the mtu. -/
theorem not_respects_of_request {s : Payloader} {buf : Buffer} {r : Request}
    (hrequest : ∀ turns sending, s.packetize turns buf = some sending → r ∈ sending.requests)
    (hmakes : s.Makes r) (hlong : s.mtu < (r.size + 12 : ℕ)) : ¬ s.Respects buf := by
  rintro ⟨turns, pushed, hpush, hall⟩
  obtain ⟨sending, hsending, rfl⟩ := Option.map_eq_some_iff.mp hpush
  obtain ⟨p, hp, hlength⟩ :=
    @exists_packet_of_mem buf.pts _ _ _ (hrequest turns sending hsending) hmakes
  have := hall p hp
  rw [hlength] at this
  omega

theorem respects_aac_iff {s : Payloader} {buf : Buffer}
    (hpacketize : ∀ turns, s.packetize turns buf = some (s.packetizeAac buf.data buf.pts)) :
    s.Respects buf ↔ s.AacFits buf.data.length := by
  constructor
  · intro hrespects
    by_contra hfits
    rw [AacFits, not_or, not_or, not_or] at hfits
    obtain ⟨hstrict, hlong, hsize, hroom⟩ := hfits
    have hheader : (auHeader buf.data.length).length = 4 := rfl
    have hsends : ¬ (buf.data.length > 0x1fff ∨ ((buf.data.length : ℤ) + 4 > s.mtu)) :=
      not_or.mpr ⟨hsize, hroom⟩
    refine not_respects_of_request
      (r := ⟨auHeader buf.data.length, buf.data, ptsToRtpTs buf.pts s.clockRate, true⟩) ?_ ?_ ?_
      hrespects
    · intro turns sending hsending
      rw [hpacketize, packetizeAac, if_neg hsends] at hsending
      cases hsending
      exact mem_cons_self
    · refine ⟨?_, fun hs => absurd hs hstrict⟩
      rw [Request.size, hheader, maxPayload]
      dsimp only
      omega
    · rw [Request.size, hheader]
      push_cast
      omega
  · intro hfits
    exact respects_of_packetize (hpacketize 0) (packetizeAac_fits hfits buf.pts)

theorem respects_pcm_iff {s : Payloader} {buf : Buffer} (hlow : 1 ≤ s.mtu) (hmtu : s.mtu ≤ 65507)
    (hdata : buf.data ≠ [])
    (hpacketize : ∀ turns, s.packetize turns buf = s.packetizePcm turns buf.data buf.pts) :
    s.Respects buf ↔ s.PcmFits buf.data.length := by
  have hpos := length_pos_iff.mpr hdata
  constructor
  · intro hrespects
    by_contra hfits
    rw [PcmFits, not_or] at hfits
    obtain ⟨hstrict, hlong⟩ := hfits
    obtain ⟨first, hfirst⟩ : ∃ c, c = nextChunk s.mtu buf.data.length 0 := ⟨_, rfl⟩
    have hoffset : first.offset = 0 := by rw [hfirst, nextChunk_offset]
    have hlength : first.length = min (buf.data.length : ℤ) s.mtu := by
      rw [hfirst, nextChunk_length, sub_zero]
    have hsize : ((s.pcmRequest buf.data (ptsToRtpTs buf.pts s.clockRate) first).size : ℤ) =
        min (buf.data.length : ℤ) s.mtu := by
      rw [size_pcmRequest (by omega) (by omega) (by omega), hlength]
    refine not_respects_of_request
      (r := s.pcmRequest buf.data (ptsToRtpTs buf.pts s.clockRate) first) ?_ ?_ ?_ hrespects
    · intro turns sending hsending
      rw [hpacketize, packetizePcm] at hsending
      obtain ⟨chunks, hchunks, rfl⟩ := Option.map_eq_some_iff.mp hsending
      cases chunked_of_chunkLoop hchunks with
      | done hend => omega
      | chunk hmore hrest =>
          rw [hfirst]
          exact mem_cons_self
    · refine ⟨?_, fun hs => absurd hs hstrict⟩
      rw [maxPayload]
      omega
    · push_cast
      omega
  · intro hfits
    obtain ⟨chunks, hchunks, hpcm⟩ := packetizePcm_ends hlow buf.data buf.pts
    refine respects_of_packetize (by rw [hpacketize, hpcm]) ?_
    rcases hfits with hstrict | hshort
    · exact .inl hstrict
    · right
      intro r hr
      obtain ⟨c, hc, rfl⟩ := mem_map.mp hr
      obtain ⟨hoffset, hlength, -, hend⟩ := hchunks.bounds hlow c hc
      have := @size_pcmRequest s _ (ptsToRtpTs buf.pts s.clockRate) c hoffset (by omega) hend
      push_cast
      omega

/-- **When the payloader respects the mtu**: it sends nothing, or there is room. -/
theorem respects_iff {s : Payloader} (hlow : 4 ≤ s.mtu) (hhigh : s.mtu ≤ 65507) (buf : Buffer) :
    s.Respects buf ↔ buf.eos = true ∨ buf.data = [] ∨ int32Max < buf.data.length ∨
      s.Fits buf.data := by
  by_cases hnothing : buf.eos = true ∨ buf.data = [] ∨ int32Max < buf.data.length
  · refine iff_of_true (respects_of_nothing hnothing) ?_
    rcases hnothing with h | h | h
    · exact .inl h
    · exact .inr (.inl h)
    · exact .inr (.inr (.inl h))
  · rw [not_or, not_or] at hnothing
    obtain ⟨heos, hdata, hsize⟩ := hnothing
    have hpacketize :=
      @packetize_of_data s buf hdata (Bool.eq_false_of_not_eq_true heos) (not_lt.mp hsize)
    rw [or_iff_right heos, or_iff_right hdata, or_iff_right hsize, Fits]
    cases hcodec : s.codec with
    | h264 =>
        rw [hcodec] at hpacketize
        exact respects_of_units hpacketize
    | h265 =>
        rw [hcodec] at hpacketize
        exact respects_of_units hpacketize
    | aac =>
        rw [hcodec] at hpacketize
        exact respects_aac_iff hpacketize
    | pcm =>
        rw [hcodec] at hpacketize
        exact respects_pcm_iff (by omega) hhigh hdata hpacketize

end Payloader

end Zstreamer.Rtp

/-
# Which audio comes back

Every AAC access unit that the payloader accepts comes back.  A buffer of samples comes
back when all of its packets begin within its first moment, so that they have one time
stamp.  Which buffers of samples the payloader accepts is a matter of the strict mtu.
-/

import Zstreamer.Rtp.Audio

namespace Zstreamer.Rtp

open Foundation Payloader List Option

namespace Payloader

/-! ## Calls that are accepted -/

/-- A payloader makes all packets when each of them can be made. -/
theorem After.makes_of_pushAll {start s : Payloader} {i : ℕ} (h : After start i s)
    {requests : List Request} {pts : BitVec 64}
    (hok : (Payloader.pushAll pts requests s).2.2 = true) : ∀ r ∈ requests, start.Makes r := by
  induction requests generalizing s i with
  | nil => exact nofun
  | cons r requests ih =>
      rw [Payloader.pushAll] at hok
      split at hok
      case isTrue hmakes =>
        intro r' hr'
        rcases mem_cons.mp hr' with rfl | hr'
        · rw [Makes, h.strictMtu, h.mtu] at hmakes
          exact hmakes
        · exact ih (h.sent r.size) hok r' hr'
      case isFalse => cases hok

/-- What a call that is accepted does. -/
theorem After.push_ok {start s : Payloader} {i : ℕ} (h : After start i s) {turns : ℕ}
    {buf : Buffer} {pushed : Pushed} (hpush : s.push turns buf = some pushed)
    (hok : pushed.ok = true) :
    ∃ requests, s.packetize turns buf = some ⟨requests, true⟩ ∧
      (∀ r ∈ requests, start.Makes r) ∧ BringsAll start i pushed.packets requests ∧
      After start (i + requests.length) pushed.payloader := by
  obtain ⟨⟨requests, sent⟩, hpacketize, rfl⟩ := map_eq_some_iff.mp hpush
  obtain ⟨rfl, hall⟩ := (Bool.and_eq_true _ _).mp hok |> fun hand => hand
  have hmakes := h.makes_of_pushAll hall
  obtain ⟨hbrings, hafter, -⟩ := h.pushAll hmakes buf.pts
  exact ⟨requests, hpacketize, hmakes, hbrings, hafter⟩

/-! ## Samples -/

/-- The payloader accepts so many bytes of samples. -/
def Takes (s : Payloader) (size : ℕ) : Prop :=
  size ≤ int32Max ∧ (s.strictMtu = true → size + 12 ≤ s.mtu)

instance (s : Payloader) (size : ℕ) : Decidable (s.Takes size) :=
  inferInstanceAs (Decidable (_ ∧ _))

/-- The last packet of so many bytes of samples begins within the first moment. -/
def OneTime (s : Payloader) (size : ℕ) : Prop :=
  s.mtu * ((size - 1) / s.mtu) < s.bytesPerSampleFrame

instance (s : Payloader) (size : ℕ) : Decidable (s.OneTime size) :=
  inferInstanceAs (Decidable (_ < _))

theorem one_le_bytesPerSampleFrame (s : Payloader) : 1 ≤ s.bytesPerSampleFrame := by
  rw [bytesPerSampleFrame]
  split
  · exact le_rfl
  · omega

/-- A sample of the first moment has the time of the buffer. -/
theorem time_eq_iff {offset frame : ℤ} (hoffset : 0 ≤ offset) (hsmall : offset < 2 ^ 31)
    (hframe : 1 ≤ frame) (timestamp : BitVec 32) :
    timestamp + BitVec.ofInt 32 (offset.tdiv frame) = timestamp ↔ offset < frame := by
  have hdiv : offset.tdiv frame = offset / frame := Int.tdiv_eq_ediv_of_nonneg hoffset
  have hlow : 0 ≤ offset / frame := Int.ediv_nonneg hoffset (by omega)
  have hhigh : offset / frame ≤ offset := Int.ediv_le_self frame hoffset
  rw [add_eq_left, hdiv]
  constructor
  · intro hzero
    have hnat := congrArg BitVec.toInt hzero
    rw [BitVec.toInt_ofInt, Int.bmod_eq_of_le (by omega) (by omega)] at hnat
    by_contra hlong
    have := (Int.le_ediv_iff_mul_le (c := frame) (by omega)).mpr
      (show 1 * frame ≤ offset by omega)
    have hzero : (0 : BitVec 32).toInt = 0 := rfl
    omega
  · intro hshort
    rw [Int.ediv_eq_zero_of_lt hoffset hshort]
    rfl

section Chunks

variable {s : Payloader} {data : List Byte} {chunks : List Chunk}

/-- The last chunk has the marker. -/
theorem ending_pcm {offset : ℤ} (h : Chunked s.mtu data.length offset chunks)
    (hmore : offset < data.length) (timestamp : BitVec 32) :
    Ending Request.marker (chunks.map (s.pcmRequest data timestamp)) := by
  induction h with
  | done hend => omega
  | @chunk offset rest hmore hrest ih =>
      have hlast := @last_iff_nil data _ _ (nextChunk s.mtu data.length offset) hrest
      cases hrest with
      | done hend => exact .last hlast
      | chunk hmore' hrest' => exact .more hlast (ih hmore')

/-- All chunks have one time when the last one begins within the first moment. -/
theorem one_time_iff (h : Chunked s.mtu data.length 0 chunks) (hmtu : 1 ≤ s.mtu)
    (hdata : data ≠ []) (hsize : data.length ≤ int32Max) (timestamp : BitVec 32) :
    (∀ c ∈ chunks, (s.pcmRequest data timestamp c).timestamp = timestamp) ↔
      s.OneTime data.length := by
  have hpos := length_pos_iff.mpr hdata
  have hframe := s.one_le_bytesPerSampleFrame
  have hzero : ∀ c ∈ chunks, (s.pcmRequest data timestamp c).timestamp = timestamp ↔
      c.offset < s.bytesPerSampleFrame := by
    intro c hc
    obtain ⟨hend, -⟩ := h.offset_eq c hc
    obtain ⟨hoffset, -⟩ := h.bounds hmtu c hc
    rw [int32Max] at hsize
    exact time_eq_iff hoffset (by omega) hframe timestamp
  have hdiv := Int.mul_ediv_add_emod ((data.length : ℤ) - 1) s.mtu
  have hmod := Int.emod_nonneg ((data.length : ℤ) - 1) (show s.mtu ≠ 0 by omega)
  have hless := Int.emod_lt_of_pos ((data.length : ℤ) - 1) (show 0 < s.mtu by omega)
  constructor
  · intro hsame
    obtain ⟨k, hk⟩ := Int.eq_ofNat_of_zero_le
      (Int.ediv_nonneg (show 0 ≤ (data.length : ℤ) - 1 by omega) (show 0 ≤ s.mtu by omega))
    rw [hk] at hdiv
    obtain ⟨c, hc, hoffset⟩ := h.exists_chunk (k := k) (by omega) hmtu
    have := (hzero c hc).mp (hsame c hc)
    rw [OneTime, hk]
    omega
  · intro hone c hc
    refine (hzero c hc).mpr (lt_of_le_of_lt ?_ hone)
    obtain ⟨hend, k, hk⟩ := h.offset_eq c hc
    rw [hk, zero_add]
    refine Int.mul_le_mul_of_nonneg_left ?_ (by omega)
    exact (Int.le_ediv_iff_mul_le (by omega)).mpr (by rw [mul_comm]; omega)

/-- All chunks make packets when the whole fits a strict mtu. -/
theorem makes_pcm_iff (h : Chunked s.mtu data.length 0 chunks) (hlow : 1 ≤ s.mtu)
    (hhigh : s.mtu ≤ maxPayload) (hdata : data ≠ []) (timestamp : BitVec 32) :
    (∀ r ∈ chunks.map (s.pcmRequest data timestamp), s.Makes r) ↔
      (s.strictMtu = true → data.length + 12 ≤ s.mtu) := by
  have hpos := length_pos_iff.mpr hdata
  have hsize : ∀ c ∈ chunks, ((s.pcmRequest data timestamp c).size : ℤ) = c.length := by
    intro c hc
    obtain ⟨hoffset, hlength, -, hend⟩ := h.bounds hlow c hc
    exact size_pcmRequest hoffset (by omega) hend
  rw [List.forall_mem_map]
  constructor
  · intro hmakes hstrict
    -- the first chunk is everything or as long as the mtu
    cases h with
    | done hend => omega
    | chunk hmore hrest =>
        have hfirst := (hmakes _ mem_cons_self).2 hstrict
        rw [hsize _ mem_cons_self, nextChunk_length] at hfirst
        omega
  · intro hfits c hc
    obtain ⟨hoffset, hlength, hmost, hend⟩ := h.bounds hlow c hc
    have hc' := hsize c hc
    refine ⟨by omega, fun hstrict => ?_⟩
    have := hfits hstrict
    omega

end Chunks

/-! ## One buffer -/

/-- A buffer with data. -/
def HasData (buf : Buffer) : Prop := buf.data ≠ [] ∧ buf.eos = false

instance (buf : Buffer) : Decidable (HasData buf) := inferInstanceAs (Decidable (_ ∧ _))

theorem After.oneTime_iff {start s : Payloader} {i : ℕ} (h : After start i s) (size : ℕ) :
    s.OneTime size ↔ start.OneTime size := by
  rw [OneTime, OneTime, bytesPerSampleFrame, bytesPerSampleFrame, h.mtu, h.channels, h.sampleSize]

/-- A buffer that is accepted is within the range of an `int`. -/
theorem length_le_of_packetize {s : Payloader} {buf : Buffer} {turns : ℕ} {requests : List Request}
    (hbuf : HasData buf) (hpacketize : s.packetize turns buf = some ⟨requests, true⟩) :
    buf.data.length ≤ int32Max := by
  by_contra hlong
  have hsends : ¬ (buf.eos = true ∨ buf.data = []) :=
    not_or.mpr ⟨by rw [hbuf.2]; exact Bool.false_ne_true, hbuf.1⟩
  rw [Payloader.packetize, if_neg hsends, if_pos (not_le.mp hlong)] at hpacketize
  cases hpacketize

/-- What the depayloader makes of the packets of a buffer: one buffer, and it is ready for the
next ones. -/
structure Back (start : Payloader) (i : ℕ) (d : Depayloader) (pushed : Pushed) (out : Delivery) :
    Prop where
  out_eq : (Depayloader.pushAll pushed.packets d).2 = [out]
  awaits : Depayloader.Awaits start (i + pushed.packets.length)
    (Depayloader.pushAll pushed.packets d).1
  idle : (Depayloader.pushAll pushed.packets d).1.auActive = false
  after : After start (i + pushed.packets.length) pushed.payloader

variable {start s : Payloader} {i : ℕ} {d : Depayloader} {buf : Buffer} {pushed : Pushed} {turns : ℕ}

/-- A buffer of samples comes back when its packets have one time. -/
theorem After.pcm_back (h : After start i s) (hcodec : start.codec = .pcm) (hmtu : 1 ≤ start.mtu)
    (hawaits : Depayloader.Awaits start i d) (hidle : d.auActive = false) (hbuf : HasData buf)
    (hpush : s.push turns buf = some pushed) (hok : pushed.ok = true) :
    ∃ out, Back start i d pushed out ∧
      (out.data = buf.data ↔ start.OneTime buf.data.length) := by
  obtain ⟨requests, hpacketize, -, hbrings, hafter⟩ := h.push_ok hpush hok
  have hsize := length_le_of_packetize hbuf hpacketize
  rw [packetize_of_data hbuf.1 hbuf.2 hsize, h.codec, hcodec] at hpacketize
  obtain ⟨chunks, hchunks, heq⟩ := map_eq_some_iff.mp hpacketize
  obtain rfl : chunks.map (s.pcmRequest buf.data (ptsToRtpTs buf.pts s.clockRate)) = requests :=
    congrArg Sending.requests heq
  have hpos := length_pos_iff.mpr hbuf.1
  have hmtu' : 1 ≤ s.mtu := h.mtu ▸ hmtu
  have hchunked := chunked_of_chunkLoop hchunks
  have hsame := one_time_iff hchunked hmtu' hbuf.1 hsize (ptsToRtpTs buf.pts s.clockRate)
  have hall : (chunks.map (s.pcmRequest buf.data (ptsToRtpTs buf.pts s.clockRate))).flatMap
      Request.payload = buf.data := by
    rw [flatMap_map]
    exact hchunked.flatMap_slice buf.data hmtu' le_rfl
  have hpayload : ∀ r ∈ chunks.map (s.pcmRequest buf.data (ptsToRtpTs buf.pts s.clockRate)),
      r.header = [] ∧ r.payload ≠ [] := by
    intro r hr
    obtain ⟨c, hc, rfl⟩ := mem_map.mp hr
    obtain ⟨hoffset, hlength, -, hend⟩ := hchunked.bounds hmtu' c hc
    have hslice := @Chunk.length_slice _ c buf.data hoffset (by omega) hend
    refine ⟨rfl, length_pos_iff.mp (show 0 < (c.slice buf.data).length from ?_)⟩
    omega
  have hlast := ending_pcm hchunked (by omega) (ptsToRtpTs buf.pts s.clockRate)
  have hfirst : ∀ r ∈ (chunks.map (s.pcmRequest buf.data (ptsToRtpTs buf.pts
      s.clockRate))).head?, r.timestamp = ptsToRtpTs buf.pts s.clockRate := by
    intro r hr
    cases hchunked with
    | done => cases hr
    | chunk =>
        cases hr
        rw [pcmRequest, nextChunk_offset, Int.zero_tdiv]
        exact BitVec.add_zero _
  obtain ⟨out, hout, hdata, hnext, hdone⟩ := Depayloader.pushAll_pcm_iff hcodec hlast hbrings
    hawaits hpayload hidle hfirst
  refine ⟨out, ⟨hout, hnext, hdone, hbrings.length_eq ▸ hafter⟩, ?_⟩
  rw [hall, List.forall_mem_map, hsame, h.oneTime_iff] at hdata
  exact hdata

/-- An AAC access unit that is accepted comes back. -/
theorem After.aac_back (h : After start i s) (hcodec : start.codec = .aac)
    (hawaits : Depayloader.Awaits start i d) (hidle : d.auActive = false) (hbuf : HasData buf)
    (hpush : s.push turns buf = some pushed) (hok : pushed.ok = true) :
    ∃ out, Back start i d pushed out ∧ out.data = buf.data := by
  obtain ⟨requests, hpacketize, -, hbrings, hafter⟩ := h.push_ok hpush hok
  have hsize := length_le_of_packetize hbuf hpacketize
  rw [packetize_of_data hbuf.1 hbuf.2 hsize, h.codec, hcodec] at hpacketize
  have hsend := Option.some.inj hpacketize
  rw [packetizeAac] at hsend
  split at hsend
  case isTrue => cases hsend
  case isFalse hfits =>
    have hfits := not_or.mp hfits
    obtain rfl : [_] = requests := congrArg Sending.requests hsend
    obtain ⟨p, hpackets, hone⟩ := hbrings.single
    obtain ⟨hnext, hdone, out, hout, hdata⟩ := hawaits.pushAac hcodec hone rfl hbuf.1
      (not_lt.mp hfits.1)
    have hrun : Depayloader.pushAll pushed.packets d = ((d.pushPacket p).depayloader, [out]) := by
      rw [hpackets, Depayloader.pushAll, Depayloader.pushAll, hout]
      rfl
    refine ⟨out, ⟨by rw [hrun], ?_, ?_, hbrings.length_eq ▸ hafter⟩, hdata⟩
    · rw [hrun, hpackets]
      exact hnext
    · rw [hrun]
      exact hdone.trans hidle

/-! ## Buffers one after the other -/

/-- Packets of one call and of later ones. -/
theorem pushAll_append (front back : List Packet) (d : Depayloader) :
    Depayloader.pushAll (front ++ back) d =
      ((Depayloader.pushAll back (Depayloader.pushAll front d).1).1,
        (Depayloader.pushAll front d).2 ++
          (Depayloader.pushAll back (Depayloader.pushAll front d).1).2) := by
  induction front generalizing d with
  | nil => rfl
  | cons p front ih =>
      rw [cons_append, Depayloader.pushAll, ih]
      simp only [Depayloader.pushAll, append_assoc]

/-- If every buffer that is accepted comes back in some way, all of them do. -/
theorem After.all_back {R : Delivery → Buffer → Prop}
    (hback : ∀ {s i d buf pushed}, After start i s → Depayloader.Awaits start i d →
      d.auActive = false → HasData buf → s.push turns buf = some pushed → pushed.ok = true →
      ∃ out, Back start i d pushed out ∧ R out buf)
    (h : After start i s) (hawaits : Depayloader.Awaits start i d) (hidle : d.auActive = false)
    {buffers : List Buffer} (hbuffers : ∀ buf ∈ buffers, HasData buf) {pushes : List Pushed}
    (hpush : Payloader.pushBuffers turns buffers s = some pushes)
    (hok : ∀ pushed ∈ pushes, pushed.ok = true) :
    List.Forall₂ R (Depayloader.pushAll (packetsOf pushes) d).2 buffers := by
  induction buffers generalizing s i d pushes with
  | nil =>
      cases hpush
      exact .nil
  | cons buf buffers ih =>
      rw [Payloader.pushBuffers] at hpush
      obtain ⟨one, hone, hrest⟩ := bind_eq_some_iff.mp hpush
      obtain ⟨others, hothers, rfl⟩ := map_eq_some_iff.mp hrest
      obtain ⟨out, hout, hR⟩ := hback h hawaits hidle (hbuffers buf mem_cons_self) hone
        (hok one mem_cons_self)
      have hlater := ih hout.after hout.awaits hout.idle
        (fun other hother => hbuffers other (mem_cons_of_mem buf hother)) hothers
        fun pushed hpushed => hok pushed (mem_cons_of_mem one hpushed)
      rw [packetsOf, flatMap_cons, pushAll_append, hout.out_eq]
      exact .cons hR hlater

theorem After.makes_iff (h : After start i s) (r : Request) : s.Makes r ↔ start.Makes r := by
  rw [Makes, Makes, h.strictMtu, h.mtu]

/-- A buffer of samples is accepted when the payloader takes so many bytes. -/
theorem After.pcm_ok_iff (h : After start i s) (hcodec : start.codec = .pcm)
    (hlow : 1 ≤ start.mtu) (hhigh : start.mtu ≤ maxPayload) (hbuf : HasData buf)
    (hpush : s.push turns buf = some pushed) :
    pushed.ok = true ↔ start.Takes buf.data.length := by
  have hmakes : ∀ chunks, chunkLoop s.mtu buf.data.length turns 0 = some chunks →
      ((∀ r ∈ chunks.map (s.pcmRequest buf.data (ptsToRtpTs buf.pts s.clockRate)), start.Makes r) ↔
        (start.strictMtu = true → buf.data.length + 12 ≤ start.mtu)) := by
    intro chunks hchunks
    have hiff := makes_pcm_iff (chunked_of_chunkLoop hchunks) (h.mtu ▸ hlow) (h.mtu ▸ hhigh) hbuf.1
      (ptsToRtpTs buf.pts s.clockRate)
    rw [h.strictMtu, h.mtu] at hiff
    simp only [h.makes_iff] at hiff
    exact hiff
  have hpacketize := fun hsize => s.packetize_of_data hbuf.1 hbuf.2 hsize turns
  rw [h.codec, hcodec] at hpacketize
  constructor
  · intro hok
    obtain ⟨requests, hrequests, hall, -, -⟩ := h.push_ok hpush hok
    have hsize := length_le_of_packetize hbuf hrequests
    rw [hpacketize hsize] at hrequests
    obtain ⟨chunks, hchunks, heq⟩ := map_eq_some_iff.mp hrequests
    obtain rfl : chunks.map (s.pcmRequest buf.data (ptsToRtpTs buf.pts s.clockRate)) = requests :=
      congrArg Sending.requests heq
    exact ⟨hsize, (hmakes chunks hchunks).mp hall⟩
  · rintro ⟨hsize, hfits⟩
    obtain ⟨sending, hsending, rfl⟩ := map_eq_some_iff.mp hpush
    rw [hpacketize hsize] at hsending
    obtain ⟨chunks, hchunks, rfl⟩ := map_eq_some_iff.mp hsending
    exact (h.pushAll ((hmakes chunks hchunks).mpr hfits) buf.pts).2.2

/-- Every call with samples ends. -/
theorem After.exists_push_pcm (h : After start i s) (hcodec : start.codec = .pcm)
    (hlow : 1 ≤ start.mtu) (hbuf : HasData buf) (hturns : buf.data.length ≤ turns) :
    ∃ pushed, s.push turns buf = some pushed := by
  by_cases hsize : buf.data.length ≤ int32Max
  · have hlong : (buf.data.length : ℤ) - 0 ≤ turns := by omega
    obtain ⟨chunks, hchunks⟩ := chunkLoop_ends (h.mtu ▸ hlow : 1 ≤ s.mtu) hlong
    have hpacketize := s.packetize_of_data hbuf.1 hbuf.2 hsize turns
    rw [h.codec, hcodec] at hpacketize
    dsimp only at hpacketize
    exact ⟨_, by rw [Payloader.push, hpacketize, packetizePcm, hchunks]; rfl⟩
  · have hsends : ¬ (buf.eos = true ∨ buf.data = []) :=
      not_or.mpr ⟨by rw [hbuf.2]; exact Bool.false_ne_true, hbuf.1⟩
    exact ⟨_, by rw [Payloader.push, Payloader.packetize, if_neg hsends,
      if_pos (not_le.mp hsize)]; rfl⟩

/-- All buffers are accepted. -/
def Accepts (s : Payloader) (buffers : List Buffer) : Prop :=
  ∃ turns pushes, s.pushBuffers turns buffers = some pushes ∧ ∀ pushed ∈ pushes, pushed.ok = true

/-- Buffers that are accepted come back, one buffer for each. -/
def ComesBack (s : Payloader) (d : Depayloader) (buffers : List Buffer) : Prop :=
  ∀ turns pushes, s.pushBuffers turns buffers = some pushes →
    (∀ pushed ∈ pushes, pushed.ok = true) →
    (d.pushAll (packetsOf pushes)).2.map Delivery.data = buffers.map Buffer.data

/-- Samples are accepted when the payloader takes every buffer. -/
theorem After.takes_of_ok (h : After start i s) (hcodec : start.codec = .pcm)
    (hlow : 1 ≤ start.mtu) (hhigh : start.mtu ≤ maxPayload) {buffers : List Buffer}
    (hbuffers : ∀ buf ∈ buffers, HasData buf) {pushes : List Pushed}
    (hpush : Payloader.pushBuffers turns buffers s = some pushes)
    (hok : ∀ pushed ∈ pushes, pushed.ok = true) :
    ∀ buf ∈ buffers, start.Takes buf.data.length := by
  induction buffers generalizing s i pushes with
  | nil => exact nofun
  | cons buf buffers ih =>
      rw [Payloader.pushBuffers] at hpush
      obtain ⟨one, hone, hrest⟩ := bind_eq_some_iff.mp hpush
      obtain ⟨others, hothers, rfl⟩ := map_eq_some_iff.mp hrest
      have hfirst := hok one mem_cons_self
      obtain ⟨requests, -, -, -, hafter⟩ := h.push_ok hone hfirst
      intro other hother
      rcases mem_cons.mp hother with rfl | hother
      · exact (h.pcm_ok_iff hcodec hlow hhigh (hbuffers _ mem_cons_self) hone).mp hfirst
      · exact ih hafter (fun b hb => hbuffers b (mem_cons_of_mem buf hb)) hothers
          (fun pushed hpushed => hok pushed (mem_cons_of_mem one hpushed)) other hother

theorem After.ok_of_takes (h : After start i s) (hcodec : start.codec = .pcm)
    (hlow : 1 ≤ start.mtu) (hhigh : start.mtu ≤ maxPayload) {buffers : List Buffer}
    (hbuffers : ∀ buf ∈ buffers, HasData buf)
    (hturns : ∀ buf ∈ buffers, buf.data.length ≤ turns)
    (htakes : ∀ buf ∈ buffers, start.Takes buf.data.length) :
    ∃ pushes, Payloader.pushBuffers turns buffers s = some pushes ∧
      ∀ pushed ∈ pushes, pushed.ok = true := by
  induction buffers generalizing s i with
  | nil => exact ⟨[], rfl, nofun⟩
  | cons buf buffers ih =>
      have hbuf := hbuffers buf mem_cons_self
      obtain ⟨one, hone⟩ := h.exists_push_pcm hcodec hlow hbuf (hturns buf mem_cons_self)
      have hfirst := (h.pcm_ok_iff hcodec hlow hhigh hbuf hone).mpr (htakes buf mem_cons_self)
      obtain ⟨requests, -, -, -, hafter⟩ := h.push_ok hone hfirst
      obtain ⟨others, hothers, hoks⟩ := ih hafter
        (fun b hb => hbuffers b (mem_cons_of_mem buf hb))
        (fun b hb => hturns b (mem_cons_of_mem buf hb))
        (fun b hb => htakes b (mem_cons_of_mem buf hb))
      refine ⟨one :: others, by rw [Payloader.pushBuffers, hone, bind_some, hothers]; rfl,
        fun pushed hpushed => ?_⟩
      rcases mem_cons.mp hpushed with rfl | hpushed
      · exact hfirst
      · exact hoks pushed hpushed

theorem accepts_iff {s : Payloader} (hcodec : s.codec = .pcm) (hlow : 1 ≤ s.mtu)
    (hhigh : s.mtu ≤ maxPayload) {buffers : List Buffer}
    (hbuffers : ∀ buf ∈ buffers, HasData buf) :
    s.Accepts buffers ↔ ∀ buf ∈ buffers, s.Takes buf.data.length := by
  constructor
  · rintro ⟨turns, pushes, hpush, hok⟩
    exact (After.refl s).takes_of_ok hcodec hlow hhigh hbuffers hpush hok
  · intro htakes
    have hturns : ∀ buf ∈ buffers,
        buf.data.length ≤ (buffers.map fun buf => buf.data.length).sum := fun buf hbuf =>
      le_sum_of_mem (mem_map.mpr ⟨buf, hbuf, rfl⟩)
    exact ⟨_, (After.refl s).ok_of_takes hcodec hlow hhigh hbuffers hturns htakes⟩

end Payloader

/-- What is the same for every buffer is the same for the list. -/
theorem map_data_iff {P : Buffer → Prop} {outs : List Delivery} {buffers : List Buffer}
    (h : List.Forall₂ (fun out buf => out.data = buf.data ↔ P buf) outs buffers) :
    outs.map Delivery.data = buffers.map Buffer.data ↔ ∀ buf ∈ buffers, P buf := by
  induction h with
  | nil => exact iff_of_true rfl nofun
  | cons hone _ ih => rw [map_cons, map_cons, cons_eq_cons, hone, ih,
      forall_mem_cons]

/-- **Which audio comes back.**  AAC always does when it is accepted.  Samples come back, and are
accepted with an mtu of 13 at least, exactly when the payloader takes every buffer with such an
mtu, and the last packet of every buffer begins within its first moment. -/
theorem audio_comes_back_iff {s : Payloader} (hcodec : s.codec = .aac ∨ s.codec = .pcm)
    (hlow : 4 ≤ s.mtu) (hhigh : s.mtu ≤ maxPayload) {d : Depayloader} (hopened : d.Opened s)
    {buffers : List Buffer} (hbuffers : ∀ buf ∈ buffers, Payloader.HasData buf) :
    (s.ComesBack d buffers ∧ (s.codec = .pcm → 13 ≤ s.mtu → s.Accepts buffers)) ↔
      (s.codec = .pcm → (13 ≤ s.mtu → ∀ buf ∈ buffers, s.Takes buf.data.length) ∧
        ((∀ buf ∈ buffers, s.Takes buf.data.length) →
          ∀ buf ∈ buffers, s.OneTime buf.data.length)) := by
  have hawaits : Depayloader.Awaits s 0 d :=
    ⟨hopened.setUp, fun hseq => absurd (hopened.haveSeq.symm.trans hseq) Bool.false_ne_true⟩
  rcases hcodec with haac | hpcm
  · have hnot : s.codec ≠ .pcm := by
      rw [haac]
      exact Codec.noConfusion
    refine iff_of_true ⟨fun turns pushes hpush hok => ?_, fun hpcm => absurd hpcm hnot⟩
      fun hpcm => absurd hpcm hnot
    have hback := (After.refl s).all_back (R := fun out buf => out.data = buf.data ↔ True)
      (fun h hawaits hidle hbuf hpush hok => by
        obtain ⟨out, hout, hdata⟩ := h.aac_back haac hawaits hidle hbuf hpush hok
        exact ⟨out, hout, iff_true_intro hdata⟩) hawaits hopened.auActive hbuffers hpush hok
    exact (map_data_iff hback).mpr fun _ _ => trivial
  · have hmtu : 1 ≤ s.mtu := by omega
    have hback : ∀ turns pushes, s.pushBuffers turns buffers = some pushes →
        (∀ pushed ∈ pushes, pushed.ok = true) →
        ((d.pushAll (packetsOf pushes)).2.map Delivery.data = buffers.map Buffer.data ↔
          ∀ buf ∈ buffers, s.OneTime buf.data.length) := fun turns pushes hpush hok =>
      map_data_iff ((After.refl s).all_back
        (fun h hawaits hidle hbuf hpush hok => h.pcm_back hpcm hmtu hawaits hidle hbuf hpush hok)
        hawaits hopened.auActive hbuffers hpush hok)
    have haccepts := accepts_iff hpcm hmtu hhigh hbuffers
    constructor
    · rintro ⟨hcomes, haccepted⟩ -
      refine ⟨fun hroom => haccepts.mp (haccepted hpcm hroom), fun htakes => ?_⟩
      obtain ⟨turns, pushes, hpush, hok⟩ := haccepts.mpr htakes
      exact (hback turns pushes hpush hok).mp (hcomes turns pushes hpush hok)
    · intro hcondition
      obtain ⟨htakes, hone⟩ := hcondition hpcm
      refine ⟨fun turns pushes hpush hok => (hback turns pushes hpush hok).mpr (hone ?_),
        fun _ hroom => haccepts.mpr (htakes hroom)⟩
      exact haccepts.mp ⟨turns, pushes, hpush, hok⟩

/-- A payloader for samples of two bytes on one channel, with the given mtu. -/
def monoPayloader (mtu : ℤ) : Payloader :=
  { smallPayloader with codec := .pcm, clockRate := 48000, mtu := mtu, channels := 1, strictMtu := false }

/-- The depayloader for its packets. -/
def monoDepayloader : Depayloader :=
  { smallDepayloader with codec := .pcm, clockRate := 48000, channels := 1 }

/-- Four samples. -/
def fourSamples : Buffer := ⟨[1, 2, 3, 4, 5, 6, 7, 8], 0, false⟩

theorem mono_opened (mtu : ℤ) : monoDepayloader.Opened (monoPayloader mtu) :=
  ⟨rfl, rfl, (by decide : (96 : Byte) < 128), nofun, rfl, rfl, rfl⟩

theorem four_hasData : ∀ buf ∈ [fourSamples], HasData buf := by decide

theorem audio_comes_back_four :
    (monoPayloader 13).ComesBack monoDepayloader [fourSamples] ∧
      (monoPayloader 13).Accepts [fourSamples] := by
  obtain ⟨hcomes, haccepts⟩ := (audio_comes_back_iff (s := monoPayloader 13) (.inr rfl) (by decide)
    (by decide) (mono_opened 13) four_hasData).mpr (by decide)
  exact ⟨hcomes, haccepts rfl (by decide)⟩

/-- With an mtu of four bytes, the four samples go in two packets, and the depayloader keeps the
second one. -/
theorem four_samples_lost :
    4 ≤ (monoPayloader 4).mtu ∧ (monoPayloader 4).mtu ≤ maxPayload ∧
      monoDepayloader.Opened (monoPayloader 4) ∧ (∀ buf ∈ [fourSamples], HasData buf) ∧
      (monoPayloader 4).Accepts [fourSamples] ∧
      ¬ (monoPayloader 4).ComesBack monoDepayloader [fourSamples] := by
  obtain ⟨pushes, hpush, hresult⟩ := map_eq_some_iff.mp
    (show ((monoPayloader 4).pushBuffers 8 [fourSamples]).map (fun pushes =>
      decide ((∀ pushed ∈ pushes, pushed.ok = true) ∧
        (monoDepayloader.pushAll (packetsOf pushes)).2.map Delivery.data = [[5, 6, 7, 8]])) =
      some true by decide +kernel)
  obtain ⟨hok, hdata⟩ := of_decide_eq_true hresult
  refine ⟨by decide, by decide, mono_opened 4, four_hasData, ⟨8, pushes, hpush, hok⟩,
    fun hcomes => ?_⟩
  have hall := hdata.symm.trans (hcomes 8 pushes hpush hok)
  exact absurd hall (by decide)

end Zstreamer.Rtp

/-
# When samples come back

The packets of the ST 2110-30 payloader have whole sample frames, one after the other.
The depayloader gives back their bytes, but counts three bytes for a sample: it counts
right when samples have three bytes, or when a packet has so few that the quotient, and
the one sample that it takes for none, come out right.
-/

import Zstreamer.Foundation.Tally
import Zstreamer.St2110.Audio

namespace Zstreamer.St2110.Audio

open Foundation Rtp List

/-! ## The packets of a call -/

/-- A packet follows another: the time goes on by the sample frames of the first, and the number
by one. -/
def Follows (frameSize : ℤ) (p p' : Rtp.Buffer) : Prop :=
  (viewAt p'.data 12).timestamp = (viewAt p.data 12).timestamp +
      BitVec.ofInt 32 ((viewAt p.data 12).payload.length / frameSize) ∧
    (viewAt p'.data 12).seq = (viewAt p.data 12).seq + 1

namespace Payloader

variable {s : Payloader} {frameSize : ℤ} {size : ℕ} {pts : BitVec 64}

/-- The packet of a chunk, read back. -/
theorem view_makePacket (s : Payloader) (frameSize : ℤ) (pts : BitVec 64) (c : Chunk)
    (payload : List Byte) :
    (viewAt (s.makePacket frameSize pts c payload).2.data 12).payload = payload ∧
      (viewAt (s.makePacket frameSize pts c payload).2.data 12).seq = s.seq ∧
      (viewAt (s.makePacket frameSize pts c payload).2.data 12).timestamp =
        (s.header frameSize pts c.offset).timestamp := by
  simp only [viewAt, makePacket, Header.bytes, cons_append, nil_append,
    getD_cons_succ, getD_cons_zero, drop_succ_cons, drop_zero, be16_bytes,
    be32_bytes]
  exact ⟨trivial, rfl, trivial⟩

theorem payloads_makeAll (chunks : List (Chunk × List Byte)) :
    ((makeAll frameSize size pts chunks s).2.map Prod.fst).map
      (fun p => (viewAt p.data 12).payload) = chunks.map Prod.snd := by
  induction chunks generalizing s with
  | nil => rfl
  | cons c chunks ih =>
      rw [makeAll, map_cons, map_cons, map_cons, ih]
      dsimp only
      rw [(view_makePacket s frameSize pts c.1 c.2).1]

theorem flags_makeAll (chunks : List (Chunk × List Byte)) :
    (makeAll frameSize size pts chunks s).2.map Prod.snd =
      chunks.map fun c => decide ((size : ℤ) ≤ c.1.offset + c.1.length) := by
  induction chunks generalizing s with
  | nil => rfl
  | cons c chunks ih => rw [makeAll, map_cons, map_cons, ih]

/-- The packets are of `ZST_BUFFER_AUDIO_PACKET`, and none is the end of the stream. -/
theorem eos_makeAll {chunks : List (Chunk × List Byte)} :
    ∀ p ∈ (makeAll frameSize size pts chunks s).2.map Prod.fst,
      p.eos = false ∧ p.data.length = 12 + (viewAt p.data 12).payload.length := by
  induction chunks generalizing s with
  | nil => exact nofun
  | cons c chunks ih =>
      intro p hp
      rcases mem_cons.mp hp with rfl | hrest
      · refine ⟨rfl, ?_⟩
        rw [(view_makePacket s frameSize pts c.1 c.2).1]
        exact length_append
      · exact ih p hrest

/-- **Chunks of whole sample frames, each behind the other, follow one another as packets.** -/
theorem follows_makeAll (hpos : 0 < frameSize) :
    ∀ {chunks : List (Chunk × List Byte)} {s : Payloader},
      chunks.IsChain (fun c c' => c'.1.offset = c.1.offset + c.1.length) →
      (∀ c ∈ chunks, frameSize ∣ c.1.length ∧ (c.2.length : ℤ) = c.1.length) →
      ((makeAll frameSize size pts chunks s).2.map Prod.fst).IsChain (Follows frameSize)
  | [], _, _, _ => .nil
  | [_], _, _, _ => .singleton _
  | c :: c' :: chunks, s, hchain, hwhole => by
      obtain ⟨hnext, hrest⟩ := isChain_cons_cons.mp hchain
      have hlater := follows_makeAll hpos (s := (s.makePacket frameSize pts c.1 c.2).1) hrest
        fun d hd => hwhole d (mem_cons_of_mem c hd)
      refine isChain_cons_cons.mpr ⟨?_, hlater⟩
      obtain ⟨hdvd, hlength⟩ := hwhole c mem_cons_self
      obtain ⟨hpayload, hseq, htime⟩ := view_makePacket s frameSize pts c.1 c.2
      obtain ⟨-, hseq', htime'⟩ :=
        view_makePacket (s.makePacket frameSize pts c.1 c.2).1 frameSize pts c'.1 c'.2
      constructor
      · rw [htime, htime', hpayload, hlength, header, header, hnext,
          Int.add_ediv_of_dvd_right hdvd, BitVec.ofInt_add, ← BitVec.add_assoc]
        rfl
      · rw [hseq, hseq']
        rfl

/-! ## What is pushed and what is returned -/

/-- The chunks with their bytes. -/
def pieces (data : List Byte) (chunks : List Chunk) : List (Chunk × List Byte) :=
  chunks.map fun c => (c, c.slice data)

/-- The packets of chunks of the data. -/
def packetsOf (s : Payloader) (frameSize : ℤ) (size : ℕ) (pts : BitVec 64) (data : List Byte)
    (chunks : List Chunk) : List Rtp.Buffer :=
  (makeAll frameSize size pts (pieces data chunks) s).2.map Prod.fst

variable {chunks : List Chunk} {data : List Byte} {most : ℤ}

/-- **Only the last packet is returned**, so that the packets come in the order of the chunks. -/
theorem packets_eq (hchunked : Chunked most size 0 chunks) :
    let made := (makeAll frameSize size pts (pieces data chunks) s).2
    Output.packets ⟨(made.filter fun p => !p.2).map Prod.fst,
      ((made.filter Prod.snd).map Prod.fst).getLast?⟩ =
        s.packetsOf frameSize size pts data chunks := by
  dsimp only
  rw [packetsOf]
  have hflags := @flags_makeAll s frameSize size pts (pieces data chunks)
  generalize (makeAll frameSize size pts (pieces data chunks) s).2 = made at hflags ⊢
  rw [pieces, map_map] at hflags
  rcases Nat.eq_zero_or_pos size with rfl | hpos
  · cases hchunked with
    | done =>
        obtain rfl := map_eq_nil_iff.mp hflags
        rfl
    | chunk hmore => exact absurd hmore (lt_irrefl _)
  · obtain ⟨init, last, rfl, hend, hinit⟩ := hchunked.exists_init (by exact_mod_cast hpos)
    rw [map_append] at hflags
    obtain ⟨before, returned, rfl, hbefore, hreturned⟩ := map_eq_append_iff.mp hflags
    obtain ⟨p, rfl, hp⟩ := map_eq_singleton_iff.mp hreturned
    have hlast : p.2 = true := hp.trans (decide_eq_true hend.ge)
    have hpushed : ∀ q ∈ before, q.2 = false := by
      intro q hq
      have hflag : q.2 ∈ before.map Prod.snd := mem_map_of_mem hq
      rw [hbefore] at hflag
      obtain ⟨c, hc, hflag⟩ := mem_map.mp hflag
      rw [← hflag]
      exact decide_eq_false (not_le.mpr (hinit c hc))
    have hkeep : (before ++ [p]).filter (fun q => !q.2) = before := by
      rw [filter_append, filter_eq_self.mpr fun q hq => by rw [hpushed q hq]; rfl]
      simp [hlast]
    have hdrop : (before ++ [p]).filter Prod.snd = [p] := by
      rw [filter_append, filter_eq_nil_iff.mpr fun q hq => by rw [hpushed q hq]; decide]
      simp [hlast]
    rw [hkeep, hdrop, map_append]
    rfl

/-! ## The chunks of samples -/

/-- Sample frames of a packet that is full. -/
def framesPerPacket (frameSize : ℤ) : ℤ := max 1 (1400 / frameSize)

theorem maxPayload_eq (hpos : 0 < frameSize) :
    maxPayload frameSize = frameSize * framesPerPacket frameSize := by
  have hwhole : 1400 - 1400 % frameSize = frameSize * (1400 / frameSize) := by
    have := Int.emod_add_mul_ediv 1400 frameSize
    omega
  have hquotient : 0 ≤ 1400 / frameSize := Int.ediv_nonneg (by omega) hpos.le
  rw [maxPayload, hwhole, framesPerPacket]
  by_cases hnone : 1400 / frameSize = 0
  · rw [hnone, mul_zero, if_pos rfl, max_eq_left (by omega), mul_one]
  · rw [if_neg (mul_ne_zero hpos.ne' hnone), max_eq_right (by omega)]

theorem one_le_maxPayload (hpos : 0 < frameSize) : 1 ≤ maxPayload frameSize := by
  have hframes : 1 ≤ framesPerPacket frameSize := le_max_left _ _
  have := Int.mul_le_mul_of_nonneg_left hframes hpos.le
  rw [maxPayload_eq hpos]
  omega

/-! ## The input -/

/-- The input is so many whole sample frames: a buffer of bytes, or an audio frame that says how
many it has. -/
structure Carries (frameSize : ℤ) (input : Input) (data : List Byte) (n : ℕ) : Prop where
  eos : input.eos = false
  whole : (data.length : ℤ) = n * frameSize
  source : (input.payload = none ∧ input.memory = data) ∨
    ∃ frame, input.payload = some frame ∧ frame.data = some data ∧ frame.nbSamples.toNat = n

variable {input : Input} {n : ℕ} {turns : ℕ}

/-- The size of an audio frame is a product of 32 bits. -/
theorem Carries.inputOf (h : Carries frameSize input data n) (hpos : 0 < frameSize)
    (hint : frameSize < 2 ^ 31) :
    ∃ size, inputOf frameSize input = (size, some data) ∧ size ≤ data.length ∧
      (size = data.length ↔ input.payload = none ∨ data.length < 2 ^ 32) := by
  obtain ⟨-, hwhole, ⟨hnone, rfl⟩ | ⟨frame, hframe, hdata, hn⟩⟩ := h
  · exact ⟨_, by rw [Payloader.inputOf, hnone], le_rfl, fun _ => .inl hnone, fun _ => rfl⟩
  · have hsize : (frame.nbSamples * BitVec.ofInt 32 frameSize).toNat = data.length % 2 ^ 32 := by
      have hfactor : (BitVec.ofInt 32 frameSize).toNat = frameSize.toNat := by
        rw [BitVec.toNat_ofInt]
        omega
      have hlength : data.length = n * frameSize.toNat := by
        apply Int.ofNat_inj.mp
        rw [Nat.cast_mul, Int.toNat_of_nonneg hpos.le]
        exact hwhole
      rw [BitVec.toNat_mul, hfactor, hn, hlength]
    refine ⟨_, by rw [Payloader.inputOf, hframe]; dsimp only; rw [hdata], ?_, ?_⟩
    · rw [hsize]
      exact Nat.mod_le _ _
    · rw [hsize, hframe, or_iff_right (by exact Option.some_ne_none frame)]
      constructor
      · intro hsame
        rw [← hsame]
        exact Nat.mod_lt _ (by decide)
      · exact Nat.mod_eq_of_lt

/-- The chunks are read, unless the sampling rate is divided by. -/
theorem cut_eq (hpos : 0 < s.frameSize) (hsize : size ≤ data.length)
    (hloop : chunkLoop (maxPayload s.frameSize) size turns 0 = some chunks) :
    s.cut turns size (some data) =
      if chunks ≠ [] ∧ s.sampleRate = 0 then .error .divisionByZero
      else .ok (pieces data chunks) := by
  have hchunked := chunked_of_chunkLoop hloop
  have hread : ∀ c ∈ chunks,
      (readChunk (some data) c).map (fun payload => (c, payload)) = .ok (c, c.slice data) := by
    intro c hc
    obtain ⟨-, -, -, hend⟩ := hchunked.bounds (one_le_maxPayload hpos) c hc
    rw [readChunk, if_neg (by omega)]
    rfl
  rw [cut, hloop]
  dsimp only
  rw [mapM_eq_ok hread, pieces]

/-- **What a call gives when it returns.** -/
theorem process_spec {s' : Payloader} {o : Output} (h : Carries s.frameSize input data n)
    (hpos : 0 < s.frameSize) (hprocess : s.process turns input = .ok (s', o)) :
    s.frameSize < 2 ^ 31 ∧ ∃ size chunks, inputOf s.frameSize input = (size, some data) ∧
      Chunked (maxPayload s.frameSize) size 0 chunks ∧ (chunks = [] ∨ s.sampleRate ≠ 0) ∧
      o.packets = s.packetsOf s.frameSize size input.pts data chunks := by
  rw [process, if_neg (by rw [h.eos]; exact Bool.false_ne_true)] at hprocess
  split at hprocess
  · cases hprocess
  · rename_i hint
    have hint := (not_not.mp hint).2
    obtain ⟨size, hinput, hsize, -⟩ := h.inputOf hpos hint
    rw [if_neg (not_le.mpr hpos), hinput] at hprocess
    dsimp only at hprocess
    cases hloop : chunkLoop (maxPayload s.frameSize) size turns 0 with
    | none =>
        rw [cut, hloop] at hprocess
        cases hprocess
    | some chunks =>
        have hchunked := chunked_of_chunkLoop hloop
        rw [cut_eq hpos hsize hloop] at hprocess
        split at hprocess
        · cases hprocess
        · rename_i hrate
          obtain ⟨-, rfl⟩ := Prod.mk.inj (Except.ok.inj hprocess)
          exact ⟨hint, size, chunks, hinput, hchunked,
            (not_and_or.mp hrate).imp_left not_not.mp,
            packets_eq hchunked⟩

/-- A call returns when the sampling rate is not zero, or there is nothing to send. -/
theorem process_returns (h : Carries s.frameSize input data n) (hpos : 0 < s.frameSize)
    (hint : s.frameSize < 2 ^ 31) (hrate : n = 0 ∨ s.sampleRate ≠ 0) :
    ∃ turns result, s.process turns input = .ok result := by
  obtain ⟨size, hinput, hsize, -⟩ := h.inputOf hpos hint
  have hturns : (size : ℤ) - 0 ≤ (size : ℕ) := by omega
  obtain ⟨chunks, hloop⟩ := chunkLoop_ends (one_le_maxPayload hpos) hturns
  have hcut : ¬ (chunks ≠ [] ∧ s.sampleRate = 0) := by
    rintro ⟨hchunks, hzero⟩
    have hnone := hrate.resolve_right (not_not.mpr hzero)
    have hwhole := h.whole
    rw [hnone, Nat.cast_zero, zero_mul] at hwhole
    rw [chunkLoop_of_end (by omega)] at hloop
    exact hchunks (Option.some.inj hloop).symm
  refine ⟨size, ?_⟩
  rw [process, if_neg (by rw [h.eos]; exact Bool.false_ne_true),
    if_neg (not_not.mpr ⟨by omega, hint⟩), if_neg (not_le.mpr hpos), hinput]
  dsimp only
  rw [cut_eq hpos hsize hloop, if_neg hcut]
  exact ⟨_, rfl⟩

end Payloader

/-! ## What is counted -/

namespace Depayloader

/-- The samples that a payload is counted for. -/
def counted (channels : ℤ) (payloadLen : ℕ) : ℕ :=
  if payloadLen / (channels * 3).toNat = 0 ∧ 0 < payloadLen then 1
  else payloadLen / (channels * 3).toNat

variable {d : Depayloader} {p : Rtp.Buffer} {payloadLen : ℕ}

theorem nbSamples_eq (hchannels : 1 ≤ d.expectedChannels) (hint : d.expectedChannels * 3 < 2 ^ 31)
    (hlen : payloadLen < 2 ^ 32) :
    d.nbSamples payloadLen = .ok (BitVec.ofNat 32 (counted d.expectedChannels payloadLen)) := by
  have hdivisor : (BitVec.ofInt 64 (d.expectedChannels * 3)).toNat =
      (d.expectedChannels * 3).toNat := by
    have hmodulus : ((2 ^ 64 : ℕ) : ℤ) = 18446744073709551616 := by norm_num
    rw [BitVec.toNat_ofInt, hmodulus, Int.emod_eq_of_lt (by omega) (by omega)]
  have hquotient : payloadLen / (d.expectedChannels * 3).toNat < 2 ^ 32 :=
    (Nat.div_le_self _ _).trans_lt hlen
  rw [nbSamples, if_neg (not_not.mpr ⟨by omega, hint⟩), if_neg (by omega), hdivisor, counted]
  have hzero : BitVec.ofNat 32 (payloadLen / (d.expectedChannels * 3).toNat) = 0 ↔
      payloadLen / (d.expectedChannels * 3).toNat = 0 := by
    rw [← BitVec.toNat_inj, BitVec.toNat_ofNat, Nat.mod_eq_of_lt hquotient]
    rfl
  simp only [hzero]
  split <;> rfl

theorem counted_lt (channels : ℤ) (hlen : payloadLen < 2 ^ 32) :
    counted channels payloadLen < 2 ^ 32 := by
  rw [counted]
  split
  · decide
  · exact (Nat.div_le_self _ _).trans_lt hlen

/-- The buffer of a packet. -/
def samplesOf (d : Depayloader) (p : Rtp.Buffer) : Samples where
  data := (viewAt p.data 12).payload
  pts :=
    if d.expectedSampleRate > 0 then
      (viewAt p.data 12).timestamp.setWidth 64 * 1000000000 / BitVec.ofInt 64 d.expectedSampleRate
    else p.pts
  sampleRate := BitVec.ofInt 32 d.expectedSampleRate
  channels := BitVec.ofInt 32 d.expectedChannels
  nbSamples := BitVec.ofNat 32 (counted d.expectedChannels (viewAt p.data 12).payload.length)
  eos := false

/-- A packet with samples in it. -/
structure Loaded (p : Rtp.Buffer) : Prop where
  eos : p.eos = false
  length : p.data.length = 12 + (viewAt p.data 12).payload.length
  some : 0 < (viewAt p.data 12).payload.length
  most : (viewAt p.data 12).payload.length < 2 ^ 32

theorem process_eq (hchannels : 1 ≤ d.expectedChannels) (hint : d.expectedChannels * 3 < 2 ^ 31)
    (h : Loaded p) : d.process p = .ok (some (d.samplesOf p)) := by
  have hlength := h.length
  have hpos := h.some
  have hrest : p.data.length - 12 = (viewAt p.data 12).payload.length := by omega
  rw [process, if_neg (by rw [h.eos]; exact Bool.false_ne_true), if_neg (by omega), hrest,
    nbSamples_eq hchannels hint h.most]
  rfl

/-- **The depayloader gives back the bytes of the packets, and counts each of them.** -/
theorem processAll_eq {packets : List Rtp.Buffer} (hchannels : 1 ≤ d.expectedChannels)
    (hint : d.expectedChannels * 3 < 2 ^ 31) (hloaded : ∀ p ∈ packets, Loaded p) :
    d.processAll packets = .ok (packets.map d.samplesOf) := by
  rw [processAll, mapM_eq_ok fun p hp => process_eq hchannels hint (hloaded p hp)]
  change Except.ok ((packets.map fun p => some (d.samplesOf p)).filterMap id) = _
  rw [filterMap_map]
  exact congrArg Except.ok (congrFun filterMap_eq_map packets)

/-- Without the numbers of the machine, a packet is not counted. -/
theorem processAll_fails {packets : List Rtp.Buffer} (hint : ¬ IsInt (d.expectedChannels * 3))
    (hp : p ∈ packets) (hloaded : Loaded p) : ∃ fault, d.processAll packets = .error fault := by
  have hpos := hloaded.some
  have hlength := hloaded.length
  have hone : d.process p = .error .overflow := by
    rw [process, if_neg (by rw [hloaded.eos]; exact Bool.false_ne_true), if_neg (by omega),
      nbSamples, if_pos hint]
    rfl
  obtain ⟨fault, hfault⟩ := mapM_eq_error hp hone
  exact ⟨fault, by rw [processAll, hfault]; rfl⟩

/-- Sample frames of two bytes for a sample are counted too low from two on, and frames of four too
high from three on. -/
theorem counted_of_frames {channels : ℤ} {bytes k : ℕ} (hchannels : 1 ≤ channels) (hk : 1 ≤ k)
    (hbytes : 1 ≤ bytes) (hlen : (payloadLen : ℤ) = k * (channels * bytes)) :
    counted channels payloadLen = max 1 (k * bytes / 3) := by
  have hlength : payloadLen = k * bytes * channels.toNat := by
    apply Int.ofNat_inj.mp
    rw [hlen, Nat.cast_mul, Nat.cast_mul, Int.toNat_of_nonneg (by omega)]
    ring
  have hdivisor : (channels * 3).toNat = 3 * channels.toNat := by omega
  have hpos : 0 < payloadLen := by
    rw [hlength]
    exact Nat.mul_pos (Nat.mul_pos hk hbytes) (by omega)
  rw [counted, hdivisor, hlength, Nat.mul_div_mul_right _ _ (by omega), ← hlength]
  split
  · rename_i hnone
    rw [hnone.1, max_eq_left (by omega)]
  · rw [max_eq_right (by omega)]

end Depayloader

namespace Payloader

variable {s : Payloader} {d : Depayloader} {input : Input} {data : List Byte} {n size : ℕ}
  {chunks : List Chunk} {frameSize : ℤ}

/-! ## Whole sample frames -/

/-- Every chunk begins at a sample frame and has whole ones. -/
theorem dvd_length (hpos : 0 < frameSize) (hsize : (size : ℤ) = n * frameSize)
    (hchunked : Chunked (maxPayload frameSize) size 0 chunks) {c : Chunk} (hc : c ∈ chunks) :
    frameSize ∣ c.length := by
  obtain ⟨-, k, hk⟩ := hchunked.offset_eq c hc
  have hmost : frameSize ∣ maxPayload frameSize := ⟨_, maxPayload_eq hpos⟩
  have hoffset : frameSize ∣ c.offset := by
    rw [hk, zero_add]
    exact hmost.mul_right _
  have hrest : frameSize ∣ (size : ℤ) - c.offset := by
    rw [hsize]
    exact Int.dvd_sub ⟨n, mul_comm _ _⟩ hoffset
  rw [hchunked.length_eq c hc]
  rcases min_choice ((size : ℤ) - c.offset) (maxPayload frameSize) with hmin | hmin
  · rw [hmin]
    exact hrest
  · rw [hmin]
    exact hmost

/-- A full packet, or all that there is, is the largest. -/
theorem length_le_iff (hpos : 0 < frameSize) (hsize : (size : ℤ) = n * frameSize) (hn : 1 ≤ n)
    (hchunked : Chunked (maxPayload frameSize) size 0 chunks) (t : ℤ) :
    (∀ c ∈ chunks, c.length ≤ frameSize * t) ↔ min (n : ℤ) (framesPerPacket frameSize) ≤ t := by
  have hlargest : min (size : ℤ) (maxPayload frameSize) =
      frameSize * min (n : ℤ) (framesPerPacket frameSize) := by
    rw [maxPayload_eq hpos, hsize, mul_comm (n : ℤ), mul_min_of_nonneg _ _ hpos.le]
  have hmost := one_le_maxPayload hpos
  constructor
  · intro hall
    have hsome : 0 + maxPayload frameSize * ((0 : ℕ) : ℤ) < size := by
      rw [Nat.cast_zero, mul_zero, hsize]
      exact Int.mul_pos (by omega) hpos
    obtain ⟨c, hc, hoffset⟩ := hchunked.exists_chunk hsome hmost
    have hfirst := hall c hc
    rw [hchunked.length_eq c hc, hoffset, Nat.cast_zero, mul_zero, add_zero, sub_zero,
      hlargest] at hfirst
    exact Int.le_of_mul_le_mul_left hfirst hpos
  · intro ht c hc
    obtain ⟨hoffset, -, -, -⟩ := hchunked.bounds hmost c hc
    rw [hchunked.length_eq c hc]
    calc
      min ((size : ℤ) - c.offset) (maxPayload frameSize)
          ≤ min (size : ℤ) (maxPayload frameSize) := min_le_min_right _ (by omega)
      _ = frameSize * min (n : ℤ) (framesPerPacket frameSize) := hlargest
      _ ≤ frameSize * t := Int.mul_le_mul_of_nonneg_left ht hpos.le

/-- The sample frames of a chunk. -/
def framesOf (frameSize : ℤ) (c : Chunk) : ℕ := (c.length / frameSize).toNat

theorem framesOf_mul (hpos : 0 < frameSize) {c : Chunk} (hdvd : frameSize ∣ c.length)
    (hlength : 1 ≤ c.length) : (framesOf frameSize c : ℤ) * frameSize = c.length ∧
      1 ≤ framesOf frameSize c := by
  obtain ⟨k, hk⟩ := hdvd
  have hfirst : 0 < k := by
    by_contra hneg
    have := Int.mul_nonpos_of_nonneg_of_nonpos hpos.le (not_lt.mp hneg)
    omega
  rw [framesOf, hk, Int.mul_ediv_cancel_left _ hpos.ne', Int.toNat_of_nonneg hfirst.le, mul_comm]
  exact ⟨rfl, by omega⟩

/-- The sample frames of the chunks are those of the input. -/
theorem sum_framesOf (hpos : 0 < frameSize) (hsize : (data.length : ℤ) = n * frameSize)
    (hchunked : Chunked (maxPayload frameSize) data.length 0 chunks) :
    (chunks.map (framesOf frameSize)).sum = n := by
  have hmost := one_le_maxPayload hpos
  have hbytes : ((chunks.flatMap fun c => c.slice data).length : ℤ) =
      (chunks.map (framesOf frameSize)).sum * frameSize := by
    have hall : ∀ c ∈ chunks, ((c.slice data).length : ℤ) = framesOf frameSize c * frameSize := by
      intro c hc
      obtain ⟨hoffset, hlength, -, hend⟩ := hchunked.bounds hmost c hc
      rw [(framesOf_mul hpos (dvd_length hpos hsize hchunked hc) hlength).1]
      exact Chunk.length_slice hoffset (by omega) hend
    clear hchunked
    induction chunks with
    | nil => rw [flatMap_nil, map_nil, sum_nil, Nat.cast_zero, zero_mul]; rfl
    | cons c chunks ih =>
        rw [flatMap_cons, length_append, map_cons, sum_cons, Nat.cast_add,
          Nat.cast_add, hall c mem_cons_self,
          ih fun c' hc' => hall c' (mem_cons_of_mem c hc'), add_mul]
  rw [hchunked.flatMap_slice data hmost le_rfl, Int.toNat_zero, drop_zero, hsize] at hbytes
  exact_mod_cast (Int.eq_of_mul_eq_mul_right hpos.ne' hbytes).symm

theorem framesOf_le_iff (hpos : 0 < frameSize) (hsize : (size : ℤ) = n * frameSize) (hn : 1 ≤ n)
    (hchunked : Chunked (maxPayload frameSize) size 0 chunks) (t : ℕ) :
    (∀ c ∈ chunks, framesOf frameSize c ≤ t) ↔ min (n : ℤ) (framesPerPacket frameSize) ≤ t := by
  rw [← length_le_iff hpos hsize hn hchunked t]
  refine forall₂_congr fun c hc => ?_
  obtain ⟨hframes, -⟩ := framesOf_mul hpos (dvd_length hpos hsize hchunked hc)
    (hchunked.bounds (one_le_maxPayload hpos) c hc).2.1
  rw [← hframes, mul_comm frameSize, Int.mul_le_mul_right hpos, Nat.cast_le]

/-- Samples of three bytes, or of two with one sample frame in a packet, or of four with two at
most. -/
def CountedRight (bytes : ℕ) (frames : ℤ) : Prop :=
  bytes = 3 ∨ (bytes = 2 ∧ frames ≤ 1) ∨ (bytes = 4 ∧ frames ≤ 2)

instance (bytes : ℕ) (frames : ℤ) : Decidable (CountedRight bytes frames) :=
  inferInstanceAs (Decidable (_ ∨ _))

theorem countedRight_two (frames : ℤ) : CountedRight 2 frames ↔ frames ≤ ((1 : ℕ) : ℤ) := by
  simp [CountedRight]

theorem countedRight_four (frames : ℤ) : CountedRight 4 frames ↔ frames ≤ ((2 : ℕ) : ℤ) := by
  simp [CountedRight]

/-- **When the sample frames of the packets come to those of the input.** -/
theorem sum_counted_iff {channels : ℤ} {bytes : ℕ} (hchannels : 1 ≤ channels)
    (hbytes : bytes = 2 ∨ bytes = 3 ∨ bytes = 4) (hn : 1 ≤ n)
    (hsize : (data.length : ℤ) = n * (channels * bytes))
    (hchunked : Chunked (maxPayload (channels * bytes)) data.length 0 chunks) :
    (chunks.map fun c => Depayloader.counted channels (c.slice data).length).sum = n ↔
      CountedRight bytes (min (n : ℤ) (framesPerPacket (channels * bytes))) := by
  have hpos : 0 < channels * (bytes : ℤ) := Int.mul_pos (by omega) (by omega)
  have hmost := one_le_maxPayload hpos
  have hframes : ∀ c ∈ chunks, 1 ≤ framesOf (channels * bytes) c ∧
      Depayloader.counted channels (c.slice data).length =
        max 1 (framesOf (channels * bytes) c * bytes / 3) := by
    intro c hc
    obtain ⟨hoffset, hlength, -, hend⟩ := hchunked.bounds hmost c hc
    obtain ⟨hmul, hone⟩ := framesOf_mul hpos (dvd_length hpos hsize hchunked hc) hlength
    refine ⟨hone, Depayloader.counted_of_frames hchannels hone (by omega) ?_⟩
    rw [hmul]
    exact Chunk.length_slice hoffset (by omega) hend
  rw [map_congr_left fun c hc => (hframes c hc).2]
  have hall := framesOf_le_iff hpos hsize hn hchunked
  have htotal := sum_framesOf hpos hsize hchunked
  rcases hbytes with rfl | rfl | rfl
  · -- never more than there are
    have hle : ∀ c ∈ chunks, max 1 (framesOf (channels * (2 : ℕ)) c * 2 / 3) ≤
        framesOf (channels * (2 : ℕ)) c := fun c hc => by
      have := (hframes c hc).1
      omega
    rw [countedRight_two, ← hall 1, ← htotal, sum_map_eq_iff hle]
    refine forall₂_congr fun c hc => ?_
    have := (hframes c hc).1
    omega
  · have hsame : ∀ c ∈ chunks, max 1 (framesOf (channels * (3 : ℕ)) c * 3 / 3) =
        framesOf (channels * (3 : ℕ)) c := fun c hc => by
      have := (hframes c hc).1
      omega
    rw [map_congr_left hsame]
    exact iff_of_true htotal (.inl rfl)
  · -- never fewer than there are
    have hle : ∀ c ∈ chunks, framesOf (channels * (4 : ℕ)) c ≤
        max 1 (framesOf (channels * (4 : ℕ)) c * 4 / 3) := fun c _ => by omega
    rw [countedRight_four, ← hall 2, ← htotal, eq_comm, sum_map_eq_iff hle]
    refine forall₂_congr fun c hc => ?_
    have := (hframes c hc).1
    omega

/-! ## The round trip -/

/-- The packets carry whole sample frames, one after the other, which are the input; and the
depayloader gives their bytes back, with as many samples as the input has. -/
def RoundTrips (s : Payloader) (d : Depayloader) (input : Input) (data : List Byte) (n : ℕ) :
    Prop :=
  ∃ turns s' o, s.process turns input = .ok (s', o) ∧
    (∀ p ∈ o.packets, s.frameSize ∣ (viewAt p.data 12).payload.length) ∧
    o.packets.flatMap (fun p => (viewAt p.data 12).payload) = data ∧
    o.packets.IsChain (Follows s.frameSize) ∧
    ∃ buffers, d.processAll o.packets = .ok buffers ∧ buffers.flatMap Samples.data = data ∧
      (buffers.map fun b => b.nbSamples.toNat).sum = n

/-- The payloads of the packets are the slices of the chunks. -/
theorem payloads_packetsOf (s : Payloader) (pts : BitVec 64) :
    (s.packetsOf frameSize size pts data chunks).map (fun p => (viewAt p.data 12).payload) =
      chunks.map fun c => c.slice data := by
  rw [packetsOf, payloads_makeAll, pieces, map_map]
  rfl

theorem flatMap_packetsOf (s : Payloader) (pts : BitVec 64) :
    (s.packetsOf frameSize size pts data chunks).flatMap (fun p => (viewAt p.data 12).payload) =
      chunks.flatMap fun c => c.slice data := by
  rw [flatMap_def, payloads_packetsOf, flatMap_def]

/-- Every packet is loaded with a chunk. -/
theorem loaded_packetsOf {s : Payloader} {pts : BitVec 64} (hpos : 0 < frameSize)
    (hint : frameSize < 2 ^ 31)
    (hchunked : Chunked (maxPayload frameSize) data.length 0 chunks) {p : Rtp.Buffer}
    (hp : p ∈ s.packetsOf frameSize data.length pts data chunks) :
    Depayloader.Loaded p ∧ ∃ c ∈ chunks, (viewAt p.data 12).payload = c.slice data := by
  have hmem : (viewAt p.data 12).payload ∈ chunks.map fun c => c.slice data := by
    rw [← payloads_packetsOf s pts]
    exact mem_map_of_mem hp
  obtain ⟨c, hc, hpayload⟩ := mem_map.mp hmem
  obtain ⟨heos, hlength⟩ := eos_makeAll p hp
  obtain ⟨hoffset, hone, hmost, hend⟩ := hchunked.bounds (one_le_maxPayload hpos) c hc
  have hslice := Chunk.length_slice hoffset (show 0 ≤ c.length by omega) hend
  have hroom : maxPayload frameSize < 2 ^ 31 := by
    rw [maxPayload]
    have := Int.emod_nonneg 1400 hpos.ne'
    split <;> omega
  rw [hpayload] at hslice
  exact ⟨⟨heos, hlength, by omega, by omega⟩, c, hc, hpayload.symm⟩

/-- The payloads are as much of the data as the size says. -/
theorem flatMap_slice_eq {most : ℤ} (hmost : 1 ≤ most) (hsize : size ≤ data.length)
    (hchunked : Chunked most size 0 chunks) :
    (chunks.flatMap fun c => c.slice data) = data.take size := by
  have htake : ((data.take size).length : ℤ) = size := by
    rw [length_take, min_eq_left hsize]
  have hslices : ∀ c ∈ chunks, c.slice (data.take size) = c.slice data := by
    intro c hc
    obtain ⟨hoffset, hlength, -, hend⟩ := hchunked.bounds hmost c hc
    exact Chunk.slice_take hoffset (by omega) hend data
  rw [← htake] at hchunked
  rw [flatMap_def, ← map_congr_left hslices, ← flatMap_def,
    hchunked.flatMap_slice _ hmost le_rfl, Int.toNat_zero, drop_zero]

/-- **The packets are right whenever all of the input is cut.** -/
theorem packetsOf_spec {s : Payloader} {pts : BitVec 64} (hpos : 0 < frameSize)
    (hsize : (data.length : ℤ) = n * frameSize)
    (hchunked : Chunked (maxPayload frameSize) data.length 0 chunks) :
    (∀ p ∈ s.packetsOf frameSize data.length pts data chunks,
        frameSize ∣ (viewAt p.data 12).payload.length) ∧
      (s.packetsOf frameSize data.length pts data chunks).flatMap
        (fun p => (viewAt p.data 12).payload) = data ∧
      (s.packetsOf frameSize data.length pts data chunks).IsChain (Follows frameSize) := by
  have hmost := one_le_maxPayload hpos
  have hwhole : ∀ c ∈ chunks,
      frameSize ∣ c.length ∧ ((c.slice data).length : ℤ) = c.length := by
    intro c hc
    obtain ⟨hoffset, hlength, -, hend⟩ := hchunked.bounds hmost c hc
    exact ⟨dvd_length hpos hsize hchunked hc, Chunk.length_slice hoffset (by omega) hend⟩
  refine ⟨fun p hp => ?_, ?_, ?_⟩
  · have hmem : (viewAt p.data 12).payload ∈ chunks.map fun c => c.slice data := by
      rw [← payloads_packetsOf s pts]
      exact mem_map_of_mem hp
    obtain ⟨c, hc, hpayload⟩ := mem_map.mp hmem
    obtain ⟨hdvd, hlength⟩ := hwhole c hc
    rw [← hpayload, hlength]
    exact hdvd
  · rw [flatMap_packetsOf, flatMap_slice_eq hmost le_rfl hchunked, take_length]
  · apply follows_makeAll hpos
    · rw [pieces, isChain_map]
      exact hchunked.isChain
    · intro c hc
      obtain ⟨c', hc', rfl⟩ := mem_map.mp hc
      exact hwhole c' hc'

variable {s : Payloader} {d : Depayloader}

/-- What the depayloader counts, over all packets. -/
theorem sum_nbSamples {pts : BitVec 64} (hpos : 0 < frameSize) (hint : frameSize < 2 ^ 31)
    (hchunked : Chunked (maxPayload frameSize) data.length 0 chunks) :
    (((s.packetsOf frameSize data.length pts data chunks).map d.samplesOf).map
      fun b => b.nbSamples.toNat).sum =
        (chunks.map fun c => Depayloader.counted d.expectedChannels (c.slice data).length).sum := by
  have hcount : ∀ p ∈ s.packetsOf frameSize data.length pts data chunks,
      (d.samplesOf p).nbSamples.toNat =
        Depayloader.counted d.expectedChannels (viewAt p.data 12).payload.length := by
    intro p hp
    obtain ⟨hloaded, -⟩ := loaded_packetsOf hpos hint hchunked hp
    exact (BitVec.toNat_ofNat _ _).trans
      (Nat.mod_eq_of_lt (Depayloader.counted_lt d.expectedChannels hloaded.most))
  have hchunks : chunks.map (fun c => Depayloader.counted d.expectedChannels (c.slice data).length) =
      ((s.packetsOf frameSize data.length pts data chunks).map
        fun p => (viewAt p.data 12).payload).map
          fun payload => Depayloader.counted d.expectedChannels payload.length := by
    rw [payloads_packetsOf, map_map]
    rfl
  rw [hchunks, map_map, map_map]
  exact congrArg sum (map_congr_left hcount)

theorem roundTrips_iff (hsame : d.expectedChannels = s.channels) (hchannels : 1 ≤ s.channels)
    {bytes : ℕ} (hbytes : bytes = 2 ∨ bytes = 3 ∨ bytes = 4) (hsample : s.bytesPerSample = bytes)
    (h : Carries s.frameSize input data n) :
    s.RoundTrips d input data n ↔ s.frameSize < 2 ^ 31 ∧
      (n = 0 ∨ s.channels * 3 < 2 ^ 31 ∧ s.sampleRate ≠ 0 ∧
        (input.payload = none ∨ data.length < 2 ^ 32) ∧
        CountedRight bytes (min (n : ℤ) (framesPerPacket s.frameSize))) := by
  have hframe : s.frameSize = s.channels * bytes := by rw [frameSize, hsample]
  have hpos : 0 < s.frameSize := by
    rw [hframe]
    exact Int.mul_pos (by omega) (by omega)
  have hmost := one_le_maxPayload hpos
  have hwhole := h.whole
  constructor
  · rintro ⟨turns, s', o, hprocess, -, hdata, -, buffers, hbuffers, -, hsum⟩
    obtain ⟨hint, size, chunks, hinput, hchunked, hrate, hpackets⟩ := process_spec h hpos hprocess
    refine ⟨hint, ?_⟩
    rcases Nat.eq_zero_or_pos n with hzero | hn
    · exact .inl hzero
    · obtain ⟨size', hinput', hle, hall⟩ := h.inputOf hpos hint
      obtain ⟨rfl, -⟩ := Prod.mk.inj (hinput.symm.trans hinput')
      rw [hpackets, flatMap_packetsOf, flatMap_slice_eq hmost hle hchunked,
        take_eq_self_iff] at hdata
      obtain rfl := le_antisymm hle hdata
      have hbytes' : 0 < data.length := by
        have := Int.mul_pos (show 0 < (n : ℤ) by omega) hpos
        omega
      have hchunks : chunks ≠ [] := by
        rintro rfl
        cases hchunked with
        | done hend => omega
      have hsome : s.packetsOf s.frameSize data.length input.pts data chunks ≠ [] := by
        intro hnone
        have := @payloads_packetsOf data data.length chunks s.frameSize s input.pts
        rw [hnone] at this
        exact hchunks (map_eq_nil_iff.mp this.symm)
      obtain ⟨p, hp⟩ := exists_mem_of_ne_nil _ hsome
      have hthree : s.channels * 3 < 2 ^ 31 := by
        by_contra hover
        obtain ⟨fault, hfault⟩ := Depayloader.processAll_fails
          (fun hand => hover (hsame ▸ hand.2)) hp (loaded_packetsOf hpos hint hchunked hp).1
        rw [hpackets, hfault] at hbuffers
        cases hbuffers
      rw [hpackets, Depayloader.processAll_eq (by omega) (by omega) fun p hp =>
        (loaded_packetsOf hpos hint hchunked hp).1] at hbuffers
      obtain rfl := (Except.ok.inj hbuffers).symm
      rw [sum_nbSamples hpos hint hchunked, hsame] at hsum
      rw [hframe] at hwhole hchunked ⊢
      exact .inr ⟨hthree, hrate.resolve_left hchunks, hall.mp rfl,
        (sum_counted_iff hchannels hbytes hn hwhole hchunked).mp hsum⟩
  · rintro ⟨hint, hcase⟩
    obtain ⟨turns, ⟨s', o⟩, hprocess⟩ := process_returns h hpos hint
      (hcase.imp_right fun hand => hand.2.1)
    obtain ⟨-, size, chunks, hinput, hchunked, -, hpackets⟩ := process_spec h hpos hprocess
    obtain ⟨size', hinput', hle, hall⟩ := h.inputOf hpos hint
    obtain ⟨rfl, -⟩ := Prod.mk.inj (hinput.symm.trans hinput')
    have hsize : size = data.length := by
      rcases hcase with rfl | ⟨-, -, hsource, -⟩
      · rw [Nat.cast_zero, zero_mul] at hwhole
        omega
      · exact hall.mpr hsource
    subst hsize
    obtain ⟨hdvd, hflat, hchain⟩ := packetsOf_spec (s := s) hpos hwhole hchunked
    refine ⟨turns, s', o, hprocess, hpackets ▸ hdvd, hpackets ▸ hflat, hpackets ▸ hchain, ?_⟩
    rw [hpackets]
    rcases hcase with rfl | ⟨hthree, -, -, hcounted⟩
    · have hempty : (data.length : ℤ) = 0 := by rw [hwhole, Nat.cast_zero, zero_mul]
      cases hchunked with
      | done => exact ⟨[], rfl, (length_eq_zero_iff.mp (by omega)).symm, rfl⟩
      | chunk hmore => omega
    · refine ⟨_, Depayloader.processAll_eq (by omega) (by omega) fun p hp =>
        (loaded_packetsOf hpos hint hchunked hp).1, ?_, ?_⟩
      · rw [flatMap_map]
        exact hflat
      · rw [sum_nbSamples hpos hint hchunked, hsame]
        rcases Nat.eq_zero_or_pos n with rfl | hn
        · cases hchunked with
          | done => rfl
          | chunk hmore => rw [hwhole, Nat.cast_zero, zero_mul] at hmore; omega
        · rw [hframe] at hwhole hchunked hcounted
          exact (sum_counted_iff hchannels hbytes hn hwhole hchunked).mpr hcounted

/-- The samples of a bit depth. -/
theorem bytesPerSample_eq (hdepth : s.bitDepth = 16 ∨ s.bitDepth = 24 ∨ s.bitDepth = 32) :
    (s.bytesPerSample.toNat = 2 ∨ s.bytesPerSample.toNat = 3 ∨ s.bytesPerSample.toNat = 4) ∧
      s.bytesPerSample = s.bytesPerSample.toNat := by
  rw [bytesPerSample]
  rcases hdepth with hdepth | hdepth | hdepth <;> rw [hdepth] <;> decide

end Payloader

/-- **When samples come back.**  For samples of 16, 24 or 32 bits, any channels and any input of
whole sample frames: the sizes are numbers of the machine, and there is nothing to send, or the
sampling rate can be divided by, the size of an audio frame has 32 bits, and the samples have 24
bits, or 16 with one sample frame in a packet at most, or 32 with two at most. -/
theorem samples_round_trip (s : Payloader) (d : Depayloader)
    (hsame : d.expectedChannels = s.channels) (hchannels : 1 ≤ s.channels)
    (hdepth : s.bitDepth = 16 ∨ s.bitDepth = 24 ∨ s.bitDepth = 32) {input : Input}
    {data : List Byte} {n : ℕ} (h : Payloader.Carries s.frameSize input data n) :
    s.RoundTrips d input data n ↔ s.frameSize < 2 ^ 31 ∧
      (n = 0 ∨ s.channels * 3 < 2 ^ 31 ∧ s.sampleRate ≠ 0 ∧
        (input.payload = none ∨ data.length < 2 ^ 32) ∧
        Payloader.CountedRight s.bytesPerSample.toNat
          (min (n : ℤ) (Payloader.framesPerPacket s.frameSize))) :=
  have hbytes := Payloader.bytesPerSample_eq hdepth
  Payloader.roundTrips_iff hsame hchannels hbytes.1 hbytes.2 h

/-- A payloader for two channels at 48 kHz. -/
def stereo (bitDepth : ℤ) : Payloader where
  channels := 2
  sampleRate := 48000
  bitDepth := bitDepth
  rtpPt := 97
  ssrc := 0x21103000
  seq := 0

/-- A depayloader for the same. -/
def stereoBack : Depayloader where
  expectedChannels := 2
  expectedSampleRate := 48000

/-- Two sample frames of 24 bits. -/
theorem samples_round_trip_stereo :
    (stereo 24).RoundTrips stereoBack ⟨[1, 2, 3, 4, 5, 6, 7, 8, 9, 10, 11, 12], none, 0, false⟩
      [1, 2, 3, 4, 5, 6, 7, 8, 9, 10, 11, 12] 2 :=
  (samples_round_trip (stereo 24) stereoBack rfl (by decide) (by decide)
    ⟨rfl, rfl, .inl ⟨rfl, rfl⟩⟩).mpr (by decide)

/-- Two sample frames of 16 bits are one packet of eight bytes, which is counted for one. -/
theorem stereo_is_miscounted :
    Payloader.Carries (stereo 16).frameSize ⟨[1, 2, 3, 4, 5, 6, 7, 8], none, 0, false⟩
        [1, 2, 3, 4, 5, 6, 7, 8] 2 ∧
      ¬ (stereo 16).RoundTrips stereoBack ⟨[1, 2, 3, 4, 5, 6, 7, 8], none, 0, false⟩
        [1, 2, 3, 4, 5, 6, 7, 8] 2 := by
  have hcarries : Payloader.Carries (stereo 16).frameSize
      ⟨[1, 2, 3, 4, 5, 6, 7, 8], none, 0, false⟩ [1, 2, 3, 4, 5, 6, 7, 8] 2 :=
    ⟨rfl, rfl, .inl ⟨rfl, rfl⟩⟩
  refine ⟨hcarries, ?_⟩
  rw [@Payloader.roundTrips_iff _ _ _ (stereo 16) stereoBack rfl (by decide) 2 (by decide) rfl
    hcarries]
  decide

end Zstreamer.St2110.Audio

/-
# Attaching to the shared memory of another process

`context_connect` finds in a control mapping where the rings are.  It checks the header there
before it believes it.  The other process may change the mapping meanwhile: every load finds
bytes of its own.

What is read is noted down, within the mapping or not.  Sizes are natural numbers, and the sums
and products that the code checks are checked here.
-/

import Zstreamer.Dep.Endpoint
import Zstreamer.Foundation.Bits

namespace Zstreamer.Dep

open Foundation

/-- Bytes of a mapping that are accessed. -/
structure Span where
  offset : ℕ
  bytes : ℕ
  deriving DecidableEq, Repr

/-- They are in a mapping of that length. -/
def Span.Within (span : Span) (length : ℕ) : Prop := span.offset + span.bytes ≤ length

instance (span : Span) (length : ℕ) : Decidable (span.Within length) :=
  inferInstanceAs (Decidable (_ ≤ _))

/-- The control mapping, and what every load finds in it. -/
structure Control where
  length : ℕ
  content : ℕ → ℕ → Byte

/-- A field of four bytes, the least significant first. -/
def Control.word (c : Control) (load offset : ℕ) : ℕ :=
  (be32 (c.content load (offset + 3)) (c.content load (offset + 2)) (c.content load (offset + 1))
    (c.content load offset)).toNat

/-- What `context_connect` uses of `dep_shared_header_t`. -/
structure SharedHeader where
  magic : ℕ
  objectBytes : ℕ
  metadataBytes : ℕ
  flags : ℕ
  txOffset : ℕ
  rxOffset : ℕ
  timingOffset : ℕ
  sampleRate : ℕ
  encoding : ℕ
  samplesPerChannel : ℕ
  bytesPerChannel : ℕ
  txChannels : ℕ
  rxChannels : ℕ
  samplesPerPeriod : ℕ
  periodCount : ℕ
  deriving DecidableEq, Repr

/-- How the header tells that the rings are cut into periods. -/
def SharedHeader.metadata (h : SharedHeader) : Metadata :=
  ⟨h.sampleRate, h.samplesPerChannel, h.samplesPerPeriod⟩

/-- `sizeof(dep_shared_header_t)`. -/
def headerBytes : ℕ := 104

/-- `DEP_TIMING_NAME_CAPACITY`. -/
def timingNameCapacity : ℕ := 256

/-- `sizeof(dep_timing_descriptor_t)`. -/
def descriptorSize : ℕ := 8 + timingNameCapacity

/-- `DEP_HEADER_MAGIC`. -/
def headerMagic : ℕ := 0x50525354

/-- `DEP_ENCODING_PCM32`. -/
def encodingPcm32 : ℕ := 32

/-- `DEP_TIMING_SIGNAL_EVENT`. -/
def timingSignalEvent : ℕ := 1

/-- Where the header has the field `reset_serial`. -/
def resetSerialOffset : ℕ := 28

/-- The header is copied. -/
def Control.header (c : Control) (load : ℕ) : SharedHeader where
  magic := c.word load 0
  objectBytes := c.word load 4
  metadataBytes := c.word load 8
  flags := c.word load 12
  txOffset := c.word load 16
  rxOffset := c.word load 20
  timingOffset := c.word load 24
  sampleRate := c.word load 32
  encoding := c.word load 36
  samplesPerChannel := c.word load 40
  bytesPerChannel := c.word load 44
  txChannels := c.word load 48
  rxChannels := c.word load 52
  samplesPerPeriod := c.word load 72
  periodCount := c.word load 80 + 2 ^ 32 * c.word load 84

/-- `flags & DEP_LAYOUT_SEPARATE`. -/
def SharedHeader.Separate (h : SharedHeader) : Prop := h.flags % 2 = 1

instance (h : SharedHeader) : Decidable h.Separate := inferInstanceAs (Decidable (_ = _))

/-- `add_size`. -/
def addSize (a b : ℕ) : Option ℕ := if a > uint64Max - b then none else some (a + b)

/-- `mul_size`. -/
def mulSize (a b : ℕ) : Option ℕ :=
  if a ≠ 0 ∧ b > uint64Max / a then none else some (a * b)

/-- `region_valid`. -/
def regionValid (length offset bytes : ℕ) : Bool :=
  match addSize offset bytes with
  | none => false
  | some last => last ≤ length

/-- `channel_region_valid`. -/
def channelRegionValid (length offset channels bytesPerChannel : ℕ) : Bool :=
  match mulSize channels bytesPerChannel with
  | none => false
  | some bytes => regionValid length offset bytes

/-- The mappings and the semaphore that can be opened. -/
structure Attachable where
  control : Option Control
  /-- The lengths of the mappings of a separate layout. -/
  tx : Option ℕ
  rx : Option ℕ
  semaphore : Bool

/-- What a context has when it is connected. -/
structure Connection where
  metadata : SharedHeader
  txLength : ℕ
  rxLength : ℕ
  nextPeriod : ℕ
  resetSerial : ℕ
  fallbackSamples : ℕ
  ptsOriginSet : Bool
  deriving DecidableEq, Repr

namespace Control

variable (c : Control)

/-- What the header is refused for. -/
def RefusesHeader : Prop :=
  let before := c.word 0 resetSerialOffset
  let after := c.word 3 resetSerialOffset
  let snapshot := c.header 2
  after ≠ before ∨ after % 2 ≠ 0 ∨ c.word 1 0 ≠ headerMagic ∨ c.word 4 0 ≠ headerMagic ∨
    snapshot.magic ≠ headerMagic ∨ snapshot.objectBytes < headerBytes ∨
    (¬ snapshot.Separate ∧ snapshot.objectBytes > c.length) ∨
    snapshot.metadataBytes < headerBytes ∨ snapshot.metadataBytes > snapshot.objectBytes ∨
    snapshot.metadataBytes > c.length ∨ snapshot.encoding ≠ encodingPcm32 ∨
    snapshot.sampleRate = 0 ∨ snapshot.samplesPerChannel = 0 ∨ snapshot.samplesPerPeriod = 0 ∨
    snapshot.samplesPerPeriod > snapshot.samplesPerChannel ∨
    snapshot.bytesPerChannel ≠ snapshot.samplesPerChannel * 4 ∨ snapshot.timingOffset = 0 ∨
    regionValid snapshot.objectBytes snapshot.timingOffset descriptorSize = false

instance : Decidable c.RefusesHeader :=
  inferInstanceAs (Decidable (_ ∨ _))

/-- What the descriptor of the timing signal is refused for. -/
def RefusesDescriptor : Prop :=
  let before := c.word 0 resetSerialOffset
  let after := c.word 6 resetSerialOffset
  let snapshot := c.header 2
  after ≠ before ∨ after % 2 ≠ 0 ∨ c.word 7 0 ≠ headerMagic ∨
    c.word 5 snapshot.timingOffset < descriptorSize ∨
    regionValid snapshot.objectBytes snapshot.timingOffset (c.word 5 snapshot.timingOffset)
      = false ∨
    c.word 5 (snapshot.timingOffset + 4) ≠ timingSignalEvent ∨
    ∀ i, i < timingNameCapacity → c.content 5 (snapshot.timingOffset + 8 + i) ≠ 0

instance : Decidable c.RefusesDescriptor :=
  inferInstanceAs (Decidable (_ ∨ _))

end Control

/-- The two loads of a serial number and a magic number. -/
def serialSpans : List Span := [⟨resetSerialOffset, 4⟩, ⟨0, 4⟩]

/-- `context_connect`, and what it reads of the control mapping. -/
def contextConnect (a : Attachable) : List Span × Option Connection :=
  match a.control with
  | none => ([], none)
  | some c =>
      if c.length < headerBytes then ([], none)
      else if c.word 0 resetSerialOffset % 2 ≠ 0 then (serialSpans, none)
      else
        let snapshot := c.header 2
        let reads := serialSpans ++ [⟨0, headerBytes⟩] ++ serialSpans
        if c.RefusesHeader then (reads, none)
        else
          let reads := reads ++ [⟨snapshot.timingOffset, descriptorSize⟩] ++ serialSpans
          if c.RefusesDescriptor then (reads, none)
          else
            let txMap := if snapshot.Separate then a.tx else some c.length
            let rxMap := if snapshot.Separate then a.rx else some c.length
            match txMap, rxMap with
            | some txLength, some rxLength =>
                if channelRegionValid txLength snapshot.txOffset snapshot.txChannels
                      snapshot.bytesPerChannel = false ∨
                    channelRegionValid rxLength snapshot.rxOffset snapshot.rxChannels
                      snapshot.bytesPerChannel = false ∨
                    a.semaphore = false then (reads, none)
                else
                  (reads, some
                    { metadata := snapshot
                      txLength := txLength
                      rxLength := rxLength
                      nextPeriod := snapshot.periodCount
                      resetSerial := c.word 6 resetSerialOffset
                      fallbackSamples := 0
                      ptsOriginSet := false })
            | _, _ => (reads, none)

/-- A sample of a plane. -/
def planeSpan (first bytesPerChannel plane sample : ℕ) : Span :=
  ⟨first + plane * bytesPerChannel + sample * 4, 4⟩

namespace Endpoint

/-- `endpoint_channels_valid`. -/
def ChannelsValid (ep : Endpoint) (h : SharedHeader) : Prop :=
  ∀ channel ∈ ep.channelMap,
    channel < match ep.direction with
      | .rx => h.rxChannels
      | .tx => h.txChannels

/-- What `receive_period` reads for a frame and a channel. -/
def receiveSpan (ep : Endpoint) (h : SharedHeader) (period i c : ℕ) : Span :=
  planeSpan h.rxOffset h.bytesPerChannel (ep.channelMap.getD c 0) (h.metadata.ringSample period i)

/-- What `receive_period` reads of the rings. -/
def receiveSpans (ep : Endpoint) (h : SharedHeader) (period : ℕ) : List Span :=
  (List.range h.samplesPerPeriod).flatMap fun i =>
    (List.range ep.channelCount).map (ep.receiveSpan h period i)

/-- What `transmit_period` writes of the rings. -/
def transmitSpans (ep : Endpoint) (h : SharedHeader) (period : ℕ) : List Span :=
  (ep.transmitPeriod h.metadata period).2.map fun w =>
    planeSpan h.txOffset h.bytesPerChannel w.plane w.position

end Endpoint

/-! ## What is checked -/

theorem le_of_regionValid {length offset bytes : ℕ} (h : regionValid length offset bytes = true) :
    offset + bytes ≤ length := by
  rw [regionValid] at h
  split at h
  case h_1 => cases h
  case h_2 last hlast =>
      obtain ⟨-, hlast⟩ := Option.ite_none_left_eq_some.mp hlast
      cases hlast
      exact of_decide_eq_true h

theorem le_of_channelRegionValid {length offset channels bytesPerChannel : ℕ}
    (h : channelRegionValid length offset channels bytesPerChannel = true) :
    offset + channels * bytesPerChannel ≤ length := by
  rw [channelRegionValid] at h
  split at h
  case h_1 => cases h
  case h_2 bytes hbytes =>
      obtain ⟨-, hbytes⟩ := Option.ite_none_left_eq_some.mp hbytes
      cases hbytes
      exact le_of_regionValid h

/-- What a connection has passed. -/
structure Connection.Checked (conn : Connection) : Prop where
  samples : 0 < conn.metadata.samplesPerChannel
  bytes : conn.metadata.bytesPerChannel = conn.metadata.samplesPerChannel * 4
  tx : conn.metadata.txOffset + conn.metadata.txChannels * conn.metadata.bytesPerChannel ≤
    conn.txLength
  rx : conn.metadata.rxOffset + conn.metadata.rxChannels * conn.metadata.bytesPerChannel ≤
    conn.rxLength

/-- **A connection has been checked.** -/
theorem contextConnect_checked {a : Attachable} {conn : Connection}
    (h : (contextConnect a).2 = some conn) : conn.Checked := by
  rw [contextConnect] at h
  split at h
  case h_1 => cases h
  case h_2 c _ =>
    split at h
    case isTrue => cases h
    case isFalse =>
    split at h
    case isTrue => cases h
    case isFalse =>
    dsimp only at h
    split at h
    case isTrue => cases h
    case isFalse hheader =>
    split at h
    case isTrue => cases h
    case isFalse =>
    split at h
    case h_2 => cases h
    case h_1 txLength rxLength _ _ =>
    split at h
    case isTrue => cases h
    case isFalse hregions =>
      cases h
      obtain ⟨htx, hregions⟩ := not_or.mp hregions
      obtain ⟨hrx, -⟩ := not_or.mp hregions
      have hsamples : (c.header 2).samplesPerChannel ≠ 0 := fun hzero =>
        hheader (by simp only [Control.RefusesHeader, hzero, true_or, or_true])
      have hbytes : (c.header 2).bytesPerChannel = (c.header 2).samplesPerChannel * 4 := by
        by_contra hne
        exact hheader (by simp only [Control.RefusesHeader, ne_eq, hne, not_false_iff, true_or,
          or_true])
      exact ⟨Nat.pos_of_ne_zero hsamples, hbytes,
        le_of_channelRegionValid (Bool.eq_true_of_not_eq_false htx),
        le_of_channelRegionValid (Bool.eq_true_of_not_eq_false hrx)⟩

/-- A sample of a plane that has been checked. -/
theorem planeSpan_within {first bytesPerChannel channels samples length plane sample : ℕ}
    (hbytes : bytesPerChannel = samples * 4) (hplane : plane < channels)
    (hsample : sample < samples)
    (hlength : first + channels * bytesPerChannel ≤ length) :
    (planeSpan first bytesPerChannel plane sample).Within length := by
  have hnext : (plane + 1) * bytesPerChannel ≤ channels * bytesPerChannel :=
    Nat.mul_le_mul_right _ hplane
  rw [Nat.succ_mul] at hnext
  show first + plane * bytesPerChannel + sample * 4 + 4 ≤ length
  omega

/-- Every plane access of an endpoint is in its mapping. -/
def Connection.Confines (conn : Connection) : Prop :=
  ∀ ep : Endpoint, ep.ChannelsValid conn.metadata → ∀ period,
    (ep.direction = .rx →
      ∀ span ∈ ep.receiveSpans conn.metadata period, span.Within conn.rxLength) ∧
    (ep.direction = .tx →
      ∀ span ∈ ep.transmitSpans conn.metadata period, span.Within conn.txLength)

/-- **The planes of a connection** hold every sample that is read or written. -/
theorem Connection.Checked.confines {conn : Connection} (h : conn.Checked) : conn.Confines := by
  intro ep hvalid period
  have hchannel : ∀ c, c < ep.channelCount → ep.channelMap.getD c 0 ∈ ep.channelMap := by
    intro c hc
    rw [List.getD_eq_getElem _ _ hc]
    exact List.getElem_mem hc
  refine ⟨fun hrx span hmem => ?_, fun htx span hmem => ?_⟩
  · obtain ⟨i, -, hmem⟩ := List.mem_flatMap.mp hmem
    obtain ⟨c, hc, rfl⟩ := List.mem_map.mp hmem
    have hplane := hvalid _ (hchannel c (List.mem_range.mp hc))
    rw [hrx] at hplane
    exact planeSpan_within h.bytes hplane (Nat.mod_lt _ h.samples) h.rx
  · obtain ⟨w, hw, rfl⟩ := List.mem_map.mp hmem
    obtain ⟨i, -, hw⟩ := List.mem_flatMap.mp hw
    obtain ⟨c, hc, rfl⟩ := List.mem_map.mp hw
    have hplane := hvalid _ (hchannel c (List.mem_range.mp hc))
    rw [htx] at hplane
    exact planeSpan_within h.bytes hplane (Nat.mod_lt _ h.samples) h.tx

/-! ## What is read of the control mapping -/

/-- The header passes, the layout is separate, and the descriptor of the timing signal is not in the
control mapping. -/
def Control.DescriptorOutside (c : Control) : Prop :=
  headerBytes ≤ c.length ∧ c.word 0 resetSerialOffset % 2 = 0 ∧ ¬ c.RefusesHeader ∧
    (c.header 2).Separate ∧ c.length < (c.header 2).timingOffset + descriptorSize

/-- All accesses are inside the mapping that is accessed. -/
def Attachable.Confined (a : Attachable) : Prop :=
  (∀ c, a.control = some c → ∀ span ∈ (contextConnect a).1, span.Within c.length) ∧
    ∀ conn, (contextConnect a).2 = some conn → conn.Confines

/-- What is read: the header, and the descriptor when the header has passed. -/
theorem mem_reads_iff {a : Attachable} {c : Control} (hcontrol : a.control = some c) {span : Span}
    (hspan : ¬ span.Within headerBytes) :
    span ∈ (contextConnect a).1 ↔ headerBytes ≤ c.length ∧ c.word 0 resetSerialOffset % 2 = 0 ∧
      ¬ c.RefusesHeader ∧ span = ⟨(c.header 2).timingOffset, descriptorSize⟩ := by
  have hserial : span ∉ serialSpans := by
    intro hmem
    refine hspan ?_
    rcases List.mem_cons.mp hmem with rfl | hmem
    · decide
    · cases List.mem_singleton.mp hmem
      decide
  have hheader : span ≠ ⟨0, headerBytes⟩ := by
    rintro rfl
    exact hspan (by decide)
  rw [contextConnect, hcontrol]
  dsimp only
  split
  case isTrue hshort =>
    exact iff_of_false List.not_mem_nil fun hand => absurd hand.1 (Nat.not_le_of_lt hshort)
  case isFalse hlong =>
  split
  case isTrue hodd => exact iff_of_false hserial fun hand => hodd hand.2.1
  case isFalse heven =>
  split
  case isTrue hrefused =>
    refine iff_of_false (fun hmem => ?_) fun hand => hand.2.2.1 hrefused
    simp only [List.mem_append, List.mem_singleton, hserial, hheader, or_self] at hmem
  case isFalse hpassed =>
    have hreads : span ∈ serialSpans ++ [⟨0, headerBytes⟩] ++ serialSpans ++
        [⟨(c.header 2).timingOffset, descriptorSize⟩] ++ serialSpans ↔
        headerBytes ≤ c.length ∧ c.word 0 resetSerialOffset % 2 = 0 ∧ ¬ c.RefusesHeader ∧
          span = ⟨(c.header 2).timingOffset, descriptorSize⟩ := by
      simp only [List.mem_append, List.mem_singleton, hserial, hheader, or_self, false_or, or_false,
        Nat.le_of_not_lt hlong, not_not.mp heven, hpassed, not_false_eq_true, true_and]
    split
    case isTrue => exact hreads
    case isFalse =>
    split
    case h_2 => exact hreads
    case h_1 =>
    split
    case isTrue => exact hreads
    case isFalse => exact hreads

/-- **Attaching stays inside the mappings** if and only if the descriptor of a separate layout is in
the control mapping, or is not read at all. -/
theorem confined_iff (a : Attachable) :
    a.Confined ↔ ∀ c, a.control = some c → ¬ c.DescriptorOutside := by
  constructor
  · rintro ⟨hreads, -⟩ c hcontrol ⟨hlong, heven, hpassed, -, houtside⟩
    have hspan : ¬ Span.Within ⟨(c.header 2).timingOffset, descriptorSize⟩ headerBytes :=
      fun hin => Nat.not_le_of_lt houtside (hin.trans hlong)
    have hmem := (mem_reads_iff hcontrol hspan).mpr ⟨hlong, heven, hpassed, rfl⟩
    exact Nat.not_le_of_lt houtside (hreads c hcontrol _ hmem)
  · refine fun hinside => ⟨fun c hcontrol span hmem => ?_, fun conn hconn =>
      (contextConnect_checked hconn).confines⟩
    by_cases hspan : span.Within headerBytes
    · have hlong : headerBytes ≤ c.length := by
        by_contra hshort
        rw [contextConnect, hcontrol] at hmem
        dsimp only at hmem
        rw [if_pos (Nat.lt_of_not_le hshort)] at hmem
        cases hmem
      exact hspan.trans hlong
    · obtain ⟨hlong, heven, hpassed, rfl⟩ := (mem_reads_iff hcontrol hspan).mp hmem
      by_contra houtside
      refine hinside c hcontrol ⟨hlong, heven, hpassed, ?_, Nat.lt_of_not_le houtside⟩
      -- the other layout keeps the descriptor inside the object, and that inside the mapping
      by_contra htogether
      have hobject : (c.header 2).objectBytes ≤ c.length := by
        by_contra hmore
        exact hpassed (by
          simp only [Control.RefusesHeader, htogether, not_false_eq_true, true_and,
            Nat.lt_of_not_le hmore, gt_iff_lt, true_or, or_true])
      have hregion : regionValid (c.header 2).objectBytes (c.header 2).timingOffset
          descriptorSize = true := by
        by_contra hbad
        exact hpassed (by simp only [Control.RefusesHeader, hbad, or_true])
      exact houtside ((le_of_regionValid hregion).trans hobject)

/-- A control mapping that is only a header, of a separate layout: the descriptor is said to follow
the header, and the object to have 1000 bytes. -/
def headerOnly : Control where
  length := headerBytes
  content := fun _ i =>
    BitVec.ofNat 8 (List.getD [headerMagic, 1000, 104, 1, 0, 0, 104, 0, 48000, 32, 4, 16, 2, 2, 0,
      0, 0, 0, 2] (i / 4) 0 / 256 ^ (i % 4))

/-- **The descriptor is read behind the end of the mapping.** -/
theorem headerOnly_not_confined :
    ¬ Attachable.Confined ⟨some headerOnly, some 32, some 32, true⟩ := by
  rintro ⟨hreads, -⟩
  have hmem : (⟨104, descriptorSize⟩ : Span) ∈
      (contextConnect ⟨some headerOnly, some 32, some 32, true⟩).1 := by decide +kernel
  exact absurd (hreads headerOnly rfl _ hmem) (by decide)

end Zstreamer.Dep

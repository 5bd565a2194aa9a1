/-
# When the payloaders respect the mtu

The ST 2110-21 payloader takes any integer for its mtu, divides by what the mtu leaves
behind the fixed header, and has no guard in its senders.  Every NAL unit that does not
fit needs room for a fragment, and the estimate of the number of packets needs a divisor.
-/

import Zstreamer.Rtp.Mtu
import Zstreamer.St2110.Payloader

namespace Zstreamer.St2110

open Foundation Rtp

namespace Payloader

/-! ## The estimate -/

/-- The number of packets can be estimated, and divided by. -/
def Estimates (s : Payloader) (size : ℤ) : Prop :=
  -2 ^ 31 ≤ s.room ∧ s.room ≠ 0 ∧ size.tdiv s.room + 1 < 2 ^ 31 ∧ size.tdiv s.room + 1 ≠ 0

instance (s : Payloader) (size : ℤ) : Decidable (s.Estimates size) :=
  inferInstanceAs (Decidable (_ ∧ _))

theorem numPackets_eq_ok {s : Payloader} {size : ℤ} (h : s.Estimates size) :
    s.numPackets size = .ok (size.tdiv s.room + 1) := by
  obtain ⟨hlow, hroom, hhigh, hzero⟩ := h
  rw [numPackets, if_neg (not_lt.mpr hlow), if_neg hroom, if_neg (not_le.mpr hhigh), if_neg hzero]

theorem numPackets_eq_error {s : Payloader} {size : ℤ} (h : ¬ s.Estimates size) :
    ∃ fault, s.numPackets size = .error fault := by
  rw [numPackets]
  split
  · exact ⟨_, rfl⟩
  · rename_i hlow
    split
    · exact ⟨_, rfl⟩
    · rename_i hroom
      split
      · exact ⟨_, rfl⟩
      · rename_i hhigh
        split
        · exact ⟨_, rfl⟩
        · rename_i hzero
          exact absurd ⟨not_lt.mp hlow, hroom, not_le.mp hhigh, hzero⟩ h

/-! ## NAL units -/

/-- The NAL unit fits and its length is not negative, or it is there and is only a header, or
there is room for a fragment. -/
def NalFits (s : Payloader) (nal : List Byte) (len : ℤ) : Prop :=
  if len ≤ s.room then 0 ≤ len
  else nal ≠ [] ∧ (len ≤ s.layout.nalHeader ∨ s.layout.headerLen < s.room)

instance (s : Payloader) (nal : List Byte) (len : ℤ) : Decidable (s.NalFits nal len) :=
  inferInstanceAs (Decidable (if len ≤ s.room then 0 ≤ len
    else nal ≠ [] ∧ (len ≤ s.layout.nalHeader ∨ s.layout.headerLen < s.room)))

theorem sendNal_fits {s : Payloader} {nal : List Byte} {len : ℤ} (hfits : s.NalFits nal len)
    {turns : ℕ} (hturns : nal.length ≤ turns) (timestamp : BitVec 32) (marker : Bool) :
    ∃ requests, s.sendNal turns nal len timestamp marker = .ok requests ∧
      ∀ r ∈ requests, (r.size : ℤ) ≤ s.room := by
  have htake : (nal.take len.toNat).length ≤ turns :=
    (List.length_take_le' _ _).trans hturns
  rw [NalFits] at hfits
  rw [sendNal]
  split at hfits
  · rename_i hwhole
    refine ⟨_, by rw [if_pos hwhole, if_neg (not_lt.mpr hfits)], fun r hr => ?_⟩
    obtain rfl := List.mem_singleton.mp hr
    rw [Request.size, List.length_nil, List.length_take]
    omega
  · rename_i hlong
    obtain ⟨hnal, hcase⟩ := hfits
    rw [if_neg hlong, if_neg hnal]
    by_cases hheader : len ≤ s.layout.nalHeader
    · exact ⟨[], by rw [if_pos hheader], List.forall_mem_nil _⟩
    · have hroom := hcase.resolve_left hheader
      obtain ⟨requests, hloop, hsize⟩ :=
        @fragmentLoop_ends s.layout _ _ timestamp marker hroom turns htake
      have hchunk : ¬ (nextChunk (s.room - s.layout.headerLen) len s.layout.nalHeader).length < 0 := by
        rw [nextChunk_length]
        omega
      exact ⟨requests, by rw [if_neg hheader, if_neg hchunk, hloop], hsize⟩

theorem sendNal_faults {s : Payloader} {nal : List Byte} {len : ℤ} (hlen : len ≤ nal.length)
    (hfits : ¬ s.NalFits nal len) (turns : ℕ) (timestamp : BitVec 32) (marker : Bool) :
    ∃ fault, s.sendNal turns nal len timestamp marker = .error fault := by
  rw [NalFits] at hfits
  rw [sendNal]
  split at hfits
  · rename_i hwhole
    exact ⟨_, by rw [if_pos hwhole, if_pos (not_le.mp hfits)]⟩
  · rename_i hlong
    rw [if_neg hlong]
    split
    · exact ⟨_, rfl⟩
    · rename_i hnal
      obtain ⟨hheader, hroom⟩ := not_or.mp (not_and.mp hfits hnal)
      rw [if_neg hheader]
      split
      · exact ⟨_, rfl⟩
      · have hunit : s.layout.nalHeader < (nal.take len.toNat).length := by
          rw [List.length_take]
          omega
        rw [fragmentLoop_endless (not_lt.mp hroom) hunit]
        exact ⟨_, rfl⟩

theorem sendUnits_fits {s : Payloader} {units : List (List Byte × Bool)}
    (hfits : ∀ unit ∈ units, s.NalFits unit.1 unit.1.length) {turns : ℕ}
    (hturns : ∀ unit ∈ units, unit.1.length ≤ turns) (timestamp : BitVec 32) :
    ∃ requests, s.sendUnits turns timestamp units = .ok requests ∧
      ∀ r ∈ requests, (r.size : ℤ) ≤ s.room := by
  induction units with
  | nil => exact ⟨[], rfl, nofun⟩
  | cons unit units ih =>
      obtain ⟨one, hone, hsize⟩ := sendNal_fits (hfits unit List.mem_cons_self)
        (hturns unit List.mem_cons_self) timestamp unit.2
      obtain ⟨rest, hrest, hsizes⟩ := ih
        (fun other hother => hfits other (List.mem_cons_of_mem unit hother))
        (fun other hother => hturns other (List.mem_cons_of_mem unit hother))
      refine ⟨one ++ rest, by rw [sendUnits, hone, hrest]; rfl, fun r hr => ?_⟩
      rcases List.mem_append.mp hr with hr | hr
      · exact hsize r hr
      · exact hsizes r hr

theorem sendUnits_faults {s : Payloader} {units : List (List Byte × Bool)}
    {unit : List Byte × Bool} (hunit : unit ∈ units)
    (hfits : ¬ s.NalFits unit.1 unit.1.length) (turns : ℕ) (timestamp : BitVec 32) :
    ∃ fault, s.sendUnits turns timestamp units = .error fault := by
  induction units with
  | nil => cases hunit
  | cons first units ih =>
      rw [sendUnits]
      cases hfirst : s.sendNal turns first.1 first.1.length timestamp first.2 with
      | error fault => exact ⟨fault, rfl⟩
      | ok one =>
          rcases List.mem_cons.mp hunit with rfl | hrest
          · obtain ⟨fault, hfault⟩ := sendNal_faults le_rfl hfits turns timestamp unit.2
            rw [hfault] at hfirst
            cases hfirst
          · obtain ⟨fault, hfault⟩ := ih hrest
            exact ⟨fault, by rw [hfault]; rfl⟩

/-! ## The condition -/

/-- The number of packets can be estimated, and every NAL unit of the bytes that the size
counts, or without a start code all of these bytes, fits. -/
def Fits (s : Payloader) (data : List Byte) : Prop :=
  s.Estimates (intSize data) ∧
    match findStartCode (data.take (intSize data).toNat) with
    | none => s.NalFits data (intSize data)
    | some _ => ∀ unit ∈ nalUnits (data.take (intSize data).toNat), s.NalFits unit.1 unit.1.length

instance (s : Payloader) (data : List Byte) : Decidable (s.Fits data) :=
  match h : findStartCode (data.take (intSize data).toNat) with
  | none => decidable_of_iff (s.Estimates (intSize data) ∧ s.NalFits data (intSize data))
      (by rw [Fits, h])
  | some _ => decidable_of_iff (s.Estimates (intSize data) ∧
      ∀ unit ∈ nalUnits (data.take (intSize data).toNat), s.NalFits unit.1 unit.1.length)
      (by rw [Fits, h])

/-- The call ends without a fault, and every packet is within the mtu. -/
def Respects (s : Payloader) (buf : Rtp.Buffer) : Prop :=
  ∃ turns s' packets, s.process turns buf = .ok (s', packets) ∧
    ∀ p ∈ packets, (p.data.length : ℤ) ≤ s.mtu.toInt

theorem intSize_le (data : List Byte) : intSize data ≤ data.length := by
  have hle : ((BitVec.ofNat 32 data.length).toNat : ℤ) ≤ data.length := by
    rw [BitVec.toNat_ofNat]
    exact_mod_cast Nat.mod_le _ _
  rw [intSize, BitVec.toInt_eq_toNat_cond]
  split <;> omega

theorem exists_request_of_mem_makeAll {pts : BitVec 64} {requests : List Request} {s : Payloader}
    {p : Packet} (hp : p ∈ (makeAll pts requests s).2) :
    ∃ r ∈ requests, p.data.length = r.size + 12 := by
  induction requests generalizing s with
  | nil => cases hp
  | cons r requests ih =>
      rcases List.mem_cons.mp hp with rfl | hrest
      · refine ⟨r, List.mem_cons_self, ?_⟩
        rw [makePacket, List.length_append, List.length_append, Header.length_bytes, Request.size]
        omega
      · obtain ⟨r', hr', hlength⟩ := ih hrest
        exact ⟨r', List.mem_cons_of_mem r hr', hlength⟩

theorem packetize_eq {s : Payloader} {buf : Rtp.Buffer} (h : s.Estimates (intSize buf.data))
    (turns : ℕ) :
    s.packetize turns buf =
      match findStartCode (buf.data.take (intSize buf.data).toNat) with
      | none => s.sendNal turns buf.data (intSize buf.data) (ptsToRtpTs buf.pts 90000) true
      | some _ => s.sendUnits turns (ptsToRtpTs buf.pts 90000)
          (nalUnits (buf.data.take (intSize buf.data).toNat)) := by
  rw [packetize, numPackets_eq_ok h]
  rfl

theorem packetize_fits {s : Payloader} {buf : Rtp.Buffer} (h : s.Fits buf.data) :
    ∃ turns requests, s.packetize turns buf = .ok requests ∧
      ∀ r ∈ requests, (r.size : ℤ) ≤ s.room := by
  obtain ⟨hestimate, hfits⟩ := h
  split at hfits
  · rename_i hcode
    obtain ⟨requests, hsend, hsize⟩ := sendNal_fits hfits le_rfl (ptsToRtpTs buf.pts 90000) true
    exact ⟨_, requests, by rw [packetize_eq hestimate, hcode]; exact hsend, hsize⟩
  · rename_i hcode
    obtain ⟨turns, hturns⟩ := Rtp.Payloader.exists_turns
      (nalUnits (buf.data.take (intSize buf.data).toNat))
    obtain ⟨requests, hsend, hsize⟩ := sendUnits_fits hfits hturns (ptsToRtpTs buf.pts 90000)
    exact ⟨turns, requests, by rw [packetize_eq hestimate, hcode]; exact hsend, hsize⟩

theorem packetize_faults {s : Payloader} {buf : Rtp.Buffer} (h : ¬ s.Fits buf.data) (turns : ℕ) :
    ∃ fault, s.packetize turns buf = .error fault := by
  by_cases hestimate : s.Estimates (intSize buf.data)
  · have hfits := not_and.mp h hestimate
    rw [packetize_eq hestimate]
    split at hfits
    · exact sendNal_faults (intSize_le _) hfits turns _ true
    · push Not at hfits
      obtain ⟨unit, hunit, hfits⟩ := hfits
      exact sendUnits_faults hunit hfits turns _
  · obtain ⟨fault, hfault⟩ := numPackets_eq_error hestimate
    exact ⟨fault, by rw [packetize, hfault]; rfl⟩

theorem respects_iff (s : Payloader) (buf : Rtp.Buffer) : s.Respects buf ↔ s.Fits buf.data := by
  constructor
  · rintro ⟨turns, s', packets, hprocess, -⟩
    by_contra hfits
    obtain ⟨fault, hfault⟩ := packetize_faults hfits turns
    rw [process, hfault] at hprocess
    cases hprocess
  · intro hfits
    obtain ⟨turns, requests, hpacketize, hsize⟩ := packetize_fits hfits
    refine ⟨turns, _, _, by rw [process, hpacketize]; rfl, fun p hp => ?_⟩
    obtain ⟨r, hr, hlength⟩ := exists_request_of_mem_makeAll hp
    have := hsize r hr
    rw [room] at this
    omega

end Payloader

/-! ## Both payloaders -/

/-- **When the payloaders respect the mtu.**  The RTP payloader, for every mtu that can be set:
the buffer sends nothing, or the mtu leaves room for the fragments of every NAL unit that does
not fit, or for the headers in front of audio.  The ST 2110-21 payloader: the packets can be
estimated, and there is room for the fragments of every NAL unit that does not fit. -/
theorem payloaders_respect_the_mtu (buf : Rtp.Buffer) :
    (∀ s : Rtp.Payloader, 4 ≤ s.mtu → s.mtu ≤ maxPayload →
      (s.Respects buf ↔ buf.eos = true ∨ buf.data = [] ∨ int32Max < buf.data.length ∨
        s.Fits buf.data)) ∧
    ∀ s : Payloader, s.Respects buf ↔ s.Fits buf.data :=
  ⟨fun _ hlow hhigh => Rtp.Payloader.respects_iff hlow hhigh buf,
    fun s => Payloader.respects_iff s buf⟩

/-- An RTP payloader for H.264 with its defaults and the given mtu. -/
def rtppay (mtu : ℤ) : Rtp.Payloader where
  codec := .h264
  payloadType := 96
  ssrc := 0x12345678
  seq := 1
  clockRate := 90000
  mtu := mtu
  channels := 2
  sampleSize := 2
  packets := 0
  bytes := 0
  extSeqNum := 0
  strictMtu := false

/-- An ST 2110-21 payloader for H.264 with its defaults and the given mtu. -/
def st2110pay (mtu : BitVec 32) : Payloader where
  mtu := mtu
  rtpPt := 96
  ssrc := 0x21102100
  seq := 0
  extSeqNum := 0
  isH265 := false

/-- A NAL unit of five bytes behind a start code. -/
def slice : Rtp.Buffer where
  data := [0, 0, 0, 1, 0x65, 0x88, 0x84, 0x00, 0x33]
  pts := 0
  eos := false

theorem payloaders_respect_the_mtu_slice :
    (rtppay 15).Respects slice ∧ (st2110pay 15).Respects slice := by
  obtain ⟨hrtp, hst2110⟩ := payloaders_respect_the_mtu slice
  exact ⟨(hrtp (rtppay 15) (by decide) (by decide)).mpr (by decide +kernel),
    (hst2110 (st2110pay 15)).mpr (by decide +kernel)⟩

/-- A fragment of two bytes has room for its headers only, and the loop sends it for ever; and
the other payloader divides by zero with an mtu that has room for the fixed header only. -/
theorem slice_breaks_payloaders :
    (4 ≤ (rtppay 14).mtu ∧ (rtppay 14).mtu ≤ maxPayload ∧ ¬ (rtppay 14).Respects slice ∧
      ∀ turns, (rtppay 14).push turns slice = none) ∧
    ¬ (st2110pay 12).Respects slice ∧
      ∀ turns, (st2110pay 12).process turns slice = .error .divisionByZero := by
  have hfits : ¬ Rtp.Payloader.NalFits layoutH264 (rtppay 14).mtu [0x65, 0x88, 0x84, 0x00, 0x33] := by decide
  have hunit : ([0x65, 0x88, 0x84, 0x00, 0x33], true) ∈ nalUnits slice.data := by decide +kernel
  refine ⟨⟨by decide, by decide, ?_, fun turns => ?_⟩, ?_, fun turns => rfl⟩
  · rw [Rtp.Payloader.respects_iff (by decide) (by decide)]
    decide +kernel
  · have hendless : (rtppay 14).packetize turns slice = none :=
      Rtp.Payloader.sendUnits_endless hunit hfits turns _
    rw [Rtp.Payloader.push, hendless]
    rfl
  · rw [Payloader.respects_iff]
    decide +kernel

end Zstreamer.St2110

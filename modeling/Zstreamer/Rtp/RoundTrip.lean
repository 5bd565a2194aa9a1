/-
# Packets that arrive

What the depayloader makes of the packets of a list of access units, whichever of them
arrive and in whatever order, is what the abstract receiver makes of their pieces.  When
all of them arrive in order, every access unit comes back.
-/

import Mathlib.Data.List.Range
import Zstreamer.Rtp.Receiver

namespace Zstreamer.Rtp

open Foundation Payloader List

/-- What arrives, by its positions. -/
def arriving {α : Type*} (sent : List α) (arrivals : List ℕ) : List α :=
  arrivals.filterMap fun i => sent[i]?

/-- What arrives in order is all that was sent. -/
theorem arriving_range' {α : Type*} (front sent : List α) :
    arriving (front ++ sent) (range' front.length sent.length) = sent := by
  induction sent generalizing front with
  | nil => rfl
  | cons s sent ih =>
      have hfront : front ++ s :: sent = (front ++ [s]) ++ sent := by
        rw [append_assoc]
        rfl
      have hfirst : (front ++ s :: sent)[front.length]? = some s := by
        rw [getElem?_append_right le_rfl, Nat.sub_self]
        rfl
      have hrest := ih (front ++ [s])
      rw [length_append, length_singleton] at hrest
      rw [arriving, length_cons, range'_succ, filterMap_cons_some hfirst, hfront]
      exact congrArg (s :: ·) hrest

theorem arriving_range {α : Type*} (sent : List α) :
    arriving sent (range sent.length) = sent := by
  rw [range_eq_range']
  exact arriving_range' [] sent

/-- Positions that are fewer than 65535 apart. -/
def Apart (i j : ℕ) : Prop := i < j + 65535 ∧ j < i + 65535

instance : DecidableRel Apart := fun _ _ => inferInstanceAs (Decidable (_ ∧ _))

theorem forall₂_getElem? {α β : Type*} {R : α → β → Prop} {l : List α} {m : List β}
    (h : List.Forall₂ R l m) {i : ℕ} {a : α} (ha : l[i]? = some a) :
    ∃ b, m[i]? = some b ∧ R a b := by
  induction h generalizing i with
  | nil => cases ha
  | @cons x y l m hxy _ ih =>
      cases i with
      | zero =>
          cases ha
          exact ⟨y, rfl, hxy⟩
      | succ i => exact ih ha

theorem forall₂_mem_right {α β : Type*} {R : α → β → Prop} {l : List α} {m : List β}
    (h : List.Forall₂ R l m) {b : β} (hb : b ∈ m) : ∃ a ∈ l, R a b := by
  obtain ⟨i, hi⟩ := getElem?_of_mem hb
  obtain ⟨a, ha, hab⟩ := forall₂_getElem? h.flip hi
  exact ⟨a, mem_of_getElem? ha, hab⟩

namespace Depayloader

variable {start : Payloader} {requests : List Request} {d : Depayloader} {a : Assembler Byte}
  {packets : List Packet} {pieces : List (Piece Byte)}

/-- **Packets are received as the receiver receives their pieces**, whichever arrive. -/
theorem Simulates.run (h : Simulates start requests d a) (hchain : requests.IsChain SameTime)
    (hbrings : BringsAll start 0 packets requests)
    (hcarries : List.Forall₂ (CarriesVideo start.codec) requests pieces) {arrivals : List ℕ}
    (hin : ∀ i ∈ arrivals, i < packets.length) (happart : arrivals.IsChain Apart)
    (hnear : ∀ i ∈ arrivals.head?, Near a i) :
    List.Forall₂ (Hands start.codec) (pushAll (arriving packets arrivals) d).2
      (Assembler.run (arriving (Assembler.numbered 0 pieces) arrivals) a).2 := by
  induction arrivals generalizing d a with
  | nil => exact .nil
  | cons i arrivals ih =>
      obtain ⟨p, hp⟩ : ∃ p, packets[i]? = some p :=
        ⟨_, getElem?_eq_getElem (hin i mem_cons_self)⟩
      obtain ⟨r, hr, hone⟩ := hbrings.getElem? hp
      obtain ⟨piece, hpiece, hcarry⟩ := forall₂_getElem? hcarries hr
      rw [Nat.zero_add] at hone
      have hnumber : (Assembler.numbered 0 pieces)[i]? = some (i, piece) := by
        rw [Assembler.getElem?_numbered, hpiece, Nat.zero_add]
        rfl
      obtain ⟨hout, hnext⟩ := h.receive hchain hr hone hcarry (hnear i rfl)
      rw [arriving, arriving, filterMap_cons_some hp, filterMap_cons_some hnumber]
      refine rel_append hout (ih hnext
        (fun j hj => hin j (mem_cons_of_mem i hj)) (isChain_cons.mp happart).2 ?_)
      intro j hj n hn
      rw [Assembler.receive, Assembler.expected_take, Assembler.expected_observe] at hn
      cases hn
      obtain ⟨hlow, hhigh⟩ := (isChain_cons.mp happart).1 j hj
      omega

/-- A depayloader that was opened for the packets of a payloader. -/
structure Opened (start : Payloader) (d : Depayloader) : Prop where
  codec : d.codec = start.codec
  payloadType : d.payloadType = start.payloadType
  sevenBits : start.payloadType < 128
  filter : d.filterSsrc = true → d.expectedSsrc = start.ssrc
  haveSeq : d.haveSeq = false
  auActive : d.auActive = false
  pending : d.h264DiscontinuityPending = false

theorem Opened.setUp (h : Opened start d) : SetUp start d := by
  have hseven : ∀ b : Byte, b < 128 → b = b &&& 0x7f := by decide
  exact ⟨h.codec, h.payloadType.trans (hseven _ h.sevenBits), h.filter⟩

theorem Opened.simulates (h : Opened start d) : Simulates start requests d .fresh where
  setUp := h.setUp
  first _ := ⟨h.haveSeq, rfl⟩
  seq _ hn := nomatch hn
  holds := ⟨0, ⟨fun _ => h.auActive, fun _ hheld => (nomatch hheld), fun _ => h.pending⟩,
    fun hheld => absurd rfl hheld⟩

end Depayloader

/-! ## Access units that come back -/

namespace Payloader

/-- With enough turns for its NAL units, an access unit can be sent or is refused. -/
theorem Video.exists_push {s : Payloader} (hvideo : s.Video) {au : AccessUnit}
    (hau : au.Valid s.codec) {turns : ℕ} (hturns : ∀ nal ∈ au.nals, nal.length ≤ turns) :
    ∃ pushed, s.push turns au.buffer = some pushed := by
  by_cases hsize : (annexB au.units).length ≤ int32Max
  · have hfits : ∀ unit ∈ flagLast au.nals, NalFits s.codec.layout s.mtu unit.1 :=
      fun _ _ => .inr (.inr (.inr hvideo.room))
    obtain ⟨sending, hsend, -⟩ := sendUnits_fits hfits
      (fun unit hunit => hturns unit.1 (mem_of_mem_flagLast hunit)) (ptsToRtpTs au.pts 90000)
    exact ⟨_, by rw [Payloader.push, hvideo.packetize hau hsize, hsend]; rfl⟩
  · have hsends : ¬ (au.buffer.eos = true ∨ au.buffer.data = []) :=
      not_or.mpr ⟨Bool.false_ne_true, annexB_ne hau.1⟩
    have hlong : au.buffer.data.length > int32Max := not_le.mp hsize
    exact ⟨_, by rw [Payloader.push, Payloader.packetize, if_neg hsends, if_pos hlong]; rfl⟩

/-- The calls with access units end. -/
theorem After.exists_pushBuffers {start s : Payloader} {i : ℕ} (h : After start i s)
    (hvideo : start.Video) {aus : List AccessUnit} (haus : ∀ au ∈ aus, au.Valid start.codec)
    {turns : ℕ} (hturns : ∀ au ∈ aus, ∀ nal ∈ au.nals, nal.length ≤ turns) :
    ∃ pushes, Payloader.pushBuffers turns (aus.map AccessUnit.buffer) s = some pushes := by
  induction aus generalizing s i with
  | nil => exact ⟨[], rfl⟩
  | cons au aus ih =>
      have hau := haus au mem_cons_self
      obtain ⟨one, hone⟩ := (h.video hvideo).exists_push (h.codec ▸ hau)
        (hturns au mem_cons_self)
      obtain ⟨requests, cuts, hgroup⟩ := h.push hvideo hau hone
      obtain ⟨rest, hrest⟩ := ih hgroup.after
        (fun other hother => haus other (mem_cons_of_mem au hother))
        (fun other hother => hturns other (mem_cons_of_mem au hother))
      exact ⟨one :: rest, by rw [map_cons, Payloader.pushBuffers, hone, Option.bind_some, hrest]; rfl⟩

/-- Enough turns for every NAL unit of every access unit. -/
theorem exists_turns_nals (aus : List AccessUnit) :
    ∃ turns, ∀ au ∈ aus, ∀ nal ∈ au.nals, nal.length ≤ turns := by
  refine ⟨((aus.flatMap AccessUnit.nals).map List.length).sum, fun au hau nal hnal => ?_⟩
  exact le_sum_of_mem (mem_map.mpr ⟨nal, mem_flatMap.mpr ⟨au, hau, hnal⟩, rfl⟩)

end Payloader

/-- The groups of access units that are not too long are their NAL units. -/
theorem Payloader.Stream.map_groupContent {start : Payloader} {i : ℕ} {aus : List AccessUnit}
    {pushes : List Pushed} {requests : List Request} {groups : List (List (Cut Byte))}
    (h : Stream start i aus pushes requests groups)
    (hsizes : ∀ au ∈ aus, (annexB au.units).length ≤ int32Max) :
    (∀ g ∈ groups, g ≠ []) ∧
      groups.map groupContent = aus.map fun au => startCoded au.nals := by
  have hcuts := h.cuts
  clear h
  induction hcuts with
  | nil => exact ⟨nofun, rfl⟩
  | @cons au g aus groups hone _ ih =>
      obtain ⟨hne, hmap⟩ := ih fun other hother => hsizes other (mem_cons_of_mem au hother)
      have hshort := not_lt.mpr (hsizes au mem_cons_self)
      obtain ⟨-, hg, hcuts⟩ := hone.resolve_left fun hlong => hshort hlong.1
      refine ⟨fun other hother => ?_, ?_⟩
      · rcases mem_cons.mp hother with rfl | hother
        · exact hg
        · exact hne other hother
      · rw [map_cons, map_cons, hcuts.groupContent, hmap]

/-- **Access units come back**: the payloader makes packets of every access unit that is not too
long, with consecutive sequence numbers and within the mtu, and the depayloader makes of them
one buffer for every access unit, with its NAL units behind start codes of four bytes. -/
theorem access_units_come_back {s : Payloader} (hvideo : s.Video) {d : Depayloader}
    (hopened : d.Opened s) {aus : List AccessUnit} (haus : ∀ au ∈ aus, au.Valid s.codec)
    (hsizes : ∀ au ∈ aus, (annexB au.units).length ≤ int32Max) :
    (∃ turns pushes, s.pushBuffers turns (aus.map AccessUnit.buffer) = some pushes) ∧
    ∀ turns pushes, s.pushBuffers turns (aus.map AccessUnit.buffer) = some pushes →
      (∀ pushed ∈ pushes, pushed.ok = true) ∧
      (d.pushAll (packetsOf pushes)).2.map Delivery.data =
        aus.map (fun au => startCoded au.nals) ∧
      (∀ p ∈ packetsOf pushes, (p.data.length : ℤ) ≤ s.mtu) ∧
      ∀ i p, (packetsOf pushes)[i]? = some p →
        (parseRtp p.data).map View.seq = some (s.seq + BitVec.ofNat 16 i) := by
  refine ⟨?_, fun turns pushes hpush => ?_⟩
  · obtain ⟨turns, hturns⟩ := exists_turns_nals aus
    exact ⟨turns, (After.refl s).exists_pushBuffers hvideo haus hturns⟩
  · obtain ⟨requests, groups, hstream⟩ := (After.refl s).pushBuffers hvideo haus hpush
    obtain ⟨hgroups, hcontents⟩ := hstream.map_groupContent hsizes
    refine ⟨hstream.ok hsizes, ?_, fun p hp => ?_, fun i p hp => ?_⟩
    · have hrun := hopened.simulates.run hstream.chain hstream.brings hstream.carries
        (fun i (hi : i ∈ range (packetsOf pushes).length) => mem_range.mp hi)
        ((isChain_range _ _).mpr fun i _ => ⟨by omega, by omega⟩) fun _ _ _ hn => (nomatch hn)
      have hlength : (packetsOf pushes).length = (Assembler.numbered 0 (stream groups)).length := by
        rw [Assembler.length_numbered, ← hstream.carries.length_eq, hstream.brings.length_eq]
      rw [arriving_range, hlength, arriving_range,
        Assembler.run_stream hgroups (.inl rfl) rfl rfl] at hrun
      rw [Depayloader.map_data hrun, map_map]
      exact hcontents
    · obtain ⟨i, hi⟩ := getElem?_of_mem hp
      obtain ⟨r, hr, hlength, -⟩ := hstream.brings.getElem? hi
      rw [hlength]
      exact hstream.sizes r (mem_of_getElem? hr)
    · obtain ⟨r, -, -, hparse⟩ := hstream.brings.getElem? hp
      rw [hparse, Nat.zero_add]
      rfl

/-- A payloader for H.264 with the smallest mtu and the last sequence number. -/
def smallPayloader : Payloader where
  codec := .h264
  payloadType := 96
  ssrc := 0x12345678
  seq := 65535
  clockRate := 90000
  mtu := 15
  channels := 2
  sampleSize := 2
  packets := 0
  bytes := 0
  extSeqNum := 0
  strictMtu := true

/-- The depayloader for its packets. -/
def smallDepayloader : Depayloader where
  codec := .h264
  payloadType := 96
  clockRate := 90000
  channels := 2
  sampleSize := 2
  expectedSsrc := 0
  filterSsrc := false
  haveSeq := false
  nextSeq := 0
  auData := []
  auTs := 0
  auPts := 0
  auActive := false
  h264DiscontinuityPending := false
  packets := 0
  bytes := 0
  outBuffers := 0
  outBytes := 0
  inPackets := 0
  parseErrors := 0
  droppedPackets := 0

/-- Two access units of one time, of which the first one has a NAL unit of five bytes. -/
def twoAccessUnits : List AccessUnit :=
  [⟨[(true, [0x67, 0x42]), (false, [0x65, 0x88, 0x84, 0x00, 0x33])], 0⟩, ⟨[(false, [0x41, 0x9a])], 0⟩]

theorem small_opened : smallDepayloader.Opened smallPayloader :=
  ⟨rfl, rfl, by decide, nofun, rfl, rfl, rfl⟩

theorem two_valid : ∀ au ∈ twoAccessUnits, au.Valid smallPayloader.codec := by decide

theorem access_units_come_back_two :
    ∃ turns pushes, smallPayloader.pushBuffers turns (twoAccessUnits.map AccessUnit.buffer) =
        some pushes ∧
      (smallDepayloader.pushAll (packetsOf pushes)).2.map Delivery.data =
        [[0, 0, 0, 1, 0x67, 0x42, 0, 0, 0, 1, 0x65, 0x88, 0x84, 0x00, 0x33],
          [0, 0, 0, 1, 0x41, 0x9a]] := by
  obtain ⟨⟨turns, pushes, hpush⟩, hall⟩ :=
    access_units_come_back (s := smallPayloader) (by decide) small_opened two_valid (by decide)
  exact ⟨turns, pushes, hpush, (hall turns pushes hpush).2.1⟩

/-- A NAL unit of ones. -/
theorem valid_replicate {n : ℕ} (hn : 0 < n) : ValidNal .h264 (replicate n 1) := by
  have hnot : ∀ l : List Byte, (0 : Byte) ∈ l → ¬ l <:+: replicate n 1 := by
    intro l hl hinside
    have h01 : (0 : Byte) = 1 := eq_of_mem_replicate (hinside.subset hl)
    exact absurd h01 (by decide)
  obtain ⟨m, rfl⟩ : ∃ m, n = m + 1 := ⟨n - 1, by omega⟩
  refine ⟨⟨hnot _ mem_cons_self, hnot _ mem_cons_self, ?_, cons_ne_nil _ _⟩, ?_, ?_⟩
  · rw [getLast?_replicate, if_neg (Nat.succ_ne_zero m)]
    decide
  · exact (by decide : (1 : Byte) ≤ 1 &&& 0x1f)
  · exact (by decide : (1 : Byte) &&& 0x1f ≤ 23)

/-- An access unit of more than 2 GiB. -/
def longAccessUnit : AccessUnit := ⟨[(true, replicate (2 ^ 31) 1)], 0⟩

/-- It is refused: there are no packets of it, and nothing comes back. -/
theorem long_access_unit_refused :
    smallPayloader.Video ∧ smallDepayloader.Opened smallPayloader ∧
      (∀ au ∈ [longAccessUnit], au.Valid smallPayloader.codec) ∧
      ∀ turns, ∃ pushes,
        smallPayloader.pushBuffers turns ([longAccessUnit].map AccessUnit.buffer) = some pushes ∧
        (smallDepayloader.pushAll (packetsOf pushes)).2 = [] := by
  have hvalid : longAccessUnit.Valid smallPayloader.codec := by
    refine ⟨cons_ne_nil _ _, fun unit hunit => ?_⟩
    obtain rfl := mem_singleton.mp hunit
    exact valid_replicate (Nat.two_pow_pos 31)
  have hlength : (annexB longAccessUnit.units).length = 4 + 2 ^ 31 := by
    rw [annexB, longAccessUnit, flatMap_singleton, length_append, length_replicate]
    rfl
  have hlong : longAccessUnit.buffer.data.length > int32Max := by
    rw [AccessUnit.buffer, hlength, int32Max]
    omega
  have hsends : ¬ (longAccessUnit.buffer.eos = true ∨ longAccessUnit.buffer.data = []) :=
    not_or.mpr ⟨Bool.false_ne_true, Payloader.annexB_ne hvalid.1⟩
  refine ⟨by decide, small_opened, fun au hau => mem_singleton.mp hau ▸ hvalid, fun turns => ?_⟩
  refine ⟨[⟨smallPayloader, [], false⟩], ?_, rfl⟩
  rw [map_singleton, Payloader.pushBuffers, Payloader.push, Payloader.packetize,
    if_neg hsends, if_pos hlong]
  rfl

end Zstreamer.Rtp

/-! # Lost packets

Whichever packets of a list of access units are lost, doubled or come in another order,
the depayloader pushes NAL units that are complete: the last ones of an access unit, and
when some of an H.264 access unit are missing it says so.
-/

namespace Zstreamer.Rtp

open Foundation Payloader List

/-- The first packet of an access unit is the first piece of its group. -/
theorem Payloader.Stream.boundary {start : Payloader} {i : ℕ} {aus : List AccessUnit}
    {pushes : List Pushed} {requests : List Request} {groups : List (List (Cut Byte))}
    (h : Stream start i aus pushes requests groups) (k : ℕ) :
    Boundary groups (packetsOf (pushes.take k)).length := by
  refine ⟨groups.take k, groups.drop k, (take_append_drop k groups).symm, ?_⟩
  have hlengths := forall₂_take k h.lengths
  generalize pushes.take k = front at hlengths
  generalize groups.take k = before at hlengths
  induction hlengths with
  | nil => rfl
  | cons hone _ ih =>
      rw [packetsOf, flatMap_cons, length_append, hone, stream, flatMap_cons,
        length_append]
      exact congrArg _ ih

/-- The last units of a group are the last NAL units of its access unit. -/
theorem CutsOf.exists_suffix {cuts units : List (Cut Byte)} {nals : List (List Byte)}
    (h : CutsOf cuts nals) (hsuffix : units <:+ cuts) :
    ∃ lasts, lasts <:+ nals ∧ CutsOf units lasts ∧ (units = cuts → lasts = nals) := by
  obtain ⟨lead, rfl⟩ := hsuffix
  refine ⟨nals.drop lead.length, drop_suffix _ _, ?_, fun hwhole => ?_⟩
  · have hdrop := forall₂_drop lead.length h
    rw [drop_left] at hdrop
    exact hdrop
  · have hlead : lead = [] := append_left_eq_self.mp hwhole.symm
    rw [hlead]
    rfl

/-- What arrives has the number of its position. -/
theorem getElem?_of_mem_arriving {pieces : List (Piece Byte)} {arrivals : List ℕ}
    {entry : ℕ × Piece Byte} (hentry : entry ∈ arriving (Assembler.numbered 0 pieces) arrivals) :
    pieces[entry.1]? = some entry.2 := by
  obtain ⟨i, -, hi⟩ := mem_filterMap.mp hentry
  rw [Assembler.getElem?_numbered, Nat.zero_add] at hi
  obtain ⟨p, hp, rfl⟩ := Option.map_eq_some_iff.mp hi
  exact hp

theorem head?_arriving {pieces : List (Piece Byte)} {arrivals : List ℕ}
    (hin : ∀ i ∈ arrivals, i < pieces.length) {entry : ℕ × Piece Byte}
    (hentry : entry ∈ (arriving (Assembler.numbered 0 pieces) arrivals).head?) :
    entry.1 ∈ arrivals.head? := by
  cases arrivals with
  | nil => cases hentry
  | cons i arrivals =>
      obtain ⟨p, hp⟩ : ∃ p, pieces[i]? = some p :=
        ⟨_, getElem?_eq_getElem (hin i mem_cons_self)⟩
      have hnumber : (Assembler.numbered 0 pieces)[i]? = some (i, p) := by
        rw [Assembler.getElem?_numbered, hp, Nat.zero_add]
        rfl
      rw [arriving, filterMap_cons_some hnumber] at hentry
      cases hentry
      rfl

/-- **No NAL unit is ever damaged.**  Every buffer that is pushed consists of the last NAL units
of one access unit, and of H.264 a buffer that does not have all of them is flagged. -/
theorem never_damaged {s : Payloader} (hvideo : s.Video) {d : Depayloader} (hopened : d.Opened s)
    {aus : List AccessUnit} (haus : ∀ au ∈ aus, au.Valid s.codec) {turns : ℕ}
    {pushes : List Pushed}
    (hpush : s.pushBuffers turns (aus.map AccessUnit.buffer) = some pushes) {arrivals : List ℕ}
    (hin : ∀ i ∈ arrivals, i < (packetsOf pushes).length)
    (hfirst : ∀ i ∈ arrivals.head?, ∃ k, i = (packetsOf (pushes.take k)).length)
    (happart : arrivals.IsChain Apart) :
    ∀ out ∈ (d.pushAll (arriving (packetsOf pushes) arrivals)).2,
      ∃ au ∈ aus, ∃ nals, nals ≠ [] ∧ nals <:+ au.nals ∧ out.data = startCoded nals ∧
        (s.codec = .h264 → nals ≠ au.nals → out.drop = true) := by
  obtain ⟨requests, groups, hstream⟩ := (After.refl s).pushBuffers hvideo haus hpush
  have hrun := hopened.simulates.run hstream.chain hstream.brings hstream.carries hin happart
    fun _ _ _ hn => (nomatch hn)
  have hhonest : ∀ assembled ∈ (Assembler.run (arriving (Assembler.numbered 0 (stream groups))
      arrivals) (Assembler.fresh : Assembler Byte)).2, Assembler.Honest groups assembled := by
    refine Assembler.honest_of_run Assembler.sound_fresh (fun entry hentry => ?_)
      fun _ _ entry hentry => ?_
    · exact getElem?_of_mem_arriving hentry
    · have hlength : (packetsOf pushes).length = (stream groups).length :=
        hstream.brings.length_eq.trans hstream.carries.length_eq
      obtain ⟨k, hk⟩ := hfirst entry.1 (head?_arriving (hlength ▸ hin) hentry)
      rw [hk]
      exact hstream.boundary k
  intro out hout
  obtain ⟨assembled, hassembled, hdata, hdrop⟩ := forall₂_mem_right hrun.flip hout
  obtain ⟨g, hg, units, hne, hsuffix, hcontent, hwhole⟩ := hhonest assembled hassembled
  obtain ⟨au, hau, hgroup⟩ := forall₂_mem_right hstream.cuts hg
  have hcuts : CutsOf g au.nals := by
    rcases hgroup with ⟨-, rfl⟩ | ⟨-, -, hcuts⟩
    · exact absurd (suffix_nil.mp hsuffix) hne
    · exact hcuts
  obtain ⟨nals, hnals, hunits, hall⟩ := hcuts.exists_suffix hsuffix
  refine ⟨au, hau, nals, ?_, hnals, ?_, fun hcodec hlacks => ?_⟩
  · rintro rfl
    exact hne (forall₂_nil_right_iff.mp hunits)
  · rw [hdata, hcontent, hunits.groupContent]
  · rw [hdrop hcodec]
    exact (Bool.not_eq_false _).mp fun hpartly => hlacks (hall (hwhole hpartly))

/-- Of the fragments of the first access unit all but one are lost, and the second access unit
arrives. -/
theorem never_damaged_loss :
    ∃ pushes, smallPayloader.pushBuffers 5 (twoAccessUnits.map AccessUnit.buffer) = some pushes ∧
      (packetsOf pushes).length = 6 ∧
      ∀ out ∈ (smallDepayloader.pushAll (arriving (packetsOf pushes) [0, 2, 5])).2,
        ∃ au ∈ twoAccessUnits, ∃ nals, nals ≠ [] ∧ nals <:+ au.nals ∧
          out.data = startCoded nals ∧
          (smallPayloader.codec = .h264 → nals ≠ au.nals → out.drop = true) := by
  obtain ⟨pushes, hpush, hlength⟩ := Option.map_eq_some_iff.mp
    (show (smallPayloader.pushBuffers 5 (twoAccessUnits.map AccessUnit.buffer)).map
      (fun pushes => (packetsOf pushes).length) = some 6 by decide +kernel)
  refine ⟨pushes, hpush, hlength, ?_⟩
  refine never_damaged (by decide) small_opened two_valid hpush ?_ ?_ (by decide)
  · rw [hlength]
    decide
  · rintro i ⟨⟩
    exact ⟨0, rfl⟩

end Zstreamer.Rtp

/-
# NAL units in fragments

The RTSP source looks at the time stamp and the SSRC of a fragment, and not at its number.
It holds the fragments that have come since the last first one, as far as they have its
time stamp, and pushes what it holds when any last fragment comes.  That is a NAL unit
only if it holds exactly the fragments of one.

Here the packets of a list of access units arrive in any order, any of them any number of
times or never.
-/

import Zstreamer.RtspSource.Aggregates
import Zstreamer.RtspSource.Parcels

namespace Zstreamer.RtspSource

open Foundation Rtp List Option
open Rtsp (Stream)

/-! ## What is held -/

/-- The fragments that are held, with the time stamp and the SSRC of the last first fragment. -/
structure Held where
  fragments : List Fragment
  timestamp : BitVec 32
  ssrc : BitVec 32
  deriving DecidableEq, Repr

namespace Held

/-- The header of a NAL unit as its first fragment brings it: one bit is not sent. -/
def header (nal : List Byte) : Byte := nal.getD 0 0 &&& 0x7f

/-- The bytes that a fragment adds. -/
def added (f : Fragment) : List Byte := (if f.first then [header f.nal] else []) ++ f.data

/-- The bytes of the fragments. -/
def bytes (h : Held) : List Byte := h.fragments.flatMap added

/-- A first fragment is held alone, and another one is added if it has the time stamp and the
SSRC. -/
def hold (h : Held) (timestamp ssrc : BitVec 32) (f : Fragment) : Held :=
  if f.first then ⟨[f], timestamp, ssrc⟩
  else if h.ssrc = ssrc ∧ h.timestamp = timestamp then { h with fragments := h.fragments ++ [f] }
  else h

/-- Exactly the fragments of a NAL unit are held, all of them, once and in order; the array is
large enough for the NAL unit, and its first bit is zero. -/
def Complete (h : Held) (nal : List Byte) : Prop :=
  h.fragments = fragmentsOf nal ∧ nal.length ≤ maxFuAccum ∧ nal.getD 0 0 &&& 0x80 = 0

instance (h : Held) (nal : List Byte) : Decidable (h.Complete nal) :=
  inferInstanceAs (Decidable (_ ∧ _))

/-- What is held is pushed with this last fragment. -/
def Pushes (h : Held) (f : Fragment) : Prop := f.last = true ∧ h.bytes.length > 1

instance (h : Held) (f : Fragment) : Decidable (h.Pushes f) := inferInstanceAs (Decidable (_ ∧ _))

/-- What is held behind a packet. -/
def after (ssrc : BitVec 32) (h : Held) (entry : BitVec 32 × Parcel) : Held :=
  match entry.2 with
  | .whole _ => h
  | .fragment f =>
      let h := h.hold entry.1 ssrc f
      if h.Pushes f then { h with fragments := [] } else h

/-- A packet does no harm: a NAL unit of its own does not have the type of a packet, and a last
fragment completes its NAL unit if anything is pushed with it. -/
def Harmless (ssrc : BitVec 32) (h : Held) (entry : BitVec 32 × Parcel) : Prop :=
  match entry.2 with
  | .whole nal => nal.getD 0 0 &&& 0x1f ≠ 24 ∧ nal.getD 0 0 &&& 0x1f ≠ 28
  | .fragment f =>
      let h := h.hold entry.1 ssrc f
      h.Pushes f → h.Complete f.nal

instance (ssrc : BitVec 32) (h : Held) (entry : BitVec 32 × Parcel) :
    Decidable (h.Harmless ssrc entry) :=
  match entry with
  | (_, .whole _) => inferInstanceAs (Decidable (_ ∧ _))
  | (timestamp, .fragment f) => inferInstanceAs (Decidable
      ((h.hold timestamp ssrc f).Pushes f → (h.hold timestamp ssrc f).Complete f.nal))

/-- The NAL units that are pushed with a packet that does no harm. -/
def pushed (ssrc : BitVec 32) (h : Held) (entry : BitVec 32 × Parcel) : List (List Byte) :=
  match entry.2 with
  | .whole nal => if nal.getD 0 0 &&& 0x1f ≤ 23 then [nal] else []
  | .fragment f => if (h.hold entry.1 ssrc f).Pushes f then [f.nal] else []

/-- No packet of some does any harm. -/
def HarmlessAll (ssrc : BitVec 32) : Held → List (BitVec 32 × Parcel) → Prop
  | _, [] => True
  | h, entry :: entries => h.Harmless ssrc entry ∧ HarmlessAll ssrc (h.after ssrc entry) entries

instance decidableHarmlessAll (ssrc : BitVec 32) (h : Held) :
    (entries : List (BitVec 32 × Parcel)) → Decidable (HarmlessAll ssrc h entries)
  | [] => isTrue trivial
  | entry :: entries =>
      have := decidableHarmlessAll ssrc (h.after ssrc entry) entries
      inferInstanceAs (Decidable (_ ∧ _))

/-- What is held behind some packets. -/
def afterAll (ssrc : BitVec 32) (h : Held) (entries : List (BitVec 32 × Parcel)) : Held :=
  entries.foldl (after ssrc) h

/-- The NAL units that are pushed with packets that do no harm. -/
def pushedAll (ssrc : BitVec 32) : Held → List (BitVec 32 × Parcel) → List (List Byte)
  | _, [] => []
  | h, entry :: entries => h.pushed ssrc entry ++ pushedAll ssrc (h.after ssrc entry) entries

section Lists

variable {ssrc : BitVec 32} {h : Held} {front back : List (BitVec 32 × Parcel)}

theorem harmlessAll_append : HarmlessAll ssrc h (front ++ back) ↔
    HarmlessAll ssrc h front ∧ HarmlessAll ssrc (h.afterAll ssrc front) back := by
  induction front generalizing h with
  | nil => exact ⟨fun hback => ⟨trivial, hback⟩, And.right⟩
  | cons entry front ih =>
      rw [cons_append, HarmlessAll, HarmlessAll, ih, and_assoc]
      rfl

theorem pushedAll_append : pushedAll ssrc h (front ++ back) =
    pushedAll ssrc h front ++ pushedAll ssrc (h.afterAll ssrc front) back := by
  induction front generalizing h with
  | nil => rfl
  | cons entry front ih =>
      rw [cons_append, pushedAll, pushedAll, ih, append_assoc]
      rfl

/-- A NAL unit that is pushed is the one of a packet. -/
theorem mem_pushedAll {nal : List Byte} {entries : List (BitVec 32 × Parcel)}
    (hnal : nal ∈ pushedAll ssrc h entries) : ∃ entry ∈ entries, entry.2.nal = nal := by
  induction entries generalizing h with
  | nil => cases hnal
  | cons entry entries ih =>
      rcases mem_append.mp hnal with hnal | hnal
      · refine ⟨entry, mem_cons_self, ?_⟩
        rw [pushed] at hnal
        split at hnal <;> rename_i hentry <;> rw [hentry] <;> split at hnal
        · exact (mem_singleton.mp hnal).symm
        · cases hnal
        · exact (mem_singleton.mp hnal).symm
        · cases hnal
      · obtain ⟨other, hother, hsame⟩ := ih hnal
        exact ⟨other, mem_cons_of_mem entry hother, hsame⟩

end Lists

/-! ## Complete NAL units -/

theorem flatMap_added_fragmentsFrom (nal : List Byte) (datas : List (List Byte)) :
    (fragmentsFrom nal false datas).flatMap added = datas.flatten := by
  induction datas with
  | nil => rfl
  | cons data datas ih =>
      rw [fragmentsFrom, flatMap_cons, ih, flatten_cons]
      rfl

theorem header_of_forbidden : ∀ b : Byte, b &&& 0x80 = 0 → b &&& 0x7f = b := by decide +kernel

/-- The bytes of all fragments, when there is one. -/
theorem flatMap_added_fragmentsOf {nal : List Byte} (hne : pieces nal ≠ []) :
    (fragmentsOf nal).flatMap added = header nal :: nal.drop 1 := by
  obtain ⟨data, datas, hcut⟩ := exists_cons_of_ne_nil hne
  have hpieces := flatten_pieces nal
  rw [fragmentsOf, hcut, fragmentsFrom, flatMap_cons, flatMap_added_fragmentsFrom, ← hpieces,
    hcut]
  rfl

/-- The bytes of all fragments are the NAL unit. -/
theorem Complete.bytes_eq {h : Held} {nal : List Byte} (hcomplete : h.Complete nal)
    (hlong : 1 < h.bytes.length) : h.bytes = nal := by
  obtain ⟨hall, -, hforbidden⟩ := hcomplete
  have hne : pieces nal ≠ [] := by
    intro hnil
    rw [bytes, hall, fragmentsOf, hnil] at hlong
    exact Nat.not_lt_zero 1 hlong
  have hbytes : h.bytes = header nal :: nal.drop 1 := by
    rw [bytes, hall, flatMap_added_fragmentsOf hne]
  rw [hbytes] at hlong ⊢
  cases nal with
  | nil => exact absurd hlong (lt_irrefl 1)
  | cons b rest => exact congrArg (· :: rest) (header_of_forbidden b hforbidden)

end Held

/-! ## The client -/

/-- What a client keeps between the fragments. -/
def Client.gathering (cl : Client) : Accum × BitVec 32 × BitVec 32 :=
  (cl.fuAccum, cl.fuAccumTs, cl.fuAccumSsrc)

/-- The client has what is held, as long as there is room for it. -/
structure Client.Has (cl : Client) (h : Held) : Prop where
  timestamp : cl.fuAccumTs = h.timestamp
  ssrc : cl.fuAccumSsrc = h.ssrc
  bytes : h.bytes.length ≤ maxFuAccum → cl.fuAccum.bytes = h.bytes

theorem Client.Has.of_gathering {cl cl' : Client} {h : Held} (hhas : cl.Has h)
    (hsame : cl'.gathering = cl.gathering) : cl'.Has h := by
  obtain ⟨haccum, hrest⟩ := Prod.mk.injEq _ _ _ _ ▸ hsame
  obtain ⟨htimestamp, hssrc⟩ := Prod.mk.injEq _ _ _ _ ▸ hrest
  exact ⟨htimestamp.trans hhas.timestamp, hssrc.trans hhas.ssrc,
    fun hroom => (congrArg Accum.bytes haccum).trans (hhas.bytes hroom)⟩

@[simp]
theorem Client.gathering_rtpTsToPts (cl : Client) (tr : Track) (now : BitVec 64)
    (rtpTs : BitVec 32) : (cl.rtpTsToPts tr now rtpTs).1.gathering = cl.gathering := by
  rw [rtpTsToPts]
  split
  · rfl
  split
  · dsimp only
    split <;> split <;> rfl
  · rfl

namespace Client

variable {cl : Client} {h : Held} {f : Fragment} (tr : Track) (now : BitVec 64)
  (rtpTs ssrc : BitVec 32)

/-- The bytes of a fragment, as the RTSP source reads them. -/
theorem read_fragment : ∀ (b : Byte) (first last : Bool),
    ((((b >>> 5) &&& 0x03) <<< 5) ||| 28) &&& 0x1f = (28 : Byte) ∧
    decide (((fuFlags first last ||| (b &&& 0x1f)) >>> 7) &&& 1 ≠ 0) = first ∧
    decide (((fuFlags first last ||| (b &&& 0x1f)) >>> 6) &&& 1 ≠ 0) = last ∧
    (((((((b >>> 5) &&& 0x03) <<< 5) ||| 28) >>> 5) &&& 0x03) <<< 5) |||
      ((fuFlags first last ||| (b &&& 0x1f)) &&& 0x1f) = b &&& 0x7f := by
  decide +kernel

/-- A fragment is taken: a first one begins to gather, its data are copied, and a last one
pushes. -/
def takeFragment (cl : Client) (tr : Track) (now : BitVec 64) (rtpTs ssrc : BitVec 32)
    (f : Fragment) : Client × List Pushed :=
  let cl := if f.first then cl.startFragment rtpTs ssrc (Held.header f.nal) else cl
  let cl := cl.copyFragment rtpTs ssrc f.data
  if f.last then cl.endFragment tr now else (cl, [])

theorem processH264Rtp_fragment (cl : Client) (f : Fragment) :
    cl.processH264Rtp tr now (Parcel.fragment f).payload rtpTs ssrc =
      some ((cl.rtpTsToPts tr now rtpTs).1.takeFragment tr now rtpTs ssrc f) := by
  obtain ⟨htype, hfirst, hlast, hheader⟩ := read_fragment (f.nal.getD 0 0) f.first f.last
  have hpayload : (Parcel.fragment f).payload =
      ((((f.nal.getD 0 0 >>> 5) &&& 0x03) <<< 5) ||| 28) ::
        (fuFlags f.first f.last ||| (f.nal.getD 0 0 &&& 0x1f)) :: f.data := rfl
  have hspan : span (Parcel.fragment f).payload 2 ((Parcel.fragment f).payload.length - 2) =
      some f.data := by
    rw [span_behind (by rw [hpayload]; simp), hpayload]
    rfl
  rw [processH264Rtp, hspan, hpayload, if_neg (by simp)]
  simp only [getElem?_cons_zero, getElem?_cons_succ, length_cons]
  dsimp only [bind_eq_bind, bind_some]
  rw [htype, if_neg (by decide), if_pos ⟨rfl, by omega⟩, processFragment, hheader]
  have hstart := decide_eq_true_iff.symm.trans (iff_of_eq (congrArg (· = true) hfirst))
  have hend := decide_eq_true_iff.symm.trans (iff_of_eq (congrArg (· = true) hlast))
  simp only [hstart, hend]
  rfl

/-- A NAL unit in a packet of its own is pushed as it is, or not at all. -/
theorem processH264Rtp_whole (cl : Client) {nal : List Byte} (hne : nal ≠ [])
    (htype : nal.getD 0 0 &&& 0x1f ≠ 24 ∧ nal.getD 0 0 &&& 0x1f ≠ 28) :
    ∃ pts, cl.processH264Rtp tr now nal rtpTs ssrc = some ((cl.rtpTsToPts tr now rtpTs).1,
      (if nal.getD 0 0 &&& 0x1f ≤ 23 then [nal] else []).map (pushH264Nal · pts)) := by
  have hpos := length_pos_iff.mpr hne
  refine ⟨(cl.rtpTsToPts tr now rtpTs).2, ?_⟩
  rw [processH264Rtp, if_neg (by omega), getElem?_eq_getD hpos 0]
  dsimp only [bind_eq_bind, bind_some]
  split
  · rfl
  · rw [if_neg fun h28 => htype.2 h28.1, if_neg htype.1]
    rfl

/-- A fragment is held. -/
theorem Has.hold (hhas : cl.Has h) :
    ((if f.first then cl.startFragment rtpTs ssrc (Held.header f.nal) else cl).copyFragment rtpTs
      ssrc f.data).Has (h.hold rtpTs ssrc f) := by
  rw [Held.hold]
  split
  case isTrue hfirst =>
    rw [copyFragment, if_pos ⟨rfl, rfl⟩]
    refine ⟨rfl, rfl, fun hroom => ?_⟩
    have hbytes : Held.bytes ⟨[f], rtpTs, ssrc⟩ = [Held.header f.nal] ++ f.data := by
      rw [Held.bytes, flatMap_singleton, Held.added, if_pos hfirst]
    rw [hbytes, length_append] at hroom
    rw [hbytes]
    exact (Accum.bytes_copy _ _).trans (if_pos hroom)
  case isFalse hfirst =>
    obtain ⟨htimestamp, hssrc, hbytes⟩ := hhas
    rw [copyFragment, hssrc, htimestamp]
    split
    case isFalse => exact ⟨htimestamp, hssrc, hbytes⟩
    case isTrue =>
      refine ⟨rfl, rfl, fun hroom => ?_⟩
      have hadd : Held.bytes { h with fragments := h.fragments ++ [f] } = h.bytes ++ f.data := by
        rw [Held.bytes, flatMap_append, flatMap_singleton, Held.added, if_neg hfirst]
        rfl
      rw [hadd, length_append] at hroom
      have hheld := hbytes (by omega)
      rw [hadd, ← hheld]
      exact (Accum.bytes_copy _ _).trans (if_pos (by rw [hheld]; exact hroom))

/-- What is held is pushed with a last fragment, if there is more than a header. -/
theorem Has.endFragment (hhas : cl.Has h) (hcomplete : h.bytes.length > 1 → h.Complete f.nal) :
    (cl.endFragment tr now).1.Has
        (if h.bytes.length > 1 then { h with fragments := [] } else h) ∧
      datas (cl.endFragment tr now).2 =
        (if h.bytes.length > 1 then [f.nal] else []).map (startCode true ++ ·) := by
  rw [Client.endFragment]
  by_cases hmore : h.bytes.length > 1
  · obtain ⟨hall, hfits, hforbidden⟩ := hcomplete hmore
    have hnal : h.bytes = f.nal := Held.Complete.bytes_eq ⟨hall, hfits, hforbidden⟩ hmore
    have hbytes : cl.fuAccum.bytes = f.nal := (hhas.bytes (by rw [hnal]; exact hfits)).trans hnal
    obtain ⟨htimestamp, hssrc, -⟩ := hhas.of_gathering (cl.gathering_rtpTsToPts tr now cl.fuAccumTs)
    have haccum : (cl.rtpTsToPts tr now cl.fuAccumTs).1.fuAccum = cl.fuAccum :=
      congrArg Prod.fst (cl.gathering_rtpTsToPts tr now cl.fuAccumTs)
    rw [if_pos hmore, if_pos hmore, hbytes, ← hnal, if_pos hmore, hnal]
    refine ⟨⟨htimestamp, hssrc, fun _ => rfl⟩, ?_⟩
    show [startCode true ++ (cl.rtpTsToPts tr now cl.fuAccumTs).1.fuAccum.bytes] = _
    rw [haccum, hbytes]
    rfl
  · have hbytes : cl.fuAccum.bytes = h.bytes :=
      hhas.bytes ((not_lt.mp hmore).trans (by decide))
    rw [if_neg hmore, if_neg hmore, hbytes, if_neg hmore]
    exact ⟨hhas, rfl⟩

/-- **A packet that does no harm** is dealt with, and what is pushed with it is a NAL unit. -/
theorem Has.step (hhas : cl.Has h) {entry : BitVec 32 × Parcel} (hne : entry.2.payload ≠ [])
    (hharmless : h.Harmless ssrc entry) :
    ∃ cl' out, cl.processH264Rtp tr now entry.2.payload entry.1 ssrc = some (cl', out) ∧
      cl'.Has (h.after ssrc entry) ∧
      datas out = (h.pushed ssrc entry).map (startCode true ++ ·) := by
  obtain ⟨timestamp, p⟩ := entry
  have hpts := hhas.of_gathering (cl.gathering_rtpTsToPts tr now timestamp)
  cases p with
  | whole nal =>
      obtain ⟨pts, hprocess⟩ := processH264Rtp_whole tr now timestamp ssrc cl hne hharmless
      refine ⟨_, _, hprocess, hpts, ?_⟩
      rw [datas, List.map_map]
      rfl
  | fragment f =>
      have hheld := hpts.hold timestamp ssrc (f := f)
      refine ⟨_, _, processH264Rtp_fragment tr now timestamp ssrc cl f, ?_⟩
      show (takeFragment _ tr now timestamp ssrc f).1.Has (if Held.Pushes _ f then _ else _) ∧
        datas (takeFragment _ tr now timestamp ssrc f).2 =
          (if Held.Pushes _ f then [f.nal] else []).map _
      rw [takeFragment]
      by_cases hlast : f.last = true
      · have hpushes : (h.hold timestamp ssrc f).Pushes f ↔
            (h.hold timestamp ssrc f).bytes.length > 1 := and_iff_right hlast
        simp only [if_pos hlast, hpushes]
        exact hheld.endFragment tr now fun hmore => hharmless ⟨hlast, hmore⟩
      · simp only [if_neg hlast, if_neg fun hpushes : Held.Pushes _ f => hlast hpushes.1]
        exact ⟨hheld, rfl⟩

end Client

/-! ## Runs -/

/-- The payload type is the one of an H.264 track, and no track before it has it. -/
def Routed (tracks : List Track) (payloadType : Byte) : Prop :=
  ∃ i tr, tracks.findIdx? (fun tr => tr.payloadType = (payloadType.toNat : ℤ)) = some i ∧
    tracks[i]? = some tr ∧ tr.type = .video ∧ Rtsp.SameCase tr.encoding (Rtsp.text "H264")

namespace Receiver

variable {ssrc : BitVec 32} {payloadType : Byte} {r : Receiver} {h : Held}

/-- One packet. -/
theorem processUdp_step (hrouted : Routed r.tracks (payloadType &&& 0x7f)) (hhas : r.client.Has h)
    {data : List Byte} {entry : BitVec 32 × Parcel} (hholds : Holds ssrc payloadType data entry)
    (hne : entry.2.payload ≠ []) (hharmless : h.Harmless ssrc entry) (now : BitVec 64) :
    ∃ r' out, r.processUdp now data = some (r', out) ∧ r'.tracks = r.tracks ∧
      r'.client.Has (h.after ssrc entry) ∧
      datas out = (h.pushed ssrc entry).map (startCode true ++ ·) := by
  obtain ⟨i, tr, hfind, htrack, hvideo⟩ := hrouted
  obtain ⟨rtp, hparse, hpayload, htimestamp, hssrc, htype⟩ := hholds
  obtain ⟨cl, out, hprocess, hafter, hout⟩ := hhas.step tr now ssrc hne hharmless
  refine ⟨{ r with client := cl }, out, ?_, rfl, hafter, hout⟩
  rw [processUdp, hparse]
  dsimp only
  rw [htype, hfind]
  dsimp only
  rw [dispatch, htrack]
  dsimp only
  rw [if_pos hvideo, hpayload, htimestamp, hssrc, hprocess]
  rfl

/-- **Packets that do no harm**, one after the other. -/
theorem processAll_run {entries : List (BitVec 32 × Parcel)}
    {datagrams : List (BitVec 64 × List Byte)}
    (hholds : List.Forall₂ (fun datagram entry => Holds ssrc payloadType datagram.2 entry) datagrams
      entries) (hne : ∀ entry ∈ entries, entry.2.payload ≠ [])
    (hrouted : Routed r.tracks (payloadType &&& 0x7f)) (hhas : r.client.Has h)
    (hharmless : h.HarmlessAll ssrc entries) :
    ∃ r' out, r.processAll datagrams = some (r', out) ∧
      datas out = (h.pushedAll ssrc entries).map (startCode true ++ ·) := by
  induction hholds generalizing r h with
  | nil => exact ⟨r, [], rfl, rfl⟩
  | @cons datagram entry datagrams entries hone _ ih =>
      obtain ⟨now, data⟩ := datagram
      obtain ⟨hfirst, hrest⟩ := hharmless
      obtain ⟨r₁, out₁, hprocess, htracks, hafter, hout₁⟩ :=
        processUdp_step hrouted hhas hone (hne entry mem_cons_self) hfirst now
      obtain ⟨r₂, out₂, hprocessAll, hout₂⟩ :=
        ih (fun other hother => hne other (mem_cons_of_mem entry hother)) (htracks ▸ hrouted)
          hafter hrest
      refine ⟨r₂, out₁ ++ out₂, ?_, ?_⟩
      · rw [processAll, hprocess]
        dsimp only [bind_eq_bind, bind_some]
        rw [hprocessAll]
        rfl
      · rw [datas, map_append, Held.pushedAll, map_append, ← hout₁, ← hout₂]
        rfl

end Receiver

/-! ## Packets that arrive complete and in order -/

/-- The source can be given the NAL unit: it does not have the type of a packet, or is in fragments
and as large as the array at most, and its first bit is zero. -/
def Deliverable (nal : List Byte) : Prop :=
  nal ≠ [] ∧
    if nal.length ≤ Rtsp.rtpMtu - 12 then nal.getD 0 0 &&& 0x1f ≤ 23
    else nal.length ≤ maxFuAccum ∧ nal.getD 0 0 &&& 0x80 = 0

instance (nal : List Byte) : Decidable (Deliverable nal) := inferInstanceAs (Decidable (_ ∧ _))

namespace Held

variable {ssrc timestamp : BitVec 32} {h : Held} {nal : List Byte}

theorem pieces_ne_nil (hlong : 1 < nal.length) : pieces nal ≠ [] := by
  intro hnil
  have hlength := congrArg List.length (flatten_pieces nal)
  rw [hnil, length_drop] at hlength
  have : ([] : List (List Byte)).flatten.length = 0 := rfl
  omega

/-- A last fragment that completes the NAL unit pushes it. -/
theorem pushes_of_all {f : Fragment} (hlong : 1 < nal.length) (hlast : f.last = true)
    (hall : h.fragments = fragmentsOf nal) : h.Pushes f := by
  refine ⟨hlast, ?_⟩
  rw [bytes, hall, flatMap_added_fragmentsOf (pieces_ne_nil hlong), length_cons,
    length_drop]
  omega

/-- Fragments that complete what is held. -/
theorem rest_in_order (hroom : nal.length ≤ maxFuAccum ∧ nal.getD 0 0 &&& 0x80 = 0)
    (hlong : 1 < nal.length) {first : Bool} {datas : List (List Byte)} (hne : datas ≠ [])
    (hheld : first = false → h.ssrc = ssrc ∧ h.timestamp = timestamp)
    (hall : (if first then [] else h.fragments) ++ fragmentsFrom nal first datas = fragmentsOf nal) :
    h.HarmlessAll ssrc ((fragmentsFrom nal first datas).map (timestamp, .fragment ·)) ∧
      h.pushedAll ssrc ((fragmentsFrom nal first datas).map (timestamp, .fragment ·)) = [nal] := by
  induction datas generalizing h first with
  | nil => exact absurd rfl hne
  | cons data datas ih =>
      let f : Fragment := ⟨nal, first, datas.isEmpty, data⟩
      have hhold : h.hold timestamp ssrc f =
          ⟨(if first then [] else h.fragments) ++ [f], timestamp, ssrc⟩ := by
        rw [hold]
        cases first with
        | true => rfl
        | false =>
            obtain ⟨hssrc, htimestamp⟩ := hheld rfl
            rw [if_neg Bool.false_ne_true, if_pos ⟨hssrc, htimestamp⟩, ← hssrc, ← htimestamp]
            rfl
      rw [fragmentsFrom, ← singleton_append, ← append_assoc] at hall
      rw [fragmentsFrom, map_cons, HarmlessAll, pushedAll]
      cases datas with
      | nil =>
          have hcomplete : (h.hold timestamp ssrc f).fragments = fragmentsOf nal := by
            rw [hhold, ← hall]
            exact (append_nil _).symm
          have hpushes : (h.hold timestamp ssrc f).Pushes f := pushes_of_all hlong rfl hcomplete
          refine ⟨⟨fun _ => ⟨hcomplete, hroom⟩, trivial⟩, ?_⟩
          show (if (h.hold timestamp ssrc f).Pushes f then [nal] else []) ++ [] = [nal]
          rw [if_pos hpushes]
          rfl
      | cons next rest =>
          have hstays : ¬ (h.hold timestamp ssrc f).Pushes f := fun hpushes => nomatch hpushes.1
          have hafter : h.after ssrc (timestamp, .fragment f) = h.hold timestamp ssrc f := by
            rw [after]
            exact if_neg hstays
          have hpushed : h.pushed ssrc (timestamp, .fragment f) = [] := by
            rw [pushed]
            exact if_neg hstays
          rw [hafter, hpushed, hhold]
          obtain ⟨hharmless, hrest⟩ := @ih
            ⟨(if first then [] else h.fragments) ++ [f], timestamp, ssrc⟩ false
            (cons_ne_nil next rest) (fun _ => ⟨rfl, rfl⟩) hall
          exact ⟨⟨fun hpushes => absurd hpushes hstays, hharmless⟩, hrest⟩

/-- The packets of a NAL unit, in order: it is pushed. -/
theorem parcels_in_order (h : Held) (hnal : Deliverable nal) :
    h.HarmlessAll ssrc ((parcels nal).map (timestamp, ·)) ∧
      h.pushedAll ssrc ((parcels nal).map (timestamp, ·)) = [nal] := by
  obtain ⟨hne, hkind⟩ := hnal
  have hpos := length_pos_iff.mpr hne
  rw [parcels, if_neg (by omega)]
  by_cases hwhole : nal.length ≤ Rtsp.rtpMtu - 12
  · rw [if_pos hwhole] at hkind ⊢
    have htype : nal.getD 0 0 &&& 0x1f ≠ 24 ∧ nal.getD 0 0 &&& 0x1f ≠ 28 :=
      ⟨fun h24 => absurd (h24 ▸ hkind) (by decide), fun h28 => absurd (h28 ▸ hkind) (by decide)⟩
    refine ⟨⟨htype, trivial⟩, ?_⟩
    show (if nal.getD 0 0 &&& 0x1f ≤ 23 then [nal] else []) ++ [] = [nal]
    rw [if_pos hkind]
    rfl
  · rw [if_neg hwhole] at hkind ⊢
    have hmtu : Rtsp.rtpMtu - 12 = 1388 := rfl
    rw [List.map_map]
    exact rest_in_order hkind (by omega) (pieces_ne_nil (by omega))
      (fun hfalse => by cases hfalse) rfl

/-- What each part of a list of packets pushes. -/
theorem flatMap_in_order {α : Type*} {parts : List α} {packets : α → List (BitVec 32 × Parcel)}
    {nals : α → List (List Byte)}
    (hparts : ∀ part ∈ parts, ∀ h : Held, h.HarmlessAll ssrc (packets part) ∧
      h.pushedAll ssrc (packets part) = nals part) (h : Held) :
    h.HarmlessAll ssrc (parts.flatMap packets) ∧
      h.pushedAll ssrc (parts.flatMap packets) = parts.flatMap nals := by
  induction parts generalizing h with
  | nil => exact ⟨trivial, rfl⟩
  | cons part parts ih =>
      obtain ⟨hharmless, hpushed⟩ := hparts part mem_cons_self h
      obtain ⟨hharmlessAll, hpushedAll⟩ :=
        ih (fun other hother => hparts other (mem_cons_of_mem part hother))
          (h.afterAll ssrc (packets part))
      rw [flatMap_cons, flatMap_cons, harmlessAll_append, pushedAll_append, hpushed,
        hpushedAll]
      exact ⟨⟨hharmless, hharmlessAll⟩, rfl⟩

/-- **All packets in order** do no harm, and push all NAL units in order. -/
theorem parcelsOf_in_order {aus : List AccessUnit} (hnals : ∀ nal ∈ nalsOf aus, Deliverable nal)
    (h : Held) : h.HarmlessAll ssrc (parcelsOf aus) ∧
      h.pushedAll ssrc (parcelsOf aus) = nalsOf aus := by
  refine flatMap_in_order (fun au hau h => ?_) h
  rw [map_eq_flatMap]
  refine flatMap_in_order (fun unit hunit h => ?_) h
  exact parcels_in_order h (hnals unit.1
    (mem_flatMap.mpr ⟨au, hau, mem_map_of_mem hunit⟩))

end Held

/-! ## Packets that arrive in any way -/

/-- The packets that arrive: which of them, and at what time of the clock. -/
def arriving {α : Type*} (sent : List α) (arrivals : List (ℕ × BitVec 64)) :
    List (BitVec 64 × α) :=
  arrivals.filterMap fun arrival => sent[arrival.1]?.map (arrival.2, ·)

/-- A new client holds nothing. -/
def heldAtFirst : Held := ⟨[], 0, 0⟩

theorem has_start : Client.start.Has heldAtFirst := ⟨rfl, rfl, fun _ => rfl⟩

/-- What arrives holds what it held when it was sent. -/
theorem holds_arriving {ssrc : BitVec 32} {payloadType : Byte} {packets : List (List Byte)}
    {entries : List (BitVec 32 × Parcel)}
    (h : List.Forall₂ (Holds ssrc payloadType) packets entries)
    (arrivals : List (ℕ × BitVec 64)) :
    List.Forall₂ (fun datagram entry => Holds ssrc payloadType datagram.2 entry)
      (arriving packets arrivals) ((arriving entries arrivals).map Prod.snd) := by
  induction arrivals with
  | nil => exact .nil
  | cons arrival arrivals ih =>
      rw [arriving, arriving, filterMap_cons, filterMap_cons]
      by_cases hi : arrival.1 < packets.length
      · have hi' : arrival.1 < entries.length := h.length_eq ▸ hi
        rw [getElem?_eq_getElem hi, getElem?_eq_getElem hi']
        exact .cons (h.get hi hi') ih
      · have hi' : ¬ arrival.1 < entries.length := h.length_eq ▸ hi
        rw [getElem?_eq_none (not_lt.mp hi), getElem?_eq_none (not_lt.mp hi')]
        exact ih

theorem mem_of_mem_arriving {α : Type*} {sent : List α} {arrivals : List (ℕ × BitVec 64)}
    {entry : BitVec 64 × α} (hentry : entry ∈ arriving sent arrivals) : entry.2 ∈ sent := by
  obtain ⟨arrival, -, hentry⟩ := mem_filterMap.mp hentry
  obtain ⟨x, hx, rfl⟩ := map_eq_some_iff.mp hentry
  exact mem_of_getElem? hx

/-- Looking up every place of a list gives the list. -/
theorem filterMap_range {α : Type*} (l : List α) :
    (range l.length).filterMap (l[·]?) = l := by
  induction l with
  | nil => rfl
  | cons x l ih =>
      rw [length_cons, range_succ_eq_map, filterMap_cons, filterMap_map]
      exact congrArg (x :: ·) ih

/-- Everything arrives once and in order. -/
theorem arriving_in_order {α : Type*} {sent : List α} {arrivals : List (ℕ × BitVec 64)}
    (h : arrivals.map Prod.fst = range sent.length) :
    (arriving sent arrivals).map Prod.snd = sent := by
  have hmap : (arriving sent arrivals).map Prod.snd =
      (arrivals.map Prod.fst).filterMap (sent[·]?) := by
    rw [arriving, map_filterMap, filterMap_map]
    refine filterMap_congr fun arrival _ => ?_
    rw [Option.map_map]
    exact map_id'
  rw [hmap, h]
  exact filterMap_range sent

/-- Only NAL units of the access units have been pushed, each complete and behind a start code. -/
def PushesOnly (aus : List AccessUnit) (result : Option (Receiver × List Pushed)) : Prop :=
  ∃ r out, result = some (r, out) ∧
    ∀ data ∈ datas out, ∃ nal ∈ nalsOf aus, data = startCode true ++ nal

/-- All NAL units of the access units have been pushed, in order. -/
def PushesAll (aus : List AccessUnit) (result : Option (Receiver × List Pushed)) : Prop :=
  ∃ r out, result = some (r, out) ∧ datas out = (nalsOf aus).map (startCode true ++ ·)

theorem payload_ne_of_mem_parcelsOf {aus : List AccessUnit} {entry : BitVec 32 × Parcel}
    (hentry : entry ∈ parcelsOf aus) : entry.2.payload ≠ [] := by
  obtain ⟨au, -, hentry⟩ := mem_flatMap.mp hentry
  obtain ⟨unit, -, hentry⟩ := mem_flatMap.mp hentry
  obtain ⟨p, hp, rfl⟩ := mem_map.mp hentry
  exact payload_ne_nil p hp

/-- The run of the source over the packets that arrive does no harm. -/
theorem processAll_arriving {aus : List AccessUnit} {st : Stream} {tracks : List Track}
    (hrouted : Routed tracks (st.payloadType &&& 0x7f)) {arrivals : List (ℕ × BitVec 64)}
    (hharmless : heldAtFirst.HarmlessAll st.ssrc
      ((arriving (parcelsOf aus) arrivals).map Prod.snd)) :
    ∃ r out, Receiver.processAll (arriving (sendUnits aus st).2 arrivals) ⟨Client.start, tracks⟩ =
        some (r, out) ∧
      datas out = (heldAtFirst.pushedAll st.ssrc
        ((arriving (parcelsOf aus) arrivals).map Prod.snd)).map (startCode true ++ ·) := by
  refine Receiver.processAll_run (holds_arriving (holds_sendUnits aus st) arrivals)
    (fun entry hentry => ?_) hrouted has_start hharmless
  obtain ⟨arrived, harrived, rfl⟩ := mem_map.mp hentry
  exact payload_ne_of_mem_parcelsOf (mem_of_mem_arriving harrived)

/-- **No damaged NAL unit is pushed** in any run in which whenever a last fragment comes the source
holds exactly the fragments of its NAL unit, if it holds anything to push, and no NAL unit of its
own has the type of a packet; and all of them are pushed when the packets arrive complete and in
order, if each of them can be delivered at all. -/
theorem pushesOnly_of_harmless (aus : List AccessUnit) (st : Stream) {tracks : List Track}
    (hrouted : Routed tracks (st.payloadType &&& 0x7f)) (arrivals : List (ℕ × BitVec 64)) :
    (heldAtFirst.HarmlessAll st.ssrc ((arriving (parcelsOf aus) arrivals).map Prod.snd) →
      PushesOnly aus (Receiver.processAll (arriving (sendUnits aus st).2 arrivals)
        ⟨Client.start, tracks⟩)) ∧
    ((∀ nal ∈ nalsOf aus, Deliverable nal) →
      arrivals.map Prod.fst = range (sendUnits aus st).2.length →
      PushesAll aus (Receiver.processAll (arriving (sendUnits aus st).2 arrivals)
        ⟨Client.start, tracks⟩)) := by
  constructor
  · intro hharmless
    obtain ⟨r, out, hrun, hout⟩ := processAll_arriving hrouted hharmless
    refine ⟨r, out, hrun, fun data hdata => ?_⟩
    rw [hout] at hdata
    obtain ⟨nal, hnal, rfl⟩ := mem_map.mp hdata
    obtain ⟨entry, hentry, rfl⟩ := Held.mem_pushedAll hnal
    obtain ⟨arrived, harrived, rfl⟩ := mem_map.mp hentry
    exact ⟨_, nal_mem_of_mem_parcelsOf (mem_of_mem_arriving harrived), rfl⟩
  · intro hnals horder
    rw [(holds_sendUnits aus st).length_eq] at horder
    have hall := arriving_in_order horder
    obtain ⟨hharmless, hpushed⟩ := @Held.parcelsOf_in_order st.ssrc _ hnals heldAtFirst
    rw [← hall] at hharmless
    obtain ⟨r, out, hrun, hout⟩ := processAll_arriving hrouted hharmless
    rw [hall, hpushed] at hout
    exact ⟨r, out, hrun, hout⟩

/-! ## A last fragment that comes twice -/

/-- A track of H.264. -/
def videoTrack : Track := ⟨.video, 96, Rtsp.text "H264", 90000, false, 0, 0⟩

/-- A stream of the server. -/
def videoStream : Stream :=
  ⟨7, 0, 0, 0, 0, 90000, 96, some .h264, 0, 0, false, ⟨0, 0⟩⟩

/-- A NAL unit that needs two packets, with three bytes in the second one. -/
def longNal : List Byte := 0x65 :: replicate 1389 0xaa

/-- An access unit of it. -/
def longUnits : List AccessUnit := [⟨3000, [(longNal, true)]⟩]

theorem routed_videoTrack : Routed [videoTrack] (videoStream.payloadType &&& 0x7f) :=
  ⟨0, videoTrack, by decide, rfl, rfl, by decide⟩

/-- The second packet early, and then both of them; and both of them alone. -/
theorem pushesOnly_longUnits :
    PushesOnly longUnits (Receiver.processAll
      (arriving (sendUnits longUnits videoStream).2 [(1, 1), (0, 1), (1, 1)])
      ⟨Client.start, [videoTrack]⟩) ∧
    PushesAll longUnits (Receiver.processAll
      (arriving (sendUnits longUnits videoStream).2 [(0, 1), (1, 1)])
      ⟨Client.start, [videoTrack]⟩) :=
  ⟨(pushesOnly_of_harmless longUnits videoStream routed_videoTrack [(1, 1), (0, 1), (1, 1)]).1
      (by decide +kernel),
    (pushesOnly_of_harmless longUnits videoStream routed_videoTrack [(0, 1), (1, 1)]).2
      (by decide +kernel) (by decide +kernel)⟩

theorem lengths_pushed : (Receiver.processAll
    (arriving (sendUnits longUnits videoStream).2 [(0, 1), (1, 1), (1, 1)])
    ⟨Client.start, [videoTrack]⟩).map (fun result => (datas result.2).map List.length) =
      some [1394, 7] := by
  decide +kernel

/-- Two packets, and the second one once more: its bytes are pushed as a NAL unit. -/
theorem pushes_damaged : ¬ PushesOnly longUnits (Receiver.processAll
    (arriving (sendUnits longUnits videoStream).2 [(0, 1), (1, 1), (1, 1)])
    ⟨Client.start, [videoTrack]⟩) := by
  rintro ⟨r, out, hrun, hnals⟩
  have hlengths : (datas out).map List.length = [1394, 7] := by
    have := lengths_pushed
    rw [hrun] at this
    exact Option.some.inj this
  have hseven : 7 ∈ (datas out).map List.length := by
    rw [hlengths]
    decide
  obtain ⟨data, hdata, hshort⟩ := mem_map.mp hseven
  obtain ⟨nal, hnal, rfl⟩ := hnals data hdata
  have hlong : nal = longNal := mem_singleton.mp hnal
  rw [hlong, longNal, length_append, length_cons, length_replicate] at hshort
  omega

end Zstreamer.RtspSource

/-
# The clock of a stream

The first buffer that is delivered to a client gives the base of the timestamps: its time stands
for the timestamp that the answer to PLAY has announced.  A base of zero means that there is none
yet, although a buffer may have that time, and the product with the rate of the clock is a signed
one.
-/

import Zstreamer.Foundation.Ticks
import Zstreamer.Rtsp.Audio
import Zstreamer.Rtsp.RoundTrip

namespace Zstreamer.Rtsp

open Foundation Rtp

/-- A buffer on its way to a stream: one of video with the cache of the session, or one of audio. -/
inductive Media
  | video (cache : List Byte) (buf : Rtp.Buffer)
  | audio (buf : Rtp.Buffer)

/-- The time of the buffer. -/
def Media.pts : Media → BitVec 64
  | .video _ buf => buf.pts
  | .audio buf => buf.pts

namespace Stream

/-- The body of the loop over the clients, for either kind of buffer. -/
def receive (st : Stream) : Media → Option Sent
  | .video cache buf => some (st.deliver cache buf)
  | .audio buf => st.deliverAudio buf

/-- Buffers one after the other. -/
def receiveAll : List Media → Stream → Option (List Sent)
  | [], _ => some []
  | item :: items, st =>
      (st.receive item).bind fun sent => (receiveAll items sent.stream).map (sent :: ·)

/-- What the clock of a stream consists of. -/
structure SameClock (st st' : Stream) : Prop where
  timestamp : st'.timestamp = st.timestamp
  basePts : st'.basePts = st.basePts
  baseRtpTs : st'.baseRtpTs = st.baseRtpTs
  clockRate : st'.clockRate = st.clockRate

theorem sameClock_sendAll (requests : List Rtp.Request) (st : Stream) :
    SameClock st (st.sendAll requests).1 := by
  induction requests generalizing st with
  | nil => exact ⟨rfl, rfl, rfl, rfl⟩
  | cons r requests ih =>
      have h := ih (st.send r).1
      exact ⟨h.timestamp, h.basePts, h.baseRtpTs, h.clockRate⟩

/-- All packets are stamped with the timestamp of the stream. -/
theorem stampOf_sendAll (requests : List Rtp.Request) (st : Stream) :
    ∀ packet ∈ (st.sendAll requests).2, stampOf packet = st.timestamp := by
  induction requests generalizing st with
  | nil => exact nofun
  | cons r requests ih =>
      intro packet hpacket
      rcases List.mem_cons.mp hpacket with rfl | hpacket
      · exact stampOf_header _ _
      · exact ih (st.send r).1 packet hpacket

/-- **A buffer sets the clock, and its packets show it.** -/
theorem receive_spec {st : Stream} {item : Media} {sent : Sent}
    (h : st.receive item = some sent) :
    SameClock (st.stamp item.pts) sent.stream ∧
      ∀ packet ∈ sent.packets, stampOf packet = (st.stamp item.pts).timestamp := by
  cases item with
  | video cache buf =>
      cases h
      rw [Media.pts, deliver]
      dsimp only
      split
      case isFalse => exact ⟨⟨rfl, rfl, rfl, rfl⟩, nofun⟩
      case isTrue =>
        rw [packetizeAll_eq]
        have hclock := sameClock_sendAll (requestsFor
          ((st.stamp buf.pts).unitsFor cache (Rtsp.seen buf.data)) (st.stamp buf.pts).timestamp)
          (st.stamp buf.pts)
        exact ⟨⟨hclock.timestamp, hclock.basePts, hclock.baseRtpTs, hclock.clockRate⟩,
          stampOf_sendAll _ _⟩
  | audio buf =>
      rw [receive, deliverAudio] at h
      rw [Media.pts]
      split at h
      case isFalse =>
        cases h
        exact ⟨⟨rfl, rfl, rfl, rfl⟩, nofun⟩
      case isTrue =>
        obtain ⟨out, hout, rfl⟩ := Option.map_eq_some_iff.mp h
        rw [aacPacketize] at hout
        split at hout
        case isFalse => cases hout
        case isTrue =>
          cases hout
          refine ⟨⟨rfl, rfl, rfl, rfl⟩, fun packet hpacket => ?_⟩
          obtain rfl := List.mem_singleton.mp hpacket
          exact stampOf_header _ _

/-! ## When the timestamps follow the media -/

/-- The ticks of the time that has passed since the first buffer. -/
def ticksSince (rate : BitVec 32) (first pts : BitVec 64) : BitVec 32 :=
  BitVec.ofNat 32 (ticks second rate.toNat (pts.toNat - first.toNat))

/-- The base is not taken for a missing one, and the product of a buffer is a positive `int64_t`. -/
structure Follows (rate : BitVec 32) (first pts : BitVec 64) : Prop where
  based : first ≠ 0 ∨ pts = 0
  product : (pts.toNat - first.toNat) * rate.toNat < 2 ^ 63

/-- The difference in ticks, where the product has room. -/
theorem ticks_of_product {rate : BitVec 32} {first pts : BitVec 64} (hle : first ≤ pts)
    (hproduct : (pts.toNat - first.toNat) * rate.toNat < 2 ^ 63) :
    ((if (pts - first).msb then 0 else pts - first) * rate.setWidth 64 /
      1000000000).setWidth 32 = ticksSince rate first pts := by
  have hdiff : (pts - first).toNat = pts.toNat - first.toNat := BitVec.toNat_sub_of_le hle
  have hrate : (rate.setWidth 64).toNat = rate.toNat := by
    rw [BitVec.toNat_setWidth]
    exact Nat.mod_eq_of_lt (Nat.lt_trans rate.isLt (by decide))
  rw [← BitVec.toNat_inj, BitVec.toNat_setWidth, BitVec.toNat_udiv, BitVec.toNat_mul, hrate,
    ticksSince, BitVec.toNat_ofNat, ticks, second]
  by_cases hmsb : (pts - first).msb = true
  · -- with so long a time the rate can only be zero
    rw [BitVec.msb_eq_true_iff_two_mul_ge, hdiff] at hmsb
    have hzero : rate.toNat = 0 := by
      by_contra hne
      have hmore := Nat.le_mul_of_pos_right (pts.toNat - first.toNat) (Nat.pos_of_ne_zero hne)
      omega
    rw [hzero, Nat.mul_zero, Nat.mul_zero]
    rfl
  · rw [if_neg hmsb, hdiff, Nat.mod_eq_of_lt (Nat.lt_trans hproduct (by decide))]
    rfl

/-- The clock of a stream whose first buffer had this time. -/
structure OnClock (rtptime : BitVec 32) (first : BitVec 64) (rate : BitVec 32) (st : Stream) :
    Prop where
  basePts : st.basePts = first
  clockRate : st.clockRate = rate
  base : if first = 0 then st.timestamp = rtptime else st.baseRtpTs = rtptime

/-- **One buffer**: its timestamp follows the media, and the clock is kept. -/
theorem stamp_spec {rtptime : BitVec 32} {first pts : BitVec 64} {st : Stream}
    (h : (st.basePts = 0 ∧ st.timestamp = rtptime ∧ first = pts) ∨
      OnClock rtptime first st.clockRate st) (hle : first ≤ pts)
    (hfollows : Follows st.clockRate first pts) :
    OnClock rtptime first st.clockRate (st.stamp pts) ∧
      (st.stamp pts).timestamp = rtptime + ticksSince st.clockRate first pts := by
  have hticks := ticks_of_product hle hfollows.product
  by_cases hnone : st.basePts = 0
  · -- the base is taken now: this is the first buffer, or all times have been zero
    have hstart : first = pts ∧ st.timestamp = rtptime := by
      rcases h with ⟨-, htimestamp, hfirst⟩ | hstarted
      · exact ⟨hfirst, htimestamp⟩
      · have hzero : first = 0 := hstarted.basePts.symm.trans hnone
        have hbase := hstarted.base
        rw [if_pos hzero] at hbase
        exact ⟨hzero.trans (hfollows.based.resolve_left (not_not.mpr hzero)).symm, hbase⟩
    obtain ⟨rfl, htimestamp⟩ := hstart
    have hstamp : (st.stamp first).timestamp = rtptime + ticksSince st.clockRate first first := by
      rw [stamp, if_pos hnone, ← hticks, ← htimestamp]
    refine ⟨⟨?_, ?_, ?_⟩, hstamp⟩
    · rw [stamp, if_pos hnone]
    · rw [stamp, if_pos hnone]
    · split
      case isTrue =>
        rw [hstamp, ticksSince, Nat.sub_self, ticks, Nat.zero_mul]
        exact BitVec.add_zero _
      case isFalse =>
        rw [stamp, if_pos hnone]
        exact htimestamp
  · obtain hstarted : OnClock rtptime first st.clockRate st :=
      h.resolve_left fun hfresh => hnone hfresh.1
    have hfirst : first ≠ 0 := fun hzero => hnone (hstarted.basePts.trans hzero)
    have hbase := hstarted.base
    rw [if_neg hfirst] at hbase
    refine ⟨⟨?_, ?_, ?_⟩, ?_⟩
    · rw [stamp, if_neg hnone]
      exact hstarted.basePts
    · rw [stamp, if_neg hnone]
    · rw [if_neg hfirst, stamp, if_neg hnone]
      exact hbase
    · rw [stamp, if_neg hnone, ← hticks, ← hbase, ← hstarted.basePts]

/-- The packets of a buffer have its timestamp. -/
def Timed (rtptime rate : BitVec 32) (first : BitVec 64) (item : Media) (sent : Sent) : Prop :=
  ∀ packet ∈ sent.packets, stampOf packet = rtptime + ticksSince rate first item.pts

/-- Buffers one after the other, none of them earlier than the first. -/
theorem receiveAll_timed {rtptime : BitVec 32} {first : BitVec 64} {items : List Media}
    {st : Stream} {sents : List Sent} (hrun : st.receiveAll items = some sents)
    (hstart : (st.basePts = 0 ∧ st.timestamp = rtptime ∧ ∀ item ∈ items.head?, first = item.pts) ∨
      OnClock rtptime first st.clockRate st)
    (hitems : ∀ item ∈ items, first ≤ item.pts ∧ Follows st.clockRate first item.pts) :
    List.Forall₂ (Timed rtptime st.clockRate first) items sents := by
  induction items generalizing st sents with
  | nil =>
      cases hrun
      exact .nil
  | cons item items ih =>
      obtain ⟨sent, hone, hrest⟩ := Option.bind_eq_some_iff.mp hrun
      obtain ⟨rest, hlater, rfl⟩ := Option.map_eq_some_iff.mp hrest
      obtain ⟨hle, hfollows⟩ := hitems item List.mem_cons_self
      have hnow : (st.basePts = 0 ∧ st.timestamp = rtptime ∧ first = item.pts) ∨
          OnClock rtptime first st.clockRate st :=
        hstart.imp_left fun ⟨hbase, htimestamp, hfirst⟩ => ⟨hbase, htimestamp, hfirst item rfl⟩
      obtain ⟨hclock, htimestamp⟩ := stamp_spec hnow hle hfollows
      obtain ⟨hsame, hpackets⟩ := receive_spec hone
      have hrate : sent.stream.clockRate = st.clockRate := hsame.clockRate.trans hclock.clockRate
      have hkept : OnClock rtptime first sent.stream.clockRate sent.stream := by
        refine ⟨hsame.basePts.trans hclock.basePts, rfl, ?_⟩
        rw [hsame.timestamp, hsame.baseRtpTs]
        exact hclock.base
      have hbehind := ih hlater (.inr hkept) fun other hother => by
        rw [hrate]
        exact hitems other (List.mem_cons_of_mem item hother)
      rw [hrate] at hbehind
      exact .cons (fun packet hpacket => (hpackets packet hpacket).trans htimestamp) hbehind

/-- The time of the first buffer. -/
def firstPts (items : List Media) : BitVec 64 := (items.head?.map Media.pts).getD 0

/-- **The timestamps of a stream follow its media** as long as the base is not taken for a missing
one and the products have room. -/
theorem timestamps_follow {st : Stream} {items : List Media} {sents : List Sent}
    (hfresh : st.basePts = 0) (hrun : st.receiveAll items = some sents)
    (hordered : (items.map Media.pts).Pairwise (· ≤ ·))
    (hfollows : ∀ item ∈ items, Follows st.clockRate (firstPts items) item.pts) :
    List.Forall₂ (Timed st.timestamp st.clockRate (firstPts items)) items sents := by
  refine receiveAll_timed hrun (.inl ⟨hfresh, rfl, fun item hitem => ?_⟩) fun item hitem => ?_
  · rw [firstPts, Option.mem_def.mp hitem]
    rfl
  · refine ⟨?_, hfollows item hitem⟩
    cases items with
    | nil => cases hitem
    | cons head items =>
        rcases List.mem_cons.mp hitem with rfl | hlater
        · exact BitVec.le_refl _
        · exact (List.pairwise_cons.mp hordered).1 _ (List.mem_map_of_mem hlater)

/-- A second of audio, behind a buffer of another time than zero. -/
def oneSecond (start : BitVec 64) : List Media :=
  [.audio ⟨[1], start, false⟩, .audio ⟨[2], start + 1000000000, false⟩]

theorem timestamps_follow_second :
    ∃ sents, audioStream.receiveAll (oneSecond 5) = some sents ∧
      List.Forall₂ (Timed 1000 48000 5) (oneSecond 5) sents := by
  refine ⟨_, rfl, ?_⟩
  refine @timestamps_follow audioStream (oneSecond 5) _ rfl rfl ?_ ?_
  · decide
  · intro item hitem
    rcases List.mem_cons.mp hitem with rfl | hitem
    · exact ⟨.inl (by decide), by decide⟩
    · obtain rfl := List.mem_singleton.mp hitem
      exact ⟨.inl (by decide), by decide⟩

/-- Behind a buffer of time zero, the second buffer is taken for the first. -/
theorem timestamps_from_zero :
    ∃ sents, audioStream.receiveAll (oneSecond 0) = some sents ∧
      ¬ List.Forall₂ (Timed 1000 48000 0) (oneSecond 0) sents := by
  refine ⟨_, rfl, fun h => ?_⟩
  obtain ⟨-, hrest⟩ := List.forall₂_cons.mp h
  obtain ⟨hsecond, -⟩ := List.forall₂_cons.mp hrest
  have hstamp := hsecond _ List.mem_cons_self
  revert hstamp
  decide

end Stream

end Zstreamer.Rtsp

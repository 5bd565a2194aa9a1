/-
# A client that begins to play

A client that has not had any parameter sets is sent the whole cache of the session, unless
the buffer that is its turn has a set itself.  So what it has is what was pushed last, as long
as nobody goes back to an earlier set before that, and nothing is pushed past the client.

What has got to a client is followed from outside: which buffers it is sent, and which ones
the session has seen.
-/

import Zstreamer.Rtsp.ParameterSets

namespace Zstreamer.Rtsp

open Foundation Rtp List

/-- The NAL units that a client is sent. -/
def Sent.nals (s : Sent) : List (List Byte) := s.units.map Prod.fst

/-! ## What is right -/

/-- If sets of both kinds have been pushed, the last ones that were sent are the last ones that were
pushed. -/
def Told (pushed sent : List (List Byte)) : Prop :=
  (∀ k, lastSet k pushed ≠ none) → ∀ k, lastSet k sent = lastSet k pushed

/-- Whenever a slice is sent, the client has been told; the slices that a push sends have the same
NAL units behind them as in the buffer. -/
def Started : List (List Byte) → List (List Byte) → List Push → List Sent → Prop
  | pushed, sent, p :: pushes, s :: sents =>
      (∀ front slice back sentFront, p.unit.nals = front ++ slice :: back →
        s.nals = sentFront ++ slice :: back → isSlice slice = true →
        Told (pushed ++ front) (sent ++ sentFront)) ∧
      Started (pushed ++ p.unit.nals) (sent ++ s.nals) pushes sents
  | _, _, _, _ => True

/-! ## Following the sets -/

/-- The session does not see the buffer. -/
def Push.Lost (p : Push) (sess : ℕ) (start : Stream) : Prop :=
  Dropped sess (p.viewers start) p.late p.unit.buffer

instance (p : Push) (sess : ℕ) (start : Stream) : Decidable (p.Lost sess start) :=
  inferInstanceAs (Decidable (Dropped _ _ _ _))

/-- The client is sent the buffer. -/
def Push.Gets (p : Push) (sess : ℕ) (start : Stream) : Prop :=
  ¬ p.Lost sess start ∧ Viewer.Served ⟨p.client, start⟩ sess (p.multicastSent sess)

instance (p : Push) (sess : ℕ) (start : Stream) : Decidable (p.Gets sess start) :=
  inferInstanceAs (Decidable (_ ∧ _))

/-- What has been pushed, what the session has seen of it, whether the client has been sent any
sets, and whether the last set of a kind has got to it. -/
structure Watch where
  pushed : List (List Byte)
  seen : List (List Byte)
  begun : Bool
  current : ParameterSet → Bool

/-- Before anything is pushed. -/
def Watch.fresh : Watch := ⟨[], [], false, fun _ => true⟩

/-- The first buffer without sets is sent behind all that have been seen. -/
def Watch.Replays (w : Watch) (nals : List (List Byte)) : Prop :=
  w.begun = false ∧ nals.any isSet = false ∧ w.seen.any isSet = true

instance (w : Watch) (nals : List (List Byte)) : Decidable (w.Replays nals) :=
  inferInstanceAs (Decidable (_ ∧ _))

/-- The last set of a kind has got to the client before these NAL units do.  Of the sets that are
sent together it is the newest one. -/
def Watch.has (w : Watch) (nals : List (List Byte)) (k : ParameterSet) : Bool :=
  if w.Replays nals then lastSet k (setsOf w.seen) = lastSet k w.pushed else w.current k

/-- A push. -/
def Watch.next (sess : ℕ) (start : Stream) (w : Watch) (p : Push) : Watch :=
  let nals := p.unit.nals
  { pushed := w.pushed ++ nals
    seen := if p.Lost sess start then w.seen else w.seen ++ nals
    begun := w.begun || (p.Gets sess start && (decide (w.Replays nals) || nals.any isSet))
    current := fun k =>
      if p.Gets sess start then nals.any k.is || w.has nals k
      -- it may be pushed once more without getting to the client
      else w.current k && lastSet k (w.pushed ++ nals) = lastSet k w.pushed }

/-- Whenever the client is sent a slice, and sets of both kinds have been pushed, the last ones are
in the same buffer or have got to the client. -/
def Watch.InTime (sess : ℕ) (start : Stream) (w : Watch) (p : Push) : Prop :=
  p.Gets sess start → ∀ front slice back, p.unit.nals = front ++ slice :: back →
    isSlice slice = true → (∀ k, lastSet k (w.pushed ++ front) ≠ none) →
    ∀ k : ParameterSet, front.any k.is = true ∨ w.has p.unit.nals k = true

/-- Every buffer of a run is one that an `int` can measure, and comes in time. -/
def Watch.Timely (sess : ℕ) (start : Stream) : List Push → Watch → Prop
  | [], _ => True
  | p :: pushes, w =>
      ((annexB p.unit.units).length < 2 ^ 31 ∧ w.InTime sess start p) ∧
        Timely sess start pushes (w.next sess start p)

/-! ## One push -/

/-- A stream later in a run. -/
def Stream.Same (st start : Stream) : Prop :=
  st.codec = start.codec ∧ st.clientRtpAddr = start.clientRtpAddr

theorem exists_paced {p : Push} {sess : ℕ} {st : Stream} (h : ∃ v ∈ p.viewers st, v.Paced sess)
    (start : Stream) : ∃ v ∈ p.viewers start, v.Paced sess := by
  obtain ⟨v, hv, hpaced⟩ := h
  rcases mem_append.mp hv with hahead | hrest
  · exact ⟨v, mem_append_left _ hahead, hpaced⟩
  · rcases mem_cons.mp hrest with rfl | hbehind
    · exact ⟨⟨p.client, start⟩, mem_append_right _ mem_cons_self, hpaced⟩
    · exact ⟨v, mem_append_right _ (mem_cons_of_mem _ hbehind), hpaced⟩

theorem lost_iff (p : Push) (sess : ℕ) (st start : Stream) :
    Dropped sess (p.viewers st) p.late p.unit.buffer ↔ p.Lost sess start :=
  or_congr Iff.rfl (and_congr ⟨fun h => exists_paced h start, fun h => exists_paced h st⟩ Iff.rfl)

theorem Stream.Same.served_iff {st start : Stream} (h : st.Same start) (client : Client) (sess : ℕ)
    (multicastSent : List Address) : Viewer.Served ⟨client, st⟩ sess multicastSent ↔
      Viewer.Served ⟨client, start⟩ sess multicastSent := by
  rw [Viewer.Served, Viewer.Served, h.1, h.2]
  rfl

/-- What a push does, as it is followed. -/
theorem Push.deliver_followed (p : Push) (sess : ℕ) (cache : List Byte) {st start : Stream}
    (h : st.Same start) :
    p.deliver sess cache st =
      (if p.Lost sess start then cache else cacheSpsPps cache p.unit.buffer.data,
        if p.Gets sess start then
          st.deliver (cacheSpsPps cache p.unit.buffer.data) p.unit.buffer
        else Viewer.idle ⟨p.client, st⟩) := by
  rw [Push.deliver_eq, if_congr (lost_iff p sess st start) rfl rfl]
  by_cases hlost : p.Lost sess start
  · rw [if_pos hlost, if_pos hlost, if_neg fun hgets : p.Gets sess start => hgets.1 hlost]
  · rw [if_neg hlost, if_neg hlost, Viewer.deliver, if_congr (h.served_iff _ _ _) rfl rfl]
    by_cases hserved : Viewer.Served ⟨p.client, start⟩ sess (p.multicastSent sess)
    · have hgets : p.Gets sess start := ⟨hlost, hserved⟩
      rw [if_pos hserved, if_pos hgets]
    · rw [if_neg hserved, if_neg fun hgets : p.Gets sess start => hserved hgets.2]

/-- A client that a buffer is delivered to is sent the cache, if it has to be, and the buffer. -/
theorem Stream.deliver_nals {st : Stream} (hcodec : st.codec = some .h264)
    {sets : List (List Byte)} (hsets : ∀ s ∈ sets, Plain s) {au : AccessUnit}
    (hau : ∀ unit ∈ au.units, Plain unit.2) (hsize : (annexB au.units).length < 2 ^ 31) :
    let replays : Prop := st.spsPpsSent = false ∧ au.nals.any isSet = false ∧ sets ≠ []
    (st.deliver (cached sets) au.buffer).nals = (if replays then sets else []) ++ au.nals ∧
      (st.deliver (cached sets) au.buffer).stream.spsPpsSent =
        (st.spsPpsSent || decide replays || au.nals.any isSet) ∧
      (st.deliver (cached sets) au.buffer).stream.Same st := by
  obtain ⟨-, -, -, hcodecNow, hsentNow, haddressNow⟩ := st.fixed_stamp au.pts
  have hnals : (frameUnits (annexB au.units)).map Prod.fst = au.nals := by
    rw [frameUnits_annexB hau, map_fst_flagLast]
    rfl
  have hempty : cached sets ≠ [] ↔ sets ≠ [] := by
    cases sets with
    | nil => exact iff_of_false (fun hne => hne rfl) fun hne => hne rfl
    | cons s sets =>
        rw [cached_cons]
        exact iff_of_true (cons_ne_nil _ _) (cons_ne_nil _ _)
  have hreplays : (st.stamp au.pts).Replays (cached sets) (annexB au.units) ↔
      (st.spsPpsSent = false ∧ au.nals.any isSet = false ∧ sets ≠ []) := by
    rw [Stream.Replays, hsentNow, hasSpsPps_annexB hau, hempty]
    rfl
  have hany : ((frameUnits (annexB au.units)).any fun unit => isParameterSet (unit.1.getD 0 0)) =
      au.nals.any isSet := by
    rw [← hnals, any_map]
    rfl
  rw [Stream.deliver_h264 hcodec]
  dsimp only [AccessUnit.buffer]
  rw [seen_eq hsize, packetizeAll_eq]
  refine ⟨?_, ?_, ?_⟩
  · rw [Sent.nals, Stream.unitsFor, if_congr hreplays rfl rfl, map_append, hnals,
      replayed_cached hsets]
    split
    · rw [map_map]
      exact congrArg (· ++ au.nals) (map_id _)
    · rfl
  · rw [Stream.sentAfter, hsentNow, decide_eq_decide.mpr hreplays, hany]
  · have hfixed := (st.stamp au.pts).fixed_sendAll (requestsFor
      ((st.stamp au.pts).unitsFor (cached sets) (annexB au.units)) (st.stamp au.pts).timestamp)
    simp only [Stream.fixed, Prod.mk.injEq] at hfixed
    obtain ⟨-, -, hcodecAfter, haddressAfter, -⟩ := hfixed
    exact ⟨hcodecAfter.trans hcodecNow, haddressAfter.trans haddressNow⟩

/-! ## The run -/

/-- What is known of the client and the session is so. -/
structure Watch.Knows (w : Watch) (start : Stream) (sent : List (List Byte)) (cache : List Byte)
    (st : Stream) : Prop where
  same : st.Same start
  plain : ∀ nal ∈ w.seen, Plain nal
  cache : cache = cached (setsOf w.seen)
  begun : st.spsPpsSent = w.begun
  unsent : w.begun = false → sent.any isSet = false
  current : ∀ k, w.current k = true → lastSet k sent = lastSet k w.pushed

theorem plain_setsOf {nals : List (List Byte)} (h : ∀ nal ∈ nals, Plain nal) :
    ∀ s ∈ setsOf nals, Plain s := by
  intro s hs
  exact h s (mem_of_mem_filter (mem_firstSeen.mp hs))

theorem setsOf_append (front back : List (List Byte)) :
    setsOf (front ++ back) = (back.filter isSet).foldl addNew (setsOf front) := by
  rw [setsOf, filter_append, firstSeen_append]
  rfl

theorem setsOf_append_of_none {front back : List (List Byte)} (h : back.any isSet = false) :
    setsOf (front ++ back) = setsOf front := by
  have hnone : back.filter isSet = [] := by
    rw [filter_eq_nil_iff]
    exact any_eq_false.mp h
  rw [setsOf_append, hnone]
  rfl

theorem setsOf_ne_nil {nals : List (List Byte)} : setsOf nals ≠ [] ↔ nals.any isSet = true := by
  rw [any_eq_true]
  constructor
  · intro hne
    obtain ⟨s, hs⟩ := exists_mem_of_ne_nil _ hne
    obtain ⟨hmem, hset⟩ := mem_filter.mp (mem_firstSeen.mp hs)
    exact ⟨s, hmem, hset⟩
  · rintro ⟨s, hmem, hset⟩
    exact ne_nil_of_mem (mem_firstSeen.mpr (mem_filter.mpr ⟨hmem, hset⟩))

section Run

variable {sess : ℕ} {start st : Stream} {w : Watch} {sent : List (List Byte)} {cache : List Byte}
  {p : Push}

/-- The cache goes on as what has been seen. -/
theorem Watch.Knows.cache_next (h : w.Knows start sent cache st)
    (hplain : ∀ unit ∈ p.unit.units, Plain unit.2) (hsize : (annexB p.unit.units).length < 2 ^ 31) :
    (∀ nal ∈ (w.next sess start p).seen, Plain nal) ∧
      (p.deliver sess cache st).1 = cached (setsOf (w.next sess start p).seen) := by
  rw [p.deliver_followed sess cache h.same, Watch.next]
  dsimp only
  split
  · exact ⟨h.plain, h.cache⟩
  · refine ⟨fun nal hnal => ?_, ?_⟩
    · rcases mem_append.mp hnal with hnal | hnal
      · exact h.plain nal hnal
      · obtain ⟨unit, hunit, rfl⟩ := mem_map.mp hnal
        exact hplain unit hunit
    · rw [h.cache, setsOf_append]
      exact cacheSpsPps_cached (plain_setsOf h.plain) hplain hsize

/-- A push that does not get to the client. -/
theorem Watch.Knows.next_of_not_gets (h : w.Knows start sent cache st)
    (hplain : ∀ unit ∈ p.unit.units, Plain unit.2) (hsize : (annexB p.unit.units).length < 2 ^ 31)
    (hgets : ¬ p.Gets sess start) :
    (p.deliver sess cache st).2.nals = [] ∧
      (w.next sess start p).Knows start sent (p.deliver sess cache st).1
        (p.deliver sess cache st).2.stream := by
  obtain ⟨hseen, hcache⟩ := @Watch.Knows.cache_next sess start st w sent cache p h hplain hsize
  have hidle : (p.deliver sess cache st).2 = Viewer.idle ⟨p.client, st⟩ := by
    rw [p.deliver_followed sess cache h.same]
    exact if_neg hgets
  have hbegun : (w.next sess start p).begun = w.begun := by
    show (w.begun || (decide (p.Gets sess start) && _)) = w.begun
    rw [decide_eq_false hgets, Bool.false_and, Bool.or_false]
  rw [hidle]
  refine ⟨rfl, h.same, hseen, hcache, h.begun.trans hbegun.symm,
    fun hnone => h.unsent (hbegun.symm.trans hnone), fun k hk => ?_⟩
  have hcurrent : (w.current k &&
      decide (lastSet k (w.pushed ++ p.unit.nals) = lastSet k w.pushed)) = true := by
    rw [← hk]
    exact (if_neg hgets).symm
  obtain ⟨hbefore, hlast⟩ := Bool.and_eq_true_iff.mp hcurrent
  exact (h.current k hbefore).trans (of_decide_eq_true hlast).symm

/-- What is sent in front of a buffer. -/
def Watch.replay (w : Watch) (nals : List (List Byte)) : List (List Byte) :=
  if w.Replays nals then setsOf w.seen else []

/-- What is known to have got to the client has got to it. -/
theorem Watch.Knows.lastSet_replay (h : w.Knows start sent cache st) {nals : List (List Byte)}
    {k : ParameterSet} (hhas : w.has nals k = true) :
    lastSet k (sent ++ w.replay nals) = lastSet k w.pushed := by
  rw [Watch.has] at hhas
  rw [Watch.replay]
  split at hhas
  case isTrue hreplays =>
    have hnone : lastSet k sent = none :=
      lastWith_eq_none.mpr (ParameterSet.not_any (h.unsent hreplays.1) k)
    rw [if_pos hreplays, lastSet, lastWith_append]
    rw [lastSet] at hnone
    rw [hnone, Option.or_none]
    exact of_decide_eq_true hhas
  case isFalse hnot =>
    rw [if_neg hnot, append_nil]
    exact h.current k hhas

/-- Behind some NAL units of the buffer, too. -/
theorem Watch.Knows.lastSet_front (h : w.Knows start sent cache st) {nals front : List (List Byte)}
    {k : ParameterSet} (hhas : front.any k.is = true ∨ w.has nals k = true) :
    lastSet k (sent ++ (w.replay nals ++ front)) = lastSet k (w.pushed ++ front) := by
  rw [← append_assoc]
  cases hany : front.any k.is with
  | true => rw [lastSet, lastSet, lastWith_append_of_any hany, lastWith_append_of_any hany]
  | false =>
      rw [hany] at hhas
      rw [lastSet, lastSet, lastWith_append_of_not_any hany, lastWith_append_of_not_any hany]
      exact h.lastSet_replay (hhas.resolve_left Bool.false_ne_true)

/-- A push that the client gets. -/
theorem Watch.Knows.next_of_gets (h : w.Knows start sent cache st)
    (hcodec : start.codec = some .h264) (hplain : ∀ unit ∈ p.unit.units, Plain unit.2)
    (hsize : (annexB p.unit.units).length < 2 ^ 31) (hgets : p.Gets sess start) :
    (p.deliver sess cache st).2.nals = w.replay p.unit.nals ++ p.unit.nals ∧
      (w.next sess start p).Knows start (sent ++ (p.deliver sess cache st).2.nals)
        (p.deliver sess cache st).1 (p.deliver sess cache st).2.stream := by
  obtain ⟨hseen, hcache⟩ := @Watch.Knows.cache_next sess start st w sent cache p h hplain hsize
  have hseenNext : (w.next sess start p).seen = w.seen ++ p.unit.nals := if_neg hgets.1
  have hdelivered : (p.deliver sess cache st).2 =
      st.deliver (cached (setsOf (w.seen ++ p.unit.nals))) p.unit.buffer := by
    rw [hseenNext] at hcache
    rw [p.deliver_followed sess cache h.same] at hcache ⊢
    rw [← hcache]
    dsimp only
    rw [if_pos hgets, if_neg hgets.1]
  obtain ⟨hnals, hsent, hsame⟩ := Stream.deliver_nals (h.same.1.trans hcodec)
    (plain_setsOf (hseenNext ▸ hseen)) hplain hsize
  have hreplays : (st.spsPpsSent = false ∧ p.unit.nals.any isSet = false ∧
      setsOf (w.seen ++ p.unit.nals) ≠ []) ↔ w.Replays p.unit.nals := by
    rw [h.begun, Watch.Replays]
    refine and_congr_right fun _ => and_congr_right fun hnone => ?_
    rw [setsOf_append_of_none hnone]
    exact setsOf_ne_nil
  rw [← hdelivered] at hnals hsent hsame
  have hall : (p.deliver sess cache st).2.nals = w.replay p.unit.nals ++ p.unit.nals := by
    rw [hnals, Watch.replay, if_congr hreplays rfl rfl]
    by_cases hreplay : w.Replays p.unit.nals
    · rw [if_pos hreplay, if_pos hreplay, setsOf_append_of_none hreplay.2.1]
    · rw [if_neg hreplay, if_neg hreplay]
  have hbegun : (w.next sess start p).begun =
      (w.begun || (decide (w.Replays p.unit.nals) || p.unit.nals.any isSet)) := by
    show (w.begun || (decide (p.Gets sess start) && _)) = _
    rw [decide_eq_true hgets, Bool.true_and]
  refine ⟨hall, ⟨hsame.1.trans h.same.1, hsame.2.trans h.same.2⟩, hseen, hcache, ?_, ?_, ?_⟩
  · rw [hsent, hbegun, h.begun, Bool.or_assoc]
    exact congrArg _ (congrArg (· || _) (decide_eq_decide.mpr (h.begun ▸ hreplays)))
  · intro hnone
    rw [hbegun] at hnone
    obtain ⟨hbefore, hrest⟩ := Bool.or_eq_false_iff.mp hnone
    obtain ⟨hreplay, hsets⟩ := Bool.or_eq_false_iff.mp hrest
    rw [hall, Watch.replay, if_neg (of_decide_eq_false hreplay), nil_append, any_append,
      h.unsent hbefore, hsets]
    rfl
  · intro k hk
    have hcurrent : (p.unit.nals.any k.is || w.has p.unit.nals k) = true := by
      rw [← hk]
      exact (if_pos hgets).symm
    rw [hall]
    exact h.lastSet_front (Bool.or_eq_true_iff.mp hcurrent)

/-- **A client that begins to play is told**, as long as every buffer comes in time. -/
theorem started_of_knows {pushes : List Push} (hcodec : start.codec = some .h264)
    (hplain : ∀ p ∈ pushes, ∀ unit ∈ p.unit.units, Plain unit.2)
    (htimely : Watch.Timely sess start pushes w) (h : w.Knows start sent cache st) :
    Started w.pushed sent pushes (deliveries sess pushes cache st) := by
  induction pushes generalizing w sent cache st with
  | nil => trivial
  | cons p pushes ih =>
      obtain ⟨⟨hsize, hintime⟩, hrest⟩ := htimely
      have hone := hplain p mem_cons_self
      have hothers : ∀ q ∈ pushes, ∀ unit ∈ q.unit.units, Plain unit.2 :=
        fun q hq => hplain q (mem_cons_of_mem p hq)
      rw [deliveries]
      by_cases hgets : p.Gets sess start
      · obtain ⟨hnals, hknows⟩ := h.next_of_gets hcodec hone hsize hgets
        refine ⟨fun front slice back sentFront hfront hsent hslice hpushed k => ?_,
          ih hothers hrest hknows⟩
        have hsentFront : sentFront = w.replay p.unit.nals ++ front := by
          have hsame : (w.replay p.unit.nals ++ front) ++ slice :: back =
              sentFront ++ slice :: back := by
            rw [append_assoc, ← hfront, ← hnals, hsent]
          exact (append_cancel_right hsame).symm
        rw [hsentFront]
        exact h.lastSet_front (hintime hgets front slice back hfront hslice hpushed k)
      · obtain ⟨hnals, hknows⟩ := h.next_of_not_gets hone hsize hgets
        refine ⟨fun front slice back sentFront _ hsent => ?_, ?_⟩
        · rw [hnals] at hsent
          exact absurd hsent.symm (append_ne_nil_of_right_ne_nil _ (cons_ne_nil _ _))
        · rw [hnals, append_nil]
          exact ih hothers hrest hknows

end Run

/-- **A client that begins to play is told**, as long as every buffer comes in time. -/
theorem started_of_timely {sess : ℕ} {start : Stream} (hcodec : start.codec = some .h264)
    (hsent : start.spsPpsSent = false) {pushes : List Push}
    (hplain : ∀ p ∈ pushes, ∀ unit ∈ p.unit.units, Plain unit.2)
    (htimely : Watch.Timely sess start pushes .fresh) :
    Started [] [] pushes (deliveries sess pushes [] start) :=
  started_of_knows hcodec hplain htimely
    ⟨⟨rfl, rfl⟩, nofun, rfl, hsent, fun _ => rfl, fun _ _ => rfl⟩

/-- A stream that has been set up. -/
def unbegun : Stream := { begun with spsPpsSent := false }

/-- A picture with its parameter sets is pushed before the client plays. -/
def pushSets (version : Byte) : Push :=
  ⟨⟨[(true, [0x67, version]), (true, [0x68, 1]), (true, [0x65, 1])], 1⟩, .connected, [], [], false⟩

/-- A picture without sets is pushed when it does. -/
def pushPlain : Push := ⟨⟨[(true, [0x61, 1])], 1⟩, playing .tcp, [], [], false⟩

/-- The configuration changes once. -/
def changed : List Push := [pushSets 1, pushSets 2, pushPlain]

theorem started_changed : Started [] [] changed (deliveries 0 changed [] unbegun) := by
  have hearly : ∀ version w, Watch.InTime 0 unbegun w (pushSets version) := fun version w hgets =>
    absurd hgets.2.1.1 (by decide : ¬ Client.connected.session = some 0)
  refine started_of_timely rfl rfl (by decide)
    ⟨⟨by decide, hearly 1 _⟩, ⟨by decide, hearly 2 _⟩, ⟨by decide, ?_⟩, trivial⟩
  intro _ _ _ _ _ _ _ k
  cases k with
  | sps => exact .inr (by decide)
  | pps => exact .inr (by decide)

/-- It changes, and changes back. -/
def changedBack : List Push := [pushSets 1, pushSets 2, pushSets 1, pushPlain]

/-- The client is sent the sets in the order in which they were first pushed, so the last one is not
the one that is in use. -/
theorem not_started_changedBack :
    ¬ ∀ (sess : ℕ) (start : Stream) (pushes : List Push), start.codec = some .h264 →
      start.spsPpsSent = false → (∀ p ∈ pushes, ∀ unit ∈ p.unit.units, Plain unit.2) →
      Started [] [] pushes (deliveries sess pushes [] start) := by
  intro hall
  obtain ⟨-, -, -, hlast, -⟩ := hall 0 unbegun changedBack rfl rfl (by decide)
  have htold := hlast [] [0x61, 1] [] [[0x67, 1], [0x68, 1], [0x67, 2]] rfl (by decide) (by decide)
  have hpushed : ∀ k, lastSet k ([] ++ (pushSets 1).unit.nals ++ (pushSets 2).unit.nals ++
      (pushSets 1).unit.nals ++ []) ≠ none := by
    intro k
    cases k with
    | sps => decide
    | pps => decide
  exact absurd (htold hpushed .sps) (by decide)

end Zstreamer.Rtsp

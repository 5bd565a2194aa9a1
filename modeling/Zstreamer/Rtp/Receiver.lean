/-
# The depayloader is a receiver

The depayloader simulates the abstract receiver that puts groups together from numbered
pieces: its 16 bits of a sequence number stand for the number of a piece, as long as no
two packets that follow each other are too far apart, and its time stamp tells it
nothing that the number does not.
-/

import Zstreamer.Rtp.Carriage

namespace Zstreamer.Rtp

open Foundation Payloader

namespace Depayloader

/-- The depayloader is set up for the packets of a payloader. -/
structure SetUp (start : Payloader) (d : Depayloader) : Prop where
  codec : d.codec = start.codec
  payloadType : d.payloadType = start.payloadType &&& 0x7f
  filter : d.filterSsrc = true → d.expectedSsrc = start.ssrc

/-- It does not ignore them. -/
theorem SetUp.accepts {start : Payloader} {d : Depayloader} (h : SetUp start d) {rtp : View}
    (htype : rtp.payloadType = start.payloadType &&& 0x7f) (hssrc : rtp.ssrc = start.ssrc) :
    ¬ d.Ignores rtp := by
  refine not_or.mpr ⟨not_not.mpr (htype.trans h.payloadType.symm), fun hand => ?_⟩
  exact hand.2 (hssrc.trans (h.filter hand.1).symm)

/-- The depayloader holds what the receiver holds, and it has the time stamp. -/
structure Holds (timestamp : BitVec 32) (d : Depayloader) (a : Assembler Byte) : Prop where
  idle : a.held = none → d.auActive = false
  held : ∀ content, a.held = some content →
    d.auActive = true ∧ d.auData = content ∧ content ≠ [] ∧ d.auTs = timestamp
  gap : d.codec = .h264 → d.h264DiscontinuityPending = a.gap

/-- What is handed over is the same. -/
def Hands (codec : Codec) (out : Delivery) (assembled : Assembled Byte) : Prop :=
  out.data = assembled.content ∧ (codec = .h264 → out.drop = assembled.partly)

/-- What is handed over is the same data. -/
theorem map_data {codec : Codec} {outs : List Delivery}
    {assembled : List (Assembled Byte)} (h : List.Forall₂ (Hands codec) outs assembled) :
    outs.map Delivery.data = assembled.map Assembled.content := by
  induction h with
  | nil => rfl
  | cons hone _ ih => rw [List.map_cons, List.map_cons, hone.1, ih]

theorem Holds.dropPacket {timestamp : BitVec 32} {d : Depayloader} {a : Assembler Byte}
    (h : Holds timestamp d a) : Holds timestamp d.dropPacket a := ⟨h.idle, h.held, h.gap⟩

/-! ## Taking a piece -/

/-- The access unit is pushed. -/
theorem Holds.pushAu {timestamp : BitVec 32} {d : Depayloader} {content : List Byte} {gap : Bool}
    {expected : Option ℕ} (h : Holds timestamp d ⟨expected, some content, gap⟩) :
    (∃ out, d.pushAu.out = [out] ∧ Hands d.codec out ⟨content, gap⟩) ∧
      Holds timestamp d.pushAu.depayloader ⟨expected, none, false⟩ := by
  obtain ⟨hactive, rfl, hne, -⟩ := h.held content rfl
  have hpushes : ¬ (d.auActive = false ∨ d.auData = []) := by
    rw [hactive]
    exact not_or.mpr ⟨Bool.noConfusion, hne⟩
  rw [Depayloader.pushAu, if_neg hpushes]
  split
  case isTrue hdrop =>
    obtain ⟨hcodec, hpending⟩ := hdrop
    rw [pushBytes, if_neg hne]
    have hgap : gap = true := (h.gap hcodec).symm.trans hpending
    exact ⟨⟨_, rfl, rfl, fun _ => hgap.symm⟩,
      ⟨fun _ => rfl, fun _ hheld => (nomatch hheld), fun _ => rfl⟩⟩
  case isFalse hkeep =>
    rw [pushBytes, if_neg hne]
    have hpending : d.codec = .h264 → d.h264DiscontinuityPending = false := fun hcodec =>
      Bool.eq_false_of_not_eq_true fun hpending => hkeep ⟨hcodec, hpending⟩
    exact ⟨⟨_, rfl, rfl, fun hcodec => (hpending hcodec).symm.trans (h.gap hcodec)⟩,
      ⟨fun _ => rfl, fun _ hheld => (nomatch hheld), hpending⟩⟩

/-- What is held is extended, and a piece that ends a group hands it over. -/
theorem Holds.finish {rtp : View} {d : Depayloader} {p : Piece Byte} (hmarker : rtp.marker = p.ends)
    {a : Assembler Byte} {content : List Byte}
    (h : Holds rtp.timestamp d { a with held := some content }) (hextend : a.extend p = some content) :
    List.Forall₂ (Hands d.codec) (d.finish rtp).out (a.take p).2 ∧
      Holds rtp.timestamp (d.finish rtp).depayloader (a.take p).1 := by
  rw [Depayloader.finish, hmarker, Assembler.take, hextend]
  dsimp only
  cases p.ends with
  | true =>
      obtain ⟨⟨out, hout, hhands⟩, hholds⟩ := h.pushAu
      rw [if_pos rfl, if_pos rfl, hout]
      exact ⟨.cons hhands .nil, hholds⟩
  | false => exact ⟨.nil, h⟩

/-- An access unit begins where there was none. -/
theorem beginAu_of_idle (d : Depayloader) (hactive : d.auActive = false) (ts : BitVec 32) :
    (d.beginAu ts).codec = d.codec ∧ (d.beginAu ts).auActive = true ∧ (d.beginAu ts).auData = [] ∧
      (d.beginAu ts).auTs = ts ∧
      (d.beginAu ts).h264DiscontinuityPending = d.h264DiscontinuityPending := by
  rw [beginAu, hactive, if_neg fun hand => Bool.false_ne_true hand.1]
  exact ⟨rfl, rfl, rfl, rfl, rfl⟩

/-- A piece is taken as the receiver takes it. -/
theorem Holds.takePiece {rtp : View} {d : Depayloader} {a : Assembler Byte} {p : Piece Byte}
    (h : Holds rtp.timestamp d a) (hmarker : rtp.marker = p.ends)
    (hcontent : p.starts = true → p.content ≠ []) :
    List.Forall₂ (Hands d.codec) (d.takePiece rtp p).out (a.take p).2 ∧
      Holds rtp.timestamp (d.takePiece rtp p).depayloader (a.take p).1 := by
  rw [Depayloader.takePiece]
  cases hheld : a.held with
  | none =>
      have hactive := h.idle hheld
      cases hstarts : p.starts with
      | true =>
          obtain ⟨hcodec, hbegun, hdata, hts, hpending⟩ := d.beginAu_of_idle hactive rtp.timestamp
          have hextend : a.extend p = some p.content := by
            rw [Assembler.extend, hstarts, if_pos rfl, hheld]
            rfl
          rw [if_pos rfl, ← hcodec]
          refine Holds.finish (d := (d.beginAu rtp.timestamp).appendAu p.content) hmarker
            ⟨fun hnone => (by cases hnone), ?_,
              fun hh264 => hpending.trans (h.gap (hcodec.symm.trans hh264))⟩ hextend
          rintro content ⟨⟩
          exact ⟨hbegun, congrArg (· ++ p.content) hdata, hcontent hstarts, hts⟩
      | false =>
          have htake : a.take p = (a, []) := by
            rw [Assembler.take, Assembler.extend, hstarts, hheld]
            rfl
          rw [if_neg Bool.false_ne_true, if_pos (.inl hactive), htake]
          exact ⟨.nil, h.dropPacket⟩
  | some content =>
      obtain ⟨hactive, hdata, hne, hts⟩ := h.held content hheld
      have hextend : a.extend p = some (content ++ p.content) := Assembler.extend_eq (.inl hheld)
      have hsame : ¬ (d.auActive = false ∨ d.auTs ≠ rtp.timestamp) := by
        rw [hactive]
        exact not_or.mpr ⟨Bool.noConfusion, not_not.mpr hts⟩
      have hbegin : d.beginAu rtp.timestamp = d := if_pos ⟨hactive, hts⟩
      rw [hbegin, if_neg hsame, ite_self]
      refine Holds.finish (d := d.appendAu p.content) hmarker
        ⟨fun hnone => (by cases hnone), ?_, h.gap⟩ hextend
      rintro content ⟨⟩
      exact ⟨hactive, congrArg (· ++ p.content) hdata, List.append_ne_nil_of_left_ne_nil hne _, hts⟩

/-! ## Following the numbers -/

/-- The fields that the payload of a packet leaves alone. -/
def link (d : Depayloader) : Codec × Byte × Bool × BitVec 32 × Bool × BitVec 16 :=
  (d.codec, d.payloadType, d.filterSsrc, d.expectedSsrc, d.haveSeq, d.nextSeq)

@[simp]
theorem link_beginAu (d : Depayloader) (ts : BitVec 32) : (d.beginAu ts).link = d.link := by
  rw [beginAu]
  split <;> rfl

@[simp]
theorem link_appendAu (d : Depayloader) (data : List Byte) : (d.appendAu data).link = d.link := rfl

@[simp]
theorem link_pushBytes (d : Depayloader) (data : List Byte) (pts duration : BitVec 64)
    (drop : Bool) : (d.pushBytes data pts duration drop).depayloader.link = d.link := by
  rw [pushBytes]
  split <;> rfl

@[simp]
theorem link_pushAu (d : Depayloader) : d.pushAu.depayloader.link = d.link := by
  rw [Depayloader.pushAu]
  split
  · rfl
  · split
    · rw [link_pushBytes]
      rfl
    · rw [link_pushBytes]
      rfl

@[simp]
theorem link_finish (d : Depayloader) (rtp : View) : (d.finish rtp).depayloader.link = d.link := by
  rw [Depayloader.finish]
  split
  · exact d.link_pushAu
  · rfl

theorem link_takePiece (d : Depayloader) (rtp : View) (p : Piece Byte) :
    (d.takePiece rtp p).depayloader.link = d.link := by
  rw [Depayloader.takePiece]
  split
  · simp
  · split
    · rfl
    · simp

/-- The counters of a packet that can be read. -/
def counted (d : Depayloader) (p : Packet) : Depayloader :=
  { d with
    inPackets := d.inPackets + 1
    packets := d.packets + 1
    bytes := d.bytes + p.data.length }

theorem pushPacket_eq {d : Depayloader} {p : Packet} {rtp : View}
    (hparse : parseRtp p.data = some rtp) (haccept : ¬ d.Ignores rtp) :
    d.pushPacket p = ((d.counted p).follow rtp.seq).depay rtp := by
  rw [pushPacket, push, if_neg Bool.false_ne_true, hparse]
  exact if_neg haccept

/-- The depayloader is the receiver of the packets that are made of requests. -/
structure Simulates (start : Payloader) (requests : List Request) (d : Depayloader)
    (a : Assembler Byte) : Prop where
  setUp : SetUp start d
  first : a.expected = none → d.haveSeq = false ∧ a.held = none
  seq : ∀ n, a.expected = some n →
    d.haveSeq = true ∧ d.nextSeq = start.seq + BitVec.ofNat 16 n
  holds : ∃ timestamp, Holds timestamp d a ∧ (a.held ≠ none → ∃ n r,
    a.expected = some (n + 1) ∧ requests[n]? = some r ∧ r.marker = false ∧ r.timestamp = timestamp)

/-- The number of a packet is not too far from the expected one. -/
def Near (a : Assembler Byte) (i : ℕ) : Prop :=
  ∀ n, a.expected = some n → n < i + 65536 ∧ i < n + 65536

theorem Holds.of_idle {ts : BitVec 32} {d : Depayloader} {a : Assembler Byte} (h : Holds ts d a)
    (hheld : a.held = none) (ts' : BitVec 32) : Holds ts' d a :=
  ⟨h.idle, fun _ hcontent => (nomatch hheld.symm.trans hcontent), h.gap⟩

/-- Sequence numbers that are not too far apart differ when the numbers do. -/
theorem seq_inj {seq : BitVec 16} {i n : ℕ} (hlow : n < i + 65536) (hhigh : i < n + 65536)
    (heq : seq + BitVec.ofNat 16 i = seq + BitVec.ofNat 16 n) : i = n := by
  have hnat := congrArg BitVec.toNat (add_left_cancel heq)
  rw [BitVec.toNat_ofNat, BitVec.toNat_ofNat] at hnat
  omega

theorem follow_same {d : Depayloader} {seq : BitVec 16}
    (hsame : ¬ (d.haveSeq = true ∧ seq ≠ d.nextSeq)) :
    d.follow seq = { d with haveSeq := true, nextSeq := seq + 1 } := by
  rw [Depayloader.follow, if_neg hsame]

theorem link_follow (d : Depayloader) (seq : BitVec 16) : (d.follow seq).link =
    (d.codec, d.payloadType, d.filterSsrc, d.expectedSsrc, true, seq + 1) := by
  rw [Depayloader.follow]
  split <;> rfl

/-- The sequence number is compared as the receiver compares the number. -/
theorem Simulates.follow {start : Payloader} {requests : List Request} {d : Depayloader}
    {a : Assembler Byte} (h : Simulates start requests d a) (hchain : requests.IsChain SameTime)
    {i : ℕ} {r : Request} (hr : requests[i]? = some r) (hnear : Near a i) :
    Holds r.timestamp (d.follow (start.seq + BitVec.ofNat 16 i)) (a.observe i) := by
  obtain ⟨timestamp, hholds, hlast⟩ := h.holds
  cases hexpected : a.expected with
  | none =>
      obtain ⟨hfirst, hheld⟩ := h.first hexpected
      have hidle := hholds.of_idle hheld r.timestamp
      rw [follow_same fun hand => Bool.false_ne_true (hfirst.symm.trans hand.1),
        Assembler.Expects.observe (.inl hexpected)]
      exact ⟨hidle.idle, hidle.held, hidle.gap⟩
  | some n =>
      obtain ⟨hseq, hnext⟩ := h.seq n hexpected
      obtain ⟨hlow, hhigh⟩ := hnear n hexpected
      by_cases heq : i = n
      · subst heq
        rw [follow_same fun hand => hand.2 hnext.symm, Assembler.Expects.observe (.inr hexpected)]
        cases hheld : a.held with
        | none =>
            have hidle := hholds.of_idle hheld r.timestamp
            exact ⟨fun _ => hidle.idle hheld, fun _ hcontent => (by cases hcontent), hidle.gap⟩
        | some content =>
            obtain ⟨m, r', hm, hr', hmarker, rfl⟩ :=
              hlast (by rw [hheld]; exact Option.some_ne_none _)
            obtain rfl := Option.some.inj (hexpected.symm.trans hm)
            have hsame : r.timestamp = r'.timestamp := by
              obtain ⟨hi, rfl⟩ := List.getElem?_eq_some_iff.mp hr
              obtain ⟨_, rfl⟩ := List.getElem?_eq_some_iff.mp hr'
              exact List.isChain_iff_getElem.mp hchain m hi hmarker
            rw [hsame, ← hheld]
            exact ⟨hholds.idle, hholds.held, hholds.gap⟩
      · have hgap : start.seq + BitVec.ofNat 16 i ≠ d.nextSeq :=
          fun hsame => heq (seq_inj hlow hhigh (hsame.trans hnext))
        rw [Depayloader.follow, if_pos ⟨hseq, hgap⟩, Assembler.observe, hexpected]
        dsimp only
        rw [if_neg heq]
        refine ⟨fun _ => rfl, fun _ hheld => (by cases hheld), fun hcodec => ?_⟩
        have hh264 : d.codec = .h264 := hcodec
        dsimp only
        rw [hh264, decide_eq_true rfl, Bool.or_true]

/-- **A packet is received as the receiver receives its piece.** -/
theorem Simulates.receive {start : Payloader} {requests : List Request} {d : Depayloader}
    {a : Assembler Byte} (h : Simulates start requests d a) (hchain : requests.IsChain SameTime)
    {i : ℕ} {p : Packet} {r : Request} {piece : Piece Byte} (hr : requests[i]? = some r)
    (hbrings : Payloader.Brings start i p r) (hcarries : CarriesVideo start.codec r piece)
    (hnear : Near a i) :
    List.Forall₂ (Hands start.codec) (d.pushPacket p).out (a.receive i piece).2 ∧
      Simulates start requests (d.pushPacket p).depayloader (a.receive i piece).1 := by
  have hcounted : Simulates start requests (d.counted p) a :=
    ⟨⟨h.setUp.codec, h.setUp.payloadType, h.setUp.filter⟩, h.first, h.seq,
      let ⟨timestamp, hholds, hlast⟩ := h.holds
      ⟨timestamp, ⟨hholds.idle, hholds.held, hholds.gap⟩, hlast⟩⟩
  obtain ⟨nal, hnal, hcarries⟩ := hcarries
  obtain ⟨-, hparse⟩ := hbrings
  have hlink := (d.counted p).link_follow (start.seq + BitVec.ofNat 16 i)
  have hcodec : ((d.counted p).follow (start.seq + BitVec.ofNat 16 i)).codec = start.codec :=
    (congrArg Prod.fst hlink).trans h.setUp.codec
  rw [pushPacket_eq hparse (h.setUp.accepts rfl rfl), hcarries.depay hnal.carriable hcodec rfl]
  obtain ⟨hout, hholds⟩ := @Holds.takePiece ⟨r.header ++ r.payload,
      start.payloadType &&& 0x7f, r.marker, start.seq + BitVec.ofNat 16 i, r.timestamp, start.ssrc⟩
    _ _ _ (hcounted.follow hchain hr hnear) hcarries.marker_eq hcarries.content_ne
  rw [hcodec] at hout
  refine ⟨hout, ?_⟩
  have hafter := (link_takePiece _ ⟨r.header ++ r.payload, start.payloadType &&& 0x7f, r.marker,
    start.seq + BitVec.ofNat 16 i, r.timestamp, start.ssrc⟩ piece).trans hlink
  simp only [link, Prod.mk.injEq] at hafter
  obtain ⟨hcodec', htype', hfilter', hssrc', hseq', hnext'⟩ := hafter
  have hexpected : (a.receive i piece).1.expected = some (i + 1) := by
    rw [Assembler.receive, Assembler.expected_take, Assembler.expected_observe]
  refine ⟨⟨hcodec'.trans h.setUp.codec, htype'.trans h.setUp.payloadType, fun hfilter =>
    hssrc'.trans (h.setUp.filter (hfilter'.symm.trans hfilter))⟩, fun hnone => ?_, fun n hn => ?_,
    r.timestamp, hholds, fun hheld => ⟨i, r, hexpected, hr, ?_, rfl⟩⟩
  · rw [hexpected] at hnone
    cases hnone
  · rw [hexpected] at hn
    cases hn
    refine ⟨hseq', hnext'.trans ?_⟩
    rw [BitVec.ofNat_add, ← BitVec.add_assoc]
    rfl
  · exact hcarries.marker_eq.trans (Assembler.not_ends_of_held hheld)

end Depayloader

end Zstreamer.Rtp

/-! # Packets that come in order

The packets need not come from the payloader here: any packets that the depayloader
accepts will do, as long as they bring pieces of units, follow each other by number and
change the time behind a marker only.  Then the depayloader is the receiver of the
pieces, and hands over every group as a whole.
-/

namespace Zstreamer.Rtp

open Foundation

/-- A packet conveys a piece: whatever the depayloader holds, it takes the piece. -/
structure Conveys (codec : Codec) (rtp : View) (p : Piece Byte) : Prop where
  marker : rtp.marker = p.ends
  taken : ∀ d : Depayloader, d.codec = codec → d.depay rtp = d.takePiece rtp p
  content_ne : p.starts = true → p.content ≠ []

/-- The next packet of a stream: its number is the next one, and the time changes behind a marker
only. -/
def Follows (v w : View) : Prop :=
  w.seq = v.seq + 1 ∧ (v.marker = false → w.timestamp = v.timestamp)

instance : DecidableRel Follows := fun _ _ => inferInstanceAs (Decidable (_ ∧ _))

/-- The packets have these views. -/
def Parsed (packets : List Packet) (views : List View) : Prop :=
  List.Forall₂ (fun p rtp => parseRtp p.data = some rtp) packets views

namespace Depayloader

/-- A packet with the expected number, or the first one, leaves alone what is held. -/
theorem Holds.next {ts : BitVec 32} {d : Depayloader} {a : Assembler Byte} (h : Holds ts d a)
    {seq : BitVec 16} (hseq : d.haveSeq = true → seq = d.nextSeq) (p : Packet) {i : ℕ} :
    Holds ts ((d.counted p).follow seq) { a with expected := some i } := by
  have hsame : ¬ ((d.counted p).haveSeq = true ∧ seq ≠ (d.counted p).nextSeq) :=
    fun hand => hand.2 (hseq hand.1)
  rw [follow_same hsame]
  exact ⟨h.idle, h.held, h.gap⟩

/-- **In order, packets are received as the receiver receives their pieces.** -/
theorem run_in_order {codec : Codec} {packets : List Packet} {views : List View}
    {pieces : List (Piece Byte)} (hparsed : Parsed packets views)
    (hconveys : List.Forall₂ (Conveys codec) views pieces) (hchain : views.IsChain Follows)
    {d : Depayloader} (hcodec : d.codec = codec) (haccepts : ∀ rtp ∈ views, ¬ d.Ignores rtp)
    {a : Assembler Byte} {i : ℕ} (hexpects : a.Expects i)
    (hnext : ∀ rtp ∈ views.head?, (d.haveSeq = true → rtp.seq = d.nextSeq) ∧
      Holds rtp.timestamp d a) :
    List.Forall₂ (Hands codec) (pushAll packets d).2 (Assembler.run (Assembler.numbered i pieces) a).2 := by
  induction hparsed generalizing pieces d a i with
  | nil =>
      obtain rfl := List.forall₂_nil_left_iff.mp hconveys
      exact .nil
  | @cons p rtp packets views hparse _ ih =>
      obtain ⟨piece, rest, hconvey, hrest, rfl⟩ := List.forall₂_cons_left_iff.mp hconveys
      obtain ⟨hseq, hholds⟩ := hnext rtp rfl
      have hlink := (d.counted p).link_follow rtp.seq
      have hcodec' : ((d.counted p).follow rtp.seq).codec = codec :=
        (congrArg Prod.fst hlink).trans hcodec
      obtain ⟨hout, hafter⟩ := (hholds.next hseq p (i := i + 1)).takePiece hconvey.marker
        hconvey.content_ne
      have hlinkAfter := (link_takePiece _ rtp piece).trans hlink
      rw [← hconvey.taken _ hcodec', ← pushPacket_eq hparse (haccepts rtp List.mem_cons_self)]
        at hout hafter hlinkAfter
      rw [hcodec'] at hout
      simp only [link, counted, Prod.mk.injEq] at hlinkAfter
      obtain ⟨hcodecNext, htype, hfilter, hssrc, -, hnextSeq⟩ := hlinkAfter
      rw [pushAll, Assembler.numbered, Assembler.run, Assembler.receive, hexpects.observe]
      obtain ⟨hfirst, hchain⟩ := List.isChain_cons.mp hchain
      refine List.rel_append hout (ih hrest hchain (hcodecNext.trans hcodec)
        (fun other hother hignores => ?_) (.inr (Assembler.expected_take _ _)) fun other hother => ?_)
      · refine haccepts other (List.mem_cons_of_mem rtp hother) ?_
        rw [Ignores, htype, hfilter, hssrc] at hignores
        exact hignores
      · obtain ⟨hotherSeq, htime⟩ := hfirst other hother
        refine ⟨fun _ => hotherSeq.trans hnextSeq.symm, ?_⟩
        cases hheld : (Assembler.take { a with expected := some (i + 1) } piece).1.held with
        | none => exact hafter.of_idle hheld other.timestamp
        | some content =>
            have hgoes : piece.ends = false :=
              Assembler.not_ends_of_held (by rw [hheld]; exact Option.some_ne_none content)
            rw [htime (hconvey.marker.trans hgoes)]
            exact hafter

/-- The depayloader is ready for packets of a codec: it holds nothing, and no packet is missing. -/
structure Ready (codec : Codec) (d : Depayloader) : Prop where
  codec : d.codec = codec
  idle : d.auActive = false
  whole : d.h264DiscontinuityPending = false

/-- What a depayloader that is ready holds is nothing. -/
theorem Ready.holds {codec : Codec} {d : Depayloader} (h : d.Ready codec) (ts : BitVec 32) :
    Holds ts d .fresh :=
  ⟨fun _ => h.idle, fun _ hheld => (nomatch hheld), fun _ => h.whole⟩

/-- The packets are for a depayloader: it accepts them, and the first one has the number that it
expects, if it expects any. -/
structure Accepts (d : Depayloader) (views : List View) : Prop where
  accepts : ∀ rtp ∈ views, ¬ d.Ignores rtp
  first : ∀ rtp ∈ views.head?, d.haveSeq = true → rtp.seq = d.nextSeq

/-- **In order, every group of units comes back as one buffer.** -/
theorem groups_come_back {codec : Codec} {packets : List Packet} {views : List View}
    {groups : List (List (Cut Byte))} (hparsed : Parsed packets views)
    (hconveys : List.Forall₂ (Conveys codec) views (stream groups))
    (hchain : views.IsChain Follows) (hgroups : ∀ g ∈ groups, g ≠ []) {d : Depayloader}
    (hready : d.Ready codec) (haccepts : d.Accepts views) :
    (d.pushAll packets).2.map Delivery.data = groups.map groupContent := by
  have hrun := run_in_order hparsed hconveys hchain hready.codec haccepts.accepts
    (a := .fresh) (i := 0) (.inl rfl)
    fun rtp hrtp => ⟨haccepts.first rtp hrtp, hready.holds rtp.timestamp⟩
  rw [Assembler.run_stream hgroups (.inl rfl) rfl rfl] at hrun
  rw [map_data hrun, List.map_map]
  rfl

end Depayloader

end Zstreamer.Rtp

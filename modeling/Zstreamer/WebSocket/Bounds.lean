/-
# Where the frame parser touches its buffer

The parser compares what has arrived with `total_required`, the header, the mask
key and the payload length added up in 64 bits.  The peer chooses the payload
length, so it can choose one that makes the sum wrap to almost nothing.  Such a
frame passes the check at once, and the loop that unmasks its payload runs over
the whole address space.

`Overruns` is exactly this: the sum wraps, the little it wraps to has arrived, and
the payload is touched, to unmask it or to terminate it for a callback.
`parser_in_bounds` proves for every run without such a turn that all accesses stay
inside the buffer, and that an overrunning turn, wherever it is taken, does not.

The buffer only ever grows to a power of two and no allocation succeeds from
`PTRDIFF_MAX` on, so the capacity stays at most 2⁶², and making room never wraps.
-/

import Zstreamer.Foundation.Bits
import Zstreamer.WebSocket.Steps

namespace Zstreamer.WebSocket

open Foundation List Option

theorem addSize_of_lt {a b : ℕ} (hlt : a + b < 2 ^ 64) : addSize a b = a + b :=
  Nat.mod_eq_of_lt hlt

theorem subSize_of_le {a b : ℕ} (hle : b ≤ a) (hlt : a < 2 ^ 64) : subSize a b = a - b := by
  unfold subSize
  omega

/-! ## The growth rule -/

theorem smear_spread (x : ℕ) : Spread 64 x (smear x) :=
  (Spread.refl x).round.round.round.round.round.round

theorem le_smear (x : ℕ) : x ≤ smear x :=
  calc x ≤ x ||| x >>> 1 := Nat.left_le_or
    _ ≤ _ := Nat.left_le_or
    _ ≤ _ := Nat.left_le_or
    _ ≤ _ := Nat.left_le_or
    _ ≤ _ := Nat.left_le_or
    _ ≤ smear x := Nat.left_le_or

/-- A capacity that can be allocated has room for what is needed and is at most 2⁶². -/
theorem grownCap_spec {need : ℕ} (hneed : 4096 ≤ need) (hlt : need ≤ 2 ^ 62 + 4096)
    (halloc : addSize (grownCap need) 1 < 2 ^ 63) :
    need ≤ grownCap need ∧ grownCap need ≤ 2 ^ 62 := by
  have hsub : subSize need 1 = need - 1 := subSize_of_le (by omega) (by omega)
  have hle := le_smear (need - 1)
  have hspread := smear_spread (need - 1)
  unfold grownCap at halloc ⊢
  simp only [hsub, initialRxCap] at halloc ⊢
  by_cases hsmall : need - 1 < 2 ^ 62
  · have hbound := hspread.lt hsmall
    rw [addSize_of_lt (by omega : smear (need - 1) + 1 < 2 ^ 64)]
    split
    · omega
    · omega
  · -- The next power of two is 2⁶³, which is one allocation too many.
    exfalso
    have hfull : smear (need - 1) = 2 ^ 63 - 1 :=
      hspread.eq (by decide : 62 < 64) (by omega) (by omega)
    rw [hfull] at halloc
    revert halloc
    decide

/-! ## The invariant -/

/-- The received bytes fit the capacity, and the buffer has one byte more than that.  Only a
client that has just been accepted may be without a buffer. -/
structure Fits (c : Client) : Prop where
  len_le : c.rxLen ≤ c.rxCap
  cap_le : c.rxCap ≤ 2 ^ 62
  room : c.phase ≠ .closed → c.allocated = c.rxCap + 1 ∨
    (c.phase = .polling ∧ c.rxLen = 0 ∧ c.rxCap = initialRxCap)

theorem disconnect_fits (c : Client) : Fits c.disconnect where
  len_le := Nat.le_refl 0
  cap_le := Nat.zero_le _
  room := fun hopen => absurd rfl hopen

theorem Fits.processing {c : Client} (h : Fits c) (hphase : c.phase = .processing) :
    c.allocated = c.rxCap + 1 := by
  rcases h.room (by rw [hphase]; decide) with hroom | ⟨hpolling, -, -⟩
  · exact hroom
  · rw [hphase] at hpolling
    cases hpolling

theorem grow_fits {c c' : Client} {realloc : Bool} (h : Fits c) (hpolling : c.phase = .polling)
    (hgrow : c.grow realloc = some c') :
    Fits c' ∧ c'.phase = .polling ∧ c'.allocated = c'.rxCap + 1 ∧ c'.rxLen = c.rxLen ∧
      c'.handshaked = c.handshaked := by
  have hlen := h.len_le
  have hcap := h.cap_le
  have hneed : addSize c.rxLen 4096 = c.rxLen + 4096 := addSize_of_lt (by omega)
  simp only [Client.grow, hneed] at hgrow
  split at hgrow
  case isTrue =>
      split at hgrow
      case isTrue halloc =>
          cases hgrow
          obtain ⟨hfit, hbound⟩ := grownCap_spec (by omega) (by omega) halloc.2
          have hsize : addSize (grownCap (c.rxLen + 4096)) 1 = grownCap (c.rxLen + 4096) + 1 :=
            addSize_of_lt (by omega)
          refine ⟨⟨?_, hbound, fun _ => .inl hsize⟩, hpolling, hsize, rfl, rfl⟩
          exact Nat.le_trans (Nat.le_add_right _ _) hfit
      case isFalse => cases hgrow
  case isFalse hroom =>
      cases hgrow
      refine ⟨h, hpolling, ?_, rfl, rfl⟩
      rcases h.room (by rw [hpolling]; decide) with hsize | ⟨-, hzero, hinitial⟩
      · exact hsize
      · -- A client without a buffer always gets one.
        rw [hzero, hinitial] at hroom
        exact absurd (by decide) hroom

theorem receive_fits {c c' : Client} {realloc : Bool} {bytes : List UInt8} {accesses : List Access}
    (h : Fits c) (hpolling : c.phase = .polling)
    (hreceive : c.receive realloc bytes = some (c', accesses)) :
    Fits c' ∧ ∀ x ∈ accesses, x.InBounds := by
  unfold Client.receive at hreceive
  split at hreceive
  case h_1 =>
      cases hreceive
      exact ⟨disconnect_fits c, fun x hx => absurd hx not_mem_nil⟩
  case h_2 grown hgrow =>
      obtain ⟨hfits, hphase, hsize, -, -⟩ := grow_fits h hpolling hgrow
      have hlen := hfits.len_le
      have hcap := hfits.cap_le
      split at hreceive
      case isFalse => cases hreceive
      case isTrue hfree =>
          rw [subSize_of_le hlen (by omega)] at hfree
          split at hreceive
          case isTrue =>
              cases hreceive
              exact ⟨hfits, fun x hx => absurd hx not_mem_nil⟩
          case isFalse =>
              cases hreceive
              have hsum : addSize grown.rxLen bytes.length = grown.rxLen + bytes.length :=
                addSize_of_lt (by omega)
              refine ⟨⟨?_, hcap, fun _ => .inl hsize⟩, fun x hx => ?_⟩
              · change addSize grown.rxLen bytes.length ≤ grown.rxCap
                omega
              · rw [mem_singleton.mp hx]
                change grown.rxLen + bytes.length ≤ grown.allocated
                omega

/-! ## One turn of the loop -/

theorem strstr_le {needle s : List UInt8} {i : ℕ} (hfound : strstr needle s = some i) :
    i + needle.length ≤ s.length := by
  induction s generalizing i with
  | nil =>
      simp only [strstr] at hfound
      split at hfound
      case isTrue hempty =>
          cases hfound
          simp [hempty]
      case isFalse => cases hfound
  | cons a s ih =>
      simp only [strstr] at hfound
      split at hfound
      case isTrue hprefix =>
          cases hfound
          have hle := (List.isPrefixOf_iff_prefix.mp hprefix).length_le
          omega
      case isFalse =>
          obtain ⟨j, hj, rfl⟩ := map_eq_some_iff.mp hfound
          have hle := ih hj
          simp only [length_cons]
          omega

theorem text_length_le (c : Client) : c.text.length ≤ c.rxLen := by
  calc c.text.length ≤ ((range c.rxLen).map c.rxBuf).length :=
        (takeWhile_sublist _).length_le
    _ = c.rxLen := by rw [length_map, length_range]

/-- Taking bytes that have arrived off the front. -/
theorem consume_fits {c : Client} {total : ℕ} (h : Fits c) (hsize : c.allocated = c.rxCap + 1)
    (htotal : total ≤ c.rxLen) :
    Fits (c.consume total).1 ∧ (c.consume total).1.rxLen ≤ c.rxLen ∧
      ∀ x ∈ (c.consume total).2, x.InBounds := by
  have hlen := h.len_le
  have hcap := h.cap_le
  have hrest : subSize c.rxLen total = c.rxLen - total := subSize_of_le htotal (by omega)
  simp only [Client.consume, hrest]
  refine ⟨⟨?_, hcap, fun _ => .inl hsize⟩, Nat.sub_le _ _, ?_⟩
  · exact Nat.le_trans (Nat.sub_le _ _) hlen
  · intro x hx
    simp only [mem_cons, not_mem_nil, or_false] at hx
    rcases hx with rfl | rfl
    · change total + (c.rxLen - total) ≤ c.allocated
      omega
    · change 0 + (c.rxLen - total) ≤ c.allocated
      omega

/-- Finishing the handshake takes its bytes off the front. -/
theorem handshaked_fits {c : Client} {total : ℕ} {reads : List Access} (h : Fits c)
    (hsize : c.allocated = c.rxCap + 1) (htotal : total ≤ c.rxLen)
    (hreads : ∀ x ∈ reads, x.InBounds) :
    Fits { (c.consume total).1 with handshaked := true } ∧
      { (c.consume total).1 with handshaked := true }.rxLen ≤ c.rxLen ∧
      ∀ x ∈ reads ++ (c.consume total).2, x.InBounds := by
  have hconsume := consume_fits h hsize htotal
  generalize c.consume total = rest at hconsume ⊢
  obtain ⟨hfits, hless, hmoves⟩ := hconsume
  refine ⟨⟨hfits.len_le, hfits.cap_le, hfits.room⟩, hless, fun x hx => ?_⟩
  rcases mem_append.mp hx with hread | hmove
  · exact hreads x hread
  · exact hmoves x hmove

theorem handshake_fits {c : Client} (h : Fits c) (hphase : c.phase = .processing) :
    Fits c.handshake.1 ∧ c.handshake.1.rxLen ≤ c.rxLen ∧
      ∀ x ∈ c.handshake.2, x.InBounds := by
  have hsize := h.processing hphase
  have hlen := h.len_le
  have htext := text_length_le c
  have hreads : ∀ x ∈ [c.access c.rxLen 1, c.access 0 (c.text.length + 1)], x.InBounds := by
    intro x hx
    simp only [mem_cons, not_mem_nil, or_false] at hx
    rcases hx with rfl | rfl
    · change c.rxLen + 1 ≤ c.allocated
      omega
    · change 0 + (c.text.length + 1) ≤ c.allocated
      omega
  have hclosed := disconnect_fits c
  unfold Client.handshake
  simp only
  split
  case h_1 =>
      split
      · exact ⟨hclosed, Nat.zero_le _, hreads⟩
      · exact ⟨⟨hlen, h.cap_le, fun _ => .inl hsize⟩, Nat.le_refl _, hreads⟩
  case h_2 lineAt hline =>
      split
      case h_1 => exact ⟨hclosed, Nat.zero_le _, hreads⟩
      case h_2 keyAt hkey =>
          split
          · exact ⟨hclosed, Nat.zero_le _, hreads⟩
          · dsimp only
            exact handshaked_fits h hsize (Nat.le_trans (strstr_le hline) htext) hreads

theorem longLength_lt (c : Client) : c.longLength < 2 ^ 64 := by
  have hfold : ∀ (ks : List ℕ) (len : ℕ), len < 2 ^ 64 →
      ks.foldl (fun len k => ((len <<< 8) % 2 ^ 64) ||| (c.rxBuf (2 + k)).toNat) len < 2 ^ 64 := by
    intro ks
    induction ks with
    | nil => exact fun len hlen => hlen
    | cons k ks ih =>
        intro len _
        apply ih
        apply Nat.or_lt_two_pow (Nat.mod_lt _ (by decide))
        exact Nat.lt_of_lt_of_le (c.rxBuf (2 + k)).toNat_lt (by decide)
  exact hfold _ 0 (by decide)

/-- A header that has arrived is part of what has arrived, and its length is 64 bits. -/
theorem header_spec {c : Client} {h : Header} (hheader : c.header = some h) :
    2 ≤ h.headerLen ∧ h.headerLen ≤ 10 ∧ h.headerLen ≤ c.rxLen ∧ h.payloadLen < 2 ^ 64 := by
  unfold Client.header at hheader
  split at hheader
  case isTrue => cases hheader
  case isFalse htwo =>
      simp only at hheader
      split at hheader
      case isTrue =>
          cases hheader
          have hbyte := (c.rxBuf 1 &&& 0x7F).toNat_lt
          simp only
          omega
      case isFalse =>
          split at hheader
          case isTrue =>
              split at hheader
              case isTrue => cases hheader
              case isFalse hfour =>
                  cases hheader
                  have hshort : ((c.rxBuf 2).toNat <<< 8) ||| (c.rxBuf 3).toNat < 2 ^ 64 := by
                    apply Nat.or_lt_two_pow
                    · have hbyte := (c.rxBuf 2).toNat_lt
                      rw [Nat.shiftLeft_eq]
                      omega
                    · exact Nat.lt_of_lt_of_le (c.rxBuf 3).toNat_lt (by decide)
                  simp only
                  omega
          case isFalse =>
              split at hheader
              case isTrue => cases hheader
              case isFalse hten =>
                  cases hheader
                  have hlong := longLength_lt c
                  simp only
                  omega

/-- Unmasking changes bytes, not sizes. -/
theorem unmasked_fits {c : Client} (h : Header) (hfits : Fits c) :
    Fits (if h.masked then c.unmask h else c) ∧
      (if h.masked then c.unmask h else c).allocated = c.allocated ∧
      (if h.masked then c.unmask h else c).rxLen = c.rxLen ∧
      (if h.masked then c.unmask h else c).rxCap = c.rxCap := by
  split
  · exact ⟨⟨hfits.len_le, hfits.cap_le, hfits.room⟩, rfl, rfl, rfl⟩
  · exact ⟨hfits, rfl, rfl, rfl⟩

theorem frame_fits {c : Client} (onMessage : Bool) (h : Fits c) (hphase : c.phase = .processing) :
    Fits (c.frame onMessage).1 ∧ (c.frame onMessage).1.rxLen ≤ c.rxLen := by
  have hsize := h.processing hphase
  have hpolling : Fits { c with phase := .polling } := ⟨h.len_le, h.cap_le, fun _ => .inl hsize⟩
  unfold Client.frame
  split
  case h_1 => exact ⟨hpolling, Nat.le_refl _⟩
  case h_2 header _ =>
      split
      case isTrue => exact ⟨hpolling, Nat.le_refl _⟩
      case isFalse harrived =>
          split
          case isTrue => exact ⟨disconnect_fits c, Nat.zero_le _⟩
          case isFalse =>
              dsimp only
              obtain ⟨hunmasked, halloc, hlen, hcap⟩ := unmasked_fits header h
              generalize (if header.masked then c.unmask header else c) = unmasked at *
              have htotal : header.totalRequired ≤ unmasked.rxLen := by
                rw [hlen]
                exact Nat.not_lt.mp harrived
              have hconsume := consume_fits hunmasked (by rw [halloc, hcap, hsize]) htotal
              rw [hlen] at hconsume
              exact ⟨hconsume.1, hconsume.2.1⟩

/-- The condition for leaving the buffer: the frame's size wraps, the little it wraps to has
arrived, and the payload is touched. -/
def Overruns (c : Client) : Action → Prop
  | .process onMessage =>
      c.handshaked = true ∧ ∃ h, c.header = some h ∧ h.totalRequired ≤ c.rxLen ∧
        2 ^ 64 ≤ h.dataAt + h.payloadLen ∧ (h.masked = true ∨ (h.opcode = 1 ∧ onMessage = true))
  | _ => False

theorem headerReads_inBounds {c : Client} (h : Fits c) (hsize : c.allocated = c.rxCap + 1) :
    ∀ x ∈ c.headerReads, x.InBounds := by
  have hlen := h.len_le
  intro x hx
  unfold Client.headerReads at hx
  split at hx
  case isTrue => exact absurd hx not_mem_nil
  case isFalse htwo =>
      split at hx
      case h_1 =>
          rw [mem_singleton.mp hx]
          change 0 + 2 ≤ c.allocated
          omega
      case h_2 header hheader =>
          obtain ⟨hlow, -, hle, -⟩ := header_spec hheader
          simp only [mem_cons, not_mem_nil, or_false] at hx
          rcases hx with rfl | rfl
          · change 0 + 2 ≤ c.allocated
            omega
          · change 2 + (header.headerLen - 2) ≤ c.allocated
            omega

/-- The payload of a frame that passed the check ends inside the received bytes, unless its
size wrapped; then it ends far outside. -/
theorem payload_end {c : Client} {h : Header} (hfits : Fits c)
    (harrived : h.totalRequired ≤ c.rxLen) :
    (h.dataAt + h.payloadLen < 2 ^ 64 → h.dataAt + h.payloadLen ≤ c.rxLen) ∧
    (2 ^ 64 ≤ h.dataAt + h.payloadLen → c.rxCap + 1 < h.dataAt + h.payloadLen) := by
  have hcap := hfits.cap_le
  refine ⟨fun hlt => ?_, fun hwrap => by omega⟩
  rwa [Header.totalRequired, addSize_of_lt hlt] at harrived

theorem maskAccesses_inBounds {c : Client} {h : Header} (hfits : Fits c)
    (hsize : c.allocated = c.rxCap + 1) (harrived : h.totalRequired ≤ c.rxLen) :
    (∀ x ∈ c.maskAccesses h, x.InBounds) ↔
      ¬ (h.masked = true ∧ 2 ^ 64 ≤ h.dataAt + h.payloadLen) := by
  have hlen := hfits.len_le
  obtain ⟨hinside, houtside⟩ := payload_end hfits harrived
  unfold Client.maskAccesses
  split
  case isFalse hclear => exact ⟨fun _ hboth => hclear hboth.1, fun _ x hx => absurd hx not_mem_nil⟩
  case isTrue hmasked =>
      have hdata : h.dataAt = h.headerLen + 4 := by simp [Header.dataAt, hmasked]
      constructor
      · rintro hall ⟨-, hwrap⟩
        have hloop : h.dataAt + h.payloadLen ≤ c.allocated :=
          hall (c.access h.dataAt h.payloadLen) (by simp)
        have hfar := houtside hwrap
        omega
      · intro hnot x hx
        have hend := hinside (Nat.not_le.mp fun hwrap => hnot ⟨hmasked, hwrap⟩)
        simp only [mem_cons, not_mem_nil, or_false] at hx
        rcases hx with rfl | rfl
        · change h.headerLen + 4 ≤ c.allocated
          omega
        · change h.dataAt + h.payloadLen ≤ c.allocated
          omega

theorem terminator_inBounds {c : Client} {h : Header} (onMessage : Bool) (hfits : Fits c)
    (hsize : c.allocated = c.rxCap + 1) (harrived : h.totalRequired ≤ c.rxLen) :
    (∀ x ∈ c.terminator onMessage h, x.InBounds) ↔
      ¬ ((h.opcode = 1 ∧ onMessage = true) ∧ 2 ^ 64 ≤ h.dataAt + h.payloadLen) := by
  have hlen := hfits.len_le
  obtain ⟨hinside, houtside⟩ := payload_end hfits harrived
  unfold Client.terminator
  split
  case isFalse hsilent =>
      exact ⟨fun _ hboth => hsilent hboth.1, fun _ x hx => absurd hx not_mem_nil⟩
  case isTrue htext =>
      constructor
      · rintro hall ⟨-, hwrap⟩
        have hwrite : h.dataAt + h.payloadLen + 1 ≤ c.allocated :=
          hall (c.access (h.dataAt + h.payloadLen) 1) (by simp)
        have hfar := houtside hwrap
        omega
      · intro hnot x hx
        have hend := hinside (Nat.not_le.mp fun hwrap => hnot ⟨htext, hwrap⟩)
        rw [mem_singleton.mp hx]
        change h.dataAt + h.payloadLen + 1 ≤ c.allocated
        omega

theorem frame_inBounds {c : Client} (onMessage : Bool) (hfits : Fits c)
    (hphase : c.phase = .processing) (hdone : c.handshaked = true) :
    (∀ x ∈ (c.frame onMessage).2, x.InBounds) ↔ ¬ Overruns c (.process onMessage) := by
  have hsize := hfits.processing hphase
  have hreads := headerReads_inBounds hfits hsize
  unfold Client.frame
  split
  case h_1 hnone =>
      refine ⟨fun _ hover => ?_, fun _ => hreads⟩
      obtain ⟨-, h, hheader, -⟩ := hover
      rw [hnone] at hheader
      cases hheader
  case h_2 h hheader =>
      have hover : Overruns c (.process onMessage) ↔ h.totalRequired ≤ c.rxLen ∧
          2 ^ 64 ≤ h.dataAt + h.payloadLen ∧
          (h.masked = true ∨ (h.opcode = 1 ∧ onMessage = true)) := by
        constructor
        · rintro ⟨-, h', hheader', hrest⟩
          obtain rfl := Option.some.inj (hheader.symm.trans hheader')
          exact hrest
        · exact fun hrest => ⟨hdone, h, hheader, hrest⟩
      rw [hover]
      split
      case isTrue hshort =>
          exact ⟨fun _ hall => absurd hshort (Nat.not_lt.mpr hall.1), fun _ => hreads⟩
      case isFalse harrived =>
          have harrived := Nat.not_lt.mp harrived
          have hmask := maskAccesses_inBounds hfits hsize harrived
          split
          case isTrue hclose =>
              have hnotText : h.opcode ≠ 1 := by rw [hclose]; decide
              simp only [forall_mem_append, hmask, harrived, hnotText, true_and, false_and,
                or_false]
              exact ⟨fun hall hboth => hall.2 hboth.symm, fun hnot =>
                ⟨hreads, fun hboth => hnot hboth.symm⟩⟩
          case isFalse hgoesOn =>
              have hterminator := terminator_inBounds onMessage hfits hsize harrived
              obtain ⟨hunmasked, halloc, hlen, hcap⟩ := unmasked_fits h hfits
              dsimp only
              generalize (if h.masked then c.unmask h else c) = unmasked at *
              have htotal : h.totalRequired ≤ unmasked.rxLen := by
                rw [hlen]
                exact harrived
              obtain ⟨-, -, hmoves⟩ :=
                consume_fits hunmasked (by rw [halloc, hcap, hsize]) htotal
              simp only [forall_mem_append, hmask, hterminator, harrived, true_and]
              constructor
              · rintro ⟨⟨⟨-, hnotMask⟩, hnotText⟩, -⟩ ⟨hwrap, hmasked | htext⟩
                · exact hnotMask ⟨hmasked, hwrap⟩
                · exact hnotText ⟨htext, hwrap⟩
              · intro hnot
                exact ⟨⟨⟨hreads, fun hboth => hnot ⟨hboth.2, .inl hboth.1⟩⟩,
                  fun hboth => hnot ⟨hboth.2, .inr hboth.1⟩⟩, hmoves⟩

/-! ## Whole runs -/

/-- One step: the bytes still fit afterwards, and its accesses stay inside the buffer unless
it overruns. -/
theorem turn_fits {c c' : Client} {a : Action} {accesses : List Access} (h : Fits c)
    (hturn : turn c a = some (c', accesses)) :
    Fits c' ∧ ((∀ x ∈ accesses, x.InBounds) ↔ ¬ Overruns c a) := by
  cases a with
  | receive realloc bytes =>
      simp only [turn, ite_none_right_eq_some] at hturn
      obtain ⟨hfits, haccesses⟩ := receive_fits h hturn.1 hturn.2
      exact ⟨hfits, fun _ hover => hover, fun _ => haccesses⟩
  | hangUp =>
      simp only [turn, ite_none_right_eq_some, Option.some.injEq, Prod.mk.injEq] at hturn
      obtain ⟨-, rfl, rfl⟩ := hturn
      exact ⟨disconnect_fits c, fun _ hover => hover, fun _ x hx => absurd hx not_mem_nil⟩
  | process onMessage =>
      simp only [turn, ite_none_right_eq_some, Option.some.injEq] at hturn
      obtain ⟨hphase, hprocess⟩ := hturn
      unfold Client.process at hprocess
      split at hprocess
      case isTrue hdone =>
          have hfits := (frame_fits onMessage h hphase).1
          have hiff := frame_inBounds onMessage h hphase hdone
          rw [hprocess] at hfits hiff
          exact ⟨hfits, hiff⟩
      case isFalse hnew =>
          obtain ⟨hfits, -, haccesses⟩ := handshake_fits h hphase
          rw [hprocess] at hfits haccesses
          exact ⟨hfits, fun _ hover => hnew hover.1, fun _ => haccesses⟩

theorem reachable_fits {c : Client} {allowed : Client → Action → Prop}
    (hreach : client.ReachableVia allowed c) : Fits c := by
  apply System.ReachableVia.invariant _ _ hreach
  · rintro c ⟨malloc, rfl⟩
    exact ⟨Nat.zero_le _, (by decide : initialRxCap ≤ 2 ^ 62), fun _ => .inr ⟨rfl, rfl, rfl⟩⟩
  · intro c a c' _ h _ hnext
    obtain ⟨⟨c', accesses⟩, hturn, rfl⟩ := map_eq_some_iff.mp hnext
    exact (turn_fits h hturn).1

/-- **The parser stays inside its buffer** in every run without an overrunning turn.  The
received bytes never exceed the capacity; a turn of the loop never takes more off than there
is; and for a step of any kind, all its accesses stay inside the buffer exactly when it is
not an overrunning turn. -/
theorem parser_in_bounds (c : Client)
    (hreach : client.ReachableVia (fun c a => ¬ Overruns c a) c) :
    c.rxLen ≤ c.rxCap ∧
    (∀ onMessage c' accesses, turn c (.process onMessage) = some (c', accesses) →
      c'.rxLen ≤ c.rxLen) ∧
    ∀ a c' accesses, turn c a = some (c', accesses) →
      ((c'.rxLen ≤ c'.rxCap ∧ ∀ x ∈ accesses, x.InBounds) ↔ ¬ Overruns c a) := by
  have h := reachable_fits hreach
  refine ⟨h.len_le, fun onMessage c' accesses hturn => ?_, fun a c' accesses hturn => ?_⟩
  · simp only [turn, ite_none_right_eq_some, Option.some.injEq] at hturn
    obtain ⟨hphase, hprocess⟩ := hturn
    unfold Client.process at hprocess
    split at hprocess
    · have hless := (frame_fits onMessage h hphase).2
      rw [hprocess] at hless
      exact hless
    · have hless := (handshake_fits h hphase).2.1
      rw [hprocess] at hless
      exact hless
  · obtain ⟨hfits, hiff⟩ := turn_fits h hturn
    rw [← hiff]
    exact ⟨fun hboth => hboth.2, fun haccesses => ⟨hfits.len_le, haccesses⟩⟩

/-- The shortest request the handshake accepts: the key header with one character, and an
empty line. -/
def shortRequest : List UInt8 := keyHeader ++ [120] ++ emptyLine

/-- The request is accepted and the bytes of a masked one-byte text frame after it are
parsed without leaving the buffer. -/
theorem parser_in_bounds_text :
    ∃ c c' accesses, client.run (Client.accept true)
        [.receive true (shortRequest ++ [0x81, 0x81, 1, 2, 3, 4, 0x60]), .process true] = some c ∧
      turn c (.process true) = some (c', accesses) ∧ c'.rxLen = 0 ∧
      ∀ x ∈ accesses, x.InBounds := by
  obtain ⟨c, hrun, hc⟩ := map_eq_some_iff.mp
    (show (client.run (Client.accept true)
        [.receive true (shortRequest ++ [0x81, 0x81, 1, 2, 3, 4, 0x60]), .process true]).map
          (fun c => (c.header, (turn c (.process true)).map fun r => r.1.rxLen)) =
        some (some ⟨1, true, 2, 1⟩, some 0) by decide +kernel)
  obtain ⟨hheader, hturn⟩ := Prod.mk.inj hc
  obtain ⟨⟨c', accesses⟩, hturn, hlen⟩ := map_eq_some_iff.mp hturn
  have hreach : client.ReachableVia (fun c a => ¬ Overruns c a) c := by
    obtain ⟨first, hfirst, hrest⟩ := bind_eq_some_iff.mp hrun
    obtain ⟨second, hsecond, hdone⟩ := bind_eq_some_iff.mp hrest
    obtain rfl : second = c := Option.some.inj hdone
    have hnew : first.handshaked = false := by
      have hflag : (client.next (Client.accept true)
          (.receive true (shortRequest ++ [0x81, 0x81, 1, 2, 3, 4, 0x60]))).map
            (fun c => c.handshaked) = some false := by decide +kernel
      rw [hfirst] at hflag
      exact Option.some.inj hflag
    have hreceived : client.ReachableVia (fun c a => ¬ Overruns c a) first := by
      refine .step (.start ⟨true, rfl⟩) ?_ hfirst
      exact fun hover => hover
    refine .step hreceived ?_ hsecond
    rintro ⟨hflag, -⟩
    rw [hnew] at hflag
    cases hflag
  have hsafe : ¬ Overruns c (.process true) := by
    rintro ⟨-, h, hh, -, hwrap, -⟩
    obtain rfl := Option.some.inj (hheader.symm.trans hh)
    revert hwrap
    decide
  have hbounds := ((parser_in_bounds c hreach).2.2 (.process true) c' accesses hturn).mpr hsafe
  exact ⟨c, c', accesses, hrun, hturn, hlen, hbounds.2⟩

/-- A masked text frame of 2⁶⁴ - 14 bytes: with its header of 14 it needs no bytes at all, and
unmasking it runs out of the buffer. -/
theorem overrun_by_length :
    ¬ ∀ c, client.Reachable c → ∀ a c' accesses, turn c a = some (c', accesses) →
      ∀ x ∈ accesses, x.InBounds := by
  intro hclaim
  obtain ⟨c, hrun, hc⟩ := map_eq_some_iff.mp
    (show (client.run (Client.accept true)
        [.receive true (shortRequest ++
            [0x81, 0xFF, 0xFF, 0xFF, 0xFF, 0xFF, 0xFF, 0xFF, 0xFF, 0xF2, 1, 2, 3, 4]),
          .process true]).map
          (fun c => (turn c (.process true)).map fun r => decide (∀ x ∈ r.2, x.InBounds)) =
        some (some false) by decide +kernel)
  obtain ⟨⟨c', accesses⟩, hturn, hbounds⟩ := map_eq_some_iff.mp hc
  have hreach : client.Reachable c := System.Reachable.run (.start ⟨true, rfl⟩) hrun
  exact absurd (hclaim c hreach (.process true) c' accesses hturn) (of_decide_eq_false hbounds)

end Zstreamer.WebSocket

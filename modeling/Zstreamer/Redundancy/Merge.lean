/-
# Every packet once

The ring of flags is indexed by the low 12 bits of the sequence number, so each flag
stands for one extended number at a time: the one among the last 4096 up to the
highest.  A jump forward clears the flags of the numbers it leaves out, and these are
exactly the flags that change their meaning.  While arrivals stay less than half a
turn of the 16-bit numbers away from the highest, the flags say which of the last
4096 numbers have been let through.
-/

import Zstreamer.Redundancy.Demux

namespace Zstreamer.Redundancy

open Foundation List Function

/-! ## The flags -/

/-- Two numbers share a flag when they agree modulo the size of the ring. -/
theorem slot_serial (a b : ℤ) :
    slot (serial 16 a) = slot (serial 16 b) ↔ a % 4096 = b % 4096 := by
  have ha : (((serial 16 a).toNat % 4096 : ℕ) : ℤ) = a % 4096 := toNat_serial_mod (by decide) a
  have hb : (((serial 16 b).toNat % 4096 : ℕ) : ℤ) = b % 4096 := toNat_serial_mod (by decide) b
  rw [slot, slot, Fin.mk.injEq, ← ha, ← hb, Int.natCast_inj]

/-- The loop clears the flags of the numbers from `a` up to the one before `a + n`. -/
theorem clearSkipped_spec {n turns : ℕ} (hturns : n ≤ turns) (hn : n < 2 ^ 16)
    (seen : Fin 4096 → Bool) (a : ℤ) (k : Fin 4096) :
    clearSkipped turns seen (serial 16 a) (serial 16 (a + n)) k = true ↔
      seen k = true ∧ ∀ j < n, slot (serial 16 (a + j)) ≠ k := by
  induction n generalizing turns seen a with
  | zero =>
      have hdone : clearSkipped turns seen (serial 16 a) (serial 16 (a + (0 : ℕ))) = seen := by
        cases turns with
        | zero => rfl
        | succ turns => rw [clearSkipped, if_pos (by rw [Nat.cast_zero, Int.add_zero])]
      rw [hdone]
      constructor
      · intro hseen
        exact ⟨hseen, fun j hj => absurd hj (Nat.not_lt_zero j)⟩
      · exact fun h => h.1
  | succ n ih =>
      obtain ⟨turns, rfl⟩ : ∃ m, turns = m + 1 := ⟨turns - 1, by omega⟩
      have hne : serial 16 a ≠ serial 16 (a + (n + 1 : ℕ)) := by
        intro heq
        have := eq_of_serial_eq heq (by omega) (by omega)
        omega
      have hmove : a + (n + 1 : ℕ) = a + 1 + n := by omega
      rw [clearSkipped, if_neg hne, serial_add_one, hmove, ih (by omega) (by omega)]
      constructor
      · rintro ⟨hseen, hrest⟩
        have hfirst : slot (serial 16 a) ≠ k := by
          rintro rfl
          rw [update_self] at hseen
          cases hseen
        rw [update_of_ne (Ne.symm hfirst)] at hseen
        refine ⟨hseen, fun j hj => ?_⟩
        cases j with
        | zero => rwa [Nat.cast_zero, Int.add_zero]
        | succ j =>
            have := hrest j (by omega)
            rwa [show a + (j + 1 : ℕ) = a + 1 + j by omega]
      · rintro ⟨hseen, hall⟩
        have hfirst : slot (serial 16 a) ≠ k := by
          have := hall 0 (by omega)
          rwa [Nat.cast_zero, Int.add_zero] at this
        rw [update_of_ne (Ne.symm hfirst)]
        refine ⟨hseen, fun j hj => ?_⟩
        have := hall (j + 1) (by omega)
        rwa [show a + (j + 1 : ℕ) = a + 1 + j by omega] at this

/-- The flags say which of the last 4096 numbers are among `numbers`. -/
def Remembers (seen : Fin 4096 → Bool) (numbers : List ℤ) (highest : ℤ) : Prop :=
  ∀ y, highest - 4096 < y → y ≤ highest →
    (seen (slot (serial 16 y)) = true ↔ y ∈ numbers)

/-- The flags of different numbers among the last 4096 are different. -/
theorem slot_ne {highest a b : ℤ} (ha : highest - 4096 < a) (ha' : a ≤ highest)
    (hb : highest - 4096 < b) (hb' : b ≤ highest) (hne : a ≠ b) :
    slot (serial 16 a) ≠ slot (serial 16 b) := by
  intro heq
  apply hne
  apply eq_of_emod_eq (n := 4096) ((slot_serial a b).mp heq)
  · push_cast
    omega
  · push_cast
    omega

/-- Setting the flag of one of the last 4096 numbers. -/
theorem Remembers.note {seen : Fin 4096 → Bool} {numbers : List ℤ} {highest number : ℤ}
    (hlow : highest - 4096 < number) (hhigh : number ≤ highest)
    (hseen : ∀ y, highest - 4096 < y → y ≤ highest → y ≠ number →
      (seen (slot (serial 16 y)) = true ↔ y ∈ numbers)) :
    Remembers (update seen (slot (serial 16 number)) true) (number :: numbers)
      highest := by
  intro y hy hy'
  by_cases hne : y = number
  · subst hne
    simp
  · rw [update_of_ne (slot_ne hy hy' hlow hhigh hne), hseen y hy hy' hne, mem_cons]
    constructor
    · exact .inr
    · exact fun h => h.resolve_left hne

/-- The element knows the highest number and the last 4096. -/
structure Tracks (s : Demux) (numbers : List ℤ) (highest : ℤ) : Prop where
  initialized : s.initialized = true
  highestSeq : s.highestSeq = serial 16 highest
  remembers : Remembers s.seenHistory numbers highest
  le : ∀ y ∈ numbers, y ≤ highest

/-- The first packet is always let through. -/
theorem admit_first {s : Demux} (hfresh : s.initialized = false) (number : ℤ) :
    ∃ admitted, s.admit (serial 16 number) = some admitted ∧
      Tracks admitted [number] number := by
  refine ⟨_, by rw [ Demux.admit, hfresh]; rfl, rfl, rfl, ?_, ?_⟩
  · apply Remembers.note (by omega) le_rfl
    intro y hy hy' hne
    simp
  · intro y hy
    exact (mem_singleton.mp hy).le

/-- A packet ahead of the highest number is let through. -/
theorem admit_ahead {s : Demux} {numbers : List ℤ} {highest number : ℤ}
    (hs : Tracks s numbers highest) (hlow : highest < number) (hhigh : number ≤ highest + 32767) :
    ∃ admitted, s.admit (serial 16 number) = some admitted ∧
      Tracks admitted (number :: numbers) number := by
  have hdiff : (serial 16 number - s.highestSeq).toInt = number - highest := by
    rw [hs.highestSeq]
    exact toInt_serial_sub (by omega) (by omega)
  refine ⟨_, admit_of_ahead hs.initialized (by omega), hs.initialized, rfl, ?_, ?_⟩
  · apply Remembers.note (by omega) le_rfl
    intro y hy hy' hne
    split
    · rename_i hfar
      have hnew : y ∉ numbers := fun hmem => by
        have := hs.le y hmem
        omega
      simp [hnew]
    · rename_i hnear
      obtain ⟨n, hn⟩ : ∃ n : ℕ, number = highest + 1 + n :=
        ⟨(number - highest - 1).toNat, by omega⟩
      rw [hs.highestSeq, serial_add_one, hn, clearSkipped_spec (by rw [enoughTurns]; omega)
        (by omega)]
      by_cases hold : y ≤ highest
      · rw [hs.remembers y (by omega) hold]
        constructor
        · exact fun h => h.1
        · intro hmem
          refine ⟨hmem, fun j hj => slot_ne (?_ : number - 4096 < highest + 1 + j) ?_ hy hy' ?_⟩
          · omega
          · omega
          · omega
      · have hnew : y ∉ numbers := fun hmem => hold (hs.le y hmem)
        constructor
        · rintro ⟨-, hall⟩
          have := hall (y - highest - 1).toNat (by omega)
          rw [show highest + 1 + ((y - highest - 1).toNat : ℤ) = y by omega] at this
          exact absurd rfl this
        · exact fun hmem => absurd hmem hnew
  · intro y hy
    rcases mem_cons.mp hy with rfl | hmem
    · exact le_rfl
    · have := hs.le y hmem
      omega

/-- A packet not ahead is let through when it is less than 2048 behind and new. -/
theorem admit_behind {s : Demux} {numbers : List ℤ} {highest number : ℤ}
    (hs : Tracks s numbers highest) (hlow : highest - 32768 < number) (hhigh : number ≤ highest) :
    if highest - 2048 < number ∧ number ∉ numbers then
      ∃ admitted, s.admit (serial 16 number) = some admitted ∧
        Tracks admitted (number :: numbers) highest
    else s.admit (serial 16 number) = none := by
  have hdiff : (serial 16 number - s.highestSeq).toInt = number - highest := by
    rw [hs.highestSeq]
    exact toInt_serial_sub (by omega) (by omega)
  rw [admit_of_not_ahead hs.initialized (by omega), hdiff]
  by_cases hnear : highest - 2048 < number
  · have hflag := hs.remembers number (by omega) hhigh
    rw [if_pos (by omega : number - highest > -2048)]
    by_cases hmem : number ∈ numbers
    · rw [if_neg (fun h => h.2 hmem), if_pos (hflag.mpr hmem)]
    · rw [if_pos ⟨hnear, hmem⟩, if_neg (fun h => hmem (hflag.mp h))]
      refine ⟨_, rfl, hs.initialized, hs.highestSeq, ?_, ?_⟩
      · apply Remembers.note (by omega) hhigh
        intro y hy hy' _
        exact hs.remembers y hy hy'
      · intro y hy
        rcases mem_cons.mp hy with rfl | hold
        · exact hhigh
        · exact hs.le y hold
  · rw [if_neg (fun h => hnear h.1), if_neg (by omega)]

/-! ## The log of a run -/

/-- The numbers let through, the latest first. -/
def accepted (log : List Arrival) : List ℤ :=
  (log.filter fun arrival => arrival.output.forward).map fun arrival => arrival.number

/-- The highest number let through. -/
def highest (log : List Arrival) : Option ℤ := (accepted log).max?

/-- An arrival after the first is less than half a turn away from the highest number. -/
def InWindow (s : Merge) : Action → Prop
  | .arrive _ number _ _ =>
      ∀ top ∈ highest s.log, top - 32768 < number ∧ number ≤ top + 32767
  | .pass _ => True

instance (s : Merge) : (a : Action) → Decidable (InWindow s a)
  | .arrive _ number _ _ => inferInstanceAs
      (Decidable (∀ top ∈ highest s.log, top - 32768 < number ∧ number ≤ top + 32767))
  | .pass _ => .isTrue trivial

/-- At its first arrival the number was less than 2048 behind the highest, or it was the very
first packet. -/
def Timely (number : ℤ) : List Arrival → Prop
  | [] => False
  | arrival :: earlier =>
      Timely number earlier ∨
      arrival.number = number ∧ (∀ other ∈ earlier, other.number ≠ number) ∧
        ∀ top ∈ highest earlier, top - 2048 < number ∧ number ≤ top + 32767

instance decidableTimely (number : ℤ) : (log : List Arrival) → Decidable (Timely number log)
  | [] => inferInstanceAs (Decidable False)
  | _ :: earlier =>
      have := decidableTimely number earlier
      inferInstanceAs (Decidable (_ ∨ _))

/-- How often a number was let through and pushed on, or is about to be. -/
def timesForwarded (s : Merge) (number : ℤ) : ℕ :=
  ((s.leaving ++ s.forwarded).map fun arrival => arrival.number).count number

theorem accepted_cons_forward {arrival : Arrival} (hforward : arrival.output.forward = true)
    (log : List Arrival) : accepted (arrival :: log) = arrival.number :: accepted log := by
  rw [accepted, filter_cons, if_pos hforward]
  rfl

theorem accepted_cons_dropped {arrival : Arrival} (hdropped : arrival.output.forward = false)
    (log : List Arrival) : accepted (arrival :: log) = accepted log := by
  rw [accepted, filter_cons, if_neg (Bool.not_eq_true _ ▸ hdropped)]
  rfl

/-- What holds of the merge between two steps. -/
structure Once (s : Merge) : Prop where
  /-- What was let through is on its way or has been pushed on. -/
  onward : ((s.leaving ++ s.forwarded).map fun arrival => arrival.number).Perm (accepted s.log)
  nodup : (accepted s.log).Nodup
  known : accepted s.log = [] ∧ s.demux.initialized = false ∨
    ∃ top, highest s.log = some top ∧ Tracks s.demux (accepted s.log) top
  timely : ∀ number, Timely number s.log → number ∈ accepted s.log

theorem once_opened (failoverDetectionMs : BitVec 32) (now : BitVec 64) :
    Once (Merge.opened failoverDetectionMs now) where
  onward := List.Perm.refl _
  nodup := nodup_nil
  known := .inl ⟨rfl, rfl⟩
  timely := fun _ h => h.elim

theorem Tracks.supervise {s : Demux} {numbers : List ℤ} {top : ℤ} (hs : Tracks s numbers top)
    (pad : Link) (now : BitVec 64) : Tracks (s.supervise pad now).1 numbers top := by
  obtain ⟨hinit, hseq, hseen⟩ := supervise_numbers s pad now
  exact ⟨hinit.trans hs.initialized, hseq.trans hs.highestSeq, hseen ▸ hs.remembers, hs.le⟩

/-- A packet that is let through is new, and the element keeps track. -/
theorem Once.admit {s : Merge} (hs : Once s) {number : ℤ}
    (hwindow : ∀ top ∈ highest s.log, top - 32768 < number ∧ number ≤ top + 32767)
    {admitted : Demux} (haccept : s.demux.admit (serial 16 number) = some admitted) :
    number ∉ accepted s.log ∧
    ∃ top, (number :: accepted s.log).max? = some top ∧
      Tracks admitted (number :: accepted s.log) top := by
  rcases hs.known with ⟨hnone, hfresh⟩ | ⟨top, htop, htracks⟩
  · obtain ⟨admitted', haccept', htracks⟩ := admit_first hfresh number
    obtain rfl := Option.some.inj (haccept.symm.trans haccept')
    rw [hnone]
    exact ⟨not_mem_nil, number, rfl, htracks⟩
  · obtain ⟨hlow, hhigh⟩ := hwindow top htop
    have hmax : (number :: accepted s.log).max? = some (max number top) := by
      rw [max?_cons, ← highest, htop]
      rfl
    by_cases hahead : top < number
    · obtain ⟨admitted', haccept', htracks'⟩ := admit_ahead htracks hahead hhigh
      obtain rfl := Option.some.inj (haccept.symm.trans haccept')
      refine ⟨fun hmem => ?_, number, ?_, htracks'⟩
      · have := htracks.le number hmem
        omega
      · rw [hmax, max_eq_left hahead.le]
    · have hbehind := admit_behind htracks hlow (not_lt.mp hahead)
      split at hbehind
      case isTrue hnew =>
        obtain ⟨admitted', haccept', htracks'⟩ := hbehind
        obtain rfl := Option.some.inj (haccept.symm.trans haccept')
        refine ⟨hnew.2, top, ?_, htracks'⟩
        rw [hmax, max_eq_right (not_lt.mp hahead)]
      case isFalse =>
        rw [hbehind] at haccept
        cases haccept

/-- A packet that is dropped was let through before, or is 2048 or more behind. -/
theorem Once.drop {s : Merge} (hs : Once s) {number : ℤ}
    (hwindow : ∀ top ∈ highest s.log, top - 2048 < number ∧ number ≤ top + 32767)
    (hdrop : s.demux.admit (serial 16 number) = none) : number ∈ accepted s.log := by
  rcases hs.known with ⟨-, hfresh⟩ | ⟨top, htop, htracks⟩
  · obtain ⟨admitted, haccept, -⟩ := admit_first hfresh number
    rw [hdrop] at haccept
    cases haccept
  · obtain ⟨hlow, hhigh⟩ := hwindow top htop
    by_cases hahead : top < number
    · obtain ⟨admitted, haccept, -⟩ := admit_ahead htracks hahead hhigh
      rw [hdrop] at haccept
      cases haccept
    · by_contra hnew
      have hbehind := admit_behind htracks (by omega) (not_lt.mp hahead)
      rw [if_pos ⟨hlow, hnew⟩] at hbehind
      obtain ⟨admitted, haccept, -⟩ := hbehind
      rw [hdrop] at haccept
      cases haccept

theorem Once.arrive {s : Merge} (hs : Once s) {pad : Link} {number : ℤ} {buf : Buffer}
    {now : BitVec 64} (hnumbered : Numbered number buf)
    (hwindow : ∀ top ∈ highest s.log, top - 32768 < number ∧ number ≤ top + 32767) :
    Once (s.arrive pad number buf now) := by
  obtain ⟨hlong, hseq⟩ := hnumbered
  rcases push_cases s.demux pad hlong now with ⟨hnone, hpush⟩ | ⟨admitted, haccept, hpush⟩
  · rw [Merge.arrive, hpush]
    have haccepted : accepted (⟨pad, number, buf, now, ⟨false, none⟩⟩ :: s.log) =
        accepted s.log := accepted_cons_dropped rfl _
    refine ⟨?_, ?_, ?_, ?_⟩
    · rw [haccepted]
      exact hs.onward
    · rw [haccepted]
      exact hs.nodup
    · rw [highest, haccepted]
      exact hs.known
    · rw [haccepted]
      rintro other (hearlier | ⟨rfl, -, hnear⟩)
      · exact hs.timely other hearlier
      · exact hs.drop hnear (hseq ▸ hnone)
  · rw [Merge.arrive, hpush]
    set output : Output := ⟨true, (admitted.supervise pad now).2⟩ with houtput
    have haccepted : accepted (⟨pad, number, buf, now, output⟩ :: s.log) =
        number :: accepted s.log := accepted_cons_forward rfl _
    obtain ⟨hnew, top, htop, htracks⟩ := hs.admit hwindow (hseq ▸ haccept)
    refine ⟨?_, ?_, ?_, ?_⟩
    · rw [haccepted]
      exact hs.onward.cons number
    · rw [haccepted]
      exact nodup_cons.mpr ⟨hnew, hs.nodup⟩
    · rw [highest, haccepted]
      exact .inr ⟨top, htop, htracks.supervise pad now⟩
    · rw [haccepted]
      rintro other (hearlier | ⟨rfl, -⟩)
      · exact mem_cons_of_mem _ (hs.timely other hearlier)
      · exact mem_cons_self

/-- Pushing a packet on only moves it. -/
theorem Once.pass {s : Merge} (hs : Once s) {turn : ℕ} {arrival : Arrival}
    (hat : s.leaving[turn]? = some arrival) :
    Once { s with
      leaving := s.leaving.eraseIdx turn
      forwarded := arrival :: s.forwarded } := by
  refine ⟨?_, hs.nodup, hs.known, hs.timely⟩
  obtain ⟨hlt, rfl⟩ := List.getElem?_eq_some_iff.mp hat
  have hmoved : (s.leaving.eraseIdx turn ++ s.leaving[turn] :: s.forwarded).Perm
      (s.leaving ++ s.forwarded) :=
    perm_middle.trans ((getElem_cons_eraseIdx_perm hlt).append_right s.forwarded)
  exact (hmoved.map _).trans hs.onward

theorem once_of_reachable {s : Merge} (hs : system.ReachableVia InWindow s) : Once s := by
  apply hs.invariant
  · rintro s ⟨failoverDetectionMs, now, rfl⟩
    exact once_opened failoverDetectionMs now
  · intro s a s' _ hinv hwindow hstep
    rcases next_cases hstep with ⟨pad, number, buf, now, rfl, hnumbered, rfl⟩ |
      ⟨turn, arrival, rfl, hat, rfl⟩
    · exact hinv.arrive hnumbered hwindow
    · exact hinv.pass hat

/-- A header that carries the sequence number of these two bytes. -/
def packet (high low : UInt8) : Buffer := ⟨[0x80, 96, high, low, 0, 0, 0, 0, 0, 0, 0, 0], false⟩

/-- The backup is first across the end of the 16-bit numbers, then the primary jumps ahead, and
the number left out comes in late, twice. -/
def crossingRun : List Action :=
  [.arrive .backup 65535 (packet 255 255) 0, .arrive .primary 65535 (packet 255 255) 0, .pass 0,
    .arrive .backup 65538 (packet 0 2) 1, .arrive .primary 65537 (packet 0 1) 2, .pass 1,
    .arrive .backup 65537 (packet 0 1) 3, .pass 0]

end Zstreamer.Redundancy

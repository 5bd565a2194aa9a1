/-
# Links are mutual and every reference has an owner

`Inv` is the invariant of the pads, with a list of references in hand: references
that are counted and that nobody has yet, or any more.  Every step is a short
sequence of primitive changes, each of which takes a reference into the hand or puts
one out of it, and there is one rule for each.  A step starts and ends with an empty
hand, so its case is the composition of the rules.

The rule for `zst_pad_unref` has the argument that matters: a pad whose last reference
is the one in hand has no link, because a link would be another reference.
-/

import Zstreamer.Pads.References

namespace Zstreamer.Pads.References

open Foundation List Function Option

variable {ι : Type} [Fintype ι]

/-- One more reference in a list. -/
theorem count_cons_ite (p r : ℕ) (hand : List ℕ) :
    (p :: hand).count r = hand.count r + if r = p then 1 else 0 := by
  by_cases hr : r = p
  · rw [if_pos hr, hr, count_cons_self]
  · rw [if_neg hr, count_cons_of_ne (Ne.symm hr), Nat.add_zero]

/-- The invariant, with references in hand. -/
structure Inv (hand : List ℕ) (s : State ι) : Prop where
  reciprocal : ∀ p q, s.peer p = some q → s.peer q = some p
  directions : ∀ p q, s.peer p = some q → s.direction p ≠ s.direction q
  flag : ∀ p, s.linked p = (s.peer p).isSome
  count : ∀ p, s.refcount p =
    (s.external p + s.linkRefs p + s.opRefs p + hand.count p : ℕ)
  backed : ∀ t, ∀ p ∈ (s.place t).args, 0 < s.external p
  aim : ∀ t src sink, s.place t = .linking src sink →
    s.direction src = .src ∧ s.direction sink = .sink
  dead : ∀ p, s.finalized p = true → s.refcount p = 0
  unlinked : s.staleFinalized = false

namespace Inv

variable {hand : List ℕ} {s : State ι} {p q : ℕ} {t : ι}

/-! ## References that keep a pad -/

theorem alive_of_external (h : Inv hand s) (hext : 0 < s.external p) : 0 < s.refcount p := by
  rw [h.count p]
  omega

theorem alive_of_peer (h : Inv hand s) (hpeer : s.peer p = some q) : 0 < s.refcount q := by
  have hlink : s.linkRefs q = 1 := by simp [State.linkRefs, h.reciprocal p q hpeer]
  rw [h.count q, hlink]
  omega

theorem alive_of_arg (h : Inv hand s) (harg : p ∈ (s.place t).args) : 0 < s.refcount p :=
  h.alive_of_external (h.backed t p harg)

theorem alive_of_held (h : Inv hand s) (hheld : p ∈ (s.place t).held) : 0 < s.refcount p := by
  have hone : 0 < (s.place t).held.count p := count_pos_iff.mpr hheld
  have hle : (s.place t).held.count p ≤ s.opRefs p :=
    le_tally (fun place : Place => place.held.count p) s.place t
  rw [h.count p]
  omega

theorem peer_ne (h : Inv hand s) (hpeer : s.peer p = some q) : p ≠ q := by
  rintro rfl
  exact h.directions p p hpeer rfl

/-! ## The rules -/

/-- `zst_pad_ref` of a pad that is alive. -/
theorem ref (h : Inv hand s) (halive : 0 < s.refcount p) : Inv (p :: hand) (s.ref p) := by
  have hrefcount : ∀ r, (s.ref p).refcount r = s.refcount r + if r = p then 1 else 0 := by
    intro r
    by_cases hr : r = p
    · rw [if_pos hr, hr]
      exact update_self _ _ _
    · rw [if_neg hr, Int.add_zero]
      exact update_of_ne hr _ _
  refine ⟨h.reciprocal, h.directions, h.flag, fun r => ?_, h.backed, h.aim, fun r hr => ?_,
    h.unlinked⟩
  · have hcount := h.count r
    rw [hrefcount, hcount, count_cons_ite]
    change _ = ((s.external r + s.linkRefs r + s.opRefs r + _ : ℕ) : ℤ)
    split <;> omega
  · have hdead := h.dead r hr
    have hne : r ≠ p := by
      rintro rfl
      omega
    rw [hrefcount, if_neg hne, hdead]
    rfl

/-- The last reference in hand is the only one, so the pad has no peer. -/
theorem peer_of_last (h : Inv (p :: hand) s) (hlast : s.refcount p = 1) : s.peer p = none := by
  have hcount := h.count p
  rw [hlast, count_cons_self] at hcount
  have hlink : s.linkRefs p = 0 := by omega
  cases hpeer : s.peer p with
  | none => rfl
  | some q => simp [State.linkRefs, hpeer] at hlink

/-- What dropping a reference comes to: a pad that goes has no peer, and only that it went is
recorded. -/
theorem unref_eq (h : Inv (p :: hand) s) :
    s.unref p =
      { s with
        refcount := update s.refcount p (s.refcount p - 1)
        finalized :=
          if s.refcount p = 1 then update s.finalized p true else s.finalized } := by
  unfold State.unref
  split
  case isTrue hlast =>
      have hpeer := h.peer_of_last hlast
      have hflag : s.linked p = false := by
        rw [h.flag, hpeer]
        rfl
      exact State.finalize_of_free hpeer hflag
  case isFalse => rfl

/-- `zst_pad_unref` of a reference in hand. -/
theorem unref (h : Inv (p :: hand) s) : Inv hand (s.unref p) := by
  have hrefcount : ∀ r, update s.refcount p (s.refcount p - 1) r =
      s.refcount r - if r = p then 1 else 0 := by
    intro r
    by_cases hr : r = p
    · rw [if_pos hr, hr, update_self]
    · rw [if_neg hr, update_of_ne hr, Int.sub_zero]
  rw [h.unref_eq]
  refine ⟨h.reciprocal, h.directions, h.flag, fun r => ?_, h.backed, h.aim, fun r hr => ?_,
    h.unlinked⟩
  · have hcount := h.count r
    rw [count_cons_ite] at hcount
    change update s.refcount p (s.refcount p - 1) r =
      ((s.external r + s.linkRefs r + s.opRefs r + hand.count r : ℕ) : ℤ)
    rw [hrefcount, hcount]
    split <;> omega
  · change (if s.refcount p = 1 then update s.finalized p true else s.finalized) r = true
      at hr
    change update s.refcount p (s.refcount p - 1) r = 0
    by_cases hrp : r = p
    · subst hrp
      rw [update_self]
      split at hr
      case isTrue hlast =>
          rw [hlast]
          rfl
      case isFalse =>
          -- A finalized pad has no reference left to drop.
          have hdead := h.dead r hr
          have hcount := h.count r
          rw [hdead, count_cons_self] at hcount
          omega
    · rw [update_of_ne hrp]
      apply h.dead r
      split at hr
      · rwa [update_of_ne hrp] at hr
      · exact hr

/-- The references from outside change by what is taken from the hand or given to it. -/
theorem outside (h : Inv hand s) {owners : ℕ → ℕ} {listed : ℕ → Bool} {hand' : List ℕ}
    (hcount : ∀ r, owners r + (listed r).toNat + hand'.count r = s.external r + hand.count r)
    (hargs : ∀ t, ∀ r ∈ (s.place t).args, 0 < owners r + (listed r).toNat) :
    Inv hand' { s with owners := owners, listed := listed } := by
  refine ⟨h.reciprocal, h.directions, h.flag, fun r => ?_, hargs, h.aim, h.dead, h.unlinked⟩
  have hold := h.count r
  have hnew := hcount r
  change s.refcount r =
    ((owners r + (listed r).toNat + s.linkRefs r + s.opRefs r + hand'.count r : ℕ) : ℤ)
  omega

theorem own (h : Inv (p :: hand) s) : Inv hand (s.own p) := by
  refine h.outside (fun r => ?_) fun t r hr => ?_
  · rw [count_cons_ite]
    unfold State.external
    by_cases hr : r = p
    · rw [hr, update_self, if_pos rfl]
      omega
    · rw [update_of_ne hr, if_neg hr]
      rfl
  · have hback := h.backed t r hr
    unfold State.external at hback
    by_cases hrp : r = p
    · rw [hrp, update_self]
      omega
    · rw [update_of_ne hrp]
      exact hback

/-- The section of `zst_pad_link`, with the two new references in hand. -/
theorem connect {src sink : ℕ} (h : Inv (src :: sink :: hand) s) (hsrc : s.peer src = none)
    (hsink : s.peer sink = none) (hsrcDir : s.direction src = .src)
    (hsinkDir : s.direction sink = .sink) : Inv hand (s.connect src sink) := by
  have hne : src ≠ sink := by
    rintro rfl
    rw [hsrcDir] at hsinkDir
    cases hsinkDir
  have hpeers : ∀ r, (s.connect src sink).peer r =
      if r = sink then some src else if r = src then some sink else s.peer r := by
    intro r
    simp [State.connect, update_apply]
  refine ⟨fun p q hpq => ?_, fun p q hpq => ?_, fun r => ?_, fun r => ?_, h.backed, h.aim, h.dead,
    h.unlinked⟩
  · rw [hpeers] at hpq ⊢
    have hold := h.reciprocal p q
    grind
  · rw [hpeers] at hpq
    change s.direction p ≠ s.direction q
    have hold := h.directions p q
    grind
  · have hflag := h.flag r
    rw [hpeers]
    simp only [State.connect, update_apply]
    grind
  · -- The two ends have a link reference more, and the hand one less of each.
    have hcount := h.count r
    have hlink : (s.connect src sink).linkRefs r =
        s.linkRefs r + (if r = src then 1 else 0) + if r = sink then 1 else 0 := by
      unfold State.linkRefs
      rw [hpeers]
      grind
    have hhand : (src :: sink :: hand).count r =
        hand.count r + (if r = src then 1 else 0) + if r = sink then 1 else 0 := by
      rw [count_cons_ite, count_cons_ite]
      omega
    change s.refcount r =
      ((s.external r + (s.connect src sink).linkRefs r + s.opRefs r + hand.count r : ℕ) : ℤ)
    rw [hcount, hlink, hhand]
    omega

/-- The section of `zst_pad_unlink`: the two references of the link come to the hand. -/
theorem disconnect (h : Inv hand s) (hpeer : s.peer p = some q) :
    Inv (q :: p :: hand) (s.disconnect p q) := by
  have hne := h.peer_ne hpeer
  have hback := h.reciprocal p q hpeer
  have hboth : s.disconnect p q = (s.clear p).clear q := by
    have hstill : (s.clear p).peer q = some p := by
      simp [State.clear, update_of_ne (Ne.symm hne), hback]
    simp [State.disconnect, hstill]
  have hpeers : ∀ r, (s.disconnect p q).peer r = if r = q ∨ r = p then none else s.peer r := by
    intro r
    rw [hboth]
    simp only [State.clear, update_apply]
    grind
  refine ⟨fun a b hab => ?_, fun a b hab => ?_, fun r => ?_, fun r => ?_, ?_, ?_, ?_, ?_⟩
  · rw [hpeers] at hab ⊢
    have hold := h.reciprocal a b
    grind
  · rw [hpeers] at hab
    have hold := h.directions a b
    rw [hboth]
    change s.direction a ≠ s.direction b
    grind
  · have hflag := h.flag r
    rw [hpeers, hboth]
    simp only [State.clear, update_apply]
    grind
  · have hcount := h.count r
    have hlink : s.linkRefs r = (s.disconnect p q).linkRefs r +
        (if r = q then 1 else 0) + if r = p then 1 else 0 := by
      unfold State.linkRefs
      rw [hpeers]
      grind
    have hhand : (q :: p :: hand).count r =
        hand.count r + (if r = q then 1 else 0) + if r = p then 1 else 0 := by
      rw [count_cons_ite, count_cons_ite]
      omega
    have hsame : (s.disconnect p q).refcount r = s.refcount r ∧
        (s.disconnect p q).external r = s.external r ∧
        (s.disconnect p q).opRefs r = s.opRefs r := by
      rw [hboth]
      exact ⟨rfl, rfl, rfl⟩
    rw [hsame.1, hsame.2.1, hsame.2.2, hcount, hlink, hhand]
    omega
  · rw [hboth]
    exact h.backed
  · rw [hboth]
    exact h.aim
  · rw [hboth]
    exact h.dead
  · rw [hboth]
    exact h.unlinked

/-- A thread moves on, and what it holds is taken from the hand or given to it. -/
theorem goto [DecidableEq ι] (h : Inv hand s) {place : Place} {hand' : List ℕ}
    (hheld : ∀ r, hand'.count r + place.held.count r =
      hand.count r + (s.place t).held.count r)
    (hargs : ∀ r ∈ place.args, 0 < s.external r)
    (haim : ∀ src sink, place = .linking src sink →
      s.direction src = .src ∧ s.direction sink = .sink) :
    Inv hand' (s.goto t place) := by
  refine ⟨h.reciprocal, h.directions, h.flag, fun r => ?_, fun u r hr => ?_,
    fun u src sink hplace => ?_, h.dead, h.unlinked⟩
  · have hcount := h.count r
    have hmove := tally_update (fun place : Place => place.held.count r) s.place t place
    have hsame := hheld r
    have hops : (s.goto t place).opRefs r + (s.place t).held.count r =
        s.opRefs r + place.held.count r := hmove
    change s.refcount r = ((s.external r + s.linkRefs r + (s.goto t place).opRefs r + _ : ℕ) : ℤ)
    omega
  · change r ∈ (update s.place t place u).args at hr
    by_cases hu : u = t
    · rw [hu, update_self] at hr
      exact hargs r hr
    · rw [update_of_ne hu] at hr
      exact h.backed u r hr
  · change update s.place t place u = .linking src sink at hplace
    by_cases hu : u = t
    · rw [hu, update_self] at hplace
      exact haim src sink hplace
    · rw [update_of_ne hu] at hplace
      exact h.aim u src sink hplace

/-- What remains when a reference from outside is given up is enough for the calls. -/
theorem backed_of_mayGiveUp (h : Inv hand s) (hmay : MayGiveUp s p) {external : ℕ → ℕ}
    (hless : ∀ r, external r + (if r = p then 1 else 0) = s.external r) (t : ι) {r : ℕ}
    (hr : r ∈ (s.place t).args) : 0 < external r := by
  have hback := h.backed t r hr
  have hrest := hless r
  by_cases hrp : r = p
  · subst hrp
    rcases hmay with htwo | hnone
    · rw [if_pos rfl] at hrest
      omega
    · exact absurd hr (hnone t)
  · rw [if_neg hrp] at hrest
    omega

/-- A reference from outside comes to the hand. -/
theorem giveUp (h : Inv hand s) (hmay : MayGiveUp s p) {owners : ℕ → ℕ} {listed : ℕ → Bool}
    (hless : ∀ r, owners r + (listed r).toNat + (if r = p then 1 else 0) = s.external r) :
    Inv (p :: hand) { s with owners := owners, listed := listed } := by
  refine h.outside (fun r => ?_) fun t r hr => h.backed_of_mayGiveUp hmay hless t hr
  have hrest := hless r
  rw [count_cons_ite]
  omega

theorem disown (h : Inv hand s) (howned : 0 < s.owners p) (hmay : MayGiveUp s p) :
    Inv (p :: hand) (s.disown p) := by
  refine h.giveUp hmay fun r => ?_
  unfold State.external
  by_cases hr : r = p
  · rw [hr, update_self, if_pos rfl]
    omega
  · rw [update_of_ne hr, if_neg hr]
    rfl

theorem unlist (h : Inv hand s) (hlisted : s.listed p = true) (hmay : MayGiveUp s p) :
    Inv (p :: hand) (s.enlist p false) := by
  refine h.giveUp hmay fun r => ?_
  unfold State.external
  by_cases hr : r = p
  · rw [hr, update_self, if_pos rfl, hlisted]
    rfl
  · rw [update_of_ne hr, if_neg hr]
    rfl

/-- The reference of an owner becomes the one of the list. -/
theorem adopt (h : Inv hand s) (howned : 0 < s.owners p) (hunlisted : s.listed p = false) :
    Inv hand ((s.disown p).enlist p true) := by
  have hsame : ∀ r, ((s.disown p).enlist p true).external r = s.external r := by
    intro r
    simp only [State.external, State.disown, State.enlist]
    by_cases hr : r = p
    · rw [hr, update_self, update_self, hunlisted]
      exact Nat.sub_add_cancel howned
    · rw [update_of_ne hr, update_of_ne hr]
  refine h.outside (fun r => ?_) fun t r hr => ?_
  · exact congrArg (· + hand.count r) (hsame r)
  · exact lt_of_lt_of_eq (h.backed t r hr) (hsame r).symm

end Inv

/-! ## Steps and runs -/

theorem initial_inv {s : State ι} (hinit : Initial s) : Inv [] s := by
  obtain ⟨hpads, hstale, hidle⟩ := hinit
  refine ⟨fun p q hpq => ?_, fun p q hpq => ?_, fun p => ?_, fun p => ?_, fun t p hp => ?_,
    fun t src sink hplace => ?_, fun p hp => ?_, hstale⟩
  · rw [(hpads p).1] at hpq
    cases hpq
  · rw [(hpads p).1] at hpq
    cases hpq
  · rw [(hpads p).1, (hpads p).2.1]
    rfl
  · obtain ⟨hpeer, -, hcount, -, howners, hlisted⟩ := hpads p
    have hops : s.opRefs p = 0 := tally_eq_zero fun t => by rw [hidle t]; rfl
    rw [hcount, hops, State.external, State.linkRefs, howners, hlisted, hpeer]
    rfl
  · rw [hidle t] at hp
    cases hp
  · rw [hidle t] at hplace
    cases hplace
  · rw [(hpads p).2.2.2.1] at hp
    cases hp

variable [DecidableEq ι]

/-- A visit goes on with other references in its list. -/
theorem Inv.goto_visiting {hand hand' : List ℕ} {s : State ι} {t : ι} {args refs refs' : List ℕ}
    (h : Inv hand s) (hplace : s.place t = .visiting args refs)
    (hheld : ∀ r, hand'.count r + refs'.count r = hand.count r + refs.count r) :
    Inv hand' (s.goto t (.visiting args refs')) := by
  refine h.goto (fun r => ?_) (fun r hr => ?_) nofun
  · rw [hplace]
    exact hheld r
  · apply h.backed t r
    rw [hplace]
    exact hr

theorem count_erase_add {p : ℕ} {refs : List ℕ} (hmem : p ∈ refs) (r : ℕ) :
    [p].count r + (refs.erase p).count r = refs.count r := by
  have hperm := perm_cons_erase hmem
  rw [hperm.count_eq r, count_cons_ite, count_cons_ite, count_nil]
  omega

/-- The section of `zst_pad_link` on pads that are free. -/
theorem Inv.join {s : State ι} {t : ι} {src sink : ℕ} (h : Inv [] s)
    (hplace : s.place t = .linking src sink)
    (hfree : ¬ ((s.peer src).isSome ∨ (s.peer sink).isSome)) :
    Inv [] ((((s.ref sink).ref src).connect src sink).goto t (.visiting [src, sink] [])) := by
  have hargs : ∀ r ∈ [src, sink], 0 < s.external r := by
    intro r hr
    apply h.backed t r
    rw [hplace]
    exact hr
  obtain ⟨hsrcDir, hsinkDir⟩ := h.aim t src sink hplace
  have hsink := h.ref (h.alive_of_external (hargs sink (by simp)))
  have hboth := hsink.ref (p := src) (hsink.alive_of_external (hargs src (by simp)))
  have hjoined : Inv [] (((s.ref sink).ref src).connect src sink) := by
    apply hboth.connect _ _ hsrcDir hsinkDir
    · exact not_isSome_iff_eq_none.mp fun hsome => hfree (.inl hsome)
    · exact not_isSome_iff_eq_none.mp fun hsome => hfree (.inr hsome)
  refine hjoined.goto (fun r => ?_) hargs nofun
  have hsame : (((s.ref sink).ref src).connect src sink).place t = .linking src sink := hplace
  rw [hsame]
  rfl

/-- One step keeps the invariant. -/
theorem step_inv {s s' : State ι} {a : Action ι} (h : Inv [] s) (hnext : next s a = some s') :
    Inv [] s' := by
  cases a with
  | ref pad =>
      simp only [next, ite_none_right_eq_some, Option.some.injEq] at hnext
      obtain ⟨hext, rfl⟩ := hnext
      exact (h.ref (h.alive_of_external hext)).own
  | unref pad =>
      simp only [next, ite_none_right_eq_some, Option.some.injEq] at hnext
      obtain ⟨⟨howned, hmay⟩, rfl⟩ := hnext
      exact (h.disown howned hmay).unref
  | addPad pad =>
      simp only [next, ite_none_right_eq_some, Option.some.injEq] at hnext
      obtain ⟨⟨howned, hunlisted⟩, rfl⟩ := hnext
      exact h.adopt howned hunlisted
  | visit t args =>
      simp only [next, ite_none_right_eq_some, Option.some.injEq] at hnext
      obtain ⟨⟨hidle, hargs⟩, rfl⟩ := hnext
      exact h.goto (fun r => by rw [hidle]; rfl) hargs nofun
  | lookUp t pad =>
      simp only [next] at hnext
      split at hnext
      case h_1 args refs hplace =>
          split at hnext
          case isTrue =>
              split at hnext
              case h_1 =>
                  cases hnext
                  exact h
              case h_2 peer hpeer =>
                  cases hnext
                  refine (h.ref (h.alive_of_peer hpeer)).goto_visiting hplace fun r => ?_
                  rw [count_cons_ite, count_cons_ite, count_nil]
                  omega
          case isFalse => cases hnext
      case h_2 => cases hnext
  | snapshot t pad =>
      simp only [next] at hnext
      split at hnext
      case h_1 args refs hplace =>
          simp only [ite_none_right_eq_some, Option.some.injEq] at hnext
          obtain ⟨hlisted, rfl⟩ := hnext
          have hext : 0 < s.external pad := by
            simp [State.external, hlisted]
          refine (h.ref (h.alive_of_external hext)).goto_visiting hplace fun r => ?_
          rw [count_cons_ite, count_cons_ite, count_nil]
          omega
      case h_2 => cases hnext
  | release t pad =>
      simp only [next] at hnext
      split at hnext
      case h_1 args refs hplace =>
          simp only [ite_none_right_eq_some, Option.some.injEq] at hnext
          obtain ⟨hmem, rfl⟩ := hnext
          apply Inv.unref
          apply h.goto_visiting hplace
          intro r
          rw [count_erase_add hmem, count_nil, Nat.zero_add]
      case h_2 => cases hnext
  | keep t pad =>
      simp only [next] at hnext
      split at hnext
      case h_1 args refs hplace =>
          simp only [ite_none_right_eq_some, Option.some.injEq] at hnext
          obtain ⟨hmem, rfl⟩ := hnext
          apply Inv.own
          apply h.goto_visiting hplace
          intro r
          rw [count_erase_add hmem, count_nil, Nat.zero_add]
      case h_2 => cases hnext
  | leave t =>
      simp only [next] at hnext
      split at hnext
      case h_1 args hplace =>
          cases hnext
          exact h.goto (fun r => by rw [hplace]; rfl) nofun nofun
      case h_2 => cases hnext
  | link t src sink =>
      simp only [next, ite_none_right_eq_some] at hnext
      obtain ⟨⟨hidle, hsrc, hsink⟩, hnext⟩ := hnext
      split at hnext
      case isTrue hdirections =>
          cases hnext
          refine h.goto (fun r => by rw [hidle]; rfl) (fun r hr => ?_) fun a b hab => ?_
          · rcases mem_pair.mp hr with rfl | rfl
            · exact hsrc
            · exact hsink
          · cases hab
            exact hdirections
      case isFalse =>
          cases hnext
          exact h
  | refuse t =>
      simp only [next] at hnext
      split at hnext
      case h_1 src sink hplace =>
          cases hnext
          exact h.goto (fun r => by rw [hplace]; rfl) nofun nofun
      case h_2 => cases hnext
  | join t =>
      simp only [next] at hnext
      split at hnext
      case h_1 src sink hplace =>
          split at hnext
          case isTrue =>
              cases hnext
              exact h.goto (fun r => by rw [hplace]; rfl) nofun nofun
          case isFalse hfree =>
              cases hnext
              exact h.join hplace hfree
      case h_2 => cases hnext
  | unlink t pad =>
      simp only [next, ite_none_right_eq_some, Option.some.injEq] at hnext
      obtain ⟨⟨hidle, hext⟩, rfl⟩ := hnext
      refine h.goto (fun r => by rw [hidle]; rfl) (fun r hr => ?_) nofun
      rw [mem_singleton.mp hr]
      exact hext
  | removePad t pad =>
      simp only [next, ite_none_right_eq_some] at hnext
      obtain ⟨hidle, hnext⟩ := hnext
      split at hnext
      case isTrue hlisted =>
          simp only [ite_none_right_eq_some, Option.some.injEq] at hnext
          obtain ⟨hmay, rfl⟩ := hnext
          refine (h.unlist hlisted hmay).goto (fun r => ?_) nofun nofun
          change [].count r + [pad].count r = [pad].count r + (s.place t).held.count r
          rw [hidle]
          exact Nat.add_comm _ _
      case isFalse =>
          cases hnext
          exact h
  | fetch t =>
      simp only [next] at hnext
      split at hnext
      case h_1 pad removing hplace =>
          split at hnext
          case h_1 =>
              cases hnext
              exact h.goto (fun r => by rw [hplace]; rfl) nofun nofun
          case h_2 peer hpeer =>
              cases hnext
              refine (h.ref (h.alive_of_peer hpeer)).goto (fun r => ?_) (fun r hr => ?_) nofun
              · change [].count r + (peer :: entry pad removing).count r =
                  [peer].count r + (s.place t).held.count r
                rw [hplace, Place.held, count_cons_ite, count_cons_ite, count_nil]
                omega
              · apply h.backed t r
                rw [hplace]
                exact hr
      case h_2 => cases hnext
  | cut t =>
      simp only [next] at hnext
      split at hnext
      case h_1 pad peer removing hplace =>
          split at hnext
          case isTrue hpeer =>
              cases hnext
              refine (h.disconnect hpeer).goto (fun r => ?_) nofun nofun
              have hsame : (s.disconnect pad peer).place = s.place := by
                unfold State.disconnect
                dsimp only
                split <;> rfl
              rw [hsame, hplace]
              simp only [Place.held, count_cons_ite, count_nil]
              omega
          case isFalse =>
              cases hnext
              exact h.goto (fun r => by rw [hplace]; rfl) nofun nofun
      case h_2 => cases hnext
  | drop t =>
      simp only [next] at hnext
      split at hnext
      case h_1 hplace =>
          cases hnext
          exact h.goto (fun r => by rw [hplace]; rfl) nofun nofun
      case h_2 pad refs hplace =>
          cases hnext
          apply Inv.unref
          refine h.goto (fun r => ?_) nofun nofun
          rw [hplace]
          simp only [Place.held, count_cons_ite, count_nil]
          omega
      case h_3 => cases hnext

/-- **The pad link invariant.**  Whatever the threads and owners do: peers are mutual; a linked pair
has one source and one sink; the flag says whether there is a peer; every reference count is the
number of references from outside, of the link, which has one on each of its ends, and of calls
under way; and only pads without a peer are ever finalized. -/
theorem pad_link_invariant {s : State ι} (hreach : (system ι).Reachable s) :
    (∀ p q, s.peer p = some q ↔ s.peer q = some p) ∧
    (∀ p q, s.peer p = some q → s.direction p = .src ∧ s.direction q = .sink ∨
      s.direction p = .sink ∧ s.direction q = .src) ∧
    (∀ p, s.linked p = true ↔ s.peer p ≠ none) ∧
    (∀ p, s.refcount p =
      (s.external p + (if s.peer p = none then 0 else 1) + s.opRefs p : ℕ)) ∧
    s.staleFinalized = false ∧
    (∀ t p, p ∈ (s.place t).args ∨ p ∈ (s.place t).held → s.finalized p = false) := by
  have h : Inv [] s := by
    refine System.ReachableVia.invariant (I := Inv []) (fun _ hinit => initial_inv hinit) ?_ hreach
    intro s a s' _ hinv _ hnext
    exact step_inv hinv hnext
  refine ⟨fun p q => ⟨h.reciprocal p q, h.reciprocal q p⟩, fun p q hpq => ?_, fun p => ?_,
    fun p => ?_, h.unlinked, fun t p hp => ?_⟩
  · have hne := h.directions p q hpq
    cases hp : s.direction p with
    | src =>
        cases hq : s.direction q with
        | src => exact absurd (hp.trans hq.symm) hne
        | sink => exact .inl ⟨rfl, rfl⟩
    | sink =>
        cases hq : s.direction q with
        | src => exact .inr ⟨rfl, rfl⟩
        | sink => exact absurd (hp.trans hq.symm) hne
  · rw [h.flag p, isSome_iff_ne_none]
  · have hlink : s.linkRefs p = if s.peer p = none then 0 else 1 := by
      unfold State.linkRefs
      cases s.peer p with
      | none => rfl
      | some q => rfl
    rw [h.count p, hlink, count_nil, Nat.add_zero]
  · have halive : 0 < s.refcount p := by
      rcases hp with harg | hheld
      · exact h.alive_of_arg harg
      · exact h.alive_of_held hheld
    cases hdead : s.finalized p with
    | false => rfl
    | true =>
        rw [h.dead p hdead] at halive
        exact absurd halive (lt_irrefl 0)

/-- Both ends of a link are unlinked at once by two threads: each link reference is dropped once. -/
theorem pad_link_invariant_race :
    ∃ s : State (Fin 2), (system (Fin 2)).Reachable s ∧ s.refcount 0 = 1 ∧ s.refcount 1 = 1 ∧
      s.peer 0 = none ∧ s.staleFinalized = false := by
  let start : State (Fin 2) :=
    ⟨fun pad => if pad = 0 then .src else .sink, fun _ => none, fun _ => false, fun _ => 1,
      fun _ => false, false, fun _ => 1, fun _ => false, fun _ => .idle⟩
  let actions : List (Action (Fin 2)) := [.link 0 0 1, .join 0, .leave 0, .unlink 0 0, .unlink 1 1,
    .fetch 0, .fetch 1, .cut 1, .cut 0, .drop 0, .drop 1, .drop 1, .drop 1]
  obtain ⟨s, hrun, hvalues⟩ := map_eq_some_iff.mp
    (show ((system (Fin 2)).run start actions).map
      (fun s => (s.refcount 0, s.refcount 1, s.peer 0)) = some (1, 1, none) by decide +kernel)
  have hstart : Initial start := ⟨fun _ => ⟨rfl, rfl, rfl, rfl, rfl, rfl⟩, rfl, fun _ => rfl⟩
  have hreach : (system (Fin 2)).Reachable s := System.Reachable.run (.start hstart) hrun
  simp only [Prod.mk.injEq] at hvalues
  exact ⟨s, hreach, hvalues.1, hvalues.2.1, hvalues.2.2, (pad_link_invariant hreach).2.2.2.2.1⟩

end Zstreamer.Pads.References

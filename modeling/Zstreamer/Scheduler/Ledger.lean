/-
# The books of one token

What matters about an element's token is a handful of numbers: whether `is_queued` is
set, the reference count, the tokens in the ready queue, the threads that answer for
`is_queued` and will clear it or pass it on, and the counted tokens in the hands of
threads.  `Ledger` is those numbers and `Move` the ways they change.  The invariants
are about ledgers, where each is a line of arithmetic, and `next_move` says that every
step of the scheduler is a move.

A token is lost when a thread that has it finds `memory.priv` cleared.  The thread then
does not do what it would have done for the element, and the books are wrong from then
on; the moves that lose are marked.
-/

import Zstreamer.Scheduler.Steps

namespace Zstreamer.Scheduler

open Foundation Function Option

/-! ## Moves -/

/-- The books of one token. -/
@[ext]
structure Ledger where
  queued : Bool
  refs : ℕ
  tokens : ℕ
  owners : ℕ
  holders : ℕ
  deriving DecidableEq, Repr

namespace Ledger

/-- How the books change; the last two lose the token. -/
inductive Move (lost : Prop) (a b : Ledger) : Prop
  | still (hsame : b = a)
  /-- The exchange finds the flag clear. -/
  | claim (hbefore : a.queued = false) (hqueued : b.queued = true) (hrefs : b.refs = a.refs)
      (htokens : b.tokens = a.tokens) (howners : b.owners = a.owners + 1)
      (hholders : b.holders = a.holders)
  | count (hclaimed : 0 < a.owners) (hqueued : b.queued = a.queued) (hrefs : b.refs = a.refs + 1)
      (htokens : b.tokens = a.tokens) (howners : b.owners = a.owners)
      (hholders : b.holders = a.holders + 1)
  /-- The token goes from a thread into the ready queue. -/
  | put (hqueued : b.queued = a.queued) (hrefs : b.refs = a.refs)
      (htokens : b.tokens = a.tokens + 1) (howners : b.owners + 1 = a.owners)
      (hholders : b.holders + 1 = a.holders)
  /-- The token goes from the ready queue to a thread. -/
  | take (hqueued : b.queued = a.queued) (hrefs : b.refs = a.refs)
      (htokens : b.tokens + 1 = a.tokens) (howners : b.owners = a.owners + 1)
      (hholders : b.holders = a.holders + 1)
  | clear (hqueued : b.queued = false) (hrefs : b.refs = a.refs)
      (htokens : b.tokens = a.tokens) (howners : b.owners + 1 = a.owners)
      (hholders : b.holders = a.holders)
  | discount (hqueued : b.queued = a.queued) (hrefs : b.refs = a.refs - 1)
      (htokens : b.tokens = a.tokens) (howners : b.owners = a.owners)
      (hholders : b.holders + 1 = a.holders)
  | forget (hlost : lost) (hqueued : b.queued = a.queued) (hrefs : b.refs = a.refs)
      (htokens : b.tokens = a.tokens) (howners : b.owners + 1 = a.owners)
      (hholders : b.holders = a.holders)
  | lose (hlost : lost) (hqueued : b.queued = a.queued) (hrefs : b.refs = a.refs)
      (htokens : b.tokens = a.tokens) (howners : b.owners ≤ a.owners)
      (hholders : b.holders + 1 = a.holders)

/-- Somebody answers for the flag only if it is set, and only one does. -/
def Exclusive (a : Ledger) : Prop := a.owners + a.tokens ≤ a.queued.toNat

/-- Every token that is out is counted. -/
def Covered (a : Ledger) : Prop := a.tokens + a.holders ≤ a.refs

/-- Nothing else is counted, and somebody answers for the flag if it is set. -/
def Exact (a : Ledger) : Prop :=
  a.refs = a.tokens + a.holders ∧ a.owners + a.tokens = a.queued.toNat

namespace Move

variable {lost : Prop} {a b : Ledger}

theorem exclusive (hmove : Move lost a b) (h : a.Exclusive) : b.Exclusive := by
  unfold Exclusive at h ⊢
  cases hmove with
  | still hsame => rwa [hsame]
  | claim hbefore hqueued _ htokens howners _ =>
      rw [hbefore, Bool.toNat_false] at h
      rw [hqueued, Bool.toNat_true]
      omega
  | clear hqueued _ htokens howners _ =>
      have hone := Bool.toNat_le a.queued
      rw [hqueued, Bool.toNat_false]
      omega
  | _ =>
      rw [‹b.queued = a.queued›]
      omega

theorem covered (hmove : Move lost a b) (h : a.Covered) : b.Covered := by
  unfold Covered at h ⊢
  cases hmove with
  | still hsame => rwa [hsame]
  | _ => omega

/-- The books stay right as long as no token is lost. -/
theorem exact (hmove : Move lost a b) (hkept : ¬ lost) (h : a.Exact) : b.Exact := by
  obtain ⟨hrefs, howners⟩ := h
  cases hmove with
  | still hsame =>
      rw [hsame]
      exact ⟨hrefs, howners⟩
  | claim hbefore hqueued =>
      rw [hbefore, Bool.toNat_false] at howners
      refine ⟨by omega, ?_⟩
      rw [hqueued, Bool.toNat_true]
      omega
  | clear hqueued =>
      have hone := Bool.toNat_le a.queued
      refine ⟨by omega, ?_⟩
      rw [hqueued, Bool.toNat_false]
      omega
  | forget hlost => exact absurd hlost hkept
  | lose hlost => exact absurd hlost hkept
  | _ =>
      refine ⟨by omega, ?_⟩
      rw [‹b.queued = a.queued›]
      omega

/-- The flag is set and there is no token: nobody will ever clear it. -/
theorem orphaned (hmove : Move lost a b) (hqueued : a.queued = true) (htokens : a.tokens = 0)
    (howners : a.owners = 0) (hholders : a.holders = 0) : b = a := by
  cases hmove with
  | still hsame => exact hsame
  | claim hbefore =>
      rw [hqueued] at hbefore
      cases hbefore
  | _ => omega

end Move

end Ledger

/-! ## The books of the scheduler -/

/-- One for the element in question, nothing for any other. -/
def same (e el : ℕ) : ℕ := if e = el then 1 else 0

@[simp]
theorem same_self (el : ℕ) : same el el = 1 := if_pos rfl

/-- The tokens that `execute_element_task` has and still has after queueing another. -/
def Cont.holds (el : ℕ) : Cont → ℕ
  | execute e => same e el
  | _ => 0

/-- A token taken from the ready queue and not counted off yet. -/
def Place.executing (el : ℕ) : Place → ℕ
  | queueing _ _ cont => cont.holds el
  | received e | checking e | entering e | inside e _ | pushing e _ | ending e | clearing e _
  | releasing e _ _ | unqueueing e _ | dropping e _ => same e el
  | _ => 0

/-- A counted token on its way into the ready queue, or back. -/
def Place.putting (el : ℕ) : Place → ℕ
  | queueing .push e _ | queueing .uncount e _ => same e el
  | _ => 0

/-- The flag won in `zst_scheduler_queue_task`, without a counted token. -/
def Place.claiming (el : ℕ) : Place → ℕ
  | queueing .count e _ | queueing .reset e _ => same e el
  | _ => 0

/-- A token taken from the ready queue, before `is_queued` is cleared for it. -/
def Place.minding (el : ℕ) : Place → ℕ
  | received e | checking e | entering e | inside e _ | pushing e _ | ending e | clearing e _
  | releasing e true _ | unqueueing e _ => same e el
  | _ => 0

/-- The thread answers for the flag. -/
def Place.owns (el : ℕ) (place : Place) : ℕ :=
  place.claiming el + place.putting el + place.minding el

/-- The counted tokens in the hands of the thread. -/
def Place.holds (el : ℕ) (place : Place) : ℕ := place.executing el + place.putting el

@[simp]
theorem Cont.place_owns (el : ℕ) (cont : Cont) : cont.place.owns el = 0 := by
  cases cont <;> rfl

@[simp]
theorem Cont.place_holds (el : ℕ) (cont : Cont) : cont.place.holds el = cont.holds el := by
  cases cont <;> rfl

@[simp]
theorem Home.place_owns (el : ℕ) (home : Home) : home.place.owns el = 0 := by
  cases home <;> rfl

@[simp]
theorem Home.place_holds (el : ℕ) (home : Home) : home.place.holds el = 0 := by
  cases home <;> rfl

@[simp]
theorem afterProcess_owns (e : ℕ) (isSource buffer : Bool) (result : Result) (el : ℕ) :
    (afterProcess e isSource buffer result).owns el = same e el := by
  cases result <;> cases buffer <;> simp [afterProcess, Place.owns, Place.claiming,
    Place.putting, Place.minding]

@[simp]
theorem afterProcess_holds (e : ℕ) (isSource buffer : Bool) (result : Result) (el : ℕ) :
    (afterProcess e isSource buffer result).holds el = same e el := by
  cases result <;> cases buffer <;> simp [afterProcess, Place.holds, Place.executing,
    Place.putting]

/-- Who answers for the flag has a counted token, or is claiming one. -/
theorem Place.owns_le (el : ℕ) (place : Place) :
    place.owns el ≤ place.holds el + place.claiming el := by
  have hminding : place.minding el ≤ place.executing el := by
    unfold Place.minding Place.executing
    split <;> simp
  simp only [Place.owns, Place.holds]
  omega

variable {ι : Type} [Fintype ι] [DecidableEq ι]

/-- The books of an element's token. -/
def Sched.ledger (s : Sched ι) (el : ℕ) : Ledger where
  queued := s.isQueued el
  refs := s.schedTaskRefs el
  tokens := s.readyQueue.count el
  owners := tally (Place.owns el) s.place
  holders := tally (Place.holds el) s.place

/-- The thread is about to read `memory.priv` of the token. -/
def Place.readsPriv (el : ℕ) : Place → Bool
  | received e | releasing e _ _ => decide (e = el)
  | _ => false

/-- A thread reads `memory.priv` of an element's token after it has been cleared. -/
def ReadsCleared (s : Sched ι) (a : Action ι) (el : ℕ) : Prop :=
  ∃ t, a = .step t ∧ (s.place t).readsPriv el = true ∧ s.tokenPriv el = false

instance (s : Sched ι) (a : Action ι) (el : ℕ) : Decidable (ReadsCleared s a el) :=
  inferInstanceAs (Decidable (∃ _, _))

namespace Ledger.Move

variable {lost : Prop} {s r s' : Sched ι} {t : ι} {place : Place} {el e : ℕ}

/-! ## One thread moves on -/

/-- Nothing is entered in the books of an element, and no thread moves. -/
structure SameBooks (s r : Sched ι) (el : ℕ) : Prop where
  queued : r.isQueued el = s.isQueued el
  refs : r.schedTaskRefs el = s.schedTaskRefs el
  tokens : r.readyQueue.count el = s.readyQueue.count el
  place : r.place = s.place

theorem owners_goto (hplace : r.place = s.place) (t : ι) (place : Place) (el : ℕ) :
    ((r.goto t place).ledger el).owners + (s.place t).owns el =
      (s.ledger el).owners + place.owns el := by
  have hupdate := tally_update (Place.owns el) r.place t place
  rw [hplace] at hupdate
  simpa only [Sched.ledger, Sched.goto, hplace] using hupdate

theorem holders_goto (hplace : r.place = s.place) (t : ι) (place : Place) (el : ℕ) :
    ((r.goto t place).ledger el).holders + (s.place t).holds el =
      (s.ledger el).holders + place.holds el := by
  have hupdate := tally_update (Place.holds el) r.place t place
  rw [hplace] at hupdate
  simpa only [Sched.ledger, Sched.goto, hplace] using hupdate

/-- A thread with the same tokens in hand as before. -/
theorem still_goto (hbooks : SameBooks s r el) (howns : place.owns el = (s.place t).owns el)
    (hholds : place.holds el = (s.place t).holds el) :
    Move lost (s.ledger el) ((r.goto t place).ledger el) := by
  have howners := owners_goto hbooks.place t place el
  have hholders := holders_goto hbooks.place t place el
  apply Move.still
  apply Ledger.ext
  · exact hbooks.queued
  · exact hbooks.refs
  · exact hbooks.tokens
  · omega
  · omega

section

omit [Fintype ι] [DecidableEq ι]

theorem SameBooks.rfl : SameBooks s s el := ⟨.refl _, .refl _, .refl _, .refl _⟩

theorem sameBooks_setQueued (hne : e ≠ el) (queued : Bool) :
    SameBooks s (s.setQueued e queued) el :=
  ⟨update_of_ne hne.symm _ _, .refl _, .refl _, .refl _⟩

theorem sameBooks_addRef (hne : e ≠ el) : SameBooks s (s.addRef e) el :=
  ⟨.refl _, update_of_ne hne.symm _ _, .refl _, .refl _⟩

theorem sameBooks_dropRef (hne : e ≠ el) : SameBooks s (s.dropRef e) el :=
  ⟨.refl _, update_of_ne hne.symm _ _, .refl _, .refl _⟩

end

/-- A thread that answers for the flag clears it. -/
theorem clear_goto (howns : (s.place t).owns el = place.owns el + same e el)
    (hholds : place.holds el = (s.place t).holds el) :
    Move lost (s.ledger el) (((s.setQueued e false).goto t place).ledger el) := by
  by_cases he : e = el
  · subst he
    rw [same_self] at howns
    have howners := owners_goto (r := s.setQueued e false) (.refl s.place) t place e
    have hholders := holders_goto (r := s.setQueued e false) (.refl s.place) t place e
    refine .clear ?_ (.refl _) (.refl _) (by omega) (by omega)
    exact update_self _ _ _
  · rw [same, if_neg he, Nat.add_zero] at howns
    exact still_goto (sameBooks_setQueued he false) howns.symm hholds

/-- A thread counts a token off. -/
theorem discount_goto (howns : place.owns el = (s.place t).owns el)
    (hholds : (s.place t).holds el = place.holds el + same e el) :
    Move lost (s.ledger el) (((s.dropRef e).goto t place).ledger el) := by
  by_cases he : e = el
  · subst he
    rw [same_self] at hholds
    have howners := owners_goto (r := s.dropRef e) (.refl s.place) t place e
    have hholders := holders_goto (r := s.dropRef e) (.refl s.place) t place e
    refine .discount (.refl _) ?_ (.refl _) (by omega) (by omega)
    exact update_self _ _ _
  · rw [same, if_neg he, Nat.add_zero] at hholds
    exact still_goto (sameBooks_dropRef he) howns hholds.symm

/-- A thread takes the first token of the ready queue. -/
theorem take_goto {rest : List ℕ} (hready : s.readyQueue = e :: rest)
    (howns : place.owns el = (s.place t).owns el + same e el)
    (hholds : place.holds el = (s.place t).holds el + same e el) :
    Move lost (s.ledger el)
      ((({ s with readyQueue := rest } : Sched ι).goto t place).ledger el) := by
  have hcount : s.readyQueue.count el = rest.count el + same e el := by
    rw [hready, List.count_cons, same]
    simp only [beq_iff_eq]
  by_cases he : e = el
  · subst he
    rw [same_self] at howns hholds hcount
    have howners := owners_goto (r := { s with readyQueue := rest }) (.refl s.place) t place e
    have hholders := holders_goto (r := { s with readyQueue := rest }) (.refl s.place) t place e
    exact .take (.refl _) (.refl _) hcount.symm (by omega) (by omega)
  · rw [same, if_neg he, Nat.add_zero] at howns hholds hcount
    exact still_goto ⟨.refl _, .refl _, hcount.symm, .refl _⟩ howns hholds

/-- A thread puts its token into the ready queue. -/
theorem put_goto (howns : (s.place t).owns el = place.owns el + same e el)
    (hholds : (s.place t).holds el = place.holds el + same e el) :
    Move lost (s.ledger el)
      ((({ s with readyQueue := s.readyQueue ++ [e] } : Sched ι).goto t place).ledger el) := by
  have hcount : (s.readyQueue ++ [e]).count el = s.readyQueue.count el + same e el := by
    rw [List.count_append, List.count_singleton, same]
    simp only [beq_iff_eq]
  by_cases he : e = el
  · subst he
    rw [same_self] at howns hholds hcount
    have howners := owners_goto (r := { s with readyQueue := s.readyQueue ++ [e] })
      (.refl s.place) t place e
    have hholders := holders_goto (r := { s with readyQueue := s.readyQueue ++ [e] })
      (.refl s.place) t place e
    exact .put (.refl _) (.refl _) hcount (by omega) (by omega)
  · rw [same, if_neg he, Nat.add_zero] at howns hholds hcount
    exact still_goto ⟨.refl _, .refl _, hcount, .refl _⟩ howns.symm hholds.symm

/-- A thread exchanges the flag, and has won it or goes on. -/
theorem exchange_goto {cont : Cont} (hplace : s.place t = .queueing .exchange e cont) :
    Move lost (s.ledger el) (((s.setQueued e true).goto t
      (if s.isQueued e then cont.place else .queueing .count e cont)).ledger el) := by
  have howns : (s.place t).owns el = 0 := by
    rw [hplace]
    rfl
  have hholds : (s.place t).holds el = cont.holds el := by
    rw [hplace]
    rfl
  cases hqueued : s.isQueued e with
  | true =>
      have hflags : (s.setQueued e true).isQueued = s.isQueued := by
        rw [← hqueued]
        exact update_eq_self _ _
      apply still_goto ⟨congrFun hflags el, .refl _, .refl _, .refl _⟩
      · rw [howns]
        exact cont.place_owns el
      · rw [hholds]
        exact cont.place_holds el
  | false =>
      simp only [Bool.false_eq_true, if_false]
      by_cases he : e = el
      · subst he
        have hown : (Place.queueing .count e cont).owns e = 1 := by
          simp [Place.owns, Place.claiming, Place.putting, Place.minding]
        have hhold : (Place.queueing .count e cont).holds e = cont.holds e := rfl
        have howners := owners_goto (r := s.setQueued e true) (.refl s.place) t
          (.queueing .count e cont) e
        have hholders := holders_goto (r := s.setQueued e true) (.refl s.place) t
          (.queueing .count e cont) e
        refine .claim hqueued ?_ (.refl _) (.refl _) (by omega) (by omega)
        exact update_self _ _ _
      · apply still_goto (sameBooks_setQueued he true)
        · rw [howns]
          simp [Place.owns, Place.claiming, Place.putting, Place.minding, same, he]
        · rw [hholds]
          rfl

/-- A thread counts the token it is about to push. -/
theorem count_goto {cont : Cont} (hplace : s.place t = .queueing .count e cont) :
    Move lost (s.ledger el) (((s.addRef e).goto t (.queueing .push e cont)).ledger el) := by
  have howns : (s.place t).owns el = (Place.queueing .push e cont).owns el := by
    rw [hplace]
    simp [Place.owns, Place.claiming, Place.putting, Place.minding]
  have hholds : (Place.queueing .push e cont).holds el = (s.place t).holds el + same e el := by
    rw [hplace]
    rfl
  by_cases he : e = el
  · subst he
    rw [same_self] at hholds
    have howners := owners_goto (r := s.addRef e) (.refl s.place) t (.queueing .push e cont) e
    have hholders := holders_goto (r := s.addRef e) (.refl s.place) t (.queueing .push e cont) e
    have hclaimed : 0 < (s.ledger e).owners := by
      have hle := le_tally (Place.owns e) s.place t
      have hone : (s.place t).owns e = 1 := by
        rw [hplace]
        simp [Place.owns, Place.claiming, Place.putting, Place.minding]
      change 0 < tally (Place.owns e) s.place
      omega
    refine .count hclaimed (.refl _) ?_ (.refl _) (by omega) (by omega)
    exact update_self _ _ _
  · rw [same, if_neg he, Nat.add_zero] at hholds
    exact still_goto (sameBooks_addRef he) howns.symm hholds

/-- A thread that finds no element behind its token forgets about the flag. -/
theorem forget_goto (hlost : e = el → lost)
    (howns : (s.place t).owns el = place.owns el + same e el)
    (hholds : place.holds el = (s.place t).holds el) :
    Move lost (s.ledger el) ((s.goto t place).ledger el) := by
  by_cases he : e = el
  · subst he
    rw [same_self] at howns
    have howners := owners_goto (.refl s.place) t place e
    have hholders := holders_goto (.refl s.place) t place e
    exact .forget (hlost rfl) (.refl _) (.refl _) (.refl _) (by omega) (by omega)
  · rw [same, if_neg he, Nat.add_zero] at howns
    exact still_goto .rfl howns.symm hholds

/-- A thread that finds no element behind its token does not count it off. -/
theorem lose_goto (hlost : e = el → lost) (howns : place.owns el = 0)
    (hzero : e ≠ el → (s.place t).owns el = 0)
    (hholds : (s.place t).holds el = place.holds el + same e el) :
    Move lost (s.ledger el) ((s.goto t place).ledger el) := by
  by_cases he : e = el
  · subst he
    rw [same_self] at hholds
    have howners := owners_goto (.refl s.place) t place e
    have hholders := holders_goto (.refl s.place) t place e
    exact .lose (hlost rfl) (.refl _) (.refl _) (.refl _) (by omega) (by omega)
  · rw [same, if_neg he, Nat.add_zero] at hholds
    exact still_goto .rfl (by rw [howns, hzero he]) hholds.symm

/-! ## Every step is a move -/

theorem queueStep {pc : QueueTask} {cont : Cont} (hplace : s.place t = .queueing pc e cont)
    (hstep : Scheduler.queueStep s t e cont pc = some s') :
    Move lost (s.ledger el) (s'.ledger el) := by
  cases pc with
  | enter =>
      cases hstep
      apply still_goto .rfl
      · rw [hplace]
        split
        · rfl
        · exact cont.place_owns el
      · rw [hplace]
        split
        · rfl
        · exact cont.place_holds el
  | exchange =>
      cases hstep
      exact exchange_goto hplace
  | count =>
      cases hstep
      exact count_goto hplace
  | push => cases hstep
  | uncount =>
      cases hstep
      apply discount_goto
      · rw [hplace]
        simp [Place.owns, Place.claiming, Place.putting, Place.minding]
      · rw [hplace]
        rfl
  | reset =>
      cases hstep
      apply clear_goto
      · rw [hplace, cont.place_owns]
        simp [Place.owns, Place.claiming, Place.putting, Place.minding]
      · rw [hplace, cont.place_holds]
        rfl

/-- A removal touches no token. -/
theorem removalStep {inTransaction : Bool} {phase : Removal}
    (hplace : s.place t = .removing e inTransaction phase)
    (hstep : Scheduler.removalStep s t e inTransaction phase = some s') :
    Move lost (s.ledger el) (s'.ledger el) := by
  have hstill : ∀ {r : Sched ι} {place : Place}, SameBooks s r el →
      place.owns el = 0 → place.holds el = 0 →
      Move lost (s.ledger el) ((r.goto t place).ledger el) := by
    intro r place hbooks howns hholds
    apply still_goto hbooks
    · rw [hplace, howns]
      rfl
    · rw [hplace, hholds]
      rfl
  cases phase with
  | check | unlocking | unlinking =>
      cases hstep
      exact hstill ⟨.refl _, .refl _, .refl _, .refl _⟩ (.refl _) (.refl _)
  | foreign =>
      obtain ⟨-, hstep⟩ := ite_none_left_eq_some.mp hstep
      cases hstep
      exact hstill .rfl (.refl _) (.refl _)
  | stopping m | closing m | draining | locking =>
      obtain ⟨-, hstep⟩ := ite_none_right_eq_some.mp hstep
      cases hstep
      exact hstill ⟨.refl _, .refl _, .refl _, .refl _⟩ (.refl _) (.refl _)
  | detaching =>
      cases hstep
      apply hstill
      · unfold Sched.removeLocked
        split <;> exact ⟨.refl _, .refl _, .refl _, .refl _⟩
      · split <;> rfl
      · split <;> rfl

/-- A thread without tokens stays without. -/
theorem still_bare (hbooks : SameBooks s r el) (howns : (s.place t).owns el = 0)
    (hholds : (s.place t).holds el = 0) (howns' : place.owns el = 0)
    (hholds' : place.holds el = 0) : Move lost (s.ledger el) ((r.goto t place).ledger el) :=
  still_goto hbooks (howns'.trans howns.symm) (hholds'.trans hholds.symm)

theorem threadStep {setting : Setting}
    (hlost : (s.place t).readsPriv el = true → s.tokenPriv el = false → lost)
    (hstep : Scheduler.threadStep setting s t (s.place t) = some s') :
    Move lost (s.ledger el) (s'.ledger el) := by
  generalize hplace : s.place t = place at hstep hlost
  have hbare : place.owns el = 0 → place.holds el = 0 → (s.place t).owns el = 0 ∧
      (s.place t).holds el = 0 := by
    rw [hplace]
    exact And.intro
  cases place with
  | queueing pc e cont => exact queueStep hplace hstep
  | removing e inTransaction phase => exact removalStep hplace hstep
  | idle | refreshing _ | popping | inside _ _ | draining | exited => cases hstep
  | rootsLock home | locking home | primeLock | joining | beginning =>
      obtain ⟨howns, hholds⟩ := hbare (.refl _) (.refl _)
      obtain ⟨-, hstep⟩ := ite_none_right_eq_some.mp hstep
      cases hstep
      exact still_bare ⟨.refl _, .refl _, .refl _, .refl _⟩ howns hholds (.refl _) (.refl _)
  | awaiting =>
      obtain ⟨howns, hholds⟩ := hbare (.refl _) (.refl _)
      obtain ⟨-, hstep⟩ := ite_none_left_eq_some.mp hstep
      cases hstep
      exact still_bare .rfl howns hholds (.refl _) (.refl _)
  | starting | spawning | stopping | unlocking =>
      obtain ⟨howns, hholds⟩ := hbare (.refl _) (.refl _)
      cases hstep
      exact still_bare ⟨.refl _, .refl _, .refl _, .refl _⟩ howns hholds (.refl _) (.refl _)
  | looping | waking =>
      obtain ⟨howns, hholds⟩ := hbare (.refl _) (.refl _)
      cases hstep
      apply still_bare .rfl howns hholds
      · split <;> rfl
      · split <;> rfl
  | rooting rest direct home =>
      obtain ⟨howns, hholds⟩ := hbare (.refl _) (.refl _)
      cases rest with
      | nil =>
          cases hstep
          apply still_bare ⟨.refl _, .refl _, .refl _, .refl _⟩ howns hholds
          · exact home.place_owns el
          · exact home.place_holds el
      | cons e rest =>
          cases hstep
          apply still_bare .rfl howns hholds
          · split <;> rfl
          · split <;> rfl
  | priming rest =>
      obtain ⟨howns, hholds⟩ := hbare (.refl _) (.refl _)
      cases rest with
      | nil =>
          cases hstep
          exact still_bare .rfl howns hholds (.refl _) (.refl _)
      | cons e rest =>
          cases hstep
          apply still_bare .rfl howns hholds
          · split <;> rfl
          · split <;> rfl
  | received e =>
      cases hstep
      cases hpriv : s.tokenPriv e with
      | true =>
          apply still_goto .rfl
          · rw [hplace]
            simp [Place.owns, Place.claiming, Place.putting, Place.minding]
          · rw [hplace]
            rfl
      | false =>
          apply forget_goto
          · intro he
            exact hlost (decide_eq_true he) (he ▸ hpriv)
          · rw [hplace]
            simp [Place.owns, Place.claiming, Place.putting, Place.minding]
          · rw [hplace]
            rfl
  | checking e | entering e =>
      cases hstep
      apply still_goto .rfl
      · rw [hplace]
        split <;> rfl
      · rw [hplace]
        split <;> rfl
  | pushing e isSource =>
      cases hstep
      apply still_goto .rfl
      · rw [hplace]
        rfl
      · rw [hplace]
        rfl
  | ending e =>
      cases hstep
      apply still_goto ⟨.refl _, .refl _, .refl _, .refl _⟩
      · rw [hplace]
        rfl
      · rw [hplace]
        rfl
  | clearing e requeue =>
      cases hstep
      apply clear_goto
      · rw [hplace]
        cases requeue <;> simp [Place.owns, Place.claiming, Place.putting, Place.minding]
      · rw [hplace]
        cases requeue <;> rfl
  | releasing e resetQueued home =>
      cases hstep
      cases hpriv : s.tokenPriv e with
      | true =>
          apply still_goto .rfl
          · rw [hplace]
            cases resetQueued <;> rfl
          · rw [hplace]
            cases resetQueued <;> rfl
      | false =>
          apply lose_goto
          · intro he
            exact hlost (decide_eq_true he) (he ▸ hpriv)
          · exact home.place_owns el
          · intro hne
            rw [hplace]
            cases resetQueued <;>
              simp [Place.owns, Place.claiming, Place.putting, Place.minding, same, hne]
          · rw [hplace, if_neg Bool.false_ne_true, home.place_holds, Nat.zero_add]
            rfl
  | unqueueing e home =>
      cases hstep
      apply clear_goto
      · rw [hplace]
        simp [Place.owns, Place.claiming, Place.putting, Place.minding]
      · rw [hplace]
        rfl
  | dropping e home =>
      cases hstep
      apply discount_goto
      · rw [hplace]
        exact home.place_owns el
      · rw [hplace, home.place_holds]
        simp [Place.holds, Place.executing, Place.putting]

section

omit [Fintype ι] [DecidableEq ι]

theorem sameBooks_callHook (setting : Setting) (e : ℕ) (old new : State) :
    SameBooks s (s.callHook setting e old new) el := by
  unfold Sched.callHook
  split <;> exact ⟨.refl _, .refl _, .refl _, .refl _⟩

/-- `zst_element_set_state` touches no token. -/
theorem sameBooks_settle (setting : Setting) (e : ℕ) (ok : Bool) (m : SetState) :
    SameBooks s (s.settle setting e ok m).1 el := by
  unfold Sched.settle
  split
  · split
    · exact sameBooks_callHook ..
    · exact .rfl
  · split <;> exact .rfl
  · split
    · exact .rfl
    · exact sameBooks_callHook ..
  · exact .rfl
  · exact ⟨.refl _, .refl _, .refl _, .refl _⟩
  · exact .rfl
  · exact .rfl

end

theorem next {setting : Setting} {a : Action ι} (hstep : Scheduler.next setting s a = some s') :
    Move (ReadsCleared s a el) (s.ledger el) (s'.ledger el) := by
  cases a with
  | step t =>
      apply threadStep (t := t)
      · intro hreads hpriv
        exact ⟨t, .refl _, hreads, hpriv⟩
      · exact hstep
  | run t | stop t | wake t | removeDynamic t e | reconfigureBegin t =>
      obtain ⟨hidle, hstep⟩ := ite_none_right_eq_some.mp hstep
      cases hstep
      apply still_goto .rfl
      · rw [hidle]
        first
        | rfl
        | split <;> rfl
      · rw [hidle]
        first
        | rfl
        | split <;> rfl
  | add t e realloc =>
      obtain ⟨-, hstep⟩ := ite_none_right_eq_some.mp hstep
      cases hstep
      apply Move.still
      cases realloc <;> rfl
  | remove t e =>
      obtain ⟨-, hstep⟩ := ite_none_right_eq_some.mp hstep
      cases hstep
      apply Move.still
      unfold Sched.removeLocked
      split <;> rfl
  | reconfigureEnd t =>
      obtain ⟨hidle, hstep⟩ := ite_none_right_eq_some.mp hstep
      split at hstep
      · cases hstep
        apply still_goto ⟨.refl _, .refl _, .refl _, .refl _⟩
        · rw [hidle]
          rfl
        · rw [hidle]
          rfl
      · cases hstep
        exact .still (.refl _)
  | refresh t realloc =>
      simp only [Scheduler.next] at hstep
      split at hstep
      case h_1 home hplace =>
          obtain ⟨-, hstep⟩ := ite_none_right_eq_some.mp hstep
          have hbooks : SameBooks s (s.refreshSourceRoots realloc).1 el := by
            unfold Sched.refreshSourceRoots
            split
            · exact .rfl
            · cases realloc <;> exact ⟨.refl _, .refl _, .refl _, .refl _⟩
          split at hstep
          case h_1 r heq =>
              cases hstep
              rw [heq] at hbooks
              apply still_goto hbooks
              · rw [hplace]
                rfl
              · rw [hplace]
                rfl
          case h_2 r heq =>
              cases hstep
              rw [heq] at hbooks
              apply still_goto hbooks
              · rw [hplace]
                rfl
              · rw [hplace]
                rfl
      case h_2 => cases hstep
  | push t ok =>
      simp only [Scheduler.next] at hstep
      split at hstep
      case h_1 e cont hplace =>
          split at hstep
          · obtain ⟨-, hstep⟩ := ite_none_right_eq_some.mp hstep
            cases hstep
            apply put_goto
            · rw [hplace, cont.place_owns]
              simp [Place.owns, Place.claiming, Place.putting, Place.minding]
            · rw [hplace, cont.place_holds]
              rfl
          · cases hstep
            apply still_goto .rfl
            · rw [hplace]
              simp [Place.owns, Place.claiming, Place.putting, Place.minding]
            · rw [hplace]
              rfl
      case h_2 => cases hstep
  | pop t =>
      simp only [Scheduler.next] at hstep
      split at hstep
      case h_1 e rest hready hplace =>
          cases hstep
          apply take_goto hready
          · rw [hplace]
            simp [Place.owns, Place.claiming, Place.putting, Place.minding]
          · rw [hplace]
            simp [Place.holds, Place.executing, Place.putting]
      case h_2 e rest hready hplace =>
          cases hstep
          apply take_goto hready
          · rw [hplace]
            simp [Place.owns, Place.claiming, Place.putting, Place.minding]
          · rw [hplace]
            simp [Place.holds, Place.executing, Place.putting]
      case h_3 => cases hstep
  | timeout t =>
      simp only [Scheduler.next] at hstep
      split at hstep
      case h_1 hplace =>
          cases hstep
          apply still_goto .rfl
          · rw [hplace]
            rfl
          · rw [hplace]
            rfl
      case h_2 hplace =>
          cases hstep
          apply still_goto .rfl
          · rw [hplace]
            rfl
          · rw [hplace]
            rfl
      case h_3 => cases hstep
  | process t result buffer =>
      simp only [Scheduler.next] at hstep
      split at hstep
      case h_1 e isSource hplace =>
          cases hstep
          apply still_goto .rfl
          · rw [hplace, afterProcess_owns]
            simp [Place.owns, Place.claiming, Place.putting, Place.minding]
          · rw [hplace, afterProcess_holds]
            rfl
      case h_2 => cases hstep
  | spawn t worker =>
      obtain ⟨⟨-, hidle⟩, hstep⟩ := ite_none_right_eq_some.mp hstep
      cases hstep
      apply still_goto ⟨.refl _, .refl _, .refl _, .refl _⟩
      · rw [hidle]
        rfl
      · rw [hidle]
        rfl
  | settle t ok =>
      simp only [Scheduler.next] at hstep
      split at hstep
      case h_1 e inTransaction m hplace =>
          cases hstep
          apply still_goto (sameBooks_settle setting e ok m)
          · rw [hplace]
            rfl
          · rw [hplace]
            rfl
      case h_2 e inTransaction m hplace =>
          cases hstep
          apply still_goto (sameBooks_settle setting e ok m)
          · rw [hplace]
            rfl
          · rw [hplace]
            rfl
      case h_3 => cases hstep
  | setState e state | setPads e sink linked | markDirty =>
      cases hstep
      exact .still (.refl _)
  | reorder elements =>
      obtain ⟨-, hstep⟩ := ite_none_right_eq_some.mp hstep
      cases hstep
      exact .still (.refl _)

end Ledger.Move

/-! ## The books of every run -/

variable {setting : Setting} {s : Sched ι}

omit [DecidableEq ι] in
/-- The books before anything has happened. -/
theorem ledger_of_initial (hinit : Initial s) (el : ℕ) :
    s.ledger el = ⟨false, 0, 0, 0, 0⟩ := by
  obtain ⟨-, hready, -, -, -, -, -, -, -, hels, hidle⟩ := hinit
  have howners : tally (Place.owns el) s.place = 0 := tally_eq_zero fun t => by
    rw [hidle t]
    rfl
  have hholders : tally (Place.holds el) s.place = 0 := tally_eq_zero fun t => by
    rw [hidle t]
    rfl
  unfold Sched.ledger
  rw [(hels el).1, (hels el).2.1, hready, howners, hholders]
  rfl

theorem exclusive_of_reachable (hs : (system ι setting).Reachable s) (el : ℕ) :
    (s.ledger el).Exclusive := by
  apply System.ReachableVia.invariant (I := fun s => (s.ledger el).Exclusive) ?_ ?_ hs
  · intro s hinit
    rw [ledger_of_initial hinit el]
    exact Nat.le_refl 0
  · intro s a s' _ h _ hnext
    exact (Ledger.Move.next hnext).exclusive h

theorem covered_of_reachable (hs : (system ι setting).Reachable s) (el : ℕ) :
    (s.ledger el).Covered := by
  apply System.ReachableVia.invariant (I := fun s => (s.ledger el).Covered) ?_ ?_ hs
  · intro s hinit
    rw [ledger_of_initial hinit el]
    exact Nat.le_refl 0
  · intro s a s' _ h _ hnext
    exact (Ledger.Move.next hnext).covered h

/-- No thread finds the element's token without the element. -/
def Kept (el : ℕ) (s : Sched ι) (a : Action ι) : Prop := ¬ ReadsCleared s a el

instance (el : ℕ) (s : Sched ι) (a : Action ι) : Decidable (Kept el s a) :=
  inferInstanceAs (Decidable (¬ _))

theorem exact_of_kept {el : ℕ} (hs : (system ι setting).ReachableVia (Kept el) s) :
    (s.ledger el).Exact := by
  apply System.ReachableVia.invariant (I := fun s => (s.ledger el).Exact) ?_ ?_ hs
  · intro s hinit
    rw [ledger_of_initial hinit el]
    exact ⟨rfl, rfl⟩
  · intro s a s' _ h hkept hnext
    exact (Ledger.Move.next hnext).exact hkept h

/-- A token that is gone while its flag is set stays gone, whatever happens. -/
theorem orphaned_of_run {s' : Sched ι} {el : ℕ} (hqueued : s.isQueued el = true)
    (htokens : s.readyQueue.count el = 0) (howners : tally (Place.owns el) s.place = 0)
    (hholders : tally (Place.holds el) s.place = 0) {actions : List (Action ι)}
    (hrun : (system ι setting).run s actions = some s') : s'.ledger el = s.ledger el := by
  induction actions generalizing s with
  | nil =>
      obtain rfl : s = s' := Option.some.inj hrun
      rfl
  | cons a rest ih =>
      obtain ⟨mid, hmid, hrest⟩ := bind_eq_some_iff.mp hrun
      have hsame : mid.ledger el = s.ledger el :=
        (Ledger.Move.next hmid).orphaned hqueued htokens howners hholders
      rw [← hsame]
      apply ih _ _ _ _ hrest
      · exact (congrArg Ledger.queued hsame).trans hqueued
      · exact (congrArg Ledger.tokens hsame).trans htokens
      · exact (congrArg Ledger.owners hsame).trans howners
      · exact (congrArg Ledger.holders hsame).trans hholders

end Zstreamer.Scheduler

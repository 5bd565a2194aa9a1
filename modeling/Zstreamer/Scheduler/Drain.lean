/-
# Dynamic removal waits before it closes

`zst_pipeline_remove_element_dynamic` stops the element, waits until no token of it is
out, and only then closes it.  The wait is without the lock of the elements, and a waker
that has seen the element playing may queue it after the wait; its token is harmless
because the worker looks at the state again before it calls `process`.

What carries the argument is `Quiet`: the element is not playing and no worker is past
that look.  Nobody leaves it, since nobody sets the element playing any more.  It holds
when the wait ends, provided the element did stop: then every worker that was past the
look has counted its token off.  If the `stop` hook refused, which the removal does not
check, the element can be queued again and is closed while it runs.
-/

import Zstreamer.Scheduler.Ledger

namespace Zstreamer.Scheduler

open Foundation Function Option

/-! ## The machine of a removal -/

def Frame.NeverPlays : Frame → Prop
  | climb target start => target ≠ .playing ∧ start ≠ .playing
  | arrive start => start ≠ .playing
  | descend target => target ≠ .playing
  | rollback => True

namespace SetState

/-- The calls that have begun and wait. -/
def stack : SetState → List Frame
  | call _ stack | hook _ _ stack | children _ _ stack | undo stack | store _ _ stack
  | returned _ stack => stack

/-- The state a call is about to bring about, if it knows. -/
def aim : SetState → Option State
  | call target _ => some target
  | hook _ new _ | children _ new _ | store _ new _ => some new
  | undo _ | returned _ _ => none

/-- Nothing that is done or waits to be done sets the element playing. -/
structure NeverPlays (m : SetState) : Prop where
  aim : m.aim ≠ some .playing
  stack : ∀ frame ∈ m.stack, frame.NeverPlays

/-- A single step to PAUSED from a state other than NULL. -/
def Calm : SetState → Prop
  | call target stack => target = .paused ∧ stack = []
  | hook old new stack | children old new stack | store old new stack =>
      old ≠ .null ∧ new = .paused ∧ stack = []
  | undo stack | returned _ stack => stack = []

theorem NeverPlays.begin {cur target : State} {stack : List Frame} (htarget : target ≠ .playing)
    (hstack : ∀ frame ∈ stack, frame.NeverPlays) : (begin cur target stack).NeverPlays := by
  have hcons : ∀ {frame : Frame}, frame.NeverPlays → ∀ f ∈ frame :: stack, f.NeverPlays := by
    intro frame hframe f hf
    rcases List.mem_cons.mp hf with rfl | hf
    · exact hframe
    · exact hstack f hf
  unfold SetState.begin
  split
  · exact ⟨nofun, hstack⟩
  · split
    case isTrue hclimb =>
        refine ⟨nofun, hcons ⟨htarget, ?_⟩⟩
        rintro rfl
        exact absurd hclimb.1 (by decide)
    case isFalse =>
        split
        case isTrue hready => exact absurd hready.2 htarget
        case isFalse =>
            split
            · exact ⟨nofun, hcons htarget⟩
            · split
              · exact ⟨nofun, hcons htarget⟩
              · exact ⟨fun h => htarget (Option.some.inj h), hstack⟩

theorem NeverPlays.resume {ok : Bool} {frame : Frame} {stack : List Frame}
    (hframe : frame.NeverPlays) (hstack : ∀ f ∈ stack, f.NeverPlays) :
    (resume ok frame stack).NeverPlays := by
  have hcons : ∀ {frame : Frame}, frame.NeverPlays → ∀ f ∈ frame :: stack, f.NeverPlays := by
    intro frame hframe f hf
    rcases List.mem_cons.mp hf with rfl | hf
    · exact hframe
    · exact hstack f hf
  cases frame with
  | climb target start =>
      cases ok with
      | true => exact ⟨fun h => hframe.1 (Option.some.inj h), hcons hframe.2⟩
      | false => exact ⟨nofun, hstack⟩
  | arrive start =>
      cases ok with
      | true => exact ⟨nofun, hstack⟩
      | false => exact ⟨fun h => hframe (Option.some.inj h), hcons trivial⟩
  | descend target =>
      cases ok with
      | true => exact ⟨fun h => hframe (Option.some.inj h), hstack⟩
      | false => exact ⟨nofun, hstack⟩
  | rollback => exact ⟨nofun, hstack⟩

end SetState

section Settle

variable {ι : Type} {setting : Setting} {s : Sched ι} {el : ℕ} {ok : Bool} {m : SetState}

theorem callHook_state (setting : Setting) (s : Sched ι) (el : ℕ) (old new : State) :
    (s.callHook setting el old new).state = s.state := by
  unfold Sched.callHook
  split <;> rfl

theorem callHook_closed_of_ne {old new : State} (hstep : ¬ (old = .ready ∧ new = .null)) :
    (s.callHook setting el old new).closed = s.closed := by
  have hhook : hookFor old new ≠ some .closeHook := by
    cases old <;> cases new <;> first | exact absurd ⟨rfl, rfl⟩ hstep | decide
  unfold Sched.callHook
  rw [if_neg fun h => hhook h.1]

theorem settle_neverPlays (h : m.NeverPlays) : (s.settle setting el ok m).2.NeverPlays := by
  cases m with
  | call target stack =>
      have hbegin : (SetState.begin (s.state el) target stack).NeverPlays :=
        SetState.NeverPlays.begin (fun heq => h.aim (congrArg some heq)) h.stack
      simp only [Sched.settle]
      split
      · rename_i heq
        rwa [heq] at hbegin
      · exact hbegin
  | hook old new stack =>
      simp only [Sched.settle]
      split
      · split
        · exact ⟨h.aim, h.stack⟩
        · exact ⟨h.aim, h.stack⟩
      · exact ⟨nofun, h.stack⟩
  | children old new stack =>
      simp only [Sched.settle]
      split
      · exact ⟨h.aim, h.stack⟩
      · exact ⟨nofun, h.stack⟩
  | undo stack => exact ⟨nofun, h.stack⟩
  | store old new stack => exact ⟨nofun, h.stack⟩
  | returned ok stack =>
      cases stack with
      | nil => exact h
      | cons frame stack =>
          exact SetState.NeverPlays.resume (h.stack frame List.mem_cons_self)
            fun f hf => h.stack f (List.mem_cons_of_mem frame hf)

/-- Only the store of a step changes a state. -/
theorem settle_state (setting : Setting) (s : Sched ι) (el : ℕ) (ok : Bool) (m : SetState) :
    (s.settle setting el ok m).1.state = s.state ∨
      ∃ old new stack, m = .store old new stack ∧
        (s.settle setting el ok m).1.state = update s.state el new := by
  cases m with
  | store old new stack => exact .inr ⟨old, new, stack, rfl, rfl⟩
  | call target stack =>
      apply Or.inl
      simp only [Sched.settle]
      split
      · exact callHook_state ..
      · rfl
  | hook old new stack =>
      apply Or.inl
      simp only [Sched.settle]
      split <;> rfl
  | children old new stack =>
      apply Or.inl
      simp only [Sched.settle]
      split
      · rfl
      · exact callHook_state ..
  | undo stack => exact .inl rfl
  | returned ok stack => cases stack <;> exact .inl rfl

theorem settle_closed_of_ne {other : ℕ} (hne : other ≠ el) :
    (s.settle setting el ok m).1.closed other = s.closed other := by
  have hcall : ∀ old new, (s.callHook setting el old new).closed other = s.closed other := by
    intro old new
    unfold Sched.callHook
    split
    · exact update_of_ne hne _ _
    · rfl
  cases m with
  | call target stack =>
      simp only [Sched.settle]
      split
      · exact hcall ..
      · rfl
  | hook old new stack =>
      simp only [Sched.settle]
      split <;> rfl
  | children old new stack =>
      simp only [Sched.settle]
      split
      · rfl
      · exact hcall ..
  | undo stack => rfl
  | store old new stack => rfl
  | returned ok stack => cases stack <;> rfl

/-- From a state other than NULL, a single step to PAUSED neither closes the element nor
becomes anything else. -/
theorem settle_calm (h : m.Calm) (hnull : s.state el ≠ .null) :
    (s.settle setting el ok m).2.Calm ∧ (s.settle setting el ok m).1.closed = s.closed := by
  cases m with
  | call target stack =>
      obtain ⟨rfl, rfl⟩ := h
      cases hstate : s.state el with
      | null => exact absurd hstate hnull
      | ready =>
          simp only [Sched.settle, hstate]
          exact ⟨⟨nofun, rfl, rfl⟩, callHook_closed_of_ne fun hstep => by cases hstep.2⟩
      | paused =>
          simp only [Sched.settle, hstate]
          exact ⟨rfl, rfl⟩
      | playing =>
          simp only [Sched.settle, hstate]
          exact ⟨⟨nofun, rfl, rfl⟩, callHook_closed_of_ne fun hstep => by cases hstep.2⟩
  | hook old new stack =>
      simp only [Sched.settle]
      split
      · split
        · exact ⟨h, rfl⟩
        · exact ⟨h, rfl⟩
      · exact ⟨h.2.2, rfl⟩
  | children old new stack =>
      simp only [Sched.settle]
      split
      · exact ⟨h, rfl⟩
      · exact ⟨h.2.2, callHook_closed_of_ne fun hstep => h.1 hstep.2⟩
  | undo stack => exact ⟨h, rfl⟩
  | store old new stack => exact ⟨h.2.2, rfl⟩
  | returned ok stack =>
      obtain rfl : stack = [] := h
      exact ⟨rfl, rfl⟩

end Settle

/-! ## Quiet elements -/

/-- A worker has seen the element playing and has not finished with its callback. -/
def Place.active (el : ℕ) : Place → Bool
  | entering e | inside e _ | pushing e _ | ending e => decide (e = el)
  | _ => false

/-- A thread removes the element. -/
def Place.removes (el : ℕ) : Place → Bool
  | removing e _ _ => decide (e = el)
  | _ => false

/-- A thread that removes the element tells it to stop. -/
def Place.stops (el : ℕ) : Place → Bool
  | removing e _ (.stopping _) => decide (e = el)
  | _ => false

/-- What a thread that removes the element relies on. -/
def Place.Fits (el : ℕ) (quiet : Prop) : Place → Prop
  | removing e _ (.stopping m) => e = el → m.NeverPlays ∧ (m.Calm ∨ quiet)
  | removing e _ (.closing m) => e = el → m.NeverPlays ∧ quiet
  | removing e _ .locking | removing e _ .unlinking | removing e _ .detaching => e = el → quiet
  | _ => True

theorem Place.Fits.imp {el : ℕ} {quiet quiet' : Prop} (himp : quiet → quiet') {place : Place}
    (h : place.Fits el quiet) : place.Fits el quiet' := by
  cases place with
  | removing e inTransaction phase =>
      cases phase with
      | stopping m => exact fun he => ⟨(h he).1, (h he).2.imp_right himp⟩
      | closing m => exact fun he => ⟨(h he).1, himp (h he).2⟩
      | locking | unlinking | detaching => exact fun he => himp (h he)
      | _ => trivial
  | _ => trivial

theorem Place.holds_of_active {el : ℕ} {place : Place} (hactive : place.active el = true) :
    place.holds el = 1 := by
  cases place with
  | entering e | inside e _ | pushing e _ | ending e =>
      obtain rfl : e = el := of_decide_eq_true hactive
      simp [Place.holds, Place.executing, Place.putting]
  | _ => cases hactive

variable {ι : Type}

/-- The element is not playing, and no worker still works for it as if it were. -/
def Quiet (s : Sched ι) (el : ℕ) : Prop :=
  s.state el ≠ .playing ∧ ∀ t, (s.place t).active el = false

/-- What holds of an element that is being removed. -/
structure Removable (el : ℕ) (s : Sched ι) : Prop where
  closed : s.closed el = true → Quiet s el
  fits : ∀ t, (s.place t).Fits el (Quiet s el)
  null : s.state el = .null → (∀ t, (s.place t).stops el = false) ∨ Quiet s el

variable [DecidableEq ι] {setting : Setting} {s r s' : Sched ι} {el : ℕ} {t : ι}
  {place : Place}

/-- Nobody leaves the quiet: the element is not set playing, and to get past the look at
its state it would have to be. -/
theorem Quiet.goto (h : Quiet s el) (hplace : r.place = s.place)
    (hplays : r.state el = .playing → s.state el = .playing)
    (hactive : place.active el = true → (s.place t).active el = true ∨ s.state el = .playing) :
    Quiet (r.goto t place) el := by
  refine ⟨fun hstate => h.1 (hplays hstate), fun u => ?_⟩
  change (update r.place t place u).active el = false
  rw [hplace]
  by_cases hu : u = t
  · rw [hu, update_self]
    by_contra hne
    rcases hactive (Bool.not_eq_false _ ▸ hne) with hold | hstate
    · rw [h.2 t] at hold
      cases hold
    · exact h.1 hstate
  · rw [update_of_ne hu]
    exact h.2 u

/-- The rule for a step of one thread. -/
theorem Removable.goto (h : Removable el s) (hplace : r.place = s.place)
    (hplays : r.state el = .playing → s.state el = .playing)
    (hnull : r.state el = .null → s.state el = .null ∨ Quiet s el)
    (hclosed : r.closed el = true → s.closed el = true ∨ Quiet s el)
    (hactive : place.active el = true → (s.place t).active el = true ∨ s.state el = .playing)
    (hstops : place.stops el = true → (s.place t).stops el = true ∨ s.state el = .playing)
    (hfits : place.Fits el (Quiet (r.goto t place) el)) : Removable el (r.goto t place) := by
  have hquiet : Quiet s el → Quiet (r.goto t place) el := fun hq => hq.goto hplace hplays hactive
  refine ⟨fun hclosed' => ?_, fun u => ?_, fun hnull' => ?_⟩
  · rcases hclosed hclosed' with hold | hq
    · exact hquiet (h.closed hold)
    · exact hquiet hq
  · change (update r.place t place u).Fits el _
    rw [hplace]
    by_cases hu : u = t
    · rw [hu, update_self]
      exact hfits
    · rw [update_of_ne hu]
      exact (h.fits u).imp hquiet
  · rcases hnull hnull' with hold | hq
    · rcases h.null hold with hnone | hq
      · apply Or.inl
        intro u
        change (update r.place t place u).stops el = false
        rw [hplace]
        by_cases hu : u = t
        · rw [hu, update_self]
          by_contra hne
          rcases hstops (Bool.not_eq_false _ ▸ hne) with hbefore | hstate
          · rw [hnone t] at hbefore
            cases hbefore
          · rw [hold] at hstate
            cases hstate
        · rw [update_of_ne hu]
          exact hnone u
      · exact .inr (hquiet hq)
    · exact .inr (hquiet hq)

/-- A step that leaves the element alone. -/
theorem Removable.goto_frame (h : Removable el s) (hplace : r.place = s.place)
    (hstate : r.state el = s.state el) (hclosed : r.closed el = s.closed el)
    (hactive : place.active el = true → (s.place t).active el = true ∨ s.state el = .playing)
    (hstops : place.stops el = true → (s.place t).stops el = true ∨ s.state el = .playing)
    (hfits : place.Fits el (Quiet (r.goto t place) el)) : Removable el (r.goto t place) :=
  h.goto hplace (fun hs => hstate ▸ hs) (fun hs => .inl (hstate ▸ hs))
    (fun hc => .inl (hclosed ▸ hc)) hactive hstops hfits

theorem Place.fits_of_removes {quiet : Prop} (hremoves : place.removes el = false) :
    place.Fits el quiet := by
  cases place with
  | removing e inTransaction phase =>
      have hne : e ≠ el := of_decide_eq_false hremoves
      cases phase with
      | stopping m | closing m | locking | unlinking | detaching => exact fun he => absurd he hne
      | _ => trivial
  | _ => trivial

theorem Place.stops_of_removes (hremoves : place.removes el = false) :
    place.stops el = false := by
  cases place with
  | removing e inTransaction phase =>
      cases phase with
      | stopping m => exact hremoves
      | _ => rfl
  | _ => rfl

/-- A thread that has nothing to do with the element any more. -/
theorem Removable.goto_bare (h : Removable el s) (hplace : r.place = s.place)
    (hstate : r.state el = s.state el) (hclosed : r.closed el = s.closed el)
    (hactive : place.active el = false) (hremoves : place.removes el = false) :
    Removable el (r.goto t place) := by
  apply h.goto_frame hplace hstate hclosed
  · rw [hactive]
    nofun
  · rw [Place.stops_of_removes hremoves]
    nofun
  · exact Place.fits_of_removes hremoves

@[simp]
theorem Cont.place_active (el : ℕ) (cont : Cont) : cont.place.active el = false := by
  cases cont <;> rfl

@[simp]
theorem Cont.place_removes (el : ℕ) (cont : Cont) : cont.place.removes el = false := by
  cases cont <;> rfl

@[simp]
theorem Home.place_active (el : ℕ) (home : Home) : home.place.active el = false := by
  cases home <;> rfl

@[simp]
theorem Home.place_removes (el : ℕ) (home : Home) : home.place.removes el = false := by
  cases home <;> rfl

/-! ## Every step keeps what a removal relies on -/

/-- A thread waits for the element's tokens in a removal. -/
def Place.drains (el : ℕ) : Place → Bool
  | removing e _ .draining => decide (e = el)
  | _ => false

/-- The surroundings change the element's state. -/
def Action.setsState (el : ℕ) : Action ι → Bool
  | setState e _ => decide (e = el)
  | _ => false

/-- The surroundings leave the element's state alone from when its removal begins, and the
wait of a removal ends when the element has stopped playing. -/
def Drains (el : ℕ) (s : Sched ι) (a : Action ι) : Prop :=
  (a.setsState el = true → (∀ t, (s.place t).removes el = false) ∧ s.closed el = false) ∧
  ∀ t, a = .step t → (s.place t).drains el = true → s.schedTaskRefs el = 0 →
    s.state el ≠ .playing

instance [Fintype ι] (el : ℕ) (s : Sched ι) (a : Action ι) : Decidable (Drains el s a) :=
  inferInstanceAs (Decidable (_ ∧ _))

theorem Removable.queueStep {pc : QueueTask} {e : ℕ} {cont : Cont} (h : Removable el s)
    (hstep : Scheduler.queueStep s t e cont pc = some s') : Removable el s' := by
  cases pc with
  | enter | exchange =>
      cases hstep
      refine h.goto_bare rfl rfl rfl ?_ ?_
      · split
        · first | rfl | exact cont.place_active el
        · first | rfl | exact cont.place_active el
      · split
        · first | rfl | exact cont.place_removes el
        · first | rfl | exact cont.place_removes el
  | count | uncount =>
      cases hstep
      exact h.goto_bare rfl rfl rfl rfl rfl
  | push => cases hstep
  | reset =>
      cases hstep
      exact h.goto_bare rfl rfl rfl (cont.place_active el) (cont.place_removes el)

variable [Fintype ι]

/-- One step of a removal, of this element or of another. -/
theorem Removable.removalStep {e : ℕ} {inTransaction : Bool} {phase : Removal}
    (h : Removable el s) (hcovered : (s.ledger el).Covered)
    (hplace : s.place t = .removing e inTransaction phase)
    (hdrains : e = el → phase = .draining → s.schedTaskRefs el = 0 → s.state el ≠ .playing)
    (hstep : Scheduler.removalStep s t e inTransaction phase = some s') : Removable el s' := by
  have hfits := h.fits t
  rw [hplace] at hfits
  cases phase with
  | check =>
      cases hstep
      by_cases hplaying : s.state e = .playing
      · rw [if_pos hplaying]
        apply h.goto_frame rfl rfl rfl
        · nofun
        · intro hstops
          obtain rfl : e = el := of_decide_eq_true hstops
          exact .inr hplaying
        · intro _
          exact ⟨⟨nofun, nofun⟩, .inl ⟨rfl, rfl⟩⟩
      · rw [if_neg hplaying]
        apply h.goto_frame rfl rfl rfl
        · nofun
        · cases inTransaction <;> nofun
        · cases inTransaction <;> trivial
  | stopping m =>
      obtain ⟨-, hstep⟩ := ite_none_right_eq_some.mp hstep
      cases hstep
      apply h.goto_frame rfl rfl rfl
      · nofun
      · cases inTransaction <;> nofun
      · cases inTransaction <;> trivial
  | unlocking =>
      cases hstep
      exact h.goto_frame rfl rfl rfl nofun nofun trivial
  | foreign =>
      obtain ⟨-, hstep⟩ := ite_none_left_eq_some.mp hstep
      cases hstep
      exact h.goto_frame rfl rfl rfl nofun nofun trivial
  | draining =>
      obtain ⟨hrefs, hstep⟩ := ite_none_right_eq_some.mp hstep
      cases hstep
      refine h.goto_frame rfl rfl rfl ?_ ?_ ?_
      · nofun
      · nofun
      · rintro rfl
        have hquiet : Quiet s e := by
          refine ⟨hdrains rfl rfl hrefs, fun u => ?_⟩
          -- No token is out, and a worker past the look has one.
          have hcount : s.readyQueue.count e + tally (Place.holds e) s.place ≤
            s.schedTaskRefs e := hcovered
          have hle := le_tally (Place.holds e) s.place u
          by_contra hne
          rw [Place.holds_of_active (Bool.not_eq_false _ ▸ hne)] at hle
          omega
        exact hquiet.goto rfl id (by nofun)
  | locking =>
      obtain ⟨-, hstep⟩ := ite_none_right_eq_some.mp hstep
      cases hstep
      refine h.goto_frame rfl rfl rfl ?_ ?_ fun he => ?_
      · nofun
      · nofun
      · exact ⟨⟨nofun, nofun⟩, (hfits he).goto rfl id (by nofun)⟩
  | closing m =>
      obtain ⟨-, hstep⟩ := ite_none_right_eq_some.mp hstep
      cases hstep
      refine h.goto_frame rfl rfl rfl ?_ ?_ fun he => ?_
      · nofun
      · nofun
      · exact (hfits he).2.goto rfl id (by nofun)
  | unlinking =>
      cases hstep
      refine h.goto_frame rfl rfl rfl ?_ ?_ fun he => ?_
      · nofun
      · nofun
      · exact (hfits he).goto rfl id (by nofun)
  | detaching =>
      cases hstep
      have hframe : (s.removeLocked e).place = s.place ∧ (s.removeLocked e).state = s.state ∧
          (s.removeLocked e).closed = s.closed := by
        unfold Sched.removeLocked
        split <;> exact ⟨rfl, rfl, rfl⟩
      apply h.goto_bare hframe.1 (congrFun hframe.2.1 el) (congrFun hframe.2.2 el)
      · split <;> rfl
      · split <;> rfl

omit [Fintype ι] in
/-- One step of `zst_element_set_state` in a removal. -/
theorem Removable.settle {e : ℕ} {inTransaction ok : Bool} {m : SetState} {phase : SetState → Removal}
    (h : Removable el s) (hphase : phase = .stopping ∨ phase = .closing)
    (hplace : s.place t = .removing e inTransaction (phase m)) :
    Removable el ((s.settle setting e ok m).1.goto t
      (.removing e inTransaction (phase (s.settle setting e ok m).2))) := by
  have hbooks : (s.settle setting e ok m).1.place = s.place :=
    (Ledger.Move.sameBooks_settle setting e ok m : Ledger.Move.SameBooks s _ el).place
  by_cases he : e = el
  case neg =>
      have hstate : (s.settle setting e ok m).1.state el = s.state el := by
        rcases settle_state setting s e ok m with hsame | ⟨old, new, stack, -, hstore⟩
        · rw [hsame]
        · rw [hstore, update_of_ne (Ne.symm he)]
      exact h.goto_bare hbooks hstate (settle_closed_of_ne (Ne.symm he)) rfl (decide_eq_false he)
  case pos =>
      subst he
      have hfits := h.fits t
      rw [hplace] at hfits
      have hmachine : m.NeverPlays ∧ ((phase = .stopping ∧ m.Calm) ∨ Quiet s e) := by
        rcases hphase with rfl | rfl
        · exact ⟨(hfits rfl).1, (hfits rfl).2.imp_left fun hcalm => ⟨rfl, hcalm⟩⟩
        · exact ⟨(hfits rfl).1, .inr (hfits rfl).2⟩
      obtain ⟨hnever, hcase⟩ := hmachine
      have hplays : (s.settle setting e ok m).1.state e = .playing → s.state e = .playing := by
        intro hstate
        rcases settle_state setting s e ok m with hsame | ⟨old, new, stack, rfl, hstore⟩
        · rwa [hsame] at hstate
        · rw [hstore, update_self] at hstate
          exact absurd (congrArg some hstate) hnever.aim
      have hstops : ∀ m', (Place.removing e inTransaction (phase m')).stops e = true →
          (s.place t).stops e = true ∨ s.state e = .playing := by
        intro m' hstops
        rw [hplace]
        rcases hphase with rfl | rfl
        · exact .inl hstops
        · cases hstops
      -- A machine that is not at rest was reached from a state NULL, or by a removal that has
      -- waited; either way the element is quiet.
      by_cases hquiet : Quiet s e
      · refine h.goto hbooks hplays (fun _ => .inr hquiet) (fun _ => .inr hquiet) (by nofun)
          (hstops _) ?_
        have hquiet' : Quiet ((s.settle setting e ok m).1.goto t
            (.removing e inTransaction (phase (s.settle setting e ok m).2))) e :=
          hquiet.goto hbooks hplays (by nofun)
        rcases hphase with rfl | rfl
        · exact fun _ => ⟨settle_neverPlays hnever, .inr hquiet'⟩
        · exact fun _ => ⟨settle_neverPlays hnever, hquiet'⟩
      · obtain ⟨rfl, hcalm⟩ := hcase.resolve_right hquiet
        have hnull : s.state e ≠ .null := by
          intro hstate
          rcases h.null hstate with hnone | hq
          · have hstop := hnone t
            rw [hplace] at hstop
            simp [Place.stops] at hstop
          · exact hquiet hq
        obtain ⟨hcalm', hclosed⟩ := @settle_calm ι setting s e ok m hcalm hnull
        refine h.goto hbooks hplays ?_ (fun hc => .inl (hclosed ▸ hc)) (by nofun) (hstops _)
          fun _ => ⟨settle_neverPlays hnever, .inl hcalm'⟩
        · intro hstate
          rcases settle_state setting s e ok m with hsame | ⟨old, new, stack, rfl, hstore⟩
          · exact .inl (hsame ▸ hstate)
          · rw [hstore, update_self, hcalm.2.1] at hstate
            cases hstate

theorem Removable.threadStep (h : Removable el s) (hcovered : (s.ledger el).Covered)
    (hdrains : (s.place t).drains el = true → s.schedTaskRefs el = 0 → s.state el ≠ .playing)
    (hstep : Scheduler.threadStep setting s t (s.place t) = some s') : Removable el s' := by
  cases hplace : s.place t with
  | queueing pc e cont =>
      rw [hplace] at hstep
      exact h.queueStep hstep
  | removing e inTransaction phase =>
      rw [hplace] at hstep
      refine h.removalStep hcovered hplace (fun he hphase => ?_) hstep
      apply hdrains
      rw [hplace, hphase]
      exact decide_eq_true he
  | idle | refreshing _ | popping | inside _ _ | draining | exited =>
      rw [hplace] at hstep
      cases hstep
  | rootsLock home | locking home | primeLock | joining | beginning =>
      rw [hplace] at hstep
      obtain ⟨-, hstep⟩ := ite_none_right_eq_some.mp hstep
      cases hstep
      exact h.goto_bare rfl rfl rfl rfl rfl
  | awaiting =>
      rw [hplace] at hstep
      obtain ⟨-, hstep⟩ := ite_none_left_eq_some.mp hstep
      cases hstep
      exact h.goto_bare rfl rfl rfl rfl rfl
  | starting | spawning | stopping | unlocking | pushing _ _ | unqueueing _ _ =>
      rw [hplace] at hstep
      cases hstep
      exact h.goto_bare rfl rfl rfl rfl rfl
  | looping | waking | received _ =>
      rw [hplace] at hstep
      cases hstep
      refine h.goto_bare rfl rfl rfl ?_ ?_
      · split <;> rfl
      · split <;> rfl
  | clearing e requeue =>
      rw [hplace] at hstep
      cases hstep
      refine h.goto_bare rfl rfl rfl ?_ ?_
      · split <;> rfl
      · split <;> rfl
  | rooting rest direct home =>
      rw [hplace] at hstep
      cases rest with
      | nil =>
          cases hstep
          exact h.goto_bare rfl rfl rfl (home.place_active el) (home.place_removes el)
      | cons e rest =>
          cases hstep
          refine h.goto_bare rfl rfl rfl ?_ ?_
          · split <;> rfl
          · split <;> rfl
  | priming rest =>
      rw [hplace] at hstep
      cases rest with
      | nil =>
          cases hstep
          exact h.goto_bare rfl rfl rfl rfl rfl
      | cons e rest =>
          cases hstep
          refine h.goto_bare rfl rfl rfl ?_ ?_
          · split <;> rfl
          · split <;> rfl
  | checking e =>
      rw [hplace] at hstep
      cases hstep
      split
      case isTrue hplaying =>
          refine h.goto_frame rfl rfl rfl (fun hactive => ?_) (by nofun) trivial
          obtain rfl : e = el := of_decide_eq_true hactive
          exact .inr hplaying
      case isFalse => exact h.goto_bare rfl rfl rfl rfl rfl
  | entering e =>
      rw [hplace] at hstep
      cases hstep
      split
      · refine h.goto_frame rfl rfl rfl (fun hactive => ?_) (by nofun) trivial
        rw [hplace]
        exact .inl hactive
      · exact h.goto_bare rfl rfl rfl rfl rfl
  | ending e =>
      rw [hplace] at hstep
      cases hstep
      have hready : ∀ {state : State}, state ≠ .ready →
          (s.storeState e .ready).state el = state → s.state el = state := by
        intro state hne hstate
        by_cases he : el = e
        · rw [he] at hstate
          exact absurd ((update_self _ _ _).symm.trans hstate).symm hne
        · exact (update_of_ne he _ _).symm.trans hstate
      exact h.goto rfl (hready (by decide)) (fun hnull => .inl (hready (by decide) hnull))
        .inl (by nofun) (by nofun) trivial
  | releasing e resetQueued home =>
      rw [hplace] at hstep
      cases hstep
      refine h.goto_bare rfl rfl rfl ?_ ?_
      · split
        · split <;> rfl
        · exact home.place_active el
      · split
        · split <;> rfl
        · exact home.place_removes el
  | dropping e home =>
      rw [hplace] at hstep
      cases hstep
      exact h.goto_bare rfl rfl rfl (home.place_active el) (home.place_removes el)

omit [Fintype ι] [DecidableEq ι] in
/-- A step that moves no thread and leaves the element's state alone. -/
theorem Removable.congr (h : Removable el s) (hplace : s'.place = s.place)
    (hstate : s'.state el = s.state el) (hclosed : s'.closed el = s.closed el) :
    Removable el s' := by
  have hquiet : Quiet s el → Quiet s' el := by
    rintro ⟨hplaying, hactive⟩
    refine ⟨hstate ▸ hplaying, fun t => ?_⟩
    rw [hplace]
    exact hactive t
  refine ⟨fun hc => hquiet (h.closed (hclosed ▸ hc)), fun t => ?_, fun hnull => ?_⟩
  · rw [hplace]
    exact (h.fits t).imp hquiet
  · rw [hplace]
    exact (h.null (hstate ▸ hnull)).imp_right hquiet

theorem Removable.next {a : Action ι} (h : Removable el s) (hcovered : (s.ledger el).Covered)
    (hdrains : Drains el s a) (hstep : Scheduler.next setting s a = some s') :
    Removable el s' := by
  cases a with
  | step t =>
      exact h.threadStep hcovered (hdrains.2 t rfl) hstep
  | run t | stop t | reconfigureBegin t =>
      obtain ⟨-, hstep⟩ := ite_none_right_eq_some.mp hstep
      cases hstep
      refine h.goto_bare rfl rfl rfl ?_ ?_
      · split <;> rfl
      · split <;> rfl
  | wake t =>
      obtain ⟨-, hstep⟩ := ite_none_right_eq_some.mp hstep
      cases hstep
      exact h.goto_bare rfl rfl rfl rfl rfl
  | removeDynamic t e =>
      obtain ⟨-, hstep⟩ := ite_none_right_eq_some.mp hstep
      cases hstep
      exact h.goto_frame rfl rfl rfl (fun hactive => by cases hactive)
        (fun hstops => by cases hstops) trivial
  | add t e realloc =>
      obtain ⟨-, hstep⟩ := ite_none_right_eq_some.mp hstep
      cases hstep
      cases realloc <;> exact h.congr rfl rfl rfl
  | remove t e =>
      obtain ⟨-, hstep⟩ := ite_none_right_eq_some.mp hstep
      cases hstep
      unfold Sched.removeLocked
      split <;> exact h.congr rfl rfl rfl
  | reconfigureEnd t =>
      obtain ⟨-, hstep⟩ := ite_none_right_eq_some.mp hstep
      split at hstep
      · cases hstep
        exact h.goto_bare rfl rfl rfl rfl rfl
      · cases hstep
        exact h
  | refresh t realloc =>
      simp only [Scheduler.next] at hstep
      split at hstep
      case h_1 home hplace =>
          obtain ⟨-, hstep⟩ := ite_none_right_eq_some.mp hstep
          have hframe : (s.refreshSourceRoots realloc).1.place = s.place ∧
              (s.refreshSourceRoots realloc).1.state = s.state ∧
              (s.refreshSourceRoots realloc).1.closed = s.closed := by
            unfold Sched.refreshSourceRoots
            split
            · exact ⟨rfl, rfl, rfl⟩
            · cases realloc <;> exact ⟨rfl, rfl, rfl⟩
          split at hstep
          case h_1 r heq =>
              cases hstep
              rw [heq] at hframe
              exact h.goto_bare hframe.1 (congrFun hframe.2.1 el) (congrFun hframe.2.2 el) rfl rfl
          case h_2 r heq =>
              cases hstep
              rw [heq] at hframe
              exact h.goto_bare hframe.1 (congrFun hframe.2.1 el) (congrFun hframe.2.2 el) rfl rfl
      case h_2 => cases hstep
  | push t ok =>
      simp only [Scheduler.next] at hstep
      split at hstep
      case h_1 e cont hplace =>
          split at hstep
          · obtain ⟨-, hstep⟩ := ite_none_right_eq_some.mp hstep
            cases hstep
            exact h.goto_bare rfl rfl rfl (cont.place_active el) (cont.place_removes el)
          · cases hstep
            exact h.goto_bare rfl rfl rfl rfl rfl
      case h_2 => cases hstep
  | pop t =>
      simp only [Scheduler.next] at hstep
      split at hstep
      case h_1 =>
          cases hstep
          exact h.goto_bare rfl rfl rfl rfl rfl
      case h_2 =>
          cases hstep
          exact h.goto_bare rfl rfl rfl rfl rfl
      case h_3 => cases hstep
  | timeout t =>
      simp only [Scheduler.next] at hstep
      split at hstep
      case h_1 =>
          cases hstep
          exact h.goto_bare rfl rfl rfl rfl rfl
      case h_2 =>
          cases hstep
          exact h.goto_bare rfl rfl rfl rfl rfl
      case h_3 => cases hstep
  | process t result buffer =>
      simp only [Scheduler.next] at hstep
      split at hstep
      case h_1 e isSource hplace =>
          cases hstep
          have hremoves : (afterProcess e isSource buffer result).removes el = false := by
            cases result <;> cases buffer <;> rfl
          refine h.goto_frame rfl rfl rfl (fun hactive => ?_) (fun hstops => ?_)
            (Place.fits_of_removes hremoves)
          · rw [hplace]
            apply Or.inl
            cases result <;> cases buffer <;> first | exact hactive | cases hactive
          · rw [Place.stops_of_removes hremoves] at hstops
            cases hstops
      case h_2 => cases hstep
  | spawn t worker =>
      obtain ⟨-, hstep⟩ := ite_none_right_eq_some.mp hstep
      cases hstep
      exact h.goto_bare rfl rfl rfl rfl rfl
  | settle t ok =>
      simp only [Scheduler.next] at hstep
      split at hstep
      case h_1 e inTransaction m hplace =>
          cases hstep
          exact h.settle (.inl rfl) hplace
      case h_2 e inTransaction m hplace =>
          cases hstep
          exact h.settle (.inr rfl) hplace
      case h_3 => cases hstep
  | setState e state =>
      cases hstep
      by_cases he : e = el
      · subst he
        obtain ⟨hremoves, hclosed⟩ := hdrains.1 (decide_eq_true rfl)
        refine ⟨fun hc => ?_, fun t => Place.fits_of_removes (hremoves t), fun _ => ?_⟩
        · change s.closed e = true at hc
          rw [hclosed] at hc
          cases hc
        · exact .inl fun t => Place.stops_of_removes (hremoves t)
      · exact h.congr rfl (update_of_ne (Ne.symm he) _ _) rfl
  | setPads e sink linked | markDirty =>
      cases hstep
      exact h.congr rfl rfl rfl
  | reorder elements =>
      obtain ⟨-, hstep⟩ := ite_none_right_eq_some.mp hstep
      cases hstep
      exact h.congr rfl rfl rfl

omit [Fintype ι] [DecidableEq ι] in
theorem removable_of_initial (hinit : Initial s) (el : ℕ) : Removable el s := by
  obtain ⟨-, -, -, -, -, -, -, -, -, hels, hidle⟩ := hinit
  refine ⟨fun hclosed => ?_, fun t => ?_, fun _ => .inl fun t => ?_⟩
  · rw [(hels el).2.2.2] at hclosed
    cases hclosed
  · rw [hidle t]
    trivial
  · rw [hidle t]
    rfl

/-- **A removal drains before it closes**, in every run in which the element has stopped
playing when the wait of a removal ends.  From the call of `close` on, no worker is inside
`process` or about to call it. -/
theorem removal_drains (hs : (system ι setting).ReachableVia (Drains el) s)
    (hclosed : s.closed el = true) (t : ι) : (s.place t).active el = false := by
  have hremovable : Removable el s := by
    apply System.ReachableVia.invariant (I := Removable el) ?_ ?_ hs
    · intro s hinit
      exact removable_of_initial hinit el
    · intro s a s' hreach h hdrains hnext
      exact h.next (covered_of_reachable hreach.reachable el) hdrains hnext
  exact (hremovable.closed hclosed).2 t

section Runs

local instance threeThreads : NeZero 3 := ⟨by decide⟩

/-- Worker 1 returns from `process` of element 0 while thread 2 removes it, finds that it is
paused the next time, and the element is closed. -/
def drainRun : List (Action (Fin 3)) :=
  [.run 0, .step 0, .step 0, .step 0, .step 0, .step 0, .step 0, .push 0 true, .step 0,
    .spawn 0 1, .step 0,
    .step 1, .pop 1, .step 1, .step 1, .step 1,
    .removeDynamic 2 0, .step 2, .settle 2 true, .settle 2 true, .settle 2 true, .step 2, .step 2,
    .process 1 .again false, .step 1, .step 1, .step 1, .step 1, .push 1 true, .step 1, .step 1,
    .step 1, .pop 1, .step 1, .step 1, .step 1, .step 1, .step 1,
    .step 2, .step 2, .settle 2 true, .settle 2 true, .settle 2 true, .settle 2 true,
    .settle 2 true, .settle 2 true]

/-- The `stop` hook of element 0 refuses, and the removal waits for nothing.  Thread 0 then
wakes the scheduler, worker 1 gets the element and calls `process`, and the removal, whose
second attempt to stop it succeeds, closes it. -/
def refusalRun : List (Action (Fin 3)) :=
  [.run 0, .step 0, .step 0, .step 0, .spawn 0 1, .step 0, .add 0 0 true,
    .removeDynamic 2 0, .step 2, .settle 2 true, .settle 2 false, .step 2, .step 2, .step 2,
    .wake 0, .step 0, .step 0, .refresh 0 true, .step 0, .step 0, .step 0, .step 0, .step 0,
    .push 0 true, .step 0,
    .step 1, .pop 1, .step 1, .step 1, .step 1,
    .step 2, .settle 2 true, .settle 2 true, .settle 2 true, .settle 2 true, .settle 2 true,
    .settle 2 true, .settle 2 true, .settle 2 true, .settle 2 true, .settle 2 true,
    .settle 2 true]

end Runs

/-- The wait of the removal has ended and `close` has been called. -/
theorem removal_drains_worker :
    ∃ s : Sched (Fin 3), s.closed 0 = true ∧ ∀ t, (s.place t).active 0 = false := by
  obtain ⟨s, hrun, hclosed⟩ := map_eq_some_iff.mp
    (show (((system (Fin 3) plain).restrict (Drains 0)).run (fresh [0] fun _ => .playing)
        drainRun).map (fun s => s.closed 0) = some true by decide +kernel)
  have hreach := System.Reachable.run (.start (initial_fresh [0] fun _ => .playing)) hrun
  exact ⟨s, hclosed, fun t => removal_drains (System.Reachable.of_restrict hreach) hclosed t⟩

/-- `close` has been called and a worker is inside `process`. -/
theorem closed_while_processing :
    ∃ s : Sched (Fin 3), (system (Fin 3) plain).Reachable s ∧
      (system (Fin 3) plain).run (fresh [] fun _ => .playing) refusalRun = some s ∧
      s.hasLinkedSinkPad 0 = false ∧ s.closed 0 = true ∧ s.place 1 = .inside 0 true := by
  obtain ⟨s, hrun, hs⟩ := map_eq_some_iff.mp
    (show ((system (Fin 3) plain).run (fresh [] fun _ => .playing) refusalRun).map
        (fun s => decide (s.hasLinkedSinkPad 0 = false ∧ s.closed 0 = true ∧
          s.place 1 = .inside 0 true)) = some true by decide +kernel)
  have hreach := System.Reachable.run (.start (initial_fresh [] fun _ => .playing)) hrun
  exact ⟨s, hreach, hrun, of_decide_eq_true hs⟩

end Zstreamer.Scheduler

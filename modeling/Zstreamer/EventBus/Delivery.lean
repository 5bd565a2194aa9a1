/-
# Every event leaves the bus once, in order

Two invariants carry the result.  `Queued` is about the list: following the next
pointers from `head` visits the queued events, `tail` is the last node, and `count`
is their number as far as 32 bits can say.  `Staffed` is about the threads: a
dispatch thread that has not exited is the one the bus knows of, and the handler
installed is still the one it was started with.  The second is where replacing a
handler could go wrong; it does not, because the old thread is joined before the
handler changes.

`count` is a `uint32_t` that nothing reads.  With 2³² events queued it is zero
again, which `count_wraps` shows.
-/

import Zstreamer.EventBus.Steps

namespace Zstreamer.EventBus

open Foundation List Function Option

/-! ## The list -/

/-- The bus holds `cells`, in this order. -/
structure Queued (b : Bus) (cells : List (ℕ × ℕ)) : Prop where
  chain : Chain b.nodes b.head cells
  tail : b.tail = cells.getLast?.map Prod.fst
  count : b.count.toNat = cells.length % 2 ^ 32
  fresh : ∀ n, b.nextNode ≤ n → b.nodes n = none

/-- What the list sections leave alone. -/
structure SameSetup (b b' : Bus) : Prop where
  flushing : b'.flushing = b.flushing
  hasThread : b'.hasThread = b.hasThread
  thread : b'.thread = b.thread
  handler : b'.handler = b.handler

theorem SameSetup.refl (b : Bus) : SameSetup b b := ⟨rfl, rfl, rfl, rfl⟩

/-- A post is refused and changes nothing, or puts its event behind all others. -/
theorem post_cases {b : Bus} {cells : List (ℕ × ℕ)} (h : Queued b cells) (event : ℕ)
    (malloc : Bool) :
    b.post event malloc = (b, false) ∨
    ∃ b' node, b.post event malloc = (b', true) ∧ Queued b' (cells ++ [(node, event)]) ∧
      SameSetup b b' := by
  unfold Bus.post
  split
  · exact .inl rfl
  · split
    · exact .inl rfl
    · have hcount : (b.count + 1).toNat = (cells ++ [(b.nextNode, event)]).length % 2 ^ 32 := by
        have := h.count
        rw [UInt32.toNat_add, UInt32.toNat_one, length_append, length_singleton]
        omega
      have htail : some b.nextNode =
          (cells ++ [(b.nextNode, event)]).getLast?.map Prod.fst := by
        rw [getLast?_concat]
        rfl
      right
      cases hlast : cells.getLast? with
      | none =>
          obtain rfl := getLast?_eq_none_iff.mp hlast
          have hnull : b.tail = none := by rw [h.tail]; rfl
          simp only [hnull]
          refine ⟨_, b.nextNode, rfl, ⟨Chain.single, htail, hcount, fun n hn => ?_⟩,
            ⟨rfl, rfl, rfl, rfl⟩⟩
          exact (update_of_ne (Nat.ne_of_gt hn) _ _).trans (h.fresh n (Nat.le_of_lt hn))
      | some last =>
          obtain ⟨last, value⟩ := last
          have hsome : b.tail = some last := by rw [h.tail, hlast]; rfl
          have hmem := mem_of_getLast? hlast
          obtain ⟨next, hcell⟩ := h.chain.allocated hmem
          have hne : last ≠ b.nextNode := by
            rintro rfl
            rw [h.fresh _ (Nat.le_refl _)] at hcell
            cases hcell
          have hlt : last < b.nextNode := by
            by_contra hnot
            rw [h.fresh _ (Nat.not_lt.mp hnot)] at hcell
            cases hcell
          simp only [hsome, update_of_ne hne, hcell, map_some]
          refine ⟨_, b.nextNode, rfl,
            ⟨h.chain.snoc hlast (h.fresh _ (Nat.le_refl _)), htail, hcount, fun n hn => ?_⟩,
            ⟨rfl, rfl, rfl, rfl⟩⟩
          have hn : b.nextNode < n := hn
          exact ((update_of_ne (Nat.ne_of_gt (Nat.lt_trans hlt hn)) _ _).trans
            (update_of_ne (Nat.ne_of_gt hn) _ _)).trans (h.fresh n (Nat.le_of_lt hn))

/-- A pop fails because the bus is flushing, finds nothing, or takes the first event. -/
theorem pop_cases {b : Bus} {cells : List (ℕ × ℕ)} (h : Queued b cells) :
    (b.flushing = true ∧ b.pop = (b, .error)) ∨
    (b.flushing = false ∧ cells = [] ∧ b.pop = (b, .empty)) ∨
    ∃ node event rest b', b.flushing = false ∧ cells = (node, event) :: rest ∧
      b.pop = (b', .ok event) ∧ Queued b' rest ∧ SameSetup b b' := by
  unfold Bus.pop
  split
  case isTrue hflushing => exact .inl ⟨hflushing, rfl⟩
  case isFalse hflushing =>
      right
      have hflushing : b.flushing = false := by simpa using hflushing
      obtain ⟨hchain, htail, hcount, hfresh⟩ := h
      generalize hhead : b.head = start at hchain
      cases hchain with
      | nil => exact .inl ⟨hflushing, rfl, rfl⟩
      | @cons node event next rest hcell hrest =>
          right
          simp only [hcell]
          refine ⟨node, event, rest, _, hflushing, rfl, rfl, ⟨?_, ?_, ?_, ?_⟩,
            ⟨rfl, rfl, rfl, rfl⟩⟩
          · exact (Chain.cons hcell hrest).tail hcell
          · change (if next = none then none else b.tail) = _
            rw [htail]
            cases hrest with
            | nil => rfl
            | cons _ _ => rw [getLast?_cons_cons]; rfl
          · have hcount : b.count.toNat = (rest.length + 1) % 2 ^ 32 := hcount
            change (b.count - 1).toNat = _
            rw [UInt32.toNat_sub, UInt32.toNat_one]
            omega
          · intro n hn
            change update b.nodes node none n = none
            by_cases hnode : n = node
            · rw [hnode, update_self]
            · rw [update_of_ne hnode]
              exact hfresh n hn

/-- What the list holds and what has left it are the accepted posts, in their order. -/
def InOrder (w : World) : Prop :=
  ∃ cells, Queued w.bus cells ∧ w.posted = w.taken.map Prod.snd ++ cells.map Prod.snd

theorem post_inOrder {w : World} {event : ℕ} {malloc : Bool} (h : InOrder w) :
    InOrder (w.post event malloc) := by
  obtain ⟨cells, hqueued, hposted⟩ := h
  rcases post_cases hqueued event malloc with hpost | ⟨b', node, hpost, hqueued', -⟩
  · simp only [World.post, hpost]
    exact ⟨cells, hqueued, hposted⟩
  · simp only [World.post, hpost]
    refine ⟨_, hqueued', ?_⟩
    simp [hposted]

theorem pop_inOrder {w : World} {taker : Taker} (h : InOrder w) : InOrder (w.pop taker).1 := by
  obtain ⟨cells, hqueued, hposted⟩ := h
  rcases pop_cases hqueued with ⟨-, hpop⟩ | ⟨-, -, hpop⟩ |
    ⟨node, event, rest, b', -, rfl, hpop, hqueued', -⟩
  · simp only [World.pop, hpop]
    exact ⟨cells, hqueued, hposted⟩
  · simp only [World.pop, hpop]
    exact ⟨cells, hqueued, hposted⟩
  · simp only [World.pop, hpop]
    refine ⟨rest, hqueued', ?_⟩
    simp [hposted]

/-! ## The dispatch threads -/

/-- The event a dispatch thread has taken out and not handed on yet. -/
def Dispatcher.inHand (d : Dispatcher) : List ℕ :=
  match d.pc with
  | .fetch event => [event]
  | .deliver event _ => [event]
  | _ => []

/-- The events a dispatch thread took, in order. -/
def World.takenBy (w : World) (t : ℕ) : List ℕ :=
  (w.taken.filter fun entry => entry.1 = .thread t).map Prod.snd

/-- The events a dispatch thread gave to a handler, in order. -/
def World.givenBy (w : World) (t : ℕ) : List ℕ :=
  (w.given.filter fun entry => entry.1 = t).map fun entry => entry.2.1

/-- The invariant of the threads. -/
structure Staffed (w : World) : Prop where
  fresh : ∀ t, w.nextThread ≤ t → w.threads t = none
  flushing : w.bus.flushing = true ↔ w.control ≠ .idle
  joining : ∀ handler old, w.control = .joining handler old → w.bus.thread = old
  running : ∀ t d, w.threads t = some d → d.pc ≠ .exited →
    w.bus.hasThread = true ∧ w.bus.thread = t ∧ w.bus.handler = some d.startedWith
  fetched : ∀ t d event handler, w.threads t = some d → d.pc = .deliver event handler →
    handler = some d.startedWith
  given : ∀ t event handler, (t, event, handler) ∈ w.given →
    ∃ d, w.threads t = some d ∧ handler = some d.startedWith
  handed : ∀ t, w.takenBy t = w.givenBy t ++ ((w.threads t).map Dispatcher.inHand).getD []

/-- The invariant does not depend on the list. -/
theorem Staffed.of_setup {w : World} {b' : Bus} {posted : List ℕ} (h : Staffed w)
    (hsame : SameSetup w.bus b') : Staffed { w with bus := b', posted := posted } where
  fresh := h.fresh
  flushing := by rw [hsame.flushing]; exact h.flushing
  joining := fun handler old hcontrol => hsame.thread.trans (h.joining handler old hcontrol)
  running := by
    rw [hsame.hasThread, hsame.thread, hsame.handler]
    exact h.running
  fetched := h.fetched
  given := h.given
  handed := h.handed

theorem post_staffed {w : World} {event : ℕ} {malloc : Bool} (horder : InOrder w)
    (h : Staffed w) : Staffed (w.post event malloc) := by
  obtain ⟨cells, hqueued, -⟩ := horder
  rcases post_cases hqueued event malloc with hpost | ⟨b', node, hpost, -, hsame⟩
  · simp only [World.post, hpost]
    exact h.of_setup (SameSetup.refl _)
  · simp only [World.post, hpost]
    exact h.of_setup hsame

/-- An event taken by a caller of `zst_bus_pop` is nobody's to deliver. -/
theorem pop_staffed {w : World} (horder : InOrder w) (h : Staffed w) :
    Staffed (w.pop .caller).1 := by
  obtain ⟨cells, hqueued, -⟩ := horder
  rcases pop_cases hqueued with ⟨-, hpop⟩ | ⟨-, -, hpop⟩ |
    ⟨node, event, rest, b', -, -, hpop, -, hsame⟩
  · simp only [World.pop, hpop]
    exact h
  · simp only [World.pop, hpop]
    exact h
  · simp only [World.pop, hpop]
    have hmoved : Staffed { w with bus := b', posted := w.posted } := h.of_setup hsame
    refine ⟨hmoved.fresh, hmoved.flushing, hmoved.joining, hmoved.running, hmoved.fetched,
      hmoved.given, fun t => ?_⟩
    have hother : World.takenBy { w with bus := b', taken := w.taken ++ [(.caller, event)] } t =
        w.takenBy t := by
      simp [World.takenBy]
    rw [hother]
    exact h.handed t

/-- A thread of a table with one entry replaced is the new one or an old one. -/
theorem thread_cases {threads : ℕ → Option Dispatcher} {s t : ℕ} {new d : Dispatcher}
    (ht : update threads s (some new) t = some d) :
    (t = s ∧ d = new) ∨ (t ≠ s ∧ threads t = some d) := by
  by_cases hself : t = s
  · subst hself
    rw [update_self] at ht
    exact .inl ⟨rfl, (Option.some.inj ht).symm⟩
  · rw [update_of_ne hself] at ht
    exact .inr ⟨hself, ht⟩

/-- Starting from a bus whose threads have all exited, any handler can be installed. -/
theorem install_staffed {w : World} {handler : Option ℕ} {created : Bool} (h : Staffed w)
    (hexited : ∀ t d, w.threads t = some d → d.pc = .exited) (hopen : w.bus.flushing = false) :
    Staffed (w.install handler created) := by
  have hquiet : Staffed { w with bus := { w.bus with handler := handler }, control := .idle } :=
    { fresh := h.fresh
      flushing := by simp [hopen]
      joining := fun _ _ hcontrol => by cases hcontrol
      running := fun t d ht hpc => absurd (hexited t d ht) hpc
      fetched := h.fetched
      given := h.given
      handed := h.handed }
  unfold World.install
  cases handler with
  | none => exact hquiet
  | some handler =>
      simp only
      split
      case isFalse => exact hquiet
      case isTrue =>
          have hnew : w.threads w.nextThread = none := h.fresh _ (Nat.le_refl _)
          have hold : ∀ t d, w.threads t = some d → t ≠ w.nextThread := by
            rintro t d ht rfl
            rw [hnew] at ht
            cases ht
          refine ⟨fun t ht => ?_, hquiet.flushing, fun _ _ hcontrol => ?_, fun t d ht hpc => ?_,
            fun t d event handler' ht hpc => ?_, fun t event handler' hmem => ?_, fun t => ?_⟩
          · have ht : w.nextThread < t := ht
            exact (update_of_ne (Nat.ne_of_gt ht) _ _).trans
              (h.fresh t (Nat.le_of_lt ht))
          · cases hcontrol
          · rcases thread_cases ht with ⟨rfl, rfl⟩ | ⟨-, hother⟩
            · exact ⟨rfl, rfl, rfl⟩
            · exact absurd (hexited t d hother) hpc
          · rcases thread_cases ht with ⟨rfl, rfl⟩ | ⟨-, hother⟩
            · cases hpc
            · exact h.fetched t d event handler' hother hpc
          · obtain ⟨d, ht, heq⟩ := h.given t event handler' hmem
            exact ⟨d, (update_of_ne (hold t d ht) _ _).trans ht, heq⟩
          · have hhanded := h.handed t
            by_cases hself : t = w.nextThread
            · subst hself
              rw [hnew] at hhanded
              change w.takenBy _ = w.givenBy _ ++ ((update w.threads _ _ _).map _).getD []
              rw [update_self]
              exact hhanded
            · change w.takenBy _ = w.givenBy _ ++ ((update w.threads _ _ _).map _).getD []
              rw [update_of_ne hself]
              exact hhanded

theorem setHandler_staffed {w : World} {handler : Option ℕ} {created : Bool} (h : Staffed w)
    (hidle : w.control = .idle) : Staffed (w.setHandler handler created) := by
  unfold World.setHandler
  split
  case isTrue hthread =>
      exact
        { fresh := h.fresh
          flushing := by simp
          joining := fun _ _ hcontrol => by
            cases hcontrol
            rfl
          running := h.running
          fetched := h.fetched
          given := h.given
          handed := h.handed }
  case isFalse hthread =>
      apply install_staffed h
      · intro t d ht
        by_contra hpc
        exact hthread (h.running t d ht hpc).1
      · have hflushing := h.flushing
        rw [hidle] at hflushing
        simpa using hflushing

/-- The old thread has exited, and it was the only one. -/
theorem finishSetHandler_staffed {w : World} {handler : Option ℕ} {old : ℕ} {created : Bool}
    (h : Staffed w) (hcontrol : w.control = .joining handler old) (hjoined : w.hasExited old) :
    Staffed (w.finishSetHandler handler created) := by
  have hexited : ∀ t d, w.threads t = some d → d.pc = .exited := by
    intro t d ht
    by_contra hpc
    have hthread := (h.running t d ht hpc).2.1
    rw [h.joining handler old hcontrol] at hthread
    subst hthread
    simp only [World.hasExited, ht, decide_eq_true_eq] at hjoined
    exact hpc hjoined
  have hstopped : Staffed
      { w with bus := { w.bus with hasThread := false, flushing := false }, control := .idle } :=
    { fresh := h.fresh
      flushing := by simp
      joining := fun _ _ hidle => by cases hidle
      running := fun t d ht hpc => absurd (hexited t d ht) hpc
      fetched := h.fetched
      given := h.given
      handed := h.handed }
  have hsame : w.finishSetHandler handler created = World.install handler created
      { w with bus := { w.bus with hasThread := false, flushing := false }, control := .idle } :=
    rfl
  rw [hsame]
  exact install_staffed hstopped hexited rfl

theorem setPc_threads {w : World} {t : ℕ} {d : Dispatcher} (ht : w.threads t = some d)
    (pc : DispatchPc) :
    (w.setPc t pc).threads = update w.threads t (some ⟨pc, d.startedWith⟩) := by
  simp only [World.setPc, ht, map_some]

/-- One dispatch thread moves.  What it took and gave must balance with what it has in hand;
the others are not touched. -/
theorem Staffed.move {w w' : World} {t : ℕ} {d : Dispatcher} {pc : DispatchPc} (h : Staffed w)
    (ht : w.threads t = some d) (hrunning : d.pc ≠ .exited)
    (hthreads : w'.threads = update w.threads t (some ⟨pc, d.startedWith⟩))
    (hnext : w'.nextThread = w.nextThread) (hsetup : SameSetup w.bus w'.bus)
    (hcontrol : w'.control = w.control)
    (hfetched : ∀ event handler, pc = .deliver event handler → handler = some d.startedWith)
    (hgiven : ∀ s event handler, (s, event, handler) ∈ w'.given →
      (s, event, handler) ∈ w.given ∨ (s = t ∧ handler = some d.startedWith))
    (hself : w'.takenBy t = w'.givenBy t ++ Dispatcher.inHand ⟨pc, d.startedWith⟩)
    (hothers : ∀ s, s ≠ t → w'.takenBy s = w.takenBy s ∧ w'.givenBy s = w.givenBy s) :
    Staffed w' := by
  refine ⟨fun s hs => ?_, ?_, fun handler old hjoining => ?_, fun s d' hs hpc => ?_,
    fun s d' event handler hs hpc => ?_, fun s event handler hmem => ?_, fun s => ?_⟩
  · rw [hnext] at hs
    rw [hthreads, update_of_ne]
    · exact h.fresh s hs
    · rintro rfl
      rw [h.fresh s hs] at ht
      cases ht
  · rw [hsetup.flushing, hcontrol]
    exact h.flushing
  · rw [hcontrol] at hjoining
    exact hsetup.thread.trans (h.joining handler old hjoining)
  · rw [hthreads] at hs
    rw [hsetup.hasThread, hsetup.thread, hsetup.handler]
    rcases thread_cases hs with ⟨rfl, rfl⟩ | ⟨-, hother⟩
    · exact h.running s d ht hrunning
    · exact h.running s d' hother hpc
  · rw [hthreads] at hs
    rcases thread_cases hs with ⟨rfl, rfl⟩ | ⟨-, hother⟩
    · exact hfetched event handler hpc
    · exact h.fetched s d' event handler hother hpc
  · rw [hthreads]
    rcases hgiven s event handler hmem with hold | ⟨rfl, heq⟩
    · obtain ⟨d', hs, heq⟩ := h.given s event handler hold
      by_cases hmoved : s = t
      · subst hmoved
        obtain rfl := Option.some.inj (ht.symm.trans hs)
        exact ⟨_, update_self _ _ _, heq⟩
      · exact ⟨d', (update_of_ne hmoved _ _).trans hs, heq⟩
    · exact ⟨_, update_self _ _ _, heq⟩
  · rw [hthreads]
    by_cases hmoved : s = t
    · subst hmoved
      rw [update_self]
      exact hself
    · rw [update_of_ne hmoved, (hothers s hmoved).1, (hothers s hmoved).2]
      exact h.handed s

/-- A dispatch thread moves without taking an event or handing one on. -/
theorem setPc_staffed {w : World} {t : ℕ} {d : Dispatcher} {pc : DispatchPc} (h : Staffed w)
    (ht : w.threads t = some d) (hrunning : d.pc ≠ .exited)
    (hfetched : ∀ event handler, pc = .deliver event handler → handler = some d.startedWith)
    (hhand : Dispatcher.inHand ⟨pc, d.startedWith⟩ = d.inHand) : Staffed (w.setPc t pc) := by
  apply h.move ht hrunning (setPc_threads ht pc) rfl (SameSetup.refl _) rfl hfetched
  · exact fun s event handler hmem => .inl hmem
  · have hhanded := h.handed t
    rw [ht, map_some, ← hhand] at hhanded
    exact hhanded
  · exact fun s _ => ⟨rfl, rfl⟩

/-- A dispatch thread takes the first event, or learns why there is none. -/
theorem dispatch_popping_staffed {w w' : World} {t : ℕ} {d : Dispatcher} (horder : InOrder w)
    (h : Staffed w) (ht : w.threads t = some d) (hpc : d.pc = .popping)
    (hnext : w.dispatch t .popping = some w') : Staffed w' := by
  have hrunning : d.pc ≠ .exited := by rw [hpc]; decide
  have hempty : d.inHand = [] := by simp only [Dispatcher.inHand, hpc]
  obtain ⟨cells, hqueued, -⟩ := horder
  rcases pop_cases hqueued with ⟨-, hpop⟩ | ⟨-, -, hpop⟩ |
    ⟨node, event, rest, b', -, -, hpop, -, hsame⟩
  · simp only [World.dispatch, World.pop, hpop, Option.some.injEq] at hnext
    subst hnext
    apply setPc_staffed h ht hrunning
    · intro _ _ heq
      cases heq
    · exact hempty.symm
  · simp only [World.dispatch, World.pop, hpop, Option.some.injEq] at hnext
    subst hnext
    exact h
  · simp only [World.dispatch, World.pop, hpop, Option.some.injEq] at hnext
    subst hnext
    refine h.move ht hrunning (setPc_threads ht _) rfl hsame rfl ?_ ?_ ?_ ?_
    · intro _ _ heq
      cases heq
    · exact fun s e handler hmem => .inl hmem
    · have hhanded := h.handed t
      rw [ht, map_some, getD_some, hempty, append_nil] at hhanded
      change World.takenBy { w with taken := w.taken ++ [(.thread t, event)] } t =
        w.givenBy t ++ [event]
      rw [← hhanded]
      simp [World.takenBy]
    · intro s hs
      refine ⟨?_, rfl⟩
      change World.takenBy { w with taken := w.taken ++ [(.thread t, event)] } s = w.takenBy s
      simp [World.takenBy, hs.symm]

/-- A dispatch thread hands its event on. -/
theorem dispatch_deliver_staffed {w w' : World} {t event : ℕ} {handler : Option ℕ}
    {d : Dispatcher} (h : Staffed w) (ht : w.threads t = some d) (hpc : d.pc = .deliver event handler)
    (hnext : w.dispatch t (.deliver event handler) = some w') : Staffed w' := by
  have hrunning : d.pc ≠ .exited := by rw [hpc]; simp
  have hhandler := h.fetched t d event handler ht hpc
  simp only [World.dispatch, Option.some.injEq] at hnext
  subst hnext
  refine h.move ht hrunning (setPc_threads ht _) rfl (SameSetup.refl _) rfl ?_ ?_ ?_ ?_
  · intro _ _ heq
    cases heq
  · intro s e handler' hmem
    rcases mem_append.mp hmem with hold | hnew
    · exact .inl hold
    · obtain ⟨rfl, heq⟩ := Prod.mk.inj (mem_singleton.mp hnew)
      obtain ⟨-, rfl⟩ := Prod.mk.inj heq
      exact .inr ⟨rfl, hhandler⟩
  · have hhanded := h.handed t
    simp only [ht, map_some, getD_some, Dispatcher.inHand, hpc] at hhanded
    change w.takenBy t = World.givenBy { w with given := w.given ++ [(t, event, handler)] } t ++ []
    rw [hhanded]
    simp [World.givenBy]
  · intro s hs
    refine ⟨rfl, ?_⟩
    change World.givenBy { w with given := w.given ++ [(t, event, handler)] } s = w.givenBy s
    simp [World.givenBy, hs.symm]

theorem dispatch_staffed {w w' : World} {t : ℕ} {d : Dispatcher} (horder : InOrder w)
    (h : Staffed w) (ht : w.threads t = some d) (hnext : w.dispatch t d.pc = some w') :
    Staffed w' := by
  cases hpc : d.pc with
  | popping =>
      rw [hpc] at hnext
      exact dispatch_popping_staffed horder h ht hpc hnext
  | fetch event =>
      have hrunning : d.pc ≠ .exited := by rw [hpc]; simp
      simp only [World.dispatch, hpc, Option.some.injEq] at hnext
      subst hnext
      apply setPc_staffed h ht hrunning
      · intro e handler heq
        cases heq
        exact (h.running t d ht hrunning).2.2
      · simp only [Dispatcher.inHand, hpc]
  | deliver event handler =>
      rw [hpc] at hnext
      exact dispatch_deliver_staffed h ht hpc hnext
  | failed =>
      have hrunning : d.pc ≠ .exited := by rw [hpc]; simp
      simp only [World.dispatch, hpc, Option.some.injEq] at hnext
      subst hnext
      apply setPc_staffed h ht hrunning
      · intro e handler heq
        split at heq
        · cases heq
        · cases heq
      · simp only [Dispatcher.inHand, hpc]
        split
        case h_1 heq =>
            split at heq
            · cases heq
            · cases heq
        case h_2 heq =>
            split at heq
            · cases heq
            · cases heq
        case h_3 => rfl
  | exited => simp [World.dispatch, hpc] at hnext

/-! ## Whole runs -/

theorem dispatch_inOrder {w w' : World} {t : ℕ} {pc : DispatchPc} (h : InOrder w)
    (hnext : w.dispatch t pc = some w') : InOrder w' := by
  cases pc with
  | popping =>
      have hpopped : InOrder (w.pop (.thread t)).1 := pop_inOrder h
      simp only [World.dispatch] at hnext
      split at hnext
      case h_1 heq =>
          cases hnext
          rw [heq] at hpopped
          exact hpopped
      case h_2 heq =>
          cases hnext
          rw [heq] at hpopped
          exact hpopped
      case h_3 heq =>
          cases hnext
          rw [heq] at hpopped
          exact hpopped
  | fetch event =>
      cases hnext
      exact h
  | deliver event handler =>
      cases hnext
      exact h
  | failed =>
      cases hnext
      exact h
  | exited => cases hnext

theorem install_inOrder {w : World} {handler : Option ℕ} {created : Bool} (h : InOrder w) :
    InOrder (w.install handler created) := by
  obtain ⟨cells, hqueued, hposted⟩ := h
  unfold World.install
  cases handler with
  | none =>
      exact ⟨cells, ⟨hqueued.chain, hqueued.tail, hqueued.count, hqueued.fresh⟩, hposted⟩
  | some handler =>
      simp only
      split
      · exact ⟨cells, ⟨hqueued.chain, hqueued.tail, hqueued.count, hqueued.fresh⟩, hposted⟩
      · exact ⟨cells, ⟨hqueued.chain, hqueued.tail, hqueued.count, hqueued.fresh⟩, hposted⟩

/-- The flags of the bus have no part in the order of its events. -/
theorem InOrder.of_flags {w : World} (h : InOrder w) (flushing hasThread : Bool)
    (control : Control) :
    InOrder { w with
      bus := { w.bus with flushing := flushing, hasThread := hasThread }, control := control } := by
  obtain ⟨cells, hqueued, hposted⟩ := h
  exact ⟨cells, ⟨hqueued.chain, hqueued.tail, hqueued.count, hqueued.fresh⟩, hposted⟩

theorem next_inOrder {w w' : World} {a : Action} (h : InOrder w) (hnext : next w a = some w') :
    InOrder w' := by
  cases a with
  | post event malloc =>
      cases hnext
      exact post_inOrder h
  | pop =>
      cases hnext
      exact pop_inOrder h
  | setHandler handler created =>
      simp only [next, ite_none_right_eq_some, Option.some.injEq] at hnext
      obtain ⟨-, rfl⟩ := hnext
      unfold World.setHandler
      split
      · exact h.of_flags true w.bus.hasThread _
      · exact install_inOrder h
  | joined created =>
      simp only [next] at hnext
      split at hnext
      · cases hnext
      · simp only [ite_none_right_eq_some, Option.some.injEq] at hnext
        obtain ⟨-, rfl⟩ := hnext
        exact install_inOrder (h.of_flags false false w.control)
  | dispatch t =>
      simp only [next] at hnext
      split at hnext
      · cases hnext
      · exact dispatch_inOrder h hnext

theorem next_staffed {w w' : World} {a : Action} (horder : InOrder w) (h : Staffed w)
    (hnext : next w a = some w') : Staffed w' := by
  cases a with
  | post event malloc =>
      cases hnext
      exact post_staffed horder h
  | pop =>
      cases hnext
      exact pop_staffed horder h
  | setHandler handler created =>
      simp only [next, ite_none_right_eq_some, Option.some.injEq] at hnext
      obtain ⟨hidle, rfl⟩ := hnext
      exact setHandler_staffed h hidle
  | joined created =>
      simp only [next] at hnext
      split at hnext
      case h_1 => cases hnext
      case h_2 handler old hcontrol =>
          simp only [ite_none_right_eq_some, Option.some.injEq] at hnext
          obtain ⟨hjoined, rfl⟩ := hnext
          exact finishSetHandler_staffed h hcontrol hjoined
  | dispatch t =>
      simp only [next] at hnext
      split at hnext
      case h_1 => cases hnext
      case h_2 d ht => exact dispatch_staffed horder h ht hnext

theorem start_inOrder : InOrder World.start :=
  ⟨[], ⟨.nil, rfl, rfl, fun _ _ => rfl⟩, rfl⟩

theorem start_staffed : Staffed World.start where
  fresh := fun _ _ => rfl
  flushing := by simp [World.start, Bus.create]
  joining := fun _ _ hcontrol => by cases hcontrol
  running := fun _ _ ht => by cases ht
  fetched := fun _ _ _ _ ht => by cases ht
  given := fun _ _ _ hmem => absurd hmem not_mem_nil
  handed := fun _ => rfl

theorem reachable_invariant {w : World} (hreach : bus.Reachable w) : InOrder w ∧ Staffed w := by
  apply System.ReachableVia.invariant _ _ hreach
  · rintro w rfl
    exact ⟨start_inOrder, start_staffed⟩
  · intro w a w' _ h _ hnext
    exact ⟨next_inOrder h.1 hnext, next_staffed h.1 h.2 hnext⟩

/-- **Bus delivery.**  In every state of every interleaving of posts, pops and handler
changes: what has been taken out, followed by what following the next pointers from `head`
visits, is the list of accepted posts in their order; `tail` is the last node and null
exactly when nothing is queued; `count` is the number of queued events modulo 2³².  What a
dispatch thread took is what it has given to its handler, in that order, and at most one
event it still has in hand; and it gave each to the handler installed when it was started. -/
theorem bus_delivery (w : World) (hreach : bus.Reachable w) :
    (∃ cells, Chain w.bus.nodes w.bus.head cells ∧
      w.posted = w.taken.map Prod.snd ++ cells.map Prod.snd ∧
      w.bus.tail = cells.getLast?.map Prod.fst ∧ (w.bus.tail = none ↔ cells = []) ∧
      w.bus.count.toNat = cells.length % 2 ^ 32) ∧
    (∀ t, w.takenBy t = w.givenBy t ++ ((w.threads t).map Dispatcher.inHand).getD []) ∧
    (∀ t event handler, (t, event, handler) ∈ w.given →
      ∃ d, w.threads t = some d ∧ handler = some d.startedWith) := by
  obtain ⟨⟨cells, hqueued, hposted⟩, hstaffed⟩ := reachable_invariant hreach
  refine ⟨⟨cells, hqueued.chain, hposted, hqueued.tail, ?_, hqueued.count⟩, hstaffed.handed,
    hstaffed.given⟩
  rw [hqueued.tail, map_eq_none_iff, getLast?_eq_none_iff]

/-- Handler 7 is replaced by handler 8 between two events: the first goes to 7, the second
waits for the new thread. -/
theorem bus_delivery_replaced :
    ∃ w, bus.run World.start
        [.setHandler (some 7) true, .post 1 true, .dispatch 0, .post 2 true,
          .setHandler (some 8) true, .dispatch 0, .dispatch 0, .dispatch 0, .dispatch 0,
          .joined true, .dispatch 1, .dispatch 1, .dispatch 1] = some w ∧
      w.given = [(0, 1, some 7), (1, 2, some 8)] ∧ w.posted = [1, 2] ∧
      ∃ d, w.threads 1 = some d ∧ d.startedWith = 8 := by
  obtain ⟨w, hrun, hw⟩ := map_eq_some_iff.mp
    (show (bus.run World.start
        [.setHandler (some 7) true, .post 1 true, .dispatch 0, .post 2 true,
          .setHandler (some 8) true, .dispatch 0, .dispatch 0, .dispatch 0, .dispatch 0,
          .joined true, .dispatch 1, .dispatch 1, .dispatch 1]).map
          (fun w => (w.given, w.posted)) = some ([(0, 1, some 7), (1, 2, some 8)], [1, 2])
      by decide +kernel)
  obtain ⟨hgiven, hposted⟩ := Prod.mk.inj hw
  obtain ⟨-, -, hhandler⟩ := bus_delivery w (System.Reachable.run (.start rfl) hrun)
  obtain ⟨d, hd, heq⟩ := hhandler 1 2 (some 8) (by rw [hgiven]; simp)
  exact ⟨w, hrun, hgiven, hposted, d, hd, (Option.some.inj heq).symm⟩

/-- Posting only: any number of events can be queued. -/
theorem posts_reachable (n : ℕ) :
    ∃ w, bus.Reachable w ∧ w.bus.flushing = false ∧ w.posted.length = n ∧ w.taken = [] := by
  induction n with
  | zero => exact ⟨World.start, .start rfl, rfl, rfl, rfl⟩
  | succ n ih =>
      obtain ⟨w, hreach, hopen, hposted, htaken⟩ := ih
      obtain ⟨⟨cells, hqueued, -⟩, -⟩ := reachable_invariant hreach
      rcases post_cases hqueued 0 true with hpost | ⟨b', node, hpost, -, hsame⟩
      · exfalso
        have hanswer := congrArg Prod.snd hpost
        simp [Bus.post, hopen] at hanswer
      · refine ⟨w.post 0 true, .step (a := .post 0 true) hreach trivial rfl, ?_, ?_, ?_⟩
        · simp only [World.post, hpost]
          exact hsame.flushing.trans hopen
        · simp [World.post, hpost, hposted]
        · simp only [World.post, hpost]
          exact htaken

/-- With 2³² events queued the count is zero. -/
theorem count_wraps :
    ¬ ∀ w, bus.Reachable w → ∃ cells, Chain w.bus.nodes w.bus.head cells ∧
      w.bus.count.toNat = cells.length := by
  intro hclaim
  obtain ⟨w, hreach, -, hposted, htaken⟩ := posts_reachable (2 ^ 32)
  obtain ⟨cells, hchain, hcount⟩ := hclaim w hreach
  obtain ⟨⟨queued, hqueued, horder⟩, -⟩ := reachable_invariant hreach
  obtain rfl := hchain.unique hqueued.chain
  have hlength : cells.length = 2 ^ 32 := by
    rw [← hposted, horder, htaken]
    simp
  have hbound := w.bus.count.toNat_lt
  omega

end Zstreamer.EventBus

/-
# End of stream at a bin

A sink ghost pad hands a buffer with data to its target at once.  An end-of-stream buffer is held
back until every sink ghost pad of the bin has seen one, and then goes to the targets of all of
them, once; a bin without source pads posts the event for it itself.  With source pads the event is
posted when the end of the stream leaves through one of them, pushed by its proxy or pulled.  In
any case it is posted once until the flags are reset.

The calls here run one at a time, from a reset on.  The function behind a target is a parameter,
as far as its answer goes; what it does beyond is a call of its own.
-/

import Zstreamer.Core.Element
import Zstreamer.Foundation.Runs

namespace Zstreamer.Bin

open Foundation List Function

/-- A buffer, and whether it has `ZST_BUFFER_FLAG_EOS`. -/
structure Buffer where
  id : ℕ
  eos : Bool
  deriving DecidableEq, Repr

/-- What does not change between two resets.  Pads are numbers. -/
structure Wiring where
  sinkPads : List ℕ
  nbSrcPads : ℕ
  /-- Whether the bin is on a bus. -/
  bus : Bool
  /-- `ghost_priv(pad) != NULL` -/
  isGhost : ℕ → Bool
  /-- The target of a ghost pad, when it is a sink pad with a push function. -/
  target : ℕ → Option ℕ
  /-- Whether the push function of a target answers ZST_OK. -/
  accepts : ℕ → Buffer → Bool

/-- A call of the push function of a target, for a ghost pad. -/
structure PushCall where
  ghost : ℕ
  target : ℕ
  buffer : Buffer
  deriving DecidableEq, Repr

/-- The flags of the ghost pads and of the bin, the calls made so far, and how often the event has
been posted. -/
structure State where
  eosSeen : ℕ → Bool
  eosForwarded : Bool
  eosPosted : Bool
  calls : List PushCall
  posted : ℕ

variable (w : Wiring)

/-- `bin_all_sink_ghosts_eos` -/
def allSinkGhostsEos (s : State) : Bool :=
  w.sinkPads.all fun pad => !w.isGhost pad || s.eosSeen pad

/-- `bin_post_eos_once` -/
def postEosOnce (s : State) : State :=
  if s.eosPosted then s
  else { s with eosPosted := true, posted := if w.bus then s.posted + 1 else s.posted }

/-- Call the push function of a target, and whether it answers ZST_OK. -/
def callTarget (ghost target : ℕ) (buf : Buffer) (s : State) : Bool × State :=
  (w.accepts target buf, { s with calls := s.calls ++ [⟨ghost, target, buf⟩] })

/-- One branch: the target of a ghost pad gets the buffer.  Beside the state goes whether there has
been no error. -/
def forwardBranch (buf : Buffer) (out : Bool × State) (pad : ℕ) : Bool × State :=
  if w.isGhost pad then
    match w.target pad with
    | none => out
    | some target =>
        let (accepted, s) := callTarget w pad target buf out.2
        (out.1 && accepted, s)
  else out

/-- The loop over the branches. -/
def forwardEos (buf : Buffer) (s : State) : Bool × State :=
  w.sinkPads.foldl (forwardBranch w buf) (true, s)

/-- `ghost_sink_push`, and whether it returns ZST_OK. -/
def ghostSinkPush (pad : ℕ) (buf : Buffer) (s : State) : Bool × State :=
  if w.isGhost pad = false then (false, s)
  else
    match w.target pad with
    | none => (false, s)
    | some target =>
        if buf.eos then
          let s := { s with eosSeen := update s.eosSeen pad true }
          if allSinkGhostsEos w s = false then (true, s)
          else if s.eosForwarded then (true, s)
          else
            let (ok, s) := forwardEos w buf { s with eosForwarded := true }
            (ok, if ok = true ∧ w.nbSrcPads = 0 then postEosOnce w s else s)
        else callTarget w pad target buf s

/-- `ghost_src_proxy_push`; `linked` is whether the ghost pad is, and `accepted` what pushing it on
answers. -/
def ghostSrcProxyPush (linked accepted : Bool) (buf : Buffer) (s : State) : State :=
  if linked then if accepted = true ∧ buf.eos = true then postEosOnce w s else s
  else if buf.eos then postEosOnce w s else s

/-- `ghost_src_pull`, where the target has answered with a buffer or with nothing. -/
def ghostSrcPull (answer : Option Buffer) (s : State) : State :=
  if answer.any Buffer.eos then postEosOnce w s else s

/-- The calls: a buffer is pushed on a sink pad of the bin, or leaves through a source pad. -/
inductive Action
  | push (pad : ℕ) (buf : Buffer)
  | proxyPush (linked accepted : Bool) (buf : Buffer)
  | pull (answer : Option Buffer)
  deriving DecidableEq

/-- The step function. -/
def next (s : State) : Action → Option State
  | .push pad buf => if pad ∈ w.sinkPads then some (ghostSinkPush w pad buf s).2 else none
  | .proxyPush linked accepted buf =>
      if w.nbSrcPads = 0 then none else some (ghostSrcProxyPush w linked accepted buf s)
  | .pull answer => if w.nbSrcPads = 0 then none else some (ghostSrcPull w answer s)

/-- `bin_reset_eos` -/
def reset : State := ⟨fun _ => false, false, false, [], 0⟩

/-- A bin from a reset on. -/
def system : System State Action where
  init s := s = reset
  next := next w

/-! ## What a run should lead to -/

/-- The sink ghost pads of the bin. -/
def Ghost (g : ℕ) : Prop := g ∈ w.sinkPads ∧ w.isGhost g = true

/-- The buffers with data pushed on a pad. -/
def dataOn (g : ℕ) (done : List Action) : List Buffer :=
  done.filterMap fun
    | .push pad buf => if pad = g ∧ buf.eos = false then some buf else none
    | _ => none

/-- The end of the stream has been pushed on a pad. -/
def EosOn (g : ℕ) (done : List Action) : Prop := ∃ buf : Buffer, buf.eos = true ∧ .push g buf ∈ done

/-- The end of the stream has been pushed on every ghost pad. -/
def AllEos (done : List Action) : Prop := ∀ g, Ghost w g → EosOn g done

/-- What a target has received. -/
def State.received (s : State) (target : ℕ) : List Buffer :=
  (s.calls.filter (·.target = target)).map PushCall.buffer

/-- There are ghost pads, and their targets accept every buffer. -/
structure Accepting : Prop where
  ghost : ∃ g, Ghost w g
  accepts : ∀ g, Ghost w g → ∃ t, w.target g = some t ∧ ∀ buf, w.accepts t buf = true

/-- No pad is there twice, and no two ghost pads have the same target. -/
structure Apart : Prop where
  once : w.sinkPads.Nodup
  targets : ∀ g g', Ghost w g → Ghost w g' → w.target g = w.target g' → g = g'

/-- The data goes to the target of its own ghost pad, the end of the stream to each target once when
all ghost pads have seen it, and the event for it is posted once. -/
structure Aggregated (done : List Action) (s : State) : Prop where
  data : ∀ g t, Ghost w g → w.target g = some t →
    (s.received t).filter (!·.eos) = dataOn g done
  eos : ∀ g t, Ghost w g → w.target g = some t → AllEos w done → (s.received t).countP (·.eos) = 1
  early : ∀ g t, Ghost w g → w.target g = some t → ¬ AllEos w done →
    (s.received t).countP (·.eos) = 0
  posted_le : s.posted ≤ 1
  posted : w.nbSrcPads = 0 → AllEos w done → s.posted = 1

variable {w} {s s' : State} {done : List Action} {g pad : ℕ} {buf : Buffer}

/-! ## The loop over the branches -/

/-- The calls the loop makes. -/
def branchCalls (w : Wiring) (buf : Buffer) (pads : List ℕ) : List PushCall :=
  pads.filterMap fun pad => if w.isGhost pad then (w.target pad).map (⟨pad, ·, buf⟩) else none

theorem branchCalls_cons (pads : List ℕ) : branchCalls w buf (pad :: pads) =
    (if w.isGhost pad then (w.target pad).map (⟨pad, ·, buf⟩) else none).toList ++
      branchCalls w buf pads := by
  rw [branchCalls, filterMap_cons]
  cases (if w.isGhost pad then (w.target pad).map (⟨pad, ·, buf⟩) else none : Option PushCall) with
  | none => rfl
  | some call => rfl

theorem forwardEos_eq (haccepting : Accepting w) (buf : Buffer) (s : State) :
    forwardEos w buf s = (true, { s with calls := s.calls ++ branchCalls w buf w.sinkPads }) := by
  have hloop : ∀ (pads : List ℕ) (s : State), (∀ pad ∈ pads, pad ∈ w.sinkPads) →
      pads.foldl (forwardBranch w buf) (true, s) =
        (true, { s with calls := s.calls ++ branchCalls w buf pads }) := by
    intro pads
    induction pads with
    | nil =>
        intro s _
        rw [branchCalls, filterMap_nil, append_nil]
        rfl
    | cons pad pads ih =>
        intro s hpads
        have hrest := fun s => ih s fun p hp => hpads p (mem_cons_of_mem pad hp)
        rw [foldl_cons, branchCalls_cons, forwardBranch]
        by_cases hghost : w.isGhost pad = true
        · obtain ⟨t, htarget, haccepts⟩ :=
            haccepting.accepts pad ⟨hpads pad mem_cons_self, hghost⟩
          rw [if_pos hghost, if_pos hghost, htarget]
          dsimp only [callTarget]
          rw [haccepts buf, Bool.and_self, hrest, append_assoc]
          rfl
        · rw [if_neg hghost, if_neg hghost, hrest]
          rfl
  exact hloop w.sinkPads s fun _ hpad => hpad

/-- The loop calls the target of a ghost pad once. -/
theorem filter_branchCalls (hnodup : w.sinkPads.Nodup) (hg : Ghost w g) {t : ℕ}
    (htarget : w.target g = some t) :
    (branchCalls w buf w.sinkPads).filter (·.ghost = g) = [⟨g, t, buf⟩] := by
  have hother : ∀ pads : List ℕ, g ∉ pads → (branchCalls w buf pads).filter (·.ghost = g) = [] := by
    intro pads hout
    refine filter_eq_nil_iff.mpr fun call hcall => ?_
    obtain ⟨pad, hpad, hmakes⟩ := mem_filterMap.mp hcall
    split at hmakes
    · obtain ⟨_, -, rfl⟩ := Option.map_eq_some_iff.mp hmakes
      simpa using fun heq : pad = g => hout (heq ▸ hpad)
    · cases hmakes
  obtain ⟨before, after, hsplit⟩ := append_of_mem hg.1
  rw [hsplit] at hnodup ⊢
  obtain ⟨-, hafter, hapart⟩ := nodup_append.mp hnodup
  have hbefore : g ∉ before := fun hmem => hapart g hmem g mem_cons_self rfl
  rw [branchCalls, filterMap_append, filter_append]
  refine (congrArg₂ (· ++ ·) (hother before hbefore) ?_).trans (nil_append _)
  refine (congrArg _ (branchCalls_cons after)).trans ?_
  rw [if_pos hg.2, htarget, filter_append, hother after (nodup_cons.mp hafter).1]
  simp

/-! ## The invariant -/

/-- What has been received through a ghost pad. -/
def State.through (s : State) (g : ℕ) : List Buffer :=
  (s.calls.filter (·.ghost = g)).map PushCall.buffer

/-- What the flags and the calls say about the actions so far. -/
structure Inv (w : Wiring) (done : List Action) (s : State) : Prop where
  seen : ∀ g, Ghost w g → (s.eosSeen g = true ↔ EosOn g done)
  forwarded : s.eosForwarded = true ↔ AllEos w done
  data : ∀ g, Ghost w g → (s.through g).filter (!·.eos) = dataOn g done
  eos : ∀ g, Ghost w g → (s.through g).countP (·.eos) = if s.eosForwarded then 1 else 0
  calls : ∀ call ∈ s.calls, Ghost w call.ghost ∧ w.target call.ghost = some call.target
  posted : s.posted = if s.eosPosted = true ∧ w.bus = true then 1 else 0
  drained : w.nbSrcPads = 0 → s.eosForwarded = true → s.eosPosted = true

theorem inv_reset (haccepting : Accepting w) : Inv w [] reset where
  seen _ _ := iff_of_false nofun fun h => nomatch h.choose_spec.2
  forwarded := by
    obtain ⟨g, hg⟩ := haccepting.ghost
    exact iff_of_false nofun fun hall => nomatch (hall g hg).choose_spec.2
  data _ _ := rfl
  eos _ _ := rfl
  calls := nofun
  posted := rfl
  drained _ := nofun

/-- An action that pushes nothing on a ghost pad changes nothing that is counted. -/
theorem Inv.skip (h : Inv w done s) {a : Action}
    (hnone : ∀ g, Ghost w g → ∀ buf, a ≠ .push g buf) : Inv w (done ++ [a]) s := by
  have heos : ∀ g, Ghost w g → (EosOn g (done ++ [a]) ↔ EosOn g done) := by
    intro g hg
    refine ⟨?_, fun ⟨buf, hbuf, hmem⟩ => ⟨buf, hbuf, mem_append_left _ hmem⟩⟩
    rintro ⟨buf, hbuf, hmem⟩
    rcases mem_append.mp hmem with hold | hnew
    · exact ⟨buf, hbuf, hold⟩
    · exact absurd (mem_singleton.mp hnew).symm (hnone g hg buf)
  have hdata : ∀ g, Ghost w g → dataOn g (done ++ [a]) = dataOn g done := by
    intro g hg
    rw [dataOn, filterMap_append]
    refine (congrArg _ ?_).trans (append_nil _)
    cases a with
    | push pad buf =>
        refine filterMap_cons_none (if_neg fun hpad => ?_)
        exact hnone g hg buf (congrArg (Action.push · buf) hpad.1)
    | proxyPush linked accepted buf => rfl
    | pull answer => rfl
  exact ⟨fun g hg => (h.seen g hg).trans (heos g hg).symm,
    h.forwarded.trans (forall_congr' fun g => forall_congr' fun hg => (heos g hg).symm),
    fun g hg => (h.data g hg).trans (hdata g hg).symm, h.eos, h.calls, h.posted, h.drained⟩

/-- Posting changes nothing else. -/
theorem postEosOnce_eq : postEosOnce w s = { s with
    eosPosted := true
    posted := if s.eosPosted = false ∧ w.bus = true then s.posted + 1 else s.posted } := by
  rw [postEosOnce]
  cases hposted : s.eosPosted with
  | true => rw [if_pos rfl, if_neg (fun h => nomatch h.1), ← hposted]
  | false => simp

theorem Inv.post (h : Inv w done s) : Inv w done (postEosOnce w s) := by
  rw [postEosOnce_eq]
  refine ⟨h.seen, h.forwarded, h.data, h.eos, h.calls, ?_, fun _ _ => rfl⟩
  dsimp only
  rw [h.posted]
  cases s.eosPosted <;> cases w.bus <;> rfl

theorem eosOn_push {b : Buffer} :
    EosOn g (done ++ [.push pad b]) ↔ EosOn g done ∨ (pad = g ∧ b.eos = true) := by
  constructor
  · rintro ⟨buf, hbuf, hmem⟩
    rcases mem_append.mp hmem with hold | hnew
    · exact .inl ⟨buf, hbuf, hold⟩
    · obtain ⟨rfl, rfl⟩ := Action.push.inj (mem_singleton.mp hnew)
      exact .inr ⟨rfl, hbuf⟩
  · rintro (⟨buf, hbuf, hmem⟩ | ⟨rfl, hbuf⟩)
    · exact ⟨buf, hbuf, mem_append_left _ hmem⟩
    · exact ⟨b, hbuf, mem_append_right _ mem_cons_self⟩

theorem dataOn_push {b : Buffer} : dataOn g (done ++ [.push pad b]) =
    dataOn g done ++ if pad = g ∧ b.eos = false then [b] else [] := by
  rw [dataOn, filterMap_append]
  refine congrArg _ ?_
  split
  case isTrue hpad => exact filterMap_cons_some (if_pos hpad)
  case isFalse hpad => exact filterMap_cons_none (if_neg hpad)

/-- Data goes to the target of its ghost pad. -/
theorem Inv.push_data (h : Inv w done s) (hpad : Ghost w pad) {t : ℕ}
    (htarget : w.target pad = some t) (hdata : buf.eos = false) :
    Inv w (done ++ [.push pad buf]) { s with calls := s.calls ++ [⟨pad, t, buf⟩] } := by
  have heos : ∀ g, EosOn g (done ++ [.push pad buf]) ↔ EosOn g done := by
    intro g
    rw [eosOn_push, hdata]
    exact or_iff_left fun h => nomatch h.2
  have hthrough : ∀ g, State.through { s with calls := s.calls ++ [⟨pad, t, buf⟩] } g =
      s.through g ++ if pad = g then [buf] else [] := by
    intro g
    rw [State.through, filter_append, map_append]
    refine congrArg _ ?_
    split
    case isTrue heq => simp [heq]
    case isFalse hne => simp [hne]
  refine ⟨fun g hg => (h.seen g hg).trans (heos g).symm,
    h.forwarded.trans (forall_congr' fun g => forall_congr' fun _ => (heos g).symm),
    fun g hg => ?_, fun g hg => ?_, fun call hcall => ?_, h.posted, h.drained⟩
  · rw [hthrough, filter_append, h.data g hg, dataOn_push]
    refine congrArg _ ?_
    by_cases heq : pad = g
    · simp [heq, hdata]
    · simp [heq]
  · rw [hthrough, countP_append, h.eos g hg]
    by_cases heq : pad = g
    · simp [heq, hdata]
    · simp [heq]
  · rcases mem_append.mp hcall with hold | hnew
    · exact h.calls call hold
    · rw [mem_singleton.mp hnew]
      exact ⟨hpad, htarget⟩

theorem allSinkGhostsEos_iff : allSinkGhostsEos w s = true ↔ ∀ g, Ghost w g → s.eosSeen g = true := by
  rw [allSinkGhostsEos, all_eq_true]
  refine forall_congr' fun g => ?_
  rw [Ghost, and_imp]
  refine imp_congr_right fun _ => ?_
  cases w.isGhost g <;> simp

/-- The flag of a ghost pad is set when the end of the stream comes. -/
theorem Inv.seen_push (h : Inv w done s) (heos : buf.eos = true) {g : ℕ} (hg : Ghost w g) :
    update s.eosSeen pad true g = true ↔ EosOn g (done ++ [.push pad buf]) := by
  rw [update_apply, eosOn_push, ← h.seen g hg]
  by_cases heq : g = pad
  · rw [if_pos heq]
    exact iff_of_true rfl (.inr ⟨heq.symm, heos⟩)
  · rw [if_neg heq]
    exact (or_iff_left fun hnew => heq hnew.1.symm).symm

theorem dataOn_push_eos (heos : buf.eos = true) :
    dataOn g (done ++ [.push pad buf]) = dataOn g done := by
  have hnone : ¬ (pad = g ∧ buf.eos = false) := fun h => nomatch heos.symm.trans h.2
  rw [dataOn_push, if_neg hnone, append_nil]

/-- The end of the stream comes when it has been forwarded, or not yet to all ghost pads. -/
theorem Inv.push_held (h : Inv w done s) (heos : buf.eos = true)
    (hheld : s.eosForwarded = true ↔ AllEos w (done ++ [.push pad buf])) :
    Inv w (done ++ [.push pad buf]) { s with eosSeen := update s.eosSeen pad true } where
  seen _ hg := h.seen_push heos hg
  forwarded := hheld
  data g hg := (h.data g hg).trans (dataOn_push_eos heos).symm
  eos := h.eos
  calls := h.calls
  posted := h.posted
  drained := h.drained

/-- The last ghost pad has seen the end of the stream: it goes to all targets. -/
theorem Inv.push_last (haccepting : Accepting w) (hnodup : w.sinkPads.Nodup) (h : Inv w done s)
    (heos : buf.eos = true) (hall : AllEos w (done ++ [.push pad buf]))
    (hfirst : s.eosForwarded = false) (hposted : w.nbSrcPads = 0 → s.eosPosted = true) :
    Inv w (done ++ [.push pad buf])
      { s with
        eosSeen := update s.eosSeen pad true
        eosForwarded := true
        calls := s.calls ++ branchCalls w buf w.sinkPads } := by
  have hthrough : ∀ g, Ghost w g →
      State.through { s with
        eosSeen := update s.eosSeen pad true
        eosForwarded := true
        calls := s.calls ++ branchCalls w buf w.sinkPads } g = s.through g ++ [buf] := by
    intro g hg
    obtain ⟨t, htarget, -⟩ := haccepting.accepts g hg
    rw [State.through, filter_append, map_append, filter_branchCalls hnodup hg htarget]
    rfl
  refine ⟨fun g hg => h.seen_push heos hg, iff_of_true rfl hall, fun g hg => ?_, fun g hg => ?_,
    fun call hcall => ?_, h.posted, fun hnone _ => hposted hnone⟩
  · rw [hthrough g hg, filter_append, h.data g hg, dataOn_push_eos heos]
    simp [heos]
  · rw [hthrough g hg, countP_append, h.eos g hg, hfirst]
    simp [heos]
  · rcases mem_append.mp hcall with hold | hnew
    · exact h.calls call hold
    · obtain ⟨p, hp, hmakes⟩ := mem_filterMap.mp hnew
      split at hmakes
      case isTrue hghost =>
        obtain ⟨t, htarget, rfl⟩ := Option.map_eq_some_iff.mp hmakes
        exact ⟨⟨hp, hghost⟩, htarget⟩
      case isFalse => cases hmakes

/-- **A buffer pushed on a sink pad.** -/
theorem Inv.push (haccepting : Accepting w) (hnodup : w.sinkPads.Nodup) (h : Inv w done s)
    (hpad : pad ∈ w.sinkPads) : Inv w (done ++ [.push pad buf]) (ghostSinkPush w pad buf s).2 := by
  rw [ghostSinkPush]
  by_cases hghost : w.isGhost pad = true
  · obtain ⟨t, htarget, -⟩ := haccepting.accepts pad ⟨hpad, hghost⟩
    rw [if_neg (by rw [hghost]; decide), htarget]
    dsimp only
    by_cases heos : buf.eos = true
    · rw [if_pos heos]
      have hseen : allSinkGhostsEos w { s with eosSeen := update s.eosSeen pad true } = true ↔
          AllEos w (done ++ [.push pad buf]) :=
        allSinkGhostsEos_iff.trans (forall_congr' fun g => forall_congr' fun hg =>
          h.seen_push heos hg)
      split
      case isTrue hearly =>
        -- some ghost pad is still to come, and so was it before
        have hearly : ¬ AllEos w (done ++ [.push pad buf]) := fun hall =>
          nomatch hearly.symm.trans (hseen.mpr hall)
        refine h.push_held heos (iff_of_false (fun hforwarded => hearly fun g hg => ?_) hearly)
        exact eosOn_push.mpr (.inl (h.forwarded.mp hforwarded g hg))
      case isFalse hall =>
        have hall : AllEos w (done ++ [.push pad buf]) :=
          hseen.mp ((Bool.not_eq_false _).mp hall)
        split
        case isTrue hforwarded => exact h.push_held heos (iff_of_true hforwarded hall)
        case isFalse hfirst =>
          have hfirst := (Bool.not_eq_true _).mp hfirst
          rw [forwardEos_eq haccepting]
          dsimp only
          by_cases hnone : w.nbSrcPads = 0
          · rw [if_pos ⟨rfl, hnone⟩, postEosOnce_eq]
            have hpost := h.post
            rw [postEosOnce_eq] at hpost
            exact hpost.push_last haccepting hnodup heos hall hfirst fun _ => rfl
          · rw [if_neg fun hboth => hnone hboth.2]
            exact h.push_last haccepting hnodup heos hall hfirst fun h => absurd h hnone
    · rw [if_neg heos]
      exact h.push_data ⟨hpad, hghost⟩ htarget ((Bool.not_eq_true _).mp heos)
  · rw [if_pos ((Bool.not_eq_true _).mp hghost)]
    exact h.skip fun g hg b heq => hghost ((Action.push.inj heq).1 ▸ hg.2)

/-- **Every step keeps the invariant.** -/
theorem Inv.next (haccepting : Accepting w) (hnodup : w.sinkPads.Nodup) (h : Inv w done s)
    {a : Action} (hnext : Bin.next w s a = some s') : Inv w (done ++ [a]) s' := by
  cases a with
  | push pad buf =>
      rw [Bin.next] at hnext
      split at hnext
      case isTrue hpad =>
        cases hnext
        exact h.push haccepting hnodup hpad
      case isFalse => cases hnext
  | proxyPush linked accepted buf =>
      have hskip : Inv w (done ++ [.proxyPush linked accepted buf]) s := h.skip nofun
      rw [Bin.next] at hnext
      split at hnext
      · cases hnext
      · cases hnext
        rw [ghostSrcProxyPush]
        repeat' split
        · exact hskip.post
        · exact hskip
        · exact hskip.post
        · exact hskip
  | pull answer =>
      have hskip : Inv w (done ++ [.pull answer]) s := h.skip nofun
      rw [Bin.next] at hnext
      split at hnext
      · cases hnext
      · cases hnext
        rw [ghostSrcPull]
        split
        · exact hskip.post
        · exact hskip

theorem Inv.run (haccepting : Accepting w) (hnodup : w.sinkPads.Nodup) (h : Inv w done s)
    {actions : List Action} (hrun : (system w).run s actions = some s') :
    Inv w (done ++ actions) s' := by
  induction actions generalizing done s with
  | nil =>
      obtain rfl : s = s' := Option.some.inj hrun
      rwa [append_nil]
  | cons a actions ih =>
      obtain ⟨mid, hnext, hrest⟩ := Option.bind_eq_some_iff.mp hrun
      have hmid := ih (h.next haccepting hnodup hnext) hrest
      rwa [append_assoc] at hmid

/-- Where no two ghost pads have the same target, a target receives what comes through its own. -/
theorem Inv.received_eq (h : Inv w done s) (hapart : Apart w) (hg : Ghost w g) {t : ℕ}
    (htarget : w.target g = some t) : s.received t = s.through g := by
  rw [State.received, State.through]
  refine congrArg _ (filter_congr fun call hcall => ?_)
  obtain ⟨hghost, hcalled⟩ := h.calls call hcall
  rw [decide_eq_decide]
  constructor
  · exact fun heq => hapart.targets _ g hghost hg (hcalled.trans ((congrArg some heq).trans htarget.symm))
  · rintro rfl
    exact Option.some.inj (hcalled.symm.trans htarget)

/-- **End of stream at a bin.**  On a bin that is on a bus and whose ghost pads have targets of
their own: after any run from a reset, the target of each ghost pad has received the data pushed on
that pad, in order, and one end of the stream if every ghost pad has seen one and none otherwise;
the event has been posted once at most, and once if there are no source pads and every ghost pad has
seen the end. -/
theorem eos_aggregation (w : Wiring) (haccepting : Accepting w) (hapart : Apart w)
    (hbus : w.bus = true) (actions : List Action) (s : State)
    (hrun : (system w).run reset actions = some s) : Aggregated w actions s := by
  have h : Inv w actions s := (inv_reset haccepting).run haccepting hapart.once hrun
  refine ⟨fun g t hg ht => ?_, fun g t hg ht hall => ?_, fun g t hg ht hearly => ?_, ?_,
    fun hnone hall => ?_⟩
  · rw [h.received_eq hapart hg ht]
    exact h.data g hg
  · rw [h.received_eq hapart hg ht, h.eos g hg, if_pos (h.forwarded.mpr hall)]
  · rw [h.received_eq hapart hg ht, h.eos g hg, if_neg (mt h.forwarded.mp hearly)]
  · rw [h.posted]
    split <;> decide
  · rw [h.posted, if_pos ⟨h.drained hnone (h.forwarded.mpr hall), hbus⟩]

/-- Two ghost pads with targets of their own, no source pads. -/
def twoBranches : Wiring where
  sinkPads := [0, 1]
  nbSrcPads := 0
  bus := true
  isGhost _ := true
  target g := some (g + 10)
  accepts _ _ := true

/-- The end comes on one pad, and again, and on the other one after some data. -/
theorem eos_aggregation_twoBranches :
    ∃ s, (system twoBranches).run reset
        [.push 0 ⟨0, true⟩, .push 1 ⟨1, false⟩, .push 0 ⟨2, true⟩, .push 1 ⟨3, true⟩] = some s ∧
      (s.received 10).countP (·.eos) = 1 ∧ s.posted = 1 := by
  refine ⟨_, rfl, ?_⟩
  have haccepting : Accepting twoBranches :=
    ⟨⟨0, mem_cons_self, rfl⟩, fun g _ => ⟨g + 10, rfl, fun _ => rfl⟩⟩
  have hapart : Apart twoBranches :=
    ⟨by decide, fun g g' _ _ heq => Nat.add_right_cancel (Option.some.inj heq)⟩
  have hagg := eos_aggregation twoBranches haccepting hapart rfl
    [.push 0 ⟨0, true⟩, .push 1 ⟨1, false⟩, .push 0 ⟨2, true⟩, .push 1 ⟨3, true⟩] _ rfl
  have hall : AllEos twoBranches
      [.push 0 ⟨0, true⟩, .push 1 ⟨1, false⟩, .push 0 ⟨2, true⟩, .push 1 ⟨3, true⟩] := by
    rintro g ⟨hg, -⟩
    have hpads : g = 0 ∨ g = 1 := by simpa [twoBranches] using hg
    rcases hpads with rfl | rfl
    · exact ⟨⟨0, true⟩, rfl, by simp⟩
    · exact ⟨⟨3, true⟩, rfl, by simp⟩
  exact ⟨hagg.eos 0 10 ⟨by decide, rfl⟩ rfl hall, hagg.posted rfl hall⟩

/-- A target that two ghost pads share gets the end of the stream twice, and a bin that is on no bus
posts nothing. -/
theorem eos_shared_or_silent :
    (¬ ∀ w, Accepting w → w.bus = true → ∀ actions s, (system w).run reset actions = some s →
      Aggregated w actions s) ∧
    ¬ ∀ w, Accepting w → Apart w → ∀ actions s, (system w).run reset actions = some s →
      Aggregated w actions s := by
  constructor
  · intro hall
    let w : Wiring := { twoBranches with target := fun _ => some 10 }
    have haccepting : Accepting w :=
      ⟨⟨0, mem_cons_self, rfl⟩, fun _ _ => ⟨10, rfl, fun _ => rfl⟩⟩
    have hagg := hall w haccepting rfl [.push 0 ⟨0, true⟩, .push 1 ⟨1, true⟩] _ rfl
    have hends : AllEos w [.push 0 ⟨0, true⟩, .push 1 ⟨1, true⟩] := by
      rintro g ⟨hg, -⟩
      have hpads : g = 0 ∨ g = 1 := by simpa [w, twoBranches] using hg
      rcases hpads with rfl | rfl
      · exact ⟨⟨0, true⟩, rfl, by simp⟩
      · exact ⟨⟨1, true⟩, rfl, by simp⟩
    exact absurd (hagg.eos 0 10 ⟨by decide, rfl⟩ rfl hends) (by decide)
  · intro hall
    let w : Wiring := { twoBranches with sinkPads := [0], bus := false }
    have haccepting : Accepting w :=
      ⟨⟨0, mem_cons_self, rfl⟩, fun g _ => ⟨g + 10, rfl, fun _ => rfl⟩⟩
    have hapart : Apart w :=
      ⟨by decide, fun g g' _ _ heq => Nat.add_right_cancel (Option.some.inj heq)⟩
    have hagg := hall w haccepting hapart [.push 0 ⟨0, true⟩] _ rfl
    have hends : AllEos w [.push 0 ⟨0, true⟩] := by
      rintro g ⟨hg, -⟩
      obtain rfl : g = 0 := by simpa [w, twoBranches] using hg
      exact ⟨⟨0, true⟩, rfl, mem_cons_self⟩
    exact absurd (hagg.posted rfl hends) (by decide)

end Zstreamer.Bin

/-
# Ghost pads

A ghost pad shows a pad of a child at the outside of a bin.  For a source pad this
goes through a hidden pad, the proxy: the target is linked to the proxy, and what is
pushed there is pushed on by the ghost.  `zst_ghost_pad_set_target` gives up the
proxy of the old target by dropping its own reference only.  The link of the old
target keeps that proxy alive and in place, so the old target goes on forwarding; and
when the new link fails, the ghost has no target left.  `ghost_forwards_target` is
what remains true: as long as nobody changes the target of a source ghost, exactly
its target reaches the peer.

The calls here run one at a time, over the pads of the module on references with no
thread under way.  Whether negotiation succeeds is part of the call.  Reaching is
about buffers that no probe drops and every segment on the way contains.
-/

import Zstreamer.Pads.References

namespace Zstreamer.Pads.Ghosts

open Foundation References Function Option

/-- `zst_ghost_pad_priv_t`, without the end-of-stream flag. -/
structure Ghost where
  target : Option ℕ
  proxySink : Option ℕ
  deriving DecidableEq, Repr

/-- The pads, and what `priv` points to: the ghost's own data, or the ghost a proxy serves. -/
structure World where
  pads : References.State Empty
  ghosts : ℕ → Option Ghost
  proxyOf : ℕ → Option ℕ
  /-- Pads with this number and above have not been created. -/
  fresh : ℕ

namespace World

variable (w : World)

/-- `zst_pad_create`; the new pad is `w.fresh`. -/
def create (direction : Direction) : World :=
  { w with
    pads :=
      { w.pads with
        direction := update w.pads.direction w.fresh direction
        peer := update w.pads.peer w.fresh none
        linked := update w.pads.linked w.fresh false
        refcount := update w.pads.refcount w.fresh 1
        finalized := update w.pads.finalized w.fresh false }
    fresh := w.fresh + 1 }

def setGhost (pad : ℕ) (gp : Option Ghost) : World :=
  { w with ghosts := update w.ghosts pad gp }

def setProxy (pad : ℕ) (ghost : Option ℕ) : World :=
  { w with proxyOf := update w.proxyOf pad ghost }

/-- `zst_pad_destroy` -/
def destroy (pad : ℕ) : World := { w with pads := w.pads.unref pad }

/-- `zst_pad_link`, as far as links go. -/
def link (src sink : ℕ) (negotiated : Bool) : Result × World :=
  if w.pads.direction src ≠ .src then (.error, w)
  else if w.pads.direction sink ≠ .sink then (.error, w)
  else if negotiated = false then (.error, w)
  else if (w.pads.peer src).isSome ∨ (w.pads.peer sink).isSome then (.error, w)
  else (.ok, { w with pads := ((w.pads.ref sink).ref src).connect src sink })

/-- Give up the proxy of the target before. -/
def dropProxy (gp : Ghost) : World :=
  match gp.proxySink with
  | none => w
  | some proxy => w.destroy proxy

/-- The part of `zst_ghost_pad_set_target` for source pads: a new proxy, and the link to it. -/
def attach (ghost target : ℕ) (negotiated : Bool) : Result × World :=
  let proxy := w.fresh
  let w := (w.create .sink).setProxy proxy (some ghost)
  match w.link target proxy negotiated with
  | (.ok, w) => (.ok, w.setGhost ghost (some ⟨some target, some proxy⟩))
  | (_, w) => (.error, ((w.setProxy proxy none).destroy proxy).setGhost ghost (some ⟨none, none⟩))

/-- `zst_ghost_pad_set_target` -/
def setTarget (ghost target : ℕ) (negotiated : Bool) : Result × World :=
  match w.ghosts ghost with
  | none => (.error, w)
  | some gp =>
      if w.pads.direction ghost ≠ w.pads.direction target then (.error, w)
      else
        let w := (w.dropProxy gp).setGhost ghost (some ⟨some target, none⟩)
        if w.pads.direction target = .src then w.attach ghost target negotiated else (.ok, w)

/-- `zst_ghost_pad_create`: the new pad, or nothing. -/
def createGhost (target : ℕ) (negotiated : Bool) : Option ℕ × World :=
  let ghost := w.fresh
  let w := (w.create (w.pads.direction target)).setGhost ghost (some ⟨none, none⟩)
  match w.setTarget ghost target negotiated with
  | (.ok, w) => (some ghost, w)
  | (_, w) => (none, (w.setGhost ghost none).destroy ghost)

/-! ## Pushing -/

/-- The pad whose push function `zst_pad_push` calls. -/
def pushedTo (pad : ℕ) : Option ℕ :=
  if w.pads.direction pad = .src then w.pads.peer pad else none

/-- A buffer pushed by a pad is handed to a ghost: `ghost_src_proxy_push` runs for it. -/
def Forwards (pad ghost : ℕ) : Prop :=
  ∃ proxy, w.pushedTo pad = some proxy ∧ w.proxyOf proxy = some ghost ∧ (w.ghosts ghost).isSome

/-- A buffer pushed by a pad comes through a ghost to a pad beyond. -/
def Reaches (pad ghost beyond : ℕ) : Prop :=
  w.Forwards pad ghost ∧ w.pads.linked ghost = true ∧ w.pushedTo ghost = some beyond

/-- The current target of a ghost. -/
def target (ghost : ℕ) : Option ℕ := (w.ghosts ghost).bind Ghost.target

end World

/-! ## Runs -/

/-- The calls. -/
inductive Call
  | create (target : ℕ) (negotiated : Bool)
  | setTarget (ghost target : ℕ) (negotiated : Bool)
  | link (src sink : ℕ) (negotiated : Bool)
  deriving DecidableEq

/-- A pad that was created and is still there. -/
def Usable (w : World) (pad : ℕ) : Prop := pad < w.fresh ∧ w.pads.finalized pad = false

instance (w : World) (pad : ℕ) : Decidable (Usable w pad) := inferInstanceAs (Decidable (_ ∧ _))

/-- A call, with pads that are there. -/
def perform (w : World) : Call → Option World
  | .create target negotiated =>
      if Usable w target then some (w.createGhost target negotiated).2 else none
  | .setTarget ghost target negotiated =>
      if Usable w ghost ∧ Usable w target then some (w.setTarget ghost target negotiated).2
      else none
  | .link src sink negotiated =>
      if Usable w src ∧ Usable w sink then some (w.link src sink negotiated).2 else none

/-- Pads with any links, and no ghosts yet. -/
structure Initial (w : World) : Prop where
  reciprocal : ∀ p q, w.pads.peer p = some q → w.pads.peer q = some p
  flag : ∀ p, w.pads.linked p = (w.pads.peer p).isSome
  unused : ∀ p, w.fresh ≤ p → w.pads.peer p = none
  ghosts : ∀ p, w.ghosts p = none
  proxyOf : ∀ p, w.proxyOf p = none

def system : System World Call where
  init := Initial
  next := perform

/-- The call gives a source ghost another target. -/
def Retargets (w : World) : Call → Prop
  | .setTarget ghost target _ =>
      (w.ghosts ghost).isSome ∧ w.pads.direction ghost = .src ∧ w.pads.direction target = .src
  | _ => False

/-- Every source ghost is in front of its target, and every proxy behind the target of its
ghost. -/
structure Inv (w : World) : Prop where
  reciprocal : ∀ p q, w.pads.peer p = some q → w.pads.peer q = some p
  flag : ∀ p, w.pads.linked p = (w.pads.peer p).isSome
  unused : ∀ p, w.fresh ≤ p → w.pads.peer p = none ∧ w.ghosts p = none ∧ w.proxyOf p = none
  source : ∀ g gp, w.ghosts g = some gp → w.pads.direction g = .src →
    ∃ t proxy, gp = ⟨some t, some proxy⟩ ∧ w.pads.direction t = .src ∧
      w.pads.peer t = some proxy ∧ w.proxyOf proxy = some g
  sink : ∀ g gp, w.ghosts g = some gp → w.pads.direction g = .sink → gp.proxySink = none
  proxy : ∀ proxy g, w.proxyOf proxy = some g →
    ∃ t, w.pads.peer proxy = some t ∧ w.ghosts g = some ⟨some t, some proxy⟩
  /-- A proxy has the reference of its ghost and the one of its link. -/
  counted : ∀ proxy g, w.proxyOf proxy = some g → w.pads.refcount proxy = 2

theorem initial_inv {w : World} (h : Initial w) : Inv w := by
  refine ⟨h.reciprocal, h.flag, fun p hp => ⟨h.unused p hp, h.ghosts p, h.proxyOf p⟩,
    fun g gp hg => ?_, fun g gp hg => ?_, fun proxy g hproxy => ?_, fun proxy g hproxy => ?_⟩
  · rw [h.ghosts g] at hg
    cases hg
  · rw [h.ghosts g] at hg
    cases hg
  · rw [h.proxyOf proxy] at hproxy
    cases hproxy
  · rw [h.proxyOf proxy] at hproxy
    cases hproxy

theorem Inv.proxy_lt {w : World} (h : Inv w) {proxy g : ℕ} (hproxy : w.proxyOf proxy = some g) :
    proxy < w.fresh := by
  by_contra hge
  rw [(h.unused proxy (Nat.le_of_not_lt hge)).2.2] at hproxy
  cases hproxy

/-! ## What the calls do -/

section Calls

variable {w : World} {ghost target : ℕ} {negotiated : Bool}

/-- A link that is refused, as the proxy is new: negotiation failed or the target is taken. -/
theorem attach_refused (hlt : target < w.fresh)
    (hrefused : negotiated = false ∨ (w.pads.peer target).isSome) :
    w.attach ghost target negotiated =
      (.error, ((((w.create .sink).setProxy w.fresh (some ghost)).setProxy w.fresh none).destroy
        w.fresh).setGhost ghost (some ⟨none, none⟩)) := by
  have hne : target ≠ w.fresh := Nat.ne_of_lt hlt
  have hlink : ((w.create .sink).setProxy w.fresh (some ghost)).link target w.fresh negotiated =
      (.error, (w.create .sink).setProxy w.fresh (some ghost)) := by
    rcases hrefused with hrefused | htaken
    · simp [World.link, hrefused]
    · simp [World.link, World.create, World.setProxy, hne, htaken]
  unfold World.attach
  simp only [hlink]

/-- A link that succeeds: only the target and the new proxy are touched. -/
theorem attach_joined (hlt : target < w.fresh) (hdir : w.pads.direction target = .src)
    (hfree : w.pads.peer target = none) :
    (w.attach ghost target true).2.ghosts ghost = some ⟨some target, some w.fresh⟩ ∧
    ∀ p, p < w.fresh → p ≠ target →
      (w.attach ghost target true).2.pads.peer p = w.pads.peer p ∧
      (w.attach ghost target true).2.pads.direction p = w.pads.direction p ∧
      (w.attach ghost target true).2.proxyOf p = w.proxyOf p := by
  have hne : target ≠ w.fresh := Nat.ne_of_lt hlt
  have hlink : (((w.create .sink).setProxy w.fresh (some ghost)).link target w.fresh true) =
      (.ok, { (w.create .sink).setProxy w.fresh (some ghost) with
        pads := (((w.create .sink).pads.ref w.fresh).ref target).connect target w.fresh }) := by
    simp [World.link, World.create, World.setProxy, hne, hdir, hfree]
  unfold World.attach
  simp only [hlink]
  refine ⟨by simp [World.setGhost], fun p hp hpt => ?_⟩
  have hpf : p ≠ w.fresh := Nat.ne_of_lt hp
  simp [World.setGhost, World.create, World.setProxy, References.State.connect,
    References.State.ref, hpf, hpt]

theorem dropProxy_direction (gp : Ghost) : (w.dropProxy gp).pads.direction = w.pads.direction := by
  unfold World.dropProxy
  split
  · rfl
  · exact References.State.unref_direction _ _

/-- Giving a source ghost a source target. -/
theorem setTarget_source {gp : Ghost} (hghost : w.ghosts ghost = some gp)
    (hdir : w.pads.direction ghost = .src) (htarget : w.pads.direction target = .src) :
    w.setTarget ghost target negotiated =
      ((w.dropProxy gp).setGhost ghost (some ⟨some target, none⟩)).attach ghost target
        negotiated := by
  have hsame : ((w.dropProxy gp).setGhost ghost (some ⟨some target, none⟩)).pads.direction target =
      .src := by
    change (w.dropProxy gp).pads.direction target = .src
    rw [dropProxy_direction, htarget]
  unfold World.setTarget
  rw [hghost]
  dsimp only
  rw [if_neg (not_not_intro (hdir.trans htarget.symm)), if_pos hsame]

/-- A new ghost of a sink pad. -/
theorem createGhost_sink (h : Inv w) (hlt : target < w.fresh)
    (hdir : w.pads.direction target = .sink) :
    let w' := (w.createGhost target negotiated).2
    (∀ r, w'.pads.peer r = w.pads.peer r) ∧ (∀ r, w'.pads.linked r = w.pads.linked r) ∧
    (∀ r, w'.pads.direction r = if r = w.fresh then .sink else w.pads.direction r) ∧
    (∀ r, w'.ghosts r = if r = w.fresh then some ⟨some target, none⟩ else w.ghosts r) ∧
    (∀ r, w'.proxyOf r = w.proxyOf r) ∧
    (∀ r, r < w.fresh → w'.pads.refcount r = w.pads.refcount r) ∧ w'.fresh = w.fresh + 1 := by
  have hne : target ≠ w.fresh := Nat.ne_of_lt hlt
  have hunused := h.unused w.fresh le_rfl
  have hflag := h.flag w.fresh
  simp only [World.createGhost, World.setTarget, World.setGhost, World.create, World.dropProxy,
    update_apply, hdir, hne, if_true, if_false, ne_eq, not_true_eq_false, reduceCtorEq]
  grind

/-- A new ghost of a source pad that is free: the target is linked to the proxy. -/
theorem createGhost_joined (h : Inv w) (hlt : target < w.fresh)
    (hdir : w.pads.direction target = .src) (hfree : w.pads.peer target = none) :
    let w' := (w.createGhost target true).2
    (∀ r, w'.pads.peer r = if r = w.fresh + 1 then some target
      else if r = target then some (w.fresh + 1) else w.pads.peer r) ∧
    (∀ r, w'.pads.linked r = if r = w.fresh + 1 ∨ r = target then true else w.pads.linked r) ∧
    (∀ r, w'.pads.direction r = if r = w.fresh + 1 then .sink else if r = w.fresh then .src
      else w.pads.direction r) ∧
    (∀ r, w'.ghosts r = if r = w.fresh then some ⟨some target, some (w.fresh + 1)⟩
      else w.ghosts r) ∧
    (∀ r, w'.proxyOf r = if r = w.fresh + 1 then some w.fresh else w.proxyOf r) ∧
    (∀ r, r < w.fresh → r ≠ target → w'.pads.refcount r = w.pads.refcount r) ∧
    w'.pads.refcount (w.fresh + 1) = 2 ∧ w'.fresh = w.fresh + 2 := by
  have hne : target ≠ w.fresh := Nat.ne_of_lt hlt
  have hne' : target ≠ w.fresh + 1 := by omega
  have hunused := h.unused w.fresh le_rfl
  have hunused' := h.unused (w.fresh + 1) (by omega)
  have hflag := h.flag w.fresh
  have hflag' := h.flag (w.fresh + 1)
  simp [World.createGhost, World.setTarget, World.setGhost, World.create, World.dropProxy,
    World.attach, World.link, World.setProxy, update_apply, References.State.connect,
    References.State.ref, hdir, hne, hne', hfree]
  grind

/-- A new ghost of a source pad that cannot be linked: nothing stays. -/
theorem createGhost_refused (h : Inv w) (hlt : target < w.fresh)
    (hdir : w.pads.direction target = .src)
    (hrefused : negotiated = false ∨ (w.pads.peer target).isSome) :
    let w' := (w.createGhost target negotiated).2
    (∀ r, w'.pads.peer r = w.pads.peer r) ∧ (∀ r, w'.pads.linked r = w.pads.linked r) ∧
    (∀ r, r < w.fresh → w'.pads.direction r = w.pads.direction r) ∧
    (∀ r, w'.ghosts r = w.ghosts r) ∧ (∀ r, w'.proxyOf r = w.proxyOf r) ∧
    (∀ r, r < w.fresh → w'.pads.refcount r = w.pads.refcount r) ∧ w'.fresh = w.fresh + 2 := by
  have hne : target ≠ w.fresh := Nat.ne_of_lt hlt
  have hunused := h.unused w.fresh le_rfl
  have hunused' := h.unused (w.fresh + 1) (by omega)
  have hflag := h.flag w.fresh
  have hflag' := h.flag (w.fresh + 1)
  -- The world on the way: the ghost made, its target set, the proxy made, and both gone.
  let made := (w.create .src).setGhost w.fresh (some ⟨none, none⟩)
  let aimed := made.setGhost w.fresh (some ⟨some target, none⟩)
  let proxied :=
    ((aimed.create .sink).setProxy (w.fresh + 1) (some w.fresh)).setProxy (w.fresh + 1) none
  let lost := (proxied.destroy (w.fresh + 1)).setGhost w.fresh (some ⟨none, none⟩)
  have hset : made.setTarget w.fresh target negotiated = (.error, lost) := by
    have hghost : made.ghosts w.fresh = some ⟨none, none⟩ := update_self _ _ _
    have hdirs : made.pads.direction w.fresh = .src ∧ made.pads.direction target = .src := by
      simp [made, World.setGhost, World.create, hne, hdir]
    rw [setTarget_source hghost hdirs.1 hdirs.2]
    apply attach_refused (Nat.lt_succ_of_lt hlt)
    simpa [World.dropProxy, made, World.setGhost, World.create, hne] using hrefused
  have hcreate : (w.createGhost target negotiated).2 =
      (lost.setGhost w.fresh none).destroy w.fresh := by
    simp only [World.createGhost, hdir]
    simp only [made] at hset
    rw [hset]
  rw [hcreate]
  have hbefore : proxied.pads.peer = w.pads.peer ∧ proxied.pads.linked = w.pads.linked := by
    constructor
    · funext r
      simp only [proxied, aimed, made, World.create, World.setProxy, World.setGhost,
        update_apply]
      grind
    · funext r
      simp only [proxied, aimed, made, World.create, World.setProxy, World.setGhost,
        update_apply]
      grind
  -- Neither pad had a peer, so nothing else goes with them.
  have hproxyGone := @References.State.unref_frame _ proxied.pads (w.fresh + 1)
    (by rw [hbefore.1, hunused'.1]) (by rw [hbefore.2, hflag', hunused'.1]; rfl)
  have hghostGone := @References.State.unref_frame _ (proxied.pads.unref (w.fresh + 1)) w.fresh
    (by rw [hproxyGone.1, hbefore.1, hunused.1])
    (by rw [hproxyGone.2, hbefore.2, hflag, hunused.1]; rfl)
  have hdirection : ((lost.setGhost w.fresh none).destroy w.fresh).pads.direction =
      proxied.pads.direction :=
    (References.State.unref_direction _ _).trans (References.State.unref_direction _ _)
  refine ⟨fun r => ?_, fun r => ?_, fun r hr => ?_, fun r => ?_, fun r => ?_, fun r hr => ?_, rfl⟩
  · exact congrFun (hghostGone.1.trans (hproxyGone.1.trans hbefore.1)) r
  · exact congrFun (hghostGone.2.trans (hproxyGone.2.trans hbefore.2)) r
  · rw [hdirection]
    simp only [proxied, aimed, made, World.create, World.setProxy, World.setGhost,
      update_apply]
    grind
  · simp only [lost, proxied, aimed, made, World.create, World.setProxy, World.setGhost,
      World.destroy, update_apply]
    grind
  · simp only [lost, proxied, aimed, made, World.create, World.setProxy, World.setGhost,
      World.destroy, update_apply]
    grind
  · change ((proxied.pads.unref (w.fresh + 1)).unref w.fresh).refcount r = w.pads.refcount r
    rw [References.State.unref_refcount, References.State.unref_refcount]
    simp only [proxied, aimed, made, World.create, World.setProxy, World.setGhost,
      update_apply]
    grind

end Calls

/-! ## Every run without a change of target -/

/-- Linking two pads that are free changes nothing about ghosts and proxies: none of the pads they
rely on is free. -/
theorem Inv.connect {w : World} {src sink : ℕ} (h : Inv w) (hsrc : src < w.fresh)
    (hsink : sink < w.fresh) (hsrcDir : ¬ w.pads.direction src ≠ .src)
    (hsinkDir : ¬ w.pads.direction sink ≠ .sink) (hfreeSrc : w.pads.peer src = none)
    (hfreeSink : w.pads.peer sink = none) :
    Inv { w with pads := ((w.pads.ref sink).ref src).connect src sink } := by
  have hne : src ≠ sink := by
    rintro rfl
    rw [not_ne_iff] at hsrcDir hsinkDir
    rw [hsrcDir] at hsinkDir
    cases hsinkDir
  have hpeers : ∀ r, (((w.pads.ref sink).ref src).connect src sink).peer r =
      if r = sink then some src else if r = src then some sink else w.pads.peer r := by
    intro r
    simp [References.State.connect, References.State.ref, update_apply]
  have hflags : ∀ r, (((w.pads.ref sink).ref src).connect src sink).linked r =
      if r = sink ∨ r = src then true else w.pads.linked r := by
    intro r
    simp only [References.State.connect, References.State.ref, update_apply]
    grind
  refine ⟨fun p q hpq => ?_, fun p => ?_, fun p hp => ?_, fun g gp hg hdir => ?_, h.sink,
    fun proxy g hproxy => ?_, fun proxy g hproxy => ?_⟩
  · have hold := h.reciprocal p q
    simp only [hpeers] at hpq ⊢
    grind
  · have hold := h.flag p
    simp only [hpeers, hflags]
    grind
  · have hold := h.unused p hp
    have hp : w.fresh ≤ p := hp
    simp only [hpeers]
    grind
  · obtain ⟨t, proxy, hgp, htdir, hpeer, hproxy⟩ := h.source g gp hg hdir
    refine ⟨t, proxy, hgp, htdir, ?_, hproxy⟩
    simp only [hpeers]
    grind
  · obtain ⟨t, hpeer, hghost⟩ := h.proxy proxy g hproxy
    refine ⟨t, ?_, hghost⟩
    simp only [hpeers]
    grind
  · obtain ⟨t, hpeer, -⟩ := h.proxy proxy g hproxy
    have hcount := h.counted proxy g hproxy
    simp only [References.State.connect, References.State.ref, update_apply]
    grind

theorem link_inv {w : World} {src sink : ℕ} {negotiated : Bool} (h : Inv w) (hsrc : src < w.fresh)
    (hsink : sink < w.fresh) : Inv (w.link src sink negotiated).2 := by
  unfold World.link
  split
  · exact h
  · split
    · exact h
    · split
      · exact h
      · split
        · exact h
        case isFalse hsrcDir hsinkDir _ hfree =>
            have hfreeSrc : w.pads.peer src = none :=
              not_isSome_iff_eq_none.mp fun hsome => hfree (.inl hsome)
            have hfreeSink : w.pads.peer sink = none :=
              not_isSome_iff_eq_none.mp fun hsome => hfree (.inr hsome)
            exact h.connect hsrc hsink hsrcDir hsinkDir hfreeSrc hfreeSink

theorem create_sink_inv {w : World} {target : ℕ} {negotiated : Bool} (h : Inv w)
    (hlt : target < w.fresh) (hdir : w.pads.direction target = .sink) :
    Inv (w.createGhost target negotiated).2 := by
  obtain ⟨hpeer, hlinked, hdirection, hghosts, hproxyOf, hcounts, hfresh⟩ :=
    @createGhost_sink w target negotiated h hlt hdir
  have hunused := h.unused w.fresh le_rfl
  refine ⟨fun p q hpq => ?_, fun p => ?_, fun p hp => ?_, fun g gp hg hgdir => ?_,
    fun g gp hg hgdir => ?_, fun proxy g hproxy => ?_, fun proxy g hproxy => ?_⟩
  · rw [hpeer] at hpq ⊢
    exact h.reciprocal p q hpq
  · rw [hpeer, hlinked]
    exact h.flag p
  · have hold := h.unused p (by omega)
    rw [hpeer, hghosts, hproxyOf, if_neg (by omega)]
    exact hold
  · rw [hghosts] at hg
    rw [hdirection] at hgdir
    have hne : g ≠ w.fresh := fun hsame => by
      rw [if_pos hsame] at hgdir
      cases hgdir
    rw [if_neg hne] at hg hgdir
    obtain ⟨t, proxy, hgp, htdir, hpeerT, hproxy⟩ := h.source g gp hg hgdir
    refine ⟨t, proxy, hgp, ?_, ?_, ?_⟩
    · rw [hdirection]
      grind
    · rw [hpeer, hpeerT]
    · rw [hproxyOf, hproxy]
  · rw [hghosts] at hg
    rw [hdirection] at hgdir
    have hold := h.sink g gp
    grind
  · rw [hproxyOf] at hproxy
    obtain ⟨t, hpeerT, hghost⟩ := h.proxy proxy g hproxy
    refine ⟨t, by rw [hpeer, hpeerT], ?_⟩
    rw [hghosts]
    grind
  · rw [hproxyOf] at hproxy
    rw [hcounts proxy (h.proxy_lt hproxy)]
    exact h.counted proxy g hproxy

theorem create_refused_inv {w : World} {target : ℕ} {negotiated : Bool} (h : Inv w)
    (hlt : target < w.fresh) (hdir : w.pads.direction target = .src)
    (hrefused : negotiated = false ∨ (w.pads.peer target).isSome) :
    Inv (w.createGhost target negotiated).2 := by
  obtain ⟨hpeer, hlinked, hdirection, hghosts, hproxyOf, hcounts, hfresh⟩ :=
    createGhost_refused h hlt hdir hrefused
  -- What has a peer or data was there before, so its direction is what it was.
  have hused : ∀ p, (w.pads.peer p).isSome ∨ (w.ghosts p).isSome →
      (w.createGhost target negotiated).2.pads.direction p = w.pads.direction p := by
    intro p hp
    apply hdirection p
    by_contra hge
    obtain ⟨hnoPeer, hnoGhost, -⟩ := h.unused p (by omega)
    simp [hnoPeer, hnoGhost] at hp
  refine ⟨fun p q hpq => ?_, fun p => ?_, fun p hp => ?_, fun g gp hg hgdir => ?_,
    fun g gp hg hgdir => ?_, fun proxy g hproxy => ?_, fun proxy g hproxy => ?_⟩
  · rw [hpeer] at hpq ⊢
    exact h.reciprocal p q hpq
  · rw [hpeer, hlinked]
    exact h.flag p
  · rw [hpeer, hghosts, hproxyOf]
    exact h.unused p (by omega)
  · rw [hghosts] at hg
    rw [hused g (.inr (by rw [hg]; rfl))] at hgdir
    obtain ⟨t, proxy, hgp, htdir, hpeerT, hproxy⟩ := h.source g gp hg hgdir
    refine ⟨t, proxy, hgp, ?_, by rw [hpeer, hpeerT], by rw [hproxyOf, hproxy]⟩
    rw [hused t (.inl (by rw [hpeerT]; rfl)), htdir]
  · rw [hghosts] at hg
    rw [hused g (.inr (by rw [hg]; rfl))] at hgdir
    exact h.sink g gp hg hgdir
  · rw [hproxyOf] at hproxy
    rw [hpeer, hghosts]
    exact h.proxy proxy g hproxy
  · rw [hproxyOf] at hproxy
    rw [hcounts proxy (h.proxy_lt hproxy)]
    exact h.counted proxy g hproxy

theorem create_joined_inv {w : World} {target : ℕ} (h : Inv w) (hlt : target < w.fresh)
    (hdir : w.pads.direction target = .src) (hfree : w.pads.peer target = none) :
    Inv (w.createGhost target true).2 := by
  obtain ⟨hpeer, hlinked, hdirection, hghosts, hproxyOf, hcounts, hcount, hfresh⟩ :=
    createGhost_joined h hlt hdir hfree
  have hunused := h.unused w.fresh le_rfl
  have hunused' := h.unused (w.fresh + 1) (by omega)
  refine ⟨fun p q hpq => ?_, fun p => ?_, fun p hp => ?_, fun g gp hg hgdir => ?_,
    fun g gp hg hgdir => ?_, fun proxy g hproxy => ?_, fun proxy g hproxy => ?_⟩
  · have hold := h.reciprocal p q
    rw [hpeer] at hpq ⊢
    grind
  · have hold := h.flag p
    rw [hpeer, hlinked]
    grind
  · have hold := h.unused p (by omega)
    rw [hpeer, hghosts, hproxyOf]
    grind
  · rw [hghosts] at hg
    rw [hdirection] at hgdir
    by_cases hnew : g = w.fresh
    · rw [if_pos hnew] at hg
      cases hg
      refine ⟨target, w.fresh + 1, rfl, ?_, ?_, ?_⟩
      · rw [hdirection]
        grind
      · rw [hpeer]
        grind
      · rw [hproxyOf, if_pos rfl, hnew]
    · rw [if_neg hnew] at hg hgdir
      have hne : g ≠ w.fresh + 1 := by
        rintro rfl
        rw [hunused'.2.1] at hg
        cases hg
      rw [if_neg hne] at hgdir
      obtain ⟨t, proxy, hgp, htdir, hpeerT, hproxy⟩ := h.source g gp hg hgdir
      refine ⟨t, proxy, hgp, ?_, ?_, ?_⟩
      · rw [hdirection]
        grind
      · rw [hpeer]
        grind
      · rw [hproxyOf]
        grind
  · rw [hghosts] at hg
    rw [hdirection] at hgdir
    have hold := h.sink g gp
    grind
  · rw [hproxyOf] at hproxy
    by_cases hnew : proxy = w.fresh + 1
    · rw [if_pos hnew] at hproxy
      cases hproxy
      refine ⟨target, ?_, ?_⟩
      · rw [hpeer, if_pos hnew]
      · rw [hghosts, if_pos rfl, hnew]
    · rw [if_neg hnew] at hproxy
      obtain ⟨t, hpeerT, hghost⟩ := h.proxy proxy g hproxy
      refine ⟨t, ?_, ?_⟩
      · rw [hpeer]
        grind
      · rw [hghosts]
        grind
  · rw [hproxyOf] at hproxy
    by_cases hnew : proxy = w.fresh + 1
    · rw [hnew, hcount]
    · rw [if_neg hnew] at hproxy
      obtain ⟨t, hpeerT, -⟩ := h.proxy proxy g hproxy
      have hne : proxy ≠ target := by
        rintro rfl
        rw [hfree] at hpeerT
        cases hpeerT
      rw [hcounts proxy (h.proxy_lt hproxy) hne]
      exact h.counted proxy g hproxy

theorem create_inv {w : World} {target : ℕ} {negotiated : Bool} (h : Inv w)
    (hlt : target < w.fresh) : Inv (w.createGhost target negotiated).2 := by
  cases hdir : w.pads.direction target with
  | sink => exact create_sink_inv h hlt hdir
  | src =>
      by_cases hrefused : negotiated = false ∨ (w.pads.peer target).isSome
      · exact create_refused_inv h hlt hdir hrefused
      · obtain ⟨hnegotiated, hfree⟩ := not_or.mp hrefused
        rw [Bool.not_eq_false] at hnegotiated
        subst hnegotiated
        exact create_joined_inv h hlt hdir (not_isSome_iff_eq_none.mp hfree)

/-- A call of `zst_ghost_pad_set_target` that does not change the target of a source ghost is
refused with nothing changed, or is about a sink ghost. -/
theorem setTarget_calm {w : World} {ghost target : ℕ} {negotiated : Bool} (h : Inv w)
    (hcalm : ¬ Retargets w (.setTarget ghost target negotiated)) :
    w.setTarget ghost target negotiated = (.error, w) ∨
      (w.ghosts ghost).isSome ∧ w.pads.direction ghost = .sink ∧
        w.setTarget ghost target negotiated =
          (.ok, w.setGhost ghost (some ⟨some target, none⟩)) := by
  unfold World.setTarget
  cases hghost : w.ghosts ghost with
  | none => exact .inl rfl
  | some gp =>
      dsimp only
      by_cases hdir : w.pads.direction ghost = w.pads.direction target
      · rw [if_neg (not_not_intro hdir)]
        cases hkind : w.pads.direction ghost with
        | src => exact absurd ⟨by rw [hghost]; rfl, hkind, hdir.symm.trans hkind⟩ hcalm
        | sink =>
            have hnone : w.dropProxy gp = w := by
              unfold World.dropProxy
              rw [h.sink ghost gp hghost hkind]
            have hsink : ¬ (w.setGhost ghost (some ⟨some target, none⟩)).pads.direction target =
                .src := by
              change ¬ w.pads.direction target = .src
              rw [← hdir, hkind]
              exact nofun
            rw [hnone, if_neg hsink]
            exact .inr ⟨rfl, rfl, rfl⟩
      · rw [if_pos hdir]
        exact .inl rfl

theorem setTarget_inv {w : World} {ghost target : ℕ} {negotiated : Bool} (h : Inv w)
    (hcalm : ¬ Retargets w (.setTarget ghost target negotiated)) :
    Inv (w.setTarget ghost target negotiated).2 := by
  rcases setTarget_calm h hcalm with hsame | ⟨hsome, hkind, hset⟩
  · rw [hsame]
    exact h
  · rw [hset]
    have hused : ¬ w.fresh ≤ ghost := fun hge => by
      rw [(h.unused ghost hge).2.1] at hsome
      cases hsome
    -- Only the data of a sink ghost changes, and no proxy serves one.
    have hghosts : ∀ r, (w.setGhost ghost (some ⟨some target, none⟩)).ghosts r =
        if r = ghost then some ⟨some target, none⟩ else w.ghosts r := by
      intro r
      simp [World.setGhost, update_apply]
    refine ⟨h.reciprocal, h.flag, fun p hp => ?_, fun g gp hg hdir => ?_, fun g gp hg hdir => ?_,
      fun proxy g hproxy => ?_, h.counted⟩
    · have hold := h.unused p hp
      have hp : w.fresh ≤ p := hp
      rw [hghosts, if_neg (by rintro rfl; exact hused hp)]
      exact hold
    · have hsource : w.pads.direction g = .src := hdir
      have hne : g ≠ ghost := by
        rintro rfl
        rw [hkind] at hsource
        cases hsource
      rw [hghosts, if_neg hne] at hg
      exact h.source g gp hg hsource
    · rw [hghosts] at hg
      split at hg
      · cases hg
        rfl
      · exact h.sink g gp hg hdir
    · obtain ⟨t, hpeer, hghost⟩ := h.proxy proxy g hproxy
      refine ⟨t, hpeer, ?_⟩
      rw [hghosts, if_neg, hghost]
      rintro rfl
      have hnone := h.sink g _ hghost hkind
      cases hnone

theorem step_inv {w w' : World} {call : Call} (h : Inv w) (hcalm : ¬ Retargets w call)
    (hnext : perform w call = some w') : Inv w' := by
  cases call with
  | create target negotiated =>
      simp only [perform, ite_none_right_eq_some, Option.some.injEq] at hnext
      obtain ⟨husable, rfl⟩ := hnext
      exact create_inv h husable.1
  | setTarget ghost target negotiated =>
      simp only [perform, ite_none_right_eq_some, Option.some.injEq] at hnext
      obtain ⟨-, rfl⟩ := hnext
      exact setTarget_inv h hcalm
  | link src sink negotiated =>
      simp only [perform, ite_none_right_eq_some, Option.some.injEq] at hnext
      obtain ⟨⟨hsrc, hsink⟩, rfl⟩ := hnext
      exact link_inv h hsrc.1 hsink.1

/-! ## Forwarding -/

/-- The pads a source ghost forwards for are its target. -/
theorem Inv.forwards_iff {w : World} (h : Inv w) {g t : ℕ} (hdir : w.pads.direction g = .src) :
    w.Forwards t g ↔ w.target g = some t := by
  unfold World.Forwards World.target
  constructor
  · rintro ⟨proxy, hpushed, hproxy, -⟩
    unfold World.pushedTo at hpushed
    split at hpushed
    case isTrue =>
        obtain ⟨t', hpeer, hghost⟩ := h.proxy proxy g hproxy
        rw [h.reciprocal t proxy hpushed] at hpeer
        cases hpeer
        rw [hghost]
        rfl
    case isFalse => cases hpushed
  · intro htarget
    obtain ⟨gp, hghost, hgp⟩ := bind_eq_some_iff.mp htarget
    obtain ⟨t', proxy, rfl, htdir, hpeer, hproxy⟩ := h.source g gp hghost hdir
    cases hgp
    refine ⟨proxy, ?_, hproxy, by rw [hghost]; rfl⟩
    unfold World.pushedTo
    rw [if_pos htdir, hpeer]

/-- Changing the target of a source ghost: either the target is lost, or the old target goes on
forwarding beside the new one. -/
theorem setTarget_breaks {w : World} {ghost target : ℕ} {negotiated : Bool} (h : Inv w)
    (hlt : target < w.fresh) (hretargets : Retargets w (.setTarget ghost target negotiated)) :
    ∃ old, w.target ghost = some old ∧
      ((w.setTarget ghost target negotiated).1 ≠ .ok ∧
          (w.setTarget ghost target negotiated).2.target ghost = none ∨
        (w.setTarget ghost target negotiated).2.target ghost = some target ∧ target ≠ old ∧
          (w.setTarget ghost target negotiated).2.Forwards old ghost) := by
  obtain ⟨hsome, hdir, htarget⟩ := hretargets
  obtain ⟨gp, hghost⟩ := isSome_iff_exists.mp hsome
  obtain ⟨old, proxy, rfl, holdDir, hpeer, hproxy⟩ := h.source ghost gp hghost hdir
  refine ⟨old, by rw [World.target, hghost]; rfl, ?_⟩
  -- The old proxy loses one of its two references and stays where it is.
  obtain ⟨mid, hmid, hpeers, hdirections, hproxies, hfresh⟩ : ∃ mid : World,
      (w.dropProxy ⟨some old, some proxy⟩).setGhost ghost (some ⟨some target, none⟩) = mid ∧
      mid.pads.peer = w.pads.peer ∧ mid.pads.direction = w.pads.direction ∧
      mid.proxyOf = w.proxyOf ∧ mid.fresh = w.fresh := by
    refine ⟨_, rfl, ?_⟩
    simp [World.dropProxy, World.destroy, World.setGhost, References.State.unref,
      h.counted proxy ghost hproxy]
  rw [setTarget_source hghost hdir htarget, hmid]
  rw [← hfresh] at hlt
  by_cases hrefused : negotiated = false ∨ (w.pads.peer target).isSome
  · rw [← hpeers] at hrefused
    rw [attach_refused hlt hrefused]
    exact .inl ⟨nofun, by simp [World.target, World.setGhost]⟩
  · obtain ⟨hnegotiated, hfree⟩ := not_or.mp hrefused
    rw [Bool.not_eq_false] at hnegotiated
    subst hnegotiated
    have hfree := not_isSome_iff_eq_none.mp hfree
    have hne : old ≠ target := by
      rintro rfl
      rw [hfree] at hpeer
      cases hpeer
    have hproxyNe : proxy ≠ target := by
      rintro rfl
      rw [h.reciprocal old proxy hpeer] at hfree
      cases hfree
    have holdLt : old < mid.fresh := by
      rw [hfresh]
      by_contra hge
      rw [(h.unused old (Nat.le_of_not_lt hge)).1] at hpeer
      cases hpeer
    have hproxyLt : proxy < mid.fresh := hfresh ▸ h.proxy_lt hproxy
    obtain ⟨hnew, hframe⟩ := @attach_joined mid ghost target hlt (by rw [hdirections, htarget])
      (by rw [hpeers, hfree])
    obtain ⟨hpeer', hdirection', -⟩ := hframe old holdLt hne
    refine .inr ⟨by rw [World.target, hnew]; rfl, Ne.symm hne, proxy, ?_, ?_, by rw [hnew]; rfl⟩
    · unfold World.pushedTo
      rw [hpeer', hdirection', hpeers, hdirections, if_pos holdDir, hpeer]
    · rw [(hframe proxy hproxyLt hproxyNe).2.2, hproxies, hproxy]

/-- **What source ghosts forward.**  In every state reached without changing the target of a source
ghost, a buffer pushed by a pad reaches the peer of a source ghost exactly if the pad is its
target, and a call that sets a target and is refused changes nothing; and every call that
changes the target of a source ghost breaks one or the other. -/
theorem ghost_forwards_target {w : World}
    (hreach : system.ReachableVia (fun w call => ¬ Retargets w call) w) :
    (∀ g beyond, (w.ghosts g).isSome → w.pads.direction g = .src → w.pads.peer g = some beyond →
      ∀ t, w.Reaches t g beyond ↔ w.target g = some t) ∧
    (∀ g t negotiated, ¬ Retargets w (.setTarget g t negotiated) →
      (w.setTarget g t negotiated).1 ≠ .ok → (w.setTarget g t negotiated).2 = w) ∧
    (∀ g t negotiated, t < w.fresh → Retargets w (.setTarget g t negotiated) →
      ∃ old, w.target g = some old ∧
        ((w.setTarget g t negotiated).1 ≠ .ok ∧
            (w.setTarget g t negotiated).2.target g = none ∨
          (w.setTarget g t negotiated).2.target g = some t ∧ t ≠ old ∧
            (w.setTarget g t negotiated).2.Forwards old g)) := by
  have h : Inv w := by
    refine System.ReachableVia.invariant (I := Inv) (fun _ hinit => initial_inv hinit) ?_ hreach
    intro w call w' _ hinv hcalm hnext
    exact step_inv hinv hcalm hnext
  refine ⟨fun g beyond _ hdir hpeer t => ?_, fun g t negotiated hcalm hfail => ?_,
    fun g t negotiated hlt hretargets => setTarget_breaks h hlt hretargets⟩
  · unfold World.Reaches
    rw [h.forwards_iff hdir, h.flag g, hpeer]
    have hpushed : w.pushedTo g = some beyond := by
      unfold World.pushedTo
      rw [if_pos hdir, hpeer]
    exact ⟨fun hreaches => hreaches.1, fun htarget => ⟨htarget, rfl, hpushed⟩⟩
  · rcases setTarget_calm h hcalm with hsame | ⟨-, -, hset⟩
    · rw [hsame]
    · rw [hset] at hfail
      exact absurd rfl hfail

/-- Three free pads: two sources, 0 and 2, and the sink 1. -/
def threePads : World where
  pads := ⟨fun pad => if pad = 1 then .sink else .src, fun _ => none, fun _ => false, fun _ => 1,
    fun _ => false, false, fun _ => 1, fun _ => false, nofun⟩
  ghosts := fun _ => none
  proxyOf := fun _ => none
  fresh := 3

theorem threePads_initial : Initial threePads :=
  ⟨nofun, fun _ => rfl, fun _ _ => rfl, fun _ => rfl, fun _ => rfl⟩

/-- A ghost of pad 0, linked to pad 1, forwards for pad 0 only. -/
theorem ghost_forwards_target_linked :
    ∃ w, system.ReachableVia (fun w call => ¬ Retargets w call) w ∧ w.target 3 = some 0 ∧
      w.Reaches 0 3 1 ∧ ¬ w.Reaches 2 3 1 := by
  have hcalm : ∀ w : World, ∀ call ∈ [Call.create 0 true, .link 3 1 true], ¬ Retargets w call := by
    intro w call hcall
    rcases List.mem_pair.mp hcall with rfl | rfl
    · exact id
    · exact id
  obtain ⟨w, hrun, hvalues⟩ := map_eq_some_iff.mp
    (show (system.run threePads [.create 0 true, .link 3 1 true]).map
      (fun w => (w.target 3, (w.ghosts 3).isSome, w.pads.direction 3, w.pads.peer 3)) =
        some (some 0, true, .src, some 1) by decide +kernel)
  simp only [Prod.mk.injEq] at hvalues
  obtain ⟨htarget, hghost, hdir, hpeer⟩ := hvalues
  have hreach : system.ReachableVia (fun w call => ¬ Retargets w call) w :=
    System.ReachableVia.run (.start threePads_initial) hcalm hrun
  have hreaches := (ghost_forwards_target hreach).1 3 1 hghost hdir hpeer
  refine ⟨w, hreach, htarget, (hreaches 0).mpr htarget, fun hother => ?_⟩
  rw [(hreaches 2).mp hother] at htarget
  cases htarget

/-- The ghost of pad 0 is given pad 2 as target: pad 0 still reaches the peer. -/
theorem old_target_forwards :
    ¬ ∀ w, system.Reachable w → ∀ g beyond, (w.ghosts g).isSome → w.pads.direction g = .src →
      w.pads.peer g = some beyond → ∀ t, w.Reaches t g beyond ↔ w.target g = some t := by
  intro hclaim
  obtain ⟨w, hrun, hvalues⟩ := map_eq_some_iff.mp
    (show (system.run threePads [.create 0 true, .link 3 1 true, .setTarget 3 2 true]).map
      (fun w => decide ((w.target 3 = some 2 ∧ (w.ghosts 3).isSome ∧ w.pads.direction 3 = .src ∧
        w.pads.peer 3 = some 1) ∧ w.pushedTo 0 = some 4 ∧ w.proxyOf 4 = some 3 ∧
        w.pads.linked 3 = true ∧ w.pushedTo 3 = some 1)) = some true by decide +kernel)
  obtain ⟨⟨htarget, hghost, hdir, hpeer⟩, hpushed, hproxy, hlinked, hbeyond⟩ :=
    of_decide_eq_true hvalues
  have hreach : system.Reachable w := System.Reachable.run (.start threePads_initial) hrun
  have hforwards : w.Forwards 0 3 := ⟨4, hpushed, hproxy, hghost⟩
  have hold := (hclaim w hreach 3 1 hghost hdir hpeer 0).mp ⟨hforwards, hlinked, hbeyond⟩
  rw [htarget] at hold
  cases hold

end Zstreamer.Pads.Ghosts

/-
# Collecting pieces without looking for gaps

A receiver that keeps whatever comes and hands it over with the last piece of a group.
It has no numbers to look at, so what is lost is not noticed: what is left of a unit is
joined to what comes next, and without the last piece of a group so is all of it.

What it hands over is made of whole units of one group as long as the losses respect the
units and the groups.
-/

import Mathlib.Data.List.Chain
import Mathlib.Data.List.Forall2
import Zstreamer.Foundation.Reassembly

namespace Zstreamer.Foundation

open List

variable {α β τ : Type*}

/-- The receiver: what it holds, and the stamp of the piece that last began a unit. -/
structure Collector (α τ : Type*) where
  held : List α
  stamp : τ

/-- A piece comes. -/
def Collector.receive (c : Collector α τ) (p : Piece α) (t : τ) :
    Collector α τ × List (List α × τ) :=
  let held := c.held ++ p.content
  let stamp := if p.starts then t else c.stamp
  if p.ends then (⟨[], stamp⟩, if held = [] then [] else [(held, stamp)]) else (⟨held, stamp⟩, [])

/-! ## What arrives -/

/-- What arrives of what is sent, which is marked. -/
def received (sent : List (β × Bool)) : List β := (sent.filter fun entry => entry.2).map Prod.fst

@[simp]
theorem received_append (front back : List (β × Bool)) :
    received (front ++ back) = received front ++ received back := by
  rw [received, filter_append, map_append]
  rfl

theorem received_of_all {sent : List (β × Bool)} (h : ∀ entry ∈ sent, entry.2 = true) :
    received sent = sent.map Prod.fst := by
  rw [received, filter_eq_self.mpr h]

theorem received_of_none {sent : List (β × Bool)} (h : ∀ entry ∈ sent, entry.2 = false) :
    received sent = [] := by
  rw [received, filter_eq_nil_iff.mpr fun entry hentry => by rw [h entry hentry]; decide]
  rfl

theorem mem_of_mem_received {sent : List (β × Bool)} {b : β} (hb : b ∈ received sent) :
    (b, true) ∈ sent := by
  obtain ⟨⟨c, mark⟩, hentry, rfl⟩ := mem_map.mp hb
  obtain ⟨hmem, hmark⟩ := mem_filter.mp hentry
  obtain rfl : mark = true := hmark
  exact hmem

section Losses

variable (starts ends : β → Bool)

/-- The end of the group arrives. -/
def Closed (group : List (β × Bool)) : Prop := ∃ entry ∈ group, entry.2 = true ∧ ends entry.1 = true

/-- Of every unit all arrives or nothing: what does not begin a unit arrives just when what is
in front of it does. -/
def Whole (group : List (β × Bool)) : Prop :=
  group.IsChain fun entry next => starts next.1 = false → next.2 = entry.2

/-- Losses that respect units and groups. -/
structure Tolerable (sent : List (List (β × Bool))) : Prop where
  /-- A group whose end arrives has lost whole units only. -/
  whole : ∀ group ∈ sent, Closed ends group → Whole starts group
  /-- A group whose end is lost has lost everything, or no group behind it has an end. -/
  closed : sent.Pairwise fun group later =>
    Closed ends later → Closed ends group ∨ ∀ entry ∈ group, entry.2 = false

end Losses

instance (starts : β → Bool) (group : List (β × Bool)) : Decidable (Whole starts group) :=
  inferInstanceAs (Decidable (group.IsChain _))

instance (ends : β → Bool) (group : List (β × Bool)) : Decidable (Closed ends group) :=
  inferInstanceAs (Decidable (∃ entry ∈ group, _))

instance (starts ends : β → Bool) (sent : List (List (β × Bool))) :
    Decidable (Tolerable starts ends sent) :=
  decidable_of_iff ((∀ group ∈ sent, Closed ends group → Whole starts group) ∧
      sent.Pairwise fun group later =>
        Closed ends later → Closed ends group ∨ ∀ entry ∈ group, entry.2 = false)
    ⟨fun ⟨hwhole, hclosed⟩ => ⟨hwhole, hclosed⟩, fun ⟨hwhole, hclosed⟩ => ⟨hwhole, hclosed⟩⟩

/-! ## Groups -/

/-- A group of units that is sent with one stamp. -/
structure Batch (α τ : Type*) where
  units : List (Cut α)
  stamp : τ

section Carried

variable (piece : β → Piece α) (stamp : β → τ)

/-- What is sent of a batch: the pieces of its units, in order. -/
structure Batch.Sent (g : Batch α τ) (group : List β) : Prop where
  units_ne : g.units ≠ []
  pieces : group.map piece = groupPieces g.units
  stamps : ∀ b ∈ group, stamp b = g.stamp
  begins : ∀ b ∈ group, (piece b).starts = true → (piece b).content ≠ []

/-- Things come one after the other. -/
def Collector.run : List β → Collector α τ → Collector α τ × List (List α × τ)
  | [], c => (c, [])
  | b :: rest, c =>
      let one := c.receive (piece b) (stamp b)
      let others := run rest one.1
      (others.1, one.2 ++ others.2)

end Carried

/-- What is handed over of a batch: some of its units, each as a whole. -/
def Batch.Hands (g : Batch α τ) (out : List α × τ) : Prop :=
  ∃ units, units ≠ [] ∧ List.Sublist units g.units ∧ out = (groupContent units, g.stamp)

section Runs

variable {piece : β → Piece α} {stamp : β → τ}

theorem Collector.run_append (front back : List β) (c : Collector α τ) :
    Collector.run piece stamp (front ++ back) c =
      ((Collector.run piece stamp back (Collector.run piece stamp front c).1).1,
        (Collector.run piece stamp front c).2 ++
          (Collector.run piece stamp back (Collector.run piece stamp front c).1).2) := by
  induction front generalizing c with
  | nil => rfl
  | cons b front ih =>
      rw [cons_append, Collector.run, ih]
      simp only [Collector.run, append_assoc]

/-- Without the end of a group nothing is handed over. -/
theorem Collector.run_open {group : List β} (hopen : ∀ b ∈ group, (piece b).ends = false)
    (c : Collector α τ) : (Collector.run piece stamp group c).2 = [] := by
  induction group generalizing c with
  | nil => rfl
  | cons b rest ih =>
      have hone : (c.receive (piece b) (stamp b)).2 = [] := by
        rw [Collector.receive, hopen b mem_cons_self]
        rfl
      rw [Collector.run]
      dsimp only
      rw [hone, ih fun other hother => hopen other (mem_cons_of_mem b hother)]
      rfl

/-- From the beginning of a unit on, something is held, under the stamp of the group. -/
theorem Collector.begun {b : β} {t : τ} (hstamp : stamp b = t)
    (hbegins : (piece b).starts = true → (piece b).content ≠ []) {c : Collector α τ}
    (hc : c.held ≠ [] ∧ c.stamp = t ∨ (piece b).starts = true) :
    c.held ++ (piece b).content ≠ [] ∧ (if (piece b).starts then stamp b else c.stamp) = t := by
  rw [hstamp]
  rcases hc with ⟨hheld, hstamp⟩ | hstarts
  · exact ⟨append_ne_nil_of_left_ne_nil hheld _, by rw [hstamp, ite_self]⟩
  · exact ⟨append_ne_nil_of_right_ne_nil _ (hbegins hstarts), if_pos hstarts⟩

/-- The end of a group hands over what is held with all of the group, under the stamp of the
group. -/
theorem Collector.run_ending {group : List β}
    (hending : Ending (fun b => (piece b).ends) group) {t : τ} (hstamps : ∀ b ∈ group, stamp b = t)
    (hbegins : ∀ b ∈ group, (piece b).starts = true → (piece b).content ≠ []) {c : Collector α τ}
    (hc : c.held ≠ [] ∧ c.stamp = t ∨ ∀ b ∈ group.head?, (piece b).starts = true) :
    Collector.run piece stamp group c =
      (⟨[], t⟩, [(c.held ++ group.flatMap fun b => (piece b).content, t)]) := by
  induction hending generalizing c with
  | @last b hends =>
      obtain ⟨hheld, hstamp⟩ := begun (hstamps b mem_cons_self)
        (hbegins b mem_cons_self) (hc.imp_right fun hstarts => hstarts b rfl)
      rw [Collector.run, Collector.run, Collector.receive]
      simp only [hends, hstamp, if_true, if_neg hheld, flatMap_cons, flatMap_nil,
        append_nil]
  | @more b rest hends hrest ih =>
      obtain ⟨hheld, hstamp⟩ := begun (hstamps b mem_cons_self)
        (hbegins b mem_cons_self) (hc.imp_right fun hstarts => hstarts b rfl)
      have htail := ih (fun other hother => hstamps other (mem_cons_of_mem b hother))
        (fun other hother => hbegins other (mem_cons_of_mem b hother))
        (c := ⟨c.held ++ (piece b).content, t⟩) (.inl ⟨hheld, rfl⟩)
      rw [Collector.run, Collector.receive]
      simp only [hends, hstamp, Bool.false_eq_true, if_false, htail, nil_append,
        flatMap_cons, append_assoc]

end Runs

/-! ## Losses that respect the units -/

section Losses

variable {piece : β → Piece α}

/-- All pieces of a unit arrive or none of them. -/
theorem Whole.all_or_none {group : List (β × Bool)}
    (hwhole : Whole (fun b => (piece b).starts) group) {u : Cut α} {last : Bool}
    (hpieces : group.map (fun entry => piece entry.1) = u.pieces last) :
    ∃ mark, ∀ entry ∈ group, entry.2 = mark := by
  cases group with
  | nil => cases hpieces
  | cons first rest =>
      refine ⟨first.2, fun entry hentry => ?_⟩
      have hrest : ∀ entry ∈ rest, (piece entry.1).starts = false := by
        intro entry hentry
        have hmem : piece entry.1 ∈ rest.map fun entry => piece entry.1 :=
          mem_map_of_mem hentry
        rw [(List.cons.inj hpieces).2] at hmem
        obtain ⟨part, -, hpart⟩ := mem_map.mp hmem
        rw [← hpart]
      clear hpieces
      induction rest generalizing first with
      | nil => rw [mem_singleton.mp hentry]
      | cons next rest ih =>
          obtain ⟨hnext, hwhole⟩ := isChain_cons_cons.mp hwhole
          have hmark := hnext (hrest next mem_cons_self)
          rcases mem_cons.mp hentry with rfl | hentry
          · rfl
          · exact (ih next hwhole hentry fun other hother =>
              hrest other (mem_cons_of_mem next hother)).trans hmark

/-- Of a group whose end arrives and that has lost whole units only, the pieces of the other
units arrive. -/
theorem exists_units_of_received {cuts : List (Cut α)} {group : List (β × Bool)}
    (hpieces : group.map (fun entry => piece entry.1) = groupPieces cuts)
    (hwhole : Whole (fun b => (piece b).starts) group)
    (hclosed : Closed (fun b => (piece b).ends) group) :
    ∃ units, units ≠ [] ∧ List.Sublist units cuts ∧
      (received group).map piece = groupPieces units := by
  induction cuts using flagLast.induct generalizing group with
  | case1 =>
      obtain ⟨entry, hentry, -⟩ := hclosed
      rw [map_eq_nil_iff.mp hpieces] at hentry
      cases hentry
  | case2 u =>
      have hsingle : groupPieces [u] = u.pieces true := append_nil _
      obtain ⟨mark, hall⟩ := hwhole.all_or_none (hpieces.trans hsingle)
      obtain ⟨entry, hentry, hmark, -⟩ := hclosed
      obtain rfl : mark = true := (hall entry hentry).symm.trans hmark
      refine ⟨[u], cons_ne_nil u [], List.Sublist.refl _, ?_⟩
      rw [received_of_all hall, map_map]
      exact hpieces
  | case3 u v rest ih =>
      rw [groupPieces_cons u (cons_ne_nil v rest)] at hpieces
      obtain ⟨front, back, rfl, hfront, hback⟩ := map_eq_append_iff.mp hpieces
      have hchain := isChain_append.mp hwhole
      obtain ⟨mark, hall⟩ := Whole.all_or_none hchain.1 hfront
      have hend : Closed (fun b => (piece b).ends) back := by
        obtain ⟨entry, hentry, hmark, hends⟩ := hclosed
        refine ⟨entry, (mem_append.mp hentry).resolve_left fun hin => ?_, hmark, hends⟩
        have hmem := hfront ▸ mem_map_of_mem (f := fun entry : β × Bool => piece entry.1) hin
        exact Bool.false_ne_true ((u.not_ends _ hmem).symm.trans hends)
      obtain ⟨units, hne, hsub, hunits⟩ := ih hback hchain.2.1 hend
      cases mark with
      | true =>
          refine ⟨u :: units, cons_ne_nil u units, hsub.cons_cons u, ?_⟩
          rw [received_append, received_of_all hall, map_append, hunits, map_map,
            groupPieces_cons u hne]
          exact congrArg (· ++ groupPieces units) hfront
      | false =>
          refine ⟨units, hne, hsub.cons u, ?_⟩
          rw [received_append, received_of_none hall, nil_append, hunits]

end Losses

/-! ## What is handed over -/

section Handed

variable {piece : β → Piece α} {stamp : β → τ} {groups : List (Batch α τ)}

/-- All pieces of some units of a batch, received with nothing held, hand them over. -/
theorem Batch.Sent.run {g : Batch α τ} {group arrived : List β} (h : g.Sent piece stamp group)
    (hsub : ∀ b ∈ arrived, b ∈ group) {units : List (Cut α)} (hne : units ≠ [])
    (hpieces : arrived.map piece = groupPieces units) {c : Collector α τ} (hc : c.held = []) :
    Collector.run piece stamp arrived c = (⟨[], g.stamp⟩, [(groupContent units, g.stamp)]) := by
  have hending : Ending (fun b => (piece b).ends) arrived := by
    have hends := ending_groupPieces hne
    rw [← hpieces] at hends
    exact Ending.of_map hends
  have hstarts : ∀ b ∈ arrived.head?, (piece b).starts = true := by
    intro b hb
    obtain ⟨rest, rfl⟩ := head?_eq_some_iff.mp hb
    exact starts_of_groupPieces hpieces.symm
  rw [Collector.run_ending hending (fun b hb => h.stamps b (hsub b hb))
    (fun b hb => h.begins b (hsub b hb)) (.inr hstarts), hc, nil_append,
    ← flatMap_groupPieces, ← hpieces, flatMap_map]

/-- **What is handed over is made of whole units of one group**, when the losses respect units
and groups. -/
theorem Collector.hands_of_tolerable {sent : List (List (β × Bool))}
    (hsent : List.Forall₂ (fun g group => Batch.Sent piece stamp g (group.map Prod.fst)) groups sent)
    (htolerable : Tolerable (fun b => (piece b).starts) (fun b => (piece b).ends) sent)
    {c : Collector α τ}
    (hc : c.held = [] ∨ ∀ group ∈ sent, ¬ Closed (fun b => (piece b).ends) group) :
    ∀ out ∈ (Collector.run piece stamp (received sent.flatten) c).2, ∃ g ∈ groups, g.Hands out := by
  induction hsent generalizing c with
  | nil => exact nofun
  | @cons g group groups sent hone _ ih =>
      obtain ⟨hlater, hpairwise⟩ := pairwise_cons.mp htolerable.closed
      have hrest : ∀ {c : Collector α τ},
          c.held = [] ∨ (∀ group ∈ sent, ¬ Closed (fun b => (piece b).ends) group) →
          ∀ out ∈ (Collector.run piece stamp (received sent.flatten) c).2,
            ∃ g' ∈ g :: groups, g'.Hands out := by
        intro c hc out hout
        obtain ⟨g', hg', hhands⟩ := ih ⟨fun other hother =>
          htolerable.whole other (mem_cons_of_mem group hother), hpairwise⟩ hc out hout
        exact ⟨g', mem_cons_of_mem g hg', hhands⟩
      intro out hout
      rw [flatten_cons, received_append, run_append] at hout
      by_cases hclosed : Closed (fun b => (piece b).ends) group
      · have hheld := hc.resolve_right fun hopen => hopen group mem_cons_self hclosed
        have hpieces := hone.pieces
        rw [map_map] at hpieces
        obtain ⟨units, hne, hsub, hunits⟩ := exists_units_of_received hpieces
          (htolerable.whole group mem_cons_self hclosed) hclosed
        rw [hone.run (fun b hb => mem_map.mpr ⟨_, mem_of_mem_received hb, rfl⟩) hne hunits
          hheld] at hout
        rcases mem_cons.mp hout with rfl | hout
        · exact ⟨g, mem_cons_self, units, hne, hsub, rfl⟩
        · exact hrest (.inl rfl) out hout
      · have hopen : ∀ b ∈ received group, (piece b).ends = false := fun b hb =>
          (Bool.not_eq_true _).mp fun hends =>
            hclosed ⟨(b, true), mem_of_mem_received hb, rfl, hends⟩
        rw [run_open hopen] at hout
        refine hrest ?_ out hout
        by_cases hnone : ∀ entry ∈ group, entry.2 = false
        · rw [received_of_none hnone]
          exact hc.imp_right fun hopen other hother => hopen other (mem_cons_of_mem group hother)
        · exact .inr fun later hmem hend => (hlater later hmem hend).elim hclosed hnone

/-- **Without loss every group is handed over as a whole.** -/
theorem Collector.run_all {sent : List (List β)}
    (hsent : List.Forall₂ (Batch.Sent piece stamp) groups sent) {c : Collector α τ}
    (hc : c.held = []) :
    (Collector.run piece stamp sent.flatten c).2 =
      groups.map fun g => (groupContent g.units, g.stamp) := by
  induction hsent generalizing c with
  | nil => rfl
  | @cons g group groups sent hone _ ih =>
      rw [flatten_cons, run_append, hone.run (fun _ hb => hb) hone.units_ne hone.pieces hc,
        ih rfl]
      rfl

end Handed

end Zstreamer.Foundation

/-
# Putting units together again

Units are cut into pieces, the pieces of the units of a group are sent one after the
other, and a receiver puts the groups together again.  A piece says whether it begins a
unit and whether it ends a group; pieces are numbered, and they may be lost, doubled or
come in any order.

The receiver throws away what it holds when a number is not the one that it expects, and
then waits for the beginning of a unit.  So all that it ever hands over is the end of a
group, from the beginning of a unit on, and it says so when this may not be all of it.
-/

import Mathlib.Data.List.Basic
import Mathlib.Data.List.Infix

namespace Zstreamer.Foundation

open List Option

variable {α : Type*}

/-- The last one is flagged. -/
def flagLast {β : Type*} : List β → List (β × Bool)
  | [] => []
  | [b] => [(b, true)]
  | b :: c :: rest => (b, false) :: flagLast (c :: rest)

theorem mem_of_mem_flagLast {β : Type*} {l : List β} {entry : β × Bool}
    (hentry : entry ∈ flagLast l) : entry.1 ∈ l := by
  induction l using flagLast.induct with
  | case1 => cases hentry
  | case2 b =>
      obtain rfl := mem_singleton.mp hentry
      exact mem_cons_self
  | case3 b c rest ih =>
      rcases mem_cons.mp hentry with rfl | hrest
      · exact mem_cons_self
      · exact mem_cons_of_mem b (ih hrest)

theorem map_fst_flagLast {β : Type*} (l : List β) : (flagLast l).map Prod.fst = l := by
  induction l using flagLast.induct with
  | case1 => rfl
  | case2 a => rfl
  | case3 a b rest ih => exact congrArg (a :: ·) ih

theorem flagLast_cons {β : Type*} (b : β) {rest : List β} (hrest : rest ≠ []) :
    flagLast (b :: rest) = (b, false) :: flagLast rest := by
  cases rest with
  | nil => exact absurd rfl hrest
  | cons c rest => rfl

/-! ## Pieces -/

/-- A piece of a unit. -/
structure Piece (α : Type*) where
  /-- It is the first piece of its unit. -/
  starts : Bool
  /-- It is the last piece of its group. -/
  ends : Bool
  content : List α
  deriving DecidableEq, Repr

/-- A unit that is cut into pieces, of which there is one at least. -/
structure Cut (α : Type*) where
  first : List α
  others : List (List α)

namespace Cut

/-- The unit. -/
def content (u : Cut α) : List α := u.first ++ u.others.flatten

/-- The pieces of a unit, which is the last one of its group or not. -/
def pieces (u : Cut α) (last : Bool) : List (Piece α) :=
  ⟨true, last && u.others.isEmpty, u.first⟩ ::
    (flagLast u.others).map fun entry => ⟨false, last && entry.2, entry.1⟩

end Cut

/-- The pieces of a group of units. -/
def groupPieces (units : List (Cut α)) : List (Piece α) :=
  (flagLast units).flatMap fun entry => entry.1.pieces entry.2

/-- What a group is put together to. -/
def groupContent (units : List (Cut α)) : List α := units.flatMap Cut.content

/-- The pieces of all groups. -/
def stream (groups : List (List (Cut α))) : List (Piece α) := groups.flatMap groupPieces

/-- The pieces of units that others of their group follow. -/
def leadPieces (units : List (Cut α)) : List (Piece α) := units.flatMap fun u => u.pieces false

/-- The last one ends, and no other one does. -/
inductive Ending {β : Type*} (ends : β → Bool) : List β → Prop
  | last {b : β} (hends : ends b = true) : Ending ends [b]
  | more {b : β} {rest : List β} (hends : ends b = false) (hrest : Ending ends rest) :
      Ending ends (b :: rest)

theorem Ending.append_of_not_ends {β : Type*} {ends : β → Bool} {front rest : List β}
    (hfront : ∀ b ∈ front, ends b = false) (hrest : Ending ends rest) :
    Ending ends (front ++ rest) := by
  induction front with
  | nil => exact hrest
  | cons b front ih =>
      exact .more (hfront b mem_cons_self) (ih fun c hc => hfront c (mem_cons_of_mem b hc))

theorem Ending.ne_nil {β : Type*} {ends : β → Bool} {l : List β} (h : Ending ends l) : l ≠ [] := by
  cases h with
  | last => exact cons_ne_nil _ _
  | more => exact cons_ne_nil _ _

theorem Ending.of_append {β : Type*} {ends : β → Bool} {done rest : List β}
    (h : Ending ends (done ++ rest)) (hrest : rest ≠ []) : Ending ends rest := by
  induction done with
  | nil => exact h
  | cons b done ih =>
      obtain ⟨all, hall⟩ : ∃ all, all = done ++ rest := ⟨_, rfl⟩
      rw [cons_append, ← hall] at h
      cases h with
      | last hends => exact absurd (append_eq_nil_iff.mp hall.symm).2 hrest
      | more hends hmore => exact ih (hall ▸ hmore)

theorem Ending.of_map {β γ : Type*} {f : β → γ} {ends : γ → Bool} {l : List β} (h : Ending ends (l.map f)) :
    Ending (fun b => ends (f b)) l := by
  induction l with
  | nil => exact absurd rfl h.ne_nil
  | cons b rest ih =>
      cases rest with
      | nil =>
          cases h with
          | last hends => exact .last hends
          | more _ hmore => exact absurd rfl hmore.ne_nil
      | cons next rest =>
          cases h with
          | more hends hmore => exact .more hends (ih hmore)

/-- Two lists with the same flags end together. -/
theorem Ending.of_map_eq {β γ : Type*} {f : β → Bool} {g : γ → Bool} {l : List β} {m : List γ}
    (h : Ending f l) (hsame : m.map g = l.map f) : Ending g m := by
  induction h generalizing m with
  | last hends =>
      obtain ⟨c, rfl, hc⟩ := map_eq_singleton_iff.mp hsame
      exact .last (hc.trans hends)
  | more hends _ ih =>
      obtain ⟨c, rest, rfl, hc, hrest⟩ := map_eq_cons_iff.mp hsame
      exact .more (hc.trans hends) (ih hrest)

/-- The last one is flagged. -/
theorem Ending.of_getLast {β : Type*} {ends : β → Bool} {l : List β} (h : Ending ends l) :
    ∀ b ∈ l.getLast?, ends b = true := by
  induction h with
  | last hends =>
      intro c hc
      cases hc
      exact hends
  | @more b rest _ hrest ih =>
      obtain ⟨c, more, rfl⟩ := exists_cons_of_ne_nil hrest.ne_nil
      rw [getLast?_cons_cons]
      exact ih

section Pieces

variable {units lead : List (Cut α)} {u : Cut α}

theorem groupPieces_cons (u : Cut α) (hunits : units ≠ []) :
    groupPieces (u :: units) = u.pieces false ++ groupPieces units := by
  rw [groupPieces, flagLast_cons u hunits]
  rfl

theorem groupPieces_append (lead : List (Cut α)) (hunits : units ≠ []) :
    groupPieces (lead ++ units) = leadPieces lead ++ groupPieces units := by
  induction lead with
  | nil => rfl
  | cons u lead ih =>
      have hne : lead ++ units ≠ [] := append_ne_nil_of_right_ne_nil lead hunits
      rw [cons_append, groupPieces_cons u hne, ih, ← append_assoc]
      rfl

theorem content_flagLast {parts : List (List α)} (last : Bool) :
    ((flagLast parts).map fun entry => (⟨false, last && entry.2, entry.1⟩ : Piece α)).flatMap
      Piece.content = parts.flatten := by
  induction parts using flagLast.induct with
  | case1 => rfl
  | case2 part => rfl
  | case3 part next rest ih => exact congrArg (part ++ ·) ih

/-- The contents of the pieces make up the unit. -/
theorem Cut.flatMap_pieces (u : Cut α) (last : Bool) :
    (u.pieces last).flatMap Piece.content = u.content := by
  rw [Cut.pieces, flatMap_cons, content_flagLast]
  rfl

/-- The contents of the pieces make up the group. -/
theorem flatMap_groupPieces (units : List (Cut α)) :
    (groupPieces units).flatMap Piece.content = groupContent units := by
  induction units using flagLast.induct with
  | case1 => rfl
  | case2 u =>
      have hsingle : groupPieces [u] = u.pieces true := append_nil _
      rw [hsingle, u.flatMap_pieces]
      exact (append_nil _).symm
  | case3 u v rest ih =>
      rw [groupPieces_cons u (cons_ne_nil v rest), flatMap_append, u.flatMap_pieces, ih]
      rfl

theorem Cut.not_ends (u : Cut α) : ∀ p ∈ u.pieces false, p.ends = false := by
  intro p hp
  rcases mem_cons.mp hp with rfl | hp
  · rfl
  · obtain ⟨entry, -, rfl⟩ := mem_map.mp hp
    rfl

theorem ending_flagLast {parts : List (List α)} (hparts : parts ≠ []) :
    Ending Piece.ends ((flagLast parts).map fun entry => (⟨false, entry.2, entry.1⟩ : Piece α)) := by
  induction parts using flagLast.induct with
  | case1 => exact absurd rfl hparts
  | case2 part => exact .last rfl
  | case3 part next rest ih => exact .more rfl (ih (cons_ne_nil next rest))

theorem Cut.ending (u : Cut α) : Ending Piece.ends (u.pieces true) := by
  rw [Cut.pieces]
  cases hothers : u.others with
  | nil => exact .last rfl
  | cons part rest => exact .more rfl (ending_flagLast (cons_ne_nil part rest))

/-- The last piece of a group ends it. -/
theorem ending_groupPieces (hunits : units ≠ []) : Ending Piece.ends (groupPieces units) := by
  induction units using flagLast.induct with
  | case1 => exact absurd rfl hunits
  | case2 u =>
      have hsingle : groupPieces [u] = u.pieces true := append_nil _
      rw [hsingle]
      exact u.ending
  | case3 u v rest ih =>
      rw [groupPieces_cons u (cons_ne_nil v rest)]
      exact (ih (cons_ne_nil v rest)).append_of_not_ends u.not_ends

/-- The first piece of a group begins a unit. -/
theorem starts_of_groupPieces {p : Piece α} {rest : List (Piece α)}
    (hpieces : groupPieces units = p :: rest) : p.starts = true := by
  cases units with
  | nil => cases hpieces
  | cons u units =>
      cases units with
      | nil =>
          obtain ⟨rfl, -⟩ := List.cons.inj hpieces
          rfl
      | cons v rest =>
          rw [groupPieces_cons u (cons_ne_nil v rest)] at hpieces
          obtain ⟨rfl, -⟩ := List.cons.inj hpieces
          rfl

/-- No piece but the first one begins a unit. -/
theorem Cut.nil_of_starts {last : Bool} {done rest : List (Piece α)} {p : Piece α}
    (hpieces : u.pieces last = done ++ p :: rest) (hstarts : p.starts = true) : done = [] := by
  cases done with
  | nil => rfl
  | cons q done =>
      have htail : ((flagLast u.others).map fun entry =>
          (⟨false, last && entry.2, entry.1⟩ : Piece α)) = done ++ p :: rest :=
        (List.cons.inj hpieces).2
      have hmem : p ∈ done ++ p :: rest := mem_append_right done mem_cons_self
      rw [← htail] at hmem
      obtain ⟨entry, -, rfl⟩ := mem_map.mp hmem
      cases hstarts

/-- A piece that begins a unit is the first one of what is left of its group. -/
theorem split_of_starts {done rest : List (Piece α)} {p : Piece α}
    (hpieces : groupPieces units = done ++ p :: rest) (hstarts : p.starts = true) :
    ∃ lead left, units = lead ++ left ∧ done = leadPieces lead ∧ groupPieces left = p :: rest := by
  induction units using flagLast.induct generalizing done with
  | case1 =>
      exact absurd (append_eq_nil_iff.mp hpieces.symm).2 (cons_ne_nil p rest)
  | case2 u =>
      have hsingle : groupPieces [u] = u.pieces true := append_nil _
      obtain rfl := Cut.nil_of_starts (hsingle.symm.trans hpieces) hstarts
      exact ⟨[], [u], rfl, rfl, hpieces⟩
  | case3 u v others ih =>
      rw [groupPieces_cons u (cons_ne_nil v others)] at hpieces
      rcases append_eq_append_iff.mp hpieces with ⟨done', rfl, hrest⟩ | ⟨front, hfront, hrest⟩
      · obtain ⟨lead, left, hunits, hdone, hleft⟩ := ih hrest
        refine ⟨u :: lead, left, congrArg (u :: ·) hunits, ?_, hleft⟩
        rw [hdone]
        rfl
      · cases front with
        | nil =>
            rw [append_nil] at hfront
            have hnone : groupPieces (v :: others) = [] ++ p :: rest := hrest.symm
            obtain ⟨lead, left, hunits, hdone, hleft⟩ := ih hnone
            refine ⟨u :: lead, left, congrArg (u :: ·) hunits, ?_, hleft⟩
            rw [← hfront]
            exact (append_nil _).symm.trans (congrArg (u.pieces false ++ ·) hdone)
        | cons q front =>
            obtain ⟨rfl, hrest⟩ := List.cons.inj hrest
            obtain rfl := Cut.nil_of_starts hfront hstarts
            refine ⟨[], u :: v :: others, rfl, rfl, ?_⟩
            rw [groupPieces_cons u (cons_ne_nil v others), hfront, hrest]
            rfl

end Pieces

/-! ## The receiver -/

/-- A receiver. -/
structure Assembler (α : Type*) where
  /-- The number of the next piece, once there was one. -/
  expected : Option ℕ
  /-- What it has of a group. -/
  held : Option (List α)
  /-- There was a gap since a group was handed over. -/
  gap : Bool

/-- What is handed over. -/
structure Assembled (α : Type*) where
  content : List α
  /-- It may not be all of its group. -/
  partly : Bool
  deriving DecidableEq, Repr

namespace Assembler

/-- The receiver before the first piece. -/
def fresh : Assembler α := ⟨none, none, false⟩

/-- The number of a piece is compared with the one that is expected. -/
def observe (a : Assembler α) (i : ℕ) : Assembler α :=
  match a.expected with
  | none => { a with expected := some (i + 1) }
  | some next => if i = next then { a with expected := some (i + 1) } else ⟨some (i + 1), none, true⟩

/-- What is held with a piece: without the beginning of its unit it is of no use. -/
def extend (a : Assembler α) (p : Piece α) : Option (List α) :=
  if p.starts then some (a.held.getD [] ++ p.content) else a.held.map (· ++ p.content)

/-- A piece is taken, and one that ends a group hands over what is held. -/
def take (a : Assembler α) (p : Piece α) : Assembler α × List (Assembled α) :=
  match a.extend p with
  | none => (a, [])
  | some content =>
      if p.ends then ({ a with held := none, gap := false }, [⟨content, a.gap⟩])
      else ({ a with held := some content }, [])

/-- A piece arrives. -/
def receive (a : Assembler α) (i : ℕ) (p : Piece α) : Assembler α × List (Assembled α) :=
  (a.observe i).take p

/-- Pieces arrive. -/
def run : List (ℕ × Piece α) → Assembler α → Assembler α × List (Assembled α)
  | [], a => (a, [])
  | (i, p) :: arrivals, a =>
      let one := a.receive i p
      let rest := run arrivals one.1
      (rest.1, one.2 ++ rest.2)

end Assembler

/-! ## Where a receiver is -/

/-- A place inside a group: some units lead, and of the pieces of the others some are done. -/
structure Place (groups : List (List (Cut α))) where
  before : List (List (Cut α))
  lead : List (Cut α)
  units : List (Cut α)
  after : List (List (Cut α))
  done : List (Piece α)
  rest : List (Piece α)
  groups_eq : groups = before ++ (lead ++ units) :: after
  pieces_eq : groupPieces units = done ++ rest
  rest_ne : rest ≠ []

/-- Between two groups. -/
def Boundary (groups : List (List (Cut α))) (i : ℕ) : Prop :=
  ∃ before after, groups = before ++ after ∧ i = (stream before).length

namespace Place

variable {groups : List (List (Cut α))}

/-- The number of the next piece. -/
def next (place : Place groups) : ℕ :=
  (stream place.before).length + (leadPieces place.lead).length + place.done.length

/-- What is put together so far. -/
def content (place : Place groups) : List α := place.done.flatMap Piece.content

theorem units_ne (place : Place groups) : place.units ≠ [] := by
  intro hunits
  have hpieces := place.pieces_eq
  rw [hunits] at hpieces
  exact place.rest_ne (append_eq_nil_iff.mp hpieces.symm).2

theorem group_mem (place : Place groups) : place.lead ++ place.units ∈ groups :=
  (congrArg (place.lead ++ place.units ∈ ·) place.groups_eq).mpr
    (mem_append_right _ mem_cons_self)

theorem stream_eq (place : Place groups) :
    stream groups = (stream place.before ++ leadPieces place.lead ++ place.done) ++
      (place.rest ++ stream place.after) := by
  refine (congrArg stream place.groups_eq).trans ?_
  rw [stream, flatMap_append, flatMap_cons,
    groupPieces_append place.lead place.units_ne, place.pieces_eq]
  simp only [stream, append_assoc]

/-- The piece with the next number is the first one of the rest. -/
theorem getElem?_next (place : Place groups) : (stream groups)[place.next]? = place.rest.head? := by
  have hlength : place.next = (stream place.before ++ leadPieces place.lead ++ place.done).length := by
    rw [next, length_append, length_append]
  rw [place.stream_eq, hlength, getElem?_append_right le_rfl, Nat.sub_self]
  cases hrest : place.rest with
  | nil => exact absurd hrest place.rest_ne
  | cons p rest => rfl

theorem ending (place : Place groups) : Ending Piece.ends place.rest :=
  (place.pieces_eq ▸ ending_groupPieces place.units_ne).of_append place.rest_ne

/-- With the last piece of its group, the group ends. -/
theorem content_of_last {p : Piece α} (place : Place groups) (hrest : place.rest = [p]) :
    p.ends = true ∧ place.content ++ p.content = groupContent place.units ∧
      Boundary groups (place.next + 1) := by
  refine ⟨?_, ?_, place.before ++ [place.lead ++ place.units], place.after, ?_, ?_⟩
  · have hending := place.ending
    rw [hrest] at hending
    cases hending with
    | last hends => exact hends
    | more _ hmore => exact absurd rfl hmore.ne_nil
  · rw [← flatMap_groupPieces, place.pieces_eq, hrest, flatMap_append, flatMap_singleton]
    rfl
  · rw [append_assoc]
    exact place.groups_eq
  · have hgroup : stream [place.lead ++ place.units] = leadPieces place.lead ++ (place.done ++ [p]) := by
      rw [stream, flatMap_singleton, groupPieces_append place.lead place.units_ne,
        place.pieces_eq, hrest]
    have hsplit : stream (place.before ++ [place.lead ++ place.units]) =
        stream place.before ++ stream [place.lead ++ place.units] := flatMap_append
    rw [hsplit, hgroup, next]
    simp only [length_append, length_singleton]
    omega

/-- With any other piece, the next one is of the same group. -/
theorem exists_advance {p q : Piece α} {rest : List (Piece α)} (place : Place groups)
    (hrest : place.rest = p :: q :: rest) :
    p.ends = false ∧ ∃ place' : Place groups, place'.next = place.next + 1 ∧
      place'.content = place.content ++ p.content ∧ place'.lead = place.lead := by
  refine ⟨?_, ⟨place.before, place.lead, place.units, place.after, place.done ++ [p], q :: rest,
    place.groups_eq, ?_, cons_ne_nil q rest⟩, ?_, ?_, rfl⟩
  · have hending := place.ending
    rw [hrest] at hending
    cases hending with
    | more hends _ => exact hends
  · rw [place.pieces_eq, hrest, append_assoc]
    rfl
  · rw [next, next]
    dsimp only
    rw [length_append, length_singleton, ← Nat.add_assoc]
  · rw [content, content, flatMap_append, flatMap_singleton]

/-- A group that begins with the piece. -/
theorem exists_of_boundary {i : ℕ} {p : Piece α} (hboundary : Boundary groups i)
    (hpiece : (stream groups)[i]? = some p) :
    p.starts = true ∧ ∃ place : Place groups, place.next = i ∧ place.content = [] ∧
      place.lead = [] := by
  obtain ⟨before, after, rfl, rfl⟩ := hboundary
  have hsplit : stream (before ++ after) = stream before ++ stream after := flatMap_append
  rw [hsplit, getElem?_append_right le_rfl, Nat.sub_self] at hpiece
  clear hsplit
  induction after generalizing before with
  | nil => cases hpiece
  | cons g after ih =>
      cases hg : groupPieces g with
      | nil =>
          have hempty : stream (before ++ [g]) = stream before := by
            rw [stream, flatMap_append, flatMap_singleton, hg, append_nil]
            rfl
          have hskip : stream (g :: after) = stream after := by
            rw [stream, flatMap_cons, hg]
            rfl
          have := ih (before ++ [g]) (hskip ▸ hpiece)
          rw [hempty, append_assoc] at this
          exact this
      | cons q rest =>
          have hfirst : stream (g :: after) = q :: (rest ++ stream after) := by
            rw [stream, flatMap_cons, hg]
            rfl
          rw [hfirst] at hpiece
          obtain rfl := Option.some.inj hpiece
          exact ⟨starts_of_groupPieces hg,
            ⟨before, [], g, after, [], q :: rest, rfl, hg, cons_ne_nil q rest⟩,
            by simp [next, leadPieces], rfl, rfl⟩

/-- A piece is a piece of some group. -/
theorem exists_group {groups : List (List (Cut α))} {front back : List (Piece α)} {p : Piece α}
    (hstream : stream groups = front ++ p :: back) :
    ∃ before g after done rest, groups = before ++ g :: after ∧ front = stream before ++ done ∧
      groupPieces g = done ++ p :: rest := by
  induction groups generalizing front with
  | nil => exact absurd (append_eq_nil_iff.mp hstream.symm).2 (cons_ne_nil p back)
  | cons g groups ih =>
      have hcons : stream (g :: groups) = groupPieces g ++ stream groups := flatMap_cons
      have hlater : ∀ front', front = groupPieces g ++ front' → stream groups = front' ++ p :: back →
          ∃ before g' after done rest, g :: groups = before ++ g' :: after ∧
            front = stream before ++ done ∧ groupPieces g' = done ++ p :: rest := by
        rintro front' rfl hrest
        obtain ⟨before, g', after, done, rest, rfl, rfl, hg'⟩ := ih hrest
        refine ⟨g :: before, g', after, done, rest, rfl, ?_, hg'⟩
        rw [stream, stream, flatMap_cons, append_assoc]
      rw [hcons] at hstream
      rcases append_eq_append_iff.mp hstream with ⟨front', hfront, hrest⟩ | ⟨part, hg, hrest⟩
      · exact hlater front' hfront hrest
      · cases part with
        | nil =>
            rw [append_nil] at hg
            exact hlater [] (by rw [hg, append_nil]) hrest.symm
        | cons q part =>
            obtain ⟨rfl, -⟩ := List.cons.inj hrest
            exact ⟨[], g, groups, front, part, rfl, rfl, hg⟩

/-- A piece that begins a unit is the first one of some place. -/
theorem exists_of_starts {i : ℕ} {p : Piece α} (hpiece : (stream groups)[i]? = some p)
    (hstarts : p.starts = true) :
    ∃ place : Place groups, place.next = i ∧ place.content = [] := by
  obtain ⟨front, back, hstream, rfl⟩ : ∃ front back, stream groups = front ++ p :: back ∧
      i = front.length := by
    obtain ⟨hi, rfl⟩ := List.getElem?_eq_some_iff.mp hpiece
    exact ⟨(stream groups).take i, (stream groups).drop (i + 1),
      by rw [← drop_eq_getElem_cons, take_append_drop],
      by rw [length_take, Nat.min_eq_left hi.le]⟩
  obtain ⟨before, g, after, done, rest, hgroups, hfront, hg⟩ := exists_group hstream
  obtain ⟨lead, left, rfl, rfl, hleft⟩ := split_of_starts hg hstarts
  refine ⟨⟨before, lead, left, after, [], p :: rest, hgroups, hleft, cons_ne_nil p rest⟩,
    ?_, rfl⟩
  rw [hfront, length_append]
  rfl

end Place

/-! ## What is handed over -/

namespace Assembler

variable {groups : List (List (Cut α))} {a : Assembler α}

/-- What is held is of one group, from the beginning of a unit on; and a receiver that holds
nothing and knows of no gap is between two groups. -/
structure Sound (groups : List (List (Cut α))) (a : Assembler α) : Prop where
  held : ∀ content, a.held = some content → ∃ place : Place groups,
    a.expected = some place.next ∧ place.content = content ∧ (a.gap = false → place.lead = [])
  idle : a.held = none → a.gap = false → ∀ i, a.expected = some i → Boundary groups i

theorem sound_fresh : Sound groups (fresh : Assembler α) :=
  ⟨fun _ hheld => (nomatch hheld), fun _ _ _ hexpected => (nomatch hexpected)⟩

/-- A receiver that has looked at the number of a piece and is about to take it. -/
structure Ready (groups : List (List (Cut α))) (i : ℕ) (a : Assembler α) : Prop where
  expected : a.expected = some (i + 1)
  held : ∀ content, a.held = some content → ∃ place : Place groups,
    place.next = i ∧ place.content = content ∧ (a.gap = false → place.lead = [])
  idle : a.held = none → a.gap = false → Boundary groups i

theorem Sound.observe (h : a.Sound groups) {i : ℕ}
    (hfirst : a.expected = none → a.gap = false → Boundary groups i) :
    (a.observe i).Ready groups i := by
  rw [Assembler.observe]
  cases hexpected : a.expected with
  | none =>
      refine ⟨rfl, fun content hheld => ?_, fun _ hgap => hfirst hexpected hgap⟩
      obtain ⟨place, hnext, -⟩ := h.held content hheld
      rw [hexpected] at hnext
      cases hnext
  | some next =>
      dsimp only
      split
      case isTrue heq =>
        refine ⟨rfl, fun content hheld => ?_, fun hheld hgap => ?_⟩
        · obtain ⟨place, hnext, hrest⟩ := h.held content hheld
          rw [hexpected] at hnext
          exact ⟨place, (Option.some.inj hnext).symm.trans heq.symm, hrest⟩
        · exact heq ▸ h.idle hheld hgap next hexpected
      case isFalse => exact ⟨rfl, fun _ hheld => (nomatch hheld), fun _ hgap => (nomatch hgap)⟩

/-- With a piece, what is held is of one group. -/
theorem Ready.extend {i : ℕ} {p : Piece α} {content : List α} (h : a.Ready groups i)
    (hpiece : (stream groups)[i]? = some p) (hextend : a.extend p = some content) :
    ∃ place : Place groups, place.next = i ∧ place.content ++ p.content = content ∧
      (a.gap = false → place.lead = []) := by
  cases hheld : a.held with
  | some held =>
      obtain ⟨place, hnext, hcontent, hlead⟩ := h.held held hheld
      refine ⟨place, hnext, ?_, hlead⟩
      rw [Assembler.extend, hheld, getD_some, map_some, ite_self] at hextend
      rw [hcontent]
      exact Option.some.inj hextend
  | none =>
      rw [Assembler.extend, hheld, getD_none, map_none, nil_append] at hextend
      obtain ⟨hstarts, hcontent⟩ := ite_none_right_eq_some.mp hextend
      by_cases hgap : a.gap = false
      · obtain ⟨-, place, hnext, hnil, hlead⟩ :=
          Place.exists_of_boundary (h.idle hheld hgap) hpiece
        refine ⟨place, hnext, ?_, fun _ => hlead⟩
        rw [hnil]
        exact Option.some.inj hcontent
      · obtain ⟨place, hnext, hnil⟩ := Place.exists_of_starts hpiece hstarts
        refine ⟨place, hnext, ?_, fun hno => absurd hno hgap⟩
        rw [hnil]
        exact Option.some.inj hcontent

/-- What may be handed over: the units at the end of a group, and all of them unless it says
otherwise. -/
def Honest (groups : List (List (Cut α))) (out : Assembled α) : Prop :=
  ∃ g ∈ groups, ∃ units, units ≠ [] ∧ units <:+ g ∧ out.content = groupContent units ∧
    (out.partly = false → units = g)

theorem expected_observe (a : Assembler α) (i : ℕ) : (a.observe i).expected = some (i + 1) := by
  rw [Assembler.observe]
  split
  · rfl
  · split <;> rfl

theorem expected_take (a : Assembler α) (p : Piece α) : (a.take p).1.expected = a.expected := by
  rw [Assembler.take]
  split
  · rfl
  · split <;> rfl

/-- Nothing is held behind the end of a group. -/
theorem not_ends_of_held {p : Piece α} (hheld : (a.take p).1.held ≠ none) : p.ends = false := by
  rw [Assembler.take] at hheld
  cases hextend : a.extend p with
  | none =>
      cases hold : a.held with
      | none =>
          rw [hextend] at hheld
          exact absurd hold hheld
      | some content =>
          rw [Assembler.extend, hold, getD_some, map_some, ite_self] at hextend
          cases hextend
  | some content =>
      rw [hextend] at hheld
      by_contra hends
      dsimp only at hheld
      rw [if_pos (Bool.not_eq_false _ |>.mp hends)] at hheld
      exact hheld rfl

theorem Ready.take {i : ℕ} {p : Piece α} (h : a.Ready groups i)
    (hpiece : (stream groups)[i]? = some p) :
    (a.take p).1.Sound groups ∧ ∀ out ∈ (a.take p).2, Honest groups out := by
  rw [Assembler.take]
  cases hextend : a.extend p with
  | none =>
      refine ⟨⟨fun content hheld => ?_, fun hheld hgap j hexpected => ?_⟩, nofun⟩
      · rw [Assembler.extend, hheld, getD_some, map_some, ite_self] at hextend
        cases hextend
      · -- between two groups, every piece begins a unit
        obtain ⟨hstarts, -⟩ := Place.exists_of_boundary (h.idle hheld hgap) hpiece
        rw [Assembler.extend, if_pos hstarts] at hextend
        cases hextend
  | some content =>
      obtain ⟨place, hnext, hcontent, hlead⟩ := h.extend hpiece hextend
      have hhead := place.getElem?_next
      rw [hnext, hpiece] at hhead
      have hexpected : a.expected = some (place.next + 1) := by rw [hnext]; exact h.expected
      cases hrest : place.rest with
      | nil => exact absurd hrest place.rest_ne
      | cons q rest =>
          rw [hrest] at hhead
          cases hhead
          cases rest with
          | nil =>
              obtain ⟨hends, hgroup, hboundary⟩ := place.content_of_last hrest
              dsimp only
              rw [if_pos hends]
              refine ⟨⟨fun _ hheld => (nomatch hheld), fun _ _ j hj => ?_⟩, fun out hout => ?_⟩
              · rw [hexpected] at hj
                exact Option.some.inj hj ▸ hboundary
              · obtain rfl := mem_singleton.mp hout
                refine ⟨place.lead ++ place.units, place.group_mem, place.units, place.units_ne,
                  suffix_append _ _, ?_, fun hwhole => ?_⟩
                · rw [← hcontent]
                  exact hgroup
                · rw [hlead hwhole, nil_append]
          | cons q rest =>
              obtain ⟨hends, place', hnext', hcontent', hlead'⟩ := place.exists_advance hrest
              dsimp only
              rw [if_neg (by rw [hends]; exact Bool.false_ne_true)]
              refine ⟨⟨fun held hheld => ⟨place', ?_, ?_, fun hgap => ?_⟩, nofun⟩, nofun⟩
              · rw [hnext']
                exact hexpected
              · rw [hcontent', hcontent]
                exact Option.some.inj hheld
              · rw [hlead']
                exact hlead hgap

/-- **Whatever arrives, only the ends of groups are handed over, and nothing but whole groups
without saying so**, if the first piece that arrives begins a group. -/
theorem honest_of_run {arrivals : List (ℕ × Piece α)} (h : a.Sound groups)
    (harrivals : ∀ entry ∈ arrivals, (stream groups)[entry.1]? = some entry.2)
    (hfirst : a.expected = none → a.gap = false → ∀ entry ∈ arrivals.head?, Boundary groups entry.1) :
    ∀ out ∈ (run arrivals a).2, Honest groups out := by
  induction arrivals generalizing a with
  | nil => exact nofun
  | cons entry arrivals ih =>
      obtain ⟨i, p⟩ := entry
      have hready := h.observe (i := i) fun hnone hgap => hfirst hnone hgap (i, p) rfl
      obtain ⟨hsound, hout⟩ := hready.take (harrivals (i, p) mem_cons_self)
      intro out hmem
      rcases mem_append.mp hmem with hone | hrest
      · exact hout out hone
      · refine ih hsound (fun entry hentry => harrivals entry (mem_cons_of_mem _ hentry)) ?_
          out hrest
        intro hnone
        rw [expected_take, hready.expected] at hnone
        cases hnone

/-! ## Pieces in order -/

/-- The pieces with their numbers, from one on. -/
def numbered : ℕ → List (Piece α) → List (ℕ × Piece α)
  | _, [] => []
  | i, p :: pieces => (i, p) :: numbered (i + 1) pieces

theorem getElem?_numbered (i : ℕ) (pieces : List (Piece α)) (j : ℕ) :
    (numbered i pieces)[j]? = pieces[j]?.map (i + j, ·) := by
  induction pieces generalizing i j with
  | nil => rfl
  | cons p pieces ih =>
      cases j with
      | zero => rfl
      | succ j =>
          have hindex : i + 1 + j = i + (j + 1) := by omega
          rw [numbered, getElem?_cons_succ, getElem?_cons_succ, ih, hindex]

theorem length_numbered (i : ℕ) (pieces : List (Piece α)) :
    (numbered i pieces).length = pieces.length := by
  induction pieces generalizing i with
  | nil => rfl
  | cons p pieces ih => exact congrArg (· + 1) (ih (i + 1))

theorem numbered_append (i : ℕ) (front back : List (Piece α)) :
    numbered i (front ++ back) = numbered i front ++ numbered (i + front.length) back := by
  induction front generalizing i with
  | nil => rfl
  | cons p front ih =>
      rw [cons_append, numbered, ih, numbered, length_cons, Nat.add_right_comm,
        Nat.add_assoc i]
      rfl

theorem run_append (front back : List (ℕ × Piece α)) (a : Assembler α) :
    run (front ++ back) a =
      ((run back (run front a).1).1, (run front a).2 ++ (run back (run front a).1).2) := by
  induction front generalizing a with
  | nil => rfl
  | cons entry front ih =>
      rw [cons_append, run, ih]
      simp only [run, append_assoc]

/-- The next piece is the expected one, or the first one at all. -/
def Expects (a : Assembler α) (i : ℕ) : Prop := a.expected = none ∨ a.expected = some i

theorem Expects.observe {i : ℕ} (h : a.Expects i) :
    a.observe i = { a with expected := some (i + 1) } := by
  rw [Assembler.observe]
  rcases h with hnone | hsome
  · rw [hnone]
  · rw [hsome]
    exact if_pos rfl

/-- A piece extends what is held, or begins it. -/
theorem extend_eq {p : Piece α} {content : List α}
    (hheld : a.held = some content ∨ (a.held = none ∧ content = [] ∧ p.starts = true)) :
    a.extend p = some (content ++ p.content) := by
  rw [extend]
  rcases hheld with hsome | ⟨hnone, rfl, hstarts⟩
  · rw [hsome, getD_some, map_some, ite_self]
  · rw [hnone, if_pos hstarts, getD_none]

/-- The pieces that are left of a group end it. -/
theorem run_of_ending {pieces : List (Piece α)} (hpieces : Ending Piece.ends pieces) {i : ℕ}
    (hexpects : a.Expects i) {content : List α}
    (hheld : a.held = some content ∨
      (a.held = none ∧ content = [] ∧ ∀ p ∈ pieces.head?, p.starts = true)) :
    run (numbered i pieces) a = (⟨some (i + pieces.length), none, false⟩,
      [⟨content ++ pieces.flatMap Piece.content, a.gap⟩]) := by
  induction hpieces generalizing a i content with
  | @last p hends =>
      have hextend : ({ a with expected := some (i + 1) } : Assembler α).extend p =
          some (content ++ p.content) :=
        extend_eq (hheld.imp_right fun ⟨hnone, hnil, hstarts⟩ => ⟨hnone, hnil, hstarts p rfl⟩)
      simp only [numbered, run, receive, hexpects.observe, take, hextend, hends, if_true,
        append_nil, flatMap_singleton, length_singleton]
  | @more p rest hends hrest ih =>
      have hextend : ({ a with expected := some (i + 1) } : Assembler α).extend p =
          some (content ++ p.content) :=
        extend_eq (hheld.imp_right fun ⟨hnone, hnil, hstarts⟩ => ⟨hnone, hnil, hstarts p rfl⟩)
      have htail := @ih ⟨some (i + 1), some (content ++ p.content), a.gap⟩ (i + 1) (.inr rfl)
        (content ++ p.content) (.inl rfl)
      simp only [numbered, run, receive, hexpects.observe, take, hextend, hends,
        Bool.false_eq_true, if_false, htail, nil_append, flatMap_cons,
        append_assoc, length_cons, Nat.add_assoc, Nat.add_comm 1]

/-- **In order, every group is handed over as a whole.** -/
theorem run_stream (hgroups : ∀ g ∈ groups, g ≠ []) {i : ℕ} (hexpects : a.Expects i)
    (hheld : a.held = none) (hgap : a.gap = false) :
    (run (numbered i (stream groups)) a).2 = groups.map fun g => ⟨groupContent g, false⟩ := by
  induction groups generalizing a i with
  | nil => rfl
  | cons g groups ih =>
      have hstarts : ∀ p ∈ (groupPieces g).head?, p.starts = true := by
        intro p hp
        obtain ⟨rest, hg⟩ := head?_eq_some_iff.mp hp
        exact starts_of_groupPieces hg
      have hcons : stream (g :: groups) = groupPieces g ++ stream groups := flatMap_cons
      rw [hcons, numbered_append, run_append,
        run_of_ending (ending_groupPieces (hgroups g mem_cons_self)) hexpects
          (.inr ⟨hheld, rfl, hstarts⟩),
        ih (fun other hother => hgroups other (mem_cons_of_mem g hother)) (.inr rfl) rfl rfl,
        hgap, flatMap_groupPieces, nil_append]
      rfl

end Assembler

end Zstreamer.Foundation

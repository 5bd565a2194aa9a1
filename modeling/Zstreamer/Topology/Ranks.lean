/-
# The ranks of the elements

`update_ranks_dfs` raises the rank of an element to one that has been found for it and then those
of all it leads to, each from the rank the element has by then.  It marks the elements of the
current path only, so an element that is reached on several paths is raised several times.
`pipeline_recalculate_ranks_locked` sets all ranks to 0 and starts from every element without a
linked sink pad; `zst_pipeline_link_pads_dynamic` starts from the element whose pad has been linked.

Without a cycle both end with the length of the longest path that leads to each element:
`ranks_longest`.
-/

import Mathlib.Logic.Function.Basic
import Zstreamer.Topology.Graph

namespace Zstreamer

open Foundation Relation List Function

/-- The `graph_rank` of the elements, and the places whose flag is set. -/
structure RankState where
  rank : ℕ → ℕ
  visited : List ℕ

namespace Topology

variable (t : Topology)

/-- `if (current_rank > el->graph_rank) el->graph_rank = current_rank`. -/
def raiseRank (el currentRank : ℕ) (rank : ℕ → ℕ) : ℕ → ℕ :=
  if currentRank > rank el then update rank el currentRank else rank

/-- `update_ranks_dfs`, for so many turns at most. -/
def updateRanksDfs : ℕ → ℕ → ℕ → RankState → Option RankState
  | 0, _, _, _ => none
  | turns + 1, el, currentRank, s =>
      match t.elementIndex el with
      | none => some s
      | some idx =>
          let s := { s with rank := raiseRank el currentRank s.rank }
          if idx ∈ s.visited then some s
          else
            ((t.srcPads el).foldlM (fun (s : RankState) pad => match pad with
              | some child => updateRanksDfs turns child ((s.rank el + 1) % 2 ^ 32) s
              | none => some s) { s with visited := idx :: s.visited }).map
              fun (s : RankState) => { s with visited := s.visited.erase idx }

/-- `zst_pipeline_update_ranks_from`. -/
def updateRanksFrom (el : ℕ) (rank : ℕ → ℕ) : Option (ℕ → ℕ) :=
  (t.updateRanksDfs (t.elements.length + 1) el (rank el) ⟨rank, []⟩).map (·.rank)

/-- `pipeline_recalculate_ranks_locked`. -/
def recalculateRanks (rank : ℕ → ℕ) : Option (ℕ → ℕ) :=
  t.elements.foldlM (fun rank el =>
      if (t.sinkPads el).any id then some rank else t.updateRanksFrom el rank)
    (t.elements.foldl (fun rank el => update rank el 0) rank)

/-- `zst_pad_link` of a source pad of one element to a sink pad of another one, where the caps
agree: pads that are linked already are refused. -/
def linkPads (a i b j : ℕ) : Option Topology :=
  if (t.srcPads a)[i]? = some none ∧ (t.sinkPads b)[j]? = some false then
    some { t with
      srcPads := update t.srcPads a ((t.srcPads a).set i (some b))
      sinkPads := update t.sinkPads b ((t.sinkPads b).set j true) }
  else none

/-- `zst_pipeline_link_pads_dynamic` within a transaction, which puts off everything but the link
and the ranks behind it. -/
def linkPadsDynamic (a i b j : ℕ) (rank : ℕ → ℕ) : Option (Topology × (ℕ → ℕ)) :=
  (t.linkPads a i b j).bind fun t => (t.updateRanksFrom a rank).map (t, ·)

/-- All links stay inside of the pipeline. -/
structure LinksInside : Prop where
  src : ∀ x ∈ t.elements, t.children x ⊆ t.elements
  sink : ∀ x ∈ t.elements, true ∈ t.sinkPads x → ∃ p ∈ t.elements, x ∈ t.children p

/-- The length of the longest path of links that ends at an element. -/
abbrev LongestPath (x n : ℕ) : Prop := IsRank t.elements t.children x n

variable {t} {turns u currentRank : ℕ} {s : RankState} {rank : ℕ → ℕ}

/-! ## One search -/

theorem le_raiseRank (x : ℕ) : rank x ≤ raiseRank u currentRank rank x := by
  rw [raiseRank]
  by_cases hmore : currentRank > rank u
  · rw [if_pos hmore, update_apply]
    split
    case isTrue heq => exact heq ▸ Nat.le_of_lt hmore
    case isFalse => exact Nat.le_refl _
  · exact Nat.le_of_eq (congrFun (if_neg hmore) x).symm

theorem currentRank_le_raiseRank : currentRank ≤ raiseRank u currentRank rank u := by
  rw [raiseRank]
  by_cases hmore : currentRank > rank u
  · exact Nat.le_of_eq (by rw [if_pos hmore, update_self])
  · rw [if_neg hmore]
    exact Nat.not_lt.mp hmore

theorem raiseRank_of_ne {x : ℕ} (hne : x ≠ u) : raiseRank u currentRank rank x = rank x := by
  rw [raiseRank]
  split
  · exact update_of_ne hne _ _
  · rfl

theorem attained_raiseRank (hattained : Attained t.elements t.children rank)
    (hwalk : WalkTo t.elements t.children currentRank u) :
    Attained t.elements t.children (raiseRank u currentRank rank) := by
  intro x hx
  rw [raiseRank]
  split
  · by_cases heq : x = u
    · rw [heq, update_self]
      exact hwalk
    · rw [update_of_ne heq]
      exact hattained x hx
  · exact hattained x hx

/-- A path of links is no longer than there are elements, which fits a `uint32_t`. -/
theorem next_rank (hcycle : t.NoCycle) (hattained : Attained t.elements t.children rank)
    (hu : u ∈ t.elements) : (rank u + 1) % 2 ^ 32 = rank u + 1 := by
  have hless := (hattained u hu).lt_length hcycle
  have hfew := t.few
  exact Nat.mod_eq_of_lt (by omega)

/-- What a search from an element does to the ranks; the flags are put back. -/
structure RaisesFrom (t : Topology) (u currentRank : ℕ) (s s' : RankState) : Prop where
  visited : s'.visited = s.visited
  raises : Raises t.elements t.children [u] s.rank s'.rank
  current : u ∈ t.elements → currentRank ≤ s'.rank u

/-- The loop over what an element leads to. -/
theorem foldlM_raises (below : List ℕ) (hcycle : t.NoCycle) (hu : u ∈ t.elements)
    (hbelow : ∀ c ∈ below, c ∈ t.elements → t.Link u c) (hturns : turns ≠ 0)
    (hsearch : ∀ c ∈ below, c ∈ t.elements → ∀ currentRank s₁, s₁.visited = s.visited →
      Attained t.elements t.children s₁.rank → WalkTo t.elements t.children currentRank c →
      ∃ s', t.updateRanksDfs turns c currentRank s₁ = some s' ∧ RaisesFrom t c currentRank s₁ s')
    (hattained : Attained t.elements t.children s.rank) :
    ∃ s', below.foldlM (fun s child =>
        t.updateRanksDfs turns child ((s.rank u + 1) % 2 ^ 32) s) s = some s' ∧
      s'.visited = s.visited ∧ Raises t.elements t.children below s.rank s'.rank ∧
      ∀ c ∈ below, c ∈ t.elements → s.rank u + 1 ≤ s'.rank c := by
  induction below generalizing s with
  | nil => exact ⟨s, rfl, rfl, .nil hattained, nofun⟩
  | cons c below ih =>
      have hfirst : ∃ s₁, t.updateRanksDfs turns c ((s.rank u + 1) % 2 ^ 32) s = some s₁ ∧
          RaisesFrom t c (s.rank u + 1) s s₁ := by
        rw [next_rank hcycle hattained hu]
        by_cases hc : c ∈ t.elements
        · exact hsearch c mem_cons_self hc _ s rfl hattained
            (.step (hattained u hu) (hbelow c mem_cons_self hc))
        · obtain ⟨n, rfl⟩ := Nat.exists_eq_succ_of_ne_zero hturns
          refine ⟨s, ?_, rfl, .outside hattained hc, fun hmem => absurd hmem hc⟩
          rw [updateRanksDfs, elementIndex_of_notMem hc]
      obtain ⟨s₁, hone, hraises⟩ := hfirst
      have hsame : s₁.rank u = s.rank u := by
        refine hraises.raises.frame u fun r hr hnode hreach => ?_
        obtain rfl := mem_singleton.mp hr
        exact hcycle u (TransGen.head' (hbelow r mem_cons_self hnode) hreach)
      obtain ⟨s', hrest, hvisited, hrest', hreached⟩ :=
        ih (s := s₁) (fun c hc => hbelow c (mem_cons_of_mem _ hc))
          (fun c hc hnode cur s₂ hsame => hsearch c (mem_cons_of_mem _ hc) hnode cur s₂
            (hsame.trans hraises.visited)) hraises.raises.attained
      refine ⟨s', ?_, hvisited.trans hraises.visited, hraises.raises.append hrest', ?_⟩
      · rw [foldlM_cons, hone]
        exact hrest
      · intro d hd hnode
        rcases mem_cons.mp hd with rfl | hd
        · exact Nat.le_trans (hraises.current hnode) (hrest'.le d)
        · exact hsame ▸ hreached d hd hnode

/-- **One search raises the ranks of all that an element leads to.**  The marked elements lead to
it, so without a cycle it is not marked. -/
theorem updateRanksDfs_raises (marked : List ℕ) (turns : ℕ) (hcycle : t.NoCycle) (hu : u ∈ t.elements)
    (hvisited : s.visited = marked.map t.elements.idxOf) (hmarked : marked ⊆ t.elements)
    (hnodup : marked.Nodup) (hpath : ∀ g ∈ marked, TransGen t.Link g u)
    (hturns : t.elements.length < marked.length + turns)
    (hattained : Attained t.elements t.children s.rank)
    (hwalk : WalkTo t.elements t.children currentRank u) :
    ∃ s', t.updateRanksDfs turns u currentRank s = some s' ∧ RaisesFrom t u currentRank s s' := by
  induction turns generalizing u currentRank s marked with
  | zero =>
      have hle := (hnodup.subperm hmarked).length_le
      omega
  | succ turns ih =>
      have hfresh : u ∉ marked := fun hmem => hcycle u (hpath u hmem)
      have hroom := ((nodup_cons.mpr ⟨hfresh, hnodup⟩).subperm
        (cons_subset.mpr ⟨hu, hmarked⟩)).length_le
      rw [length_cons] at hroom
      have hflag : t.elements.idxOf u ∉ s.visited := by
        rw [hvisited]
        exact mt (idxOf_mem_map hmarked).mp hfresh
      obtain ⟨s', hloop, hvisited', hraises, hreached⟩ := foldlM_raises
        (s := ⟨raiseRank u currentRank s.rank, t.elements.idxOf u :: s.visited⟩)
        (t.children u) hcycle hu (fun c hc hnode => ⟨hu, hc, hnode⟩) (by omega)
        (fun c hc hnode cur s₁ hsame hattained₁ hwalk₁ => ih (u :: marked) hnode
          (by rw [hsame, hvisited]; rfl) (cons_subset.mpr ⟨hu, hmarked⟩)
          (nodup_cons.mpr ⟨hfresh, hnodup⟩)
          (fun g hg => by
            rcases mem_cons.mp hg with rfl | hg
            · exact .single ⟨hu, hc, hnode⟩
            · exact (hpath g hg).tail ⟨hu, hc, hnode⟩)
          (by rw [length_cons]; omega) hattained₁ hwalk₁)
        (attained_raiseRank hattained hwalk)
      refine ⟨⟨s'.rank, s.visited⟩, ?_, rfl, ?_, fun _ => ?_⟩
      · rw [updateRanksDfs, elementIndex_of_mem hu]
        refine (if_neg hflag).trans (Option.map_eq_some_iff.mpr ?_)
        refine ⟨s', (foldlM_srcPads _ _ u).trans hloop, ?_⟩
        rw [hvisited', erase_cons_head]
      · exact .node hcycle hu le_raiseRank (fun y hne => raiseRank_of_ne hne) hraises hreached
      · exact Nat.le_trans currentRank_le_raiseRank (hraises.le u)

/-- `zst_pipeline_update_ranks_from` raises the ranks behind an element. -/
theorem updateRanksFrom_raises (hcycle : t.NoCycle) (hu : u ∈ t.elements)
    (hattained : Attained t.elements t.children rank) :
    ∃ rank', t.updateRanksFrom u rank = some rank' ∧
      Raises t.elements t.children [u] rank rank' := by
  obtain ⟨s', hrun, hraises⟩ := updateRanksDfs_raises (s := ⟨rank, []⟩) []
    (t.elements.length + 1) hcycle hu rfl (nil_subset _) nodup_nil nofun (by simp) hattained (hattained u hu)
  exact ⟨s'.rank, Option.map_eq_some_iff.mpr ⟨s', hrun, rfl⟩, hraises.raises⟩

/-! ## All ranks from scratch -/

theorem foldl_reset (els : List ℕ) (x : ℕ) :
    els.foldl (fun rank el => update rank el 0) rank x = if x ∈ els then 0 else rank x := by
  induction els generalizing rank with
  | nil => rfl
  | cons el els ih =>
      rw [foldl_cons, ih]
      by_cases hin : x ∈ els
      · rw [if_pos hin, if_pos (mem_cons_of_mem el hin)]
      · rw [if_neg hin]
        by_cases heq : x = el
        · rw [heq, update_self, if_pos mem_cons_self]
        · have hout : x ∉ el :: els := fun hmem => (mem_cons.mp hmem).elim heq hin
          rw [update_of_ne heq, if_neg hout]

/-- The loop over the elements raises the ranks behind those without a linked sink pad. -/
theorem foldlM_sources (hcycle : t.NoCycle) {els : List ℕ} (hels : els ⊆ t.elements)
    (hattained : Attained t.elements t.children rank) :
    ∃ rank', els.foldlM (fun rank el =>
        if (t.sinkPads el).any id then some rank else t.updateRanksFrom el rank) rank = some rank' ∧
      Raises t.elements t.children (els.filter fun el => !(t.sinkPads el).any id) rank rank' := by
  induction els generalizing rank with
  | nil => exact ⟨rank, rfl, .nil hattained⟩
  | cons el els ih =>
      obtain ⟨hel, hels⟩ := cons_subset.mp hels
      rw [foldlM_cons, filter_cons]
      by_cases hlinked : (t.sinkPads el).any id = true
      · rw [if_pos hlinked, if_neg (by rw [hlinked]; decide)]
        exact ih hels hattained
      · obtain ⟨rank₁, hone, hraises⟩ := updateRanksFrom_raises hcycle hel hattained
        obtain ⟨rank', hrest, hraises'⟩ := ih hels hraises.attained
        have hsource : (!(t.sinkPads el).any id) = true := by
          rw [(Bool.not_eq_true _).mp hlinked]
          rfl
        rw [if_neg hlinked, hone, if_pos hsource]
        exact ⟨rank', hrest, hraises.append hraises'⟩

/-- **The ranks from scratch** are the lengths of the longest paths. -/
theorem recalculateRanks_isRank (hinside : t.LinksInside) (hcycle : t.NoCycle) (rank : ℕ → ℕ) :
    ∃ rank', t.recalculateRanks rank = some rank' ∧
      ∀ x ∈ t.elements, t.LongestPath x (rank' x) := by
  have hreset : Attained t.elements t.children
      (t.elements.foldl (fun rank el => update rank el 0) rank) := by
    intro x hx
    rw [foldl_reset, if_pos hx]
    exact .start hx
  obtain ⟨rank', hrun, hraises⟩ := foldlM_sources hcycle (List.Subset.refl _) hreset
  refine ⟨rank', hrun, fun x hx => isRank_of_grows hraises.attained (fun y z hlink => ?_) hx⟩
  obtain ⟨r, hr, hsource, hreach⟩ := exists_root hcycle
    (fun r => (t.sinkPads r).any id = false) (fun w hw hfed => by
      obtain ⟨linked, hpad, htrue⟩ := any_eq_true.mp (Bool.not_eq_false _ ▸ hfed)
      obtain ⟨p, hp, hchild⟩ := hinside.sink w hw (show true ∈ t.sinkPads w from htrue ▸ hpad)
      exact ⟨p, hp, hchild, hw⟩) hlink.1
  exact hraises.grows r (mem_filter.mpr ⟨hr, by rw [hsource]; rfl⟩) y z hreach hlink

/-! ## The ranks after a link -/

/-- Linking a pad that is not linked adds what it leads to. -/
theorem mem_set_link {pads : List (Option ℕ)} {i b y : ℕ} (hfree : pads[i]? = some none) :
    y ∈ (pads.set i (some b)).reduceOption ↔ y = b ∨ y ∈ pads.reduceOption := by
  rw [reduceOption_mem_iff, reduceOption_mem_iff]
  constructor
  · intro hy
    rcases mem_or_eq_of_mem_set hy with hold | hnew
    · exact .inr hold
    · exact .inl (Option.some.inj hnew)
  · rintro (rfl | hold)
    · exact List.mem_set (List.getElem?_eq_some_iff.mp hfree).1 _
    · obtain ⟨k, hk⟩ := mem_iff_getElem?.mp hold
      have hne : i ≠ k := by
        rintro rfl
        rw [hfree] at hk
        cases hk
      exact mem_iff_getElem?.mpr ⟨k, by rw [getElem?_set_ne hne, hk]⟩

section Link

variable {t' : Topology} {a i b j : ℕ}

/-- What `zst_pad_link` does when it does not refuse. -/
theorem linkPads_eq (hlink : t.linkPads a i b j = some t') :
    (t.srcPads a)[i]? = some none ∧ t'.elements = t.elements ∧
      t'.srcPads = update t.srcPads a ((t.srcPads a).set i (some b)) ∧
      t'.sinkPads = update t.sinkPads b ((t.sinkPads b).set j true) := by
  rw [linkPads] at hlink
  split at hlink
  case isTrue hfree =>
    cases hlink
    exact ⟨hfree.1, rfl, rfl, rfl⟩
  case isFalse => cases hlink

theorem elements_linkPads (hlink : t.linkPads a i b j = some t') : t'.elements = t.elements :=
  (linkPads_eq hlink).2.1

theorem mem_children_linkPads (hlink : t.linkPads a i b j = some t') {x y : ℕ} :
    y ∈ t'.children x ↔ (x = a ∧ y = b) ∨ y ∈ t.children x := by
  obtain ⟨hfree, -, hsrc, -⟩ := linkPads_eq hlink
  rw [children, children, hsrc]
  by_cases heq : x = a
  · rw [heq, update_self, mem_set_link hfree, eq_self_iff_true, true_and]
  · rw [update_of_ne heq]
    exact (or_iff_right fun h => heq h.1).symm

theorem mem_sinkPads_linkPads (hlink : t.linkPads a i b j = some t') {x : ℕ}
    (hx : true ∈ t'.sinkPads x) : x = b ∨ true ∈ t.sinkPads x := by
  obtain ⟨-, -, -, hsink⟩ := linkPads_eq hlink
  rw [hsink] at hx
  by_cases heq : x = b
  · exact .inl heq
  · exact .inr (by rwa [update_of_ne heq] at hx)

/-- A link between elements of the pipeline stays inside. -/
theorem LinksInside.linkPads (hinside : t.LinksInside) (ha : a ∈ t.elements) (hb : b ∈ t.elements)
    (hlink : t.linkPads a i b j = some t') : t'.LinksInside where
  src x hx y hy := by
    rw [elements_linkPads hlink] at hx ⊢
    rcases (mem_children_linkPads hlink).mp hy with ⟨-, rfl⟩ | hold
    · exact hb
    · exact hinside.src x hx hold
  sink x hx hpad := by
    rw [elements_linkPads hlink] at hx ⊢
    rcases mem_sinkPads_linkPads hlink hpad with rfl | hold
    · exact ⟨a, ha, (mem_children_linkPads hlink).mpr (.inl ⟨rfl, rfl⟩)⟩
    · obtain ⟨p, hp, hchild⟩ := hinside.sink x hx hold
      exact ⟨p, hp, (mem_children_linkPads hlink).mpr (.inr hchild)⟩

/-- **The ranks behind a link suffice**: every other link is an old one, along which the ranks have
grown before, and its near end has not moved. -/
theorem updateRanksFrom_isRank (ha : a ∈ t.elements) (hlink : t.linkPads a i b j = some t')
    (hcycle : t'.NoCycle) (hrank : ∀ x ∈ t.elements, t.LongestPath x (rank x)) :
    ∃ rank', t'.updateRanksFrom a rank = some rank' ∧
      ∀ x ∈ t'.elements, t'.LongestPath x (rank' x) := by
  have hsame := elements_linkPads hlink
  have hold : ∀ x y, t.Link x y → t'.Link x y := by
    rintro x y ⟨hx, hchild, hy⟩
    exact ⟨hsame ▸ hx, (mem_children_linkPads hlink).mpr (.inr hchild), hsame ▸ hy⟩
  have hattained : Attained t'.elements t'.children rank := by
    intro x hx
    have hwalk : WalkTo t'.elements t.children (rank x) x := by
      rw [hsame]
      exact (hrank x (hsame ▸ hx)).1
    refine hwalk.mono fun y z hyz => ?_
    rw [hsame] at hyz
    exact hold y z hyz
  obtain ⟨rank', hrun, hraises⟩ := updateRanksFrom_raises hcycle (hsame ▸ ha) hattained
  refine ⟨rank', hrun, fun x hx => isRank_of_grows hraises.attained (fun y z hyz => ?_) hx⟩
  by_cases hreach : ReflTransGen t'.Link a y
  · exact hraises.grows a mem_cons_self y z hreach hyz
  · have hne : y ≠ a := fun heq => hreach (heq ▸ .refl)
    have hchild : z ∈ t.children y :=
      ((mem_children_linkPads hlink).mp hyz.2.1).resolve_left fun h => hne h.1
    have hoften : t.Link y z := ⟨hsame ▸ hyz.1, hchild, hsame ▸ hyz.2.2⟩
    have hgrown : rank y + 1 ≤ rank z :=
      (hrank z hoften.2.2).2 _ (.step (hrank y hoften.1).1 hoften)
    rw [hraises.frame y fun r hr _ => by rwa [mem_singleton.mp hr]]
    exact Nat.le_trans hgrown (hraises.le z)

end Link

/-- **The ranks are the lengths of the longest paths**, from scratch and after a link. -/
theorem ranks_longest (t : Topology) (hinside : t.LinksInside) (rank : ℕ → ℕ) :
    (t.NoCycle → ∃ scratch, t.recalculateRanks rank = some scratch ∧
      ∀ x ∈ t.elements, t.LongestPath x (scratch x)) ∧
    ∀ a ∈ t.elements, ∀ b ∈ t.elements, ∀ i j t', t.linkPads a i b j = some t' → t'.NoCycle →
      (∀ x ∈ t.elements, t.LongestPath x (rank x)) →
      ∃ updated scratch, t.linkPadsDynamic a i b j rank = some (t', updated) ∧
        t'.recalculateRanks rank = some scratch ∧ ∀ x ∈ t'.elements, updated x = scratch x := by
  refine ⟨fun hcycle => recalculateRanks_isRank hinside hcycle rank, ?_⟩
  intro a ha b hb i j t' hlink hcycle hrank
  obtain ⟨updated, hupdate, hupdated⟩ := updateRanksFrom_isRank ha hlink hcycle hrank
  obtain ⟨scratch, hscratch, hlongest⟩ :=
    recalculateRanks_isRank (hinside.linkPads ha hb hlink) hcycle rank
  refine ⟨updated, scratch, ?_, hscratch, fun x hx => (hupdated x hx).unique (hlongest x hx)⟩
  rw [linkPadsDynamic, hlink, Option.bind_some, hupdate]
  rfl

/-- A source and a sink that are not linked yet. -/
def apart : Topology :=
  ⟨[0, 1], fun x => if x = 0 then [none] else [], fun x => if x = 1 then [false] else [], by decide⟩

/-- The source and the sink are linked: both ways lead to the same ranks. -/
theorem ranks_longest_apart :
    ∃ t', apart.linkPads 0 0 1 0 = some t' ∧ ∃ updated scratch,
      apart.linkPadsDynamic 0 0 1 0 (fun _ => 0) = some (t', updated) ∧
      t'.recalculateRanks (fun _ => 0) = some scratch ∧ ∀ x ∈ t'.elements, updated x = scratch x := by
  have hnone : ∀ x, apart.children x = [] := by
    intro x
    by_cases hx : x = 0
    · rw [hx]
      rfl
    · simp [children, apart, hx]
  have hinside : apart.LinksInside := by
    refine ⟨fun x _ y hy => ?_, fun x _ hpad => ?_⟩
    · rw [hnone x] at hy
      cases hy
    · have hpads : apart.sinkPads x = if x = 1 then [false] else [] := rfl
      rw [hpads] at hpad
      split at hpad <;> simp at hpad
  obtain ⟨t', hlink⟩ : ∃ t', apart.linkPads 0 0 1 0 = some t' := ⟨_, if_pos ⟨rfl, rfl⟩⟩
  have hforwards : ∀ x y, Relation.TransGen t'.Link x y → x < y := by
    intro x y hpath
    have hone : ∀ x y, t'.Link x y → x = 0 ∧ y = 1 := by
      rintro x y ⟨-, hchild, -⟩
      rcases (mem_children_linkPads hlink).mp hchild with hnew | hold
      · exact hnew
      · rw [hnone x] at hold
        cases hold
    induction hpath with
    | single hxy =>
        obtain ⟨rfl, rfl⟩ := hone _ _ hxy
        exact Nat.one_pos
    | tail _ hyz ih =>
        obtain ⟨rfl, rfl⟩ := hone _ _ hyz
        exact absurd ih (Nat.not_lt_zero _)
  have hrank : ∀ x ∈ apart.elements, apart.LongestPath x 0 := by
    refine fun x hx => ⟨.start hx, fun m hwalk => ?_⟩
    cases hwalk with
    | start => exact Nat.le_refl _
    | step _ hxy =>
        have hchild := hxy.2.1
        rw [hnone] at hchild
        cases hchild
  exact ⟨t', hlink, (ranks_longest apart hinside fun _ => 0).2 0 (by decide) 1 (by decide) 0 0 t'
    hlink (fun x hpath => Nat.lt_irrefl x (hforwards x x hpath)) hrank⟩

end Topology

end Zstreamer

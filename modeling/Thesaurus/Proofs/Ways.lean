import Mathlib.Data.List.Chain
import Thesaurus.Proofs.Reachability
import Thesaurus.Proofs.WellLinked

/-!
# Ways down a graph

A way begins at a concept without parents, goes down broader links and comes by no concept twice.
The concepts at the ends of ways are those that links lead to from some root; any other concept is
on a cycle or below one. Ways have an order: one comes before its continuations, and of two ways
that part, the one comes first that goes on to the earlier concept.
-/

namespace Thesaurus.ConceptGraph

/-- A way down a graph, by the ids of its concepts from the root on. -/
structure IsWay (graph : ConceptGraph) (way : List ConceptId) : Prop where
  /-- It begins at a concept without parents. -/
  begins : ∃ root ∈ graph.roots, way.head? = some root.id
  /-- Each step goes down a broader link. -/
  goes_down : way.IsChain graph.Narrower
  /-- No concept comes twice. -/
  distinct : way.Nodup

/-- Whether links lead down to a concept from one without parents. -/
def Reached (graph : ConceptGraph) (id : ConceptId) : Prop :=
  ∃ root ∈ graph.roots, Relation.ReflTransGen graph.Narrower root.id id

/-- The concepts that a way may go on to, in order: the children of its last concept, or the roots
where it has none yet. -/
def next (graph : ConceptGraph) : Option ConceptId → List ConceptId
  | none => graph.roots.map Concept.id
  | some id => graph.childrenOf id

/-- Whether one way comes before another: the other continues it, or they part and it goes on to
the earlier concept. -/
def Precedes (graph : ConceptGraph) (first second : List ConceptId) : Prop :=
  (first <+: second ∧ first ≠ second) ∨
    ∃ shared left right, [left, right].Sublist (graph.next shared.getLast?) ∧
      shared ++ [left] <+: first ∧ shared ++ [right] <+: second

variable {graph : ConceptGraph}

section Reached

/-- A beginning of a way is a way. -/
theorem IsWay.of_isPrefix {way short : List ConceptId} (hw : graph.IsWay way) (hp : short <+: way)
    (hne : short ≠ []) : graph.IsWay short where
  begins := by
    obtain ⟨root, mem, hhead⟩ := hw.begins
    obtain ⟨rest, rfl⟩ := hp
    rw [List.head?_append_of_ne_nil _ hne] at hhead
    exact ⟨root, mem, hhead⟩
  goes_down := hw.goes_down.prefix hp
  distinct := hw.distinct.sublist hp.sublist

/-- A way with one more step down, to a concept it has not come by, is a way. -/
theorem IsWay.concat {way : List ConceptId} (hw : graph.IsWay way) {last id : ConceptId}
    (hlast : way.getLast? = some last) (step : graph.Narrower last id) (hnew : id ∉ way) :
    graph.IsWay (way ++ [id]) where
  begins := by
    obtain ⟨root, mem, hhead⟩ := hw.begins
    exact ⟨root, mem, by rw [List.head?_append, hhead, Option.some_or]⟩
  goes_down := by
    refine hw.goes_down.append (List.isChain_singleton id) fun x hx y hy => ?_
    cases hlast.symm.trans hx
    cases hy
    exact step
  distinct := by
    rw [← List.concat_eq_append]
    exact hw.distinct.concat hnew

/-- A way with one more step down was a way before it. -/
theorem IsWay.of_concat {before : List ConceptId} {last id : ConceptId}
    (hw : graph.IsWay (before ++ [last] ++ [id])) :
    graph.IsWay (before ++ [last]) ∧ graph.Narrower last id := by
  have hdown := hw.goes_down
  rw [List.append_assoc, List.singleton_append, List.isChain_append_cons_cons] at hdown
  exact ⟨hw.of_isPrefix (List.prefix_append _ _) (List.concat_ne_nil _ _), hdown.2.1⟩

/-- A concept is at the end of a way exactly when links lead down to it from a root. -/
theorem exists_way_iff_reached {id : ConceptId} :
    (∃ way, graph.IsWay way ∧ way.getLast? = some id) ↔ graph.Reached id := by
  constructor
  · rintro ⟨way, hw, hlast⟩
    obtain ⟨root, mem, hhead⟩ := hw.begins
    cases way with
    | nil => cases hhead
    | cons first rest =>
      cases hhead
      refine ⟨root, mem, List.relationReflTransGen_of_exists_isChain_cons rest hw.goes_down ?_⟩
      exact List.getLast_of_getLast?_eq_some hlast
  · rintro ⟨root, mem, hdown⟩
    induction hdown with
    | refl =>
      exact ⟨[root.id], ⟨⟨root, mem, rfl⟩, List.isChain_singleton _, List.nodup_singleton _⟩, rfl⟩
    | @tail last id _ step ih =>
      obtain ⟨way, hw, hlast⟩ := ih
      by_cases old : id ∈ way
      · -- the way came by the concept, and its beginning up to there is shorter
        obtain ⟨before, after, rfl⟩ := List.append_of_mem old
        refine ⟨before ++ [id], hw.of_isPrefix ⟨after, ?_⟩ (by simp), List.getLast?_concat⟩
        rw [List.append_assoc, List.singleton_append]
      · exact ⟨way ++ [id], hw.concat hlast step old, List.getLast?_concat⟩

/-- What a chain of links comes by lies above its end. -/
theorem below_of_isChain {before : List ConceptId} {id : ConceptId}
    (h : (before ++ [id]).IsChain graph.Narrower) : ∀ upper ∈ before, graph.Below upper id := by
  have hbelow : (before ++ [id]).IsChain (Relation.TransGen graph.Narrower) :=
    h.imp fun _ _ => Relation.TransGen.single
  have hpairs := List.pairwise_append.mp hbelow.pairwise
  exact fun upper mem => hpairs.2.2 upper mem id (List.mem_singleton_self id)

/-- A concept of a graph is a root, which leads to itself, or it has a parent. -/
theorem reached_or_exists_parent {id : ConceptId} (hid : graph.contains id = true) :
    graph.Reached id ∨ ∃ parent, graph.Narrower parent id := by
  obtain ⟨concept, mem, rfl⟩ := List.mem_map.mp (contains_iff.mp hid)
  cases hparents : graph.parentsOf concept.id with
  | nil =>
    have hroot : concept ∈ graph.roots :=
      List.mem_filter.mpr ⟨mem, List.isEmpty_iff.mpr hparents⟩
    exact Or.inl ⟨concept, hroot, Relation.ReflTransGen.refl⟩
  | cons parent rest =>
    have hparent : parent ∈ graph.parentsOf concept.id := by
      rw [hparents]
      exact List.mem_cons_self
    exact Or.inr ⟨parent, mem_parentsOf.mp hparent⟩

open Classical in
/-- Some root leads to a concept, or it is on a cycle or below one. -/
theorem WellLinked.reached_or_below_cycle (h : graph.WellLinked) {id : ConceptId}
    (hid : graph.contains id = true) :
    graph.Reached id ∨ ∃ top, graph.Below top top ∧ (top = id ∨ graph.Below top id) := by
  -- a parent that is on no cycle has less above it
  induction hcount : graph.ids.countP fun upper => graph.Below upper id
    using Nat.strong_induction_on generalizing id with
  | h count ih =>
    rcases reached_or_exists_parent hid with hreached | ⟨parent, hstep⟩
    · exact Or.inl hreached
    · have hparent : graph.contains parent = true := (h.ends_known _ hstep).2
      have hdown : graph.Below parent id := Relation.TransGen.single hstep
      by_cases hcycle : graph.Below parent parent
      · exact Or.inr ⟨parent, hcycle, Or.inr hdown⟩
      · have hless : graph.ids.countP (fun upper => graph.Below upper parent) < count := by
          rw [← hcount]
          refine countP_lt ?_ (contains_iff.mp hparent) (decide_eq_true hdown)
            (decide_eq_false hcycle)
          intro upper _ habove
          exact decide_eq_true (Relation.TransGen.tail (of_decide_eq_true habove) hstep)
        rcases ih _ hless hparent rfl with ⟨root, hroot, hway⟩ | ⟨top, htop, hbelow⟩
        · exact Or.inl ⟨root, hroot, hway.tail hstep⟩
        · refine Or.inr ⟨top, htop, Or.inr ?_⟩
          rcases hbelow with rfl | hbelow
          · exact hdown
          · exact Relation.TransGen.tail hbelow hstep

/-- Where no links go round, a root leads to every concept. -/
theorem WellLinked.reached_of_acyclic (h : graph.WellLinked) (ha : graph.Acyclic)
    {id : ConceptId} (hid : graph.contains id = true) : graph.Reached id :=
  (h.reached_or_below_cycle hid).resolve_right fun ⟨top, htop, _⟩ => ha top htop

end Reached

section Precedes

/-- What a way may go on to is listed once. -/
theorem WellLinked.next_nodup (h : graph.WellLinked) (last : Option ConceptId) :
    (graph.next last).Nodup := by
  cases last with
  | none => exact h.roots_nodup
  | some id => exact h.childrenOf_nodup id

/-- No way comes before itself. -/
theorem WellLinked.not_precedes_self (h : graph.WellLinked) (way : List ConceptId) :
    ¬graph.Precedes way way := by
  rintro (⟨_, hne⟩ | ⟨shared, left, right, hsub, hleft, hright⟩)
  · exact hne rfl
  · have hlen : (shared ++ [left]).length = (shared ++ [right]).length := by
      rw [List.length_append, List.length_append]
      rfl
    have hsame := (List.prefix_of_prefix_length_le hleft hright hlen.le).eq_of_length hlen
    rw [List.append_right_inj, List.singleton_inj] at hsame
    rw [hsame] at hsub
    exact List.nodup_iff_sublist.mp (h.next_nodup shared.getLast?) right hsub

end Precedes

end Thesaurus.ConceptGraph

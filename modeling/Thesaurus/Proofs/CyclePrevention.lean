import Thesaurus.Proofs.DropRelease
import Thesaurus.Proofs.Unfolding
import Thesaurus.Samples

/-!
# Drops close no cycle

A drop that is accepted puts its concept below another one from which no links lead up to it, so the
new link lies on no cycle, whatever cycles there were. In a graph without cycles no more is refused
on these grounds than must be: the concept itself and what lies below it, by whichever of its
occurrences it is dragged.
-/

namespace Thesaurus

namespace ConceptGraph

/-- The graph with its broader links as a change leaves them: the removed one gone and the added
one behind the others. -/
def relinked (graph : ConceptGraph) (request : ParentChange) : ConceptGraph :=
  { graph with
    broader :=
      graph.broader.filter
          (fun link => !(link.child == request.concept && some link.parent == request.removed)) ++
        request.added.toList.map fun parent => ⟨request.concept, parent⟩ }

/-- Whether a broader link lies on a cycle: links lead on from its lower end to its upper one. -/
def OnCycle (graph : ConceptGraph) (link : BroaderLink) : Prop :=
  Relation.ReflTransGen graph.Narrower link.child link.parent

variable {graph : ConceptGraph} {request : ParentChange} {upper lower : ConceptId}

/-- A change leaves the links that it does not remove, and adds one. -/
theorem narrower_relinked :
    (graph.relinked request).Narrower upper lower ↔
      (graph.Narrower upper lower ∧ ¬(lower = request.concept ∧ some upper = request.removed)) ∨
        (lower = request.concept ∧ request.added = some upper) := by
  unfold Narrower relinked
  rw [List.mem_append, List.mem_filter, List.mem_map]
  simp only [Option.mem_toList, Bool.not_eq_true', Bool.and_eq_false_iff, beq_eq_false_iff_ne,
    not_and_or, BroaderLink.mk.injEq]
  refine or_congr Iff.rfl ⟨?_, ?_⟩
  · rintro ⟨_, hadded, rfl, rfl⟩
    exact ⟨rfl, hadded⟩
  · rintro ⟨rfl, hadded⟩
    exact ⟨upper, hadded, rfl, rfl⟩

/-- Links of a changed graph are old ones, or the one added. -/
theorem narrower_of_relinked {parent : ConceptId} (hadded : request.added = some parent)
    (h : (graph.relinked request).Narrower upper lower) :
    graph.Narrower upper lower ∨ (upper = parent ∧ lower = request.concept) := by
  rcases narrower_relinked.mp h with old | ⟨hlower, hupper⟩
  · exact Or.inl old.1
  · exact Or.inr ⟨Option.some.inj (hupper.symm.trans hadded), hlower⟩

/-- A link added above a concept, from one that is neither the concept nor below it, lies on no
cycle, whatever cycles there are. -/
theorem not_onCycle_relinked {parent : ConceptId} (hadded : request.added = some parent)
    (hne : parent ≠ request.concept) (hb : ¬graph.Below request.concept parent) :
    ¬(graph.relinked request).OnCycle ⟨request.concept, parent⟩ := by
  intro hc
  rcases Relation.reflTransGen_iff_eq_or_transGen.mp hc with same | hdown
  · exact hne same
  · -- a descent to the upper end that takes the new link has come to the upper end before
    rcases Below.split (fun _ _ => narrower_of_relinked hadded) hdown with old | ⟨hup, _⟩
    · exact hb old
    · exact hup.elim hne hb

/-- Such a change keeps a graph acyclic. -/
theorem Acyclic.relinked (ha : graph.Acyclic)
    (hsafe : ∀ parent, request.added = some parent →
      parent ≠ request.concept ∧ ¬graph.Below request.concept parent) :
    (graph.relinked request).Acyclic := by
  cases hadded : request.added with
  | none =>
    refine ha.of_links_le fun upper lower step => ?_
    rcases narrower_relinked.mp step with old | ⟨_, hnew⟩
    · exact old.1
    · rw [hadded] at hnew
      cases hnew
  | some parent =>
    obtain ⟨hne, hb⟩ := hsafe parent hadded
    exact ha.of_added_link hne hb fun _ _ => narrower_of_relinked hadded

/-- A link put above a concept closes a cycle if it comes from the concept itself or from below. -/
theorem not_acyclic_relinked {id parent : ConceptId}
    (h : parent = id ∨ graph.Below id parent) :
    ¬(graph.relinked ⟨id, some parent, none⟩).Acyclic := by
  have hnew : (graph.relinked ⟨id, some parent, none⟩).Narrower parent id :=
    narrower_relinked.mpr (Or.inr ⟨rfl, rfl⟩)
  have hold : ∀ upper lower, graph.Narrower upper lower →
      (graph.relinked ⟨id, some parent, none⟩).Narrower upper lower :=
    fun upper lower step => narrower_relinked.mpr (Or.inl ⟨step, fun hr => nomatch hr.2⟩)
  intro ha
  rcases h with rfl | hb
  · exact ha parent (Relation.TransGen.single hnew)
  · exact ha id ((Relation.TransGen.mono hold _ _ hb).tail hnew)

end ConceptGraph

open ConceptGraph

/-- Whether a drag has hold of an occurrence. -/
structure Grip.Holds (grip : Grip) (top : Occurrence) : Prop where
  /-- It drags the concept. -/
  concept_eq : grip.concept = top.id
  /-- It drags it by the occurrence. -/
  path_eq : grip.path = top.path
  /-- The parent on the path was read off it. -/
  parent_eq : grip.parent = Path.parentId? top.path

/-- A drag takes hold of the occurrence at which it starts. -/
theorem Grip.start_holds (top : Occurrence) : (Grip.start top.id top.path).Holds top :=
  ⟨rfl, rfl, rfl⟩

/-- Hovering keeps hold of the occurrence. -/
theorem Grip.Holds.hover {grip : Grip} {top : Occurrence} (hh : grip.Holds top)
    (graph : ConceptGraph) (index : Descendants) (place : DropPlace) (modifier : Bool) :
    (grip.hover graph index place modifier).Holds top :=
  ⟨hh.concept_eq, hh.path_eq, hh.parent_eq⟩

/-- A parent that a drop adds is neither the dragged concept nor below it. -/
theorem Drag.added_of_release {graph : ConceptGraph} {drag : Drag} {place : Option DropPlace}
    {modifier : Bool} {request : ParentChange}
    (h : (drag.release graph (Descendants.ofGraph graph) place modifier).1 = .wanted request)
    {parent : ConceptId} (hadded : request.added = some parent) :
    parent ≠ request.concept ∧ ¬graph.Below request.concept parent := by
  obtain ⟨hknown, _, hne, _, hbelow⟩ := Drag.added_of_wanted h hadded
  refine ⟨hne, fun hb => ?_⟩
  rw [Descendants.isBelow_ofGraph.mpr ⟨hknown, hne, hb⟩] at hbelow
  cases hbelow

/-- In a graph without cycles, a known place is refused as the concept itself or as below it exactly
if it is. -/
theorem Grip.Holds.refused_iff {graph : ConceptGraph} (ha : graph.Acyclic) {grip : Grip}
    {top : Occurrence} (hh : grip.Holds top) (mem : top ∈ graph.project.walk) {target : ConceptId}
    (hknown : graph.contains target = true) :
    (grip.verdict graph (Descendants.ofGraph graph) (.concept target) = .itself ∨
        grip.verdict graph (Descendants.ofGraph graph) (.concept target) = .below) ↔
      target = top.id ∨ graph.Below top.id target := by
  have hdragged : graph.contains top.id = true := contains_of_mem_walk mem
  have hstands := standsBelow_of_mem_walk mem
  have hbelow : (Descendants.ofGraph graph).isBelow top.id target = true ↔
      target ≠ top.id ∧ graph.Below top.id target := by
    rw [Descendants.isBelow_ofGraph, hdragged]
    exact and_iff_right rfl
  simp only [Grip.verdict, hh.concept_eq, hdragged, hknown, hh.parent_eq, Bool.not_true,
    Bool.false_eq_true, if_false]
  by_cases hself : target = top.id
  · simp [hself]
  · rw [if_neg hself]
    by_cases hparent : Path.parentId? top.path = some target
    · -- the parent on the path is not below the concept, as it is above
      rw [hparent] at hstands
      have hout : ¬graph.Below top.id target :=
        fun hb => ha top.id (hb.tail (mem_parentsOf.mp hstands))
      simp [hparent, hself, hout]
    · rw [if_neg hparent]
      by_cases hb : (Descendants.ofGraph graph).isBelow top.id target = true
      · simp [hb, (hbelow.mp hb).2]
      · have hout : ¬graph.Below top.id target := fun h => hb (hbelow.mpr ⟨hself, h⟩)
        simp [hb, hself, hout]

/-- Drops prevent cycles, and refuse no more than that takes. -/
theorem drop_closes_no_cycle (graph : ConceptGraph) :
    (∀ (drag : Drag) (place : Option DropPlace) (modifier : Bool) (request : ParentChange),
      (drag.release graph (Descendants.ofGraph graph) place modifier).1 = .wanted request →
        (∀ parent, request.added = some parent →
          ⟨request.concept, parent⟩ ∈ (graph.relinked request).broader ∧
            ¬(graph.relinked request).OnCycle ⟨request.concept, parent⟩) ∧
        (graph.Acyclic → (graph.relinked request).Acyclic)) ∧
      (graph.Acyclic → ∀ top ∈ graph.project.walk, ∀ grip : Grip, grip.Holds top →
        ∀ target, graph.contains target = true →
          ((grip.verdict graph (Descendants.ofGraph graph) (.concept target) = .itself ∨
              grip.verdict graph (Descendants.ofGraph graph) (.concept target) = .below) ↔
            ¬(graph.relinked ⟨top.id, some target, none⟩).Acyclic)) := by
  refine ⟨fun drag place modifier request h => ⟨fun parent hadded => ?_, fun ha => ?_⟩, ?_⟩
  · obtain ⟨hne, hb⟩ := Drag.added_of_release h hadded
    exact ⟨narrower_relinked.mpr (Or.inr ⟨rfl, hadded⟩), not_onCycle_relinked hadded hne hb⟩
  · exact ha.relinked fun parent hadded => Drag.added_of_release h hadded
  · intro ha top mem grip hh target hknown
    rw [hh.refused_iff ha mem hknown]
    constructor
    · exact not_acyclic_relinked
    · intro hcycle
      by_contra hout
      refine hcycle (ha.relinked fun parent hadded => ?_)
      cases hadded
      exact ⟨fun same => hout (Or.inl same), fun hb => hout (Or.inr hb)⟩

/-- Beside a cycle, dogs are dropped on north, and the new link lies on no cycle; among the animals,
which have none, canines are not accepted on dogs, as that would close one. -/
theorem drop_closes_no_cycle_dogs :
    (Drag.release (some (Grip.start "dogs" "pets/dogs")) (ofRecords tangled)
        (Descendants.ofGraph (ofRecords tangled)) (some (.concept "north")) false).1 =
      .wanted ⟨"dogs", some "north", some "pets"⟩ ∧
    ¬((ofRecords tangled).relinked ⟨"dogs", some "north", some "pets"⟩).OnCycle
      ⟨"dogs", "north"⟩ ∧
    (ofRecords Samples.animals).Acyclic ∧
    ¬((ofRecords Samples.animals).relinked ⟨"canines", some "dogs", none⟩).Acyclic := by
  have hdrop : (Drag.release (some (Grip.start "dogs" "pets/dogs")) (ofRecords tangled)
      (Descendants.ofGraph (ofRecords tangled)) (some (.concept "north")) false).1 =
        .wanted ⟨"dogs", some "north", some "pets"⟩ := by
    decide +kernel
  have ha : (ofRecords Samples.animals).Acyclic := acyclic_of_ordered (by decide +kernel)
  have hoccurs : ∃ top ∈ (ofRecords Samples.animals).project.walk,
      top.id = "canines" ∧ top.path = "animals/mammals/canines" := by
    decide +kernel
  obtain ⟨top, mem, hid, hpath⟩ := hoccurs
  have hholds := (Grip.start_holds top).hover (ofRecords Samples.animals)
    (Descendants.ofGraph (ofRecords Samples.animals)) .top false
  have hcycle := ((drop_closes_no_cycle (ofRecords Samples.animals)).2 ha top mem _ hholds "dogs"
    (by decide +kernel)).mp (by rw [hid, hpath]; decide +kernel)
  rw [hid] at hcycle
  exact ⟨hdrop, (((drop_closes_no_cycle (ofRecords tangled)).1 _ _ _ _ hdrop).1 "north" rfl).2, ha,
    hcycle⟩

end Thesaurus

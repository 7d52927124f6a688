import Mathlib.Data.List.Basic
import Thesaurus.Layout.Snapshot
import Thesaurus.Proofs.Ingest

/-!
# The shape of a snapshot

Two snapshots of graphs have the same shape exactly if the graphs agree in the ids of their
concepts and in all links, in order. The distances from the roots are found from the ids and the
broader links alone, so snapshots of the same shape agree in the color groups, whatever the labels.
-/

namespace Thesaurus

namespace ConceptGraph

variable {graph other : ConceptGraph}

/-- The ids of the roots are found from the ids of all concepts and the parents. -/
theorem map_id_roots (graph : ConceptGraph) :
    graph.roots.map Concept.id = graph.ids.filter fun id => (graph.parentsOf id).isEmpty := by
  unfold roots ids
  rw [List.filter_map]
  rfl

/-- The children of a concept are decided by the broader links of the graph. -/
theorem childrenOf_congr (h : graph.broader = other.broader) :
    graph.childrenOf = other.childrenOf := by
  funext id
  unfold childrenOf
  rw [h]

/-- The ids and the broader links decide which concepts are roots. -/
theorem roots_congr (hids : graph.ids = other.ids) (hb : graph.broader = other.broader) :
    graph.roots.map Concept.id = other.roots.map Concept.id := by
  have hparents : graph.parentsOf = other.parentsOf := by
    funext id
    exact parentsOf_congr hb id
  rw [map_id_roots, map_id_roots, hids, hparents]

end ConceptGraph

namespace Snapshot

variable {graph other : ConceptGraph}

/-- Distances spread along children only. -/
theorem spread_congr (h : graph.childrenOf = other.childrenOf) (depth : Nat)
    (settled : Distances) (layer : List ConceptId) :
    spread graph depth settled layer = spread other depth settled layer := by
  fun_induction spread graph depth settled layer with
  | case1 depth settled layer fresh hnone =>
    rw [spread, if_pos hnone]
  | case2 depth settled layer fresh hsome ih =>
    rw [ih, spread.eq_def other depth]
    dsimp only
    rw [if_neg hsome, h]

/-- Graphs with the same ids and the same broader links have the same distances from the roots. -/
theorem rootDistances_congr (hids : graph.ids = other.ids) (hb : graph.broader = other.broader) :
    rootDistances graph = rootDistances other := by
  have hspread := spread_congr (ConceptGraph.childrenOf_congr hb)
  unfold rootDistances
  rw [ConceptGraph.roots_congr hids hb, hspread]

/-- The nodes of a snapshot have the ids of the concepts, in order. -/
theorem map_id_nodes (graph : ConceptGraph) :
    (ofGraph graph).nodes.map SnapshotNode.id = graph.ids := by
  unfold ofGraph ConceptGraph.ids
  rw [List.map_map]
  rfl

/-- The line of a broader link. -/
def broaderLine (link : BroaderLink) : SnapshotLine := ⟨link.child, link.parent, .broader⟩

/-- The line of a related link. -/
def relatedLine (link : RelatedLink) : SnapshotLine := ⟨link.first, link.second, .related⟩

/-- The lines of a snapshot are those of the broader links and then those of the related ones. -/
theorem lines_ofGraph (graph : ConceptGraph) :
    (ofGraph graph).lines = graph.broader.map broaderLine ++ graph.related.map relatedLine := rfl

/-- Of lines of one kind, all are of that kind and none of another. -/
theorem filter_kind {lines : List SnapshotLine} {kind : LineKind}
    (h : ∀ line ∈ lines, line.kind = kind) (other : LineKind) :
    lines.filter (·.kind = other) = if kind = other then lines else [] := by
  by_cases same : kind = other
  · rw [if_pos same, List.filter_eq_self]
    intro line mem
    exact decide_eq_true ((h line mem).trans same)
  · rw [if_neg same, List.filter_eq_nil_iff]
    intro line mem hkind
    exact same ((h line mem).symm.trans (of_decide_eq_true hkind))

/-- The lines of a kind are those of the links of that kind. -/
theorem filter_lines (graph : ConceptGraph) :
    (ofGraph graph).lines.filter (·.kind = .broader) = graph.broader.map broaderLine ∧
      (ofGraph graph).lines.filter (·.kind = .related) = graph.related.map relatedLine := by
  have hb : ∀ line ∈ graph.broader.map broaderLine, line.kind = .broader := by
    simp only [List.forall_mem_map, broaderLine, implies_true]
  have hr : ∀ line ∈ graph.related.map relatedLine, line.kind = .related := by
    simp only [List.forall_mem_map, relatedLine, implies_true]
  rw [lines_ofGraph, List.filter_append, List.filter_append, filter_kind hb, filter_kind hr,
    filter_kind hb, filter_kind hr]
  simp

/-- The line of a broader link tells the link. -/
theorem broaderLine_injective : Function.Injective broaderLine := by
  intro link other h
  cases link
  cases other
  simp only [broaderLine, SnapshotLine.mk.injEq, and_true] at h
  rw [h.1, h.2]

/-- The line of a related link tells the link. -/
theorem relatedLine_injective : Function.Injective relatedLine := by
  intro link other h
  cases link
  cases other
  simp only [relatedLine, SnapshotLine.mk.injEq, and_true] at h
  rw [h.1, h.2]

/-- Two snapshots have the same shape exactly if the graphs have the same ids and the same links,
in order. -/
theorem sameShape_ofGraph_iff (graph other : ConceptGraph) :
    (ofGraph graph).sameShape (ofGraph other) = true ↔
      graph.ids = other.ids ∧ graph.broader = other.broader ∧ graph.related = other.related := by
  unfold sameShape
  rw [Bool.and_eq_true, beq_iff_eq, beq_iff_eq, map_id_nodes, map_id_nodes]
  constructor
  · rintro ⟨hlines, hids⟩
    obtain ⟨hb, hr⟩ := filter_lines graph
    obtain ⟨hb', hr'⟩ := filter_lines other
    rw [hlines, hb'] at hb
    rw [hlines, hr'] at hr
    exact ⟨hids, (List.map_injective_iff.mpr broaderLine_injective hb).symm,
      (List.map_injective_iff.mpr relatedLine_injective hr).symm⟩
  · rintro ⟨hids, hb, hr⟩
    rw [lines_ofGraph, lines_ofGraph, hb, hr]
    exact ⟨rfl, hids⟩

end Snapshot

end Thesaurus

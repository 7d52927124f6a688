import Thesaurus.Descent
import Thesaurus.Forest

/-!
# Projecting a graph into trees

Every concept without parents becomes a root, and below each occurrence stand the children of its
concept in link order. A child that is already on the path above is left out, so broader cycles
end. The descent is bounded by the concepts that are not on the path yet.
-/

namespace Thesaurus

namespace Projection

/-- The broader concepts of a concept that the graph knows, with their labels, in link order. -/
def labelledParents (graph : ConceptGraph) (id : ConceptId) : List (ConceptId × String) :=
  (graph.parentsOf id).filterMap fun parent => (graph.label? parent).map (parent, ·)

/-- The occurrence of a concept below a path of ids, nearest first. -/
def occurrence (graph : ConceptGraph) (above : Option PathText) (line : List ConceptId)
    (concept : Concept) : Occurrence :=
  let parents := labelledParents graph concept.id
  { id := concept.id
    path := Path.extend above concept.id
    depth := line.length
    label := concept.label
    altLabels := concept.altLabels
    hasManyParents := decide (1 < parents.length)
    otherParentLabels := (parents.filter fun parent => line.head? ≠ some parent.1).map Prod.snd }

/-- The trees of some concepts below a path: concepts unknown or on the path are left out. -/
def grow (graph : ConceptGraph) (above : Option PathText) (line : List ConceptId) :
    List ConceptId → Trees
  | [] => .empty
  | id :: others =>
    if id ∈ line then grow graph above line others
    else match _found : graph.concept? id with
      | none => grow graph above line others
      | some concept =>
        let top := occurrence graph above line concept
        .node top (grow graph (some top.path) (concept.id :: line) (graph.childrenOf concept.id))
          (grow graph above line others)
termination_by ids => graph.room line * (graph.broader.length + 1) + ids.length
decreasing_by
  · exact Nat.lt_succ_self _
  · exact Nat.lt_succ_self _
  · rename_i new
    have lt : graph.room (concept.id :: line) < graph.room line := by
      refine ConceptGraph.room_lt (List.mem_of_find?_eq_some _found) ?_
      rw [ConceptGraph.concept?_id _found]
      exact new
    exact ConceptGraph.budget_lt lt
  · exact Nat.lt_succ_self _

end Projection

/-- The forest of a graph. -/
def ConceptGraph.project (graph : ConceptGraph) : Forest :=
  let roots := Projection.grow graph none [] (graph.roots.map Concept.id)
  let shown := roots.walk.map Occurrence.id
  { roots
    omitted := (graph.concepts.filter fun concept => !shown.contains concept.id).map Concept.id }

end Thesaurus

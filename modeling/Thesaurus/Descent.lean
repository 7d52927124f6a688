import Thesaurus.Counting
import Thesaurus.Graph

/-!
# Going down a graph

A walk down a graph never takes a concept twice on one path, so it ends even where links form
cycles. What is left to do is measured by the room beside the path: `room_lt` says that a step
down leaves less of it, `budget_lt` that this outweighs any list of children.
-/

namespace Thesaurus.ConceptGraph

/-- How many concepts are not on a path. -/
def room (graph : ConceptGraph) (line : List ConceptId) : Nat :=
  graph.concepts.countP fun concept => decide (concept.id ∉ line)

/-- Putting a concept on the path leaves less room. -/
theorem room_lt {graph : ConceptGraph} {line : List ConceptId} {concept : Concept}
    (mem : concept ∈ graph.concepts) (new : concept.id ∉ line) :
    graph.room (concept.id :: line) < graph.room line := by
  refine countP_lt ?_ mem (by simpa using new) (by simp)
  intro other _ h
  simp only [List.mem_cons, decide_eq_true_eq, not_or] at h ⊢
  exact h.2

/-- With less room, no list of children outweighs what is left to do. -/
theorem budget_lt {graph : ConceptGraph} {line longer : List ConceptId} {id : ConceptId}
    {left : Nat} (lt : graph.room longer < graph.room line) :
    graph.room longer * (graph.broader.length + 1) + (graph.childrenOf id).length
      < graph.room line * (graph.broader.length + 1) + (left + 1) := by
  have short : (graph.childrenOf id).length ≤ graph.broader.length := List.length_filterMap_le _ _
  have step := Nat.mul_le_mul_right (graph.broader.length + 1) (Nat.succ_le_of_lt lt)
  rw [Nat.succ_mul] at step
  omega

end Thesaurus.ConceptGraph

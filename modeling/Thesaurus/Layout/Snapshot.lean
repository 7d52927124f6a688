import Thesaurus.Counting
import Thesaurus.Graph

/-!
# What a layout shows

A snapshot of a graph for the graph view: one node for a concept and one line for a link. The
color group of a node is its distance from the nearest root. Distances are found layer by layer:
first the roots, then their children not met before, and so on.
-/

namespace Thesaurus

/-- One concept as a node. -/
structure SnapshotNode where
  /-- The concept. -/
  id : ConceptId
  /-- The preferred label. -/
  label : String
  /-- The color group; none for a concept that no root leads to. -/
  group : Option Nat
deriving DecidableEq

/-- What a line stands for. -/
inductive LineKind where
  /-- A broader link, child first. -/
  | broader
  /-- A related link. -/
  | related
deriving DecidableEq

/-- One link as a line between two nodes. -/
structure SnapshotLine where
  /-- The child, or the first end of a related link. -/
  source : ConceptId
  /-- The parent, or the second end of a related link. -/
  target : ConceptId
  /-- What the line stands for. -/
  kind : LineKind
deriving DecidableEq

/-- The nodes and lines to be laid out. -/
structure Snapshot where
  /-- The nodes. -/
  nodes : List SnapshotNode := []
  /-- The lines. -/
  lines : List SnapshotLine := []
deriving DecidableEq

namespace Snapshot

/-- Concepts with the distances found for them. -/
abbrev Distances := List (ConceptId × Nat)

/-- How many links lead down from concepts without a distance. -/
def openLinks (graph : ConceptGraph) (settled : Distances) : Nat :=
  graph.broader.countP fun link => (settled.lookup link.parent).isNone

/-- The concepts of a layer that have no distance yet, each once. -/
def unsettled (settled : Distances) (layer : List ConceptId) : List ConceptId :=
  (layer.filter fun id => (settled.lookup id).isNone).eraseDups

/-- The distances after a layer at one depth. -/
def settle (settled : Distances) (depth : Nat) (fresh : List ConceptId) : Distances :=
  settled ++ fresh.map (·, depth)

/-- A concept without a distance after a layer had none before it. -/
theorem lookup_settle_isNone {settled : Distances} {depth : Nat} {fresh : List ConceptId}
    {id : ConceptId} :
    ((settle settled depth fresh).lookup id).isNone
      = ((settled.lookup id).isNone && !fresh.contains id) := by
  induction settled with
  | nil =>
    show ((fresh.map (·, depth)).lookup id).isNone = _
    induction fresh with
    | nil => rfl
    | cons first rest ih =>
      simp only [List.map_cons, List.lookup_cons, List.contains_cons]
      cases same : id == first
      · simpa using ih
      · simp
  | cons first rest ih =>
    obtain ⟨key, value⟩ := first
    show (((key, value) :: (rest ++ fresh.map (·, depth))).lookup id).isNone = _
    simp only [List.lookup_cons]
    cases same : id == key
    · exact ih
    · simp

/-- Settling concepts closes links and opens none. -/
theorem openLinks_settle_le {graph : ConceptGraph} {settled : Distances} {depth : Nat}
    {fresh : List ConceptId} :
    openLinks graph (settle settled depth fresh) ≤ openLinks graph settled := by
  apply List.countP_mono_left
  intro link _ h
  rw [lookup_settle_isNone, Bool.and_eq_true] at h
  exact h.1

/-- Settling a concept that has children closes links. -/
theorem openLinks_settle_lt {graph : ConceptGraph} {settled : Distances} {depth : Nat}
    {layer : List ConceptId}
    (h : (unsettled settled layer).flatMap graph.childrenOf ≠ []) :
    openLinks graph (settle settled depth (unsettled settled layer)) < openLinks graph settled := by
  obtain ⟨child, mem⟩ := List.exists_mem_of_ne_nil _ h
  obtain ⟨id, fresh, below⟩ := List.mem_flatMap.mp mem
  have free := (List.mem_filter.mp (List.mem_eraseDups.mp fresh)).2
  refine countP_lt ?_ (ConceptGraph.mem_childrenOf.mp below) free ?_
  · intro link _ inside
    rw [lookup_settle_isNone, Bool.and_eq_true] at inside
    exact inside.1
  · rw [lookup_settle_isNone]
    simp [fresh]

/-- Give a layer its depth, then go on with its children; distances found before stay. -/
def spread (graph : ConceptGraph) (depth : Nat) (settled : Distances) (layer : List ConceptId) :
    Distances :=
  let fresh := unsettled settled layer
  if fresh = [] then settled
  else spread graph (depth + 1) (settle settled depth fresh) (fresh.flatMap graph.childrenOf)
termination_by 2 * openLinks graph settled + min layer.length 1
decreasing_by
  rename_i some
  have nonempty : 0 < layer.length := by
    rcases layer with _ | ⟨first, rest⟩
    · exact absurd rfl some
    · exact Nat.succ_pos _
  have le := @openLinks_settle_le graph settled depth (unsettled settled layer)
  by_cases last : (unsettled settled layer).flatMap graph.childrenOf = []
  · have none : ((unsettled settled layer).flatMap graph.childrenOf).length = 0 := by rw [last]; rfl
    omega
  · have lt := @openLinks_settle_lt graph settled depth layer last
    omega

/-- The distance of every concept from the nearest root. -/
def rootDistances (graph : ConceptGraph) : Distances :=
  spread graph 0 [] (graph.roots.map Concept.id)

/-- The snapshot of a graph: its concepts, its broader links, then its related links. -/
def ofGraph (graph : ConceptGraph) : Snapshot :=
  let distances := rootDistances graph
  { nodes := graph.concepts.map fun concept =>
      ⟨concept.id, concept.label, distances.lookup concept.id⟩
    lines := graph.broader.map (fun link => ⟨link.child, link.parent, .broader⟩)
      ++ graph.related.map fun link => ⟨link.first, link.second, .related⟩ }

/-- Whether two snapshots have the same nodes and lines in the same order; labels may differ. -/
def sameShape (snapshot other : Snapshot) : Bool :=
  snapshot.lines == other.lines
    && snapshot.nodes.map SnapshotNode.id == other.nodes.map SnapshotNode.id

end Snapshot

end Thesaurus

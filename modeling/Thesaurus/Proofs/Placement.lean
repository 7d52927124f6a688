import Thesaurus.Proofs.PathCodec
import Thesaurus.Search

/-!
# Where an occurrence stands

A line is an occurrence with all occurrences above it, the nearest first. In the forest of a graph,
marked or not, the path of each occurrence is that of its line: its ids are those of the line, and
the parent that is read off the path is the occurrence directly above. `Projection.Grown` says how
each tree of the forest has come about: what its top is, and what grows below it.
-/

namespace Thesaurus

/-- All lines of a row of trees that stands below a line, in display order. -/
def Trees.lines (above : List Occurrence) : Trees → List (List Occurrence)
  | empty => []
  | node top below beside =>
    (top :: above) :: (below.lines (top :: above) ++ beside.lines above)

/-- All lines of a forest in display order. -/
def Forest.lines (forest : Forest) : List (List Occurrence) := forest.roots.lines []

/-- Every occurrence has one line, in the same order. -/
theorem Trees.map_head?_lines (trees : Trees) (above : List Occurrence) :
    (trees.lines above).map List.head? = trees.walk.map some := by
  induction trees generalizing above with
  | empty => rfl
  | node top below beside ihBelow ihBeside =>
    unfold lines walk
    rw [List.map_cons, List.map_append, ihBelow, ihBeside, List.map_cons, List.map_append]
    rfl

/-- Whether the paths along a line are those of its ids. -/
def FollowsPaths : List Occurrence → Prop
  | [] => True
  | top :: above =>
    top.path = Path.extend (above.head?.map Occurrence.path) top.id ∧ FollowsPaths above

/-- The ids of the path at the end of a line are those of the line, root first. -/
theorem FollowsPaths.ids_path {top : Occurrence} {above : List Occurrence}
    (h : FollowsPaths (top :: above)) :
    Path.ids top.path = ((top :: above).map Occurrence.id).reverse := by
  induction above generalizing top with
  | nil =>
    have hp : top.path = Path.root top.id := h.1
    rw [hp, Path.ids_root]
    rfl
  | cons next rest ih =>
    have hp : top.path = Path.child next.path top.id := h.1
    rw [hp, Path.ids_child, ih h.2]
    simp only [List.map_cons, List.reverse_cons]

/-- The parent that is read off the path at the end of a line is the occurrence above. -/
theorem FollowsPaths.parentId? {top : Occurrence} {above : List Occurrence}
    (h : FollowsPaths (top :: above)) :
    Path.parentId? top.path = above.head?.map Occurrence.id := by
  cases above with
  | nil =>
    have hp : top.path = Path.root top.id := h.1
    rw [hp, Path.parentId?_root]
    rfl
  | cons next rest =>
    have hp : top.path = Path.child next.path top.id := h.1
    rw [hp, Path.parentId?_child, h.2.ids_path, List.map_cons, List.reverse_cons,
      List.getLast?_concat]
    rfl

/-- Whether the paths in a row of trees below a path are those of the ids down to them. -/
def Trees.PathsBelow (above : Option PathText) : Trees → Prop
  | empty => True
  | node top below beside =>
    top.path = Path.extend above top.id ∧ below.PathsBelow (some top.path) ∧
      beside.PathsBelow above

/-- Trees grow with the paths of their ids. -/
theorem Projection.grow_pathsBelow (graph : ConceptGraph) (above : Option PathText)
    (line ids : List ConceptId) : (grow graph above line ids).PathsBelow above := by
  fun_induction grow graph above line ids with
  | case1 => exact trivial
  | case2 _ _ _ _ _ ih => exact ih
  | case3 _ _ _ _ _ _ ih => exact ih
  | case4 _ _ _ _ _ _ _ _ ihBelow ihBeside => exact ⟨rfl, ihBelow, ihBeside⟩

/-- Marks change no paths. -/
theorem Trees.PathsBelow.markedBy {trees : Trees} {above : Option PathText}
    (h : trees.PathsBelow above) (query : Query) : (trees.markedBy query).PathsBelow above := by
  induction trees generalizing above with
  | empty => exact trivial
  | node top below beside ihBelow ihBeside =>
    exact ⟨h.1, ihBelow h.2.1, ihBeside h.2.2⟩

/-- Where the paths are those of the ids, so they are along every line. -/
theorem Trees.PathsBelow.follows {trees : Trees} {above : List Occurrence}
    (h : trees.PathsBelow (above.head?.map Occurrence.path)) (ha : FollowsPaths above) :
    ∀ line ∈ trees.lines above, FollowsPaths line := by
  induction trees generalizing above with
  | empty =>
    intro line mem
    cases mem
  | node top below beside ihBelow ihBeside =>
    have htop : FollowsPaths (top :: above) := ⟨h.1, ha⟩
    have hbelow : below.PathsBelow ((top :: above).head?.map Occurrence.path) := h.2.1
    intro line mem
    unfold lines at mem
    rcases List.mem_cons.mp mem with rfl | mem
    · exact htop
    · rcases List.mem_append.mp mem with mem | mem
      · exact ihBelow hbelow htop line mem
      · exact ihBeside h.2.2 ha line mem

namespace Projection

/-- How a tree grows in the forest of a graph: at a concept, below a path that goes along a line of
ids, nearest first. -/
structure Grown (graph : ConceptGraph) (above : Option PathText) (line : List ConceptId)
    (concept : Concept) (tree : Subtree) : Prop where
  /-- The concept is that of the graph. -/
  found : graph.concept? concept.id = some concept
  /-- The ids of the path are those of the line. -/
  ids_above : (above.map Path.ids).getD [] = line.reverse
  /-- The top is the occurrence of the concept there. -/
  top_eq : tree.top = occurrence graph above line concept
  /-- Below it grow the trees of the children. -/
  below_eq : tree.below =
    grow graph (some tree.top.path) (concept.id :: line) (graph.childrenOf concept.id)

section Grown

variable {graph : ConceptGraph} {above : Option PathText} {line ids : List ConceptId}
  {concept : Concept} {tree : Subtree}

/-- The path of a tree goes on from its line to its concept. -/
theorem Grown.ids_path (h : Grown graph above line concept tree) :
    Path.ids tree.top.path = line.reverse ++ [concept.id] := by
  rw [h.top_eq, ← h.ids_above]
  cases above with
  | none => exact Path.ids_root concept.id
  | some path => exact Path.ids_child path concept.id

/-- The parent that is read off the path of a tree is the nearest of its line. -/
theorem Grown.parentId?_eq (h : Grown graph above line concept tree) :
    Path.parentId? tree.top.path = line.head? := by
  have habove := h.ids_above
  rw [h.top_eq, ← List.getLast?_reverse, ← habove]
  cases above with
  | none => exact Path.parentId?_root concept.id
  | some path => exact Path.parentId?_child path concept.id

/-- Every tree at any depth has grown somewhere. -/
theorem exists_grown (hline : (above.map Path.ids).getD [] = line.reverse)
    (ht : tree ∈ (grow graph above line ids).subtrees) :
    ∃ above line concept, Grown graph above line concept tree := by
  fun_induction grow graph above line ids with
  | case1 => cases ht
  | case2 above line id others old ih => exact ih hline ht
  | case3 above line id others new unknown ih => exact ih hline ht
  | case4 above line id others new concept found top ihBelow ihBeside =>
    have hfound : graph.concept? concept.id = some concept := by
      rw [ConceptGraph.concept?_id found]
      exact found
    have htop : Grown graph above line concept
        ⟨top, grow graph (some top.path) (concept.id :: line) (graph.childrenOf concept.id)⟩ :=
      ⟨hfound, hline, rfl, rfl⟩
    simp only [Trees.subtrees, List.mem_cons, List.mem_append] at ht
    rcases ht with rfl | ht | ht
    · exact ⟨above, line, concept, htop⟩
    · refine ihBelow ?_ ht
      rw [Option.map_some, Option.getD_some, htop.ids_path, List.reverse_cons]
    · exact ihBeside hline ht

end Grown

end Projection

/-- Every tree in the forest of a graph has grown somewhere. -/
theorem ConceptGraph.exists_grown {graph : ConceptGraph} {tree : Subtree}
    (ht : tree ∈ graph.project.roots.subtrees) :
    ∃ above line concept, Projection.Grown graph above line concept tree :=
  Projection.exists_grown rfl ht

/-- In the forest of a graph, whatever was searched, the paths along every line are those of its
ids. -/
theorem follows_of_mem_lines {graph : ConceptGraph} {query : Query} {line : List Occurrence}
    (mem : line ∈ (graph.project.markedBy query).lines) : FollowsPaths line := by
  have hgrow := Projection.grow_pathsBelow graph none [] (graph.roots.map Concept.id)
  have hmarked : (graph.project.markedBy query).roots.PathsBelow
      (([] : List Occurrence).head?.map Occurrence.path) := hgrow.markedBy query
  exact hmarked.follows trivial line mem

end Thesaurus

import Thesaurus.Samples
import Thesaurus.Search

/-!
# The marks of a search

A search marks each occurrence by its own labels and by the labels at any depth below it, and
leaves all else as it was. So the marks left by an earlier search do not matter, and where nothing
is searched for the forest of a graph stays as it was made.
-/

namespace Thesaurus

/-- Whether a query holds of a label of an occurrence. -/
def Query.finds (query : Query) (occurrence : Occurrence) : Bool :=
  query.matchesLabels occurrence.label occurrence.altLabels

/-- The mark that a query gives to the top of a tree, by the labels of all that is below. -/
def Query.markOf (query : Query) (tree : Subtree) : SearchMark :=
  if query.finds tree.top then .hit
  else if tree.below.walk.any query.finds then .aboveHit
  else .plain

/-- A tree with its top and all that is below it marked by a query. -/
def Subtree.markedBy (tree : Subtree) (query : Query) : Subtree :=
  { top := { tree.top with mark := query.markOf tree }, below := tree.below.markedBy query }

/-- The occurrence as if nothing was ever searched for. -/
def Occurrence.unmarked (occurrence : Occurrence) : Occurrence :=
  { occurrence with mark := .plain }

/-- The trees as if nothing was ever searched for. -/
def Trees.unmarked : Trees → Trees
  | empty => empty
  | node top below beside => node top.unmarked below.unmarked beside.unmarked

/-- The forest as if nothing was ever searched for. -/
def Forest.unmarked (forest : Forest) : Forest := { forest with roots := forest.roots.unmarked }

section Query

variable {query : Query}

/-- A query that is not active finds nothing. -/
theorem Query.finds_of_inactive (h : query.isActive = false) (occurrence : Occurrence) :
    query.finds occurrence = false := by
  have hnone : query.needle = none := by
    cases hneedle : query.needle with
    | none => rfl
    | some needle =>
      unfold isActive at h
      rw [hneedle] at h
      cases h
  have hno : query.hits = fun _ => false := by
    funext label
    unfold hits
    rw [hnone]
  unfold finds matchesLabels
  rw [hno, List.any_eq_false.mpr fun _ _ => Bool.false_ne_true]
  rfl

/-- What is a hit, what is above one and what is neither. -/
theorem Query.markOf_iff (query : Query) (tree : Subtree) :
    (query.markOf tree = .hit ↔ query.finds tree.top = true) ∧
    (query.markOf tree = .aboveHit ↔
      query.finds tree.top = false ∧ ∃ lower ∈ tree.below.walk, query.finds lower = true) ∧
    (query.markOf tree = .plain ↔
      query.finds tree.top = false ∧ ∀ lower ∈ tree.below.walk, query.finds lower = false) := by
  have hnone : (∀ lower ∈ tree.below.walk, query.finds lower = false) ↔
      tree.below.walk.any query.finds = false := by
    rw [List.any_eq_false]
    simp only [Bool.not_eq_true]
  rw [hnone, ← List.any_eq_true]
  unfold markOf
  cases query.finds tree.top <;> cases tree.below.walk.any query.finds <;> simp

end Query

namespace Trees

variable {query : Query}

/-- Some tree of a marked row has a marked top exactly if the query finds something in the row,
at whatever depth. -/
theorem anyMarked_markedBy (query : Query) (trees : Trees) :
    (trees.markedBy query).anyMarked = trees.walk.any query.finds := by
  induction trees with
  | empty => rfl
  | node top below beside ihBelow ihBeside =>
    have htop : query.matchesLabels top.label top.altLabels = query.finds top := rfl
    unfold markedBy anyMarked walk
    rw [List.any_cons, List.any_append, ihBelow, ihBeside, htop]
    cases query.finds top <;> cases below.walk.any query.finds <;> simp

/-- A tree is marked at its top by all that is below, and marked below. -/
theorem markedBy_node (query : Query) (top : Occurrence) (below beside : Trees) :
    (node top below beside).markedBy query =
      node { top with mark := query.markOf ⟨top, below⟩ } (below.markedBy query)
        (beside.markedBy query) := by
  have hmark : query.markOf ⟨top, below⟩ =
      if query.matchesLabels top.label top.altLabels then .hit
      else if (below.markedBy query).anyMarked then .aboveHit
      else .plain := by
    rw [anyMarked_markedBy]
    rfl
  rw [hmark]
  rfl

/-- Marks are all that a search changes. -/
theorem unmarked_markedBy (query : Query) (trees : Trees) :
    (trees.markedBy query).unmarked = trees.unmarked := by
  induction trees with
  | empty => rfl
  | node top below beside ihBelow ihBeside =>
    unfold markedBy unmarked
    rw [ihBelow, ihBeside]
    rfl

/-- Marks are not looked at by a search. -/
theorem markedBy_unmarked (query : Query) (trees : Trees) :
    trees.unmarked.markedBy query = trees.markedBy query := by
  induction trees with
  | empty => rfl
  | node top below beside ihBelow ihBeside =>
    unfold unmarked markedBy
    rw [ihBelow, ihBeside]
    rfl

/-- A search leaves no trace of an earlier one. -/
theorem markedBy_markedBy (query earlier : Query) (trees : Trees) :
    (trees.markedBy earlier).markedBy query = trees.markedBy query := by
  rw [← markedBy_unmarked query (trees.markedBy earlier), unmarked_markedBy, markedBy_unmarked]

/-- A query finds in the marked trees what it finds in the trees. -/
theorem any_finds_walk_markedBy (query earlier : Query) (trees : Trees) :
    (trees.markedBy earlier).walk.any query.finds = trees.walk.any query.finds := by
  rw [← anyMarked_markedBy, markedBy_markedBy, anyMarked_markedBy]

/-- A query gives a marked tree the mark that it gives the tree, whose labels are the same. -/
theorem markOf_markedBy (query earlier : Query) (tree : Subtree) :
    query.markOf (tree.markedBy earlier) = query.markOf tree := by
  unfold Query.markOf Subtree.markedBy
  dsimp only
  rw [any_finds_walk_markedBy]
  rfl

/-- The trees of a marked row, at any depth, are those of the row, marked. -/
theorem subtrees_markedBy (query : Query) (trees : Trees) :
    (trees.markedBy query).subtrees = trees.subtrees.map (·.markedBy query) := by
  induction trees with
  | empty => rfl
  | node top below beside ihBelow ihBeside =>
    rw [markedBy_node]
    unfold subtrees
    rw [List.map_cons, List.map_append, ihBelow, ihBeside]
    rfl

/-- Each tree at any depth is marked at its top by all that is below it. -/
theorem mark_of_mem_subtrees_markedBy {trees : Trees} {tree : Subtree}
    (mem : tree ∈ (trees.markedBy query).subtrees) : tree.top.mark = query.markOf tree := by
  rw [subtrees_markedBy] at mem
  obtain ⟨plain, _, rfl⟩ := List.mem_map.mp mem
  exact (markOf_markedBy query query plain).symm

/-- Every occurrence is the top of a tree. -/
theorem map_top_subtrees (trees : Trees) : trees.subtrees.map Subtree.top = trees.walk := by
  induction trees with
  | empty => rfl
  | node top below beside ihBelow ihBeside =>
    unfold subtrees walk
    rw [List.map_cons, List.map_append, ihBelow, ihBeside]

/-- The occurrences of a row are the tops of its trees. -/
theorem mem_walk_iff {trees : Trees} {top : Occurrence} :
    top ∈ trees.walk ↔ ∃ tree ∈ trees.subtrees, tree.top = top := by
  rw [← map_top_subtrees, List.mem_map]

/-- The top of each tree of a row is one of its occurrences. -/
theorem top_mem_walk {trees : Trees} {tree : Subtree} (ht : tree ∈ trees.subtrees) :
    tree.top ∈ trees.walk :=
  mem_walk_iff.mpr ⟨tree, ht, rfl⟩

/-- Marks change neither the concepts that occur nor the paths they occur at. -/
theorem exists_of_mem_walk_markedBy {trees : Trees} {top : Occurrence}
    (mem : top ∈ (trees.markedBy query).walk) :
    ∃ plain ∈ trees.walk, top.id = plain.id ∧ top.path = plain.path := by
  obtain ⟨tree, ht, rfl⟩ := mem_walk_iff.mp mem
  rw [subtrees_markedBy] at ht
  obtain ⟨plain, hp, rfl⟩ := List.mem_map.mp ht
  exact ⟨plain.top, top_mem_walk hp, rfl, rfl⟩

/-- A search for nothing takes all marks away. -/
theorem markedBy_of_inactive (h : query.isActive = false) (trees : Trees) :
    trees.markedBy query = trees.unmarked := by
  induction trees with
  | empty => rfl
  | node top below beside ihBelow ihBeside =>
    have hplain : query.markOf ⟨top, below⟩ = .plain :=
      (query.markOf_iff ⟨top, below⟩).2.2.mpr
        ⟨Query.finds_of_inactive h top, fun lower _ => Query.finds_of_inactive h lower⟩
    rw [markedBy_node, hplain, ihBelow, ihBeside]
    rfl

end Trees

/-- Trees grow without marks. -/
theorem Projection.unmarked_grow (graph : ConceptGraph) (above : Option PathText)
    (line ids : List ConceptId) :
    (grow graph above line ids).unmarked = grow graph above line ids := by
  fun_induction grow graph above line ids with
  | case1 => rfl
  | case2 _ _ _ _ _ ih => exact ih
  | case3 _ _ _ _ _ _ ih => exact ih
  | case4 _ _ _ _ _ _ _ _ ihBelow ihBeside =>
    unfold Trees.unmarked
    rw [ihBelow, ihBeside]
    rfl

namespace Forest

variable {query : Query}

/-- A search for nothing takes all marks away. -/
theorem markedBy_of_inactive (h : query.isActive = false) (forest : Forest) :
    forest.markedBy query = forest.unmarked := by
  unfold markedBy unmarked
  rw [Trees.markedBy_of_inactive h]

/-- Where nothing is searched for, every occurrence is plain. -/
theorem mark_of_mem_walk_of_inactive (h : query.isActive = false) {forest : Forest}
    {occurrence : Occurrence} (mem : occurrence ∈ (forest.markedBy query).walk) :
    occurrence.mark = .plain := by
  obtain ⟨tree, htree, rfl⟩ := Trees.mem_walk_iff.mp mem
  rw [Trees.mark_of_mem_subtrees_markedBy htree, (query.markOf_iff tree).2.2]
  exact ⟨Query.finds_of_inactive h tree.top, fun lower _ => Query.finds_of_inactive h lower⟩

/-- A graph is projected without marks. -/
theorem unmarked_project (graph : ConceptGraph) : graph.project.unmarked = graph.project := by
  unfold unmarked ConceptGraph.project
  dsimp only
  rw [Projection.unmarked_grow]

/-- A search changes nothing but the marks; an occurrence is then a hit if one of its own labels
holds the text, else above a hit if a label of something at any depth below does, and else plain,
and all are plain where nothing is searched for; so a search leaves no trace of an earlier one, and
the forest of a graph stays as it was made where nothing is searched for. -/
theorem marks_exact (forest : Forest) (query : Query) :
    (forest.markedBy query).unmarked = forest.unmarked ∧
    (∀ tree ∈ (forest.markedBy query).roots.subtrees,
      (tree.top.mark = .hit ↔ query.finds tree.top = true) ∧
      (tree.top.mark = .aboveHit ↔
        query.finds tree.top = false ∧ ∃ lower ∈ tree.below.walk, query.finds lower = true) ∧
      (tree.top.mark = .plain ↔
        query.finds tree.top = false ∧ ∀ lower ∈ tree.below.walk, query.finds lower = false)) ∧
    (query.isActive = false →
      ∀ occurrence ∈ (forest.markedBy query).walk, occurrence.mark = .plain) ∧
    (∀ earlier, (forest.markedBy earlier).markedBy query = forest.markedBy query) ∧
    (query.isActive = false →
      ∀ graph : ConceptGraph, graph.project.markedBy query = graph.project) := by
  refine ⟨?_, fun tree mem => ?_, fun h _ => mark_of_mem_walk_of_inactive h, fun earlier => ?_,
    fun h graph => ?_⟩
  · unfold unmarked markedBy
    rw [Trees.unmarked_markedBy]
  · rw [Trees.mark_of_mem_subtrees_markedBy mem]
    exact query.markOf_iff tree
  · unfold markedBy
    rw [Trees.markedBy_markedBy]
  · rw [markedBy_of_inactive h, unmarked_project]

/-- The forest of the animals, searched for birds before. -/
def animalsSearched : Forest :=
  (ConceptGraph.ofRecords Samples.animals).project.markedBy (Query.ofText "bird" 2)

/-- Searched for dogs after it was searched for birds, the animals show a dog below the canines and
nothing else is left; searched for nothing they show no mark. -/
theorem marks_exact_animals :
    (∃ tree ∈ (animalsSearched.markedBy (Query.ofText "Dog " 2)).roots.subtrees,
      tree.top.id = "canines" ∧ tree.top.mark = .aboveHit) ∧
    animalsSearched.markedBy (Query.ofText "Dog " 2) =
      (ConceptGraph.ofRecords Samples.animals).project.markedBy (Query.ofText "Dog " 2) ∧
    (Query.ofText " d " 2).isActive = false ∧
    (∀ occurrence ∈ (animalsSearched.markedBy (Query.ofText " d " 2)).walk,
      occurrence.mark = .plain) ∧
    (ConceptGraph.ofRecords Samples.animals).project.markedBy (Query.ofText " d " 2) =
      (ConceptGraph.ofRecords Samples.animals).project := by
  have hcanines : ∃ tree ∈ (animalsSearched.markedBy (Query.ofText "Dog " 2)).roots.subtrees,
      tree.top.id = "canines" ∧ (Query.ofText "Dog " 2).finds tree.top = false ∧
        ∃ lower ∈ tree.below.walk, (Query.ofText "Dog " 2).finds lower = true := by
    decide +kernel
  have hshort : (Query.ofText " d " 2).isActive = false := by decide
  obtain ⟨tree, mem, hid, hmissed, hbelow⟩ := hcanines
  obtain ⟨_, hmarks, _, _, _⟩ := marks_exact animalsSearched (Query.ofText "Dog " 2)
  obtain ⟨_, hlast, _⟩ := (marks_exact
    (ConceptGraph.ofRecords Samples.animals).project (Query.ofText "Dog " 2)).2.2
  obtain ⟨hplain, _, hfresh⟩ := (marks_exact animalsSearched (Query.ofText " d " 2)).2.2
  exact ⟨⟨tree, mem, hid, (hmarks tree mem).2.1.mpr ⟨hmissed, hbelow⟩⟩, hlast _, hshort,
    hplain hshort, hfresh hshort _⟩

end Forest

end Thesaurus

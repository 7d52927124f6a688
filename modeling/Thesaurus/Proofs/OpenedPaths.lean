import Thesaurus.Proofs.Addresses
import Thesaurus.Proofs.VisibleRows

/-!
# Opening what is above an occurrence

An occurrence is visible where the paths of all occurrences above it are open. To reveal a concept
opens the paths that come of cutting the path of its first occurrence at the separators. In the
forest of a graph these are the paths of the occurrences above that one, so it is visible then, and
no other path is opened. To open everything opens the paths of the occurrences that have others
below them, so every occurrence is visible then.
-/

namespace Thesaurus

/-- The line of the first occurrence of a concept in display order. -/
def Forest.firstLine? (forest : Forest) (id : ConceptId) : Option (List Occurrence) :=
  forest.lines.find? fun line => line.head?.any (·.id = id)

/-- Marks change no concepts of the occurrences. -/
theorem Trees.map_id_walk_markedBy (query : Query) (trees : Trees) :
    (trees.markedBy query).walk.map Occurrence.id = trees.walk.map Occurrence.id := by
  rw [← map_top_subtrees, ← map_top_subtrees, subtrees_markedBy, List.map_map, List.map_map,
    List.map_map]
  rfl

/-- What stands above the end of a line of a row stands above the row, or it has others below it. -/
theorem Trees.exists_branch_of_mem_lines {trees : Trees} {above line : List Occurrence}
    (mem : line ∈ trees.lines above) {upper : Occurrence} (hu : upper ∈ line.tail) :
    upper ∈ above ∨ ∃ tree ∈ trees.subtrees, tree.top = upper ∧ tree.below ≠ .empty := by
  induction trees generalizing above with
  | empty => cases mem
  | node top below beside ihBelow ihBeside =>
    unfold lines at mem
    unfold subtrees
    rcases List.mem_cons.mp mem with rfl | mem
    · exact Or.inl hu
    · rcases List.mem_append.mp mem with mem | mem
      · have hbranch : below ≠ .empty := by
          rintro rfl
          cases mem
        rcases ihBelow mem with habove | ⟨tree, ht, htree⟩
        · rcases List.mem_cons.mp habove with rfl | habove
          · exact Or.inr ⟨⟨upper, below⟩, List.mem_cons_self, rfl, hbranch⟩
          · exact Or.inl habove
        · exact Or.inr ⟨tree, List.mem_cons_of_mem _ (List.mem_append_left _ ht), htree⟩
      · rcases ihBeside mem with habove | ⟨tree, ht, htree⟩
        · exact Or.inl habove
        · exact Or.inr ⟨tree, List.mem_cons_of_mem _ (List.mem_append_right _ ht), htree⟩

namespace Forest

variable {forest : Forest} {id : ConceptId}

/-- At the end of the first line of a concept is the first of its occurrences that is walked
through. -/
theorem firstLine?_bind_head? (forest : Forest) (id : ConceptId) :
    (forest.firstLine? id).bind List.head? = forest.walk.find? (·.id = id) := by
  have hlines : forest.lines.map List.head? = forest.walk.map some :=
    Trees.map_head?_lines forest.roots []
  have hfind := congrArg (List.find? fun top : Option Occurrence => top.any (·.id = id)) hlines
  rw [List.find?_map, List.find?_map] at hfind
  have hjoin := congrArg (Option.bind · fun found => found) hfind
  rw [Option.bind_map, Option.bind_map] at hjoin
  exact hjoin.trans (Option.bind_fun_some _)

/-- The first line of a concept is a line of the forest, and ends at an occurrence. -/
theorem of_firstLine? {line : List Occurrence} (h : forest.firstLine? id = some line) :
    line ∈ forest.lines ∧ ∃ top above, line = top :: above := by
  refine ⟨List.mem_of_find?_eq_some h, ?_⟩
  have hhead := List.find?_some h
  rw [Option.any_eq_true] at hhead
  obtain ⟨top, htop, _⟩ := hhead
  exact ⟨top, List.head?_eq_some_iff.mp htop⟩

end Forest

namespace ConceptGraph

variable {graph : ConceptGraph} {queries : List Query}

/-- However the forest of a graph was searched, the paths along its lines are those of their ids. -/
theorem follows_of_mem_searched_lines {line : List Occurrence}
    (mem : line ∈ (graph.searched queries).lines) : FollowsPaths line := by
  unfold searched at mem
  obtain ⟨query, heq⟩ := Forest.exists_markedBy_eq graph queries
  rw [heq] at mem
  exact follows_of_mem_lines mem

/-- However the forest of a graph was searched, a concept does not occur exactly if the graph does
not know it or it is left out. -/
theorem find?_walk_searched_eq_none_iff {id : ConceptId} :
    (graph.searched queries).walk.find? (·.id = id) = none ↔
      graph.contains id = false ∨ id ∈ (graph.searched queries).omitted := by
  unfold searched
  obtain ⟨query, heq⟩ := Forest.exists_markedBy_eq graph queries
  rw [heq]
  have hids : (graph.project.markedBy query).walk.map Occurrence.id =
      graph.project.walk.map Occurrence.id := Trees.map_id_walk_markedBy query _
  have homitted : (graph.project.markedBy query).omitted = graph.project.omitted := rfl
  have hnone : (graph.project.markedBy query).walk.find? (·.id = id) = none ↔
      id ∉ graph.project.walk.map Occurrence.id := by
    rw [← hids, List.find?_eq_none, List.mem_map, not_exists]
    simp only [decide_eq_true_eq, not_and]
  have hknown : id ∈ graph.project.walk.map Occurrence.id → id ∈ graph.ids := by
    intro mem
    obtain ⟨top, htop, rfl⟩ := List.mem_map.mp mem
    exact contains_iff.mp (contains_of_mem_walk htop)
  rw [hnone, homitted, mem_omitted_iff, ← Bool.not_eq_true, contains_iff]
  constructor
  · intro hout
    exact (Decidable.em (id ∈ graph.ids)).symm.imp_right fun hin => ⟨hin, hout⟩
  · rintro (hunknown | ⟨_, hout⟩)
    · exact fun mem => hunknown (hknown mem)
    · exact hout

end ConceptGraph

namespace Expansion

/-- What it does to open paths so that the first occurrence of a concept can be seen. -/
structure RevealsFirst (expansion : Expansion) (forest : Forest) (id : ConceptId) : Prop where
  /-- The answer is the path of the first occurrence that is walked through, if there is one. -/
  answer_eq : (expansion.reveal forest id).1 =
    (forest.walk.find? (·.id = id)).map Occurrence.path
  /-- The first line of the concept ends at that occurrence. -/
  ends_first : (forest.firstLine? id).bind List.head? = forest.walk.find? (·.id = id)
  /-- The occurrence is visible then. -/
  visible : ∀ line, forest.firstLine? id = some line →
    isVisible (expansion.reveal forest id).2.isOpen line = true
  /-- A path is open then if it was, or if an occurrence above that one has it. -/
  isOpen_iff : ∀ path, (expansion.reveal forest id).2.isOpen path = true ↔
    expansion.isOpen path = true ∨
      ∃ line, forest.firstLine? id = some line ∧ path ∈ line.tail.map Occurrence.path
  /-- Where there is no answer, nothing changes. -/
  unchanged : (expansion.reveal forest id).1 = none →
    (expansion.reveal forest id).2 = expansion
  /-- The selection is the same. -/
  selected_eq : (expansion.reveal forest id).2.selected = expansion.selected

/-- What it does to open every occurrence that has others below it. -/
structure OpensAll (expansion : Expansion) (forest : Forest) : Prop where
  /-- Every occurrence is visible then. -/
  visible : ∀ line ∈ forest.lines, isVisible (expansion.expandAll forest).isOpen line = true
  /-- A path is open then if it was, or if an occurrence that has others below it has it. -/
  isOpen_iff : ∀ path, (expansion.expandAll forest).isOpen path = true ↔
    expansion.isOpen path = true ∨
      ∃ tree ∈ forest.roots.subtrees, tree.below ≠ .empty ∧ tree.top.path = path
  /-- The selection is the same. -/
  selected_eq : (expansion.expandAll forest).selected = expansion.selected

section Opened

variable {expansion : Expansion} {forest : Forest} {id : ConceptId} {path : PathText}

/-- The answer to revealing a concept is the path of the first occurrence that is walked through. -/
theorem reveal_fst (expansion : Expansion) (forest : Forest) (id : ConceptId) :
    (expansion.reveal forest id).1 = (forest.walk.find? (·.id = id)).map Occurrence.path := by
  unfold reveal Forest.occurrencesOf
  rw [List.head?_filter]
  cases forest.walk.find? (·.id = id) <;> rfl

/-- To reveal a concept opens the ancestors of the answer. -/
theorem isOpen_reveal_iff_answer : (expansion.reveal forest id).2.isOpen path = true ↔
    expansion.isOpen path = true ∨
      ∃ found, (expansion.reveal forest id).1 = some found ∧ path ∈ Path.ancestors found := by
  unfold reveal
  cases (forest.occurrencesOf id).head? with
  | none => simp only [reduceCtorEq, false_and, exists_const, or_false]
  | some first => simp only [isOpen_extend, Option.some.injEq, exists_eq_left']

/-- Where the paths along lines are those of their ids, the ancestors of the answer are the paths of
what stands above the first occurrence. -/
theorem mem_ancestors_answer (h : ∀ line ∈ forest.lines, FollowsPaths line) :
    (∃ found, (expansion.reveal forest id).1 = some found ∧ path ∈ Path.ancestors found) ↔
      ∃ line, forest.firstLine? id = some line ∧ path ∈ line.tail.map Occurrence.path := by
  rw [reveal_fst, ← forest.firstLine?_bind_head? id]
  cases hline : forest.firstLine? id with
  | none => simp only [Option.bind_none, Option.map_none, reduceCtorEq, false_and, exists_const]
  | some line =>
    obtain ⟨mem, top, above, rfl⟩ := Forest.of_firstLine? hline
    simp only [Option.bind_some, List.head?_cons, Option.map_some, Option.some.injEq,
      exists_eq_left', (h _ mem).ancestors, List.mem_reverse, List.tail_cons]

/-- Where the paths along lines are those of their ids, to reveal a concept opens the paths of what
stands above its first occurrence. -/
theorem isOpen_reveal (h : ∀ line ∈ forest.lines, FollowsPaths line) :
    (expansion.reveal forest id).2.isOpen path = true ↔ expansion.isOpen path = true ∨
      ∃ line, forest.firstLine? id = some line ∧ path ∈ line.tail.map Occurrence.path := by
  rw [isOpen_reveal_iff_answer, mem_ancestors_answer h]

/-- Where the paths along lines are those of their ids, revealing a concept shows its first
occurrence. -/
theorem revealsFirst (h : ∀ line ∈ forest.lines, FollowsPaths line) :
    expansion.RevealsFirst forest id where
  answer_eq := reveal_fst expansion forest id
  ends_first := forest.firstLine?_bind_head? id
  visible line hline := by
    refine List.all_eq_true.mpr fun upper hupper => ?_
    exact (isOpen_reveal h).mpr (Or.inr ⟨line, hline, List.mem_map_of_mem hupper⟩)
  isOpen_iff _ := isOpen_reveal h
  unchanged hnone := by
    unfold reveal at hnone ⊢
    split at hnone
    · cases hnone
    · rfl
  selected_eq := by
    unfold reveal
    split <;> rfl

/-- To open everything opens the paths of the occurrences that have others below them. -/
theorem isOpen_expandAll : (expansion.expandAll forest).isOpen path = true ↔
    expansion.isOpen path = true ∨
      ∃ tree ∈ forest.roots.subtrees, tree.below ≠ .empty ∧ tree.top.path = path := by
  have hbranch : ∀ trees : Trees, (!trees.isEmpty) = true ↔ trees ≠ .empty := by
    intro trees
    cases trees <;> simp [Trees.isEmpty]
  unfold expandAll branchPaths
  rw [isOpen_extend]
  simp only [List.mem_map, List.mem_filter, hbranch, and_assoc]

/-- To open everything shows every occurrence. -/
theorem opensAll (expansion : Expansion) (forest : Forest) : expansion.OpensAll forest where
  visible line mem := by
    refine List.all_eq_true.mpr fun upper hupper => isOpen_expandAll.mpr (Or.inr ?_)
    rcases Trees.exists_branch_of_mem_lines mem hupper with hnone | ⟨tree, ht, rfl, hbelow⟩
    · cases hnone
    · exact ⟨tree, ht, hbelow, rfl⟩
  isOpen_iff _ := isOpen_expandAll
  selected_eq := rfl

end Opened

/-- In the forest of a graph, however it was searched, to reveal a concept answers with the path of
its first occurrence and opens exactly the paths of what stands above it, so that it is visible;
there is no answer, and nothing changes, exactly if the graph does not know the concept or the
forest leaves it out. To open everything opens exactly the paths of the occurrences that have others
below them, so that every occurrence is visible. Neither changes the selection. -/
theorem opened_to_show (graph : ConceptGraph) (queries : List Query) (expansion : Expansion) :
    (∀ id, expansion.RevealsFirst (graph.searched queries) id ∧
      ((expansion.reveal (graph.searched queries) id).1 = none ↔
        graph.contains id = false ∨ id ∈ (graph.searched queries).omitted)) ∧
      expansion.OpensAll (graph.searched queries) := by
  refine ⟨fun id => ⟨revealsFirst fun _ => ConceptGraph.follows_of_mem_searched_lines, ?_⟩,
    opensAll expansion _⟩
  rw [reveal_fst, Option.map_eq_none_iff]
  exact ConceptGraph.find?_walk_searched_eq_none_iff

/-- The forest of the records whose ids are written otherwise in paths, searched for the percent. -/
def percentSearched : Forest :=
  (ConceptGraph.ofRecords ConceptGraph.slashed).searched [Query.ofText "per" 2]

/-- To reveal the percent opens the path above it, which escapes the separator in the id, and so the
percent is visible. Of the tangled concepts the north, which no root leads to, is not revealed, and
every occurrence is visible once everything is open. -/
theorem opened_to_show_slashed :
    (initial.reveal percentSearched "%").1 = some "and%2For/%25" ∧
    (∃ line, percentSearched.firstLine? "%" = some line ∧
      line.map Occurrence.path = ["and%2For/%25", "and%2For"] ∧
      isVisible (initial.reveal percentSearched "%").2.isOpen line = true) ∧
    (initial.reveal percentSearched "%").2.isOpen "and%2For" = true ∧
    initial.reveal ((ConceptGraph.ofRecords ConceptGraph.tangled).searched []) "north" =
      (none, initial) ∧
    initial.OpensAll ((ConceptGraph.ofRecords ConceptGraph.tangled).searched []) := by
  obtain ⟨hpercent, _⟩ := (opened_to_show (ConceptGraph.ofRecords ConceptGraph.slashed)
    [Query.ofText "per" 2] initial).1 "%"
  obtain ⟨htangled, hall⟩ := opened_to_show (ConceptGraph.ofRecords ConceptGraph.tangled) [] initial
  obtain ⟨hnorth, hnone⟩ := htangled "north"
  have hpaths : (percentSearched.firstLine? "%").map (·.map Occurrence.path) =
      some ["and%2For/%25", "and%2For"] := by
    decide +kernel
  obtain ⟨line, hline, hpath⟩ := Option.map_eq_some_iff.mp hpaths
  have habove : "and%2For" ∈ line.tail.map Occurrence.path := by
    rw [List.map_tail, hpath]
    decide
  have hmissing := hnone.mpr (Or.inr (by decide +kernel))
  exact ⟨hpercent.answer_eq.trans (by decide +kernel),
    ⟨line, hline, hpath, hpercent.visible line hline⟩,
    (hpercent.isOpen_iff _).mpr (Or.inr ⟨line, hline, habove⟩),
    Prod.ext hmissing (hnorth.unchanged hmissing), hall⟩

end Expansion

end Thesaurus

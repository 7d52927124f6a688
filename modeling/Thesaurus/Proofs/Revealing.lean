import Thesaurus.Proofs.Marking
import Thesaurus.Proofs.Placement
import Thesaurus.Proofs.SessionRun

/-!
# What a search opens

A search opens the paths that come of cutting the paths of marked occurrences at their separators.
In the forest of a graph these are the paths of the occurrences above, so a search opens exactly
the paths of the occurrences that have a hit at some depth below them. It closes no path, and it
opens none at which nothing stands below.
-/

namespace Thesaurus

namespace Path

/-- The paths that come by on the way down to what stands below a path, that path the last. -/
def downTo : Option PathText → List PathText
  | none => []
  | some path => ancestors path ++ [path]

/-- The ancestors of a path are those on the way down to it. -/
theorem ancestors_extend (above : Option PathText) (id : ConceptId) :
    ancestors (extend above id) = downTo above := by
  cases above with
  | none => exact ancestors_root id
  | some path => exact ancestors_child path id

/-- An ancestor of an ancestor is an ancestor. -/
theorem ancestors_trans {upper middle lower : PathText} (hupper : upper ∈ ancestors middle)
    (hmiddle : middle ∈ ancestors lower) : upper ∈ ancestors lower := by
  simp only [mem_ancestors_iff] at hupper hmiddle ⊢
  obtain ⟨first, rfl⟩ := hupper
  obtain ⟨second, rfl⟩ := hmiddle
  exact ⟨join first second, join_join upper first second⟩

end Path

namespace Trees

variable {trees : Trees} {tree : Subtree} {above : Option PathText}

/-- What stands below a tree of a row stands in the row. -/
theorem mem_walk_of_mem_below {lower : Occurrence} (ht : tree ∈ trees.subtrees)
    (hl : lower ∈ tree.below.walk) : lower ∈ trees.walk := by
  induction trees with
  | empty => simp only [subtrees, List.not_mem_nil] at ht
  | node top below beside ihBelow ihBeside =>
    simp only [subtrees, walk, List.mem_cons, List.mem_append] at ht ⊢
    rcases ht with rfl | ht | ht
    · exact Or.inr (Or.inl hl)
    · exact Or.inr (Or.inl (ihBelow ht))
    · exact Or.inr (Or.inr (ihBeside ht))

/-- Where the paths are those of the ids, they are so below each tree. -/
theorem PathsBelow.of_mem_subtrees (h : trees.PathsBelow above) (ht : tree ∈ trees.subtrees) :
    tree.below.PathsBelow (some tree.top.path) := by
  induction trees generalizing above with
  | empty => simp only [subtrees, List.not_mem_nil] at ht
  | node top below beside ihBelow ihBeside =>
    simp only [subtrees, List.mem_cons, List.mem_append] at ht
    rcases ht with rfl | ht | ht
    · exact h.2.1
    · exact ihBelow h.2.1 ht
    · exact ihBeside h.2.2 ht

/-- The path that a row stands below is an ancestor of all paths in the row. -/
theorem PathsBelow.mem_ancestors {path : PathText} {lower : Occurrence}
    (h : trees.PathsBelow (some path)) (hl : lower ∈ trees.walk) :
    path ∈ Path.ancestors lower.path := by
  induction trees generalizing path with
  | empty => simp only [walk, List.not_mem_nil] at hl
  | node top below beside ihBelow ihBeside =>
    have htop : path ∈ Path.ancestors top.path := by
      rw [h.1, Path.ancestors_extend]
      exact List.mem_concat_self
    simp only [walk, List.mem_cons, List.mem_append] at hl
    rcases hl with rfl | hl | hl
    · exact htop
    · exact Path.ancestors_trans htop (ihBelow h.2.1 hl)
    · exact ihBeside h.2.2 hl

/-- An ancestor of a path in a row is on the way down to the row, or it is the path of a tree of
the row that the one with the path stands in. -/
theorem PathsBelow.exists_of_mem_ancestors {part : Subtree} {path : PathText}
    (h : trees.PathsBelow above) (hp : part ∈ trees.subtrees)
    (ha : path ∈ Path.ancestors part.top.path) :
    path ∈ Path.downTo above ∨
      ∃ tree ∈ trees.subtrees, tree.top.path = path ∧ part ∈ tree.below.subtrees := by
  induction trees generalizing above with
  | empty => simp only [subtrees, List.not_mem_nil] at hp
  | node top below beside ihBelow ihBeside =>
    have htop : Path.ancestors top.path = Path.downTo above := by
      rw [h.1, Path.ancestors_extend]
    simp only [subtrees, List.mem_cons, List.mem_append] at hp ⊢
    rcases hp with rfl | hp | hp
    · exact Or.inl (htop ▸ ha)
    · have hbelow := ihBelow h.2.1 hp
      simp only [Path.downTo, List.mem_append, List.mem_singleton, htop] at hbelow
      rcases hbelow with (hdown | hsame) | ⟨tree, ht, hpath, hpart⟩
      · exact Or.inl hdown
      · exact Or.inr ⟨⟨top, below⟩, Or.inl rfl, hsame.symm, hp⟩
      · exact Or.inr ⟨tree, Or.inr (Or.inl ht), hpath, hpart⟩
    · rcases ihBeside h.2.2 hp with hdown | ⟨tree, ht, hpath, hpart⟩
      · exact Or.inl hdown
      · exact Or.inr ⟨tree, Or.inr (Or.inr ht), hpath, hpart⟩

/-- Each tree of a marked row was one of the row, its top at the same path, and is marked below. -/
theorem exists_of_mem_subtrees_markedBy {query : Query}
    (ht : tree ∈ (trees.markedBy query).subtrees) :
    ∃ plain ∈ trees.subtrees, tree.top.id = plain.top.id ∧ tree.top.path = plain.top.path ∧
      tree.below = plain.below.markedBy query := by
  rw [subtrees_markedBy] at ht
  obtain ⟨plain, hp, rfl⟩ := List.mem_map.mp ht
  exact ⟨plain, hp, rfl, rfl, rfl⟩

/-- In a marked row, the hits are the occurrences that the query finds. -/
theorem mark_eq_hit_iff {query : Query} {lower : Occurrence}
    (hl : lower ∈ (trees.markedBy query).walk) :
    lower.mark = .hit ↔ query.finds lower = true := by
  obtain ⟨part, hp, rfl⟩ := mem_walk_iff.mp hl
  rw [mark_of_mem_subtrees_markedBy hp]
  exact (query.markOf_iff part).1

end Trees

namespace Projection

/-- In the trees of a graph, what stands below an occurrence is decided by its path. -/
theorem below_of_mem_subtrees_grow {graph : ConceptGraph} {above : Option PathText}
    {line ids : List ConceptId} (hline : (above.map Path.ids).getD [] = line.reverse)
    {tree : Subtree} (ht : tree ∈ (grow graph above line ids).subtrees) :
    tree.below = grow graph (some tree.top.path) (Path.ids tree.top.path).reverse
        (graph.childrenOf tree.top.id) ∧
      (Path.ids tree.top.path).getLast? = some tree.top.id := by
  obtain ⟨_, _, concept, hgrown⟩ := exists_grown hline ht
  have hid : tree.top.id = concept.id := by
    rw [hgrown.top_eq]
    rfl
  rw [hgrown.ids_path, List.reverse_append, List.reverse_reverse, List.getLast?_concat, hid]
  exact ⟨hgrown.below_eq, rfl⟩

end Projection

namespace Forest

/-- Whether an occurrence at a path has a hit at some depth below it. -/
def HidesHit (forest : Forest) (path : PathText) : Prop :=
  ∃ tree ∈ forest.roots.subtrees, tree.top.path = path ∧
    ∃ lower ∈ tree.below.walk, lower.mark = .hit

section Projected

variable {graph : ConceptGraph} {query : Query}

/-- The paths in the marked forest of a graph are those of the ids. -/
theorem pathsBelow_project (graph : ConceptGraph) (query : Query) :
    (graph.project.markedBy query).roots.PathsBelow none := by
  have hgrow : graph.project.roots.PathsBelow none :=
    Projection.grow_pathsBelow graph none [] (graph.roots.map Concept.id)
  exact hgrow.markedBy query

/-- The paths to be opened are those of the occurrences with a hit below them. -/
theorem mem_pathsToOpen_iff {path : PathText} :
    path ∈ (graph.project.markedBy query).pathsToOpen ↔
      (graph.project.markedBy query).HidesHit path := by
  have hpaths := pathsBelow_project graph query
  have hwalk : (graph.project.markedBy query).walk =
      (graph.project.markedBy query).roots.subtrees.map Subtree.top :=
    (Trees.map_top_subtrees _).symm
  simp only [pathsToOpen, TextSet.mem_gather, TextSet.mem_ofList, List.mem_filter,
    decide_eq_true_eq, hwalk, List.mem_map]
  constructor
  · rintro ⟨_, ⟨⟨part, hp, rfl⟩, hmark⟩, ha⟩
    rcases hpaths.exists_of_mem_ancestors hp ha with hnone | ⟨tree, ht, hpath, hpart⟩
    · exact absurd hnone List.not_mem_nil
    · refine ⟨tree, ht, hpath, ?_⟩
      have hin : ∀ lower ∈ part.below.walk, lower ∈ tree.below.walk :=
        fun lower hl => Trees.mem_walk_of_mem_below hpart hl
      have htop : part.top ∈ tree.below.walk := Trees.top_mem_walk hpart
      cases hm : part.top.mark with
      | plain => exact absurd hm hmark
      | hit => exact ⟨part.top, htop, hm⟩
      | aboveHit =>
        -- what is marked as above a hit has one below itself, and so below the tree
        have habove : query.markOf part = .aboveHit :=
          (Trees.mark_of_mem_subtrees_markedBy hp).symm.trans hm
        obtain ⟨_, lower, hl, hfinds⟩ := (query.markOf_iff part).2.1.mp habove
        have hmarked := Trees.mem_walk_of_mem_below ht (hin lower hl)
        exact ⟨lower, hin lower hl, (Trees.mark_eq_hit_iff hmarked).mpr hfinds⟩
  · rintro ⟨tree, ht, rfl, lower, hl, hhit⟩
    have hmem := Trees.mem_walk_iff.mp (Trees.mem_walk_of_mem_below ht hl)
    have hplain : lower.mark ≠ .plain := by rw [hhit]; decide
    exact ⟨lower, ⟨hmem, hplain⟩, (hpaths.of_mem_subtrees ht).mem_ancestors hl⟩

/-- A hit has no hidden place: all that stands above it hides a hit. -/
theorem hidesHit_of_mem_ancestors {hit : Occurrence} {path : PathText}
    (hw : hit ∈ (graph.project.markedBy query).walk) (hm : hit.mark = .hit)
    (ha : path ∈ Path.ancestors hit.path) : (graph.project.markedBy query).HidesHit path := by
  have hplain : hit.mark ≠ .plain := by rw [hm]; decide
  refine mem_pathsToOpen_iff.mp (TextSet.mem_gather.mpr ⟨hit, ?_, TextSet.mem_ofList.mpr ha⟩)
  exact List.mem_filter.mpr ⟨hw, decide_eq_true hplain⟩

/-- Where nothing stands below an occurrence, no occurrence at its path hides a hit. -/
theorem not_hidesHit_of_leaf {tree : Subtree}
    (ht : tree ∈ (graph.project.markedBy query).roots.subtrees) (hleaf : tree.below = .empty) :
    ¬(graph.project.markedBy query).HidesHit tree.top.path := by
  rintro ⟨other, ho, hpath, lower, hl, _⟩
  obtain ⟨plain, hp, _, hpp, hpb⟩ := Trees.exists_of_mem_subtrees_markedBy ht
  obtain ⟨plain', hp', _, hpp', hpb'⟩ := Trees.exists_of_mem_subtrees_markedBy ho
  have hroot : (Option.map Path.ids none).getD [] = ([] : List ConceptId).reverse := rfl
  obtain ⟨hbelow, hlast⟩ := Projection.below_of_mem_subtrees_grow hroot hp
  obtain ⟨hbelow', hlast'⟩ := Projection.below_of_mem_subtrees_grow hroot hp'
  have hsame : plain'.top.path = plain.top.path := by rw [← hpp', hpath, hpp]
  have hid : plain'.top.id = plain.top.id := by
    rw [hsame, hlast] at hlast'
    exact (Option.some.inj hlast').symm
  have hnone : other.below = .empty := by
    rw [hpb', hbelow', hsame, hid, ← hbelow, ← hpb, hleaf]
  simp only [hnone, Trees.walk, List.not_mem_nil] at hl

/-- Where nothing is searched for, nothing hides a hit. -/
theorem not_hidesHit_of_inactive (h : query.isActive = false) (path : PathText) :
    ¬(graph.project.markedBy query).HidesHit path := by
  rintro ⟨tree, ht, _, lower, hl, hhit⟩
  have hplain := mark_of_mem_walk_of_inactive h (Trees.mem_walk_of_mem_below ht hl)
  rw [hhit] at hplain
  cases hplain

end Projected

end Forest

namespace Session

/-- What becomes of the open paths when a graph is shown and searched by a query: the session
before, the graph, the query and the session after. -/
structure Reveals (before : Session) (graph : ConceptGraph) (query : Query) (after : Session) :
    Prop where
  /-- The forest shown is that of the graph, marked by the query. -/
  forest_eq : after.forest = graph.project.markedBy query
  /-- A path is open if it was, or if an occurrence there has a hit at some depth below it. -/
  isOpen_iff : ∀ path, after.isOpen path = true ↔
    before.isOpen path = true ∨ after.forest.HidesHit path
  /-- All that stands above a hit is open. -/
  hits_shown : ∀ hit ∈ after.forest.walk, hit.mark = .hit →
    ∀ path ∈ Path.ancestors hit.path, after.isOpen path = true
  /-- No path is closed. -/
  keeps_open : ∀ path, before.isOpen path = true → after.isOpen path = true
  /-- No path is opened at which nothing stands below. -/
  leaves_alone : ∀ tree ∈ after.forest.roots.subtrees, tree.below = .empty →
    after.isOpen tree.top.path = before.isOpen tree.top.path
  /-- Where nothing is searched for, no path is opened. -/
  idle : query.isActive = false → after.expansion.opened = before.expansion.opened

variable {session : Session}

/-- Marking the trees of a graph opens what hides a hit. -/
theorem isOpen_remark (hp : session.projection = session.graph.project) (path : PathText) :
    session.remark.isOpen path = true ↔ session.isOpen path = true ∨
      (session.graph.project.markedBy session.query).HidesHit path := by
  unfold remark isOpen
  rw [hp]
  dsimp only
  cases hq : session.query.isActive with
  | true =>
    rw [if_pos rfl, Expansion.isOpen_extend, TextSet.mem_toList, Forest.mem_pathsToOpen_iff]
  | false =>
    have hnone : ¬(session.graph.project.markedBy session.query).HidesHit path :=
      Forest.not_hidesHit_of_inactive hq path
    rw [if_neg Bool.false_ne_true]
    simp only [hnone, or_false]

/-- Marking the trees of a graph reveals the hits in it, and opens nothing else. -/
theorem reveals_remark (hp : session.projection = session.graph.project) :
    session.Reveals session.graph session.query session.remark := by
  have hforest : session.remark.forest = session.graph.project.markedBy session.query := by
    rw [← hp]
    rfl
  have hopen := isOpen_remark hp
  constructor
  · exact hforest
  · rw [hforest]
    exact hopen
  · intro hit hw hm path ha
    rw [hforest] at hw
    exact (hopen path).mpr (Or.inr (Forest.hidesHit_of_mem_ancestors hw hm ha))
  · exact fun path h => (hopen path).mpr (Or.inl h)
  · intro tree ht hleaf
    rw [hforest] at ht
    have hnone := Forest.not_hidesHit_of_leaf ht hleaf
    rw [Bool.eq_iff_iff, hopen]
    simp only [hnone, or_false]
  · intro h
    unfold remark
    dsimp only
    rw [if_neg (by rw [h]; exact Bool.false_ne_true)]

/-- What is open before counts alone, not what else the session before held. -/
theorem Reveals.congr {other after : Session} {graph : ConceptGraph} {query : Query}
    (h : session.Reveals graph query after)
    (he : other.expansion.opened = session.expansion.opened) :
    other.Reveals graph query after := by
  have hopen : ∀ path, other.isOpen path = session.isOpen path := by
    intro path
    unfold isOpen Expansion.isOpen
    rw [he]
  constructor
  · exact h.forest_eq
  · simp only [hopen]
    exact h.isOpen_iff
  · exact h.hits_shown
  · simp only [hopen]
    exact h.keeps_open
  · simp only [hopen]
    exact h.leaves_alone
  · rw [he]
    exact h.idle

/-- A search reveals the hits in the graph that is shown. -/
theorem reveals_search (hp : session.projection = session.graph.project) (typed : String) :
    session.Reveals session.graph
      (Query.ofText typed session.settings.tree.searchMinChars) (session.search typed) := by
  have hremark := @reveals_remark { session with
    searchText := typed
    query := Query.ofText typed session.settings.tree.searchMinChars } hp
  exact hremark.congr rfl

/-- A graph that is shown while something is searched for reveals its hits. -/
theorem reveals_setGraph (session : Session) (graph : ConceptGraph) :
    session.Reveals graph session.query (session.setGraph graph) := by
  have hremark := @reveals_remark { session with
    graph
    index := Descendants.ofGraph graph
    projection := graph.project
    drag := dragWithin session.drag graph } rfl
  exact hremark.congr rfl

/-- The graph that the answer to a change brings reveals its hits. -/
theorem reveals_receiveAnswer {scheme : String} (hshown : session.shows scheme = true)
    (change : ParentChange) (graph : ConceptGraph) :
    session.Reveals graph session.query (session.receiveAnswer scheme change (.ok graph)).2 := by
  have hset := reveals_setGraph
    { session with pending := session.pending.erase change.concept } graph
  have hanswer : (session.receiveAnswer scheme change (.ok graph)).2 =
      { session with pending := session.pending.erase change.concept }.setGraph graph := by
    unfold receiveAnswer
    dsimp only
    rw [if_pos hshown]
  rw [hanswer]
  exact hset.congr rfl

/-- The graph that the answer to a load brings reveals its hits, and where the settings ask for it
the roots are opened besides. -/
theorem isOpen_receiveScheme {scheme : String} (hshown : session.shows scheme = true)
    (graph : ConceptGraph) (path : PathText) :
    (session.receiveScheme scheme (.ok graph)).2.isOpen path = true ↔
      (session.setGraph graph).isOpen path = true ∨
        session.settings.tree.expandRootsOnLoad = true ∧
          path ∈ rootPaths (session.setGraph graph).forest := by
  unfold receiveScheme
  simp only [hshown, Bool.not_true, Bool.false_eq_true, if_false]
  cases session.settings.tree.expandRootsOnLoad with
  | true =>
    simp only [if_true, true_and]
    exact Expansion.isOpen_extend
  | false =>
    simp only [Bool.false_eq_true, if_false, false_and, or_false]
    exact Iff.rfl

/-- In every session that a new one can come to, a search for a text opens besides the open paths
exactly the paths of the occurrences that have a hit at some depth below them, and so does a graph
that is shown, by itself or with the answer to a change, while something is searched for: all that
stands above a hit is open then, no open path is closed, none is opened at which nothing stands
below, and none at all where nothing is searched for. A graph that comes with the answer to a load
opens the same paths, and where the settings ask for it those of the roots. -/
theorem search_reveals (settings : Settings) (actions : List Action) :
    (∀ typed, ((new settings).run actions).Reveals ((new settings).run actions).graph
      (Query.ofText typed settings.tree.searchMinChars)
      (((new settings).run actions).search typed)) ∧
    (∀ graph, ((new settings).run actions).Reveals graph ((new settings).run actions).query
      (((new settings).run actions).setGraph graph)) ∧
    ∀ scheme, ((new settings).run actions).shows scheme = true →
      (∀ change graph, ((new settings).run actions).Reveals graph
        ((new settings).run actions).query
        (((new settings).run actions).receiveAnswer scheme change (.ok graph)).2) ∧
      ∀ graph path,
        (((new settings).run actions).receiveScheme scheme (.ok graph)).2.isOpen path = true ↔
          (((new settings).run actions).setGraph graph).isOpen path = true ∨
            settings.tree.expandRootsOnLoad = true ∧
              path ∈ rootPaths (((new settings).run actions).setGraph graph).forest := by
  have hderived := (new_derived settings).run actions
  refine ⟨fun typed => ?_, reveals_setGraph _, fun scheme hshown =>
    ⟨reveals_receiveAnswer hshown, fun graph path => ?_⟩⟩
  · have hsearch := reveals_search hderived.projection_eq typed
    rw [hderived.settings_eq] at hsearch
    exact hsearch
  · have hopen := isOpen_receiveScheme hshown graph path
    rw [hderived.settings_eq] at hopen
    exact hopen

/-- The animals are shown, and the mammals were opened and closed again. -/
def animalsClosed : List Action :=
  [.turnTo "animals", .receiveScheme "animals" (.ok (ConceptGraph.ofRecords Samples.animals)),
    .toggle "animals/mammals", .toggle "animals/mammals", .toggle "animals/birds"]

/-- A search for dogs opens the mammals again, whose canines have a dog below them, and leaves the
birds open; dogs themselves stay closed. An answer that brings the animals once more opens the
roots. -/
theorem search_reveals_dogs :
    (((new Samples.settings).run animalsClosed).search "dog").isOpen "animals/mammals" = true ∧
    (((new Samples.settings).run animalsClosed).search "dog").isOpen "animals/birds" = true ∧
    (((new Samples.settings).run animalsClosed).search "dog").isOpen "pets/dogs" = false ∧
    ((new Samples.settings).run animalsClosed).shows "animals" = true ∧
    (((new Samples.settings).run animalsClosed).receiveScheme "animals"
      (.ok (ConceptGraph.ofRecords Samples.animals))).2.isOpen "pets" = true := by
  obtain ⟨hsearch, _, hanswers⟩ := search_reveals Samples.settings animalsClosed
  have hdogs := hsearch "dog"
  have hhit : (((new Samples.settings).run animalsClosed).search "dog").forest.HidesHit
      "animals/mammals" := by
    unfold Forest.HidesHit
    decide +kernel
  have hleaf : ∃ tree ∈
      (((new Samples.settings).run animalsClosed).search "dog").forest.roots.subtrees,
      tree.top.path = "pets/dogs" ∧ tree.below = .empty := by
    decide +kernel
  obtain ⟨tree, ht, hpath, hbelow⟩ := hleaf
  have hstays := hdogs.leaves_alone tree ht hbelow
  rw [hpath] at hstays
  have hshown : ((new Samples.settings).run animalsClosed).shows "animals" = true := by
    decide +kernel
  have hroots := (hanswers "animals" hshown).2 (ConceptGraph.ofRecords Samples.animals) "pets"
  refine ⟨(hdogs.isOpen_iff _).mpr (Or.inr hhit), hdogs.keeps_open _ (by decide +kernel),
    hstays.trans (by decide +kernel), hshown, hroots.mpr (Or.inr ⟨rfl, by decide +kernel⟩)⟩

end Session

end Thesaurus

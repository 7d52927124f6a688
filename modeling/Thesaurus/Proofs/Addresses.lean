import Thesaurus.Proofs.Marking
import Thesaurus.Proofs.Unfolding

/-!
# Paths as addresses

A tree stands in a forest below a line of others. The path of its top is a text, and what is read
off that text alone is where the tree stands: the parent, the ancestors and the number of ids. No
two trees side by side have tops of one concept, so to descend along the ids of the path leads back
to the tree, and a text leads to it exactly if it reads as the same ids.
-/

namespace Thesaurus

/-- A tree with all trees that it stands in: below none where it is one of the row, else below the
line of the tree that it is directly below of. -/
inductive Trees.Stands (trees : Trees) : Subtree → List Subtree → Prop where
  /-- A tree of the row stands below none. -/
  | first {tree : Subtree} (mem : tree ∈ trees.row) : Stands trees tree []
  /-- A tree stands directly below another. -/
  | under {tree parent : Subtree} {above : List Subtree} (hp : Stands trees parent above)
    (mem : tree ∈ parent.below.row) : Stands trees tree (parent :: above)

namespace Trees

variable {trees : Trees} {tree : Subtree} {above : List Subtree}

section Stands

/-- A tree at any depth stands somewhere. -/
theorem exists_stands_of_mem_subtrees {outer : Trees} (mem : tree ∈ trees.subtrees)
    (h : ∀ first ∈ trees.row, outer.Stands first above) : ∃ line, outer.Stands tree line := by
  induction trees generalizing above with
  | empty => cases mem
  | node top below beside ihBelow ihBeside =>
    have htop : outer.Stands ⟨top, below⟩ above := h _ List.mem_cons_self
    -- below the first tree the line is one longer, beside it the same
    rcases List.mem_cons.mp mem with rfl | mem
    · exact ⟨above, htop⟩
    · rcases List.mem_append.mp mem with mem | mem
      · exact ihBelow mem fun first hfirst => htop.under hfirst
      · exact ihBeside mem fun first hfirst => h first (List.mem_cons_of_mem _ hfirst)

/-- What stands in a tree of the row is at some depth in the row. -/
theorem subtrees_subset_of_mem_row {lower : Subtree} (mem : tree ∈ trees.row)
    (hl : lower = tree ∨ lower ∈ tree.below.subtrees) : lower ∈ trees.subtrees := by
  induction trees with
  | empty => cases mem
  | node top below beside _ ihBeside =>
    unfold subtrees
    rcases List.mem_cons.mp mem with rfl | mem
    · exact List.mem_cons.mpr (hl.imp_right (List.mem_append_left _))
    · exact List.mem_cons_of_mem _ (List.mem_append_right _ (ihBeside mem))

/-- What stands somewhere is a tree at some depth, with all trees below it. -/
theorem Stands.subtrees_subset (h : trees.Stands tree above) :
    ∀ lower, lower = tree ∨ lower ∈ tree.below.subtrees → lower ∈ trees.subtrees := by
  induction h with
  | first mem => exact fun lower hl => subtrees_subset_of_mem_row mem hl
  | under hp mem ih => exact fun lower hl => ih lower (Or.inr (subtrees_subset_of_mem_row mem hl))

/-- The trees at any depth are those that stand somewhere. -/
theorem mem_subtrees_iff : tree ∈ trees.subtrees ↔ ∃ above, trees.Stands tree above := by
  constructor
  · exact fun mem => exists_stands_of_mem_subtrees mem fun _ hfirst => Stands.first hfirst
  · rintro ⟨above, h⟩
    exact h.subtrees_subset tree (Or.inl rfl)

end Stands

section Descent

/-- To descend along one id is to look for it in the row. -/
theorem find?_singleton (trees : Trees) (id : ConceptId) :
    trees.find? [id] = trees.row.find? (·.top.id = id) := by
  induction trees with
  | empty => rfl
  | node top below beside _ ihBeside =>
    rw [find?, row, List.find?_cons, ihBeside]
    by_cases same : top.id = id
    · rw [if_pos same, decide_eq_true same]
    · rw [if_neg same, decide_eq_false same]

/-- To descend along more ids is to descend along one and go on from there. -/
theorem find?_cons_cons (trees : Trees) (id next : ConceptId) (rest : List ConceptId) :
    trees.find? (id :: next :: rest) =
      (trees.find? [id]).bind fun tree => tree.below.find? (next :: rest) := by
  induction trees with
  | empty => rfl
  | node top below beside _ ihBeside =>
    rw [find?, find?, ihBeside]
    by_cases same : top.id = id
    · rw [if_pos same, if_pos same, Option.bind_some]
    · rw [if_neg same, if_neg same]

/-- To descend along some ids and one more is to look for that below the tree reached. -/
theorem find?_concat (trees : Trees) {ids : List ConceptId} (hne : ids ≠ []) (last : ConceptId) :
    trees.find? (ids ++ [last]) = (trees.find? ids).bind fun tree => tree.below.find? [last] := by
  induction ids generalizing trees with
  | nil => exact absurd rfl hne
  | cons id rest ih =>
    cases rest with
    | nil => exact find?_cons_cons trees id last []
    | cons next rest =>
      have hrest := List.cons_ne_nil next rest
      rw [List.cons_append, List.cons_append, find?_cons_cons, find?_cons_cons trees id next rest,
        Option.bind_assoc]
      exact congrArg _ (funext fun tree => ih tree.below hrest)

/-- What is found along some ids stands below trees with tops of these ids. -/
theorem exists_stands_of_find? {ids : List ConceptId} (h : trees.find? ids = some tree) :
    ∃ above, trees.Stands tree above ∧ ids = wayTo ((tree :: above).map Subtree.top) := by
  induction ids using List.reverseRecOn generalizing tree with
  | nil => cases trees <;> cases h
  | append_singleton ids last ih =>
    by_cases hne : ids = []
    · rw [hne, List.nil_append, find?_singleton] at h
      have hlast := List.find?_some h
      rw [decide_eq_true_eq] at hlast
      refine ⟨[], .first (List.mem_of_find?_eq_some h), ?_⟩
      rw [hne, ← hlast]
      rfl
    · rw [find?_concat trees hne, Option.bind_eq_some_iff] at h
      obtain ⟨parent, hparent, h⟩ := h
      obtain ⟨above, hstands, rfl⟩ := ih hparent
      rw [find?_singleton] at h
      have hlast := List.find?_some h
      rw [decide_eq_true_eq] at hlast
      refine ⟨parent :: above, hstands.under (List.mem_of_find?_eq_some h), ?_⟩
      rw [← hlast, ← wayTo_cons]
      rfl

end Descent

/-- Whether the tops of a row are at one depth, no two of one concept, and those below each top one
deeper. -/
def Ranked (depth : Nat) : Trees → Prop
  | empty => True
  | node top below beside =>
    top.depth = depth ∧ (∀ other ∈ beside.row, other.top.id ≠ top.id) ∧
      below.Ranked (depth + 1) ∧ beside.Ranked depth

section Ranked

variable {depth : Nat}

/-- Each tree of a row is the first with its top, at the depth of the row, and what is below it is
one deeper. -/
theorem Ranked.of_mem_row (h : trees.Ranked depth) (mem : tree ∈ trees.row) :
    trees.find? [tree.top.id] = some tree ∧ tree.top.depth = depth ∧
      tree.below.Ranked (depth + 1) := by
  rw [find?_singleton]
  induction trees with
  | empty => cases mem
  | node top below beside _ ihBeside =>
    obtain ⟨hdepth, hnew, hbelow, hbeside⟩ := h
    unfold row
    rcases List.mem_cons.mp mem with rfl | mem
    · exact ⟨List.find?_cons_of_pos (decide_eq_true rfl), hdepth, hbelow⟩
    · obtain ⟨hfound, hrest⟩ := ihBeside hbeside mem
      refine ⟨?_, hrest⟩
      rw [List.find?_cons_of_neg, hfound]
      rw [decide_eq_true_eq]
      exact (hnew tree mem).symm

/-- Each tree is found along the ids of the tops down to it, and its depth is the number of trees
above it. -/
theorem Ranked.of_stands (h : trees.Ranked 0) (hs : trees.Stands tree above) :
    trees.find? (wayTo ((tree :: above).map Subtree.top)) = some tree ∧
      tree.top.depth = above.length ∧ tree.below.Ranked (above.length + 1) := by
  induction hs with
  | first mem => exact h.of_mem_row mem
  | @under tree parent above hp mem ih =>
    obtain ⟨hfound, _, hbelow⟩ := ih
    obtain ⟨hlast, hrest⟩ := hbelow.of_mem_row mem
    refine ⟨?_, hrest⟩
    have hne : wayTo ((parent :: above).map Subtree.top) ≠ [] := by
      rw [List.map_cons, wayTo_cons]
      exact List.concat_ne_nil _ _
    rw [List.map_cons, wayTo_cons, find?_concat trees hne, hfound]
    exact hlast

/-- Marks change no concepts of a row. -/
theorem map_id_row_markedBy (query : Query) (trees : Trees) :
    (trees.markedBy query).row.map (·.top.id) = trees.row.map (·.top.id) := by
  induction trees with
  | empty => rfl
  | node top below beside _ ihBeside => exact congrArg (top.id :: ·) ihBeside

/-- Marks change neither concepts nor depths. -/
theorem Ranked.markedBy (h : trees.Ranked depth) (query : Query) :
    (trees.markedBy query).Ranked depth := by
  induction trees generalizing depth with
  | empty => exact trivial
  | node top below beside ihBelow ihBeside =>
    obtain ⟨hdepth, hnew, hbelow, hbeside⟩ := h
    refine ⟨hdepth, fun other mem same => ?_, ihBelow hbelow, ihBeside hbeside⟩
    have hid : other.top.id ∈ (beside.markedBy query).row.map (·.top.id) := List.mem_map_of_mem mem
    rw [map_id_row_markedBy] at hid
    obtain ⟨plain, hplain, hsame⟩ := List.mem_map.mp hid
    exact hnew plain hplain (hsame.trans same)

/-- Where no concept has a child twice, trees that grow are ranked, if they begin at different
concepts. -/
theorem ranked_grow {graph : ConceptGraph} (hc : ∀ id, (graph.childrenOf id).Nodup)
    (path : Option PathText) (line : List ConceptId) {ids : List ConceptId} (hids : ids.Nodup) :
    (Projection.grow graph path line ids).Ranked line.length ∧
      ∀ tree ∈ (Projection.grow graph path line ids).row, tree.top.id ∈ ids := by
  fun_induction Projection.grow graph path line ids with
  | case1 => exact ⟨trivial, fun _ mem => absurd mem List.not_mem_nil⟩
  | case2 path line id others old ih =>
    obtain ⟨hranked, hrow⟩ := ih (List.nodup_cons.mp hids).2
    exact ⟨hranked, fun tree mem => List.mem_cons_of_mem id (hrow tree mem)⟩
  | case3 path line id others new unknown ih =>
    obtain ⟨hranked, hrow⟩ := ih (List.nodup_cons.mp hids).2
    exact ⟨hranked, fun tree mem => List.mem_cons_of_mem id (hrow tree mem)⟩
  | case4 path line id others new concept found top ihBelow =>
    rename_i ihBeside
    have hid : concept.id = id := ConceptGraph.concept?_id found
    obtain ⟨hout, hothers⟩ := List.nodup_cons.mp hids
    obtain ⟨hranked, hrow⟩ := ihBeside hothers
    refine ⟨⟨rfl, fun other mem same => ?_, (ihBelow (hc _)).1, hranked⟩, fun tree mem => ?_⟩
    · have hsame : other.top.id = id := same.trans hid
      exact hout (hsame ▸ hrow other mem)
    · rcases List.mem_cons.mp mem with rfl | mem
      · exact List.mem_cons.mpr (Or.inl hid)
      · exact List.mem_cons_of_mem id (hrow tree mem)

end Ranked

section Paths

/-- The path of each tree of a row goes on from the path above by the id of its top, and so do those
below from it. -/
theorem PathsBelow.of_mem_row {path : Option PathText} (h : trees.PathsBelow path)
    (mem : tree ∈ trees.row) :
    tree.top.path = Path.extend path tree.top.id ∧ tree.below.PathsBelow (some tree.top.path) := by
  induction trees with
  | empty => cases mem
  | node top below beside _ ihBeside =>
    obtain ⟨htop, hbelow, hbeside⟩ := h
    rcases List.mem_cons.mp mem with rfl | mem
    · exact ⟨htop, hbelow⟩
    · exact ihBeside hbeside mem

/-- Along the line of each tree the paths are those of the ids. -/
theorem PathsBelow.of_stands (h : trees.PathsBelow none) (hs : trees.Stands tree above) :
    FollowsPaths ((tree :: above).map Subtree.top) ∧
      tree.below.PathsBelow (some tree.top.path) := by
  induction hs with
  | first mem =>
    obtain ⟨hpath, hbelow⟩ := h.of_mem_row mem
    exact ⟨⟨hpath, trivial⟩, hbelow⟩
  | under hp mem ih =>
    obtain ⟨hpath, hbelow⟩ := ih.2.of_mem_row mem
    exact ⟨⟨hpath, ih.1⟩, hbelow⟩

end Paths

end Trees

/-- The ancestors that are read off the path at the end of a line are those above, the highest
first. -/
theorem FollowsPaths.ancestors {top : Occurrence} {above : List Occurrence}
    (h : FollowsPaths (top :: above)) :
    Path.ancestors top.path = (above.map Occurrence.path).reverse := by
  induction above generalizing top with
  | nil =>
    have hp : top.path = Path.root top.id := h.1
    rw [hp, Path.ancestors_root]
    rfl
  | cons next rest ih =>
    have hp : top.path = Path.child next.path top.id := h.1
    rw [hp, Path.ancestors_child, ih h.2, List.map_cons, List.reverse_cons]

namespace Forest

/-- Whether what is read off the path of a tree is where it stands in a forest: below some others,
nearest first. -/
structure Locates (forest : Forest) (graph : ConceptGraph) (tree : Subtree)
    (above : List Subtree) : Prop where
  /-- The tree is at its path, with all that is below it. -/
  find?_path : forest.find? tree.top.path = some tree
  /-- The ids of its path are those of the trees down to it. -/
  ids_path : Path.ids tree.top.path = wayTo ((tree :: above).map Subtree.top)
  /-- They are one more than its depth. -/
  length_ids : (Path.ids tree.top.path).length = tree.top.depth + 1
  /-- The last one is its concept. -/
  last_id : (Path.ids tree.top.path).getLast? = some tree.top.id
  /-- Its depth is the number of trees above. -/
  depth_eq : tree.top.depth = above.length
  /-- The parent path is that of the tree directly above, if there is one. -/
  parent?_eq : Path.parent? tree.top.path = above.head?.map (·.top.path)
  /-- The parent id is that of the tree directly above, if there is one. -/
  parentId?_eq : Path.parentId? tree.top.path = above.head?.map (·.top.id)
  /-- The graph has that for a parent of the concept, and none where there is no tree above. -/
  stands_below : graph.StandsBelow tree.top.id (Path.parentId? tree.top.path)
  /-- The ancestor paths are those of the trees above, the highest first. -/
  ancestors_eq : Path.ancestors tree.top.path = (above.map (·.top.path)).reverse

/-- After some searches one more is all that counts. -/
theorem markedBy_foldl (queries : List Query) (query : Query) (forest : Forest) :
    (queries.foldl markedBy forest).markedBy query = forest.markedBy query := by
  induction queries generalizing forest with
  | nil => rfl
  | cons first rest ih =>
    rw [List.foldl_cons, ih]
    unfold markedBy
    rw [Trees.markedBy_markedBy]

/-- The forest of a graph, however often it is searched, is marked by one query. -/
theorem exists_markedBy_eq (graph : ConceptGraph) (queries : List Query) :
    ∃ query, queries.foldl markedBy graph.project = graph.project.markedBy query := by
  rcases List.eq_nil_or_concat queries with rfl | ⟨rest, query, rfl⟩
  · refine ⟨Query.inactive, ?_⟩
    rw [markedBy_of_inactive rfl, unmarked_project]
    rfl
  · refine ⟨query, ?_⟩
    rw [List.concat_eq_append, List.foldl_append]
    exact markedBy_foldl rest query graph.project

section Located

variable {graph : ConceptGraph} {forest : Forest} {query : Query}

/-- In the marked forest of a graph, what is read off the path of each tree is where it stands. -/
theorem locates_project (hl : graph.WellLinked) {tree : Subtree} {above : List Subtree}
    (hs : (graph.project.markedBy query).roots.Stands tree above) :
    (graph.project.markedBy query).Locates graph tree above := by
  have hgrown := Trees.ranked_grow hl.childrenOf_nodup none [] hl.roots_nodup
  have hranked : (graph.project.markedBy query).roots.Ranked 0 := hgrown.1.markedBy query
  have hgrow := Projection.grow_pathsBelow graph none [] (graph.roots.map Concept.id)
  have hpaths : (graph.project.markedBy query).roots.PathsBelow none := hgrow.markedBy query
  obtain ⟨hfound, hdepth, _⟩ := hranked.of_stands hs
  obtain ⟨hfollows, _⟩ := hpaths.of_stands hs
  have hids : Path.ids tree.top.path = wayTo ((tree :: above).map Subtree.top) := hfollows.ids_path
  have hancestors := hfollows.ancestors
  rw [List.map_map] at hancestors
  have hparentId := hfollows.parentId?
  rw [List.head?_map, Option.map_map] at hparentId
  refine
    { find?_path := ?_
      ids_path := hids
      length_ids := ?_
      last_id := ?_
      depth_eq := hdepth
      parent?_eq := ?_
      parentId?_eq := hparentId
      stands_below := ?_
      ancestors_eq := hancestors }
  · unfold find?
    rw [hids]
    exact hfound
  · rw [hids, hdepth]
    simp [wayTo]
  · rw [hids, List.map_cons, wayTo_cons, List.getLast?_concat]
  · rw [Path.parent?_eq_getLast?_ancestors, hancestors, List.getLast?_reverse, List.head?_map]
    rfl
  · have mem : tree ∈ (graph.project.markedBy query).roots.subtrees :=
      Trees.mem_subtrees_iff.mpr ⟨above, hs⟩
    obtain ⟨plain, hplain, hid, hpath⟩ :=
      Trees.exists_of_mem_walk_markedBy (Trees.top_mem_walk mem)
    rw [hid, hpath]
    exact ConceptGraph.standsBelow_of_mem_walk hplain

/-- Where paths tell where trees stand, a text leads to a tree exactly if it reads as the ids of the
path of that. -/
theorem find?_eq_some_iff
    (h : ∀ tree above, forest.roots.Stands tree above → forest.Locates graph tree above)
    {path : PathText} {tree : Subtree} :
    forest.find? path = some tree ↔
      tree ∈ forest.roots.subtrees ∧ Path.ids path = Path.ids tree.top.path := by
  rw [Trees.mem_subtrees_iff]
  constructor
  · intro hfound
    obtain ⟨above, hs, hids⟩ := Trees.exists_stands_of_find? hfound
    exact ⟨⟨above, hs⟩, hids.trans (h tree above hs).ids_path.symm⟩
  · rintro ⟨⟨above, hs⟩, hids⟩
    have hfound := (h tree above hs).find?_path
    unfold find? at hfound ⊢
    rw [hids]
    exact hfound

end Located

end Forest

namespace ConceptGraph

/-- The forest of a graph after some searches, one after another. -/
def searched (graph : ConceptGraph) (queries : List Query) : Forest :=
  queries.foldl Forest.markedBy graph.project

/-- However a graph was made and whatever was searched, the trees at any depth of its forest are
those that stand somewhere, all that is read off the path of each is where it stands, and a text
leads to a tree exactly if it reads as the ids of the path of that. -/
theorem paths_locate {graph : ConceptGraph} (hb : graph.Built) (queries : List Query) :
    (∀ tree, tree ∈ (graph.searched queries).roots.subtrees ↔
      ∃ above, (graph.searched queries).roots.Stands tree above) ∧
    (∀ tree above, (graph.searched queries).roots.Stands tree above →
      (graph.searched queries).Locates graph tree above) ∧
    ∀ path tree, (graph.searched queries).find? path = some tree ↔
      tree ∈ (graph.searched queries).roots.subtrees ∧
        Path.ids path = Path.ids tree.top.path := by
  have hlocates : ∀ tree above, (graph.searched queries).roots.Stands tree above →
      (graph.searched queries).Locates graph tree above := by
    unfold searched
    obtain ⟨query, heq⟩ := Forest.exists_markedBy_eq graph queries
    rw [heq]
    exact fun tree above => Forest.locates_project hb.wellLinked
  exact ⟨fun _ => Trees.mem_subtrees_iff, hlocates,
    fun _ _ => Forest.find?_eq_some_iff hlocates⟩

/-- Records whose ids are written otherwise in paths. -/
def slashed : List Record :=
  [{ id := "and/or", label := "And or or" },
    { id := "%", label := "Percent", broader := ["and/or"] }]

/-- A text that escapes the separator in lower case, and the sign of an escape not at all, leads to
the tree whose path escapes both. -/
theorem paths_locate_slashed :
    (ofRecords slashed).Built ∧
    ∃ tree above, ((ofRecords slashed).searched [Query.ofText "per" 2]).find? "and%2for/%" =
      some tree ∧ tree.top.path = "and%2For/%25" ∧
      ((ofRecords slashed).searched [Query.ofText "per" 2]).Locates (ofRecords slashed) tree
        above := by
  have hb := Built.ofRecords slashed
  obtain ⟨hstands, hlocates, hfind⟩ := paths_locate hb [Query.ofText "per" 2]
  have hpercent : ∃ tree ∈ ((ofRecords slashed).searched [Query.ofText "per" 2]).roots.subtrees,
      tree.top.path = "and%2For/%25" ∧ Path.ids "and%2for/%" = Path.ids tree.top.path := by
    decide +kernel
  obtain ⟨tree, mem, hpath, hids⟩ := hpercent
  obtain ⟨above, hs⟩ := (hstands tree).mp mem
  exact ⟨hb, tree, above, (hfind _ tree).mpr ⟨mem, hids⟩, hpath, hlocates tree above hs⟩

end ConceptGraph

end Thesaurus

import Thesaurus.Proofs.Unfolding

/-!
# One concept in all its contexts

The trees below an occurrence grow anew for each occurrence of a concept, along another path each
time and with other concepts above. Where no links go round, none of those above can come again
below, so no branch is cut, and what grows below one occurrence is what grows below any other, put
below another path. A search marks both alike, for it looks at nothing but labels and what is below.
-/

namespace Thesaurus

/-- An occurrence that stands somewhere, with its path and its depth counted on from a place. -/
def Occurrence.under (top place : Occurrence) : Occurrence :=
  { top with path := place.path ++ top.path, depth := place.depth + top.depth }

/-- A row of trees put below a place: paths and depths are counted on from there, all else stays. -/
def Trees.under (place : Occurrence) : Trees → Trees
  | empty => empty
  | node top below beside => node (top.under place) (below.under place) (beside.under place)

/-- Whether two trees show one and the same: their tops apart from where they stand and from which
parents are the other ones, and what is below their tops apart from where the tops stand. -/
structure Subtree.ShowsSame (tree other : Subtree) : Prop where
  /-- The tops are marked alike. -/
  mark_eq : tree.top.mark = other.top.mark
  /-- They have one preferred label. -/
  label_eq : tree.top.label = other.top.label
  /-- They have the same alternative labels. -/
  altLabels_eq : tree.top.altLabels = other.top.altLabels
  /-- Both or neither say that there are several parents. -/
  hasManyParents_eq : tree.top.hasManyParents = other.top.hasManyParents
  /-- One row of trees, with all its labels and marks, is below both. -/
  below_eq : ∃ row : Trees, tree.below = row.under tree.top ∧ other.below = row.under other.top

namespace Trees

variable {query : Query} {place : Occurrence}

/-- Only the path and the depth of a place count for what is put below it. -/
theorem under_congr {spot : Occurrence} (hpath : place.path = spot.path)
    (hdepth : place.depth = spot.depth) (trees : Trees) :
    trees.under place = trees.under spot := by
  induction trees with
  | empty => rfl
  | node top below beside ihBelow ihBeside =>
    have htop : top.under place = top.under spot := by
      unfold Occurrence.under
      rw [hpath, hdepth]
    rw [under, under, htop, ihBelow, ihBeside]

/-- What is below a place is what was put there. -/
theorem walk_under (trees : Trees) :
    (trees.under place).walk = trees.walk.map (·.under place) := by
  induction trees with
  | empty => rfl
  | node top below beside ihBelow ihBeside =>
    unfold under walk
    rw [ihBelow, ihBeside, List.map_cons, List.map_append]

/-- A query finds something in a row of trees wherever they are put. -/
theorem any_finds_walk_under (trees : Trees) :
    (trees.under place).walk.any query.finds = trees.walk.any query.finds := by
  rw [walk_under, List.any_map]
  rfl

/-- To put trees below a place and to mark them may be done in either order. -/
theorem markedBy_under (trees : Trees) :
    (trees.under place).markedBy query = (trees.markedBy query).under place := by
  induction trees with
  | empty => rfl
  | node top below beside ihBelow ihBeside =>
    have hmark : query.markOf ⟨top.under place, below.under place⟩ = query.markOf ⟨top, below⟩ := by
      unfold Query.markOf
      dsimp only
      rw [any_finds_walk_under]
      rfl
    rw [under, markedBy_node, markedBy_node, hmark, ihBelow, ihBeside]
    rfl

end Trees

/-- Trees that show the same still do when both are marked by a query. -/
theorem Subtree.ShowsSame.markedBy {tree other : Subtree} (h : tree.ShowsSame other)
    (query : Query) : (tree.markedBy query).ShowsSame (other.markedBy query) := by
  obtain ⟨row, hrow, hrow'⟩ := h.below_eq
  have hfinds : query.finds tree.top = query.finds other.top := by
    unfold Query.finds
    rw [h.label_eq, h.altLabels_eq]
  refine ⟨?_, h.label_eq, h.altLabels_eq, h.hasManyParents_eq, row.markedBy query, ?_, ?_⟩
  · show query.markOf tree = query.markOf other
    unfold Query.markOf
    rw [hfinds, hrow, hrow', Trees.any_finds_walk_under, Trees.any_finds_walk_under]
  · show tree.below.markedBy query = _
    rw [hrow, Trees.markedBy_under]
    apply Trees.under_congr <;> rfl
  · show other.below.markedBy query = _
    rw [hrow', Trees.markedBy_under]
    apply Trees.under_congr <;> rfl

namespace Projection

/-- What grows below a concept that stands nowhere yet. -/
def growBelow (graph : ConceptGraph) (id : ConceptId) : Trees :=
  grow graph (some "") [id] (graph.childrenOf id)

section Under

variable {graph : ConceptGraph} {place : Occurrence} {line inner ids : List ConceptId}

/-- An occurrence of a concept is the same below a longer line, but for its place. -/
theorem occurrence_under (hdepth : place.depth = line.length) (hinner : inner ≠ [])
    (rest : PathText) (concept : Concept) :
    occurrence graph (some (place.path ++ rest)) (inner ++ line) concept =
      (occurrence graph (some rest) inner concept).under place := by
  have hpath : Path.extend (some (place.path ++ rest)) concept.id =
      place.path ++ Path.extend (some rest) concept.id :=
    Path.child_append place.path rest concept.id
  have hdeeper : (inner ++ line).length = place.depth + inner.length := by
    rw [List.length_append, Nat.add_comm, hdepth]
  have hhead : (inner ++ line).head? = inner.head? := List.head?_append_of_ne_nil _ hinner
  simp only [occurrence, Occurrence.under, hpath, hdeeper, hhead]

/-- Trees grow alike below a line of which nothing comes again, but for the place. -/
theorem grow_under (hdepth : place.depth = line.length) (hinner : inner ≠ []) (rest : PathText)
    (hnew : ∀ id ∈ ids, ∀ lower, lower = id ∨ graph.Below id lower → lower ∉ line) :
    grow graph (some (place.path ++ rest)) (inner ++ line) ids =
      (grow graph (some rest) inner ids).under place := by
  generalize habove : some rest = above
  fun_induction grow graph above inner ids generalizing rest with
  | case1 => rw [grow, Trees.under]
  | case2 above inner id others old ih =>
    have hold : id ∈ inner ++ line := List.mem_append_left line old
    rw [grow, if_pos hold]
    exact ih hinner rest (fun other mem => hnew other (List.mem_cons_of_mem id mem)) habove
  | case3 above inner id others new unknown ih =>
    have hout : id ∉ inner ++ line := by
      rw [List.mem_append, not_or]
      exact ⟨new, hnew id List.mem_cons_self id (Or.inl rfl)⟩
    rw [grow, if_neg hout, unknown]
    exact ih hinner rest (fun other mem => hnew other (List.mem_cons_of_mem id mem)) habove
  | case4 above inner id others new concept found top ihBelow ihBeside =>
    have hout : id ∉ inner ++ line := by
      rw [List.mem_append, not_or]
      exact ⟨new, hnew id List.mem_cons_self id (Or.inl rfl)⟩
    subst habove
    have htop : occurrence graph (some (place.path ++ rest)) (inner ++ line) concept =
        top.under place := occurrence_under hdepth hinner rest concept
    have hid : concept.id = id := ConceptGraph.concept?_id found
    have hlower : ∀ child ∈ graph.childrenOf concept.id, ∀ lower,
        lower = child ∨ graph.Below child lower → lower ∉ line := by
      intro child mem lower hl
      rw [hid, ConceptGraph.mem_childrenOf_iff_narrower] at mem
      exact hnew id List.mem_cons_self lower (Or.inr (mem.below hl))
    have hbelow := ihBelow (List.cons_ne_nil concept.id inner) top.path hlower rfl
    have hbeside := ihBeside hinner rest
      (fun other mem => hnew other (List.mem_cons_of_mem id mem)) rfl
    rw [grow, if_neg hout, found]
    dsimp only
    rw [htop, hbeside]
    exact congrArg (Trees.node _ · _) hbelow

end Under

end Projection

namespace ConceptGraph

variable {graph : ConceptGraph} {tree other : Subtree}

/-- Where no links go round, what is below an occurrence is what grows below its concept. -/
theorem Acyclic.below_eq (ha : graph.Acyclic) (ht : tree ∈ graph.project.roots.subtrees) :
    tree.below = (Projection.growBelow graph tree.top.id).under tree.top := by
  obtain ⟨above, line, concept, hgrown⟩ := exists_grown ht
  have hid : tree.top.id = concept.id := by
    rw [hgrown.top_eq]
    rfl
  have hdepth : tree.top.depth = line.length := by
    rw [hgrown.top_eq]
    rfl
  have hchain : (line.reverse ++ [concept.id]).IsChain graph.Narrower := by
    rw [← hgrown.ids_path]
    exact (wayOn_of_mem_walk (Trees.top_mem_walk ht)).goes_down
  -- a concept of the line below a child would close a cycle
  have hnew : ∀ id ∈ graph.childrenOf concept.id, ∀ lower,
      lower = id ∨ graph.Below id lower → lower ∉ line := by
    intro id mem lower hl inside
    have hdown := (mem_childrenOf_iff_narrower.mp mem).below hl
    have hup := below_of_isChain hchain lower (List.mem_reverse.mpr inside)
    exact ha concept.id (Relation.TransGen.trans hdown hup)
  have hgrow := Projection.grow_under hdepth (List.cons_ne_nil concept.id []) "" hnew
  rw [String.append_empty] at hgrow
  rw [hgrown.below_eq, hid]
  exact hgrow

/-- Where no links go round, any two occurrences of a concept show the same. -/
theorem Acyclic.showsSame (ha : graph.Acyclic) (ht : tree ∈ graph.project.roots.subtrees)
    (ho : other ∈ graph.project.roots.subtrees) (hid : tree.top.id = other.top.id) :
    tree.ShowsSame other := by
  have hbelow := ha.below_eq ht
  have hbelow' := ha.below_eq ho
  rw [← hid] at hbelow'
  obtain ⟨above, line, concept, hgrown⟩ := exists_grown ht
  obtain ⟨above', line', concept', hgrown'⟩ := exists_grown ho
  have hsame : concept = concept' := by
    have hids : concept.id = concept'.id := by
      rw [hgrown.top_eq, hgrown'.top_eq] at hid
      exact hid
    have hfound := hgrown.found
    rw [hids, hgrown'.found] at hfound
    exact (Option.some.inj hfound).symm
  subst hsame
  refine ⟨?_, ?_, ?_, ?_, _, hbelow, hbelow'⟩ <;> rw [hgrown.top_eq, hgrown'.top_eq] <;> rfl

/-- In the forest of a graph in which no links go round, whatever is searched for, a concept looks
the same in each of its contexts: its occurrences have one mark, one preferred label and the same
alternative ones, they tell alike whether there are several parents, and one and the same row of
trees, down to the last mark and the last label of another parent, is below each of them, with its
paths and depths counted on from there. -/
theorem contexts_show_same (ha : graph.Acyclic) (query : Query)
    (ht : tree ∈ (graph.project.markedBy query).roots.subtrees)
    (ho : other ∈ (graph.project.markedBy query).roots.subtrees)
    (hid : tree.top.id = other.top.id) : tree.ShowsSame other := by
  have hmarked : (graph.project.markedBy query).roots.subtrees =
      graph.project.roots.subtrees.map (·.markedBy query) :=
    Trees.subtrees_markedBy query graph.project.roots
  rw [hmarked] at ht ho
  obtain ⟨plain, hplain, rfl⟩ := List.mem_map.mp ht
  obtain ⟨plain', hplain', rfl⟩ := List.mem_map.mp ho
  exact (ha.showsSame hplain hplain' hid).markedBy query

/-- Records of dogs with puppies below them, that are mammals and pets; puppies are young animals
besides. -/
def kennel : List Record :=
  [{ id := "animals", label := "Animals" }, { id := "pets", label := "Pets" },
    { id := "young", label := "Young animals" },
    { id := "mammals", label := "Mammals", broader := ["animals"] },
    { id := "dogs", label := "Dogs", altLabels := ["Hounds"], broader := ["mammals", "pets"] },
    { id := "puppies", label := "Puppies", broader := ["dogs", "young"] }]

/-- Searched for puppies, the dogs among the mammals show the same as the dogs among the pets,
which stand less deep: a puppy is below both. -/
theorem contexts_show_same_dogs :
    (ofRecords kennel).Acyclic ∧
    ∃ tree ∈ ((ofRecords kennel).project.markedBy (Query.ofText "pupp" 2)).roots.subtrees,
    ∃ other ∈ ((ofRecords kennel).project.markedBy (Query.ofText "pupp" 2)).roots.subtrees,
      tree.top.id = other.top.id ∧ tree.ShowsSame other ∧
      tree.top.path = "animals/mammals/dogs" ∧ other.top.path = "pets/dogs" ∧
      tree.top.mark = .aboveHit ∧ tree.below ≠ .empty := by
  have hacyclic : (ofRecords kennel).Acyclic := acyclic_of_ordered (by decide +kernel)
  have hdogs :
      ∃ tree ∈ ((ofRecords kennel).project.markedBy (Query.ofText "pupp" 2)).roots.subtrees,
      ∃ other ∈ ((ofRecords kennel).project.markedBy (Query.ofText "pupp" 2)).roots.subtrees,
        tree.top.id = other.top.id ∧ tree.top.path = "animals/mammals/dogs" ∧
          other.top.path = "pets/dogs" ∧ tree.top.mark = .aboveHit ∧ tree.below ≠ .empty := by
    decide +kernel
  obtain ⟨tree, ht, other, ho, hid, hshown⟩ := hdogs
  exact ⟨hacyclic, tree, ht, other, ho, hid,
    contexts_show_same hacyclic (Query.ofText "pupp" 2) ht ho hid, hshown⟩

/-- Records of two directions below a third concept, each of them below the other as well. -/
def ring : List Record :=
  [{ id := "compass", label := "Compass" },
    { id := "north", label := "North", broader := ["compass", "south"] },
    { id := "south", label := "South", broader := ["compass", "north"] }]

/-- Where links go round, a branch is cut in one context and goes on in another. -/
example : ∃ tree ∈ (ofRecords ring).project.roots.subtrees,
    ∃ other ∈ (ofRecords ring).project.roots.subtrees,
      tree.top.id = other.top.id ∧ tree.below = .empty ∧ other.below ≠ .empty := by
  decide +kernel

end ConceptGraph

end Thesaurus

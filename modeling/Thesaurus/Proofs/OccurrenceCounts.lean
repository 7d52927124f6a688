import Mathlib.Algebra.GroupWithZero.Nat
import Thesaurus.Proofs.Unfolding

/-!
# How often a concept occurs

A concept occurs as often as there are ways to it, and a way to a concept with parents is a way to
one of them with one more step down. Where no links go round, every way to a parent goes on to the
concept, so it occurs as often as its parents together. On every graph an occurrence tells how many
parents there are, and the labels of those that it does not stand below, whatever labels they share.
-/

namespace Thesaurus

/-- Whether the concepts of a graph occur as often as their parents do. -/
structure ConceptGraph.OccursByParents (graph : ConceptGraph) : Prop where
  /-- No concept is left out. -/
  omitted_eq : graph.project.omitted = []
  /-- A concept without parents occurs once. -/
  root_once : ∀ root ∈ graph.roots, (graph.project.occurrencesOf root.id).length = 1
  /-- A concept with parents occurs as often as all of them together. -/
  sum_of_parents : ∀ id, graph.parentsOf id ≠ [] → (graph.project.occurrencesOf id).length =
    ((graph.parentsOf id).map fun parent => (graph.project.occurrencesOf parent).length).sum

/-- Whether an occurrence tells of the parents of its concept what the links of a graph say. -/
structure Occurrence.TellsParents (top : Occurrence) (graph : ConceptGraph) : Prop where
  /-- It tells whether there are several. -/
  hasManyParents_iff : top.hasManyParents = true ↔ 1 < (graph.parentsOf top.id).length
  /-- It has the labels of all but the one on its path, in the order of the links. -/
  otherParentLabels_eq : top.otherParentLabels.map some =
    ((graph.parentsOf top.id).filter fun parent => Path.parentId? top.path ≠ some parent).map
      graph.label?
  /-- At the top there are none. -/
  of_top : Path.parentId? top.path = none →
    graph.parentsOf top.id = [] ∧ top.otherParentLabels = []
  /-- Below a parent there is one fewer than there are parents. -/
  of_parent : ∀ parent, Path.parentId? top.path = some parent →
    parent ∈ graph.parentsOf top.id ∧
      top.otherParentLabels.length + 1 = (graph.parentsOf top.id).length

namespace ConceptGraph

variable {graph : ConceptGraph} {id : ConceptId} {before way : List ConceptId}

/-- The ways to the occurrences of a concept, in display order. -/
def waysTo (graph : ConceptGraph) (id : ConceptId) : List (List ConceptId) :=
  (graph.project.occurrencesOf id).map fun top => Path.ids top.path

section Counts

/-- A concept occurs as often as there are ways to it. -/
theorem length_waysTo (graph : ConceptGraph) (id : ConceptId) :
    (graph.waysTo id).length = (graph.project.occurrencesOf id).length := by
  unfold waysTo
  rw [List.length_map]

/-- The ways to a concept are those that end there. -/
theorem WellLinked.mem_waysTo (h : graph.WellLinked) :
    way ∈ graph.waysTo id ↔ ∃ before, way = before ++ [id] ∧ graph.IsWay way := by
  unfold waysTo Forest.occurrencesOf
  simp only [List.mem_map, List.mem_filter, decide_eq_true_eq]
  constructor
  · rintro ⟨top, ⟨mem, rfl⟩, rfl⟩
    obtain ⟨before, hids, _, hway⟩ := exists_way_of_mem_walk mem
    exact ⟨before, hids, hids ▸ hway⟩
  · rintro ⟨before, rfl, hway⟩
    obtain ⟨top, mem, hid, hids⟩ := h.exists_of_isWay hway
    exact ⟨top, ⟨mem, hid⟩, hids⟩

/-- No way to a concept comes twice. -/
theorem WellLinked.waysTo_nodup (h : graph.WellLinked) (id : ConceptId) :
    (graph.waysTo id).Nodup := by
  have hall : (graph.project.walk.map fun top => Path.ids top.path).Nodup := by
    rw [map_ids_path_walk]
    exact h.ways_distinct
  exact hall.sublist (List.filter_sublist.map _)

/-- A way to a concept is one step down from a way to a parent, or has no step at all and there is
no parent. -/
theorem IsWay.eq_nil_or_exists_parent (hw : graph.IsWay (before ++ [id])) :
    before = [] ∧ graph.parentsOf id = [] ∨
      ∃ upper, ∃ parent ∈ graph.parentsOf id, before = upper ++ [parent] ∧ graph.IsWay before := by
  rcases List.eq_nil_or_concat before with rfl | ⟨upper, parent, rfl⟩
  · obtain ⟨root, hroot, hhead⟩ := hw.begins
    have hid : id = root.id := Option.some.inj hhead
    rw [hid]
    exact Or.inl ⟨rfl, List.isEmpty_iff.mp (List.mem_filter.mp hroot).2⟩
  · rw [List.concat_eq_append] at hw ⊢
    obtain ⟨hshort, step⟩ := hw.of_concat
    exact Or.inr ⟨upper, parent, mem_parentsOf.mpr step, rfl, hshort⟩

/-- There is one way to a concept without parents. -/
theorem WellLinked.waysTo_root (h : graph.WellLinked) {root : Concept}
    (hroot : root ∈ graph.roots) : graph.waysTo root.id = [[root.id]] := by
  have hnone : graph.parentsOf root.id = [] := List.isEmpty_iff.mp (List.mem_filter.mp hroot).2
  rw [← List.perm_singleton,
    List.perm_ext_iff_of_nodup (h.waysTo_nodup root.id) (List.nodup_singleton _)]
  intro way
  rw [h.mem_waysTo, List.mem_singleton]
  constructor
  · rintro ⟨before, rfl, hway⟩
    rcases hway.eq_nil_or_exists_parent with ⟨rfl, _⟩ | ⟨_, parent, mem, _⟩
    · rfl
    · rw [hnone] at mem
      cases mem
  · rintro rfl
    exact ⟨[], rfl, ⟨root, hroot, rfl⟩, List.isChain_singleton _, List.nodup_singleton _⟩

/-- Where no links go round, the ways to a concept with parents are those to its parents, each with
one more step. -/
theorem WellLinked.waysTo_perm (h : graph.WellLinked) (ha : graph.Acyclic)
    (hparents : graph.parentsOf id ≠ []) :
    (graph.waysTo id).Perm
      ((graph.parentsOf id).flatMap fun parent => (graph.waysTo parent).map (· ++ [id])) := by
  have hdistinct : ((graph.parentsOf id).flatMap fun parent =>
      (graph.waysTo parent).map (· ++ [id])).Nodup := by
    refine List.nodup_flatMap.mpr ⟨fun parent _ => ?_, ?_⟩
    · exact (h.waysTo_nodup parent).map fun _ _ => List.append_cancel_right
    · refine (h.parentsOf_nodup id).imp fun {first second} hne way hfirst hsecond => ?_
      obtain ⟨one, hone, rfl⟩ := List.mem_map.mp hfirst
      obtain ⟨other, hother, hsame⟩ := List.mem_map.mp hsecond
      obtain ⟨left, rfl, _⟩ := h.mem_waysTo.mp hone
      obtain ⟨right, rfl, _⟩ := h.mem_waysTo.mp hother
      obtain ⟨_, hlast⟩ := List.append_inj' (List.append_cancel_right hsame) rfl
      exact hne (List.cons.inj hlast).1.symm
  rw [List.perm_ext_iff_of_nodup (h.waysTo_nodup id) hdistinct]
  intro way
  simp only [List.mem_flatMap, List.mem_map, h.mem_waysTo]
  constructor
  · rintro ⟨before, rfl, hway⟩
    rcases hway.eq_nil_or_exists_parent with ⟨_, hnone⟩ | ⟨upper, parent, mem, rfl, hshort⟩
    · exact absurd hnone hparents
    · exact ⟨parent, mem, _, ⟨upper, rfl, hshort⟩, rfl⟩
  · rintro ⟨parent, mem, _, ⟨upper, rfl, hshort⟩, rfl⟩
    have step : graph.Narrower parent id := mem_parentsOf.mp mem
    have hnew : id ∉ upper ++ [parent] := by
      intro inside
      rcases List.mem_append.mp inside with inside | inside
      · exact ha id (Relation.TransGen.tail (below_of_isChain hshort.goes_down id inside) step)
      · rw [← List.mem_singleton.mp inside] at step
        exact ha id (Relation.TransGen.single step)
    exact ⟨upper ++ [parent], rfl, hshort.concat List.getLast?_concat step hnew⟩

/-- Where no links go round, concepts occur as often as their parents do. -/
theorem WellLinked.occursByParents (h : graph.WellLinked) (ha : graph.Acyclic) :
    graph.OccursByParents where
  omitted_eq := by
    refine List.eq_nil_iff_forall_not_mem.mpr fun id mem => ?_
    obtain ⟨hin, hout⟩ := mem_omitted_iff.mp mem
    exact hout (h.mem_walk_ids.mpr (h.reached_of_acyclic ha (contains_iff.mpr hin)))
  root_once root hroot := by
    rw [← length_waysTo, h.waysTo_root hroot, List.length_singleton]
  sum_of_parents id hparents := by
    rw [← length_waysTo, (h.waysTo_perm ha hparents).length_eq, List.length_flatMap]
    simp only [List.length_map, length_waysTo]

end Counts

section Parents

/-- The labelled parents of a concept are its parents, each with its label. -/
theorem WellLinked.map_labelledParents (h : graph.WellLinked) (id : ConceptId) :
    (Projection.labelledParents graph id).map (fun parent => (parent.1, some parent.2)) =
      (graph.parentsOf id).map fun parent => (parent, graph.label? parent) := by
  have hlabel : ∀ parent ∈ graph.parentsOf id,
      ((graph.label? parent).map (parent, ·)).map
        (fun parent => (parent.1, some parent.2)) = some (parent, graph.label? parent) := by
    intro parent mem
    have hknown := (h.ends_known _ (mem_parentsOf.mp mem)).2
    rw [← concept?_isSome, Option.isSome_iff_exists] at hknown
    obtain ⟨concept, hconcept⟩ := hknown
    unfold label?
    rw [hconcept]
    rfl
  unfold Projection.labelledParents
  rw [List.map_filterMap, List.filterMap_congr hlabel, ← List.filterMap_eq_map]
  rfl

/-- There are as many labelled parents as parents. -/
theorem WellLinked.length_labelledParents (h : graph.WellLinked) (id : ConceptId) :
    (Projection.labelledParents graph id).length = (graph.parentsOf id).length := by
  have hlength := congrArg List.length (h.map_labelledParents id)
  rw [List.length_map, List.length_map] at hlength
  exact hlength

/-- The labels of some labelled parents are those of the same parents. -/
theorem WellLinked.labels_filter (h : graph.WellLinked) (id : ConceptId)
    (keep : ConceptId → Bool) :
    ((Projection.labelledParents graph id).filter (keep ·.1)).map (some ·.2) =
      ((graph.parentsOf id).filter keep).map graph.label? := by
  have hpairs := congrArg
    (fun pairs => (pairs.filter (fun pair => keep pair.1)).map Prod.snd) (h.map_labelledParents id)
  rw [List.filter_map, List.filter_map, List.map_map, List.map_map] at hpairs
  exact hpairs

/-- All parents of a concept but one are one fewer. -/
theorem WellLinked.length_filter_ne (h : graph.WellLinked) {parent : ConceptId}
    (mem : parent ∈ graph.parentsOf id) :
    ((graph.parentsOf id).filter fun other => some parent ≠ some other).length + 1 =
      (graph.parentsOf id).length := by
  have herase : ((graph.parentsOf id).filter fun other => some parent ≠ some other) =
      (graph.parentsOf id).erase parent := by
    rw [(h.parentsOf_nodup id).erase_eq_filter]
    refine List.filter_congr fun other _ => ?_
    simp only [ne_eq, Option.some.injEq, eq_comm, bne, decide_not, beq_eq_decide]
  rw [herase, List.length_erase_of_mem mem, Nat.sub_add_cancel (List.length_pos_of_mem mem)]

/-- Every occurrence tells of its parents what the links say. -/
theorem WellLinked.tellsParents (h : graph.WellLinked) {top : Occurrence}
    (mem : top ∈ graph.project.walk) : top.TellsParents graph := by
  have hstands := standsBelow_of_mem_walk mem
  obtain ⟨tree, ht, rfl⟩ := Trees.mem_walk_iff.mp mem
  obtain ⟨above, line, concept, hgrown⟩ := exists_grown ht
  have hid : tree.top.id = concept.id := by
    rw [hgrown.top_eq]
    rfl
  have hmany : tree.top.hasManyParents = true ↔ 1 < (graph.parentsOf tree.top.id).length := by
    rw [hid, ← h.length_labelledParents, hgrown.top_eq]
    exact decide_eq_true_iff
  have hothers : tree.top.otherParentLabels.map some =
      ((graph.parentsOf tree.top.id).filter fun parent =>
        Path.parentId? tree.top.path ≠ some parent).map graph.label? := by
    rw [← h.labels_filter, hid, hgrown.parentId?_eq, hgrown.top_eq]
    exact List.map_map
  refine ⟨hmany, hothers, fun hnone => ?_, fun parent hparent => ?_⟩
  · rw [hnone] at hstands
    have hroot : graph.parentsOf tree.top.id = [] := hstands
    rw [hroot, List.filter_nil, List.map_nil, List.map_eq_nil_iff] at hothers
    exact ⟨hroot, hothers⟩
  · rw [hparent] at hstands hothers
    have hin : parent ∈ graph.parentsOf tree.top.id := hstands
    have hlength := congrArg List.length hothers
    rw [List.length_map, List.length_map] at hlength
    rw [hlength]
    exact ⟨hin, h.length_filter_ne hin⟩

end Parents

/-- In every graph that can be made an occurrence tells whether there are several parents, and the
labels of exactly those that it does not stand below: none at the top, and elsewhere one fewer than
there are parents, whatever labels they share. Where no links go round, every concept occurs: one
without parents once, and any other as often as its parents together. -/
theorem occurrences_tally (hb : graph.Built) :
    (graph.Acyclic → graph.OccursByParents) ∧
      ∀ top ∈ graph.project.walk, top.TellsParents graph :=
  ⟨fun ha => hb.wellLinked.occursByParents ha, fun _ mem => hb.wellLinked.tellsParents mem⟩

/-- Records of an element and a planet with one label, probes below both, and sensors below the
probes and below the planet. -/
def mercury : List Record :=
  [{ id := "element", label := "Mercury" }, { id := "planet", label := "Mercury" },
    { id := "probes", label := "Probes", broader := ["element", "planet"] },
    { id := "sensors", label := "Sensors", broader := ["probes", "planet"] }]

/-- Sensors occur three times, twice below the probes and once below the planet, and the probes
below the planet tell of the element by the label that it shares with the planet. The tangled
records have cycles, and every occurrence tells of its parents even so. -/
theorem occurrences_tally_mercury :
    (ofRecords mercury).Built ∧ (ofRecords mercury).Acyclic ∧
    (ofRecords mercury).OccursByParents ∧
    ((ofRecords mercury).project.occurrencesOf "sensors").length = 3 ∧
    (∃ top ∈ (ofRecords mercury).project.walk, top.path = "planet/probes" ∧
      top.TellsParents (ofRecords mercury) ∧ top.otherParentLabels = ["Mercury"]) ∧
    (ofRecords tangled).Built ∧
    ∀ top ∈ (ofRecords tangled).project.walk, top.TellsParents (ofRecords tangled) := by
  have hacyclic : (ofRecords mercury).Acyclic := acyclic_of_ordered (by decide +kernel)
  have hprobes : ∃ top ∈ (ofRecords mercury).project.walk,
      top.path = "planet/probes" ∧ top.otherParentLabels = ["Mercury"] := by
    decide +kernel
  obtain ⟨top, mem, hpath, hothers⟩ := hprobes
  obtain ⟨hoccurs, htells⟩ := occurrences_tally (.ofRecords mercury)
  have hsensors := (hoccurs hacyclic).sum_of_parents "sensors" (by decide +kernel)
  exact ⟨.ofRecords mercury, hacyclic, hoccurs hacyclic, hsensors.trans (by decide +kernel),
    ⟨top, mem, hpath, htells top mem, hothers⟩, .ofRecords tangled,
    (occurrences_tally (.ofRecords tangled)).2⟩

end ConceptGraph

end Thesaurus

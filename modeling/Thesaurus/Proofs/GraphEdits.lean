import Thesaurus.Proofs.TablesInStep
import Thesaurus.Samples

/-!
# The graph of record, edit by edit

A graph with its tables is made from records and then edited: records are taken in and concepts
taken out. Whatever the records and the edits, it answers as the graph without tables does that is
made and edited alike, its ids and links are in order, and its tables tell exactly what can be read
off these.
-/

namespace Thesaurus

/-- To read something off the items that pass a test is to filter them first. -/
theorem filterMap_if_eq_map_filter {α β : Type} {test : α → Prop} [DecidablePred test]
    {read : α → β} (list : List α) :
    (list.filterMap fun item => if test item then some (read item) else none) =
      (list.filter test).map read := by
  induction list with
  | nil => rfl
  | cons first rest ih =>
    rw [List.filterMap_cons, List.filter_cons, ih]
    by_cases htest : test first
    · simp only [htest, if_true, decide_true, List.map_cons]
    · simp only [htest, if_false, decide_false, Bool.false_eq_true]

/-- An edit of a graph. -/
inductive Edit where
  /-- A created or changed record is taken in. -/
  | upsert (record : Record)
  /-- A concept is taken out. -/
  | remove (id : ConceptId)

namespace ConceptGraph

variable {graph : ConceptGraph}

/-- The graph after an edit. -/
def edit (graph : ConceptGraph) : Edit → ConceptGraph
  | .upsert record => graph.upsert record
  | .remove id => (graph.remove id).2

/-- The graph after some edits. -/
def editAll (graph : ConceptGraph) (edits : List Edit) : ConceptGraph := edits.foldl edit graph

/-- A graph that is edited is one that can be made. -/
theorem Built.edit (hb : graph.Built) (edit : Edit) : (graph.edit edit).Built := by
  cases edit with
  | upsert record => exact hb.upsert record
  | remove id => exact hb.remove id

/-- So it is after some edits. -/
theorem Built.editAll (hb : graph.Built) (edits : List Edit) : (graph.editAll edits).Built :=
  List.foldlRecOn edits _ hb fun _ hg edit _ => hg.edit edit

/-- A concept is a neighbor of its neighbors. -/
theorem mem_neighborsOf_comm {id other : ConceptId} :
    other ∈ graph.neighborsOf id ↔ id ∈ graph.neighborsOf other := by
  have hpair : s(other, id) = s(id, other) := Sym2.eq_swap
  unfold neighborsOf
  simp only [TextSet.mem_ofList, List.mem_append, mem_parentsOf, mem_childrenOf, mem_relatedOf,
    hpair]
  tauto

end ConceptGraph

namespace IndexedGraph

variable {graph : IndexedGraph} {plain : ConceptGraph}

/-- The graph after an edit. -/
def edit (graph : IndexedGraph) : Edit → IndexedGraph
  | .upsert record => graph.upsert record
  | .remove id => (graph.remove id).2

/-- The graph after some edits. -/
def editAll (graph : IndexedGraph) (edits : List Edit) : IndexedGraph := edits.foldl edit graph

/-- A graph of which all tables are in step with the concepts and links of a graph without. -/
structure InStep (graph : IndexedGraph) (plain : ConceptGraph) : Prop
    extends graph.Mirrors plain where
  /-- The table of parents tells those that are read off the broader links. -/
  parentsOf_eq : ∀ id, graph.parentsOf id = plain.parentsOf id
  /-- The table of children tells those that are read off the broader links. -/
  childrenOf_eq : ∀ id, graph.childrenOf id = plain.childrenOf id

section InStep

/-- Parents and children that are told anew are in step. -/
theorem inStep_retable (h : graph.retable.Mirrors plain) : graph.retable.InStep plain where
  toMirrors := h
  parentsOf_eq id := by
    have hbroader : graph.broader = plain.broader := h.broader_eq
    unfold parentsOf retable ConceptGraph.parentsOf
    rw [Table.listAt_grouped, List.filterMap_map, hbroader]
    rfl
  childrenOf_eq id := by
    have hbroader : graph.broader = plain.broader := h.broader_eq
    unfold childrenOf retable ConceptGraph.childrenOf
    rw [Table.listAt_grouped, List.filterMap_map, hbroader]
    rfl

/-- The graph of records is in step. -/
theorem inStep_ofRecords (records : List Record) :
    (ofRecords records).InStep (ConceptGraph.ofRecords records) := by
  have hempty : empty.Mirrors ConceptGraph.empty := by
    refine ⟨rfl, rfl, rfl, fun id place => ?_⟩
    exact iff_of_false nofun nofun
  have hconcepts : (records.foldl IndexedGraph.addConcept empty).Mirrors
      (records.foldl ConceptGraph.addConcept ConceptGraph.empty) :=
    List.foldl_rel hempty fun record _ g p hg => hg.addConcept record
  have hlinks : (records.foldl IndexedGraph.addLinks
      (records.foldl IndexedGraph.addConcept empty)).Mirrors (ConceptGraph.ofRecords records) :=
    List.foldl_rel hconcepts fun record _ g p hg => hg.addLinks record
  exact inStep_retable hlinks.retable

/-- Taking in a record keeps a graph in step. -/
theorem InStep.upsert (h : graph.InStep plain) (record : Record) :
    (graph.upsert record).InStep (plain.upsert record) := by
  have hplaced := h.toMirrors.putConcept record
  unfold IndexedGraph.upsert ConceptGraph.upsert
  refine inStep_retable (Mirrors.retable (Mirrors.addLinks ?_ record))
  refine ⟨hplaced.concepts_eq, ?_, ?_, hplaced.index_iff⟩
  · dsimp only
    rw [hplaced.broader_eq]
  · dsimp only
    rw [hplaced.related_eq]

/-- Taking out a concept keeps a graph in step. -/
theorem InStep.remove (h : graph.InStep plain) (id : ConceptId) :
    (graph.remove id).2.InStep (plain.remove id).2 := by
  have hmirrors := (h.toMirrors.remove id).2
  cases hplace : graph.index.get? id with
  | none =>
    have hsame : (graph.remove id).2 = graph := by
      unfold IndexedGraph.remove
      rw [hplace]
    have hplain : (plain.remove id).2 = plain := by
      rw [← hmirrors.plain_eq, hsame, h.plain_eq]
    rw [hsame, hplain]
    exact h
  | some place =>
    have hanew : ∃ bare : IndexedGraph, (graph.remove id).2 = bare.retable := by
      unfold IndexedGraph.remove
      rw [hplace]
      exact ⟨_, rfl⟩
    obtain ⟨bare, hbare⟩ := hanew
    rw [hbare] at hmirrors ⊢
    exact inStep_retable hmirrors

/-- An edit keeps a graph in step. -/
theorem InStep.edit (h : graph.InStep plain) (edit : Edit) :
    (graph.edit edit).InStep (plain.edit edit) := by
  cases edit with
  | upsert record => exact h.upsert record
  | remove id => exact h.remove id

/-- Whatever the records and the edits, a graph is in step with the one without tables that is
made of the same records and edited alike. -/
theorem inStep_editAll (records : List Record) (edits : List Edit) :
    ((ofRecords records).editAll edits).InStep ((ConceptGraph.ofRecords records).editAll edits) :=
  List.foldl_rel (inStep_ofRecords records) fun edit _ _ _ hg => hg.edit edit

/-- A graph in step answers as the one without tables. -/
theorem InStep.answers_eq (h : graph.InStep plain) :
    graph.contains = plain.contains ∧ graph.concept? = plain.concept? ∧
      graph.label? = plain.label? ∧ graph.roots = plain.roots ∧
      graph.relatedOf = plain.relatedOf ∧ graph.neighborsOf = plain.neighborsOf := by
  have hconcept : graph.concept? = plain.concept? := funext h.concept?_eq
  have hrelated : graph.relatedOf = plain.relatedOf := by
    funext id
    unfold IndexedGraph.relatedOf ConceptGraph.relatedOf
    rw [h.related_eq]
  refine ⟨funext h.contains_eq, hconcept, ?_, ?_, hrelated, ?_⟩
  · funext id
    unfold IndexedGraph.label? ConceptGraph.label?
    rw [hconcept]
  · unfold IndexedGraph.roots ConceptGraph.roots
    simp only [h.parentsOf_eq, h.concepts_eq]
  · funext id
    unfold IndexedGraph.neighborsOf ConceptGraph.neighborsOf
    rw [h.parentsOf_eq, h.childrenOf_eq, hrelated]

end InStep

/-- A graph in which everything that is kept twice agrees, and nothing is kept that should not. -/
structure Consistent (graph : IndexedGraph) : Prop where
  /-- No two concepts have one id. -/
  ids_distinct : graph.ids.Nodup
  /-- The index tells the place of each id, and nothing else. -/
  index_iff : ∀ id place, graph.index.get? id = some place ↔ graph.ids[place]? = some id
  /-- No broader link is listed twice. -/
  broader_distinct : graph.broader.Nodup
  /-- No broader link joins a concept to itself. -/
  broader_apart : ∀ link ∈ graph.broader, link.child ≠ link.parent
  /-- Both ends of every broader link are known. -/
  broader_known : ∀ link ∈ graph.broader, link.child ∈ graph.ids ∧ link.parent ∈ graph.ids
  /-- No pair of concepts is related twice, in whichever order. -/
  related_distinct : (graph.related.map RelatedLink.pair).Nodup
  /-- No related link joins a concept to itself. -/
  related_apart : ∀ link ∈ graph.related, link.first ≠ link.second
  /-- Both ends of every related link are known. -/
  related_known : ∀ link ∈ graph.related, link.first ∈ graph.ids ∧ link.second ∈ graph.ids
  /-- The parents of a concept are the upper ends of the links above it, in link order. -/
  parentsOf_eq : ∀ id, graph.parentsOf id =
    (graph.broader.filter (·.child = id)).map BroaderLink.parent
  /-- The children of a concept are the lower ends of the links below it, in link order. -/
  childrenOf_eq : ∀ id, graph.childrenOf id =
    (graph.broader.filter (·.parent = id)).map BroaderLink.child
  /-- One concept is a parent of another exactly if that is a child of it. -/
  mem_parentsOf_iff : ∀ child parent,
    parent ∈ graph.parentsOf child ↔ child ∈ graph.childrenOf parent
  /-- One concept is a neighbor of another exactly if that is a neighbor of it. -/
  mem_neighborsOf_comm : ∀ id other,
    other ∈ graph.neighborsOf id ↔ id ∈ graph.neighborsOf other

/-- Whatever the records that a graph is made of, and however it is edited then, its ids and links
are in order and its tables tell what can be read off these, and nothing else. -/
theorem editAll_consistent (records : List Record) (edits : List Edit) :
    ((ofRecords records).editAll edits).Consistent := by
  have hstep := inStep_editAll records edits
  have hbuilt : ((ConceptGraph.ofRecords records).editAll edits).Built :=
    (ConceptGraph.Built.ofRecords records).editAll edits
  rw [← hstep.plain_eq] at hbuilt hstep
  generalize (ofRecords records).editAll edits = graph at hstep hbuilt ⊢
  have hlinked := hbuilt.wellLinked
  have hrelated := hbuilt.wellRelated
  have hknown : ∀ id, graph.plain.contains id = true → id ∈ graph.ids :=
    fun id hid => ConceptGraph.contains_iff.mp hid
  obtain ⟨_, _, _, _, _, hneighbors⟩ := hstep.answers_eq
  refine
    { ids_distinct := hstep.ids_distinct
      index_iff := hstep.index_iff
      broader_distinct := hlinked.links_distinct
      broader_apart := hlinked.ends_apart
      broader_known := fun link mem => (hlinked.ends_known link mem).imp (hknown _) (hknown _)
      related_distinct := hrelated.pairs_distinct
      related_apart := hrelated.joined_apart
      related_known := fun link mem => (hrelated.joined_known link mem).imp (hknown _) (hknown _)
      parentsOf_eq := fun id => (hstep.parentsOf_eq id).trans (filterMap_if_eq_map_filter _)
      childrenOf_eq := fun id => (hstep.childrenOf_eq id).trans (filterMap_if_eq_map_filter _)
      mem_parentsOf_iff := fun child parent => ?_
      mem_neighborsOf_comm := fun id other => ?_ }
  · rw [hstep.parentsOf_eq, hstep.childrenOf_eq, ConceptGraph.mem_parentsOf,
      ConceptGraph.mem_childrenOf]
  · rw [hneighbors]
    exact ConceptGraph.mem_neighborsOf_comm

/-- With the metals taken out, steel moves up one place and the alloys are left without a parent. -/
example :
    ((ofRecords Samples.materials).editAll [.remove "metals"]).index.get? "steel" = some 2 ∧
      ((ofRecords Samples.materials).editAll [.remove "metals"]).parentsOf "alloys" = [] ∧
      ((ofRecords Samples.materials).editAll [.remove "metals"]).childrenOf "alloys" =
        ["steel"] := by
  decide +kernel

end IndexedGraph

end Thesaurus

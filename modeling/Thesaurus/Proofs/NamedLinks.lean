import Thesaurus.Proofs.GraphEdits

/-!
# What a list of records names

A graph of records takes the concept of the first record with an id, but the links of all records:
in the order in which they are named, each once, those left out that lead to an unknown concept or
back to the one that names them. Its tables are those that are told anew of its concepts and links.
-/

namespace Thesaurus

section FirstOfEach

variable {α β : Type} [DecidableEq β] {key : α → β}

/-- An item behind some others, unless one of them has its key. -/
def keepNew (key : α → β) (kept : List α) (item : α) : List α :=
  if key item ∈ kept.map key then kept else kept ++ [item]

/-- The items of a list that are the first with their key, in order. -/
def firstOfEach (key : α → β) (list : List α) : List α := list.foldl (keepNew key) []

/-- Items behind a list are kept one after another. -/
theorem firstOfEach_append (list more : List α) :
    firstOfEach key (list ++ more) = more.foldl (keepNew key) (firstOfEach key list) :=
  List.foldl_append

/-- Keeping the first of each loses no key. -/
theorem mem_keys_firstOfEach {list : List α} {k : β} :
    k ∈ (firstOfEach key list).map key ↔ k ∈ list.map key := by
  induction list using List.reverseRecOn with
  | nil => exact Iff.rfl
  | append_singleton rest item ih =>
    rw [firstOfEach_append, List.foldl_cons, List.foldl_nil, keepNew, List.map_append,
      List.mem_append, ← ih, List.map_singleton, List.mem_singleton]
    split
    · rename_i old
      exact ⟨Or.inl, fun h => h.elim (fun mem => mem) fun same => same ▸ old⟩
    · rw [List.map_append, List.mem_append, List.map_singleton, List.mem_singleton]

/-- An item behind a list is kept if its key is new. -/
theorem firstOfEach_concat (list : List α) (item : α) :
    firstOfEach key (list ++ [item]) =
      if key item ∈ list.map key then firstOfEach key list
      else firstOfEach key list ++ [item] := by
  rw [firstOfEach_append, List.foldl_cons, List.foldl_nil, keepNew]
  simp only [mem_keys_firstOfEach]

/-- An item behind a list is looked at if it passes the test. -/
theorem firstOfEach_filter_concat (test : α → Bool) (list : List α) (item : α) :
    firstOfEach key ((list ++ [item]).filter test) =
      if test item = true then keepNew key (firstOfEach key (list.filter test)) item
      else firstOfEach key (list.filter test) := by
  rw [List.filter_append]
  by_cases hitem : test item = true
  · rw [if_pos hitem, List.filter_cons_of_pos hitem, List.filter_nil, firstOfEach_append]
    rfl
  · rw [if_neg hitem, List.filter_cons_of_neg hitem, List.filter_nil, List.append_nil]

/-- What is kept of a list stands in it, in the same order. -/
theorem firstOfEach_sublist (list : List α) : (firstOfEach key list).Sublist list := by
  induction list using List.reverseRecOn with
  | nil => exact List.Sublist.refl _
  | append_singleton rest item ih =>
    rw [firstOfEach_concat]
    split
    · exact ih.trans (List.sublist_append_left rest [item])
    · exact ih.append (List.Sublist.refl [item])

/-- No two items that are kept have one key. -/
theorem nodup_keys_firstOfEach (list : List α) : ((firstOfEach key list).map key).Nodup := by
  induction list using List.reverseRecOn with
  | nil => exact List.nodup_nil
  | append_singleton rest item ih =>
    rw [firstOfEach_concat]
    split
    · exact ih
    · rename_i hnew
      rw [List.map_append, List.map_singleton, ← List.concat_eq_append, List.nodup_concat,
        mem_keys_firstOfEach]
      exact ⟨hnew, ih⟩

/-- Where no two items have one key, all are kept. -/
theorem firstOfEach_of_nodup {list : List α} (hd : (list.map key).Nodup) :
    firstOfEach key list = list := by
  induction list using List.reverseRecOn with
  | nil => rfl
  | append_singleton rest item ih =>
    rw [List.map_append, List.map_singleton, ← List.concat_eq_append, List.nodup_concat] at hd
    rw [firstOfEach_concat, if_neg hd.1, ih hd.2]

/-- Items with known keys add nothing. -/
theorem firstOfEach_append_of_known {list more : List α}
    (h : ∀ item ∈ more, key item ∈ list.map key) :
    firstOfEach key (list ++ more) = firstOfEach key list := by
  induction more using List.reverseRecOn with
  | nil => rw [List.append_nil]
  | append_singleton rest item ih =>
    have hold : key item ∈ (list ++ rest).map key := by
      rw [List.map_append]
      exact List.mem_append_left _ (h item List.mem_concat_self)
    rw [← List.append_assoc, firstOfEach_concat, if_pos hold]
    exact ih fun other mem => h other (List.mem_append_left _ mem)

/-- An item is kept exactly if its key does not come before it. -/
theorem mem_firstOfEach_iff {list : List α} {item : α} :
    item ∈ firstOfEach key list ↔
      ∃ before after, list = before ++ item :: after ∧ key item ∉ before.map key := by
  induction list using List.reverseRecOn with
  | nil =>
    refine iff_of_false List.not_mem_nil ?_
    rintro ⟨before, after, h, _⟩
    exact List.append_ne_nil_of_right_ne_nil before (List.cons_ne_nil item after) h.symm
  | append_singleton rest last ih =>
    have hrest : item ∈ firstOfEach key rest →
        ∃ before after, rest ++ [last] = before ++ item :: after ∧ key item ∉ before.map key := by
      intro mem
      obtain ⟨before, after, rfl, hnew⟩ := ih.mp mem
      exact ⟨before, after ++ [last], by rw [List.append_assoc, List.cons_append], hnew⟩
    rw [firstOfEach_concat]
    constructor
    · intro mem
      split at mem
      · exact hrest mem
      · rename_i hnew
        rcases List.mem_append.mp mem with mem | mem
        · exact hrest mem
        · rw [List.mem_singleton.mp mem]
          exact ⟨rest, [], rfl, hnew⟩
    · rintro ⟨before, after, h, hnew⟩
      -- the item is the last one, or it stands in the rest
      rcases List.eq_nil_or_concat after with rfl | ⟨more, other, rfl⟩
      · obtain ⟨rfl, hlast⟩ := List.append_inj' h rfl
        obtain ⟨rfl, _⟩ := List.cons.inj hlast
        rw [if_neg hnew]
        exact List.mem_concat_self
      · rw [List.concat_eq_append, ← List.cons_append, ← List.append_assoc] at h
        obtain ⟨rfl, _⟩ := List.append_inj' h rfl
        have mem := ih.mpr ⟨before, more, rfl, hnew⟩
        split
        · exact mem
        · exact List.mem_append_left _ mem

/-- A test that looks at keys only may be made before or after. -/
theorem filter_firstOfEach {test : α → Bool}
    (htest : ∀ first second, key first = key second → test first = test second)
    (list : List α) :
    (firstOfEach key list).filter test = firstOfEach key (list.filter test) := by
  induction list using List.reverseRecOn with
  | nil => rfl
  | append_singleton rest item ih =>
    rw [firstOfEach_concat, List.filter_append]
    by_cases hitem : test item = true
    · have hkey : key item ∈ (rest.filter test).map key ↔ key item ∈ rest.map key := by
        simp only [List.mem_map, List.mem_filter]
        refine exists_congr fun other => ?_
        constructor
        · rintro ⟨⟨mem, _⟩, same⟩
          exact ⟨mem, same⟩
        · rintro ⟨mem, same⟩
          exact ⟨⟨mem, (htest other item same).trans hitem⟩, same⟩
      rw [List.filter_cons_of_pos hitem, List.filter_nil, firstOfEach_concat]
      simp only [hkey]
      split
      · exact ih
      · rw [List.filter_append, ih, List.filter_cons_of_pos hitem, List.filter_nil]
    · rw [List.filter_cons_of_neg hitem, List.filter_nil, List.append_nil, ← ih]
      split
      · rfl
      · rw [List.filter_append, List.filter_cons_of_neg hitem, List.filter_nil, List.append_nil]

end FirstOfEach

/-- The broader links that some records name, in order. -/
def namedBroader (records : List Record) : List BroaderLink :=
  records.flatMap fun record => record.broader.map (⟨record.id, ·⟩)

/-- The related links that some records name, in order. -/
def namedRelated (records : List Record) : List RelatedLink :=
  records.flatMap fun record => record.related.map (⟨record.id, ·⟩)

attribute [ext] ConceptGraph

namespace ConceptGraph

variable {graph : ConceptGraph} {broader : List BroaderLink} {related : List RelatedLink}

/-- The links of a graph are some that were named, each once, those left out that lead to an
unknown concept or back to the one that named them. -/
structure Takes (graph : ConceptGraph) (broader : List BroaderLink)
    (related : List RelatedLink) : Prop where
  /-- The broader links, none of them twice. -/
  broader_eq : graph.broader =
    firstOfEach id (broader.filter fun link => graph.admits link.child link.parent)
  /-- The related links, no pair joined twice. -/
  related_eq : graph.related =
    firstOfEach RelatedLink.pair (related.filter fun link => graph.admits link.first link.second)

section Takes

/-- A broader link that is admitted comes behind the others, unless it is among them. -/
theorem addBroader_eq (graph : ConceptGraph) (child parent : ConceptId) :
    (graph.addBroader child parent).broader =
      if graph.admits child parent = true then keepNew id graph.broader ⟨child, parent⟩
      else graph.broader := by
  unfold addBroader admits keepNew
  rw [List.map_id, id]
  by_cases hknown : (graph.contains parent && parent != child) = true
  · by_cases old : ⟨child, parent⟩ ∈ graph.broader <;> simp [hknown, old]
  · simp [hknown]

/-- A related link that is admitted comes behind the others, unless its pair is joined. -/
theorem addRelated_eq (graph : ConceptGraph) (first second : ConceptId) :
    (graph.addRelated first second).related =
      if graph.admits first second = true then
        keepNew RelatedLink.pair graph.related ⟨first, second⟩
      else graph.related := by
  have hjoined := @areRelated_iff graph first second
  unfold addRelated admits keepNew
  by_cases hknown : (graph.contains second && second != first) = true
  · by_cases old : s(first, second) ∈ graph.related.map RelatedLink.pair
    · simp [hknown, hjoined.mpr old, RelatedLink.pair, old]
    · simp [hknown, Bool.eq_false_iff.mpr (hjoined.not.mpr old), RelatedLink.pair, old]
  · simp [hknown]

/-- One more broader link is named. -/
theorem Takes.addBroader (h : graph.Takes broader related) (child parent : ConceptId) :
    (graph.addBroader child parent).Takes (broader ++ [⟨child, parent⟩]) related := by
  have hsame := admits_congr (addBroader_concepts graph child parent)
  constructor <;> simp only [hsame]
  · rw [firstOfEach_filter_concat, ← h.broader_eq, addBroader_eq]
  · rw [← h.related_eq, addBroader_related]

/-- One more related link is named. -/
theorem Takes.addRelated (h : graph.Takes broader related) (first second : ConceptId) :
    (graph.addRelated first second).Takes broader (related ++ [⟨first, second⟩]) := by
  have hsame := admits_congr (addRelated_concepts graph first second)
  constructor <;> simp only [hsame]
  · rw [← h.broader_eq, addRelated_broader]
  · rw [firstOfEach_filter_concat, ← h.related_eq, addRelated_eq]

/-- The broader links of one record are named. -/
theorem Takes.addParents (h : graph.Takes broader related) (child : ConceptId)
    (parents : List ConceptId) :
    (parents.foldl (fun g parent => g.addBroader child parent) graph).Takes
      (broader ++ parents.map (⟨child, ·⟩)) related := by
  induction parents generalizing graph broader with
  | nil =>
    rw [List.map_nil, List.append_nil]
    exact h
  | cons parent rest ih =>
    have hrest := ih (h.addBroader child parent)
    rw [List.append_assoc, List.singleton_append] at hrest
    exact hrest

/-- The related links of one record are named. -/
theorem Takes.addRelateds (h : graph.Takes broader related) (first : ConceptId)
    (others : List ConceptId) :
    (others.foldl (fun g other => g.addRelated first other) graph).Takes
      broader (related ++ others.map (⟨first, ·⟩)) := by
  induction others generalizing graph related with
  | nil =>
    rw [List.map_nil, List.append_nil]
    exact h
  | cons other rest ih =>
    have hrest := ih (h.addRelated first other)
    rw [List.append_assoc, List.singleton_append] at hrest
    exact hrest

/-- The links of some records are named. -/
theorem Takes.addAllLinks (h : graph.Takes broader related) (records : List Record) :
    (records.foldl addLinks graph).Takes (broader ++ namedBroader records)
      (related ++ namedRelated records) := by
  induction records generalizing graph broader related with
  | nil =>
    rw [namedBroader, namedRelated, List.flatMap_nil, List.flatMap_nil, List.append_nil,
      List.append_nil]
    exact h
  | cons record rest ih =>
    have hrest := ih ((h.addParents record.id record.broader).addRelateds record.id record.related)
    rw [List.append_assoc, List.append_assoc] at hrest
    exact hrest

end Takes

section Records

/-- A graph of records takes the concept of the first record with each id. -/
theorem ofRecords_concepts_eq (records : List Record) :
    (ofRecords records).concepts = (firstOfEach Record.id records).map Record.concept := by
  unfold ofRecords
  rw [foldl_addLinks_concepts]
  induction records using List.reverseRecOn with
  | nil => rfl
  | append_singleton rest record ih =>
    have hcontains : (rest.foldl addConcept empty).contains record.id = true ↔
        record.id ∈ rest.map Record.id := by
      rw [contains_foldl_addConcept]
      simp [empty, contains]
    rw [List.foldl_append, List.foldl_cons, List.foldl_nil, addConcept, firstOfEach_concat]
    simp only [hcontains]
    split
    · exact ih
    · rw [List.map_append, ← ih]
      rfl

/-- A graph of records takes the links that all of them name. -/
theorem ofRecords_takes (records : List Record) :
    (ofRecords records).Takes (namedBroader records) (namedRelated records) := by
  have hbare : (records.foldl addConcept empty).Takes [] [] := by
    constructor
    · rw [foldl_addConcept_broader]
      rfl
    · rw [foldl_addConcept_related]
      rfl
  exact hbare.addAllLinks records

end Records

/-- The graph with all its tables, told anew. -/
def tabled (graph : ConceptGraph) : IndexedGraph :=
  (IndexedGraph.reindex
    { concepts := graph.concepts, broader := graph.broader, related := graph.related }).retable

end ConceptGraph

namespace IndexedGraph

variable {graph : IndexedGraph}

/-- Whether the index is the one told anew. -/
def IndexTold (graph : IndexedGraph) : Prop := graph.index = Table.ofPairs graph.ids.zipIdx

/-- With its index told anew, a graph needs its parents and children told only. -/
theorem IndexTold.retable_eq (h : graph.IndexTold) : graph.retable = graph.plain.tabled := by
  obtain ⟨concepts, index, broader, related, parents, children⟩ := graph
  have hindex : index = Table.ofPairs (concepts.map Concept.id).zipIdx := h
  rw [hindex]
  rfl

/-- Putting a concept behind the others tells its place. -/
theorem IndexTold.addConcept (h : graph.IndexTold) (record : Record) :
    (graph.addConcept record).IndexTold := by
  unfold IndexedGraph.addConcept
  split
  · exact h
  · have hids : (graph.append record).ids = graph.ids ++ [record.id] := List.map_append
    have hlength : graph.concepts.length = graph.ids.length := (List.length_map Concept.id).symm
    unfold IndexTold at h ⊢
    rw [hids, List.zipIdx_append, Table.ofPairs, List.foldl_append, ← Table.ofPairs, ← h]
    show graph.index.put record.id graph.concepts.length = _
    rw [hlength]
    simp

/-- Adding the links of a record changes no places. -/
theorem IndexTold.addLinks (h : graph.IndexTold) (record : Record) :
    (graph.addLinks record).IndexTold := by
  unfold IndexedGraph.addLinks
  refine List.foldlRecOn record.related _ ?_ fun g hg other _ => ?_
  · refine List.foldlRecOn record.broader _ h fun g hg parent _ => ?_
    unfold IndexedGraph.addBroader
    split <;> exact hg
  · unfold IndexedGraph.addRelated
    split <;> exact hg

/-- The graph of some records has the tables that are told anew of their concepts and links. -/
theorem ofRecords_eq_tabled (records : List Record) :
    ofRecords records = (ConceptGraph.ofRecords records).tabled := by
  have hconcepts : (records.foldl addConcept empty).IndexTold :=
    List.foldlRecOn records _ rfl fun _ hg record _ => hg.addConcept record
  have hlinks : (records.foldl addLinks (records.foldl addConcept empty)).IndexTold :=
    List.foldlRecOn records _ hconcepts fun _ hg record _ => hg.addLinks record
  rw [← (inStep_ofRecords records).plain_eq]
  exact hlinks.retable_eq

end IndexedGraph

end Thesaurus

import Mathlib.Data.List.Nodup
import Thesaurus.Proofs.Ingest

/-!
# Graphs as they are built

A graph is made from records, and then kept up to date one record at a time. However it was made,
every id stands for one concept, and every broader link is listed once and joins two different
concepts of the graph.
-/

namespace Thesaurus.ConceptGraph

/-- The graphs that can be made: the one without concepts, those of records, and what comes of
taking in a record or taking out a concept. -/
inductive Built : ConceptGraph → Prop where
  /-- The graph without concepts. -/
  | empty : Built ConceptGraph.empty
  /-- The graph of some records. -/
  | ofRecords (records : List Record) : Built (ConceptGraph.ofRecords records)
  /-- A record is taken in. -/
  | upsert {graph : ConceptGraph} (hb : Built graph) (record : Record) : Built (graph.upsert record)
  /-- A concept is taken out. -/
  | remove {graph : ConceptGraph} (hb : Built graph) (id : ConceptId) : Built (graph.remove id).2

/-- A graph whose ids and broader links are in order. -/
structure WellLinked (graph : ConceptGraph) : Prop where
  /-- No two concepts have one id. -/
  ids_distinct : graph.ids.Nodup
  /-- No broader link is listed twice. -/
  links_distinct : graph.broader.Nodup
  /-- The graph holds both ends of every broader link. -/
  ends_known : ∀ link ∈ graph.broader,
    graph.contains link.child = true ∧ graph.contains link.parent = true
  /-- No broader link joins a concept to itself. -/
  ends_apart : ∀ link ∈ graph.broader, link.child ≠ link.parent

/-- The concepts of a graph decide which ids it holds. -/
theorem contains_congr {graph other : ConceptGraph} (h : other.concepts = graph.concepts)
    (id : ConceptId) : other.contains id = graph.contains id := by
  unfold contains
  rw [h]

section WellLinked

variable {graph : ConceptGraph}

/-- Related links have no part in it. -/
theorem WellLinked.congr {other : ConceptGraph} (h : graph.WellLinked)
    (hc : other.concepts = graph.concepts) (hb : other.broader = graph.broader) :
    other.WellLinked := by
  constructor
  · unfold ids
    rw [hc]
    exact h.ids_distinct
  · rw [hb]
    exact h.links_distinct
  · intro link mem
    rw [hb] at mem
    rw [contains_congr hc, contains_congr hc]
    exact h.ends_known link mem
  · intro link mem
    rw [hb] at mem
    exact h.ends_apart link mem

/-- An unknown concept has no parents. -/
theorem WellLinked.parentsOf_of_unknown (h : graph.WellLinked) {id : ConceptId}
    (hid : graph.contains id = false) : graph.parentsOf id = [] := by
  refine List.eq_nil_iff_forall_not_mem.mpr fun parent mem => ?_
  have hknown := (h.ends_known _ (mem_parentsOf.mp mem)).1
  rw [hid] at hknown
  cases hknown

/-- Where what a broader link gives tells which link it was, no two links give the same. -/
theorem WellLinked.filterMap_nodup (h : graph.WellLinked)
    {give : BroaderLink → Option ConceptId} (back : ConceptId → BroaderLink)
    (hback : ∀ link id, id ∈ give link → link = back id) :
    (graph.broader.filterMap give).Nodup := by
  refine List.Nodup.filterMap (fun link other id hl ho => ?_) h.links_distinct
  exact (hback link id hl).trans (hback other id ho).symm

/-- A list of children names no child twice. -/
theorem WellLinked.childrenOf_nodup (h : graph.WellLinked) (id : ConceptId) :
    (graph.childrenOf id).Nodup := by
  refine h.filterMap_nodup (fun child => ⟨child, id⟩) ?_
  rintro ⟨lower, upper⟩ child hchild
  simp only [Option.mem_def, Option.ite_none_right_eq_some, Option.some.injEq] at hchild
  rw [hchild.1, hchild.2]

/-- A list of parents names no parent twice. -/
theorem WellLinked.parentsOf_nodup (h : graph.WellLinked) (id : ConceptId) :
    (graph.parentsOf id).Nodup := by
  refine h.filterMap_nodup (fun parent => ⟨id, parent⟩) ?_
  rintro ⟨lower, upper⟩ parent hparent
  simp only [Option.mem_def, Option.ite_none_right_eq_some, Option.some.injEq] at hparent
  rw [hparent.1, hparent.2]

/-- No root is listed twice. -/
theorem WellLinked.roots_nodup (h : graph.WellLinked) : (graph.roots.map Concept.id).Nodup :=
  h.ids_distinct.sublist (List.filter_sublist.map Concept.id)

/-- Adding a broader link above a known concept keeps a graph in order. -/
theorem WellLinked.addBroader (h : graph.WellLinked) {child : ConceptId}
    (hc : graph.contains child = true) (parent : ConceptId) :
    (graph.addBroader child parent).WellLinked := by
  unfold ConceptGraph.addBroader
  split
  · rename_i hnew
    rw [Bool.and_eq_true, Bool.and_eq_true, Bool.not_eq_true', bne_iff_ne] at hnew
    obtain ⟨⟨hparent, hne⟩, hout⟩ := hnew
    have hlink : ∀ link ∈ graph.broader ++ [⟨child, parent⟩],
        link ∈ graph.broader ∨ link = ⟨child, parent⟩ := by
      intro link mem
      exact (List.mem_append.mp mem).imp_right List.mem_singleton.mp
    refine ⟨h.ids_distinct, ?_, ?_, ?_⟩
    · rw [← List.concat_eq_append]
      refine List.Nodup.concat (fun mem => ?_) h.links_distinct
      rw [List.contains_iff_mem.mpr mem] at hout
      cases hout
    · intro link mem
      rcases hlink link mem with old | rfl
      · exact h.ends_known link old
      · exact ⟨hc, hparent⟩
    · intro link mem
      rcases hlink link mem with old | rfl
      · exact h.ends_apart link old
      · exact Ne.symm hne
  · exact h

/-- Adding broader links above a known concept keeps a graph in order. -/
theorem WellLinked.addParents (h : graph.WellLinked) {child : ConceptId}
    (hc : graph.contains child = true) (parents : List ConceptId) :
    (parents.foldl (fun g parent => g.addBroader child parent) graph).WellLinked := by
  induction parents generalizing graph with
  | nil => exact h
  | cons parent rest ih =>
    refine ih (h.addBroader hc parent) ?_
    rw [contains_congr (addBroader_concepts graph child parent)]
    exact hc

/-- Adding related links keeps a graph in order. -/
theorem WellLinked.addRelateds (h : graph.WellLinked) (id : ConceptId)
    (others : List ConceptId) :
    (others.foldl (fun g other => g.addRelated id other) graph).WellLinked := by
  induction others generalizing graph with
  | nil => exact h
  | cons other rest ih =>
    exact ih (h.congr (addRelated_concepts graph id other) (addRelated_broader graph id other))

/-- Adding the links of a record of a known concept keeps a graph in order. -/
theorem WellLinked.addLinks (h : graph.WellLinked) {record : Record}
    (hc : graph.contains record.id = true) : (graph.addLinks record).WellLinked :=
  (h.addParents hc record.broader).addRelateds record.id record.related

/-- Adding the links of records of known concepts keeps a graph in order. -/
theorem WellLinked.addAllLinks (h : graph.WellLinked) {records : List Record}
    (hc : ∀ record ∈ records, graph.contains record.id = true) :
    (records.foldl ConceptGraph.addLinks graph).WellLinked := by
  induction records generalizing graph with
  | nil => exact h
  | cons record rest ih =>
    obtain ⟨hfirst, hrest⟩ := List.forall_mem_cons.mp hc
    refine ih (h.addLinks hfirst) fun other mem => ?_
    have hsame : (graph.addLinks record).concepts = graph.concepts :=
      foldl_addLinks_concepts graph [record]
    rw [contains_congr hsame]
    exact hrest other mem

/-- Taking in concepts, no id comes twice. -/
theorem ids_foldl_addConcept_nodup (h : graph.ids.Nodup) (records : List Record) :
    (records.foldl addConcept graph).ids.Nodup := by
  induction records generalizing graph with
  | nil => exact h
  | cons record rest ih =>
    apply ih
    unfold addConcept
    split
    · exact h
    · rename_i hnew
      show ((graph.concepts ++ [record.concept]).map Concept.id).Nodup
      rw [List.map_append, List.map_singleton, ← List.concat_eq_append]
      exact List.Nodup.concat (fun mem => hnew (contains_iff.mpr mem)) h

/-- A graph of records is in order. -/
theorem wellLinked_ofRecords (records : List Record) : (ofRecords records).WellLinked := by
  have hbare : (records.foldl addConcept empty).WellLinked := by
    have hnone : (records.foldl addConcept empty).broader = [] := foldl_addConcept_broader _ _
    have hfirst : empty.ids.Nodup := List.nodup_nil
    refine ⟨ids_foldl_addConcept_nodup hfirst records, ?_, ?_, ?_⟩
    · rw [hnone]
      exact List.nodup_nil
    · rw [hnone]
      exact fun _ mem => nomatch mem
    · rw [hnone]
      exact fun _ mem => nomatch mem
  refine hbare.addAllLinks fun record mem => ?_
  rw [contains_foldl_addConcept, Bool.or_eq_true]
  exact Or.inr (List.any_eq_true.mpr ⟨record, mem, beq_self_eq_true record.id⟩)

/-- Putting a concept in its place changes no ids, or puts one behind them. -/
theorem ids_putConcept (graph : ConceptGraph) (record : Record) :
    (graph.putConcept record).ids =
      if graph.contains record.id = true then graph.ids else graph.ids ++ [record.id] := by
  unfold putConcept
  split
  · unfold ids
    rw [List.map_map]
    refine List.map_congr_left fun old _ => ?_
    show (if old.id = record.id then record.concept else old).id = old.id
    split
    · rename_i same
      exact same.symm
    · rfl
  · exact List.map_append

/-- Putting a concept in its place, a graph holds those it held and the new one. -/
theorem contains_putConcept {record : Record} {id : ConceptId} :
    (graph.putConcept record).contains id = true ↔
      graph.contains id = true ∨ id = record.id := by
  rw [contains_iff, contains_iff, ids_putConcept]
  split
  · rename_i old
    refine ⟨Or.inl, ?_⟩
    rintro (mem | rfl)
    · exact mem
    · exact contains_iff.mp old
  · rw [List.mem_append, List.mem_singleton]

/-- Taking in a record keeps a graph in order. -/
theorem WellLinked.upsert (h : graph.WellLinked) (record : Record) :
    (graph.upsert record).WellLinked := by
  have hsame : (graph.putConcept record).broader = graph.broader := by
    unfold putConcept
    split <;> rfl
  unfold ConceptGraph.upsert
  apply WellLinked.addLinks
  · refine ⟨?_, ?_, ?_, ?_⟩
    · show (graph.putConcept record).ids.Nodup
      rw [ids_putConcept]
      split
      · exact h.ids_distinct
      · rename_i hnew
        rw [← List.concat_eq_append]
        exact List.Nodup.concat (fun mem => hnew (contains_iff.mpr mem)) h.ids_distinct
    · show ((graph.putConcept record).broader.filter _).Nodup
      rw [hsame]
      exact h.links_distinct.filter _
    · intro link mem
      have old : link ∈ graph.broader := hsame ▸ (List.mem_filter.mp mem).1
      obtain ⟨hchild, hparent⟩ := h.ends_known link old
      exact ⟨contains_putConcept.mpr (Or.inl hchild), contains_putConcept.mpr (Or.inl hparent)⟩
    · intro link mem
      exact h.ends_apart link (hsame ▸ (List.mem_filter.mp mem).1)
  · exact contains_putConcept.mpr (Or.inr rfl)

/-- Without a concept a graph holds the others. -/
theorem contains_remove (graph : ConceptGraph) (id other : ConceptId) :
    (graph.remove id).2.contains other = (graph.contains other && other != id) := by
  unfold remove
  split
  · rename_i hnone
    have hout : graph.contains id = false := by
      rw [← concept?_isSome, hnone]
      rfl
    by_cases same : other = id
    · rw [same, hout, Bool.false_and]
    · rw [bne_iff_ne.mpr same, Bool.and_true]
  · unfold contains
    rw [List.any_filter, Bool.eq_iff_iff, Bool.and_eq_true, List.any_eq_true, List.any_eq_true,
      bne_iff_ne]
    simp only [Bool.and_eq_true, bne_iff_ne, beq_iff_eq]
    constructor
    · rintro ⟨concept, mem, hne, rfl⟩
      exact ⟨⟨concept, mem, rfl⟩, hne⟩
    · rintro ⟨⟨concept, mem, rfl⟩, hne⟩
      exact ⟨concept, mem, hne, rfl⟩

/-- Taking out a concept that is not there changes nothing. -/
theorem remove_of_not_contains {id : ConceptId} (h : graph.contains id = false) :
    (graph.remove id).2 = graph := by
  have hnone : graph.concept? id = none := by
    rw [← Option.not_isSome_iff_eq_none, concept?_isSome, h]
    exact Bool.false_ne_true
  unfold remove
  rw [hnone]

/-- Taking out a concept that is there takes out all links that touch it. -/
theorem remove_of_contains {id : ConceptId} (h : graph.contains id = true) :
    (graph.remove id).2 =
      { concepts := graph.concepts.filter (·.id != id)
        broader := graph.broader.filter fun link => link.child != id && link.parent != id
        related := graph.related.filter fun link => !link.touches id } := by
  rw [← concept?_isSome, Option.isSome_iff_exists] at h
  obtain ⟨concept, hconcept⟩ := h
  unfold remove
  rw [hconcept]

/-- Taking out a concept keeps a graph in order. -/
theorem WellLinked.remove (h : graph.WellLinked) (id : ConceptId) :
    (graph.remove id).2.WellLinked := by
  cases hid : graph.contains id with
  | false =>
    rw [remove_of_not_contains hid]
    exact h
  | true =>
    have hkept := contains_remove graph id
    rw [remove_of_contains hid] at hkept ⊢
    refine ⟨h.ids_distinct.sublist (List.filter_sublist.map Concept.id),
      h.links_distinct.filter _, ?_, ?_⟩
    · intro link mem
      obtain ⟨old, hends⟩ := List.mem_filter.mp mem
      rw [Bool.and_eq_true] at hends
      obtain ⟨hchild, hparent⟩ := h.ends_known link old
      rw [hkept, hkept, hchild, hparent, hends.1, hends.2]
      exact ⟨rfl, rfl⟩
    · exact fun link mem => h.ends_apart link (List.mem_filter.mp mem).1

end WellLinked

/-- However a graph was made, it is in order. -/
theorem Built.wellLinked {graph : ConceptGraph} (hb : graph.Built) : graph.WellLinked := by
  induction hb with
  | empty => exact wellLinked_ofRecords []
  | ofRecords records => exact wellLinked_ofRecords records
  | upsert _ record ih => exact ih.upsert record
  | remove _ id ih => exact ih.remove id

end Thesaurus.ConceptGraph

import Mathlib.Data.Sym.Sym2
import Thesaurus.Proofs.WellLinked

/-!
# Related links as they are built

Whatever the records of a graph name as related, each of its related links joins two different
concepts that it holds, and no pair of concepts is joined twice, in whichever order the ends stand.
-/

namespace Thesaurus

/-- From one end of a pair the other end is met, and nothing else. -/
theorem otherEnd_eq_some_iff {α : Type} [DecidableEq α] {first second here there : α} :
    (if first = here then some second else if second = here then some first else none) =
      some there ↔ s(first, second) = s(here, there) := by
  rw [Sym2.eq_iff]
  by_cases hfirst : first = here
  · rw [if_pos hfirst, Option.some.injEq]
    constructor
    · exact fun h => Or.inl ⟨hfirst, h⟩
    · rintro (⟨_, h⟩ | ⟨h, hsecond⟩)
      · exact h
      · rw [hsecond, ← h, hfirst]
  · rw [if_neg hfirst]
    by_cases hsecond : second = here
    · rw [if_pos hsecond, Option.some.injEq]
      simp only [hfirst, false_and, false_or, hsecond, and_true]
    · rw [if_neg hsecond]
      simp only [reduceCtorEq, hfirst, hsecond, false_and, and_false, or_self]

namespace RelatedLink

/-- The two ends of a related link, in no order. -/
def pair (link : RelatedLink) : Sym2 ConceptId := s(link.first, link.second)

/-- A related link leads from a concept across to another exactly if it joins the two. -/
theorem other_eq_some_iff {link : RelatedLink} {id across : ConceptId} :
    link.other id = some across ↔ link.pair = s(id, across) :=
  otherEnd_eq_some_iff

end RelatedLink

namespace ConceptGraph

/-- A graph whose related links are in order. -/
structure WellRelated (graph : ConceptGraph) : Prop where
  /-- No pair is joined twice, in whichever order. -/
  pairs_distinct : (graph.related.map RelatedLink.pair).Nodup
  /-- The graph holds both ends of every related link. -/
  joined_known : ∀ link ∈ graph.related,
    graph.contains link.first = true ∧ graph.contains link.second = true
  /-- No related link joins a concept to itself. -/
  joined_apart : ∀ link ∈ graph.related, link.first ≠ link.second

variable {graph : ConceptGraph}

/-- Two concepts are related exactly if some link joins the pair. -/
theorem areRelated_iff {id other : ConceptId} :
    graph.areRelated id other = true ↔ s(id, other) ∈ graph.related.map RelatedLink.pair := by
  unfold areRelated
  simp only [List.any_eq_true, beq_iff_eq, RelatedLink.other_eq_some_iff, List.mem_map]

/-- The related concepts of one are those that some link joins it to. -/
theorem mem_relatedOf {id other : ConceptId} :
    other ∈ graph.relatedOf id ↔ s(id, other) ∈ graph.related.map RelatedLink.pair := by
  unfold relatedOf
  simp only [List.mem_filterMap, RelatedLink.other_eq_some_iff, List.mem_map]

/-- With fewer related links, of which the ends are known, a graph is in order as well. -/
theorem WellRelated.of_sublist {other : ConceptGraph} (h : graph.WellRelated)
    (hs : other.related.Sublist graph.related)
    (hknown : ∀ link ∈ other.related,
      other.contains link.first = true ∧ other.contains link.second = true) :
    other.WellRelated where
  pairs_distinct := h.pairs_distinct.sublist (hs.map RelatedLink.pair)
  joined_known := hknown
  joined_apart link mem := h.joined_apart link (hs.subset mem)

/-- Broader links have no part in it. -/
theorem WellRelated.congr {other : ConceptGraph} (h : graph.WellRelated)
    (hc : other.concepts = graph.concepts) (hr : other.related = graph.related) :
    other.WellRelated := by
  have hsub : other.related.Sublist graph.related := by
    rw [hr]
  refine h.of_sublist hsub fun link mem => ?_
  rw [contains_congr hc, contains_congr hc]
  exact h.joined_known link (hsub.subset mem)

/-- Adding a broader link leaves the related links alone. -/
theorem addBroader_related (graph : ConceptGraph) (child parent : ConceptId) :
    (graph.addBroader child parent).related = graph.related := by
  unfold addBroader
  split <;> rfl

/-- Adding a related link to a known concept keeps a graph in order. -/
theorem WellRelated.addRelated (h : graph.WellRelated) {id : ConceptId}
    (hid : graph.contains id = true) (other : ConceptId) :
    (graph.addRelated id other).WellRelated := by
  unfold ConceptGraph.addRelated
  split
  · rename_i hnew
    rw [Bool.and_eq_true, Bool.and_eq_true, Bool.not_eq_true', bne_iff_ne] at hnew
    obtain ⟨⟨hother, hne⟩, hapart⟩ := hnew
    have hlink : ∀ link ∈ graph.related ++ [⟨id, other⟩],
        link ∈ graph.related ∨ link = ⟨id, other⟩ := by
      intro link mem
      exact (List.mem_append.mp mem).imp_right List.mem_singleton.mp
    have hpair : s(id, other) ∉ graph.related.map RelatedLink.pair := by
      rw [← areRelated_iff, hapart]
      exact Bool.false_ne_true
    refine ⟨?_, ?_, ?_⟩
    · rw [List.map_append, List.map_singleton, ← List.concat_eq_append]
      exact List.Nodup.concat hpair h.pairs_distinct
    · intro link mem
      rcases hlink link mem with old | rfl
      · exact h.joined_known link old
      · exact ⟨hid, hother⟩
    · intro link mem
      rcases hlink link mem with old | rfl
      · exact h.joined_apart link old
      · exact Ne.symm hne
  · exact h

/-- Adding broader links leaves concepts and related links alone. -/
theorem foldl_addBroader_same (graph : ConceptGraph) (child : ConceptId)
    (parents : List ConceptId) :
    (parents.foldl (fun g parent => g.addBroader child parent) graph).concepts = graph.concepts ∧
      (parents.foldl (fun g parent => g.addBroader child parent) graph).related =
        graph.related := by
  refine List.foldlRecOn (motive := fun g : ConceptGraph => g.concepts = graph.concepts ∧
    g.related = graph.related) parents _ ⟨rfl, rfl⟩ fun g hg parent _ => ?_
  rw [addBroader_concepts, addBroader_related]
  exact hg

/-- Adding related links to a known concept keeps a graph in order. -/
theorem WellRelated.addRelateds (h : graph.WellRelated) {id : ConceptId}
    (hid : graph.contains id = true) (others : List ConceptId) :
    (others.foldl (fun g other => g.addRelated id other) graph).WellRelated := by
  induction others generalizing graph with
  | nil => exact h
  | cons other rest ih =>
    refine ih (h.addRelated hid other) ?_
    rw [contains_congr (addRelated_concepts graph id other)]
    exact hid

/-- Adding the links of a record of a known concept keeps a graph in order. -/
theorem WellRelated.addLinks (h : graph.WellRelated) {record : Record}
    (hid : graph.contains record.id = true) : (graph.addLinks record).WellRelated := by
  obtain ⟨hconcepts, hrelated⟩ := foldl_addBroader_same graph record.id record.broader
  refine (h.congr hconcepts hrelated).addRelateds ?_ record.related
  rw [contains_congr hconcepts]
  exact hid

/-- Adding the links of records of known concepts keeps a graph in order. -/
theorem WellRelated.addAllLinks (h : graph.WellRelated) {records : List Record}
    (hid : ∀ record ∈ records, graph.contains record.id = true) :
    (records.foldl ConceptGraph.addLinks graph).WellRelated := by
  induction records generalizing graph with
  | nil => exact h
  | cons record rest ih =>
    obtain ⟨hfirst, hrest⟩ := List.forall_mem_cons.mp hid
    refine ih (h.addLinks hfirst) fun other mem => ?_
    have hsame : (graph.addLinks record).concepts = graph.concepts :=
      foldl_addLinks_concepts graph [record]
    rw [contains_congr hsame]
    exact hrest other mem

/-- The concepts of records add no related links. -/
theorem foldl_addConcept_related (graph : ConceptGraph) (records : List Record) :
    (records.foldl addConcept graph).related = graph.related := by
  refine List.foldlRecOn (motive := fun g : ConceptGraph => g.related = graph.related) records _ rfl
    fun g hg record _ => ?_
  unfold addConcept
  split <;> exact hg

/-- A graph of records is in order. -/
theorem wellRelated_ofRecords (records : List Record) : (ofRecords records).WellRelated := by
  have hnone : (records.foldl addConcept empty).related = [] :=
    foldl_addConcept_related empty records
  have hbare : (records.foldl addConcept empty).WellRelated := by
    constructor <;> simp only [hnone, List.map_nil, List.nodup_nil, List.not_mem_nil,
      false_implies, implies_true]
  refine hbare.addAllLinks fun record mem => ?_
  rw [contains_foldl_addConcept, Bool.or_eq_true]
  exact Or.inr (List.any_eq_true.mpr ⟨record, mem, beq_self_eq_true record.id⟩)

/-- Putting a concept in its place leaves the related links alone. -/
theorem putConcept_related (graph : ConceptGraph) (record : Record) :
    (graph.putConcept record).related = graph.related := by
  unfold putConcept
  split <;> rfl

/-- Taking in a record keeps a graph in order. -/
theorem WellRelated.upsert (h : graph.WellRelated) (record : Record) :
    (graph.upsert record).WellRelated := by
  unfold ConceptGraph.upsert
  refine WellRelated.addLinks ?_ (contains_putConcept.mpr (Or.inr rfl))
  have hsub : ((graph.putConcept record).related.filter fun link => !link.touches record.id).Sublist
      graph.related := by
    rw [putConcept_related]
    exact List.filter_sublist
  refine h.of_sublist hsub fun link mem => ?_
  obtain ⟨hfirst, hsecond⟩ := h.joined_known link (hsub.subset mem)
  exact ⟨contains_putConcept.mpr (Or.inl hfirst), contains_putConcept.mpr (Or.inl hsecond)⟩

/-- Taking out a concept keeps a graph in order. -/
theorem WellRelated.remove (h : graph.WellRelated) (id : ConceptId) :
    (graph.remove id).2.WellRelated := by
  cases hid : graph.contains id with
  | false =>
    rw [remove_of_not_contains hid]
    exact h
  | true =>
    have hrelated := congrArg ConceptGraph.related (remove_of_contains hid)
    have hsub : (graph.remove id).2.related.Sublist graph.related := by
      rw [hrelated]
      exact List.filter_sublist
    refine h.of_sublist hsub fun link mem => ?_
    obtain ⟨hfirst, hsecond⟩ := h.joined_known link (hsub.subset mem)
    rw [hrelated] at mem
    have hfree := (List.mem_filter.mp mem).2
    simp only [RelatedLink.touches, Bool.not_eq_true', Bool.or_eq_false_iff,
      beq_eq_false_iff_ne] at hfree
    rw [contains_remove, contains_remove, hfirst, hsecond, bne_iff_ne.mpr hfree.1,
      bne_iff_ne.mpr hfree.2]
    exact ⟨rfl, rfl⟩

/-- However a graph was made, its related links are in order. -/
theorem Built.wellRelated (hb : graph.Built) : graph.WellRelated := by
  induction hb with
  | empty => exact wellRelated_ofRecords []
  | ofRecords records => exact wellRelated_ofRecords records
  | upsert _ record ih => exact ih.upsert record
  | remove _ id ih => exact ih.remove id

end ConceptGraph

end Thesaurus

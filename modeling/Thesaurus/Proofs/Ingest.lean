import Thesaurus.Proofs.Reachability

/-!
# What a graph takes from records

The concepts of a graph made from records depend only on what the records say of their concepts.
The parents of a concept are the ids that its records name as broader, in the order in which
they are named, each once, without unknown ids and without the concept itself.
-/

namespace Thesaurus

/-- A text behind a list stands behind its texts without repetitions, unless it is among them. -/
theorem eraseDups_concat (texts : List String) (text : String) :
    (texts ++ [text]).eraseDups =
      if text ∈ texts then texts.eraseDups else texts.eraseDups ++ [text] := by
  rw [List.eraseDups_append]
  by_cases old : text ∈ texts
  · have hnone : [text].removeAll texts = [] := by simp [List.removeAll, old]
    rw [if_pos old, hnone, List.eraseDups_nil, List.append_nil]
  · have hone : [text].removeAll texts = [text] := by simp [List.removeAll, old]
    rw [if_neg old, hone, List.eraseDups_cons]
    simp

/-- Leaving texts out and leaving repetitions out go in either order. -/
theorem eraseDups_filter (p : String → Bool) (texts : List String) :
    (texts.filter p).eraseDups = texts.eraseDups.filter p := by
  -- the induction is on the length, as the tail is filtered before it goes on
  generalize hn : texts.length = n
  induction n using Nat.strongRecOn generalizing texts with
  | ind n ih =>
    cases texts with
    | nil => rfl
    | cons first rest =>
      have hlen : (rest.filter fun text => !text == first).length < n := by
        have hle := List.length_filter_le (fun text => !text == first) rest
        rw [List.length_cons] at hn
        omega
      have hrest := ih _ hlen (rest.filter fun text => !text == first) rfl
      have hswap : (rest.filter p).filter (fun text => !text == first) =
          (rest.filter fun text => !text == first).filter p := by
        rw [List.filter_filter, List.filter_filter]
        exact List.filter_congr fun text _ => Bool.and_comm _ _
      rw [List.eraseDups_cons]
      by_cases hp : p first = true
      · rw [List.filter_cons_of_pos hp, List.eraseDups_cons, List.filter_cons_of_pos hp, hswap,
          hrest]
      · have hkept : rest.filter p = (rest.filter p).filter (fun text => !text == first) := by
          rw [eq_comm, List.filter_eq_self]
          intro text mem
          have hne : text ≠ first := fun same => hp (same ▸ (List.mem_filter.mp mem).2)
          rw [beq_false_of_ne hne]
          rfl
        rw [List.filter_cons_of_neg hp, List.filter_cons_of_neg hp, hkept, hswap, hrest]

namespace ConceptGraph

/-- The ids that the records of a concept name as broader, in order. -/
def namedParents (records : List Record) (id : ConceptId) : List ConceptId :=
  records.flatMap fun record => if record.id = id then record.broader else []

/-- Whether a concept may stand above another in a graph: it is known and another one. -/
def admits (graph : ConceptGraph) (id parent : ConceptId) : Bool :=
  graph.contains parent && parent != id

/-- The parents of a concept are some names, each once, those left out that may not stand
above it. -/
def ListsNamed (graph : ConceptGraph) (id : ConceptId) (names : List ConceptId) : Prop :=
  graph.parentsOf id = (names.filter (graph.admits id)).eraseDups

/-- What may stand above a concept is decided by the concepts of the graph. -/
theorem admits_congr {graph other : ConceptGraph} (h : other.concepts = graph.concepts)
    (id : ConceptId) : other.admits id = graph.admits id := by
  funext parent
  unfold admits contains
  rw [h]

/-- The parents of a concept are decided by the broader links of the graph. -/
theorem parentsOf_congr {graph other : ConceptGraph} (h : other.broader = graph.broader)
    (id : ConceptId) : other.parentsOf id = graph.parentsOf id := by
  unfold parentsOf
  rw [h]

/-- A graph with the same concepts and broader links lists the same parents. -/
theorem ListsNamed.congr {graph other : ConceptGraph} {id : ConceptId} {names : List ConceptId}
    (h : graph.ListsNamed id names) (hc : other.concepts = graph.concepts)
    (hb : other.broader = graph.broader) : other.ListsNamed id names := by
  unfold ListsNamed
  rw [admits_congr hc, parentsOf_congr hb]
  exact h

section Links

variable {graph : ConceptGraph} {id : ConceptId} {names : List ConceptId}

/-- Adding a broader link leaves the concepts alone. -/
@[simp] theorem addBroader_concepts (graph : ConceptGraph) (child parent : ConceptId) :
    (graph.addBroader child parent).concepts = graph.concepts := by
  unfold addBroader
  split <;> rfl

/-- Adding a related link leaves the concepts alone. -/
@[simp] theorem addRelated_concepts (graph : ConceptGraph) (id other : ConceptId) :
    (graph.addRelated id other).concepts = graph.concepts := by
  unfold addRelated
  split <;> rfl

/-- Adding a related link leaves the broader links alone. -/
@[simp] theorem addRelated_broader (graph : ConceptGraph) (id other : ConceptId) :
    (graph.addRelated id other).broader = graph.broader := by
  unfold addRelated
  split <;> rfl

/-- Adding a broader link above a concept puts its upper end behind the parents, if it may stand
there and does not yet. -/
theorem parentsOf_addBroader_self (graph : ConceptGraph) (id parent : ConceptId) :
    (graph.addBroader id parent).parentsOf id =
      if graph.admits id parent = true ∧ parent ∉ graph.parentsOf id then
        graph.parentsOf id ++ [parent]
      else graph.parentsOf id := by
  have hlink : graph.broader.contains ⟨id, parent⟩ = decide (parent ∈ graph.parentsOf id) := by
    rw [Bool.eq_iff_iff, List.contains_iff_mem, decide_eq_true_eq, mem_parentsOf]
  unfold addBroader
  rw [hlink]
  by_cases new : graph.admits id parent = true ∧ parent ∉ graph.parentsOf id
  · have hnew : (graph.contains parent && parent != id &&
        !decide (parent ∈ graph.parentsOf id)) = true := by
      have ha : (graph.contains parent && parent != id) = true := new.1
      rw [ha, decide_eq_false new.2]
      rfl
    rw [if_pos new, if_pos hnew]
    unfold parentsOf
    rw [List.filterMap_append]
    simp
  · have hold : ¬(graph.contains parent && parent != id &&
        !decide (parent ∈ graph.parentsOf id)) = true := by
      intro h
      rw [Bool.and_eq_true, Bool.not_eq_true', decide_eq_false_iff_not] at h
      exact new h
    rw [if_neg new, if_neg hold]

/-- Adding a broader link above another concept leaves the parents alone. -/
theorem parentsOf_addBroader_of_ne {child : ConceptId} (hne : child ≠ id) (parent : ConceptId) :
    (graph.addBroader child parent).parentsOf id = graph.parentsOf id := by
  unfold addBroader
  split
  · unfold parentsOf
    rw [List.filterMap_append]
    simp [hne]
  · rfl

/-- One more name above a concept. -/
theorem ListsNamed.addBroader_self (h : graph.ListsNamed id names) (parent : ConceptId) :
    (graph.addBroader id parent).ListsNamed id (names ++ [parent]) := by
  unfold ListsNamed at h ⊢
  rw [admits_congr (addBroader_concepts graph id parent), parentsOf_addBroader_self, h,
    List.filter_append]
  by_cases ha : graph.admits id parent = true
  · rw [List.filter_cons_of_pos ha, List.filter_nil, eraseDups_concat]
    by_cases old : parent ∈ names.filter (graph.admits id)
    · have hold : ¬(graph.admits id parent = true ∧
          parent ∉ (names.filter (graph.admits id)).eraseDups) :=
        fun h => h.2 (List.mem_eraseDups.mpr old)
      rw [if_neg hold, if_pos old]
    · have hnew : graph.admits id parent = true ∧
          parent ∉ (names.filter (graph.admits id)).eraseDups :=
        ⟨ha, fun h => old (List.mem_eraseDups.mp h)⟩
      rw [if_pos hnew, if_neg old]
  · have hout : ¬(graph.admits id parent = true ∧
        parent ∉ (names.filter (graph.admits id)).eraseDups) := fun h => ha h.1
    rw [if_neg hout, List.filter_cons_of_neg ha, List.filter_nil, List.append_nil]

/-- A name above another concept. -/
theorem ListsNamed.addBroader_of_ne (h : graph.ListsNamed id names) {child : ConceptId}
    (hne : child ≠ id) (parent : ConceptId) :
    (graph.addBroader child parent).ListsNamed id names := by
  unfold ListsNamed at h ⊢
  rw [admits_congr (addBroader_concepts graph child parent), parentsOf_addBroader_of_ne hne]
  exact h

/-- All names of a list above a concept. -/
theorem ListsNamed.addParents_self (h : graph.ListsNamed id names) (parents : List ConceptId) :
    (parents.foldl (fun g parent => g.addBroader id parent) graph).ListsNamed id
      (names ++ parents) := by
  induction parents generalizing graph names with
  | nil =>
    rw [List.append_nil]
    exact h
  | cons parent rest ih =>
    have hrest := ih (h.addBroader_self parent)
    rw [List.append_assoc, List.singleton_append] at hrest
    exact hrest

/-- All names of a list above another concept. -/
theorem ListsNamed.addParents_of_ne (h : graph.ListsNamed id names) {child : ConceptId}
    (hne : child ≠ id) (parents : List ConceptId) :
    (parents.foldl (fun g parent => g.addBroader child parent) graph).ListsNamed id names := by
  induction parents generalizing graph with
  | nil => exact h
  | cons parent rest ih => exact ih (h.addBroader_of_ne hne parent)

/-- Related links change no parents. -/
theorem ListsNamed.addRelateds (h : graph.ListsNamed id names) (child : ConceptId)
    (others : List ConceptId) :
    (others.foldl (fun g other => g.addRelated child other) graph).ListsNamed id names := by
  induction others generalizing graph with
  | nil => exact h
  | cons other rest ih =>
    exact ih
      (h.congr (addRelated_concepts graph child other) (addRelated_broader graph child other))

/-- The links of one more record. -/
theorem ListsNamed.addLinks (h : graph.ListsNamed id names) (record : Record) :
    (graph.addLinks record).ListsNamed id
      (names ++ if record.id = id then record.broader else []) := by
  unfold ConceptGraph.addLinks
  apply ListsNamed.addRelateds
  by_cases same : record.id = id
  · rw [if_pos same, same]
    exact h.addParents_self record.broader
  · rw [if_neg same, List.append_nil]
    exact h.addParents_of_ne same record.broader

/-- The links of all records of a list. -/
theorem ListsNamed.addAllLinks (h : graph.ListsNamed id names) (records : List Record) :
    (records.foldl ConceptGraph.addLinks graph).ListsNamed id
      (names ++ namedParents records id) := by
  induction records generalizing graph names with
  | nil =>
    rw [namedParents, List.flatMap_nil, List.append_nil]
    exact h
  | cons record rest ih =>
    -- the names of the records so far are what the induction carries
    have hrest := ih (h.addLinks record)
    rw [List.append_assoc] at hrest
    exact hrest

end Links

section Records

/-- The links of records leave the concepts alone. -/
theorem foldl_addLinks_concepts (graph : ConceptGraph) (records : List Record) :
    (records.foldl addLinks graph).concepts = graph.concepts := by
  have hbroader : ∀ (child : ConceptId) (parents : List ConceptId) (g : ConceptGraph),
      (parents.foldl (fun g parent => g.addBroader child parent) g).concepts = g.concepts := by
    intro child parents
    induction parents with
    | nil => exact fun _ => rfl
    | cons parent rest ih => exact fun g => (ih _).trans (addBroader_concepts g child parent)
  have hrelated : ∀ (id : ConceptId) (others : List ConceptId) (g : ConceptGraph),
      (others.foldl (fun g other => g.addRelated id other) g).concepts = g.concepts := by
    intro id others
    induction others with
    | nil => exact fun _ => rfl
    | cons other rest ih => exact fun g => (ih _).trans (addRelated_concepts g id other)
  induction records generalizing graph with
  | nil => rfl
  | cons record rest ih =>
    rw [List.foldl_cons, ih]
    unfold addLinks
    rw [hrelated, hbroader]

/-- The concepts of records add no links. -/
theorem foldl_addConcept_broader (graph : ConceptGraph) (records : List Record) :
    (records.foldl addConcept graph).broader = graph.broader := by
  induction records generalizing graph with
  | nil => rfl
  | cons record rest ih =>
    rw [List.foldl_cons, ih]
    unfold addConcept
    split <;> rfl

/-- What records say of their concepts decides the concepts taken in. -/
theorem foldl_addConcept_concepts {records others : List Record}
    (h : records.map Record.concept = others.map Record.concept) {graph other : ConceptGraph}
    (hg : graph.concepts = other.concepts) :
    (records.foldl addConcept graph).concepts = (others.foldl addConcept other).concepts := by
  induction records generalizing graph other others with
  | nil =>
    rw [List.map_nil, eq_comm, List.map_eq_nil_iff] at h
    rw [h]
    exact hg
  | cons record rest ih =>
    cases others with
    | nil => cases h
    | cons record' rest' =>
      obtain ⟨hhead, htail⟩ := List.cons.inj h
      refine ih htail ?_
      have hid : record.id = record'.id := congrArg Concept.id hhead
      have hc : graph.contains record.id = other.contains record'.id := by
        unfold contains
        rw [hg, hid]
      unfold addConcept
      rw [hc]
      split
      · exact hg
      · show graph.concepts ++ [record.concept] = other.concepts ++ [record'.concept]
        rw [hg, hhead]

/-- What records say of their concepts decides the concepts of their graph, in order. -/
theorem ofRecords_concepts {records others : List Record}
    (h : records.map Record.concept = others.map Record.concept) :
    (ofRecords records).concepts = (ofRecords others).concepts := by
  unfold ofRecords
  rw [foldl_addLinks_concepts, foldl_addLinks_concepts]
  exact foldl_addConcept_concepts h rfl

/-- Taking in concepts, a graph holds those it held and those of the records. -/
theorem contains_foldl_addConcept (graph : ConceptGraph) (records : List Record)
    (id : ConceptId) :
    (records.foldl addConcept graph).contains id =
      (graph.contains id || records.any (·.id == id)) := by
  induction records generalizing graph with
  | nil => rw [List.foldl_nil, List.any_nil, Bool.or_false]
  | cons record rest ih =>
    have hstep : (graph.addConcept record).contains id =
        (graph.contains id || record.id == id) := by
      unfold addConcept
      split
      · rename_i old
        by_cases same : record.id = id
        · rw [← same, old, Bool.true_or]
        · rw [beq_false_of_ne same, Bool.or_false]
      · unfold contains
        rw [List.any_append, List.any_cons, List.any_nil, Bool.or_false]
        rfl
    rw [List.foldl_cons, ih, hstep, List.any_cons, Bool.or_assoc]

/-- A graph made from records holds exactly the concepts of the records. -/
theorem contains_ofRecords (records : List Record) (id : ConceptId) :
    (ofRecords records).contains id = records.any (·.id == id) := by
  have hlinks : ∀ graph : ConceptGraph,
      (records.foldl addLinks graph).contains id = graph.contains id := by
    intro graph
    unfold contains
    rw [foldl_addLinks_concepts]
  unfold ofRecords
  rw [hlinks, contains_foldl_addConcept]
  rfl

/-- A graph made from records lists for each concept the parents that its records name. -/
theorem ofRecords_lists (records : List Record) (id : ConceptId) :
    (ofRecords records).ListsNamed id (namedParents records id) := by
  have hempty : (records.foldl addConcept empty).ListsNamed id [] := by
    unfold ListsNamed parentsOf
    rw [foldl_addConcept_broader]
    rfl
  exact hempty.addAllLinks records

/-- One concept stands above another exactly when a record of the lower one names it, it is
known and it is another one. -/
theorem narrower_ofRecords {records : List Record} {upper lower : ConceptId} :
    (ofRecords records).Narrower upper lower ↔
      upper ∈ namedParents records lower ∧ (∃ record ∈ records, record.id = upper) ∧
        upper ≠ lower := by
  have hl := ofRecords_lists records lower
  unfold ListsNamed at hl
  unfold Narrower
  rw [← mem_parentsOf, hl, List.mem_eraseDups, List.mem_filter]
  unfold admits
  rw [contains_ofRecords]
  simp

/-- Where no other record has the id of a record, that record alone names the parents. -/
theorem namedParents_of_distinct {records : List Record} {record : Record}
    (hd : (records.map Record.id).Nodup) (mem : record ∈ records) :
    namedParents records record.id = record.broader := by
  induction records with
  | nil => cases mem
  | cons first rest ih =>
    rw [List.map_cons, List.nodup_cons] at hd
    rw [namedParents, List.flatMap_cons]
    rcases List.mem_cons.mp mem with rfl | mem
    · have hrest : namedParents rest record.id = [] := by
        rw [namedParents, List.flatMap_eq_nil_iff]
        intro other inside
        have hne : other.id ≠ record.id :=
          fun same => hd.1 (List.mem_map.mpr ⟨other, inside, same⟩)
        rw [if_neg hne]
      rw [if_pos rfl]
      exact (congrArg (record.broader ++ ·) hrest).trans (List.append_nil _)
    · have hne : first.id ≠ record.id :=
        fun same => hd.1 (List.mem_map.mpr ⟨record, mem, same.symm⟩)
      rw [if_neg hne, List.nil_append]
      exact ih hd.2 mem

end Records

end ConceptGraph

end Thesaurus

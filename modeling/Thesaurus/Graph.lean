import Thesaurus.Concept
import Thesaurus.TextSet

/-!
# The concept graph of record

A graph holds its concepts and its two kinds of links in the order in which they were supplied,
and every derived listing goes in that order. A link to a concept that the graph does not hold
is dropped, and so is a link of a concept to itself or one that is already there. A concept
whose parents are all dropped is a root.
-/

namespace Thesaurus

/-- Concepts with their broader and related links, each list in storage order. -/
structure ConceptGraph where
  /-- The concepts. -/
  concepts : List Concept := []
  /-- The broader links. -/
  broader : List BroaderLink := []
  /-- The related links, one for a pair. -/
  related : List RelatedLink := []
deriving DecidableEq

namespace ConceptGraph

/-- The graph without concepts. -/
def empty : ConceptGraph := {}

/-- The ids of the concepts. -/
def ids (graph : ConceptGraph) : List ConceptId :=
  graph.concepts.map Concept.id

/-- Whether the graph holds a concept. -/
def contains (graph : ConceptGraph) (id : ConceptId) : Bool :=
  graph.concepts.any (·.id == id)

/-- A concept by its id. -/
def concept? (graph : ConceptGraph) (id : ConceptId) : Option Concept :=
  graph.concepts.find? (·.id == id)

/-- The place of a concept in storage order. -/
def position? (graph : ConceptGraph) (id : ConceptId) : Option Nat :=
  graph.concepts.findIdx? (·.id == id)

/-- The preferred label of a concept. -/
def label? (graph : ConceptGraph) (id : ConceptId) : Option String :=
  (graph.concept? id).map Concept.label

/-- The number of concepts. -/
def size (graph : ConceptGraph) : Nat := graph.concepts.length

/-- The broader concepts of a concept, in link order. -/
def parentsOf (graph : ConceptGraph) (id : ConceptId) : List ConceptId :=
  graph.broader.filterMap fun link => if link.child = id then some link.parent else none

/-- The narrower concepts of a concept, in link order. -/
def childrenOf (graph : ConceptGraph) (id : ConceptId) : List ConceptId :=
  graph.broader.filterMap fun link => if link.parent = id then some link.child else none

/-- The related concepts of a concept, in link order. -/
def relatedOf (graph : ConceptGraph) (id : ConceptId) : List ConceptId :=
  graph.related.filterMap (·.other id)

/-- The concepts without a broader concept. -/
def roots (graph : ConceptGraph) : List Concept :=
  graph.concepts.filter fun concept => (graph.parentsOf concept.id).isEmpty

/-- Every concept that one link joins to a concept, whatever the kind of the link. -/
def neighborsOf (graph : ConceptGraph) (id : ConceptId) : TextSet :=
  TextSet.ofList (graph.parentsOf id ++ graph.childrenOf id ++ graph.relatedOf id)

/-- Add a broader link, unless its parent is unknown, it is a loop, or it is there already. -/
def addBroader (graph : ConceptGraph) (child parent : ConceptId) : ConceptGraph :=
  if graph.contains parent && parent != child && !graph.broader.contains ⟨child, parent⟩ then
    { graph with broader := graph.broader ++ [⟨child, parent⟩] }
  else graph

/-- Whether some related link joins two concepts, in either direction. -/
def areRelated (graph : ConceptGraph) (id other : ConceptId) : Bool :=
  graph.related.any fun link => link.other id == some other

/-- Add a related link, unless its other end is unknown, it is a loop, or the pair is joined. -/
def addRelated (graph : ConceptGraph) (id other : ConceptId) : ConceptGraph :=
  if graph.contains other && other != id && !graph.areRelated id other then
    { graph with related := graph.related ++ [⟨id, other⟩] }
  else graph

/-- Add every link that a record names, broader links first. -/
def addLinks (graph : ConceptGraph) (record : Record) : ConceptGraph :=
  record.related.foldl (fun g other => g.addRelated record.id other)
    (record.broader.foldl (fun g parent => g.addBroader record.id parent) graph)

/-- Add the concept of a record, unless its id is taken. -/
def addConcept (graph : ConceptGraph) (record : Record) : ConceptGraph :=
  if graph.contains record.id then graph
  else { graph with concepts := graph.concepts ++ [record.concept] }

/-- The graph of a list of records: first all concepts, of which the first with an id stands,
then the links of all records, so a link may name a later concept. -/
def ofRecords (records : List Record) : ConceptGraph :=
  records.foldl addLinks (records.foldl addConcept empty)

/-- Put a concept in the place of the one with its id, or at the end. -/
def putConcept (graph : ConceptGraph) (record : Record) : ConceptGraph :=
  if graph.contains record.id then
    { graph with
      concepts := graph.concepts.map fun old => if old.id = record.id then record.concept else old }
  else { graph with concepts := graph.concepts ++ [record.concept] }

/-- Take in a created or changed record: its links replace the broader links above the concept
and all related links that touch it. -/
def upsert (graph : ConceptGraph) (record : Record) : ConceptGraph :=
  let placed := graph.putConcept record
  addLinks
    { placed with
      broader := placed.broader.filter (·.child != record.id)
      related := placed.related.filter fun link => !link.touches record.id }
    record

/-- Take out a concept with every link that touches it, and hand back what was said of it. -/
def remove (graph : ConceptGraph) (id : ConceptId) : Option Concept × ConceptGraph :=
  match graph.concept? id with
  | none => (none, graph)
  | some removed =>
    (some removed,
      { concepts := graph.concepts.filter (·.id != id)
        broader := graph.broader.filter fun link => link.child != id && link.parent != id
        related := graph.related.filter fun link => !link.touches id })

/-- The parents of a concept are the upper ends of the links above it. -/
@[simp] theorem mem_parentsOf {graph : ConceptGraph} {id parent : ConceptId} :
    parent ∈ graph.parentsOf id ↔ ⟨id, parent⟩ ∈ graph.broader := by
  simp only [parentsOf, List.mem_filterMap]
  constructor
  · rintro ⟨⟨child, upper⟩, mem, h⟩
    by_cases same : child = id
    · simp only [same, if_true, Option.some.injEq] at h
      exact same ▸ h ▸ mem
    · simp [same] at h
  · exact fun mem => ⟨_, mem, by simp⟩

/-- The children of a concept are the lower ends of the links below it. -/
@[simp] theorem mem_childrenOf {graph : ConceptGraph} {id child : ConceptId} :
    child ∈ graph.childrenOf id ↔ ⟨child, id⟩ ∈ graph.broader := by
  simp only [childrenOf, List.mem_filterMap]
  constructor
  · rintro ⟨⟨lower, parent⟩, mem, h⟩
    by_cases same : parent = id
    · simp only [same, if_true, Option.some.injEq] at h
      exact same ▸ h ▸ mem
    · simp [same] at h
  · exact fun mem => ⟨_, mem, by simp⟩

/-- A concept is contained exactly when its id is listed. -/
theorem contains_iff {graph : ConceptGraph} {id : ConceptId} :
    graph.contains id = true ↔ id ∈ graph.ids := by
  simp [contains, ids, List.any_eq_true, List.mem_map]

/-- A contained concept can be looked up, and only then. -/
theorem concept?_isSome {graph : ConceptGraph} {id : ConceptId} :
    (graph.concept? id).isSome = graph.contains id := by
  rw [Bool.eq_iff_iff]
  simp [concept?, contains, List.find?_isSome, List.any_eq_true]

/-- What is looked up carries the id asked for. -/
theorem concept?_id {graph : ConceptGraph} {id : ConceptId} {concept : Concept}
    (h : graph.concept? id = some concept) : concept.id = id := by
  simpa using List.find?_some h

end ConceptGraph

end Thesaurus

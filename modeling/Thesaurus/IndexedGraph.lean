import Thesaurus.Graph
import Thesaurus.Table

/-!
# The concept graph with its tables

Beside its concepts and links, the graph of record keeps what it is asked for most: the place of
each concept, and the parents and the children of each. Every look-up goes through these tables, so
they are kept up to date with every change. Places are told anew when a concept is taken out, and
parents and children whenever links change.
-/

namespace Thesaurus

/-- Concepts and links with tables of them. -/
structure IndexedGraph where
  /-- The concepts. -/
  concepts : List Concept := []
  /-- The place of each concept. -/
  index : Table Nat := .empty
  /-- The broader links. -/
  broader : List BroaderLink := []
  /-- The related links, one for a pair. -/
  related : List RelatedLink := []
  /-- The broader concepts of each concept that has some. -/
  parents : Table (List ConceptId) := .empty
  /-- The narrower concepts of each concept that has some. -/
  children : Table (List ConceptId) := .empty

namespace IndexedGraph

/-- The graph without concepts. -/
def empty : IndexedGraph := {}

/-- The concepts and links, without the tables. -/
def plain (graph : IndexedGraph) : ConceptGraph :=
  { concepts := graph.concepts, broader := graph.broader, related := graph.related }

/-- The ids of the concepts. -/
def ids (graph : IndexedGraph) : List ConceptId := graph.concepts.map Concept.id

/-- The number of concepts. -/
def size (graph : IndexedGraph) : Nat := graph.concepts.length

/-- Whether the graph holds a concept. -/
def contains (graph : IndexedGraph) (id : ConceptId) : Bool := graph.index.has id

/-- A concept by its id, found at its place. -/
def concept? (graph : IndexedGraph) (id : ConceptId) : Option Concept :=
  (graph.index.get? id).bind fun place => graph.concepts[place]?

/-- The preferred label of a concept. -/
def label? (graph : IndexedGraph) (id : ConceptId) : Option String :=
  (graph.concept? id).map Concept.label

/-- The broader concepts of a concept, in link order. -/
def parentsOf (graph : IndexedGraph) (id : ConceptId) : List ConceptId := graph.parents.listAt id

/-- The narrower concepts of a concept, in link order. -/
def childrenOf (graph : IndexedGraph) (id : ConceptId) : List ConceptId :=
  graph.children.listAt id

/-- The related concepts of a concept, in link order. -/
def relatedOf (graph : IndexedGraph) (id : ConceptId) : List ConceptId :=
  graph.related.filterMap (·.other id)

/-- The concepts without a broader concept. -/
def roots (graph : IndexedGraph) : List Concept :=
  graph.concepts.filter fun concept => (graph.parentsOf concept.id).isEmpty

/-- Every concept that one link joins to a concept, whatever the kind of the link. -/
def neighborsOf (graph : IndexedGraph) (id : ConceptId) : TextSet :=
  TextSet.ofList (graph.parentsOf id ++ graph.childrenOf id ++ graph.relatedOf id)

/-- Add a broader link, unless its parent is unknown, it is a loop, or it is there already. -/
def addBroader (graph : IndexedGraph) (child parent : ConceptId) : IndexedGraph :=
  if graph.contains parent && parent != child && !graph.broader.contains ⟨child, parent⟩ then
    { graph with broader := graph.broader ++ [⟨child, parent⟩] }
  else graph

/-- Whether some related link joins two concepts, in either direction. -/
def areRelated (graph : IndexedGraph) (id other : ConceptId) : Bool :=
  graph.related.any fun link => link.other id == some other

/-- Add a related link, unless its other end is unknown, it is a loop, or the pair is joined. -/
def addRelated (graph : IndexedGraph) (id other : ConceptId) : IndexedGraph :=
  if graph.contains other && other != id && !graph.areRelated id other then
    { graph with related := graph.related ++ [⟨id, other⟩] }
  else graph

/-- Add every link that a record names, broader links first; the tables of parents and children
are left as they are. -/
def addLinks (graph : IndexedGraph) (record : Record) : IndexedGraph :=
  record.related.foldl (fun g other => g.addRelated record.id other)
    (record.broader.foldl (fun g parent => g.addBroader record.id parent) graph)

/-- Put the concept of a record behind the others. -/
def append (graph : IndexedGraph) (record : Record) : IndexedGraph :=
  { graph with
    concepts := graph.concepts ++ [record.concept]
    index := graph.index.put record.id graph.concepts.length }

/-- Add the concept of a record, unless its id is taken. -/
def addConcept (graph : IndexedGraph) (record : Record) : IndexedGraph :=
  if graph.contains record.id then graph else graph.append record

/-- Tell the places of all concepts anew. -/
def reindex (graph : IndexedGraph) : IndexedGraph :=
  { graph with index := Table.ofPairs graph.ids.zipIdx }

/-- Tell the parents and the children of all concepts anew. -/
def retable (graph : IndexedGraph) : IndexedGraph :=
  { graph with
    parents := Table.grouped (graph.broader.map fun link => (link.child, link.parent))
    children := Table.grouped (graph.broader.map fun link => (link.parent, link.child)) }

/-- The graph of a list of records: first all concepts, of which the first with an id stands,
then the links of all records, so a link may name a later concept. -/
def ofRecords (records : List Record) : IndexedGraph :=
  (records.foldl addLinks (records.foldl addConcept empty)).retable

/-- Put a concept in the place of the one with its id, or behind the others. -/
def putConcept (graph : IndexedGraph) (record : Record) : IndexedGraph :=
  match graph.index.get? record.id with
  | some place => { graph with concepts := graph.concepts.set place record.concept }
  | none => graph.append record

/-- Take in a created or changed record: its links replace the broader links above the concept
and all related links that touch it. -/
def upsert (graph : IndexedGraph) (record : Record) : IndexedGraph :=
  let placed := graph.putConcept record
  (addLinks
    { placed with
      broader := placed.broader.filter (·.child != record.id)
      related := placed.related.filter fun link => !link.touches record.id }
    record).retable

/-- Take out a concept with every link that touches it, and hand back what was said of it. -/
def remove (graph : IndexedGraph) (id : ConceptId) : Option Concept × IndexedGraph :=
  match graph.index.get? id with
  | none => (none, graph)
  | some place =>
    (graph.concepts[place]?,
      (reindex
        { graph with
          concepts := graph.concepts.eraseIdx place
          broader := graph.broader.filter fun link => link.child != id && link.parent != id
          related := graph.related.filter fun link => !link.touches id }).retable)

end IndexedGraph

end Thesaurus

import Thesaurus.Path

/-!
# Forests of occurrences

A concept with several broader concepts appears once below each of them. An occurrence is one
such appearance, and a forest holds the occurrences in display order. Trees are kept as a first
tree, what is below its top, and the trees beside it, so one induction goes through everything.
-/

namespace Thesaurus

/-- What a search says about an occurrence. -/
inductive SearchMark where
  /-- A label of the concept holds the search text. -/
  | hit
  /-- No label holds it, but one below does. -/
  | aboveHit
  /-- Neither, or nothing is searched. -/
  | plain
deriving DecidableEq

/-- One appearance of a concept in the tree. -/
structure Occurrence where
  /-- The concept that appears. -/
  id : ConceptId
  /-- The ids from the root down to here. -/
  path : PathText
  /-- How many occurrences are above this one. -/
  depth : Nat
  /-- The preferred label. -/
  label : String
  /-- The alternative labels. -/
  altLabels : List String
  /-- Whether the concept has more than one broader concept. -/
  hasManyParents : Bool
  /-- The labels of its broader concepts, the one on the path left out. -/
  otherParentLabels : List String
  /-- What the current search says. -/
  mark : SearchMark := .plain
deriving DecidableEq

/-- A row of trees: none, or a first tree with the trees beside it. -/
inductive Trees where
  /-- No tree. -/
  | empty
  /-- A tree with its top and the trees below it, and the trees beside it. -/
  | node (top : Occurrence) (below beside : Trees)
deriving DecidableEq

/-- One tree: an occurrence and what is below it. -/
structure Subtree where
  /-- The top. -/
  top : Occurrence
  /-- The trees below it. -/
  below : Trees
deriving DecidableEq

namespace Trees

/-- Whether there is no tree. -/
def isEmpty : Trees → Bool
  | empty => true
  | node .. => false

/-- All occurrences, each before those below it. -/
def walk : Trees → List Occurrence
  | empty => []
  | node top below beside => top :: (below.walk ++ beside.walk)

/-- All trees at any depth, each before those below it. -/
def subtrees : Trees → List Subtree
  | empty => []
  | node top below beside => ⟨top, below⟩ :: (below.subtrees ++ beside.subtrees)

/-- The trees of the row, left to right. -/
def row : Trees → List Subtree
  | empty => []
  | node top below beside => ⟨top, below⟩ :: beside.row

/-- Descend along ids, taking at each level the first tree whose top has the id. -/
def find? : Trees → List ConceptId → Option Subtree
  | empty, _ => none
  | node .., [] => none
  | node top below beside, id :: rest =>
    if top.id = id then
      match rest with
      | [] => some ⟨top, below⟩
      | _ :: _ => below.find? rest
    else beside.find? (id :: rest)

end Trees

/-- A projected graph: its trees, and the concepts that no root leads to. -/
structure Forest where
  /-- One tree for a concept without parents. -/
  roots : Trees := .empty
  /-- The concepts that occur nowhere, in storage order. -/
  omitted : List ConceptId := []
deriving DecidableEq

namespace Forest

/-- All occurrences in display order. -/
def walk (forest : Forest) : List Occurrence := forest.roots.walk

/-- The tree whose top is at a path. -/
def find? (forest : Forest) (path : PathText) : Option Subtree :=
  forest.roots.find? (Path.ids path)

/-- All occurrences of one concept in display order. -/
def occurrencesOf (forest : Forest) (id : ConceptId) : List Occurrence :=
  forest.walk.filter (·.id = id)

/-- The number of occurrences. -/
def size (forest : Forest) : Nat := forest.walk.length

end Forest

end Thesaurus

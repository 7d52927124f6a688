import Thesaurus.Forest
import Thesaurus.TextSet

/-!
# Open paths and the selection

Which paths of the tree are open, and which concept is selected. Closing a path leaves the paths
below it as they are. Opening paths for a search or for a selection only ever adds paths.
-/

namespace Thesaurus

/-- The open paths and the selected concept. -/
structure Expansion where
  /-- The open paths. -/
  opened : TextSet := TextSet.empty
  /-- The selected concept. -/
  selected : Option ConceptId := none
deriving DecidableEq

namespace Expansion

/-- Nothing open and nothing selected. -/
def initial : Expansion := {}

/-- Whether a path is open. -/
def isOpen (expansion : Expansion) (path : PathText) : Bool :=
  decide (path ∈ expansion.opened)

/-- Open a path. -/
def expand (expansion : Expansion) (path : PathText) : Expansion :=
  { expansion with opened := expansion.opened.insert path }

/-- Close a path. -/
def collapse (expansion : Expansion) (path : PathText) : Expansion :=
  { expansion with opened := expansion.opened.erase path }

/-- Open a closed path or close an open one. -/
def toggle (expansion : Expansion) (path : PathText) : Expansion :=
  if expansion.isOpen path then expansion.collapse path else expansion.expand path

/-- Open some paths besides those that are open. -/
def extend (expansion : Expansion) (paths : List PathText) : Expansion :=
  { expansion with opened := expansion.opened.insertAll paths }

/-- A path is open after some are opened if it was open or is one of them. -/
theorem isOpen_extend {expansion : Expansion} {paths : List PathText} {path : PathText} :
    (expansion.extend paths).isOpen path = true ↔
      expansion.isOpen path = true ∨ path ∈ paths := by
  simp only [isOpen, extend, decide_eq_true_eq, TextSet.mem_insertAll]

/-- The paths of the occurrences that have others below them. -/
def branchPaths (forest : Forest) : List PathText :=
  (forest.roots.subtrees.filter fun tree => !tree.below.isEmpty).map (·.top.path)

/-- Open every occurrence that has others below it. -/
def expandAll (expansion : Expansion) (forest : Forest) : Expansion :=
  expansion.extend (branchPaths forest)

/-- Close every path. -/
def collapseAll (expansion : Expansion) : Expansion :=
  { expansion with opened := TextSet.empty }

/-- Select a concept, or none. -/
def select (expansion : Expansion) (id : Option ConceptId) : Expansion :=
  { expansion with selected := id }

/-- Open what is above the first occurrence of a concept, if it occurs; the answer is its path. -/
def reveal (expansion : Expansion) (forest : Forest) (id : ConceptId) :
    Option PathText × Expansion :=
  match (forest.occurrencesOf id).head? with
  | some first => (some first.path, expansion.extend (Path.ancestors first.path))
  | none => (none, expansion)

end Expansion

end Thesaurus

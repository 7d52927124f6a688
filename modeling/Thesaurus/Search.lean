import Thesaurus.Projection
import Thesaurus.Text.Blank
import Thesaurus.Text.Lowercase
import Thesaurus.TextSet

/-!
# Searching a forest

A query is a trimmed, lower-cased text; text that is blank or too short makes an inactive query.
A search marks each occurrence by its own labels and by what lies below it, and by nothing else,
so a new search leaves no trace of an older one.
-/

namespace Thesaurus

/-- What is searched for: nothing, or a text in lower case. -/
structure Query where
  /-- The text, where there is one. -/
  needle : Option String := none
deriving DecidableEq

namespace Query

/-- The query that matches nothing. -/
def inactive : Query := {}

/-- The query of a text as it was typed, if it has enough characters. -/
def ofText (typed : String) (minChars : Nat) : Query :=
  let trimmed := Text.trim typed.toList
  if trimmed.isEmpty || trimmed.length < minChars then inactive
  else ⟨some (String.ofList (Text.lower trimmed))⟩

/-- Whether anything is searched for. -/
def isActive (query : Query) : Bool := query.needle.isSome

/-- Whether a label, lower-cased, holds the text. -/
def hits (query : Query) (label : String) : Bool :=
  match query.needle with
  | none => false
  | some needle => Text.occursIn needle.toList (Text.lower label.toList)

/-- Whether the preferred label or an alternative one holds the text. -/
def matchesLabels (query : Query) (label : String) (altLabels : List String) : Bool :=
  query.hits label || altLabels.any query.hits

end Query

namespace Trees

/-- Whether some tree of the row has a top that is marked. -/
def anyMarked : Trees → Bool
  | empty => false
  | node top _ beside => top.mark ≠ .plain || beside.anyMarked

/-- Mark every occurrence by a query, the lowest first. -/
def markedBy (query : Query) : Trees → Trees
  | empty => empty
  | node top below beside =>
    let below := below.markedBy query
    let mark : SearchMark :=
      if query.matchesLabels top.label top.altLabels then .hit
      else if below.anyMarked then .aboveHit
      else .plain
    node { top with mark } below (beside.markedBy query)

end Trees

namespace Forest

/-- The forest with every occurrence marked by a query. -/
def markedBy (forest : Forest) (query : Query) : Forest :=
  { forest with roots := forest.roots.markedBy query }

/-- The paths that must be open to show every hit: all paths above a marked occurrence. -/
def pathsToOpen (forest : Forest) : TextSet :=
  TextSet.gather (fun occurrence => TextSet.ofList (Path.ancestors occurrence.path))
    (forest.walk.filter (·.mark ≠ .plain))

/-- The mark at every path, in the order of the paths. -/
def marksByPath (forest : Forest) : List (PathText × SearchMark) :=
  (forest.walk.map fun occurrence => (occurrence.path, occurrence.mark)).mergeSort
    fun first second => first.1 ≤ second.1

/-- The concepts that a search hits. -/
def hitConcepts (forest : Forest) : TextSet :=
  TextSet.ofList ((forest.walk.filter (·.mark = .hit)).map Occurrence.id)

end Forest

/-- The paths that must be open to show every hit of a query in a graph. -/
def ConceptGraph.pathsToOpen (graph : ConceptGraph) (query : Query) : TextSet :=
  (graph.project.markedBy query).pathsToOpen

end Thesaurus

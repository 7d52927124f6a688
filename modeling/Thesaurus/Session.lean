import Thesaurus.Settings
import Thesaurus.Expansion
import Thesaurus.Failure
import Thesaurus.Projection
import Thesaurus.Drag
import Thesaurus.Search

/-!
# An editing session

A session holds the last confirmed graph of a scheme and what is derived from it, the search, the
open paths, the drag in progress and the concepts whose change is not answered yet. It asks no
repository itself: a drop tells what change is wanted, and answers come back through
`receiveScheme` and `receiveAnswer`, which may be late and may belong to another scheme.
-/

namespace Thesaurus

/-- The state of an editor. -/
structure Session where
  /-- The settings. -/
  settings : Settings := {}
  /-- The scheme that is shown. -/
  scheme : Option String := none
  /-- The last confirmed graph. -/
  graph : ConceptGraph := ConceptGraph.empty
  /-- The concepts below each concept of the graph. -/
  index : Descendants := {}
  /-- The trees of the graph. -/
  projection : Forest := {}
  /-- The trees, marked by the search. -/
  forest : Forest := {}
  /-- How often the marked trees were made anew; a view tells by it that its rows are outdated. -/
  edition : Nat := 0
  /-- The search text as typed. -/
  searchText : String := ""
  /-- What is searched for. -/
  query : Query := Query.inactive
  /-- The open paths and the selection. -/
  expansion : Expansion := Expansion.initial
  /-- The drag in progress. -/
  drag : Drag := none
  /-- The concepts whose change is not answered yet. -/
  pending : TextSet := TextSet.empty
  /-- The last error, as a sentence. -/
  lastError : Option String := none
  /-- Whether the repository is known to hold a change that the graph does not show. -/
  stale : Bool := false

namespace Session

/-- A session before any scheme is shown. -/
def new (settings : Settings) : Session := { settings }

/-- Whether a scheme is the one that is shown. -/
def shows (session : Session) (scheme : String) : Bool := session.scheme == some scheme

/-- The scheme of a session is the one that is shown. -/
theorem shows_of_scheme_eq {session : Session} {scheme : String}
    (h : session.scheme = some scheme) : session.shows scheme = true :=
  beq_iff_eq.mpr h

/-- Whether a path is open. -/
def isOpen (session : Session) (path : PathText) : Bool := session.expansion.isOpen path

/-- The selected concept. -/
def selected (session : Session) : Option ConceptId := session.expansion.selected

/-- Whether a change of a concept is not answered yet. -/
def isPending (session : Session) (id : ConceptId) : Bool := decide (id ∈ session.pending)

/-- Whether anything is searched for. -/
def isSearching (session : Session) : Bool := session.query.isActive

/-- The concepts that the search hits, while there is a search. -/
def hitConcepts (session : Session) : Option TextSet :=
  if session.query.isActive then some session.forest.hitConcepts else none

/-- Mark the trees by the query and open what hides a hit. -/
def remark (session : Session) : Session :=
  let forest := session.projection.markedBy session.query
  { session with
    forest
    edition := session.edition + 1
    expansion :=
      if session.query.isActive then session.expansion.extend forest.pathsToOpen.toList
      else session.expansion }

/-- The drag, unless the dragged concept is not in a graph. -/
def dragWithin (drag : Drag) (graph : ConceptGraph) : Drag :=
  drag.filter fun grip => graph.contains grip.concept

/-- Show another graph. -/
def setGraph (session : Session) (graph : ConceptGraph) : Session :=
  remark
    { session with
      graph
      index := Descendants.ofGraph graph
      projection := graph.project
      drag := dragWithin session.drag graph }

/-- Turn to a scheme: nothing is left of the scheme before but the changes under way. -/
def turnTo (session : Session) (scheme : String) : Session :=
  setGraph
    { session with
      scheme := some scheme
      expansion := Expansion.initial
      drag := none
      searchText := ""
      query := Query.inactive
      lastError := none
      stale := false }
    ConceptGraph.empty

/-- The paths of the roots. -/
def rootPaths (forest : Forest) : List PathText :=
  forest.roots.row.map (·.top.path)

/-- Take the answer to a load. An answer for a scheme that is not shown is dropped. -/
def receiveScheme (session : Session) (scheme : String)
    (answer : Except RequestError ConceptGraph) : Except SessionError Unit × Session :=
  if !session.shows scheme then (.ok (), session)
  else match answer with
    | .ok graph =>
      let shown := setGraph { session with stale := false } graph
      (.ok (),
        if session.settings.tree.expandRootsOnLoad then
          { shown with expansion := shown.expansion.extend (rootPaths shown.forest) }
        else shown)
    | .error error =>
      (.error (.request error), { session with lastError := some error.message })

/-- Open or close a path. -/
def toggle (session : Session) (path : PathText) : Session :=
  { session with expansion := session.expansion.toggle path }

/-- Open everything. -/
def expandAll (session : Session) : Session :=
  { session with expansion := session.expansion.expandAll session.forest }

/-- Close everything. -/
def collapseAll (session : Session) : Session :=
  { session with expansion := session.expansion.collapseAll }

/-- Select a concept, or none. -/
def select (session : Session) (id : Option ConceptId) : Session :=
  { session with expansion := session.expansion.select id }

/-- Open what is above the first occurrence of the selected concept; the answer is its path. -/
def revealSelected (session : Session) : Option PathText × Session :=
  match session.selected with
  | some id =>
    let (path, expansion) := session.expansion.reveal session.forest id
    (path, { session with expansion })
  | none => (none, session)

/-- Search for a text. -/
def search (session : Session) (typed : String) : Session :=
  remark
    { session with
      searchText := typed
      query := Query.ofText typed session.settings.tree.searchMinChars }

/-- Forget the last error. -/
def dismissError (session : Session) : Session := { session with lastError := none }

/-- Take hold of an occurrence, unless a change of its concept is under way. -/
def grab (session : Session) (id : ConceptId) (path : PathText) : Session :=
  if session.isPending id then session
  else { session with drag := some (Grip.start id path) }

/-- Whether a place would accept a drop now. -/
def verdict (session : Session) (place : DropPlace) : Verdict :=
  session.drag.verdict session.graph session.index place

/-- Hover over a place. -/
def hover (session : Session) (place : DropPlace) (modifier : Bool) : Session :=
  { session with drag := session.drag.hover session.graph session.index place modifier }

/-- Release the drag. A change that is wanted counts as under way from here on. -/
def drop (session : Session) (place : Option DropPlace) (modifier : Bool) :
    Except SessionError DropResult × Session :=
  let (result, left) := session.drag.release session.graph session.index place modifier
  let idle := { session with drag := left }
  match result with
  | .wanted change =>
    if session.isPending change.concept then (.error (.underWay change.concept), idle)
    else (.ok result, { idle with pending := session.pending.insert change.concept })
  | _ => (.ok result, idle)

/-- Let go of what is dragged. -/
def letGo (session : Session) : Session := { session with drag := none }

/-- Take the answer to a change, which may be for a scheme that is not shown. -/
def receiveAnswer (session : Session) (scheme : String) (change : ParentChange)
    (answer : Except RequestError ConceptGraph) : Except SessionError Unit × Session :=
  let settled := { session with pending := session.pending.erase change.concept }
  match answer with
  | .ok graph =>
    (.ok (), if session.shows scheme then settled.setGraph graph else settled)
  | .error error =>
    (.error (.request error),
      { settled with
        stale := session.stale || (error.saved && session.shows scheme)
        lastError := some error.message })

end Session

end Thesaurus

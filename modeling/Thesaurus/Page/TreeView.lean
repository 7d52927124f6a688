import Thesaurus.Page.Document
import Thesaurus.Session

/-!
# The tree view

The tree view shows every occurrence all of whose ancestors are open, one row each, and takes
drags and drops. What it shows is a function of the session and of its hover marks. A row loses
its mark when it is built anew: whenever the trees are made anew, and when it comes back after a
row above it was closed.
-/

namespace Thesaurus

/-- The occurrences that are shown: those with nothing closed above them, in display order. -/
def Trees.shown (isOpen : PathText → Bool) : Trees → List Occurrence
  | empty => []
  | node top below beside =>
    top :: ((if isOpen top.path then below.shown isOpen else []) ++ beside.shown isOpen)

namespace Page

/-- What a handler of the tree view does. -/
inductive TreeAction where
  /-- Hover over a place with what is dragged. -/
  | hover (place : DropPlace) (row : Option PathText)
  /-- Leave a place with what is dragged. -/
  | unhover (row : Option PathText)
  /-- Release what is dragged on a place. -/
  | drop (place : DropPlace) (row : Option PathText)
  /-- Take hold of an occurrence. -/
  | grab (id : ConceptId) (path : PathText)
  /-- Let go of what is dragged. -/
  | letGo
  /-- Open or close a path. -/
  | toggle (path : PathText)
  /-- Select a concept. -/
  | select (id : ConceptId)

/-- Which places are marked as hovered, and how. -/
structure Marks where
  /-- The mark of the zone for top concepts. -/
  top : Option Verdict := none
  /-- The marks of rows, by path. -/
  rows : List (PathText × Verdict) := []

namespace Marks

/-- The mark of a row, or of the zone for top concepts. -/
def get (marks : Marks) : Option PathText → Option Verdict
  | none => marks.top
  | some path => marks.rows.lookup path

/-- Change the mark of a row, or of the zone for top concepts. -/
def set (marks : Marks) (row : Option PathText) (mark : Option Verdict) : Marks :=
  match row with
  | none => { marks with top := mark }
  | some path =>
    let others := marks.rows.filter (·.1 ≠ path)
    { marks with
      rows := match mark with
        | some verdict => (path, verdict) :: others
        | none => others }

/-- The marks that are left when a session has changed: rows of outdated trees have none, and
neither have rows that are not shown. -/
def settle (marks : Marks) (before after : Session) : Marks :=
  if before.edition ≠ after.edition then { marks with rows := [] }
  else
    let isShown (path : PathText) : Bool :=
      (after.forest.roots.shown after.isOpen).any (·.path = path)
    { marks with rows := marks.rows.filter fun row => isShown row.1 }

end Marks

/-- The tree view with the session it shares. -/
structure TreeView where
  /-- The session. -/
  session : Session
  /-- The hover marks. -/
  marks : Marks := {}
  /-- The changes sent off, the latest last. -/
  sent : List ParentChange := []

/-- What is appended to the class of a place for the verdict on it. -/
def dropClass : Option Verdict → String
  | some .accepted => " drop-valid"
  | some .idle => ""
  | some _ => " drop-invalid"
  | none => ""

/-- What is appended to the class of a row for the search. -/
def searchClass (mark : SearchMark) (searching : Bool) : String :=
  match mark with
  | .hit => " match"
  | .aboveHit => " match-ancestor"
  | .plain => if searching then " dimmed" else ""

namespace TreeView

/-- The class of the row of an occurrence. -/
def rowClass (view : TreeView) (row : Occurrence) : String :=
  "tree-row"
    ++ searchClass row.mark view.session.isSearching
    ++ (if view.session.selected = some row.id then " selected" else "")
    ++ (if view.session.isPending row.id then " pending" else "")
    ++ dropClass (view.marks.get (some row.path))

/-- The button that opens and closes a row. -/
def toggleButton (view : TreeView) (row : Occurrence) : Node TreeAction :=
  .element "button" [("class", "tree-toggle")] [("click", .toggle row.path)]
    [.text (if view.session.isOpen row.path then "\u25be" else "\u25b8")]

/-- The badge of a concept with several broader concepts. -/
def badge (row : Occurrence) : Node TreeAction :=
  .element "span"
    [("class", "poly-badge"), ("title", "Also under: " ++ ", ".intercalate row.otherParentLabels)]
    [] [.text ("+" ++ toString row.otherParentLabels.length)]

/-- The row of an occurrence. -/
def row (view : TreeView) (row : Occurrence) (isBranch : Bool) : Node TreeAction :=
  .element "div"
    [("class", view.rowClass row), ("draggable", "true"),
      ("style", "padding-left: " ++ toString (row.depth * 16) ++ "px")]
    [("click", .select row.id), ("dragstart", .grab row.id row.path),
      ("dragover", .hover (.concept row.id) (some row.path)),
      ("dragleave", .unhover (some row.path)), ("drop", .drop (.concept row.id) (some row.path)),
      ("dragend", .letGo)]
    ((if isBranch then [view.toggleButton row] else [])
      ++ [.element "span" [("class", "tree-label")] [] [.text row.label]]
      ++ (if row.hasManyParents then [badge row] else []))

/-- The rows of some trees, those below a closed row left out. -/
def rows (view : TreeView) : Trees → List (Node TreeAction)
  | .empty => []
  | .node top below beside =>
    let inner :=
      if !below.isEmpty && view.session.isOpen top.path then
        [Node.element "ul" [("class", "tree-children")] [] (view.rows below)]
      else []
    .element "li" [("class", "tree-node")] [] (view.row top (!below.isEmpty) :: inner)
      :: view.rows beside

/-- The zone where a concept is dropped to become a top concept. -/
def topZone (view : TreeView) : Node TreeAction :=
  .element "div" [("class", "tree-root-drop" ++ dropClass view.marks.top)]
    [("dragover", .hover .top none), ("dragleave", .unhover none), ("drop", .drop .top none)]
    [.text "Drop here to make a top concept"]

/-- The whole view. -/
def document (view : TreeView) : Node TreeAction :=
  let trees := view.session.forest.roots
  .element "div" [("class", "concept-tree")] []
    ([view.topZone, .element "ul" [("class", "tree")] [] (view.rows trees)]
      ++ (if trees.isEmpty then
          [.element "p" [("class", "tree-empty")] [] [.text "No concepts in this scheme"]]
        else []))

/-- Do what a handler stands for. -/
def act (action : TreeAction) (event : Event) (view : TreeView) : Reaction × TreeView :=
  let session := view.session
  match action with
  | .hover place row =>
    let verdict := session.verdict place
    ({ stopped := true, prevented := verdict = .accepted },
      { view with
        session := session.hover place event.alt
        marks := view.marks.set row (some verdict) })
  | .unhover row => ({}, { view with marks := view.marks.set row none })
  | .drop place row =>
    let (answer, session) := session.drop (some place) event.alt
    let wanted := match answer with
      | .ok (.wanted change) => [change]
      | _ => []
    ({ stopped := true, prevented := true },
      { session, marks := view.marks.set row none, sent := view.sent ++ wanted })
  | .grab id path =>
    if session.isPending id then ({ stopped := true, prevented := true }, view)
    else
      ({ stopped := true
         transfer :=
          if event.hasTransfer then { texts := [("text/plain", id)], effect := some "copyMove" }
          else {} },
        { view with session := session.grab id path })
  | .letGo => ({}, { view with session := session.letGo })
  | .toggle path => ({ stopped := true }, { view with session := session.toggle path })
  | .select id => ({}, { view with session := session.select (some id) })

/-- Let the session change, by the view or by others that share it. -/
def change (view : TreeView) (next : TreeView) : TreeView :=
  { next with marks := next.marks.settle view.session next.session }

/-- An event at a place of the view. -/
def handle (view : TreeView) (place : Place TreeAction) (event : Event) : Reaction × TreeView :=
  let (reaction, next) := dispatch act event place.line view
  (reaction, view.change next)

end TreeView

end Page

end Thesaurus

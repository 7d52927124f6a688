import Thesaurus.Page.GraphView
import Thesaurus.Page.TreeView
import Thesaurus.Samples

/-!
# The page of the editor

The page shows one session in two views, of which one is hidden, and below its toolbar the last
error. Requests to the repository wait as tasks until they are answered, in any order. After
every event or answer the views follow the session.
-/

namespace Thesaurus.Page

/-- Which view is shown. -/
inductive ViewMode where
  /-- The tree view. -/
  | tree
  /-- The graph view. -/
  | graph
deriving DecidableEq

/-- A request to the repository that is not answered yet. -/
inductive Task where
  /-- Fetch a scheme. -/
  | load (scheme : String)
  /-- Make a change and fetch the scheme. -/
  | change (scheme : String) (request : ParentChange)
deriving DecidableEq

/-- What a handler of the page does. -/
inductive HomeAction where
  /-- Something in the tree view. -/
  | tree (action : TreeAction)
  /-- Something in the graph view. -/
  | graph (action : GraphAction)
  /-- Turn to the scheme that was chosen. -/
  | chooseScheme
  /-- Search for what was typed. -/
  | search
  /-- Open everything. -/
  | expandAll
  /-- Close everything. -/
  | collapseAll
  /-- Show one of the views. -/
  | chooseView (mode : ViewMode)
  /-- Fetch the scheme again. -/
  | reload
  /-- Forget the last error. -/
  | dismissError

/-- The page with its state. -/
structure Home where
  /-- The repository. -/
  repository : Repository
  /-- The tree view with the session. -/
  tree : TreeView
  /-- The graph view. -/
  graph : GraphView
  /-- Which view is shown. -/
  mode : ViewMode := .tree
  /-- The requests that wait, the oldest first. -/
  tasks : List Task := []

namespace Home

/-- The session. -/
def session (home : Home) : Session := home.tree.session

/-- The page with another session. -/
def withSession (home : Home) (session : Session) : Home :=
  { home with tree := { home.tree with session } }

/-- What the graph view shows of a session. -/
def graphInput (session : Session) : GraphInput :=
  { snapshot := Snapshot.ofGraph session.graph
    selected := session.selected
    hits := session.hitConcepts }

/-- Let the views follow the session, and send off the changes of the tree view. -/
def follow (before after : Home) : Home :=
  let input := graphInput after.session
  let sent := after.session.scheme.elim [] fun scheme =>
    after.tree.sent.map (Task.change scheme)
  { after with
    tree := { before.tree.change after.tree with sent := [] }
    graph := (after.graph.showSnapshot input).showEmphasis input
    tasks := after.tasks ++ sent }

/-- How the graph view is set up. -/
def graphProps : GraphProps :=
  { settings := Samples.settings.layout, width := some 960, height := some 640 }

/-- Turn to a scheme and ask for it. -/
def turnTo (home : Home) (scheme : String) : Home :=
  { home.withSession (home.session.turnTo scheme) with
    tasks := home.tasks ++ [.load scheme] }

/-- The page when it is opened: it asks for the first scheme. -/
def new (browser : Browser) : Home :=
  let session := Session.new Samples.settings
  let home := turnTo
    { repository := Samples.repository, tree := { session }, graph := {} }
    (Samples.schemes.headD "")
  { home with graph := GraphView.mount graphProps browser (graphInput home.session) }

/-- Do what a handler stands for. -/
def act (browser : Browser) (action : HomeAction) (event : Event) (home : Home) :
    Reaction × Home :=
  let session := home.session
  match action with
  | .tree action =>
    let (reaction, tree) := home.tree.act action event
    (reaction, { home with tree })
  | .graph action =>
    let (reaction, graph) := home.graph.act browser action event
    let changed := { home with graph }
    match home.graph.selects action with
    | some id => (reaction, changed.withSession (session.select id).revealSelected.2)
    | none => (reaction, changed)
  | .chooseScheme => ({}, home.turnTo event.value)
  | .search => ({}, home.withSession (session.search event.value))
  | .expandAll => ({}, home.withSession session.expandAll)
  | .collapseAll => ({}, home.withSession session.collapseAll)
  | .chooseView mode => ({}, { home with mode })
  | .reload =>
    ({}, { home with tasks := home.tasks ++ (session.scheme.map Task.load).toList })
  | .dismissError => ({}, home.withSession session.dismissError)

/-- An event at a place of the page. -/
def handle (home : Home) (browser : Browser) (place : Place HomeAction) (event : Event) :
    Reaction × Home :=
  let (reaction, next) := dispatch (act browser) event place.line home
  (reaction, home.follow next)

/-- Let one waiting request run to its end; none is there beyond the last. -/
def respond (home : Home) (index : Nat) : Option Home :=
  (home.tasks[index]?).map fun task =>
    let waiting := { home with tasks := home.tasks.eraseIdx index }
    match task with
    | .load scheme =>
      let (answer, repository) := home.repository.fetchGraph scheme
      let (_, session) := home.session.receiveScheme scheme answer
      home.follow { waiting.withSession session with repository }
    | .change scheme request =>
      let (answer, repository) := home.repository.changeAndFetch scheme request
      let (_, session) := home.session.receiveAnswer scheme request answer
      home.follow { waiting.withSession session with repository }

/-- Some animation frames, of which the last one is told. -/
def frames (forces : Forces) (home : Home) (browser : Browser) (count : Nat) : Frame × Home :=
  let (frame, graph) := home.graph.frames forces browser count
  (frame, { home with graph })

/-- A button of the toolbar. -/
def button (label : String) (action : HomeAction) : Node HomeAction :=
  .element "button" [] [("click", action)] [.text label]

/-- The toolbar. -/
def toolbar (home : Home) : Node HomeAction :=
  .element "header" [("class", "editor-toolbar")] []
    [.element "select" [] [("change", .chooseScheme)]
        (Samples.schemes.map fun scheme =>
          .element "option" [("value", scheme)] [] [.text scheme]),
      .element "input"
        [("type", "search"), ("placeholder", "Search labels"),
          ("prop:value", home.session.searchText)]
        [("input", .search)] [],
      button "Expand all" .expandAll, button "Collapse all" .collapseAll,
      button "Tree" (.chooseView .tree), button "Graph" (.chooseView .graph)]

/-- The button that fetches the scheme again, while the graph is stale. -/
def reloadButton (home : Home) : List (Node HomeAction) :=
  if home.session.stale then
    [.element "button" [("class", "reload")] [("click", .reload)] [.text "Reload"]]
  else []

/-- The last error. -/
def errorBanner (home : Home) : List (Node HomeAction) :=
  match home.session.lastError with
  | some message =>
    [.element "div" [("class", "error-banner")] [("click", .dismissError)] [.text message]]
  | none => []

/-- A view, shown or hidden. -/
def pane (home : Home) (name : String) (mode : ViewMode) (content : Node HomeAction) :
    Node HomeAction :=
  .element "section"
    [("class", name), ("style:display", if home.mode = mode then "block" else "none")] []
    [content]

/-- The whole page. -/
def document (home : Home) : List (Node HomeAction) :=
  [.element "div" [("class", "editor")] []
    (home.toolbar :: home.reloadButton ++ home.errorBanner
      ++ [home.pane "tree-view" .tree (home.tree.document.map .tree),
        home.pane "graph-view" .graph (GraphView.document.map .graph)])]

end Home

/-- The page for an address without one. -/
def notFound : Node HomeAction :=
  .element "h1" [] []
    [.text "Uh oh!", .element "br" [] [] [], .text "We couldn't find that page!"]

/-- The whole application: the editor, or the page for an address without one. -/
inductive App where
  /-- The editor. -/
  | home (state : Home)
  /-- The other page. -/
  | notFound

namespace App

/-- What stands in the head of every page. -/
def head : List (String × List (String × String)) :=
  [("html", [("lang", "en"), ("dir", "ltr"), ("data-theme", "light")]),
    ("title", [("text", "Concept Hierarchy Editor")]), ("meta", [("charset", "UTF-8")]),
    ("meta", [("name", "viewport"), ("content", "width=device-width, initial-scale=1.0")])]

/-- The address of the editor. -/
def homeAddress : String := "/"

/-- The application at an address. -/
def visit (browser : Browser) (address : String) : App :=
  if address = homeAddress then .home (Home.new browser) else .notFound

/-- The body of the page. -/
def document : App → List (Node HomeAction)
  | .home state => state.document
  | .notFound => [Page.notFound]

/-- An event at a place of the page. -/
def handle (app : App) (browser : Browser) (place : Place HomeAction) (event : Event) :
    Reaction × App :=
  match app with
  | .home state =>
    let (reaction, next) := state.handle browser place event
    (reaction, .home next)
  | .notFound => ({}, app)

/-- Let one waiting request run to its end. -/
def respond (app : App) (index : Nat) : Option App :=
  match app with
  | .home state => (state.respond index).map .home
  | .notFound => none

/-- How many requests wait. -/
def waiting : App → Nat
  | .home state => state.tasks.length
  | .notFound => 0

/-- Some animation frames, of which the last one is told if there is a canvas. -/
def frames (forces : Forces) (app : App) (browser : Browser) (count : Nat) : Option Frame × App :=
  match app with
  | .home state =>
    let (frame, next) := state.frames forces browser count
    (some frame, .home next)
  | .notFound => (none, app)

end App

end Thesaurus.Page

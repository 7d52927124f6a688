import Thesaurus.Canvas.Drawing
import Thesaurus.Page.Browser
import Thesaurus.Page.Document

/-!
# The graph view

The graph view shows a snapshot of a graph on a canvas and lets the pointer drag nodes, pan and
zoom. The layout is started once, when the view is mounted, and kept from then on. Each animation
frame makes one step of the layout and draws it. A view whose canvas has left the page gives up
its layout at the next frame.
-/

namespace Thesaurus.Page

/-- How a graph view is set up. -/
structure GraphProps where
  /-- The settings of the layout. -/
  settings : LayoutSettings := {}
  /-- Whether the view fills the window and follows its size. -/
  fullscreen : Bool := false
  /-- The width, if it is given. -/
  width : Option Float := none
  /-- The height, if it is given. -/
  height : Option Float := none

/-- What a graph view is to show. -/
structure GraphInput where
  /-- The nodes and lines. -/
  snapshot : Snapshot := {}
  /-- The selected concept. -/
  selected : Option ConceptId := none
  /-- What the search hits, while there is a search. -/
  hits : Option TextSet := none

/-- A graph view on a page. -/
structure GraphView where
  /-- The size of the canvas element. -/
  size : UInt32 × UInt32 := (300, 150)
  /-- What is on the canvas, once the view has started. -/
  canvas : Option Canvas := none
  /-- Whether a frame is asked for. -/
  animating : Bool := false
  /-- Whether the view follows the size of the window. -/
  listening : Bool := false
  /-- Whether the canvas is on the page. -/
  connected : Bool := true

/-- What a handler of the graph view does. -/
inductive GraphAction where
  /-- Press the pointer. -/
  | press
  /-- Move the pointer. -/
  | move
  /-- Release the pointer. -/
  | release
  /-- Leave with the pointer. -/
  | leave
  /-- Turn the wheel. -/
  | wheel

/-- What an animation frame came to. -/
structure Frame where
  /-- How many callbacks ran. -/
  callbacks : Nat := 0
  /-- What was drawn. -/
  calls : List DrawCall := []

namespace GraphView

/-- The size that a view is given when it is mounted. -/
def startExtent (props : GraphProps) (browser : Browser) : Extent :=
  if props.fullscreen then browser.viewport?.getD ⟨800, 600⟩
  else
    { width := props.width.getD (browser.parent.elim 800 Extent.width)
      height := props.height.getD (browser.parent.elim 600 Extent.height) }

/-- A size in whole pixels. -/
def pixels (extent : Extent) : UInt32 × UInt32 :=
  (extent.width.toUInt32, extent.height.toUInt32)

/-- Change what is on the canvas, if the view has started. -/
def onCanvas (view : GraphView) (change : Canvas → Canvas) : GraphView :=
  { view with canvas := view.canvas.map change }

/-- Change the layout, if the view has started. -/
def onLayout (view : GraphView) (change : Layout → Layout) : GraphView :=
  view.onCanvas fun canvas => { canvas with layout := change canvas.layout }

/-- Show another snapshot; nodes are made to stand out again only if the layout starts afresh. -/
def showSnapshot (view : GraphView) (input : GraphInput) : GraphView :=
  view.onLayout fun layout =>
    let (afresh, turned) := layout.turnTo input.snapshot
    if afresh then turned.emphasize input.selected input.hits else turned

/-- Show another selection or other hits. -/
def showEmphasis (view : GraphView) (input : GraphInput) : GraphView :=
  view.onLayout (·.emphasize input.selected input.hits)

/-- Put a view on a page. Without a window nothing starts, and without a context only the size of
the canvas is set. -/
def mount (props : GraphProps) (browser : Browser) (input : GraphInput) : GraphView :=
  if !browser.hasWindow then {}
  else
    let extent := startExtent props browser
    let sized : GraphView := { size := pixels extent }
    if !browser.hasContext then sized
    else
      let started :=
        { sized with
          canvas := some (Canvas.new input.snapshot extent.width extent.height props.settings)
          animating := true
          listening := props.fullscreen }
      (started.showSnapshot input).showEmphasis input

/-- The view after an animation frame. -/
def afterFrame (forces : Forces) (view : GraphView) (browser : Browser) : GraphView :=
  if !view.animating then view
  else if !browser.hasWindow then { view with animating := false }
  else if !view.connected then
    { view with animating := false, listening := false, canvas := none }
  else view.onLayout (·.step forces 0.016)

/-- The view after some animation frames. -/
def afterFrames (forces : Forces) (view : GraphView) (browser : Browser) : Nat → GraphView
  | 0 => view
  | count + 1 => (view.afterFrame forces browser).afterFrames forces browser count

/-- An animation frame: a callback runs if one is asked for, and it draws what is on the canvas
after the frame, unless there is nothing to draw on. -/
def frame (forces : Forces) (view : GraphView) (browser : Browser) : Frame × GraphView :=
  let next := view.afterFrame forces browser
  if !view.animating then ({}, next)
  else if !browser.hasWindow || !view.connected then ({ callbacks := 1 }, next)
  else ({ callbacks := 1, calls := next.canvas.elim [] Canvas.draw }, next)

/-- Some animation frames, of which the last one is told. -/
def frames (forces : Forces) (view : GraphView) (browser : Browser) : Nat → Frame × GraphView
  | 0 => ({}, view)
  | count + 1 => (view.afterFrames forces browser count).frame forces browser

/-- Tell the view that the window has changed its size. -/
def windowResized (view : GraphView) (browser : Browser) : GraphView :=
  if !view.listening then view
  else match browser.viewport? with
    | none => view
    | some extent =>
      { view with size := pixels extent }.onCanvas (·.resize extent.width extent.height)

/-- The point of the canvas at which an event happened. -/
def pointOf (browser : Browser) (event : Event) : Point :=
  ⟨event.x - browser.offset.x, event.y - browser.offset.y⟩

/-- Do what a handler stands for. -/
def act (browser : Browser) (action : GraphAction) (event : Event) (view : GraphView) :
    Reaction × GraphView :=
  let point := pointOf browser event
  match action with
  | .press => ({}, view.onCanvas (·.press point))
  | .move => ({}, view.onCanvas (·.pointerMove point))
  | .release => ({}, view.onCanvas (·.release))
  | .leave => ({}, view.onCanvas (·.leave))
  | .wheel => ({ prevented := true }, view.onCanvas (·.zoom point (event.deltaY ≤ 0)))

/-- What releasing the pointer selects: a concept, nothing (the selection is cleared), or no
change at all. -/
def selects (view : GraphView) : GraphAction → Option (Option ConceptId)
  | .release => view.canvas.bind Canvas.clicked
  | _ => none

/-- An event at a place of the view. The answer holds what was selected by it. -/
def handle (view : GraphView) (browser : Browser) (place : Place GraphAction) (event : Event) :
    Reaction × List (Option ConceptId) × GraphView :=
  let run (action : GraphAction) (event : Event) (state : List (Option ConceptId) × GraphView) :=
    let (reaction, next) := state.2.act browser action event
    (reaction, (state.1 ++ (state.2.selects action).toList, next))
  dispatch run event place.line ([], view)

/-- The canvas element. -/
def document : Node GraphAction :=
  .element "canvas"
    [("class", "force-graph-canvas"), ("style", "display: block; cursor: grab;")]
    [("mousedown", .press), ("mousemove", .move), ("mouseup", .release), ("mouseleave", .leave),
      ("wheel", .wheel)] []

end GraphView

end Thesaurus.Page

import Thesaurus.Layout.Step

/-!
# The canvas of the graph view

Between two frames a canvas keeps its layout, how the plane is moved and scaled onto the screen,
and what the pointer is doing: dragging a node, panning, or hovering. A node under the pointer
is pinned while it is dragged. A press that hardly moves is a click.
-/

namespace Thesaurus

/-- How the plane is shown on the screen: scaled, then moved. -/
structure Transform where
  /-- How far the plane is moved to the right. -/
  x : Float := 0
  /-- How far the plane is moved down. -/
  y : Float := 0
  /-- The scale. -/
  k : Float := 1

/-- What is known of a node being dragged. -/
structure Grab where
  /-- The node. -/
  node : Option ConceptId := none
  /-- Where on the screen it was pressed. -/
  start : Point := {}
  /-- Where in the plane the node was. -/
  nodeStart : Point := {}
  /-- Whether the pointer has moved far enough. -/
  moved : Bool := false

/-- What is known of the plane being panned. -/
structure Pan where
  /-- Whether it is being panned. -/
  active : Bool := false
  /-- Where on the screen it was pressed. -/
  start : Point := {}
  /-- How far the plane was moved then. -/
  transformStart : Point := {}
  /-- Whether the pointer has moved far enough. -/
  moved : Bool := false

/-- A canvas between two frames. -/
structure Canvas where
  /-- The layout. -/
  layout : Layout
  /-- How the plane is shown. -/
  transform : Transform := {}
  /-- The node being dragged. -/
  grab : Grab := {}
  /-- The plane being panned. -/
  pan : Pan := {}
  /-- The node under the pointer. -/
  hovered : Option ConceptId := none

namespace Canvas

/-- A new canvas for a viewport. -/
def new (snapshot : Snapshot) (width height : Float) (settings : LayoutSettings) : Canvas :=
  { layout := Layout.ofSnapshot snapshot width height settings }

/-- How far the pointer may move in a click. -/
def clickSlop : Float := 3

/-- The point of the plane that is shown at a point of the screen. -/
def toPlane (canvas : Canvas) (point : Point) : Point :=
  ⟨(point.x - canvas.transform.x) / canvas.transform.k,
    (point.y - canvas.transform.y) / canvas.transform.k⟩

/-- The node shown at a point of the screen. -/
def nodeAt? (canvas : Canvas) (point : Point) : Option ConceptId :=
  canvas.layout.nodeAt? (canvas.toPlane point)

/-- Press at a point of the screen: take hold of the node there, or of the plane. -/
def press (canvas : Canvas) (point : Point) : Canvas :=
  match canvas.nodeAt? point with
  | some id =>
    let place := (canvas.layout.position? id).getD {}
    { canvas with
      layout := canvas.layout.pin id place
      grab := { node := some id, start := point, nodeStart := place } }
  | none =>
    { canvas with
      pan :=
        { active := true
          start := point
          transformStart := ⟨canvas.transform.x, canvas.transform.y⟩ } }

/-- Move the pointer to a point of the screen. -/
def pointerMove (canvas : Canvas) (point : Point) : Canvas :=
  match canvas.grab.node with
  | some id =>
    let dx := point.x - canvas.grab.start.x
    let dy := point.y - canvas.grab.start.y
    let place : Point :=
      ⟨canvas.grab.nodeStart.x + dx / canvas.transform.k,
        canvas.grab.nodeStart.y + dy / canvas.transform.k⟩
    { canvas with
      grab := { canvas.grab with moved := canvas.grab.moved || clickSlop < Plane.hypotenuse dx dy }
      layout := canvas.layout.pin id place }
  | none =>
    if canvas.pan.active then
      let dx := point.x - canvas.pan.start.x
      let dy := point.y - canvas.pan.start.y
      { canvas with
        pan := { canvas.pan with moved := canvas.pan.moved || clickSlop < Plane.hypotenuse dx dy }
        transform :=
          { canvas.transform with
            x := canvas.pan.transformStart.x + dx
            y := canvas.pan.transformStart.y + dy } }
    else { canvas with hovered := canvas.nodeAt? point }

/-- What a release at this moment clicks: a node, the background (no node), or nothing at all. -/
def clicked (canvas : Canvas) : Option (Option ConceptId) :=
  match canvas.grab.node with
  | some id => if canvas.grab.moved then none else some (some id)
  | none => if canvas.pan.active && !canvas.pan.moved then some none else none

/-- The layout with the dragged node let go. -/
def dropNode (canvas : Canvas) : Layout :=
  match canvas.grab.node with
  | some id => canvas.layout.unpin id
  | none => canvas.layout

/-- Release the pointer. -/
def release (canvas : Canvas) : Canvas :=
  { canvas with layout := canvas.dropNode, grab := {}, pan := {} }

/-- Leave the canvas with the pointer. -/
def leave (canvas : Canvas) : Canvas :=
  { canvas with layout := canvas.dropNode, grab := {}, pan := {}, hovered := none }

/-- Scale the plane one notch, keeping a point of the screen in place. -/
def zoom (canvas : Canvas) (point : Point) (closer : Bool) : Canvas :=
  let scaled := canvas.transform.k * (if closer then 1.1 else 0.9)
  let k := if scaled < 0.1 then 0.1 else if 10 < scaled then 10 else scaled
  let ratio := k / canvas.transform.k
  { canvas with
    transform :=
      { x := point.x - (point.x - canvas.transform.x) * ratio
        y := point.y - (point.y - canvas.transform.y) * ratio
        k } }

/-- Change the viewport. -/
def resize (canvas : Canvas) (width height : Float) : Canvas :=
  { canvas with layout := canvas.layout.resize width height }

end Canvas

end Thesaurus

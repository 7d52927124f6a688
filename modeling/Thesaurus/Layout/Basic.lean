import Thesaurus.Layout.Snapshot
import Thesaurus.Layout.Plane
import Thesaurus.Layout.Simulation
import Thesaurus.TextSet

/-!
# The layout of the graph view

A layout lets forces move its nodes and after each step corrects the positions: joined nodes are
drawn to the length of a relaxed line, the whole is drawn to the middle, and overlapping nodes
are pushed apart. Its energy falls with every step until it rests. The simulation starts afresh
only when nodes or lines change; labels and emphasis are changed in place. A pinned node is held
where it was put, whatever the simulation and the corrections compute.
-/

namespace Thesaurus

/-- Where the simulation has a body. -/
def Body.point (body : Body) : Point := ⟨body.x.toFloat, body.y.toFloat⟩

/-- How a node stands out. -/
inductive Emphasis where
  /-- Nothing is selected or searched. -/
  | normal
  /-- The node is selected. -/
  | selected
  /-- A line joins the node to the selected one. -/
  | neighbor
  /-- The search hits the node. -/
  | hit
  /-- Others stand out. -/
  | dimmed
deriving DecidableEq

/-- A node that is laid out. -/
structure LaidNode where
  /-- The concept. -/
  id : ConceptId
  /-- The preferred label. -/
  label : String
  /-- The fill color. -/
  color : String
  /-- How the node stands out. -/
  emphasis : Emphasis := .normal
  /-- The body in the simulation. -/
  body : Body

/-- A line between two nodes, named by their places. -/
structure LaidLine where
  /-- The place of the source. -/
  source : Nat
  /-- The place of the target. -/
  target : Nat
  /-- What the line stands for. -/
  kind : LineKind
deriving DecidableEq

/-- A layout with its energy. -/
structure Layout where
  /-- The settings. -/
  settings : LayoutSettings
  /-- What is laid out. -/
  snapshot : Snapshot
  /-- The nodes, in the order in which they are drawn. -/
  nodes : List LaidNode
  /-- The lines whose ends are both laid out. -/
  lines : List LaidLine
  /-- Where each node was last seen or put. -/
  positions : List Point
  /-- The places of the nodes that are held. -/
  pinned : List Nat := []
  /-- The width of the viewport. -/
  width : Float
  /-- The height of the viewport. -/
  height : Float
  /-- The energy. -/
  alpha : Float
  /-- How often the simulation started afresh. -/
  restarts : Nat := 0

namespace Layout

/-- The fill colors of the groups, repeated when they run out. -/
def colors : List String :=
  ["#1f77b4", "#ff7f0e", "#2ca02c", "#d62728", "#9467bd", "#8c564b", "#e377c2", "#7f7f7f",
    "#bcbd22", "#17becf"]

/-- The color of a group; the first one where there is no group. -/
def colorOf (group : Option Nat) : String :=
  colors.getD (group.getD 0 % colors.length) ""

/-- The last place of an item. -/
def lastIndex? {α : Type} [DecidableEq α] (item : α) : List α → Option Nat
  | [] => none
  | first :: rest =>
    match lastIndex? item rest with
    | some index => some (index + 1)
    | none => if first = item then some 0 else none

/-- The place that stands for a concept; the last one where several nodes have its id. -/
def index? (layout : Layout) (id : ConceptId) : Option Nat :=
  lastIndex? id (layout.nodes.map LaidNode.id)

/-- Where the simulation has each node. -/
def bodyPoints (nodes : List LaidNode) : List Point :=
  nodes.map fun node => node.body.point

/-- The place on a ring around the middle for one of several nodes. -/
def ringPoint (settings : LayoutSettings) (width height : Float) (count index : Nat) : Point :=
  let ring := Plane.larger (settings.linkDistance * count.toFloat / (2 * Plane.pi)) 100
  let angle := index.toFloat * 2 * Plane.pi / count.toFloat
  ⟨width / 2 + ring * angle.cos, height / 2 + ring * angle.sin⟩

/-- A node of a new simulation, where it was before or on the ring. -/
def startNode (settings : LayoutSettings) (width height : Float)
    (previous : ConceptId → Option Point) (count : Nat) (node : SnapshotNode) (index : Nat) :
    LaidNode :=
  let point := (previous node.id).getD (ringPoint settings width height count index)
  { id := node.id
    label := node.label
    color := colorOf node.group
    body := { x := point.x.toFloat32, y := point.y.toFloat32 } }

/-- A line of a new simulation, if both its ends are there. -/
def startLine? (ids : List ConceptId) (line : SnapshotLine) : Option LaidLine := do
  let source ← lastIndex? line.source ids
  let target ← lastIndex? line.target ids
  return ⟨source, target, line.kind⟩

/-- Start a simulation. -/
def start (snapshot : Snapshot) (width height : Float) (settings : LayoutSettings)
    (previous : ConceptId → Option Point) : Layout :=
  let nodes := snapshot.nodes.mapIdx fun index node =>
    startNode settings width height previous snapshot.nodes.length node index
  let lines := snapshot.lines.filterMap (startLine? (snapshot.nodes.map SnapshotNode.id))
  { settings, snapshot, nodes, lines
    positions := bodyPoints nodes
    width, height
    alpha := if snapshot.nodes.isEmpty then 0 else 1 }

/-- A new layout for a viewport. -/
def ofSnapshot (snapshot : Snapshot) (width height : Float) (settings : LayoutSettings) :
    Layout :=
  start snapshot width height settings fun _ => none

/-- Where a concept was last seen or put. -/
def position? (layout : Layout) (id : ConceptId) : Option Point :=
  (layout.index? id).bind fun index => layout.positions[index]?

/-- The label of a concept in a snapshot; the last one where several nodes have its id. -/
def newLabel? (snapshot : Snapshot) (id : ConceptId) : Option String :=
  (snapshot.nodes.reverse.find? (·.id = id)).map SnapshotNode.label

/-- Turn to another snapshot; the answer says whether the simulation starts afresh. It does if nodes
or lines differ, and then concepts that stay keep their places; else only labels change. -/
def turnTo (layout : Layout) (snapshot : Snapshot) : Bool × Layout :=
  if layout.snapshot.sameShape snapshot then
    (false,
      { layout with
        snapshot
        nodes := layout.nodes.map fun node =>
          { node with label := (newLabel? snapshot node.id).getD node.label } })
  else
    (true,
      { start snapshot layout.width layout.height layout.settings layout.position? with
        restarts := layout.restarts + 1 })

/-- The simulation goes on exactly for a snapshot of the same shape. -/
theorem turnTo_goes_on_iff {layout : Layout} {snapshot : Snapshot} :
    (layout.turnTo snapshot).1 = false ↔ layout.snapshot.sameShape snapshot = true := by
  unfold turnTo
  cases layout.snapshot.sameShape snapshot <;> simp

/-- It starts afresh exactly for one of another shape. -/
theorem turnTo_afresh_iff {layout : Layout} {snapshot : Snapshot} :
    (layout.turnTo snapshot).1 = true ↔ layout.snapshot.sameShape snapshot = false := by
  rw [← Bool.not_eq_false, turnTo_goes_on_iff, Bool.not_eq_true]

/-- A simulation that goes on takes over labels. -/
theorem turnTo_of_goes_on {layout : Layout} {snapshot : Snapshot}
    (h : (layout.turnTo snapshot).1 = false) :
    (layout.turnTo snapshot).2 =
      { layout with
        snapshot
        nodes := layout.nodes.map fun node =>
          { node with label := (newLabel? snapshot node.id).getD node.label } } := by
  rw [turnTo_goes_on_iff] at h
  rw [turnTo, if_pos h]

/-- One that starts afresh is told of nothing but the places of before. -/
theorem turnTo_of_afresh {layout : Layout} {snapshot : Snapshot}
    (h : (layout.turnTo snapshot).1 = true) :
    (layout.turnTo snapshot).2 =
      { start snapshot layout.width layout.height layout.settings layout.position? with
        restarts := layout.restarts + 1 } := by
  rw [turnTo_afresh_iff] at h
  rw [turnTo, h, if_neg Bool.false_ne_true]

/-- The places that lines join to a place. -/
def joinedTo (lines : List LaidLine) (index : Nat) : List Nat :=
  lines.filterMap fun line =>
    if line.source = index then some line.target
    else if line.target = index then some line.source
    else none

/-- How a node stands out, given the place of the selected node and what the search hits. -/
def emphasisOf (lines : List LaidLine) (selected : Option Nat) (hits : Option TextSet)
    (index : Nat) (id : ConceptId) : Emphasis :=
  if selected = some index then .selected
  else if (selected.map (joinedTo lines)).any (·.contains index) then .neighbor
  else if hits.any fun set => decide (id ∈ set) then .hit
  else if selected.isSome || hits.isSome then .dimmed
  else .normal

/-- Let nodes stand out by the selection and the search. -/
def emphasize (layout : Layout) (selected : Option ConceptId) (hits : Option TextSet) : Layout :=
  let place := selected.bind layout.index?
  { layout with
    nodes := layout.nodes.mapIdx fun index node =>
      { node with emphasis := emphasisOf layout.lines place hits index node.id } }

/-- Whether the layout has energy left. -/
def isRunning (layout : Layout) : Bool := 0 < layout.alpha

/-- Raise the energy, unless nothing is laid out. -/
def reheat (layout : Layout) (alpha : Float) : Layout :=
  if layout.snapshot.nodes.isEmpty then layout
  else { layout with alpha := Plane.larger layout.alpha alpha }

/-- Take all energy. -/
def stop (layout : Layout) : Layout := { layout with alpha := 0 }

/-- Change the viewport; the layout is drawn to its new middle. -/
def resize (layout : Layout) (width height : Float) : Layout :=
  reheat { layout with width, height } layout.settings.resizeAlpha

/-- The middle of the viewport. -/
def center (layout : Layout) : Point := ⟨layout.width / 2, layout.height / 2⟩

/-- Change the body of one node. -/
def modifyBody (nodes : List LaidNode) (index : Nat) (change : Body → Body) : List LaidNode :=
  nodes.modify index fun node => { node with body := change node.body }

/-- Put a node somewhere and hold it there. -/
def pin (layout : Layout) (id : ConceptId) (point : Point) : Layout :=
  match layout.index? id with
  | none => layout
  | some index =>
    reheat
      { layout with
        nodes := modifyBody layout.nodes index fun body =>
          { body with x := point.x.toFloat32, y := point.y.toFloat32, anchored := true }
        positions := layout.positions.set index point
        pinned := if layout.pinned.contains index then layout.pinned
          else layout.pinned ++ [index] }
      layout.settings.reheatAlpha

/-- Let go of a node. -/
def unpin (layout : Layout) (id : ConceptId) : Layout :=
  match layout.index? id with
  | none => layout
  | some index =>
    let freed :=
      { layout with
        nodes := modifyBody layout.nodes index fun body => { body with anchored := false }
        pinned := layout.pinned.filter (· ≠ index) }
    if layout.pinned.contains index then freed.reheat layout.settings.reheatAlpha else freed

/-- Whether a concept is held. -/
def isPinned (layout : Layout) (id : ConceptId) : Bool :=
  (layout.index? id).any layout.pinned.contains

/-- The number of concepts that are laid out. -/
def size (layout : Layout) : Nat :=
  (TextSet.ofList (layout.nodes.map LaidNode.id)).toList.length

/-- The last drawn node within the hit radius of a point. -/
def nodeAt? (layout : Layout) (point : Point) : Option ConceptId :=
  let isHit (node : LaidNode) : Bool :=
    let place := node.body.point
    Plane.length (place.x - point.x) (place.y - point.y) < layout.settings.hitRadius
  (layout.nodes.reverse.find? isHit).map LaidNode.id

/-- How a concept stands out. -/
def emphasis? (layout : Layout) (id : ConceptId) : Option Emphasis :=
  (layout.index? id).bind fun index => (layout.nodes[index]?).map LaidNode.emphasis

/-- Every line with the points it runs between. -/
def placedLines (layout : Layout) : List (Point × Point × LineKind) :=
  layout.lines.filterMap fun line => do
    let source ← layout.positions[line.source]?
    let target ← layout.positions[line.target]?
    return (source, target, line.kind)

end Layout

end Thesaurus

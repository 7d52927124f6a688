import Thesaurus.Layout.Basic

/-!
# A step of the layout

After the forces have moved the bodies, their positions are corrected in double precision by
three passes: lines, centering, collisions. The passes work on a copy of all positions; what they
compute for a held body is not written back.
-/

namespace Thesaurus.Layout

/-- A position that is being corrected. -/
structure Spot where
  /-- The horizontal coordinate. -/
  x : Float
  /-- The vertical coordinate. -/
  y : Float
  /-- Whether the body is held. -/
  anchored : Bool

/-- Move a spot. -/
def Spot.shift (spot : Spot) (dx dy : Float) : Spot :=
  { spot with x := spot.x + dx, y := spot.y + dy }

/-- How a correction is shared between two ends: held ends take nothing. -/
def shares : Bool → Bool → Float × Float
  | false, false => (0.5, 0.5)
  | false, true => (1, 0)
  | true, false => (0, 1)
  | true, true => (0, 0)

/-- The distance below which two spots count as one. -/
def tiny : Float := 1e-6

/-- Draw the ends of one line to the length of a relaxed line. -/
def relax (settings : LayoutSettings) (alpha : Float) (spots : Array Spot) (line : LaidLine) :
    Array Spot :=
  match spots[line.source]?, spots[line.target]? with
  | some source, some target =>
    let dx := target.x - source.x
    let dy := target.y - source.y
    let distance := Plane.length dx dy
    if distance < tiny then spots
    else
      let k := (distance - settings.linkDistance) / distance * alpha * 0.5
      let (first, second) := shares source.anchored target.anchored
      (spots.modify line.source (·.shift (dx * k * first) (dy * k * first))).modify line.target
        fun spot => { spot with x := spot.x - dx * k * second, y := spot.y - dy * k * second }
  | _, _ => spots

/-- Draw the whole towards a middle, and every spot towards the axes through it. -/
def centerSpots (settings : LayoutSettings) (alpha : Float) (middle : Point) (spots : Array Spot) :
    Array Spot :=
  let count := spots.size.toFloat
  let mean := spots.foldl
    (fun (mean : Point) spot => ⟨mean.x + spot.x / count, mean.y + spot.y / count⟩) {}
  let dx := (middle.x - mean.x) * settings.centerStrength
  let dy := (middle.y - mean.y) * settings.centerStrength
  let axis := settings.axisStrength * alpha
  spots.map fun spot =>
    if spot.anchored then spot
    else spot.shift (dx + (middle.x - spot.x) * axis) (dy + (middle.y - spot.y) * axis)

/-- Push two spots apart if they overlap. Two spots in one place part in a direction that depends
on their numbers. -/
def separate (settings : LayoutSettings) (spots : Array Spot) (i j : Nat) : Array Spot :=
  match spots[i]?, spots[j]? with
  | some a, some b =>
    let least := 2 * settings.collisionRadius
    let dx := b.x - a.x
    let dy := b.y - a.y
    let distance := Plane.length dx dy
    if least ≤ distance then spots
    else
      let angle := (i * 7 + j).toFloat
      let (dx, dy, distance) :=
        if distance < tiny then (angle.cos * 1e-3, angle.sin * 1e-3, 1e-3) else (dx, dy, distance)
      let push := (least - distance) / distance
      let (first, second) := shares a.anchored b.anchored
      (spots.modify i fun spot =>
          { spot with x := spot.x - dx * push * first, y := spot.y - dy * push * first }).modify j
        (·.shift (dx * push * second) (dy * push * second))
  | _, _ => spots

/-- Push all overlapping spots apart, pair by pair. -/
def separateAll (settings : LayoutSettings) (spots : Array Spot) : Array Spot :=
  (List.range spots.size).foldl
    (fun spots i => (List.range' (i + 1) (spots.size - (i + 1))).foldl
      (fun spots j => separate settings spots i j) spots)
    spots

/-- The positions of the bodies, to be corrected. -/
def spotsOf (nodes : List LaidNode) : Array Spot :=
  (nodes.map fun node =>
    ⟨node.body.x.toFloat, node.body.y.toFloat, node.body.anchored⟩).toArray

/-- All corrections of a step. -/
def correct (layout : Layout) (spots : Array Spot) : Array Spot :=
  let relaxed := layout.lines.foldl (relax layout.settings layout.alpha) spots
  separateAll layout.settings (centerSpots layout.settings layout.alpha layout.center relaxed)

/-- Write a corrected position back, unless the body is held. -/
def writeBack (node : LaidNode) (spot : Option Spot) : LaidNode :=
  match spot with
  | some spot =>
    if spot.anchored then node
    else { node with body := { node.body with x := spot.x.toFloat32, y := spot.y.toFloat32 } }
  | none => node

/-- The springs of the simulation, one for a line. -/
def springs (layout : Layout) : List Spring :=
  layout.lines.map fun line => ⟨line.source, line.target⟩

/-- The nodes after the forces have moved them. -/
def forced (forces : Forces) (layout : Layout) (dt : Float32) : List LaidNode :=
  List.zipWith (fun node body => { node with body }) layout.nodes
    (forces.advance layout.settings layout.springs dt (layout.nodes.map LaidNode.body))

/-- The farthest that a node has gone. -/
def farthest (before after : List Point) : Float :=
  let way (old new : Point) : Float := Plane.length (new.x - old.x) (new.y - old.y)
  (List.zipWith way before after).foldl Plane.larger 0

/-- The energy after a step: it goes to rest, or to the energy of a change while a node is held. -/
def cooled (layout : Layout) (movement : Float) : Float :=
  let held := !layout.pinned.isEmpty
  let goal := if held then layout.settings.reheatAlpha else 0
  let alpha := layout.alpha + (goal - layout.alpha) * layout.settings.alphaDecay
  if !held && (alpha < layout.settings.alphaMin || movement < layout.settings.motionEpsilon) then 0
  else alpha

/-- One step, if the layout has energy. -/
def step (forces : Forces) (layout : Layout) (dt : Float32) : Layout :=
  if !layout.isRunning then layout
  else
    let moved := layout.forced forces dt
    let spots := layout.correct (spotsOf moved)
    let nodes := moved.mapIdx fun index node => writeBack node spots[index]?
    let positions := bodyPoints nodes
    { layout with
      nodes
      positions
      alpha := layout.cooled (farthest layout.positions positions) }

/-- Up to a number of steps, while there is energy; the answer says how many were made. -/
def run (forces : Forces) (layout : Layout) (dt : Float32) : Nat → Nat × Layout
  | 0 => (0, layout)
  | count + 1 =>
    if layout.isRunning then
      let (made, last) := run forces (layout.step forces dt) dt count
      (made + 1, last)
    else (0, layout)

end Thesaurus.Layout

import Thesaurus.Canvas.Basic
import Thesaurus.Decimal.Shortest

/-!
# Drawing a canvas

What a canvas looks like, as the list of calls that draw it: the background, the lines with an
arrow on each that leads to a broader concept, and the nodes with their labels. Lines are drawn
where the layout keeps its nodes, nodes where the simulation has them.
-/

namespace Thesaurus

/-- One call to a drawing context. -/
inductive DrawCall where
  /-- Choose the color of areas. -/
  | fillStyle (style : String)
  /-- Choose the color of lines. -/
  | strokeStyle (style : String)
  /-- Choose the font. -/
  | font (font : String)
  /-- Choose the width of lines. -/
  | lineWidth (width : Float)
  /-- Choose the opacity. -/
  | globalAlpha (alpha : Float)
  /-- Choose the dashes of lines. -/
  | lineDash (lengths : List Float)
  /-- Fill a rectangle. -/
  | fillRect (x y width height : Float)
  /-- Keep the state of the context. -/
  | save
  /-- Go back to the state that was kept. -/
  | restore
  /-- Move all that follows. -/
  | translate (x y : Float)
  /-- Scale all that follows. -/
  | scale (x y : Float)
  /-- Begin a path. -/
  | beginPath
  /-- Close the path. -/
  | closePath
  /-- Go to a point. -/
  | moveTo (x y : Float)
  /-- Draw a line to a point. -/
  | lineTo (x y : Float)
  /-- Draw an arc. -/
  | arc (x y radius start finish : Float)
  /-- Draw the path as a line. -/
  | stroke
  /-- Fill the path. -/
  | fill
  /-- Write a text. -/
  | fillText (text : String) (x y : Float)

/-- The opacity of a node that stands out in some way, and the factor of its radius. -/
def Emphasis.look : Emphasis → Float × Float
  | normal => (1, 1)
  | selected => (1, 1.6)
  | neighbor => (1, 1.25)
  | hit => (1, 1.3)
  | dimmed => (0.2, 0.85)

namespace Canvas

/-- The calls that draw one line. A line without length is not drawn. -/
def drawLine (canvas : Canvas) (line : Point × Point × LineKind) : List DrawCall :=
  let (source, target, kind) := line
  let k := canvas.transform.k
  let radius := canvas.layout.settings.nodeRadius
  let arrow := 8 / k
  let dx := target.x - source.x
  let dy := target.y - source.y
  let distance := Plane.length dx dy
  if distance < 0.001 then []
  else
    let ux := dx / distance
    let uy := dy / distance
    let tipX := target.x - ux * radius
    let tipY := target.y - uy * radius
    let style := match kind with
      | .broader => [.strokeStyle "rgba(100, 180, 255, 0.6)", .lineDash []]
      | .related => [.strokeStyle "rgba(255, 200, 120, 0.45)", .lineDash [6 / k, 4 / k]]
    let shaft := [.lineWidth (1.5 / k), .beginPath,
      .moveTo (source.x + ux * radius) (source.y + uy * radius), .lineTo tipX tipY, .stroke]
    let backX := tipX - ux * arrow
    let backY := tipY - uy * arrow
    let px := -uy * arrow * 0.5
    let py := ux * arrow * 0.5
    let head := match kind with
      | .broader => [.lineDash [], .fillStyle "rgba(100, 180, 255, 0.8)", .beginPath,
          .moveTo tipX tipY, .lineTo (backX + px) (backY + py), .lineTo (backX - px) (backY - py),
          .closePath, .fill]
      | .related => []
    style ++ shaft ++ head

/-- The color of the ring around a node, if it has one. -/
def ring? (hovered : Option ConceptId) (node : LaidNode) : Option String :=
  match node.emphasis with
  | .selected => some "rgba(255, 255, 255, 0.9)"
  | .hit => some "rgba(255, 220, 80, 0.9)"
  | _ => if hovered = some node.id then some "rgba(255, 255, 255, 0.5)" else none

/-- The calls that draw one node. -/
def drawNode (canvas : Canvas) (node : LaidNode) : List DrawCall :=
  let k := canvas.transform.k
  let (alpha, factor) := node.emphasis.look
  let radius := canvas.layout.settings.nodeRadius * factor
  let place := node.body.point
  let disc := [.globalAlpha alpha, .beginPath, .arc place.x place.y radius 0 (2 * Plane.pi),
    .fillStyle node.color, .fill]
  let ring := match ring? canvas.hovered node with
    | some style => [.beginPath, .arc place.x place.y (radius + 2 / k) 0 (2 * Plane.pi),
        .strokeStyle style, .lineWidth (1.5 / k), .stroke]
    | none => []
  let label := [.fillStyle ("rgba(255, 255, 255, " ++ Decimal.text (alpha * 0.85) ++ ")"),
    .font (Decimal.text (10 / Plane.larger k 0.5) ++ "px sans-serif"),
    .fillText node.label (place.x + radius + 3) (place.y + 3), .globalAlpha 1]
  disc ++ ring ++ label

/-- All calls that draw a canvas. -/
def draw (canvas : Canvas) : List DrawCall :=
  let transform := canvas.transform
  [.fillStyle "#1a1a2e", .fillRect 0 0 canvas.layout.width canvas.layout.height, .save,
      .translate transform.x transform.y, .scale transform.k transform.k]
    ++ canvas.layout.placedLines.flatMap canvas.drawLine
    ++ [.lineDash []]
    ++ canvas.layout.nodes.flatMap canvas.drawNode
    ++ [.restore]

end Canvas

end Thesaurus

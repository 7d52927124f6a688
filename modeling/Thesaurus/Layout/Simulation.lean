import Thesaurus.Settings

/-!
# The force simulation

Forces move bodies that springs join, whatever the forces are. A layout is run with forces that
it is given. Those it is run with in practice let all bodies repel each other, and let springs pull
joined bodies together. All their arithmetic is in single precision. They go through the bodies in
order and move each one before they turn to the next, so later bodies see where earlier ones have
gone. An anchored body gathers the pull of its springs but never moves.
-/

namespace Thesaurus

/-- A body with its velocity and the acceleration gathered for the next move. -/
structure Body where
  /-- The horizontal position. -/
  x : Float32
  /-- The vertical position. -/
  y : Float32
  /-- The horizontal velocity. -/
  vx : Float32 := 0
  /-- The vertical velocity. -/
  vy : Float32 := 0
  /-- The horizontal acceleration. -/
  ax : Float32 := 0
  /-- The vertical acceleration. -/
  ay : Float32 := 0
  /-- Whether the body is held in its place. -/
  anchored : Bool := false

/-- A spring between two bodies, named by their places in the list. -/
structure Spring where
  /-- One end. -/
  source : Nat
  /-- The other end. -/
  target : Nat
deriving DecidableEq

/-- The forces that a layout is run with. -/
structure Forces where
  /-- The bodies after some time, given the springs in the order in which they were put. A spring
  may be put twice, or once each way. -/
  advance : LayoutSettings → List Spring → Float32 → List Body → List Body

namespace Simulation

/-- The mass of every body. -/
def mass : Float32 := 10

/-- A force in the plane. -/
structure Force where
  /-- The horizontal part. -/
  x : Float32
  /-- The vertical part. -/
  y : Float32

/-- The force on a body towards another one, of a strength that depends on their distance. Bodies
in one place count as one apart. -/
def force (strength : Float32 → Float32) (body other : Body) : Force :=
  let dx := other.x - body.x
  let dy := other.y - body.y
  let distance := if dx == 0 && dy == 0 then 1 else Float32.sqrt (dx * dx + dy * dy)
  let s := strength distance
  ⟨dx / distance * s, dy / distance * s⟩

/-- The force of a spring grows with the distance. -/
def pull (settings : LayoutSettings) : Body → Body → Force :=
  force fun distance => 1 * settings.spring * distance * 0.5

/-- The repelling force falls with the square of the distance. -/
def push (settings : LayoutSettings) : Body → Body → Force :=
  force fun distance => -settings.charge * (mass * mass / (distance * distance))

/-- The larger of two singles; a number is preferred to a value that is none. -/
def larger (a b : Float32) : Float32 :=
  if a.isNaN then b else if b.isNaN then a else if a < b then b else a

/-- The smaller of two singles; a number is preferred to a value that is none. -/
def smaller (a b : Float32) : Float32 :=
  if a.isNaN then b else if b.isNaN then a else if b < a then b else a

/-- A part of a force, cut off at the limit. -/
def limit (settings : LayoutSettings) (part : Float32) : Float32 :=
  smaller (larger part (-settings.forceMax)) settings.forceMax

/-- Let a force act on a body for some time. -/
def Force.accelerate (force : Force) (settings : LayoutSettings) (dt : Float32) (body : Body) :
    Body :=
  { body with
    ax := body.ax + limit settings force.x * dt
    ay := body.ay + limit settings force.y * dt }

/-- The force in the other direction. -/
def Force.reverse (force : Force) : Force := ⟨-force.x, -force.y⟩

/-- Let a force act on a body that is not anchored. -/
def Force.accelerateFree (force : Force) (settings : LayoutSettings) (dt : Float32) (body : Body) :
    Body :=
  if body.anchored then body else force.accelerate settings dt body

/-- Move a body that is not anchored by what it has gathered. -/
def move (settings : LayoutSettings) (dt : Float32) (body : Body) : Body :=
  if body.anchored then body
  else
    let vx := (body.vx + body.ax * dt * settings.nodeSpeed) * settings.damping
    let vy := (body.vy + body.ay * dt * settings.nodeSpeed) * settings.damping
    { body with x := body.x + vx * dt, y := body.y + vy * dt, vx, vy, ax := 0, ay := 0 }

/-- Add a spring, unless one joins the two bodies already. -/
def addSpring (springs : List Spring) (spring : Spring) : List Spring :=
  if springs.contains spring || springs.contains ⟨spring.target, spring.source⟩ then springs
  else springs ++ [spring]

/-- The bodies that springs join to a body: those it is the source for, then those it is the
target for, the newest first. -/
def joined (springs : List Spring) (index : Nat) : List Nat :=
  (springs.reverse.filter (·.source = index)).map Spring.target
    ++ (springs.reverse.filter (·.target = index)).map Spring.source

/-- Let a body and all bodies after it repel each other. -/
def repel (settings : LayoutSettings) (dt : Float32) (body : Body) :
    List Body → Body × List Body
  | [] => (body, [])
  | other :: rest =>
    let force := push settings body other
    let (body, rest) := repel settings dt (force.accelerateFree settings dt body) rest
    (body, force.reverse.accelerateFree settings dt other :: rest)

/-- Take the bodies in order, those already moved given in front. -/
def sweep (settings : LayoutSettings) (springs : List Spring) (dt : Float32) (moved : List Body) :
    List Body → Nat → List Body
  | _, 0 => moved
  | [], _ + 1 => moved
  | body :: rest, count + 1 =>
    let bodies := moved ++ body :: rest
    let pulled := (joined springs moved.length).foldl
      (fun current index =>
        match bodies[index]? with
        | some other => (pull settings body other).accelerate settings dt current
        | none => current) body
    let (pushed, others) := repel settings dt pulled rest
    sweep settings springs dt (moved ++ [move settings dt pushed]) others count

/-- Move every body once. -/
def advance (settings : LayoutSettings) (springs : List Spring) (dt : Float32)
    (bodies : List Body) : List Body :=
  sweep settings springs dt [] bodies bodies.length

/-- The forces of the simulation: two bodies are joined by one spring at most. -/
def forces : Forces where
  advance settings springs := advance settings (springs.foldl addSpring [])

end Simulation

end Thesaurus

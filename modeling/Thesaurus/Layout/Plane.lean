/-!
# The plane

Points of the plane and lengths in it, in double precision.
-/

namespace Thesaurus

/-- A point of the plane. -/
structure Point where
  /-- The horizontal coordinate. -/
  x : Float := 0
  /-- The vertical coordinate. -/
  y : Float := 0

namespace Plane

/-- The ratio of a circle to its diameter. -/
def pi : Float := 3.141592653589793

/-- The double that is larger than all numbers. -/
def infinity : Float := 1.0 / 0.0

/-- The larger of two doubles; a number is preferred to a value that is none. -/
def larger (a b : Float) : Float :=
  if a.isNaN then b else if b.isNaN then a else if a < b then b else a

/-- The length of a step, as the root of the sum of squares. -/
def length (dx dy : Float) : Float := Float.sqrt (dx * dx + dy * dy)

/-- The length of a step whose sides are neither too long nor too short to be squared, the longer
side first. The root of the sum of squares is corrected by what rounding took away from it. -/
def correctedLength (long short : Float) : Float :=
  let root := length long short
  if root ≤ 2 * short then
    let delta := root - short
    root - (long * (2 * delta - long) + (delta - 2 * (long - short)) * delta) / (2 * root)
  else
    let delta := root - long
    root - (2 * delta * (long - 2 * short) + ((4 * delta - short) * short + delta * delta))
      / (2 * root)

/-- The length of a step to the last bit. A step with an infinite side is infinite, whatever its
other side. A side of less than one part in 2^54 does not count, and sides that cannot be squared
are scaled by a power of two. -/
def hypotenuse (dx dy : Float) : Float :=
  if dx.isInf || dy.isInf then infinity else
  let long := if dx.abs < dy.abs then dy.abs else dx.abs
  let short := if dx.abs < dy.abs then dx.abs else dy.abs
  let up := 4.149515568880993e180
  let down := 2.409919865102884e-181
  if short ≤ long * 5.551115123125783e-17 then long + short
  else if 1e150 < long then correctedLength (long * down) (short * down) * up
  else if long < 1e-100 then correctedLength (long * up) (short * up) * down
  else correctedLength long short

end Plane

end Thesaurus

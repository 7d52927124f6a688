/-!
# Numerals

A numeral is kept as it is written: sign, whole digits, digits after the point and exponent.
What it stands for depends on who reads it. A whole numeral of at most 64 bits is an integer;
everything else is read as a double, by collecting as many digits as 64 bits hold and scaling
once by a power of ten. That rule is quick rather than exact: it may miss the nearest double by
a last bit, and it refuses a numeral beyond the largest double.
-/

namespace Thesaurus.Json

/-- A decimal digit. -/
abbrev Digit := Fin 10

/-- A number as it is written. -/
structure Numeral where
  /-- Whether a minus sign stands in front. -/
  negative : Bool := false
  /-- The digits before the point. -/
  whole : List Digit
  /-- The digits after the point; none where no point is written. -/
  fraction : List Digit := []
  /-- The exponent, where one is written: whether it is negative, and its digits. -/
  exponent : Option (Bool × List Digit) := none
deriving DecidableEq

/-- The number that digits name. -/
def digitsValue (digits : List Digit) : Nat :=
  digits.foldl (fun value digit => value * 10 + digit.val) 0

/-- The digits of a number, most significant first. -/
def digitsOf (value : Nat) : List Digit :=
  (Nat.toDigits 10 value).map fun c => Fin.ofNat 10 (c.toNat - '0'.toNat)

namespace Numeral

/-- The numeral of a number. -/
def ofNat (value : Nat) : Numeral := { whole := digitsOf value }

/-- The first number that does not fit into 64 bits. -/
def limit : Nat := UInt64.size

/-- Digits collected so far, and the power of ten that is still to be multiplied in. -/
structure Scaled where
  /-- The number of the digits collected. -/
  digits : Nat
  /-- The power of ten. -/
  power : Int

/-- Collect whole digits while they fit into 64 bits; each further one only raises the power. -/
def collectWhole (start : Nat) : List Digit → Scaled
  | [] => ⟨start, 0⟩
  | digit :: rest =>
    let next := start * 10 + digit.val
    if next < limit then collectWhole next rest
    else ⟨start, rest.length + 1⟩

/-- Collect digits after the point, each lowering the power, until one does not fit. -/
def collectFraction (start : Scaled) : List Digit → Scaled
  | [] => start
  | digit :: rest =>
    let next := start.digits * 10 + digit.val
    if next < limit then collectFraction ⟨next, start.power - 1⟩ rest
    else start

/-- The exponent as it is written, zero where none is. -/
def writtenPower (numeral : Numeral) : Int :=
  match numeral.exponent with
  | none => 0
  | some (true, digits) => -(digitsValue digits : Int)
  | some (false, digits) => (digitsValue digits : Int)

/-- The digits and power of ten by which the numeral is read. -/
def scaled (numeral : Numeral) : Scaled :=
  let collected := collectFraction (collectWhole 0 numeral.whole) numeral.fraction
  ⟨collected.digits, collected.power + numeral.writtenPower⟩

/-- A power of ten as a double, the exponent being at most 308. -/
def tenTo (power : Nat) : Float := Float.ofScientific 1 false power

/-- Scale a double by a power of ten, in steps of at most 308 decimal places. There is no answer
beyond the largest double. -/
def scale (value : Float) (power : Int) : Option Float :=
  if 308 < power.natAbs then
    if value == 0 then some value
    else if 0 ≤ power then none
    else scale (value / tenTo 308) (power + 308)
  else if 0 ≤ power then
    let product := value * tenTo power.natAbs
    if product.isInf then none else some product
  else some (value / tenTo power.natAbs)
termination_by power.natAbs
decreasing_by omega

/-- Whether the numeral is written without point and exponent. -/
def isWhole (numeral : Numeral) : Bool :=
  numeral.fraction.isEmpty && numeral.exponent.isNone

/-- The 64-bit number of a numeral without sign, point and exponent. -/
def unsigned? (numeral : Numeral) : Option Nat :=
  let value := digitsValue numeral.whole
  if numeral.isWhole && !numeral.negative && value < limit then some value else none

/-- The magnitude of a numeral below zero that a signed 64-bit number holds. -/
def negated? (numeral : Numeral) : Option Nat :=
  let value := digitsValue numeral.whole
  if numeral.isWhole && numeral.negative && 0 < value && value ≤ limit / 2 then some value else none

/-- The double that a numeral is read as; none beyond the largest double. -/
def double? (numeral : Numeral) : Option Float :=
  let parts := numeral.scaled
  (scale (UInt64.ofNat parts.digits).toFloat parts.power).map fun value =>
    if numeral.negative then -value else value

/-- The single that a numeral is read as. A 64-bit integer is rounded once, anything else by way
of a double. -/
def single? (numeral : Numeral) : Option Float32 :=
  match numeral.unsigned?, numeral.negated? with
  | some value, _ => some (UInt64.ofNat value).toFloat32
  | none, some value => some (-(UInt64.ofNat value).toFloat32)
  | none, none => numeral.double?.map Float.toFloat32

end Numeral

end Thesaurus.Json

/-!
# The shortest decimal of a double

A double stands for every real number that rounds to it. Its shortest decimal is the one with the
fewest digits among these, and of those with equally few the nearest; an exact tie goes up. All
comparisons are made on natural numbers, so nothing is lost on the way.
-/

namespace Thesaurus.Decimal

/-- A positive finite double as a number of units, together with what rounds to it. A unit is a
quarter of the last bit, `numerator / denominator`. -/
structure Exact where
  /-- The double in units. -/
  value : Nat
  /-- The smallest number of units that may round to it. -/
  low : Nat
  /-- The largest number of units that may round to it. -/
  high : Nat
  /-- Whether `low` and `high` themselves round to it. -/
  closed : Bool
  /-- The upper part of a unit. -/
  numerator : Nat
  /-- The lower part of a unit. -/
  denominator : Nat

/-- The parts of a positive finite double. -/
def Exact.ofFloat (x : Float) : Exact :=
  let bits := x.toBits.toNat
  let fraction := bits % Nat.pow 2 52
  let exponent := bits / Nat.pow 2 52 % Nat.pow 2 11
  let mantissa := if exponent = 0 then fraction else fraction + Nat.pow 2 52
  let power : Int := (Nat.max exponent 1 : Int) - 1075 - 2
  { value := 4 * mantissa
    low := 4 * mantissa - (if fraction = 0 ∧ 1 < exponent then 1 else 2)
    high := 4 * mantissa + 2
    closed := mantissa % 2 == 0
    numerator := if 0 ≤ power then Nat.pow 2 power.toNat else 1
    denominator := if 0 ≤ power then 1 else Nat.pow 2 (-power).toNat }

/-- A decimal: digits times a power of ten. -/
structure Digits where
  /-- The number of the digits. -/
  digits : Nat
  /-- The power of ten. -/
  power : Int
deriving DecidableEq

/-- A number of units, on a scale where a step of the decimal grid is `grid` long. -/
structure Scale where
  /-- The length of a unit. -/
  unit : Nat
  /-- The length of a step of the grid. -/
  grid : Nat

/-- The common scale of units and of the grid of a power of ten. -/
def Exact.scale (exact : Exact) (power : Int) : Scale :=
  if 0 ≤ power then ⟨exact.numerator, exact.denominator * Nat.pow 10 power.toNat⟩
  else ⟨exact.numerator * Nat.pow 10 (-power).toNat, exact.denominator⟩

/-- Whether a point of the grid rounds to the double. -/
def Exact.readsBack (exact : Exact) (scale : Scale) (digits : Nat) : Bool :=
  let point := digits * scale.grid
  if exact.closed then exact.low * scale.unit ≤ point && point ≤ exact.high * scale.unit
  else exact.low * scale.unit < point && point < exact.high * scale.unit

/-- The point of the grid of a power of ten that stands for the double, if one reads back. -/
def Exact.onGrid? (exact : Exact) (power : Int) : Option Digits :=
  let scale := exact.scale power
  let below := exact.value * scale.unit / scale.grid
  let surplus := exact.value * scale.unit - below * scale.grid
  let upper := exact.readsBack scale (below + 1)
  let lower := exact.readsBack scale below
  if lower && (!upper || 2 * surplus < scale.grid) then some ⟨below, power⟩
  else if upper then some ⟨below + 1, power⟩
  else none

/-- The power of ten of the leading digit: the digits before the point are counted, and where
there are none the zeros behind it. -/
def Exact.leading (exact : Exact) : Int :=
  let upper := exact.value * exact.numerator
  let whole := upper / exact.denominator
  if 0 < whole then ((Nat.toDigits 10 whole).length : Int) - 1
  else
    let zeros := (List.range 330).find? fun (count : Nat) =>
      exact.denominator ≤ upper * Nat.pow 10 (count + 1)
    (-1 : Int) - (zeros.getD 330 : Nat)

/-- The same decimal without a last digit of zero, which a carry leaves behind. -/
def Digits.withoutZero (decimal : Digits) : Digits :=
  if decimal.digits % 10 = 0 then ⟨decimal.digits / 10, decimal.power + 1⟩ else decimal

/-- The shortest decimal of a positive finite double. -/
def shortest (x : Float) : Digits :=
  let exact := Exact.ofFloat x
  let leading := exact.leading
  (((List.range 17).findSome? fun (count : Nat) => exact.onGrid? (leading - (count : Int))).getD
    ⟨0, 0⟩).withoutZero

/-- A decimal in digits, without an exponent and without a needless point. -/
def Digits.positional (decimal : Digits) : List Char :=
  let digits := Nat.toDigits 10 decimal.digits
  if 0 ≤ decimal.power then digits ++ List.replicate decimal.power.toNat '0'
  else
    let places := (-decimal.power).toNat
    let padded := List.replicate (places + 1 - digits.length) '0' ++ digits
    padded.take (padded.length - places) ++ '.' :: padded.drop (padded.length - places)

/-- The text of a double: its shortest decimal, never with an exponent. -/
def text (x : Float) : String :=
  if x.isNaN then "NaN"
  else
    let sign := if UInt64.size / 2 ≤ x.toBits.toNat then "-" else ""
    if x.isInf then sign ++ "inf"
    else if x == 0 then sign ++ "0"
    else sign ++ String.ofList (shortest x.abs).positional

end Thesaurus.Decimal

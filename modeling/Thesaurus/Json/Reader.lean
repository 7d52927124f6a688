import Thesaurus.Json.Quoted
import Thesaurus.Json.Value

/-!
# Reading JSON

The reader takes the strict grammar: no comments, no trailing commas, no leading zeros, no raw
control characters in strings, and nothing but blanks after the value. It goes down one character
at least with every second call, so twice the length of the text bounds it.
-/

namespace Thesaurus.Json

/-- Space, tab, line feed and carriage return may stand between tokens. -/
def isBlank (c : Char) : Bool :=
  c == ' ' || c == '\t' || c == '\n' || c == '\r'

/-- What follows the blanks. -/
def skipBlanks (chars : List Char) : List Char := chars.dropWhile isBlank

/-- The value of a decimal digit. -/
def digit? (c : Char) : Option Digit :=
  if '0'.toNat ≤ c.toNat then
    let value := c.toNat - '0'.toNat
    if small : value < 10 then some ⟨value, small⟩ else none
  else none

/-- The digits that stand in front, and what follows them. -/
def readDigits : List Char → List Digit × List Char
  | [] => ([], [])
  | c :: rest =>
    match digit? c with
    | some digit =>
      let (more, after) := readDigits rest
      (digit :: more, after)
    | none => ([], c :: rest)

/-- Digits of which there must be one. -/
def readSomeDigits (chars : List Char) : Option (List Digit × List Char) :=
  match readDigits chars with
  | ([], _) => none
  | found => some found

/-- The digits before the point: a single zero, or digits of which the first is not zero. -/
def readWhole (chars : List Char) : Option (List Digit × List Char) :=
  match readDigits chars with
  | ([], _) => none
  | (first :: second :: more, after) =>
    if first.val = 0 then none else some (first :: second :: more, after)
  | ([digit], after) => some ([digit], after)

/-- A point and the digits after it, if there is a point. -/
def readFraction : List Char → Option (List Digit × List Char)
  | '.' :: rest => readSomeDigits rest
  | rest => some ([], rest)

/-- The sign of an exponent: whether it is a minus. -/
def readExponentSign : List Char → Bool × List Char
  | '+' :: rest => (false, rest)
  | '-' :: rest => (true, rest)
  | rest => (false, rest)

/-- An exponent, if its letter is there. -/
def readExponent : List Char → Option (Option (Bool × List Digit) × List Char)
  | [] => some (none, [])
  | c :: rest =>
    if c = 'e' ∨ c = 'E' then do
      let (negative, rest) := readExponentSign rest
      let (digits, after) ← readSomeDigits rest
      return (some (negative, digits), after)
    else some (none, c :: rest)

/-- A number without its sign. -/
def readUnsigned (negative : Bool) (chars : List Char) : Option (Numeral × List Char) := do
  let (whole, rest) ← readWhole chars
  let (fraction, rest) ← readFraction rest
  let (exponent, rest) ← readExponent rest
  return (⟨negative, whole, fraction, exponent⟩, rest)

/-- A number. -/
def readNumeral : List Char → Option (Numeral × List Char)
  | '-' :: rest => readUnsigned true rest
  | rest => readUnsigned false rest

/-- A string after its opening quote. -/
def readText (chars : List Char) : Option (Option String × List Char) :=
  (Quoted.pieces? chars).map fun (pieces, after) =>
    ((Quoted.join pieces).map String.ofList, after)

/-- The rest of a word that must follow. -/
def readWord (word : List Char) (value : Value) (chars : List Char) : Option (Value × List Char) :=
  if word.isPrefixOf chars then some (value, chars.drop word.length) else none

mutual

/-- A value, blanks in front allowed. -/
def readValue : Nat → List Char → Option (Value × List Char)
  | 0, _ => none
  | fuel + 1, chars =>
    match skipBlanks chars with
    | [] => none
    | '"' :: rest => (readText rest).map fun (content, after) => (.text content, after)
    | '[' :: rest =>
      match skipBlanks rest with
      | ']' :: after => some (.array [], after)
      | rest => (readItems fuel rest).map fun (items, after) => (.array items, after)
    | '\x7b' :: rest =>
      match skipBlanks rest with
      | '\x7d' :: after => some (.object [], after)
      | rest => (readMembers fuel rest).map fun (members, after) => (.object members, after)
    | 'n' :: rest => readWord ['u', 'l', 'l'] .null rest
    | 't' :: rest => readWord ['r', 'u', 'e'] (.bool true) rest
    | 'f' :: rest => readWord ['a', 'l', 's', 'e'] (.bool false) rest
    | c :: rest => (readNumeral (c :: rest)).map fun (numeral, after) => (.number numeral, after)

/-- The items of an array up to its bracket, at least one. -/
def readItems : Nat → List Char → Option (List Value × List Char)
  | 0, _ => none
  | fuel + 1, chars => do
    let (item, rest) ← readValue fuel chars
    match skipBlanks rest with
    | ',' :: rest =>
      let (more, after) ← readItems fuel rest
      return (item :: more, after)
    | ']' :: after => return ([item], after)
    | _ => none

/-- The members of an object up to its brace, at least one. -/
def readMembers : Nat → List Char → Option (List (Option String × Value) × List Char)
  | 0, _ => none
  | fuel + 1, chars =>
    match skipBlanks chars with
    | '"' :: rest => do
      let (key, rest) ← readText rest
      match skipBlanks rest with
      | ':' :: rest =>
        let (value, rest) ← readValue fuel rest
        match skipBlanks rest with
        | ',' :: rest =>
          let (more, after) ← readMembers fuel rest
          return ((key, value) :: more, after)
        | '\x7d' :: after => return ([(key, value)], after)
        | _ => none
      | _ => none
    | _ => none

end

/-- The value that a whole text stands for. -/
def read? (text : String) : Option Value := do
  let chars := text.toList
  let (value, rest) ← readValue (2 * chars.length + 2) chars
  if (skipBlanks rest).isEmpty then some value else none

end Thesaurus.Json

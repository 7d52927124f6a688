import Thesaurus.Json.Quoted
import Thesaurus.Json.Value

/-!
# Writing JSON

A value is written without blanks. It is written character by character in front of what follows
it, so nothing is copied on the way; `Value.render` hands the whole over as a text.
-/

namespace Thesaurus.Json

/-- A digit as a character. -/
def Digit.toChar (digit : Digit) : Char := Char.ofNat ('0'.toNat + digit.val)

/-- The written form of digits. -/
def writeDigits (digits : List Digit) : List Char := digits.map Digit.toChar

namespace Numeral

/-- The point and the digits after it. -/
def writeFraction (numeral : Numeral) : List Char :=
  if numeral.fraction.isEmpty then [] else '.' :: writeDigits numeral.fraction

/-- The exponent with its letter. -/
def writeExponent (numeral : Numeral) : List Char :=
  match numeral.exponent with
  | none => []
  | some (negative, digits) => 'e' :: (if negative then ['-'] else []) ++ writeDigits digits

/-- The written form of a number. -/
def write (numeral : Numeral) : List Char :=
  (if numeral.negative then ['-'] else []) ++ writeDigits numeral.whole ++
    numeral.writeFraction ++ numeral.writeExponent

end Numeral

/-- Write a string in front of what follows it. One without text is written as half of a pair. -/
def writeText (content : Option String) (rest : List Char) : List Char :=
  match content with
  | some text => '"' :: (Quoted.encode text.toList ++ '"' :: rest)
  | none => '"' :: '\\' :: 'u' :: 'd' :: '8' :: '0' :: '0' :: '"' :: rest

mutual

/-- Write a value in front of what follows it. -/
def Value.write (value : Value) (rest : List Char) : List Char :=
  match value with
  | .null => 'n' :: 'u' :: 'l' :: 'l' :: rest
  | .bool true => 't' :: 'r' :: 'u' :: 'e' :: rest
  | .bool false => 'f' :: 'a' :: 'l' :: 's' :: 'e' :: rest
  | .number numeral => numeral.write ++ rest
  | .text content => writeText content rest
  | .array items => '[' :: writeItems items (']' :: rest)
  | .object members => '\x7b' :: writeMembers members ('\x7d' :: rest)

/-- Write items, with commas between them, in front of what follows them. -/
def writeItems (items : List Value) (rest : List Char) : List Char :=
  match items with
  | [] => rest
  | [item] => item.write rest
  | item :: next :: more => item.write (',' :: writeItems (next :: more) rest)

/-- Write members, with commas between them, in front of what follows them. -/
def writeMembers (members : List (Option String × Value)) (rest : List Char) : List Char :=
  match members with
  | [] => rest
  | [(key, value)] => writeText key (':' :: value.write rest)
  | (key, value) :: next :: more =>
    writeText key (':' :: value.write (',' :: writeMembers (next :: more) rest))

end

/-- The written form as a text. -/
def Value.render (value : Value) : String := String.ofList (value.write [])

end Thesaurus.Json

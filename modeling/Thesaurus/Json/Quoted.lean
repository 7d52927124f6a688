/-!
# Quoted text

How a text stands between quotes. A piece of a quoted text is a plain character or a 16-bit unit
written by number; two units in a row may be the halves of one character. `Quoted.pieces?` reads
the pieces, `Quoted.join` says which characters they stand for, and `Quoted.encode` writes a text
so that only quotes, backslashes and control characters are escaped, by a short escape if there is
one.
-/

namespace Thesaurus.Json.Quoted

/-- One written element of a quoted text. -/
inductive Piece where
  /-- A character for itself, or by its short escape. -/
  | char (c : Char)
  /-- A 16-bit unit by its four hexadecimal digits. -/
  | unit (value : Nat)
deriving DecidableEq

/-- The value of a hexadecimal digit of either case. -/
def hexDigit? (c : Char) : Option Nat :=
  if '0' ≤ c ∧ c ≤ '9' then some (c.toNat - '0'.toNat)
  else if 'a' ≤ c ∧ c ≤ 'f' then some (c.toNat - 'a'.toNat + 10)
  else if 'A' ≤ c ∧ c ≤ 'F' then some (c.toNat - 'A'.toNat + 10)
  else none

/-- The unit that four hexadecimal digits name. -/
def unit? (a b c d : Char) : Option Nat := do
  let a ← hexDigit? a
  let b ← hexDigit? b
  let c ← hexDigit? c
  let d ← hexDigit? d
  return ((a * 16 + b) * 16 + c) * 16 + d

/-- The character of a short escape. -/
def shortEscape? (c : Char) : Option Char :=
  if c = '"' then some '"'
  else if c = '\\' then some '\\'
  else if c = '/' then some '/'
  else if c = 'b' then some '\x08'
  else if c = 'f' then some '\x0c'
  else if c = 'n' then some '\n'
  else if c = 'r' then some '\r'
  else if c = 't' then some '\t'
  else none

/-- The pieces up to the closing quote, and what follows it. Control characters must be escaped. -/
def pieces? : List Char → Option (List Piece × List Char)
  | [] => none
  | '"' :: rest => some ([], rest)
  | '\\' :: 'u' :: a :: b :: c :: d :: rest => do
    let value ← unit? a b c d
    let (more, after) ← pieces? rest
    return (.unit value :: more, after)
  | '\\' :: c :: rest => do
    let plain ← shortEscape? c
    let (more, after) ← pieces? rest
    return (.char plain :: more, after)
  | c :: rest => do
    if c < ' ' then none
    else
      let (more, after) ← pieces? rest
      return (.char c :: more, after)

/-- Whether a unit is the first half of a pair. -/
def isHigh (value : Nat) : Bool := 0xD800 ≤ value && value < 0xDC00

/-- Whether a unit is the second half of a pair. -/
def isLow (value : Nat) : Bool := 0xDC00 ≤ value && value < 0xE000

/-- The character that two halves name. -/
def paired (high low : Nat) : Char :=
  Char.ofNat (0x10000 + (high - 0xD800) * 0x400 + (low - 0xDC00))

/-- The characters that pieces stand for; none if half of a pair is missing. -/
def join : List Piece → Option (List Char)
  | [] => some []
  | .char c :: rest => (join rest).map (c :: ·)
  | .unit high :: .unit low :: rest =>
    if isHigh high then
      if isLow low then (join rest).map (paired high low :: ·) else none
    else if isLow high then none
    else (join (.unit low :: rest)).map (Char.ofNat high :: ·)
  | .unit value :: rest =>
    if isHigh value || isLow value then none
    else (join rest).map (Char.ofNat value :: ·)

/-- A hexadecimal digit. -/
def hexChar (value : Nat) : Char :=
  if value < 10 then Char.ofNat ('0'.toNat + value) else Char.ofNat ('a'.toNat + value - 10)

/-- The characters that are written by a short escape, with its letter. -/
def shortLetters : List (Char × Char) :=
  [('"', '"'), ('\\', '\\'), ('\x08', 'b'), ('\x0c', 'f'), ('\n', 'n'), ('\r', 'r'), ('\t', 't')]

/-- A character as it is written between quotes. -/
def encodeChar (c : Char) : List Char :=
  match shortLetters.lookup c with
  | some letter => ['\\', letter]
  | none =>
    if c < ' ' then ['\\', 'u', '0', '0', hexChar (c.toNat / 16), hexChar (c.toNat % 16)]
    else [c]

/-- A text as it is written between quotes. -/
def encode (text : List Char) : List Char := text.flatMap encodeChar

end Thesaurus.Json.Quoted

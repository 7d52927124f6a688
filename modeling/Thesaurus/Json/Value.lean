import Thesaurus.Json.Numeral

/-!
# JSON values

A value keeps what its text says, no more and no less: members stay in order and may repeat a
key, and numbers stay numerals. A string whose escapes name only half of a surrogate pair stands
for no text; such a string is well formed, and it is refused only where its text is wanted.
-/

namespace Thesaurus.Json

/-- A JSON value. -/
inductive Value where
  /-- The word null. -/
  | null
  /-- A truth value. -/
  | bool (value : Bool)
  /-- A number as written. -/
  | number (numeral : Numeral)
  /-- A string; none where its escapes name no text. -/
  | text (content : Option String)
  /-- An array. -/
  | array (items : List Value)
  /-- An object with its members in order. -/
  | object (members : List (Option String × Value))

namespace Value

/-- A string value. -/
def ofText (content : String) : Value := .text (some content)

/-- A whole number. -/
def ofNat (value : Nat) : Value := .number (Numeral.ofNat value)

/-- An array of strings. -/
def ofTexts (contents : List String) : Value := .array (contents.map ofText)

/-- A value that may be absent. -/
def ofOption (content : Option Value) : Value := content.getD .null

/-- An object with given keys. -/
def ofMembers (members : List (String × Value)) : Value :=
  .object (members.map fun member => (some member.1, member.2))

/-- The text of a string. -/
def text? : Value → Option String
  | .text content => content
  | _ => none

/-- The truth value. -/
def bool? : Value → Option Bool
  | .bool value => some value
  | _ => none

/-- The numeral of a number. -/
def numeral? : Value → Option Numeral
  | .number numeral => some numeral
  | _ => none

/-- The items of an array. -/
def items? : Value → Option (List Value)
  | .array items => some items
  | _ => none

/-- The texts of an array of strings. -/
def texts? (value : Value) : Option (List String) :=
  value.items?.bind fun items => items.mapM text?

/-- Null as no text, a string as its text. -/
def optionalText? : Value → Option (Option String)
  | .null => some none
  | .text (some content) => some (some content)
  | _ => none

end Value

end Thesaurus.Json

import Thesaurus.Json.Value

/-!
# Reading structures

A structure is written as an object with its fields as members, or as an array of its fields in
order. An object may have other members besides, but a field only once; an array may end early.
-/

namespace Thesaurus.Json

/-- The fields that a value gives, with their names. -/
abbrev Fields := List (String × Value)

/-- The fields of a structure with known names. -/
def Value.fields? (names : List String) : Value → Option Fields
  | .object members => do
    let given ← members.mapM fun member => member.1.map (·, member.2)
    if names.all fun name => given.countP (·.1 == name) ≤ 1 then some given else none
  | .array items => if items.length ≤ names.length then some (names.zip items) else none
  | _ => none

namespace Fields

/-- A field that must be given. -/
def required {α : Type} (fields : Fields) (name : String) (read : Value → Option α) : Option α :=
  (fields.lookup name).bind read

/-- A field with a value to stand in where it is not given. -/
def optional {α : Type} (fields : Fields) (name : String) (missing : α)
    (read : Value → Option α) : Option α :=
  match fields.lookup name with
  | some value => read value
  | none => some missing

end Fields

end Thesaurus.Json

import Thesaurus.Concept

/-!
# Paths of occurrences

A path names one place of a concept in the tree: the ids from a root down to the concept, joined
by `/`. Ids are opaque, so inside a segment `/` is written `%2F` and `%` is written `%25`. A
segment is read leniently: `%2f` is also a separator, and a `%` that begins neither form stands
for itself.
-/

namespace Thesaurus

/-- The text of a path. -/
abbrev PathText := String

namespace Path

/-- The character between two segments. -/
def separator : Char := '/'

/-- The character that begins a written separator or a written escape. -/
def escape : Char := '%'

/-- An id as a segment, character by character. -/
def encodeChars : List Char → List Char
  | [] => []
  | c :: rest =>
    if c = separator then '%' :: '2' :: 'F' :: encodeChars rest
    else if c = escape then '%' :: '2' :: '5' :: encodeChars rest
    else c :: encodeChars rest

/-- A segment as an id, character by character. -/
def decodeChars : List Char → List Char
  | '%' :: '2' :: 'F' :: rest => separator :: decodeChars rest
  | '%' :: '2' :: 'f' :: rest => separator :: decodeChars rest
  | '%' :: '2' :: '5' :: rest => escape :: decodeChars rest
  | c :: rest => c :: decodeChars rest
  | [] => []

/-- The segments of a path; an empty path is one empty segment. -/
def segments : List Char → List (List Char)
  | [] => [[]]
  | c :: rest =>
    if c = separator then [] :: segments rest
    else match segments rest with
      | [] => [[c]]
      | first :: others => (c :: first) :: others

/-- An id as one segment. -/
def encode (id : ConceptId) : String := String.ofList (encodeChars id.toList)

/-- A segment as an id. -/
def decode (segment : String) : ConceptId := String.ofList (decodeChars segment.toList)

/-- The path of a root. -/
def root (id : ConceptId) : PathText := encode id

/-- A path with one more segment. -/
def join (above : PathText) (segment : String) : PathText :=
  above ++ String.singleton separator ++ segment

/-- The path of a concept directly below another path. -/
def child (above : PathText) (id : ConceptId) : PathText := join above (encode id)

/-- The path of a concept below a path, or as a root where there is none. -/
def extend (above : Option PathText) (id : ConceptId) : PathText :=
  match above with
  | some path => child path id
  | none => root id

/-- The ids along a path, root first. -/
def ids (path : PathText) : List ConceptId :=
  (segments path.toList).map fun segment => String.ofList (decodeChars segment)

/-- A path and what it becomes segment by segment, the whole left out. -/
def partsBefore (above : PathText) : List String → List PathText
  | [] => []
  | segment :: rest => above :: partsBefore (join above segment) rest

/-- Every proper part of a path that ends before a separator, shortest first. -/
def ancestors (path : PathText) : List PathText :=
  match (segments path.toList).map String.ofList with
  | [] => []
  | first :: rest => partsBefore first rest

/-- What stands before the last separator and what stands after it; none where there is none. -/
def cutLast? : List Char → Option (List Char × List Char)
  | [] => none
  | c :: rest =>
    match cutLast? rest with
    | some (before, after) => some (c :: before, after)
    | none => if c = separator then some ([], rest) else none

/-- The path without its last segment; none for a root. -/
def parent? (path : PathText) : Option PathText :=
  (cutLast? path.toList).map fun (above, _) => String.ofList above

/-- The id in the last segment but one; none for a root. -/
def parentId? (path : PathText) : Option ConceptId :=
  (cutLast? path.toList).map fun (above, _) =>
    let segment := (cutLast? above).elim above Prod.snd
    String.ofList (decodeChars segment)

end Path

end Thesaurus

import Thesaurus.Descendants
import Thesaurus.Path

/-!
# Moving concepts by dragging

A drag takes hold of one occurrence of a concept and ends on a place: another concept, or the top
of the tree. Whether the place accepts the drop is judged against a graph and its index of
descendants at that moment. A drop changes no graph; it only amounts to a change to be asked of
the repository. The parent on the dragged path is read from the path once, when the drag starts.
-/

namespace Thesaurus

/-- Where a drag is released. -/
inductive DropPlace where
  /-- The top of the tree. -/
  | top
  /-- Some occurrence of a concept. -/
  | concept (id : ConceptId)
deriving DecidableEq

/-- What becomes of the parent on the dragged path. -/
inductive DropKind where
  /-- The concept dropped on takes its place. -/
  | move
  /-- It stays, and the concept dropped on comes besides. -/
  | add
deriving DecidableEq

/-- With the modifier key held a drop adds, else it moves. -/
def DropKind.ofModifier (held : Bool) : DropKind := if held then .add else .move

/-- Whether a place accepts a drop, and why not. -/
inductive Verdict where
  /-- It does. -/
  | accepted
  /-- Nothing is dragged. -/
  | idle
  /-- The concept dropped on is not in the graph. -/
  | unknownPlace
  /-- The dragged concept is no longer in the graph. -/
  | lostConcept
  /-- The concept is dropped on itself. -/
  | itself
  /-- The concept is dropped on the parent on the dragged path. -/
  | sameParent
  /-- The concept dropped on is below the dragged one, so the drop would close a cycle. -/
  | below
  /-- A root is dropped on the top of the tree. -/
  | alreadyTop
deriving DecidableEq

/-- A drag in progress. -/
structure Grip where
  /-- The concept that is dragged. -/
  concept : ConceptId
  /-- The path of the occurrence that is dragged. -/
  path : PathText
  /-- The parent on that path; none for a root. -/
  parent : Option ConceptId
  /-- The place hovered last, if it accepted the drop. -/
  place : Option DropPlace := none
  /-- Whether the modifier key was held at the last hover. -/
  modifier : Bool := false
deriving DecidableEq

/-- What the end of a drag amounts to. -/
inductive DropResult where
  /-- A change is to be asked of the repository. -/
  | wanted (change : ParentChange)
  /-- The drop is accepted and changes nothing. -/
  | unchanged
  /-- The place does not accept the drop. -/
  | refused (verdict : Verdict)
  /-- Nothing was dragged, or there is no place. -/
  | cancelled
deriving DecidableEq

namespace Grip

/-- Take hold of an occurrence. -/
def start (concept : ConceptId) (path : PathText) : Grip :=
  { concept, path, parent := Path.parentId? path }

/-- Whether a place accepts the drop of what is dragged. -/
def verdict (grip : Grip) (graph : ConceptGraph) (index : Descendants) : DropPlace → Verdict
  | .top =>
    if !graph.contains grip.concept then .lostConcept
    else if grip.parent = none then .alreadyTop
    else .accepted
  | .concept id =>
    if !graph.contains grip.concept then .lostConcept
    else if !graph.contains id then .unknownPlace
    else if id = grip.concept then .itself
    else if grip.parent = some id then .sameParent
    else if index.isBelow grip.concept id then .below
    else .accepted

/-- Hover over a place, which is kept only if it accepts the drop. -/
def hover (grip : Grip) (graph : ConceptGraph) (index : Descendants) (place : DropPlace)
    (modifier : Bool) : Grip :=
  { grip with
    modifier
    place := if grip.verdict graph index place = .accepted then some place else none }

end Grip

namespace DropPlace

/-- The broader concept that a place stands for. -/
def broader : DropPlace → Option ConceptId
  | top => none
  | concept id => some id

/-- Whether a concept is there already: it has the place for a parent, or it is to be added to
the top of the tree. -/
def holds (graph : ConceptGraph) (moved : ConceptId) (kind : DropKind) : DropPlace → Bool
  | top => kind = .add
  | concept id => (graph.parentsOf moved).contains id

end DropPlace

/-- What the drop on a place amounts to, if there is a place. -/
def Grip.dropOn (grip : Grip) (graph : ConceptGraph) (index : Descendants)
    (place : Option DropPlace) (modifier : Bool) : DropResult :=
  match place with
  | none => .cancelled
  | some place =>
    let verdict := grip.verdict graph index place
    let kind := DropKind.ofModifier modifier
    if verdict ≠ .accepted then .refused verdict
    else if place.holds graph grip.concept kind then .unchanged
    else .wanted
      { concept := grip.concept
        added := place.broader
        removed := if kind = .move then grip.parent else none }

/-- The one drag that may be in progress. -/
abbrev Drag := Option Grip

namespace Drag

/-- Whether a place would accept a drop now. -/
def verdict (drag : Drag) (graph : ConceptGraph) (index : Descendants) (place : DropPlace) :
    Verdict :=
  match drag with
  | none => .idle
  | some grip => grip.verdict graph index place

/-- Hover over a place with what is dragged, if anything is. -/
def hover (drag : Drag) (graph : ConceptGraph) (index : Descendants) (place : DropPlace)
    (modifier : Bool) : Drag :=
  drag.map (·.hover graph index place modifier)

/-- Release the drag: what it amounts to, and the drag that is left. None is, whatever comes of
it. -/
def release (drag : Drag) (graph : ConceptGraph) (index : Descendants) (place : Option DropPlace)
    (modifier : Bool) : DropResult × Drag :=
  match drag with
  | none => (.cancelled, none)
  | some grip => (grip.dropOn graph index place modifier, none)

/-- After a release nothing is dragged. -/
theorem release_snd (drag : Drag) (graph : ConceptGraph) (index : Descendants)
    (place : Option DropPlace) (modifier : Bool) :
    (drag.release graph index place modifier).2 = none := by
  cases drag <;> rfl

end Drag

end Thesaurus

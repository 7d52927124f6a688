import Thesaurus.Concept

/-!
# Failures

What may go wrong between an editor and its repository, and the sentence that tells it.
-/

namespace Thesaurus

/-- Why a repository did not do what it was asked. -/
inductive RequestError where
  /-- A concept is in no scheme, or not in the scheme of the other one. -/
  | unknownConcept (id : ConceptId)
  /-- The parent to be added is the concept itself or below it. -/
  | closesCycle (concept parent : ConceptId)
  /-- The request was refused. -/
  | rejected (reason : String)
  /-- The repository could not be reached. -/
  | unavailable (reason : String)
  /-- The change was made, but fetching the scheme again failed. -/
  | savedUnseen (cause : RequestError)
deriving DecidableEq

namespace RequestError

/-- The sentence that tells the error. -/
def message : RequestError → String
  | unknownConcept id => "concept " ++ id ++ " does not exist"
  | closesCycle concept parent =>
    "making " ++ parent ++ " a parent of " ++ concept ++ " would create a cycle"
  | rejected reason => reason
  | unavailable reason => "repository unavailable: " ++ reason
  | savedUnseen cause => "change saved, but reloading the scheme failed: " ++ cause.message

/-- Whether the change was made all the same. -/
def saved : RequestError → Bool
  | savedUnseen _ => true
  | _ => false

end RequestError

/-- Why a session did not do what it was asked. -/
inductive SessionError where
  /-- A change of the concept has not been answered yet. -/
  | underWay (id : ConceptId)
  /-- The repository failed. -/
  | request (cause : RequestError)
deriving DecidableEq

/-- The sentence that tells the error. -/
def SessionError.message : SessionError → String
  | underWay id => "a reparent of " ++ id ++ " is still in flight"
  | request cause => cause.message

end Thesaurus

/-!
# Concepts and their links

A thesaurus holds concepts. A concept has a preferred label, further labels and perhaps a
definition. A broader link puts one concept below another, a related link joins two concepts
without an order. A record is how a repository stores a concept together with its links.
-/

namespace Thesaurus

/-- Ids are opaque: any text names a concept. -/
abbrev ConceptId := String

/-- What a thesaurus says about one concept, its links apart. -/
structure Concept where
  /-- The name of the concept within its scheme. -/
  id : ConceptId
  /-- The preferred label. -/
  label : String
  /-- The alternative labels, in the order given. -/
  altLabels : List String
  /-- The scope note, where there is one. -/
  definition : Option String
deriving DecidableEq

/-- One concept is narrower than another. -/
structure BroaderLink where
  /-- The narrower concept. -/
  child : ConceptId
  /-- The broader concept. -/
  parent : ConceptId
deriving DecidableEq

/-- Two concepts are related; the order of the ends says only which of them was read first. -/
structure RelatedLink where
  /-- The end whose record named the other. -/
  first : ConceptId
  /-- The end that was named. -/
  second : ConceptId
deriving DecidableEq

namespace RelatedLink

/-- Whether the link ends at a concept. -/
def touches (link : RelatedLink) (id : ConceptId) : Bool :=
  link.first == id || link.second == id

/-- The end across from a concept, if the link ends there. -/
def other (link : RelatedLink) (id : ConceptId) : Option ConceptId :=
  if link.first = id then some link.second
  else if link.second = id then some link.first
  else none

end RelatedLink

/-- One concept as a repository keeps it: the concept and the links it names. -/
structure Record where
  /-- The name of the concept within its scheme. -/
  id : ConceptId
  /-- The preferred label. -/
  label : String
  /-- The alternative labels, in the order given. -/
  altLabels : List String := []
  /-- The scope note, where there is one. -/
  definition : Option String := none
  /-- The ids of the concepts named as broader, known or not. -/
  broader : List ConceptId := []
  /-- The ids of the concepts named as related, known or not. -/
  related : List ConceptId := []
deriving DecidableEq

/-- The concept of a record, its links left behind. -/
def Record.concept (record : Record) : Concept :=
  ⟨record.id, record.label, record.altLabels, record.definition⟩

/-- A request to change the broader concepts of one concept. -/
structure ParentChange where
  /-- The concept to be changed. -/
  concept : ConceptId
  /-- The broader concept to be added; none where the concept becomes a root. -/
  added : Option ConceptId
  /-- The broader concept to be removed; none where all stay. -/
  removed : Option ConceptId
deriving DecidableEq

/-- The broader concepts of a record, a removed one left out. -/
def Record.keptParents (record : Record) (removed : Option ConceptId) : List ConceptId :=
  record.broader.filter fun parent => some parent != removed

/-- Broader concepts with an added one behind them, unless it is among them. -/
def addParent (kept : List ConceptId) : Option ConceptId → List ConceptId
  | some parent => if kept.contains parent then kept else kept ++ [parent]
  | none => kept

/-- The record after a change: the removed parent gone from its broader concepts, and the added
one behind them unless it is among them. -/
def Record.change (record : Record) (change : ParentChange) : Record :=
  { record with broader := addParent (record.keptParents change.removed) change.added }

/-- Only the added concept comes besides those kept. -/
theorem mem_addParent {kept : List ConceptId} {added : Option ConceptId} {parent : ConceptId}
    (h : parent ∈ addParent kept added) : parent ∈ kept ∨ added = some parent := by
  unfold addParent at h
  split at h
  · split at h
    · exact Or.inl h
    · rcases List.mem_append.mp h with h | h
      · exact Or.inl h
      · rw [List.mem_singleton] at h
        exact Or.inr (h ▸ rfl)
  · exact Or.inl h

/-- An added concept that is not among those kept comes behind them. -/
theorem addParent_of_not_mem {kept : List ConceptId} {added : Option ConceptId}
    (h : ∀ parent, added = some parent → parent ∉ kept) :
    addParent kept added = kept ++ added.toList := by
  cases added with
  | none => exact (List.append_nil kept).symm
  | some parent =>
    have hout : ¬kept.contains parent = true :=
      fun hc => h parent rfl (List.contains_iff_mem.mp hc)
    exact if_neg hout

/-- After a change a record names only parents that it named and the one added. -/
theorem Record.mem_broader_change {record : Record} {request : ParentChange} {parent : ConceptId}
    (h : parent ∈ (record.change request).broader) :
    parent ∈ record.broader ∨ request.added = some parent := by
  rcases mem_addParent h with hk | hadded
  · exact Or.inl (List.mem_filter.mp hk).1
  · exact Or.inr hadded

end Thesaurus

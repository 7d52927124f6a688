import Thesaurus.Failure
import Thesaurus.Drag

/-!
# A repository in memory

A repository keeps schemes, each a list of records, and serves two requests: to fetch a scheme
and to change the broader concepts of one concept. It guards its schemes against cycles itself,
since a change may come from an editor that has seen an older state. A failure can be injected
into the next request of either kind; it is used up by that request.
-/

namespace Thesaurus

/-- Schemes with their records, and the failures that wait to be reported. -/
structure Repository where
  /-- The schemes by name. -/
  schemes : List (String × List Record) := []
  /-- The failure of the next change. -/
  changeFailure : Option RequestError := none
  /-- The failure of the next fetch. -/
  fetchFailure : Option RequestError := none
  /-- No two schemes have one name. -/
  distinct : (schemes.map Prod.fst).Nodup := by simp
deriving DecidableEq

/-- Replace the first item for which a test holds. -/
def replaceFirst {α : Type} (test : α → Bool) (change : α → α) : List α → List α
  | [] => []
  | item :: rest => if test item then change item :: rest else item :: replaceFirst test change rest

section ReplaceFirst

variable {α β : Type} {test : α → Bool} {change : α → α} {list : List α}

/-- What is in the list after a replacement was there before or replaces an item. -/
theorem mem_replaceFirst {item : α} (h : item ∈ replaceFirst test change list) :
    item ∈ list ∨ ∃ old ∈ list, test old = true ∧ item = change old := by
  induction list with
  | nil => cases h
  | cons first rest ih =>
    unfold replaceFirst at h
    split at h
    · rename_i hit
      rcases List.mem_cons.mp h with rfl | mem
      · exact Or.inr ⟨first, List.mem_cons_self, hit, rfl⟩
      · exact Or.inl (List.mem_cons_of_mem _ mem)
    · rcases List.mem_cons.mp h with rfl | mem
      · exact Or.inl List.mem_cons_self
      · rcases ih mem with old | ⟨old, inside, hit, same⟩
        · exact Or.inl (List.mem_cons_of_mem _ old)
        · exact Or.inr ⟨old, List.mem_cons_of_mem _ inside, hit, same⟩

/-- Where the test holds for some item, one such item is replaced. -/
theorem exists_mem_replaceFirst (change : α → α) (h : list.any test = true) :
    ∃ old ∈ list, test old = true ∧ change old ∈ replaceFirst test change list := by
  induction list with
  | nil => cases h
  | cons first rest ih =>
    unfold replaceFirst
    by_cases hit : test first = true
    · rw [if_pos hit]
      exact ⟨first, List.mem_cons_self, hit, List.mem_cons_self⟩
    · rw [List.any_cons, Bool.or_eq_true] at h
      obtain ⟨old, inside, hold, mem⟩ := ih (h.resolve_left hit)
      rw [if_neg hit]
      exact ⟨old, List.mem_cons_of_mem _ inside, hold, List.mem_cons_of_mem _ mem⟩

/-- What a replacement leaves alone reads the same on the whole list. -/
theorem map_replaceFirst {read : α → β} (h : ∀ item, test item = true →
    read (change item) = read item) :
    (replaceFirst test change list).map read = list.map read := by
  induction list with
  | nil => rfl
  | cons first rest ih =>
    unfold replaceFirst
    split
    · rename_i hit
      rw [List.map_cons, List.map_cons, h first hit]
    · rw [List.map_cons, List.map_cons, ih]

end ReplaceFirst

namespace Repository

/-- The repository without schemes. -/
def empty : Repository := {}

/-- Put records in the place of those of the scheme of a name, or behind all schemes. -/
def placeScheme (name : String) (records : List Record) :
    List (String × List Record) → List (String × List Record)
  | [] => [(name, records)]
  | scheme :: rest =>
    if scheme.1 = name then (name, records) :: rest
    else scheme :: placeScheme name records rest

/-- Placing a scheme adds its name and no other. -/
theorem mem_names_placeScheme {name other : String} {records : List Record}
    {schemes : List (String × List Record)} :
    other ∈ (placeScheme name records schemes).map Prod.fst ↔
      other = name ∨ other ∈ schemes.map Prod.fst := by
  induction schemes with
  | nil => simp [placeScheme]
  | cons scheme rest ih =>
    unfold placeScheme
    split
    · rename_i same
      rw [List.map_cons, List.map_cons, same, List.mem_cons]
      simp
    · rw [List.map_cons, List.map_cons, List.mem_cons, List.mem_cons, ih]
      exact or_left_comm

/-- Placing a scheme gives no name twice. -/
theorem placeScheme_distinct {name : String} {records : List Record}
    {schemes : List (String × List Record)} (h : (schemes.map Prod.fst).Nodup) :
    ((placeScheme name records schemes).map Prod.fst).Nodup := by
  induction schemes with
  | nil => simp [placeScheme]
  | cons scheme rest ih =>
    obtain ⟨hnew, hrest⟩ := List.nodup_cons.mp h
    unfold placeScheme
    split
    · rename_i same
      rw [same] at hnew
      exact List.nodup_cons.mpr ⟨hnew, hrest⟩
    · rename_i hne
      refine List.nodup_cons.mpr ⟨fun mem => ?_, ih hrest⟩
      rcases mem_names_placeScheme.mp mem with same | mem
      · exact hne same
      · exact hnew mem

/-- A placed scheme is found by its name, and all others are found as before. -/
theorem lookup_placeScheme (name other : String) (records : List Record)
    (schemes : List (String × List Record)) :
    (placeScheme name records schemes).lookup other =
      if other = name then some records else schemes.lookup other := by
  induction schemes with
  | nil =>
    unfold placeScheme
    by_cases same : other = name
    · rw [same, if_pos rfl, List.lookup_cons_self]
    · rw [if_neg same, List.lookup_cons, beq_false_of_ne same]
  | cons scheme rest ih =>
    unfold placeScheme
    by_cases hs : scheme.1 = name
    · rw [if_pos hs, List.lookup_cons, List.lookup_cons, hs]
      by_cases same : other = name
      · rw [same, if_pos rfl, beq_self_eq_true]
      · rw [if_neg same, beq_false_of_ne same]
    · rw [if_neg hs, List.lookup_cons, List.lookup_cons, ih]
      by_cases same : other = name
      · rw [same, if_pos rfl, beq_false_of_ne (Ne.symm hs), if_pos rfl]
      · rw [if_neg same, if_neg same]

/-- A scheme is found by its name where names are given once. -/
theorem lookup_of_mem {name : String} {records : List Record}
    {schemes : List (String × List Record)} (hd : (schemes.map Prod.fst).Nodup)
    (mem : (name, records) ∈ schemes) : schemes.lookup name = some records := by
  induction schemes with
  | nil => cases mem
  | cons scheme rest ih =>
    obtain ⟨hnew, hrest⟩ := List.nodup_cons.mp hd
    rcases List.mem_cons.mp mem with rfl | mem
    · exact List.lookup_cons_self
    · have hne : name ≠ scheme.1 := fun same => hnew (List.mem_map.mpr ⟨_, mem, same⟩)
      rw [List.lookup_cons, beq_false_of_ne hne]
      exact ih hrest mem

/-- Add a scheme, or replace the one of that name. -/
def withScheme (repository : Repository) (name : String) (records : List Record) :
    Repository :=
  { repository with
    schemes := placeScheme name records repository.schemes
    distinct := placeScheme_distinct repository.distinct }

/-- The records of a scheme. -/
def records? (repository : Repository) (name : String) : Option (List Record) :=
  repository.schemes.lookup name

/-- The records of a scheme are among the schemes by its name. -/
theorem mem_of_records? {repository : Repository} {name : String} {records : List Record}
    (h : repository.records? name = some records) : (name, records) ∈ repository.schemes := by
  obtain ⟨before, after, hsplit, _⟩ := List.lookup_eq_some_iff.mp h
  rw [hsplit]
  exact List.mem_append_right _ List.mem_cons_self

/-- After a scheme was added or replaced, its records are those given, all others as before. -/
theorem records?_withScheme (repository : Repository) (name other : String)
    (records : List Record) :
    (repository.withScheme name records).records? other =
      if other = name then some records else repository.records? other :=
  lookup_placeScheme name other records repository.schemes

/-- The error of a request for a scheme that does not exist. -/
def unknownScheme (name : String) : RequestError := .rejected ("unknown scheme " ++ name)

/-- Let the next change fail. -/
def failChange (repository : Repository) (error : RequestError) : Repository :=
  { repository with changeFailure := some error }

/-- Let the next fetch fail. -/
def failFetch (repository : Repository) (error : RequestError) : Repository :=
  { repository with fetchFailure := some error }

/-- Fetch the records of a scheme. -/
def fetch (repository : Repository) (name : String) :
    Except RequestError (List Record) × Repository :=
  match repository.fetchFailure with
  | some error => (.error error, { repository with fetchFailure := none })
  | none =>
    match repository.records? name with
    | some records => (.ok records, repository)
    | none => (.error (unknownScheme name), repository)

/-- Put a record into a scheme, in the place of the one with its id. -/
def putRecord (repository : Repository) (name : String) (record : Record) :
    Except RequestError Unit × Repository :=
  match repository.records? name with
  | none => (.error (unknownScheme name), repository)
  | some records =>
    let changed :=
      if records.any (·.id == record.id) then
        replaceFirst (·.id == record.id) (fun _ => record) records
      else records ++ [record]
    (.ok (), repository.withScheme name changed)

/-- The scheme that holds a concept. -/
def schemeOf? (repository : Repository) (id : ConceptId) : Option (String × List Record) :=
  repository.schemes.find? fun scheme => scheme.2.any (·.id == id)

/-- The scheme found for a concept is one of the repository and has a record of the concept. -/
theorem schemeOf?_eq_some {repository : Repository} {id : ConceptId} {name : String}
    {records : List Record} (h : repository.schemeOf? id = some (name, records)) :
    repository.records? name = some records ∧ records.any (·.id == id) = true := by
  unfold schemeOf? at h
  have mem := List.mem_of_find?_eq_some h
  have hit := List.find?_some h
  exact ⟨lookup_of_mem repository.distinct mem, hit⟩

/-- A scheme that has a record of a concept is found for it, if no other scheme has one. -/
theorem schemeOf?_of_apart {repository : Repository} {id : ConceptId} {name : String}
    {records : List Record} (hr : repository.records? name = some records)
    (known : records.any (·.id == id) = true)
    (apart : ∀ other others, repository.records? other = some others →
      others.any (·.id == id) = true → other = name) :
    repository.schemeOf? id = some (name, records) := by
  cases hs : repository.schemeOf? id with
  | none =>
    exact absurd known (List.find?_eq_none.mp hs (name, records) (mem_of_records? hr))
  | some found =>
    obtain ⟨other, others⟩ := found
    obtain ⟨hother, hknown⟩ := schemeOf?_eq_some hs
    have hsame := apart other others hother hknown
    rw [hsame, hr] at hother
    rw [hsame, Option.some.inj hother]

/-- Why a change cannot be made to the records of a scheme, if it cannot. -/
def objection? (records : List Record) (request : ParentChange) :
    Option RequestError :=
  match request.added with
  | none => none
  | some parent =>
    let index := Descendants.ofGraph (ConceptGraph.ofRecords records)
    if !records.any (·.id == parent) then some (.unknownConcept parent)
    else if parent = request.concept || index.isBelow request.concept parent then
      some (.closesCycle request.concept parent)
    else none

/-- The records after a change to the first record of its concept. -/
def amend (records : List Record) (request : ParentChange) : List Record :=
  replaceFirst (·.id == request.concept) (·.change request) records

/-- Make a change to the first record of its concept. -/
def change (repository : Repository) (request : ParentChange) :
    Except RequestError Unit × Repository :=
  match repository.changeFailure with
  | some error => (.error error, { repository with changeFailure := none })
  | none =>
    match repository.schemeOf? request.concept with
    | none => (.error (.unknownConcept request.concept), repository)
    | some (name, records) =>
      match objection? records request with
      | some error => (.error error, repository)
      | none =>
        (.ok (), repository.withScheme name (amend records request))

/-- A change to which nothing stands in the way is made. -/
theorem change_of_no_objection {repository : Repository} {request : ParentChange} {name : String}
    {records : List Record} (hf : repository.changeFailure = none)
    (hs : repository.schemeOf? request.concept = some (name, records))
    (ho : objection? records request = none) :
    repository.change request = (.ok (), repository.withScheme name (amend records request)) := by
  unfold change
  rw [hf, hs]
  dsimp only
  rw [ho]

/-- Fetch a scheme as a graph. -/
def fetchGraph (repository : Repository) (name : String) :
    Except RequestError ConceptGraph × Repository :=
  let (answer, after) := repository.fetch name
  (answer.map ConceptGraph.ofRecords, after)

/-- A fetch that is not made to fail answers with the graph of the records. -/
theorem fetchGraph_of_records {repository : Repository} {name : String} {records : List Record}
    (hf : repository.fetchFailure = none) (hr : repository.records? name = some records) :
    repository.fetchGraph name = (.ok (ConceptGraph.ofRecords records), repository) := by
  unfold fetchGraph fetch
  rw [hf]
  dsimp only
  rw [hr]
  rfl

/-- Make a change, then fetch the scheme. An error of the fetch tells that the change was
made. -/
def changeAndFetch (repository : Repository) (name : String) (request : ParentChange) :
    Except RequestError ConceptGraph × Repository :=
  match repository.change request with
  | (.error error, after) => (.error error, after)
  | (.ok (), after) =>
    let (answer, after) := after.fetchGraph name
    (answer.mapError .savedUnseen, after)

end Repository

end Thesaurus

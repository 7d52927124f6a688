import Thesaurus.Concept

/-!
# Tables by id

A table holds at most one value for an id. A value that is put takes the place of the one before.
In a table of lists an item can be pushed behind those of its id, and a list of pairs is grouped by
pushing them one after another.
-/

namespace Thesaurus

/-- Values by id. -/
structure Table (α : Type) where
  /-- Ids with their values, the one put last first. -/
  entries : List (ConceptId × α) := []
  /-- No id has two values. -/
  distinct : (entries.map Prod.fst).Nodup := by simp

namespace Table

variable {α : Type}

/-- The table without values. -/
def empty : Table α := {}

/-- The value of an id. -/
def get? (table : Table α) (id : ConceptId) : Option α := table.entries.lookup id

/-- Whether an id has a value. -/
def has (table : Table α) (id : ConceptId) : Bool := (table.get? id).isSome

/-- Put a value in the place of that of an id. -/
def put (table : Table α) (id : ConceptId) (value : α) : Table α where
  entries := (id, value) :: table.entries.filter (·.1 != id)
  distinct := by
    rw [List.map_cons, List.nodup_cons]
    constructor
    · intro mem
      obtain ⟨entry, inside, same⟩ := List.mem_map.mp mem
      have hne := (List.mem_filter.mp inside).2
      rw [bne_iff_ne] at hne
      exact hne same
    · exact table.distinct.sublist (List.filter_sublist.map Prod.fst)

/-- The table of some pairs; of those of one id the last one counts. -/
def ofPairs (pairs : List (ConceptId × α)) : Table α :=
  pairs.foldl (fun table pair => table.put pair.1 pair.2) empty

/-- The list of an id; the empty one where there is none. -/
def listAt (table : Table (List α)) (id : ConceptId) : List α := (table.get? id).getD []

/-- Push an item behind those of an id. -/
def push (table : Table (List α)) (id : ConceptId) (item : α) : Table (List α) :=
  table.put id (table.listAt id ++ [item])

/-- The items of some pairs by their ids, in the order of the pairs. -/
def grouped (pairs : List (ConceptId × α)) : Table (List α) :=
  pairs.foldl (fun table pair => table.push pair.1 pair.2) empty

/-- Entries of other ids do not matter to an id. -/
theorem lookup_filter_ne {id other : ConceptId} (hne : other ≠ id)
    (entries : List (ConceptId × α)) :
    (entries.filter (·.1 != id)).lookup other = entries.lookup other := by
  induction entries with
  | nil => rfl
  | cons entry rest ih =>
    obtain ⟨key, value⟩ := entry
    by_cases same : key = id
    · have hother : (other == key) = false := beq_eq_false_iff_ne.mpr (same ▸ hne)
      simp only [List.filter_cons, same, bne_self_eq_false, Bool.false_eq_true, if_false, ih]
      rw [← same, List.lookup_cons, hother]
    · simp only [List.filter_cons, bne_iff_ne, ne_eq, same, not_false_eq_true, if_true,
        List.lookup_cons, ih]

/-- A value that is put is that of its id, and all others stay. -/
theorem get?_put (table : Table α) (id other : ConceptId) (value : α) :
    (table.put id value).get? other = if other = id then some value else table.get? other := by
  unfold get? put
  by_cases same : other = id
  · rw [if_pos same, List.lookup_cons, beq_iff_eq.mpr same]
  · rw [if_neg same, List.lookup_cons, beq_eq_false_iff_ne.mpr same]
    exact lookup_filter_ne same table.entries

/-- An item that is pushed is the last of its id, and the lists of others stay. -/
theorem listAt_push (table : Table (List α)) (id other : ConceptId) (item : α) :
    (table.push id item).listAt other =
      table.listAt other ++ if id = other then [item] else [] := by
  unfold push
  rw [listAt, get?_put]
  by_cases same : other = id
  · rw [if_pos same, if_pos same.symm, Option.getD_some, same]
  · rw [if_neg same, if_neg (Ne.symm same), List.append_nil]
    rfl

/-- The items that are pushed come behind those in the table. -/
theorem listAt_foldl_push (pairs : List (ConceptId × α)) (table : Table (List α))
    (id : ConceptId) :
    (pairs.foldl (fun table pair => table.push pair.1 pair.2) table).listAt id =
      table.listAt id ++ pairs.filterMap fun pair => if pair.1 = id then some pair.2 else none := by
  induction pairs generalizing table with
  | nil => rw [List.foldl_nil, List.filterMap_nil, List.append_nil]
  | cons pair rest ih =>
    rw [List.foldl_cons, ih, listAt_push, List.append_assoc, List.filterMap_cons]
    by_cases same : pair.1 = id
    · simp only [same, if_true, List.singleton_append]
    · simp only [same, if_false, List.nil_append]

/-- In a table of grouped pairs an id has the items that are paired with it, in order. -/
theorem listAt_grouped (pairs : List (ConceptId × α)) (id : ConceptId) :
    (grouped pairs).listAt id =
      pairs.filterMap fun pair => if pair.1 = id then some pair.2 else none := by
  unfold grouped
  rw [listAt_foldl_push]
  rfl

end Table

end Thesaurus

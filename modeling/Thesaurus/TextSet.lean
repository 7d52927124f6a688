/-!
# Finite sets of texts

A set of texts is kept as its increasing list, by code points, so two sets with the same
members are equal and every listing of a set is already in order. Sets are united by merging
their lists, and many texts are made into a set by halves. `mem_insert`, `mem_union`, `mem_gather`
and `mem_erase` say what each operation does to membership.
-/

namespace Thesaurus

/-- A finite set of texts, listed in increasing order of code points. -/
structure TextSet where
  /-- The members, each once, in increasing order. -/
  toList : List String
  /-- Every member is smaller than all members after it. -/
  increasing : toList.Pairwise (· < ·) := by simp
deriving DecidableEq

namespace TextSet

/-- Put a text into its place of an increasing list. -/
def place (text : String) : List String → List String
  | [] => [text]
  | first :: rest =>
    if first < text then first :: place text rest
    else if text < first then text :: first :: rest
    else first :: rest

/-- Placing a text adds that text and nothing else. -/
theorem mem_place {text other : String} {list : List String} :
    other ∈ place text list ↔ other = text ∨ other ∈ list := by
  induction list with
  | nil => simp [place]
  | cons first rest ih =>
    unfold place
    split
    · simp only [List.mem_cons, ih]
      constructor
      · rintro (h | h | h) <;> simp [h]
      · rintro (h | h | h) <;> simp [h]
    · split
      · simp
      · rename_i hgt hlt
        have same : text = first :=
          String.le_antisymm (String.not_lt.mp hgt) (String.not_lt.mp hlt)
        subst same
        simp only [List.mem_cons]
        constructor
        · exact Or.inr
        · rintro (h | h)
          · exact Or.inl h
          · exact h

/-- Placing a text keeps a list increasing. -/
theorem place_increasing {text : String} {list : List String}
    (h : list.Pairwise (· < ·)) : (place text list).Pairwise (· < ·) := by
  induction list with
  | nil => simp [place]
  | cons first rest ih =>
    obtain ⟨head, tail⟩ := List.pairwise_cons.mp h
    unfold place
    split
    · rename_i hgt
      refine List.pairwise_cons.mpr ⟨?_, ih tail⟩
      intro other mem
      rcases mem_place.mp mem with rfl | mem
      · exact hgt
      · exact head other mem
    · split
      · rename_i hlt
        refine List.pairwise_cons.mpr ⟨?_, h⟩
        intro other mem
        rcases List.mem_cons.mp mem with rfl | mem
        · exact hlt
        · exact String.lt_trans hlt (head other mem)
      · exact h

/-- The texts of two increasing lists in one, those in both once. -/
def merge : List String → List String → List String
  | [], right => right
  | left, [] => left
  | first :: rest, other :: others =>
    if first < other then first :: merge rest (other :: others)
    else if other < first then other :: merge (first :: rest) others
    else first :: merge rest others
termination_by left right => left.length + right.length

/-- Merging keeps every text and adds none. -/
theorem mem_merge {text : String} {left right : List String} :
    text ∈ merge left right ↔ text ∈ left ∨ text ∈ right := by
  fun_induction merge left right with
  | case1 => simp
  | case2 => simp
  | case3 first rest other others _ ih =>
    simp only [List.mem_cons, ih, or_assoc]
  | case4 first rest other others _ _ ih =>
    simp only [List.mem_cons, ih]
    exact or_left_comm
  | case5 first rest other others hlt hgt ih =>
    have same : first = other :=
      String.le_antisymm (String.not_lt.mp hgt) (String.not_lt.mp hlt)
    subst same
    simp only [List.mem_cons, ih]
    constructor
    · rintro (h | h | h) <;> simp [h]
    · rintro ((h | h) | h | h) <;> simp [h]

/-- Merging keeps lists increasing. -/
theorem merge_increasing {left right : List String} (hl : left.Pairwise (· < ·))
    (hr : right.Pairwise (· < ·)) : (merge left right).Pairwise (· < ·) := by
  fun_induction merge left right with
  | case1 => exact hr
  | case2 => exact hl
  | case3 first rest other others hlt ih =>
    obtain ⟨head, tail⟩ := List.pairwise_cons.mp hl
    refine List.pairwise_cons.mpr ⟨?_, ih tail hr⟩
    intro text mem
    rcases mem_merge.mp mem with mem | mem
    · exact head text mem
    · rcases List.mem_cons.mp mem with rfl | mem
      · exact hlt
      · exact String.lt_trans hlt ((List.pairwise_cons.mp hr).1 text mem)
  | case4 first rest other others _ hgt ih =>
    obtain ⟨head, tail⟩ := List.pairwise_cons.mp hr
    refine List.pairwise_cons.mpr ⟨?_, ih hl tail⟩
    intro text mem
    rcases mem_merge.mp mem with mem | mem
    · rcases List.mem_cons.mp mem with rfl | mem
      · exact hgt
      · exact String.lt_trans hgt ((List.pairwise_cons.mp hl).1 text mem)
    · exact head text mem
  | case5 first rest other others hlt hgt ih =>
    obtain ⟨left, tail⟩ := List.pairwise_cons.mp hl
    obtain ⟨right, tail'⟩ := List.pairwise_cons.mp hr
    refine List.pairwise_cons.mpr ⟨?_, ih tail tail'⟩
    intro text mem
    rcases mem_merge.mp mem with mem | mem
    · exact left text mem
    · have same : first = other :=
        String.le_antisymm (String.not_lt.mp hgt) (String.not_lt.mp hlt)
      exact same ▸ right text mem

/-- The set without members. -/
def empty : TextSet := ⟨[], by simp⟩

/-- The set with one more member. -/
def insert (set : TextSet) (text : String) : TextSet :=
  ⟨place text set.toList, place_increasing set.increasing⟩

/-- The set without one text. -/
def erase (set : TextSet) (text : String) : TextSet :=
  ⟨set.toList.filter (· ≠ text), set.increasing.filter _⟩

/-- The set of one text. -/
def singleton (text : String) : TextSet := ⟨[text], by simp⟩

/-- The members of either set. -/
def union (left right : TextSet) : TextSet :=
  ⟨merge left.toList right.toList, merge_increasing left.increasing right.increasing⟩

/-- The members of the sets that stand for the items of a list, united by halves. -/
def gather {α : Type} (part : α → TextSet) : List α → TextSet
  | [] => empty
  | [item] => part item
  | first :: second :: rest =>
    let items := first :: second :: rest
    let half := items.length / 2
    (gather part (items.take half)).union (gather part (items.drop half))
termination_by items => items.length
decreasing_by all_goals simp only [List.length_take, List.length_drop, List.length_cons]; omega

/-- The texts of a list, each once. -/
def ofList (texts : List String) : TextSet := gather singleton texts

/-- The set with all texts of a list added. -/
def insertAll (set : TextSet) (texts : List String) : TextSet := set.union (ofList texts)

/-- A text is a member when the listing holds it. -/
instance : Membership String TextSet where
  mem set text := text ∈ set.toList

/-- Membership is decided on the listing. -/
instance (text : String) (set : TextSet) : Decidable (text ∈ set) :=
  inferInstanceAs (Decidable (text ∈ set.toList))

/-- Membership in the set is membership in its listing. -/
theorem mem_toList {set : TextSet} {text : String} : text ∈ set.toList ↔ text ∈ set := Iff.rfl

/-- Nothing is in the empty set. -/
@[simp] theorem not_mem_empty (text : String) : text ∉ empty := List.not_mem_nil

/-- Inserting adds the one text. -/
@[simp] theorem mem_insert {set : TextSet} {text other : String} :
    other ∈ set.insert text ↔ other = text ∨ other ∈ set := mem_place

/-- Erasing removes the one text. -/
@[simp] theorem mem_erase {set : TextSet} {text other : String} :
    other ∈ set.erase text ↔ other ∈ set ∧ other ≠ text := by
  show other ∈ set.toList.filter (· ≠ text) ↔ _
  simp [List.mem_filter, mem_toList]

/-- The set of one text holds that text. -/
@[simp] theorem mem_singleton {text other : String} : other ∈ singleton text ↔ other = text :=
  List.mem_singleton

/-- A union holds what either part holds. -/
@[simp] theorem mem_union {left right : TextSet} {other : String} :
    other ∈ left.union right ↔ other ∈ left ∨ other ∈ right := mem_merge

/-- A gathered set holds what the set of some item holds. -/
@[simp] theorem mem_gather {α : Type} {part : α → TextSet} {items : List α} {other : String} :
    other ∈ gather part items ↔ ∃ item ∈ items, other ∈ part item := by
  fun_induction gather part items with
  | case1 => simp
  | case2 => simp
  | case3 first second rest items half ihl ihr =>
    rw [mem_union, ihl, ihr]
    constructor
    · rintro (⟨item, mem, h⟩ | ⟨item, mem, h⟩)
      · exact ⟨item, List.mem_of_mem_take mem, h⟩
      · exact ⟨item, List.mem_of_mem_drop mem, h⟩
    · rintro ⟨item, mem, h⟩
      have parts : item ∈ items.take half ++ items.drop half := by
        rw [List.take_append_drop]
        exact mem
      rcases List.mem_append.mp parts with mem | mem
      · exact Or.inl ⟨item, mem, h⟩
      · exact Or.inr ⟨item, mem, h⟩

/-- A set made from a list holds the texts of the list. -/
@[simp] theorem mem_ofList {texts : List String} {other : String} :
    other ∈ ofList texts ↔ other ∈ texts := by
  simp [ofList]

/-- Inserting a list adds its texts. -/
@[simp] theorem mem_insertAll {set : TextSet} {texts : List String} {other : String} :
    other ∈ set.insertAll texts ↔ other ∈ set ∨ other ∈ texts := by
  simp [insertAll]

end TextSet

end Thesaurus

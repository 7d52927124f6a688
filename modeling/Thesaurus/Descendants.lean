import Thesaurus.Descent

/-!
# The concepts below each concept

For every concept of a graph, `Descendants.ofGraph` holds the set of all concepts below it, at
any depth. The sets are found one after another, those of children first; a sweep that meets a
concept whose set is finished takes that set over instead of going down again. Links may form
cycles, so a sweep may also meet concepts whose set is not finished; it goes down from these
itself. A concept is never listed below itself.
-/

namespace Thesaurus

/-- For each concept of a graph the concepts below it. -/
structure Descendants where
  /-- Concepts with the sets below them. -/
  sets : List (ConceptId × TextSet) := []
deriving DecidableEq

namespace Descendants

/-- The set below a concept; none for a concept that was not in the graph. -/
def below? (index : Descendants) (id : ConceptId) : Option TextSet :=
  index.sets.lookup id

/-- Whether one concept is somewhere below another. -/
def isBelow (index : Descendants) (ancestor candidate : ConceptId) : Bool :=
  match index.below? ancestor with
  | some set => decide (candidate ∈ set)
  | none => false

/-- How many links end at a child that is not found yet. -/
def unseen (graph : ConceptGraph) (found : TextSet) : Nat :=
  graph.broader.countP fun link => decide (link.child ∉ found)

/-- Go through the children of one concept. A child met first is found; its finished set is
taken over if there is one, else it waits to be swept itself. -/
def visit (finished : Descendants) :
    List ConceptId → TextSet × List ConceptId → TextSet × List ConceptId
  | [], state => state
  | child :: rest, (found, waiting) =>
    if child ∈ found then visit finished rest (found, waiting)
    else match finished.below? child with
      | some set => visit finished rest ((found.insert child).union set, waiting)
      | none => visit finished rest (found.insert child, child :: waiting)

/-- Finding more leaves no more links unseen. -/
theorem unseen_le {graph : ConceptGraph} {found more : TextSet}
    (h : ∀ id, id ∈ found → id ∈ more) : unseen graph more ≤ unseen graph found := by
  apply List.countP_mono_left
  intro link _ new
  simp only [decide_eq_true_eq] at new ⊢
  exact fun old => new (h _ old)

/-- Finding the child of a link leaves fewer links unseen. -/
theorem unseen_lt {graph : ConceptGraph} {found : TextSet} {link : BroaderLink}
    (mem : link ∈ graph.broader) (new : link.child ∉ found) :
    unseen graph (found.insert link.child) < unseen graph found := by
  refine countP_lt ?_ mem (by simpa using new) (by simp)
  intro other _ h
  simp only [TextSet.mem_insert, decide_eq_true_eq, not_or] at h ⊢
  exact h.2

/-- Every child that is put to wait was unseen before. -/
theorem visit_measure {graph : ConceptGraph} {finished : Descendants} {children : List ConceptId}
    {found : TextSet} {waiting : List ConceptId}
    (h : ∀ child ∈ children, ∃ link ∈ graph.broader, link.child = child) :
    (visit finished children (found, waiting)).2.length
        + unseen graph (visit finished children (found, waiting)).1
      ≤ waiting.length + unseen graph found := by
  induction children generalizing found waiting with
  | nil => exact Nat.le_refl _
  | cons child rest ih =>
    have tail := fun c mem => h c (List.mem_cons_of_mem _ mem)
    unfold visit
    by_cases old : child ∈ found
    · simp only [old, if_true]
      exact ih tail
    · simp only [old, if_false]
      obtain ⟨link, mem, rfl⟩ := h child List.mem_cons_self
      have lt := unseen_lt mem old
      split
      · rename_i set _
        have le : unseen graph ((found.insert link.child).union set)
            ≤ unseen graph (found.insert link.child) :=
          unseen_le fun id inside => TextSet.mem_union.mpr (Or.inl inside)
        have rest := @ih ((found.insert link.child).union set) waiting tail
        omega
      · have rest := @ih (found.insert link.child) (link.child :: waiting) tail
        simp only [List.length_cons] at rest
        omega

/-- Sweep the concepts that wait, and those they leave waiting, until none is left. -/
def sweep (graph : ConceptGraph) (finished : Descendants) (found : TextSet) :
    List ConceptId → TextSet
  | [] => found
  | current :: waiting =>
    let next := visit finished (graph.childrenOf current) (found, waiting)
    sweep graph finished next.1 next.2
termination_by waiting => waiting.length + unseen graph found
decreasing_by
  have children : ∀ child ∈ graph.childrenOf current, ∃ link ∈ graph.broader, link.child = child :=
    fun child mem => ⟨⟨child, current⟩, ConceptGraph.mem_childrenOf.mp mem, rfl⟩
  have := @visit_measure graph finished _ found waiting children
  simp only [List.length_cons]
  omega

/-- The concepts below one concept, given the sets finished before; itself left out. -/
def reach (graph : ConceptGraph) (finished : Descendants) (start : ConceptId) : TextSet :=
  (sweep graph finished TextSet.empty [start]).erase start

/-- Finish the sets of some concepts, each after those of its children. Concepts whose set is
finished are left alone, and so are those on the path down to here, whose sets come later. -/
def finish (graph : ConceptGraph) (line : List ConceptId) :
    List ConceptId → Descendants → Descendants
  | [], finished => finished
  | id :: others, finished =>
    if _known : graph.contains id ∧ id ∉ line ∧ finished.below? id = none then
      let inner := finish graph (id :: line) (graph.childrenOf id) finished
      finish graph line others ⟨(id, reach graph inner id) :: inner.sets⟩
    else finish graph line others finished
termination_by ids => graph.room line * (graph.broader.length + 1) + ids.length
decreasing_by
  · obtain ⟨concept, mem, rfl⟩ := List.mem_map.mp (ConceptGraph.contains_iff.mp _known.1)
    exact ConceptGraph.budget_lt (ConceptGraph.room_lt mem _known.2.1)
  · exact Nat.lt_succ_self _
  · exact Nat.lt_succ_self _

/-- The sets below all concepts of a graph. -/
def ofGraph (graph : ConceptGraph) : Descendants := finish graph [] graph.ids {}

end Descendants

end Thesaurus

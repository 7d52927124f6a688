import Mathlib.Data.List.Sort
import Thesaurus.Proofs.Reachability

/-!
# The order in which sets are finished

An index of descendants takes sets over that are finished already, so what it comes to could hang
on the order of the concepts. It does not: whichever concept comes first, and whatever cycles the
links form, every set is the one that a plain walk finds, which takes no set over. That set is the
transitive closure of the links, its own concept left out.
-/

namespace Thesaurus

/-- Sets with the same members are equal. -/
theorem TextSet.eq_of_mem_iff {set other : TextSet} (h : ∀ text, text ∈ set ↔ text ∈ other) :
    set = other := by
  obtain ⟨texts, increasing⟩ := set
  obtain ⟨others, increasing'⟩ := other
  have distinct : ∀ {list : List String}, list.Pairwise (· < ·) → list.Nodup :=
    fun hlist => hlist.imp fun hlt => String.ne_of_lt hlt
  have hperm : texts.Perm others :=
    (List.perm_ext_iff_of_nodup (distinct increasing) (distinct increasing')).mpr h
  have hsame : texts = others :=
    hperm.eq_of_pairwise (fun _ _ _ _ hlt hgt => absurd hlt (String.lt_asymm hgt))
      increasing increasing'
  subst hsame
  rfl

namespace Descendants

open ConceptGraph

/-- Find the sets of some concepts one after another, those found before at hand. -/
def finishAll (graph : ConceptGraph) : List ConceptId → Descendants → Descendants
  | [], finished => finished
  | id :: others, finished =>
    finishAll graph others ⟨(id, reach graph finished id) :: finished.sets⟩

/-- The concepts that a plain walk finds below one, no set being finished; itself left out. -/
def walk (graph : ConceptGraph) (start : ConceptId) : TextSet := reach graph {} start

/-- Where nothing is finished, nothing is wrong. -/
theorem exact_nothing (graph : ConceptGraph) : Exact graph {} := by
  intro id set h
  cases h

section FinishAll

variable {graph : ConceptGraph} {finished : Descendants} {order : List ConceptId}

/-- A plain walk finds exactly what lies below its start, itself left out. -/
theorem mem_walk {start x : ConceptId} :
    x ∈ walk graph start ↔ x ≠ start ∧ graph.Below start x :=
  mem_reach (exact_nothing graph)

/-- A set that is right is the one a plain walk finds. -/
theorem Exact.eq_walk (he : Exact graph finished) {id : ConceptId} {set : TextSet}
    (hset : finished.below? id = some set) : set = walk graph id := by
  apply TextSet.eq_of_mem_iff
  intro x
  rw [he id set hset x, mem_walk]

/-- One more set found puts the one of a plain walk in front. -/
theorem Exact.finishOne (he : Exact graph finished) (id : ConceptId) :
    Exact graph ⟨(id, reach graph finished id) :: finished.sets⟩ := by
  intro key set hset x
  rw [below?_cons] at hset
  split at hset
  · rename_i same
    cases hset
    rw [same]
    exact mem_reach he
  · exact he key set hset x

/-- Sets found one after another are right, whatever the order. -/
theorem Exact.finishAll (he : Exact graph finished) :
    Exact graph (Descendants.finishAll graph order finished) := by
  induction order generalizing finished with
  | nil => exact he
  | cons id others ih => exact ih (he.finishOne id)

/-- Exactly the concepts asked for get a set, beside those that had one. -/
theorem finishAll_isSome_iff {key : ConceptId} :
    ((Descendants.finishAll graph order finished).below? key).isSome = true ↔
      key ∈ order ∨ (finished.below? key).isSome = true := by
  induction order generalizing finished with
  | nil => simp [Descendants.finishAll]
  | cons id others ih =>
    rw [Descendants.finishAll, ih, below?_cons, List.mem_cons]
    by_cases same : key = id
    · simp [same]
    · simp [same]

/-- Whatever the order, every concept asked for gets the set of a plain walk, and no other gets
one. -/
theorem below?_finishAll (graph : ConceptGraph) (order : List ConceptId) (id : ConceptId) :
    (Descendants.finishAll graph order {}).below? id =
      if id ∈ order then some (walk graph id) else none := by
  have hexact : Exact graph (Descendants.finishAll graph order {}) :=
    (exact_nothing graph).finishAll
  have hsome := @finishAll_isSome_iff graph {} order id
  have hnothing : (({} : Descendants).below? id).isSome = false := rfl
  rw [hnothing, or_iff_left Bool.false_ne_true] at hsome
  cases hset : (Descendants.finishAll graph order {}).below? id with
  | none =>
    rw [hset] at hsome
    have hout : id ∉ order := fun mem => Bool.false_ne_true (hsome.mpr mem)
    rw [if_neg hout]
  | some set =>
    rw [hset] at hsome
    rw [if_pos (hsome.mp rfl), hexact.eq_walk hset]

end FinishAll

/-- The index of a graph, whatever cycles its links form, has an entry for exactly the concepts of
the graph. The entry of a concept holds exactly the other concepts to which one or more links lead
down; it is what a plain walk finds, and what is found in storage order or in any other order when
finished sets are taken over. -/
theorem index_is_closure (graph : ConceptGraph) :
    (∀ id, ((ofGraph graph).below? id).isSome = graph.contains id) ∧
    (∀ id set, (ofGraph graph).below? id = some set →
      set = walk graph id ∧ ∀ x, x ∈ set ↔ x ≠ id ∧ graph.Below id x) ∧
    (∀ ancestor candidate, (ofGraph graph).isBelow ancestor candidate = true ↔
      graph.contains ancestor = true ∧ candidate ≠ ancestor ∧
        graph.Below ancestor candidate) ∧
    ∀ order : List ConceptId, (∀ id, id ∈ order ↔ id ∈ graph.ids) →
      ∀ id, (finishAll graph order {}).below? id = (ofGraph graph).below? id := by
  have hexact := ofGraph_exact graph
  have hknown := below?_ofGraph_isSome graph
  refine ⟨hknown, ?_, fun _ _ => isBelow_ofGraph, ?_⟩
  · intro id set hset
    exact ⟨hexact.eq_walk hset, hexact id set hset⟩
  · intro order horder id
    rw [below?_finishAll]
    cases hset : (ofGraph graph).below? id with
    | none =>
      have hsome := hknown id
      rw [hset] at hsome
      have hout : id ∉ order := by
        intro mem
        rw [contains_iff.mpr ((horder id).mp mem)] at hsome
        cases hsome
      rw [if_neg hout]
    | some set =>
      have hsome := hknown id
      rw [hset] at hsome
      have hin : id ∈ order := (horder id).mpr (contains_iff.mp hsome.symm)
      rw [if_pos hin, hexact.eq_walk hset]

/-- Hounds below dogs, terriers below hounds and dogs below terriers; puppies below terriers too. -/
def terriers : ConceptGraph :=
  ConceptGraph.ofRecords
    [{ id := "dogs", label := "Dogs", broader := ["terriers"] },
      { id := "hounds", label := "Hounds", broader := ["dogs"] },
      { id := "terriers", label := "Terriers", broader := ["hounds"] },
      { id := "puppies", label := "Puppies", broader := ["terriers"] }]

/-- Terriers come last and take the set of dogs over, which was finished halfway round the cycle;
nothing is missing from theirs. -/
theorem index_is_closure_terriers :
    (∀ id, id ∈ ["hounds", "dogs", "puppies", "terriers"] ↔ id ∈ terriers.ids) ∧
      (finishAll terriers ["hounds", "dogs", "puppies", "terriers"] {}).below? "terriers" =
        (ofGraph terriers).below? "terriers" ∧
      (ofGraph terriers).below? "terriers" =
        some (TextSet.ofList ["dogs", "hounds", "puppies"]) := by
  have hids : terriers.ids = ["dogs", "hounds", "terriers", "puppies"] := by decide +kernel
  have horder : ∀ id, id ∈ ["hounds", "dogs", "puppies", "terriers"] ↔ id ∈ terriers.ids := by
    intro id
    rw [hids]
    simp only [List.mem_cons, List.not_mem_nil, or_false]
    tauto
  obtain ⟨_, _, _, hsame⟩ := index_is_closure terriers
  exact ⟨horder, hsame _ horder "terriers", by decide +kernel⟩

end Descendants

end Thesaurus

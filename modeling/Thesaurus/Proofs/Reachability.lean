import Mathlib.Logic.Relation
import Thesaurus.Descendants

/-!
# What lies below a concept

One concept lies below another when broader links lead down to it. A graph is acyclic when no
concept lies below itself. The index of descendants holds an entry for exactly the concepts of
its graph, and the entry of a concept is exactly what lies below it, itself left out, on cyclic
graphs as well. A link added on top of an acyclic graph closes a cycle only if its upper end
lies below its lower end.
-/

namespace Thesaurus

namespace ConceptGraph

/-- One broader link leads from the upper concept down to the lower one. -/
def Narrower (graph : ConceptGraph) (upper lower : ConceptId) : Prop :=
  ⟨lower, upper⟩ ∈ graph.broader

/-- One or more broader links lead from the upper concept down to the lower one. -/
def Below (graph : ConceptGraph) (upper lower : ConceptId) : Prop :=
  Relation.TransGen graph.Narrower upper lower

/-- No concept lies below itself. -/
def Acyclic (graph : ConceptGraph) : Prop := ∀ id, ¬graph.Below id id

/-- The children of a concept are the lower ends of one step down. -/
theorem mem_childrenOf_iff_narrower {graph : ConceptGraph} {upper lower : ConceptId} :
    lower ∈ graph.childrenOf upper ↔ graph.Narrower upper lower := mem_childrenOf

/-- What lies below a child lies below its parent. -/
theorem Narrower.below {graph : ConceptGraph} {upper middle lower : ConceptId}
    (h : graph.Narrower upper middle) (hl : lower = middle ∨ graph.Below middle lower) :
    graph.Below upper lower := by
  rcases hl with rfl | hl
  · exact Relation.TransGen.single h
  · exact Relation.TransGen.head h hl

/-- A set that holds the children of a concept and of its own members holds all below it. -/
theorem Below.mem_of_closed {graph : ConceptGraph} {upper lower : ConceptId} {set : TextSet}
    (h : graph.Below upper lower)
    (hc : ∀ x, (x = upper ∨ x ∈ set) → ∀ y, graph.Narrower x y → y ∈ set) : lower ∈ set := by
  induction h with
  | single step => exact hc upper (Or.inl rfl) _ step
  | tail _ step ih => exact hc _ (Or.inr ih) _ step

/-- Where all links but one are links of another graph, a descent either stays within that
graph or goes down through the one link. -/
theorem Below.split {graph other : ConceptGraph} {child parent upper lower : ConceptId}
    (hl : ∀ x y, other.Narrower x y → graph.Narrower x y ∨ (x = parent ∧ y = child))
    (h : other.Below upper lower) :
    graph.Below upper lower ∨
      ((parent = upper ∨ graph.Below upper parent) ∧
        (lower = child ∨ graph.Below child lower)) := by
  induction h with
  | single step =>
    rcases hl _ _ step with old | ⟨rfl, rfl⟩
    · exact Or.inl (Relation.TransGen.single old)
    · exact Or.inr ⟨Or.inl rfl, Or.inl rfl⟩
  | tail _ step ih =>
    rcases hl _ _ step with old | ⟨rfl, rfl⟩
    · rcases ih with ih | ⟨ha, hb⟩
      · exact Or.inl (Relation.TransGen.tail ih old)
      · refine Or.inr ⟨ha, Or.inr ?_⟩
        rcases hb with rfl | hb
        · exact Relation.TransGen.single old
        · exact Relation.TransGen.tail hb old
    · rcases ih with ih | ⟨ha, _⟩
      · exact Or.inr ⟨Or.inr ih, Or.inl rfl⟩
      · exact Or.inr ⟨ha, Or.inl rfl⟩

/-- Links taken away and one link added keep a graph acyclic, unless the upper end of the added
link is its lower end or lies below it. -/
theorem Acyclic.of_added_link {graph other : ConceptGraph} {child parent : ConceptId}
    (ha : graph.Acyclic) (hne : parent ≠ child) (hb : ¬graph.Below child parent)
    (hl : ∀ x y, other.Narrower x y → graph.Narrower x y ∨ (x = parent ∧ y = child)) :
    other.Acyclic := by
  intro id hid
  rcases Below.split hl hid with old | ⟨hup, hdown⟩
  · exact ha id old
  -- a cycle through the added link goes down from its lower end to its upper end without it
  · rcases hup with rfl | hup <;> rcases hdown with hdown | hdown
    · exact hne hdown
    · exact hb hdown
    · exact hb (hdown ▸ hup)
    · exact hb (Relation.TransGen.trans hdown hup)

/-- Links taken away keep a graph acyclic. -/
theorem Acyclic.of_links_le {graph other : ConceptGraph} (ha : graph.Acyclic)
    (hl : ∀ x y, other.Narrower x y → graph.Narrower x y) : other.Acyclic :=
  fun id hid => ha id (Relation.TransGen.mono hl id id hid)

/-- A graph whose concepts stand in storage order behind their parents is acyclic. -/
theorem acyclic_of_ordered {graph : ConceptGraph}
    (h : ∀ link ∈ graph.broader, graph.ids.idxOf link.parent < graph.ids.idxOf link.child) :
    graph.Acyclic := by
  have hlt : ∀ upper lower, graph.Below upper lower →
      graph.ids.idxOf upper < graph.ids.idxOf lower := by
    intro upper lower hb
    induction hb with
    | single step => exact h _ step
    | tail _ step ih => exact Nat.lt_trans ih (h _ step)
  intro id hid
  exact absurd (hlt id id hid) (Nat.lt_irrefl _)

end ConceptGraph

namespace Descendants

open ConceptGraph

/-- Every set of an index holds exactly what lies below its concept, itself left out. -/
def Exact (graph : ConceptGraph) (index : Descendants) : Prop :=
  ∀ id set, index.below? id = some set → ∀ x, x ∈ set ↔ x ≠ id ∧ graph.Below id x

section Visit

variable {graph : ConceptGraph} {finished : Descendants} {children : List ConceptId}
  {found : TextSet} {waiting : List ConceptId} {x : ConceptId}

/-- A visit loses nothing that was found. -/
theorem mem_visit_of_found (h : x ∈ found) :
    x ∈ (visit finished children (found, waiting)).1 := by
  induction children generalizing found waiting with
  | nil => exact h
  | cons child rest ih =>
    unfold visit
    split
    · exact ih h
    · split
      · exact ih (TextSet.mem_union.mpr (Or.inl (TextSet.mem_insert.mpr (Or.inr h))))
      · exact ih (TextSet.mem_insert.mpr (Or.inr h))

/-- A visit finds every child. -/
theorem mem_visit_of_child (h : x ∈ children) :
    x ∈ (visit finished children (found, waiting)).1 := by
  induction children generalizing found waiting with
  | nil => cases h
  | cons child rest ih =>
    unfold visit
    rcases List.mem_cons.mp h with rfl | h
    · split
      · rename_i old
        exact mem_visit_of_found old
      · have hx : x ∈ found.insert x := TextSet.mem_insert.mpr (Or.inl rfl)
        split
        · exact mem_visit_of_found (TextSet.mem_union.mpr (Or.inl hx))
        · exact mem_visit_of_found hx
    · split
      · exact ih h
      · split <;> exact ih h

/-- A visit drops nothing that waits. -/
theorem mem_visit_of_waiting (h : x ∈ waiting) :
    x ∈ (visit finished children (found, waiting)).2 := by
  induction children generalizing found waiting with
  | nil => exact h
  | cons child rest ih =>
    unfold visit
    split
    · exact ih h
    · split
      · exact ih h
      · exact ih (List.mem_cons_of_mem _ h)

/-- Only children are put to wait. -/
theorem mem_waiting_or_child_of_visit
    (h : x ∈ (visit finished children (found, waiting)).2) : x ∈ waiting ∨ x ∈ children := by
  induction children generalizing found waiting with
  | nil => exact Or.inl h
  | cons child rest ih =>
    unfold visit at h
    split at h
    · exact (ih h).imp_right (List.mem_cons_of_mem _)
    · split at h
      · exact (ih h).imp_right (List.mem_cons_of_mem _)
      · rcases ih h with hw | hr
        · rcases List.mem_cons.mp hw with rfl | hw
          · exact Or.inr List.mem_cons_self
          · exact Or.inl hw
        · exact Or.inr (List.mem_cons_of_mem _ hr)

/-- A visit finds only children and what lies below them. -/
theorem found_or_below_of_visit (he : Exact graph finished)
    (h : x ∈ (visit finished children (found, waiting)).1) :
    x ∈ found ∨ ∃ child ∈ children, x = child ∨ graph.Below child x := by
  induction children generalizing found waiting with
  | nil => exact Or.inl h
  | cons child rest ih =>
    have later : (∃ c ∈ rest, x = c ∨ graph.Below c x) →
        ∃ c ∈ child :: rest, x = c ∨ graph.Below c x :=
      fun ⟨c, mem, hc⟩ => ⟨c, List.mem_cons_of_mem _ mem, hc⟩
    unfold visit at h
    split at h
    · exact (ih h).imp_right later
    · split at h
      · rename_i set known
        rcases ih h with hf | hr
        · rcases TextSet.mem_union.mp hf with hf | hs
          · rcases TextSet.mem_insert.mp hf with rfl | hf
            · exact Or.inr ⟨x, List.mem_cons_self, Or.inl rfl⟩
            · exact Or.inl hf
          · exact Or.inr ⟨child, List.mem_cons_self, Or.inr ((he child set known x).mp hs).2⟩
        · exact Or.inr (later hr)
      · rcases ih h with hf | hr
        · rcases TextSet.mem_insert.mp hf with rfl | hf
          · exact Or.inr ⟨x, List.mem_cons_self, Or.inl rfl⟩
          · exact Or.inl hf
        · exact Or.inr (later hr)

/-- A finished set, with its concept, holds the children of its members. -/
theorem Exact.closed {child : ConceptId} {set : TextSet} (he : Exact graph finished)
    (known : finished.below? child = some set) (hx : x = child ∨ x ∈ set) {y : ConceptId}
    (step : graph.Narrower x y) : y = child ∨ y ∈ set := by
  have hb : graph.Below child y := by
    rcases hx with rfl | hx
    · exact Relation.TransGen.single step
    · exact Relation.TransGen.tail ((he child set known x).mp hx).2 step
  by_cases same : y = child
  · exact Or.inl same
  · exact Or.inr ((he child set known y).mpr ⟨same, hb⟩)

/-- What a visit finds waits to be swept, or its children are found. -/
theorem visit_closed (he : Exact graph finished)
    (h : x ∈ (visit finished children (found, waiting)).1) :
    x ∈ found ∨ x ∈ (visit finished children (found, waiting)).2 ∨
      ∀ y, graph.Narrower x y → y ∈ (visit finished children (found, waiting)).1 := by
  induction children generalizing found waiting with
  | nil => exact Or.inl h
  | cons child rest ih =>
    unfold visit at h ⊢
    split at h
    · rename_i old
      simp only [old, if_true]
      exact ih h
    · rename_i new
      simp only [new, if_false]
      split at h
      · rename_i set known
        -- a finished set comes with all that is below its members, so none of them has to wait
        have taken : ∀ y, y = child ∨ y ∈ set → y ∈ (found.insert child).union set := by
          intro y hy
          rcases hy with rfl | hy
          · exact TextSet.mem_union.mpr (Or.inl (TextSet.mem_insert.mpr (Or.inl rfl)))
          · exact TextSet.mem_union.mpr (Or.inr hy)
        rcases ih h with hf | hr
        · rcases TextSet.mem_union.mp hf with hf | hs
          · rcases TextSet.mem_insert.mp hf with rfl | hf
            · exact Or.inr (Or.inr fun y step =>
                mem_visit_of_found (taken y (he.closed known (Or.inl rfl) step)))
            · exact Or.inl hf
          · exact Or.inr (Or.inr fun y step =>
              mem_visit_of_found (taken y (he.closed known (Or.inr hs) step)))
        · exact Or.inr hr
      · rcases ih h with hf | hr
        · rcases TextSet.mem_insert.mp hf with rfl | hf
          · exact Or.inr (Or.inl (mem_visit_of_waiting List.mem_cons_self))
          · exact Or.inl hf
        · exact Or.inr hr

end Visit

section Sweep

variable {graph : ConceptGraph} {finished : Descendants}

/-- A sweep finds only what lies below the concepts that wait. -/
theorem found_or_below_of_sweep (he : Exact graph finished) {found : TextSet}
    {waiting : List ConceptId} {x : ConceptId} (h : x ∈ sweep graph finished found waiting) :
    x ∈ found ∨ ∃ top ∈ waiting, graph.Below top x := by
  fun_induction sweep graph finished found waiting with
  | case1 => exact Or.inl h
  | case2 found current waiting next ih =>
    have hcurrent : ∀ child ∈ graph.childrenOf current, ∀ y, (y = child ∨ graph.Below child y) →
        ∃ top ∈ current :: waiting, graph.Below top y := by
      intro child mem y hy
      exact ⟨current, List.mem_cons_self, (mem_childrenOf_iff_narrower.mp mem).below hy⟩
    rcases ih h with hf | ⟨top, mem, hb⟩
    · rcases found_or_below_of_visit he hf with hf | ⟨child, mem, hy⟩
      · exact Or.inl hf
      · exact Or.inr (hcurrent child mem x hy)
    · rcases mem_waiting_or_child_of_visit mem with mem | mem
      · exact Or.inr ⟨top, List.mem_cons_of_mem _ mem, hb⟩
      · exact Or.inr (hcurrent top mem x (Or.inr hb))

/-- Halfway through a sweep, the children of what was found and of its start are found, but for
concepts that wait to be swept. -/
def Swept (graph : ConceptGraph) (start : ConceptId) (found : TextSet)
    (waiting : List ConceptId) : Prop :=
  ∀ x, (x = start ∨ x ∈ found) → x ∈ waiting ∨ ∀ y, graph.Narrower x y → y ∈ found

/-- A visit of the children of a concept that waits takes the sweep one step on. -/
theorem Swept.visit {start current : ConceptId} {found : TextSet} {waiting : List ConceptId}
    (he : Exact graph finished) (hs : Swept graph start found (current :: waiting)) :
    Swept graph start
      (Descendants.visit finished (graph.childrenOf current) (found, waiting)).1
      (Descendants.visit finished (graph.childrenOf current) (found, waiting)).2 := by
  have old : ∀ x, (x = start ∨ x ∈ found) →
      x ∈ (Descendants.visit finished (graph.childrenOf current) (found, waiting)).2 ∨
        ∀ y, graph.Narrower x y →
          y ∈ (Descendants.visit finished (graph.childrenOf current) (found, waiting)).1 := by
    intro x hx
    rcases hs x hx with hw | hc
    · rcases List.mem_cons.mp hw with rfl | hw
      · exact Or.inr fun y step => mem_visit_of_child (mem_childrenOf_iff_narrower.mpr step)
      · exact Or.inl (mem_visit_of_waiting hw)
    · exact Or.inr fun y step => mem_visit_of_found (hc y step)
  intro x hx
  rcases hx with hx | hx
  · exact old x (Or.inl hx)
  · rcases visit_closed he hx with hf | hr
    · exact old x (Or.inr hf)
    · exact hr

/-- When nothing waits any more, the children of all that was found are found. -/
theorem Swept.sweep {start : ConceptId} {found : TextSet} {waiting : List ConceptId}
    (he : Exact graph finished) (hs : Swept graph start found waiting) :
    Swept graph start (Descendants.sweep graph finished found waiting) [] := by
  fun_induction Descendants.sweep graph finished found waiting with
  | case1 => exact hs
  | case2 found current waiting next ih => exact ih (hs.visit he)

/-- Swept from a concept, what is found is exactly what lies below it. -/
theorem mem_sweep (he : Exact graph finished) {start x : ConceptId} :
    x ∈ sweep graph finished TextSet.empty [start] ↔ graph.Below start x := by
  constructor
  · intro h
    rcases found_or_below_of_sweep he h with hf | ⟨top, mem, hb⟩
    · exact absurd hf (TextSet.not_mem_empty x)
    · rw [List.mem_singleton] at mem
      exact mem ▸ hb
  · intro h
    have begun : Swept graph start TextSet.empty [start] := by
      intro y hy
      rcases hy with rfl | hy
      · exact Or.inl List.mem_cons_self
      · exact absurd hy (TextSet.not_mem_empty y)
    refine h.mem_of_closed fun y hy => ?_
    rcases begun.sweep he y hy with hw | hc
    · cases hw
    · exact hc

/-- What is reached from a concept is what lies below it, itself left out. -/
theorem mem_reach (he : Exact graph finished) {start x : ConceptId} :
    x ∈ reach graph finished start ↔ x ≠ start ∧ graph.Below start x := by
  unfold reach
  rw [TextSet.mem_erase, mem_sweep he]
  exact and_comm

end Sweep

section Finish

variable {graph : ConceptGraph} {line ids : List ConceptId} {finished : Descendants}

/-- Looking up an index with one more set in front. -/
theorem below?_cons (key id : ConceptId) (set : TextSet) (sets : List (ConceptId × TextSet)) :
    (⟨(key, set) :: sets⟩ : Descendants).below? id =
      if id = key then some set else (⟨sets⟩ : Descendants).below? id := by
  unfold below?
  by_cases same : id = key
  · rw [if_pos same, same, List.lookup_cons_self]
  · have hb : (id == key) = false := beq_false_of_ne same
    rw [if_neg same, List.lookup_cons, hb]

/-- Finishing sets keeps an index exact. -/
theorem Exact.finish (he : Exact graph finished) :
    Exact graph (Descendants.finish graph line ids finished) := by
  fun_induction Descendants.finish graph line ids finished with
  | case1 => exact he
  | case2 line id others finished known inner ih ih' =>
    apply ih'
    -- the children are finished first, and the sweep of the concept may use their sets
    have hi := ih he
    intro key set hk x
    rw [below?_cons] at hk
    split at hk
    · rename_i same
      cases hk
      rw [same]
      exact mem_reach hi
    · exact hi key set hk x
  | case3 _ _ _ _ _ ih => exact ih he

/-- Finishing sets drops none. -/
theorem finish_isSome_of_isSome {key : ConceptId} (h : (finished.below? key).isSome) :
    ((Descendants.finish graph line ids finished).below? key).isSome := by
  fun_induction Descendants.finish graph line ids finished with
  | case1 => exact h
  | case2 line id others finished known inner ih ih' =>
    apply ih'
    rw [below?_cons]
    split
    · rfl
    · exact ih h
  | case3 _ _ _ _ _ ih => exact ih h

/-- Only concepts of the graph get a set. -/
theorem contains_of_finish_isSome (hf : ∀ key, (finished.below? key).isSome → graph.contains key) :
    ∀ key, ((Descendants.finish graph line ids finished).below? key).isSome →
      graph.contains key := by
  fun_induction Descendants.finish graph line ids finished with
  | case1 => exact hf
  | case2 line id others finished known inner ih ih' =>
    apply ih'
    intro key hk
    rw [below?_cons] at hk
    split at hk
    · rename_i same
      rw [same]
      exact known.1
    · exact ih hf key hk
  | case3 _ _ _ _ _ ih => exact ih hf

/-- Every concept asked for gets a set, those on the path above left out. -/
theorem finish_isSome_of_mem {key : ConceptId} (mem : key ∈ ids) (hc : graph.contains key)
    (hl : key ∉ line) :
    ((Descendants.finish graph line ids finished).below? key).isSome := by
  fun_induction Descendants.finish graph line ids finished with
  | case1 => cases mem
  | case2 line id others finished known inner ih ih' =>
    rcases List.mem_cons.mp mem with rfl | mem
    · apply finish_isSome_of_isSome
      rw [below?_cons, if_pos rfl]
      rfl
    · exact ih' mem hl
  | case3 line id others finished known ih =>
    rcases List.mem_cons.mp mem with rfl | mem
    · apply finish_isSome_of_isSome
      cases hk : finished.below? key with
      | none => exact absurd ⟨hc, hl, hk⟩ known
      | some set => rfl
    · exact ih mem hl

end Finish

/-- The index of a graph is exact, whatever cycles its links form. -/
theorem ofGraph_exact (graph : ConceptGraph) : Exact graph (ofGraph graph) := by
  have hempty : Exact graph {} := fun _ _ h => by cases h
  exact hempty.finish

/-- The index of a graph has an entry for exactly the concepts of the graph. -/
theorem below?_ofGraph_isSome (graph : ConceptGraph) (id : ConceptId) :
    ((ofGraph graph).below? id).isSome = graph.contains id := by
  have hempty : ∀ key, (({} : Descendants).below? key).isSome → graph.contains key :=
    fun _ h => by cases h
  rw [Bool.eq_iff_iff]
  constructor
  · exact contains_of_finish_isSome hempty id
  · intro h
    exact finish_isSome_of_mem (contains_iff.mp h) h List.not_mem_nil

/-- One concept is told to be below another exactly when it is: a known concept, another one,
and linked to it by one or more steps down. -/
theorem isBelow_ofGraph {graph : ConceptGraph} {ancestor candidate : ConceptId} :
    (ofGraph graph).isBelow ancestor candidate = true ↔
      graph.contains ancestor = true ∧ candidate ≠ ancestor ∧ graph.Below ancestor candidate := by
  unfold isBelow
  cases hs : (ofGraph graph).below? ancestor with
  | none =>
    have hc := below?_ofGraph_isSome graph ancestor
    rw [hs] at hc
    simp [← hc]
  | some set =>
    have hc := below?_ofGraph_isSome graph ancestor
    rw [hs] at hc
    simp only [decide_eq_true_eq, ofGraph_exact graph ancestor set hs candidate]
    exact ⟨fun h => ⟨hc.symm, h⟩, fun h => h.2⟩

end Descendants

end Thesaurus

import Thesaurus.Proofs.LayoutSync
import Thesaurus.Proofs.Revealing
import Thesaurus.Proofs.SchemeIsolation
import Thesaurus.Proofs.Unfolding

/-!
# What a search hits, in the trees and in the graph view

The concepts that a search hits are read off the trees, while the graph view draws all concepts.
So a concept with a matching label is hit exactly if some root leads to it. Where links go round
with no root above them, one may be missed, and the graph view then dims a concept that matches.
-/

namespace Thesaurus

namespace Trees

/-- The occurrences of a row without its marks are those of the row, without their marks. -/
theorem walk_unmarked (trees : Trees) : trees.unmarked.walk = trees.walk.map .unmarked := by
  induction trees with
  | empty => rfl
  | node top below beside ihBelow ihBeside =>
    simp only [unmarked, walk, List.map_cons, List.map_append, ihBelow, ihBeside]

/-- A query finds the same concepts in a row whether the row is marked or not. -/
theorem exists_finds_markedBy (query : Query) (trees : Trees) (id : ConceptId) :
    (∃ top ∈ (trees.markedBy query).walk, query.finds top = true ∧ top.id = id) ↔
      ∃ top ∈ trees.walk, query.finds top = true ∧ top.id = id := by
  have hbare : ∀ row : Trees, (∃ top ∈ row.unmarked.walk, query.finds top = true ∧ top.id = id) ↔
      ∃ top ∈ row.walk, query.finds top = true ∧ top.id = id := by
    intro row
    simp only [walk_unmarked, List.mem_map, exists_exists_and_eq_and]
    rfl
  rw [← hbare (trees.markedBy query), unmarked_markedBy, hbare]

end Trees

/-- The hits in a forest that a query marks are the concepts of the occurrences that it finds. -/
theorem Forest.mem_hitConcepts_markedBy {forest : Forest} {query : Query} {id : ConceptId} :
    id ∈ (forest.markedBy query).hitConcepts ↔
      ∃ top ∈ forest.walk, query.finds top = true ∧ top.id = id := by
  have hmarks : id ∈ (forest.markedBy query).hitConcepts ↔
      ∃ top ∈ (forest.roots.markedBy query).walk, query.finds top = true ∧ top.id = id := by
    unfold hitConcepts
    simp only [TextSet.mem_ofList, List.mem_map, List.mem_filter, decide_eq_true_eq]
    constructor
    · rintro ⟨top, ⟨mem, hmark⟩, hid⟩
      exact ⟨top, mem, (Trees.mark_eq_hit_iff mem).mp hmark, hid⟩
    · rintro ⟨top, mem, hfinds, hid⟩
      exact ⟨top, ⟨mem, (Trees.mark_eq_hit_iff mem).mpr hfinds⟩, hid⟩
  rw [hmarks, Trees.exists_finds_markedBy]
  rfl

namespace ConceptGraph

/-- Whether a graph holds a concept of which the preferred label or an alternative one holds the
text of a query. -/
def Matches (graph : ConceptGraph) (query : Query) (id : ConceptId) : Prop :=
  ∃ concept ∈ graph.concepts, concept.id = id ∧
    query.matchesLabels concept.label concept.altLabels = true

variable {graph : ConceptGraph} {query : Query} {id : ConceptId}

/-- A matching concept is one of the graph. -/
theorem Matches.contains (hm : graph.Matches query id) : graph.contains id = true := by
  obtain ⟨concept, mem, hid, _⟩ := hm
  have hmem : concept.id ∈ graph.ids := List.mem_map_of_mem mem
  rw [contains_iff, ← hid]
  exact hmem

/-- Each occurrence in the forest of a graph has the labels of its concept. -/
theorem exists_concept_of_mem_walk {top : Occurrence} (mem : top ∈ graph.project.walk) :
    ∃ concept ∈ graph.concepts, concept.id = top.id ∧ concept.label = top.label ∧
      concept.altLabels = top.altLabels := by
  obtain ⟨tree, ht, rfl⟩ := Trees.mem_walk_iff.mp mem
  obtain ⟨_, _, concept, hgrown⟩ := exists_grown ht
  rw [hgrown.top_eq]
  exact ⟨concept, List.mem_of_find?_eq_some hgrown.found, rfl, rfl, rfl⟩

/-- Where ids are distinct, a query finds an occurrence exactly if it matches the concept. -/
theorem WellLinked.finds_iff (h : graph.WellLinked) {top : Occurrence}
    (mem : top ∈ graph.project.walk) : query.finds top = true ↔ graph.Matches query top.id := by
  obtain ⟨concept, hc, hid, hlabel, halt⟩ := exists_concept_of_mem_walk mem
  unfold Query.finds
  rw [← hlabel, ← halt]
  constructor
  · exact fun hmatch => ⟨concept, hc, hid, hmatch⟩
  · rintro ⟨other, ho, hother, hmatch⟩
    have hsame : other = concept :=
      List.inj_on_of_nodup_map h.ids_distinct ho hc (hother.trans hid.symm)
    rw [← hsame]
    exact hmatch

/-- A search of the trees of a graph hits the matching concepts that some root leads to. -/
theorem WellLinked.mem_hitConcepts (h : graph.WellLinked) :
    id ∈ (graph.project.markedBy query).hitConcepts ↔
      graph.Matches query id ∧ graph.Reached id := by
  rw [Forest.mem_hitConcepts_markedBy, ← h.mem_walk_ids, List.mem_map]
  constructor
  · rintro ⟨top, mem, hfinds, rfl⟩
    exact ⟨(h.finds_iff mem).mp hfinds, top, mem, rfl⟩
  · rintro ⟨hmatch, top, mem, rfl⟩
    exact ⟨top, mem, (h.finds_iff mem).mpr hmatch, rfl⟩

end ConceptGraph

namespace Layout

section Emphasis

variable {layout : Layout} {graph : ConceptGraph} {lines : List LaidLine} {hits : TextSet}
  {node : LaidNode}

/-- While something is searched for, no node is dimmed that the search hits. -/
theorem not_mem_of_emphasisOf {place : Option Nat} {index : Nat} {id : ConceptId}
    (h : emphasisOf lines place (some hits) index id = .dimmed) : id ∉ hits := by
  intro mem
  have hhit : ((some hits).any fun set => decide (id ∈ set)) = true := decide_eq_true mem
  simp only [emphasisOf, hhit, if_true] at h
  split at h
  · cases h
  · split at h <;> cases h

/-- While something is searched for and nothing is selected, every node is dimmed that the search
does not hit. -/
theorem emphasisOf_of_not_mem {index : Nat} {id : ConceptId} (h : id ∉ hits) :
    emphasisOf lines none (some hits) index id = .dimmed := by
  have hmiss : ((some hits).any fun set => decide (id ∈ set)) = false := decide_eq_false h
  have hfocus : ((none : Option Nat).isSome || (some hits).isSome) = true := rfl
  simp only [emphasisOf, hmiss, hfocus, Option.map_none, Option.any_none, Bool.false_eq_true,
    reduceCtorEq, if_false, if_true]

/-- How a node stands out is told by its place and its concept. -/
theorem exists_emphasisOf {selected : Option ConceptId} {searched : Option TextSet}
    (mem : node ∈ (layout.emphasize selected searched).nodes) :
    ∃ index, node.emphasis =
      emphasisOf layout.lines (selected.bind layout.index?) searched index node.id := by
  obtain ⟨index, bound, rfl⟩ := List.mem_mapIdx.mp mem
  exact ⟨index, rfl⟩

end Emphasis

end Layout

namespace Session

/-- How far the hits of a search agree with the graph of a session, and with the graph view that
lays it out. -/
structure HitsReached (session : Session) (hits : TextSet) : Prop where
  /-- The hits are the matching concepts that some root leads to. -/
  mem_iff : ∀ id, id ∈ hits ↔
    session.graph.Matches session.query id ∧ session.graph.Reached id
  /-- They are all matching concepts exactly if some root leads to each of these. -/
  complete_iff : (∀ id, id ∈ hits ↔ session.graph.Matches session.query id) ↔
    ∀ id, session.graph.Matches session.query id → session.graph.Reached id
  /-- In a graph without cycles they are. -/
  complete_of_acyclic : session.graph.Acyclic →
    ∀ id, id ∈ hits ↔ session.graph.Matches session.query id
  /-- A matching concept that is missed is on a cycle or below one. -/
  missed_below_cycle : ∀ id, session.graph.Matches session.query id → id ∉ hits →
    ∃ top, session.graph.Below top top ∧ (top = id ∨ session.graph.Below top id)
  /-- Where the graph is laid out, a matching concept is dimmed only if no root leads to it,
  whatever is selected. -/
  missed_of_dimmed : ∀ layout : Layout, layout.Shows session.graph → ∀ selected,
    ∀ node ∈ (layout.emphasize selected (some hits)).nodes,
      session.graph.Matches session.query node.id → node.emphasis = .dimmed →
        ¬session.graph.Reached node.id
  /-- It is dimmed then if nothing is selected. -/
  dimmed_of_missed : ∀ layout : Layout, layout.Shows session.graph →
    ∀ node ∈ (layout.emphasize none (some hits)).nodes,
      ¬session.graph.Reached node.id → node.emphasis = .dimmed
  /-- The nodes are those of all concepts. -/
  nodes_eq : ∀ layout : Layout, layout.Shows session.graph → ∀ selected,
    (layout.emphasize selected (some hits)).nodes.map LaidNode.id = session.graph.ids

/-- Whether the graph that an action brings, if it brings one, is one that can be made. -/
def Action.BringsBuilt : Action → Prop
  | .receiveScheme _ answer => ∀ graph, answer = .ok graph → graph.Built
  | .receiveAnswer _ _ answer => ∀ graph, answer = .ok graph → graph.Built
  | .setGraph graph => graph.Built
  | _ => True

section BringsBuilt

variable {session : Session}

/-- An answer for whatever scheme brings no graph but its own. -/
theorem built_of_broughtFor {shown : Option String} {scheme : String}
    {answer : Except RequestError ConceptGraph} (hb : ∀ graph, answer = .ok graph → graph.Built)
    (graph : ConceptGraph) (h : broughtFor shown scheme answer = some graph) : graph.Built := by
  unfold broughtFor at h
  split at h
  · cases answer with
    | error error => cases h
    | ok own =>
      cases h
      exact hb graph rfl
  · cases h

/-- The graph that an action brings to a session is one that can be made. -/
theorem Action.BringsBuilt.built_of_brings? {action : Action} (ha : action.BringsBuilt)
    {shown : Option String} {graph : ConceptGraph} (h : action.brings? shown = some graph) :
    graph.Built := by
  cases action with
  | receiveScheme scheme answer => exact built_of_broughtFor ha graph h
  | receiveAnswer scheme change answer => exact built_of_broughtFor ha graph h
  | _ => cases h

/-- Where graphs come that can be made, a session keeps to such graphs. -/
theorem built_act (hg : session.graph.Built) {action : Action} (ha : action.BringsBuilt) :
    (session.act action).graph.Built := by
  by_cases hturn : ∃ scheme, action = .turnTo scheme
  · obtain ⟨scheme, rfl⟩ := hturn
    exact ConceptGraph.Built.empty
  · by_cases hset : ∃ graph, action = .setGraph graph
    · obtain ⟨graph, rfl⟩ := hset
      exact ha
    · obtain ⟨_, hshown⟩ := session.graph_act (fun scheme h => hturn ⟨scheme, h⟩)
        (fun graph h => hset ⟨graph, h⟩)
      rw [hshown]
      cases hbrings : action.brings? session.scheme with
      | none => exact hg
      | some graph => exact ha.built_of_brings? hbrings

/-- So it does in a whole run. -/
theorem built_run (hg : session.graph.Built) {actions : List Action}
    (ha : ∀ action ∈ actions, action.BringsBuilt) : (session.run actions).graph.Built := by
  induction actions generalizing session with
  | nil => exact hg
  | cons action rest ih =>
    have hnext := built_act hg (ha action List.mem_cons_self)
    exact ih hnext fun later mem => ha later (List.mem_cons_of_mem action mem)

end BringsBuilt

/-- In every session that a new one can come to with graphs that can be made, a search hits the
matching concepts that some root leads to, and no others: it misses a matching concept only if that
is on a cycle or below one, and such a concept is the only matching one that the graph view dims. -/
theorem hits_reached (settings : Settings) (actions : List Action)
    (hbuilt : ∀ action ∈ actions, action.BringsBuilt)
    (hsearch : ((new settings).run actions).isSearching = true) :
    ∃ hits, ((new settings).run actions).hitConcepts = some hits ∧
      ((new settings).run actions).HitsReached hits := by
  have hderived := (new_derived settings).run actions
  have hgraph : ((new settings).run actions).graph.Built := built_run .empty hbuilt
  have hlinked := hgraph.wellLinked
  have hhits : ((new settings).run actions).hitConcepts =
      some ((new settings).run actions).forest.hitConcepts := if_pos hsearch
  refine ⟨_, hhits, ?_⟩
  rw [hderived.forest_eq]
  generalize (new settings).run actions = session at hlinked ⊢
  have hmem : ∀ id, id ∈ (session.graph.project.markedBy session.query).hitConcepts ↔
      session.graph.Matches session.query id ∧ session.graph.Reached id :=
    fun id => hlinked.mem_hitConcepts
  have hcycle : ∀ id, session.graph.Matches session.query id →
      id ∉ (session.graph.project.markedBy session.query).hitConcepts →
        ∃ top, session.graph.Below top top ∧ (top = id ∨ session.graph.Below top id) := by
    intro id hmatch hmissed
    have hunreached : ¬session.graph.Reached id :=
      fun hreached => hmissed ((hmem id).mpr ⟨hmatch, hreached⟩)
    exact (hlinked.reached_or_below_cycle hmatch.contains).resolve_left hunreached
  constructor
  · exact hmem
  · simp only [hmem, and_iff_left_iff_imp]
  · intro hacyclic id
    refine ⟨fun mem => ((hmem id).mp mem).1, fun hmatch => ?_⟩
    by_contra hmissed
    obtain ⟨top, htop, _⟩ := hcycle id hmatch hmissed
    exact hacyclic top htop
  · exact hcycle
  · intro layout hshows selected node hnode hmatch hdimmed hreached
    obtain ⟨index, hemphasis⟩ := Layout.exists_emphasisOf hnode
    rw [hdimmed] at hemphasis
    exact Layout.not_mem_of_emphasisOf hemphasis.symm ((hmem _).mpr ⟨hmatch, hreached⟩)
  · intro layout hshows node hnode hunreached
    obtain ⟨index, hemphasis⟩ := Layout.exists_emphasisOf hnode
    rw [hemphasis]
    exact Layout.emphasisOf_of_not_mem fun mem => hunreached ((hmem _).mp mem).2
  · intro layout hshows selected
    exact (hshows.congr (Layout.scene_emphasize layout selected _)).ids_eq

/-- The tangled records are loaded and searched for a text. -/
def tangledSearched (typed : String) : List Action :=
  [.turnTo "kennel", .receiveScheme "kennel" (.ok (ConceptGraph.ofRecords ConceptGraph.tangled)),
    .search typed]

/-- A search that the labels of the hounds and of the south match hits the hounds, to which roots
lead down a cycle, and misses the south, above which there is no root. -/
theorem hits_reached_hounds :
    (∀ action ∈ tangledSearched "OU", action.BringsBuilt) ∧
    ((new Samples.settings).run (tangledSearched "OU")).isSearching = true ∧
    ∃ hits, ((new Samples.settings).run (tangledSearched "OU")).hitConcepts = some hits ∧
      ((new Samples.settings).run (tangledSearched "OU")).HitsReached hits ∧
      "hounds" ∈ hits ∧ "south" ∉ hits := by
  have hbuilt : ∀ action ∈ tangledSearched "OU", action.BringsBuilt := by
    intro action mem
    simp only [tangledSearched, List.mem_cons, List.not_mem_nil, or_false] at mem
    rcases mem with rfl | rfl | rfl
    · exact trivial
    · intro graph h
      cases h
      exact .ofRecords ConceptGraph.tangled
    · exact trivial
  have hsearch : ((new Samples.settings).run (tangledSearched "OU")).isSearching = true := by
    decide +kernel
  obtain ⟨hits, hhits, hreached⟩ := hits_reached Samples.settings (tangledSearched "OU") hbuilt
    hsearch
  have hlisted : ((new Samples.settings).run (tangledSearched "OU")).hitConcepts =
      some (TextSet.singleton "hounds") := by
    decide +kernel
  have hsame : hits = TextSet.singleton "hounds" := Option.some.inj (hhits.symm.trans hlisted)
  refine ⟨hbuilt, hsearch, hits, hhits, hreached, ?_, ?_⟩
  · rw [hsame]
    decide
  · rw [hsame]
    decide

/-- A search for the north, which is on a cycle with no root above it, hits nothing, though a label
matches, and the graph view dims the node of the north. -/
theorem north_missed_and_dimmed :
    ((new Samples.settings).run (tangledSearched "North")).isSearching = true ∧
    ((new Samples.settings).run (tangledSearched "North")).graph.Matches
      ((new Samples.settings).run (tangledSearched "North")).query "north" ∧
    ((new Samples.settings).run (tangledSearched "North")).hitConcepts = some TextSet.empty ∧
    ((Layout.ofSnapshot (Snapshot.ofGraph
          ((new Samples.settings).run (tangledSearched "North")).graph) 640 480
        Samples.settings.layout).emphasize none
      ((new Samples.settings).run (tangledSearched "North")).hitConcepts).emphasis? "north" =
      some .dimmed := by
  unfold ConceptGraph.Matches
  decide +kernel

end Session

end Thesaurus

import Thesaurus.Proofs.SessionEvents
import Thesaurus.Samples

/-!
# What a session derives from its graph

A session keeps an index of descendants, the projected trees, the query and the marked trees
beside its graph, its search text and its settings. These never drift apart: every action takes
a session in which they agree to one in which they agree. A drag in progress holds a concept of
the graph, provided it took hold of one.
-/

namespace Thesaurus.Session

/-- What may happen to a session: an act of its user, or an answer that comes in. -/
inductive Action where
  /-- Turn to a scheme. -/
  | turnTo (scheme : String)
  /-- The answer to a load comes in. -/
  | receiveScheme (scheme : String) (answer : Except RequestError ConceptGraph)
  /-- The answer to a change comes in. -/
  | receiveAnswer (scheme : String) (change : ParentChange)
      (answer : Except RequestError ConceptGraph)
  /-- Show another graph. -/
  | setGraph (graph : ConceptGraph)
  /-- Search for a text. -/
  | search (typed : String)
  /-- Open or close a path. -/
  | toggle (path : PathText)
  /-- Open everything. -/
  | expandAll
  /-- Close everything. -/
  | collapseAll
  /-- Select a concept, or none. -/
  | select (id : Option ConceptId)
  /-- Open what is above the selected concept. -/
  | revealSelected
  /-- Forget the last error. -/
  | dismissError
  /-- Take hold of an occurrence. -/
  | grab (id : ConceptId) (path : PathText)
  /-- Hover over a place. -/
  | hover (place : DropPlace) (modifier : Bool)
  /-- Release the drag. -/
  | drop (place : Option DropPlace) (modifier : Bool)
  /-- Let go of what is dragged. -/
  | letGo

/-- The session after an action. -/
def act (session : Session) : Action → Session
  | .turnTo scheme => session.turnTo scheme
  | .receiveScheme scheme answer => (session.receiveScheme scheme answer).2
  | .receiveAnswer scheme change answer => (session.receiveAnswer scheme change answer).2
  | .setGraph graph => session.setGraph graph
  | .search typed => session.search typed
  | .toggle path => session.toggle path
  | .expandAll => session.expandAll
  | .collapseAll => session.collapseAll
  | .select id => session.select id
  | .revealSelected => session.revealSelected.2
  | .dismissError => session.dismissError
  | .grab id path => session.grab id path
  | .hover place modifier => session.hover place modifier
  | .drop place modifier => (session.drop place modifier).2
  | .letGo => session.letGo

/-- Whether an action leaves the scheme and its graph to the answers that come in. -/
def Action.isLocal : Action → Bool
  | .turnTo _ => false
  | .receiveScheme .. => false
  | .receiveAnswer .. => false
  | .setGraph _ => false
  | _ => true

/-- The change that an action asks for. -/
def wanted? (session : Session) : Action → Option ParentChange
  | .drop place modifier =>
    match (session.drop place modifier).1 with
    | .ok (.wanted request) => some request
    | _ => none
  | _ => none

/-- The session after some actions. -/
def run (session : Session) (actions : List Action) : Session := actions.foldl act session

/-- Further actions are taken in the session come to. -/
theorem run_append (session : Session) (before after : List Action) :
    session.run (before ++ after) = (session.run before).run after :=
  List.foldl_append

section Outlook

variable {session : Session}

/-- What tells which graph of which scheme is shown, and whether it is known to be out of date. -/
def outlook (session : Session) : Option String × ConceptGraph × Bool :=
  (session.scheme, session.graph, session.stale)

/-- What a session tells consists of its scheme, its graph and whether it is out of date. -/
theorem outlook_eq_mk_iff {scheme : Option String} {graph : ConceptGraph} {stale : Bool} :
    session.outlook = (scheme, graph, stale) ↔
      session.scheme = scheme ∧ session.graph = graph ∧ session.stale = stale := by
  unfold outlook
  rw [Prod.mk.injEq, Prod.mk.injEq]

/-- Sessions tell the same if they agree in the scheme, the graph and whether it is out of date. -/
theorem outlook_eq_iff {other : Session} :
    session.outlook = other.outlook ↔
      session.scheme = other.scheme ∧ session.graph = other.graph ∧
        session.stale = other.stale :=
  outlook_eq_mk_iff

/-- A local action shows the same graph, and as up to date as before. -/
theorem outlook_act {action : Action} (h : action.isLocal = true) :
    (session.act action).outlook = session.outlook := by
  cases action with
  | turnTo scheme => cases h
  | receiveScheme scheme answer => cases h
  | receiveAnswer scheme change answer => cases h
  | setGraph graph => cases h
  | search typed => rfl
  | toggle path => rfl
  | expandAll => rfl
  | collapseAll => rfl
  | select id => rfl
  | revealSelected =>
    obtain ⟨expansion, h⟩ := session.revealSelected_eq
    show session.revealSelected.2.outlook = session.outlook
    rw [h]
    rfl
  | dismissError => rfl
  | grab id path =>
    show (session.grab id path).outlook = session.outlook
    cases hp : session.isPending id with
    | true => rw [grab_of_pending hp]
    | false =>
      rw [grab_of_idle hp]
      rfl
  | hover place modifier => rfl
  | drop place modifier =>
    show (session.drop place modifier).2.outlook = session.outlook
    rcases session.drop_cases place modifier with ⟨_, _, _, h⟩ | ⟨_, _, _, h⟩ | ⟨_, _, h⟩ <;>
      rw [h] <;> rfl
  | letGo => rfl

end Outlook

/-- A session in which all that is derived agrees with what it is derived from. -/
structure Derived (settings : Settings) (session : Session) : Prop where
  /-- The settings are those that the session was made with. -/
  settings_eq : session.settings = settings
  /-- The index is that of the graph. -/
  index_eq : session.index = Descendants.ofGraph session.graph
  /-- The query is that of the search text. -/
  query_eq : session.query = Query.ofText session.searchText settings.tree.searchMinChars
  /-- The trees are those of the graph. -/
  projection_eq : session.projection = session.graph.project
  /-- The marked trees are the trees of the graph, marked by the query. -/
  forest_eq : session.forest = session.graph.project.markedBy session.query

/-- What the derived parts of a session depend on, and these parts. -/
def shown (session : Session) :
    Settings × ConceptGraph × Descendants × Forest × Forest × String × Query :=
  (session.settings, session.graph, session.index, session.projection, session.forest,
    session.searchText, session.query)

/-- Nothing is below anything in the graph without concepts. -/
theorem ofGraph_empty : Descendants.ofGraph ConceptGraph.empty = {} := by
  show Descendants.finish ConceptGraph.empty [] [] {} = {}
  rw [Descendants.finish]

/-- The graph without concepts has no trees. -/
theorem project_empty : ConceptGraph.empty.project = {} := by
  have hgrow : Projection.grow ConceptGraph.empty none [] [] = .empty := by
    rw [Projection.grow]
  show (⟨Projection.grow ConceptGraph.empty none [] [], []⟩ : Forest) = {}
  rw [hgrow]

/-- An empty search text makes an inactive query, however short a text may be. -/
theorem ofText_empty (minChars : Nat) : Query.ofText "" minChars = Query.inactive := rfl

section Derived

variable {settings : Settings} {session : Session}

/-- A new session is in agreement, though nothing was derived yet. -/
theorem new_derived (settings : Settings) : (new settings).Derived settings where
  settings_eq := rfl
  index_eq := ofGraph_empty.symm
  query_eq := (ofText_empty _).symm
  projection_eq := project_empty.symm
  forest_eq := by
    show ({} : Forest) = ConceptGraph.empty.project.markedBy Query.inactive
    rw [project_empty]
    rfl

/-- What touches neither the graph nor the search keeps a session in agreement. -/
theorem Derived.congr {next : Session} (hd : session.Derived settings)
    (h : next.shown = session.shown) : next.Derived settings := by
  simp only [shown, Prod.mk.injEq] at h
  obtain ⟨hs, hg, hi, hp, hf, ht, hq⟩ := h
  constructor
  · rw [hs, hd.settings_eq]
  · rw [hi, hg, hd.index_eq]
  · rw [hq, ht, hd.query_eq]
  · rw [hp, hg, hd.projection_eq]
  · rw [hf, hg, hq, hd.forest_eq]

/-- Marking the trees brings the marked ones into agreement. -/
theorem derived_remark (hs : session.settings = settings)
    (hi : session.index = Descendants.ofGraph session.graph)
    (hq : session.query = Query.ofText session.searchText settings.tree.searchMinChars)
    (hp : session.projection = session.graph.project) : session.remark.Derived settings where
  settings_eq := hs
  index_eq := hi
  query_eq := hq
  projection_eq := hp
  forest_eq := by
    show session.projection.markedBy session.query = _
    rw [hp]
    rfl

/-- Showing a graph brings all but the query into agreement. -/
theorem derived_setGraph (session : Session) (hs : session.settings = settings)
    (hq : session.query = Query.ofText session.searchText settings.tree.searchMinChars)
    (graph : ConceptGraph) : (session.setGraph graph).Derived settings :=
  derived_remark hs rfl hq rfl

/-- The answer to a load keeps a session in agreement. -/
theorem Derived.receiveScheme (hd : session.Derived settings) (scheme : String)
    (answer : Except RequestError ConceptGraph) :
    (session.receiveScheme scheme answer).2.Derived settings := by
  rcases session.receiveScheme_cases scheme answer with
    ⟨_, h⟩ | ⟨graph, expansion, _, _, h⟩ | ⟨error, _, _, h⟩
  · rw [h]
    exact hd
  · have hg := derived_setGraph { session with stale := false } hd.settings_eq hd.query_eq graph
    rw [h]
    exact hg.congr rfl
  · rw [h]
    exact hd.congr rfl

/-- The answer to a change keeps a session in agreement. -/
theorem Derived.receiveAnswer (hd : session.Derived settings) (scheme : String)
    (change : ParentChange) (answer : Except RequestError ConceptGraph) :
    (session.receiveAnswer scheme change answer).2.Derived settings := by
  rcases session.receiveAnswer_cases scheme change answer with
    ⟨graph, _, _, h⟩ | ⟨graph, _, _, h⟩ | ⟨error, _, h⟩
  · rw [h]
    apply derived_setGraph
    · exact hd.settings_eq
    · exact hd.query_eq
  · rw [h]
    exact hd.congr rfl
  · rw [h]
    exact hd.congr rfl

/-- Every action keeps a session in agreement. -/
theorem Derived.act (hd : session.Derived settings) (action : Action) :
    (session.act action).Derived settings := by
  cases action with
  | turnTo scheme =>
    -- the search is reset before the empty graph is marked, whatever the settings ask of a text
    apply derived_setGraph
    · exact hd.settings_eq
    · exact (ofText_empty _).symm
  | receiveScheme scheme answer => exact hd.receiveScheme scheme answer
  | receiveAnswer scheme change answer => exact hd.receiveAnswer scheme change answer
  | setGraph graph => exact derived_setGraph session hd.settings_eq hd.query_eq graph
  | search typed =>
    refine derived_remark hd.settings_eq hd.index_eq ?_ hd.projection_eq
    show Query.ofText typed session.settings.tree.searchMinChars = _
    rw [hd.settings_eq]
  | toggle path => exact hd.congr rfl
  | expandAll => exact hd.congr rfl
  | collapseAll => exact hd.congr rfl
  | select id => exact hd.congr rfl
  | revealSelected =>
    obtain ⟨expansion, h⟩ := session.revealSelected_eq
    show session.revealSelected.2.Derived settings
    rw [h]
    exact hd.congr rfl
  | dismissError => exact hd.congr rfl
  | grab id path =>
    show (session.grab id path).Derived settings
    cases hp : session.isPending id with
    | true =>
      rw [grab_of_pending hp]
      exact hd
    | false =>
      rw [grab_of_idle hp]
      exact hd.congr rfl
  | hover place modifier => exact hd.congr rfl
  | drop place modifier =>
    show (session.drop place modifier).2.Derived settings
    rcases session.drop_cases place modifier with ⟨_, _, _, h⟩ | ⟨_, _, _, h⟩ | ⟨_, _, h⟩
    · rw [h]
      exact hd.congr rfl
    · rw [h]
      exact hd.congr rfl
    · rw [h]
      exact hd.congr rfl
  | letGo => exact hd.congr rfl

/-- Every run keeps a session in agreement. -/
theorem Derived.run (hd : session.Derived settings) (actions : List Action) :
    (session.run actions).Derived settings := by
  induction actions generalizing session with
  | nil => exact hd
  | cons action rest ih => exact ih (hd.act action)

end Derived

section Drag

/-- The concept that is dragged, if any is, belongs to the graph. -/
def HoldsKnown (session : Session) : Prop :=
  ∀ grip, session.drag = some grip → session.graph.contains grip.concept = true

/-- Whether an action, if it takes hold of a concept, takes hold of one of the graph. -/
def Action.GrabsKnown (session : Session) : Action → Prop
  | .grab id _ => session.graph.contains id = true
  | _ => True

/-- Whether each action of a run that takes hold of a concept takes hold of one of the graph
that is shown at that moment. -/
def GrabsKnown (session : Session) : List Action → Prop
  | [] => True
  | action :: rest => action.GrabsKnown session ∧ GrabsKnown (session.act action) rest

variable {session : Session}

/-- With the same graph, and nothing dragged but what was dragged before, what is dragged still
belongs to the graph. -/
theorem HoldsKnown.congr {next : Session} (hk : session.HoldsKnown)
    (hg : next.graph = session.graph)
    (hd : ∀ grip, next.drag = some grip →
      ∃ old, session.drag = some old ∧ grip.concept = old.concept) : next.HoldsKnown := by
  intro grip hn
  obtain ⟨old, ho, hc⟩ := hd grip hn
  rw [hg, hc]
  exact hk old ho

/-- With the same graph and the same drag, what is dragged still belongs to the graph. -/
theorem HoldsKnown.same {next : Session} (hk : session.HoldsKnown)
    (hg : next.graph = session.graph) (hd : next.drag = session.drag) : next.HoldsKnown :=
  hk.congr hg fun grip hn => ⟨grip, hd ▸ hn, rfl⟩

/-- Nothing is dragged after the end of a drag. -/
theorem HoldsKnown.of_idle {next : Session} (hd : next.drag = none) : next.HoldsKnown := by
  intro grip hn
  rw [hd] at hn
  cases hn

/-- A graph that is shown keeps a drag only if it holds the dragged concept. -/
theorem holdsKnown_setGraph (session : Session) (graph : ConceptGraph) :
    (session.setGraph graph).HoldsKnown := by
  intro grip hn
  have hf : session.drag.filter (fun grip => graph.contains grip.concept) = some grip := hn
  exact (Option.filter_eq_some_iff.mp hf).2

/-- The answer to a load keeps the dragged concept in the graph. -/
theorem HoldsKnown.receiveScheme (hk : session.HoldsKnown) (scheme : String)
    (answer : Except RequestError ConceptGraph) :
    (session.receiveScheme scheme answer).2.HoldsKnown := by
  rcases session.receiveScheme_cases scheme answer with
    ⟨_, h⟩ | ⟨graph, expansion, _, _, h⟩ | ⟨error, _, _, h⟩
  · rw [h]
    exact hk
  · have hg := holdsKnown_setGraph { session with stale := false } graph
    rw [h]
    exact hg.same rfl rfl
  · rw [h]
    exact hk.same rfl rfl

/-- The answer to a change keeps the dragged concept in the graph. -/
theorem HoldsKnown.receiveAnswer (hk : session.HoldsKnown) (scheme : String)
    (change : ParentChange) (answer : Except RequestError ConceptGraph) :
    (session.receiveAnswer scheme change answer).2.HoldsKnown := by
  rcases session.receiveAnswer_cases scheme change answer with
    ⟨graph, _, _, h⟩ | ⟨graph, _, _, h⟩ | ⟨error, _, h⟩
  · rw [h]
    exact holdsKnown_setGraph _ graph
  · rw [h]
    exact hk.same rfl rfl
  · rw [h]
    exact hk.same rfl rfl

/-- Every action keeps the dragged concept in the graph, if it takes hold of none but of the
graph. -/
theorem HoldsKnown.act (hk : session.HoldsKnown) {action : Action}
    (ha : action.GrabsKnown session) : (session.act action).HoldsKnown := by
  cases action with
  | turnTo scheme => exact holdsKnown_setGraph _ _
  | receiveScheme scheme answer => exact hk.receiveScheme scheme answer
  | receiveAnswer scheme change answer => exact hk.receiveAnswer scheme change answer
  | setGraph graph => exact holdsKnown_setGraph session graph
  | search typed => exact hk.same rfl rfl
  | toggle path => exact hk.same rfl rfl
  | expandAll => exact hk.same rfl rfl
  | collapseAll => exact hk.same rfl rfl
  | select id => exact hk.same rfl rfl
  | revealSelected =>
    obtain ⟨expansion, h⟩ := session.revealSelected_eq
    show session.revealSelected.2.HoldsKnown
    rw [h]
    exact hk.same rfl rfl
  | dismissError => exact hk.same rfl rfl
  | grab id path =>
    show (session.grab id path).HoldsKnown
    cases hp : session.isPending id with
    | true =>
      rw [grab_of_pending hp]
      exact hk
    | false =>
      rw [grab_of_idle hp]
      intro grip hn
      cases hn
      exact ha
  | hover place modifier =>
    refine hk.congr rfl fun grip hn => ?_
    obtain ⟨old, ho, hg⟩ := Option.map_eq_some_iff.mp hn
    exact ⟨old, ho, hg ▸ rfl⟩
  | drop place modifier => exact HoldsKnown.of_idle (session.drag_drop place modifier)
  | letGo => exact HoldsKnown.of_idle rfl

/-- Every run that takes hold of concepts of the graph only keeps the dragged concept in it. -/
theorem HoldsKnown.run (hk : session.HoldsKnown) {actions : List Action}
    (ha : session.GrabsKnown actions) : (session.run actions).HoldsKnown := by
  induction actions generalizing session with
  | nil => exact hk
  | cons action rest ih => exact ih (hk.act ha.1) ha.2

/-- Where the dragged concept belongs to the graph, no place is refused because it is lost. -/
theorem HoldsKnown.verdict_ne (hk : session.HoldsKnown) (place : DropPlace) :
    session.verdict place ≠ .lostConcept := by
  unfold Session.verdict Drag.verdict
  cases hd : session.drag with
  | none => exact Verdict.noConfusion
  | some grip =>
    have hc := hk grip hd
    cases place with
    | top =>
      simp only [Grip.verdict, hc, Bool.not_true, Bool.false_eq_true, if_false]
      split <;> exact Verdict.noConfusion
    | concept id =>
      simp only [Grip.verdict, hc, Bool.not_true, Bool.false_eq_true, if_false]
      split
      · exact Verdict.noConfusion
      · split
        · exact Verdict.noConfusion
        · split
          · exact Verdict.noConfusion
          · split <;> exact Verdict.noConfusion

end Drag

/-- In every session that a new one can come to, whatever happens in whatever order, all that is
derived agrees with the graph, the search text and the settings; and if every drag took hold of a
concept of the graph shown then, the dragged concept is in the graph shown now, so no place is
refused because the concept is lost. -/
theorem run_derived (settings : Settings) (actions : List Action) :
    ((new settings).run actions).Derived settings ∧
      ((new settings).GrabsKnown actions →
        ((new settings).run actions).HoldsKnown ∧
          ∀ place, ((new settings).run actions).verdict place ≠ .lostConcept) := by
  refine ⟨(new_derived settings).run actions, fun ha => ?_⟩
  have hk : ((new settings).run actions).HoldsKnown := (HoldsKnown.of_idle rfl).run ha
  exact ⟨hk, hk.verdict_ne⟩

/-- A run in which the graph is replaced in the middle of a search and a drag. -/
def replacedMidway : List Action :=
  [.turnTo "animals", .receiveScheme "animals" (.ok (ConceptGraph.ofRecords Samples.animals)),
    .search "dog", .grab "dogs" "pets/dogs", .hover (.concept "birds") true,
    .setGraph (ConceptGraph.ofRecords (Samples.animals.filter (·.id != "birds"))),
    .hover (.concept "mammals") false]

/-- A drag of dogs goes on when birds are gone. -/
theorem run_derived_replaced_midway :
    (new Samples.settings).GrabsKnown replacedMidway ∧
      ((new Samples.settings).run replacedMidway).drag.isSome = true ∧
      ((new Samples.settings).run replacedMidway).HoldsKnown ∧
        ∀ place, ((new Samples.settings).run replacedMidway).verdict place ≠ .lostConcept := by
  have hg : (new Samples.settings).GrabsKnown replacedMidway := by
    refine ⟨trivial, trivial, trivial, ?_, trivial, trivial, trivial, trivial⟩
    show (ConceptGraph.ofRecords Samples.animals).contains "dogs" = true
    decide +kernel
  have hd : ((new Samples.settings).run replacedMidway).drag.isSome = true := by decide +kernel
  exact ⟨hg, hd, (run_derived Samples.settings replacedMidway).2 hg⟩

end Thesaurus.Session

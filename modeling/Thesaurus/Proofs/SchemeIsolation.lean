import Thesaurus.Proofs.SessionRun

/-!
# One scheme at a time

While answers come in late and the user turns from scheme to scheme and back, a session shows no
graph but one that came for the scheme it shows, since it turned to that scheme, and of these the
last. An answer for another scheme settles its change and tells its error, and does nothing else.
Turning to a scheme leaves nothing of what was before but the changes under way.
-/

namespace Thesaurus.Session

/-- The graph that an answer for a scheme brings while a scheme is shown: its own, if that is the
scheme, and none else. -/
def broughtFor (shown : Option String) (scheme : String)
    (answer : Except RequestError ConceptGraph) : Option ConceptGraph :=
  if shown = some scheme then answer.toOption else none

/-- The graph that an action brings while a scheme is shown. -/
def Action.brings? (shown : Option String) : Action → Option ConceptGraph
  | .receiveScheme scheme answer => broughtFor shown scheme answer
  | .receiveAnswer scheme _ answer => broughtFor shown scheme answer
  | _ => none

/-- The graphs that some actions bring while a scheme is shown, in the order in which they come. -/
def graphsFor (shown : Option String) (actions : List Action) : List ConceptGraph :=
  actions.filterMap (Action.brings? shown)

section Shown

variable {session : Session} {scheme : String}

/-- A scheme is shown exactly if it is that of the session. -/
theorem shows_iff : session.shows scheme = true ↔ session.scheme = some scheme := beq_iff_eq

/-- An answer to a load of a scheme that is not shown changes nothing. -/
theorem receiveScheme_of_not_shown (h : session.shows scheme = false)
    (answer : Except RequestError ConceptGraph) :
    session.receiveScheme scheme answer = (.ok (), session) := by
  unfold receiveScheme
  rw [h]
  rfl

/-- An answer to a change in a scheme that is not shown settles the change and tells its error. -/
theorem receiveAnswer_of_not_shown (h : session.shows scheme = false) (change : ParentChange)
    (answer : Except RequestError ConceptGraph) :
    (session.receiveAnswer scheme change answer).2 = { session with
      pending := session.pending.erase change.concept
      lastError := match answer with
        | .ok _ => session.lastError
        | .error error => some error.message } := by
  unfold receiveAnswer
  cases answer with
  | ok graph =>
    dsimp only
    rw [h]
    rfl
  | error error =>
    dsimp only
    rw [h, Bool.and_false, Bool.or_false]

/-- Turning to a scheme makes a session as if it was new, but for the changes under way and the
count of the forests made. -/
theorem turnTo_eq (session : Session) (scheme : String) :
    session.turnTo scheme = { (new session.settings).turnTo scheme with
      pending := session.pending
      edition := session.edition + 1 } := rfl

/-- An answer for the scheme that is shown brings its graph. -/
theorem broughtFor_of_shown (h : session.shows scheme = true)
    (answer : Except RequestError ConceptGraph) :
    broughtFor session.scheme scheme answer = answer.toOption := by
  unfold broughtFor
  rw [if_pos (shows_iff.mp h)]

/-- An answer for another scheme brings no graph. -/
theorem broughtFor_of_not_shown (h : session.shows scheme = false)
    (answer : Except RequestError ConceptGraph) :
    broughtFor session.scheme scheme answer = none := by
  have hother : session.scheme ≠ some scheme :=
    fun same => Bool.false_ne_true (h.symm.trans (shows_iff.mpr same))
  unfold broughtFor
  rw [if_neg hother]

/-- The answer to a load keeps the scheme, and its graph is shown if it brings one. -/
theorem graph_receiveScheme (session : Session) (scheme : String)
    (answer : Except RequestError ConceptGraph) :
    (session.receiveScheme scheme answer).2.scheme = session.scheme ∧
      (session.receiveScheme scheme answer).2.graph =
        (broughtFor session.scheme scheme answer).getD session.graph := by
  rcases session.receiveScheme_cases scheme answer with
    ⟨hother, h⟩ | ⟨graph, expansion, rfl, hshown, h⟩ | ⟨error, rfl, hshown, h⟩
  · rw [h, broughtFor_of_not_shown hother]
    exact ⟨rfl, rfl⟩
  · rw [h, broughtFor_of_shown hshown]
    exact ⟨rfl, rfl⟩
  · rw [h, broughtFor_of_shown hshown]
    exact ⟨rfl, rfl⟩

/-- The answer to a change keeps the scheme, and its graph is shown if it brings one. -/
theorem graph_receiveAnswer (session : Session) (scheme : String) (change : ParentChange)
    (answer : Except RequestError ConceptGraph) :
    (session.receiveAnswer scheme change answer).2.scheme = session.scheme ∧
      (session.receiveAnswer scheme change answer).2.graph =
        (broughtFor session.scheme scheme answer).getD session.graph := by
  rcases session.receiveAnswer_cases scheme change answer with
    ⟨graph, rfl, hshown, h⟩ | ⟨graph, rfl, hother, h⟩ | ⟨error, rfl, h⟩
  · rw [h, broughtFor_of_shown hshown]
    exact ⟨rfl, rfl⟩
  · rw [h, broughtFor_of_not_shown hother]
    exact ⟨rfl, rfl⟩
  · have hnone : broughtFor session.scheme scheme (.error error) = none := ite_self none
    rw [h, hnone]
    exact ⟨rfl, rfl⟩

/-- An action that neither turns to a scheme nor shows a graph by itself keeps the scheme, and the
graph that it brings is shown, if it brings one. -/
theorem graph_act (session : Session) {action : Action}
    (hturn : ∀ scheme, action ≠ .turnTo scheme) (hset : ∀ graph, action ≠ .setGraph graph) :
    (session.act action).scheme = session.scheme ∧
      (session.act action).graph = (action.brings? session.scheme).getD session.graph := by
  have hlocal : action.isLocal = true → (session.act action).scheme = session.scheme ∧
      (session.act action).graph = session.graph := by
    intro h
    obtain ⟨hscheme, hgraph, _⟩ := outlook_eq_iff.mp (session.outlook_act h)
    exact ⟨hscheme, hgraph⟩
  cases action with
  | turnTo scheme => exact absurd rfl (hturn scheme)
  | setGraph graph => exact absurd rfl (hset graph)
  | receiveScheme scheme answer => exact session.graph_receiveScheme scheme answer
  | receiveAnswer scheme change answer => exact session.graph_receiveAnswer scheme change answer
  | _ => exact hlocal rfl

/-- While no scheme is turned to and no graph shown by itself, the scheme is kept, and the graph
that came for it last is shown, or that from the start where none came. -/
theorem graph_run (session : Session) {actions : List Action}
    (hturn : ∀ scheme, .turnTo scheme ∉ actions) (hset : ∀ graph, .setGraph graph ∉ actions) :
    (session.run actions).scheme = session.scheme ∧
      (session.run actions).graph =
        (graphsFor session.scheme actions).getLast?.getD session.graph := by
  induction actions generalizing session with
  | nil => exact ⟨rfl, rfl⟩
  | cons action rest ih =>
    obtain ⟨hscheme, hgraph⟩ := session.graph_act
      (fun scheme same => hturn scheme (same ▸ List.mem_cons_self))
      (fun graph same => hset graph (same ▸ List.mem_cons_self))
    obtain ⟨hlast, hshown⟩ := ih (session.act action)
      (fun scheme mem => hturn scheme (List.mem_cons_of_mem action mem))
      (fun graph mem => hset graph (List.mem_cons_of_mem action mem))
    refine ⟨hlast.trans hscheme, hshown.trans ?_⟩
    rw [hscheme, hgraph]
    unfold graphsFor
    cases hbrings : action.brings? session.scheme with
    | none => rw [List.filterMap_cons_none hbrings, Option.getD_none]
    | some graph =>
      rw [List.filterMap_cons_some hbrings, List.getLast?_cons, Option.getD_some, Option.getD_some]

/-- While no scheme is shown, no graph comes for it. -/
theorem graphsFor_none (actions : List Action) : graphsFor none actions = [] := by
  unfold graphsFor
  rw [List.filterMap_eq_nil_iff]
  intro action _
  cases action <;> rfl

end Shown

/-- Where graphs are shown only by turning to a scheme and by answers that come in, a session shows
no graph but the one that came last for its scheme since it turned to that scheme, however late
answers come and however schemes are turned to; a session that never turned to one shows none. In
every session that a new one can come to, an answer to a load of another scheme changes nothing, and
an answer to a change in another scheme nothing but the changes under way and the last error; and
turning to a scheme makes of it what turning there makes of a new session, but for the changes under
way, and the count by which a view tells a forest from the one before. -/
theorem run_isolated (settings : Settings) (actions : List Action) :
    ((∀ graph, .setGraph graph ∉ actions) →
      ((∀ scheme, .turnTo scheme ∉ actions) →
        ((new settings).run actions).scheme = none ∧
          ((new settings).run actions).graph = ConceptGraph.empty) ∧
      ∀ before scheme after, actions = before ++ .turnTo scheme :: after →
        (∀ other, .turnTo other ∉ after) →
        ((new settings).run actions).scheme = some scheme ∧
          ((new settings).run actions).graph =
            (graphsFor (some scheme) after).getLast?.getD ConceptGraph.empty) ∧
    (∀ scheme answer, ((new settings).run actions).shows scheme = false →
      ((new settings).run actions).receiveScheme scheme answer =
        (.ok (), (new settings).run actions)) ∧
    (∀ scheme change answer, ((new settings).run actions).shows scheme = false →
      (((new settings).run actions).receiveAnswer scheme change answer).2 =
        { (new settings).run actions with
          pending := ((new settings).run actions).pending.erase change.concept
          lastError := match answer with
            | .ok _ => ((new settings).run actions).lastError
            | .error error => some error.message }) ∧
    ∀ scheme, ((new settings).run actions).turnTo scheme =
      { (new settings).turnTo scheme with
        pending := ((new settings).run actions).pending
        edition := ((new settings).run actions).edition + 1 } := by
  refine ⟨fun hset => ⟨fun hturn => ?_, ?_⟩,
    fun scheme answer h => receiveScheme_of_not_shown h answer,
    fun scheme change answer h => receiveAnswer_of_not_shown h change answer, fun scheme => ?_⟩
  · obtain ⟨hscheme, hgraph⟩ := (new settings).graph_run hturn hset
    refine ⟨hscheme, hgraph.trans ?_⟩
    rw [show (new settings).scheme = none from rfl, graphsFor_none]
    rfl
  · rintro before scheme after rfl hturn
    have hsince : ∀ graph, .setGraph graph ∉ after := fun graph mem =>
      hset graph (List.mem_append_right _ (List.mem_cons_of_mem _ mem))
    rw [run_append]
    exact (((new settings).run before).turnTo scheme).graph_run hturn hsince
  · have hsettings : ((new settings).run actions).settings = settings :=
      ((new_derived settings).run actions).settings_eq
    rw [turnTo_eq, hsettings]

/-- A run in which the load of the animals is answered after the user turned to the materials, and
the change of alloys after the user turned back, when the animals have come. -/
def answeredLate : List Action :=
  [.turnTo "animals", .turnTo "materials",
    .receiveScheme "animals" (.ok (ConceptGraph.ofRecords Samples.animals)),
    .receiveScheme "materials" (.ok (ConceptGraph.ofRecords Samples.materials)),
    .grab "alloys" "materials/metals/alloys", .drop (some (.concept "polymers")) false,
    .turnTo "animals", .receiveScheme "animals" (.ok (ConceptGraph.ofRecords Samples.animals)),
    .receiveAnswer "materials" ⟨"alloys", some "polymers", some "metals"⟩
      (.ok (ConceptGraph.ofRecords Samples.materials))]

/-- The animals are shown, and a load of the materials that is answered later still changes
nothing. -/
theorem run_isolated_late :
    (∀ graph, .setGraph graph ∉ answeredLate) ∧
      ((new Samples.settings).run answeredLate).scheme = some "animals" ∧
      ((new Samples.settings).run answeredLate).graph = ConceptGraph.ofRecords Samples.animals ∧
      ((new Samples.settings).run answeredLate).shows "materials" = false ∧
      ((new Samples.settings).run answeredLate).receiveScheme "materials"
          (.ok (ConceptGraph.ofRecords Samples.materials)) =
        (.ok (), (new Samples.settings).run answeredLate) := by
  have hset : ∀ graph, .setGraph graph ∉ answeredLate := by simp [answeredLate]
  obtain ⟨hshown, hload, _, _⟩ := run_isolated Samples.settings answeredLate
  obtain ⟨hscheme, hgraph⟩ := (hshown hset).2 (answeredLate.take 6) "animals"
    (answeredLate.drop 7) rfl (by simp [answeredLate])
  have hother : ((new Samples.settings).run answeredLate).shows "materials" = false := by
    unfold shows
    rw [hscheme]
    decide
  exact ⟨hset, hscheme, hgraph, hother, hload _ _ hother⟩

end Thesaurus.Session

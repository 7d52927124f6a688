import Thesaurus.Proofs.DropAnswered

/-!
# A session, its repository and what is under way between them

A session asks its repository for changes and for its scheme anew, and does not wait: what it asks
may be served in any order, and what is answered may come back in any order. A change is answered
in two steps, as it is made first and the scheme is fetched then, and other requests may be served
in between. Each answer that comes back replaces the whole graph.
-/

namespace Thesaurus

/-- What a session asks its repository for. -/
inductive Inquiry where
  /-- A change, which is to be made and then answered with the scheme. -/
  | change (request : ParentChange)
  /-- The scheme, to settle a change that was made, or as a reload. -/
  | fetch (settled : Option ParentChange)

/-- An answer on its way back to the session. -/
structure Answer where
  /-- The change that it settles; none for a reload. -/
  settled : Option ParentChange
  /-- The scheme, or why there is none. -/
  result : Except RequestError ConceptGraph

/-- The graph that an answer brings, if any. -/
def Answer.graphs (answer : Answer) : List ConceptGraph := answer.result.toOption.toList

/-- The session after an answer has come in. -/
def Answer.receive (answer : Answer) (name : String) (session : Session) : Session :=
  match answer.settled with
  | none => (session.receiveScheme name answer.result).2
  | some request => (session.receiveAnswer name request answer.result).2

/-- A session and a repository, what is under way between them, and a record of the graphs that
were given and taken. -/
structure Exchange where
  /-- The scheme that is shown. -/
  name : String
  /-- The session. -/
  session : Session
  /-- The repository. -/
  repository : Repository
  /-- What is asked for and not served yet. -/
  asked : List Inquiry := []
  /-- What is answered and has not come back yet, in the order of answering. -/
  answers : List Answer := []
  /-- The graphs that were answered, the latest first. -/
  given : List ConceptGraph
  /-- The graphs that came in, the latest first. -/
  taken : List ConceptGraph

namespace Exchange

/-- A session and a repository before anything is asked. -/
def start (name : String) (session : Session) (repository : Repository)
    (records : List Record) : Exchange :=
  { name, session, repository
    given := [ConceptGraph.ofRecords records]
    taken := [session.graph] }

/-- Whether nothing is under way. -/
def AtRest (exchange : Exchange) : Prop := exchange.asked = [] ∧ exchange.answers = []

instance (exchange : Exchange) : Decidable exchange.AtRest := inferInstanceAs (Decidable (_ ∧ _))

/-- Whether the session shows the scheme as the repository holds it, or knows that it does not. -/
def ShowsHeld (exchange : Exchange) : Prop :=
  ∃ now, exchange.repository.records? exchange.name = some now ∧
    (exchange.session.graph = ConceptGraph.ofRecords now ∨ exchange.session.stale = true)

/-- The user acts on the session. A drop may ask for a change. -/
def user (exchange : Exchange) (action : Session.Action) : Exchange :=
  if action.isLocal then
    { exchange with
      session := exchange.session.act action
      asked := exchange.asked ++ (exchange.session.wanted? action).toList.map .change }
  else exchange

/-- Ask for some change, unless one of the concept is under way. -/
def ask (exchange : Exchange) (request : ParentChange) : Exchange :=
  if exchange.session.isPending request.concept then exchange
  else
    { exchange with
      session := { exchange.session with
        pending := exchange.session.pending.insert request.concept }
      asked := exchange.asked ++ [.change request] }

/-- Ask for the scheme anew. -/
def reload (exchange : Exchange) : Exchange :=
  { exchange with asked := exchange.asked ++ [.fetch none] }

/-- Put an answer on its way. -/
def answer (exchange : Exchange) (answer : Answer) : Exchange :=
  { exchange with
    answers := exchange.answers ++ [answer]
    given := answer.graphs ++ exchange.given }

/-- Serve something that is asked for. A change that is made leaves the fetch that settles it to
be served. -/
def serve (exchange : Exchange) (place : Nat) : Exchange :=
  match exchange.asked[place]? with
  | none => exchange
  | some (.change request) =>
    match exchange.repository.change request with
    | (.ok (), repository) =>
      { exchange with
        repository
        asked := exchange.asked.set place (.fetch (some request)) }
    | (.error error, repository) =>
      answer { exchange with repository, asked := exchange.asked.eraseIdx place }
        ⟨some request, .error error⟩
  | some (.fetch settled) =>
    let (result, repository) := exchange.repository.fetchGraph exchange.name
    answer { exchange with repository, asked := exchange.asked.eraseIdx place }
      ⟨settled, if settled.isSome then result.mapError .savedUnseen else result⟩

/-- Let an answer come in. -/
def deliver (exchange : Exchange) (place : Nat) : Exchange :=
  match exchange.answers[place]? with
  | none => exchange
  | some answer =>
    { exchange with
      session := answer.receive exchange.name exchange.session
      answers := exchange.answers.eraseIdx place
      taken := answer.graphs ++ exchange.taken }

/-- What may happen between a session and its repository. -/
inductive Step where
  /-- The user acts. -/
  | user (action : Session.Action)
  /-- Some change is asked for. -/
  | ask (request : ParentChange)
  /-- The scheme is asked for anew. -/
  | reload
  /-- Something that is asked for is served. -/
  | serve (place : Nat)
  /-- An answer comes in. -/
  | deliver (place : Nat)

/-- Whether a step lets no answer overtake another. -/
def Step.KeepsOrder : Step → Prop
  | .deliver place => place = 0
  | _ => True

instance (step : Step) : Decidable step.KeepsOrder :=
  match step with
  | .deliver place => inferInstanceAs (Decidable (place = 0))
  | .user _ | .ask _ | .reload | .serve _ => isTrue trivial

/-- What becomes of all in a step. -/
def step (exchange : Exchange) : Step → Exchange
  | .user action => exchange.user action
  | .ask request => exchange.ask request
  | .reload => exchange.reload
  | .serve place => exchange.serve place
  | .deliver place => exchange.deliver place

/-- What becomes of all in some steps. -/
def run (exchange : Exchange) (steps : List Step) : Exchange := steps.foldl step exchange

end Exchange

section Receive

variable {session : Session} {name : String}

/-- What an answer does: its graph is shown if its scheme is, and counts as up to date if the answer
is one to a load or the graph before did; its error leaves the graph as it is, which counts as out
of date from then on if the error is one to a change that was made in the scheme shown. -/
theorem Answer.outlook_receive (answer : Answer) (name : String) (session : Session) :
    (answer.receive name session).outlook =
      match answer.result with
      | .ok graph =>
        if session.shows name then
          (session.scheme, graph, answer.settled.isSome && session.stale)
        else session.outlook
      | .error error =>
        (session.scheme, session.graph,
          session.stale || (answer.settled.isSome && error.saved && session.shows name)) := by
  obtain ⟨settled, result⟩ := answer
  cases settled with
  | none =>
    show (session.receiveScheme name result).2.outlook = _
    rcases session.receiveScheme_cases name result with
      ⟨hother, h⟩ | ⟨graph, expansion, rfl, hshown, h⟩ | ⟨error, rfl, _, h⟩
    · rw [h, hother]
      cases result with
      | ok graph => rfl
      | error error =>
        show session.outlook = (session.scheme, session.graph, session.stale || false)
        rw [Bool.or_false]
        rfl
    · rw [h, hshown]
      rfl
    · rw [h]
      show session.outlook = (session.scheme, session.graph, session.stale || false)
      rw [Bool.or_false]
      rfl
  | some request =>
    show (session.receiveAnswer name request result).2.outlook = _
    rcases session.receiveAnswer_cases name request result with
      ⟨graph, rfl, hshown, h⟩ | ⟨graph, rfl, hother, h⟩ | ⟨error, rfl, h⟩
    · rw [h, hshown]
      rfl
    · rw [h, hother]
      rfl
    · rw [h]
      rfl

/-- A graph that comes in for the scheme that is shown is shown, and counts as up to date if the
one before did. -/
theorem Answer.receive_ok {answer : Answer} {graph : ConceptGraph}
    (hs : session.scheme = some name) (hr : answer.result = .ok graph) :
    (answer.receive name session).scheme = some name ∧
      (answer.receive name session).graph = graph ∧
      ((answer.receive name session).stale = true → session.stale = true) := by
  have hout := answer.outlook_receive name session
  rw [hr] at hout
  dsimp only at hout
  rw [if_pos (Session.shows_of_scheme_eq hs)] at hout
  obtain ⟨hscheme, hgraph, hstale⟩ := Session.outlook_eq_mk_iff.mp hout
  refine ⟨hscheme.trans hs, hgraph, fun h => ?_⟩
  rw [hstale, Bool.and_eq_true] at h
  exact h.2

/-- An error that comes in leaves what is shown as it is; and if it does not tell of a change that
was made, the graph counts as up to date as before. -/
theorem Answer.receive_error {answer : Answer} {error : RequestError}
    (hr : answer.result = .error error) (hu : error.saved = false) :
    (answer.receive name session).outlook = session.outlook := by
  rw [answer.outlook_receive, hr]
  dsimp only
  rw [hu, Bool.and_false, Bool.false_and, Bool.or_false]
  rfl

end Receive

namespace Exchange

/-- What a step does: the session asks for something, if for anything, and shows what it showed; or
something is served; or an answer comes in. -/
theorem step_cases (exchange : Exchange) (step : Step) :
    (∃ session inquiries, exchange.step step =
        { exchange with session, asked := exchange.asked ++ inquiries } ∧
      session.outlook = exchange.session.outlook) ∨
    (∃ place, exchange.step step = exchange.serve place) ∨
    ∃ place, step = .deliver place ∧ exchange.step step = exchange.deliver place := by
  have hnone : exchange = { exchange with asked := exchange.asked ++ [] } := by
    rw [List.append_nil]
  cases step with
  | user action =>
    refine Or.inl ?_
    show ∃ session inquiries, exchange.user action = _ ∧ _
    unfold user
    split
    · rename_i hlocal
      exact ⟨_, _, rfl, Session.outlook_act hlocal⟩
    · exact ⟨exchange.session, [], hnone, rfl⟩
  | ask request =>
    refine Or.inl ?_
    show ∃ session inquiries, exchange.ask request = _ ∧ _
    unfold ask
    split
    · exact ⟨exchange.session, [], hnone, rfl⟩
    · exact ⟨_, _, rfl, rfl⟩
  | reload => exact Or.inl ⟨exchange.session, [.fetch none], rfl, rfl⟩
  | serve place => exact Or.inr (Or.inl ⟨place, rfl⟩)
  | deliver place => exact Or.inr (Or.inr ⟨place, rfl, rfl⟩)

/-- Steps do not change which scheme is spoken of. -/
theorem name_step (exchange : Exchange) (step : Step) :
    (exchange.step step).name = exchange.name := by
  rcases exchange.step_cases step with ⟨_, _, h, _⟩ | ⟨place, h⟩ | ⟨place, _, h⟩
  · rw [h]
  · rw [h]
    unfold serve
    split
    · rfl
    · split <;> rfl
    · rfl
  · rw [h]
    unfold deliver
    split <;> rfl

/-- Runs do not change which scheme is spoken of. -/
theorem name_run (exchange : Exchange) (steps : List Step) :
    (exchange.run steps).name = exchange.name := by
  induction steps generalizing exchange with
  | nil => rfl
  | cons step rest ih => exact (ih (exchange.step step)).trans (name_step exchange step)

end Exchange

end Thesaurus

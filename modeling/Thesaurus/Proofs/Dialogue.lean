import Thesaurus.Proofs.Exchange

/-!
# A session with a repository of its own

A session is the only one to ask its repository for changes, and it asks for one thing at a time:
what it asks for is served at once, and the answer comes in before it asks again. In between the
user goes on and may turn to other schemes. Beside the two it is recorded which changes were made
and which answers came in for the scheme that is shown; no step reads this record. It tells which
changes the graph that is shown goes back to.
-/

namespace Thesaurus

/-- A change that was made, and the scheme for which it was asked. -/
structure Made where
  /-- The scheme. -/
  scheme : String
  /-- The change. -/
  request : ParentChange
deriving DecidableEq

namespace Repository

/-- Whether the failure that waits for the next change, if there is one, does not tell of a change
that was made. -/
def Honest (repository : Repository) : Prop :=
  ∀ error, repository.changeFailure = some error → error.saved = false

/-- The repository without the failures that wait. -/
def undisturbed (repository : Repository) : Repository :=
  { repository with changeFailure := none, fetchFailure := none }

/-- The repository after some changes, the latest of them first, with no failures. -/
def replay (repository : Repository) : List Made → Repository
  | [] => repository.undisturbed
  | made :: earlier => ((repository.replay earlier).change made.request).2

section Change

variable {repository : Repository}

/-- A repository holds the same schemes as without the failures that wait. -/
theorem records?_of_undisturbed {other : Repository} (h : repository.undisturbed = other)
    (name : String) : repository.records? name = other.records? name := by
  rw [← h]
  rfl

/-- A repository in which no failure waits for the next change is honest. -/
theorem honest_of_none (h : repository.changeFailure = none) : repository.Honest := by
  intro error hwaits
  rw [h] at hwaits
  cases hwaits

/-- A change is made, as it is made where no failure waits; or it is not, and the error does not
tell of a change unless the one that waited did. -/
theorem change_undisturbed (repository : Repository) (request : ParentChange) :
    (∃ after, repository.change request = (.ok (), after) ∧ after.Honest ∧
      after.undisturbed = (repository.undisturbed.change request).2) ∨
    ∃ error after, repository.change request = (.error error, after) ∧ after.Honest ∧
      after.undisturbed = repository.undisturbed ∧ (repository.Honest → error.saved = false) := by
  rcases change_cases repository request with ⟨error, hf, h⟩ | ⟨hf, _, h⟩ |
    ⟨name, records, hf, hs, ⟨error, ho, h⟩ | ⟨ho, h⟩⟩
  · exact Or.inr ⟨error, _, h, honest_of_none rfl, rfl, fun honest => honest error hf⟩
  · exact Or.inr ⟨_, _, h, honest_of_none hf, rfl, fun _ => rfl⟩
  · exact Or.inr ⟨error, _, h, honest_of_none hf, rfl, fun _ => saved_of_objection ho⟩
  · have hsame : repository.undisturbed.change request =
        (.ok (), repository.undisturbed.withScheme name (amend records request)) :=
      change_of_no_objection rfl hs ho
    refine Or.inl ⟨_, h, honest_of_none hf, ?_⟩
    rw [hsame]
    rfl

/-- A fetch brings the graph of the records, or an error; the schemes stay as they are. -/
theorem fetchGraph_undisturbed (repository : Repository) (name : String) :
    ∃ result after, repository.fetchGraph name = (result, after) ∧
      after.undisturbed = repository.undisturbed ∧ (repository.Honest → after.Honest) ∧
      ∀ graph, result = .ok graph → ∃ records, repository.records? name = some records ∧
        graph = ConceptGraph.ofRecords records := by
  unfold fetchGraph fetch
  cases repository.fetchFailure with
  | some error => exact ⟨_, _, rfl, rfl, fun honest => honest, fun _ hno => (nomatch hno)⟩
  | none =>
    cases hrecords : repository.records? name with
    | none => exact ⟨_, _, rfl, rfl, fun honest => honest, fun _ hno => (nomatch hno)⟩
    | some records =>
      refine ⟨_, _, rfl, rfl, fun honest => honest, fun graph hgraph => ⟨records, rfl, ?_⟩⟩
      exact (Except.ok.inj hgraph).symm

end Change

end Repository

/-- An answer that has not come in yet. -/
structure Trip where
  /-- The scheme for which something was asked. -/
  scheme : String
  /-- The answer. -/
  answer : Answer
  /-- The changes that were made until it was given, the latest first. -/
  basis : List Made

/-- Whether a trip brings a graph. -/
def Trip.brings (trip : Trip) : Bool := trip.answer.result.isOk

/-- Whether a trip brings the graph that was asked for by a load. -/
def Trip.loads (trip : Trip) : Bool := trip.answer.settled.isNone && trip.brings

/-- Whether a trip brings the error that a change was made and the scheme could not be fetched. -/
def Trip.reports (trip : Trip) : Bool :=
  match trip.answer.result with
  | .ok _ => false
  | .error error => trip.answer.settled.isSome && error.saved

section Trip

variable {trip : Trip}

/-- A graph is brought. -/
theorem Trip.brings_of_ok {graph : ConceptGraph} (h : trip.answer.result = .ok graph) :
    trip.brings = true := by
  unfold brings
  rw [h]
  rfl

/-- An error brings no graph. -/
theorem Trip.brings_of_error {error : RequestError} (h : trip.answer.result = .error error) :
    trip.brings = false := by
  unfold brings
  rw [h]
  rfl

/-- A trip that brings no graph brings none that was loaded. -/
theorem Trip.loads_of_not_brings (h : trip.brings = false) : trip.loads = false := by
  unfold loads
  rw [h, Bool.and_false]

/-- A trip that brings a graph reports nothing. -/
theorem Trip.reports_of_ok {graph : ConceptGraph} (h : trip.answer.result = .ok graph) :
    trip.reports = false := by
  unfold reports
  rw [h]

/-- A trip that brings an error reports a change that it settles, if the error tells of it. -/
theorem Trip.reports_of_error {error : RequestError} (h : trip.answer.result = .error error) :
    trip.reports = (trip.answer.settled.isSome && error.saved) := by
  unfold reports
  rw [h]

/-- The answer to a load reports no change. -/
theorem Trip.reports_of_load (h : trip.answer.settled = none) : trip.reports = false := by
  cases hresult : trip.answer.result with
  | ok graph => exact reports_of_ok hresult
  | error error =>
    rw [reports_of_error hresult, h]
    rfl

end Trip

/-- A session and its repository, what is under way between them, and a record of the changes. -/
structure Dialogue where
  /-- The session. -/
  session : Session
  /-- The repository. -/
  repository : Repository
  /-- The answer that has not come in yet. -/
  trip : Option Trip := none
  /-- The changes that were made, the latest first. -/
  made : List Made := []
  /-- The answers that came in for the scheme shown since it was turned to, the latest first. -/
  heard : List Trip := []

namespace Dialogue

/-- A new session and a repository, before anything is asked. -/
def start (settings : Settings) (repository : Repository) : Dialogue :=
  { session := Session.new settings, repository }

/-- The answer that brought the graph shown; none where it is the one without concepts that is
shown until another one comes in. -/
def origin? (dialogue : Dialogue) : Option Trip := dialogue.heard.find? Trip.brings

/-- The changes that were made until the graph shown was fetched, the latest first. -/
def basis (dialogue : Dialogue) : List Made := (dialogue.origin?.map Trip.basis).getD []

/-- The answers that came in since the scheme shown was turned to, or loaded if it was, the latest
first. -/
def sinceLoad (dialogue : Dialogue) : List Trip := dialogue.heard.takeWhile (!·.loads)

/-- The changes that were made since the graph shown was fetched, the latest first. -/
def unseen (dialogue : Dialogue) : List Made :=
  dialogue.made.take (dialogue.made.length - dialogue.basis.length)

/-- Whether a change was made for the scheme shown that the graph shown does not go back to. -/
def Lags (dialogue : Dialogue) : Prop :=
  ∃ made ∈ dialogue.unseen, dialogue.session.scheme = some made.scheme

instance (dialogue : Dialogue) : Decidable dialogue.Lags :=
  inferInstanceAs (Decidable (∃ made ∈ dialogue.unseen, _))

/-- Whether a change was reported since the scheme shown was turned to, or loaded if it was. -/
def Reported (dialogue : Dialogue) : Prop := ∃ trip ∈ dialogue.sinceLoad, trip.reports = true

instance (dialogue : Dialogue) : Decidable dialogue.Reported :=
  inferInstanceAs (Decidable (∃ trip ∈ dialogue.sinceLoad, _))

/-- Whether the graph shown came with the answer to a change. -/
def FollowsChange (dialogue : Dialogue) : Prop :=
  ∃ trip ∈ dialogue.origin?, trip.answer.settled.isSome = true

instance (dialogue : Dialogue) : Decidable dialogue.FollowsChange :=
  inferInstanceAs (Decidable (∃ trip ∈ dialogue.origin?, _))

/-- The user turns to a scheme. -/
def turnTo (dialogue : Dialogue) (scheme : String) : Dialogue :=
  { dialogue with
    session := dialogue.session.turnTo scheme
    heard := [] }

/-- The user does anything else. -/
def user (dialogue : Dialogue) (action : Session.Action) : Dialogue :=
  if action.isLocal then { dialogue with session := dialogue.session.act action } else dialogue

/-- Ask for a scheme, if nothing is under way. -/
def load (dialogue : Dialogue) (name : String) : Dialogue :=
  if dialogue.trip.isSome then dialogue
  else
    let (result, repository) := dialogue.repository.fetchGraph name
    { dialogue with
      repository
      trip := some { scheme := name, answer := ⟨none, result⟩, basis := dialogue.made } }

/-- Ask for a change and then for the scheme, if nothing is under way. -/
def change (dialogue : Dialogue) (name : String) (request : ParentChange) : Dialogue :=
  if dialogue.trip.isSome then dialogue
  else
    let (result, repository) := dialogue.repository.changeAndFetch name request
    let made :=
      match (dialogue.repository.change request).1 with
      | .ok () => ⟨name, request⟩ :: dialogue.made
      | .error _ => dialogue.made
    { dialogue with
      repository
      made
      trip := some { scheme := name, answer := ⟨some request, result⟩, basis := made } }

/-- The session has taken an answer for the scheme that it shows. -/
def hear (dialogue : Dialogue) (trip : Trip) (session : Session) : Dialogue :=
  { dialogue with session, trip := none, heard := trip :: dialogue.heard }

@[simp] theorem session_hear (dialogue : Dialogue) (trip : Trip) (session : Session) :
    (dialogue.hear trip session).session = session := rfl

/-- Let the answer that is under way come in. -/
def deliver (dialogue : Dialogue) : Dialogue :=
  match dialogue.trip with
  | none => dialogue
  | some trip =>
    let session := trip.answer.receive trip.scheme dialogue.session
    if dialogue.session.shows trip.scheme then dialogue.hear trip session
    else { dialogue with session, trip := none }

/-- What may happen between a session and its repository. -/
inductive Step where
  /-- The user turns to a scheme. -/
  | turnTo (scheme : String)
  /-- The user does anything else. -/
  | user (action : Session.Action)
  /-- A scheme is asked for. -/
  | load (name : String)
  /-- A change is asked for. -/
  | change (name : String) (request : ParentChange)
  /-- The answer comes in. -/
  | deliver
  /-- The next change is to fail, with an error that does not tell of a change. -/
  | failChange (error : RequestError) (untold : error.saved = false)
  /-- The next fetch is to fail. -/
  | failFetch (error : RequestError)

/-- What becomes of all in a step. -/
def step (dialogue : Dialogue) : Step → Dialogue
  | .turnTo scheme => dialogue.turnTo scheme
  | .user action => dialogue.user action
  | .load name => dialogue.load name
  | .change name request => dialogue.change name request
  | .deliver => dialogue.deliver
  | .failChange error _ =>
    { dialogue with repository := dialogue.repository.failChange error }
  | .failFetch error => { dialogue with repository := dialogue.repository.failFetch error }

/-- What becomes of all in some steps. -/
def run (dialogue : Dialogue) (steps : List Step) : Dialogue := steps.foldl step dialogue

section Steps

variable {dialogue : Dialogue}

/-- What the user does short of turning to a scheme tells nothing else of the graph shown. -/
theorem user_eq (dialogue : Dialogue) (action : Session.Action) :
    ∃ session, dialogue.user action = { dialogue with session } ∧
      session.outlook = dialogue.session.outlook := by
  unfold user
  split
  · rename_i hlocal
    exact ⟨_, rfl, Session.outlook_act hlocal⟩
  · exact ⟨dialogue.session, rfl, rfl⟩

/-- What asking for a scheme does, if nothing is under way: an answer is under way that brings what
the repository holds, if it brings a graph. -/
theorem load_cases (h : dialogue.trip = none) (name : String) :
    ∃ result repository, dialogue.load name =
        { dialogue with
          repository
          trip := some { scheme := name, answer := ⟨none, result⟩, basis := dialogue.made } } ∧
      repository.undisturbed = dialogue.repository.undisturbed ∧
      (dialogue.repository.Honest → repository.Honest) ∧
      ∀ graph, result = .ok graph →
        ∃ records, repository.records? name = some records ∧
          graph = ConceptGraph.ofRecords records := by
  obtain ⟨result, repository, hfetch, hsame, hhonest, hgraph⟩ :=
    dialogue.repository.fetchGraph_undisturbed name
  have hrecords := Repository.records?_of_undisturbed hsame name
  refine ⟨result, repository, ?_, hsame, hhonest, fun graph hok => hrecords ▸ hgraph graph hok⟩
  unfold load
  rw [h, hfetch]
  rfl

/-- What asking for a change does, if nothing is under way: the change is refused, and an error is
under way that tells of none; or it is made, and what is under way is the graph of what the
repository holds from then on, or an error that tells of the change. -/
theorem change_cases (h : dialogue.trip = none) (name : String) (request : ParentChange) :
    ∃ result repository made, dialogue.change name request =
        { dialogue with
          repository
          made
          trip := some { scheme := name, answer := ⟨some request, result⟩, basis := made } } ∧
      repository.Honest ∧
      ((made = dialogue.made ∧ repository.undisturbed = dialogue.repository.undisturbed ∧
          ∃ error, result = .error error ∧ (dialogue.repository.Honest → error.saved = false)) ∨
        (made = ⟨name, request⟩ :: dialogue.made ∧
          repository.undisturbed = (dialogue.repository.undisturbed.change request).2 ∧
          ((∃ records, repository.records? name = some records ∧
              result = .ok (ConceptGraph.ofRecords records)) ∨
            ∃ cause, result = .error (.savedUnseen cause)))) := by
  unfold change Repository.changeAndFetch
  rw [h]
  rcases dialogue.repository.change_undisturbed request with
    ⟨after, hchange, hhonest, hafter⟩ | ⟨error, after, hchange, hhonest, hafter, huntold⟩
  · obtain ⟨result, fetched, hfetch, hsame, hkept, hgraph⟩ := after.fetchGraph_undisturbed name
    have hrecords := Repository.records?_of_undisturbed hsame name
    rw [hchange]
    dsimp only
    rw [hfetch]
    refine ⟨result.mapError .savedUnseen, fetched, _, rfl, hkept hhonest,
      Or.inr ⟨rfl, hsame.trans hafter, ?_⟩⟩
    cases result with
    | ok graph =>
      obtain ⟨records, hheld, rfl⟩ := hgraph graph rfl
      exact Or.inl ⟨records, hrecords.trans hheld, rfl⟩
    | error cause => exact Or.inr ⟨cause, rfl⟩
  · rw [hchange]
    exact ⟨.error error, after, _, rfl, hhonest, Or.inl ⟨rfl, hafter, error, rfl, huntold⟩⟩

/-- What the answer does that comes in: where its scheme is shown, its graph is shown, or its error
leaves the graph as it is, which counts as out of date from then on if the error reports a change;
else nothing that is told changes. -/
theorem deliver_cases {trip : Trip} (h : dialogue.trip = some trip) :
    (∃ session graph, trip.answer.result = .ok graph ∧
      dialogue.session.scheme = some trip.scheme ∧
      dialogue.deliver = dialogue.hear trip session ∧
      session.scheme = dialogue.session.scheme ∧ session.graph = graph ∧
      session.stale = (trip.answer.settled.isSome && dialogue.session.stale)) ∨
    (∃ session error, trip.answer.result = .error error ∧
      dialogue.session.scheme = some trip.scheme ∧
      dialogue.deliver = dialogue.hear trip session ∧
      session.scheme = dialogue.session.scheme ∧ session.graph = dialogue.session.graph ∧
      session.stale = (dialogue.session.stale || trip.reports)) ∨
    ∃ session, dialogue.session.scheme ≠ some trip.scheme ∧
      dialogue.deliver = { dialogue with session, trip := none } ∧
      session.outlook = dialogue.session.outlook := by
  have hout := trip.answer.outlook_receive trip.scheme dialogue.session
  unfold deliver
  rw [h]
  dsimp only
  cases hshown : dialogue.session.shows trip.scheme with
  | true =>
    have hscheme : dialogue.session.scheme = some trip.scheme := beq_iff_eq.mp hshown
    rw [hshown] at hout
    rw [if_pos rfl]
    cases hresult : trip.answer.result with
    | ok graph =>
      rw [hresult] at hout
      exact Or.inl ⟨_, graph, rfl, hscheme, rfl, Session.outlook_eq_mk_iff.mp hout⟩
    | error error =>
      rw [hresult] at hout
      dsimp only at hout
      rw [Bool.and_true, ← Trip.reports_of_error hresult] at hout
      exact Or.inr (Or.inl ⟨_, error, rfl, hscheme, rfl, Session.outlook_eq_mk_iff.mp hout⟩)
  | false =>
    have hother : dialogue.session.scheme ≠ some trip.scheme :=
      fun same => Bool.false_ne_true (hshown.symm.trans (Session.shows_of_scheme_eq same))
    rw [hshown] at hout
    rw [if_neg Bool.false_ne_true]
    refine Or.inr (Or.inr ⟨_, hother, rfl, hout.trans ?_⟩)
    cases trip.answer.result with
    | ok graph => rfl
    | error error =>
      dsimp only
      rw [Bool.and_false, Bool.or_false]
      rfl

end Steps

end Dialogue

end Thesaurus

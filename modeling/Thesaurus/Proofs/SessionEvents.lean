import Thesaurus.Session

/-!
# What the events of a session come down to

An answer that comes in, a grab and a drop do one of a few things each, depending on what they find.
These are told apart here, once and in full, so that whatever a session keeps to is shown case by
case.
-/

namespace Thesaurus.Session

variable {session : Session}

/-- What the answer to a load does: nothing, if its scheme is not shown; else its graph is shown,
with some paths open, or its error is. -/
theorem receiveScheme_cases (session : Session) (scheme : String)
    (answer : Except RequestError ConceptGraph) :
    (session.shows scheme = false ∧ session.receiveScheme scheme answer = (.ok (), session)) ∨
    (∃ graph expansion, answer = .ok graph ∧ session.shows scheme = true ∧
      session.receiveScheme scheme answer =
        (.ok (), { setGraph { session with stale := false } graph with expansion })) ∨
    ∃ error, answer = .error error ∧ session.shows scheme = true ∧
      session.receiveScheme scheme answer =
        (.error (.request error), { session with lastError := some error.message }) := by
  unfold receiveScheme
  cases hshown : session.shows scheme with
  | false => exact Or.inl ⟨rfl, rfl⟩
  | true =>
    cases answer with
    | error error => exact Or.inr (Or.inr ⟨error, rfl, rfl, rfl⟩)
    | ok graph =>
      refine Or.inr (Or.inl ⟨graph, ?_⟩)
      rw [Bool.not_true, if_neg Bool.false_ne_true]
      dsimp only
      split
      · exact ⟨_, rfl, rfl, rfl⟩
      · exact ⟨_, rfl, rfl, rfl⟩

/-- What the answer to a change does: the change is settled, and the graph is shown if its scheme
is, or the error is. -/
theorem receiveAnswer_cases (session : Session) (scheme : String) (change : ParentChange)
    (answer : Except RequestError ConceptGraph) :
    (∃ graph, answer = .ok graph ∧ session.shows scheme = true ∧
      session.receiveAnswer scheme change answer =
        (.ok (), setGraph
          { session with pending := session.pending.erase change.concept } graph)) ∨
    (∃ graph, answer = .ok graph ∧ session.shows scheme = false ∧
      session.receiveAnswer scheme change answer =
        (.ok (), { session with pending := session.pending.erase change.concept })) ∨
    ∃ error, answer = .error error ∧
      session.receiveAnswer scheme change answer =
        (.error (.request error), { session with
          pending := session.pending.erase change.concept
          stale := session.stale || (error.saved && session.shows scheme)
          lastError := some error.message }) := by
  unfold receiveAnswer
  cases answer with
  | error error => exact Or.inr (Or.inr ⟨error, rfl, rfl⟩)
  | ok graph =>
    cases hshown : session.shows scheme with
    | true => exact Or.inl ⟨graph, rfl, rfl, rfl⟩
    | false => exact Or.inr (Or.inl ⟨graph, rfl, rfl, rfl⟩)

/-- Only paths are opened to reveal the selected concept. -/
theorem revealSelected_eq (session : Session) :
    ∃ expansion, session.revealSelected.2 = { session with expansion } := by
  unfold revealSelected
  split
  · exact ⟨_, rfl⟩
  · exact ⟨session.expansion, rfl⟩

/-- A concept whose change is not under way is taken hold of. -/
theorem grab_of_idle {id : ConceptId} (h : session.isPending id = false) (path : PathText) :
    session.grab id path = { session with drag := some (Grip.start id path) } := by
  unfold grab
  rw [if_neg (Bool.eq_false_iff.mp h)]

/-- A concept whose change is under way is not taken hold of. -/
theorem grab_of_pending {id : ConceptId} (h : session.isPending id = true) (path : PathText) :
    session.grab id path = session := by
  unfold grab
  rw [if_pos h]

/-- What a drop does: it asks for the change that the release amounts to, or is refused as one of
the concept is under way, or there is nothing to ask for; in each case the drag is over. -/
theorem drop_cases (session : Session) (place : Option DropPlace) (modifier : Bool) :
    (∃ request, (session.drag.release session.graph session.index place modifier).1 =
        .wanted request ∧ session.isPending request.concept = false ∧
      session.drop place modifier = (.ok (.wanted request),
        { session with drag := none, pending := session.pending.insert request.concept })) ∨
    (∃ request, (session.drag.release session.graph session.index place modifier).1 =
        .wanted request ∧ session.isPending request.concept = true ∧
      session.drop place modifier =
        (.error (.underWay request.concept), { session with drag := none })) ∨
    ∃ result, (∀ request, result ≠ .wanted request) ∧
      session.drop place modifier = (.ok result, { session with drag := none }) := by
  have hleft := session.drag.release_snd session.graph session.index place modifier
  unfold drop
  dsimp only
  rw [hleft]
  generalize (session.drag.release session.graph session.index place modifier).1 = result
  cases result with
  | wanted request =>
    cases hp : session.isPending request.concept with
    | true => exact Or.inr (Or.inl ⟨request, rfl, hp, if_pos hp⟩)
    | false => exact Or.inl ⟨request, rfl, hp, if_neg (Bool.eq_false_iff.mp hp)⟩
  | unchanged => exact Or.inr (Or.inr ⟨.unchanged, fun _ => DropResult.noConfusion, rfl⟩)
  | refused verdict =>
    exact Or.inr (Or.inr ⟨.refused verdict, fun _ => DropResult.noConfusion, rfl⟩)
  | cancelled => exact Or.inr (Or.inr ⟨.cancelled, fun _ => DropResult.noConfusion, rfl⟩)

/-- After a drop nothing is dragged. -/
theorem drag_drop (session : Session) (place : Option DropPlace) (modifier : Bool) :
    (session.drop place modifier).2.drag = none := by
  rcases session.drop_cases place modifier with ⟨_, _, _, h⟩ | ⟨_, _, _, h⟩ | ⟨_, _, h⟩ <;> rw [h]

/-- A drop that asks for a change leaves all as it was but the drag and the concept under way. -/
theorem drop_eq_wanted {dropped : Session} {place : Option DropPlace} {modifier : Bool}
    {request : ParentChange} (h : session.drop place modifier = (.ok (.wanted request), dropped)) :
    (session.drag.release session.graph session.index place modifier).1 = .wanted request ∧
      dropped = { session with
        drag := none
        pending := session.pending.insert request.concept } := by
  rcases session.drop_cases place modifier with
    ⟨other, hr, _, hdrop⟩ | ⟨_, _, _, hdrop⟩ | ⟨result, hnone, hdrop⟩
  · cases hdrop.symm.trans h
    exact ⟨hr, rfl⟩
  · cases hdrop.symm.trans h
  · cases hdrop.symm.trans h
    exact absurd rfl (hnone request)

/-- A release that asks for a change makes a drop of it, if no change of the concept is under
way. -/
theorem drop_of_wanted {place : Option DropPlace} {modifier : Bool} {request : ParentChange}
    (hr : (session.drag.release session.graph session.index place modifier).1 = .wanted request)
    (hidle : session.isPending request.concept = false) :
    session.drop place modifier =
      (.ok (.wanted request), { session with
        drag := none
        pending := session.pending.insert request.concept }) := by
  have hleft := session.drag.release_snd session.graph session.index place modifier
  unfold drop
  dsimp only
  rw [hleft, hr]
  dsimp only
  rw [if_neg (Bool.eq_false_iff.mp hidle)]

end Thesaurus.Session

import Thesaurus.Proofs.DropRelease
import Thesaurus.Proofs.SessionRun

/-!
# What an action does to the drag and to the changes under way

After an action the drag is the one before, hovered or not, or it has just begun, for a concept
whose change is not under way. The changes under way are those before, but for one that the action
asks for, always that of the dragged concept, or one that an answer settles.
-/

namespace Thesaurus.Session

/-- Whether a grip goes on with another one: nothing differs but the place hovered and the
modifier. -/
structure Continues (grip old : Grip) : Prop where
  /-- The concept is the same. -/
  concept_eq : grip.concept = old.concept
  /-- The path is the same. -/
  path_eq : grip.path = old.path
  /-- The parent on the path is the same. -/
  parent_eq : grip.parent = old.parent

/-- A grip goes on with itself. -/
theorem Continues.refl (grip : Grip) : Continues grip grip := ⟨rfl, rfl, rfl⟩

/-- Going on goes on. -/
theorem Continues.trans {last grip first : Grip} (h : Continues last grip)
    (hold : Continues grip first) : Continues last first :=
  ⟨h.concept_eq.trans hold.concept_eq, h.path_eq.trans hold.path_eq,
    h.parent_eq.trans hold.parent_eq⟩

/-- A grip that is hovered goes on. -/
theorem continues_hover (grip : Grip) (graph : ConceptGraph) (index : Descendants)
    (place : DropPlace) (modifier : Bool) :
    Continues (grip.hover graph index place modifier) grip :=
  ⟨rfl, rfl, rfl⟩

/-- What is still dragged when a graph is shown was dragged before. -/
theorem eq_of_dragWithin {drag : Drag} {graph : ConceptGraph} {grip : Grip}
    (h : dragWithin drag graph = some grip) : drag = some grip :=
  (Option.filter_eq_some_iff.mp h).1

section Drag

variable {session : Session} {grip : Grip}

/-- The answer to a load begins no drag. -/
theorem drag_receiveScheme {scheme : String} {answer : Except RequestError ConceptGraph}
    (h : (session.receiveScheme scheme answer).2.drag = some grip) :
    session.drag = some grip := by
  rcases session.receiveScheme_cases scheme answer with
    ⟨_, hanswer⟩ | ⟨graph, expansion, _, _, hanswer⟩ | ⟨error, _, _, hanswer⟩
  · rw [hanswer] at h
    exact h
  · rw [hanswer] at h
    exact eq_of_dragWithin h
  · rw [hanswer] at h
    exact h

/-- The answer to a change begins no drag. -/
theorem drag_receiveAnswer {scheme : String} {change : ParentChange}
    {answer : Except RequestError ConceptGraph}
    (h : (session.receiveAnswer scheme change answer).2.drag = some grip) :
    session.drag = some grip := by
  rcases session.receiveAnswer_cases scheme change answer with
    ⟨graph, _, _, hanswer⟩ | ⟨graph, _, _, hanswer⟩ | ⟨error, _, hanswer⟩
  · rw [hanswer] at h
    exact eq_of_dragWithin h
  · rw [hanswer] at h
    exact h
  · rw [hanswer] at h
    exact h

/-- What is dragged after an action was dragged before, and so was hovered by it or is as it was, or
it has just been taken hold of while no change of it is under way. -/
theorem drag_act_cases {action : Action} (h : (session.act action).drag = some grip) :
    (session.drag = some grip ∧ (session.HoldsKnown → (session.act action).HoldsKnown)) ∨
      (∃ place modifier old, action = .hover place modifier ∧ session.drag = some old ∧
        grip = old.hover session.graph session.index place modifier) ∨
      ∃ path, action = .grab grip.concept path ∧ grip = Grip.start grip.concept path ∧
        session.isPending grip.concept = false := by
  cases action with
  | turnTo scheme =>
    have hnone : dragWithin none ConceptGraph.empty = some grip := h
    cases hnone
  | receiveScheme scheme answer =>
    exact Or.inl ⟨drag_receiveScheme h, fun hk => hk.receiveScheme scheme answer⟩
  | receiveAnswer scheme change answer =>
    exact Or.inl ⟨drag_receiveAnswer h, fun hk => hk.receiveAnswer scheme change answer⟩
  | setGraph graph =>
    exact Or.inl ⟨eq_of_dragWithin h, fun _ => holdsKnown_setGraph session graph⟩
  | revealSelected =>
    obtain ⟨expansion, heq⟩ := session.revealSelected_eq
    refine Or.inl ⟨?_, fun hk => hk.act trivial⟩
    change session.revealSelected.2.drag = some grip at h
    rw [heq] at h
    exact h
  | grab id path =>
    change (session.grab id path).drag = some grip at h
    cases hp : session.isPending id with
    | true =>
      have hsame : session.act (.grab id path) = session := grab_of_pending hp path
      rw [grab_of_pending hp] at h
      exact Or.inl ⟨h, fun hk => hsame.symm ▸ hk⟩
    | false =>
      rw [grab_of_idle hp] at h
      cases h
      exact Or.inr (Or.inr ⟨path, rfl, rfl, hp⟩)
  | hover place modifier =>
    obtain ⟨old, hold, hgrip⟩ := Option.map_eq_some_iff.mp h
    exact Or.inr (Or.inl ⟨place, modifier, old, rfl, hold, hgrip.symm⟩)
  | drop place modifier =>
    change (session.drop place modifier).2.drag = some grip at h
    rw [drag_drop] at h
    cases h
  | letGo => cases h
  | _ => exact Or.inl ⟨h, fun hk => hk.act trivial⟩

/-- What is dragged after an action goes on with what was dragged before, or has just been taken
hold of while no change of it is under way. -/
theorem drag_act {action : Action} (h : (session.act action).drag = some grip) :
    (∃ old, session.drag = some old ∧ Continues grip old) ∨
      ∃ path, action = .grab grip.concept path ∧ grip = Grip.start grip.concept path ∧
        session.isPending grip.concept = false := by
  rcases drag_act_cases h with ⟨hold, _⟩ | ⟨place, modifier, old, _, hold, rfl⟩ | hgrab
  · exact Or.inl ⟨grip, hold, Continues.refl grip⟩
  · exact Or.inl ⟨old, hold, continues_hover old _ _ place modifier⟩
  · exact Or.inr hgrab

end Drag

section Pending

variable {session : Session} {request : ParentChange}

/-- A drop is refused because a change is under way only if it is one of the dragged concept. -/
theorem drop_eq_underWay {place : Option DropPlace} {modifier : Bool} {id : ConceptId}
    (h : (session.drop place modifier).1 = .error (.underWay id)) :
    ∃ grip, session.drag = some grip ∧ session.isPending grip.concept = true := by
  rcases session.drop_cases place modifier with ⟨_, _, _, hdrop⟩ | ⟨_, hr, hp, _⟩ | ⟨_, _, hdrop⟩
  · rw [hdrop] at h
    cases h
  · obtain ⟨grip, hd, hc, _⟩ := Drag.grip_of_wanted hr
    exact ⟨grip, hd, hc ▸ hp⟩
  · rw [hdrop] at h
    cases h

/-- What a drop asks for is what the release amounts to. -/
theorem wanted?_drop {place : Option DropPlace} {modifier : Bool} :
    session.wanted? (.drop place modifier) = some request ↔
      ∃ dropped, session.drop place modifier = (.ok (.wanted request), dropped) := by
  rw [wanted?]
  rcases session.drop_cases place modifier with ⟨_, _, _, h⟩ | ⟨_, _, _, h⟩ | ⟨result, hnone, h⟩
  · rw [h]
    simp
  · rw [h]
    simp
  · rw [h]
    cases result with
    | wanted request => exact absurd rfl (hnone request)
    | unchanged => simp
    | refused verdict => simp
    | cancelled => simp

/-- An action that asks for a change asks for one of the dragged concept, which is under way from
then on. -/
theorem pending_act_of_wanted {action : Action} (h : session.wanted? action = some request) :
    (session.act action).pending = session.pending.insert request.concept ∧
      session.isPending request.concept = false := by
  cases action with
  | drop place modifier =>
    obtain ⟨dropped, hd⟩ := wanted?_drop.mp h
    show (session.drop place modifier).2.pending = _ ∧ _
    rcases session.drop_cases place modifier with ⟨other, _, hp, hdrop⟩ | ⟨_, _, _, hdrop⟩ |
      ⟨result, hnone, hdrop⟩
    · rw [hdrop] at hd ⊢
      cases hd
      exact ⟨rfl, hp⟩
    · rw [hdrop] at hd
      cases hd
    · rw [hdrop] at hd
      cases hd
      exact absurd rfl (hnone request)
  | _ => cases h

/-- An action that asks for no change, and brings no answer to one, leaves the changes under way as
they are. -/
theorem pending_act_of_none {action : Action} (h : session.wanted? action = none)
    (hout : ∀ scheme change answer, action ≠ .receiveAnswer scheme change answer) :
    (session.act action).pending = session.pending := by
  cases action with
  | receiveScheme scheme answer =>
    show (session.receiveScheme scheme answer).2.pending = _
    rcases session.receiveScheme_cases scheme answer with
      ⟨_, heq⟩ | ⟨_, _, _, _, heq⟩ | ⟨_, _, _, heq⟩
    · rw [heq]
    · rw [heq]
      rfl
    · rw [heq]
  | receiveAnswer scheme change answer => exact absurd rfl (hout scheme change answer)
  | revealSelected =>
    obtain ⟨expansion, heq⟩ := session.revealSelected_eq
    show session.revealSelected.2.pending = _
    rw [heq]
  | grab id path =>
    show (session.grab id path).pending = _
    cases hp : session.isPending id with
    | true => rw [grab_of_pending hp]
    | false => rw [grab_of_idle hp]
  | drop place modifier =>
    show (session.drop place modifier).2.pending = _
    rcases session.drop_cases place modifier with
      ⟨_, _, _, hdrop⟩ | ⟨_, _, _, hdrop⟩ | ⟨_, _, hdrop⟩
    · rw [wanted?_drop.mpr ⟨_, hdrop⟩] at h
      cases h
    · rw [hdrop]
    · rw [hdrop]
  | _ => rfl

/-- The answer to a change settles it. -/
theorem pending_receiveAnswer (session : Session) (scheme : String) (change : ParentChange)
    (answer : Except RequestError ConceptGraph) :
    (session.receiveAnswer scheme change answer).2.pending =
      session.pending.erase change.concept := by
  rcases session.receiveAnswer_cases scheme change answer with
    ⟨_, _, _, h⟩ | ⟨_, _, _, h⟩ | ⟨_, _, h⟩
  · rw [h]
    rfl
  · rw [h]
  · rw [h]

end Pending

end Thesaurus.Session

import Thesaurus.Session

/-!
# What a drop asks for

A drop asks for a change exactly if its place accepts it and the concept is not there already. The
change then names the dragged concept, the concept dropped on, and, for a move, the parent read
when the drag began. Hovering has no part in it: it leaves the dragged concept and that parent as
they are.
-/

namespace Thesaurus

/-- When a place accepts a drop: the dragged concept is known, and either it is not at the top
already, or the place is another known concept, not its parent on the path and not below it. -/
theorem Grip.verdict_eq_accepted_iff {grip : Grip} {graph : ConceptGraph} {index : Descendants}
    {place : DropPlace} :
    grip.verdict graph index place = .accepted ↔
      graph.contains grip.concept = true ∧
        match place with
        | .top => grip.parent ≠ none
        | .concept id => graph.contains id = true ∧ id ≠ grip.concept ∧ grip.parent ≠ some id ∧
            index.isBelow grip.concept id = false := by
  cases hc : graph.contains grip.concept with
  | false => cases place <;> simp [verdict, hc]
  | true =>
    cases place with
    | top => by_cases hp : grip.parent = none <;> simp [verdict, hc, hp]
    | concept id =>
      cases hk : graph.contains id with
      | false => simp [verdict, hc, hk]
      | true =>
        by_cases hs : id = grip.concept
        · simp [verdict, hc, hs]
        · by_cases hp : grip.parent = some id
          · simp [verdict, hc, hk, hs, hp]
          · cases hb : index.isBelow grip.concept id <;> simp [verdict, hc, hk, hs, hp, hb]

/-- When a release asks for a change, and for which one. -/
theorem Drag.release_eq_wanted_iff {grip : Grip} {graph : ConceptGraph} {index : Descendants}
    {place : Option DropPlace} {modifier : Bool} {request : ParentChange} :
    (Drag.release (some grip) graph index place modifier).1 = .wanted request ↔
      ∃ target, place = some target ∧ grip.verdict graph index target = .accepted ∧
        target.holds graph grip.concept (DropKind.ofModifier modifier) = false ∧
        request = ⟨grip.concept, target.broader, if modifier then none else grip.parent⟩ := by
  cases place with
  | none => simp [release, Grip.dropOn]
  | some target =>
    have hkind : (if DropKind.ofModifier modifier = .move then grip.parent else none) =
        if modifier then none else grip.parent := by
      cases modifier <;> rfl
    unfold release Grip.dropOn
    dsimp only
    rw [hkind]
    by_cases hv : grip.verdict graph index target = .accepted
    · cases hh : target.holds graph grip.concept (DropKind.ofModifier modifier) with
      | true => simp [hv, hh]
      | false =>
        rw [if_neg (not_not_intro hv), if_neg Bool.false_ne_true]
        constructor
        · intro h
          cases h
          exact ⟨target, rfl, hv, hh, rfl⟩
        · rintro ⟨_, hsame, _, _, rfl⟩
          cases hsame
          rfl
    · simp [hv]

/-- What a release asks for is a change of the dragged concept; a move takes away the parent read
when the drag began. -/
theorem Drag.grip_of_wanted {drag : Drag} {graph : ConceptGraph} {index : Descendants}
    {place : Option DropPlace} {modifier : Bool} {request : ParentChange}
    (h : (drag.release graph index place modifier).1 = .wanted request) :
    ∃ grip, drag = some grip ∧ request.concept = grip.concept ∧
      request.removed = if modifier then none else grip.parent := by
  cases drag with
  | none => cases h
  | some grip =>
    obtain ⟨_, _, _, _, rfl⟩ := Drag.release_eq_wanted_iff.mp h
    exact ⟨grip, rfl, rfl, rfl⟩

/-- A parent that a release asks to add, like the concept that it is added to, is known; it is not
that concept, not among its parents, and not listed below it. -/
theorem Drag.added_of_wanted {drag : Drag} {graph : ConceptGraph} {index : Descendants}
    {place : Option DropPlace} {modifier : Bool} {request : ParentChange}
    (h : (drag.release graph index place modifier).1 = .wanted request) {parent : ConceptId}
    (hadded : request.added = some parent) :
    graph.contains request.concept = true ∧ graph.contains parent = true ∧
      parent ≠ request.concept ∧ parent ∉ graph.parentsOf request.concept ∧
        index.isBelow request.concept parent = false := by
  cases drag with
  | none => cases h
  | some grip =>
    obtain ⟨target, _, hverdict, hholds, rfl⟩ := Drag.release_eq_wanted_iff.mp h
    obtain ⟨hknown, htarget⟩ := Grip.verdict_eq_accepted_iff.mp hverdict
    cases target with
    | top => cases hadded
    | concept id =>
      cases hadded
      obtain ⟨hplace, hne, _, hbelow⟩ := htarget
      refine ⟨hknown, hplace, hne, fun mem => ?_, hbelow⟩
      exact Bool.false_ne_true (hholds.symm.trans (List.contains_iff_mem.mpr mem))

namespace Session

/-- The session after hovering over some places, each with the modifier key held or not. -/
def hoverAll (session : Session) (hovers : List (DropPlace × Bool)) : Session :=
  hovers.foldl (fun session hover => session.hover hover.1 hover.2) session

/-- Hovering leaves all as it is but the hovered place and the modifier. -/
theorem hoverAll_eq {session : Session} {grip : Grip} (hd : session.drag = some grip)
    (hovers : List (DropPlace × Bool)) :
    ∃ held, session.hoverAll hovers = { session with drag := some held } ∧
      held.concept = grip.concept ∧ held.parent = grip.parent := by
  induction hovers generalizing session grip with
  | nil =>
    refine ⟨grip, ?_, rfl, rfl⟩
    show session = { session with drag := some grip }
    rw [← hd]
  | cons hover rest ih =>
    have hnext : (session.hover hover.1 hover.2).drag =
        some (grip.hover session.graph session.index hover.1 hover.2) := by
      show session.drag.hover session.graph session.index hover.1 hover.2 = _
      rw [hd]
      rfl
    obtain ⟨held, heq, hc, hp⟩ := ih hnext
    exact ⟨held, heq, hc, hp⟩

end Session

end Thesaurus

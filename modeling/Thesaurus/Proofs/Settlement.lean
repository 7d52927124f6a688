import Mathlib.Data.List.Nodup
import Thesaurus.Proofs.SessionSteps

/-!
# Changes asked for and not settled

A drop asks for a change, and an answer settles it at some later time. Where every answer settles
one change that was asked for, the changes under way are those not settled yet, no two of one
concept, and no concept is dragged while its change is under way. So a drop is never refused
because of one.
-/

namespace Thesaurus.Session

/-- The changes not settled after an action: an answer settles one, and a drop may ask for one. -/
def unsettledAfter (session : Session) (unsettled : List ParentChange) :
    Action → List ParentChange
  | .receiveAnswer _ change _ => unsettled.erase change
  | action => (session.wanted? action).toList ++ unsettled

/-- The changes not settled after some actions. -/
def unsettledBy (session : Session) (unsettled : List ParentChange) :
    List Action → List ParentChange
  | [] => unsettled
  | action :: rest =>
    (session.act action).unsettledBy (session.unsettledAfter unsettled action) rest

/-- Whether an action, if it is the answer to a change, settles one that is not settled. -/
def Action.Settles (unsettled : List ParentChange) : Action → Prop
  | .receiveAnswer _ change _ => change ∈ unsettled
  | _ => True

/-- Whether each answer in a run settles one of the changes asked for and not settled before. -/
def SettlesOnce (session : Session) (unsettled : List ParentChange) : List Action → Prop
  | [] => True
  | action :: rest =>
    action.Settles unsettled ∧
      (session.act action).SettlesOnce (session.unsettledAfter unsettled action) rest

/-- A session whose changes under way are some that are not settled. -/
structure Awaits (session : Session) (unsettled : List ParentChange) : Prop where
  /-- A change of a concept is under way exactly if one of them is of the concept. -/
  pending_iff : ∀ id, session.isPending id = true ↔ ∃ change ∈ unsettled, change.concept = id
  /-- No two of them are of one concept. -/
  distinct : (unsettled.map ParentChange.concept).Nodup
  /-- No change of the dragged concept is under way. -/
  drag_free : ∀ grip, session.drag = some grip → session.isPending grip.concept = false

section Awaits

variable {session : Session} {unsettled : List ParentChange}

/-- A change of a concept is under way exactly if the concept is listed. -/
theorem isPending_iff {id : ConceptId} : session.isPending id = true ↔ id ∈ session.pending :=
  decide_eq_true_iff

/-- A new session awaits nothing. -/
theorem new_awaits (settings : Settings) : (new settings).Awaits [] where
  pending_iff := fun id => by
    rw [isPending_iff]
    constructor
    · exact fun mem => absurd mem (TextSet.not_mem_empty id)
    · rintro ⟨_, mem, _⟩
      cases mem
  distinct := List.nodup_nil
  drag_free := fun _ hd => nomatch hd

/-- After an action that asks for no change, and brings no answer to one, the same is awaited. -/
theorem Awaits.act_of_none (ha : session.Awaits unsettled) {action : Action}
    (h : session.wanted? action = none)
    (hout : ∀ scheme change answer, action ≠ .receiveAnswer scheme change answer) :
    (session.act action).Awaits unsettled := by
  have hpending : ∀ id, (session.act action).isPending id = session.isPending id := by
    intro id
    unfold isPending
    rw [pending_act_of_none h hout]
  refine ⟨fun id => ?_, ha.distinct, fun grip hd => ?_⟩
  · rw [hpending]
    exact ha.pending_iff id
  · rw [hpending]
    rcases drag_act hd with ⟨old, hold, hc⟩ | ⟨_, _, _, hidle⟩
    · rw [hc.concept_eq]
      exact ha.drag_free old hold
    · exact hidle

/-- After an action that asks for a change, that change is awaited too. -/
theorem Awaits.act_of_wanted (ha : session.Awaits unsettled) {action : Action}
    {request : ParentChange} (h : session.wanted? action = some request) :
    (session.act action).Awaits (request :: unsettled) := by
  obtain ⟨hpending, hidle⟩ := pending_act_of_wanted h
  have hout : request.concept ∉ unsettled.map ParentChange.concept := by
    intro mem
    have hbusy := (ha.pending_iff request.concept).mpr (List.mem_map.mp mem)
    exact Bool.false_ne_true (hidle.symm.trans hbusy)
  refine ⟨fun id => ?_, List.nodup_cons.mpr ⟨hout, ha.distinct⟩, fun grip hd => ?_⟩
  · rw [isPending_iff, hpending, TextSet.mem_insert, ← isPending_iff, ha.pending_iff,
      List.exists_mem_cons_iff, eq_comm]
  · -- only a drop asks for a change, and it ends the drag
    cases action with
    | drop place modifier =>
      have hnone := session.drag_drop place modifier
      rw [show (session.drop place modifier).2.drag = some grip from hd] at hnone
      cases hnone
    | _ => cases h

/-- After the answer to a change, that change is no longer awaited. -/
theorem Awaits.receiveAnswer (ha : session.Awaits unsettled) {change : ParentChange}
    (mem : change ∈ unsettled) (scheme : String) (answer : Except RequestError ConceptGraph) :
    (session.receiveAnswer scheme change answer).2.Awaits (unsettled.erase change) := by
  have hnodup : unsettled.Nodup := ha.distinct.of_map
  have hpending : ∀ id, (session.receiveAnswer scheme change answer).2.isPending id = true ↔
      session.isPending id = true ∧ id ≠ change.concept := by
    intro id
    rw [isPending_iff, pending_receiveAnswer, TextSet.mem_erase, isPending_iff]
  refine ⟨fun id => ?_, ha.distinct.sublist (List.erase_sublist.map _), fun grip hd => ?_⟩
  · rw [hpending, ha.pending_iff]
    constructor
    · rintro ⟨⟨other, hother, rfl⟩, hne⟩
      have hkept : other ≠ change := fun same => hne (congrArg ParentChange.concept same)
      exact ⟨other, (List.mem_erase_of_ne hkept).mpr hother, rfl⟩
    · rintro ⟨other, hother, rfl⟩
      obtain ⟨hkept, hother⟩ := hnodup.mem_erase_iff.mp hother
      exact ⟨⟨other, hother, rfl⟩,
        fun same => hkept (List.inj_on_of_nodup_map ha.distinct hother mem same)⟩
  · have hidle := ha.drag_free grip (drag_receiveAnswer hd)
    refine Bool.eq_false_iff.mpr fun hbusy => ?_
    exact Bool.false_ne_true (hidle.symm.trans ((hpending _).mp hbusy).1)

/-- Every action keeps to what is awaited, if it settles nothing else. -/
theorem Awaits.act (ha : session.Awaits unsettled) {action : Action}
    (hs : action.Settles unsettled) :
    (session.act action).Awaits (session.unsettledAfter unsettled action) := by
  cases action with
  | receiveAnswer scheme change answer => exact ha.receiveAnswer hs scheme answer
  | drop place modifier =>
    show ((session.act (.drop place modifier))).Awaits
      ((session.wanted? (.drop place modifier)).toList ++ unsettled)
    cases h : session.wanted? (.drop place modifier) with
    | none => exact ha.act_of_none h fun _ _ _ => Action.noConfusion
    | some request => exact ha.act_of_wanted h
  | _ => exact ha.act_of_none rfl fun _ _ _ => Action.noConfusion

/-- Every run keeps to what is awaited, if each answer settles one change that is. -/
theorem Awaits.run (ha : session.Awaits unsettled) {actions : List Action}
    (hs : session.SettlesOnce unsettled actions) :
    (session.run actions).Awaits (session.unsettledBy unsettled actions) := by
  induction actions generalizing session unsettled with
  | nil => exact ha
  | cons action rest ih => exact ih (ha.act hs.1) hs.2

/-- Where no change of the dragged concept is under way, no drop is refused because of one. -/
theorem Awaits.drop_ne_underWay (ha : session.Awaits unsettled) (place : Option DropPlace)
    (modifier : Bool) (id : ConceptId) :
    (session.drop place modifier).1 ≠ .error (.underWay id) := by
  intro h
  obtain ⟨grip, hd, hbusy⟩ := drop_eq_underWay h
  exact Bool.false_ne_true ((ha.drag_free grip hd).symm.trans hbusy)

end Awaits

/-- Whatever happens in whatever order, if each answer settles one change that was asked for, then
the concepts whose change is under way are those of the changes not settled, no two of which are of
one concept; no change of the dragged concept is under way; and no drop is refused because of
one. -/
theorem pending_iff_unsettled (settings : Settings) (actions : List Action)
    (hs : (new settings).SettlesOnce [] actions) :
    (∀ id, ((new settings).run actions).isPending id = true ↔
      ∃ change ∈ (new settings).unsettledBy [] actions, change.concept = id) ∧
    (((new settings).unsettledBy [] actions).map ParentChange.concept).Nodup ∧
    (∀ grip, ((new settings).run actions).drag = some grip →
      ((new settings).run actions).isPending grip.concept = false) ∧
    ∀ place modifier id, (((new settings).run actions).drop place modifier).1 ≠
      .error (.underWay id) := by
  have ha := (new_awaits settings).run hs
  exact ⟨ha.pending_iff, ha.distinct, ha.drag_free, ha.drop_ne_underWay⟩

/-- A run in which dogs and wolves are moved, a second drag of dogs is ignored, the answer for dogs
comes in while another scheme is shown, and cats are dragged in the end. -/
def answeredElsewhere : List Action :=
  [.turnTo "animals", .receiveScheme "animals" (.ok (ConceptGraph.ofRecords Samples.animals)),
    .grab "dogs" "animals/mammals/canines/dogs", .hover (.concept "birds") false,
    .drop (some (.concept "birds")) false, .grab "dogs" "pets/dogs", .search "wolves",
    .grab "wolves" "animals/mammals/canines/wolves", .drop (some (.concept "birds")) false,
    .turnTo "materials",
    .receiveAnswer "animals" ⟨"dogs", some "birds", some "canines"⟩
      (.ok (ConceptGraph.ofRecords Samples.animals)),
    .turnTo "animals", .receiveScheme "animals" (.ok (ConceptGraph.ofRecords Samples.animals)),
    .grab "cats" "pets/cats"]

/-- In the end the change of wolves is under way, that of dogs is not, and the drop of cats may be
anywhere. -/
theorem pending_iff_unsettled_elsewhere :
    (new Samples.settings).SettlesOnce [] answeredElsewhere ∧
      ((new Samples.settings).run answeredElsewhere).isPending "wolves" = true ∧
      ¬((new Samples.settings).run answeredElsewhere).isPending "dogs" = true ∧
      ∀ place modifier id, (((new Samples.settings).run answeredElsewhere).drop place modifier).1 ≠
        .error (.underWay id) := by
  have hs : (new Samples.settings).SettlesOnce [] answeredElsewhere := by
    refine ⟨trivial, trivial, trivial, trivial, trivial, trivial, trivial, trivial, trivial,
      trivial, ?_, trivial, trivial, trivial, trivial⟩
    show _ ∈ _
    decide +kernel
  have hleft : (new Samples.settings).unsettledBy [] answeredElsewhere =
      [⟨"wolves", some "birds", some "canines"⟩] := by
    decide +kernel
  obtain ⟨hpending, _, _, hdrop⟩ := pending_iff_unsettled Samples.settings answeredElsewhere hs
  rw [hleft] at hpending
  refine ⟨hs, (hpending "wolves").mpr ⟨_, List.mem_singleton_self _, rfl⟩, fun hdogs => ?_, hdrop⟩
  obtain ⟨change, mem, hc⟩ := (hpending "dogs").mp hdogs
  rw [List.mem_singleton.mp mem] at hc
  revert hc
  decide

end Thesaurus.Session

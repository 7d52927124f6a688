import Mathlib.Data.List.Induction
import Thesaurus.Proofs.SessionSteps
import Thesaurus.Proofs.Unfolding

/-!
# What a drag keeps of its history

A drag may be started, hovered, judged, released and let go of any number of times, each time
against another graph. What its release comes to is told by the last start and by what the release
itself is given: neither hovers nor earlier drags leave a trace in it. A release and a cancel end
the drag, so between two starts at most one release amounts to anything.
-/

namespace Thesaurus

namespace Drag

/-- What is asked of the one drag. Whatever judges a place brings the graph and the index of its
moment. -/
inductive Call where
  /-- Take hold of an occurrence. -/
  | start (concept : ConceptId) (path : PathText)
  /-- Hover over a place. -/
  | hover (graph : ConceptGraph) (index : Descendants) (place : DropPlace) (modifier : Bool)
  /-- Ask whether a place would accept a drop. -/
  | judge (graph : ConceptGraph) (index : Descendants) (place : DropPlace)
  /-- Release what is dragged, perhaps on no place. -/
  | release (graph : ConceptGraph) (index : Descendants) (place : Option DropPlace)
      (modifier : Bool)
  /-- Let go of what is dragged. -/
  | cancel

/-- The drag after a call. -/
def after (drag : Drag) : Call → Drag
  | .start concept path => some (Grip.start concept path)
  | .hover graph index place modifier => drag.hover graph index place modifier
  | .judge .. => drag
  | .release graph index place modifier => (drag.release graph index place modifier).2
  | .cancel => none

/-- The drag after some calls. -/
def afterAll (drag : Drag) (calls : List Call) : Drag := calls.foldl after drag

/-- What a call amounts to, if it is a release. -/
def result? (drag : Drag) : Call → Option DropResult
  | .release graph index place modifier => some (drag.release graph index place modifier).1
  | _ => none

/-- What the releases among some calls amount to, in their order. -/
def results (drag : Drag) : List Call → List DropResult
  | [] => []
  | call :: rest => (drag.result? call).toList ++ (drag.after call).results rest

/-- The occurrence that a call takes hold of, if it does. -/
def Call.started? : Call → Option (ConceptId × PathText)
  | .start concept path => some (concept, path)
  | _ => none

/-- Whether a call ends the drag. -/
def Call.isEnd : Call → Bool
  | .release .. => true
  | .cancel => true
  | _ => false

/-- The occurrence that was taken hold of last among some calls. -/
def lastStart? (calls : List Call) : Option (ConceptId × PathText) :=
  (calls.filterMap Call.started?).getLast?

section History

variable {drag : Drag} {grip other : Grip} {calls : List Call} {call : Call}

/-- A later start counts more than an earlier one. -/
theorem lastStart?_concat (calls : List Call) (call : Call) :
    lastStart? (calls ++ [call]) = call.started?.or (lastStart? calls) := by
  unfold lastStart?
  rw [List.filterMap_append]
  cases hstart : call.started? with
  | none => simp [hstart]
  | some begun => simp [hstart]

/-- After some calls one more is made in the state that they leave. -/
theorem afterAll_concat (drag : Drag) (calls : List Call) (call : Call) :
    drag.afterAll (calls ++ [call]) = (drag.afterAll calls).after call :=
  List.foldl_append ..

/-- What is dragged after some calls goes on with the drag that was started last. -/
theorem continues_of_afterAll {concept : ConceptId} {path : PathText}
    (hlast : lastStart? calls = some (concept, path)) (h : drag.afterAll calls = some grip) :
    Session.Continues grip (Grip.start concept path) := by
  induction calls using List.reverseRecOn generalizing grip with
  | nil => cases hlast
  | append_singleton calls call ih =>
    rw [lastStart?_concat] at hlast
    rw [afterAll_concat] at h
    cases call with
    | start begun place =>
      cases hlast
      cases h
      exact Session.Continues.refl _
    | hover graph index place modifier =>
      obtain ⟨old, hold, rfl⟩ := Option.map_eq_some_iff.mp h
      exact (Session.continues_hover old graph index place modifier).trans (ih hlast hold)
    | judge graph index place => exact ih hlast h
    | release graph index place modifier =>
      rw [after, release_snd] at h
      cases h
    | cancel => cases h

/-- A place is judged by the concept and the parent on the path, which go on. -/
theorem verdict_congr (h : Session.Continues grip other) (graph : ConceptGraph)
    (index : Descendants) (place : DropPlace) :
    grip.verdict graph index place = other.verdict graph index place := by
  cases place with
  | top => simp only [Grip.verdict, h.concept_eq, h.parent_eq]
  | concept id => simp only [Grip.verdict, h.concept_eq, h.parent_eq]

/-- So is what a release comes to. -/
theorem release_congr (h : Session.Continues grip other) (graph : ConceptGraph)
    (index : Descendants) (place : Option DropPlace) (modifier : Bool) :
    Drag.release (some grip) graph index place modifier =
      Drag.release (some other) graph index place modifier := by
  cases place with
  | none => rfl
  | some target => simp only [release, Grip.dropOn, verdict_congr h, h.concept_eq, h.parent_eq]

/-- A release after a hover comes to what it would have come to before. -/
theorem release_hover (drag : Drag) (hoveredIn : ConceptGraph) (hoveredBy : Descendants)
    (hovered : DropPlace) (held : Bool) (graph : ConceptGraph) (index : Descendants)
    (place : Option DropPlace) (modifier : Bool) :
    (drag.hover hoveredIn hoveredBy hovered held).release graph index place modifier =
      drag.release graph index place modifier := by
  cases drag with
  | none => rfl
  | some grip =>
    have hkept := Session.continues_hover grip hoveredIn hoveredBy hovered held
    exact release_congr hkept graph index place modifier

/-- Where nothing is dragged, and no drag is started, every release is cancelled. -/
theorem results_none (h : ∀ call ∈ calls, call.started? = none) :
    ∃ n, Drag.results none calls = List.replicate n .cancelled := by
  induction calls with
  | nil => exact ⟨0, rfl⟩
  | cons call rest ih =>
    obtain ⟨hcall, hrest⟩ := List.forall_mem_cons.mp h
    obtain ⟨n, hn⟩ := ih hrest
    cases call with
    | start concept path => cases hcall
    | hover graph index place modifier => exact ⟨n, hn⟩
    | judge graph index place => exact ⟨n, hn⟩
    | release graph index place modifier =>
      exact ⟨n + 1, congrArg (DropResult.cancelled :: ·) hn⟩
    | cancel => exact ⟨n, hn⟩

/-- Where no drag is started, every release is cancelled but perhaps the first, and that amounts to
what it would have amounted to at once. -/
theorem results_of_no_start (drag : Drag) (h : ∀ call ∈ calls, call.started? = none) :
    ∃ n, drag.results calls = List.replicate n .cancelled ∨
      ∃ graph index place modifier, drag.results calls =
        (drag.release graph index place modifier).1 :: List.replicate n .cancelled := by
  induction calls generalizing drag with
  | nil => exact ⟨0, Or.inl rfl⟩
  | cons call rest ih =>
    obtain ⟨hcall, hrest⟩ := List.forall_mem_cons.mp h
    cases call with
    | start concept path => cases hcall
    | hover hoveredIn hoveredBy hovered held =>
      obtain ⟨n, hcancelled | ⟨graph, index, place, modifier, hfirst⟩⟩ := ih _ hrest
      · exact ⟨n, Or.inl hcancelled⟩
      · rw [after, release_hover] at hfirst
        exact ⟨n, Or.inr ⟨graph, index, place, modifier, hfirst⟩⟩
    | judge graph index place => exact ih drag hrest
    | release graph index place modifier =>
      obtain ⟨n, hn⟩ := results_none hrest
      rw [← drag.release_snd graph index place modifier] at hn
      exact ⟨n, Or.inr ⟨graph, index, place, modifier, congrArg (_ :: ·) hn⟩⟩
    | cancel =>
      obtain ⟨n, hn⟩ := results_none hrest
      exact ⟨n, Or.inl hn⟩

/-- Where no drag is started, at most one release amounts to anything. -/
theorem countP_results_le_one (h : ∀ call ∈ calls, call.started? = none) :
    (drag.results calls).countP (fun result => decide (result ≠ .cancelled)) ≤ 1 := by
  have hnone : ∀ n, (List.replicate n DropResult.cancelled).countP
      (fun result => decide (result ≠ .cancelled)) = 0 := by
    intro n
    rw [List.countP_eq_zero]
    intro result mem
    simp [List.eq_of_mem_replicate mem]
  obtain ⟨n, hcancelled | ⟨graph, index, place, modifier, hfirst⟩⟩ :=
    results_of_no_start drag h
  · rw [hcancelled, hnone]
    exact Nat.zero_le 1
  · rw [hfirst, List.countP_cons, hnone, Nat.zero_add]
    split
    · exact Nat.le_refl 1
    · exact Nat.zero_le 1

end History

end Drag

namespace Session

/-- What an action asks of the drag of a session, if it is one on the drag. -/
def dragCall? (session : Session) : Action → Option Drag.Call
  | .grab id path => if session.isPending id then none else some (.start id path)
  | .hover place modifier => some (.hover session.graph session.index place modifier)
  | .drop place modifier => some (.release session.graph session.index place modifier)
  | .letGo => some .cancel
  | _ => none

/-- An action on the drag of a session leaves what the call to it leaves. -/
theorem drag_act_of_call {session : Session} {action : Action} {call : Drag.Call}
    (h : session.dragCall? action = some call) :
    (session.act action).drag = session.drag.after call := by
  cases action with
  | grab id path =>
    show (session.grab id path).drag = _
    cases hp : session.isPending id with
    | true =>
      rw [dragCall?, if_pos hp] at h
      cases h
    | false =>
      rw [dragCall?, if_neg (Bool.eq_false_iff.mp hp)] at h
      cases h
      rw [grab_of_idle hp]
      rfl
  | hover place modifier =>
    cases h
    rfl
  | drop place modifier =>
    cases h
    rw [Drag.after, Drag.release_snd]
    exact session.drag_drop place modifier
  | letGo =>
    cases h
    rfl
  | _ => cases h

end Session

namespace Drag

/-- However two drags have come about, if both go on and were started last at the same occurrence,
they are judged alike and their releases come to the same. A release and a cancel end a drag,
whatever the release amounts to, in a session as well. Where no drag is started, as between two
starts, at most one release amounts to anything. -/
theorem hovers_leave_no_trace :
    (∀ (first second : Drag) (calls others : List Call) (concept : ConceptId) (path : PathText),
      lastStart? calls = some (concept, path) → lastStart? others = some (concept, path) →
      (first.afterAll calls).isSome = true → (second.afterAll others).isSome = true →
      ∀ (graph : ConceptGraph) (index : Descendants),
        (∀ place, (first.afterAll calls).verdict graph index place =
          (second.afterAll others).verdict graph index place) ∧
        ∀ place modifier, (first.afterAll calls).release graph index place modifier =
          (second.afterAll others).release graph index place modifier) ∧
    (∀ (drag : Drag) (calls : List Call) (call : Call), call.isEnd = true →
      drag.afterAll (calls ++ [call]) = none) ∧
    (∀ (session : Session) (action : Session.Action) (call : Call),
      session.dragCall? action = some call →
        (session.act action).drag = session.drag.after call) ∧
    ∀ (drag : Drag) (between : List Call), (∀ call ∈ between, call.started? = none) →
      (drag.results between).countP (fun result => decide (result ≠ .cancelled)) ≤ 1 := by
  refine ⟨?_, fun drag calls call hend => ?_, fun _ _ _ => Session.drag_act_of_call,
    fun _ _ => countP_results_le_one⟩
  · intro first second calls others concept path hcalls hothers hfirst hsecond graph index
    obtain ⟨grip, hgrip⟩ := Option.isSome_iff_exists.mp hfirst
    obtain ⟨other, hother⟩ := Option.isSome_iff_exists.mp hsecond
    have hc := continues_of_afterAll hcalls hgrip
    have ho := continues_of_afterAll hothers hother
    rw [hgrip, hother]
    constructor
    · intro place
      exact (verdict_congr hc graph index place).trans (verdict_congr ho graph index place).symm
    · intro place modifier
      exact (release_congr hc graph index place modifier).trans
        (release_congr ho graph index place modifier).symm
  · rw [afterAll_concat]
    cases call with
    | release graph index place modifier => exact release_snd _ graph index place modifier
    | cancel => rfl
    | _ => cases hend

/-- A drag of dogs that overtakes one of cats, hovered over birds among the animals and over north
among the tangled records. -/
def hoveredAbout : List Call :=
  [.start "cats" "pets/cats",
    .hover (ConceptGraph.ofRecords Samples.animals)
      (Descendants.ofGraph (ConceptGraph.ofRecords Samples.animals)) (.concept "birds") true,
    .start "dogs" "pets/dogs",
    .hover (ConceptGraph.ofRecords ConceptGraph.tangled)
      (Descendants.ofGraph (ConceptGraph.ofRecords ConceptGraph.tangled)) (.concept "north") true]

/-- A drag of dogs from pets to birds. -/
def droppedOnBirds : Call :=
  .release (ConceptGraph.ofRecords Samples.animals)
    (Descendants.ofGraph (ConceptGraph.ofRecords Samples.animals)) (some (.concept "birds")) false

/-- Dragged about before, dogs move from pets to birds as if they had been taken hold of just now. A
second release changes nothing. -/
theorem hovers_leave_no_trace_dogs :
    lastStart? hoveredAbout = some ("dogs", "pets/dogs") ∧
    lastStart? [.start "dogs" "pets/dogs"] = some ("dogs", "pets/dogs") ∧
    (Drag.afterAll none hoveredAbout).isSome = true ∧
    (Drag.afterAll none [.start "dogs" "pets/dogs"]).isSome = true ∧
    (Drag.afterAll none hoveredAbout).release (ConceptGraph.ofRecords Samples.animals)
        (Descendants.ofGraph (ConceptGraph.ofRecords Samples.animals)) (some (.concept "birds"))
        false = (.wanted ⟨"dogs", some "birds", some "pets"⟩, none) ∧
    droppedOnBirds.isEnd = true ∧
    Drag.afterAll none (hoveredAbout ++ [droppedOnBirds]) = none ∧
    (∀ call ∈ [droppedOnBirds, droppedOnBirds], call.started? = none) ∧
    ((Drag.afterAll none hoveredAbout).results [droppedOnBirds, droppedOnBirds]).countP
      (fun result => decide (result ≠ .cancelled)) ≤ 1 := by
  obtain ⟨hsame, hends, _, hone⟩ := hovers_leave_no_trace
  have hfresh : (Drag.afterAll none [.start "dogs" "pets/dogs"]).release
      (ConceptGraph.ofRecords Samples.animals)
      (Descendants.ofGraph (ConceptGraph.ofRecords Samples.animals)) (some (.concept "birds"))
      false = (.wanted ⟨"dogs", some "birds", some "pets"⟩, none) := by
    decide +kernel
  have hnone : ∀ call ∈ [droppedOnBirds, droppedOnBirds], call.started? = none := by
    intro call mem
    simp only [List.mem_cons, List.not_mem_nil, or_false, or_self] at mem
    rw [mem]
    rfl
  exact ⟨rfl, rfl, rfl, rfl, ((hsame none none _ _ _ _ rfl rfl rfl rfl _ _).2 _ _).trans hfresh,
    rfl, hends none _ _ rfl, hnone, hone _ _ hnone⟩

end Drag

end Thesaurus

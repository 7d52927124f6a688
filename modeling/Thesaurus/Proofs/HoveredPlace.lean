import Thesaurus.Proofs.HeldParent

/-!
# The place kept from a hover

A place that is hovered over is kept if it accepts the drop then, and it is kept until the next
hover, whatever graphs come in meanwhile. It is still not where the dragged occurrence stands
already, so it accepts the drop exactly if the graph of the moment holds it and does not have it
below the dragged concept. A graph that takes the place out, or puts it below the dragged concept,
comes in without the place being judged again: it is kept then, and it refuses the drop.
-/

namespace Thesaurus

namespace Grip

variable {grip : Grip} {graph : ConceptGraph} {index : Descendants} {place : DropPlace}

/-- Whether a place is neither where the dragged occurrence stands already nor the dragged concept.
No graph has a part in it. -/
def StandsApart (grip : Grip) : DropPlace → Prop
  | .top => grip.parent ≠ none
  | .concept id => id ≠ grip.concept ∧ grip.parent ≠ some id

/-- A place that accepts the drop stands apart, and the dragged concept is known. -/
theorem standsApart_of_accepted (h : grip.verdict graph index place = .accepted) :
    graph.contains grip.concept = true ∧ grip.StandsApart place := by
  obtain ⟨hknown, hplace⟩ := verdict_eq_accepted_iff.mp h
  cases place with
  | top => exact ⟨hknown, hplace⟩
  | concept id => exact ⟨hknown, hplace.2.1, hplace.2.2.1⟩

/-- A place is kept from a hover only if it accepted the drop then. -/
theorem accepted_of_place_hover {old : Grip} {hovered : DropPlace} {modifier : Bool}
    (h : (old.hover graph index hovered modifier).place = some place) :
    hovered = place ∧ old.verdict graph index place = .accepted := by
  unfold hover at h
  dsimp only at h
  split at h
  · cases h
    exact ⟨rfl, by assumption⟩
  · cases h

/-- The top of the tree, if it stands apart, accepts the drop of a known concept. -/
theorem verdict_top (hknown : graph.contains grip.concept = true)
    (ha : grip.StandsApart .top) : grip.verdict graph index .top = .accepted := by
  rw [verdict_eq_accepted_iff]
  exact ⟨hknown, ha⟩

/-- Another concept, if it stands apart, is judged by the graph alone. -/
theorem verdict_concept {id : ConceptId} (hknown : graph.contains grip.concept = true)
    (ha : grip.StandsApart (.concept id)) :
    grip.verdict graph index (.concept id) =
      if graph.contains id = false then .unknownPlace
      else if index.isBelow grip.concept id = true then .below else .accepted := by
  obtain ⟨hself, hparent⟩ := ha
  cases hplace : graph.contains id with
  | false => simp [verdict, hknown, hplace]
  | true => simp [verdict, hknown, hplace, hself, hparent]

end Grip

namespace Session

/-- How a session judges a place for what is dragged. -/
structure Judges (session : Session) (grip : Grip) (place : DropPlace) : Prop where
  /-- It accepts the drop exactly if it is the top, or a known concept that is not below the dragged
  one. -/
  accepted_iff : session.verdict place = .accepted ↔ ∀ id, place = .concept id →
    session.graph.contains id = true ∧ ¬session.graph.Below grip.concept id
  /-- It is refused as unknown exactly if it is a concept that is gone. -/
  unknownPlace_iff : session.verdict place = .unknownPlace ↔
    ∃ id, place = .concept id ∧ session.graph.contains id = false
  /-- It is refused as below exactly if it is a known concept below the dragged one. -/
  below_iff : session.verdict place = .below ↔
    ∃ id, place = .concept id ∧ session.graph.contains id = true ∧
      session.graph.Below grip.concept id

/-- The place that is kept, if any is, stands apart, and the dragged concept is known then. -/
def KeepsApart (session : Session) : Prop :=
  ∀ grip place, session.drag = some grip → grip.place = some place →
    session.graph.contains grip.concept = true ∧ grip.StandsApart place

section KeepsApart

variable {session : Session}

/-- No place is kept where nothing is dragged. -/
theorem keepsApart_of_idle (h : session.drag = none) : session.KeepsApart := by
  intro grip place hd _
  rw [h] at hd
  cases hd

/-- Every action keeps a place apart: only a hover puts a place in, and no graph is shown that does
not hold the dragged concept. -/
theorem KeepsApart.act (hk : session.KeepsApart) (action : Action) :
    (session.act action).KeepsApart := by
  intro grip place hd hp
  rcases drag_act_cases hd with ⟨hold, hknown⟩ | ⟨hovered, modifier, old, rfl, hold, rfl⟩ |
    ⟨path, _, hstart, _⟩
  · obtain ⟨hin, hapart⟩ := hk grip place hold hp
    have hholds : session.HoldsKnown := fun other hother =>
      Option.some.inj (hold.symm.trans hother) ▸ hin
    exact ⟨hknown hholds grip hd, hapart⟩
  · obtain ⟨rfl, haccepted⟩ := Grip.accepted_of_place_hover hp
    exact Grip.standsApart_of_accepted haccepted
  · rw [hstart] at hp
    cases hp

/-- So it is in a whole run. -/
theorem KeepsApart.run (hk : session.KeepsApart) (actions : List Action) :
    (session.run actions).KeepsApart := by
  induction actions generalizing session with
  | nil => exact hk
  | cons action rest ih => exact ih (hk.act action)

/-- Where all agrees, a place that stands apart is judged by the graph alone. -/
theorem Derived.judges {settings : Settings} (hs : session.Derived settings) {grip : Grip}
    {place : DropPlace} (hd : session.drag = some grip)
    (hknown : session.graph.contains grip.concept = true) (ha : grip.StandsApart place) :
    session.Judges grip place := by
  have hverdict : session.verdict place =
      grip.verdict session.graph (Descendants.ofGraph session.graph) place := by
    unfold Session.verdict Drag.verdict
    rw [hd, hs.index_eq]
  cases place with
  | top =>
    rw [Grip.verdict_top hknown ha] at hverdict
    constructor <;> simp [hverdict]
  | concept id =>
    rw [Grip.verdict_concept hknown ha] at hverdict
    have hbelow : session.graph.Below grip.concept id ↔
        (Descendants.ofGraph session.graph).isBelow grip.concept id = true := by
      rw [Descendants.isBelow_ofGraph]
      exact ⟨fun h => ⟨hknown, ha.1, h⟩, fun h => h.2.2⟩
    cases hin : session.graph.contains id with
    | false => constructor <;> simp [hverdict, hin]
    | true =>
      cases hb : (Descendants.ofGraph session.graph).isBelow grip.concept id with
      | false => constructor <;> simp [hverdict, hin, hbelow, hb]
      | true => constructor <;> simp [hverdict, hin, hbelow, hb]

/-- A place that is kept after a run was hovered over by one of its actions and accepted the drop
then, and the drag has been as it is since, if nothing was dragged before. -/
theorem exists_hover_of_place (hidle : session.drag = none) {actions : List Action} {grip : Grip}
    {place : DropPlace} (hd : (session.run actions).drag = some grip)
    (hp : grip.place = some place) :
    ∃ before modifier after old, actions = before ++ .hover place modifier :: after ∧
      (session.run before).drag = some old ∧ Continues grip old ∧
      (session.run before).verdict place = .accepted ∧
      ∀ part, part <+: after →
        (session.run (before ++ .hover place modifier :: part)).drag = some grip := by
  induction actions using List.reverseRecOn with
  | nil =>
    have hnone : (session.run []).drag = none := hidle
    rw [hnone] at hd
    cases hd
  | append_singleton actions action ih =>
    have hlast := hd
    rw [run_append] at hd
    change ((session.run actions).act action).drag = some grip at hd
    rcases drag_act_cases hd with ⟨hold, _⟩ | ⟨hovered, modifier, old, rfl, hold, rfl⟩ |
      ⟨path, _, hstart, _⟩
    · obtain ⟨before, modifier, after, old, rfl, hrest⟩ := ih hold
      obtain ⟨hbefore, hcontinues, haccepted, hsince⟩ := hrest
      refine ⟨before, modifier, after ++ [action], old, List.append_assoc .., hbefore, hcontinues,
        haccepted, fun part hpart => ?_⟩
      rcases List.prefix_concat_iff.mp hpart with rfl | hpart
      · rw [List.append_assoc] at hlast
        exact hlast
      · exact hsince part hpart
    · obtain ⟨rfl, haccepted⟩ := Grip.accepted_of_place_hover hp
      have hverdict : (session.run actions).verdict hovered = .accepted := by
        unfold Session.verdict
        rw [hold]
        exact haccepted
      refine ⟨actions, modifier, [], old, rfl, hold, ⟨rfl, rfl, rfl⟩, hverdict,
        fun part hpart => ?_⟩
      rw [List.prefix_nil.mp hpart]
      exact hlast
    · rw [hstart] at hp
      cases hp

end KeepsApart

/-- In every session that a new one can come to, a place that is kept was hovered over and accepted
the drop then, and is kept since. It still accepts the drop exactly if it is the top, or a concept
of the graph that is not below the dragged one, and it is refused as unknown or as below exactly if
it is so. If no graph has come in since it was hovered over, it still accepts the drop. -/
theorem kept_place_accepts_iff (settings : Settings) (actions : List Action) (grip : Grip)
    (place : DropPlace) (hd : ((new settings).run actions).drag = some grip)
    (hp : grip.place = some place) :
    ((new settings).run actions).Judges grip place ∧
    ∃ before modifier after, actions = before ++ .hover place modifier :: after ∧
      ((new settings).run before).verdict place = .accepted ∧
      (∀ part, part <+: after →
        ((new settings).run (before ++ .hover place modifier :: part)).drag = some grip) ∧
      ((∀ action ∈ after, action.isLocal = true) →
        ((new settings).run actions).verdict place = .accepted) := by
  have hderived := (new_derived settings).run
  have hkeeps : ((new settings).run actions).KeepsApart := (keepsApart_of_idle rfl).run actions
  obtain ⟨hknown, hapart⟩ := hkeeps grip place hd hp
  have hjudges := (hderived actions).judges hd hknown hapart
  obtain ⟨before, modifier, after, old, rfl, hold, hcontinues, haccepted, hsince⟩ :=
    exists_hover_of_place rfl hd hp
  refine ⟨hjudges, before, modifier, after, rfl, haccepted, hsince, fun hlocal => ?_⟩
  have hgraph : ((new settings).run (before ++ .hover place modifier :: after)).graph =
      ((new settings).run before).graph := by
    rw [run_append]
    refine graph_run_of_local fun action mem => ?_
    rcases List.mem_cons.mp mem with rfl | mem
    · rfl
    · exact hlocal action mem
  have hverdict : old.verdict ((new settings).run before).graph
      ((new settings).run before).index place = .accepted := by
    unfold Session.verdict Drag.verdict at haccepted
    rw [hold] at haccepted
    exact haccepted
  obtain ⟨hknownThen, hapartThen⟩ := Grip.standsApart_of_accepted hverdict
  have hjudgedThen := (hderived before).judges hold hknownThen hapartThen
  rw [hjudges.accepted_iff, hgraph, hcontinues.concept_eq]
  exact hjudgedThen.accepted_iff.mp haccepted

/-- A run in which dogs are dragged and hovered over birds before some records come in. -/
def hoveredBefore (records : List Record) : List Action :=
  [.turnTo "animals", .receiveScheme "animals" (.ok (ConceptGraph.ofRecords Samples.animals)),
    .grab "dogs" "pets/dogs", .hover (.concept "birds") false,
    .receiveScheme "animals" (.ok (ConceptGraph.ofRecords records))]

/-- What is dragged in such a run, and the place kept. -/
def dogsOverBirds : Grip :=
  { concept := "dogs", path := "pets/dogs", parent := some "pets",
    place := some (.concept "birds") }

/-- Birds are kept, and still accept the dogs, when these are taken away from canines. -/
theorem kept_place_accepts_birds :
    ((new Samples.settings).run (hoveredBefore animalsWithPetDogs)).drag = some dogsOverBirds ∧
      ((new Samples.settings).run (hoveredBefore animalsWithPetDogs)).verdict (.concept "birds") =
        .accepted := by
  have hd : ((new Samples.settings).run (hoveredBefore animalsWithPetDogs)).drag =
      some dogsOverBirds := by
    decide +kernel
  have hgraph : ((new Samples.settings).run (hoveredBefore animalsWithPetDogs)).graph =
      ConceptGraph.ofRecords animalsWithPetDogs := rfl
  have hbirds : (ConceptGraph.ofRecords animalsWithPetDogs).contains "birds" = true := by
    decide +kernel
  have hbelow : (Descendants.ofGraph (ConceptGraph.ofRecords animalsWithPetDogs)).isBelow
      dogsOverBirds.concept "birds" = false := by
    decide +kernel
  have hjudges := (kept_place_accepts_iff Samples.settings _ _ _ hd rfl).1
  refine ⟨hd, hjudges.accepted_iff.mpr fun id hid => ?_⟩
  cases hid
  rw [hgraph]
  refine ⟨hbirds, fun hdown => Bool.false_ne_true (hbelow.symm.trans ?_)⟩
  exact Descendants.isBelow_ofGraph.mpr ⟨by decide +kernel, by decide, hdown⟩

/-- Birds are kept, and refuse the dogs, when records come in without birds, or with birds below
dogs. -/
theorem kept_place_refuses_birds :
    (((new Samples.settings).run
        (hoveredBefore (Samples.animals.filter (·.id != "birds")))).drag = some dogsOverBirds ∧
      ((new Samples.settings).run
        (hoveredBefore (Samples.animals.filter (·.id != "birds")))).verdict (.concept "birds") =
          .unknownPlace) ∧
    (((new Samples.settings).run (hoveredBefore (Samples.animals.map fun record =>
        if record.id = "birds" then { record with broader := ["dogs"] } else record))).drag =
          some dogsOverBirds ∧
      ((new Samples.settings).run (hoveredBefore (Samples.animals.map fun record =>
        if record.id = "birds" then { record with broader := ["dogs"] } else record))).verdict
          (.concept "birds") = .below) := by
  decide +kernel

end Session

end Thesaurus

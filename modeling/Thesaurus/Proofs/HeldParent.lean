import Thesaurus.Proofs.DropAnswered
import Thesaurus.Proofs.SessionSteps
import Thesaurus.Proofs.Unfolding

/-!
# The parent that a move takes away

The parent on the dragged path is read when the drag begins, and a move asks for its removal however
long the drag goes on. Its concept stood below it then. If another graph has come in meanwhile, the
concept may have lost that parent, or a root may have got one: the move then takes nothing away, and
where the concept has any parent it ends up with one more.
-/

namespace Thesaurus

/-- A change, if the parent it adds is a new one, leaves no more parents than there were, or than
one, exactly if it adds none, or there were none, or it removes one of them. -/
theorem Record.length_change_le_iff {record : Record} {request : ParentChange}
    (hnew : ∀ parent, request.added = some parent → parent ∉ record.broader) :
    (record.change request).broader.length ≤ max 1 record.broader.length ↔
      request.added = none ∨ record.broader = [] ∨
        ∃ parent ∈ record.broader, request.removed = some parent := by
  have hbroader : (record.change request).broader =
      record.keptParents request.removed ++ request.added.toList :=
    addParent_of_not_mem fun parent hadded mem => hnew parent hadded (List.mem_filter.mp mem).1
  have hle : (record.keptParents request.removed).length ≤ record.broader.length :=
    List.length_filter_le _ _
  have hlt : (record.keptParents request.removed).length < record.broader.length ↔
      ∃ parent ∈ record.broader, request.removed = some parent := by
    unfold keptParents
    rw [List.length_filter_lt_length_iff_exists]
    refine exists_congr fun parent => and_congr_right fun _ => ?_
    rw [Bool.not_eq_true, bne_eq_false_iff_eq, eq_comm]
  rw [hbroader, List.length_append, ← hlt, ← List.length_eq_zero_iff]
  cases request.added with
  | none =>
    refine iff_of_true ?_ (Or.inl rfl)
    exact hle.trans (Nat.le_max_right 1 _)
  | some parent =>
    rw [or_iff_right (Option.some_ne_none parent)]
    show (record.keptParents request.removed).length + 1 ≤ _ ↔ _
    omega

namespace Session

/-- Whether an action, if it takes hold of a concept, takes hold of an occurrence that is shown. -/
def Action.GrabsShown (session : Session) : Action → Prop
  | .grab id path => ∃ top ∈ session.forest.walk, top.id = id ∧ top.path = path
  | _ => True

/-- Whether each action of a run that takes hold of a concept takes hold of an occurrence that is
shown at that moment. -/
def GrabsShown (session : Session) : List Action → Prop
  | [] => True
  | action :: rest => action.GrabsShown session ∧ GrabsShown (session.act action) rest

/-- Whether a drag that began after some actions, of a concept by a path, has gone on through
others. -/
def DragsThrough (session : Session) (before : List Action) (id : ConceptId) (path : PathText)
    (after : List Action) : Prop :=
  ∀ part, part <+: after →
    ∃ grip, (session.run (before ++ .grab id path :: part)).drag = some grip ∧
      Continues grip (Grip.start id path)

section Run

variable {session : Session}

/-- Where a run takes hold of what is shown only, so does each of its actions when it is taken. -/
theorem GrabsShown.of_append {before after : List Action} {action : Action}
    (hs : session.GrabsShown (before ++ action :: after)) :
    action.GrabsShown (session.run before) := by
  induction before generalizing session with
  | nil => exact hs.1
  | cons first rest ih => exact ih hs.2

/-- Where all agrees, the concept of an occurrence that is shown stands below the parent that is
read off its path. -/
theorem Derived.standsBelow {settings : Settings} (hd : session.Derived settings)
    {top : Occurrence} (mem : top ∈ session.forest.walk) :
    session.graph.StandsBelow top.id (Path.parentId? top.path) := by
  rw [hd.forest_eq] at mem
  obtain ⟨plain, hin, hid, hpath⟩ := Trees.exists_of_mem_walk_markedBy mem
  rw [hid, hpath]
  exact ConceptGraph.standsBelow_of_mem_walk hin

/-- What is dragged after a run was taken hold of by one of its actions, and has been dragged since,
if nothing was dragged before. -/
theorem dragsThrough_of_drag (hidle : session.drag = none) {actions : List Action} {grip : Grip}
    (h : (session.run actions).drag = some grip) :
    ∃ before path after, actions = before ++ .grab grip.concept path :: after ∧
      session.DragsThrough before grip.concept path after := by
  induction actions using List.reverseRecOn generalizing grip with
  | nil =>
    have hnone : (session.run []).drag = none := hidle
    rw [hnone] at h
    cases h
  | append_singleton actions action ih =>
    have hlast := h
    rw [run_append] at h
    change ((session.run actions).act action).drag = some grip at h
    rcases drag_act h with ⟨old, hold, hc⟩ | ⟨path, rfl, hstart, _⟩
    · obtain ⟨before, path, after, rfl, hthrough⟩ := ih hold
      rw [← hc.concept_eq] at hthrough hlast ⊢
      refine ⟨before, path, after ++ [action], List.append_assoc .., fun part hpart => ?_⟩
      rcases List.prefix_concat_iff.mp hpart with rfl | hpart
      · -- the drag has come through all but the last action, which goes on with it
        obtain ⟨other, hother, hstart⟩ := hthrough after (List.prefix_refl after)
        have hsame : other = old := by
          rw [← hc.concept_eq] at hold
          exact Option.some.inj (hother.symm.trans hold)
        rw [List.append_assoc] at hlast
        exact ⟨grip, hlast, hc.trans (hsame ▸ hstart)⟩
      · exact hthrough part hpart
    · refine ⟨actions, path, [], rfl, fun part hpart => ?_⟩
      rw [List.prefix_nil.mp hpart]
      exact ⟨grip, hlast, hstart ▸ Continues.refl _⟩

/-- Local actions leave the graph as it is. -/
theorem graph_run_of_local {actions : List Action}
    (h : ∀ action ∈ actions, action.isLocal = true) :
    (session.run actions).graph = session.graph := by
  induction actions generalizing session with
  | nil => rfl
  | cons action rest ih =>
    have hstep : (session.act action).outlook = session.outlook :=
      outlook_act (h action List.mem_cons_self)
    have hrest : (session.run (action :: rest)).graph = (session.act action).graph :=
      ih fun other mem => h other (List.mem_cons_of_mem action mem)
    exact hrest.trans (outlook_eq_iff.mp hstep).2.1

end Run

/-- In every run that takes hold of occurrences shown then only, a move asks for the removal of the
parent below which its concept stood when the drag began, and if no graph has come in since, it
stands below it still. However many graphs have come in, a concept with parents has no more of them
after the move exactly if it becomes a root or still stands below that parent. -/
theorem move_takes_held_parent (settings : Settings) (actions : List Action)
    (hs : (new settings).GrabsShown actions) (place : Option DropPlace) (request : ParentChange)
    (dropped : Session)
    (h : ((new settings).run actions).drop place false = (.ok (.wanted request), dropped)) :
    (∃ before path after, actions = before ++ .grab request.concept path :: after ∧
      (new settings).DragsThrough before request.concept path after ∧
      request.removed = Path.parentId? path ∧
      ((new settings).run before).graph.StandsBelow request.concept request.removed ∧
      ((∀ action ∈ after, action.isLocal = true) →
        ((new settings).run actions).graph.StandsBelow request.concept request.removed)) ∧
    ∀ record : Record,
      record.broader = ((new settings).run actions).graph.parentsOf request.concept →
        ((record.change request).broader.length ≤ max 1 record.broader.length ↔
          request.added = none ∨ record.broader = [] ∨
            ((new settings).run actions).graph.StandsBelow request.concept request.removed) := by
  obtain ⟨hrelease, _⟩ := drop_eq_wanted h
  obtain ⟨grip, hd, hconcept, hremoved⟩ := Drag.grip_of_wanted hrelease
  constructor
  · obtain ⟨before, path, after, rfl, hthrough⟩ := dragsThrough_of_drag rfl hd
    obtain ⟨other, hother, hstart⟩ := hthrough after (List.prefix_refl after)
    have hsame : other = grip := Option.some.inj (hother.symm.trans hd)
    have hparent : request.removed = Path.parentId? path :=
      hremoved.trans (hsame ▸ hstart.parent_eq)
    obtain ⟨top, mem, hid, hpath⟩ := hs.of_append
    have hstood := ((new_derived settings).run before).standsBelow mem
    rw [hid, hpath, ← hconcept, ← hparent] at hstood
    rw [← hconcept] at hthrough ⊢
    refine ⟨before, path, after, rfl, hthrough, hparent, hstood, fun hlocal => ?_⟩
    have hgraph : ((new settings).run (before ++ .grab request.concept path :: after)).graph =
        ((new settings).run before).graph := by
      rw [run_append]
      refine graph_run_of_local fun action mem => ?_
      rcases List.mem_cons.mp mem with rfl | mem
      · rfl
      · exact hlocal action mem
    exact hgraph ▸ hstood
  · intro record hrecord
    have hnew : ∀ parent, request.added = some parent → parent ∉ record.broader := by
      intro parent hadded
      rw [hrecord]
      exact (Drag.added_of_wanted hrelease hadded).2.2.2.1
    rw [Record.length_change_le_iff hnew, hrecord, ConceptGraph.standsBelow_iff]
    tauto

/-- The shipped animals with dogs below pets only. -/
def animalsWithPetDogs : List Record :=
  Samples.animals.map fun record =>
    if record.id = "dogs" then { record with broader := ["pets"] } else record

/-- A run in which dogs are dragged by a path while they are taken away from canines. -/
def takenAwayMidway (path : PathText) : List Action :=
  [.turnTo "animals", .receiveScheme "animals" (.ok (ConceptGraph.ofRecords Samples.animals)),
    .grab "dogs" path, .hover (.concept "birds") false,
    .receiveScheme "animals" (.ok (ConceptGraph.ofRecords animalsWithPetDogs))]

/-- Such a run takes hold of what is shown only. -/
theorem grabsShown_takenAwayMidway {path : PathText}
    (h : ∃ top ∈ openedAnimals.forest.walk, top.id = "dogs" ∧ top.path = path) :
    (new Samples.settings).GrabsShown (takenAwayMidway path) :=
  ⟨trivial, trivial, h, trivial, trivial, trivial⟩

/-- Dragged by the path below pets, dogs are moved: they end up below birds only. -/
theorem move_takes_held_parent_pets :
    (new Samples.settings).GrabsShown (takenAwayMidway "pets/dogs") ∧
      ((new Samples.settings).run (takenAwayMidway "pets/dogs")).graph.parentsOf "dogs" =
        ["pets"] ∧
      (∃ dropped, ((new Samples.settings).run (takenAwayMidway "pets/dogs")).drop
        (some (.concept "birds")) false =
          (.ok (.wanted ⟨"dogs", some "birds", some "pets"⟩), dropped)) ∧
      ((⟨"dogs", "Dogs", [], none, ["pets"], []⟩ : Record).change
        ⟨"dogs", some "birds", some "pets"⟩).broader.length ≤ 1 := by
  have hs : (new Samples.settings).GrabsShown (takenAwayMidway "pets/dogs") :=
    grabsShown_takenAwayMidway (by decide +kernel)
  have hparents : ((new Samples.settings).run (takenAwayMidway "pets/dogs")).graph.parentsOf
      "dogs" = ["pets"] := by
    decide +kernel
  have hrelease : (((new Samples.settings).run (takenAwayMidway "pets/dogs")).drag.release
      ((new Samples.settings).run (takenAwayMidway "pets/dogs")).graph
      ((new Samples.settings).run (takenAwayMidway "pets/dogs")).index
      (some (.concept "birds")) false).1 = .wanted ⟨"dogs", some "birds", some "pets"⟩ := by
    decide +kernel
  have hdrop := drop_of_wanted hrelease (by decide +kernel)
  refine ⟨hs, hparents, ⟨_, hdrop⟩, ?_⟩
  refine ((move_takes_held_parent Samples.settings _ hs _ _ _ hdrop).2 _ hparents.symm).mpr ?_
  refine Or.inr (Or.inr ?_)
  show "pets" ∈ ((new Samples.settings).run (takenAwayMidway "pets/dogs")).graph.parentsOf "dogs"
  rw [hparents]
  exact List.mem_singleton_self "pets"

/-- Dragged by the path below canines, which they are below no longer, dogs are not moved: they end
up below birds besides pets. -/
theorem move_adds_parent_canines :
    (new Samples.settings).GrabsShown (takenAwayMidway "animals/mammals/canines/dogs") ∧
      ((new Samples.settings).run
        (takenAwayMidway "animals/mammals/canines/dogs")).graph.parentsOf "dogs" = ["pets"] ∧
      (∃ dropped, ((new Samples.settings).run
        (takenAwayMidway "animals/mammals/canines/dogs")).drop (some (.concept "birds")) false =
          (.ok (.wanted ⟨"dogs", some "birds", some "canines"⟩), dropped)) ∧
      ¬((⟨"dogs", "Dogs", [], none, ["pets"], []⟩ : Record).change
        ⟨"dogs", some "birds", some "canines"⟩).broader.length ≤ max 1 ["pets"].length := by
  have hrelease : (((new Samples.settings).run
        (takenAwayMidway "animals/mammals/canines/dogs")).drag.release
      ((new Samples.settings).run (takenAwayMidway "animals/mammals/canines/dogs")).graph
      ((new Samples.settings).run (takenAwayMidway "animals/mammals/canines/dogs")).index
      (some (.concept "birds")) false).1 = .wanted ⟨"dogs", some "birds", some "canines"⟩ := by
    decide +kernel
  exact ⟨grabsShown_takenAwayMidway (by decide +kernel), by decide +kernel,
    ⟨_, drop_of_wanted hrelease (by decide +kernel)⟩, by decide +kernel⟩

end Session

end Thesaurus

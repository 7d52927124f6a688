import Mathlib.Data.List.Nodup
import Thesaurus.Proofs.DropRelease
import Thesaurus.Proofs.GuardedChange
import Thesaurus.Proofs.Placement
import Thesaurus.Proofs.SessionRun

/-!
# A drop and its answer

An editor that shows what the repository holds judges a drop as the repository judges the change
asked for. So the change is made, and the answer shows the scheme as it is then: the same concepts
in the same order, the dragged concept with its new parents, every other concept with those it
had, and no cycle.
-/

namespace Thesaurus

namespace Repository

open ConceptGraph

section Amend

variable {records : List Record} {request : ParentChange}

/-- What may stand above a concept is the same after a change. -/
theorem admits_amend (records : List Record) (request : ParentChange) (id : ConceptId) :
    (ofRecords (amend records request)).admits id = (ofRecords records).admits id :=
  admits_congr (ofRecords_concepts (amend_concepts records request)) id

/-- A change names no other parents for other concepts. -/
theorem namedParents_amend_of_ne {id : ConceptId} (hne : id ≠ request.concept) :
    namedParents (amend records request) id = namedParents records id := by
  have hread : ∀ record : Record, (record.id == request.concept) = true →
      (if (record.change request).id = id then (record.change request).broader else []) =
        if record.id = id then record.broader else [] := by
    intro record hit
    have hid : record.id ≠ id := fun same => hne (same ▸ beq_iff_eq.mp hit)
    have hid' : (record.change request).id ≠ id := hid
    rw [if_neg hid, if_neg hid']
  unfold namedParents amend
  rw [List.flatMap_def, List.flatMap_def, map_replaceFirst hread]

/-- A change leaves the parents of other concepts as they are. -/
theorem parentsOf_amend_of_ne {id : ConceptId} (hne : id ≠ request.concept) :
    (ofRecords (amend records request)).parentsOf id = (ofRecords records).parentsOf id := by
  have hafter := ofRecords_lists (amend records request) id
  have hbefore := ofRecords_lists records id
  unfold ListsNamed at hafter hbefore
  rw [hafter, hbefore, admits_amend, namedParents_amend_of_ne hne]

/-- Where ids are given once, a change names for its concept what the changed record names. -/
theorem namedParents_amend_self (hd : (records.map Record.id).Nodup) {record : Record}
    (mem : record ∈ records) (hid : record.id = request.concept) :
    namedParents (amend records request) request.concept = (record.change request).broader := by
  have hany : records.any (·.id == request.concept) = true :=
    List.any_eq_true.mpr ⟨record, mem, beq_iff_eq.mpr hid⟩
  obtain ⟨old, inside, hit, changed⟩ :=
    exists_mem_replaceFirst (·.change request) hany
  have hsame : old = record :=
    List.inj_on_of_nodup_map hd inside mem ((beq_iff_eq.mp hit).trans hid.symm)
  have hd' : ((amend records request).map Record.id).Nodup := by
    rw [amend_ids]
    exact hd
  have hnamed := namedParents_of_distinct hd' changed
  rw [hsame] at hnamed
  rw [← hid]
  exact hnamed

/-- Where ids are given once, a change takes the removed parent from those of its concept and puts
the one added behind them, if that may stand there and does not yet. -/
theorem parentsOf_amend_self (hd : (records.map Record.id).Nodup)
    (known : records.any (·.id == request.concept) = true)
    (hnew : ∀ parent, request.added = some parent →
      (ofRecords records).admits request.concept parent = true ∧
        parent ∉ (ofRecords records).parentsOf request.concept) :
    (ofRecords (amend records request)).parentsOf request.concept =
      ((ofRecords records).parentsOf request.concept).filter
        (fun parent => some parent != request.removed) ++ request.added.toList := by
  obtain ⟨record, mem, hid⟩ := List.any_eq_true.mp known
  rw [beq_iff_eq] at hid
  have hafter := ofRecords_lists (amend records request) request.concept
  have hbefore := ofRecords_lists records request.concept
  have hnamed : namedParents records request.concept = record.broader :=
    hid ▸ namedParents_of_distinct hd mem
  unfold ListsNamed at hafter hbefore
  rw [hnamed] at hbefore
  have hout : ∀ parent, request.added = some parent → parent ∉ record.broader := by
    intro parent hadded hb
    obtain ⟨ha, hp⟩ := hnew parent hadded
    rw [hbefore, List.mem_eraseDups, List.mem_filter] at hp
    exact hp ⟨hb, ha⟩
  have hbroader : (record.change request).broader =
      record.keptParents request.removed ++ request.added.toList :=
    addParent_of_not_mem fun parent hadded hk =>
      hout parent hadded (List.mem_filter.mp hk).1
  -- the removal works on the names of the record, and the graph leaves some of these out
  have hkept : ((record.keptParents request.removed).filter
      ((ofRecords records).admits request.concept)).eraseDups =
        (record.broader.filter ((ofRecords records).admits request.concept)).eraseDups.filter
          (fun parent => some parent != request.removed) := by
    unfold Record.keptParents
    rw [← eraseDups_filter, List.filter_filter, List.filter_filter]
    exact congrArg List.eraseDups (List.filter_congr fun _ _ => Bool.and_comm _ _)
  rw [hafter, admits_amend, namedParents_amend_self hd mem hid, hbroader, hbefore,
    List.filter_append]
  cases hadded : request.added with
  | none =>
    show (_ ++ List.filter _ []).eraseDups = _ ++ []
    rw [List.filter_nil, List.append_nil, List.append_nil]
    exact hkept
  | some parent =>
    show (_ ++ List.filter _ [parent]).eraseDups = _ ++ [parent]
    rw [List.filter_cons_of_pos (hnew parent hadded).1, List.filter_nil, eraseDups_concat, hkept]
    apply if_neg
    intro h
    exact hout parent hadded (List.mem_filter.mp (List.mem_filter.mp h).1).1

end Amend

end Repository

/-- A session that shows a scheme as the repository holds it, no two records of which have one
id and none of which has the id of a record of another scheme; there is no cycle, and no failure
waits to be reported. -/
structure InStep (session : Session) (repository : Repository) (name : String)
    (records : List Record) : Prop where
  /-- The session shows the scheme. -/
  scheme_eq : session.scheme = some name
  /-- The repository holds the records. -/
  records_eq : repository.records? name = some records
  /-- The graph of the session is that of the records. -/
  graph_eq : session.graph = ConceptGraph.ofRecords records
  /-- Every id is given once in the scheme. -/
  distinct : (records.map Record.id).Nodup
  /-- No id of the scheme is given in another scheme. -/
  apart : ∀ other others, repository.records? other = some others → other ≠ name →
    ∀ record ∈ records, ∀ stranger ∈ others, stranger.id ≠ record.id
  /-- The graph has no cycle. -/
  acyclic : (ConceptGraph.ofRecords records).Acyclic
  /-- The next change is not made to fail. -/
  change_sound : repository.changeFailure = none
  /-- The next fetch is not made to fail. -/
  fetch_sound : repository.fetchFailure = none

section InStep

open ConceptGraph

variable {session : Session} {repository : Repository} {name : String} {records : List Record}

/-- The scheme that is shown is found for each of its concepts. -/
theorem InStep.schemeOf?_eq (hin : InStep session repository name records) {id : ConceptId}
    (known : records.any (·.id == id) = true) :
    repository.schemeOf? id = some (name, records) := by
  refine Repository.schemeOf?_of_apart hin.records_eq known fun other others ho hk => ?_
  by_contra hne
  obtain ⟨record, mem, hid⟩ := List.any_eq_true.mp known
  obtain ⟨stranger, inside, hid'⟩ := List.any_eq_true.mp hk
  rw [beq_iff_eq] at hid hid'
  exact hin.apart other others ho hne record mem stranger inside (hid'.trans hid.symm)

/-- A change that the repository does not object to is made and answered with the changed
records. -/
theorem InStep.changeAndFetch_eq (hin : InStep session repository name records)
    {request : ParentChange} (known : records.any (·.id == request.concept) = true)
    (ho : Repository.objection? records request = none) :
    ∃ after, repository.changeAndFetch name request =
        (.ok (ofRecords (Repository.amend records request)), after) ∧
      after.records? name = some (Repository.amend records request) := by
  have hchange := Repository.change_of_no_objection hin.change_sound (hin.schemeOf?_eq known) ho
  have hrecords := Repository.records?_withScheme repository name name
    (Repository.amend records request)
  rw [if_pos rfl] at hrecords
  have hfailure : (repository.withScheme name (Repository.amend records request)).fetchFailure =
      none := hin.fetch_sound
  have hfetch := Repository.fetchGraph_of_records hfailure hrecords
  refine ⟨repository.withScheme name (Repository.amend records request), ?_, hrecords⟩
  unfold Repository.changeAndFetch
  rw [hchange]
  dsimp only
  rw [hfetch]
  rfl

end InStep

namespace Session

/-- What a drag of an occurrence asks for, however it hovered: the concept is known; a concept to
be added is known, another one, no parent yet and not below it; and a move takes away the concept
above the occurrence. -/
theorem drag_eq_wanted {settings : Settings} {session dropped : Session}
    (hd : session.Derived settings) {top : Occurrence} {above : List Occurrence}
    (hline : top :: above ∈ session.forest.lines) (hidle : session.isPending top.id = false)
    {hovers : List (DropPlace × Bool)} {place : Option DropPlace} {modifier : Bool}
    {request : ParentChange}
    (hdrop : ((session.grab top.id top.path).hoverAll hovers).drop place modifier =
      (.ok (.wanted request), dropped)) :
    request = ⟨top.id, place.bind DropPlace.broader,
        if modifier then none else above.head?.map Occurrence.id⟩ ∧
      session.graph.contains top.id = true ∧
      (∀ parent, request.added = some parent →
        session.graph.admits top.id parent = true ∧ parent ∉ session.graph.parentsOf top.id ∧
          (Descendants.ofGraph session.graph).isBelow top.id parent = false) ∧
      dropped.scheme = session.scheme := by
  have hfollows : FollowsPaths (top :: above) := by
    rw [hd.forest_eq] at hline
    exact follows_of_mem_lines hline
  have hgrabbed : (session.grab top.id top.path).drag = some (Grip.start top.id top.path) := by
    rw [grab_of_idle hidle]
  -- hovering changes nothing that the release reads
  obtain ⟨held, hheld, hconcept, hparent⟩ := hoverAll_eq hgrabbed hovers
  rw [hheld, grab_of_idle hidle] at hdrop
  obtain ⟨hrelease, hdropped⟩ := drop_eq_wanted hdrop
  obtain ⟨target, hplace, hverdict, _, hrequest⟩ := Drag.release_eq_wanted_iff.mp hrelease
  have hc : held.concept = top.id := hconcept
  have hp : held.parent = above.head?.map Occurrence.id := hparent.trans hfollows.parentId?
  obtain ⟨hknown, _⟩ := Grip.verdict_eq_accepted_iff.mp hverdict
  dsimp only at hknown hrequest
  rw [hc] at hknown hrequest
  rw [hp] at hrequest
  refine ⟨?_, hknown, ?_, ?_⟩
  · rw [hrequest, hplace]
    rfl
  · intro parent hadded
    have hmoved : request.concept = top.id := congrArg ParentChange.concept hrequest
    obtain ⟨_, hplaced, hne, hout, hbelow⟩ := Drag.added_of_wanted hrelease hadded
    dsimp only at hplaced hout hbelow
    rw [hmoved] at hne hout hbelow
    rw [hd.index_eq] at hbelow
    have hadmits : session.graph.admits top.id parent = true := by
      unfold ConceptGraph.admits
      rw [hplaced, Bool.true_and]
      exact bne_iff_ne.mpr hne
    exact ⟨hadmits, hout, hbelow⟩
  · rw [hdropped]

/-- The answer to a change, for the scheme that is shown, is shown, and as up to date as the graph
before. -/
theorem receiveAnswer_of_shown {session : Session} {name : String}
    (h : session.scheme = some name) (request : ParentChange) (graph : ConceptGraph) :
    ∃ settled, session.receiveAnswer name request (.ok graph) = (.ok (), settled) ∧
      settled.scheme = some name ∧ settled.graph = graph ∧ settled.stale = session.stale := by
  unfold receiveAnswer
  dsimp only
  rw [if_pos (shows_of_scheme_eq h)]
  exact ⟨_, rfl, h, rfl, rfl⟩

end Session

/-- Where a session shows what the repository holds, a drop that asks for a change is always
answered: the repository makes the change, and the session then shows the scheme as it is
afterwards, without a cycle, with the same concepts in the same order. The dragged concept has
its parents of before, for a move without the one above the dragged occurrence, and then the
concept dropped on; every other concept has its parents of before. -/
theorem drop_answered (settings : Settings) (actions : List Session.Action)
    {session dropped : Session} (hs : session = (Session.new settings).run actions)
    {repository : Repository} {name : String} {records : List Record}
    (hin : InStep session repository name records)
    {top : Occurrence} {above : List Occurrence} (hline : top :: above ∈ session.forest.lines)
    (hidle : session.isPending top.id = false)
    (hovers : List (DropPlace × Bool)) (place : Option DropPlace) (modifier : Bool)
    {request : ParentChange}
    (hdrop : ((session.grab top.id top.path).hoverAll hovers).drop place modifier =
      (.ok (.wanted request), dropped)) :
    ∃ after changed settled,
      repository.changeAndFetch name request = (.ok (ConceptGraph.ofRecords changed), after) ∧
      after.records? name = some changed ∧
      dropped.receiveAnswer name request (.ok (ConceptGraph.ofRecords changed)) =
        (.ok (), settled) ∧
      settled.graph = ConceptGraph.ofRecords changed ∧
      settled.graph.Acyclic ∧
      settled.graph.concepts = session.graph.concepts ∧
      settled.graph.parentsOf top.id =
        (if modifier then session.graph.parentsOf top.id
          else (session.graph.parentsOf top.id).filter fun parent =>
            some parent != above.head?.map Occurrence.id) ++
          (place.bind DropPlace.broader).toList ∧
      ∀ other, other ≠ top.id → settled.graph.parentsOf other = session.graph.parentsOf other := by
  have hd : session.Derived settings := hs ▸ (Session.new_derived settings).run actions
  obtain ⟨hrequest, hknown, hadded, hscheme⟩ := Session.drag_eq_wanted hd hline hidle hdrop
  have hconcept : request.concept = top.id := by rw [hrequest]
  rw [hin.graph_eq] at hknown hadded
  rw [← hconcept] at hknown hadded
  have known : records.any (·.id == request.concept) = true := by
    rw [← ConceptGraph.contains_ofRecords]
    exact hknown
  -- what the session checked is what the repository checks, as both look at the same graph
  have ho : Repository.objection? records request = none := by
    refine Repository.objection?_eq_none_iff.mpr fun parent hp => ?_
    obtain ⟨hadmits, _, hbelow⟩ := hadded parent hp
    unfold ConceptGraph.admits at hadmits
    rw [Bool.and_eq_true, ConceptGraph.contains_ofRecords, bne_iff_ne] at hadmits
    exact ⟨hadmits.1, hadmits.2, hbelow⟩
  have hnew := fun parent hp => (hadded parent hp).imp_right And.left
  obtain ⟨after, hanswer, hafter⟩ := hin.changeAndFetch_eq known ho
  obtain ⟨settled, hsettled, _, hgraph, _⟩ := Session.receiveAnswer_of_shown
    (hscheme.trans hin.scheme_eq) request
    (ConceptGraph.ofRecords (Repository.amend records request))
  refine ⟨after, Repository.amend records request, settled, hanswer, hafter, hsettled, hgraph, ?_⟩
  rw [hgraph, hin.graph_eq, ← hconcept]
  refine ⟨Repository.acyclic_amend known hin.acyclic ho,
    ConceptGraph.ofRecords_concepts (Repository.amend_concepts records request), ?_, ?_⟩
  · rw [Repository.parentsOf_amend_self hin.distinct known hnew, hrequest]
    cases modifier with
    | false => rfl
    | true =>
      have hall : ∀ parents : List ConceptId,
          parents.filter (fun parent => some parent != (none : Option ConceptId)) = parents :=
        fun parents => List.filter_eq_self.mpr fun _ _ => rfl
      dsimp only
      rw [if_pos rfl, if_pos rfl, hall]
  · exact fun other hne => Repository.parentsOf_amend_of_ne hne

/-- The shipped animals, opened in a new session. -/
def openedAnimals : Session :=
  (Session.new Samples.settings).run
    [.turnTo "animals", .receiveScheme "animals" (.ok (ConceptGraph.ofRecords Samples.animals))]

/-- The first occurrence of dogs among the animals. -/
def firstDogs : Occurrence :=
  { id := "dogs", path := "animals/mammals/canines/dogs", depth := 3, label := "Dogs"
    altLabels := ["Hounds"], hasManyParents := true, otherParentLabels := ["Pets"] }

/-- What is above the first occurrence of dogs, the nearest first. -/
def aboveFirstDogs : List Occurrence :=
  [{ id := "canines", path := "animals/mammals/canines", depth := 2, label := "Canines"
     altLabels := [], hasManyParents := false, otherParentLabels := [] },
    { id := "mammals", path := "animals/mammals", depth := 1, label := "Mammals"
      altLabels := [], hasManyParents := false, otherParentLabels := [] },
    { id := "animals", path := "animals", depth := 0, label := "Animals"
      altLabels := [], hasManyParents := false, otherParentLabels := [] }]

/-- The opened animals are those of the shipped repository. -/
theorem inStep_openedAnimals :
    InStep openedAnimals Samples.repository "animals" Samples.animals where
  scheme_eq := rfl
  records_eq := rfl
  graph_eq := rfl
  distinct := by decide +kernel
  apart := by
    have hall : ∀ scheme ∈ Samples.repository.schemes, scheme.1 ≠ "animals" →
        ∀ record ∈ Samples.animals, ∀ stranger ∈ scheme.2, stranger.id ≠ record.id := by
      decide +kernel
    exact fun other others ho hne => hall (other, others) (Repository.mem_of_records? ho) hne
  acyclic := Repository.samples_acyclic "animals" Samples.animals rfl
  change_sound := rfl
  fetch_sound := rfl

/-- Dogs are moved from canines to birds, past the top of the tree: they keep pets above them. -/
theorem drop_answered_dogs :
    InStep openedAnimals Samples.repository "animals" Samples.animals ∧
      firstDogs :: aboveFirstDogs ∈ openedAnimals.forest.lines ∧
      ∃ after changed, ∃ settled : Session,
        Samples.repository.changeAndFetch "animals" ⟨"dogs", some "birds", some "canines"⟩ =
          (.ok (ConceptGraph.ofRecords changed), after) ∧
        after.records? "animals" = some changed ∧
        settled.graph = ConceptGraph.ofRecords changed ∧
        settled.graph.parentsOf "dogs" = ["pets", "birds"] := by
  have hline : firstDogs :: aboveFirstDogs ∈ openedAnimals.forest.lines := by decide +kernel
  have hidle : openedAnimals.isPending firstDogs.id = false := by decide +kernel
  have hrelease : (((openedAnimals.grab firstDogs.id firstDogs.path).hoverAll
      [(.top, true)]).drag.release openedAnimals.graph openedAnimals.index
        (some (.concept "birds")) false).1 = .wanted ⟨"dogs", some "birds", some "canines"⟩ := by
    decide +kernel
  have hdrop := Session.drop_of_wanted hrelease hidle
  obtain ⟨after, changed, settled, hanswer, hafter, _, hgraph, _, _, hparents, _⟩ :=
    drop_answered Samples.settings _ rfl inStep_openedAnimals hline hidle [(.top, true)]
      (some (.concept "birds")) false hdrop
  refine ⟨inStep_openedAnimals, hline, after, changed, settled, hanswer, hafter, hgraph, ?_⟩
  refine hparents.trans ?_
  decide +kernel

end Thesaurus

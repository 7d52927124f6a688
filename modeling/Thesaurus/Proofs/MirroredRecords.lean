import Thesaurus.Proofs.NamedLinks

/-!
# Edits of a graph and of its records

A graph that is edited and one that is made anew of the records, edited alike, have the same
concepts in the same order and the same parents of each. Links are put behind all others when a
record is taken in, but stand in the order of the records when a graph is made, so children may
stand in another order. A link to an unknown concept is dropped for good when its record is taken
in, but is there again once the concept comes and the graph is made anew: so no record may name a
concept as broader before that comes.
-/

namespace Thesaurus

/-- What the items that pass a test give is what is given by them of all that is given. -/
theorem flatMap_filter_of_owner {α β : Type} {test : α → Bool} {kept : β → Bool}
    {give : α → List β} (h : ∀ item, ∀ given ∈ give item, kept given = test item)
    (list : List α) : (list.filter test).flatMap give = (list.flatMap give).filter kept := by
  induction list with
  | nil => rfl
  | cons item rest ih =>
    rw [List.flatMap_cons, List.filter_append, ← ih]
    by_cases hitem : test item = true
    · have hall : (give item).filter kept = give item :=
        List.filter_eq_self.mpr fun given mem => (h item given mem).trans hitem
      rw [List.filter_cons_of_pos hitem, List.flatMap_cons, hall]
    · have hnone : (give item).filter kept = [] :=
        List.filter_eq_nil_iff.mpr fun given mem => h item given mem ▸ hitem
      rw [List.filter_cons_of_neg hitem, hnone, List.nil_append]

/-- A related link touches the concepts of its pair. -/
theorem RelatedLink.touches_iff {link : RelatedLink} {id : ConceptId} :
    link.touches id = true ↔ id ∈ link.pair := by
  unfold touches pair
  rw [Sym2.mem_iff, Bool.or_eq_true, beq_iff_eq, beq_iff_eq, eq_comm, @eq_comm _ link.second]

/-- Where a test holds for one item only, to replace the first is to replace all. -/
theorem replaceFirst_eq_map {α : Type} {test : α → Bool} {change : α → α} {list : List α}
    (h : list.Pairwise fun first second => test first = true → test second = false) :
    replaceFirst test change list =
      list.map fun item => if test item then change item else item := by
  induction list with
  | nil => rfl
  | cons item rest ih =>
    obtain ⟨hfirst, hrest⟩ := List.pairwise_cons.mp h
    rw [replaceFirst, List.map_cons]
    split
    · rename_i hitem
      have hkept : rest.map (fun item => if test item then change item else item) =
          rest.map id := by
        refine List.map_congr_left fun other mem => if_neg ?_
        rw [hfirst other mem hitem]
        exact Bool.false_ne_true
      rw [hkept, List.map_id]
    · rw [ih hrest]

/-- The records after an edit: one that is taken in is put in the place of the one with its id, or
behind all. -/
def mirror (records : List Record) : Edit → List Record
  | .upsert record =>
    if records.any (·.id == record.id) then
      replaceFirst (·.id == record.id) (fun _ => record) records
    else records ++ [record]
  | .remove id => records.filter (·.id != id)

/-- The records after some edits. -/
def mirrorAll (records : List Record) (edits : List Edit) : List Record :=
  edits.foldl mirror records

/-- Whether no record names as broader a concept that an edit brings new. -/
def Edit.Unawaited (records : List Record) : Edit → Prop
  | .upsert record =>
    record.id ∈ records.map Record.id ∨ ∀ other ∈ records, record.id ∉ other.broader
  | .remove _ => True

/-- Whether each of some edits brings no concept that is awaited by the records then. -/
def AllUnawaited : List Record → List Edit → Prop
  | _, [] => True
  | records, edit :: rest => edit.Unawaited records ∧ AllUnawaited (mirror records edit) rest

instance (records : List Record) : (edit : Edit) → Decidable (edit.Unawaited records)
  | .upsert record => inferInstanceAs
    (Decidable (record.id ∈ records.map Record.id ∨ ∀ other ∈ records, record.id ∉ other.broader))
  | .remove _ => inferInstanceAs (Decidable True)

instance decidableAllUnawaited :
    (records : List Record) → (edits : List Edit) → Decidable (AllUnawaited records edits)
  | _, [] => inferInstanceAs (Decidable True)
  | records, edit :: rest =>
    have := decidableAllUnawaited (mirror records edit) rest
    inferInstanceAs (Decidable (edit.Unawaited records ∧ AllUnawaited (mirror records edit) rest))

namespace ConceptGraph

variable {graph : ConceptGraph} {records : List Record}

section Remove

/-- Records without those of an id name the broader links that do not start at it. -/
theorem namedBroader_filter (records : List Record) (id : ConceptId) :
    namedBroader (records.filter (·.id != id)) = (namedBroader records).filter (·.child != id) := by
  refine flatMap_filter_of_owner (fun record link mem => ?_) records
  obtain ⟨parent, _, rfl⟩ := List.mem_map.mp mem
  rfl

/-- They name the related links that do not start at it. -/
theorem namedRelated_filter (records : List Record) (id : ConceptId) :
    namedRelated (records.filter (·.id != id)) = (namedRelated records).filter (·.first != id) := by
  refine flatMap_filter_of_owner (fun record link mem => ?_) records
  obtain ⟨other, _, rfl⟩ := List.mem_map.mp mem
  rfl

/-- Without a concept a graph admits the others. -/
theorem admits_remove (graph : ConceptGraph) (gone lower upper : ConceptId) :
    (graph.remove gone).2.admits lower upper = (graph.admits lower upper && upper != gone) := by
  unfold admits
  rw [contains_remove, Bool.and_right_comm]

/-- Without a concept a graph takes what was named of the links that do not start there. -/
theorem Takes.remove {broader : List BroaderLink} {related : List RelatedLink}
    (h : graph.Takes broader related) {gone : ConceptId} (hgone : graph.contains gone = true) :
    (graph.remove gone).2.Takes (broader.filter (·.child != gone))
      (related.filter (·.first != gone)) := by
  constructor <;> simp only [admits_remove, List.filter_filter] <;> rw [remove_of_contains hgone]
  · have htest : ∀ first second : BroaderLink, id first = id second →
        (first.child != gone && first.parent != gone) =
          (second.child != gone && second.parent != gone) :=
      fun _ _ => congrArg fun link : BroaderLink => link.child != gone && link.parent != gone
    dsimp only
    rw [h.broader_eq, filter_firstOfEach htest, List.filter_filter]
    refine congrArg (firstOfEach id) (List.filter_congr fun link _ => ?_)
    rw [Bool.and_comm, Bool.and_assoc, @Bool.and_comm (link.parent != gone)]
  · have htest : ∀ first second : RelatedLink, first.pair = second.pair →
        (!first.touches gone) = !second.touches gone := by
      intro first second same
      rw [Bool.not_inj_iff, Bool.eq_iff_iff, RelatedLink.touches_iff, RelatedLink.touches_iff,
        same]
    have hapart : ∀ link : RelatedLink,
        (!link.touches gone) = (link.first != gone && link.second != gone) :=
      fun _ => Bool.not_or _ _
    dsimp only
    rw [h.related_eq, filter_firstOfEach htest, List.filter_filter]
    refine congrArg (firstOfEach RelatedLink.pair) (List.filter_congr fun link _ => ?_)
    rw [hapart, Bool.and_comm, Bool.and_assoc, @Bool.and_comm (link.second != gone)]

/-- Graphs with the same concepts that take the same links are one. -/
theorem Takes.ext {other : ConceptGraph} {broader : List BroaderLink}
    {related : List RelatedLink} (h : graph.Takes broader related)
    (ho : other.Takes broader related) (hc : other.concepts = graph.concepts) :
    other = graph := by
  have hsame := admits_congr hc
  refine ConceptGraph.ext hc ?_ ?_
  · rw [ho.broader_eq, h.broader_eq]
    simp only [hsame]
  · rw [ho.related_eq, h.related_eq]
    simp only [hsame]

/-- To leave out the records of an unknown concept leaves all. -/
theorem filter_of_unknown {gone : ConceptId} (h : records.any (·.id == gone) = false) :
    records.filter (·.id != gone) = records := by
  rw [List.any_eq_false] at h
  exact List.filter_eq_self.mpr fun record mem => bne_iff_ne.mpr fun same =>
    h record mem (beq_iff_eq.mpr same)

/-- To take a concept out of the graph of some records is to leave its records out. -/
theorem remove_ofRecords (records : List Record) (gone : ConceptId) :
    ((ofRecords records).remove gone).2 = ofRecords (records.filter (·.id != gone)) := by
  cases hgone : (ofRecords records).contains gone with
  | false =>
    rw [remove_of_not_contains hgone, filter_of_unknown (contains_ofRecords records gone ▸ hgone)]
  | true =>
    have htaken := (ofRecords_takes records).remove hgone
    rw [← namedBroader_filter, ← namedRelated_filter] at htaken
    refine (ofRecords_takes _).ext htaken ?_
    have htest : ∀ first second : Record, first.id = second.id →
        (first.id != gone) = (second.id != gone) := fun _ _ => congrArg (· != gone)
    rw [remove_of_contains hgone]
    dsimp only
    rw [ofRecords_concepts_eq, ofRecords_concepts_eq, ← filter_firstOfEach htest, List.filter_map]
    rfl

end Remove

/-- A graph with the concepts of some records, of which each has the parents that its record
names. -/
structure Follows (graph : ConceptGraph) (records : List Record) : Prop where
  /-- The graph is in order. -/
  linked : graph.WellLinked
  /-- The concepts are those of the records, in order. -/
  concepts_eq : graph.concepts = records.map Record.concept
  /-- The parents of each are those that its record names. -/
  lists : ∀ record ∈ records, graph.ListsNamed record.id record.broader

section Follows

/-- No id comes twice in records that a graph follows. -/
theorem Follows.ids_distinct (h : graph.Follows records) : (records.map Record.id).Nodup := by
  have hids := h.linked.ids_distinct
  unfold ids at hids
  rw [h.concepts_eq, List.map_map] at hids
  exact hids

/-- A graph holds the concepts of the records that it follows. -/
theorem Follows.contains_eq (h : graph.Follows records) (id : ConceptId) :
    graph.contains id = records.any (·.id == id) := by
  unfold contains
  rw [h.concepts_eq, List.any_map]
  rfl

/-- The graph of records with different ids follows them. -/
theorem follows_ofRecords (hd : (records.map Record.id).Nodup) :
    (ofRecords records).Follows records where
  linked := wellLinked_ofRecords records
  concepts_eq := by rw [ofRecords_concepts_eq, firstOfEach_of_nodup hd]
  lists record mem := by
    have hlists := ofRecords_lists records record.id
    rw [namedParents_of_distinct hd mem] at hlists
    exact hlists

/-- Where some broader links are kept, those parents are left to which a kept link leads. -/
theorem parentsOf_of_filter {other : ConceptGraph} {kept : BroaderLink → Bool}
    (h : other.broader = graph.broader.filter kept) (id : ConceptId) :
    other.parentsOf id = (graph.parentsOf id).filter fun parent => kept ⟨id, parent⟩ := by
  unfold parentsOf
  rw [h, filterMap_if_eq_map_filter, filterMap_if_eq_map_filter, List.filter_map,
    List.filter_filter, List.filter_filter]
  refine congrArg (List.map BroaderLink.parent) (List.filter_congr fun link _ => ?_)
  by_cases same : link.child = id
  · rw [Function.comp_apply, ← same, Bool.and_comm]
  · rw [decide_eq_false same, Bool.false_and, Bool.and_false]

/-- Names above a concept are still listed where those that are admitted no longer are the parents
that are left out. -/
theorem ListsNamed.of_kept {other : ConceptGraph} {id : ConceptId} {names : List ConceptId}
    (h : graph.ListsNamed id names) {kept : ConceptId → Bool}
    (hp : other.parentsOf id = (graph.parentsOf id).filter kept)
    (ha : ∀ name ∈ names, other.admits id name = (graph.admits id name && kept name)) :
    other.ListsNamed id names := by
  unfold ListsNamed at h ⊢
  rw [hp, h, ← eraseDups_filter, List.filter_filter, List.filter_congr ha]
  simp only [Bool.and_comm]

/-- Where no id comes twice, a record takes the place of every one with its id, or stands behind
all. -/
theorem mirror_upsert (hd : (records.map Record.id).Nodup) (record : Record) :
    mirror records (.upsert record) =
      if records.any (·.id == record.id) = true then
        records.map fun old => if old.id = record.id then record else old
      else records ++ [record] := by
  have hone : records.Pairwise fun first second =>
      (first.id == record.id) = true → (second.id == record.id) = false := by
    refine (List.pairwise_map.mp hd).imp fun hne hfirst => beq_eq_false_iff_ne.mpr fun same => ?_
    exact hne ((beq_iff_eq.mp hfirst).trans same.symm)
  have hall := @replaceFirst_eq_map _ _ (fun _ => record) _ hone
  simp only [beq_iff_eq] at hall
  rw [← hall]
  rfl

/-- After a record is taken in, all others have other ids. -/
theorem mem_mirror_upsert (hd : (records.map Record.id).Nodup) {record other : Record}
    (mem : other ∈ mirror records (.upsert record)) :
    other = record ∨ other ∈ records ∧ other.id ≠ record.id := by
  rw [mirror_upsert hd] at mem
  split at mem
  · obtain ⟨old, hold, rfl⟩ := List.mem_map.mp mem
    split
    · exact Or.inl rfl
    · rename_i hne
      exact Or.inr ⟨hold, hne⟩
  · rename_i hnew
    rcases List.mem_append.mp mem with hold | hlast
    · refine Or.inr ⟨hold, fun same => hnew ?_⟩
      exact List.any_eq_true.mpr ⟨other, hold, beq_iff_eq.mpr same⟩
    · exact Or.inl (List.mem_singleton.mp hlast)

/-- A record is taken in by putting its concept in its place, leaving out the links above that,
and adding its own. -/
theorem upsert_eq_addLinks (graph : ConceptGraph) (record : Record) :
    ∃ bare : ConceptGraph, graph.upsert record = bare.addLinks record ∧
      bare.concepts = (graph.putConcept record).concepts ∧
      bare.broader = graph.broader.filter (·.child != record.id) := by
  refine ⟨_, rfl, rfl, ?_⟩
  dsimp only
  unfold putConcept
  split <;> rfl

/-- The concept of a record takes the place that the record takes. -/
theorem Follows.concepts_upsert (h : graph.Follows records) (record : Record) :
    (graph.upsert record).concepts = (mirror records (.upsert record)).map Record.concept := by
  obtain ⟨bare, hupsert, hconcepts, _⟩ := upsert_eq_addLinks graph record
  have hlinks : (bare.addLinks record).concepts = bare.concepts :=
    foldl_addLinks_concepts bare [record]
  rw [hupsert, hlinks, hconcepts, mirror_upsert h.ids_distinct]
  unfold putConcept
  rw [h.contains_eq, h.concepts_eq]
  split
  · rw [List.map_map, List.map_map]
    exact List.map_congr_left fun old _ => (apply_ite Record.concept _ _ _).symm
  · rw [List.map_append]
    rfl

/-- A graph follows the records as a record is taken in that is not awaited. -/
theorem Follows.upsert (h : graph.Follows records) {record : Record}
    (hnew : (Edit.upsert record).Unawaited records) :
    (graph.upsert record).Follows (mirror records (.upsert record)) where
  linked := h.linked.upsert record
  concepts_eq := h.concepts_upsert record
  lists other mem := by
    obtain ⟨bare, hupsert, hconcepts, hbroader⟩ := upsert_eq_addLinks graph record
    have hparents := parentsOf_of_filter hbroader
    dsimp only at hparents
    rw [hupsert]
    rcases mem_mirror_upsert h.ids_distinct mem with rfl | ⟨hold, hne⟩
    · have hnone : bare.ListsNamed other.id [] := by
        unfold ListsNamed
        rw [hparents, bne_self_eq_false, List.filter_false]
        rfl
      have hall := hnone.addLinks other
      rw [if_pos rfl, List.nil_append] at hall
      exact hall
    · -- what its record names is admitted as before, since no record names what is new
      have hkept : bare.ListsNamed other.id other.broader := by
        refine (h.lists other hold).of_kept (hparents other.id) fun name hname => ?_
        have hknown : bare.contains name = graph.contains name := by
          rw [contains_congr hconcepts, Bool.eq_iff_iff, contains_putConcept]
          refine or_iff_left_of_imp ?_
          rintro rfl
          obtain ⟨old, mem, same⟩ := List.mem_map.mp
            (hnew.resolve_right fun hfree => hfree other hold hname)
          rw [h.contains_eq]
          exact List.any_eq_true.mpr ⟨old, mem, beq_iff_eq.mpr same⟩
        unfold admits
        rw [hknown, bne_iff_ne.mpr hne, Bool.and_true]
      have hall := hkept.addLinks record
      rw [if_neg (Ne.symm hne), List.append_nil] at hall
      exact hall

/-- A graph follows the records as a concept is taken out. -/
theorem Follows.remove (h : graph.Follows records) (gone : ConceptId) :
    (graph.remove gone).2.Follows (mirror records (.remove gone)) := by
  cases hgone : graph.contains gone with
  | false =>
    have hall : mirror records (.remove gone) = records :=
      filter_of_unknown (h.contains_eq gone ▸ hgone)
    rw [remove_of_not_contains hgone, hall]
    exact h
  | true =>
    refine ⟨h.linked.remove gone, ?_, fun record mem => ?_⟩
    · rw [remove_of_contains hgone]
      dsimp only
      rw [h.concepts_eq, List.filter_map]
      rfl
    · obtain ⟨hold, hne⟩ := List.mem_filter.mp mem
      refine (h.lists record hold).of_kept ?_ fun name _ => admits_remove graph gone record.id name
      have hbroader := congrArg ConceptGraph.broader (remove_of_contains hgone)
      rw [parentsOf_of_filter hbroader]
      simp only [hne, Bool.true_and]

/-- A graph follows the records through all edits that bring no concept that is awaited. -/
theorem Follows.editAll (h : graph.Follows records) {edits : List Edit}
    (hnew : AllUnawaited records edits) :
    (graph.editAll edits).Follows (mirrorAll records edits) := by
  induction edits generalizing graph records with
  | nil => exact h
  | cons edit rest ih =>
    obtain ⟨hedit, hrest⟩ := hnew
    refine ih ?_ hrest
    cases edit with
    | upsert record => exact h.upsert hedit
    | remove gone => exact h.remove gone

/-- Two graphs that follow the same records have the same concepts and parents, and children that
differ in order only. -/
theorem Follows.agree {other : ConceptGraph} (h : graph.Follows records)
    (ho : other.Follows records) :
    graph.concepts = other.concepts ∧ (∀ id, graph.parentsOf id = other.parentsOf id) ∧
      ∀ id, (graph.childrenOf id).Perm (other.childrenOf id) := by
  have hconcepts := ho.concepts_eq.trans h.concepts_eq.symm
  have hparents : ∀ id, graph.parentsOf id = other.parentsOf id := by
    intro id
    cases hid : graph.contains id with
    | true =>
      rw [h.contains_eq, List.any_eq_true] at hid
      obtain ⟨record, mem, same⟩ := hid
      rw [← beq_iff_eq.mp same, h.lists record mem, ho.lists record mem, admits_congr hconcepts]
    | false =>
      rw [h.linked.parentsOf_of_unknown hid,
        ho.linked.parentsOf_of_unknown ((contains_congr hconcepts id).trans hid)]
  refine ⟨hconcepts.symm, hparents, fun id => ?_⟩
  refine (List.perm_ext_iff_of_nodup (h.linked.childrenOf_nodup id)
    (ho.linked.childrenOf_nodup id)).mpr fun child => ?_
  rw [mem_childrenOf, mem_childrenOf, ← mem_parentsOf, ← mem_parentsOf, hparents]

end Follows

end ConceptGraph

namespace IndexedGraph

/-- Two graphs with the same concepts, roots and parents, and children that differ in order only. -/
structure Agrees (graph other : IndexedGraph) : Prop where
  /-- The concepts are the same, in the same order. -/
  concepts_eq : graph.concepts = other.concepts
  /-- So are the roots. -/
  roots_eq : graph.roots = other.roots
  /-- Each concept has the same parents, in the same order. -/
  parentsOf_eq : ∀ id, graph.parentsOf id = other.parentsOf id
  /-- Each concept has the same children. -/
  childrenOf_perm : ∀ id, (graph.childrenOf id).Perm (other.childrenOf id)

/-- A concept that is taken out of a graph with all its tables leaves one with all its tables. -/
theorem remove_tabled {plain : ConceptGraph} (hd : plain.ids.Nodup) (gone : ConceptId) :
    (plain.tabled.remove gone).2 = (plain.remove gone).2.tabled := by
  have hindex := @mirrors_reindex
    { concepts := plain.concepts, broader := plain.broader, related := plain.related } hd
  have hmirrors : plain.tabled.Mirrors plain := hindex.retable
  have hplain := (hmirrors.remove gone).2.plain_eq
  cases hplace : plain.tabled.index.get? gone with
  | none =>
    have hgone : plain.contains gone = false := by
      rw [← hmirrors.contains_eq]
      unfold contains Table.has
      rw [hplace]
      rfl
    rw [ConceptGraph.remove_of_not_contains hgone]
    unfold remove
    rw [hplace]
  | some place =>
    rw [← hplain]
    unfold remove
    rw [hplace]
    exact IndexTold.retable_eq rfl

/-- To take a concept out of the graph of some records is to leave its records out, tables and
all. -/
theorem remove_ofRecords (records : List Record) (gone : ConceptId) :
    ((ofRecords records).remove gone).2 = ofRecords (records.filter (·.id != gone)) := by
  rw [ofRecords_eq_tabled, ofRecords_eq_tabled, ← ConceptGraph.remove_ofRecords]
  exact remove_tabled (ConceptGraph.wellLinked_ofRecords records).ids_distinct gone

/-- Graphs in step with two that follow the same records agree. -/
theorem InStep.agrees {graph other : IndexedGraph} {plain plain' : ConceptGraph}
    {records : List Record} (hs : graph.InStep plain) (hs' : other.InStep plain')
    (h : plain.Follows records) (h' : plain'.Follows records) : graph.Agrees other := by
  obtain ⟨hconcepts, hparents, hchildren⟩ := h.agree h'
  have heq : graph.concepts = other.concepts := by
    rw [hs.concepts_eq, hs'.concepts_eq, hconcepts]
  have hparents : ∀ id, graph.parentsOf id = other.parentsOf id := by
    intro id
    rw [hs.parentsOf_eq, hs'.parentsOf_eq, hparents]
  refine ⟨heq, ?_, hparents, fun id => ?_⟩
  · unfold roots
    simp only [hparents, heq]
  · rw [hs.childrenOf_eq, hs'.childrenOf_eq]
    exact hchildren id

/-- A graph of records with different ids that is edited, so that no concept comes that a record
has named as broader, agrees with the graph of the records, edited alike. Where one concept is
taken out, the two are the same. -/
theorem edits_as_made_anew {records : List Record} (hd : (records.map Record.id).Nodup) :
    (∀ edits, AllUnawaited records edits →
      ((ofRecords records).editAll edits).Agrees (ofRecords (mirrorAll records edits))) ∧
    ∀ gone, ((ofRecords records).remove gone).2 = ofRecords (records.filter (·.id != gone)) := by
  refine ⟨fun edits hnew => ?_, remove_ofRecords records⟩
  have hfollows := (ConceptGraph.follows_ofRecords hd).editAll hnew
  exact (inStep_editAll records edits).agrees (inStep_ofRecords _) hfollows
    (ConceptGraph.follows_ofRecords hfollows.ids_distinct)

/-- Among the animals, the mammals are taken out, the dogs change and the foxes come. -/
def foxesCome : List Edit :=
  [.remove "mammals", .upsert { id := "dogs", label := "Dogs", broader := ["canines"] },
    .upsert { id := "foxes", label := "Foxes", broader := ["canines", "mammals"] }]

/-- The canines are a root then, and foxes are below them alone, edited or made anew; below the
canines the dogs come after the wolves in the one graph and before them in the other. Where only the
mammals are taken out, cats are below pets alone in both. -/
theorem edits_as_made_anew_animals :
    let edited := (ofRecords Samples.animals).editAll foxesCome
    let anew := ofRecords (mirrorAll Samples.animals foxesCome)
    let fewer := ((ofRecords Samples.animals).remove "mammals").2
    (Samples.animals.map Record.id).Nodup ∧ AllUnawaited Samples.animals foxesCome ∧
      edited.Agrees anew ∧
      anew.roots.map Concept.id = ["animals", "pets", "canines"] ∧
      edited.roots.map Concept.id = ["animals", "pets", "canines"] ∧
      anew.parentsOf "foxes" = ["canines"] ∧ edited.parentsOf "foxes" = ["canines"] ∧
      anew.childrenOf "canines" = ["dogs", "wolves", "foxes"] ∧
      edited.childrenOf "canines" = ["wolves", "dogs", "foxes"] ∧
      fewer = ofRecords (Samples.animals.filter (·.id != "mammals")) ∧
      fewer.parentsOf "cats" = ["pets"] := by
  have hd : (Samples.animals.map Record.id).Nodup := by decide +kernel
  have hnew : AllUnawaited Samples.animals foxesCome := by decide +kernel
  have hroots : (ofRecords (mirrorAll Samples.animals foxesCome)).roots.map Concept.id =
      ["animals", "pets", "canines"] := by
    decide +kernel
  have hparents : (ofRecords (mirrorAll Samples.animals foxesCome)).parentsOf "foxes" =
      ["canines"] := by
    decide +kernel
  have hcats : (ofRecords (Samples.animals.filter (·.id != "mammals"))).parentsOf "cats" =
      ["pets"] := by
    decide +kernel
  obtain ⟨hedits, hremove⟩ := edits_as_made_anew hd
  have hagrees := hedits foxesCome hnew
  have hfewer := hremove "mammals"
  refine ⟨hd, hnew, hagrees, hroots, ?_, hparents, ?_, by decide +kernel, by decide +kernel, hfewer,
    ?_⟩
  · rw [hagrees.roots_eq]
    exact hroots
  · rw [hagrees.parentsOf_eq]
    exact hparents
  · rw [hfewer]
    exact hcats

/-- The mammals are awaited once they are taken out: when they come back, the canines stand below
them only if the graph is made anew. -/
example :
    let edits := [Edit.remove "mammals",
      .upsert { id := "mammals", label := "Mammals", broader := ["animals"] }]
    ¬AllUnawaited Samples.animals edits ∧
      ((ofRecords Samples.animals).editAll edits).parentsOf "canines" = [] ∧
      (ofRecords (mirrorAll Samples.animals edits)).parentsOf "canines" = ["mammals"] := by
  decide +kernel

end IndexedGraph

end Thesaurus

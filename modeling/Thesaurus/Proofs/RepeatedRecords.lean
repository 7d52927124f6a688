import Thesaurus.Proofs.NamedLinks

/-!
# Records that repeat an id

Of several records with one id the first gives the concept. The links of the others count as well:
a graph is the one of the first records alone exactly if the others name no link that is not named
before them.
-/

namespace Thesaurus

section NameNothingNew

variable {α β γ δ : Type} [DecidableEq β] [DecidableEq δ] {key : α → β} {name : α → List γ}
  {mark : γ → δ}

/-- Whether items that come behind one with their key name nothing with a mark that was not named
before them. -/
def RepeatsNameNothingNew (key : α → β) (name : α → List γ) (mark : γ → δ)
    (list : List α) : Prop :=
  ∀ before item after, list = before ++ item :: after → key item ∈ before.map key →
    ∀ named ∈ name item, mark named ∈ (before.flatMap name).map mark

/-- What the first items with their keys name is all that counts, if the others name nothing new. -/
theorem RepeatsNameNothingNew.firstOfEach_eq {list : List α}
    (h : RepeatsNameNothingNew key name mark list) :
    firstOfEach mark (list.flatMap name) =
      firstOfEach mark ((firstOfEach key list).flatMap name) := by
  induction list using List.reverseRecOn with
  | nil => rfl
  | append_singleton rest item ih =>
    have hrest : RepeatsNameNothingNew key name mark rest := by
      rintro before other after rfl old
      exact h before other (after ++ [item]) (by rw [List.append_assoc, List.cons_append]) old
    rw [List.flatMap_append, List.flatMap_singleton, firstOfEach_concat]
    split
    · rename_i old
      rw [firstOfEach_append_of_known (h rest item [] rfl old), ih hrest]
    · rw [List.flatMap_append, List.flatMap_singleton, firstOfEach_append, firstOfEach_append,
        ih hrest]

/-- The first item with a key stands where the key is met first. -/
theorem mem_of_mem_firstOfEach_append {before after : List α} {item : α}
    (mem : item ∈ firstOfEach key (before ++ after)) (old : key item ∈ before.map key) :
    item ∈ before := by
  obtain ⟨start, rest, h, hnew⟩ := mem_firstOfEach_iff.mp mem
  rcases List.append_eq_append_iff.mp h with ⟨more, rfl, _⟩ | ⟨more, rfl, hmore⟩
  · rw [List.map_append] at hnew
    exact absurd (List.mem_append_left _ old) hnew
  · cases more with
    | nil =>
      rw [List.append_nil] at old
      exact absurd old hnew
    | cons first more =>
      obtain ⟨rfl, _⟩ := List.cons.inj hmore
      exact List.mem_append_right start List.mem_cons_self

/-- If what the first items name is all that counts, then the others name nothing new, provided
that whatever is named tells the key of what names it. -/
theorem repeatsNameNothingNew_of_firstOfEach_eq {list : List α} (owner : γ → β)
    (hown : ∀ item, ∀ named ∈ name item, owner named = key item)
    (h : firstOfEach mark (list.flatMap name) =
      firstOfEach mark ((firstOfEach key list).flatMap name)) :
    RepeatsNameNothingNew key name mark list := by
  rintro before item after rfl old named mem
  by_contra hnew
  -- of what the item names with this mark, the first comes through
  have hmark : mark named ∈ (name item).map mark := List.mem_map_of_mem mem
  obtain ⟨first, hfirst, hsame⟩ := List.mem_map.mp (mem_keys_firstOfEach.mpr hmark)
  obtain ⟨left, right, hname, hleft⟩ := mem_firstOfEach_iff.mp hfirst
  have hfirstName : first ∈ name item := hname ▸ List.mem_append_right left List.mem_cons_self
  have hcounts : first ∈ firstOfEach mark ((before ++ item :: after).flatMap name) := by
    refine mem_firstOfEach_iff.mpr
      ⟨before.flatMap name ++ left, right ++ after.flatMap name, ?_, ?_⟩
    · rw [List.flatMap_append, List.flatMap_cons, hname]
      simp only [List.append_assoc, List.cons_append]
    · rw [List.map_append, List.mem_append, hsame, not_or]
      exact ⟨hnew, hsame ▸ hleft⟩
  rw [h] at hcounts
  obtain ⟨source, hsource, hnamed⟩ := List.mem_flatMap.mp ((firstOfEach_sublist _).subset hcounts)
  have hkey : key source = key item :=
    (hown source first hnamed).symm.trans (hown item first hfirstName)
  have hbefore : source ∈ before := mem_of_mem_firstOfEach_append hsource (hkey ▸ old)
  exact hnew (hsame ▸ List.mem_map_of_mem (List.mem_flatMap.mpr ⟨source, hbefore, hnamed⟩))

end NameNothingNew

/-- Records of which those that repeat an id name no link anew. Each known concept other than its
own that such a record names as broader was so named by a record with its id before it, and each
that it names as related is joined to its own by a record before it, in whichever order. -/
structure RepeatsAddNothing (records : List Record) : Prop where
  /-- Broader links are named before. -/
  broader : ∀ before record after, records = before ++ record :: after →
    record.id ∈ before.map Record.id → ∀ parent ∈ record.broader,
      parent ∈ records.map Record.id → parent ≠ record.id →
        ⟨record.id, parent⟩ ∈ namedBroader before
  /-- Related links are named before, from the one end or the other. -/
  related : ∀ before record after, records = before ++ record :: after →
    record.id ∈ before.map Record.id → ∀ other ∈ record.related,
      other ∈ records.map Record.id → other ≠ record.id →
        s(record.id, other) ∈ (namedRelated before).map RelatedLink.pair

namespace ConceptGraph

variable {records : List Record}

/-- A graph of records admits the other concepts of the records above a concept. -/
theorem admits_ofRecords {id other : ConceptId} :
    (ofRecords records).admits id other = true ↔ other ∈ records.map Record.id ∧ other ≠ id := by
  unfold admits
  rw [contains_ofRecords, Bool.and_eq_true, bne_iff_ne, List.any_eq_true, List.mem_map]
  simp only [beq_iff_eq]

/-- The broader links that a record names and a graph admits. -/
def admittedBroader (graph : ConceptGraph) (record : Record) : List BroaderLink :=
  (record.broader.map (⟨record.id, ·⟩)).filter fun link => graph.admits link.child link.parent

/-- The related links that a record names and a graph admits. -/
def admittedRelated (graph : ConceptGraph) (record : Record) : List RelatedLink :=
  (record.related.map (⟨record.id, ·⟩)).filter fun link => graph.admits link.first link.second

/-- What some records name and a graph admits is what is admitted of all that they name. -/
theorem flatMap_admitted (graph : ConceptGraph) (records : List Record) :
    records.flatMap graph.admittedBroader =
        (namedBroader records).filter (fun link => graph.admits link.child link.parent) ∧
      records.flatMap graph.admittedRelated =
        (namedRelated records).filter (fun link => graph.admits link.first link.second) :=
  ⟨List.filter_flatMap.symm, List.filter_flatMap.symm⟩

/-- Records that repeat an id add nothing exactly if they name no admitted link anew. -/
theorem repeatsAddNothing_iff : RepeatsAddNothing records ↔
    RepeatsNameNothingNew Record.id (ofRecords records).admittedBroader id records ∧
      RepeatsNameNothingNew Record.id (ofRecords records).admittedRelated RelatedLink.pair
        records := by
  constructor
  · intro h
    constructor
    · intro before record after hsplit old link mem
      obtain ⟨hlink, ha⟩ := List.mem_filter.mp mem
      obtain ⟨parent, hparent, rfl⟩ := List.mem_map.mp hlink
      obtain ⟨hknown, hne⟩ := admits_ofRecords.mp ha
      have hnamed := h.broader before record after hsplit old parent hparent hknown hne
      rw [(flatMap_admitted _ before).1]
      exact List.mem_map_of_mem (List.mem_filter.mpr ⟨hnamed, ha⟩)
    · intro before record after hsplit old link mem
      obtain ⟨hlink, ha⟩ := List.mem_filter.mp mem
      obtain ⟨other, hother, rfl⟩ := List.mem_map.mp hlink
      obtain ⟨hknown, hne⟩ := admits_ofRecords.mp ha
      have hnamed := h.related before record after hsplit old other hother hknown hne
      obtain ⟨earlier, hearlier, hpair⟩ := List.mem_map.mp hnamed
      have hself : record.id ∈ records.map Record.id := by
        rw [hsplit, List.map_append]
        exact List.mem_append_left _ old
      have hadmits : (ofRecords records).admits earlier.first earlier.second = true := by
        rw [admits_ofRecords]
        rcases Sym2.eq_iff.mp hpair with ⟨hfirst, hsecond⟩ | ⟨hfirst, hsecond⟩
        · rw [hfirst, hsecond]
          exact ⟨hknown, hne⟩
        · rw [hfirst, hsecond]
          exact ⟨hself, hne.symm⟩
      rw [(flatMap_admitted _ before).2]
      exact List.mem_map.mpr ⟨earlier, List.mem_filter.mpr ⟨hearlier, hadmits⟩, hpair⟩
  · rintro ⟨hbroader, hrelated⟩
    constructor
    · intro before record after hsplit old parent hparent hknown hne
      have mem : ⟨record.id, parent⟩ ∈ (ofRecords records).admittedBroader record :=
        List.mem_filter.mpr ⟨List.mem_map_of_mem hparent, admits_ofRecords.mpr ⟨hknown, hne⟩⟩
      have hnamed := hbroader before record after hsplit old _ mem
      rw [(flatMap_admitted _ before).1, List.map_id] at hnamed
      exact (List.mem_filter.mp hnamed).1
    · intro before record after hsplit old other hother hknown hne
      have mem : ⟨record.id, other⟩ ∈ (ofRecords records).admittedRelated record :=
        List.mem_filter.mpr ⟨List.mem_map_of_mem hother, admits_ofRecords.mpr ⟨hknown, hne⟩⟩
      have hnamed := hrelated before record after hsplit old _ mem
      rw [(flatMap_admitted _ before).2] at hnamed
      exact (List.filter_sublist.map RelatedLink.pair).subset hnamed

/-- The concepts of records are those of the first with each id. -/
theorem ofRecords_firstOfEach_concepts (records : List Record) :
    (ofRecords (firstOfEach Record.id records)).concepts = (ofRecords records).concepts := by
  rw [ofRecords_concepts_eq, ofRecords_concepts_eq,
    firstOfEach_of_nodup (nodup_keys_firstOfEach records)]

/-- The links of the first records with each id are what these name and the graph of all records
admits. -/
theorem ofRecords_firstOfEach_links (records : List Record) :
    (ofRecords (firstOfEach Record.id records)).broader =
        firstOfEach id
          ((firstOfEach Record.id records).flatMap (ofRecords records).admittedBroader) ∧
      (ofRecords (firstOfEach Record.id records)).related =
        firstOfEach RelatedLink.pair
          ((firstOfEach Record.id records).flatMap (ofRecords records).admittedRelated) := by
  have hsame := admits_congr (ofRecords_firstOfEach_concepts records)
  obtain ⟨hbroader, hrelated⟩ := ofRecords_takes (firstOfEach Record.id records)
  simp only [hsame] at hbroader hrelated
  rw [(flatMap_admitted _ _).1, (flatMap_admitted _ _).2]
  exact ⟨hbroader, hrelated⟩

/-- The graph of some records is that of the first ones with their ids exactly if the others name
no admitted link anew. -/
theorem ofRecords_firstOfEach_iff :
    ofRecords records = ofRecords (firstOfEach Record.id records) ↔ RepeatsAddNothing records := by
  have hall := ofRecords_takes records
  have hbroader := hall.broader_eq
  have hrelated := hall.related_eq
  rw [← (flatMap_admitted _ records).1] at hbroader
  rw [← (flatMap_admitted _ records).2] at hrelated
  obtain ⟨hfirstBroader, hfirstRelated⟩ := ofRecords_firstOfEach_links records
  rw [repeatsAddNothing_iff]
  constructor
  · intro h
    have hb := congrArg ConceptGraph.broader h
    have hr := congrArg ConceptGraph.related h
    rw [hbroader, hfirstBroader] at hb
    rw [hrelated, hfirstRelated] at hr
    have hchild : ∀ record, ∀ link ∈ (ofRecords records).admittedBroader record,
        link.child = record.id := by
      intro record link mem
      obtain ⟨parent, _, rfl⟩ := List.mem_map.mp (List.mem_filter.mp mem).1
      rfl
    have hfirst : ∀ record, ∀ link ∈ (ofRecords records).admittedRelated record,
        link.first = record.id := by
      intro record link mem
      obtain ⟨other, _, rfl⟩ := List.mem_map.mp (List.mem_filter.mp mem).1
      rfl
    exact ⟨repeatsNameNothingNew_of_firstOfEach_eq BroaderLink.child hchild hb,
      repeatsNameNothingNew_of_firstOfEach_eq RelatedLink.first hfirst hr⟩
  · rintro ⟨hb, hr⟩
    have hb := hb.firstOfEach_eq
    have hr := hr.firstOfEach_eq
    rw [← hbroader, ← hfirstBroader] at hb
    rw [← hrelated, ← hfirstRelated] at hr
    exact ConceptGraph.ext (ofRecords_firstOfEach_concepts records).symm hb hr

end ConceptGraph

namespace IndexedGraph

/-- Of the records with one id the first gives the concept and its place, and all of them give
links, each known one once, in the order in which they are named. So the graph of some records is
that of the first ones with their ids, tables included, exactly if the others name no link anew. -/
theorem first_records_suffice_iff (records : List Record) :
    (ofRecords records).concepts = (firstOfEach Record.id records).map Record.concept ∧
    (ofRecords records).index = (ofRecords (firstOfEach Record.id records)).index ∧
    (ofRecords records).broader = firstOfEach id ((namedBroader records).filter fun link =>
      link.parent ∈ records.map Record.id ∧ link.parent ≠ link.child) ∧
    (ofRecords records).related = firstOfEach RelatedLink.pair
      ((namedRelated records).filter fun link =>
        link.second ∈ records.map Record.id ∧ link.second ≠ link.first) ∧
    (ofRecords records = ofRecords (firstOfEach Record.id records) ↔
      RepeatsAddNothing records) := by
  have hadmits : ∀ id other, (ConceptGraph.ofRecords records).admits id other =
      decide (other ∈ records.map Record.id ∧ other ≠ id) := by
    intro id other
    rw [Bool.eq_iff_iff, decide_eq_true_eq, ConceptGraph.admits_ofRecords]
  obtain ⟨hbroader, hrelated⟩ := ConceptGraph.ofRecords_takes records
  simp only [hadmits] at hbroader hrelated
  rw [ofRecords_eq_tabled, ofRecords_eq_tabled, ← ConceptGraph.ofRecords_firstOfEach_iff]
  refine ⟨ConceptGraph.ofRecords_concepts_eq records, ?_, hbroader, hrelated, ?_⟩
  · show Table.ofPairs (ConceptGraph.ofRecords records).ids.zipIdx =
      Table.ofPairs (ConceptGraph.ofRecords (firstOfEach Record.id records)).ids.zipIdx
    unfold ConceptGraph.ids
    rw [ConceptGraph.ofRecords_firstOfEach_concepts]
  · exact ⟨congrArg plain, congrArg ConceptGraph.tabled⟩

/-- Two records of the dogs, of which the second alone names a parent. -/
def dogsTwice : List Record :=
  [{ id := "animals", label := "Animals" }, { id := "dogs", label := "Dogs" },
    { id := "dogs", label := "Hounds", broader := ["animals"] }]

/-- The first record of the dogs gives their label and the second their parent, so the graph is not
that of the first records alone, in which the dogs have none. -/
theorem dogsTwice_linked :
    (ofRecords dogsTwice).label? "dogs" = some "Dogs" ∧
      (ofRecords dogsTwice).parentsOf "dogs" = ["animals"] ∧
      (ofRecords (firstOfEach Record.id dogsTwice)).parentsOf "dogs" = [] ∧
      ofRecords dogsTwice ≠ ofRecords (firstOfEach Record.id dogsTwice) := by
  have hlinked : (ofRecords dogsTwice).parentsOf "dogs" = ["animals"] := by decide +kernel
  have hfree : (ofRecords (firstOfEach Record.id dogsTwice)).parentsOf "dogs" = [] := by
    decide +kernel
  refine ⟨by decide +kernel, hlinked, hfree, fun same => ?_⟩
  rw [same, hfree] at hlinked
  cases hlinked

end IndexedGraph

end Thesaurus

import Thesaurus.IndexedGraph
import Thesaurus.Proofs.WellRelated

/-!
# Tables that keep in step

A graph with its tables is changed as the graph without them, record by record, and after every
change the tables tell what can be read off its concepts and links: each concept's place, and its
parents and children in link order.
-/

namespace Thesaurus

/-- An item behind a list is at the place that comes after all others. -/
theorem getElem?_concat_eq_some_iff {α : Type} {list : List α} {last item : α} {place : Nat} :
    (list ++ [last])[place]? = some item ↔
      list[place]? = some item ∨ place = list.length ∧ last = item := by
  rcases Nat.lt_trichotomy place list.length with hlt | rfl | hgt
  · rw [List.getElem?_append_left hlt]
    simp only [Nat.ne_of_lt hlt, false_and, or_false]
  · rw [List.getElem?_concat_length, List.getElem?_eq_none (Nat.le_refl _)]
    simp only [Option.some.injEq, reduceCtorEq, true_and, false_or]
  · have hnone : (list ++ [last])[place]? = none := by
      rw [List.getElem?_eq_none_iff, List.length_append, List.length_singleton]
      omega
    rw [hnone, List.getElem?_eq_none (Nat.le_of_lt hgt)]
    simp only [reduceCtorEq, Nat.ne_of_gt hgt, false_and, or_self]

/-- In the table of pairs with different ids, each id has the value that is paired with it. -/
theorem Table.get?_ofPairs {α : Type} {pairs : List (ConceptId × α)}
    (hd : (pairs.map Prod.fst).Nodup) {id : ConceptId} {value : α} :
    (Table.ofPairs pairs).get? id = some value ↔ (id, value) ∈ pairs := by
  induction pairs using List.reverseRecOn with
  | nil =>
    simp only [List.not_mem_nil, iff_false]
    exact Option.some_ne_none value ∘ Eq.symm
  | append_singleton rest pair ih =>
    rw [List.map_append, List.map_singleton, ← List.concat_eq_append, List.nodup_concat] at hd
    obtain ⟨hnew, hrest⟩ := hd
    have hput : Table.ofPairs (rest ++ [pair]) = (Table.ofPairs rest).put pair.1 pair.2 := by
      unfold ofPairs
      rw [List.foldl_append]
      rfl
    rw [hput, get?_put, List.mem_append, List.mem_singleton]
    by_cases same : id = pair.1
    · subst same
      have hout : (pair.1, value) ∉ rest := fun mem => hnew (List.mem_map.mpr ⟨_, mem, rfl⟩)
      rw [if_pos rfl, Option.some.injEq, or_iff_right hout, Prod.ext_iff]
      exact ⟨fun hvalue => ⟨rfl, hvalue.symm⟩, fun hpair => hpair.2.symm⟩
    · rw [if_neg same, ih hrest]
      simp only [Prod.ext_iff, same, false_and, or_false]

namespace IndexedGraph

variable {graph : IndexedGraph} {plain : ConceptGraph}

/-- A graph with the concepts and links of a graph without tables, and with an index that tells
the places of its concepts and nothing else. -/
structure Mirrors (graph : IndexedGraph) (plain : ConceptGraph) : Prop where
  /-- The concepts are those of the other graph. -/
  concepts_eq : graph.concepts = plain.concepts
  /-- The broader links are those of the other graph. -/
  broader_eq : graph.broader = plain.broader
  /-- The related links are those of the other graph. -/
  related_eq : graph.related = plain.related
  /-- The index tells an id's place if a concept of that id is there. -/
  index_iff : ∀ id place, graph.index.get? id = some place ↔ graph.ids[place]? = some id

section Mirrors

/-- Without its tables, a graph is the other one. -/
theorem Mirrors.plain_eq (h : graph.Mirrors plain) : graph.plain = plain := by
  unfold IndexedGraph.plain
  rw [h.concepts_eq, h.broader_eq, h.related_eq]

/-- The ids are those of the graph without tables. -/
theorem Mirrors.ids_eq (h : graph.Mirrors plain) : graph.ids = plain.ids := by
  unfold ids ConceptGraph.ids
  rw [h.concepts_eq]

/-- An id has one place only. -/
theorem Mirrors.ids_distinct (h : graph.Mirrors plain) : graph.ids.Nodup := by
  rw [List.nodup_iff_getElem?_ne_getElem?]
  intro first second hlt hbound hsame
  have hsecond := List.getElem?_eq_getElem hbound
  have hplace := (h.index_iff _ second).mpr hsecond
  rw [(h.index_iff _ first).mpr (hsame.trans hsecond), Option.some.injEq] at hplace
  exact Nat.ne_of_lt hlt hplace

/-- The index tells which concepts the graph holds. -/
theorem Mirrors.contains_eq (h : graph.Mirrors plain) (id : ConceptId) :
    graph.contains id = plain.contains id := by
  rw [Bool.eq_iff_iff, ConceptGraph.contains_iff, ← h.ids_eq, List.mem_iff_getElem?]
  unfold contains Table.has
  rw [Option.isSome_iff_exists]
  exact exists_congr (h.index_iff id)

/-- A broader link is added to both graphs or to neither. -/
theorem Mirrors.addBroader (h : graph.Mirrors plain) (child parent : ConceptId) :
    (graph.addBroader child parent).Mirrors (plain.addBroader child parent) := by
  unfold IndexedGraph.addBroader ConceptGraph.addBroader
  rw [h.contains_eq, h.broader_eq]
  split
  · exact ⟨h.concepts_eq, rfl, h.related_eq, h.index_iff⟩
  · exact h

/-- A related link is added to both graphs or to neither. -/
theorem Mirrors.addRelated (h : graph.Mirrors plain) (id other : ConceptId) :
    (graph.addRelated id other).Mirrors (plain.addRelated id other) := by
  have hpairs : graph.areRelated id other = plain.areRelated id other := by
    unfold IndexedGraph.areRelated ConceptGraph.areRelated
    rw [h.related_eq]
  unfold IndexedGraph.addRelated ConceptGraph.addRelated
  rw [h.contains_eq, hpairs, h.related_eq]
  split
  · exact ⟨h.concepts_eq, h.broader_eq, rfl, h.index_iff⟩
  · exact h

/-- The links of a record are added to both graphs alike. -/
theorem Mirrors.addLinks (h : graph.Mirrors plain) (record : Record) :
    (graph.addLinks record).Mirrors (plain.addLinks record) := by
  unfold IndexedGraph.addLinks ConceptGraph.addLinks
  refine List.foldl_rel ?_ fun other _ g p hg => hg.addRelated record.id other
  exact List.foldl_rel h fun parent _ g p hg => hg.addBroader record.id parent

/-- A concept that is put behind the others has the place behind theirs. -/
theorem Mirrors.append (h : graph.Mirrors plain) {record : Record}
    (hnew : graph.contains record.id = false) :
    (graph.append record).Mirrors
      { plain with concepts := plain.concepts ++ [record.concept] } where
  concepts_eq := by
    unfold IndexedGraph.append
    rw [h.concepts_eq]
  broader_eq := h.broader_eq
  related_eq := h.related_eq
  index_iff id place := by
    have hids : (graph.append record).ids = graph.ids ++ [record.id] := by
      unfold ids IndexedGraph.append
      rw [List.map_append]
      rfl
    have hout : record.id ∉ graph.ids := by
      rw [h.ids_eq, ← ConceptGraph.contains_iff, ← h.contains_eq, hnew]
      exact Bool.false_ne_true
    have hlength : graph.concepts.length = graph.ids.length := by
      unfold ids
      rw [List.length_map]
    have hindex : (graph.append record).index.get? id =
        if id = record.id then some graph.ids.length else graph.index.get? id := by
      rw [← hlength]
      exact Table.get?_put graph.index record.id id _
    rw [hids, hindex, getElem?_concat_eq_some_iff]
    by_cases same : id = record.id
    · subst same
      have hnone : graph.ids[place]? ≠ some record.id :=
        fun hplace => hout (List.mem_of_getElem? hplace)
      rw [if_pos rfl, Option.some.injEq, or_iff_right hnone]
      exact ⟨fun hlast => ⟨hlast.symm, rfl⟩, fun hlast => hlast.1.symm⟩
    · rw [if_neg same, h.index_iff]
      simp only [Ne.symm same, and_false, or_false]

/-- The concept of a record is added to both graphs or to neither. -/
theorem Mirrors.addConcept (h : graph.Mirrors plain) (record : Record) :
    (graph.addConcept record).Mirrors (plain.addConcept record) := by
  unfold IndexedGraph.addConcept ConceptGraph.addConcept
  rw [h.contains_eq]
  split
  · exact h
  · rename_i hnew
    refine h.append ?_
    rw [h.contains_eq]
    exact Bool.eq_false_iff.mpr hnew

/-- What stands at the place of an id is the one concept with that id. -/
theorem Mirrors.id_iff_place (h : graph.Mirrors plain) {id : ConceptId} {place other : Nat}
    {concept : Concept} (hplace : graph.index.get? id = some place)
    (hconcept : graph.concepts[other]? = some concept) : concept.id = id ↔ other = place := by
  have hother : graph.index.get? concept.id = some other := by
    rw [h.index_iff]
    unfold ids
    rw [List.getElem?_map, hconcept]
    rfl
  constructor
  · intro hid
    rw [hid, hplace] at hother
    exact (Option.some.inj hother).symm
  · rintro rfl
    have hid := (h.index_iff _ _).mp hother
    rw [(h.index_iff _ _).mp hplace] at hid
    exact (Option.some.inj hid).symm

/-- A concept stands at the place of its id. -/
theorem Mirrors.exists_concept (h : graph.Mirrors plain) {id : ConceptId} {place : Nat}
    (hplace : graph.index.get? id = some place) :
    ∃ concept, graph.concepts[place]? = some concept ∧ concept.id = id := by
  have hid := (h.index_iff id place).mp hplace
  unfold ids at hid
  rw [List.getElem?_map, Option.map_eq_some_iff] at hid
  exact hid

/-- A concept is looked up in both graphs alike. -/
theorem Mirrors.concept?_eq (h : graph.Mirrors plain) (id : ConceptId) :
    graph.concept? id = plain.concept? id := by
  unfold IndexedGraph.concept?
  cases hplace : graph.index.get? id with
  | none =>
    have hnone : (plain.concept? id).isSome = false := by
      rw [ConceptGraph.concept?_isSome, ← h.contains_eq]
      unfold contains Table.has
      rw [hplace]
      rfl
    exact (Option.not_isSome_iff_eq_none.mp (Bool.eq_false_iff.mp hnone)).symm
  | some place =>
    obtain ⟨concept, hconcept, hid⟩ := h.exists_concept hplace
    have hfound : plain.concept? id = some concept := by
      unfold ConceptGraph.concept?
      rw [← h.concepts_eq]
      obtain ⟨hbound, hat⟩ := List.getElem?_eq_some_iff.mp hconcept
      refine List.find?_eq_some_iff_getElem.mpr ⟨beq_iff_eq.mpr hid, place, hbound, hat, ?_⟩
      intro other hless
      have hother := List.getElem?_eq_getElem (Nat.lt_trans hless hbound)
      rw [Bool.not_eq_true', beq_eq_false_iff_ne, ne_eq, h.id_iff_place hplace hother]
      exact Nat.ne_of_lt hless
    rw [hfound]
    exact hconcept

/-- To set what stands at the place of an id is to change the one concept with that id. -/
theorem Mirrors.set_eq_map (h : graph.Mirrors plain) {id : ConceptId} {place : Nat}
    (hplace : graph.index.get? id = some place) (new : Concept) :
    graph.concepts.set place new =
      graph.concepts.map fun old => if old.id = id then new else old := by
  apply List.ext_getElem?
  intro other
  rw [List.getElem?_map]
  cases hconcept : graph.concepts[other]? with
  | none =>
    rw [Option.map_none, List.getElem?_eq_none_iff, List.length_set]
    exact List.getElem?_eq_none_iff.mp hconcept
  | some concept =>
    have hiff := h.id_iff_place hplace hconcept
    rw [Option.map_some]
    by_cases hother : other = place
    · subst hother
      rw [if_pos (hiff.mpr rfl), List.getElem?_set_self (List.getElem?_eq_some_iff.mp hconcept).1]
    · rw [if_neg (mt hiff.mp hother), List.getElem?_set_ne (Ne.symm hother), hconcept]

/-- To erase what stands at the place of an id is to leave out all concepts with that id. -/
theorem Mirrors.eraseIdx_eq_filter (h : graph.Mirrors plain) {id : ConceptId} {place : Nat}
    (hplace : graph.index.get? id = some place) :
    graph.concepts.eraseIdx place = graph.concepts.filter (·.id != id) := by
  obtain ⟨concept, hconcept, hid⟩ := h.exists_concept hplace
  obtain ⟨hbound, hat⟩ := List.getElem?_eq_some_iff.mp hconcept
  have hdistinct : graph.concepts.Nodup := h.ids_distinct.of_map
  calc graph.concepts.eraseIdx place = graph.concepts.erase concept := by
        rw [← hat, hdistinct.erase_getElem place hbound]
    _ = graph.concepts.filter (· != concept) := hdistinct.erase_eq_filter concept
    _ = graph.concepts.filter (·.id != id) := by
        refine List.filter_congr fun other mem => ?_
        have hsame : other = concept ↔ other.id = id := by
          constructor
          · rintro rfl
            exact hid
          · intro hother
            exact List.inj_on_of_nodup_map h.ids_distinct mem (List.mem_of_getElem? hconcept)
              (hother.trans hid.symm)
        rw [Bool.eq_iff_iff, bne_iff_ne, bne_iff_ne, ne_eq, ne_eq, hsame]

/-- A concept is put in its place in both graphs alike. -/
theorem Mirrors.putConcept (h : graph.Mirrors plain) (record : Record) :
    (graph.putConcept record).Mirrors (plain.putConcept record) := by
  have hcontains := h.contains_eq record.id
  unfold contains Table.has at hcontains
  unfold IndexedGraph.putConcept ConceptGraph.putConcept
  rw [← hcontains]
  cases hplace : graph.index.get? record.id with
  | none =>
    refine h.append ?_
    unfold contains Table.has
    rw [hplace]
    rfl
  | some place =>
    obtain ⟨hbound, hat⟩ := List.getElem?_eq_some_iff.mp ((h.index_iff _ _).mp hplace)
    have hset := h.set_eq_map hplace record.concept
    have hids : (graph.concepts.set place record.concept).map Concept.id = graph.ids := by
      have hkept := List.set_getElem_self hbound
      rw [hat] at hkept
      rw [List.map_set]
      exact hkept
    refine ⟨?_, h.broader_eq, h.related_eq, fun id other => ?_⟩
    · dsimp only
      rw [hset, h.concepts_eq]
      rfl
    · rw [h.index_iff, ← hids]
      rfl

/-- Where no id comes twice, places that are told anew are in step. -/
theorem mirrors_reindex (hd : graph.ids.Nodup) : graph.reindex.Mirrors graph.plain where
  concepts_eq := rfl
  broader_eq := rfl
  related_eq := rfl
  index_iff id place := by
    have hkeys : (graph.ids.zipIdx.map Prod.fst).Nodup := by
      rw [List.zipIdx_map_fst]
      exact hd
    have hpairs : (Table.ofPairs graph.ids.zipIdx).get? id = some place ↔
        (id, place) ∈ graph.ids.zipIdx := Table.get?_ofPairs hkeys
    rw [List.mem_zipIdx_iff_getElem?] at hpairs
    exact hpairs

/-- Telling parents and children anew changes nothing else. -/
theorem Mirrors.retable (h : graph.Mirrors plain) : graph.retable.Mirrors plain :=
  ⟨h.concepts_eq, h.broader_eq, h.related_eq, h.index_iff⟩

/-- A concept is taken out of both graphs alike, and the same is handed back. -/
theorem Mirrors.remove (h : graph.Mirrors plain) (id : ConceptId) :
    (graph.remove id).1 = (plain.remove id).1 ∧
      (graph.remove id).2.Mirrors (plain.remove id).2 := by
  have hfound := h.concept?_eq id
  unfold IndexedGraph.concept? at hfound
  unfold IndexedGraph.remove ConceptGraph.remove
  rw [← hfound]
  cases hplace : graph.index.get? id with
  | none => exact ⟨rfl, h⟩
  | some place =>
    obtain ⟨concept, hconcept, hid⟩ := h.exists_concept hplace
    rw [Option.bind_some, hconcept]
    dsimp only
    rw [hconcept, h.eraseIdx_eq_filter hplace, ← h.plain_eq]
    refine ⟨rfl, Mirrors.retable ?_⟩
    exact mirrors_reindex (h.ids_distinct.sublist (List.filter_sublist.map Concept.id))

end Mirrors

end IndexedGraph

end Thesaurus

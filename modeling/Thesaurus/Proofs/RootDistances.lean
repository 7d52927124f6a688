import Mathlib.Data.Nat.Find
import Mathlib.Order.Bounds.Basic
import Thesaurus.Layout.Snapshot
import Thesaurus.Proofs.SnapshotShape
import Thesaurus.Proofs.Unfolding

/-!
# Distances from the roots

The distance of a concept is the least number of links that lead down to it from a root. Layer by
layer a search meets each concept at its distance first, cycles or not, and so does one that lets
concepts wait in a queue. The way along such links comes by no concept twice, so it is one of those
that the forest shows: the distance is the least depth at which the concept occurs, and a concept
has none exactly if it is left out.
-/

namespace Thesaurus

namespace ConceptGraph

variable {graph : ConceptGraph} {id : ConceptId} {n : Nat}

/-- Whether so many broader links lead down from one concept to another. -/
def LinksDown (graph : ConceptGraph) (upper : ConceptId) : Nat → ConceptId → Prop
  | 0, lower => lower = upper
  | n + 1, lower => ∃ middle, graph.LinksDown upper n middle ∧ graph.Narrower middle lower

/-- The numbers of links that lead down to a concept from those without parents. -/
def linksFromRoots (graph : ConceptGraph) (id : ConceptId) : Set Nat :=
  { n | ∃ root ∈ graph.roots, graph.LinksDown root.id n id }

/-- The depths at which a concept occurs in the forest of a graph. -/
def depthsOf (graph : ConceptGraph) (id : ConceptId) : Set Nat :=
  { n | ∃ top ∈ graph.project.walk, top.id = id ∧ top.depth = n }

/-- Whether so many links lead down to a concept from a root, and no fewer. -/
def Nearest (graph : ConceptGraph) (id : ConceptId) (n : Nat) : Prop :=
  IsLeast (graph.linksFromRoots id) n

section Nearest

/-- No links lead down to a root. -/
theorem zero_mem_linksFromRoots :
    0 ∈ graph.linksFromRoots id ↔ id ∈ graph.roots.map Concept.id := by
  rw [List.mem_map]
  exact exists_congr fun root => and_congr_right fun _ => eq_comm

/-- The last of some links leads down from a parent. -/
theorem succ_mem_linksFromRoots :
    n + 1 ∈ graph.linksFromRoots id ↔
      ∃ middle, n ∈ graph.linksFromRoots middle ∧ graph.Narrower middle id := by
  constructor
  · rintro ⟨root, hroot, middle, hdown, step⟩
    exact ⟨middle, ⟨root, hroot, hdown⟩, step⟩
  · rintro ⟨middle, ⟨root, hroot, hdown⟩, step⟩
    exact ⟨root, hroot, middle, hdown, step⟩

/-- Where some links lead down to a concept, some number of them is the least. -/
theorem exists_nearest_le (h : n ∈ graph.linksFromRoots id) : ∃ m ≤ n, graph.Nearest id m := by
  classical
  have hsome : ∃ n, n ∈ graph.linksFromRoots id := ⟨n, h⟩
  exact ⟨Nat.find hsome, Nat.find_min' hsome h, Nat.find_spec hsome, fun _ => Nat.find_min' hsome⟩

/-- A concept that is not a root is one link further away than a parent. -/
theorem Nearest.exists_parent (h : graph.Nearest id (n + 1)) :
    ∃ middle, graph.Nearest middle n ∧ graph.Narrower middle id := by
  obtain ⟨middle, hmiddle, step⟩ := succ_mem_linksFromRoots.mp h.1
  refine ⟨middle, ⟨hmiddle, fun m hm => ?_⟩, step⟩
  have hle := h.2 (succ_mem_linksFromRoots.mpr ⟨middle, hm, step⟩)
  exact Nat.le_of_succ_le_succ hle

/-- On the way to a concept there is one at each lesser distance. -/
theorem Nearest.exists_of_le (h : graph.Nearest id n) {m : Nat} (hle : m ≤ n) :
    ∃ above, graph.Nearest above m := by
  induction n generalizing id with
  | zero =>
    rw [Nat.le_zero.mp hle]
    exact ⟨id, h⟩
  | succ n ih =>
    rcases Nat.eq_or_lt_of_le hle with rfl | hlt
    · exact ⟨id, h⟩
    · obtain ⟨middle, hmiddle, _⟩ := h.exists_parent
      exact ih hmiddle (Nat.le_of_lt_succ hlt)

/-- A shortest way to a concept comes by concepts that are nearer, and by no concept twice. -/
theorem Nearest.exists_way (h : graph.Nearest id n) :
    ∃ before, graph.IsWay (before ++ [id]) ∧ before.length = n ∧
      ∀ other ∈ before, ∃ m < n, graph.Nearest other m := by
  induction n generalizing id with
  | zero =>
    obtain ⟨root, hroot, rfl⟩ := List.mem_map.mp (zero_mem_linksFromRoots.mp h.1)
    exact ⟨[], ⟨⟨root, hroot, rfl⟩, List.isChain_singleton _, List.nodup_singleton _⟩, rfl,
      fun _ mem => nomatch mem⟩
  | succ n ih =>
    obtain ⟨middle, hmiddle, step⟩ := h.exists_parent
    obtain ⟨before, hway, hlength, hnearer⟩ := ih hmiddle
    have hall : ∀ other ∈ before ++ [middle], ∃ m < n + 1, graph.Nearest other m := by
      intro other mem
      rcases List.mem_append.mp mem with mem | mem
      · obtain ⟨m, hlt, hother⟩ := hnearer other mem
        exact ⟨m, Nat.lt_succ_of_lt hlt, hother⟩
      · rw [List.mem_singleton.mp mem]
        exact ⟨n, Nat.lt_succ_self n, hmiddle⟩
    have hnew : id ∉ before ++ [middle] := by
      intro mem
      obtain ⟨m, hlt, hother⟩ := hall id mem
      exact absurd (h.unique hother) (Nat.ne_of_gt hlt)
    refine ⟨before ++ [middle], hway.concat List.getLast?_concat step hnew, ?_, hall⟩
    rw [List.length_append, List.length_singleton, hlength]

/-- The links along a way lead down from a root. -/
theorem IsWay.length_mem_linksFromRoots {before : List ConceptId}
    (hw : graph.IsWay (before ++ [id])) : before.length ∈ graph.linksFromRoots id := by
  induction before using List.reverseRecOn generalizing id with
  | nil =>
    obtain ⟨root, hroot, hhead⟩ := hw.begins
    exact ⟨root, hroot, Option.some.inj hhead⟩
  | append_singleton rest last ih =>
    obtain ⟨hshort, step⟩ := hw.of_concat
    rw [List.length_append, List.length_singleton]
    exact succ_mem_linksFromRoots.mpr ⟨last, ih hshort, step⟩

end Nearest

section Depths

/-- A concept occurs at the depth of each way to it, and at no other. -/
theorem WellLinked.mem_depthsOf (hl : graph.WellLinked) :
    n ∈ graph.depthsOf id ↔ ∃ before, before.length = n ∧ graph.IsWay (before ++ [id]) := by
  constructor
  · rintro ⟨top, mem, rfl, rfl⟩
    obtain ⟨before, _, hlength, hway⟩ := exists_way_of_mem_walk mem
    exact ⟨before, hlength, hway⟩
  · rintro ⟨before, rfl, hway⟩
    obtain ⟨top, mem, hid, hids⟩ := hl.exists_of_isWay hway
    obtain ⟨before', hids', hlength, _⟩ := exists_way_of_mem_walk mem
    obtain ⟨rfl, _⟩ := List.append_inj' (hids'.symm.trans hids) rfl
    exact ⟨top, mem, hid, hlength.symm⟩

/-- A concept has a distance exactly if it occurs. -/
theorem WellLinked.exists_nearest_iff (hl : graph.WellLinked) :
    (∃ d, graph.Nearest id d) ↔ id ∈ graph.project.walk.map Occurrence.id := by
  rw [List.mem_map]
  constructor
  · rintro ⟨d, hd⟩
    obtain ⟨before, hway, hlength, _⟩ := hd.exists_way
    obtain ⟨top, mem, hid, _⟩ := hl.mem_depthsOf.mpr ⟨before, hlength, hway⟩
    exact ⟨top, mem, hid⟩
  · rintro ⟨top, mem, rfl⟩
    obtain ⟨before, _, _, hway⟩ := exists_way_of_mem_walk mem
    obtain ⟨d, _, hd⟩ := exists_nearest_le hway.length_mem_linksFromRoots
    exact ⟨d, hd⟩

/-- The least depth at which a concept occurs is its distance. -/
theorem WellLinked.isLeast_depthsOf (hl : graph.WellLinked) :
    IsLeast (graph.depthsOf id) n ↔ graph.Nearest id n := by
  have hmem : ∀ m, m ∈ graph.depthsOf id → m ∈ graph.linksFromRoots id := by
    intro m hm
    obtain ⟨before, rfl, hway⟩ := hl.mem_depthsOf.mp hm
    exact hway.length_mem_linksFromRoots
  have hleast : ∀ m, graph.Nearest id m → m ∈ graph.depthsOf id := by
    intro m hm
    obtain ⟨before, hway, hlength, _⟩ := hm.exists_way
    exact hl.mem_depthsOf.mpr ⟨before, hlength, hway⟩
  constructor
  · intro h
    obtain ⟨m, hle, hm⟩ := exists_nearest_le (hmem n h.1)
    rw [Nat.le_antisymm (h.2 (hleast m hm)) hle]
    exact hm
  · exact fun h => ⟨hleast n h, fun m hm => h.2 (hmem m hm)⟩

end Depths

end ConceptGraph

namespace Snapshot

open ConceptGraph

variable {graph : ConceptGraph} {settled : Distances} {layer : List ConceptId} {depth : Nat}

section Spread

/-- A concept is unsettled in a layer if it is there and has no distance. -/
theorem mem_unsettled {id : ConceptId} :
    id ∈ unsettled settled layer ↔ id ∈ layer ∧ settled.lookup id = none := by
  unfold unsettled
  rw [List.mem_eraseDups, List.mem_filter, Option.isNone_iff_eq_none]

/-- Settling some concepts gives them their depth, unless they have a distance. -/
theorem lookup_settle_eq_some_iff {fresh : List ConceptId} {id : ConceptId} {d : Nat} :
    (settle settled depth fresh).lookup id = some d ↔
      settled.lookup id = some d ∨ settled.lookup id = none ∧ id ∈ fresh ∧ d = depth := by
  unfold settle
  rw [List.lookup_append, Option.or_eq_some_iff]
  refine or_congr_right (and_congr_right fun _ => ?_)
  induction fresh with
  | nil => exact iff_of_false nofun fun h => List.not_mem_nil h.1
  | cons first rest ih =>
    rw [List.map_cons, List.lookup_cons]
    by_cases same : id = first
    · rw [beq_iff_eq.mpr same, same, Option.some.injEq, eq_comm]
      exact (and_iff_right List.mem_cons_self).symm
    · rw [beq_false_of_ne same, List.mem_cons, or_iff_right same]
      exact ih

/-- Halfway through a search by layers: the concepts nearer than the layer have their distances, and
those at its distance are in it. -/
structure Layered (graph : ConceptGraph) (depth : Nat) (settled : Distances)
    (layer : List ConceptId) : Prop where
  /-- What has a distance is nearer, and has its own. -/
  settled_iff : ∀ id d, settled.lookup id = some d ↔ d < depth ∧ graph.Nearest id d
  /-- So many links lead down to each concept of the layer. -/
  reached : ∀ id ∈ layer, depth ∈ graph.linksFromRoots id
  /-- The layer holds every concept at its distance. -/
  holds : ∀ id, graph.Nearest id depth → id ∈ layer

/-- The first layer is that of the roots. -/
theorem layered_roots (graph : ConceptGraph) :
    Layered graph 0 [] (graph.roots.map Concept.id) where
  settled_iff _ d := iff_of_false nofun fun h => Nat.not_lt_zero d h.1
  reached _ mem := zero_mem_linksFromRoots.mpr mem
  holds _ h := zero_mem_linksFromRoots.mp h.1

/-- The concepts of the layer that have no distance are those at its depth. -/
theorem Layered.mem_unsettled_iff (h : Layered graph depth settled layer) {id : ConceptId} :
    id ∈ unsettled settled layer ↔ graph.Nearest id depth := by
  rw [mem_unsettled]
  constructor
  · rintro ⟨mem, hnone⟩
    obtain ⟨m, hle, hm⟩ := exists_nearest_le (h.reached id mem)
    rcases Nat.eq_or_lt_of_le hle with rfl | hlt
    · exact hm
    · rw [(h.settled_iff id m).mpr ⟨hlt, hm⟩] at hnone
      cases hnone
  · intro hnear
    refine ⟨h.holds id hnear, ?_⟩
    cases hd : settled.lookup id with
    | none => rfl
    | some d =>
      obtain ⟨hlt, hother⟩ := (h.settled_iff id d).mp hd
      exact absurd (hother.unique hnear) (Nat.ne_of_lt hlt)

/-- The children of the concepts of a layer are the next one. -/
theorem Layered.next (h : Layered graph depth settled layer) :
    Layered graph (depth + 1) (settle settled depth (unsettled settled layer))
      ((unsettled settled layer).flatMap graph.childrenOf) where
  settled_iff id d := by
    rw [lookup_settle_eq_some_iff, h.settled_iff]
    constructor
    · rintro (⟨hlt, hnear⟩ | ⟨_, mem, rfl⟩)
      · exact ⟨Nat.lt_succ_of_lt hlt, hnear⟩
      · exact ⟨Nat.lt_succ_self d, h.mem_unsettled_iff.mp mem⟩
    · rintro ⟨hle, hnear⟩
      rcases Nat.eq_or_lt_of_le (Nat.le_of_lt_succ hle) with rfl | hlt
      · have mem := h.mem_unsettled_iff.mpr hnear
        exact Or.inr ⟨(mem_unsettled.mp mem).2, mem, rfl⟩
      · exact Or.inl ⟨hlt, hnear⟩
  reached id mem := by
    obtain ⟨middle, hmiddle, hchild⟩ := List.mem_flatMap.mp mem
    exact succ_mem_linksFromRoots.mpr
      ⟨middle, (h.mem_unsettled_iff.mp hmiddle).1, mem_childrenOf.mp hchild⟩
  holds id hnear := by
    obtain ⟨middle, hmiddle, step⟩ := hnear.exists_parent
    exact List.mem_flatMap.mpr ⟨middle, h.mem_unsettled_iff.mpr hmiddle, mem_childrenOf.mpr step⟩

/-- The search gives each concept its distance, if it has one. -/
theorem Layered.lookup_spread (h : Layered graph depth settled layer) {id : ConceptId} {d : Nat} :
    (spread graph depth settled layer).lookup id = some d ↔ graph.Nearest id d := by
  fun_induction spread graph depth settled layer with
  | case1 depth settled layer fresh hnone =>
    refine (h.settled_iff id d).trans (and_iff_right_of_imp fun hnear => ?_)
    by_contra hle
    -- above a concept that is further away there is one at the distance of the empty layer
    obtain ⟨above, habove⟩ := hnear.exists_of_le (Nat.le_of_not_lt hle)
    have mem : above ∈ fresh := h.mem_unsettled_iff.mpr habove
    rw [hnone] at mem
    cases mem
  | case2 depth settled layer fresh hsome ih => exact ih h.next

/-- The distances of a graph are those from the nearest root. -/
theorem lookup_rootDistances {id : ConceptId} {d : Nat} :
    (rootDistances graph).lookup id = some d ↔ graph.Nearest id d :=
  (layered_roots graph).lookup_spread

end Spread

section Drain

/-- Settling a concept closes as many links as it has children. -/
theorem openLinks_settle_singleton {id : ConceptId} (hid : settled.lookup id = none) :
    openLinks graph settled =
      openLinks graph (settle settled depth [id]) + (graph.childrenOf id).length := by
  unfold openLinks ConceptGraph.childrenOf
  rw [List.length_filterMap_eq_countP, List.countP_eq_countP_filter_add _ _ (·.parent != id),
    List.countP_filter, List.countP_filter]
  refine congr_arg₂ _ (List.countP_congr fun link _ => ?_) (List.countP_congr fun link _ => ?_)
  · rw [lookup_settle_isNone, List.contains_cons, List.contains_nil, Bool.or_false]
    exact Iff.rfl
  · by_cases same : link.parent = id
    · simp [same, hid]
    · simp [same]

/-- The distances that come of a queue: the concept in front is passed over if it has a distance,
else it gets the depth that it waits with, and its children wait behind all others. -/
def drain (graph : ConceptGraph) (settled : Distances) : Distances → Distances
  | [] => settled
  | (id, depth) :: queue =>
    if settled.lookup id = none then
      drain graph (settle settled depth [id])
        (queue ++ (graph.childrenOf id).map (·, depth + 1))
    else drain graph settled queue
termination_by queue => openLinks graph settled + queue.length
decreasing_by
  · rename_i hid
    have hclosed := @openLinks_settle_singleton graph settled depth id hid
    rw [List.length_append, List.length_map, List.length_cons]
    omega
  · exact Nat.lt_succ_self _

/-- A concept with a distance is passed over. -/
theorem unsettled_cons_of_some {id : ConceptId} (hid : settled.lookup id ≠ none) :
    unsettled settled (id :: layer) = unsettled settled layer := by
  unfold unsettled
  rw [List.filter_cons_of_neg]
  rw [Option.isNone_iff_eq_none]
  exact hid

/-- A concept without a distance is taken, and not again once it is settled. -/
theorem unsettled_cons_of_none {id : ConceptId} (hid : settled.lookup id = none) :
    unsettled settled (id :: layer) = id :: unsettled (settle settled depth [id]) layer := by
  unfold unsettled
  rw [@List.filter_cons_of_pos _ (fun other => (settled.lookup other).isNone) _ _
    (Option.isNone_iff_eq_none.mpr hid), List.eraseDups_cons, List.filter_filter]
  simp only [lookup_settle_isNone, List.contains_cons, List.contains_nil, Bool.or_false,
    Bool.and_comm]

/-- A layer that waits is settled, and then its children wait behind those that did. -/
theorem drain_layer (graph : ConceptGraph) (depth : Nat) (settled : Distances)
    (layer pending : List ConceptId) :
    drain graph settled (layer.map (·, depth) ++ pending.map (·, depth + 1)) =
      drain graph (settle settled depth (unsettled settled layer))
        ((pending ++ (unsettled settled layer).flatMap graph.childrenOf).map (·, depth + 1)) := by
  induction layer generalizing settled pending with
  | nil =>
    have hnone : unsettled settled [] = [] := rfl
    have hsame : settle settled depth [] = settled := List.append_nil settled
    rw [hnone, hsame, List.flatMap_nil, List.append_nil]
    rfl
  | cons id rest ih =>
    rw [List.map_cons, List.cons_append, drain]
    by_cases hid : settled.lookup id = none
    · rw [if_pos hid, List.append_assoc, ← List.map_append, ih,
        @unsettled_cons_of_none _ _ depth _ hid, List.flatMap_cons, ← List.append_assoc pending]
      congr 1
      unfold settle
      rw [List.append_assoc]
      rfl
    · rw [if_neg hid, ih, unsettled_cons_of_some hid]

/-- Layer by layer the same distances are found as from a queue, in the same order. -/
theorem spread_eq_drain (graph : ConceptGraph) (depth : Nat) (settled : Distances)
    (layer : List ConceptId) :
    spread graph depth settled layer = drain graph settled (layer.map (·, depth)) := by
  fun_induction spread graph depth settled layer with
  | case1 depth settled layer fresh hnone =>
    have hlayer := drain_layer graph depth settled layer []
    have hfresh : unsettled settled layer = [] := hnone
    have hsame : settle settled depth [] = settled := List.append_nil settled
    rw [List.map_nil, List.append_nil, hfresh, hsame, List.flatMap_nil, List.append_nil,
      List.map_nil, drain.eq_1] at hlayer
    exact hlayer.symm
  | case2 depth settled layer fresh hsome ih =>
    have hlayer := drain_layer graph depth settled layer []
    rw [List.map_nil, List.append_nil, List.nil_append] at hlayer
    exact ih.trans hlayer.symm

end Drain

/-- The color group of a concept is the least number of links that lead down to it from a root,
found as it comes from a queue, and the least depth at which it occurs in the forest of the graph;
it has none exactly if the forest leaves it out. -/
theorem groups_exact (hb : graph.Built) :
    (ofGraph graph).nodes.map SnapshotNode.id = graph.ids ∧
    rootDistances graph = drain graph [] (graph.roots.map fun root => (root.id, 0)) ∧
    ∀ node ∈ (ofGraph graph).nodes,
      (∀ d, node.group = some d ↔ IsLeast (graph.linksFromRoots node.id) d) ∧
      (∀ d, node.group = some d ↔ IsLeast (graph.depthsOf node.id) d) ∧
      (node.group = none ↔ node.id ∈ graph.project.omitted) := by
  have hl := hb.wellLinked
  refine ⟨map_id_nodes graph, ?_, fun node mem => ?_⟩
  · unfold rootDistances
    rw [spread_eq_drain, List.map_map]
    rfl
  · obtain ⟨concept, hconcept, rfl⟩ := List.mem_map.mp mem
    have hgroup : ∀ d, (rootDistances graph).lookup concept.id = some d ↔
        graph.Nearest concept.id d := fun d => lookup_rootDistances
    refine ⟨hgroup, fun d => (hgroup d).trans hl.isLeast_depthsOf.symm, ?_⟩
    show (rootDistances graph).lookup concept.id = none ↔ concept.id ∈ graph.project.omitted
    have hknown : concept.id ∈ graph.ids := List.mem_map_of_mem hconcept
    rw [mem_omitted_iff, and_iff_right hknown, ← hl.exists_nearest_iff, not_exists,
      Option.eq_none_iff_forall_ne_some]
    exact forall_congr' fun d => (hgroup d).not

/-- Among tangled records the hounds are two links below the nearest root, at the least depth at
which they occur, and the north, on a cycle that no root leads to, has no group. -/
theorem groups_exact_tangled :
    (ofRecords tangled).Built ∧
    IsLeast ((ofRecords tangled).linksFromRoots "hounds") 2 ∧
    IsLeast ((ofRecords tangled).depthsOf "hounds") 2 ∧
    "north" ∈ (ofRecords tangled).project.omitted := by
  have hb := Built.ofRecords tangled
  obtain ⟨_, _, hgroups⟩ := groups_exact hb
  have hhounds : ⟨"hounds", "Hounds", some 2⟩ ∈ (ofGraph (ofRecords tangled)).nodes := by
    decide +kernel
  have hnorth : ⟨"north", "North", none⟩ ∈ (ofGraph (ofRecords tangled)).nodes := by
    decide +kernel
  obtain ⟨hdistance, hdepth, _⟩ := hgroups _ hhounds
  exact ⟨hb, (hdistance 2).mp rfl, (hdepth 2).mp rfl, (hgroups _ hnorth).2.2.mp rfl⟩

end Snapshot

end Thesaurus

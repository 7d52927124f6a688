import Thesaurus.Proofs.LayoutSync

/-!
# The nodes that a layout holds

A layout keeps two records of the nodes that are held: their places in a list, and a mark on their
bodies. Pinning a node adds it to both, letting go of it takes it out of both, a simulation that
starts afresh holds nothing, and nothing else changes either record. A step moves no body that is
held, if the forces move none, whatever the corrections compute.
-/

namespace Thesaurus.Layout

section Corrections

variable {settings : LayoutSettings} {alpha : Float}

/-- Moving one spot holds and frees none. -/
theorem anchored_modify (spots : Array Spot) (index : Nat) {change : Spot → Spot}
    (h : ∀ spot, (change spot).anchored = spot.anchored) :
    (spots.modify index change).map Spot.anchored = spots.map Spot.anchored := by
  apply Array.ext_getElem?
  intro place
  rw [Array.getElem?_map, Array.getElem?_map, Array.getElem?_modify]
  split
  · rw [Option.map_map]
    exact congrArg (Option.map · spots[place]?) (funext h)
  · rfl

/-- Drawing the ends of a line together holds and frees none. -/
theorem anchored_relax (spots : Array Spot) (line : LaidLine) :
    (relax settings alpha spots line).map Spot.anchored = spots.map Spot.anchored := by
  unfold relax
  split
  · dsimp only
    split
    · rfl
    · rw [anchored_modify, anchored_modify] <;> exact fun _ => rfl
  · rfl

/-- Centering holds and frees none. -/
theorem anchored_centerSpots (middle : Point) (spots : Array Spot) :
    (centerSpots settings alpha middle spots).map Spot.anchored = spots.map Spot.anchored := by
  unfold centerSpots
  dsimp only
  rw [Array.map_map]
  congr 1
  funext spot
  dsimp only [Function.comp]
  split <;> rfl

/-- Pushing two spots apart holds and frees none. -/
theorem anchored_separate (spots : Array Spot) (i j : Nat) :
    (separate settings spots i j).map Spot.anchored = spots.map Spot.anchored := by
  unfold separate
  split
  · dsimp only
    split
    · rfl
    · rw [anchored_modify, anchored_modify] <;> exact fun _ => rfl
  · rfl

/-- Pushing all spots apart holds and frees none. -/
theorem anchored_separateAll (spots : Array Spot) :
    (separateAll settings spots).map Spot.anchored = spots.map Spot.anchored := by
  unfold separateAll
  refine List.foldlRecOn (motive := fun found : Array Spot =>
    found.map Spot.anchored = spots.map Spot.anchored) _ _ rfl fun found hfound i _ => ?_
  refine List.foldlRecOn (motive := fun next : Array Spot =>
    next.map Spot.anchored = spots.map Spot.anchored) _ _ hfound fun next hnext j _ => ?_
  exact (anchored_separate next i j).trans hnext

/-- No correction holds or frees a spot. -/
theorem anchored_correct (layout : Layout) (spots : Array Spot) :
    (layout.correct spots).map Spot.anchored = spots.map Spot.anchored := by
  have hrelaxed : (layout.lines.foldl (relax layout.settings layout.alpha) spots).map
      Spot.anchored = spots.map Spot.anchored :=
    List.foldlRecOn (motive := fun found : Array Spot =>
      found.map Spot.anchored = spots.map Spot.anchored) _ _ rfl
      fun found hfound line _ => (anchored_relax found line).trans hfound
  unfold correct
  dsimp only
  rw [anchored_separateAll, anchored_centerSpots, hrelaxed]

end Corrections

/-- Where each node is held, if it is. -/
def holds (layout : Layout) : List (Option (Float32 × Float32)) :=
  layout.nodes.map fun node => node.body.hold?

/-- The two records that a layout keeps of the nodes it holds. -/
def grasp (layout : Layout) : List Nat × List (Option (Float32 × Float32)) :=
  (layout.pinned, layout.holds)

section Grasp

variable {forces : Forces} {layout : Layout}

/-- Forces that spare what is held hold each node where it was. -/
theorem hold?_forced (hspares : forces.SparesHeld) (layout : Layout) (dt : Float32) :
    (layout.forced forces dt).map (fun node => node.body.hold?) = layout.holds := by
  have hbodies : (layout.forced forces dt).map LaidNode.body =
      forces.advance layout.settings layout.springs dt (layout.nodes.map LaidNode.body) := by
    unfold forced
    generalize hmoved : forces.advance layout.settings layout.springs dt
      (layout.nodes.map LaidNode.body) = bodies
    have hlength : bodies.length = layout.nodes.length := by
      rw [← hmoved, hspares.keepsBodies, List.length_map]
    rw [← List.map_uncurry_zip_eq_zipWith, List.map_map]
    exact List.map_snd_zip (Nat.le_of_eq hlength)
  have hcompose : (layout.forced forces dt).map (fun node => node.body.hold?) =
      ((layout.forced forces dt).map LaidNode.body).map Body.hold? := by
    rw [List.map_map]
    rfl
  rw [hcompose, hbodies, hspares, List.map_map]
  rfl

/-- What is written back of a body that is held leaves it where it is. -/
theorem hold?_writeBack {node : LaidNode} {spot : Option Spot}
    (h : ∀ found, spot = some found → found.anchored = node.body.anchored) :
    (writeBack node spot).body.hold? = node.body.hold? := by
  unfold writeBack
  split
  · rename_i found
    have hsame := h found rfl
    split
    · rfl
    · rename_i hfree
      rw [hsame] at hfree
      unfold Body.hold?
      dsimp only
      rw [if_neg hfree, if_neg hfree]
  · rfl

/-- A corrected spot is held exactly if the body of its node is. -/
theorem anchored_correct_spotsOf {nodes : List LaidNode} {index : Nat} {node : LaidNode}
    {spot : Spot} (hn : nodes[index]? = some node)
    (hs : (layout.correct (spotsOf nodes))[index]? = some spot) :
    spot.anchored = node.body.anchored := by
  have hall : ((layout.correct (spotsOf nodes)).map Spot.anchored)[index]? =
      ((spotsOf nodes).map Spot.anchored)[index]? := by
    rw [anchored_correct]
  rw [Array.getElem?_map, hs, Array.getElem?_map] at hall
  unfold spotsOf at hall
  rw [List.getElem?_toArray, List.getElem?_map, hn] at hall
  exact Option.some.inj hall

/-- A step pins nothing and lets go of nothing. -/
theorem pinned_step (layout : Layout) (dt : Float32) :
    (layout.step forces dt).pinned = layout.pinned := by
  unfold step
  split <;> rfl

/-- A step changes nothing that is held. -/
theorem grasp_step (hspares : forces.SparesHeld) (layout : Layout) (dt : Float32) :
    (layout.step forces dt).grasp = layout.grasp := by
  refine Prod.ext (pinned_step layout dt) ?_
  unfold step
  split
  · rfl
  · unfold grasp
    dsimp only
    rw [← hold?_forced hspares layout dt]
    unfold holds
    dsimp only
    apply List.ext_getElem?
    intro index
    rw [List.getElem?_map, List.getElem?_mapIdx, List.getElem?_map, Option.map_map]
    cases hn : (layout.forced forces dt)[index]? with
    | none => rfl
    | some node =>
      rw [Option.map_some, Option.map_some]
      exact congrArg some (hold?_writeBack fun spot => anchored_correct_spotsOf hn)

/-- Raising the energy changes nothing that is held. -/
theorem grasp_reheat (layout : Layout) (alpha : Float) :
    (layout.reheat alpha).grasp = layout.grasp := by
  unfold reheat
  split <;> rfl

/-- Another viewport changes nothing that is held. -/
theorem grasp_resize (layout : Layout) (width height : Float) :
    (layout.resize width height).grasp = layout.grasp := by
  unfold resize
  rw [grasp_reheat]
  rfl

/-- Letting nodes stand out changes nothing that is held. -/
theorem grasp_emphasize (layout : Layout) (selected : Option ConceptId)
    (hits : Option TextSet) : (layout.emphasize selected hits).grasp = layout.grasp := by
  unfold emphasize grasp holds
  dsimp only
  rw [map_mapIdx_of_eq]
  intro index node
  rfl

/-- Nor does taking over labels, where the shape is the same. -/
theorem grasp_turnTo {snapshot : Snapshot} (h : (layout.turnTo snapshot).1 = false) :
    (layout.turnTo snapshot).2.grasp = layout.grasp := by
  rw [turnTo_of_goes_on h]
  unfold grasp holds
  dsimp only
  rw [List.map_map]
  rfl

/-- A simulation that starts holds nothing. -/
theorem grasp_start (snapshot : Snapshot) (width height : Float) (settings : LayoutSettings)
    (previous : ConceptId → Option Point) :
    (start snapshot width height settings previous).grasp =
      ([], snapshot.nodes.map fun _ => none) := by
  unfold start grasp holds
  dsimp only
  rw [map_mapIdx_of_eq]
  intro index node
  rfl

/-- A simulation that starts afresh holds nothing, whatever was held before. -/
theorem grasp_restart {snapshot : Snapshot} (h : (layout.turnTo snapshot).1 = true) :
    (layout.turnTo snapshot).2.grasp = ([], snapshot.nodes.map fun _ => none) := by
  rw [turnTo_of_afresh h]
  exact grasp_start snapshot _ _ _ _

/-- Changing one body changes where that one is held, and no other. -/
theorem getElem?_hold?_modifyBody (nodes : List LaidNode) (index : Nat) (change : Body → Body)
    (place : Nat) :
    ((modifyBody nodes index change).map fun node => node.body.hold?)[place]? =
      if index = place then (nodes[place]?).map fun node => (change node.body).hold?
      else (nodes.map fun node => node.body.hold?)[place]? := by
  unfold modifyBody
  rw [List.getElem?_map, List.getElem?_modify, List.getElem?_map]
  by_cases same : index = place
  · rw [if_pos same]
    simp only [if_pos same, Option.map_eq_map, Option.map_map]
    rfl
  · rw [if_neg same]
    simp only [if_neg same, Option.map_eq_map, Option.map_id']

end Grasp

section Places

variable {layout : Layout} {id : ConceptId}

/-- The last place of an item holds the item. -/
theorem getElem?_of_lastIndex? {α : Type} [DecidableEq α] {item : α} {list : List α} {index : Nat}
    (h : lastIndex? item list = some index) : list[index]? = some item := by
  induction list generalizing index with
  | nil => cases h
  | cons first rest ih =>
    unfold lastIndex? at h
    cases hrest : lastIndex? item rest with
    | some later =>
      rw [hrest] at h
      cases h
      exact ih hrest
    | none =>
      rw [hrest] at h
      dsimp only at h
      split at h
      · rename_i hfirst
        cases h
        exact congrArg some hfirst
      · cases h

/-- An item has a last place exactly if it is there. -/
theorem lastIndex?_isSome_iff {α : Type} [DecidableEq α] {item : α} {list : List α} :
    (lastIndex? item list).isSome = true ↔ item ∈ list := by
  induction list with
  | nil => exact iff_of_false Bool.false_ne_true List.not_mem_nil
  | cons first rest ih =>
    unfold lastIndex?
    rw [List.mem_cons, ← ih]
    cases lastIndex? item rest with
    | some later => simp only [Option.isSome_some, or_true]
    | none =>
      dsimp only
      split
      · rename_i hfirst
        simp only [Option.isSome_some, hfirst, true_or]
      · rename_i hfirst
        simp only [Option.isSome_none, Bool.false_eq_true, or_false, false_iff]
        exact fun h => hfirst h.symm

/-- A place stands for one concept only. -/
theorem eq_of_index?_eq {other : ConceptId} {index : Nat} (h : layout.index? id = some index)
    (ho : layout.index? other = some index) : id = other := by
  have hid := getElem?_of_lastIndex? h
  rw [getElem?_of_lastIndex? ho] at hid
  exact (Option.some.inj hid).symm

/-- A concept has a place exactly if it is laid out. -/
theorem index?_isSome_iff :
    (layout.index? id).isSome = true ↔ id ∈ layout.nodes.map LaidNode.id :=
  lastIndex?_isSome_iff

/-- The ids of the nodes decide the places. -/
theorem index?_congr {other : Layout}
    (h : other.nodes.map LaidNode.id = layout.nodes.map LaidNode.id) :
    other.index? = layout.index? := by
  funext id
  unfold index?
  rw [h]

/-- A layout that shows the same names its nodes the same. -/
theorem ids_congr {other : Layout} (h : other.scene = layout.scene) :
    other.nodes.map LaidNode.id = layout.nodes.map LaidNode.id := by
  have hcaptions : other.captions = layout.captions :=
    (Prod.mk.inj (Prod.mk.inj h).2).1
  have hids := congrArg (List.map Prod.fst) hcaptions
  unfold captions at hids
  rw [List.map_map, List.map_map] at hids
  exact hids

/-- A layout that takes over labels keeps the ids of its nodes. -/
theorem ids_turnTo {snapshot : Snapshot} (h : (layout.turnTo snapshot).1 = false) :
    (layout.turnTo snapshot).2.nodes.map LaidNode.id = layout.nodes.map LaidNode.id := by
  rw [turnTo_of_goes_on h, List.map_map]
  rfl

/-- A concept is held exactly if its place is among those that are held. -/
theorem isPinned_iff :
    layout.isPinned id = true ↔ ∃ index ∈ layout.pinned, layout.index? id = some index := by
  unfold isPinned
  rw [Option.any_eq_true]
  simp only [List.contains_iff_mem]
  exact ⟨fun ⟨index, hindex, mem⟩ => ⟨index, mem, hindex⟩,
    fun ⟨index, mem, hindex⟩ => ⟨index, hindex, mem⟩⟩

/-- Raising the energy holds the same places. -/
theorem pinned_reheat (layout : Layout) (alpha : Float) :
    (layout.reheat alpha).pinned = layout.pinned :=
  congrArg Prod.fst (grasp_reheat layout alpha)

/-- Raising the energy holds the same bodies. -/
theorem holds_reheat (layout : Layout) (alpha : Float) :
    (layout.reheat alpha).holds = layout.holds :=
  congrArg Prod.snd (grasp_reheat layout alpha)

/-- Pinning a node holds its place besides those that are held. -/
theorem mem_pinned_pin {point : Point} {index : Nat} :
    index ∈ (layout.pin id point).pinned ↔
      index ∈ layout.pinned ∨ layout.index? id = some index := by
  unfold pin
  cases hplace : layout.index? id with
  | none => simp only [reduceCtorEq, or_false]
  | some place =>
    dsimp only
    rw [pinned_reheat, Option.some.injEq]
    dsimp only
    split
    · rename_i hheld
      rw [List.contains_iff_mem] at hheld
      exact ⟨Or.inl, fun h => h.elim (fun mem => mem) fun hsame => hsame ▸ hheld⟩
    · rw [List.mem_append, List.mem_singleton, eq_comm (a := index)]

/-- Letting go of a node lets go of its place only. -/
theorem mem_pinned_unpin {index : Nat} :
    index ∈ (layout.unpin id).pinned ↔
      index ∈ layout.pinned ∧ layout.index? id ≠ some index := by
  unfold unpin
  cases hplace : layout.index? id with
  | none => simp only [ne_eq, reduceCtorEq, not_false_eq_true, and_true]
  | some place =>
    have hfreed : index ∈ layout.pinned.filter (· ≠ place) ↔
        index ∈ layout.pinned ∧ some place ≠ some index := by
      rw [List.mem_filter, decide_eq_true_eq, ne_eq, ne_eq, Option.some.injEq,
        eq_comm (a := place)]
    dsimp only
    split
    · rw [pinned_reheat]
      exact hfreed
    · exact hfreed

/-- Pinning a node marks its body as held where it is put, and changes no other mark. -/
theorem getElem?_holds_pin {point : Point} {place : Nat} (h : layout.index? id = some place)
    (index : Nat) : (layout.pin id point).holds[index]? =
      if place = index then
        (layout.nodes[index]?).map fun _ => some (point.x.toFloat32, point.y.toFloat32)
      else layout.holds[index]? := by
  have hput := getElem?_hold?_modifyBody layout.nodes place
    (fun body => { body with x := point.x.toFloat32, y := point.y.toFloat32, anchored := true })
    index
  unfold pin
  rw [h]
  dsimp only
  rw [holds_reheat]
  exact hput

/-- Pinning a node leaves what is at other places. -/
theorem getElem?_holds_pin_of_ne {point : Point} {index : Nat}
    (h : layout.index? id ≠ some index) :
    (layout.pin id point).holds[index]? = layout.holds[index]? := by
  cases hplace : layout.index? id with
  | none =>
    unfold pin
    rw [hplace]
  | some place =>
    rw [getElem?_holds_pin hplace, if_neg fun same => h (hplace.trans (congrArg some same))]

/-- Letting go of a node takes the mark from its body, and changes no other mark. -/
theorem getElem?_holds_unpin {place : Nat} (h : layout.index? id = some place) (index : Nat) :
    (layout.unpin id).holds[index]? =
      if place = index then (layout.nodes[index]?).map fun _ => none
      else layout.holds[index]? := by
  have hfreed := getElem?_hold?_modifyBody layout.nodes place
    (fun body => { body with anchored := false }) index
  unfold unpin
  rw [h]
  dsimp only
  split
  · rw [holds_reheat]
    exact hfreed
  · exact hfreed

/-- Letting go of a node leaves what is at other places. -/
theorem getElem?_holds_unpin_of_ne {index : Nat} (h : layout.index? id ≠ some index) :
    (layout.unpin id).holds[index]? = layout.holds[index]? := by
  cases hplace : layout.index? id with
  | none =>
    unfold unpin
    rw [hplace]
  | some place =>
    rw [getElem?_holds_unpin hplace, if_neg fun same => h (hplace.trans (congrArg some same))]

end Places

/-- A layout of which the two records agree: the places that are held are those of the bodies that
are marked as held. -/
def HoldsMarked (layout : Layout) : Prop :=
  ∀ index, index ∈ layout.pinned ↔ ∃ place, layout.holds[index]? = some (some place)

section HoldsMarked

variable {layout : Layout}

/-- What leaves both records alone keeps them in agreement. -/
theorem HoldsMarked.congr {other : Layout} (h : layout.HoldsMarked)
    (hg : other.grasp = layout.grasp) : other.HoldsMarked := by
  obtain ⟨hpinned, hholds⟩ := Prod.mk.inj hg
  unfold HoldsMarked
  rw [hpinned, hholds]
  exact h

/-- Where nothing is held, the records agree. -/
theorem holdsMarked_of_nothing {α : Type} {nodes : List α}
    (hg : layout.grasp = ([], nodes.map fun _ => none)) : layout.HoldsMarked := by
  obtain ⟨hpinned, hholds⟩ := Prod.mk.inj hg
  intro index
  rw [hpinned, hholds]
  refine iff_of_false List.not_mem_nil ?_
  rintro ⟨place, h⟩
  rw [List.getElem?_map] at h
  cases hn : nodes[index]? with
  | none =>
    rw [hn] at h
    cases h
  | some node =>
    rw [hn] at h
    cases h

/-- A place that stands for a concept has a node. -/
theorem exists_node_of_index? {id : ConceptId} {place : Nat} (h : layout.index? id = some place) :
    ∃ node, layout.nodes[place]? = some node ∧ node.id = id := by
  have hid := getElem?_of_lastIndex? h
  rw [List.getElem?_map, Option.map_eq_some_iff] at hid
  exact hid

/-- Pinning keeps the records in agreement. -/
theorem HoldsMarked.pin (h : layout.HoldsMarked) (id : ConceptId) (point : Point) :
    (layout.pin id point).HoldsMarked := by
  intro index
  rw [mem_pinned_pin]
  by_cases same : layout.index? id = some index
  · obtain ⟨node, hnode, _⟩ := exists_node_of_index? same
    rw [getElem?_holds_pin same, if_pos rfl, hnode]
    exact iff_of_true (Or.inr same) ⟨_, rfl⟩
  · rw [getElem?_holds_pin_of_ne same, or_iff_left same]
    exact h index

/-- So does letting go of a node. -/
theorem HoldsMarked.unpin (h : layout.HoldsMarked) (id : ConceptId) :
    (layout.unpin id).HoldsMarked := by
  intro index
  rw [mem_pinned_unpin]
  by_cases same : layout.index? id = some index
  · obtain ⟨node, hnode, _⟩ := exists_node_of_index? same
    rw [getElem?_holds_unpin same, if_pos rfl, hnode]
    refine iff_of_false (fun hmem => hmem.2 same) ?_
    rintro ⟨point, hpoint⟩
    cases hpoint
  · rw [getElem?_holds_unpin_of_ne same, and_iff_left same]
    exact h index

/-- So does turning to a snapshot, whether the simulation goes on or not. -/
theorem HoldsMarked.turnTo (h : layout.HoldsMarked) (snapshot : Snapshot) :
    (layout.turnTo snapshot).2.HoldsMarked := by
  cases hafresh : (layout.turnTo snapshot).1 with
  | true => exact holdsMarked_of_nothing (grasp_restart hafresh)
  | false => exact h.congr (grasp_turnTo hafresh)

/-- A new layout holds nothing, by either record. -/
theorem holdsMarked_ofSnapshot (snapshot : Snapshot) (width height : Float)
    (settings : LayoutSettings) : (ofSnapshot snapshot width height settings).HoldsMarked :=
  holdsMarked_of_nothing (grasp_start snapshot width height settings fun _ => none)

end HoldsMarked

/-- The body of a concept. -/
def body? (layout : Layout) (id : ConceptId) : Option Body :=
  (layout.index? id).bind fun index => (layout.nodes[index]?).map LaidNode.body

/-- Where a concept is held, if it is. -/
def hold? (layout : Layout) (id : ConceptId) : Option (Float32 × Float32) :=
  (layout.body? id).bind Body.hold?

section Hold

variable {forces : Forces} {layout other : Layout} {id : ConceptId}

/-- A concept is held somewhere if its body is marked as held and is there. -/
theorem hold?_eq_some_iff {place : Float32 × Float32} : layout.hold? id = some place ↔
    ∃ body, layout.body? id = some body ∧ body.anchored = true ∧ (body.x, body.y) = place := by
  unfold hold?
  simp only [Option.bind_eq_some_iff, Body.hold?_eq_some_iff]

/-- A concept is held where the body at its place is. -/
theorem hold?_of_index? {index : Nat} (h : layout.index? id = some index) :
    layout.hold? id = (layout.holds[index]?).join := by
  unfold hold? body? holds
  rw [h, Option.bind_some, List.getElem?_map]
  cases layout.nodes[index]? <;> rfl

/-- What keeps the ids of the nodes, and where the one of a concept is held, keeps where the concept
is held. -/
theorem hold?_congr (hids : other.nodes.map LaidNode.id = layout.nodes.map LaidNode.id)
    (hholds : ∀ index, layout.index? id = some index →
      other.holds[index]? = layout.holds[index]?) : other.hold? id = layout.hold? id := by
  have hindex : other.index? id = layout.index? id := congrFun (index?_congr hids) id
  cases hplace : layout.index? id with
  | none =>
    unfold hold? body?
    rw [hindex, hplace]
    rfl
  | some index =>
    rw [hold?_of_index? hplace, hold?_of_index? (hindex.trans hplace), hholds index hplace]

/-- What shows the same and changes nothing that is held keeps where each concept is held. -/
theorem hold?_of_grasp (hscene : other.scene = layout.scene) (hgrasp : other.grasp = layout.grasp) :
    other.hold? id = layout.hold? id := by
  have hholds : other.holds = layout.holds := congrArg Prod.snd hgrasp
  exact hold?_congr (ids_congr hscene) fun index _ => by rw [hholds]

/-- A step keeps where each concept is held. -/
theorem hold?_step (hspares : forces.SparesHeld) (dt : Float32) :
    (layout.step forces dt).hold? id = layout.hold? id :=
  hold?_of_grasp (scene_step hspares.keepsBodies layout dt) (grasp_step hspares layout dt)

/-- A concept that is held somewhere is there. -/
theorem point_of_hold? {place : Float32 × Float32} (h : layout.hold? id = some place) :
    (layout.body? id).map Body.point = some ⟨place.1.toFloat, place.2.toFloat⟩ := by
  obtain ⟨body, hbody, _, rfl⟩ := hold?_eq_some_iff.mp h
  rw [hbody]
  rfl

/-- Where the records agree, a concept is pinned exactly if it is held somewhere. -/
theorem HoldsMarked.isPinned_iff (h : layout.HoldsMarked) :
    layout.isPinned id = true ↔ ∃ place, layout.hold? id = some place := by
  rw [Layout.isPinned_iff]
  constructor
  · rintro ⟨index, mem, hplace⟩
    obtain ⟨place, hheld⟩ := (h index).mp mem
    exact ⟨place, (hold?_of_index? hplace).trans (Option.join_eq_some_iff.mpr hheld)⟩
  · rintro ⟨place, hheld⟩
    cases hplace : layout.index? id with
    | none =>
      unfold hold? body? at hheld
      rw [hplace] at hheld
      cases hheld
    | some index =>
      rw [hold?_of_index? hplace, Option.join_eq_some_iff] at hheld
      exact ⟨index, (h index).mpr ⟨place, hheld⟩, rfl⟩

end Hold

section Steps

variable {forces : Forces} {layout : Layout} {id : ConceptId}

/-- A step moves no concept that is held. -/
theorem HoldsMarked.point_step (h : layout.HoldsMarked) (hspares : forces.SparesHeld)
    (hid : layout.isPinned id = true) (dt : Float32) :
    ((layout.step forces dt).body? id).map Body.point = (layout.body? id).map Body.point := by
  obtain ⟨place, hheld⟩ := h.isPinned_iff.mp hid
  rw [point_of_hold? hheld, point_of_hold? ((hold?_step hspares dt).trans hheld)]

/-- A concept is held after a step exactly if it was held before it. -/
theorem isPinned_step (hkeeps : forces.KeepsBodies) (layout : Layout) (dt : Float32)
    (id : ConceptId) : (layout.step forces dt).isPinned id = layout.isPinned id := by
  unfold isPinned
  rw [index?_congr (ids_congr (scene_step hkeeps layout dt)), pinned_step]

/-- No steps move a concept that is held. -/
theorem HoldsMarked.point_steps (h : layout.HoldsMarked) (hspares : forces.SparesHeld)
    (hid : layout.isPinned id = true) (dts : List Float32) :
    ((dts.foldl (step forces) layout).body? id).map Body.point =
      (layout.body? id).map Body.point := by
  induction dts generalizing layout with
  | nil => rfl
  | cons dt rest ih =>
    have hkept : (layout.step forces dt).isPinned id = true :=
      (isPinned_step hspares.keepsBodies layout dt id).trans hid
    have hmarked := h.congr (grasp_step hspares layout dt)
    exact (ih hmarked hkept).trans (h.point_step hspares hid dt)

/-- A layout that holds nothing is at rest after a step that hardly moves a node. -/
theorem isRunning_step_of_still {dt : Float32} (h : layout.pinned = [])
    (hstill : farthest layout.positions (layout.step forces dt).positions <
      layout.settings.motionEpsilon) : (layout.step forces dt).isRunning = false := by
  unfold step at hstill ⊢
  split
  · rename_i hrest
    rw [Bool.not_eq_true'] at hrest
    exact hrest
  · rename_i hrun
    rw [if_neg hrun] at hstill
    dsimp only at hstill
    unfold cooled isRunning
    simp only [h, List.isEmpty_nil, Bool.not_true, Bool.not_false, decide_eq_true hstill,
      Bool.or_true, Bool.and_true, if_true]
    decide

end Steps

end Thesaurus.Layout

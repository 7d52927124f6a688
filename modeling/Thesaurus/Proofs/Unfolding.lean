import Thesaurus.Proofs.Marking
import Thesaurus.Proofs.Placement
import Thesaurus.Proofs.Ways

/-!
# The forest of a graph, by its ways

The occurrences of the forest of a graph stand for the ways down the graph, cycles or not: each
occurrence is at the end of one way, each way leads to one occurrence, and the occurrences are
walked through in the order of their ways. The concepts left out are those that no root leads to.
-/

namespace Thesaurus

/-- The ids along a line, from the root on. -/
def wayTo (line : List Occurrence) : List ConceptId := (line.map Occurrence.id).reverse

/-- One occurrence further down is one id more. -/
theorem wayTo_cons (top : Occurrence) (above : List Occurrence) :
    wayTo (top :: above) = wayTo above ++ [top.id] := by
  unfold wayTo
  rw [List.map_cons, List.reverse_cons]

/-- An occurrence is walked through exactly if it is at the end of some line. -/
theorem Forest.mem_walk_iff {forest : Forest} {top : Occurrence} :
    top ∈ forest.walk ↔ ∃ above, top :: above ∈ forest.lines := by
  have hlines : forest.lines.map List.head? = forest.walk.map some :=
    Trees.map_head?_lines forest.roots []
  have hsome : some top ∈ forest.walk.map some ↔ top ∈ forest.walk := by
    rw [List.mem_map_of_injective fun _ _ => Option.some.inj]
  rw [← hsome, ← hlines, List.mem_map]
  constructor
  · rintro ⟨line, mem, hhead⟩
    obtain ⟨above, rfl⟩ := List.head?_eq_some_iff.mp hhead
    exact ⟨above, mem⟩
  · rintro ⟨above, mem⟩
    exact ⟨top :: above, mem, rfl⟩

/-- A forest that shows a graph in full: all its ways, and nothing else. -/
structure Forest.Unfolds (forest : Forest) (graph : ConceptGraph) : Prop where
  /-- The lines are those of the occurrences walked through, in that order. -/
  lines_of_walk : forest.lines.map List.head? = forest.walk.map some
  /-- No two occurrences are at the end of one way. -/
  ways_distinct : (forest.lines.map wayTo).Nodup
  /-- An occurrence is at the end of each way, and each occurrence is at the end of a way. -/
  mem_ways : ∀ way, way ∈ forest.lines.map wayTo ↔ graph.IsWay way
  /-- Each occurrence comes before those below it, and these before the ones beside it. -/
  ways_in_order : (forest.lines.map wayTo).Pairwise graph.Precedes
  /-- No two occurrences have one path. -/
  paths_distinct : (forest.walk.map Occurrence.path).Nodup
  /-- The concepts left out are in storage order. -/
  omitted_in_order : forest.omitted.Sublist graph.ids
  /-- A concept is left out exactly if it is known and no root leads to it. -/
  mem_omitted : ∀ id, id ∈ forest.omitted ↔ graph.contains id = true ∧ ¬graph.Reached id

namespace ConceptGraph

/-- What a row of trees below a path shows, by its ids: a way on from the path that begins at one
of some concepts. -/
structure WayOn (graph : ConceptGraph) (line starts way : List ConceptId) : Prop where
  /-- It begins at one of the concepts. -/
  begins : ∃ id ∈ starts, way.head? = some id
  /-- Each step goes down a broader link. -/
  goes_down : way.IsChain graph.Narrower
  /-- No concept comes twice. -/
  distinct : way.Nodup
  /-- It comes by no concept of the path. -/
  new : ∀ id ∈ way, id ∉ line
  /-- The graph holds its concepts. -/
  known : ∀ id ∈ way, graph.contains id = true

section WayOn

variable {graph : ConceptGraph} {line starts others way : List ConceptId} {id : ConceptId}

/-- A way on goes somewhere. -/
theorem WayOn.exists_cons (hw : graph.WayOn line starts way) :
    ∃ first rest, first ∈ starts ∧ way = first :: rest := by
  obtain ⟨first, mem, hhead⟩ := hw.begins
  cases way with
  | nil => cases hhead
  | cons head rest =>
    cases hhead
    exact ⟨first, rest, mem, rfl⟩

/-- No way on begins at no concept. -/
theorem not_wayOn_nil : ¬graph.WayOn line [] way := by
  intro hw
  obtain ⟨_, mem, _⟩ := hw.begins
  cases mem

/-- No way on begins at a concept of the path, or at an unknown one. -/
theorem wayOn_cons_of_skipped (h : id ∈ line ∨ graph.contains id = false) :
    graph.WayOn line (id :: others) way ↔ graph.WayOn line others way := by
  constructor
  · intro hw
    obtain ⟨first, mem, hhead⟩ := hw.begins
    have hfirst : first ∈ way := List.mem_of_mem_head? hhead
    refine ⟨⟨first, ?_, hhead⟩, hw.goes_down, hw.distinct, hw.new, hw.known⟩
    rcases List.mem_cons.mp mem with rfl | mem
    · rcases h with old | hunknown
      · exact absurd old (hw.new first hfirst)
      · exact absurd (hw.known first hfirst) (Bool.eq_false_iff.mp hunknown)
    · exact mem
  · intro hw
    obtain ⟨first, mem, hhead⟩ := hw.begins
    exact ⟨⟨first, List.mem_cons_of_mem id mem, hhead⟩, hw.goes_down, hw.distinct, hw.new, hw.known⟩

/-- A way on either ends at the first concept, or goes on below it, or begins at a later one. -/
theorem wayOn_cons (hnew : id ∉ line) (hknown : graph.contains id = true) :
    graph.WayOn line (id :: others) way ↔
      way = [id] ∨ (∃ rest, graph.WayOn (id :: line) (graph.childrenOf id) rest ∧
        way = id :: rest) ∨ graph.WayOn line others way := by
  constructor
  · intro hw
    obtain ⟨first, rest, mem, rfl⟩ := hw.exists_cons
    rcases List.mem_cons.mp mem with rfl | mem
    · cases rest with
      | nil => exact Or.inl rfl
      | cons second rest =>
        obtain ⟨step, hdown⟩ := List.isChain_cons_cons.mp hw.goes_down
        obtain ⟨hout, hdistinct⟩ := List.nodup_cons.mp hw.distinct
        refine Or.inr (Or.inl ⟨second :: rest, ?_, rfl⟩)
        refine ⟨⟨second, mem_childrenOf_iff_narrower.mpr step, rfl⟩, hdown, hdistinct, ?_, ?_⟩
        · intro other inside hline
          rcases List.mem_cons.mp hline with rfl | hline
          · exact hout inside
          · exact hw.new other (List.mem_cons_of_mem _ inside) hline
        · exact fun other inside => hw.known other (List.mem_cons_of_mem _ inside)
    · exact Or.inr (Or.inr ⟨⟨first, mem, rfl⟩, hw.goes_down, hw.distinct, hw.new, hw.known⟩)
  · rintro (rfl | ⟨rest, hw, rfl⟩ | hw)
    · refine ⟨⟨id, List.mem_cons_self, rfl⟩, List.isChain_singleton id, List.nodup_singleton id,
        ?_, ?_⟩
      · exact fun other mem => List.mem_singleton.mp mem ▸ hnew
      · exact fun other mem => List.mem_singleton.mp mem ▸ hknown
    · obtain ⟨second, rest, mem, rfl⟩ := hw.exists_cons
      have step : graph.Narrower id second := mem_childrenOf_iff_narrower.mp mem
      refine ⟨⟨id, List.mem_cons_self, rfl⟩, List.isChain_cons_cons.mpr ⟨step, hw.goes_down⟩,
        List.nodup_cons.mpr ⟨?_, hw.distinct⟩, ?_, ?_⟩
      · exact fun inside => hw.new id inside List.mem_cons_self
      · intro other inside
        rcases List.mem_cons.mp inside with rfl | inside
        · exact hnew
        · exact fun hline => hw.new other inside (List.mem_cons_of_mem _ hline)
      · intro other inside
        rcases List.mem_cons.mp inside with rfl | inside
        · exact hknown
        · exact hw.known other inside
    · obtain ⟨first, mem, hhead⟩ := hw.begins
      exact ⟨⟨first, List.mem_cons_of_mem id mem, hhead⟩, hw.goes_down, hw.distinct, hw.new,
        hw.known⟩

/-- A way on from nowhere that begins at a root is a way. -/
theorem WayOn.isWay (hw : graph.WayOn [] (graph.next none) way) : graph.IsWay way := by
  obtain ⟨first, mem, hhead⟩ := hw.begins
  obtain ⟨root, hroot, rfl⟩ := List.mem_map.mp mem
  exact ⟨⟨root, hroot, hhead⟩, hw.goes_down, hw.distinct⟩

/-- Where the lower ends of links are known, a way is a way on from nowhere. -/
theorem WellLinked.wayOn (h : graph.WellLinked) (hw : graph.IsWay way) :
    graph.WayOn [] (graph.next none) way := by
  obtain ⟨root, hroot, hhead⟩ := hw.begins
  refine ⟨⟨root.id, List.mem_map_of_mem hroot, hhead⟩, hw.goes_down, hw.distinct,
    fun _ _ => List.not_mem_nil, ?_⟩
  refine hw.goes_down.induction (fun id => graph.contains id = true) way ?_ ?_
  · exact fun upper lower step _ => (h.ends_known _ step).1
  · intro hne
    have hfirst : way.head hne = root.id := (List.head_eq_iff_head?_eq_some hne).mpr hhead
    rw [hfirst]
    exact contains_iff.mpr (List.mem_map_of_mem (List.mem_filter.mp hroot).1)

end WayOn

end ConceptGraph

namespace Projection

open ConceptGraph

section Grow

variable {graph : ConceptGraph} {path : Option PathText} {line ids : List ConceptId}
  {above : List Occurrence}

/-- Trees show the ways on from the path that they stand below, and no others. -/
theorem mem_ways_grow (ha : above.map Occurrence.id = line) {way : List ConceptId} :
    way ∈ ((grow graph path line ids).lines above).map wayTo ↔
      ∃ rest, graph.WayOn line ids rest ∧ way = wayTo above ++ rest := by
  fun_induction grow graph path line ids generalizing above way with
  | case1 =>
    constructor
    · exact fun mem => absurd mem List.not_mem_nil
    · rintro ⟨rest, hw, _⟩
      exact absurd hw not_wayOn_nil
  | case2 path line id others old ih =>
    rw [ih ha]
    simp only [wayOn_cons_of_skipped (Or.inl old)]
  | case3 path line id others new unknown ih =>
    have hunknown : graph.contains id = false := by
      rw [← concept?_isSome, unknown]
      rfl
    rw [ih ha]
    simp only [wayOn_cons_of_skipped (Or.inr hunknown)]
  | case4 path line id others new concept found top ihBelow =>
    rename_i ihBeside
    have hid : concept.id = id := concept?_id found
    have hknown : graph.contains id = true := by
      rw [← concept?_isSome, found]
      rfl
    have htop : (top :: above).map Occurrence.id = concept.id :: line := by
      rw [List.map_cons, ha]
      rfl
    have hway : wayTo (top :: above) = wayTo above ++ [id] := by
      rw [wayTo_cons, ← hid]
      rfl
    rw [Trees.lines, List.map_cons, List.map_append, List.mem_cons, List.mem_append,
      ihBelow htop, ihBeside ha, hid, hway]
    simp only [wayOn_cons new hknown]
    constructor
    · rintro (rfl | ⟨rest, hw, rfl⟩ | ⟨rest, hw, rfl⟩)
      · exact ⟨[id], Or.inl rfl, rfl⟩
      · exact ⟨id :: rest, Or.inr (Or.inl ⟨rest, hw, rfl⟩), by rw [List.append_assoc]; rfl⟩
      · exact ⟨rest, Or.inr (Or.inr hw), rfl⟩
    · rintro ⟨_, rfl | ⟨rest, hw, rfl⟩ | hw, rfl⟩
      · exact Or.inl rfl
      · exact Or.inr (Or.inl ⟨rest, hw, by rw [List.append_assoc]; rfl⟩)
      · exact Or.inr (Or.inr ⟨_, hw, rfl⟩)

/-- Trees show their ways in order, if what they begin at is in order. -/
theorem ways_grow_in_order (ha : above.map Occurrence.id = line)
    (hids : ids.Sublist (graph.next line.head?)) :
    (((grow graph path line ids).lines above).map wayTo).Pairwise graph.Precedes := by
  fun_induction grow graph path line ids generalizing above with
  | case1 => exact List.Pairwise.nil
  | case2 path line id others old ih => exact ih ha (List.sublist_of_cons_sublist hids)
  | case3 path line id others new unknown ih => exact ih ha (List.sublist_of_cons_sublist hids)
  | case4 path line id others new concept found top ihBelow =>
    rename_i ihBeside
    have hid : concept.id = id := concept?_id found
    have htop : (top :: above).map Occurrence.id = concept.id :: line := by
      rw [List.map_cons, ha]
      rfl
    have hway : wayTo (top :: above) = wayTo above ++ [id] := by
      rw [wayTo_cons, ← hid]
      rfl
    have hlast : (wayTo above).getLast? = line.head? := by
      unfold wayTo
      rw [List.getLast?_reverse, ha]
    -- ways beside the first tree part from those of the tree at the end of the path
    have hpart : ∀ left right, wayTo above ++ [id] <+: left →
        right ∈ ((grow graph path line others).lines above).map wayTo →
        graph.Precedes left right := by
      intro left right hleft hright
      obtain ⟨rest, hw, rfl⟩ := (mem_ways_grow ha).mp hright
      obtain ⟨first, rest, mem, rfl⟩ := hw.exists_cons
      refine Or.inr ⟨wayTo above, id, first, ?_, hleft, ⟨rest, ?_⟩⟩
      · rw [hlast]
        exact ((List.singleton_sublist.mpr mem).cons_cons id).trans hids
      · rw [List.append_assoc]
        rfl
    rw [Trees.lines, List.map_cons, List.map_append, hway, List.pairwise_cons,
      List.pairwise_append]
    refine ⟨?_, ihBelow htop (List.Sublist.refl _),
      ihBeside ha (List.sublist_of_cons_sublist hids), ?_⟩
    · intro way mem
      rcases List.mem_append.mp mem with mem | mem
      · obtain ⟨rest, hw, rfl⟩ := (mem_ways_grow htop).mp mem
        obtain ⟨first, rest, _, rfl⟩ := hw.exists_cons
        rw [hway]
        refine Or.inl ⟨List.prefix_append _ _, fun same => ?_⟩
        exact List.cons_ne_nil first rest (List.self_eq_append_right.mp same)
      · exact hpart _ way (List.prefix_refl _) mem
    · intro left hleft right hright
      obtain ⟨rest, _, rfl⟩ := (mem_ways_grow htop).mp hleft
      refine hpart _ right ?_ hright
      rw [hway]
      exact List.prefix_append _ _

end Grow

end Projection

namespace ConceptGraph

variable {graph : ConceptGraph}

/-- Whether a concept stands below a parent, or at the top where no parent is given. -/
def StandsBelow (graph : ConceptGraph) (id : ConceptId) : Option ConceptId → Prop
  | some parent => parent ∈ graph.parentsOf id
  | none => graph.parentsOf id = []

/-- A concept stands below a parent that is one of its own, and at the top if it has none. -/
theorem standsBelow_iff {id : ConceptId} {above : Option ConceptId} :
    graph.StandsBelow id above ↔
      (above = none ∧ graph.parentsOf id = []) ∨
        ∃ parent ∈ graph.parentsOf id, above = some parent := by
  cases above with
  | none => simp [StandsBelow]
  | some parent => simp [StandsBelow]

/-- Every line of the forest of a graph goes along a way of known concepts, however the links of
the graph lie. -/
theorem wayOn_of_mem_lines {line : List Occurrence} (mem : line ∈ graph.project.lines) :
    graph.WayOn [] (graph.next none) (wayTo line) := by
  have hin : wayTo line ∈
      ((Projection.grow graph none [] (graph.next none)).lines []).map wayTo :=
    List.mem_map_of_mem mem
  obtain ⟨rest, hw, heq⟩ := (Projection.mem_ways_grow List.map_nil).mp hin
  rw [heq]
  exact hw

/-- Only known concepts occur. -/
theorem contains_of_mem_walk {top : Occurrence} (mem : top ∈ graph.project.walk) :
    graph.contains top.id = true := by
  obtain ⟨above, hline⟩ := Forest.mem_walk_iff.mp mem
  refine (wayOn_of_mem_lines hline).known top.id ?_
  rw [wayTo_cons]
  exact List.mem_append_right _ List.mem_cons_self

/-- The paths along the lines of the forest of a graph are those of their ids. -/
theorem follows_of_mem_project_lines {line : List Occurrence} (mem : line ∈ graph.project.lines) :
    FollowsPaths line := by
  have hgrow : graph.project.roots.PathsBelow
      (([] : List Occurrence).head?.map Occurrence.path) :=
    Projection.grow_pathsBelow graph none [] (graph.next none)
  exact hgrow.follows trivial line mem

/-- The concept of an occurrence stands below the parent that is read off its path. -/
theorem standsBelow_of_mem_walk {top : Occurrence} (mem : top ∈ graph.project.walk) :
    graph.StandsBelow top.id (Path.parentId? top.path) := by
  obtain ⟨above, hline⟩ := Forest.mem_walk_iff.mp mem
  have hway := (wayOn_of_mem_lines hline).isWay
  rw [(follows_of_mem_project_lines hline).parentId?]
  cases above with
  | nil =>
    obtain ⟨root, hroot, hhead⟩ := hway.begins
    have hsame : top.id = root.id := Option.some.inj hhead
    show graph.parentsOf top.id = []
    rw [hsame]
    exact List.isEmpty_iff.mp (List.mem_filter.mp hroot).2
  | cons next rest =>
    rw [wayTo_cons, wayTo_cons] at hway
    exact mem_parentsOf.mpr hway.of_concat.2

/-- Where links are in order, an occurrence is at the end of every way. -/
theorem WellLinked.mem_ways (h : graph.WellLinked) (way : List ConceptId) :
    way ∈ graph.project.lines.map wayTo ↔ graph.IsWay way := by
  constructor
  · intro mem
    obtain ⟨line, hline, rfl⟩ := List.mem_map.mp mem
    exact (wayOn_of_mem_lines hline).isWay
  · intro hw
    exact (Projection.mem_ways_grow List.map_nil).mpr ⟨way, h.wayOn hw, rfl⟩

/-- The ids on the paths of a forest are the ways to its occurrences. -/
theorem map_ids_path_walk (graph : ConceptGraph) :
    graph.project.walk.map (fun top => Path.ids top.path) = graph.project.lines.map wayTo := by
  have hpath : ∀ line ∈ graph.project.lines,
      line.head?.map (fun top => Path.ids top.path) = some (wayTo line) := by
    intro line mem
    cases line with
    | nil =>
      obtain ⟨_, _, hhead⟩ := (wayOn_of_mem_lines mem).begins
      cases hhead
    | cons top above => exact congrArg some (follows_of_mem_project_lines mem).ids_path
  have hlines : graph.project.lines.map List.head? = graph.project.walk.map some :=
    Trees.map_head?_lines graph.project.roots []
  apply List.map_injective_iff.mpr fun _ _ => Option.some.inj
  calc (graph.project.walk.map fun top => Path.ids top.path).map some
      = (graph.project.walk.map some).map (Option.map fun top => Path.ids top.path) := by
        rw [List.map_map, List.map_map]
        rfl
    _ = graph.project.lines.map fun line => some (wayTo line) := by
        rw [← hlines, List.map_map]
        exact List.map_congr_left hpath
    _ = (graph.project.lines.map wayTo).map some := by
        rw [List.map_map]
        rfl

/-- The path of every occurrence in the forest of a graph goes along a way of known concepts. -/
theorem wayOn_of_mem_walk {top : Occurrence} (mem : top ∈ graph.project.walk) :
    graph.WayOn [] (graph.next none) (Path.ids top.path) := by
  have hin : Path.ids top.path ∈ graph.project.walk.map fun top => Path.ids top.path :=
    List.mem_map_of_mem mem
  rw [map_ids_path_walk] at hin
  obtain ⟨line, hline, hway⟩ := List.mem_map.mp hin
  rw [← hway]
  exact wayOn_of_mem_lines hline

/-- The path of an occurrence goes along a way that ends at its concept, with as many links as the
occurrence is deep. -/
theorem exists_way_of_mem_walk {top : Occurrence} (mem : top ∈ graph.project.walk) :
    ∃ before, Path.ids top.path = before ++ [top.id] ∧ before.length = top.depth ∧
      graph.IsWay (before ++ [top.id]) := by
  have hway : graph.IsWay (Path.ids top.path) := (wayOn_of_mem_walk mem).isWay
  obtain ⟨tree, ht, rfl⟩ := Trees.mem_walk_iff.mp mem
  obtain ⟨_, line, concept, hgrown⟩ := exists_grown ht
  have hids : Path.ids tree.top.path = line.reverse ++ [tree.top.id] := by
    rw [hgrown.ids_path, hgrown.top_eq]
    rfl
  refine ⟨line.reverse, hids, ?_, hids ▸ hway⟩
  rw [List.length_reverse, hgrown.top_eq]
  rfl

/-- Where links are in order, an occurrence of its last concept is at the end of every way. -/
theorem WellLinked.exists_of_isWay (h : graph.WellLinked) {before : List ConceptId}
    {id : ConceptId} (hw : graph.IsWay (before ++ [id])) :
    ∃ top ∈ graph.project.walk, top.id = id ∧ Path.ids top.path = before ++ [id] := by
  have hin := (h.mem_ways _).mpr hw
  rw [← map_ids_path_walk] at hin
  obtain ⟨top, mem, hids⟩ := List.mem_map.mp hin
  obtain ⟨_, hids', _⟩ := exists_way_of_mem_walk mem
  obtain ⟨_, hlast⟩ := List.append_inj' (hids'.symm.trans hids) rfl
  exact ⟨top, mem, (List.cons.inj hlast).1, hids⟩

/-- Where links are in order, no two occurrences are at the end of one way. -/
theorem WellLinked.ways_distinct (h : graph.WellLinked) :
    (graph.project.lines.map wayTo).Nodup := by
  have horder : (graph.project.lines.map wayTo).Pairwise graph.Precedes :=
    Projection.ways_grow_in_order rfl (List.Sublist.refl (graph.next none))
  refine horder.imp fun {first second} hp same => ?_
  rw [same] at hp
  exact h.not_precedes_self second hp

/-- The concepts left out are those that do not occur. -/
theorem mem_omitted_iff {id : ConceptId} :
    id ∈ graph.project.omitted ↔
      id ∈ graph.ids ∧ id ∉ graph.project.walk.map Occurrence.id := by
  have homitted : graph.project.omitted =
      graph.ids.filter fun id => !(graph.project.walk.map Occurrence.id).contains id := by
    unfold ids
    rw [List.filter_map]
    rfl
  rw [homitted, List.mem_filter, Bool.not_eq_true', ← Bool.not_eq_true, List.contains_iff_mem]

/-- Where links are in order, the concepts that occur are those that some root leads to. -/
theorem WellLinked.mem_walk_ids (h : graph.WellLinked) {id : ConceptId} :
    id ∈ graph.project.walk.map Occurrence.id ↔ graph.Reached id := by
  rw [List.mem_map, ← exists_way_iff_reached]
  constructor
  · rintro ⟨top, mem, rfl⟩
    obtain ⟨above, hline⟩ := Forest.mem_walk_iff.mp mem
    refine ⟨wayTo (top :: above), (wayOn_of_mem_lines hline).isWay, ?_⟩
    rw [wayTo_cons, List.getLast?_concat]
  · rintro ⟨way, hw, hlast⟩
    obtain ⟨line, hline, rfl⟩ := List.mem_map.mp ((h.mem_ways way).mpr hw)
    cases line with
    | nil => cases hlast
    | cons top above =>
      rw [wayTo_cons, List.getLast?_concat] at hlast
      exact ⟨top, Forest.mem_walk_iff.mpr ⟨above, hline⟩, Option.some.inj hlast⟩

/-- The forest of a graph, however the graph was made, shows it in full: its occurrences stand for
the ways down the graph, one for each, in the order of the ways and with a path of its own; and it
leaves out, in storage order, the concepts that no root leads to. -/
theorem project_unfolds (hb : graph.Built) : graph.project.Unfolds graph := by
  have h := hb.wellLinked
  refine ⟨Trees.map_head?_lines graph.project.roots [], h.ways_distinct, h.mem_ways,
    Projection.ways_grow_in_order rfl (List.Sublist.refl (graph.next none)), ?_,
    List.filter_sublist.map Concept.id, fun id => ?_⟩
  · have hids : ((graph.project.walk.map Occurrence.path).map Path.ids).Nodup := by
      rw [List.map_map]
      exact (map_ids_path_walk graph).symm ▸ h.ways_distinct
    exact hids.of_map
  · rw [mem_omitted_iff, contains_iff, h.mem_walk_ids]

/-- Records whose links form two cycles: one that a root leads into, and one that none does. -/
def tangled : List Record :=
  [{ id := "animals", label := "Animals" }, { id := "pets", label := "Pets" },
    { id := "dogs", label := "Dogs", broader := ["pets", "animals", "hounds"] },
    { id := "hounds", label := "Hounds", broader := ["dogs"] },
    { id := "north", label := "North", broader := ["south"] },
    { id := "south", label := "South", broader := ["north"] }]

/-- The forest of the tangled records cuts the one cycle and leaves out the other. -/
theorem project_unfolds_tangled :
    (ofRecords tangled).Built ∧ (ofRecords tangled).project.Unfolds (ofRecords tangled) ∧
      (ofRecords tangled).project.lines.map wayTo =
        [["animals"], ["animals", "dogs"], ["animals", "dogs", "hounds"], ["pets"],
          ["pets", "dogs"], ["pets", "dogs", "hounds"]] ∧
      (ofRecords tangled).project.omitted = ["north", "south"] :=
  ⟨Built.ofRecords tangled, project_unfolds (Built.ofRecords tangled), by decide +kernel,
    by decide +kernel⟩

end ConceptGraph

end Thesaurus

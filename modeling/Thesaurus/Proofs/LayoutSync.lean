import Thesaurus.Layout.Step
import Thesaurus.Proofs.Forces
import Thesaurus.Proofs.SnapshotShape
import Thesaurus.Proofs.WellLinked
import Thesaurus.Samples

/-!
# A layout that follows its graph

A layout is turned from graph to graph while it is stepped, pinned, resized and restyled. Whatever
comes in between, and whatever the forces are as long as they lose no body, it names, labels,
colors and joins its nodes as a new layout of the last graph would. It starts afresh only where the
ids or the links differ, and else leaves all coordinates, pins and the energy as they are; that no
color is refreshed then does no harm, as the colors depend on ids and links alone.
-/

namespace Thesaurus

/-- A list that is changed item by item shows what each item shows, whatever its place. -/
theorem map_mapIdx_of_eq {α β γ : Type} {change : Nat → α → β} {view : β → γ} {seen : α → γ}
    (h : ∀ index item, view (change index item) = seen item) (list : List α) :
    (list.mapIdx change).map view = list.map seen := by
  apply List.ext_getElem?
  intro index
  rw [List.getElem?_map, List.getElem?_map, List.getElem?_mapIdx, Option.map_map]
  exact congrArg (Option.map · list[index]?) (funext (h index))

/-- The color of a snapshot's node, beside what else is told of it. -/
def SnapshotNode.caption (node : SnapshotNode) : ConceptId × String × String :=
  (node.id, node.label, Layout.colorOf node.group)

namespace Snapshot

/-- What a layout of a snapshot tells of its nodes, in order. -/
def captions (snapshot : Snapshot) : List (ConceptId × String × String) :=
  snapshot.nodes.map SnapshotNode.caption

/-- The lines that a layout of a snapshot has, in order. -/
def laidLines (snapshot : Snapshot) : List LaidLine :=
  snapshot.lines.filterMap (Layout.startLine? (snapshot.nodes.map SnapshotNode.id))

end Snapshot

namespace Layout

/-- What a layout tells of a node, wherever it is and however it stands out. -/
def caption (node : LaidNode) : ConceptId × String × String := (node.id, node.label, node.color)

/-- What a layout tells of its nodes, in the order in which they are drawn. -/
def captions (layout : Layout) : List (ConceptId × String × String) := layout.nodes.map caption

/-- What a layout shows, wherever its nodes are and however they stand out. -/
def scene (layout : Layout) : Snapshot × List (ConceptId × String × String) × List LaidLine :=
  (layout.snapshot, layout.captions, layout.lines)

section Looks

variable {β : Type} {look : LaidNode → β} {forces : Forces} {layout : Layout}

/-- Whether a look at a node does not see its body. -/
def SeesNoBody (look : LaidNode → β) : Prop := ∀ node body, look { node with body } = look node

/-- Changing a body changes no look that does not see it. -/
theorem SeesNoBody.map_modifyBody (h : SeesNoBody look) (nodes : List LaidNode) (index : Nat)
    (change : Body → Body) : (modifyBody nodes index change).map look = nodes.map look := by
  unfold modifyBody
  apply List.ext_getElem?
  intro place
  rw [List.getElem?_map, List.getElem?_map, List.getElem?_modify, Option.map_eq_map, Option.map_map]
  congr 1
  funext node
  dsimp only [Function.comp]
  split
  · exact h node _
  · rfl

/-- Forces that keep the bodies change no look that does not see them. -/
theorem SeesNoBody.map_forced (h : SeesNoBody look) (hkeeps : forces.KeepsBodies)
    (layout : Layout) (dt : Float32) :
    (layout.forced forces dt).map look = layout.nodes.map look := by
  unfold forced
  generalize hbodies : forces.advance layout.settings layout.springs dt
    (layout.nodes.map LaidNode.body) = bodies
  have hlength : bodies.length = layout.nodes.length := by
    rw [← hbodies, hkeeps, List.length_map]
  have hfirst : (layout.nodes.zip bodies).map Prod.fst = layout.nodes :=
    List.map_fst_zip (Nat.le_of_eq hlength.symm)
  conv_rhs => rw [← hfirst]
  rw [List.map_map, ← List.map_uncurry_zip_eq_zipWith, List.map_map]
  refine List.map_congr_left fun pair _ => ?_
  exact h pair.1 pair.2

/-- Writing a position back changes no look that does not see the body. -/
theorem SeesNoBody.writeBack (h : SeesNoBody look) (node : LaidNode) (spot : Option Spot) :
    look (Layout.writeBack node spot) = look node := by
  unfold Layout.writeBack
  split
  · split
    · rfl
    · exact h node _
  · rfl

/-- A step changes no look at the nodes that does not see their bodies. -/
theorem SeesNoBody.map_step (h : SeesNoBody look) (hkeeps : forces.KeepsBodies)
    (layout : Layout) (dt : Float32) :
    (layout.step forces dt).nodes.map look = layout.nodes.map look := by
  unfold step
  split
  · rfl
  · dsimp only
    rw [map_mapIdx_of_eq fun index node => h.writeBack node _, h.map_forced hkeeps]

/-- Raising the energy changes no look at the nodes. -/
theorem map_reheat (look : LaidNode → β) (layout : Layout) (alpha : Float) :
    (layout.reheat alpha).nodes.map look = layout.nodes.map look := by
  unfold reheat
  split <;> rfl

/-- Holding a node changes no look that does not see its body. -/
theorem SeesNoBody.map_pin (h : SeesNoBody look) (layout : Layout) (id : ConceptId)
    (point : Point) : (layout.pin id point).nodes.map look = layout.nodes.map look := by
  unfold pin
  split
  · rfl
  · rw [map_reheat]
    dsimp only
    rw [h.map_modifyBody]

/-- Letting go of a node changes no look that does not see its body. -/
theorem SeesNoBody.map_unpin (h : SeesNoBody look) (layout : Layout) (id : ConceptId) :
    (layout.unpin id).nodes.map look = layout.nodes.map look := by
  unfold unpin
  split
  · rfl
  · dsimp only
    split
    · rw [map_reheat]
      dsimp only
      rw [h.map_modifyBody]
    · dsimp only
      rw [h.map_modifyBody]

end Looks

section Scene

variable {forces : Forces} {layout : Layout}

/-- What is told of a node is told without a look at its body. -/
theorem caption_seesNoBody : SeesNoBody caption := fun _ _ => rfl

/-- What tells the same of its nodes, and lays out the same with the same lines, shows the same. -/
theorem scene_congr {other : Layout} (hcaptions : other.captions = layout.captions)
    (hrest : other.snapshot = layout.snapshot ∧ other.lines = layout.lines) :
    other.scene = layout.scene := by
  unfold scene
  rw [hcaptions, hrest.1, hrest.2]

/-- A step shows the same. -/
theorem scene_step (hkeeps : forces.KeepsBodies) (layout : Layout) (dt : Float32) :
    (layout.step forces dt).scene = layout.scene := by
  refine scene_congr (caption_seesNoBody.map_step hkeeps layout dt) ?_
  unfold step
  split <;> exact ⟨rfl, rfl⟩

/-- Raising the energy shows the same. -/
theorem scene_reheat (layout : Layout) (alpha : Float) :
    (layout.reheat alpha).scene = layout.scene := by
  unfold reheat
  split <;> rfl

/-- Holding a node shows the same. -/
theorem scene_pin (layout : Layout) (id : ConceptId) (point : Point) :
    (layout.pin id point).scene = layout.scene := by
  refine scene_congr (caption_seesNoBody.map_pin layout id point) ?_
  unfold pin reheat
  split
  · exact ⟨rfl, rfl⟩
  · dsimp only
    split <;> exact ⟨rfl, rfl⟩

/-- Letting go of a node shows the same. -/
theorem scene_unpin (layout : Layout) (id : ConceptId) :
    (layout.unpin id).scene = layout.scene := by
  refine scene_congr (caption_seesNoBody.map_unpin layout id) ?_
  unfold unpin reheat
  split
  · exact ⟨rfl, rfl⟩
  · dsimp only
    split
    · split <;> exact ⟨rfl, rfl⟩
    · exact ⟨rfl, rfl⟩

/-- Another viewport shows the same. -/
theorem scene_resize (layout : Layout) (width height : Float) :
    (layout.resize width height).scene = layout.scene := by
  unfold resize
  rw [scene_reheat]
  rfl

/-- Letting nodes stand out shows the same. -/
theorem scene_emphasize (layout : Layout) (selected : Option ConceptId) (hits : Option TextSet) :
    (layout.emphasize selected hits).scene = layout.scene := by
  have hkept : (layout.nodes.mapIdx fun index node => { node with
        emphasis := emphasisOf layout.lines (selected.bind layout.index?) hits index node.id }).map
      caption = layout.nodes.map caption := by
    apply map_mapIdx_of_eq
    intro index node
    rfl
  unfold emphasize scene captions
  dsimp only
  rw [hkept]

end Scene

/-- What may happen to a layout. -/
inductive Event where
  /-- Time passes. -/
  | step (dt : Float32)
  /-- A node is put somewhere and held there. -/
  | pin (id : ConceptId) (point : Point)
  /-- A node is let go of. -/
  | unpin (id : ConceptId)
  /-- The viewport changes. -/
  | resize (width height : Float)
  /-- The selection or the search changes. -/
  | emphasize (selected : Option ConceptId) (hits : Option TextSet)
  /-- The energy is raised. -/
  | reheat (alpha : Float)
  /-- All energy is taken. -/
  | stop
  /-- Another graph is to be shown. -/
  | turnTo (graph : ConceptGraph)

/-- The layout after an event. -/
def handle (forces : Forces) (layout : Layout) : Event → Layout
  | .step dt => layout.step forces dt
  | .pin id point => layout.pin id point
  | .unpin id => layout.unpin id
  | .resize width height => layout.resize width height
  | .emphasize selected hits => layout.emphasize selected hits
  | .reheat alpha => layout.reheat alpha
  | .stop => layout.stop
  | .turnTo graph => (layout.turnTo (Snapshot.ofGraph graph)).2

/-- The layout after some events. -/
def handleAll (forces : Forces) (layout : Layout) (events : List Event) : Layout :=
  events.foldl (handle forces) layout

/-- The graph that is to be shown after an event. -/
def Event.graph (shown : ConceptGraph) : Event → ConceptGraph
  | .turnTo graph => graph
  | _ => shown

/-- The graph that is to be shown after some events: the last one turned to. -/
def lastGraph (shown : ConceptGraph) (events : List Event) : ConceptGraph :=
  events.foldl Event.graph shown

/-- A layout that shows a graph as a new layout of the graph would. -/
structure Shows (layout : Layout) (graph : ConceptGraph) : Prop where
  /-- It lays out the snapshot of the graph. -/
  snapshot_eq : layout.snapshot = Snapshot.ofGraph graph
  /-- It names, labels and colors its nodes as the snapshot has them. -/
  captions_eq : layout.captions = (Snapshot.ofGraph graph).captions
  /-- It joins them as the snapshot does. -/
  lines_eq : layout.lines = (Snapshot.ofGraph graph).laidLines

/-- What a layout leaves alone when it only takes over labels: where the nodes are, which of them
are held, the energy, how nodes stand out, and how often the simulation started afresh. -/
structure Undisturbed (before after : Layout) : Prop where
  /-- Each body is where it was, and as fast. -/
  bodies_eq : after.nodes.map LaidNode.body = before.nodes.map LaidNode.body
  /-- Each node was last seen where it was. -/
  positions_eq : after.positions = before.positions
  /-- The same nodes are held. -/
  pinned_eq : after.pinned = before.pinned
  /-- The energy is the same. -/
  alpha_eq : after.alpha = before.alpha
  /-- The nodes stand out as before. -/
  emphasis_eq : after.nodes.map LaidNode.emphasis = before.nodes.map LaidNode.emphasis
  /-- The simulation did not start afresh. -/
  restarts_eq : after.restarts = before.restarts

section Shows

variable {forces : Forces} {layout : Layout} {graph next : ConceptGraph}

/-- What shows the same shows the same graph. -/
theorem Shows.congr {other : Layout} (h : layout.Shows graph) (hs : other.scene = layout.scene) :
    other.Shows graph := by
  unfold scene at hs
  obtain ⟨hsnapshot, hrest⟩ := Prod.mk.inj hs
  obtain ⟨hcaptions, hlines⟩ := Prod.mk.inj hrest
  exact ⟨hsnapshot.trans h.snapshot_eq, hcaptions.trans h.captions_eq, hlines.trans h.lines_eq⟩

/-- A layout that shows a graph has a node for each concept, in order. -/
theorem Shows.ids_eq (h : layout.Shows graph) : layout.nodes.map LaidNode.id = graph.ids := by
  have hcaptions := congrArg (List.map Prod.fst) h.captions_eq
  unfold captions Snapshot.captions at hcaptions
  rw [List.map_map, List.map_map] at hcaptions
  exact hcaptions.trans (Snapshot.map_id_nodes graph)

/-- A simulation that starts shows its graph, wherever the nodes were before. -/
theorem shows_start (graph : ConceptGraph) (width height : Float) (settings : LayoutSettings)
    (previous : ConceptId → Option Point) :
    (start (Snapshot.ofGraph graph) width height settings previous).Shows graph where
  snapshot_eq := rfl
  captions_eq := by
    unfold captions start Snapshot.captions
    dsimp only
    apply map_mapIdx_of_eq
    intro index node
    rfl
  lines_eq := rfl

/-- A node's label is looked up by its id, if no other node has the id. -/
theorem newLabel?_of_mem {snapshot : Snapshot} {node : SnapshotNode}
    (hd : (snapshot.nodes.map SnapshotNode.id).Nodup) (hn : node ∈ snapshot.nodes) :
    newLabel? snapshot node.id = some node.label := by
  have hsome : (snapshot.nodes.reverse.find? (·.id = node.id)).isSome := by
    rw [List.find?_isSome]
    exact ⟨node, List.mem_reverse.mpr hn, decide_eq_true rfl⟩
  obtain ⟨found, hfound⟩ := Option.isSome_iff_exists.mp hsome
  have hid : found.id = node.id := by
    simpa only [decide_eq_true_eq] using List.find?_some hfound
  have hmem : found ∈ snapshot.nodes := List.mem_reverse.mp (List.mem_of_find?_eq_some hfound)
  have hsame : found = node := List.inj_on_of_nodup_map hd hmem hn hid
  unfold newLabel?
  rw [hfound, Option.map_some, hsame]

/-- Where ids are distinct, what is told of the nodes is found from the ids: the label by look-up,
the color by the distance from the roots. -/
theorem captions_ofGraph (hd : graph.ids.Nodup) :
    (Snapshot.ofGraph graph).captions = graph.ids.map fun id =>
      (id, (newLabel? (Snapshot.ofGraph graph) id).getD "",
        colorOf ((Snapshot.rootDistances graph).lookup id)) := by
  have hnodes : ((Snapshot.ofGraph graph).nodes.map SnapshotNode.id).Nodup := by
    rw [Snapshot.map_id_nodes]
    exact hd
  unfold Snapshot.captions
  rw [← Snapshot.map_id_nodes graph, List.map_map]
  refine List.map_congr_left fun node hn => ?_
  have hgroup : node.group = (Snapshot.rootDistances graph).lookup node.id := by
    obtain ⟨concept, _, rfl⟩ := List.mem_map.mp hn
    rfl
  dsimp only [Function.comp, SnapshotNode.caption]
  rw [newLabel?_of_mem hnodes hn, hgroup, Option.getD_some]

/-- Snapshots of the same shape have the same lines to be laid out. -/
theorem laidLines_congr (h : (Snapshot.ofGraph graph).sameShape (Snapshot.ofGraph next) = true) :
    (Snapshot.ofGraph graph).laidLines = (Snapshot.ofGraph next).laidLines := by
  unfold Snapshot.sameShape at h
  rw [Bool.and_eq_true, beq_iff_eq, beq_iff_eq] at h
  unfold Snapshot.laidLines
  rw [h.1, h.2]

/-- Each concept of a graph has a label in the snapshot of the graph. -/
theorem newLabel?_isSome {id : ConceptId} (h : id ∈ graph.ids) :
    (newLabel? (Snapshot.ofGraph graph) id).isSome := by
  rw [← Snapshot.map_id_nodes] at h
  obtain ⟨node, hn, hid⟩ := List.mem_map.mp h
  unfold newLabel?
  rw [Option.isSome_map, List.find?_isSome]
  exact ⟨node, List.mem_reverse.mpr hn, decide_eq_true hid⟩

/-- What is told of the nodes of a graph is also told with the labels of one graph and the colors
of another, if both have the same ids and the same broader links. -/
theorem relabel_captions (hg : graph.ids.Nodup) (hids : graph.ids = next.ids)
    (hb : graph.broader = next.broader) :
    ((Snapshot.ofGraph graph).captions.map fun told =>
        (told.1, (newLabel? (Snapshot.ofGraph next) told.1).getD told.2.1, told.2.2)) =
      (Snapshot.ofGraph next).captions := by
  have hnext : next.ids.Nodup := by
    rw [← hids]
    exact hg
  rw [captions_ofGraph hg, captions_ofGraph hnext, ← Snapshot.rootDistances_congr hids hb,
    ← hids, List.map_map]
  refine List.map_congr_left fun id hid => ?_
  rw [hids] at hid
  obtain ⟨label, hlabel⟩ := Option.isSome_iff_exists.mp (newLabel?_isSome hid)
  dsimp only [Function.comp]
  rw [hlabel, Option.getD_some, Option.getD_some]

/-- Turned to another graph, a layout of a graph with distinct ids shows the other one. -/
theorem Shows.turnTo (h : layout.Shows graph) (hg : graph.ids.Nodup) (next : ConceptGraph) :
    (layout.turnTo (Snapshot.ofGraph next)).2.Shows next := by
  cases hanswer : (layout.turnTo (Snapshot.ofGraph next)).1 with
  | false =>
    have hshape := turnTo_goes_on_iff.mp hanswer
    rw [h.snapshot_eq] at hshape
    obtain ⟨hids, hb, _⟩ := (Snapshot.sameShape_ofGraph_iff graph next).mp hshape
    rw [turnTo_of_goes_on hanswer]
    constructor
    · rfl
    · -- labels are looked up anew and colors are kept, which are those of both graphs
      rw [← relabel_captions hg hids hb, ← h.captions_eq]
      unfold captions
      rw [List.map_map, List.map_map]
      rfl
    · exact h.lines_eq.trans (laidLines_congr hshape)
  | true =>
    rw [turnTo_of_afresh hanswer]
    exact (shows_start next _ _ _ _).congr rfl

/-- After any event, a layout of a graph with distinct ids shows the graph that it should. -/
theorem Shows.handle (h : layout.Shows graph) (hkeeps : forces.KeepsBodies) (hg : graph.ids.Nodup)
    (event : Event) : (layout.handle forces event).Shows (event.graph graph) := by
  cases event with
  | step dt => exact h.congr (scene_step hkeeps layout dt)
  | pin id point => exact h.congr (scene_pin layout id point)
  | unpin id => exact h.congr (scene_unpin layout id)
  | resize width height => exact h.congr (scene_resize layout width height)
  | emphasize selected hits => exact h.congr (scene_emphasize layout selected hits)
  | reheat alpha => exact h.congr (scene_reheat layout alpha)
  | stop => exact h.congr rfl
  | turnTo next => exact h.turnTo hg next

/-- After any events, a layout shows the last graph, if ids are distinct in each graph. -/
theorem Shows.handleAll (h : layout.Shows graph) (hkeeps : forces.KeepsBodies)
    (hg : graph.ids.Nodup) {events : List Event}
    (hnext : ∀ next, Event.turnTo next ∈ events → next.ids.Nodup) :
    (layout.handleAll forces events).Shows (lastGraph graph events) := by
  induction events generalizing layout graph with
  | nil => exact h
  | cons event rest ih =>
    have hids : (event.graph graph).ids.Nodup := by
      cases event with
      | turnTo next => exact hnext next List.mem_cons_self
      | _ => exact hg
    exact ih (h.handle hkeeps hg event) hids
      fun next mem => hnext next (List.mem_cons_of_mem event mem)

/-- A layout that does not start afresh leaves everything but the labels alone. -/
theorem undisturbed_turnTo {snapshot : Snapshot} (h : (layout.turnTo snapshot).1 = false) :
    layout.Undisturbed (layout.turnTo snapshot).2 := by
  rw [turnTo_of_goes_on h]
  constructor
  · rw [List.map_map]
    rfl
  · rfl
  · rfl
  · rfl
  · rw [List.map_map]
    rfl
  · rfl

end Shows

/-- What a layout is to be like that has come to show a graph: to the eye a new layout of the
graph, which starts afresh for another graph only if its shape is another one. -/
structure Follows (layout : Layout) (graph : ConceptGraph) : Prop where
  /-- Ids, labels and colors of the nodes are those of a new layout of the graph, in order. -/
  captions_eq : ∀ width height settings,
    layout.captions = (ofSnapshot (Snapshot.ofGraph graph) width height settings).captions
  /-- The lines are those of a new layout of the graph, in order. -/
  lines_eq : ∀ width height settings,
    layout.lines = (ofSnapshot (Snapshot.ofGraph graph) width height settings).lines
  /-- It goes on for a graph exactly if the snapshot of the graph has the shape of the last one. -/
  goes_on_iff : ∀ next, (layout.turnTo (Snapshot.ofGraph next)).1 = false ↔
    (Snapshot.ofGraph graph).sameShape (Snapshot.ofGraph next) = true
  /-- That is so exactly if both graphs have the same ids and the same links, in order. -/
  same_shape_iff : ∀ next, (Snapshot.ofGraph graph).sameShape (Snapshot.ofGraph next) = true ↔
    graph.ids = next.ids ∧ graph.broader = next.broader ∧ graph.related = next.related
  /-- If it goes on, it leaves everything but the labels alone. -/
  undisturbed : ∀ next, (layout.turnTo (Snapshot.ofGraph next)).1 = false →
    layout.Undisturbed (layout.turnTo (Snapshot.ofGraph next)).2
  /-- If it goes on, each concept is as far from the roots in either graph. -/
  distances_eq : ∀ next, (layout.turnTo (Snapshot.ofGraph next)).1 = false →
    Snapshot.rootDistances graph = Snapshot.rootDistances next

/-- A layout that shows a graph goes on exactly for graphs whose snapshot has the same shape. -/
theorem Shows.goes_on_iff {layout : Layout} {graph : ConceptGraph} (h : layout.Shows graph)
    (next : ConceptGraph) : (layout.turnTo (Snapshot.ofGraph next)).1 = false ↔
      (Snapshot.ofGraph graph).sameShape (Snapshot.ofGraph next) = true := by
  rw [turnTo_goes_on_iff, h.snapshot_eq]

/-- A layout that shows a graph follows it. -/
theorem Shows.follows {layout : Layout} {graph : ConceptGraph} (h : layout.Shows graph) :
    layout.Follows graph where
  captions_eq width height settings :=
    h.captions_eq.trans (shows_start graph width height settings fun _ => none).captions_eq.symm
  lines_eq width height settings :=
    h.lines_eq.trans (shows_start graph width height settings fun _ => none).lines_eq.symm
  goes_on_iff := h.goes_on_iff
  same_shape_iff := Snapshot.sameShape_ofGraph_iff graph
  undisturbed _ := undisturbed_turnTo
  distances_eq next hgoes := by
    have hshape := (h.goes_on_iff next).mp hgoes
    obtain ⟨hids, hb, _⟩ := (Snapshot.sameShape_ofGraph_iff graph next).mp hshape
    exact Snapshot.rootDistances_congr hids hb

/-- However a layout is stepped, pinned, resized and restyled while it is turned from graph to
graph, it follows: it looks as a new layout of the last graph would, and goes on undisturbed as
long as the shape of the graphs does not change. Nothing is asked of the forces but that they keep
the bodies. -/
theorem follows_last_graph (forces : Forces) (hkeeps : forces.KeepsBodies) (first : ConceptGraph)
    (hfirst : first.Built) (width height : Float) (settings : LayoutSettings) (events : List Event)
    (hbuilt : ∀ next, Event.turnTo next ∈ events → next.Built) :
    ((ofSnapshot (Snapshot.ofGraph first) width height settings).handleAll forces events).Follows
      (lastGraph first events) := by
  have hstart : (ofSnapshot (Snapshot.ofGraph first) width height settings).Shows first :=
    shows_start first width height settings fun _ => none
  have hnext : ∀ next, Event.turnTo next ∈ events → next.ids.Nodup :=
    fun next mem => (hbuilt next mem).wellLinked.ids_distinct
  exact (hstart.handleAll hkeeps hfirst.wellLinked.ids_distinct hnext).follows

/-- The dogs are held, time passes, the parrots are taken out, the viewport changes, and then the
materials come. -/
def toMaterials : List Event :=
  [.pin "dogs" ⟨20, 30⟩, .step 0.5,
    .turnTo ((ConceptGraph.ofRecords Samples.animals).remove "parrots").2, .resize 320 200,
    .turnTo (ConceptGraph.ofRecords Samples.materials)]

/-- A layout of the animals that came to the materials this way has their captions and lines. -/
theorem follows_materials :
    let animals := ConceptGraph.ofRecords Samples.animals
    let last := (ofSnapshot (Snapshot.ofGraph animals) 640 480 {}).handleAll Simulation.forces
      toMaterials
    Simulation.forces.KeepsBodies ∧ animals.Built ∧
      (∀ next, Event.turnTo next ∈ toMaterials → next.Built) ∧
      last.Follows (ConceptGraph.ofRecords Samples.materials) ∧
      last.captions =
        [("materials", "Materials", "#1f77b4"), ("metals", "Metals", "#ff7f0e"),
          ("alloys", "Alloys", "#2ca02c"), ("steel", "Steel", "#d62728"),
          ("iron", "Iron", "#2ca02c"), ("polymers", "Polymers", "#ff7f0e")] ∧
      last.lines =
        [⟨1, 0, .broader⟩, ⟨2, 1, .broader⟩, ⟨3, 2, .broader⟩, ⟨4, 1, .broader⟩, ⟨5, 0, .broader⟩,
          ⟨3, 4, .related⟩] := by
  have hanimals := ConceptGraph.Built.ofRecords Samples.animals
  have hbuilt : ∀ next, Event.turnTo next ∈ toMaterials → next.Built := by
    intro next mem
    simp only [toMaterials, List.mem_cons, List.not_mem_nil, reduceCtorEq, Event.turnTo.injEq,
      false_or, or_false] at mem
    rcases mem with rfl | rfl
    · exact hanimals.remove "parrots"
    · exact .ofRecords Samples.materials
  have hfollows := follows_last_graph Simulation.forces Simulation.forces_keepsBodies _ hanimals
    640 480 {} toMaterials hbuilt
  refine ⟨Simulation.forces_keepsBodies, hanimals, hbuilt, hfollows, ?_, ?_⟩
  · refine (hfollows.captions_eq 640 480 {}).trans ?_
    decide +kernel
  · refine (hfollows.lines_eq 640 480 {}).trans ?_
    decide +kernel

end Layout

end Thesaurus

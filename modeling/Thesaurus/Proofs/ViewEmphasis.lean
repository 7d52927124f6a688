import Thesaurus.Page.GraphView
import Thesaurus.Proofs.HeldNodes
import Thesaurus.Proofs.WellRelated

/-!
# How the nodes of the graph view stand out

A graph view classifies its nodes by its own lines, and not each time that it takes over a graph:
only when the layout starts afresh, or when the selection or the hits have changed. However these
come and go, and whatever frames, handlers and windows do in between, once the view has followed
its inputs each node stands out as the last graph, selection and hits alone demand. A concept's
lines lead to its neighbors in the graph, so the classes need no memory of how they came about.
-/

namespace Thesaurus

/-- The two ends of a line, in no order. -/
def SnapshotLine.ends (line : SnapshotLine) : Sym2 ConceptId := s(line.source, line.target)

/-- The places of the two ends of a line, in no order. -/
def LaidLine.ends (line : LaidLine) : Sym2 Nat := s(line.source, line.target)

namespace ConceptGraph

variable {graph other : ConceptGraph}

/-- How a concept is to stand out by what is selected and what the search hits. -/
def emphasisOf (graph : ConceptGraph) (selected : Option ConceptId) (hits : Option TextSet)
    (id : ConceptId) : Emphasis :=
  if selected = some id then .selected
  else if selected.any fun one => graph.contains one && decide (id ∈ graph.neighborsOf one) then
    .neighbor
  else if hits.any fun set => decide (id ∈ set) then .hit
  else if selected.any graph.contains || hits.isSome then .dimmed
  else .normal

/-- The neighbors of a concept are those that a line of the snapshot joins it to. -/
theorem mem_neighborsOf_iff {id one : ConceptId} :
    id ∈ graph.neighborsOf one ↔ s(one, id) ∈ (Snapshot.ofGraph graph).lines.map
      SnapshotLine.ends := by
  have hb : s(one, id) ∈ (graph.broader.map Snapshot.broaderLine).map SnapshotLine.ends ↔
      ⟨one, id⟩ ∈ graph.broader ∨ ⟨id, one⟩ ∈ graph.broader := by
    rw [List.map_map, List.mem_map]
    constructor
    · rintro ⟨⟨child, parent⟩, mem, hends⟩
      rcases Sym2.eq_iff.mp hends with ⟨rfl, rfl⟩ | ⟨rfl, rfl⟩
      · exact Or.inl mem
      · exact Or.inr mem
    · rintro (mem | mem)
      · exact ⟨_, mem, rfl⟩
      · exact ⟨_, mem, Sym2.eq_swap⟩
  have hr : s(one, id) ∈ (graph.related.map Snapshot.relatedLine).map SnapshotLine.ends ↔
      s(one, id) ∈ graph.related.map RelatedLink.pair := by
    rw [List.map_map]
    rfl
  rw [Snapshot.lines_ofGraph, List.map_append, List.mem_append, hb, hr]
  unfold neighborsOf
  simp only [TextSet.mem_ofList, List.mem_append, mem_parentsOf, mem_childrenOf, mem_relatedOf]

/-- Graphs with the same ids and the same links let their concepts stand out the same. -/
theorem emphasisOf_congr
    (h : (Snapshot.ofGraph graph).sameShape (Snapshot.ofGraph other) = true) :
    graph.emphasisOf = other.emphasisOf := by
  obtain ⟨hids, hb, hr⟩ := (Snapshot.sameShape_ofGraph_iff graph other).mp h
  have hcontains : graph.contains = other.contains := by
    funext id
    rw [Bool.eq_iff_iff, contains_iff, contains_iff, hids]
  have hneighbors : graph.neighborsOf = other.neighborsOf := by
    unfold neighborsOf parentsOf childrenOf relatedOf
    rw [hb, hr]
  unfold emphasisOf
  rw [hcontains, hneighbors]

end ConceptGraph

namespace Layout

/-- The only place of an item is its last one. -/
theorem lastIndex?_eq_some_iff {α : Type} [DecidableEq α] {item : α} {list : List α} {index : Nat}
    (hd : list.Nodup) : lastIndex? item list = some index ↔ list[index]? = some item := by
  refine ⟨getElem?_of_lastIndex?, fun h => ?_⟩
  have hmem : item ∈ list := List.mem_of_getElem? h
  obtain ⟨place, hplace⟩ := Option.isSome_iff_exists.mp (lastIndex?_isSome_iff.mpr hmem)
  obtain ⟨hbound, _⟩ := List.getElem?_eq_some_iff.mp h
  have hsame : list[index]? = list[place]? := h.trans (getElem?_of_lastIndex? hplace).symm
  rw [hplace, (List.getElem?_inj hbound hd).mp hsame]

/-- The places joined to a place are the other ends of the lines there. -/
theorem mem_joinedTo {lines : List LaidLine} {place index : Nat} :
    index ∈ joinedTo lines place ↔ s(place, index) ∈ lines.map LaidLine.ends := by
  unfold joinedTo
  rw [List.mem_filterMap, List.mem_map]
  exact exists_congr fun line => and_congr_right fun _ => otherEnd_eq_some_iff

/-- A line is laid out exactly if both its ends have places, and then between these. -/
theorem startLine?_eq_some_iff {ids : List ConceptId} {line : SnapshotLine} {laid : LaidLine} :
    startLine? ids line = some laid ↔
      lastIndex? line.source ids = some laid.source ∧
        lastIndex? line.target ids = some laid.target ∧ line.kind = laid.kind := by
  unfold startLine?
  cases lastIndex? line.source ids with
  | none => exact iff_of_false nofun fun h => nomatch h.1
  | some source =>
    cases lastIndex? line.target ids with
    | none => exact iff_of_false nofun fun h => nomatch h.2.1
    | some target =>
      show some (LaidLine.mk source target line.kind) = some laid ↔ _
      cases laid
      simp only [Option.some.injEq, LaidLine.mk.injEq]

section Emphasis

variable {graph : ConceptGraph} {layout : Layout}

/-- The lines between two places are those between the concepts there. -/
theorem mem_ends_laidLines {one id : ConceptId} {place index : Nat}
    (hone : lastIndex? one graph.ids = some place) (hid : lastIndex? id graph.ids = some index) :
    s(place, index) ∈ (Snapshot.ofGraph graph).laidLines.map LaidLine.ends ↔
      s(one, id) ∈ (Snapshot.ofGraph graph).lines.map SnapshotLine.ends := by
  unfold Snapshot.laidLines
  simp only [List.mem_map, List.mem_filterMap, Snapshot.map_id_nodes, startLine?_eq_some_iff]
  -- what has the place of a concept is that concept
  have hunique : ∀ {other concept : ConceptId} {there : Nat},
      lastIndex? other graph.ids = some there → lastIndex? concept graph.ids = some there →
        other = concept := by
    intro other concept there hother hconcept
    exact Option.some.inj
      ((getElem?_of_lastIndex? hother).symm.trans (getElem?_of_lastIndex? hconcept))
  constructor
  · rintro ⟨laid, ⟨line, hline, hsource, htarget, _⟩, hends⟩
    refine ⟨line, hline, ?_⟩
    rcases Sym2.eq_iff.mp hends with ⟨hplace, hindex⟩ | ⟨hindex, hplace⟩
    · rw [hplace] at hsource
      rw [hindex] at htarget
      exact Sym2.eq_iff.mpr (Or.inl ⟨hunique hsource hone, hunique htarget hid⟩)
    · rw [hindex] at hsource
      rw [hplace] at htarget
      exact Sym2.eq_iff.mpr (Or.inr ⟨hunique hsource hid, hunique htarget hone⟩)
  · rintro ⟨line, hline, hends⟩
    rcases Sym2.eq_iff.mp hends with ⟨hsource, htarget⟩ | ⟨hsource, htarget⟩
    · refine ⟨⟨place, index, line.kind⟩, ⟨line, hline, ?_, ?_, rfl⟩, rfl⟩
      · rw [hsource]
        exact hone
      · rw [htarget]
        exact hid
    · refine ⟨⟨index, place, line.kind⟩, ⟨line, hline, ?_, ?_, rfl⟩, Sym2.eq_swap⟩
      · rw [hsource]
        exact hid
      · rw [htarget]
        exact hone

/-- A node stands out by its lines as its concept is to stand out by its neighbors. -/
theorem emphasisOf_laidLines (hd : graph.ids.Nodup) {index : Nat} {id : ConceptId}
    (hid : graph.ids[index]? = some id) (selected : Option ConceptId) (hits : Option TextSet) :
    emphasisOf (Snapshot.ofGraph graph).laidLines
        (selected.bind fun one => lastIndex? one graph.ids) hits index id =
      graph.emphasisOf selected hits id := by
  have hindex : lastIndex? id graph.ids = some index := (lastIndex?_eq_some_iff hd).mpr hid
  -- each condition on places is one on concepts, as no id has two places
  generalize hplace : (selected.bind fun one => lastIndex? one graph.ids) = place?
  have hsame : place? = some index ↔ selected = some id := by
    rw [← hplace, Option.bind_eq_some_iff]
    constructor
    · rintro ⟨one, rfl, hone⟩
      rw [lastIndex?_eq_some_iff hd, hid] at hone
      exact hone.symm
    · exact fun h => ⟨id, h, hindex⟩
  have hfocus : place?.isSome = selected.any graph.contains := by
    rw [← hplace]
    cases selected with
    | none => rfl
    | some one =>
      rw [Option.bind_some, Option.any_some, Bool.eq_iff_iff, lastIndex?_isSome_iff,
        ConceptGraph.contains_iff]
  have hjoined : (place?.map (joinedTo (Snapshot.ofGraph graph).laidLines)).any
        (·.contains index) =
      selected.any fun one => graph.contains one && decide (id ∈ graph.neighborsOf one) := by
    cases selected with
    | none =>
      rw [← hplace]
      rfl
    | some one =>
      rw [Option.bind_some] at hplace
      rw [Option.any_some] at hfocus ⊢
      cases place? with
      | none =>
        rw [← hfocus]
        rfl
      | some place =>
        rw [← hfocus, Option.map_some, Option.any_some, Option.isSome_some, Bool.true_and,
          Bool.eq_iff_iff, List.contains_iff_mem, decide_eq_true_iff, mem_joinedTo,
          mem_ends_laidLines hplace hindex, ConceptGraph.mem_neighborsOf_iff]
  unfold emphasisOf ConceptGraph.emphasisOf
  simp only [hsame, hjoined, hfocus]

/-- How the nodes of a layout stand out, in order. -/
def emphases (layout : Layout) : List Emphasis := layout.nodes.map LaidNode.emphasis

/-- What is seen of a layout, wherever its nodes are: what it shows, and how nodes stand out. -/
def guise (layout : Layout) :
    (Snapshot × List (ConceptId × String × String) × List LaidLine) × List Emphasis :=
  (layout.scene, layout.emphases)

/-- A layout that is emphasized lets each node stand out as its graph demands. -/
theorem Shows.emphases_emphasize (h : layout.Shows graph) (hd : graph.ids.Nodup)
    (selected : Option ConceptId) (hits : Option TextSet) :
    (layout.emphasize selected hits).emphases =
      graph.ids.map (graph.emphasisOf selected hits) := by
  have hplaces : layout.index? = fun one => lastIndex? one graph.ids := by
    funext one
    unfold index?
    rw [h.ids_eq]
  unfold emphases emphasize
  dsimp only
  rw [h.lines_eq, hplaces, ← h.ids_eq, List.map_map]
  apply List.ext_getElem?
  intro index
  rw [List.getElem?_map, List.getElem?_map, List.getElem?_mapIdx, Option.map_map]
  cases hnode : layout.nodes[index]? with
  | none => rfl
  | some node =>
    have hid : graph.ids[index]? = some node.id := by
      rw [← h.ids_eq, List.getElem?_map, hnode, Option.map_some]
    dsimp only [Option.map_some, Function.comp]
    rw [h.ids_eq, emphasisOf_laidLines hd hid]

/-- How a node stands out is told without a look at its body. -/
theorem emphasis_seesNoBody : SeesNoBody LaidNode.emphasis := fun _ _ => rfl

/-- A step is not seen but in where the nodes are. -/
theorem guise_step {forces : Forces} (hkeeps : forces.KeepsBodies) (layout : Layout)
    (dt : Float32) : (layout.step forces dt).guise = layout.guise :=
  Prod.ext (scene_step hkeeps layout dt) (emphasis_seesNoBody.map_step hkeeps layout dt)

/-- Neither is that a node is held. -/
theorem guise_pin (layout : Layout) (id : ConceptId) (point : Point) :
    (layout.pin id point).guise = layout.guise :=
  Prod.ext (scene_pin layout id point) (emphasis_seesNoBody.map_pin layout id point)

/-- Neither is that a node is let go of. -/
theorem guise_unpin (layout : Layout) (id : ConceptId) :
    (layout.unpin id).guise = layout.guise :=
  Prod.ext (scene_unpin layout id) (emphasis_seesNoBody.map_unpin layout id)

/-- Neither is another viewport. -/
theorem guise_resize (layout : Layout) (width height : Float) :
    (layout.resize width height).guise = layout.guise :=
  Prod.ext (scene_resize layout width height) (map_reheat LaidNode.emphasis _ _)

end Emphasis

end Layout

namespace Canvas

/-- Whether a change of a canvas is seen only in where its nodes are. -/
def KeepsGuise (change : Canvas → Canvas) : Prop :=
  ∀ canvas, (change canvas).layout.guise = canvas.layout.guise

/-- Pressing the pointer holds a node at most. -/
theorem keepsGuise_press (point : Point) : KeepsGuise (·.press point) := by
  intro canvas
  dsimp only
  unfold press
  split
  · exact Layout.guise_pin _ _ _
  · rfl

/-- Moving the pointer moves the node that it holds, the plane, or nothing. -/
theorem keepsGuise_pointerMove (point : Point) : KeepsGuise (·.pointerMove point) := by
  intro canvas
  dsimp only
  unfold pointerMove
  split
  · exact Layout.guise_pin _ _ _
  · split <;> rfl

/-- Releasing the pointer lets go of a node at most. -/
theorem keepsGuise_release : KeepsGuise release := by
  intro canvas
  show canvas.dropNode.guise = canvas.layout.guise
  unfold dropNode
  split
  · exact Layout.guise_unpin _ _
  · rfl

/-- So does leaving with it. -/
theorem keepsGuise_leave : KeepsGuise leave := keepsGuise_release

/-- Turning the wheel moves the plane only. -/
theorem keepsGuise_zoom (point : Point) (closer : Bool) : KeepsGuise (·.zoom point closer) :=
  fun _ => rfl

/-- Another viewport is not seen. -/
theorem keepsGuise_resize (width height : Float) : KeepsGuise (·.resize width height) :=
  fun canvas => Layout.guise_resize canvas.layout width height

end Canvas

namespace Page

/-- What a graph view is fed with. -/
structure GraphFeed where
  /-- The graph. -/
  graph : ConceptGraph
  /-- The selected concept. -/
  selected : Option ConceptId := none
  /-- What the search hits, while there is a search. -/
  hits : Option TextSet := none

namespace GraphFeed

/-- What the view is to show. -/
def input (feed : GraphFeed) : GraphInput :=
  { snapshot := Snapshot.ofGraph feed.graph
    selected := feed.selected
    hits := feed.hits }

/-- How a concept is to stand out. -/
def emphasisOf (feed : GraphFeed) : ConceptId → Emphasis :=
  feed.graph.emphasisOf feed.selected feed.hits

end GraphFeed

namespace GraphView

variable {view : GraphView} {graph : ConceptGraph} {feed : GraphFeed}

/-- What is seen of the layout, if the view has started. -/
def guise? (view : GraphView) := view.canvas.map fun canvas => canvas.layout.guise

/-- Whether a view shows a graph, if it has started. -/
def Shows (view : GraphView) (graph : ConceptGraph) : Prop :=
  ∀ canvas, view.canvas = some canvas → canvas.layout.Shows graph

/-- Whether a view, if it has started, shows a graph and lets its nodes stand out as they are to
by a selection and some hits. -/
structure Presents (view : GraphView) (feed : GraphFeed) : Prop where
  /-- It shows the graph. -/
  shows : view.Shows feed.graph
  /-- Each node stands out as its concept is to. -/
  emphases_eq : ∀ canvas, view.canvas = some canvas →
    canvas.layout.emphases = feed.graph.ids.map feed.emphasisOf

/-- A change of the canvas that is not seen is not seen in the view. -/
theorem guise?_onCanvas {change : Canvas → Canvas} (h : Canvas.KeepsGuise change)
    (view : GraphView) : (view.onCanvas change).guise? = view.guise? := by
  unfold guise? onCanvas
  rw [Option.map_map]
  exact congrArg (Option.map · view.canvas) (funext h)

/-- No handler changes what is seen but in where the nodes are. -/
theorem guise?_act (browser : Browser) (action : GraphAction) (event : Event)
    (view : GraphView) : (view.act browser action event).2.guise? = view.guise? := by
  cases action with
  | press => exact guise?_onCanvas (Canvas.keepsGuise_press _) view
  | move => exact guise?_onCanvas (Canvas.keepsGuise_pointerMove _) view
  | release => exact guise?_onCanvas Canvas.keepsGuise_release view
  | leave => exact guise?_onCanvas Canvas.keepsGuise_leave view
  | wheel => exact guise?_onCanvas (Canvas.keepsGuise_zoom _ _) view

/-- Neither does another size of the window. -/
theorem guise?_windowResized (view : GraphView) (browser : Browser) :
    (view.windowResized browser).guise? = view.guise? := by
  unfold windowResized
  split
  · rfl
  · split
    · rfl
    · exact guise?_onCanvas (Canvas.keepsGuise_resize _ _) _

/-- Neither does a frame, unless the view has left the page and gives up its layout. -/
theorem guise?_afterFrame {forces : Forces} (hkeeps : forces.KeepsBodies) (view : GraphView)
    (browser : Browser) :
    (view.afterFrame forces browser).guise? = view.guise? ∨
      view.connected = false ∧ (view.afterFrame forces browser).canvas = none := by
  unfold afterFrame
  split
  · exact Or.inl rfl
  · split
    · exact Or.inl rfl
    · split
      · rename_i hleft
        rw [Bool.not_eq_true'] at hleft
        exact Or.inr ⟨hleft, rfl⟩
      · exact Or.inl (guise?_onCanvas (fun canvas => Layout.guise_step hkeeps canvas.layout _) view)

/-- A view that looks the same, or has given up its layout, presents the same. -/
theorem Presents.congr {other : GraphView} (h : view.Presents feed)
    (hg : other.guise? = view.guise? ∨ other.canvas = none) : other.Presents feed := by
  rcases hg with hg | hnone
  · have hsame : ∀ canvas, other.canvas = some canvas → ∃ before, view.canvas = some before ∧
        before.layout.guise = canvas.layout.guise := by
      intro canvas hcanvas
      unfold guise? at hg
      rw [hcanvas, Option.map_some, eq_comm, Option.map_eq_some_iff] at hg
      exact hg
    constructor
    · intro canvas hcanvas
      obtain ⟨before, hbefore, hguise⟩ := hsame canvas hcanvas
      exact (h.shows before hbefore).congr (congrArg Prod.fst hguise).symm
    · intro canvas hcanvas
      obtain ⟨before, hbefore, hguise⟩ := hsame canvas hcanvas
      exact (congrArg Prod.snd hguise).symm.trans (h.emphases_eq before hbefore)
  · constructor
    · intro canvas hcanvas
      rw [hnone] at hcanvas
      cases hcanvas
    · intro canvas hcanvas
      rw [hnone] at hcanvas
      cases hcanvas

/-- What is shown of a changed layout is told by the layout before. -/
theorem canvas_onLayout {change : Layout → Layout} {canvas : Canvas}
    (h : (view.onLayout change).canvas = some canvas) :
    ∃ before, view.canvas = some before ∧ canvas.layout = change before.layout := by
  unfold onLayout onCanvas at h
  obtain ⟨before, hbefore, rfl⟩ := Option.map_eq_some_iff.mp h
  exact ⟨before, hbefore, rfl⟩

/-- A view that takes over a graph shows it. -/
theorem Shows.showSnapshot (h : view.Shows graph) (hd : graph.ids.Nodup) (feed : GraphFeed) :
    (view.showSnapshot feed.input).Shows feed.graph := by
  intro canvas hcanvas
  obtain ⟨before, hbefore, hlayout⟩ := canvas_onLayout hcanvas
  have hturned := (h before hbefore).turnTo hd feed.graph
  rw [hlayout]
  dsimp only
  split
  · exact hturned.congr (Layout.scene_emphasize _ _ _)
  · exact hturned

/-- A view that takes over a selection and hits presents them with its graph. -/
theorem Shows.showEmphasis (h : view.Shows feed.graph) (hd : feed.graph.ids.Nodup) :
    (view.showEmphasis feed.input).Presents feed := by
  constructor
  · intro canvas hcanvas
    obtain ⟨before, hbefore, hlayout⟩ := canvas_onLayout hcanvas
    rw [hlayout]
    exact (h before hbefore).congr (Layout.scene_emphasize _ _ _)
  · intro canvas hcanvas
    obtain ⟨before, hbefore, hlayout⟩ := canvas_onLayout hcanvas
    rw [hlayout]
    exact (h before hbefore).emphases_emphasize hd _ _

/-- A view that takes over a graph of the same shape lets its nodes stand out as before. -/
theorem Presents.showSnapshot_of_sameShape {next : GraphFeed} (h : view.Presents feed)
    (hd : feed.graph.ids.Nodup)
    (hshape : (Snapshot.ofGraph feed.graph).sameShape (Snapshot.ofGraph next.graph) = true) :
    (view.showSnapshot next.input).Presents { feed with graph := next.graph } := by
  refine ⟨h.shows.showSnapshot hd next, fun canvas hcanvas => ?_⟩
  obtain ⟨before, hbefore, hlayout⟩ := canvas_onLayout hcanvas
  have hgoes : (before.layout.turnTo next.input.snapshot).1 = false :=
    ((h.shows before hbefore).goes_on_iff next.graph).mpr hshape
  have hids := ((Snapshot.sameShape_ofGraph_iff _ _).mp hshape).1
  dsimp only at hlayout
  rw [hgoes, if_neg Bool.false_ne_true] at hlayout
  unfold GraphFeed.emphasisOf
  rw [hlayout, ← ConceptGraph.emphasisOf_congr hshape, ← hids]
  exact (Layout.undisturbed_turnTo hgoes).emphasis_eq.trans (h.emphases_eq before hbefore)

/-- A view that takes over a graph of another shape starts afresh and presents all its inputs. -/
theorem Shows.showSnapshot_of_otherShape {next : GraphFeed} (h : view.Shows graph)
    (hd : graph.ids.Nodup) (hnext : next.graph.ids.Nodup)
    (hshape : (Snapshot.ofGraph graph).sameShape (Snapshot.ofGraph next.graph) = false) :
    (view.showSnapshot next.input).Presents next := by
  refine ⟨h.showSnapshot hd next, fun canvas hcanvas => ?_⟩
  obtain ⟨before, hbefore, hlayout⟩ := canvas_onLayout hcanvas
  have hshows := h before hbefore
  have hafresh : (before.layout.turnTo next.input.snapshot).1 = true := by
    rw [Layout.turnTo_afresh_iff, hshows.snapshot_eq]
    exact hshape
  dsimp only at hlayout
  rw [hafresh, if_pos rfl] at hlayout
  rw [hlayout]
  exact (hshows.turnTo hd next.graph).emphases_emphasize hnext _ _

/-- A view that is put on a page presents its inputs. -/
theorem presents_mount (props : GraphProps) (browser : Browser) (hd : feed.graph.ids.Nodup) :
    (mount props browser feed.input).Presents feed := by
  have hnever : ∀ {view : GraphView}, view.canvas = none → view.Presents feed := by
    intro view hnone
    constructor <;> exact fun canvas hcanvas => nomatch hnone.symm.trans hcanvas
  unfold mount
  split
  · exact hnever rfl
  · dsimp only
    split
    · exact hnever rfl
    · refine (Shows.showSnapshot ?_ hd feed).showEmphasis hd
      rintro canvas ⟨⟩
      exact Layout.shows_start feed.graph _ _ _ _

end GraphView

/-- A graph view with the inputs that it is to follow. -/
structure FedView where
  /-- The view. -/
  view : GraphView
  /-- The inputs as they are now. -/
  feed : GraphFeed
  /-- The graph that the view has last taken over. -/
  taken : ConceptGraph
  /-- Whether selection or hits have changed since the view last followed them. -/
  restyling : Bool := false

namespace FedView

/-- What may happen to a graph view and its inputs. -/
inductive Happening where
  /-- Some inputs change. -/
  | feed (next : GraphFeed)
  /-- The view takes over the graph. -/
  | takeOver
  /-- The view follows the selection and the hits. -/
  | restyle
  /-- An animation frame. -/
  | frame (browser : Browser)
  /-- A handler of the view. -/
  | act (browser : Browser) (action : GraphAction) (event : Event)
  /-- The window changes its size. -/
  | resize (browser : Browser)
  /-- The canvas leaves the page. -/
  | detach

/-- A view that is put on a page. -/
def mount (props : GraphProps) (browser : Browser) (feed : GraphFeed) : FedView :=
  { view := GraphView.mount props browser feed.input, feed, taken := feed.graph }

/-- What comes of a happening. -/
def after (forces : Forces) (fed : FedView) : Happening → FedView
  | .feed next =>
    { fed with
      feed := next
      restyling := fed.restyling
        || decide (next.selected ≠ fed.feed.selected ∨ next.hits ≠ fed.feed.hits) }
  | .takeOver => { fed with view := fed.view.showSnapshot fed.feed.input, taken := fed.feed.graph }
  | .restyle => { fed with view := fed.view.showEmphasis fed.feed.input, restyling := false }
  | .frame browser => { fed with view := fed.view.afterFrame forces browser }
  | .act browser action event => { fed with view := (fed.view.act browser action event).2 }
  | .resize browser => { fed with view := fed.view.windowResized browser }
  | .detach => { fed with view := { fed.view with connected := false } }

/-- What comes of some happenings. -/
def afterAll (forces : Forces) (fed : FedView) (happenings : List Happening) : FedView :=
  happenings.foldl (after forces) fed

/-- Whether the view has followed its inputs: it has taken over the graph, or one with the same
nodes, labels and lines, and selection and hits have not changed since it followed them. -/
def Settled (fed : FedView) : Prop :=
  Snapshot.ofGraph fed.taken = Snapshot.ofGraph fed.feed.graph ∧ fed.restyling = false

/-- A view that presents the graph it has taken over by some selection and hits, which are those of
now unless these have changed. -/
structure Sound (fed : FedView) : Prop where
  /-- No id is twice in the graph that was taken over. -/
  taken_distinct : fed.taken.ids.Nodup
  /-- No id is twice in the graph of now. -/
  feed_distinct : fed.feed.graph.ids.Nodup
  /-- What is presented. -/
  presents : ∃ selected hits, fed.view.Presents ⟨fed.taken, selected, hits⟩ ∧
    (fed.restyling = false → selected = fed.feed.selected ∧ hits = fed.feed.hits)

variable {forces : Forces} {fed : FedView}

/-- A change of the view that is not seen leaves it sound. -/
theorem Sound.withView (h : fed.Sound) {view : GraphView}
    (hg : view.guise? = fed.view.guise? ∨ view.canvas = none) : { fed with view }.Sound := by
  obtain ⟨selected, hits, hpresents, hcurrent⟩ := h.presents
  exact ⟨h.taken_distinct, h.feed_distinct, selected, hits, hpresents.congr hg, hcurrent⟩

/-- Other inputs leave a view sound: it presents old ones, and that is known. -/
theorem Sound.feed (h : fed.Sound) {next : GraphFeed} (hd : next.graph.ids.Nodup) :
    (fed.after forces (.feed next)).Sound := by
  obtain ⟨selected, hits, hpresents, hcurrent⟩ := h.presents
  refine ⟨h.taken_distinct, hd, selected, hits, hpresents, fun hidle => ?_⟩
  obtain ⟨hbefore, hsame⟩ := Bool.or_eq_false_iff.mp hidle
  have hkept := of_decide_eq_false hsame
  rw [not_or, not_not, not_not] at hkept
  obtain ⟨hselected, hhits⟩ := hcurrent hbefore
  exact ⟨hselected.trans hkept.1.symm, hhits.trans hkept.2.symm⟩

/-- Taking over the graph leaves a view sound: if the layout goes on, the nodes stand out by the
same links as before, and else they are made to stand out anew. -/
theorem Sound.takeOver (h : fed.Sound) : (fed.after forces .takeOver).Sound := by
  obtain ⟨selected, hits, hpresents, hcurrent⟩ := h.presents
  -- a fresh start classifies by the inputs of now, even where these are still to be followed
  cases hshape : (Snapshot.ofGraph fed.taken).sameShape (Snapshot.ofGraph fed.feed.graph) with
  | true =>
    exact ⟨h.feed_distinct, h.feed_distinct, selected, hits,
      hpresents.showSnapshot_of_sameShape h.taken_distinct hshape, hcurrent⟩
  | false =>
    exact ⟨h.feed_distinct, h.feed_distinct, fed.feed.selected, fed.feed.hits,
      hpresents.shows.showSnapshot_of_otherShape h.taken_distinct h.feed_distinct hshape,
      fun _ => ⟨rfl, rfl⟩⟩

/-- Following the selection and the hits leaves a view sound. -/
theorem Sound.restyle (h : fed.Sound) : (fed.after forces .restyle).Sound := by
  obtain ⟨selected, hits, hpresents, _⟩ := h.presents
  let shown : GraphFeed := { fed.feed with graph := fed.taken }
  have hshows : fed.view.Shows shown.graph := hpresents.shows
  exact ⟨h.taken_distinct, h.feed_distinct, _, _, hshows.showEmphasis h.taken_distinct,
    fun _ => ⟨rfl, rfl⟩⟩

/-- Any happening leaves a view sound, if no id is twice in a graph that comes. -/
theorem Sound.after (h : fed.Sound) (hkeeps : forces.KeepsBodies) {happening : Happening}
    (hd : ∀ next, happening = .feed next → next.graph.ids.Nodup) :
    (fed.after forces happening).Sound := by
  cases happening with
  | feed next => exact h.feed (hd next rfl)
  | takeOver => exact h.takeOver
  | restyle => exact h.restyle
  | frame browser =>
    exact h.withView ((GraphView.guise?_afterFrame hkeeps fed.view browser).imp_right And.right)
  | act browser action event => exact h.withView (Or.inl (fed.view.guise?_act browser action event))
  | resize browser => exact h.withView (Or.inl (fed.view.guise?_windowResized browser))
  | detach => exact h.withView (Or.inl rfl)

/-- Any happenings leave a view sound, if no id is twice in a graph that comes. -/
theorem Sound.afterAll (h : fed.Sound) (hkeeps : forces.KeepsBodies)
    {happenings : List Happening}
    (hd : ∀ next, Happening.feed next ∈ happenings → next.graph.ids.Nodup) :
    (fed.afterAll forces happenings).Sound := by
  induction happenings generalizing fed with
  | nil => exact h
  | cons happening rest ih =>
    have hhead : ∀ next, happening = .feed next → next.graph.ids.Nodup :=
      fun next hnext => hd next (hnext ▸ List.mem_cons_self)
    exact ih (h.after hkeeps hhead) fun next mem => hd next (List.mem_cons_of_mem _ mem)

/-- Once a sound view has followed its inputs, it presents them. -/
theorem Sound.presents_feed (h : fed.Sound) (hsettled : fed.Settled) :
    ∀ canvas, fed.view.canvas = some canvas →
      canvas.layout.nodes.map (fun node => (node.id, node.emphasis)) =
        fed.feed.graph.ids.map fun id => (id, fed.feed.emphasisOf id) := by
  intro canvas hcanvas
  obtain ⟨selected, hits, hpresents, hcurrent⟩ := h.presents
  obtain ⟨hselected, hhits⟩ := hcurrent hsettled.2
  have hshape :
      (Snapshot.ofGraph fed.taken).sameShape (Snapshot.ofGraph fed.feed.graph) = true := by
    rw [hsettled.1, Snapshot.sameShape_ofGraph_iff]
    exact ⟨rfl, rfl, rfl⟩
  have hids := ((Snapshot.sameShape_ofGraph_iff _ _).mp hshape).1
  have hnodes := (hpresents.shows canvas hcanvas).ids_eq
  have hemphases := hpresents.emphases_eq canvas hcanvas
  unfold GraphFeed.emphasisOf at hemphases ⊢
  rw [hselected, hhits, ConceptGraph.emphasisOf_congr hshape] at hemphases
  rw [← List.zip_map', ← List.zip_map', List.map_id', ← hids]
  exact congrArg₂ List.zip hnodes hemphases

/-- Whether a view has started and is on the page. -/
def Alive (fed : FedView) : Prop := fed.view.connected = true ∧ fed.view.canvas.isSome = true

/-- A view that looks the same is alive if it was. -/
theorem Alive.withView (h : fed.Alive) {view : GraphView}
    (hc : view.connected = fed.view.connected) (hg : view.guise? = fed.view.guise?) :
    { fed with view }.Alive := by
  have hstarted := congrArg Option.isSome hg
  unfold GraphView.guise? at hstarted
  rw [Option.isSome_map, Option.isSome_map] at hstarted
  exact ⟨hc.trans h.1, hstarted.trans h.2⟩

/-- Nothing ends a view but that it leaves the page. -/
theorem Alive.after (h : fed.Alive) (hkeeps : forces.KeepsBodies) {happening : Happening}
    (hd : happening ≠ .detach) : (fed.after forces happening).Alive := by
  have hcanvas : ∀ change, (fed.view.onCanvas change).canvas.isSome = true :=
    fun change => Option.isSome_map.trans h.2
  cases happening with
  | feed next => exact h
  | takeOver => exact ⟨h.1, hcanvas _⟩
  | restyle => exact ⟨h.1, hcanvas _⟩
  | frame browser =>
    have hconnected : (fed.view.afterFrame forces browser).connected = fed.view.connected := by
      unfold GraphView.afterFrame
      split
      · rfl
      · split
        · rfl
        · split <;> rfl
    rcases GraphView.guise?_afterFrame hkeeps fed.view browser with hg | ⟨hleft, _⟩
    · exact h.withView hconnected hg
    · exact absurd (hleft.symm.trans h.1) Bool.false_ne_true
  | act browser action event =>
    refine h.withView ?_ (fed.view.guise?_act browser action event)
    cases action <;> rfl
  | resize browser =>
    refine h.withView ?_ (fed.view.guise?_windowResized browser)
    unfold GraphView.windowResized
    split
    · rfl
    · split <;> rfl
  | detach => exact absurd rfl hd

/-- A view that starts on a page is alive until it leaves it. -/
theorem alive_afterAll (hkeeps : forces.KeepsBodies) (props : GraphProps) {browser : Browser}
    (feed : GraphFeed) (hwindow : browser.hasWindow = true) (hcontext : browser.hasContext = true)
    {happenings : List Happening} (hd : Happening.detach ∉ happenings) :
    ((mount props browser feed).afterAll forces happenings).Alive := by
  have hstart : (mount props browser feed).Alive := by
    unfold mount GraphView.mount Alive
    rw [hwindow, hcontext]
    exact ⟨rfl, rfl⟩
  unfold afterAll
  refine List.foldlRecOn happenings (after forces) hstart fun fed h happening mem =>
    h.after hkeeps ?_
  exact fun hsame => hd (hsame ▸ mem)

/-- However its inputs change, and whatever frames, handlers and windows do in between, once a view
has followed its inputs each of its nodes stands out as the last graph, selection and hits alone
demand. The view is there until it leaves the page, if there is a window and a context. Nothing is
asked of the forces but that they keep the bodies. -/
theorem stands_out_as_demanded (forces : Forces) (hkeeps : forces.KeepsBodies) (props : GraphProps)
    (browser : Browser) (first : GraphFeed) (happenings : List Happening)
    (hfirst : first.graph.Built)
    (hbuilt : ∀ next, Happening.feed next ∈ happenings → next.graph.Built)
    (hsettled : ((mount props browser first).afterAll forces happenings).Settled) :
    let last := (mount props browser first).afterAll forces happenings
    (∀ canvas, last.view.canvas = some canvas →
      canvas.layout.nodes.map (fun node => (node.id, node.emphasis)) =
        last.feed.graph.ids.map fun id => (id, last.feed.emphasisOf id)) ∧
      (browser.hasWindow = true → browser.hasContext = true → Happening.detach ∉ happenings →
        last.view.canvas.isSome = true) := by
  have hd := hfirst.wellLinked.ids_distinct
  have hstart : (mount props browser first).Sound :=
    ⟨hd, hd, first.selected, first.hits, GraphView.presents_mount props browser hd,
      fun _ => ⟨rfl, rfl⟩⟩
  have hsound := hstart.afterAll hkeeps
    fun next mem => (hbuilt next mem).wellLinked.ids_distinct
  exact ⟨hsound.presents_feed hsettled, fun hwindow hcontext hstays =>
    (alive_afterAll hkeeps props first hwindow hcontext hstays).2⟩

/-- The animals without their parrots. -/
def fewerAnimals : ConceptGraph := ((ConceptGraph.ofRecords Samples.animals).remove "parrots").2

/-- Dogs are selected, and later dogs and cats are hit while the parrots are taken out. The view
follows the hits first and then the graph, and the pointer is pressed in between. -/
def dogsSelected : List Happening :=
  [.feed ⟨ConceptGraph.ofRecords Samples.animals, some "dogs", none⟩, .frame {},
    .feed ⟨fewerAnimals, some "dogs", some (TextSet.ofList ["dogs", "cats"])⟩, .restyle,
    .act {} .press { kind := "mousedown", x := 5, y := 7 }, .takeOver, .frame {}]

/-- Then the neighbors of dogs stand out that are left, and cats as a hit. -/
theorem stands_out_dogs_selected :
    let animals := ConceptGraph.ofRecords Samples.animals
    let last := (mount {} {} ⟨animals, none, none⟩).afterAll Simulation.forces dogsSelected
    Simulation.forces.KeepsBodies ∧ animals.Built ∧
      (∀ next, Happening.feed next ∈ dogsSelected → next.graph.Built) ∧ last.Settled ∧
      last.view.canvas.isSome = true ∧
      ∀ canvas, last.view.canvas = some canvas →
        canvas.layout.nodes.map (fun node => (node.id, node.emphasis)) =
          [("animals", .dimmed), ("mammals", .dimmed), ("birds", .dimmed), ("pets", .neighbor),
            ("canines", .neighbor), ("dogs", .selected), ("wolves", .neighbor), ("cats", .hit),
            ("crows", .dimmed)] := by
  have hanimals := ConceptGraph.Built.ofRecords Samples.animals
  have hbuilt : ∀ next, Happening.feed next ∈ dogsSelected → next.graph.Built := by
    intro next mem
    simp only [dogsSelected, List.mem_cons, reduceCtorEq, List.not_mem_nil, or_false, false_or,
      Happening.feed.injEq] at mem
    rcases mem with rfl | rfl
    · exact hanimals
    · exact hanimals.remove "parrots"
  have hsettled : ((mount {} {} ⟨ConceptGraph.ofRecords Samples.animals, none, none⟩).afterAll
      Simulation.forces dogsSelected).Settled := ⟨rfl, rfl⟩
  have hkeeps := Simulation.forces_keepsBodies
  have hlast := stands_out_as_demanded Simulation.forces hkeeps {} {} _ dogsSelected hanimals hbuilt
    hsettled
  have hstays : Happening.detach ∉ dogsSelected := by
    simp only [dogsSelected, List.mem_cons, reduceCtorEq, List.not_mem_nil, or_self,
      not_false_eq_true]
  refine ⟨hkeeps, hanimals, hbuilt, hsettled, hlast.2 rfl rfl hstays, fun canvas hcanvas => ?_⟩
  refine (hlast.1 canvas hcanvas).trans ?_
  decide +kernel

end FedView

end Page

end Thesaurus

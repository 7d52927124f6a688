import Thesaurus.Proofs.HeldNodes
import Thesaurus.Samples

/-!
# Pinned nodes stay where they are put

A layout is stepped, pinned, resized and restyled while it is turned from snapshot to snapshot.
Whatever comes in between, its pinned nodes are those of which the simulation holds the bodies. A
change spares a node unless it puts that one somewhere, lets go of it, or makes the simulation start
afresh. Where the forces move no body that is held, what spares a node leaves it where it is held,
whatever the corrections compute for it; so a pinned node stays where it was put.
-/

namespace Thesaurus.Layout

/-- What may happen to a layout of any snapshot, that of a graph or not. -/
inductive Change where
  /-- An event. -/
  | event (event : Event)
  /-- Another snapshot is to be shown. -/
  | turnTo (snapshot : Snapshot)

/-- The layout after a change. -/
def change (forces : Forces) (layout : Layout) : Change → Layout
  | .event event => layout.handle forces event
  | .turnTo snapshot => (layout.turnTo snapshot).2

/-- The layout after some changes. -/
def changeAll (forces : Forces) (layout : Layout) (changes : List Change) : Layout :=
  changes.foldl (change forces) layout

/-- Whether a change spares a node: it neither puts that one somewhere nor lets go of it, and the
simulation goes on. -/
def Change.spares (layout : Layout) (id : ConceptId) : Change → Bool
  | .event (.pin other _) => other ≠ id
  | .event (.unpin other) => other ≠ id
  | .event (.turnTo graph) => !(layout.turnTo (Snapshot.ofGraph graph)).1
  | .event _ => true
  | .turnTo snapshot => !(layout.turnTo snapshot).1

/-- Whether some changes spare a node, each when its turn comes. -/
def spares (forces : Forces) (layout : Layout) (id : ConceptId) : List Change → Bool
  | [] => true
  | first :: rest => first.spares layout id && (layout.change forces first).spares forces id rest

section Hold

variable {forces : Forces} {layout : Layout} {id : ConceptId}

/-- A concept that is laid out is held where it is put. -/
theorem hold?_pin {point : Point} (h : id ∈ layout.nodes.map LaidNode.id) :
    (layout.pin id point).hold? id = some (point.x.toFloat32, point.y.toFloat32) := by
  obtain ⟨index, hplace⟩ := Option.isSome_iff_exists.mp (index?_isSome_iff.mpr h)
  obtain ⟨node, hnode, _⟩ := exists_node_of_index? hplace
  have hkept : (layout.pin id point).index? id = some index := by
    rw [index?_congr (ids_congr (scene_pin layout id point))]
    exact hplace
  rw [hold?_of_index? hkept, getElem?_holds_pin hplace, if_pos rfl, hnode]
  rfl

/-- Where one concept is put does not matter to where another one is held. -/
theorem hold?_pin_of_ne {one : ConceptId} (hne : one ≠ id) (point : Point) :
    (layout.pin one point).hold? id = layout.hold? id := by
  refine hold?_congr (ids_congr (scene_pin layout one point)) fun index hid => ?_
  exact getElem?_holds_pin_of_ne fun hone => hne (eq_of_index?_eq hone hid)

/-- Nor does it matter whether one concept is let go of. -/
theorem hold?_unpin_of_ne {one : ConceptId} (hne : one ≠ id) :
    (layout.unpin one).hold? id = layout.hold? id := by
  refine hold?_congr (ids_congr (scene_unpin layout one)) fun index hid => ?_
  exact getElem?_holds_unpin_of_ne fun hone => hne (eq_of_index?_eq hone hid)

/-- A layout that only takes over labels keeps where each concept is held. -/
theorem hold?_turnTo {snapshot : Snapshot} (h : (layout.turnTo snapshot).1 = false) :
    (layout.turnTo snapshot).2.hold? id = layout.hold? id := by
  have hholds : (layout.turnTo snapshot).2.holds = layout.holds :=
    congrArg Prod.snd (grasp_turnTo h)
  exact hold?_congr (ids_turnTo h) fun index _ => by rw [hholds]

/-- A change that spares a concept keeps where it is held. -/
theorem hold?_change (hspares : forces.SparesHeld) {change : Change}
    (h : change.spares layout id = true) :
    (layout.change forces change).hold? id = layout.hold? id := by
  cases change with
  | turnTo snapshot => exact hold?_turnTo ((Bool.not_eq_true' _).mp h)
  | event event =>
    cases event with
    | step dt => exact hold?_step hspares dt
    | pin one point => exact hold?_pin_of_ne (of_decide_eq_true h) point
    | unpin one => exact hold?_unpin_of_ne (of_decide_eq_true h)
    | resize width height =>
      exact hold?_of_grasp (scene_resize layout width height) (grasp_resize layout width height)
    | emphasize selected hits =>
      exact hold?_of_grasp (scene_emphasize layout selected hits)
        (grasp_emphasize layout selected hits)
    | reheat alpha => exact hold?_of_grasp (scene_reheat layout alpha) (grasp_reheat layout alpha)
    | stop => rfl
    | turnTo graph => exact hold?_turnTo ((Bool.not_eq_true' _).mp h)

/-- Changes that spare a concept, one after another, keep where it is held. -/
theorem hold?_changeAll (hspares : forces.SparesHeld) {changes : List Change}
    (h : layout.spares forces id changes = true) :
    (layout.changeAll forces changes).hold? id = layout.hold? id := by
  induction changes generalizing layout with
  | nil => rfl
  | cons first rest ih =>
    unfold spares at h
    rw [Bool.and_eq_true] at h
    exact (ih h.2).trans (hold?_change hspares h.1)

end Hold

section HoldsMarked

variable {forces : Forces} {layout : Layout}

/-- Every change keeps the records of what is held in agreement. -/
theorem HoldsMarked.change (h : layout.HoldsMarked) (hspares : forces.SparesHeld)
    (change : Change) : (layout.change forces change).HoldsMarked := by
  cases change with
  | turnTo snapshot => exact h.turnTo snapshot
  | event event =>
    cases event with
    | step dt => exact h.congr (grasp_step hspares layout dt)
    | pin id point => exact h.pin id point
    | unpin id => exact h.unpin id
    | resize width height => exact h.congr (grasp_resize layout width height)
    | emphasize selected hits => exact h.congr (grasp_emphasize layout selected hits)
    | reheat alpha => exact h.congr (grasp_reheat layout alpha)
    | stop => exact h.congr rfl
    | turnTo graph => exact h.turnTo (Snapshot.ofGraph graph)

/-- So do some changes, one after another. -/
theorem HoldsMarked.changeAll (h : layout.HoldsMarked) (hspares : forces.SparesHeld)
    (changes : List Change) : (layout.changeAll forces changes).HoldsMarked := by
  induction changes generalizing layout with
  | nil => exact h
  | cons first rest ih => exact ih (h.change hspares first)

/-- Where the records agree, the pinned places are those of the nodes with a body marked as held. -/
theorem HoldsMarked.mem_pinned_iff (h : layout.HoldsMarked) (index : Nat) :
    index ∈ layout.pinned ↔
      ∃ node, layout.nodes[index]? = some node ∧ node.body.anchored = true := by
  rw [h index]
  unfold holds
  simp only [List.getElem?_map, Option.map_eq_some_iff, Body.hold?_eq_some_iff]
  constructor
  · rintro ⟨_, node, hnode, hmarked, _⟩
    exact ⟨node, hnode, hmarked⟩
  · rintro ⟨node, hnode, hmarked⟩
    exact ⟨_, node, hnode, hmarked, rfl⟩

end HoldsMarked

/-- What a layout does with its pinned nodes under some forces, however it came about. -/
structure KeepsPins (forces : Forces) (layout : Layout) : Prop where
  /-- The pinned places are those of the nodes with a body that is marked as held. -/
  mem_pinned_iff : ∀ index, index ∈ layout.pinned ↔
    ∃ node, layout.nodes[index]? = some node ∧ node.body.anchored = true
  /-- A concept is pinned exactly if the body at its place is marked as held. -/
  isPinned_iff : ∀ id, layout.isPinned id = true ↔
    ∃ body, layout.body? id = some body ∧ body.anchored = true
  /-- A node that is put somewhere is still held there after any changes that spare it. -/
  stays : ∀ id ∈ layout.nodes.map LaidNode.id, ∀ point later,
    (layout.pin id point).spares forces id later = true →
      ∃ body, ((layout.pin id point).changeAll forces later).body? id = some body ∧
        body.anchored = true ∧ body.x = point.x.toFloat32 ∧ body.y = point.y.toFloat32

/-- Where the records agree, a layout keeps its pins under forces that spare what is held. -/
theorem HoldsMarked.keepsPins {forces : Forces} {layout : Layout} (h : layout.HoldsMarked)
    (hspares : forces.SparesHeld) : layout.KeepsPins forces where
  mem_pinned_iff := h.mem_pinned_iff
  isPinned_iff id := by
    rw [h.isPinned_iff]
    simp only [hold?_eq_some_iff]
    constructor
    · rintro ⟨_, body, hbody, hmarked, _⟩
      exact ⟨body, hbody, hmarked⟩
    · rintro ⟨body, hbody, hmarked⟩
      exact ⟨_, body, hbody, hmarked, rfl⟩
  stays id mem point later hlater := by
    have hheld := (hold?_changeAll hspares hlater).trans (hold?_pin mem)
    obtain ⟨body, hbody, hmarked, hplace⟩ := hold?_eq_some_iff.mp hheld
    obtain ⟨hx, hy⟩ := Prod.mk.inj hplace
    exact ⟨body, hbody, hmarked, hx, hy⟩

/-- Whatever happens to a layout, its pinned nodes are those of which the simulation holds the
bodies, and a node that is put somewhere stays there as long as no change puts it elsewhere, lets go
of it or makes the simulation start afresh. Nothing is asked of the forces but that they spare what
is held. -/
theorem pinned_stay_put (forces : Forces) (hspares : forces.SparesHeld) (snapshot : Snapshot)
    (width height : Float) (settings : LayoutSettings) (changes : List Change) :
    ((ofSnapshot snapshot width height settings).changeAll forces changes).KeepsPins forces := by
  have hmarked := holdsMarked_ofSnapshot snapshot width height settings
  exact (hmarked.changeAll hspares changes).keepsPins hspares

/-- Dogs, cats joined to them, and dogs once more, which stand for the dogs: no graph has a snapshot
like that. -/
def dogsTwice (label : String) : Snapshot :=
  { nodes := [⟨"dogs", label, some 1⟩, ⟨"cats", "Cats", some 1⟩, ⟨"dogs", label, none⟩]
    lines := [⟨"dogs", "cats", .related⟩] }

/-- A layout in which the dogs were pinned before it started afresh with the cats. -/
def startedWithCats : Layout :=
  (ofSnapshot { nodes := [⟨"dogs", "Dogs", none⟩] } 640 480 {}).changeAll Simulation.forces
    [.event (.pin "dogs" ⟨1, 2⟩), .turnTo (dogsTwice "Dogs")]

/-- The dogs get another label, the cats are pinned and let go of, and the layout is restyled,
resized, reheated and stepped. -/
def catsPinned : List Change :=
  [.turnTo (dogsTwice "Hounds"), .event (.pin "cats" ⟨20, 30⟩),
    .event (.emphasize (some "cats") none), .event (.unpin "cats"), .event (.resize 320 200),
    .event (.reheat 1), .event (.step 0.5), .event (.step 0.5)]

/-- The dogs are put where the cats are to be pinned, and after all this they are still there. -/
theorem pinned_stay_put_dogs :
    let put := startedWithCats.pin "dogs" ⟨20, 30⟩
    Simulation.forces.SparesHeld ∧ "dogs" ∈ startedWithCats.nodes.map LaidNode.id ∧
      put.spares Simulation.forces "dogs" catsPinned = true ∧
      ∃ body, (put.changeAll Simulation.forces catsPinned).body? "dogs" = some body ∧
        body.anchored = true ∧ body.x = (20 : Float).toFloat32 ∧
          body.y = (30 : Float).toFloat32 := by
  have hlaid : "dogs" ∈ startedWithCats.nodes.map LaidNode.id := by decide +kernel
  have hlater : (startedWithCats.pin "dogs" ⟨20, 30⟩).spares Simulation.forces "dogs" catsPinned =
      true := by
    decide +kernel
  have hkeeps := pinned_stay_put Simulation.forces Simulation.forces_sparesHeld
    { nodes := [⟨"dogs", "Dogs", none⟩] } 640 480 {}
    [.event (.pin "dogs" ⟨1, 2⟩), .turnTo (dogsTwice "Dogs")]
  exact ⟨Simulation.forces_sparesHeld, hlaid, hlater,
    hkeeps.stays "dogs" hlaid ⟨20, 30⟩ catsPinned hlater⟩

end Thesaurus.Layout

import Thesaurus.Canvas.Basic
import Thesaurus.Proofs.HeldNodes

/-!
# What the pointer holds

A pointer that grabs a node makes the layout hold it. Notes are kept beside a canvas of what the
pointer grabs, drags and leaves behind, without a look at what the layout holds. They tell which
nodes are held: the one that is grabbed, unless the layout has started afresh since it was last
pressed or dragged, and those from which the pointer was taken by a press on another node. So a
release may leave nodes held, and a grabbed node may be loose.
-/

namespace Thesaurus

namespace Canvas

/-- What may happen to a canvas. -/
inductive Event where
  /-- The pointer is pressed, on a node or beside all nodes. -/
  | press (point : Point) (hit : Option ConceptId)
  /-- The pointer is moved. -/
  | move (point : Point)
  /-- The pointer is released. -/
  | release
  /-- The pointer leaves the canvas. -/
  | leave
  /-- The wheel is turned. -/
  | zoom (point : Point) (closer : Bool)
  /-- The viewport changes. -/
  | resize (width height : Float)
  /-- Time passes. -/
  | step (dt : Float32)
  /-- Another snapshot is to be shown. -/
  | turnTo (snapshot : Snapshot)
  /-- The selection or the search changes. -/
  | emphasize (selected : Option ConceptId) (hits : Option TextSet)

/-- Press at a point of the screen where a node was found, or none. -/
def pressOn (canvas : Canvas) (point : Point) : Option ConceptId → Canvas
  | some id =>
    let place := (canvas.layout.position? id).getD {}
    { canvas with
      layout := canvas.layout.pin id place
      grab := { node := some id, start := point, nodeStart := place } }
  | none =>
    { canvas with
      pan :=
        { active := true
          start := point
          transformStart := ⟨canvas.transform.x, canvas.transform.y⟩ } }

/-- The canvas after an event. -/
def handle (forces : Forces) (canvas : Canvas) : Event → Canvas
  | .press point hit => canvas.pressOn point hit
  | .move point => canvas.pointerMove point
  | .release => canvas.release
  | .leave => canvas.leave
  | .zoom point closer => canvas.zoom point closer
  | .resize width height => canvas.resize width height
  | .step dt => { canvas with layout := canvas.layout.step forces dt }
  | .turnTo snapshot => { canvas with layout := (canvas.layout.turnTo snapshot).2 }
  | .emphasize selected hits => { canvas with layout := canvas.layout.emphasize selected hits }

/-- A press is on the node that is shown there. -/
theorem press_eq_handle (forces : Forces) (canvas : Canvas) (point : Point) :
    canvas.press point = canvas.handle forces (.press point (canvas.nodeAt? point)) := by
  show canvas.press point = canvas.pressOn point (canvas.nodeAt? point)
  unfold press
  cases canvas.nodeAt? point <;> rfl

/-- The canvas after some events. -/
def handleAll (forces : Forces) (canvas : Canvas) (events : List Event) : Canvas :=
  events.foldl (handle forces) canvas

section HoldsMarked

variable {forces : Forces} {canvas : Canvas}

/-- The two records that a layout keeps of what it holds agree after letting go of what the pointer
has grabbed. -/
theorem holdsMarked_dropNode (h : canvas.layout.HoldsMarked) : canvas.dropNode.HoldsMarked := by
  unfold dropNode
  split
  · exact h.unpin _
  · exact h

/-- They agree after any event. -/
theorem holdsMarked_handle (h : canvas.layout.HoldsMarked) (hspares : forces.SparesHeld)
    (event : Event) : (canvas.handle forces event).layout.HoldsMarked := by
  cases event with
  | press point hit =>
    cases hit with
    | none => exact h
    | some id => exact h.pin id _
  | move point =>
    show (canvas.pointerMove point).layout.HoldsMarked
    unfold pointerMove
    split
    · exact h.pin _ _
    · split <;> exact h
  | release => exact holdsMarked_dropNode h
  | leave => exact holdsMarked_dropNode h
  | zoom point closer => exact h
  | resize width height => exact h.congr (Layout.grasp_resize canvas.layout width height)
  | step dt => exact h.congr (Layout.grasp_step hspares canvas.layout dt)
  | turnTo snapshot => exact h.turnTo snapshot
  | emphasize selected hits =>
    exact h.congr (Layout.grasp_emphasize canvas.layout selected hits)

/-- They agree after any events. -/
theorem holdsMarked_handleAll (h : canvas.layout.HoldsMarked) (hspares : forces.SparesHeld)
    (events : List Event) : (canvas.handleAll forces events).layout.HoldsMarked := by
  induction events generalizing canvas with
  | nil => exact h
  | cons event rest ih => exact ih (holdsMarked_handle h hspares event)

end HoldsMarked

/-- What is noted of a canvas by one who sees the events but not what the layout holds. -/
structure Notes where
  /-- What is laid out. -/
  snapshot : Snapshot
  /-- The node that the pointer has grabbed. -/
  grabbed : Option ConceptId := none
  /-- Whether it was pressed or dragged since the layout last started afresh. -/
  dragged : Bool := false
  /-- The nodes that were, but from which a press on another node has taken the pointer. -/
  left : List ConceptId := []

namespace Notes

/-- The grabbed node, if it was pressed or dragged since the layout last started afresh. -/
def current (notes : Notes) : List ConceptId :=
  if notes.dragged then notes.grabbed.toList else []

/-- The nodes that should be held. -/
def held (notes : Notes) : List ConceptId := notes.current ++ notes.left

/-- The notes once the pointer has let go. -/
def released (notes : Notes) : Notes := { notes with grabbed := none, dragged := false }

/-- The notes after an event. -/
def after (notes : Notes) : Event → Notes
  | .press _ (some id) =>
    { notes with grabbed := some id, dragged := true, left := notes.held.filter (· ≠ id) }
  | .move _ => { notes with dragged := notes.dragged || notes.grabbed.isSome }
  | .release => notes.released
  | .leave => notes.released
  | .turnTo snapshot =>
    if notes.snapshot.sameShape snapshot then { notes with snapshot }
    else { notes with snapshot, dragged := false, left := [] }
  | _ => notes

/-- The notes after some events. -/
def afterAll (notes : Notes) (events : List Event) : Notes := events.foldl after notes

/-- Notes that tell which nodes the layout of a canvas holds. -/
structure Tells (notes : Notes) (canvas : Canvas) : Prop where
  /-- The snapshot is the one that is laid out. -/
  snapshot_eq : canvas.layout.snapshot = notes.snapshot
  /-- It has the nodes of the layout. -/
  ids_eq : canvas.layout.nodes.map LaidNode.id = notes.snapshot.nodes.map SnapshotNode.id
  /-- The grabbed node is the one that the canvas has grabbed. -/
  grab_eq : canvas.grab.node = notes.grabbed
  /-- The grabbed node was not left behind. -/
  grabbed_apart : ∀ id, notes.grabbed = some id → id ∉ notes.left
  /-- The places that are held are those of the nodes that should be. -/
  pinned_iff : ∀ index, index ∈ canvas.layout.pinned ↔
    ∃ id ∈ notes.held, canvas.layout.index? id = some index

section Tells

variable {notes next : Notes} {forces : Forces} {canvas other : Canvas}

/-- What leaves the nodes, the grab and the places that are held alone needs no note. -/
theorem Tells.congr (h : notes.Tells canvas) (hscene : other.layout.scene = canvas.layout.scene)
    (hpinned : other.layout.pinned = canvas.layout.pinned) (hgrab : other.grab = canvas.grab) :
    notes.Tells other := by
  have hids := Layout.ids_congr hscene
  constructor
  · exact (congrArg Prod.fst hscene).trans h.snapshot_eq
  · exact hids.trans h.ids_eq
  · rw [hgrab]
    exact h.grab_eq
  · exact h.grabbed_apart
  · rw [hpinned, Layout.index?_congr hids]
    exact h.pinned_iff

/-- Where a grabbed node is put somewhere, it should be held besides those that were. -/
theorem Tells.pin (h : notes.Tells canvas) {id : ConceptId} {point : Point}
    (hlayout : other.layout = canvas.layout.pin id point) (hgrab : other.grab.node = some id)
    (hsnapshot : next.snapshot = notes.snapshot) (hgrabbed : next.grabbed = some id)
    (hdragged : next.dragged = true)
    (hleft : ∀ one, one ∈ next.left ↔ one ∈ notes.held ∧ one ≠ id) : next.Tells other := by
  have hscene := Layout.scene_pin canvas.layout id point
  have hids := Layout.ids_congr hscene
  rw [← hlayout] at hscene hids
  have hheld : ∀ one, one ∈ next.held ↔ one = id ∨ one ∈ notes.held := by
    intro one
    unfold held current
    rw [if_pos hdragged, hgrabbed, Option.toList_some, List.singleton_append, List.mem_cons, hleft]
    by_cases same : one = id
    · exact iff_of_true (Or.inl same) (Or.inl same)
    · rw [or_iff_right same, or_iff_right same]
      exact and_iff_left same
  constructor
  · rw [hsnapshot]
    exact (congrArg Prod.fst hscene).trans h.snapshot_eq
  · rw [hsnapshot]
    exact hids.trans h.ids_eq
  · rw [hgrab, hgrabbed]
  · rw [hgrabbed]
    rintro one ⟨⟩ mem
    exact ((hleft id).mp mem).2 rfl
  · intro index
    rw [Layout.index?_congr hids, hlayout, Layout.mem_pinned_pin, h.pinned_iff]
    simp only [hheld, or_and_right, exists_or, exists_eq_left]
    exact or_comm

/-- Where nothing is grabbed, the nodes that should be held are those left behind. -/
theorem held_eq_left (hgrabbed : notes.grabbed = none) : notes.held = notes.left := by
  unfold held current
  rw [hgrabbed]
  split <;> rfl

/-- The nodes left behind are those that should be held, but for the one that is grabbed. -/
theorem Tells.mem_left_iff (h : notes.Tells canvas) {id one : ConceptId}
    (hgrabbed : notes.grabbed = some id) : one ∈ notes.left ↔ one ∈ notes.held ∧ one ≠ id := by
  have hne : one ∈ notes.left → one ≠ id := by
    rintro mem rfl
    exact h.grabbed_apart one hgrabbed mem
  unfold held current
  rw [hgrabbed]
  split
  · rw [Option.toList_some, List.singleton_append, List.mem_cons]
    exact ⟨fun mem => ⟨Or.inr mem, hne mem⟩, fun ⟨hmem, hother⟩ => hmem.resolve_left hother⟩
  · rw [List.nil_append]
    exact ⟨fun mem => ⟨mem, hne mem⟩, And.left⟩

/-- Where the pointer lets go, the grabbed node should be held no more. -/
theorem Tells.drop (h : notes.Tells canvas) (hlayout : other.layout = canvas.dropNode)
    (hgrab : other.grab.node = none) : notes.released.Tells other := by
  have hheld : notes.released.held = notes.left := held_eq_left rfl
  have hnone : ∀ id, notes.released.grabbed = some id → id ∉ notes.released.left := by
    rintro id ⟨⟩
  unfold dropNode at hlayout
  rw [h.grab_eq] at hlayout
  cases hgrabbed : notes.grabbed with
  | none =>
    rw [hgrabbed] at hlayout
    refine ⟨?_, ?_, hgrab, hnone, ?_⟩
    · rw [hlayout]
      exact h.snapshot_eq
    · rw [hlayout]
      exact h.ids_eq
    · rw [hlayout, hheld, ← held_eq_left hgrabbed]
      exact h.pinned_iff
  | some id =>
    rw [hgrabbed] at hlayout
    have hscene := Layout.scene_unpin canvas.layout id
    have hids := Layout.ids_congr hscene
    dsimp only at hlayout
    rw [← hlayout] at hscene hids
    refine ⟨(congrArg Prod.fst hscene).trans h.snapshot_eq, hids.trans h.ids_eq, hgrab, hnone, ?_⟩
    intro index
    rw [hheld, Layout.index?_congr hids, hlayout, Layout.mem_pinned_unpin, h.pinned_iff]
    constructor
    · rintro ⟨⟨one, mem, hplace⟩, hne⟩
      refine ⟨one, (h.mem_left_iff hgrabbed).mpr ⟨mem, ?_⟩, hplace⟩
      rintro rfl
      exact hne hplace
    · rintro ⟨one, mem, hplace⟩
      obtain ⟨hmem, hne⟩ := (h.mem_left_iff hgrabbed).mp mem
      exact ⟨⟨one, hmem, hplace⟩, fun hid => hne (Layout.eq_of_index?_eq hplace hid)⟩

/-- A layout that starts afresh holds nothing, whatever should have been held. -/
theorem Tells.restart (h : notes.Tells canvas) {snapshot : Snapshot}
    (hshape : notes.snapshot.sameShape snapshot = false) :
    Tells { notes with snapshot, dragged := false, left := [] }
      { canvas with layout := (canvas.layout.turnTo snapshot).2 } := by
  rw [← h.snapshot_eq] at hshape
  have hafresh := Layout.turnTo_afresh_iff.mpr hshape
  have hturn := Layout.turnTo_of_afresh hafresh
  have hpinned : (canvas.layout.turnTo snapshot).2.pinned = [] :=
    congrArg Prod.fst (Layout.grasp_restart hafresh)
  constructor
  · rw [hturn]
    rfl
  · rw [hturn]
    apply map_mapIdx_of_eq
    intro index node
    rfl
  · exact h.grab_eq
  · exact fun _ _ => List.not_mem_nil
  · intro index
    dsimp only
    rw [hpinned]
    refine iff_of_false List.not_mem_nil ?_
    rintro ⟨id, mem, _⟩
    cases mem

/-- A layout that goes on holds what it held. -/
theorem Tells.relabel (h : notes.Tells canvas) {snapshot : Snapshot}
    (hshape : notes.snapshot.sameShape snapshot = true) :
    Tells { notes with snapshot } { canvas with layout := (canvas.layout.turnTo snapshot).2 } := by
  have hids : notes.snapshot.nodes.map SnapshotNode.id = snapshot.nodes.map SnapshotNode.id := by
    unfold Snapshot.sameShape at hshape
    rw [Bool.and_eq_true, beq_iff_eq, beq_iff_eq] at hshape
    exact hshape.2
  rw [← h.snapshot_eq] at hshape
  have hgoes := Layout.turnTo_goes_on_iff.mpr hshape
  have hpinned : (canvas.layout.turnTo snapshot).2.pinned = canvas.layout.pinned :=
    congrArg Prod.fst (Layout.grasp_turnTo hgoes)
  have hnodes := Layout.ids_turnTo hgoes
  constructor
  · dsimp only
    rw [Layout.turnTo_of_goes_on hgoes]
  · exact hnodes.trans (h.ids_eq.trans hids)
  · exact h.grab_eq
  · exact h.grabbed_apart
  · dsimp only
    rw [hpinned, Layout.index?_congr hnodes]
    exact h.pinned_iff

/-- After any event, the notes tell what is held. -/
theorem Tells.handle (h : notes.Tells canvas) (hkeeps : forces.KeepsBodies) (event : Event) :
    (notes.after event).Tells (canvas.handle forces event) := by
  cases event with
  | press point hit =>
    cases hit with
    | none => exact h.congr rfl rfl rfl
    | some id =>
      refine h.pin rfl rfl rfl rfl rfl fun one => ?_
      show one ∈ notes.held.filter (· ≠ id) ↔ one ∈ notes.held ∧ one ≠ id
      rw [List.mem_filter, decide_eq_true_eq]
  | move point =>
    have hnode := h.grab_eq
    obtain hgrabbed | ⟨id, hgrabbed⟩ := Option.eq_none_or_eq_some notes.grabbed
    · have hdragged : (notes.dragged || notes.grabbed.isSome) = notes.dragged := by
        rw [hgrabbed, Option.isSome_none, Bool.or_false]
      have hsame : notes.after (.move point) = notes := by
        show { notes with dragged := notes.dragged || notes.grabbed.isSome } = notes
        rw [hdragged]
      rw [hsame]
      show notes.Tells (canvas.pointerMove point)
      unfold pointerMove
      rw [hnode, hgrabbed]
      dsimp only
      split <;> exact h.congr rfl rfl rfl
    · have hdragged : (notes.after (.move point)).dragged = true := by
        unfold after
        rw [hgrabbed, Option.isSome_some, Bool.or_true]
      rw [hgrabbed] at hnode
      show (notes.after (.move point)).Tells (canvas.pointerMove point)
      unfold pointerMove
      rw [hnode]
      exact h.pin rfl hnode rfl hgrabbed hdragged fun one => h.mem_left_iff hgrabbed
  | release => exact h.drop rfl rfl
  | leave => exact h.drop rfl rfl
  | zoom point closer => exact h.congr rfl rfl rfl
  | resize width height =>
    exact h.congr (Layout.scene_resize canvas.layout width height)
      (Layout.pinned_reheat _ canvas.layout.settings.resizeAlpha) rfl
  | step dt =>
    exact h.congr (Layout.scene_step hkeeps canvas.layout dt) (Layout.pinned_step canvas.layout dt)
      rfl
  | turnTo snapshot =>
    unfold after
    dsimp only
    split
    · rename_i hshape
      exact h.relabel hshape
    · rename_i hshape
      exact h.restart (Bool.not_eq_true _ ▸ hshape)
  | emphasize selected hits =>
    exact h.congr (Layout.scene_emphasize canvas.layout selected hits) rfl rfl

/-- After any events, the notes tell what is held. -/
theorem Tells.handleAll (h : notes.Tells canvas) (hkeeps : forces.KeepsBodies)
    (events : List Event) : (notes.afterAll events).Tells (canvas.handleAll forces events) := by
  induction events generalizing notes canvas with
  | nil => exact h
  | cons event rest ih => exact ih (h.handle hkeeps event)

/-- Nothing is to be noted of a new canvas, which holds nothing. -/
theorem tells_new (snapshot : Snapshot) (width height : Float) (settings : LayoutSettings) :
    Tells { snapshot } (Canvas.new snapshot width height settings) := by
  refine ⟨rfl, ?_, rfl, fun _ _ => List.not_mem_nil, ?_⟩
  · apply map_mapIdx_of_eq
    intro index node
    rfl
  · intro index
    refine iff_of_false List.not_mem_nil ?_
    rintro ⟨id, mem, _⟩
    cases mem

/-- A node is held exactly if it should be and is laid out. -/
theorem Tells.isPinned_iff (h : notes.Tells canvas) {id : ConceptId} :
    canvas.layout.isPinned id = true ↔
      id ∈ notes.held ∧ id ∈ canvas.layout.nodes.map LaidNode.id := by
  rw [Layout.isPinned_iff, ← Layout.index?_isSome_iff, Option.isSome_iff_exists]
  constructor
  · rintro ⟨index, mem, hplace⟩
    obtain ⟨one, hone, hsame⟩ := (h.pinned_iff index).mp mem
    rw [Layout.eq_of_index?_eq hplace hsame]
    exact ⟨hone, index, hsame⟩
  · rintro ⟨hheld, index, hplace⟩
    exact ⟨index, (h.pinned_iff index).mpr ⟨id, hheld, hplace⟩, hplace⟩

/-- Nothing is held exactly if nothing that should be is laid out. -/
theorem Tells.pinned_eq_nil_iff (h : notes.Tells canvas) :
    canvas.layout.pinned = [] ↔
      ∀ id ∈ notes.held, id ∉ canvas.layout.nodes.map LaidNode.id := by
  rw [List.eq_nil_iff_forall_not_mem]
  constructor
  · intro hnone id hheld mem
    obtain ⟨index, hplace⟩ := Option.isSome_iff_exists.mp (Layout.index?_isSome_iff.mpr mem)
    exact hnone index ((h.pinned_iff index).mpr ⟨id, hheld, hplace⟩)
  · intro hnone index mem
    obtain ⟨id, hheld, hplace⟩ := (h.pinned_iff index).mp mem
    refine hnone id hheld (Layout.index?_isSome_iff.mp ?_)
    rw [hplace]
    rfl

/-- A grabbed node that is laid out is held exactly if it was pressed or dragged since the layout
last started afresh. -/
theorem Tells.isPinned_grabbed_iff (h : notes.Tells canvas) {id : ConceptId}
    (hnode : canvas.grab.node = some id) (hid : id ∈ canvas.layout.nodes.map LaidNode.id) :
    canvas.layout.isPinned id = true ↔ notes.dragged = true := by
  have hgrabbed : notes.grabbed = some id := h.grab_eq.symm.trans hnode
  have hapart := h.grabbed_apart id hgrabbed
  rw [h.isPinned_iff, and_iff_left hid]
  unfold held current
  rw [List.mem_append, or_iff_left hapart, hgrabbed]
  cases notes.dragged with
  | true => exact iff_of_true List.mem_cons_self rfl
  | false => exact iff_of_false List.not_mem_nil Bool.false_ne_true

end Tells

/-- Whether an event takes the pointer from no node: no press is on another node than the grabbed
one. -/
def takesTurn (notes : Notes) : Event → Bool
  | .press _ (some id) => notes.grabbed.all (· = id)
  | _ => true

/-- Whether no event takes the pointer from a node. -/
def takesTurns (notes : Notes) : List Event → Bool
  | [] => true
  | event :: rest => notes.takesTurn event && (notes.after event).takesTurns rest

/-- Where nothing was left behind, an event that takes the pointer from no node leaves none. -/
theorem left_after_eq_nil {notes : Notes} (h : notes.left = []) {event : Event}
    (ht : notes.takesTurn event = true) : (notes.after event).left = [] := by
  cases event with
  | press point hit =>
    cases hit with
    | none => exact h
    | some id =>
      have hgrabbed : ∀ one, notes.grabbed = some one → one = id := by
        intro one hone
        unfold takesTurn at ht
        rw [hone] at ht
        exact of_decide_eq_true ht
      show notes.held.filter (· ≠ id) = []
      rw [List.filter_eq_nil_iff]
      intro one mem
      unfold held current at mem
      rw [h, List.append_nil] at mem
      split at mem
      · rw [decide_eq_true_eq, ne_eq, not_not]
        exact hgrabbed one (Option.mem_toList.mp mem)
      · cases mem
  | turnTo snapshot =>
    unfold after
    dsimp only
    split
    · exact h
    · rfl
  | move point => exact h
  | release => exact h
  | leave => exact h
  | zoom point closer => exact h
  | resize width height => exact h
  | step dt => exact h
  | emphasize selected hits => exact h

/-- Where no event takes the pointer from a node, none is left behind. -/
theorem left_afterAll_eq_nil {notes : Notes} (h : notes.left = []) {events : List Event}
    (ht : notes.takesTurns events = true) : (notes.afterAll events).left = [] := by
  induction events generalizing notes with
  | nil => exact h
  | cons event rest ih =>
    unfold takesTurns at ht
    rw [Bool.and_eq_true] at ht
    exact ih (left_after_eq_nil h ht.1) ht.2

/-- What a layout is like under some forces once the pointer has let go: it holds what was left
behind. -/
structure Frees (notes : Notes) (forces : Forces) (layout : Layout) : Prop where
  /-- The nodes that are held are those left behind, if they are laid out. -/
  isPinned_iff : ∀ id, layout.isPinned id = true ↔
    id ∈ notes.left ∧ id ∈ layout.nodes.map LaidNode.id
  /-- Nothing is held exactly if none of these is laid out. -/
  pinned_eq_nil_iff : layout.pinned = [] ↔ ∀ id ∈ notes.left, id ∉ layout.nodes.map LaidNode.id
  /-- Where nothing is held, a step that hardly moves a node brings the layout to rest. -/
  rests : layout.pinned = [] → ∀ dt,
    Layout.farthest layout.positions (layout.step forces dt).positions <
        layout.settings.motionEpsilon →
      (layout.step forces dt).isRunning = false

/-- Once the pointer has let go, a layout holds what was left behind. -/
theorem Tells.frees {notes : Notes} {canvas : Canvas} (h : notes.Tells canvas)
    (hgrabbed : notes.grabbed = none) (forces : Forces) : notes.Frees forces canvas.layout := by
  have hheld := held_eq_left hgrabbed
  constructor
  · intro id
    rw [h.isPinned_iff, hheld]
  · rw [h.pinned_eq_nil_iff, hheld]
  · exact fun hnone dt => Layout.isRunning_step_of_still hnone

/-- What the grabbed node of a canvas is like under some forces. -/
structure Grasps (notes : Notes) (forces : Forces) (canvas : Canvas) : Prop where
  /-- Where it is laid out, it is held exactly if it was pressed or dragged since the layout last
  started afresh. -/
  isPinned_iff : ∀ id, canvas.grab.node = some id →
    id ∈ canvas.layout.nodes.map LaidNode.id →
      (canvas.layout.isPinned id = true ↔ notes.dragged = true)
  /-- While it is held, no steps move it. -/
  unmoved : ∀ id, canvas.layout.isPinned id = true → ∀ dts : List Float32,
    ((dts.foldl (Layout.step forces) canvas.layout).body? id).map Body.point =
      (canvas.layout.body? id).map Body.point
  /-- It is loose once the layout starts afresh. -/
  loosened : ∀ snapshot, (canvas.layout.turnTo snapshot).1 = true →
    ∀ id, (canvas.layout.turnTo snapshot).2.isPinned id = false
  /-- Where it is laid out, the next move of the pointer makes it held. -/
  regained : ∀ id, canvas.grab.node = some id → id ∈ canvas.layout.nodes.map LaidNode.id →
    ∀ point, (canvas.pointerMove point).layout.isPinned id = true

/-- What is noted of a canvas tells what its grabbed node is like, where the records of what is held
agree and the forces spare it. -/
theorem Tells.grasps {notes : Notes} {forces : Forces} {canvas : Canvas} (h : notes.Tells canvas)
    (hmarked : canvas.layout.HoldsMarked) (hspares : forces.SparesHeld) :
    notes.Grasps forces canvas := by
  constructor
  · exact fun id hnode hid => h.isPinned_grabbed_iff hnode hid
  · exact fun id hid dts => hmarked.point_steps hspares hid dts
  · intro snapshot hafresh id
    have hpinned : (canvas.layout.turnTo snapshot).2.pinned = [] :=
      congrArg Prod.fst (Layout.grasp_restart hafresh)
    rw [Bool.eq_false_iff, ne_eq, Layout.isPinned_iff, hpinned]
    rintro ⟨index, mem, _⟩
    cases mem
  · intro id hnode hid point
    have hgrabbed : notes.grabbed = some id := h.grab_eq.symm.trans hnode
    have hmoved := h.handle hspares.keepsBodies (.move point)
    have hdragged : (notes.after (.move point)).dragged = true := by
      unfold after
      rw [hgrabbed, Option.isSome_some, Bool.or_true]
    rw [h.ids_eq] at hid
    refine (hmoved.isPinned_grabbed_iff (hmoved.grab_eq.trans hgrabbed) ?_).mpr hdragged
    rw [hmoved.ids_eq]
    exact hid

end Notes

section Runs

variable (forces : Forces) (snapshot : Snapshot) (width height : Float)
  (settings : LayoutSettings) (events : List Event)

/-- Whatever happens to a new canvas, once the pointer is released or leaves, the layout holds
exactly those nodes from which a press on another node took the pointer, and that were neither
grabbed again nor put down by a fresh start since: nothing, if no press does so. Nothing is asked of
the forces but that they keep the bodies. -/
theorem released_holds_left (hkeeps : forces.KeepsBodies) :
    (Notes.afterAll { snapshot } events).Frees forces
        ((Canvas.new snapshot width height settings).handleAll forces events).release.layout ∧
      (Notes.afterAll { snapshot } events).Frees forces
        ((Canvas.new snapshot width height settings).handleAll forces events).leave.layout ∧
      (Notes.takesTurns { snapshot } events = true →
        ((Canvas.new snapshot width height settings).handleAll forces events).release.layout.pinned
            = [] ∧
          ((Canvas.new snapshot width height settings).handleAll forces events).leave.layout.pinned
            = []) := by
  have htells := (Notes.tells_new snapshot width height settings).handleAll hkeeps events
  have hrelease := (htells.handle hkeeps .release).frees rfl forces
  have hleave := (htells.handle hkeeps .leave).frees rfl forces
  refine ⟨⟨hrelease.1, hrelease.2, hrelease.3⟩, ⟨hleave.1, hleave.2, hleave.3⟩, fun hturns => ?_⟩
  have hleft : (Notes.afterAll { snapshot } events).left = [] :=
    Notes.left_afterAll_eq_nil rfl hturns
  have hnone : ∀ (layout : Layout), ∀ id ∈ (Notes.afterAll { snapshot } events).left,
      id ∉ layout.nodes.map LaidNode.id := by
    intro layout id mem
    rw [hleft] at mem
    cases mem
  exact ⟨hrelease.pinned_eq_nil_iff.mpr (hnone _), hleave.pinned_eq_nil_iff.mpr (hnone _)⟩

/-- Whatever happens to a new canvas, a grabbed node that is laid out is held, and stays where it is
put, exactly if it was pressed or dragged since the layout last started afresh. Nothing is asked of
the forces but that they spare what is held. -/
theorem grabbed_held_iff_dragged (hspares : forces.SparesHeld) :
    (Notes.afterAll { snapshot } events).Grasps forces
      ((Canvas.new snapshot width height settings).handleAll forces events) := by
  have htells := Notes.tells_new snapshot width height settings
  have hmarked := Layout.holdsMarked_ofSnapshot snapshot width height settings
  exact (htells.handleAll hspares.keepsBodies events).grasps
    (holdsMarked_handleAll hmarked hspares events) hspares

end Runs

/-- Two nodes that no line joins. -/
def dogsAndCats : Snapshot := { nodes := [⟨"dogs", "Dogs", some 0⟩, ⟨"cats", "Cats", some 1⟩] }

/-- The same nodes beside a third one. -/
def withWolves : Snapshot :=
  { nodes := [⟨"dogs", "Dogs", some 0⟩, ⟨"cats", "Cats", some 1⟩, ⟨"wolves", "Wolves", some 0⟩] }

/-- A press on the dogs and what comes after it. -/
def onDogs (later : List Event) : List Event := .press ⟨4, 3⟩ (some "dogs") :: later

/-- A new canvas of the two nodes after a press on the dogs and what comes after it. -/
def dogsPressed (later : List Event) : Canvas :=
  (Canvas.new dogsAndCats 800 600 {}).handleAll Simulation.forces (onDogs later)

/-- The pointer grabs the dogs, drags them and lets go, and then grabs the cats: nothing is held
once it lets go of these. -/
theorem released_holds_left_in_turn :
    let turns : List Event := [.move ⟨40, 30⟩, .release, .press ⟨5, 6⟩ (some "cats")]
    Simulation.forces.KeepsBodies ∧
      Notes.takesTurns { snapshot := dogsAndCats } (onDogs turns) = true ∧
      (dogsPressed turns).release.layout.pinned = [] := by
  intro turns
  have hturns : Notes.takesTurns { snapshot := dogsAndCats } (onDogs turns) = true := by
    decide +kernel
  have hholds := released_holds_left Simulation.forces dogsAndCats 800 600 {} (onDogs turns)
    Simulation.forces_keepsBodies
  exact ⟨Simulation.forces_keepsBodies, hturns, (hholds.2.2 hturns).1⟩

/-- A press on the cats takes the pointer from the dogs, and these stay held once it lets go. -/
theorem overtaken_dogs_stay_held :
    (dogsPressed [.press ⟨5, 6⟩ (some "cats")]).release.layout.isPinned "dogs" = true ∧
      (dogsPressed [.press ⟨5, 6⟩ (some "cats")]).release.layout.pinned ≠ [] := by
  decide +kernel

/-- The dogs are grabbed, the layout starts afresh with the wolves, and the pointer is moved on: the
dogs are held again, and no steps move them. -/
theorem grabbed_held_dogs_again :
    let layout := (dogsPressed [.turnTo withWolves, .move ⟨40, 30⟩]).layout
    Simulation.forces.SparesHeld ∧ layout.isPinned "dogs" = true ∧
      ∀ dts : List Float32,
        ((dts.foldl (Layout.step Simulation.forces) layout).body? "dogs").map Body.point =
          (layout.body? "dogs").map Body.point := by
  have hgrasps := grabbed_held_iff_dragged Simulation.forces dogsAndCats 800 600 {}
    (onDogs [.turnTo withWolves, .move ⟨40, 30⟩]) Simulation.forces_sparesHeld
  have hheld := (hgrasps.isPinned_iff "dogs" (by decide +kernel) (by decide +kernel)).mpr
    (by decide +kernel)
  exact ⟨Simulation.forces_sparesHeld, hheld, hgrasps.unmoved "dogs" hheld⟩

/-- While the dogs are grabbed, the layout starts afresh with the wolves: the dogs are laid out and
still grabbed, and they are not held. -/
theorem restarted_dogs_loose :
    (dogsPressed [.turnTo withWolves]).grab.node = some "dogs" ∧
      "dogs" ∈ (dogsPressed [.turnTo withWolves]).layout.nodes.map LaidNode.id ∧
      (dogsPressed [.turnTo withWolves]).layout.isPinned "dogs" = false := by
  decide +kernel

end Canvas

end Thesaurus

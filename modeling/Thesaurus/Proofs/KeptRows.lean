import Thesaurus.Proofs.ToldChanges

/-!
# Rows that are kept on the screen

A tree view does not draw its rows anew after each event. A row stays on the screen with the
occurrence that it was made for, and a change of the session that is told makes it due: it is to be
painted anew, and it is to open or to close what is below it; and the list of the top rows is to
follow the trees. These effects run one by one and in any order, other events in between. Whatever
has happened, once no effect is due the screen holds the document that would be drawn from the
session.
-/

namespace Thesaurus.Page

/-- A row that is kept on the screen. -/
structure KeptRow where
  /-- The occurrence that it was made for. -/
  top : Occurrence
  /-- The trees below the occurrence. -/
  below : Trees
  /-- The session as it was when the row was painted. -/
  seen : Session
  /-- Whether the row is to be painted anew. -/
  duePaint : Bool := false
  /-- Whether the row was open when it last made or removed the rows below it. -/
  isOpen : Bool
  /-- Whether the row is to open or to close. -/
  dueFold : Bool := false

namespace KeptRow

/-- Whether there are rows below a row. -/
def shows (row : KeptRow) : Bool := !row.below.isEmpty && row.isOpen

/-- A row that is made now. -/
def make (session : Session) (top : Occurrence) (below : Trees) : KeptRow :=
  { top, below, seen := session, isOpen := session.isOpen top.path }

/-- The row when it has opened or closed. -/
def folded (row : KeptRow) (session : Session) : KeptRow :=
  { row with isOpen := session.isOpen row.top.path, dueFold := false }

/-- The row as an element, as it was last painted. Whether it is hovered is shown at once. -/
def element (row : KeptRow) (marks : Marks) : Node TreeAction :=
  TreeView.row { session := row.seen, marks } row.top (!row.below.isEmpty)

end KeptRow

/-- The rows that are kept on the screen: none, or a first one with those below and beside it. -/
inductive KeptRows where
  /-- No row. -/
  | none
  /-- A row, the rows below it and the rows beside it. -/
  | row (first : KeptRow) (inner beside : KeptRows)

namespace KeptRows

/-- The rows that are made for some trees. -/
def make (session : Session) : Trees → KeptRows
  | .empty => .none
  | .node top below beside =>
    let first := KeptRow.make session top below
    .row first (if first.shows then make session below else .none) (make session beside)

/-- The rows when they are told that the session has changed. -/
def tell : KeptRows → KeptRows
  | .none => .none
  | .row first inner beside =>
    .row { first with duePaint := true, dueFold := true } inner.tell beside.tell

/-- The rows when some of them have been painted. -/
def paint (session : Session) (which : PathText → Bool) : KeptRows → KeptRows
  | .none => .none
  | .row first inner beside =>
    .row (if which first.top.path then { first with seen := session, duePaint := false } else first)
      (inner.paint session which) (beside.paint session which)

/-- The rows when some of them have opened or closed. One that has opened makes the rows below it
from the trees that it was made with, one that has closed removes them, and one that is open as
before leaves them as they are. -/
def fold (session : Session) (which : PathText → Bool) : KeptRows → KeptRows
  | .none => .none
  | .row first inner beside =>
    let next := first.folded session
    if which first.top.path then
      .row next
        (if next.isOpen = first.isOpen then inner.fold session which
          else if next.shows then make session first.below else .none)
        (beside.fold session which)
    else .row first (inner.fold session which) (beside.fold session which)

/-- Whether a row is to be painted, to open or to close. -/
def isDue : KeptRows → Bool
  | .none => false
  | .row first inner beside => first.duePaint || first.dueFold || inner.isDue || beside.isDue

/-- The rows as nodes. -/
def nodes (marks : Marks) : KeptRows → List (Node TreeAction)
  | .none => []
  | .row first inner beside =>
    .element "li" [("class", "tree-node")] []
        (first.element marks ::
          if first.shows then [.element "ul" [("class", "tree-children")] [] (inner.nodes marks)]
          else [])
      :: beside.nodes marks

/-- Rows that are those of some trees, each as a session demands unless it is due. -/
inductive Follows (session : Session) : KeptRows → Trees → Prop
  /-- No row for no tree. -/
  | none : Follows session .none .empty
  /-- A row for the top of the first tree, and rows for the trees below it as long as it shows them.
  What it has seen is what is to be seen, and it is as open as its path, unless it is due. -/
  | row {first : KeptRow} {inner beside : KeptRows} {trees : Trees}
      (hseen : first.duePaint = false → first.seen.look = session.look)
      (hopen : first.dueFold = false → first.isOpen = session.isOpen first.top.path)
      (hinner : first.shows = true → Follows session inner first.below)
      (hclosed : first.shows = false → inner = .none)
      (hbeside : Follows session beside trees) :
      Follows session (.row first inner beside) (.node first.top first.below trees)

variable {session other : Session} {kept : KeptRows} {trees : Trees}

/-- Rows that are made now are those of their trees. -/
theorem follows_make (session : Session) (trees : Trees) :
    (make session trees).Follows session trees := by
  induction trees with
  | empty => exact .none
  | node top below beside ihBelow ihBeside =>
    refine .row (fun _ => rfl) (fun _ => rfl) (fun hshows => ?_) (fun hshows => ?_) ihBeside
    · rw [if_pos hshows]
      exact ihBelow
    · rw [if_neg (Bool.eq_false_iff.mp hshows)]

/-- A session that looks the same is followed the same. -/
theorem Follows.congr (h : kept.Follows session trees) (hlook : other.look = session.look) :
    kept.Follows other trees := by
  have hopen : ∀ path, other.isOpen path = session.isOpen path := by
    intro path
    exact congrArg (fun look => look.1.isOpen path) hlook
  induction h with
  | none => exact .none
  | row hseen hpath _ hclosed _ ihInner ihBeside =>
    exact .row (fun hdue => (hseen hdue).trans hlook.symm)
      (fun hdue => (hpath hdue).trans (hopen _).symm) ihInner hclosed ihBeside

/-- Rows that have been told follow any session, as all of them are due. -/
theorem Follows.tell (h : kept.Follows session trees) (other : Session) :
    kept.tell.Follows other trees := by
  induction h with
  | none => exact .none
  | row _ _ _ hclosed _ ihInner ihBeside =>
    refine .row nofun nofun ihInner (fun hshows => ?_) ihBeside
    rw [hclosed hshows]
    rfl

/-- Painting some rows goes on to follow. -/
theorem Follows.paint (h : kept.Follows session trees) (which : PathText → Bool) :
    (kept.paint session which).Follows session trees := by
  induction h with
  | none => exact .none
  | @row first inner beside _ hseen hpath _ hclosed _ ihInner ihBeside =>
    have hrest : first.shows = false → inner.paint session which = .none := by
      intro hshows
      rw [hclosed hshows]
      rfl
    unfold KeptRows.paint
    split
    · exact .row (fun _ => rfl) hpath ihInner hrest ihBeside
    · exact .row hseen hpath ihInner hrest ihBeside

/-- Opening and closing some rows goes on to follow. -/
theorem Follows.fold (h : kept.Follows session trees) (which : PathText → Bool) :
    (kept.fold session which).Follows session trees := by
  induction h with
  | none => exact .none
  | @row first inner beside _ hseen hpath _ hclosed _ ihInner ihBeside =>
    have hrest : first.shows = false → inner.fold session which = .none := by
      intro hshows
      rw [hclosed hshows]
      rfl
    unfold KeptRows.fold
    dsimp only
    split
    · by_cases hsame : (first.folded session).isOpen = first.isOpen
      · -- the rows below stay, and some of them open or close themselves
        have hshows : (first.folded session).shows = first.shows :=
          congrArg (!first.below.isEmpty && ·) hsame
        rw [if_pos hsame]
        refine .row hseen (fun _ => rfl) ?_ ?_ ihBeside
        · rw [hshows]
          exact ihInner
        · rw [hshows]
          exact hrest
      · -- the rows below are made anew, by the session of now, or removed
        rw [if_neg hsame]
        refine .row hseen (fun _ => rfl) (fun hshows => ?_) (fun hshows => ?_) ihBeside
        · rw [if_pos hshows]
          exact follows_make session first.below
        · rw [if_neg (Bool.eq_false_iff.mp hshows)]
    · exact .row hseen hpath ihInner hrest ihBeside

/-- A row that has seen what is to be seen is painted as it is to be. -/
theorem element_eq {row : KeptRow} {view : TreeView} (h : row.seen.look = view.session.look) :
    row.element view.marks = view.row row.top (!row.below.isEmpty) := by
  obtain ⟨hexpansion, hrest⟩ := Prod.mk.inj h
  obtain ⟨hpending, hquery⟩ := Prod.mk.inj hrest
  unfold KeptRow.element TreeView.row TreeView.toggleButton TreeView.rowClass Session.isSearching
    Session.selected Session.isPending Session.isOpen
  dsimp only
  rw [hexpansion, hpending, hquery]

/-- Rows that follow a session and are not due are drawn as the session demands. -/
theorem Follows.nodes_eq {view : TreeView} (h : kept.Follows view.session trees)
    (hdue : kept.isDue = false) : kept.nodes view.marks = view.rows trees := by
  induction h with
  | none => rfl
  | @row first inner beside _ hseen hpath _ _ _ ihInner ihBeside =>
    unfold isDue at hdue
    simp only [Bool.or_eq_false_iff] at hdue
    obtain ⟨⟨⟨hpaint, hfold⟩, hinner⟩, hbeside⟩ := hdue
    unfold nodes TreeView.rows
    rw [element_eq (hseen hpaint), ihBeside hbeside, ← hpath hfold]
    dsimp only
    have hshows : first.shows = (!first.below.isEmpty && first.isOpen) := rfl
    rw [← hshows]
    split
    · rename_i hopen
      rw [ihInner hopen hinner]
    · rfl

/-- Rows that are made now and painted are not due. -/
theorem isDue_paint_make (session : Session) (trees : Trees) :
    ((make session trees).paint session fun _ => true).isDue = false := by
  induction trees with
  | empty => rfl
  | node top below beside ihBelow ihBeside =>
    unfold make paint isDue
    rw [if_pos rfl]
    dsimp only
    rw [ihBeside]
    split
    · rw [ihBelow]
      rfl
    · rfl

/-- Once all rows have opened or closed and been painted, none is due. -/
theorem isDue_paint_fold (session : Session) (kept : KeptRows) :
    ((kept.fold session fun _ => true).paint session fun _ => true).isDue = false := by
  induction kept with
  | none => rfl
  | row first inner beside ihInner ihBeside =>
    unfold fold
    dsimp only
    rw [if_pos rfl]
    unfold paint isDue
    rw [if_pos rfl]
    have hfolded : (first.folded session).dueFold = false := rfl
    dsimp only
    rw [ihBeside, hfolded]
    by_cases hsame : (first.folded session).isOpen = first.isOpen
    · rw [if_pos hsame, ihInner]
      rfl
    · rw [if_neg hsame]
      by_cases hshows : (first.folded session).shows = true
      · rw [if_pos hshows, isDue_paint_make]
        rfl
      · rw [if_neg hshows]
        rfl

end KeptRows

/-- A tree view with what is on the screen. -/
structure TreeScreen where
  /-- The view. -/
  view : TreeView
  /-- The edition of the trees that the list of top rows was made for. -/
  edition : Nat
  /-- These trees. -/
  trees : Trees
  /-- The rows on the screen. -/
  rows : KeptRows
  /-- Whether the list is to follow the trees. -/
  dueList : Bool := false

namespace TreeScreen

/-- What may happen to a tree view: events, changes by others, and effects that run. -/
inductive Happening where
  /-- An event happens at a place, be it on the screen or not. -/
  | event (place : Place TreeAction) (event : Event)
  /-- Others that share the session change it, and tell so. -/
  | act (action : Session.Action)
  /-- The list of top rows follows the trees. -/
  | follow
  /-- Some rows are painted. -/
  | paint (which : PathText → Bool)
  /-- Some rows open or close. -/
  | fold (which : PathText → Bool)

/-- A tree view that is put on a page. -/
def mount (session : Session) : TreeScreen :=
  { view := { session }
    edition := session.edition
    trees := session.forest.roots
    rows := .make session session.forest.roots }

/-- The screen when its view has changed, and was told so or not. -/
def changed (screen : TreeScreen) (view : TreeView) (told : Bool) : TreeScreen :=
  { screen with
    view
    rows := if told then screen.rows.tell else screen.rows
    dueList := screen.dueList || told }

/-- The screen when the list of top rows follows the trees: rows are made for new trees, and else
all stay. -/
def followed (screen : TreeScreen) : TreeScreen :=
  let session := screen.view.session
  if screen.edition = session.edition then { screen with dueList := false }
  else { mount session with view := screen.view }

/-- What comes of a happening. -/
def after (screen : TreeScreen) : Happening → TreeScreen
  | .event place event =>
    screen.changed (screen.view.handle place event).2 (screen.view.tells place event)
  | .act action =>
    screen.changed
      (screen.view.change { screen.view with session := screen.view.session.act action }) true
  | .follow => screen.followed
  | .paint which => { screen with rows := screen.rows.paint screen.view.session which }
  | .fold which => { screen with rows := screen.rows.fold screen.view.session which }

/-- What comes of some happenings. -/
def afterAll (screen : TreeScreen) (happenings : List Happening) : TreeScreen :=
  happenings.foldl after screen

/-- Whether no effect is due. -/
def isSettled (screen : TreeScreen) : Bool := !screen.dueList && !screen.rows.isDue

/-- All effects that can be due. -/
def effects : List Happening := [.follow, .fold fun _ => true, .paint fun _ => true]

/-- The document that is on the screen. -/
def document (screen : TreeScreen) : Node TreeAction :=
  .element "div" [("class", "concept-tree")] []
    ([screen.view.topZone,
        .element "ul" [("class", "tree")] [] (screen.rows.nodes screen.view.marks)]
      ++ (if screen.trees.isEmpty then
          [.element "p" [("class", "tree-empty")] [] [.text "No concepts in this scheme"]]
        else []))

/-- Rows that are those of the trees they were made for, which are the trees of now unless the list
is due. -/
structure Sound (screen : TreeScreen) : Prop where
  /-- Rows that are not due are as the session demands. -/
  follows : screen.rows.Follows screen.view.session screen.trees
  /-- The trees of the rows are no younger than those of the session. -/
  edition_le : screen.edition ≤ screen.view.session.edition
  /-- Of the same edition, they are the same. -/
  trees_eq : screen.edition = screen.view.session.edition →
    screen.trees = screen.view.session.forest.roots
  /-- They are of the same edition, unless the list is due. -/
  edition_eq : screen.dueList = false → screen.edition = screen.view.session.edition

variable {screen : TreeScreen}

/-- A view that is put on a page is sound. -/
theorem sound_mount (session : Session) : (mount session).Sound where
  follows := KeptRows.follows_make session session.forest.roots
  edition_le := Nat.le_refl _
  trees_eq _ := rfl
  edition_eq _ := rfl

/-- A change leaves the screen sound: if it is told all rows are due, and else it is not seen. -/
theorem Sound.changed (h : screen.Sound) {view : TreeView} {told : Bool}
    (hleads : Session.Leads told screen.view.session view.session) :
    (screen.changed view told).Sound where
  follows := by
    unfold TreeScreen.changed
    cases told with
    | true => exact h.follows.tell view.session
    | false => exact h.follows.congr (hleads.unseen rfl).1
  edition_le := Nat.le_trans h.edition_le hleads.edition_le
  trees_eq he := by
    -- no trees were made in between, as editions only grow
    have hsame : screen.edition = screen.view.session.edition :=
      Nat.le_antisymm h.edition_le (he ▸ hleads.edition_le)
    show screen.trees = view.session.forest.roots
    rw [h.trees_eq hsame, hleads.forest_eq (hsame.symm.trans he)]
  edition_eq hidle := by
    obtain ⟨hlist, htold⟩ := Bool.or_eq_false_iff.mp hidle
    exact (h.edition_eq hlist).trans (hleads.unseen htold).2.symm

/-- That the list follows the trees leaves the screen sound. -/
theorem Sound.followed (h : screen.Sound) : screen.followed.Sound := by
  unfold TreeScreen.followed
  dsimp only
  split
  · rename_i hsame
    exact ⟨h.follows, h.edition_le, h.trees_eq, fun _ => hsame⟩
  · have hnew := sound_mount screen.view.session
    exact ⟨hnew.follows, hnew.edition_le, hnew.trees_eq, hnew.edition_eq⟩

/-- Any happening leaves the screen sound. -/
theorem Sound.after (h : screen.Sound) (happening : Happening) :
    (screen.after happening).Sound := by
  cases happening with
  | event place event => exact h.changed (screen.view.leads_handle place event)
  | act action => exact h.changed (Session.leads_act screen.view.session action)
  | follow => exact h.followed
  | paint which => exact ⟨h.follows.paint which, h.edition_le, h.trees_eq, h.edition_eq⟩
  | fold which => exact ⟨h.follows.fold which, h.edition_le, h.trees_eq, h.edition_eq⟩

/-- So do any happenings. -/
theorem Sound.afterAll (h : screen.Sound) (happenings : List Happening) :
    (screen.afterAll happenings).Sound :=
  List.foldlRecOn happenings TreeScreen.after h fun _ hs happening _ => hs.after happening

/-- All effects together settle a screen. -/
theorem isSettled_effects (screen : TreeScreen) : (screen.afterAll effects).isSettled = true := by
  have hlist : screen.followed.dueList = false := by
    unfold followed
    dsimp only
    split <;> rfl
  have hrows : (screen.afterAll effects).rows.isDue = false :=
    KeptRows.isDue_paint_fold screen.followed.view.session screen.followed.rows
  show (!screen.followed.dueList && !(screen.afterAll effects).rows.isDue) = true
  rw [hlist, hrows]
  rfl

/-- A sound screen on which no effect is due holds the document that is drawn from the session. -/
theorem Sound.document_eq (h : screen.Sound) (hsettled : screen.isSettled = true) :
    screen.document = screen.view.document := by
  unfold isSettled at hsettled
  rw [Bool.and_eq_true, Bool.not_eq_true', Bool.not_eq_true'] at hsettled
  have htrees := h.trees_eq (h.edition_eq hsettled.1)
  have hrows := h.follows.nodes_eq hsettled.2
  unfold document TreeView.document
  rw [hrows, htrees]

end TreeScreen

end Thesaurus.Page

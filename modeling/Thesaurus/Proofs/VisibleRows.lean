import Mathlib.Data.List.Forall2
import Mathlib.Data.String.Basic
import Thesaurus.Proofs.KeptRows
import Thesaurus.Proofs.Placement

/-!
# The rows of the tree view

Whatever happens to a tree view and to the session that it shares, once no effect is due the rows
on the screen are, in document order, the occurrences of the session's trees of which all
occurrences above are open. Each row is indented by its depth, and its class tells what the search
says of it, and whether its concept is selected or waits for an answer.
-/

namespace Thesaurus

/-- Each line of trees below a line goes on from that line. -/
theorem Trees.suffix_of_mem_lines {trees : Trees} {above line : List Occurrence}
    (mem : line ∈ trees.lines above) : above <:+ line.tail := by
  induction trees generalizing above with
  | empty => cases mem
  | node top below beside ihBelow ihBeside =>
    unfold lines at mem
    rcases List.mem_cons.mp mem with rfl | mem
    · exact List.suffix_refl above
    · rcases List.mem_append.mp mem with mem | mem
      · exact (List.suffix_cons top above).trans (ihBelow mem)
      · exact ihBeside mem

/-- Whether all occurrences above the one at the end of a line are open. -/
def isVisible (isOpen : PathText → Bool) (line : List Occurrence) : Bool :=
  line.tail.all fun above => isOpen above.path

/-- The occurrences of a session of which all occurrences above are open, in display order. -/
def Session.visible (session : Session) : List Occurrence :=
  (session.forest.lines.filter (isVisible session.isOpen)).filterMap List.head?

/-- Where all is open above, the occurrences that are shown are those of which all occurrences above
are open. -/
theorem Trees.shown_eq {isOpen : PathText → Bool} (trees : Trees) {above : List Occurrence}
    (h : (above.all fun top => isOpen top.path) = true) :
    trees.shown isOpen = ((trees.lines above).filter (isVisible isOpen)).filterMap List.head? := by
  induction trees generalizing above with
  | empty => rfl
  | node top below beside ihBelow ihBeside =>
    have htop : isVisible isOpen (top :: above) = true := h
    unfold shown lines
    rw [List.filter_cons, if_pos htop, List.filter_append, List.filterMap_cons, ihBeside h]
    dsimp only [List.head?_cons]
    rw [List.filterMap_append]
    cases hopen : isOpen top.path with
    | true =>
      have hline : ((top :: above).all fun top => isOpen top.path) = true := by
        rw [List.all_cons, hopen, h]
        rfl
      rw [ihBelow hline]
      rfl
    | false =>
      -- the closed top is above the end of each of these lines
      have hnone : (below.lines (top :: above)).filter (isVisible isOpen) = [] := by
        rw [List.filter_eq_nil_iff]
        intro line mem hvisible
        have hmem : top ∈ line.tail :=
          (Trees.suffix_of_mem_lines mem).subset List.mem_cons_self
        exact Bool.false_ne_true (hopen.symm.trans (List.all_eq_true.mp hvisible top hmem))
      rw [hnone]
      rfl

namespace Page

/-- The text of a class attribute with some names. -/
def classText (first : String) (names : List String) : String :=
  names.foldl (fun text name => text ++ " " ++ name) first

/-- The characters of the text of a class attribute. -/
theorem toList_classText (first : String) (names : List String) :
    (classText first names).toList =
      first.toList ++ names.flatMap fun name => ' ' :: name.toList := by
  induction names generalizing first with
  | nil => rw [List.flatMap_nil, List.append_nil]; rfl
  | cons name rest ih =>
    show (classText (first ++ " " ++ name) rest).toList = _
    rw [ih, String.toList_append, String.toList_append, List.flatMap_cons]
    simp only [List.append_assoc, List.cons_append]
    rfl

/-- The text of a class attribute tells its names. -/
theorem splitToList_classText {first : String} {names : List String}
    (h : ∀ name ∈ first :: names, ' ' ∉ name.toList) :
    (classText first names).splitToList (· == ' ') = first :: names := by
  have hplain : ∀ {name : String}, ' ' ∉ name.toList →
      name.toList.splitOnP (· == ' ') = [name.toList] := by
    intro name hname
    refine List.splitOnP_eq_singleton fun c hc => ?_
    rw [beq_eq_false_iff_ne]
    exact fun hspace => hname (hspace ▸ hc)
  have hchars : (classText first names).toList.splitOnP (· == ' ') =
      (first :: names).map String.toList := by
    rw [toList_classText]
    -- the text is cut at the space behind the first name, whatever the first name is
    induction names generalizing first with
    | nil =>
      rw [List.flatMap_nil, List.append_nil, hplain (h first List.mem_cons_self)]
      rfl
    | cons name rest ih =>
      rw [List.flatMap_cons, List.cons_append, List.splitOnP_append_cons (p := (· == ' ')) _ _ rfl,
        hplain (h first List.mem_cons_self),
        ih fun other mem => h other (List.mem_cons_of_mem _ mem)]
      rfl
  rw [String.splitToList_of_valid, hchars, List.map_map]
  exact List.map_id'' (fun name => String.ofList_toList) _

section Names

variable {α : Type} {place : Place α} {first : String} {names : List String}

/-- An element is of the classes that its attribute names. -/
theorem hasClass_eq (hc : place.attributes.lookup "class" = some (classText first names))
    (h : ∀ name ∈ first :: names, ' ' ∉ name.toList) (name : String) :
    place.hasClass name = (first :: names).contains name := by
  unfold Place.hasClass
  rw [hc]
  dsimp only
  rw [splitToList_classText h]

/-- What a verdict adds to the classes of a place. -/
def dropNames : Option Verdict → List String
  | some .accepted => ["drop-valid"]
  | some .idle => []
  | some _ => ["drop-invalid"]
  | none => []

/-- What a search adds to the classes of a row. -/
def searchNames (mark : SearchMark) (searching : Bool) : List String :=
  match mark with
  | .hit => ["match"]
  | .aboveHit => ["match-ancestor"]
  | .plain => if searching then ["dimmed"] else []

/-- The classes of a row besides that of all rows. -/
def rowNames (view : TreeView) (row : Occurrence) : List String :=
  searchNames row.mark view.session.isSearching
    ++ (if view.session.selected = some row.id then ["selected"] else [])
    ++ (if view.session.isPending row.id then ["pending"] else [])
    ++ dropNames (view.marks.get (some row.path))

/-- More names go behind the text. -/
theorem classText_append (first : String) (names more : List String) :
    classText first (names ++ more) = classText (classText first names) more :=
  List.foldl_append

/-- A name goes behind the text with a space before it. -/
theorem append_name (text name : String) : text ++ (" " ++ name) = classText text [name] :=
  (String.append_assoc ..).symm

/-- A verdict adds its names. -/
theorem append_dropClass (text : String) (verdict : Option Verdict) :
    text ++ dropClass verdict = classText text (dropNames verdict) := by
  cases verdict with
  | none => exact String.append_empty
  | some verdict =>
    cases verdict with
    | accepted => exact append_name text "drop-valid"
    | idle => exact String.append_empty
    | _ => exact append_name text "drop-invalid"

/-- A search adds its names. -/
theorem append_searchClass (text : String) (mark : SearchMark) (searching : Bool) :
    text ++ searchClass mark searching = classText text (searchNames mark searching) := by
  cases mark with
  | hit => exact append_name text "match"
  | aboveHit => exact append_name text "match-ancestor"
  | plain =>
    cases searching with
    | true => exact append_name text "dimmed"
    | false => exact String.append_empty

/-- What holds of a row adds its name. -/
theorem append_name_if (text name : String) (holds : Prop) [Decidable holds] :
    text ++ (if holds then " " ++ name else "") =
      classText text (if holds then [name] else []) := by
  split
  · exact append_name text name
  · exact String.append_empty

/-- The class of a row is the text of its names. -/
theorem rowClass_eq (view : TreeView) (row : Occurrence) :
    view.rowClass row = classText "tree-row" (rowNames view row) := by
  unfold rowNames
  rw [classText_append, classText_append, classText_append, ← append_dropClass,
    ← append_name_if, ← append_name_if, ← append_searchClass]
  rfl

/-- No name of a place for a drop holds a space. -/
theorem space_not_mem_dropNames (verdict : Option Verdict) :
    ∀ name ∈ dropNames verdict, ' ' ∉ name.toList := by
  cases verdict with
  | none => exact nofun
  | some verdict => cases verdict <;> decide

/-- No name of a row holds a space. -/
theorem space_not_mem_rowNames (view : TreeView) (row : Occurrence) :
    ∀ name ∈ "tree-row" :: rowNames view row, ' ' ∉ name.toList := by
  unfold rowNames
  simp only [List.forall_mem_cons, List.forall_mem_append]
  refine ⟨by decide, ⟨⟨?_, ?_⟩, ?_⟩, space_not_mem_dropNames _⟩
  · unfold searchNames
    split
    · decide
    · decide
    · split <;> decide
  · split <;> decide
  · split <;> decide

end Names

/-- How a place shows an occurrence of a session as a row. -/
structure ShowsRow (session : Session) (row : Occurrence) (place : Place TreeAction) : Prop where
  /-- A click there selects the concept. -/
  selects : ("click", .select row.id) ∈ place.line.headD []
  /-- A drag from there takes hold of the occurrence. -/
  grabs : ("dragstart", .grab row.id row.path) ∈ place.line.headD []
  /-- The place is indented by the depth. -/
  indent : place.attributes.lookup "style" =
    some ("padding-left: " ++ toString (row.depth * 16) ++ "px")
  /-- It is marked as a match exactly if the search hits the occurrence. -/
  match_iff : place.hasClass "match" = true ↔ row.mark = .hit
  /-- It is marked as above a match exactly if the search hits only below the occurrence. -/
  above_iff : place.hasClass "match-ancestor" = true ↔ row.mark = .aboveHit
  /-- It is dimmed exactly if there is a search that hits neither. -/
  dimmed_iff : place.hasClass "dimmed" = true ↔ session.isSearching = true ∧ row.mark = .plain
  /-- It is marked as selected exactly if the concept is. -/
  selected_iff : place.hasClass "selected" = true ↔ session.selected = some row.id
  /-- It is marked as pending exactly if a change of the concept is not answered yet. -/
  pending_iff : place.hasClass "pending" = true ↔ session.isPending row.id = true

/-- Which classes a row has besides that of all rows. -/
theorem mem_rowNames {view : TreeView} {row : Occurrence} {name : String} :
    name ∈ rowNames view row ↔
      name ∈ searchNames row.mark view.session.isSearching ∨
        (view.session.selected = some row.id ∧ name = "selected") ∨
          (view.session.isPending row.id = true ∧ name = "pending") ∨
            name ∈ dropNames (view.marks.get (some row.path)) := by
  have hif : ∀ (holds : Prop) [Decidable holds] (one : String),
      name ∈ (if holds then [one] else []) ↔ holds ∧ name = one := by
    intro holds _ one
    by_cases h : holds
    · simp only [h, if_true, List.mem_singleton, true_and]
    · simp only [h, if_false, List.not_mem_nil, false_and]
  unfold rowNames
  rw [List.mem_append, List.mem_append, List.mem_append, hif, hif, or_assoc, or_assoc]

/-- A verdict adds no other name than these. -/
theorem eq_of_mem_dropNames {verdict : Option Verdict} {name : String}
    (mem : name ∈ dropNames verdict) : name = "drop-valid" ∨ name = "drop-invalid" := by
  cases verdict with
  | none => cases mem
  | some verdict =>
    cases verdict with
    | accepted => exact Or.inl (List.mem_singleton.mp mem)
    | idle => cases mem
    | _ => exact Or.inr (List.mem_singleton.mp mem)

/-- What a search adds to the classes of a row. -/
theorem mem_searchNames {mark : SearchMark} {searching : Bool} {name : String} :
    name ∈ searchNames mark searching ↔
      (mark = .hit ∧ name = "match") ∨ (mark = .aboveHit ∧ name = "match-ancestor") ∨
        (searching = true ∧ mark = .plain ∧ name = "dimmed") := by
  cases mark with
  | hit => simp [searchNames]
  | aboveHit => simp [searchNames]
  | plain => cases searching <;> simp [searchNames]

/-- Which classes the place of a row has, those of drops apart. -/
theorem hasClass_row_iff {view : TreeView} {row : Occurrence} {place : Place TreeAction}
    (hc : place.attributes.lookup "class" = some (view.rowClass row)) {name : String}
    (hdrop : name ≠ "drop-valid" ∧ name ≠ "drop-invalid") :
    place.hasClass name = true ↔ name = "tree-row" ∨
      ((row.mark = .hit ∧ name = "match") ∨ (row.mark = .aboveHit ∧ name = "match-ancestor") ∨
          (view.session.isSearching = true ∧ row.mark = .plain ∧ name = "dimmed")) ∨
        (view.session.selected = some row.id ∧ name = "selected") ∨
          (view.session.isPending row.id = true ∧ name = "pending") := by
  rw [rowClass_eq] at hc
  have hnone : name ∉ dropNames (view.marks.get (some row.path)) := by
    intro mem
    exact (eq_of_mem_dropNames mem).elim hdrop.1 hdrop.2
  rw [hasClass_eq hc (space_not_mem_rowNames view row), List.contains_iff_mem, List.mem_cons,
    mem_rowNames, mem_searchNames]
  simp only [hnone, or_false]

/-- A place that has the class and the handlers of the row of an occurrence shows it. -/
theorem showsRow_of_class {view : TreeView} {row : Occurrence} {place : Place TreeAction}
    (hc : place.attributes.lookup "class" = some (view.rowClass row))
    (hindent : place.attributes.lookup "style" =
      some ("padding-left: " ++ toString (row.depth * 16) ++ "px"))
    (hselects : ("click", .select row.id) ∈ place.line.headD [])
    (hgrabs : ("dragstart", .grab row.id row.path) ∈ place.line.headD []) :
    ShowsRow view.session row place where
  selects := hselects
  grabs := hgrabs
  indent := hindent
  match_iff := by
    rw [hasClass_row_iff hc (by decide)]
    simp
  above_iff := by
    rw [hasClass_row_iff hc (by decide)]
    simp
  dimmed_iff := by
    rw [hasClass_row_iff hc (by decide)]
    simp
  selected_iff := by
    rw [hasClass_row_iff hc (by decide)]
    simp
  pending_iff := by
    rw [hasClass_row_iff hc (by decide)]
    simp

/-- Whether an element is a row. -/
def isRow (place : Place TreeAction) : Bool := place.hasClass "tree-row"

/-- An element of the class of the row of an occurrence is a row. -/
theorem isRow_of_rowClass {view : TreeView} {row : Occurrence} {place : Place TreeAction}
    (hc : place.attributes.lookup "class" = some (view.rowClass row)) : isRow place = true :=
  (hasClass_row_iff hc (by decide)).mpr (Or.inl rfl)

/-- An element of one other class is no row. -/
theorem isRow_of_class {place : Place TreeAction} {name : String}
    (hc : place.attributes.lookup "class" = some name)
    (hname : ' ' ∉ name.toList ∧ name ≠ "tree-row") : isRow place = false := by
  have hclass : place.attributes.lookup "class" = some (classText name []) := hc
  unfold isRow
  rw [hasClass_eq hclass fun one mem => List.mem_singleton.mp mem ▸ hname.1, List.contains_eq_mem]
  exact decide_eq_false fun mem => hname.2 (List.mem_singleton.mp mem).symm

/-- The elements of some nodes are those of the first ones and those of the others. -/
theorem placesOfAll_append {α : Type} (above : List (Handlers α)) (first rest : List (Node α)) :
    placesOfAll above (first ++ rest) = placesOfAll above first ++ placesOfAll above rest := by
  induction first with
  | nil => rfl
  | cons node others ih =>
    rw [List.cons_append, placesOfAll, placesOfAll, ih, List.append_assoc]

/-- The rows among the elements of some nodes, in document order. -/
def rowsOf (above : List (Handlers TreeAction)) (nodes : List (Node TreeAction)) :
    List (Place TreeAction) :=
  (placesOfAll above nodes).filter isRow

section Rows

variable (above : List (Handlers TreeAction))

/-- The rows of some nodes are those of the first ones and those of the others. -/
theorem rowsOf_append (first rest : List (Node TreeAction)) :
    rowsOf above (first ++ rest) = rowsOf above first ++ rowsOf above rest := by
  unfold rowsOf
  rw [placesOfAll_append, List.filter_append]

/-- The rows of some nodes are those of the first one and those of the others. -/
theorem rowsOf_cons (first : Node TreeAction) (rest : List (Node TreeAction)) :
    rowsOf above (first :: rest) = rowsOf above [first] ++ rowsOf above rest :=
  rowsOf_append above [first] rest

/-- The rows of an element are itself, if it is one, and those in it. -/
theorem rowsOf_element (tag : String) (attributes : List (String × String))
    (handlers : Handlers TreeAction) (children : List (Node TreeAction)) :
    rowsOf above [.element tag attributes handlers children] =
      (if isRow ⟨tag, attributes, handlers :: above⟩ then [⟨tag, attributes, handlers :: above⟩]
        else []) ++ rowsOf (handlers :: above) children := by
  unfold rowsOf
  rw [placesOfAll, Node.places, placesOfAll, List.append_nil, List.filter_cons]
  split <;> rfl

variable {above}

/-- The rows of an element of one other class are those in it. -/
theorem rowsOf_other {tag name : String} {attributes : List (String × String)}
    {handlers : Handlers TreeAction} {children : List (Node TreeAction)}
    (hc : attributes.lookup "class" = some name) (hname : ' ' ∉ name.toList ∧ name ≠ "tree-row") :
    rowsOf above [.element tag attributes handlers children] =
      rowsOf (handlers :: above) children := by
  rw [rowsOf_element, isRow_of_class hc hname]
  rfl

/-- There is no row in a text. -/
theorem rowsOf_text (text : String) : rowsOf above [.text text] = [] := rfl

/-- Nodes without rows have none, whether they are there or not. -/
theorem rowsOf_if {nodes : List (Node TreeAction)} (h : rowsOf above nodes = []) (holds : Bool) :
    rowsOf above (if holds then nodes else []) = [] := by
  cases holds with
  | true => exact h
  | false => rfl

/-- There is no row in the button of a row. -/
theorem rowsOf_toggleButton (view : TreeView) (row : Occurrence) :
    rowsOf above [view.toggleButton row] = [] :=
  rowsOf_other rfl (by decide)

/-- There is no row in the label of a row. -/
theorem rowsOf_label (row : Occurrence) :
    rowsOf above [.element "span" [("class", "tree-label")] [] [.text row.label]] = [] :=
  rowsOf_other rfl (by decide)

/-- There is no row in the badge of a row. -/
theorem rowsOf_badge (row : Occurrence) : rowsOf above [TreeView.badge row] = [] :=
  rowsOf_other rfl (by decide)

/-- The row of an occurrence is the only row in it, and shows the occurrence. -/
theorem rowsOf_row (view : TreeView) (row : Occurrence) (isBranch : Bool) :
    ∃ place, rowsOf above [view.row row isBranch] = [place] ∧
      ShowsRow view.session row place := by
  unfold TreeView.row
  rw [rowsOf_element, rowsOf_append, rowsOf_append, rowsOf_if (rowsOf_toggleButton view row),
    rowsOf_label, rowsOf_if (rowsOf_badge row)]
  split
  · refine ⟨_, rfl, showsRow_of_class rfl rfl ?_ ?_⟩
    · exact List.mem_cons_self
    · exact List.mem_cons_of_mem _ List.mem_cons_self
  · rename_i hno
    exact (hno (isRow_of_rowClass rfl)).elim

/-- The rows of some trees show the occurrences with nothing closed above them, in order. -/
theorem rowsOf_rows (view : TreeView) (trees : Trees) :
    List.Forall₂ (ShowsRow view.session) (trees.shown view.session.isOpen)
      (rowsOf above (view.rows trees)) := by
  induction trees generalizing above with
  | empty => exact .nil
  | node top below beside ihBelow ihBeside =>
    have hrow : ∃ place, rowsOf ([] :: above) [view.row top (!below.isEmpty)] = [place] ∧
        ShowsRow view.session top place := rowsOf_row view top _
    obtain ⟨place, hplace, hshows⟩ := hrow
    unfold TreeView.rows Trees.shown
    dsimp only
    rw [rowsOf_cons, rowsOf_other rfl (by decide), rowsOf_cons, hplace, List.append_assoc,
      List.singleton_append]
    refine .cons hshows (List.rel_append ?_ ihBeside)
    cases view.session.isOpen top.path with
    | false =>
      rw [Bool.and_false]
      exact .nil
    | true =>
      rw [Bool.and_true, if_pos rfl]
      cases hempty : below.isEmpty with
      | true =>
        have hnone : below = .empty := by
          cases below with
          | empty => rfl
          | node => cases hempty
        rw [hnone]
        exact .nil
      | false =>
        rw [Bool.not_false, if_pos rfl, rowsOf_other rfl (by decide)]
        exact ihBelow

/-- There is no row in the zone for top concepts. -/
theorem rowsOf_topZone (view : TreeView) : rowsOf above [view.topZone] = [] := by
  have hclass : List.lookup "class" [("class", "tree-root-drop" ++ dropClass view.marks.top)] =
      some (classText "tree-root-drop" (dropNames view.marks.top)) := by
    rw [append_dropClass]
    rfl
  have hnames : ∀ name ∈ "tree-root-drop" :: dropNames view.marks.top, ' ' ∉ name.toList :=
    List.forall_mem_cons.mpr ⟨by decide, space_not_mem_dropNames _⟩
  have hzone : ∀ handlers, isRow ⟨"div",
      [("class", "tree-root-drop" ++ dropClass view.marks.top)], handlers :: above⟩ = false := by
    intro handlers
    unfold isRow
    rw [hasClass_eq hclass hnames, List.contains_eq_mem]
    refine decide_eq_false fun mem => ?_
    rcases List.mem_cons.mp mem with hfirst | mem
    · exact absurd hfirst (by decide)
    · exact absurd (eq_of_mem_dropNames mem) (by decide)
  unfold TreeView.topZone
  rw [rowsOf_element, hzone, rowsOf_text]
  rfl

/-- The rows of the document show the visible occurrences of the session, in order. -/
theorem rowsOf_document (view : TreeView) :
    List.Forall₂ (ShowsRow view.session) view.session.visible (rowsOf [] [view.document]) := by
  unfold TreeView.document Session.visible Forest.lines
  have hnothing : (([] : List Occurrence).all fun top => view.session.isOpen top.path) = true := rfl
  rw [← Trees.shown_eq view.session.forest.roots hnothing]
  dsimp only
  rw [rowsOf_other rfl (by decide), rowsOf_append, rowsOf_if (rowsOf_other rfl (by decide)),
    List.append_nil, rowsOf_cons, rowsOf_topZone, List.nil_append, rowsOf_other rfl (by decide)]
  exact rowsOf_rows view view.session.forest.roots

end Rows

namespace TreeScreen

/-- Whatever events happen to a tree view, whatever others do to the session that it shares, and in
whichever order effects run, once none is due the rows on the screen are in document order the
occurrences of the session's trees of which all occurrences above are open, each indented and
classed as the session has it. Running all effects makes none due. -/
theorem rows_visible (session : Session) (happenings : List Happening) :
    let screen := (mount session).afterAll happenings
    (screen.isSettled = true → List.Forall₂ (ShowsRow screen.view.session)
        screen.view.session.visible (rowsOf [] [screen.document])) ∧
      (screen.afterAll effects).isSettled = true := by
  refine ⟨fun hsettled => ?_, isSettled_effects _⟩
  have hsound := (sound_mount session).afterAll happenings
  rw [hsound.document_eq hsettled]
  exact rowsOf_document _

/-- The animals are loaded and birds are opened; dogs are searched for, taken hold of and dropped on
birds before the rows have been painted. -/
def dogsDropped : List Happening :=
  let birds := Path.child (Path.root "animals") "birds"
  let dogs := Path.child (Path.root "pets") "dogs"
  [.act (.turnTo "animals"),
    .act (.receiveScheme "animals" (.ok (ConceptGraph.ofRecords Samples.animals))), .follow,
    .event ⟨"button", [], [[("click", .toggle birds)]]⟩ { kind := "click" },
    .fold fun path => path == birds, .act (.search "dog"),
    .event ⟨"div", [], [[("dragstart", .grab "dogs" dogs)]]⟩ { kind := "dragstart" }, .follow,
    .event ⟨"div", [], [[("drop", .drop (.concept "birds") (some birds))]]⟩ { kind := "drop" },
    .paint fun _ => true, .fold fun _ => true, .follow]

/-- Then the search has opened what is above the dogs, and the birds are open as before. -/
theorem rows_visible_dogs :
    let screen := (mount (Session.new Samples.settings)).afterAll dogsDropped
    screen.isSettled = true ∧
      screen.view.session.visible.map (fun row => (row.id, row.depth)) =
        [("animals", 0), ("mammals", 1), ("canines", 2), ("dogs", 3), ("wolves", 3), ("cats", 2),
          ("birds", 1), ("parrots", 2), ("crows", 2), ("pets", 0), ("dogs", 1), ("cats", 1),
          ("parrots", 1)] ∧
      screen.view.session.isPending "dogs" = true ∧
      List.Forall₂ (ShowsRow screen.view.session) screen.view.session.visible
        (rowsOf [] [screen.document]) := by
  have hsettled :
      ((mount (Session.new Samples.settings)).afterAll dogsDropped).isSettled = true := by
    decide +kernel
  exact ⟨hsettled, by decide +kernel, by decide +kernel,
    (rows_visible (Session.new Samples.settings) dogsDropped).1 hsettled⟩

end TreeScreen

end Page

end Thesaurus

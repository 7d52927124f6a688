/-!
# Documents and their events

A document is a tree of elements and texts. An element carries handlers: for a kind of event, an
action of the page. An event goes to an element and from there up to its ancestors, until a
handler stops it.
-/

namespace Thesaurus.Page

/-- A node of a document whose handlers stand for actions. -/
inductive Node (α : Type) where
  /-- A text. -/
  | text (content : String)
  /-- An element with its attributes, its handlers and what is in it. -/
  | element (tag : String) (attributes : List (String × String)) (handlers : List (String × α))
    (children : List (Node α))

/-- Handlers: kinds of events with the actions they cause. -/
abbrev Handlers (α : Type) := List (String × α)

/-- An element in its document, with the handlers that an event at it meets. -/
structure Place (α : Type) where
  /-- The tag. -/
  tag : String
  /-- The attributes. -/
  attributes : List (String × String)
  /-- The handlers of the element, then those of its ancestors, the nearest first. -/
  line : List (Handlers α)

mutual

/-- All elements of a node in document order. -/
def Node.places {α : Type} (above : List (Handlers α)) : Node α → List (Place α)
  | .text _ => []
  | .element tag attributes handlers children =>
    ⟨tag, attributes, handlers :: above⟩ :: placesOfAll (handlers :: above) children

/-- All elements of some nodes in document order. -/
def placesOfAll {α : Type} (above : List (Handlers α)) : List (Node α) → List (Place α)
  | [] => []
  | first :: rest => first.places above ++ placesOfAll above rest

end

mutual

/-- The same node, its actions taken for actions of a larger page. -/
def Node.map {α β : Type} (embed : α → β) : Node α → Node β
  | .text content => .text content
  | .element tag attributes handlers children =>
    .element tag attributes (handlers.map fun handler => (handler.1, embed handler.2))
      (mapAll embed children)

/-- The same nodes, their actions taken for actions of a larger page. -/
def mapAll {α β : Type} (embed : α → β) : List (Node α) → List (Node β)
  | [] => []
  | first :: rest => first.map embed :: mapAll embed rest

end

/-- Whether an element is of a class. -/
def Place.hasClass {α : Type} (place : Place α) (name : String) : Bool :=
  match place.attributes.lookup "class" with
  | some classes => (classes.splitToList (· == ' ')).contains name
  | none => false

/-- The n-th element with a tag and perhaps of a class. -/
def place? {α : Type} (document : List (Node α)) (tag : String) (className : Option String)
    (n : Nat) : Option (Place α) :=
  ((placesOfAll [] document).filter fun place =>
    place.tag == tag && className.all place.hasClass)[n]?

/-- The n-th element for a selector: a tag, or a tag and a class with a point between them. What
stands behind the first point is the name of the class. -/
def select? {α : Type} (document : List (Node α)) (selector : String) (n : Nat) :
    Option (Place α) :=
  match selector.splitOn "." with
  | [] => none
  | [tag] => place? document tag none n
  | tag :: rest => place? document tag (some (".".intercalate rest)) n

/-- What happened at an element. -/
structure Event where
  /-- The kind of event. -/
  kind : String
  /-- Whether the Alt key was held. -/
  alt : Bool := false
  /-- The horizontal position of the pointer. -/
  x : Float := 0
  /-- The vertical position of the pointer. -/
  y : Float := 0
  /-- How far the wheel was turned. -/
  deltaY : Float := 0
  /-- The value of the element. -/
  value : String := ""
  /-- Whether data can be handed along. -/
  hasTransfer : Bool := false

/-- The data handed along with a drag. -/
structure Transfer where
  /-- Texts with their types. -/
  texts : List (String × String) := []
  /-- What may be done with them. -/
  effect : Option String := none

/-- What the handlers of an event asked for. -/
structure Reaction where
  /-- How many handlers ran. -/
  handlers : Nat := 0
  /-- Whether the browser shall do nothing of its own. -/
  prevented : Bool := false
  /-- Whether the event shall not go up. -/
  stopped : Bool := false
  /-- The data handed along. -/
  transfer : Transfer := {}

/-- Both of two reactions. -/
def Reaction.also (first second : Reaction) : Reaction :=
  { handlers := first.handlers + second.handlers
    prevented := first.prevented || second.prevented
    stopped := first.stopped || second.stopped
    transfer :=
      { texts := first.transfer.texts ++ second.transfer.texts
        effect := second.transfer.effect.or first.transfer.effect } }

/-- Whether an event of a kind goes up to ancestors. -/
def bubbles (kind : String) : Bool := kind != "mouseleave"

/-- Run the actions that an event meets, up to the element at which it is stopped. -/
def dispatch {α σ : Type} (run : α → Event → σ → Reaction × σ) (event : Event) :
    List (Handlers α) → σ → Reaction × σ
  | [], state => ({}, state)
  | handlers :: above, state =>
    let due := handlers.filter (·.1 == event.kind)
    let (reaction, state) := due.foldl
      (fun (reaction, state) handler =>
        let (next, state) := run handler.2 event state
        (reaction.also { next with handlers := 1 }, state)) (({} : Reaction), state)
    if reaction.stopped || !bubbles event.kind then (reaction, state)
    else
      let (later, state) := dispatch run event above state
      (reaction.also later, state)

end Thesaurus.Page
